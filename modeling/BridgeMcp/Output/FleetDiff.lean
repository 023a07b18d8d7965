import Mathlib.Data.List.Sort
import BridgeMcp.Output.HeadTail

/-!
One command on many hosts, and the comparison of what they answered with a baseline host. The
outputs are cut and cached host by host before they are compared.
-/
namespace BridgeMcp.Output.FleetDiff
open TextLib List

/-- What a host answered: the sanitised output as a whole, and the exit code. -/
structure Answer where
  output : Text
  exitCode : ℕ

structure HostResult where
  host : Text
  exitCode : Option ℕ
  output : Option Text
  error : Option Text

def executeOnHost (maxChars : ℕ) (host : Text) (answer : Answer) (cache : Option OutputCache)
    (now created : ℕ) : Except SlicePanic (HostResult × Option OutputCache) :=
  (truncateOutputWithCache answer.output maxChars cache now created none).map fun p =>
    (⟨host, some answer.exitCode, some p.1, none⟩, p.2)

structure Turn where
  host : Text
  now : ℕ
  created : ℕ

/-- The host tasks in the order in which they come to the cache. A task that panics has no result. -/
def joinAll (maxChars : ℕ) (answers : Text → Answer) :
    Option OutputCache → List Turn → List HostResult
  | _, [] => []
  | cache, turn :: rest =>
    match executeOnHost maxChars turn.host (answers turn.host) cache turn.now turn.created with
    | .ok (result, cache) => result :: joinAll maxChars answers cache rest
    | .error _ => joinAll maxChars answers cache rest

structure HostDiffEntry where
  matchesBaseline : Bool
  exitCode : ℕ
  output : Text
  diff : Option Text
  largeOutputFallback : Bool

structure DiffSummary where
  total : ℕ
  matching : ℕ
  divergent : ℕ
  divergentHosts : List Text

structure MultiHostDiff where
  baselineHost : Text
  baselineOutput : Text
  hosts : List (Text × HostDiffEntry)
  summary : DiffSummary

inductive DiffError where
  | baselineNotFound (baseline : Text)
  | emptyResults

def largeOutputThreshold : ℕ := 100000

/-- The two texts made of an output: without volatile parts, and its differences from another. -/
structure Rendering where
  normalized : Text → Text
  unifiedDiff : Text → Text → Text

variable (rendering : Rendering)

def maybeNormalize (output : Text) (normalize : Bool) : Text :=
  if normalize then rendering.normalized output else output

def compareOutput (baselineOutput : Text) (exitCode : ℕ) (normalized : Text) : HostDiffEntry :=
  if normalized = baselineOutput then ⟨true, exitCode, normalized, none, false⟩
  else if largeOutputThreshold < utf8Len baselineOutput ∨ largeOutputThreshold < utf8Len normalized
  then ⟨false, exitCode, normalized, none, true⟩
  else ⟨false, exitCode, normalized, some (rendering.unifiedDiff baselineOutput normalized), false⟩

/-- The variables of the comparison loop. -/
structure Tally where
  hosts : List (Text × HostDiffEntry) := []
  divergentHosts : List Text := []
  matching : ℕ := 0

def Tally.insert (tally : Tally) (host : Text) (entry : HostDiffEntry) : Tally :=
  { tally with hosts := tally.hosts.filter (fun p => p.1 ≠ host) ++ [(host, entry)] }

def entryOf (baselineHost baselineOutput : Text) (normalize : Bool) (result : Text × Text × ℕ) :
    HostDiffEntry :=
  let normalized := maybeNormalize rendering result.2.1 normalize
  if result.1 = baselineHost then ⟨true, result.2.2, normalized, none, false⟩
  else compareOutput rendering baselineOutput result.2.2 normalized

def Tally.step (baselineHost baselineOutput : Text) (normalize : Bool) (tally : Tally)
    (result : Text × Text × ℕ) : Tally :=
  let entry := entryOf rendering baselineHost baselineOutput normalize result
  let tally := tally.insert result.1 entry
  if entry.matchesBaseline then { tally with matching := tally.matching + 1 }
  else { tally with divergentHosts := tally.divergentHosts ++ [result.1] }

def computeMultiHostDiff (baselineHost : Text) (results : List (Text × Text × ℕ))
    (normalize : Bool) : Except DiffError MultiHostDiff :=
  if results = [] then .error .emptyResults
  else
    match results.find? fun r => r.1 = baselineHost with
    | none => .error (.baselineNotFound baselineHost)
    | some baselineRaw =>
      let baselineOutput := maybeNormalize rendering baselineRaw.2.1 normalize
      let tally := results.foldl (Tally.step rendering baselineHost baselineOutput normalize) {}
      .ok ⟨baselineHost, baselineOutput, tally.hosts,
        ⟨results.length, tally.matching, results.length - tally.matching, tally.divergentHosts⟩⟩

def exitOf (code : ℕ) : ℕ := if code < 2 ^ 31 then code else 0

def diffInput (r : HostResult) : Text × Text × ℕ :=
  (r.host, (r.output.or r.error).getD [], exitOf (r.exitCode.getD 0))

/-- A call with `diff`, every command of which ran: the order of the turns at the cache and the
order in which the results come in are any. -/
structure Call where
  hosts : List Text
  distinct : hosts.Nodup
  diffBaseline : Text
  baseline_mem : diffBaseline ∈ hosts
  maxOutput : ℕ
  cache : Option OutputCache
  answers : Text → Answer
  turns : List Turn
  turns_hosts : turns.map Turn.host ~ hosts
  arrived : List HostResult
  arrived_perm : arrived ~ joinAll maxOutput answers cache turns

def Call.results (call : Call) : List HostResult :=
  call.arrived.insertionSort fun a b => call.hosts.idxOf a.host ≤ call.hosts.idxOf b.host

def Call.diff (call : Call) (normalize : Bool) : Option MultiHostDiff :=
  (computeMultiHostDiff rendering call.diffBaseline (call.results.map diffInput) normalize).toOption

variable {rendering} {baselineHost baselineOutput : Text} {normalize : Bool}

theorem tally_spec {results : List (Text × Text × ℕ)} (hdistinct : (results.map Prod.fst).Nodup)
    (rendering : Rendering) (baselineHost baselineOutput : Text) (normalize : Bool) :
    let entry := entryOf rendering baselineHost baselineOutput normalize
    let tally := results.foldl (Tally.step rendering baselineHost baselineOutput normalize) {}
    tally.hosts = results.map (fun r => (r.1, entry r)) ∧
      tally.divergentHosts = (tally.hosts.filter fun p => !p.2.matchesBaseline).map Prod.fst ∧
      tally.matching + tally.divergentHosts.length = results.length := by
  induction results using reverseRecOn with
  | nil => exact ⟨rfl, rfl, rfl⟩
  | append_singleton results r ih =>
    rw [map_append, map_singleton, nodup_append] at hdistinct
    obtain ⟨hhosts, hdivergent, hcount⟩ := ih hdistinct.1
    have hnew : ∀ p ∈ results.map fun r =>
        (r.1, entryOf rendering baselineHost baselineOutput normalize r), p.1 ≠ r.1 := by
      intro p hp
      obtain ⟨q, hq, rfl⟩ := mem_map.mp hp
      exact hdistinct.2.2 q.1 (mem_map_of_mem hq) r.1 (mem_singleton_self _)
    have hkeep := filter_eq_self.mpr fun p hp => decide_eq_true (hnew p hp)
    dsimp only at hhosts hdivergent hcount ⊢
    rw [foldl_concat, Tally.step]
    rw [hhosts] at hdivergent
    dsimp only [Tally.insert]
    rw [hhosts, hkeep, map_append, map_singleton, length_append, length_singleton]
    cases hmatch : (entryOf rendering baselineHost baselineOutput normalize r).matchesBaseline with
    | true =>
      refine ⟨rfl, ?_, ?_⟩
      · simpa [hmatch] using hdivergent
      · exact (Nat.add_right_comm ..).trans (congrArg (· + 1) hcount)
    | false =>
      refine ⟨rfl, ?_, ?_⟩
      · simpa [hmatch] using hdivergent
      · simpa [← Nat.add_assoc] using hcount

theorem entryOf_matches (result : Text × Text × ℕ)
    (hbaseline : result.1 = baselineHost → result.2.1 = baselineOutput) :
    (entryOf rendering baselineHost baselineOutput false result).matchesBaseline = true ↔
      result.2.1 = baselineOutput := by
  unfold entryOf compareOutput maybeNormalize
  by_cases hhost : result.1 = baselineHost
  · simp [hhost, hbaseline hhost]
  · by_cases houtput : result.2.1 = baselineOutput
    · simp [hhost, houtput]
    · simp only [Bool.false_eq_true, if_false, hhost, houtput]
      split <;> simp

theorem executeOnHost_ok (maxChars : ℕ) (host : Text) (answer : Answer)
    (cache : Option OutputCache) (now created : ℕ) :
    ∃ output cache', executeOnHost maxChars host answer cache now created =
      .ok (⟨host, some answer.exitCode, some output, none⟩, cache') ∧
      (maxChars = 0 ∨ utf8Len answer.output ≤ maxChars → output = answer.output) := by
  unfold executeOnHost truncateOutputWithCache
  by_cases hfits : maxChars = 0 ∨ utf8Len answer.output ≤ maxChars
  · exact ⟨answer.output, cache, by rw [if_pos hfits]; rfl, fun _ => rfl⟩
  · obtain ⟨head, tail, hhead, htail, -⟩ := exists_kept (not_le.mp (not_or.mp hfits).2)
    rw [if_neg hfits]
    simp only [hhead, htail]
    cases cache <;> exact ⟨_, _, rfl, fun h => absurd h hfits⟩

theorem joinAll_spec (maxChars : ℕ) (answers : Text → Answer) (cache : Option OutputCache)
    (turns : List Turn) :
    (joinAll maxChars answers cache turns).map HostResult.host = turns.map Turn.host ∧
      ∀ r ∈ joinAll maxChars answers cache turns,
        maxChars = 0 ∨ utf8Len (answers r.host).output ≤ maxChars →
          (diffInput r).2.1 = (answers r.host).output := by
  induction turns generalizing cache with
  | nil => exact ⟨rfl, nofun⟩
  | cons turn turns ih =>
    obtain ⟨output, cache', hok, hfits⟩ := executeOnHost_ok maxChars turn.host (answers turn.host)
      cache turn.now turn.created
    rw [joinAll, hok]
    refine ⟨congrArg (turn.host :: ·) (ih cache').1, fun r hr => ?_⟩
    cases hr with
    | head => exact hfits
    | tail _ hr => exact (ih cache').2 r hr

/-- The output of the host goes into the comparison as a whole. -/
def Call.Uncut (call : Call) (h : Text) : Prop :=
  call.maxOutput = 0 ∨ utf8Len (call.answers h).output ≤ call.maxOutput

/-- The report on a host says whether its whole output is that of the baseline. -/
def Call.Compared (call : Call) (d : MultiHostDiff) (h : Text) : Prop :=
  ∀ e, (h, e) ∈ d.hosts → (e.matchesBaseline = true ↔
    (call.answers h).output = (call.answers call.diffBaseline).output)

def Call.Counted (call : Call) (d : MultiHostDiff) : Prop :=
  d.hosts.map Prod.fst ~ call.hosts ∧ d.summary.total = call.hosts.length ∧
    d.summary.matching + d.summary.divergent = d.summary.total ∧
    d.summary.divergentHosts = (d.hosts.filter fun p => !p.2.matchesBaseline).map Prod.fst

theorem Call.results_perm (call : Call) :
    call.results ~ joinAll call.maxOutput call.answers call.cache call.turns :=
  (perm_insertionSort _ _).trans call.arrived_perm

theorem Call.inputs_perm (call : Call) :
    (call.results.map diffInput).map Prod.fst ~ call.hosts := by
  rw [map_map]
  refine (call.results_perm.map _).trans ?_
  exact (joinAll_spec ..).1 ▸ call.turns_hosts

/-- For every call with `normalize` off: the report has one entry a host and the counts agree with
the entries; and a host is compared whose own output and the baseline's were not cut. -/
theorem fleet_compared_of_fits (rendering : Rendering) (call : Call) :
    ∃ d, call.diff rendering false = some d ∧ call.Counted d ∧
      ∀ h, call.Uncut h → call.Uncut call.diffBaseline → call.Compared d h := by
  have hinputs := call.inputs_perm
  have hlength := hinputs.length_eq
  obtain ⟨baselineRaw, hfind⟩ : ∃ r, (call.results.map diffInput).find?
      (fun r => r.1 = call.diffBaseline) = some r := by
    obtain ⟨r, hr, hhost⟩ := mem_map.mp (hinputs.mem_iff.mpr call.baseline_mem)
    exact Option.isSome_iff_exists.mp (find?_isSome.mpr ⟨r, hr, decide_eq_true hhost⟩)
  have hbaseline : baselineRaw.1 = call.diffBaseline := by
    simpa using find?_some hfind
  have hne : call.results.map diffInput ≠ [] := ne_nil_of_mem (mem_of_find?_eq_some hfind)
  obtain ⟨hhosts, hdivergent, hcount⟩ := tally_spec (hinputs.nodup_iff.mpr call.distinct)
    rendering call.diffBaseline (maybeNormalize rendering baselineRaw.2.1 false) false
  unfold Call.diff computeMultiHostDiff
  rw [if_neg hne, hfind]
  refine ⟨_, rfl, ⟨?_, hlength ▸ (length_map _).symm, ?_, hdivergent⟩,
    fun h hown hbase e he => ?_⟩
  · change map Prod.fst (Tally.hosts _) ~ _
    rw [hhosts, map_map]
    exact hinputs
  · exact Nat.add_sub_of_le (hcount ▸ Nat.le_add_right _ _)
  · obtain ⟨r, hr, heq⟩ := mem_map.mp (hhosts ▸ he)
    cases heq
    -- an input that was not cut carries the answer of its own host
    have hanswer : ∀ r ∈ call.results.map diffInput, call.Uncut r.1 →
        r.2.1 = (call.answers r.1).output := by
      intro r hr huncut
      obtain ⟨result, hresult, rfl⟩ := mem_map.mp hr
      exact (joinAll_spec ..).2 result (call.results_perm.mem_iff.mp hresult) huncut
    have hraw := hanswer baselineRaw (mem_of_find?_eq_some hfind) (hbaseline ▸ hbase)
    change (entryOf rendering call.diffBaseline baselineRaw.2.1 false r).matchesBaseline = true ↔ _
    rw [entryOf_matches r fun hhost => ?_, hanswer r hr hown, hraw, hbaseline]
    rw [hanswer r hr hown, hraw, hhost, hbaseline]

def pair (first second : Text) (cache : Option OutputCache) : Call where
  hosts := [['a'], ['b']]
  distinct := by decide
  diffBaseline := ['a']
  baseline_mem := by decide
  maxOutput := 5
  cache := cache
  answers := fun h => ⟨if h = ['a'] then first else second, 0⟩
  turns := [⟨['a'], 0, 0⟩, ⟨['b'], 0, 0⟩]
  turns_hosts := .rfl
  arrived := _
  arrived_perm := .rfl

def pairMatches (call : Call) : Option (List (Text × Bool)) :=
  (call.diff ⟨id, fun _ _ => []⟩ false).map fun d => d.hosts.map fun p => (p.1, p.2.matchesBaseline)

/-- A difference in the middle is cut away; and equal outputs get different ids from the cache. -/
theorem cut_outputs_compared :
    (∃ d, (pair "abcdefghij" "abXdefghij" none).diff ⟨id, fun _ _ => []⟩ false = some d ∧
      ¬ (pair "abcdefghij" "abXdefghij" none).Compared d ['b']) ∧
    pairMatches (pair "abcdefghij" "abcdefghij" (some (.new 10 10))) =
      some [(['a'], true), (['b'], false)] := by
  refine ⟨?_, by decide +kernel⟩
  have hmatches : pairMatches (pair "abcdefghij" "abXdefghij" none) =
      some [(['a'], true), (['b'], true)] := by decide +kernel
  obtain ⟨d, hd, hentries⟩ := Option.map_eq_some_iff.mp hmatches
  have hb : (['b'], true) ∈ d.hosts.map fun p => (p.1, p.2.matchesBaseline) := by
    rw [hentries]
    exact mem_cons_of_mem _ (mem_singleton_self _)
  obtain ⟨⟨_, e⟩, hp, heq⟩ := mem_map.mp hb
  obtain ⟨rfl, hmatch⟩ := Prod.mk.inj heq
  exact ⟨d, hd, fun h => absurd ((h e hp).mp hmatch) (by decide)⟩

end BridgeMcp.Output.FleetDiff
