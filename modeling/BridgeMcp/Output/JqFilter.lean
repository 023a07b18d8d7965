import BridgeMcp.Lib.Lines

/-!
The jq filter on the output of a tool, and the cap on its result lines. What jaq makes of a program
and a value is a parameter.
-/
namespace BridgeMcp.Output.JqFilter
open TextLib LineLib

inductive Yield (V : Type) where
  | value (v : V)
  | error (message : Text)

def Yield.isError {V : Type} : Yield V → Bool
  | .value _ => false
  | .error _ => true

def Yield.line {V : Type} (display : V → Text) : Yield V → Text
  | .value v => display v
  | .error e => "jq error: " ++ e

inductive Evaluation (V : Type) where
  | parseErrors (messages : List Text)
  | compileErrors (messages : List Text)
  | yields (results : List (Yield V))

/-- serde's reader and jaq: what a program makes of an input, and how a value prints. -/
structure Jaq where
  V : Type
  fromStr : Text → Except Text V
  run : Text → V → Evaluation V
  display : V → Text
  tsvLine : V → Text
  display_line : ∀ v, display v ≠ [] ∧ '\n' ∉ display v ∧ '\r' ∉ display v

variable (jaq : Jaq)

def joined (lines : List Text) : Text := ['\n'].intercalate lines

def collected {V : Type} (parseError : Text) (display : V → Text) :
    Evaluation V → Except Text Text
  | .parseErrors messages => .error (parseError ++ "; ".toList.intercalate messages)
  | .compileErrors messages =>
    .error ("jq filter compile error: " ++ "; ".toList.intercalate messages)
  | .yields results => .ok (joined (results.map (Yield.line display)))

def filterWith (parseError : Text) (display : jaq.V → Text) (input filter : Text) :
    Except Text Text :=
  match jaq.fromStr input with
  | .error e =>
    .error ("jq_filter requires JSON output, but command returned plain text: " ++ e ++
      ". Use 'columns' or 'limit' parameters for non-JSON output.")
  | .ok inputVal => collected parseError display (jaq.run filter inputVal)

def applyJqFilter (input filter : Text) : Except Text Text :=
  filterWith jaq ("jq filter parse error in `" ++ filter ++ "`: ") jaq.display input
    filter

def applyJqFilterTsv : Text → Text → Except Text Text :=
  filterWith jaq "jq filter parse error: " jaq.tsvLine

structure DataReductionArgs where
  jqFilter : Option Text
  limit : Option ℕ
  outputFormat : Option Text

def DataReductionArgs.wantsTsv (dr : DataReductionArgs) : Bool :=
  dr.outputFormat.any fun s => lower s == "tsv"

def capFilterResults (stdout : Text) : Option ℕ → Text
  | none => stdout
  | some limit =>
    if (lines stdout).length ≤ limit then stdout else joined ((lines stdout).take limit)

/-- What `stdout` becomes; `none` if there is no filter. -/
def tryApplyJq (stdout : Text) (dr : DataReductionArgs) : Except Text (Option Text) :=
  match dr.jqFilter with
  | none => .ok none
  | some filter =>
    (if dr.wantsTsv then applyJqFilterTsv jaq stdout filter
      else applyJqFilter jaq stdout filter).map fun out => some (capFilterResults out dr.limit)

/-- The arm of a `Json` tool. `jsonLimit` cuts a top-level array. -/
def applyReduction (jsonLimit : Text → Option ℕ → Text) (stdout : Text) (dr : DataReductionArgs) :
    Except Text (Bool × Text) :=
  (tryApplyJq jaq stdout dr).map fun
    | some out => (true, out)
    | none => (false, jsonLimit stdout dr.limit)

theorem lines_joined {texts : List Text} (h : ∀ t ∈ texts, t ≠ [] ∧ '\n' ∉ t ∧ '\r' ∉ t) :
    lines (joined texts) = texts := by
  induction texts with
  | nil => rfl
  | cons t texts ih =>
    obtain ⟨⟨hne, hbreak, hreturn⟩, htexts⟩ := List.forall_mem_cons.mp h
    cases texts with
    | nil => rw [joined, List.intercalate_singleton, lines_single hne hbreak]
    | cons u texts =>
      have hlast : t.getLast? ≠ some '\r' := fun hlast => hreturn (List.mem_of_getLast? hlast)
      rw [joined, List.intercalate_cons_cons, ← joined]
      exact (lines_line hbreak hlast .lf _).trans (by rw [ih htexts])

/-- The lines a filter has to give: none if it fails anywhere. -/
def resultLines (filter : Text) (v : jaq.V) : Option (List Text) :=
  match jaq.run filter v with
  | .yields results =>
    if results.any Yield.isError then none else some (results.map (Yield.line jaq.display))
  | _ => none

/-- Failures are reported as failures, results as results: of a JSON input, by the filter alone and
by the reduction with a limit. -/
def Reported (jsonLimit : Text → Option ℕ → Text) (input filter : Text) (limit : ℕ) : Prop :=
  ∀ v, jaq.fromStr input = .ok v →
    let filtered := applyJqFilter jaq input filter
    let reduced := applyReduction jaq jsonLimit input ⟨some filter, some limit, none⟩
    match resultLines jaq filter v with
    | none => (∃ e, filtered = .error e) ∧ ∃ e, reduced = .error e
    | some texts =>
      filtered = .ok (joined texts) ∧ reduced = .ok (true, joined (texts.take limit))

theorem capFilterResults_joined {texts : List Text} (limit : ℕ)
    (h : ∀ t ∈ texts, t ≠ [] ∧ '\n' ∉ t ∧ '\r' ∉ t) :
    capFilterResults (joined texts) (some limit) = joined (texts.take limit) := by
  rw [capFilterResults, lines_joined h]
  split
  · next hle => rw [List.take_of_length_le hle]
  · rfl

variable {jaq}

theorem line_of_value {results : List (Yield jaq.V)} (h : results.any Yield.isError = false) :
    ∀ t ∈ results.map (Yield.line jaq.display), t ≠ [] ∧ '\n' ∉ t ∧ '\r' ∉ t := by
  intro t ht
  obtain ⟨y, hy, rfl⟩ := List.mem_map.mp ht
  cases y with
  | value v => exact jaq.display_line v
  | error e => exact absurd rfl (List.any_eq_false.mp h _ hy)

theorem applyReduction_filtered {jsonLimit : Text → Option ℕ → Text} {input filter : Text}
    {limit : ℕ} :
    applyReduction jaq jsonLimit input ⟨some filter, some limit, none⟩ =
      (applyJqFilter jaq input filter).map fun out =>
        (true, capFilterResults out (some limit)) := by
  change ((applyJqFilter jaq input filter).map _).map _ = _
  cases applyJqFilter jaq input filter <;> rfl

/-- For every evaluator, input, filter and limit: the report is right exactly if no result of the
filter is a run-time error. -/
theorem reported_iff (jaq : Jaq) (jsonLimit : Text → Option ℕ → Text) (input filter : Text)
    (limit : ℕ) :
    Reported jaq jsonLimit input filter limit ↔
      ∀ v results, jaq.fromStr input = .ok v → jaq.run filter v = .yields results →
        results.any Yield.isError = false := by
  have hfiltered : ∀ v, jaq.fromStr input = .ok v → ∃ parseError,
      applyJqFilter jaq input filter = collected parseError jaq.display (jaq.run filter v) := by
    intro v hv
    rw [applyJqFilter, filterWith, hv]
    exact ⟨_, rfl⟩
  unfold Reported
  simp only [applyReduction_filtered]
  constructor
  · intro h v results hv hrun
    have hreport := h v hv
    obtain ⟨parseError, hout⟩ := hfiltered v hv
    cases hany : results.any Yield.isError with
    | false => rfl
    | true =>
      simp only [hout, resultLines, hrun, hany, if_true] at hreport
      obtain ⟨⟨e, he⟩, -⟩ := hreport
      cases he
  · intro h v hv
    obtain ⟨parseError, hout⟩ := hfiltered v hv
    cases hrun : jaq.run filter v with
    | parseErrors =>
      simp only [hout, resultLines, hrun]
      exact ⟨⟨_, rfl⟩, ⟨_, rfl⟩⟩
    | compileErrors =>
      simp only [hout, resultLines, hrun]
      exact ⟨⟨_, rfl⟩, ⟨_, rfl⟩⟩
    | yields results =>
      have hnone := h v results hv hrun
      simp only [hout, resultLines, hrun, hnone, Bool.false_eq_true, if_false]
      refine ⟨rfl, ?_⟩
      rw [← capFilterResults_joined limit (line_of_value hnone)]
      rfl

/-- jaq on the numbers, as far as the filter `.a` goes. -/
def numbers : Jaq where
  V := ℕ
  fromStr := fun s => (parseU32 s).elim (.error []) .ok
  run := fun _ n =>
    .yields [.error ("cannot index " ++ Nat.toDigits 10 n ++ " with \"a\"")]
  display := Nat.toDigits 10
  tsvLine := Nat.toDigits 10
  display_line := fun n => ⟨Nat.toDigits_ne_nil,
    fun h => by simpa using isDigit_toDigits n _ h, fun h => by simpa using isDigit_toDigits n _ h⟩

/-- A number has no field: the error is the result. -/
theorem error_reported_as_result :
    applyJqFilter numbers ['1'] ['.', 'a'] =
      .ok "jq error: cannot index 1 with \"a\"" ∧
    ¬ Reported numbers (fun s _ => s) ['1'] ['.', 'a'] 5 := by
  refine ⟨by decide +kernel, fun h => ?_⟩
  obtain ⟨⟨e, he⟩, -⟩ := h (1 : ℕ) rfl
  cases he

end BridgeMcp.Output.JqFilter
