import BridgeMcp.Tasks.Lifecycle

/-!
Tasks past their time to live (`domain/task_store.rs`). Reading tests the expiry of an entry, settling
does not, and the two sweeps drop an expired entry whatever its worker does.
-/
namespace BridgeMcp.Tasks
open TextLib AssocMap Option

def Operation.sweeps : Operation → Bool
  | .createTask _ _ _ | .cleanup => true
  | _ => false

/-- No entry under `id` that is still alive. -/
def TaskStore.Expired (s : TaskStore) (id : TaskId) (now : ℕ) : Prop :=
  ∀ entry, s.tasks.lookup id = some entry → entry.isExpired now = true

def TaskStore.Holds (s : TaskStore) (id : TaskId) (token : Token) : Prop :=
  ∃ entry, s.tasks.lookup id = some entry ∧ entry.cancelToken = token

/-- What expiry is to mean for one call: no operation sees an expired task, and none drops one that
is still working without a signal to its worker. -/
structure RespectsExpiry (s : TaskStore) (call : Call) : Prop where
  ignored : ∀ id d, call.operation.decision = some (id, d) → s.Expired id call.now →
    s.step call = (s, .info none)
  unread : ∀ id, s.Expired id call.now →
    s.getTask id call.now = none ∧ s.getResult id call.now = none
  signalled : ∀ id entry, s.tasks.lookup id = some entry → entry.info.status = .working →
    entry.isExpired call.now = true → ¬ (s.step call).1.Holds id entry.cancelToken →
    (s.step call).1.isCancelled entry.cancelToken = true

/-- The call settles no expired entry and sweeps no working one. -/
structure MeetsLive (s : TaskStore) (call : Call) : Prop where
  settled : ∀ id d, call.operation.decision = some (id, d) →
    ∀ entry, s.tasks.lookup id = some entry → entry.isExpired call.now = false
  swept : call.operation.sweeps = true → ∀ id entry, s.tasks.lookup id = some entry →
    entry.info.status = .working → entry.isExpired call.now = false

section Step

variable {s : TaskStore} {call : Call} {id : TaskId}

theorem unread_of_expired {now : ℕ} (h : s.Expired id now) :
    s.getTask id now = none ∧ s.getResult id now = none := by
  rw [TaskStore.getTask, TaskStore.getResult]
  cases hentry : s.tasks.lookup id with
  | none => exact ⟨rfl, rfl⟩
  | some entry => exact ⟨if_pos (h entry hentry), if_pos (h entry hentry)⟩

variable {entry : TaskEntry}

theorem answered_of_lookup {d : Decision}
    (h : call.operation.decision = some (id, d)) (hentry : s.tasks.lookup id = some entry) :
    ∃ info, (s.step call).2 = .info (some info) := by
  cases hterminal : entry.isTerminal with
  | true => exact ⟨_, congrArg Prod.snd (step_of_terminal h hentry hterminal)⟩
  | false =>
    obtain ⟨stamp, hstep⟩ := step_of_open h hentry hterminal
    exact ⟨_, congrArg Prod.snd hstep⟩

theorem holds_settled {d : Decision} {settled : TaskId} {stamp : Text}
    (hentry : s.tasks.lookup settled = some entry) {token : Token} (h : s.Holds id token) :
    (s.settled settled entry d stamp).Holds id token := by
  obtain ⟨held, hheld, htoken⟩ := h
  by_cases hid : id = settled
  · subst hid
    obtain rfl : held = entry := some.inj (hheld.symm.trans hentry)
    exact ⟨d.settle held stamp, AList.lookup_insert _, htoken⟩
  · exact ⟨held, (AList.lookup_insert_ne hid).trans hheld, htoken⟩

theorem holds_of_not_sweeping (hcall : call.operation.sweeps = false) {token : Token}
    (h : s.Holds id token) : (s.step call).1.Holds id token := by
  cases hdecision : call.operation.decision with
  | none =>
    obtain ⟨now, operation⟩ := call
    cases operation with
    | createTask | cleanup => cases hcall
    | completeTask | failTask | cancelTask => cases hdecision
    | getTask | getResult => exact h
  | some decision =>
    obtain ⟨settled, d⟩ := decision
    cases hentry : s.tasks.lookup settled with
    | none =>
      rw [step_of_missing hdecision hentry]
      exact h
    | some entry =>
      cases hterminal : entry.isTerminal with
      | true =>
        rw [step_of_terminal hdecision hentry hterminal]
        exact h
      | false =>
        obtain ⟨stamp, hstep⟩ := step_of_open hdecision hentry hterminal
        rw [hstep]
        exact holds_settled hentry h

theorem not_holds_of_sweeping (hcall : call.operation.sweeps = true)
    (hentry : s.tasks.lookup id = some entry) (hexpired : entry.isExpired call.now = true)
    (htoken : entry.cancelToken < s.tokens.length) :
    ¬ (s.step call).1.Holds id entry.cancelToken := by
  have hswept : ∀ (store : TaskStore) {now : ℕ}, store.tasks = s.tasks →
      entry.isExpired now = true → (store.cleanup now).tasks.lookup id = none := by
    intro store now htasks hpast
    apply eq_none_iff_forall_ne_some.mpr
    intro found hfound
    obtain ⟨hlookup, hkept⟩ := lookup_retain_eq_some.mp hfound
    rw [htasks, hentry] at hlookup
    rw [← some.inj hlookup, hpast] at hkept
    cases hkept
  rintro ⟨found, hfound, hsame⟩
  obtain ⟨now, operation⟩ := call
  cases operation with
  | completeTask | failTask | cancelTask | getTask | getResult => cases hcall
  | cleanup =>
    have hnone := hswept s rfl hexpired
    exact nomatch hnone.symm.trans hfound
  | createTask new created stamp =>
    have hnone := hswept s.newToken rfl hexpired
    simp only [TaskStore.step, TaskStore.createTask] at hfound
    split at hfound
    · exact nomatch hnone.symm.trans hfound
    · by_cases hid : id = new
      · subst hid
        rw [AList.lookup_insert] at hfound
        rw [← hsame, ← some.inj hfound] at htoken
        exact absurd htoken (Nat.lt_irrefl _)
      · rw [AList.lookup_insert_ne hid] at hfound
        exact nomatch hnone.symm.trans hfound

theorem isCancelled_of_sweeping (hcall : call.operation.sweeps = true) (token : Token) :
    (s.step call).1.isCancelled token = s.isCancelled token := by
  obtain ⟨now, operation⟩ := call
  cases operation with
  | completeTask | failTask | cancelTask | getTask | getResult => cases hcall
  | cleanup => rfl
  | createTask id created stamp =>
    simp only [TaskStore.step, TaskStore.createTask]
    split
    · exact s.newToken_isCancelled token
    · exact s.newToken_isCancelled token

end Step

theorem Lifecycle.unsignalled {maxTasks : ℕ} {x : Execution} (hx : Lifecycle maxTasks x)
    {id : TaskId} (hentry : x.store.tasks.lookup id = some entry)
    (hworking : entry.info.status = .working) : x.store.isCancelled entry.cancelToken = false := by
  have hissued := issued_of_latestToken (hx.current id entry hentry)
  apply Bool.eq_false_iff.mpr
  intro hup
  have hreflects := hx.reflects id entry hentry
  rw [(hx.signalled id entry.cancelToken hissued).mp hup] at hreflects
  exact nomatch hworking.symm.trans hreflects.1

/-- After every history, a call respects expiry just when it settles no expired entry and sweeps no
working one. -/
theorem respects_expiry_iff (maxTasks defaultTtlMs defaultPollIntervalMs : ℕ) (calls : List Call)
    (call : Call) :
    RespectsExpiry (run (.new maxTasks defaultTtlMs defaultPollIntervalMs) calls).store call ↔
      MeetsLive (run (.new maxTasks defaultTtlMs defaultPollIntervalMs) calls).store call := by
  have hx : Lifecycle maxTasks (run (.new maxTasks defaultTtlMs defaultPollIntervalMs) calls) :=
    (Lifecycle.start maxTasks defaultTtlMs defaultPollIntervalMs).calls calls
  constructor
  · intro h
    constructor
    · intro id d hdecision entry hentry
      apply Bool.eq_false_iff.mpr
      intro hexpired
      have hgone : TaskStore.Expired _ id call.now := fun found hfound =>
        some.inj (hentry.symm.trans hfound) ▸ hexpired
      obtain ⟨info, hinfo⟩ := answered_of_lookup hdecision hentry
      rw [h.ignored id d hdecision hgone] at hinfo
      cases hinfo
    · intro hsweeps id entry hentry hworking
      apply Bool.eq_false_iff.mpr
      intro hexpired
      have hallocated := hx.allocated id _ (issued_of_latestToken (hx.current id entry hentry))
      have hdropped := not_holds_of_sweeping hsweeps hentry hexpired hallocated
      have hup := h.signalled id entry hentry hworking hexpired hdropped
      rw [isCancelled_of_sweeping hsweeps, hx.unsignalled hentry hworking] at hup
      cases hup
  · intro h
    constructor
    · intro id d hdecision hgone
      apply step_of_missing hdecision
      apply eq_none_iff_forall_ne_some.mpr
      intro entry hentry
      exact nomatch (h.settled id d hdecision entry hentry).symm.trans (hgone entry hentry)
    · intro id hgone
      exact unread_of_expired hgone
    · intro id entry hentry hworking hexpired hdropped
      cases hsweeps : call.operation.sweeps with
      | true => exact nomatch (h.swept hsweeps id entry hentry hworking).symm.trans hexpired
      | false => exact absurd (holds_of_not_sweeping hsweeps ⟨entry, hentry, rfl⟩) hdropped

/-- A task of one millisecond, two milliseconds later: it cannot be read but can be completed, and a
cleanup drops it with its worker unsignalled, so that no cancellation reaches the worker any more. -/
theorem expired_task_settled_and_dropped :
    let s := (run (.new 4 1 1) [⟨0, .createTask ['a'] 0 []⟩]).store
    s.getTask ['a'] 2000000 = none ∧ (s.completeTask ['a'] .null []).2.isSome = true ∧
      (s.completeTask ['a'] .null []).1.tasks.lookup ['a'] ≠ s.tasks.lookup ['a'] ∧
      (s.cleanup 2000000).tasks.lookup ['a'] = none ∧
      (s.cleanup 2000000).isCancelled 0 = false ∧
      ((s.cleanup 2000000).cancelTask ['a'] []).2 = none ∧
      ((s.cleanup 2000000).cancelTask ['a'] []).1.isCancelled 0 = false ∧
      ¬ RespectsExpiry s ⟨2000000, .completeTask ['a'] .null []⟩ ∧
      ¬ RespectsExpiry s ⟨2000000, .cleanup⟩ := by
  intro s
  have hentry : ∃ entry, s.tasks.lookup ['a'] = some entry ∧ entry.info.status = .working ∧
      entry.cancelToken = 0 ∧ entry.isExpired 2000000 = true ∧ entry.result = none :=
    ⟨_, rfl, rfl, rfl, rfl, rfl⟩
  obtain ⟨entry, hlookup, hworking, htoken, hexpired, hresult⟩ := hentry
  have hgone : s.Expired ['a'] 2000000 := fun found hfound =>
    some.inj (hlookup.symm.trans hfound) ▸ hexpired
  refine ⟨rfl, rfl, ?_, rfl, rfl, rfl, rfl, ?_, ?_⟩
  · rw [hlookup]
    intro hsame
    have hnew : ((s.completeTask ['a'] .null []).1.tasks.lookup ['a']).bind TaskEntry.result =
      some .null := rfl
    rw [hsame, bind_some, hresult] at hnew
    cases hnew
  · intro h
    have hstep := congrArg Prod.snd (h.ignored ['a'] (.complete .null) rfl hgone)
    cases hstep
  · intro h
    have hnone : ¬ (s.step ⟨2000000, .cleanup⟩).1.Holds ['a'] entry.cancelToken := by
      rintro ⟨found, hfound, -⟩
      cases hfound
    have hup := h.signalled ['a'] entry hlookup hworking hexpired hnone
    rw [htoken] at hup
    cases hup

end BridgeMcp.Tasks
