import BridgeMcp.Session.Manager

/-!
The audit trail of the session manager. `close` leaves its line to its caller; no other call takes a
session out of the map without one.
-/
namespace BridgeMcp.Session
open TransitionLib List

/-- Lines are only added, and one is there for the session if it is gone. -/
def Audited (id : SessionId) (m m' : SessionManager) : Prop :=
  ∃ lines, m'.audit = m.audit ++ lines ∧
    (id ∈ m.sessions → id ∈ m'.sessions ∨ id ∈ lines.map AuditLine.sessionId)

/-- Nobody runs `close` for the session. -/
def Spares (id : SessionId) (w : World) : Action → Prop
  | .resume t _ => w.tasks[t]? ≠ some (.start (.close id))
  | _ => True

variable {id : SessionId} {m m' m'' : SessionManager} {now : ℕ}

theorem Audited.of_mem (haudit : m'.audit = m.audit) (h : id ∈ m.sessions → id ∈ m'.sessions) :
    Audited id m m' :=
  ⟨[], by rw [haudit, append_nil], fun hid => .inl (h hid)⟩

theorem Audited.trans (h : Audited id m m') (h' : Audited id m' m'') : Audited id m m'' := by
  obtain ⟨lines, haudit, hkept⟩ := h
  obtain ⟨lines', haudit', hkept'⟩ := h'
  refine ⟨lines ++ lines', by rw [haudit', haudit, append_assoc], fun hid => ?_⟩
  rw [map_append, mem_append]
  rcases hkept hid with hstill | hgone
  · exact (hkept' hstill).imp_right .inr
  · exact .inr (.inl hgone)

theorem audited_removeDeadSession (other : SessionId) (reason : ReapReason) :
    Audited id m (m.removeDeadSession now other reason) := by
  unfold SessionManager.removeDeadSession
  split
  · refine ⟨[_], rfl, fun hid => ?_⟩
    by_cases hsame : id = other
    · exact .inr (mem_singleton.mpr hsame)
    · exact .inl (AList.mem_erase.mpr ⟨hsame, hid⟩)
  · exact .of_mem rfl fun hid => hid

theorem audited_foldl {α : Type} {f : SessionManager → α → SessionManager}
    (hf : ∀ m a, Audited id m (f m a)) (l : List α) (m : SessionManager) :
    Audited id m (l.foldl f m) := by
  induction l generalizing m with
  | nil => exact .of_mem rfl fun hid => hid
  | cons a l ih => exact (hf m a).trans (ih _)

theorem audit_auditAll (entries : List (Sigma fun _ : SessionId => ShellSession))
    (m : SessionManager) : ∃ lines,
    (entries.foldl (fun m entry => m.auditDestroyed now .shutdown entry.1 entry.2) m).audit =
      m.audit ++ lines ∧ lines.map AuditLine.sessionId = entries.map Sigma.fst := by
  induction entries generalizing m with
  | nil => exact ⟨[], (append_nil _).symm, rfl⟩
  | cons entry entries ih =>
    obtain ⟨lines, haudit, hids⟩ := ih (m.auditDestroyed now .shutdown entry.1 entry.2)
    exact ⟨_ :: lines, haudit.trans (append_assoc _ _ _), congrArg (entry.1 :: ·) hids⟩

theorem audited_resume {answer : Except BridgeError Unit} {task : Task}
    (hspares : task ≠ .start (.close id)) : Audited id m (m.resume now answer task).1 := by
  fun_cases SessionManager.resume m now answer task
  all_goals first
    | exact audited_removeDeadSession _ _
    | exact .of_mem rfl fun hid => hid
    | skip
  · exact .of_mem rfl fun hid => (AList.mem_insert _).mpr (.inr hid)
  · unfold SessionManager.touch
    split
    · exact .of_mem rfl AList.mem_replace.mpr
    · exact .of_mem rfl fun hid => hid
  · next other _ _ =>
      have hother : id ≠ other := fun hsame => hspares (by rw [hsame])
      exact .of_mem rfl fun hid => AList.mem_erase.mpr ⟨hother, hid⟩
  · obtain ⟨lines, haudit, hids⟩ := audit_auditAll m.sessions.entries { m with sessions := ∅ }
    exact ⟨lines, haudit, fun hid => .inr (hids ▸ AList.mem_keys.mp hid)⟩
  · exact audited_foldl (fun _ _ => audited_removeDeadSession _ _) _ _

/-- Whatever calls run, are dropped or wait in whatever order: while nobody runs `close` for it, a
session is in the map or a line of the trail names it. -/
theorem session_kept_or_audited (id : SessionId) (w w' : World)
    (h : Reaches World.step (Spares id) w w') (hid : id ∈ w.manager.sessions) :
    ∃ lines, w'.manager.audit = w.manager.audit ++ lines ∧
      (id ∈ w'.manager.sessions ∨ id ∈ lines.map AuditLine.sessionId) := by
  have haudited : Audited id w.manager w'.manager := by
    refine h.invariant (P := fun w' => Audited id w.manager w'.manager)
      (.of_mem rfl fun hid => hid) fun s a s' hs hspares hstep => ?_
    cases a with
    | call operation =>
      cases hstep
      exact hs
    | tick nanos =>
      cases hstep
      exact hs
    | abandon t =>
      obtain ⟨task, -, hnext⟩ := Option.bind_eq_some_iff.mp hstep
      obtain ⟨-, hnext⟩ := Option.ite_none_left_eq_some.mp hnext
      cases hnext
      exact hs
    | resume t answer =>
      obtain ⟨task, htask, hnext⟩ := Option.bind_eq_some_iff.mp hstep
      obtain ⟨-, hnext⟩ := Option.ite_none_left_eq_some.mp hnext
      cases hnext
      exact hs.trans (audited_resume fun hclose => hspares (hclose ▸ htask))
  obtain ⟨lines, haudit, hkept⟩ := haudited
  exact ⟨lines, haudit, hkept hid⟩

theorem session_kept_or_audited_closeAll : ∃ lines,
    [⟨.shutdown, 7, [], 0⟩] = [] ++ lines ∧
      (7 ∈ (∅ : AList fun _ : SessionId => ShellSession) ∨ 7 ∈ lines.map AuditLine.sessionId) :=
  session_kept_or_audited 7 ⟨⟨⟨1, 1, 1⟩, AList.singleton 7 ⟨[], 0, 0⟩, []⟩, 0, [.start .closeAll]⟩
    _ (Reaches.refl.tail (a := .resume 0 (.ok ())) nofun rfl) (AList.mem_keys.mpr (by decide))

end BridgeMcp.Session
