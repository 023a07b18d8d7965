import BridgeMcp.Mcp.SessionInvariant

/-!
Every line of a session is answered as it should be: no response too many in any state, and none
missing once the server has nothing left to do, which it comes to after boundedly many steps.
-/
namespace BridgeMcp.Mcp.SessionLoop
open JsonLib TextLib LineLib TransitionLib List State

/-- Steps the server takes by itself. The client, the notifications and the other users of the
permits are not up to it. -/
def Event.isServer : Event → Bool
  | .arrive _ | .notify | .borrow => false
  | _ => true

def Phase.work : Phase → ℕ
  | .running => 4
  | .sending _ => 3
  | .settled => 1
  | .finished | .listening => 0

def Loop.work : Loop → ℕ
  | .reading | .ended => 0
  | .rejecting _ _ => 2
  | .admitting _ _ => 5

/-- A bound on the steps the server can take by itself. A byte may complete a line, and a line may
become a task. -/
def State.work (s : State) : ℕ :=
  6 * s.pending.length + s.loop.work + (s.tasks.map fun t => t.phase.work).sum + s.queue.length +
    s.outside

section
variable {describe : Text → Text} {display : Json → Text} {limit : ℕ} {s s' : State}

theorem sum_work_set {tasks : List Task} {n : ℕ} {t : Task} (ht : tasks[n]? = some t) (t' : Task) :
    ((tasks.set n t').map fun t => t.phase.work).sum + t.phase.work =
      (tasks.map fun t => t.phase.work).sum + t'.phase.work := by
  induction tasks generalizing n with
  | nil => cases ht
  | cons u tasks ih =>
    cases n with
    | zero =>
      cases ht
      simp only [set_cons_zero, map_cons, sum_cons]
      omega
    | succ n =>
      have hrest := ih ht
      simp only [set_cons_succ, map_cons, sum_cons]
      omega

theorem map_work_fire (tasks : List Task) (token : Option ℕ) :
    (fire tasks token).map (fun t => t.phase.work) = tasks.map fun t => t.phase.work := by
  cases token with
  | none => rfl
  | some n =>
    rw [fire]
    ext i
    rw [getElem?_map, getElem?_modify, getElem?_map]
    split <;> cases tasks[i]? <;> rfl

theorem work_consume (hreading : s.loop = .reading) (hpending : s.pending ≠ []) :
    (s.consume describe display).work < s.work := by
  have hpos := length_pos_iff.mpr hpending
  have hloop : s.loop.work = 0 := by rw [hreading]; rfl
  rw [consume]
  cases htake : takeLine s.pending with
  | none =>
    simp only [work, length_nil]
    omega
  | some p =>
    have hlength : p.2.length + 1 ≤ s.pending.length := by
      rw [(takeLine_some htake).1, length_append, length_cons]
      omega
    dsimp only
    cases receive describe (s.unfinished ++ p.1) with
    | failed =>
      simp only [accept, work, Loop.work]
      omega
    | blank =>
      simp only [accept, work]
      omega
    | rejected e =>
      simp only [accept, work, Loop.work]
      omega
    | message m =>
      simp only [accept, work, map_work_fire]
      cases (routeIncomingMessage display s.active m).1 with
      | none =>
        simp only [Loop.work]
        omega
      | some r =>
        simp only [Loop.work]
        omega

theorem work_answered {t t' : Task} {outcome : Outcome} (hphase : t.phase = .running)
    (h : t.answered outcome = some t') : t'.phase.work < t.phase.work := by
  rw [hphase]
  cases outcome with
  | streaming =>
    rw [Task.answered] at h
    split at h <;> cases h
    exact Nat.succ_pos 3
  | respond outcome =>
    cases h
    dsimp only
    split
    · exact Nat.lt_succ_self 3
    · exact Nat.lt_of_sub_eq_succ rfl

theorem work_lt {a : Event} (ha : a.isServer = true)
    (hs : step describe display limit s a = some s') : s'.work < s.work := by
  cases moves_of_step hs with
  | arrive | notify | borrow => cases ha
  | consume hreading hpending => exact work_consume hreading hpending
  | reject hloop =>
    simp only [work, hloop, Loop.work, length_append, length_singleton]
    omega
  | enter permit hloop =>
    simp only [work, spawn, hloop, Loop.work, Phase.work, map_append, map_cons,
      map_nil, sum_append, sum_cons, sum_nil]
    omega
  | @answer n outcome t t' ht hphase ht' =>
    have hlt := work_answered hphase ht'
    have hsum := sum_work_set ht t'
    simp only [work, setTask]
    omega
  | @send n t r ht hphase =>
    have hsum := sum_work_set ht { t with phase := .settled }
    have hbefore : t.phase.work = 3 := by rw [hphase]; rfl
    have hafter : Phase.settled.work = 1 := rfl
    dsimp only at hsum
    simp only [work, setTask, length_append, length_singleton]
    omega
  | @clean n t ht hphase =>
    have hsum := sum_work_set ht { t with phase := .finished, permit := false }
    have hbefore : t.phase.work = 1 := by rw [hphase]; rfl
    have hafter : Phase.finished.work = 0 := rfl
    dsimp only at hsum
    simp only [work, setTask, unregister]
    omega
  | write hqueue =>
    simp only [work, hqueue, length_cons]
    omega
  | giveBack houtside =>
    simp only [work]
    omega

end

section
variable (describe : Text → Text) (display : Json → Text) (limit : ℕ)

def Settled (s : State) : Prop :=
  ∀ a : Event, a.isServer = true → step describe display limit s a = none

end

section
variable {describe : Text → Text} {display : Json → Text} {limit : ℕ} {s : State}

theorem capacity_pos : 0 < capacity := by decide

section
variable (h : Settled describe display limit s)
include h

theorem Settled.queue : s.queue = [] := by
  have hwrite := h .write rfl
  cases hqueue : s.queue with
  | nil => rfl
  | cons m queue =>
    rw [step, hqueue] at hwrite
    cases hwrite

theorem Settled.outside : s.outside = 0 := by
  have hgive := h .giveBack rfl
  rw [step] at hgive
  split at hgive
  · assumption
  · cases hgive

theorem Settled.phase {t : Task} (ht : t ∈ s.tasks) :
    t.phase = .finished ∨ t.phase = .listening := by
  obtain ⟨n, hn⟩ := mem_iff_getElem?.mp ht
  cases hphase : t.phase with
  | running =>
    have hanswer := h (.answer n (.respond (.ok .null))) rfl
    simp only [step, hn, hphase, Task.answered, Option.map_some, reduceCtorEq] at hanswer
  | sending r =>
    have hsend := h (.send n) rfl
    simp only [step, hn, hphase, h.queue, length_nil, if_pos capacity_pos,
      reduceCtorEq] at hsend
  | settled =>
    have hclean := h (.clean n) rfl
    simp only [step, hn, hphase, reduceCtorEq] at hclean
  | finished => exact .inl rfl
  | listening => exact .inr rfl

theorem Settled.permits (hsound : Sound describe s) :
    s.permits = 0 := by
  rw [State.permits, h.outside, Nat.zero_add, countP_eq_zero]
  intro t ht hpermit
  have hphase := (hsound.tasks t ht).phase
  obtain hdone | hdone := h.phase ht
  · rw [hdone] at hphase
    rw [hphase.2] at hpermit
    cases hpermit
  · rw [hdone] at hphase
    rw [hphase.2.2] at hpermit
    cases hpermit

theorem Settled.loop (hsound : Sound describe s) (hlimit : 0 < limit) : s.loop = .reading := by
  cases hloop : s.loop with
  | reading => rfl
  | rejecting n e =>
    have hreject := h .reject rfl
    simp only [step, hloop, h.queue, length_nil, if_pos capacity_pos,
      reduceCtorEq] at hreject
  | admitting n r =>
    have hadmit := h .enter rfl
    simp only [step, hloop, h.permits hsound, if_pos hlimit] at hadmit
    split at hadmit <;> cases hadmit
  | ended =>
    have hended := hsound.loop
    rw [hloop] at hended
    exact hended.elim

theorem Settled.pending (hloop : s.loop = .reading) :
    s.pending = [] := by
  have hconsume := h .consume rfl
  rw [step, hloop] at hconsume
  dsimp only at hconsume
  split at hconsume
  · assumption
  · cases hconsume

end

theorem completeLines_plain {rest : List UInt8} (h : newline ∉ rest) : completeLines rest = [] := by
  rw [completeLines, splitOn_eq_singleton h, dropLast_singleton]

theorem Sound.completeLines (h : Sound describe s) :
    completeLines s.sent = s.lines ++ completeLines (s.unfinished ++ s.pending) := by
  rw [h.framed, completeLines_flatten h.lines_plain]

theorem Sound.inHand_or_answered (h : Sound describe s) {i : ℕ} {line : List UInt8}
    (hline : s.lines[i]? = some line) :
    s.InHand i ∧ responses s.messages i = [] ∨ Answered describe s i (kindOf describe line) := by
  have hsound := h.lines i line hline
  cases hkind : kindOf describe line with
  | ignored =>
    rw [hkind] at hsound
    exact .inr hsound
  | faulty =>
    rw [hkind] at hsound
    obtain ⟨e, he⟩ | hanswered := hsound
    · have hbusy := h.loop
      rw [he] at hbusy
      exact .inl ⟨.inl ⟨e, he⟩, hbusy.2.1⟩
    · exact .inr hanswered
  | request r =>
    rw [hkind] at hsound
    obtain hadmitting | hmem := hsound
    · have hbusy := h.loop
      rw [hadmitting] at hbusy
      exact .inl ⟨.inr (.inl ⟨r, hadmitting⟩), hbusy.2.1⟩
    · obtain ⟨t, ht, rfl⟩ := mem_map.mp hmem
      obtain ⟨line', hline', hrequest⟩ := (h.tasks t ht).kind
      cases hline.symm.trans hline'
      cases hkind.symm.trans hrequest
      have hphase := (h.tasks t ht).phase
      cases hp : t.phase with
      | running =>
        rw [hp] at hphase
        exact .inl ⟨.inr (.inr ⟨t, ht, rfl, .inl hp⟩), hphase⟩
      | sending r =>
        rw [hp] at hphase
        exact .inl ⟨.inr (.inr ⟨t, ht, rfl, .inr ⟨r, hp⟩⟩), hphase.1⟩
      | settled =>
        rw [hp] at hphase
        exact .inr (hphase.imp_right fun hcancel => ⟨hcancel.1, .inr hcancel.2⟩)
      | finished =>
        rw [hp] at hphase
        exact .inr (hphase.1.imp_right fun hcancel => ⟨hcancel.1, .inr hcancel.2⟩)
      | listening =>
        rw [hp] at hphase
        exact .inr (.inr ⟨hphase.1, .inl ⟨t, ht, rfl, hp, hphase.2.1⟩⟩)

theorem Settled.not_inHand (h : Settled describe display limit s) (hloop : s.loop = .reading)
    (i : ℕ) : ¬s.InHand i := by
  rintro (⟨e, he⟩ | ⟨r, hr⟩ | ⟨t, ht, -, hphase⟩)
  · rw [hloop] at he
    cases he
  · rw [hloop] at hr
    cases hr
  · obtain hdone | hdone := h.phase ht
    all_goals
      rw [hdone] at hphase
      obtain hrunning | ⟨r, hsending⟩ := hphase
      · cases hrunning
      · cases hsending

/-- In every run whose lines are clear: the session goes on, every line is answered as it should be
or in work without an answer so far, and nothing else is answered. The server's own steps come to
an end, and then no line is left unread or in work and every response has been written. -/
theorem lines_answered (describe : Text → Text) (display : Json → Text) (limit : ℕ)
    (hlimit : 0 < limit) (s : State)
    (h : Reaches (step describe display limit) (Clear describe display) start s) :
    s.loop ≠ .ended ∧
      s.lines <+: completeLines s.sent ∧
      (∀ i line, s.lines[i]? = some line →
        s.InHand i ∧ responses s.messages i = [] ∨
          Answered describe s i (kindOf describe line)) ∧
      (∀ i, s.lines.length ≤ i → responses s.messages i = []) ∧
      (∀ as s', runAll (step describe display limit) (fun _ a => a.isServer = true) s as = some s' →
        as.length ≤ s.work) ∧
      (Settled describe display limit s →
        s.lines = completeLines s.sent ∧ s.messages = s.output ∧
          ∀ i line, s.lines[i]? = some line → Answered describe s i (kindOf describe line)) := by
  have hsound := sound_of_reaches h
  refine ⟨fun hended => ?_, ⟨_, hsound.completeLines.symm⟩, fun i line => hsound.inHand_or_answered,
    hsound.later, fun as s' hrun => ?_, fun hsettled => ?_⟩
  · have hloop := hsound.loop
    rw [hended] at hloop
    exact hloop
  · have hbound := length_le_of_runAll work (fun _ _ _ ha hs => work_lt ha hs) as hrun
    omega
  · have hloop := hsettled.loop hsound hlimit
    have hrest : newline ∉ s.unfinished ++ s.pending := by
      rw [hsettled.pending hloop, append_nil]
      exact hsound.unfinished_plain
    refine ⟨?_, ?_, fun i line hline => ?_⟩
    · rw [hsound.completeLines, completeLines_plain hrest, append_nil]
    · rw [messages, hsettled.queue, append_nil]
    · exact (hsound.inHand_or_answered hline).resolve_left
        fun hbusy => hsettled.not_inHand hloop i hbusy.1

end

def pingText : Text :=
  "\x7b\"jsonrpc\":\"2.0\",\"id\":1,\"method\":\"ping\"\x7d"

def pingRequest : JsonRpcRequest :=
  ⟨"2.0", some (.number (.posInt 1)), "ping", none⟩

def pingTask (phase : Phase) (permit : Bool) : Task := ⟨0, pingRequest, phase, permit, false⟩

def pingResponse : JsonRpcResponse := ⟨pingRequest.id, .ok .null⟩

def pinged (loop : Loop) (active : ActiveRequests) (tasks : List Task)
    (queue output : List Message) : State :=
  ⟨utf8Bytes pingText ++ [newline], [], [], [utf8Bytes pingText], loop, active, tasks, queue,
    output, 0⟩

variable (describe : Text → Text)

theorem receive_ping :
    receive describe (utf8Bytes pingText) =
      .message ⟨"2.0", some (.number (.posInt 1)), some "ping", none⟩ := by
  rfl

def pingActive (display : Json → Text) : ActiveRequests :=
  ((∅ : ActiveRequests).register (requestKey display (.number (.posInt 1))) 0).unregister
    (requestKey display (.number (.posInt 1)))

theorem reaches_ping (display : Json → Text) :
    Reaches (step describe display 5) (Clear describe display) start
      (pinged .reading (pingActive display) [pingTask .finished false] []
        [.response 0 pingResponse]) := by
  have hchunk : Reaches (step describe display 5) (Clear describe display) start
      { start with sent := utf8Bytes pingText, unfinished := utf8Bytes pingText } := by
    refine (Reaches.refl.tail (a := Event.arrive (utf8Bytes pingText)) trivial rfl).tail (a := Event.consume)
      (fun front rest htake => ?_) rfl
    cases htake
  have hline : Reaches (step describe display 5) (Clear describe display) start
      (pinged (.admitting 0 pingRequest) ∅ [] [] []) := by
    refine (hchunk.tail (a := Event.arrive [newline]) trivial rfl).tail (a := Event.consume)
      (fun front rest htake => ?_) rfl
    cases htake
    refine ⟨rfl, fun m hm hmethod => ?_⟩
    cases (receive_ping describe).symm.trans hm
    exact absurd hmethod (by decide)
  refine (((((hline.tail (a := Event.enter) trivial rfl).tail
    (a := Event.answer 0 (.respond (.ok .null))) trivial rfl).tail (a := Event.send 0) trivial rfl).tail
    (a := Event.clean 0) trivial rfl).tail (a := Event.write) trivial rfl)

theorem settled_ping (display : Json → Text) (active : ActiveRequests) :
    Settled describe display 5
      (pinged .reading active [pingTask .finished false] [] [.response 0 pingResponse]) := by
  intro a ha
  cases a with
  | arrive | notify | borrow => cases ha
  | consume | reject | enter | write | giveBack => rfl
  | answer n | send n | clean n => cases n <;> rfl

theorem lines_answered_ping :
    ∃ s, Reaches (step id (fun _ => []) 5) (Clear id fun _ => []) start s ∧
      completeLines s.sent = [utf8Bytes pingText] ∧ s.loop ≠ .ended ∧
      s.lines = completeLines s.sent ∧ Answered id s 0 (.request pingRequest) := by
  have hreaches := reaches_ping id fun _ => []
  obtain ⟨hloop, -, -, -, -, hdone⟩ := lines_answered id (fun _ => []) 5 (by decide) _ hreaches
  obtain ⟨hlines, -, hanswered⟩ := hdone (settled_ping id (fun _ => []) _)
  exact ⟨_, hreaches, hlines.symm, hloop, hlines, hanswered 0 (utf8Bytes pingText) rfl⟩

/-- The byte `FF` is not UTF-8. The line is not answered and the session ends. -/
theorem invalid_line_ends_session :
    ∃ s, Reaches (step id (fun _ => []) 5) (fun _ _ => True) start s ∧
      completeLines s.sent = [[0xFF], utf8Bytes pingText] ∧ s.loop = .ended ∧
      Settled id (fun _ => []) 5 s ∧
      ¬(s.InHand 0 ∨ Answered id s 0 (kindOf id [0xFF])) ∧ s.lines ≠ completeLines s.sent := by
  have hreaches : Reaches (step id (fun _ => []) 5) (fun _ _ => True) start
      { start with
        sent := 0xFF :: newline :: utf8Bytes pingText ++ [newline]
        pending := utf8Bytes pingText ++ [newline]
        lines := [[0xFF]]
        loop := .ended } :=
    (Reaches.refl.tail (a := Event.arrive (0xFF :: newline :: utf8Bytes pingText ++ [newline]))
      trivial rfl).tail (a := Event.consume) trivial rfl
  refine ⟨_, hreaches, rfl, rfl, fun a ha => ?_, ?_, nofun⟩
  · cases a with
    | arrive | notify | borrow => cases ha
    | consume | reject | enter | write | giveBack => rfl
    | answer n | send n | clean n => rfl
  · rintro ((⟨e, he⟩ | ⟨r, hr⟩ | ⟨t, ht, -⟩) | ⟨e, he⟩)
    · cases he
    · cases hr
    · cases ht
    · cases he

end BridgeMcp.Mcp.SessionLoop
