import BridgeMcp.Mcp.SessionLoop

/-!
What holds in every state of a session whose lines are clear: each line the reader has taken has a
task, an answer, or the reader's attention, and no answer belongs to anything else.
-/
namespace BridgeMcp.Mcp.SessionLoop
open JsonLib TextLib TransitionLib List

section
variable (describe : Text → Text)

/-- What the phase of a task says about the answers to its line. -/
def PhaseSound (lines : List (List UInt8)) (messages : List Message) (t : Task) : Phase → Prop
  | .running => responses messages t.line = []
  | .sending r => responses messages t.line = [] ∧ r.id = t.request.id
  | .settled =>
    (∃ outcome, responses messages t.line = [⟨t.request.id, outcome⟩]) ∨
      responses messages t.line = [] ∧ CancelReceived describe lines t.line t.request
  | .finished =>
    ((∃ outcome, responses messages t.line = [⟨t.request.id, outcome⟩]) ∨
      responses messages t.line = [] ∧ CancelReceived describe lines t.line t.request) ∧
      t.permit = false
  | .listening =>
    responses messages t.line = [] ∧ t.request.method = listenMethod ∧ t.permit = false

structure TaskSound (lines : List (List UInt8)) (messages : List Message) (t : Task) : Prop where
  kind : ∃ line, lines[t.line]? = some line ∧ kindOf describe line = .request t.request
  phase : PhaseSound describe lines messages t t.phase
  cancelled : t.cancelled = true → CancelReceived describe lines t.line t.request

/-- The line the reader is busy with is the last one, and has no answer and no task yet. -/
def LoopSound (s : State) : Loop → Prop
  | .reading => True
  | .rejecting n _ =>
    n + 1 = s.lines.length ∧ responses s.messages n = [] ∧
      ∃ line, s.lines[n]? = some line ∧ kindOf describe line = .faulty
  | .admitting n r =>
    n + 1 = s.lines.length ∧ responses s.messages n = [] ∧ n ∉ s.tasks.map Task.line ∧
      ∃ line, s.lines[n]? = some line ∧ kindOf describe line = .request r
  | .ended => False

def LineSound (s : State) (i : ℕ) : Kind → Prop
  | .ignored => responses s.messages i = []
  | .faulty => (∃ e, s.loop = .rejecting i e) ∨ ∃ e, responses s.messages i = [⟨none, .error e⟩]
  | .request r => s.loop = .admitting i r ∨ i ∈ s.tasks.map Task.line

structure Sound (s : State) : Prop where
  framed : s.sent = (s.lines.map (· ++ [newline])).flatten ++ (s.unfinished ++ s.pending)
  lines_plain : ∀ line ∈ s.lines, newline ∉ line
  unfinished_plain : newline ∉ s.unfinished
  loop : LoopSound describe s s.loop
  tasks : ∀ t ∈ s.tasks, TaskSound describe s.lines s.messages t
  distinct : (s.tasks.map Task.line).Nodup
  lines : ∀ i line, s.lines[i]? = some line → LineSound s i (kindOf describe line)
  later : ∀ i, s.lines.length ≤ i → responses s.messages i = []

end

section
variable {describe : Text → Text} {lines : List (List UInt8)} {messages : List Message} {t : Task}

theorem TaskSound.line_lt (h : TaskSound describe lines messages t) : t.line < lines.length := by
  obtain ⟨line, hline, -⟩ := h.kind
  exact (List.getElem?_eq_some_iff.mp hline).1

variable {line : List UInt8}

theorem getElem?_append_of_some {i : ℕ} (h : lines[i]? = some line)
    (more : List (List UInt8)) : (lines ++ more)[i]? = some line := by
  rw [List.getElem?_append_left (List.getElem?_eq_some_iff.mp h).1, h]

theorem CancelReceived.append {i : ℕ} {r : JsonRpcRequest} (h : CancelReceived describe lines i r)
    (more : List (List UInt8)) : CancelReceived describe (lines ++ more) i r := by
  obtain ⟨j, line, m, id, hij, hline, hrest⟩ := h
  exact ⟨j, line, m, id, hij, getElem?_append_of_some hline more, hrest⟩

theorem PhaseSound.of_responses {messages' : List Message} {p : Phase}
    (h : PhaseSound describe lines messages t p)
    (heq : responses messages' t.line = responses messages t.line) :
    PhaseSound describe lines messages' t p := by
  cases p <;> simpa only [PhaseSound, heq] using h

theorem TaskSound.of_responses {messages' : List Message}
    (h : TaskSound describe lines messages t)
    (heq : responses messages' t.line = responses messages t.line) :
    TaskSound describe lines messages' t :=
  ⟨h.kind, h.phase.of_responses heq, h.cancelled⟩

theorem PhaseSound.append {p : Phase} (h : PhaseSound describe lines messages t p)
    (more : List (List UInt8)) : PhaseSound describe (lines ++ more) messages t p := by
  cases p with
  | running => exact h
  | sending r => exact h
  | settled => exact h.imp_right fun h => ⟨h.1, h.2.append more⟩
  | finished => exact ⟨h.1.imp_right fun h => ⟨h.1, h.2.append more⟩, h.2⟩
  | listening => exact h

theorem TaskSound.append (h : TaskSound describe lines messages t) (more : List (List UInt8)) :
    TaskSound describe (lines ++ more) messages t where
  kind := by
    obtain ⟨line, hline, hkind⟩ := h.kind
    exact ⟨line, getElem?_append_of_some hline more, hkind⟩
  phase := h.phase.append more
  cancelled hc := (h.cancelled hc).append more

theorem TaskSound.cancel (h : TaskSound describe lines messages t)
    (hreceived : CancelReceived describe lines t.line t.request) :
    TaskSound describe lines messages { t with cancelled := true } where
  kind := h.kind
  phase := by
    have hphase := h.phase
    generalize t.phase = p at hphase ⊢
    cases p <;> exact hphase
  cancelled _ := hreceived

end

section
variable {describe : Text → Text} {s s' : State}

section
variable (h : Sound describe s)
include h

theorem Sound.notMem_tasks {i : ℕ}
    (hline : s.lines[i]? = some line) (hkind : ∀ r, kindOf describe line ≠ .request r) :
    i ∉ s.tasks.map Task.line := by
  rw [mem_map]
  rintro ⟨t, ht, rfl⟩
  obtain ⟨line', hline', hrequest⟩ := (h.tasks t ht).kind
  cases hline.symm.trans hline'
  exact hkind _ hrequest

theorem Sound.update (hlines : s'.lines = s.lines)
    (hloop : s'.loop = s.loop) (hmap : s'.tasks.map Task.line = s.tasks.map Task.line)
    (hframed : s'.sent = (s.lines.map (· ++ [newline])).flatten ++ (s'.unfinished ++ s'.pending))
    (hunfinished : newline ∉ s'.unfinished)
    (htasks : ∀ t ∈ s'.tasks, TaskSound describe s.lines s'.messages t)
    (hresponses : ∀ i ∉ s.tasks.map Task.line,
      responses s'.messages i = responses s.messages i) : Sound describe s' where
  framed := by rw [hlines]; exact hframed
  lines_plain := by rw [hlines]; exact h.lines_plain
  unfinished_plain := hunfinished
  loop := by
    have hbusy := h.loop
    rw [hloop]
    cases hs : s.loop with
    | reading => trivial
    | ended => rw [hs] at hbusy; exact hbusy
    | rejecting n e =>
      rw [hs] at hbusy
      obtain ⟨hn, hempty, line, hline, hkind⟩ := hbusy
      have hnot := h.notMem_tasks hline (by rw [hkind]; nofun)
      exact ⟨hlines ▸ hn, (hresponses n hnot).trans hempty, line, hlines ▸ hline, hkind⟩
    | admitting n r =>
      rw [hs] at hbusy
      obtain ⟨hn, hempty, hnot, line, hline, hkind⟩ := hbusy
      exact ⟨hlines ▸ hn, (hresponses n hnot).trans hempty, hmap ▸ hnot, line, hlines ▸ hline,
        hkind⟩
  tasks := by rw [hlines]; exact htasks
  distinct := by rw [hmap]; exact h.distinct
  lines i line hline := by
    rw [hlines] at hline
    have hbefore := h.lines i line hline
    cases hkind : kindOf describe line with
    | ignored =>
      rw [hkind] at hbefore
      exact (hresponses i (h.notMem_tasks hline (by rw [hkind]; nofun))).trans hbefore
    | faulty =>
      rw [hkind] at hbefore
      have heq := hresponses i (h.notMem_tasks hline (by rw [hkind]; nofun))
      rw [LineSound, hloop, heq]
      exact hbefore
    | request r =>
      rw [hkind] at hbefore
      rw [LineSound, hloop, hmap]
      exact hbefore
  later i hi := by
    have hnot : i ∉ s.tasks.map Task.line := by
      rw [mem_map]
      rintro ⟨t, ht, rfl⟩
      exact absurd (h.tasks t ht).line_lt (Nat.not_lt.mpr (hlines ▸ hi))
    rw [hresponses i hnot]
    exact h.later i (hlines ▸ hi)

theorem Sound.arrive (hpending : s.pending = []) (bytes : List UInt8) :
    Sound describe { s with pending := bytes, sent := s.sent ++ bytes } := by
  refine h.update rfl rfl rfl ?_ h.unfinished_plain h.tasks fun _ _ => rfl
  have hframed := h.framed
  rw [hpending, append_nil] at hframed
  simp [hframed]

theorem Sound.write {m : Message} {queue : List Message} (hqueue : s.queue = m :: queue) :
    Sound describe { s with queue := queue, output := s.output ++ [m] } := by
  have hmessages : (s.output ++ [m]) ++ queue = s.messages := by
    rw [State.messages, hqueue, append_assoc, singleton_append]
  have hresponses : ∀ i, responses ((s.output ++ [m]) ++ queue) i = responses s.messages i :=
    fun i => by rw [hmessages]
  exact h.update rfl rfl rfl h.framed h.unfinished_plain
    (fun t ht => (h.tasks t ht).of_responses (hresponses t.line)) fun i _ => hresponses i

theorem Sound.notify :
    Sound describe { s with queue := s.queue ++ [.notification] } := by
  have hresponses : ∀ i, responses (s.output ++ (s.queue ++ [.notification])) i =
      responses s.messages i := fun i => by
    rw [← append_assoc, responses_append]
    exact append_nil _
  exact h.update rfl rfl rfl h.framed h.unfinished_plain
    (fun t ht => (h.tasks t ht).of_responses (hresponses t.line)) fun i _ => hresponses i

theorem Sound.outside (n : ℕ) : Sound describe { s with outside := n } :=
  h.update rfl rfl rfl h.framed h.unfinished_plain h.tasks fun _ _ => rfl

theorem Sound.unregister (display : Json → Text) (r : JsonRpcRequest) :
    Sound describe (s.unregister display r) :=
  h.update rfl rfl rfl h.framed h.unfinished_plain h.tasks fun _ _ => rfl

end

variable {tasks : List Task} {n : ℕ}

theorem map_line_set {t t' : Task} (ht : tasks[n]? = some t) (hline : t'.line = t.line) :
    (tasks.set n t').map Task.line = tasks.map Task.line := by
  obtain ⟨hn, rfl⟩ := List.getElem?_eq_some_iff.mp ht
  rw [List.map_set, hline, ← List.getElem_map Task.line (h := by rwa [List.length_map])]
  exact List.set_getElem_self _

theorem mem_set_cases {t' u : Task} (hu : u ∈ tasks.set n t') :
    u = t' ∨ u ∈ tasks :=
  (mem_or_eq_of_mem_set hu).symm

section
variable (h : Sound describe s)
include h

theorem Sound.setTask {t t' : Task} (ht : s.tasks[n]? = some t)
    (hline : t'.line = t.line) (hsound : TaskSound describe s.lines s.messages t') :
    Sound describe (s.setTask n t') := by
  refine h.update rfl rfl (map_line_set ht hline) h.framed h.unfinished_plain (fun u hu => ?_)
    fun _ _ => rfl
  obtain rfl | hu := mem_set_cases hu
  · exact hsound
  · exact h.tasks u hu

theorem Sound.send {t : Task} {r : JsonRpcResponse}
    (ht : s.tasks[n]? = some t) (hphase : t.phase = .sending r) :
    Sound describe { s.setTask n { t with phase := .settled } with
      queue := s.queue ++ [.response t.line r] } := by
  have hmem : t ∈ s.tasks := mem_of_getElem? ht
  have hsending := (h.tasks t hmem).phase
  rw [hphase] at hsending
  have hother : ∀ i ≠ t.line, responses (s.output ++ (s.queue ++ [.response t.line r])) i =
      responses s.messages i := fun i hi => by
    rw [← append_assoc]
    exact responses_append_other hi.symm _ _
  have hown : responses (s.output ++ (s.queue ++ [.response t.line r])) t.line = [r] := by
    rw [← append_assoc, responses_append_response]
    exact congrArg (· ++ [r]) hsending.1
  refine h.update rfl rfl (map_line_set ht rfl) h.framed h.unfinished_plain (fun u hu => ?_)
    fun i hi => hother i fun heq => hi (mem_map.mpr ⟨t, hmem, heq.symm⟩)
  by_cases hline : u.line = t.line
  · have hlt := (List.getElem?_eq_some_iff.mp ht).1
    have hmap : (s.tasks.set n { t with phase := .settled }).map Task.line =
        s.tasks.map Task.line := map_line_set ht rfl
    have hnodup := h.distinct
    rw [← hmap] at hnodup
    obtain rfl := inj_on_of_nodup_map hnodup hu (mem_set hlt _) hline
    refine ⟨(h.tasks t hmem).kind, .inl ⟨r.outcome, ?_⟩, (h.tasks t hmem).cancelled⟩
    rw [← hsending.2]
    exact hown
  · obtain rfl | hu := mem_set_cases hu
    · exact absurd rfl hline
    · exact (h.tasks u hu).of_responses (hother u.line hline)

theorem Sound.reject {e : JsonRpcError} (hloop : s.loop = .rejecting n e) :
    Sound describe { s with
      loop := .reading, queue := s.queue ++ [.response n ⟨none, .error e⟩] } := by
  have hbusy := h.loop
  rw [hloop] at hbusy
  obtain ⟨hn, hempty, faulty, hfaulty, hkind⟩ := hbusy
  have hnot := h.notMem_tasks hfaulty (by rw [hkind]; nofun)
  have hother : ∀ i ≠ n, responses (s.output ++ (s.queue ++ [.response n ⟨none, .error e⟩])) i =
      responses s.messages i := fun i hi => by
    rw [← append_assoc]
    exact responses_append_other hi.symm _ _
  have hown : responses (s.output ++ (s.queue ++ [.response n ⟨none, .error e⟩])) n =
      [⟨none, .error e⟩] := by
    rw [← append_assoc, responses_append_response]
    exact congrArg (· ++ _) hempty
  refine ⟨h.framed, h.lines_plain, h.unfinished_plain, trivial, fun t ht => ?_, h.distinct,
    fun i line hline => ?_, fun i hi => ?_⟩
  · exact (h.tasks t ht).of_responses
      (hother t.line fun heq => hnot (mem_map.mpr ⟨t, ht, heq⟩))
  · by_cases hi : i = n
    · subst hi
      cases hline.symm.trans hfaulty
      rw [hkind]
      exact .inr ⟨e, hown⟩
    · have hbefore := h.lines i line hline
      cases hk : kindOf describe line with
      | ignored =>
        rw [hk] at hbefore
        exact (hother i hi).trans hbefore
      | faulty =>
        rw [hk, LineSound, hloop] at hbefore
        obtain ⟨e', he⟩ | ⟨e', he⟩ := hbefore
        · cases he
          exact absurd rfl hi
        · exact .inr ⟨e', (hother i hi).trans he⟩
      | request r =>
        rw [hk, LineSound, hloop] at hbefore
        exact .inr (hbefore.resolve_left nofun)
  · have hi : s.lines.length ≤ i := hi
    exact (hother i (by omega)).trans (h.later i hi)

theorem Sound.spawn (display : Json → Text) {r : JsonRpcRequest}
    (hloop : s.loop = .admitting n r) (permit : Bool) :
    Sound describe (s.spawn display n r permit) := by
  have hbusy := h.loop
  rw [hloop] at hbusy
  obtain ⟨hn, hempty, hnot, own, hown, hkind⟩ := hbusy
  refine ⟨h.framed, h.lines_plain, h.unfinished_plain, trivial, fun t ht => ?_, ?_,
    fun i line hline => ?_, h.later⟩
  · obtain ht | ht := mem_append.mp ht
    · exact h.tasks t ht
    · cases mem_singleton.mp ht
      exact ⟨⟨own, hown, hkind⟩, hempty, nofun⟩
  · rw [State.spawn, map_append]
    refine nodup_append.mpr ⟨h.distinct, nodup_singleton n, fun a ha b hb hab => ?_⟩
    have hb : b = n := mem_singleton.mp hb
    exact hnot (hb ▸ hab ▸ ha)
  · have hbefore := h.lines i line hline
    cases hk : kindOf describe line with
    | ignored =>
      rw [hk] at hbefore
      exact hbefore
    | faulty =>
      rw [hk, LineSound, hloop] at hbefore
      exact .inr (hbefore.resolve_left nofun)
    | request r' =>
      rw [hk, LineSound, hloop] at hbefore
      rw [LineSound, State.spawn, map_append, mem_append]
      obtain heq | hmem := hbefore
      · cases heq
        exact .inr (.inr (mem_singleton_self _))
      · exact .inr (.inl hmem)

theorem Sound.readLine (hreading : s.loop = .reading)
    (hplain : newline ∉ line) (hlines : s'.lines = s.lines ++ [line])
    (hmap : s'.tasks.map Task.line = s.tasks.map Task.line) (hmessages : s'.messages = s.messages)
    (hframed : s'.sent = (s'.lines.map (· ++ [newline])).flatten ++ (s'.unfinished ++ s'.pending))
    (hunfinished : s'.unfinished = [])
    (htasks : ∀ t ∈ s'.tasks, TaskSound describe s'.lines s'.messages t)
    (hloop : LoopSound describe s' s'.loop)
    (hline : LineSound s' s.lines.length (kindOf describe line)) : Sound describe s' where
  framed := hframed
  lines_plain := by
    intro other hother
    rw [hlines, List.mem_append, List.mem_singleton] at hother
    obtain hold | rfl := hother
    · exact h.lines_plain other hold
    · exact hplain
  unfinished_plain := by rw [hunfinished]; exact List.not_mem_nil
  loop := hloop
  tasks := htasks
  distinct := by rw [hmap]; exact h.distinct
  lines i other hother := by
    rw [hlines, List.getElem?_append] at hother
    split at hother
    · have hbefore := h.lines i other hother
      cases hkind : kindOf describe other with
      | ignored =>
        rw [hkind] at hbefore
        rw [LineSound, hmessages]
        exact hbefore
      | faulty =>
        rw [hkind, LineSound, hreading] at hbefore
        rw [LineSound, hmessages]
        exact .inr (hbefore.resolve_left nofun)
      | request r =>
        rw [hkind, LineSound, hreading] at hbefore
        rw [LineSound, hmap]
        exact .inr (hbefore.resolve_left nofun)
    · next hge =>
        obtain ⟨hlt, rfl⟩ := List.getElem?_eq_some_iff.mp hother
        rw [List.length_singleton] at hlt
        obtain rfl : i = s.lines.length := by omega
        simpa using hline
  later i hi := by
    rw [hlines, List.length_append] at hi
    rw [hmessages]
    exact h.later i (by omega)

end

theorem map_line_fire (tasks : List Task) (token : Option ℕ) :
    (fire tasks token).map Task.line = tasks.map Task.line := by
  cases token with
  | none => rfl
  | some n =>
    rw [fire]
    ext i
    rw [getElem?_map, getElem?_modify, getElem?_map]
    split <;> cases tasks[i]? <;> rfl

theorem mem_fire {token : Option ℕ} {u : Task} (hu : u ∈ fire tasks token) :
    u ∈ tasks ∨ ∃ n t, token = some n ∧ tasks[n]? = some t ∧ u = { t with cancelled := true } := by
  cases token with
  | none => exact .inl hu
  | some n =>
    obtain ⟨i, hi⟩ := mem_iff_getElem?.mp hu
    rw [fire, getElem?_modify] at hi
    obtain ⟨t, ht, heq⟩ := Option.map_eq_some_iff.mp hi
    split at heq
    · next hni =>
        subst hni
        exact .inr ⟨n, t, rfl, ht, heq.symm⟩
    · exact .inl (heq ▸ mem_of_getElem? ht)

end

section
variable (describe : Text → Text) (display : Json → Text)

/-- The line is valid UTF-8. If it is a cancellation it has no id of its own, and the request that
the server finds under the id it names has that id. -/
def ClearLine (s : State) (line : List UInt8) : Prop :=
  (fromUtf8 (line ++ [newline])).isSome ∧
    ∀ m, receive describe line = .message m → m.method = some cancelledMethod →
      m.id = none ∧
        ∀ id n t, m.params.bind (·.get "requestId") = some id →
          s.active.lookup (requestKey display id) = some n → s.tasks[n]? = some t →
          t.request.id = some id

def Clear (s : State) : Event → Prop
  | .consume => ∀ front rest, takeLine s.pending = some (front, rest) →
      ClearLine describe display s (s.unfinished ++ front)
  | _ => True

end

section
variable {describe : Text → Text} {display : Json → Text} {s s' : State}

theorem receive_ne_failed (h : (fromUtf8 (line ++ [newline])).isSome) :
    receive describe line ≠ .failed := by
  obtain ⟨text, htext⟩ := Option.isSome_iff_exists.mp h
  rw [receive, htext]
  dsimp only
  split
  · nofun
  · split <;> nofun

theorem Sound.fire (h : Sound describe s) {m : JsonRpcMessage}
    (hclear : ClearLine describe display s line) (hm : receive describe line = .message m)
    (hmethod : m.method = some cancelledMethod) :
    ∀ t ∈ SessionLoop.fire s.tasks (handleCancellationNotification display s.active m.params).1,
      TaskSound describe (s.lines ++ [line]) s.messages t := by
  intro u hu
  obtain hu | ⟨n, t, htoken, ht, rfl⟩ := mem_fire hu
  · exact (h.tasks u hu).append [line]
  · have hsound := h.tasks t (mem_of_getElem? ht)
    refine (hsound.append [line]).cancel ?_
    rw [handleCancellationNotification] at htoken
    cases hid : m.params.bind (·.get "requestId") with
    | none =>
      rw [hid] at htoken
      cases htoken
    | some id =>
      rw [hid] at htoken
      exact ⟨s.lines.length, line, m, id, hsound.line_lt, by simp, hm, hmethod, hid,
        (hclear.2 m hm hmethod).2 id n t hid htoken ht⟩

theorem Sound.accept (h : Sound describe s) (hreading : s.loop = .reading)
    {front rest : List UInt8} (htake : takeLine s.pending = some (front, rest))
    (hclear : ClearLine describe display s (s.unfinished ++ front)) :
    Sound describe (s.consume describe display) := by
  obtain ⟨hpending, hfront⟩ := takeLine_some htake
  generalize hline : s.unfinished ++ front = line at hclear
  have hplain : newline ∉ line := by
    rw [← hline, mem_append, not_or]
    exact ⟨h.unfinished_plain, hfront⟩
  have hframed : s.sent = ((s.lines ++ [line]).map (· ++ [newline])).flatten ++ ([] ++ rest) := by
    rw [h.framed, hpending, ← hline]
    simp
  have hempty : responses s.messages s.lines.length = [] := h.later _ (Nat.le_refl _)
  have hlast : (s.lines ++ [line])[s.lines.length]? = some line := by simp
  have htasks : ∀ t ∈ s.tasks, TaskSound describe (s.lines ++ [line]) s.messages t :=
    fun t ht => (h.tasks t ht).append [line]
  -- a line that needs no answer leaves the reader reading
  have hsilent : ∀ (active : ActiveRequests) (tasks : List Task),
      tasks.map Task.line = s.tasks.map Task.line →
      (∀ t ∈ tasks, TaskSound describe (s.lines ++ [line]) s.messages t) →
      kindOf describe line = .ignored →
      Sound describe { s with
        pending := rest, unfinished := [], lines := s.lines ++ [line], loop := .reading,
        active := active, tasks := tasks } := by
    intro active tasks hmap htasks hkind
    refine h.readLine hreading hplain rfl hmap rfl hframed rfl htasks trivial ?_
    rw [hkind]
    exact hempty
  rw [State.consume, htake]
  dsimp only
  rw [hline]
  cases hreceive : receive describe line with
  | failed => exact absurd hreceive (receive_ne_failed hclear.1)
  | blank =>
    rw [State.accept, hreading]
    exact hsilent s.active s.tasks rfl htasks (by rw [kindOf, hreceive])
  | rejected e =>
    have hkind : kindOf describe line = .faulty := by rw [kindOf, hreceive]
    refine h.readLine hreading hplain rfl rfl rfl hframed rfl htasks ?_ ?_
    · exact ⟨by simp [State.accept], hempty, line, hlast, hkind⟩
    · rw [hkind]
      exact .inl ⟨e, rfl⟩
  | message m =>
    simp only [State.accept]
    cases hmethod : m.method with
    | none =>
      have hroute : routeIncomingMessage display s.active m = (none, none, s.active) := by
        simp [routeIncomingMessage, hmethod]
      rw [hroute]
      exact hsilent _ _ rfl htasks (by simp [kindOf, hreceive, hmethod])
    | some method =>
      by_cases hcancelled : method = cancelledMethod
      · rw [hcancelled] at hmethod
        have hid : m.id = none := (hclear.2 m hreceive hmethod).1
        have hroute : routeIncomingMessage display s.active m =
            (none, handleCancellationNotification display s.active m.params) := by
          simp [routeIncomingMessage, hmethod]
        rw [hroute]
        exact hsilent _ _ (map_line_fire s.tasks _) (h.fire hclear hreceive hmethod)
          (by simp [kindOf, hreceive, hmethod, hid])
      · cases hid : m.id with
        | none =>
          have hroute : routeIncomingMessage display s.active m = (none, none, s.active) := by
            simp [routeIncomingMessage, hmethod, hcancelled, hid]
          rw [hroute]
          exact hsilent _ _ rfl htasks (by simp [kindOf, hreceive, hmethod, hid])
        | some id =>
          have hkind : kindOf describe line =
              .request ⟨m.jsonrpc, some id, method, m.params⟩ := by
            simp [kindOf, hreceive, hmethod, hid]
          have hroute : routeIncomingMessage display s.active m =
              (some ⟨m.jsonrpc, some id, method, m.params⟩, none, s.active) := by
            simp [routeIncomingMessage, hmethod, hcancelled, hid]
          have hnot : s.lines.length ∉ s.tasks.map Task.line := by
            rw [mem_map]
            rintro ⟨t, ht, heq⟩
            exact absurd (h.tasks t ht).line_lt (by omega)
          rw [hroute]
          refine h.readLine hreading hplain rfl rfl rfl hframed rfl htasks ?_ ?_
          · exact ⟨by simp, hempty, hnot, line, hlast, hkind⟩
          · rw [hkind]
            exact .inl rfl

theorem Sound.consume (h : Sound describe s) (hreading : s.loop = .reading)
    (hclear : Clear describe display s .consume) : Sound describe (s.consume describe display) := by
  cases htake : takeLine s.pending with
  | some p => exact h.accept hreading htake (hclear p.1 p.2 htake)
  | none =>
    rw [State.consume, htake]
    refine h.update rfl rfl rfl ?_ ?_ h.tasks fun _ _ => rfl
    · rw [h.framed, append_nil]
    · rw [mem_append, not_or]
      exact ⟨h.unfinished_plain, takeLine_none htake⟩

theorem TaskSound.answered {lines : List (List UInt8)} {messages : List Message} {t t' : Task}
    {outcome : Outcome} (h : TaskSound describe lines messages t) (hphase : t.phase = .running)
    (ht' : t.answered outcome = some t') : TaskSound describe lines messages t' := by
  have hempty := h.phase
  rw [hphase] at hempty
  cases outcome with
  | streaming =>
    rw [Task.answered] at ht'
    split at ht'
    · next hmethod =>
        cases ht'
        exact ⟨h.kind, ⟨hempty, hmethod, rfl⟩, h.cancelled⟩
    · cases ht'
  | respond outcome =>
    cases ht'
    refine ⟨h.kind, ?_, h.cancelled⟩
    dsimp only
    split
    · exact ⟨hempty, rfl⟩
    · next hback =>
        rw [shouldWriteBack, Bool.or_eq_true, not_or, Bool.not_eq_true', Bool.not_eq_false] at hback
        exact .inr ⟨hempty, h.cancelled hback.2⟩

theorem Task.answered_line {t t' : Task} {outcome : Outcome} (h : t.answered outcome = some t') :
    t'.line = t.line := by
  cases outcome with
  | streaming =>
    rw [Task.answered] at h
    split at h <;> cases h
    rfl
  | respond outcome =>
    cases h
    rfl

theorem Sound.clean (h : Sound describe s) {n : ℕ} {t : Task} (ht : s.tasks[n]? = some t)
    (hphase : t.phase = .settled) :
    Sound describe (s.setTask n { t with phase := .finished, permit := false }) := by
  have hsound := h.tasks t (mem_of_getElem? ht)
  have hsettled := hsound.phase
  rw [hphase] at hsettled
  exact h.setTask ht rfl ⟨hsound.kind, ⟨hsettled, rfl⟩, hsound.cancelled⟩

/-- What each step does, and when. -/
inductive Moves (describe : Text → Text) (display : Json → Text) (limit : ℕ) (s : State) :
    Event → State → Prop where
  | arrive (bytes : List UInt8) (hpending : s.pending = []) :
      Moves describe display limit s (.arrive bytes)
        { s with pending := bytes, sent := s.sent ++ bytes }
  | consume (hreading : s.loop = .reading) (hpending : s.pending ≠ []) :
      Moves describe display limit s .consume (s.consume describe display)
  | reject {n : ℕ} {e : JsonRpcError} (hloop : s.loop = .rejecting n e) :
      Moves describe display limit s .reject
        { s with loop := .reading, queue := s.queue ++ [.response n ⟨none, .error e⟩] }
  | enter {n : ℕ} {r : JsonRpcRequest} (permit : Bool) (hloop : s.loop = .admitting n r) :
      Moves describe display limit s .enter (s.spawn display n r permit)
  | answer {n : ℕ} {outcome : Outcome} {t t' : Task} (ht : s.tasks[n]? = some t)
      (hphase : t.phase = .running) (ht' : t.answered outcome = some t') :
      Moves describe display limit s (.answer n outcome) (s.setTask n t')
  | send {n : ℕ} {t : Task} {r : JsonRpcResponse} (ht : s.tasks[n]? = some t)
      (hphase : t.phase = .sending r) :
      Moves describe display limit s (.send n)
        { s.setTask n { t with phase := .settled } with
          queue := s.queue ++ [.response t.line r] }
  | clean {n : ℕ} {t : Task} (ht : s.tasks[n]? = some t) (hphase : t.phase = .settled) :
      Moves describe display limit s (.clean n)
        ((s.setTask n { t with phase := .finished, permit := false }).unregister display t.request)
  | write {m : Message} {queue : List Message} (hqueue : s.queue = m :: queue) :
      Moves describe display limit s .write { s with queue := queue, output := s.output ++ [m] }
  | notify :
      Moves describe display limit s .notify { s with queue := s.queue ++ [.notification] }
  | borrow : Moves describe display limit s .borrow { s with outside := s.outside + 1 }
  | giveBack (houtside : s.outside ≠ 0) :
      Moves describe display limit s .giveBack { s with outside := s.outside - 1 }

theorem moves_of_step {limit : ℕ} {a : Event} (hs : step describe display limit s a = some s') :
    Moves describe display limit s a s' := by
  cases a with
  | arrive bytes =>
    simp only [SessionLoop.step] at hs
    split at hs <;> cases hs
    next hpending => exact .arrive bytes hpending
  | consume =>
    simp only [SessionLoop.step] at hs
    split at hs
    · next hreading =>
        split at hs <;> cases hs
        next hpending => exact .consume hreading hpending
    · cases hs
  | reject =>
    simp only [SessionLoop.step] at hs
    split at hs
    · next hloop =>
        split at hs <;> cases hs
        exact .reject hloop
    · cases hs
  | enter =>
    simp only [SessionLoop.step] at hs
    split at hs
    · next hloop =>
        split_ifs at hs <;> cases hs
        · exact .enter false hloop
        · exact .enter true hloop
    · cases hs
  | answer n outcome =>
    simp only [SessionLoop.step] at hs
    split at hs
    · cases hs
    · next t ht =>
        split at hs
        · next hphase =>
            obtain ⟨t', ht', rfl⟩ := Option.map_eq_some_iff.mp hs
            exact .answer ht hphase ht'
        · cases hs
  | send n =>
    simp only [SessionLoop.step] at hs
    split at hs
    · cases hs
    · next t ht =>
        split at hs
        · next r hphase =>
            split at hs <;> cases hs
            exact .send ht hphase
        · cases hs
  | clean n =>
    simp only [SessionLoop.step] at hs
    split at hs
    · cases hs
    · next t ht =>
        split at hs
        · next hphase =>
            cases hs
            exact .clean ht hphase
        · cases hs
  | write =>
    simp only [SessionLoop.step] at hs
    split at hs
    · cases hs
    · next hqueue =>
        cases hs
        exact .write hqueue
  | notify =>
    simp only [SessionLoop.step] at hs
    split at hs <;> cases hs
    exact .notify
  | borrow =>
    simp only [SessionLoop.step] at hs
    split at hs <;> cases hs
    exact .borrow
  | giveBack =>
    simp only [SessionLoop.step] at hs
    split at hs <;> cases hs
    next houtside => exact .giveBack houtside

theorem Sound.step {limit : ℕ} {a : Event} (h : Sound describe s)
    (hclear : Clear describe display s a) (hs : step describe display limit s a = some s') :
    Sound describe s' := by
  cases moves_of_step hs with
  | arrive bytes hpending => exact h.arrive hpending bytes
  | consume hreading _ => exact h.consume hreading hclear
  | reject hloop => exact h.reject hloop
  | enter permit hloop => exact h.spawn display hloop permit
  | answer ht hphase ht' =>
    exact h.setTask ht (Task.answered_line ht')
      ((h.tasks _ (mem_of_getElem? ht)).answered hphase ht')
  | send ht hphase => exact h.send ht hphase
  | clean ht hphase => exact (h.clean ht hphase).unregister display _
  | write hqueue => exact h.write hqueue
  | notify => exact h.notify
  | borrow => exact h.outside _
  | giveBack _ => exact h.outside _

theorem sound_start : Sound describe State.start where
  framed := rfl
  lines_plain := nofun
  unfinished_plain := not_mem_nil
  loop := trivial
  tasks := nofun
  distinct := nodup_nil
  lines i line hline := by simp [State.start] at hline
  later _ _ := rfl

theorem sound_of_reaches {limit : ℕ}
    (h : Reaches (step describe display limit) (Clear describe display) State.start s) :
    Sound describe s :=
  h.invariant sound_start fun _ _ _ hsound hclear hs => hsound.step hclear hs

end

end BridgeMcp.Mcp.SessionLoop
