import Mathlib.Data.List.AList
import BridgeMcp.Lib.Json
import BridgeMcp.Lib.Transition

/-!
The requests of one session and their cancellation tokens. The map `ActiveRequests` is keyed by a
text made from the JSON-RPC id, so what reaches which request depends on how ids become texts.

A request is numbered by its arrival; the token of request `n` is represented by `n`.
-/
namespace BridgeMcp.Mcp
open JsonLib TextLib TransitionLib List Option

abbrev ActiveRequests : Type := AList fun _ : Text => ℕ

namespace ActiveRequests

def register (map : ActiveRequests) (requestId : Text) (token : ℕ) : ActiveRequests :=
  map.insert requestId token

def unregister (map : ActiveRequests) (requestId : Text) : ActiveRequests := map.erase requestId

def cancel (map : ActiveRequests) (requestId : Text) : Option ℕ × ActiveRequests :=
  (map.lookup requestId, map.erase requestId)

end ActiveRequests

section
variable (display : Json → Text)

/-- A JSON-RPC id as a key. `display` writes a value as JSON. -/
def requestKey : Json → Text
  | .string s => s
  | other => display other

def handleCancellationNotification (map : ActiveRequests) (params : Option Json) :
    Option ℕ × ActiveRequests :=
  match params.bind (·.get "requestId") with
  | none => (none, map)
  | some requestId => map.cancel (requestKey display requestId)

end

namespace RequestRuns

/-- A request of the session. It is in flight until it is done. -/
structure Request where
  id : Json
  done : Bool
  cancelled : Bool

structure State where
  active : ActiveRequests
  requests : List Request

open State

def State.start : State := ⟨∅, []⟩

/-- `arrive` is the registration, `complete` the `unregister` at the end of a request's task. A
live `subscriptions/listen` is a request that never completes. -/
inductive Event where
  | arrive (id : Json)
  | complete (n : ℕ)
  | cancelled (params : Option Json)

/-- Firing a token cancels its request; nothing else sees it. -/
def fire (requests : List Request) : Option ℕ → List Request
  | none => requests
  | some n => requests.modify n fun q => { q with cancelled := true }

theorem getElem?_fire (requests : List Request) (token : Option ℕ) (n : ℕ) :
    (fire requests token)[n]? =
      requests[n]?.map fun q => if token = some n then { q with cancelled := true } else q := by
  cases token with
  | none => simp [fire]
  | some m =>
    rw [fire, getElem?_modify]
    by_cases hmn : m = n <;> simp [hmn]

/-- Request `n` of `s` is `q`, and in flight. -/
def State.InFlight (s : State) (n : ℕ) (q : Request) : Prop :=
  s.requests[n]? = some q ∧ q.done = false

section
variable (display : Json → Text)

def step (s : State) : Event → Option State
  | .arrive id =>
    some ⟨s.active.register (requestKey display id) s.requests.length,
      s.requests ++ [⟨id, false, false⟩]⟩
  | .complete n =>
    match s.requests[n]? with
    | none => none
    | some q =>
      if q.done then none
      else some ⟨s.active.unregister (requestKey display q.id),
        s.requests.set n { q with done := true }⟩
  | .cancelled params =>
    let (token, map) := handleCancellationNotification display s.active params
    some ⟨map, fire s.requests token⟩

/-- A notification naming `r` fires the tokens of the requests in flight whose id is `r`, and no
other token. -/
def Cancels (s : State) (r : Json) : Prop :=
  ∀ (params : Option Json) (s' : State), params.bind (·.get "requestId") = some r →
    step display s (.cancelled params) = some s' →
    ∀ (n : ℕ) (q : Request), s.requests[n]? = some q →
      ∃ q', s'.requests[n]? = some q' ∧
        (q'.cancelled = true ↔ q.cancelled = true ∨ q.done = false ∧ q.id = r)

def Cancellable (s : State) : Prop := ∀ n q, s.InFlight n q → Cancels display s q.id

/-- A request in flight, not yet cancelled, that has the key of `r` has the id `r`. -/
def NamesOwnId (s : State) (r : Json) : Prop :=
  ∀ n q, s.InFlight n q → q.cancelled = false → requestKey display q.id = requestKey display r →
    q.id = r

/-- An arriving id has a key that no request in flight has; a notification names the id itself of
the request that its key stands for. -/
def Clear (s : State) : Event → Prop
  | .arrive id => ∀ n q, s.InFlight n q → requestKey display q.id ≠ requestKey display id
  | .complete _ => True
  | .cancelled params =>
    ∀ r, params.bind (·.get "requestId") = some r → NamesOwnId display s r

/-- The map holds exactly the requests that can still be cancelled, and requests in flight have
different keys. -/
structure State.Registered (s : State) : Prop where
  lookup : ∀ k n, s.active.lookup k = some n ↔
    ∃ q, s.InFlight n q ∧ q.cancelled = false ∧ requestKey display q.id = k
  distinct : ∀ n m q q', s.InFlight n q → s.InFlight m q' →
    requestKey display q.id = requestKey display q'.id → n = m

end

theorem State.InFlight.unique {s : State} {n : ℕ} {q q' : Request} (h : s.InFlight n q)
    (h' : s.InFlight n q') : q = q' :=
  some.inj (h.1.symm.trans h'.1)

section
variable {display : Json → Text} {s s' : State}

variable {map : ActiveRequests} {n : ℕ} {q p : Request}

theorem inFlight_arrive {id : Json} :
    (mk map (s.requests ++ [⟨id, false, false⟩])).InFlight n q ↔
      s.InFlight n q ∨ n = s.requests.length ∧ q = ⟨id, false, false⟩ := by
  unfold State.InFlight
  rw [getElem?_append]
  split_ifs with hn
  · constructor
    · exact Or.inl
    · rintro (h | ⟨rfl, -⟩)
      · exact h
      · exact absurd hn (lt_irrefl _)
  · have hnone : s.requests[n]? = none := getElem?_eq_none (not_lt.mp hn)
    rw [hnone, getElem?_singleton]
    constructor
    · rintro ⟨h, -⟩
      split_ifs at h with hzero
      exact Or.inr ⟨by omega, (some.inj h).symm⟩
    · rintro (⟨h, -⟩ | ⟨rfl, rfl⟩)
      · cases h
      · simp

theorem inFlight_complete (hp : s.InFlight n p) {m : ℕ} :
    (mk map (s.requests.set n { p with done := true })).InFlight m q ↔
      m ≠ n ∧ s.InFlight m q := by
  unfold State.InFlight
  by_cases hmn : m = n
  · subst hmn
    have hlt : m < s.requests.length := (List.getElem?_eq_some_iff.mp hp.1).1
    rw [List.getElem?_set_self hlt]
    constructor
    · rintro ⟨h, hdone⟩
      obtain rfl := some.inj h
      cases hdone
    · exact fun h => absurd rfl h.1
  · rw [List.getElem?_set_ne (Ne.symm hmn)]
    exact (and_iff_right hmn).symm

theorem inFlight_fire {token : Option ℕ} :
    (mk map (fire s.requests token)).InFlight n q ↔
      ∃ p, s.InFlight n p ∧ q = if token = some n then { p with cancelled := true } else p := by
  unfold State.InFlight
  rw [getElem?_fire, map_eq_some_iff]
  constructor
  · rintro ⟨⟨p, hp, rfl⟩, hdone⟩
    exact ⟨p, ⟨hp, by split_ifs at hdone <;> exact hdone⟩, rfl⟩
  · rintro ⟨p, ⟨hp, hdone⟩, rfl⟩
    exact ⟨⟨p, hp, rfl⟩, by split_ifs <;> exact hdone⟩

theorem step_cancelled {params : Option Json} {r : Json}
    (hr : params.bind (·.get "requestId") = some r) :
    step display s (.cancelled params) =
      some ⟨s.active.erase (requestKey display r),
        fire s.requests (s.active.lookup (requestKey display r))⟩ := by
  rw [step, handleCancellationNotification, hr]
  rfl

theorem step_cancelled_none {params : Option Json}
    (hr : params.bind (·.get "requestId") = none) :
    step display s (.cancelled params) = some s := by
  rw [step, handleCancellationNotification, hr]
  rfl

theorem step_complete (h : step display s (.complete n) = some s') :
    ∃ q, s.InFlight n q ∧ s' = ⟨s.active.erase (requestKey display q.id),
      s.requests.set n { q with done := true }⟩ := by
  rw [step] at h
  split at h
  · cases h
  · next q hq =>
      split_ifs at h with hdone
      exact ⟨q, ⟨hq, Bool.eq_false_iff.mpr hdone⟩, (some.inj h).symm⟩

section
variable (h : s.Registered display)
include h

theorem State.Registered.arrive {id : Json} (hfresh : Clear display s (.arrive id)) :
    (State.mk (s.active.register (requestKey display id) s.requests.length)
      (s.requests ++ [⟨id, false, false⟩])).Registered display where
  lookup k n := by
    rw [ActiveRequests.register]
    by_cases hk : k = requestKey display id
    · subst hk
      rw [AList.lookup_insert, some.injEq]
      constructor
      · rintro rfl
        exact ⟨_, inFlight_arrive.mpr (Or.inr ⟨rfl, rfl⟩), rfl, rfl⟩
      · rintro ⟨q, hq, -, hkey⟩
        rcases inFlight_arrive.mp hq with hq | ⟨rfl, -⟩
        · exact absurd hkey (hfresh n q hq)
        · rfl
    · rw [AList.lookup_insert_ne hk, h.lookup]
      constructor
      · rintro ⟨q, hq, hrest⟩
        exact ⟨q, inFlight_arrive.mpr (Or.inl hq), hrest⟩
      · rintro ⟨q, hq, hrest⟩
        rcases inFlight_arrive.mp hq with hq | ⟨-, rfl⟩
        · exact ⟨q, hq, hrest⟩
        · exact absurd hrest.2.symm hk
  distinct n m q q' hq hq' hkey := by
    rcases inFlight_arrive.mp hq with hq | ⟨rfl, rfl⟩ <;>
      rcases inFlight_arrive.mp hq' with hq' | ⟨rfl, rfl⟩
    · exact h.distinct n m q q' hq hq' hkey
    · exact absurd hkey (hfresh n q hq)
    · exact absurd hkey.symm (hfresh m q' hq')
    · rfl

theorem State.Registered.complete (hp : s.InFlight n p) :
    (State.mk (s.active.erase (requestKey display p.id))
      (s.requests.set n { p with done := true })).Registered display where
  lookup k m := by
    by_cases hk : k = requestKey display p.id
    · subst hk
      rw [AList.lookup_erase]
      constructor
      · intro hnone
        cases hnone
      · rintro ⟨q, hq, -, hkey⟩
        obtain ⟨hmn, hq⟩ := (inFlight_complete hp).mp hq
        exact absurd (h.distinct m n q p hq hp hkey) hmn
    · rw [AList.lookup_erase_ne hk, h.lookup]
      constructor
      · rintro ⟨q, hq, hrest⟩
        refine ⟨q, (inFlight_complete hp).mpr ⟨?_, hq⟩, hrest⟩
        rintro rfl
        exact hk (hp.unique hq ▸ hrest.2.symm)
      · rintro ⟨q, hq, hrest⟩
        exact ⟨q, ((inFlight_complete hp).mp hq).2, hrest⟩
  distinct m m' q q' hq hq' :=
    h.distinct m m' q q' ((inFlight_complete hp).mp hq).2 ((inFlight_complete hp).mp hq').2

theorem State.Registered.cancel (r : Json) :
    (State.mk (s.active.erase (requestKey display r))
      (fire s.requests (s.active.lookup (requestKey display r)))).Registered display where
  lookup k n := by
    by_cases hk : k = requestKey display r
    · subst hk
      rw [AList.lookup_erase]
      constructor
      · intro hnone
        cases hnone
      · rintro ⟨q, hq, hlive, hkey⟩
        obtain ⟨p, hp, rfl⟩ := inFlight_fire.mp hq
        split_ifs at hlive hkey with hfired
        exact absurd ((h.lookup _ n).mpr ⟨p, hp, hlive, hkey⟩) hfired
    · rw [AList.lookup_erase_ne hk]
      constructor
      · intro hn
        obtain ⟨p, hp, hlive, hkey⟩ := (h.lookup k n).mp hn
        have hspared : ¬ s.active.lookup (requestKey display r) = some n := by
          intro hfired
          obtain ⟨p', hp', -, hkey'⟩ := (h.lookup _ n).mp hfired
          exact hk (hkey.symm.trans (hp.unique hp' ▸ hkey'))
        exact ⟨p, inFlight_fire.mpr ⟨p, hp, (if_neg hspared).symm⟩, hlive, hkey⟩
      · rintro ⟨q, hq, hlive, hkey⟩
        obtain ⟨p, hp, rfl⟩ := inFlight_fire.mp hq
        split_ifs at hlive hkey with hfired
        exact (h.lookup k n).mpr ⟨p, hp, hlive, hkey⟩
  distinct n m q q' hq hq' hkey := by
    obtain ⟨p, hp, rfl⟩ := inFlight_fire.mp hq
    obtain ⟨p', hp', rfl⟩ := inFlight_fire.mp hq'
    apply h.distinct n m p p' hp hp'
    split_ifs at hkey <;> exact hkey

theorem State.Registered.step {a : Event} (hclear : Clear display s a)
    (hs : step display s a = some s') : s'.Registered display := by
  cases a with
  | arrive id =>
    obtain rfl := some.inj hs
    exact h.arrive hclear
  | complete n =>
    obtain ⟨p, hp, rfl⟩ := step_complete hs
    exact h.complete hp
  | cancelled params =>
    cases hr : params.bind (·.get "requestId") with
    | none =>
      rw [step_cancelled_none hr] at hs
      exact some.inj hs ▸ h
    | some r =>
      rw [step_cancelled hr] at hs
      exact some.inj hs ▸ h.cancel r

end

theorem registered_start : start.Registered display where
  lookup k n := by simp [start, State.InFlight]
  distinct n m q q' hq := by simp [start, State.InFlight] at hq

theorem registered_of_reaches (h : Reaches (step display) (Clear display) start s) :
    s.Registered display :=
  h.invariant registered_start fun _ _ _ hi hclear hs => hi.step hclear hs

theorem exists_params (r : Json) :
    ∃ params : Option Json, params.bind (·.get "requestId") = some r :=
  ⟨some (.object [("requestId", r)]), (bind_some _ _).trans (Json.get_singleton _ r)⟩

theorem State.Registered.cancels_iff (h : s.Registered display) (r : Json) :
    Cancels display s r ↔ NamesOwnId display s r := by
  constructor
  · intro hcancels n q hq hlive hkey
    have hlookup : s.active.lookup (requestKey display r) = some n :=
      (h.lookup _ n).mpr ⟨q, hq, hlive, hkey⟩
    obtain ⟨params, hr⟩ := exists_params r
    obtain ⟨q', hq', hiff⟩ := hcancels params _ hr (step_cancelled hr) n q hq.1
    rw [getElem?_fire, hq.1, map_some, if_pos hlookup] at hq'
    obtain rfl := some.inj hq'
    rcases hiff.mp rfl with hcancelled | ⟨-, hid⟩
    · rw [hlive] at hcancelled
      cases hcancelled
    · exact hid
  · intro hown params s' hr hs n q hq
    rw [step_cancelled hr] at hs
    obtain rfl := some.inj hs
    refine ⟨_, by rw [getElem?_fire, hq, map_some], ?_⟩
    split_ifs with hfired
    · obtain ⟨p, hp, hlive, hkey⟩ := (h.lookup _ n).mp hfired
      obtain rfl : p = q := some.inj (hp.1.symm.trans hq)
      exact iff_of_true rfl (Or.inr ⟨hp.2, hown n p hp hlive hkey⟩)
    · refine ⟨Or.inl, ?_⟩
      rintro (hcancelled | ⟨hdone, rfl⟩)
      · exact hcancelled
      · by_contra hlive
        exact hfired ((h.lookup _ n).mpr ⟨q, ⟨hq, hdone⟩, Bool.eq_false_iff.mpr hlive, rfl⟩)

theorem State.Registered.cancellable (h : s.Registered display) : Cancellable display s := by
  intro n q hq
  refine (h.cancels_iff q.id).mpr fun m p hp _ hkey => ?_
  obtain rfl := h.distinct m n p q hp hq hkey
  rw [hp.unique hq]

theorem not_cancellable_arrive {id : Json} (hq : s.InFlight n q)
    (hkey : requestKey display q.id = requestKey display id) (hid : q.id ≠ id) :
    ¬ Cancellable display (mk (s.active.register (requestKey display id) s.requests.length)
      (s.requests ++ [⟨id, false, false⟩])) := by
  intro hcancellable
  obtain ⟨params, hr⟩ := exists_params q.id
  obtain ⟨q', hq', hiff⟩ := hcancellable n q (inFlight_arrive.mpr (Or.inl hq)) params _ hr
    (step_cancelled hr) s.requests.length ⟨id, false, false⟩ (by simp)
  rw [ActiveRequests.register, hkey, AList.lookup_insert, getElem?_fire] at hq'
  simp only [getElem?_concat_length, map_some, if_true, some.injEq] at hq'
  subst hq'
  rcases hiff.mp rfl with hcancelled | ⟨-, hown⟩
  · cases hcancelled
  · exact hid hown.symm

end

/-- Along runs whose events are all `Clear`, a notification reaches exactly the request it names
when it is `Clear` itself, and every request in flight can be cancelled by its id. Of the arrivals
under a new id, exactly those that are not `Clear` break this. -/
theorem cancellation_reaches_named (display : Json → Text) (s : State) :
    Reaches (step display) (Clear display) start s →
      (∀ r, Cancels display s r ↔ NamesOwnId display s r) ∧ Cancellable display s ∧
      ∀ id s', (∀ n q, s.InFlight n q → q.id ≠ id) → step display s (.arrive id) = some s' →
        (Cancellable display s' ↔ Clear display s (.arrive id)) := by
  intro hreach
  have h := registered_of_reaches hreach
  refine ⟨h.cancels_iff, h.cancellable, fun id s' hnew hs => ⟨?_, ?_⟩⟩
  · obtain rfl := some.inj hs
    intro hcancellable n q hq hkey
    exact not_cancellable_arrive hq hkey (hnew n q hq) hcancellable
  · intro hclear
    exact (h.step hclear hs).cancellable

def displayNatural : Json → Text
  | .number (.posInt n) => Nat.toDigits 10 n
  | _ => []

theorem cancellation_reaches_both :
    ∃ s, Reaches (step displayNatural) (Clear displayNatural) start s ∧
      s.requests = [⟨.number (.posInt 1), false, false⟩, ⟨.string "a", false, false⟩] ∧
      Cancellable displayNatural s := by
  have hfirst : Clear displayNatural start (.arrive (.number (.posInt 1))) := by
    intro n q hq
    cases hq.1
  have hreach : Reaches (step displayNatural) (Clear displayNatural) start _ :=
    (Reaches.refl.tail hfirst rfl).tail (a := .arrive (.string "a")) (by
      intro n q hq
      rcases inFlight_arrive.mp hq with hq | ⟨-, rfl⟩
      · cases hq.1
      · decide) rfl
  exact ⟨_, hreach, rfl, (cancellation_reaches_named displayNatural _ hreach).2.1⟩

def cancelOf (id : Json) : Event := .cancelled (some (.object [("requestId", id)]))

/-- Requests `1` and `"1"` are in flight. The notification for `1` fires the token of `"1"`, and
when it is sent again nothing is left that could reach `1`. -/
theorem number_cancels_string :
    ∃ s s', Reaches (step displayNatural) (fun _ _ => True) start s ∧
      s.requests = [⟨.number (.posInt 1), false, false⟩, ⟨.string "1", false, false⟩] ∧
      step displayNatural s (cancelOf (.number (.posInt 1))) = some s' ∧
      s'.requests = [⟨.number (.posInt 1), false, false⟩, ⟨.string "1", false, true⟩] ∧
      step displayNatural s' (cancelOf (.number (.posInt 1))) = some s' := by
  have harrived : Reaches (step displayNatural) (fun _ _ => True) start _ :=
    (Reaches.refl.tail (a := .arrive (.number (.posInt 1))) trivial rfl).tail
      (a := .arrive (.string "1")) trivial rfl
  exact ⟨_, _, harrived, rfl, rfl, rfl, rfl⟩

end RequestRuns
end BridgeMcp.Mcp
