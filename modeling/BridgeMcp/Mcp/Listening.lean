import BridgeMcp.Mcp.ActiveRequests
import BridgeMcp.Mcp.Publishing

/-!
Sessions that open subscriptions and cancel them. A session is the owner of one notification
channel and of one map of active requests; the registry of subscriptions is shared.

An accepted `subscriptions/listen` leaves its id in the map, so that `notifications/cancelled` can
find it.
-/
namespace BridgeMcp.Mcp

namespace Publishing
open SubscriptionRegistry TransitionLib List Option

variable {Id Channel : Type*}

theorem subscriptionId_notification (id : Id) (what : Publication) :
    (what.notification id).subscriptionId = id := by
  cases what <;> rfl

theorem notMem_targets_set {n i : ℕ} {target : Id × Channel} {publishes : List (Publish Id Channel)}
    {p p' : Publish Id Channel} (hp : publishes[i]? = some p) (hsame : p'.targets = p.targets)
    (h : ∀ j q, n ≤ j → publishes[j]? = some q → target ∉ q.targets) :
    ∀ j q, n ≤ j → (publishes.set i p')[j]? = some q → target ∉ q.targets := by
  intro j q hj hq
  by_cases hij : i = j
  · subst hij
    rw [List.getElem?_set_self (List.getElem?_eq_some_iff.mp hp).1] at hq
    obtain rfl := some.inj hq
    exact hsame ▸ h i p hj hp
  · rw [getElem?_set_ne hij] at hq
    exact h j q hj hq

section
variable [DecidableEq Id] [DecidableEq Channel]

/-- No publish from number `n` on sends `tx` anything tagged `id`: what was sent is something else,
and nothing else can be on its way. -/
structure Quiet (n : ℕ) (id : Id) (tx : Channel) (s : State Id Channel) : Prop where
  started : n ≤ s.publishes.length
  inbox : ∀ d ∈ s.inbox, n ≤ d.publish → d.tx = tx → d.notification.subscriptionId ≠ id
  ahead : tx ∈ s.gone ∨
    (∀ e ∈ s.entries, e.id = id → e.tx = tx → e.filter.isEmpty = true) ∧
    ∀ i p, n ≤ i → s.publishes[i]? = some p → (id, tx) ∉ p.targets

theorem Quiet.step {n : ℕ} {id : Id} {tx : Channel} {s s' : State Id Channel}
    {a : Event Id Channel} (h : Quiet n id tx s) (hnew : ∀ filter, a ≠ .register id filter tx)
    (hs : step s a = some s') : Quiet n id tx s' := by
  obtain ⟨hstarted, hinbox, hahead⟩ := h
  cases a with
  | register id' filter tx' =>
    obtain rfl := some.inj hs
    refine ⟨hstarted, hinbox, hahead.imp_right fun ⟨hentries, htargets⟩ => ⟨?_, htargets⟩⟩
    intro e he hid htx
    rcases mem_append.mp he with he | he
    · exact hentries e he hid htx
    · obtain rfl := mem_singleton.mp he
      exact absurd (by rw [← hid, ← htx]) (hnew filter)
  | removeForTx tx' =>
    obtain rfl := some.inj hs
    refine ⟨hstarted, hinbox, hahead.imp_right fun ⟨hentries, htargets⟩ => ⟨?_, htargets⟩⟩
    exact fun e he => hentries e (mem_of_mem_filter he)
  | close tx' =>
    obtain rfl := some.inj hs
    exact ⟨hstarted, hinbox, hahead.imp_left (mem_cons_of_mem _)⟩
  | publish what =>
    obtain rfl := some.inj hs
    refine ⟨hstarted.trans (by simp), hinbox,
      hahead.imp_right fun ⟨hentries, htargets⟩ => ⟨hentries, ?_⟩⟩
    intro i p hi hp
    rw [getElem?_append] at hp
    split_ifs at hp with hlt
    · exact htargets i p hi hp
    · obtain rfl := mem_singleton.mp (mem_of_getElem? hp)
      intro hmem
      obtain ⟨e, he, hwants, htarget⟩ := mem_targets.mp hmem
      obtain ⟨hid, htx⟩ := Prod.mk.inj htarget
      have hnothing := (e.filter.isEmpty_iff.mp (hentries e he hid htx)) what
      rw [hwants] at hnothing
      cases hnothing
  | send i room =>
    obtain ⟨p, hp, hrest⟩ := bind_eq_some_iff.mp hs
    obtain ⟨target, htarget, rfl⟩ := map_eq_some_iff.mp hrest
    refine ⟨hstarted.trans_eq (length_set).symm, ?_,
      hahead.imp_right fun ⟨hentries, htargets⟩ => ⟨hentries, ?_⟩⟩
    · intro d hd hn htx
      dsimp only at hd
      split_ifs at hd with hok
      · rcases mem_append.mp hd with hd | hd
        · exact hinbox d hd hn htx
        · obtain rfl := mem_singleton.mp hd
          rw [subscriptionId_notification]
          rintro rfl
          -- an open channel was sent to, so the publish had the subscription for a target
          rcases hahead with hgone | ⟨-, htargets⟩
          · subst htx
            rw [State.trySend, if_pos hgone] at hok
            cases hok
          · subst htx
            exact htargets i p hn hp (mem_of_getElem? htarget)
      · exact hinbox d hd hn htx
    · exact notMem_targets_set hp rfl htargets
  | prune i =>
    obtain ⟨p, hp, -, -, rfl⟩ := step_prune hs
    refine ⟨hstarted.trans_eq (length_set).symm, hinbox,
      hahead.imp_right fun ⟨hentries, htargets⟩ => ⟨?_, ?_⟩⟩
    · exact fun e he => hentries e (mem_prune.mp he).1
    · exact notMem_targets_set hp rfl htargets

def Serves : State Id Channel → Event Id Channel → Prop
  | _, .register .. => False
  | _, _ => True

variable {s : State Id Channel}

theorem step_send {i : ℕ} {p : Publish Id Channel} {target : Id × Channel}
    (hp : s.publishes[i]? = some p) (htarget : p.targets[p.answers.length]? = some target)
    (room : Bool) :
    step s (.send i room) = some { s with
      publishes := s.publishes.set i { p with answers := p.answers ++ [s.trySend target.2 room] }
      inbox := if s.trySend target.2 room = .ok then
          s.inbox ++ [⟨i, target.2, p.what.notification target.1⟩]
        else s.inbox } := by
  rw [step, hp, bind_some, htarget, map_some]

theorem reaches_sends {i : ℕ} {p : Publish Id Channel}
    (hp : s.publishes[i]? = some p) (k : ℕ) (hk : p.answers.length + k ≤ p.targets.length) :
    ∃ s' answers, Reaches step Serves s s' ∧ s'.gone = s.gone ∧
      s'.publishes[i]? = some { p with answers } ∧ answers.length = p.answers.length + k := by
  induction k with
  | zero => exact ⟨s, p.answers, .refl, rfl, hp, rfl⟩
  | succ k ih =>
    obtain ⟨s', answers, hreach, hgone, hp', hlength⟩ := ih (by omega)
    obtain ⟨target, htarget⟩ : ∃ target, p.targets[answers.length]? = some target :=
      ⟨_, getElem?_eq_getElem (by omega)⟩
    have hi : i < s'.publishes.length := (List.getElem?_eq_some_iff.mp hp').1
    have hstep := step_send hp' htarget true
    exact ⟨_, _, hreach.tail (a := .send i true) trivial hstep, hgone, getElem?_set_self hi,
      by rw [length_append, hlength]; rfl⟩

theorem exists_delivery {e : Entry Id Channel} (he : e ∈ s.entries)
    (hopen : e.tx ∉ s.gone) {what : Publication} (hwants : what.wantedBy e.filter = true) :
    ∃ s', Reaches step Serves s s' ∧ ∃ d ∈ s'.inbox, d.publish = s.publishes.length ∧
      d.tx = e.tx ∧ d.notification.subscriptionId = e.id := by
  let p : Publish Id Channel := ⟨what, s.history, targets s.entries what.wantedBy, [], false⟩
  have hpublish : step s (.publish what) = some { s with publishes := s.publishes ++ [p] } := rfl
  obtain ⟨k, hk⟩ := mem_iff_getElem?.mp (mem_targets.mpr ⟨e, he, hwants, rfl⟩)
  have hlt : k < p.targets.length := (List.getElem?_eq_some_iff.mp hk).1
  obtain ⟨s', answers, hreach, hgone, hp, hlength⟩ :=
    reaches_sends (s := { s with publishes := s.publishes ++ [p] }) (p := p)
      getElem?_concat_length k ((Nat.zero_add k).trans_le hlt.le)
  have hanswers : answers.length = k := hlength.trans (Nat.zero_add k)
  have hsend := step_send hp (hanswers ▸ hk) true
  have hok : s'.trySend e.tx true = .ok := by
    rw [State.trySend, if_neg (hgone ▸ hopen), if_pos rfl]
  rw [hok, if_pos rfl] at hsend
  have hstart : Reaches step Serves s _ := Reaches.refl.tail (a := .publish what) trivial hpublish
  refine ⟨_, (hstart.trans hreach).tail (a := .send _ true) trivial hsend, _,
    mem_append_right _ (mem_singleton_self _), rfl, rfl, ?_⟩
  exact subscriptionId_notification e.id what

end
end Publishing

namespace Listening
open TextLib TransitionLib

/-- `tokens` counts the cancellation tokens handed out, `fired` holds those that were fired. -/
structure State (Id Session : Type*) where
  registry : Publishing.State Id Session
  active : Session → ActiveRequests
  tokens : ℕ
  fired : List ℕ

def State.start {Id Session : Type*} : State Id Session := ⟨.start, fun _ => ∅, 0, []⟩

/-- `request` is the registration by the reading loop and `listen` the run of the handler, which
gets the filter of `params.notifications` if there is one. `cancelled` is a handled notification
with its `requestId`. Everything else happens to the registry alone. -/
inductive Event (Id Session : Type*) where
  | request (session : Session) (id : Id)
  | listen (session : Session) (id : Id) (notifications : Option SubscriptionFilter)
  | complete (session : Session) (id : Id)
  | cancelled (session : Session) (requestId : Id)
  | server (event : Publishing.Event Id Session)

section
variable {Id Session : Type*} [DecidableEq Id] [DecidableEq Session]

def State.updateActive (s : State Id Session) (session : Session) (map : ActiveRequests) :
    State Id Session :=
  { s with active := Function.update s.active session map }

def State.stepRegistry (s : State Id Session) (event : Publishing.Event Id Session) :
    Option (State Id Session) :=
  (Publishing.step s.registry event).map fun registry => { s with registry }

variable {event : Publishing.Event Id Session}

theorem State.stepRegistry_eq_some {s s' : State Id Session} (h : s.stepRegistry event = some s') :
    Publishing.step s.registry event = some s'.registry := by
  obtain ⟨registry, hregistry, rfl⟩ := Option.map_eq_some_iff.mp h
  exact hregistry

theorem State.stepRegistry_of_step (s : State Id Session) {r r' : Publishing.State Id Session}
    (h : Publishing.step r event = some r') :
    State.stepRegistry { s with registry := r } event = some { s with registry := r' } := by
  rw [stepRegistry, h, Option.map_some]

variable (key : Id → Text) (schemes : List Text)

def step (s : State Id Session) : Event Id Session → Option (State Id Session)
  | .request session id =>
    some { s.updateActive session ((s.active session).register (key id) s.tokens) with
      tokens := s.tokens + 1 }
  -- rejected: the request is answered and unregistered
  | .listen session id none =>
    some (s.updateActive session ((s.active session).unregister (key id)))
  -- accepted: no answer, and the id stays registered
  | .listen session id (some filter) =>
    s.stepRegistry (.register id (filter.restrictedToSchemes schemes) session)
  | .complete session id =>
    some (s.updateActive session ((s.active session).unregister (key id)))
  | .cancelled session requestId =>
    let (token, map) := (s.active session).cancel (key requestId)
    some { s.updateActive session map with fired := s.fired ++ token.toList }
  | .server (.register ..) => none
  | .server event => s.stepRegistry event

def Event.onRegistry : Event Id Session → Option (Publishing.Event Id Session)
  | .listen session id (some filter) =>
    some (.register id (filter.restrictedToSchemes schemes) session)
  | .server event => some event
  | _ => none

def Event.Listens (session : Session) (id : Id) : Event Id Session → Prop
  | .listen session' id' _ => session' = session ∧ id' = id
  | _ => False

/-- Whatever happens, unless the session listens under the id again: no publish that starts from
now on sends it anything tagged with the id. -/
def Silent (session : Session) (id : Id) (s : State Id Session) : Prop :=
  ∀ s', Reaches (step key schemes) (fun _ a => ¬ a.Listens session id) s s' →
    ∀ d ∈ s'.registry.inbox, s.registry.publishes.length ≤ d.publish → d.tx = session →
      d.notification.subscriptionId ≠ id

/-- The session is out of reach, or asked for nothing that could be sent to it. -/
def Unserved (session : Session) (id : Id) (s : State Id Session) : Prop :=
  session ∈ s.registry.gone ∨
    ∀ e ∈ s.registry.entries, e.id = id → e.tx = session → e.filter.isEmpty = true

def OwnExit (s : State Id Session) (e : Entry Id Session) (a : Event Id Session) : Prop :=
  ∃ event ∈ a.onRegistry schemes, Publishing.OwnExit s.registry e event

def Spares (s : State Id Session) (a : Event Id Session) : Prop :=
  ∀ event ∈ a.onRegistry schemes, Publishing.Spares s.registry event

end

section
variable {Id Session : Type*} [DecidableEq Id] [DecidableEq Session] {key : Id → Text}
  {schemes : List Text} {s s' : State Id Session} {a : Event Id Session}

theorem step_onRegistry_none (h : step key schemes s a = some s')
    (ha : a.onRegistry schemes = none) : s'.registry = s.registry := by
  cases a with
  | request session id => exact (Option.some.inj h) ▸ rfl
  | listen session id notifications =>
    cases notifications with
    | none => exact (Option.some.inj h) ▸ rfl
    | some filter => cases ha
  | complete session id => exact (Option.some.inj h) ▸ rfl
  | cancelled session requestId => exact (Option.some.inj h) ▸ rfl
  | server event => cases ha

theorem step_onRegistry_some
    (h : step key schemes s a = some s') (ha : a.onRegistry schemes = some event) :
    Publishing.step s.registry event = some s'.registry := by
  cases a with
  | listen session id notifications =>
    cases notifications with
    | none => cases ha
    | some filter =>
      obtain rfl := Option.some.inj ha
      exact State.stepRegistry_eq_some h
  | server event' =>
    obtain rfl := Option.some.inj ha
    cases event' with
    | register id filter tx => cases h
    | _ => exact State.stepRegistry_eq_some h
  | request session id => cases ha
  | complete session id => cases ha
  | cancelled session requestId => cases ha

theorem registry_step {P : Publishing.State Id Session → Prop} (hs : P s.registry)
    (h : step key schemes s a = some s')
    (hstep : ∀ event, a.onRegistry schemes = some event → ∀ r,
      Publishing.step s.registry event = some r → P r) : P s'.registry := by
  cases ha : a.onRegistry schemes with
  | none => exact step_onRegistry_none h ha ▸ hs
  | some event => exact hstep event ha _ (step_onRegistry_some h ha)

theorem reaches_server {r : Publishing.State Id Session}
    (h : Reaches Publishing.step Publishing.Serves s.registry r) (session : Session) (id : Id) :
    Reaches (step key schemes) (fun _ a => ¬ a.Listens session id) s { s with registry := r } := by
  induction h with
  | refl => exact .refl
  | @tail r r' event _ hserves hr ih =>
    refine ih.tail (a := .server event) not_false ?_
    cases event with
    | register id filter tx => exact hserves.elim
    | _ => exact State.stepRegistry_of_step s hr

theorem Unserved.silent {session : Session} {id : Id} (h : Unserved session id s)
    (hinbox : ∀ d ∈ s.registry.inbox, d.publish < s.registry.publishes.length) :
    Silent key schemes session id s := by
  intro s' hreach
  have hquiet : Publishing.Quiet s.registry.publishes.length id session s.registry := by
    refine ⟨le_rfl, fun d hd hn => absurd (hinbox d hd) hn.not_gt, h.imp_right fun he => ⟨he, ?_⟩⟩
    intro i p hi hp
    exact absurd (List.getElem?_eq_some_iff.mp hp).1 hi.not_gt
  have hrun : Publishing.Quiet s.registry.publishes.length id session s'.registry := by
    refine hreach.invariant (P := fun t => Publishing.Quiet _ id session t.registry) hquiet ?_
    intro t a t' ht hlistens hstep
    refine registry_step ht hstep fun event hevent r hr => ht.step (fun filter heq => ?_) hr
    -- only a new `listen` registers
    subst heq
    cases a with
    | listen session' id' notifications =>
      cases notifications with
      | none => cases hevent
      | some filter' =>
        obtain ⟨rfl, -, rfl⟩ := Publishing.Event.register.inj (Option.some.inj hevent)
        exact hlistens ⟨rfl, rfl⟩
    | server event' =>
      obtain rfl := Option.some.inj hevent
      cases hstep
    | request session' id' => cases hevent
    | complete session' id' => cases hevent
    | cancelled session' id' => cases hevent
  exact hrun.inbox

theorem Silent.unserved {session : Session} {id : Id} (h : Silent key schemes session id s) :
    Unserved session id s := by
  by_contra hserved
  obtain ⟨hopen, hentries⟩ := not_or.mp hserved
  push Not at hentries
  obtain ⟨e, he, rfl, rfl, hfilter⟩ := hentries
  have hwants : ∃ what : Publication, what.wantedBy e.filter = true := by
    by_contra hnone
    refine hfilter (e.filter.isEmpty_iff.mpr fun what => ?_)
    exact Bool.eq_false_iff.mpr fun hwants => hnone ⟨what, hwants⟩
  obtain ⟨what, hwants⟩ := hwants
  obtain ⟨r, hreach, d, hd, hpublish, htx, hid⟩ := Publishing.exists_delivery he hopen hwants
  exact h _ (reaches_server hreach e.tx e.id) d hd hpublish.ge htx hid

theorem inbox_lt_of_reaches {allowed : State Id Session → Event Id Session → Prop}
    (h : Reaches (step key schemes) allowed State.start s) :
    ∀ d ∈ s.registry.inbox, d.publish < s.registry.publishes.length := by
  refine h.invariant
    (P := fun t => ∀ d ∈ t.registry.inbox, d.publish < t.registry.publishes.length) nofun ?_
  intro t a t' ht _ hstep
  exact registry_step ht hstep fun event _ r hr => Publishing.inbox_lt_step hr ht

theorem registry_exits_own_iff (h : step key schemes s a = some s') :
    (∀ e ∈ s.registry.entries, e ∉ s'.registry.entries → OwnExit schemes s e a) ↔
      Spares schemes s a := by
  unfold OwnExit Spares
  cases ha : a.onRegistry schemes with
  | none =>
    rw [step_onRegistry_none h ha]
    exact iff_of_true (fun e he hgone => absurd he hgone) nofun
  | some event =>
    have hiff := Publishing.exits_own_iff (step_onRegistry_some h ha)
    simpa using hiff

theorem sound_of_reaches (h : Reaches (step key schemes) (Spares schemes) State.start s) :
    s.registry.Sound := by
  refine h.invariant (P := fun t => t.registry.Sound) Publishing.sound_start ?_
  intro t a t' ht hspares hstep
  exact registry_step ht hstep fun event hevent r hr => ht.step (hspares event hevent) hr

end

/-- A handled cancellation ends what the session gets for the id exactly if there was nothing for
it to get. It leaves every subscription in the registry, its own as all others; and the others stay
for as long as their channels do in runs whose events spare them. -/
theorem cancelled_listen_ends (Id Session : Type*) [DecidableEq Id] [DecidableEq Session]
    (key : Id → Text) (schemes : List Text) :
    (∀ (s s' : State Id Session) (session : Session) (id : Id),
      Reaches (step key schemes) (fun _ _ => True) State.start s →
      step key schemes s (.cancelled session id) = some s' →
        (Silent key schemes session id s' ↔ Unserved session id s) ∧
        s'.registry.entries = s.registry.entries) ∧
    (∀ (s s' : State Id Session) (a : Event Id Session), step key schemes s a = some s' →
      ((∀ e ∈ s.registry.entries, e ∉ s'.registry.entries → OwnExit schemes s e a) ↔
        Spares schemes s a)) ∧
    ∀ s : State Id Session, Reaches (step key schemes) (Spares schemes) State.start s →
      s.registry.Sound := by
  refine ⟨fun s s' session id hreach hstep => ?_, fun s s' a h => registry_exits_own_iff h,
    fun s h => sound_of_reaches h⟩
  have hsame : s'.registry = s.registry := step_onRegistry_none hstep rfl
  have hunserved : Unserved session id s ↔ Unserved session id s' := by
    unfold Unserved
    rw [hsame]
  refine ⟨?_, congrArg _ hsame⟩
  rw [hunserved]
  exact ⟨Silent.unserved, fun h => h.silent (inbox_lt_of_reaches (hreach.tail trivial hstep))⟩

/-- A session listens under the id 1, cancels it, and is still told that the tools changed. -/
theorem cancelled_listen_served :
    ∃ s s' s'' : State ℕ Unit,
      Reaches (step (Nat.toDigits 10) []) (fun _ _ => True) State.start s ∧
      s.registry.entries = [⟨1, { toolsListChanged := true }, ()⟩] ∧
      step (Nat.toDigits 10) [] s (.cancelled () 1) = some s' ∧ s'.fired = [0] ∧
      s'.registry.publishes = [] ∧
      Reaches (step (Nat.toDigits 10) []) (fun _ a => ¬ a.Listens () 1) s' s'' ∧
      s''.registry.inbox = [⟨0, (), ⟨"notifications/tools/list_changed", 1, none⟩⟩] := by
  have hlisten : Reaches (step (Nat.toDigits 10) []) (fun _ _ => True)
      (State.start : State ℕ Unit) _ :=
    (Reaches.refl.tail (a := .request () 1) trivial rfl).tail
      (a := .listen () 1 (some { toolsListChanged := true })) trivial rfl
  exact ⟨_, _, _, hlisten, rfl, rfl, rfl, rfl,
    (Reaches.refl.tail (a := .server (.publish (.topic .toolsListChanged))) not_false rfl).tail
      (a := .server (.send 0 true)) not_false rfl, rfl⟩

end Listening
end BridgeMcp.Mcp
