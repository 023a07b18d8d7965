import BridgeMcp.Lib.Transition
import BridgeMcp.Mcp.Subscriptions

/-!
Runs of the subscription registry. Clients register and go, channels close, and any number of
publishes are under way at once, each between its reading of the registry and its pruning of it.

`live` is the registry as it should be: an entry leaves with its own channel only, when that is
removed or found closed. The code prunes by id instead.
-/
namespace BridgeMcp.Mcp.Publishing
open SubscriptionRegistry TransitionLib List Option

variable {Id Channel : Type*}

inductive Happening (Id Channel : Type*) where
  | joined (entry : Entry Id Channel)
  | removed (tx : Channel)
  | pruned (closed : List (Id × Channel))

/-- A call of `publish_topic` or `publish_resource_updated`: what it read, and the answers it got so
far. `since` is what had happened when it read the registry. -/
structure Publish (Id Channel : Type*) where
  what : Publication
  since : List (Happening Id Channel)
  targets : List (Id × Channel)
  answers : List TrySend
  ended : Bool

def Publish.closed (p : Publish Id Channel) : List (Id × Channel) := foundClosed p.targets p.answers

structure Delivery (Id Channel : Type*) where
  publish : ℕ
  tx : Channel
  notification : Notification Id

def Publish.deliveries (p : Publish Id Channel) (i : ℕ) : List (Delivery Id Channel) :=
  (delivered p.targets p.answers).map fun target => ⟨i, target.2, p.what.notification target.1⟩

theorem deliveries_concat {p : Publish Id Channel} {target : Id × Channel}
    (h : p.targets[p.answers.length]? = some target) (answer : TrySend) (i : ℕ) :
    Publish.deliveries { p with answers := p.answers ++ [answer] } i = p.deliveries i ++
      if answer = .ok then [⟨i, target.2, p.what.notification target.1⟩] else [] := by
  rw [Publish.deliveries, Publish.deliveries, delivered_concat h, map_append]
  split_ifs <;> rfl

/-- `history` is latest first, `inbox` latest last. -/
structure State (Id Channel : Type*) where
  entries : List (Entry Id Channel)
  gone : List Channel
  publishes : List (Publish Id Channel)
  history : List (Happening Id Channel)
  inbox : List (Delivery Id Channel)

def State.start : State Id Channel := ⟨[], [], [], [], []⟩

inductive Event (Id Channel : Type*) where
  | register (id : Id) (filter : SubscriptionFilter) (tx : Channel)
  | removeForTx (tx : Channel)
  | close (tx : Channel)
  | publish (what : Publication)
  | send (i : ℕ) (room : Bool)
  | prune (i : ℕ)

section
variable [DecidableEq Id] [DecidableEq Channel]

/-- The answer of a channel: a closed one stays closed, an open one may be full. -/
def State.trySend (s : State Id Channel) (tx : Channel) (room : Bool) : TrySend :=
  if tx ∈ s.gone then .closed else if room then .ok else .full

def step (s : State Id Channel) : Event Id Channel → Option (State Id Channel)
  | .register id filter tx =>
    some { s with
      entries := SubscriptionRegistry.register s.entries id filter tx
      history := .joined ⟨id, filter, tx⟩ :: s.history }
  | .removeForTx tx =>
    some { s with
      entries := SubscriptionRegistry.removeForTx s.entries tx
      history := .removed tx :: s.history }
  | .close tx => some { s with gone := tx :: s.gone }
  | .publish what =>
    some { s with
      publishes := s.publishes ++
        [⟨what, s.history, SubscriptionRegistry.targets s.entries what.wantedBy, [], false⟩] }
  | .send i room =>
    (s.publishes[i]?).bind fun p => (p.targets[p.answers.length]?).map fun target =>
      let answer := s.trySend target.2 room
      { s with
        publishes := s.publishes.set i { p with answers := p.answers ++ [answer] }
        inbox :=
          if answer = .ok then s.inbox ++ [⟨i, target.2, p.what.notification target.1⟩]
          else s.inbox }
  | .prune i =>
    (s.publishes[i]?).bind fun p =>
      if p.ended ∨ p.answers.length < p.targets.length then none
      else
        some { s with
          entries := SubscriptionRegistry.prune s.entries (p.closed.map Prod.fst)
          publishes := s.publishes.set i { p with ended := true }
          history := .pruned p.closed :: s.history }

/-- The entries that are there if none leaves for the sake of another channel. -/
def live : List (Happening Id Channel) → List (Entry Id Channel)
  | [] => []
  | .joined entry :: earlier => live earlier ++ [entry]
  | .removed tx :: earlier => (live earlier).filter fun e => !decide (e.tx = tx)
  | .pruned closed :: earlier =>
    (live earlier).filter fun e =>
      !decide (e.id ∈ closed.map Prod.fst ∧ e.tx ∈ closed.map Prod.snd)

def OwnExit (s : State Id Channel) (e : Entry Id Channel) : Event Id Channel → Prop
  | .removeForTx tx => e.tx = tx
  | .prune i => ∃ p ∈ s.publishes[i]?, e.tx ∈ p.closed.map Prod.snd
  | _ => False

/-- A publish that found a channel closed shares its id with no entry of another channel. -/
def Spares (s : State Id Channel) : Event Id Channel → Prop
  | .prune i => ∀ p ∈ s.publishes[i]?, ∀ target ∈ p.closed, ∀ e ∈ s.entries,
      e.id = target.1 → e.tx ∈ p.closed.map Prod.snd
  | _ => True

variable {s s' : State Id Channel}

theorem step_prune {i : ℕ} (h : step s (.prune i) = some s') :
    ∃ p, s.publishes[i]? = some p ∧ p.ended = false ∧ p.targets.length ≤ p.answers.length ∧
      s' = { s with
        entries := prune s.entries (p.closed.map Prod.fst)
        publishes := s.publishes.set i { p with ended := true }
        history := .pruned p.closed :: s.history } := by
  obtain ⟨p, hp, hrest⟩ := bind_eq_some_iff.mp h
  split_ifs at hrest with hearly
  obtain ⟨hended, hlength⟩ := not_or.mp hearly
  exact ⟨p, hp, Bool.not_eq_true _ ▸ hended, Nat.not_lt.mp hlength, (some.inj hrest).symm⟩

variable {a : Event Id Channel}

theorem exits_own_iff (h : step s a = some s') :
    (∀ e ∈ s.entries, e ∉ s'.entries → OwnExit s e a) ↔ Spares s a := by
  cases a with
  | prune i =>
    obtain ⟨p, hp, -, -, rfl⟩ := step_prune h
    have hexit : ∀ e, OwnExit s e (.prune i) ↔ e.tx ∈ p.closed.map Prod.snd := by
      intro e
      simp [OwnExit, hp]
    have hspares : Spares s (.prune i) ↔ ∀ target ∈ p.closed, ∀ e ∈ s.entries,
        e.id = target.1 → e.tx ∈ p.closed.map Prod.snd := by
      simp [Spares, hp]
    rw [hspares]
    constructor
    · intro hown target htarget e he hid
      refine (hexit e).mp (hown e he fun hmem => ?_)
      exact (mem_prune.mp hmem).2 (hid ▸ mem_map_of_mem htarget)
    · intro hother e he hgone
      have hdead : e.id ∈ p.closed.map Prod.fst := by
        by_contra hnot
        exact hgone (mem_prune.mpr ⟨he, hnot⟩)
      obtain ⟨target, htarget, hid⟩ := mem_map.mp hdead
      exact (hexit e).mpr (hother target htarget e he hid.symm)
  | removeForTx tx =>
    obtain rfl := some.inj h
    refine iff_of_true (fun e he hgone => ?_) trivial
    by_contra hother
    exact hgone (mem_filter.mpr ⟨he, by simpa [OwnExit] using hother⟩)
  | register id filter tx =>
    obtain rfl := some.inj h
    exact iff_of_true (fun e he hgone => (hgone (mem_append_left _ he)).elim) trivial
  | close tx =>
    obtain rfl := some.inj h
    exact iff_of_true (fun e he hgone => (hgone he).elim) trivial
  | publish what =>
    obtain rfl := some.inj h
    exact iff_of_true (fun e he hgone => (hgone he).elim) trivial
  | send i room =>
    obtain ⟨p, -, hrest⟩ := bind_eq_some_iff.mp h
    obtain ⟨target, -, rfl⟩ := map_eq_some_iff.mp hrest
    exact iff_of_true (fun e he hgone => (hgone he).elim) trivial

theorem inbox_lt_step (h : step s a = some s')
    (hs : ∀ d ∈ s.inbox, d.publish < s.publishes.length) :
    ∀ d ∈ s'.inbox, d.publish < s'.publishes.length := by
  cases a with
  | register id filter tx =>
    obtain rfl := some.inj h
    exact hs
  | removeForTx tx =>
    obtain rfl := some.inj h
    exact hs
  | close tx =>
    obtain rfl := some.inj h
    exact hs
  | publish what =>
    obtain rfl := some.inj h
    intro d hd
    rw [length_append]
    exact Nat.lt_add_right 1 (hs d hd)
  | send i room =>
    obtain ⟨p, hp, hrest⟩ := bind_eq_some_iff.mp h
    obtain ⟨target, htarget, rfl⟩ := map_eq_some_iff.mp hrest
    intro d hd
    dsimp only at hd ⊢
    rw [length_set]
    split_ifs at hd
    · rcases mem_append.mp hd with hold | hnew
      · exact hs d hold
      · rw [mem_singleton.mp hnew]
        exact (List.getElem?_eq_some_iff.mp hp).1
    · exact hs d hd
  | prune i =>
    obtain ⟨p, -, -, -, rfl⟩ := step_prune h
    intro d hd
    rw [length_set]
    exact hs d hd

/-- A publish that read the registry as it should have been, and whose notifications are its
targets' and nobody else's. -/
structure Publish.Sound (inbox : List (Delivery Id Channel)) (i : ℕ) (p : Publish Id Channel) :
    Prop where
  reads : p.targets = SubscriptionRegistry.targets (live p.since) p.what.wantedBy
  within : p.answers.length ≤ p.targets.length
  complete : p.ended = true → p.answers.length = p.targets.length
  delivers : inbox.filter (fun d => d.publish = i) = p.deliveries i

structure State.Sound (s : State Id Channel) : Prop where
  entries : s.entries = live s.history
  publishes : ∀ i (p : Publish Id Channel), s.publishes[i]? = some p → p.Sound s.inbox i
  inbox : ∀ d ∈ s.inbox, d.publish < s.publishes.length

theorem sound_start : (State.start : State Id Channel).Sound :=
  ⟨rfl, nofun, nofun⟩

theorem State.Sound.publish (hs : s.Sound) {what : Publication}
    (h : step s (.publish what) = some s') : s'.Sound := by
  have hinbox := inbox_lt_step h hs.inbox
  obtain rfl := some.inj h
  refine ⟨hs.entries, ?_, hinbox⟩
  · intro i p hp
    rcases Nat.lt_trichotomy i s.publishes.length with hlt | rfl | hgt
    · rw [getElem?_append_left hlt] at hp
      exact hs.publishes i p hp
    · rw [getElem?_concat_length] at hp
      obtain rfl := some.inj hp
      refine ⟨by rw [hs.entries], Nat.zero_le _, nofun, ?_⟩
      rw [filter_eq_nil_iff.mpr fun d hd => by simpa using (hs.inbox d hd).ne]
      simp [Publish.deliveries, delivered]
    · rw [getElem?_eq_none (by rw [length_append]; exact hgt)] at hp
      cases hp

theorem State.Sound.send (hs : s.Sound) {i : ℕ} {room : Bool}
    (h : step s (.send i room) = some s') : s'.Sound := by
  have hinbox := inbox_lt_step h hs.inbox
  obtain ⟨p, hp, hrest⟩ := bind_eq_some_iff.mp h
  obtain ⟨target, htarget, rfl⟩ := map_eq_some_iff.mp hrest
  have hpublish := hs.publishes i p hp
  have hi : i < s.publishes.length := (List.getElem?_eq_some_iff.mp hp).1
  have hroom : p.answers.length < p.targets.length := (List.getElem?_eq_some_iff.mp htarget).1
  refine ⟨hs.entries, ?_, hinbox⟩
  · intro j q hq
    dsimp only at hq ⊢
    by_cases hij : i = j
    · subst hij
      rw [getElem?_set_self hi] at hq
      obtain rfl := some.inj hq
      refine ⟨hpublish.reads, by rw [length_append]; exact hroom, fun hended => ?_, ?_⟩
      · exact absurd (hpublish.complete hended) hroom.ne
      · rw [deliveries_concat htarget, ← hpublish.delivers]
        split_ifs <;> simp
    · rw [getElem?_set_ne hij] at hq
      obtain ⟨hreads, hwithin, hcomplete, hdelivers⟩ := hs.publishes j q hq
      refine ⟨hreads, hwithin, hcomplete, ?_⟩
      rw [← hdelivers]
      split_ifs <;> simp [hij]

theorem State.Sound.prune (hs : s.Sound) {i : ℕ} (hspares : Spares s (.prune i))
    (h : step s (.prune i) = some s') : s'.Sound := by
  have hinbox := inbox_lt_step h hs.inbox
  obtain ⟨p, hp, -, hall, rfl⟩ := step_prune h
  have hi : i < s.publishes.length := (List.getElem?_eq_some_iff.mp hp).1
  refine ⟨?_, ?_, hinbox⟩
  · -- an id is dead for the entries of closed channels only
    dsimp only
    rw [live, ← hs.entries, prune_eq_filter]
    refine filter_congr fun e he => ?_
    have hdead : e.id ∈ p.closed.map Prod.fst → e.tx ∈ p.closed.map Prod.snd := by
      intro hid
      obtain ⟨target, htarget, heq⟩ := mem_map.mp hid
      exact hspares p hp target htarget e he heq.symm
    by_cases hid : e.id ∈ p.closed.map Prod.fst
    · simp only [hid, hdead hid, and_self]
    · simp only [hid, false_and]
  · intro j q hq
    dsimp only at hq
    by_cases hij : i = j
    · subst hij
      rw [getElem?_set_self hi] at hq
      obtain rfl := some.inj hq
      have hpublish := hs.publishes i p hp
      exact ⟨hpublish.reads, hpublish.within, fun _ => le_antisymm hpublish.within hall,
        hpublish.delivers⟩
    · rw [getElem?_set_ne hij] at hq
      exact hs.publishes j q hq

theorem State.Sound.step (hs : s.Sound) (hspares : Spares s a) (h : step s a = some s') :
    s'.Sound := by
  cases a with
  | register id filter tx =>
    obtain rfl := some.inj h
    exact ⟨by rw [live, ← hs.entries]; rfl, hs.publishes, hs.inbox⟩
  | removeForTx tx =>
    obtain rfl := some.inj h
    exact ⟨by rw [live, ← hs.entries]; rfl, hs.publishes, hs.inbox⟩
  | close tx =>
    obtain rfl := some.inj h
    exact ⟨hs.entries, hs.publishes, hs.inbox⟩
  | publish what => exact hs.publish h
  | send i room => exact hs.send h
  | prune i => exact hs.prune hspares h

/-- A step takes entries out for their own channel only exactly if it spares the others; and in a
run of such steps the registry is as it should be and every publish reaches its targets and nobody
else. -/
theorem subscriptions_end_with_channel (Id Channel : Type*) [DecidableEq Id]
    [DecidableEq Channel] :
    (∀ (s s' : State Id Channel) (a : Event Id Channel), Publishing.step s a = some s' →
      ((∀ e ∈ s.entries, e ∉ s'.entries → OwnExit s e a) ↔ Spares s a)) ∧
    ∀ s : State Id Channel, Reaches Publishing.step Spares .start s → s.Sound := by
  refine ⟨fun s s' a h => exits_own_iff h, fun s hreaches => ?_⟩
  exact hreaches.invariant sound_start fun _ _ _ hs hspares h => hs.step hspares h

end

/-- Two clients listen under the id 1; the first one goes away, and a publish ends the subscription
of the second with it. -/
theorem shared_id_ends_subscription :
    ∃ s : State ℕ Bool, Reaches step (fun _ _ => True) .start s ∧
      (⟨1, { toolsListChanged := true }, true⟩ : Entry ℕ Bool) ∈ live s.history ∧
      s.gone = [false] ∧ s.entries = [] := by
  let filter : SubscriptionFilter := { toolsListChanged := true }
  obtain ⟨s, hreaches, hs⟩ := exists_reaches step (fun _ _ => True) State.start
    (fun s : State ℕ Bool =>
      decide (⟨1, filter, true⟩ ∈ live s.history ∧ s.gone = [false] ∧ s.entries = []))
    [.register 1 filter false, .register 1 filter true, .close false,
      .publish (.topic .toolsListChanged), .send 0 true, .send 0 true, .prune 0] rfl
  exact ⟨s, hreaches, of_decide_eq_true hs⟩

end BridgeMcp.Mcp.Publishing
