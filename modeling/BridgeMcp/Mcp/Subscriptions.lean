import BridgeMcp.Lib.TextScan

/-!
The registry of live subscriptions (`mcp/subscriptions.rs`). One registry serves all sessions; an
entry is the id of the request that opened it, a filter and the channel of its session. Ids are
chosen by the clients, so entries of different channels may share one.

A publish reads the registry once, then sends without holding it, and last takes out the ids whose
channel it found closed.
-/
namespace BridgeMcp.Mcp
open TextLib List

inductive NotificationTopic where
  | toolsListChanged
  | promptsListChanged
  | resourcesListChanged
  deriving DecidableEq

def NotificationTopic.method : NotificationTopic → Text
  | .toolsListChanged => "notifications/tools/list_changed"
  | .promptsListChanged => "notifications/prompts/list_changed"
  | .resourcesListChanged => "notifications/resources/list_changed"

structure SubscriptionFilter where
  toolsListChanged : Bool := false
  promptsListChanged : Bool := false
  resourcesListChanged : Bool := false
  resourceSubscriptions : List Text := []
  deriving DecidableEq

namespace SubscriptionFilter

def wantsTopic (filter : SubscriptionFilter) : NotificationTopic → Bool
  | .toolsListChanged => filter.toolsListChanged
  | .promptsListChanged => filter.promptsListChanged
  | .resourcesListChanged => filter.resourcesListChanged

def wantsResource (filter : SubscriptionFilter) (uri : Text) : Bool :=
  filter.resourceSubscriptions.any (· == uri)

def isEmpty (filter : SubscriptionFilter) : Bool :=
  !filter.toolsListChanged && !filter.promptsListChanged && !filter.resourcesListChanged &&
    filter.resourceSubscriptions.isEmpty

/-- Only the URIs whose scheme some handler serves. -/
def restrictedToSchemes (filter : SubscriptionFilter) (schemes : List Text) : SubscriptionFilter :=
  { filter with
    resourceSubscriptions := filter.resourceSubscriptions.filter fun uri =>
      (splitFirst "://" uri).any fun parts => schemes.contains parts.1 }

end SubscriptionFilter

/-- What `publish_topic` and `publish_resource_updated` are called with. -/
inductive Publication where
  | topic (topic : NotificationTopic)
  | resourceUpdated (uri : Text)
  deriving DecidableEq

def Publication.wantedBy : Publication → SubscriptionFilter → Bool
  | .topic t, filter => filter.wantsTopic t
  | .resourceUpdated uri, filter => filter.wantsResource uri

theorem SubscriptionFilter.isEmpty_iff (filter : SubscriptionFilter) :
    filter.isEmpty = true ↔ ∀ what : Publication, what.wantedBy filter = false := by
  obtain ⟨tools, prompts, resources, uris⟩ := filter
  constructor
  · intro h what
    simp only [isEmpty, Bool.and_eq_true, Bool.not_eq_true', List.isEmpty_iff] at h
    obtain ⟨⟨⟨rfl, rfl⟩, rfl⟩, rfl⟩ := h
    cases what with
    | topic t => cases t <;> rfl
    | resourceUpdated uri => rfl
  · intro h
    have htools : tools = false := h (.topic .toolsListChanged)
    have hprompts : prompts = false := h (.topic .promptsListChanged)
    have hresources : resources = false := h (.topic .resourcesListChanged)
    have huris : uris = [] := by
      refine List.eq_nil_iff_forall_not_mem.mpr fun uri huri => ?_
      have hnone := List.any_eq_false.mp (h (.resourceUpdated uri)) uri huri
      exact hnone (beq_self_eq_true uri)
    simp [isEmpty, htools, hprompts, hresources, huris]

structure Notification (Id : Type*) where
  method : Text
  subscriptionId : Id
  uri : Option Text
  deriving DecidableEq

def Publication.notification {Id : Type*} (id : Id) : Publication → Notification Id
  | .topic t => ⟨t.method, id, none⟩
  | .resourceUpdated uri => ⟨"notifications/resources/updated", id, some uri⟩

structure Entry (Id Channel : Type*) where
  id : Id
  filter : SubscriptionFilter
  tx : Channel
  deriving DecidableEq

inductive TrySend where
  | ok
  | full
  | closed
  deriving DecidableEq

namespace SubscriptionRegistry

variable {Id Channel : Type*}

def register (entries : List (Entry Id Channel)) (id : Id) (filter : SubscriptionFilter)
    (tx : Channel) : List (Entry Id Channel) :=
  entries ++ [⟨id, filter, tx⟩]

def removeForTx [DecidableEq Channel] (entries : List (Entry Id Channel)) (tx : Channel) :
    List (Entry Id Channel) :=
  entries.filter fun e => !decide (e.tx = tx)

def targets (entries : List (Entry Id Channel)) (predicate : SubscriptionFilter → Bool) :
    List (Id × Channel) :=
  (entries.filter fun e => predicate e.filter).map fun e => (e.id, e.tx)

variable {entries : List (Entry Id Channel)} {target : Id × Channel}

theorem mem_targets {predicate : SubscriptionFilter → Bool} :
    target ∈ targets entries predicate ↔
      ∃ e ∈ entries, predicate e.filter = true ∧ (e.id, e.tx) = target := by
  simp [targets, and_assoc]

def foundClosed (targets : List (Id × Channel)) (answers : List TrySend) : List (Id × Channel) :=
  ((targets.zip answers).filter fun sent => decide (sent.2 = .closed)).map Prod.fst

def delivered (targets : List (Id × Channel)) (answers : List TrySend) : List (Id × Channel) :=
  ((targets.zip answers).filter fun sent => decide (sent.2 = .ok)).map Prod.fst

/-- The end of `deliver`: the ids of the closed targets leave the registry. -/
def prune [DecidableEq Id] (entries : List (Entry Id Channel)) (dead : List Id) :
    List (Entry Id Channel) :=
  if dead = [] then entries else entries.filter fun e => !decide (e.id ∈ dead)

theorem prune_eq_filter [DecidableEq Id] (entries : List (Entry Id Channel)) (dead : List Id) :
    prune entries dead = entries.filter fun e => !decide (e.id ∈ dead) := by
  unfold prune
  split_ifs with hnone
  · rw [hnone, filter_eq_self.mpr fun e _ => by simp]
  · rfl

theorem mem_prune [DecidableEq Id] {dead : List Id} {e : Entry Id Channel} :
    e ∈ prune entries dead ↔ e ∈ entries ∧ e.id ∉ dead := by
  simp [prune_eq_filter]

variable {targets : List (Id × Channel)}

theorem zip_concat {answers : List TrySend} (h : targets[answers.length]? = some target)
    (answer : TrySend) :
    targets.zip (answers ++ [answer]) = targets.zip answers ++ [(target, answer)] := by
  induction answers generalizing targets with
  | nil =>
    cases targets with
    | nil => cases h
    | cons first targets =>
      obtain rfl : first = target := Option.some.inj h
      simp
  | cons earlier answers ih =>
    cases targets with
    | nil => cases h
    | cons first targets => rw [cons_append, zip_cons_cons, ih h, zip_cons_cons, cons_append]

theorem delivered_concat {answers : List TrySend} (h : targets[answers.length]? = some target)
    (answer : TrySend) :
    delivered targets (answers ++ [answer]) =
      delivered targets answers ++ if answer = .ok then [target] else [] := by
  rw [delivered, zip_concat h, filter_append, map_append]
  cases answer <;> rfl

end SubscriptionRegistry

end BridgeMcp.Mcp
