import Mathlib.Data.List.AList

/-!
Finite maps with `retain` and overwriting `insert`, and how the two change the number of entries.
-/
namespace AssocMap
open List

variable {α : Type*} {β : α → Type*}

def retain (keep : Sigma β → Bool) (m : AList β) : AList β :=
  ⟨m.entries.filter keep, m.nodupKeys.sublist filter_sublist⟩

theorem retain_length_le (keep : Sigma β → Bool) (m : AList β) :
    (retain keep m).entries.length ≤ m.entries.length :=
  length_filter_le keep m.entries

variable [DecidableEq α]

theorem lookup_retain_eq_some {keep : Sigma β → Bool} {m : AList β} {a : α} {b : β a} :
    (retain keep m).lookup a = some b ↔ m.lookup a = some b ∧ keep ⟨a, b⟩ = true := by
  rw [← Option.mem_def, ← Option.mem_def, AList.mem_lookup_iff, AList.mem_lookup_iff]
  exact mem_filter

theorem insert_length_le (a : α) (b : β a) (m : AList β) :
    (m.insert a b).entries.length ≤ m.entries.length + 1 := by
  rw [AList.entries_insert, length_cons]
  exact Nat.succ_le_succ (kerase_sublist a m.entries).length_le

theorem insert_length_of_lookup {a : α} {b : β a} (c : β a) {m : AList β}
    (h : m.lookup a = some b) : (m.insert a c).entries.length = m.entries.length := by
  have hmem : a ∈ m.keys := AList.mem_keys.mp (AList.lookup_isSome.mp (h ▸ rfl))
  have hpos : 0 < m.keys.length := length_pos_of_mem hmem
  have hkeys : (m.insert a c).keys.length = m.keys.length := by
    rw [AList.keys_insert, length_cons, length_erase_of_mem hmem]
    exact Nat.sub_add_cancel hpos
  simpa [AList.keys, keys] using hkeys

end AssocMap
