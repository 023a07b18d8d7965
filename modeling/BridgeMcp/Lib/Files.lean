import Mathlib.Data.List.Basic

/-!
Files that are opened with flags and written through a handle: at a position that moves with what is
written, or always at the end.
-/
namespace FileLib
open List

variable {β : Type*}

structure OpenFlags where
  create : Bool
  truncate : Bool
  append : Bool
  exclude : Bool
  deriving DecidableEq

/-- An open file. The position is within the content. -/
structure Handle (β : Type*) where
  content : List β
  pos : ℕ
  append : Bool
  within : pos ≤ content.length

/-- `none`: the file is missing and must not be created, or is there and must not be. -/
def openWith (flags : OpenFlags) (file : Option (List β)) : Option (Handle β) :=
  match file with
  | none => if flags.create then some ⟨[], 0, flags.append, Nat.zero_le _⟩ else none
  | some content =>
    if flags.create && flags.exclude then none
    else some ⟨if flags.truncate then [] else content, 0, flags.append, Nat.zero_le _⟩

def Handle.write (file : Handle β) (data : List β) : Handle β :=
  if file.append then
    { file with
      content := file.content ++ data
      within := by
        have := file.within
        rw [length_append]
        omega }
  else
    { content := file.content.take file.pos ++ data ++ file.content.drop (file.pos + data.length)
      pos := file.pos + data.length
      append := false
      within := by
        have := file.within
        simp only [length_append, length_take, length_drop]
        omega }

theorem Handle.ext_of {file file' : Handle β} (hcontent : file.content = file'.content)
    (hpos : file.pos = file'.pos) (happend : file.append = file'.append) : file = file' := by
  cases file
  cases file'
  cases hcontent
  cases hpos
  cases happend
  rfl

@[simp] theorem Handle.write_nil (file : Handle β) : file.write [] = file := by
  unfold Handle.write
  split_ifs with h
  · exact ext_of (append_nil _) rfl rfl
  · exact ext_of (by simp) rfl (by simpa using h)

theorem Handle.write_write (file : Handle β) (a b : List β) :
    (file.write a).write b = file.write (a ++ b) := by
  by_cases h : file.append = true
  · simp [Handle.write, h]
  · have hwithin := file.within
    apply ext_of
    · simp only [Handle.write, h, Bool.false_eq_true, if_false]
      have hlength : (file.content.take file.pos).length = file.pos := by
        rw [length_take, Nat.min_eq_left hwithin]
      have hsum : (file.content.take file.pos ++ a).length = file.pos + a.length := by
        rw [length_append, hlength]
      have htake : (file.content.take file.pos ++ a ++
          file.content.drop (file.pos + a.length)).take (file.pos + a.length) =
            file.content.take file.pos ++ a := by
        rw [take_append_of_le_length (Nat.le_of_eq hsum.symm), take_of_length_le (Nat.le_of_eq hsum)]
      have hdrop : (file.content.take file.pos ++ a ++
          file.content.drop (file.pos + a.length)).drop (file.pos + a.length + b.length) =
            file.content.drop (file.pos + (a ++ b).length) := by
        rw [drop_append, drop_eq_nil_of_le (by rw [hsum]; exact Nat.le_add_right _ _),
          nil_append, drop_drop, hsum, length_append]
        congr 1
        omega
      rw [htake, hdrop, append_assoc (file.content.take file.pos)]
    · simp [Handle.write, h, Nat.add_assoc]
    · simp [Handle.write, h]

theorem Handle.write_content_of_append {file : Handle β} (h : file.append = true) (data : List β) :
    (file.write data).content = file.content ++ data := by
  rw [Handle.write, if_pos h]

theorem Handle.write_content_of_nil {file : Handle β} (h : file.content = []) (data : List β) :
    (file.write data).content = data := by
  unfold Handle.write
  split_ifs
  · simp [h]
  · simp [h]

end FileLib
