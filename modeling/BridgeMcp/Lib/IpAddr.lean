import BridgeMcp.Lib.TextScan

/-!
Textual IP addresses as `std::net` reads them: dotted quads without leading zeros, and groups of
up to four hexadecimal digits with one `::` and possibly a dotted quad at the end.
-/
namespace IpLib
open TextLib List

inductive IpAddr where
  | v4 (octets : List ℕ)
  | v6 (segments : List ℕ)
  deriving DecidableEq

def decDigitValue (c : Char) : Option ℕ := if c.isDigit then some (c.toNat - 48) else none

/-- A number of at most `maxDigits` digits below `limit`; more digits are an error, not the end of
the number. -/
def readNumber (digit : Char → Option ℕ) (radix maxDigits limit : ℕ) (zeroPrefix : Bool)
    (s : Text) : Option (ℕ × Text) :=
  let digits := s.takeWhile fun c => (digit c).isSome
  let n := digits.foldl (fun n c => n * radix + (digit c).getD 0) 0
  if digits = [] ∨ maxDigits < digits.length ∨ limit ≤ n then none
  else if !zeroPrefix ∧ digits.head? = some '0' ∧ 1 < digits.length then none
  else some (n, s.drop digits.length)

def readOctet (s : Text) : Option (ℕ × Text) := readNumber decDigitValue 10 3 256 false s

def readSegment (s : Text) : Option (ℕ × Text) := readNumber hexDigitValue 16 4 65536 true s

def readSeparated {α : Type} (separator : Char) (first : Bool) (inner : Text → Option (α × Text))
    (s : Text) : Option (α × Text) :=
  if first then inner s
  else
    match s with
    | c :: s => if c = separator then inner s else none
    | [] => none

def readOctets : ℕ → Bool → Text → Option (List ℕ × Text)
  | 0, _, s => some ([], s)
  | n + 1, first, s =>
    (readSeparated '.' first readOctet s).bind fun (octet, s) =>
      (readOctets n false s).map fun (octets, s) => (octet :: octets, s)

def readIpv4 (s : Text) : Option (List ℕ × Text) := readOctets 4 true s

/-- Up to `limit` groups, and whether the last two of them were a dotted quad. -/
def readGroups : ℕ → Bool → Text → List ℕ × Bool × Text
  | 0, _, s => ([], false, s)
  | limit + 1, first, s =>
    let quad := if 0 < limit then readSeparated ':' first readIpv4 s else none
    match quad with
    | some (octets, s) =>
      ([octets.getD 0 0 * 256 + octets.getD 1 0, octets.getD 2 0 * 256 + octets.getD 3 0],
        true, s)
    | none =>
      match readSeparated ':' first readSegment s with
      | none => ([], false, s)
      | some (group, s) =>
        let (groups, quad, s) := readGroups limit false s
        (group :: groups, quad, s)

def readIpv6 (s : Text) : Option (List ℕ × Text) :=
  let (head, quad, s) := readGroups 8 true s
  if head.length = 8 then some (head, s)
  else if quad then none
  else
    match s with
    | ':' :: ':' :: s =>
      let (tail, _, s) := readGroups (8 - (head.length + 1)) true s
      some (head ++ replicate (8 - head.length - tail.length) 0 ++ tail, s)
    | _ => none

def whole {α : Type} : Option (α × Text) → Option α
  | some (value, []) => some value
  | _ => none

def parseIpv6 (s : Text) : Option (List ℕ) := whole (readIpv6 s)

def parseIpAddr (s : Text) : Option IpAddr :=
  match readIpv4 s with
  | some quad => (whole (some quad)).map .v4
  | none => (parseIpv6 s).map .v6

namespace IpAddr

/-- An IPv4-mapped address becomes the IPv4 address. -/
def toCanonical : IpAddr → IpAddr
  | .v6 [0, 0, 0, 0, 0, 0xffff, ab, cd] => .v4 [ab / 256, ab % 256, cd / 256, cd % 256]
  | ip => ip

def isLoopback : IpAddr → Bool
  | .v4 octets => octets.head? == some 127
  | .v6 segments => segments == [0, 0, 0, 0, 0, 0, 0, 1]

end IpAddr

def isIpChar (c : Char) : Bool := (hexDigitValue c).isSome || c == ':' || c == '.'

def Takes (s rest : Text) : Prop := ∃ used, s = used ++ rest ∧ ∀ c ∈ used, isIpChar c = true

theorem Takes.refl (s : Text) : Takes s s := ⟨[], rfl, nofun⟩

variable {s rest : Text}

theorem Takes.trans {t : Text} (h : Takes s t) (h' : Takes t rest) : Takes s rest := by
  obtain ⟨used, rfl, hused⟩ := h
  obtain ⟨used', rfl, hused'⟩ := h'
  exact ⟨used ++ used', (append_assoc ..).symm, forall_mem_append.mpr ⟨hused, hused'⟩⟩

theorem Takes.cons {c : Char} (hc : isIpChar c = true) (h : Takes s rest) :
    Takes (c :: s) rest :=
  Takes.trans ⟨[c], rfl, forall_mem_singleton.mpr hc⟩ h

variable {n : ℕ}

theorem readNumber_takes {digit : Char → Option ℕ}
    (hdigit : ∀ c, (digit c).isSome = true → isIpChar c = true) {radix maxDigits limit : ℕ}
    {zeroPrefix : Bool} (h : readNumber digit radix maxDigits limit zeroPrefix s = some (n, rest)) :
    Takes s rest := by
  unfold readNumber at h
  dsimp only at h
  split_ifs at h
  obtain ⟨-, rfl⟩ := Prod.mk.inj (Option.some.inj h)
  have hdigits := prefix_iff_eq_take.mp (List.takeWhile_prefix (fun c => (digit c).isSome) (l := s))
  refine ⟨_, (take_append_drop _ s).symm, fun c hc => hdigit c ?_⟩
  rw [← hdigits] at hc
  exact mem_takeWhile_imp (p := fun c => (digit c).isSome) hc

theorem readOctet_takes (h : readOctet s = some (n, rest)) : Takes s rest := by
  refine readNumber_takes (fun c hc => ?_) h
  unfold decDigitValue at hc
  split_ifs at hc with hdigit
  · rw [isIpChar, hexDigitValue, if_pos hdigit]
    rfl
  · cases hc

theorem readSegment_takes (h : readSegment s = some (n, rest)) :
    Takes s rest := by
  refine readNumber_takes (fun c hc => ?_) h
  rw [isIpChar, hc]
  rfl

theorem readSeparated_takes {α : Type} {separator : Char} (hseparator : isIpChar separator = true)
    {inner : Text → Option (α × Text)}
    (hinner : ∀ {s : Text} {value : α} {rest : Text}, inner s = some (value, rest) → Takes s rest)
    {first : Bool} {s rest : Text} {value : α}
    (h : readSeparated separator first inner s = some (value, rest)) : Takes s rest := by
  cases first with
  | true => exact hinner h
  | false =>
    cases s with
    | nil => cases h
    | cons c s =>
      by_cases hc : c = separator
      · subst hc
        exact .cons hseparator (hinner ((if_pos rfl).symm.trans h))
      · cases (if_neg hc).symm.trans h

theorem readOctets_takes {first : Bool} {octets : List ℕ}
    (h : readOctets n first s = some (octets, rest)) : Takes s rest := by
  induction n generalizing first s octets with
  | zero =>
    cases h
    exact .refl _
  | succ n ih =>
    obtain ⟨⟨octet, s'⟩, hoctet, h⟩ := Option.bind_eq_some_iff.mp h
    obtain ⟨⟨octets', rest'⟩, hoctets, heq⟩ := Option.map_eq_some_iff.mp h
    cases heq
    exact (readSeparated_takes (by decide) readOctet_takes hoctet).trans (ih hoctets)

theorem readGroups_takes (limit : ℕ) (first : Bool) (s : Text) :
    Takes s (readGroups limit first s).2.2 := by
  induction limit generalizing first s with
  | zero => exact .refl s
  | succ limit ih =>
    rw [readGroups]
    dsimp only
    split
    · rename_i octets rest hquad
      split_ifs at hquad
      exact readSeparated_takes (by decide) readOctets_takes hquad
    · split
      · exact .refl s
      · rename_i group rest hgroup
        exact (readSeparated_takes (by decide) readSegment_takes hgroup).trans (ih false rest)

theorem readIpv6_takes {segments : List ℕ} (h : readIpv6 s = some (segments, rest)) :
    Takes s rest := by
  have hhead := readGroups_takes 8 true s
  unfold readIpv6 at h
  dsimp only at h
  split_ifs at h
  · cases h
    exact hhead
  · split at h
    · rename_i after hafter
      cases h
      rw [hafter] at hhead
      exact hhead.trans (.cons (by decide) (.cons (by decide) (readGroups_takes _ true after)))
    · cases h

theorem parseIpv6_chars {segments : List ℕ} (h : parseIpv6 s = some segments) :
    ∀ c ∈ s, isIpChar c = true := by
  unfold parseIpv6 at h
  cases hread : readIpv6 s with
  | none =>
    rw [hread] at h
    cases h
  | some result =>
    obtain ⟨segments', rest⟩ := result
    rw [hread] at h
    cases rest with
    | cons c rest => cases h
    | nil =>
      obtain ⟨used, hs, hused⟩ := readIpv6_takes hread
      rw [append_nil] at hs
      exact hs ▸ hused

end IpLib
