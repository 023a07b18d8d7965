import BridgeMcp.Lib.Utf8

/-!
Text as UTF-8 bytes, and the lossy decoder of `String::from_utf8_lossy`, which replaces every
maximal malformed chunk by U+FFFD.
-/
namespace TextLib
open List

def utf8Bytes (s : Text) : List UInt8 := s.flatMap String.utf8EncodeChar

@[simp] theorem utf8Bytes_nil : utf8Bytes [] = [] := rfl

@[simp] theorem utf8Bytes_cons (c : Char) (s : Text) :
    utf8Bytes (c :: s) = String.utf8EncodeChar c ++ utf8Bytes s := rfl

@[simp] theorem utf8Bytes_append (s t : Text) : utf8Bytes (s ++ t) = utf8Bytes s ++ utf8Bytes t :=
  flatMap_append

def IsAscii (s : Text) : Prop := ∀ c ∈ s, c.toNat < 128

instance (s : Text) : Decidable (IsAscii s) := decidableBAll (fun c : Char => c.toNat < 128) s

variable {s t m : Text}

theorem isAscii_append : IsAscii (s ++ t) ↔ IsAscii s ∧ IsAscii t :=
  forall_mem_append

def replacementChar : Char := '\uFFFD'

def isContinuation (b : ℕ) : Bool := 0x80 ≤ b && b ≤ 0xBF

/-- What may follow the first byte of a three-byte character: no overlong form, no surrogate. -/
def isSecondOfThree (lead b : ℕ) : Bool :=
  if lead = 0xE0 then 0xA0 ≤ b && b ≤ 0xBF
  else if lead = 0xED then 0x80 ≤ b && b ≤ 0x9F
  else isContinuation b

def isSecondOfFour (lead b : ℕ) : Bool :=
  if lead = 0xF0 then 0x90 ≤ b && b ≤ 0xBF
  else if lead = 0xF4 then 0x80 ≤ b && b ≤ 0x8F
  else isContinuation b

variable {b lead n : ℕ}

theorem isContinuation_iff : isContinuation b = true ↔ 0x80 ≤ b ∧ b ≤ 0xBF := by
  simp [isContinuation]

theorem isSecondOfThree_iff :
    isSecondOfThree lead b = true ↔
      (0x80 ≤ b ∧ b ≤ 0xBF) ∧ (lead = 0xE0 → 0xA0 ≤ b) ∧ (lead = 0xED → b ≤ 0x9F) := by
  unfold isSecondOfThree
  split_ifs <;> simp [isContinuation] <;> omega

theorem isSecondOfFour_iff :
    isSecondOfFour lead b = true ↔
      (0x80 ≤ b ∧ b ≤ 0xBF) ∧ (lead = 0xF0 → 0x90 ≤ b) ∧ (lead = 0xF4 → b ≤ 0x8F) := by
  unfold isSecondOfFour
  split_ifs <;> simp [isContinuation] <;> omega

/-- Go on with the payload of the next byte if it fits; otherwise the first byte and the `used`
bytes after it are one malformed chunk. -/
def withNext (fits : ℕ → Bool) (used : ℕ) (rest : List UInt8)
    (next : ℕ → List UInt8 → Char × ℕ) : Char × ℕ :=
  match rest with
  | [] => (replacementChar, used)
  | b :: rest => if fits b.toNat then next (b.toNat % 64) rest else (replacementChar, used)

/-- The character that `lead :: rest` begins with, and how many bytes of `rest` it takes. -/
def firstChar (lead : UInt8) (rest : List UInt8) : Char × ℕ :=
  let v := lead.toNat
  if v < 0x80 then (Char.ofNat v, 0)
  else if v < 0xC2 then (replacementChar, 0)
  else if v < 0xE0 then
    withNext isContinuation 0 rest fun x _ => (Char.ofNat ((v - 0xC0) * 64 + x), 1)
  else if v < 0xF0 then
    withNext (isSecondOfThree v) 0 rest fun x rest =>
      withNext isContinuation 1 rest fun y _ =>
        (Char.ofNat ((v - 0xE0) * 4096 + x * 64 + y), 2)
  else if v < 0xF5 then
    withNext (isSecondOfFour v) 0 rest fun x rest =>
      withNext isContinuation 1 rest fun y rest =>
        withNext isContinuation 2 rest fun z _ =>
          (Char.ofNat ((v - 0xF0) * 262144 + x * 4096 + y * 64 + z), 3)
  else (replacementChar, 0)

/-- The first number counts the bytes that the last character has already taken. -/
def lossyFrom : ℕ → List UInt8 → Text
  | _, [] => []
  | taken + 1, _ :: rest => lossyFrom taken rest
  | 0, lead :: rest => (firstChar lead rest).1 :: lossyFrom (firstChar lead rest).2 rest

def fromUtf8Lossy (bytes : List UInt8) : Text := lossyFrom 0 bytes

theorem lossyFrom_skip (taken rest : List UInt8) :
    lossyFrom taken.length (taken ++ rest) = fromUtf8Lossy rest := by
  induction taken with
  | nil => rfl
  | cons b taken ih => exact ih

theorem lossyFrom_drop {k : ℕ} {rest : List UInt8} (h : k ≤ rest.length) :
    lossyFrom k rest = fromUtf8Lossy (rest.drop k) := by
  have hskip := lossyFrom_skip (rest.take k) (rest.drop k)
  rwa [take_append_drop, length_take_of_le h] at hskip

theorem toNat_ofNat_of_lt (h : n < 256) : (UInt8.ofNat n).toNat = n :=
  UInt8.toNat_ofNat_of_lt' h

variable {c a : Char}

theorem ofNat_eq_of_toNat (h : n = c.toNat) : Char.ofNat n = c := by
  rw [h, Char.ofNat_toNat]

theorem withNext_fits {fits : ℕ → Bool} (hn : n < 256) (hfits : fits n = true) (used : ℕ)
    (rest : List UInt8) (next : ℕ → List UInt8 → Char × ℕ) :
    withNext fits used (UInt8.ofNat n :: rest) next = next (n % 64) rest := by
  simp only [withNext, toNat_ofNat_of_lt hn, hfits, if_true]

theorem toNat_valid (c : Char) : c.toNat < 0xD800 ∨ 0xDFFF < c.toNat ∧ c.toNat < 0x110000 := c.valid

theorem firstChar_encode (c : Char) (rest : List UInt8) :
    ∃ lead tail, String.utf8EncodeChar c = lead :: tail ∧
      firstChar lead (tail ++ rest) = (c, tail.length) := by
  have hvalid := toNat_valid c
  simp only [String.utf8EncodeChar, show c.val.toNat = c.toNat from rfl]
  generalize hv : c.toNat = v at hvalid
  split
  · next h1 =>
      refine ⟨_, _, rfl, ?_⟩
      simp only [firstChar, toNat_ofNat_of_lt (show v < 256 by omega)]
      rw [if_pos (by omega), ofNat_eq_of_toNat hv.symm]
      rfl
  · split
    · next h1 h2 =>
        refine ⟨_, _, rfl, ?_⟩
        simp only [firstChar, toNat_ofNat_of_lt (show v / 64 % 32 + 192 < 256 by omega)]
        rw [if_neg (by omega), if_neg (by omega), if_pos (by omega), cons_append,
          withNext_fits (by omega) (isContinuation_iff.mpr (by omega))]
        rw [ofNat_eq_of_toNat (c := c) (by omega)]
        rfl
    · split
      · next h1 h2 h3 =>
          refine ⟨_, _, rfl, ?_⟩
          simp only [firstChar, toNat_ofNat_of_lt (show v / 4096 % 16 + 224 < 256 by omega)]
          rw [if_neg (by omega), if_neg (by omega), if_neg (by omega), if_pos (by omega),
            cons_append, cons_append,
            withNext_fits (by omega) (isSecondOfThree_iff.mpr (by omega)),
            withNext_fits (by omega) (isContinuation_iff.mpr (by omega))]
          rw [ofNat_eq_of_toNat (c := c) (by omega)]
          rfl
      · next h1 h2 h3 =>
          refine ⟨_, _, rfl, ?_⟩
          simp only [firstChar, toNat_ofNat_of_lt (show v / 262144 % 8 + 240 < 256 by omega)]
          rw [if_neg (by omega), if_neg (by omega), if_neg (by omega), if_neg (by omega),
            if_pos (by omega), cons_append, cons_append, cons_append,
            withNext_fits (by omega) (isSecondOfFour_iff.mpr (by omega)),
            withNext_fits (by omega) (isContinuation_iff.mpr (by omega)),
            withNext_fits (by omega) (isContinuation_iff.mpr (by omega))]
          rw [ofNat_eq_of_toNat (c := c) (by omega)]
          rfl

theorem fromUtf8Lossy_utf8Bytes (s : Text) : fromUtf8Lossy (utf8Bytes s) = s := by
  induction s with
  | nil => rfl
  | cons c s ih =>
    obtain ⟨lead, tail, hbytes, hfirst⟩ := firstChar_encode c (utf8Bytes s)
    rw [utf8Bytes_cons, hbytes, cons_append, fromUtf8Lossy, lossyFrom, hfirst,
      lossyFrom_skip, ih]

theorem utf8Bytes_injective (h : utf8Bytes s = utf8Bytes t) : s = t := by
  rw [← fromUtf8Lossy_utf8Bytes s, h, fromUtf8Lossy_utf8Bytes]

/-- `String::from_utf8`: bytes that are the encoding of a text. -/
def fromUtf8 (bytes : List UInt8) : Option Text :=
  if utf8Bytes (fromUtf8Lossy bytes) = bytes then some (fromUtf8Lossy bytes) else none

theorem fromUtf8_utf8Bytes (s : Text) : fromUtf8 (utf8Bytes s) = some s := by
  rw [fromUtf8, fromUtf8Lossy_utf8Bytes, if_pos rfl]

theorem encode_ascii (h : c.toNat < 128) :
    String.utf8EncodeChar c = [UInt8.ofNat c.toNat] := by
  simp only [String.utf8EncodeChar, show c.val.toNat = c.toNat from rfl]
  rw [if_pos (by omega)]

theorem encode_not_ascii (h : 128 ≤ c.toNat) :
    ∀ b ∈ String.utf8EncodeChar c, 128 ≤ b.toNat := by
  have hofNat : ∀ n, 128 ≤ n → n < 256 → 128 ≤ (UInt8.ofNat n).toNat :=
    fun n hlow hhigh => (toNat_ofNat_of_lt hhigh).symm ▸ hlow
  simp only [String.utf8EncodeChar, show c.val.toNat = c.toNat from rfl]
  split_ifs
  · omega
  all_goals
    intro b hb
    simp only [mem_cons, not_mem_nil, or_false] at hb
    obtain rfl | rfl | rfl | rfl := hb <;> exact hofNat _ (by omega) (by omega)

variable {bytes left right : List UInt8}

theorem eq_of_encode_cons (ha : a.toNat < 128)
    (h : String.utf8EncodeChar c = UInt8.ofNat a.toNat :: bytes) : c = a := by
  have hcode : (UInt8.ofNat a.toNat).toNat = a.toNat := toNat_ofNat_of_lt (by omega)
  by_cases hascii : c.toNat < 128
  · rw [encode_ascii hascii, cons.injEq] at h
    have hsame := congrArg UInt8.toNat h.1
    rw [toNat_ofNat_of_lt (by omega), hcode] at hsame
    exact Char.toNat_inj.mp hsame
  · have hhigh := encode_not_ascii (Nat.le_of_not_lt hascii) _ (h ▸ mem_cons_self)
    omega

theorem utf8Bytes_lt_iff (s : Text) : (∀ b ∈ utf8Bytes s, b.toNat < 128) ↔ IsAscii s := by
  constructor
  · intro h c hc
    by_contra hhigh
    have hencode := encode_not_ascii (not_lt.mp hhigh)
    cases hbytes : String.utf8EncodeChar c with
    | nil => exact absurd (congrArg length hbytes) (by simp [c.utf8Size_pos.ne'])
    | cons b bytes =>
      have hmem : b ∈ String.utf8EncodeChar c := hbytes ▸ mem_cons_self
      have hlow := h b (mem_flatMap.mpr ⟨c, hc, hmem⟩)
      have hb := hencode b hmem
      omega
  · intro h b hb
    obtain ⟨c, hc, hb⟩ := mem_flatMap.mp hb
    have hascii := h c hc
    rw [encode_ascii hascii, mem_singleton] at hb
    rw [hb, toNat_ofNat_of_lt (by omega)]
    exact hascii

theorem utf8Bytes_of_isAscii (h : IsAscii s) :
    utf8Bytes s = s.map fun c => UInt8.ofNat c.toNat := by
  induction s with
  | nil => rfl
  | cons c s ih =>
    obtain ⟨hc, hs⟩ := forall_mem_cons.mp h
    rw [utf8Bytes_cons, encode_ascii hc, ih hs]
    rfl

theorem length_utf8Bytes (s : Text) : (utf8Bytes s).length = utf8Len s := by
  induction s with
  | nil => rfl
  | cons c s ih => rw [utf8Bytes_cons, length_append, ih, utf8Len_cons, String.length_utf8EncodeChar]

theorem utf8Bytes_split_char (ha : a.toNat < 128)
    (h : utf8Bytes s = left ++ UInt8.ofNat a.toNat :: right) :
    ∃ t u, s = t ++ a :: u ∧ utf8Bytes t = left ∧ utf8Bytes u = right := by
  induction s generalizing left with
  | nil => simp at h
  | cons c s ih =>
    rw [utf8Bytes_cons, append_eq_append_iff] at h
    obtain ⟨inside, rfl, h⟩ | ⟨inside, hc, h⟩ := h
    · obtain ⟨t, u, rfl, rfl, rfl⟩ := ih h
      exact ⟨c :: t, u, rfl, rfl, rfl⟩
    · cases inside with
      | nil =>
        obtain ⟨t, u, rfl, ht, rfl⟩ := ih (show utf8Bytes s = [] ++ _ from h.symm)
        exact ⟨c :: t, u, rfl, by rw [utf8Bytes_cons, hc, ht, append_nil, append_nil],
          rfl⟩
      | cons b inside =>
        obtain ⟨rfl, rfl⟩ := cons.inj h
        have hbyte := toNat_ofNat_of_lt (show a.toNat < 256 by omega)
        have hascii : c.toNat < 128 := by
          by_contra hc'
          have := encode_not_ascii (Nat.le_of_not_lt hc') (UInt8.ofNat a.toNat) (by simp [hc])
          omega
        -- the encoding of `c` is one byte, so nothing is left of `a` or after it inside it
        rw [encode_ascii hascii] at hc
        obtain ⟨rfl, hc⟩ := append_eq_cons_iff.mp hc.symm |>.resolve_right (by simp)
        obtain ⟨hca, rfl⟩ := cons.inj hc
        have hac : a = c := by
          have := congrArg UInt8.toNat hca
          rw [hbyte, toNat_ofNat_of_lt (by omega)] at this
          exact Char.toNat_inj.mp this.symm
        exact ⟨[], s, by rw [hac, nil_append], rfl, rfl⟩

theorem utf8Bytes_strip (hm : IsAscii m) (h : utf8Bytes s = utf8Bytes m ++ right) :
    ∃ u, s = m ++ u ∧ utf8Bytes u = right := by
  induction m generalizing s with
  | nil => exact ⟨s, rfl, h⟩
  | cons a m ih =>
    obtain ⟨ha, hm⟩ := forall_mem_cons.mp hm
    rw [utf8Bytes_cons, encode_ascii ha] at h
    obtain ⟨t, u, rfl, ht, hu⟩ := utf8Bytes_split_char ha (show utf8Bytes s = [] ++ _ from h)
    obtain rfl : t = [] := utf8Bytes_injective ht
    obtain ⟨u, rfl, hright⟩ := ih hm hu
    exact ⟨u, rfl, hright⟩

theorem utf8Bytes_split (hm : IsAscii m) (hne : m ≠ [])
    (h : utf8Bytes s = left ++ utf8Bytes m ++ right) :
    ∃ t u, s = t ++ m ++ u ∧ utf8Bytes t = left ∧ utf8Bytes u = right := by
  cases m with
  | nil => exact absurd rfl hne
  | cons a m =>
    obtain ⟨ha, hm⟩ := forall_mem_cons.mp hm
    rw [utf8Bytes_cons, encode_ascii ha, append_assoc] at h
    obtain ⟨t, u, rfl, rfl, hu⟩ := utf8Bytes_split_char ha h
    obtain ⟨u, rfl, rfl⟩ := utf8Bytes_strip hm hu
    exact ⟨t, u, by simp, rfl, rfl⟩

/-- The bytes spell the text in its ASCII part: each other character stands for some bytes none of
which is ASCII. -/
inductive Spells : List UInt8 → Text → Prop where
  | nil : Spells [] []
  | ascii {c : Char} {bytes : List UInt8} {s : Text} : c.toNat < 128 → Spells bytes s →
      Spells (UInt8.ofNat c.toNat :: bytes) (c :: s)
  | chunk {c : Char} {part bytes : List UInt8} {s : Text} : 128 ≤ c.toNat →
      (∀ b ∈ part, 128 ≤ b.toNat) → Spells bytes s → Spells (part ++ bytes) (c :: s)

theorem Spells.append {bytes' : List UInt8} {s' : Text} (h : Spells bytes s)
    (h' : Spells bytes' s') : Spells (bytes ++ bytes') (s ++ s') := by
  induction h with
  | nil => exact h'
  | ascii hc _ ih => exact .ascii hc ih
  | chunk hc hpart _ ih => simpa using Spells.chunk hc hpart ih

theorem Spells.split (h : Spells bytes (s ++ t)) :
    ∃ left right, bytes = left ++ right ∧ Spells left s ∧ Spells right t := by
  induction s generalizing bytes with
  | nil => exact ⟨[], bytes, rfl, .nil, h⟩
  | cons c s ih =>
    cases h with
    | ascii hc h =>
      obtain ⟨left, right, rfl, hs, ht⟩ := ih h
      exact ⟨_, right, rfl, .ascii hc hs, ht⟩
    | chunk hc hpart h =>
      obtain ⟨left, right, rfl, hs, ht⟩ := ih h
      exact ⟨_, right, (append_assoc ..).symm, .chunk hc hpart hs, ht⟩

theorem Spells.eq_utf8Bytes (h : Spells bytes m) (hm : IsAscii m) :
    bytes = utf8Bytes m := by
  induction h with
  | nil => rfl
  | ascii hc _ ih =>
    rw [utf8Bytes_cons, encode_ascii hc, ih (forall_mem_cons.mp hm).2]
    rfl
  | chunk hc _ _ _ =>
    have := (forall_mem_cons.mp hm).1
    omega

theorem Spells.contains (h : Spells bytes s) (hm : IsAscii m) (hfound : m <:+: s) :
    utf8Bytes m <:+: bytes := by
  obtain ⟨t, u, rfl⟩ := hfound
  obtain ⟨left, right, rfl, hleft, -⟩ := h.split
  obtain ⟨left, middle, rfl, -, hmiddle⟩ := hleft.split
  exact ⟨left, right, by rw [hmiddle.eq_utf8Bytes hm]⟩

/-- A decoding step that stands for bytes of `rest`, none of them ASCII, by a character that is
not ASCII either. -/
def TakesNonAscii (rest : List UInt8) (step : Char × ℕ) : Prop :=
  step.2 ≤ rest.length ∧ (∀ b ∈ rest.take step.2, 128 ≤ b.toNat) ∧ 128 ≤ step.1.toNat

theorem takesNonAscii_seen (seen rest : List UInt8) (hseen : ∀ b ∈ seen, 128 ≤ b.toNat)
    (hc : 128 ≤ c.toNat) : TakesNonAscii (seen ++ rest) (c, seen.length) := by
  refine ⟨by simp, ?_, hc⟩
  simpa using hseen

theorem toNat_ofNat_valid (h : n < 0xD800 ∨ 0xDFFF < n ∧ n < 0x110000) :
    (Char.ofNat n).toNat = n := by
  rw [Char.ofNat, dif_pos h]
  rfl

theorem withNext_takesNonAscii {fits : ℕ → Bool} (seen rest : List UInt8)
    {next : ℕ → List UInt8 → Char × ℕ} (hseen : ∀ b ∈ seen, 128 ≤ b.toNat)
    (hnext : ∀ b rest', fits b.toNat = true → rest = b :: rest' →
      TakesNonAscii (seen ++ [b] ++ rest') (next (b.toNat % 64) rest')) :
    TakesNonAscii (seen ++ rest) (withNext fits seen.length rest next) := by
  have hmalformed := takesNonAscii_seen seen rest hseen (c := replacementChar) (by decide)
  cases rest with
  | nil => exact hmalformed
  | cons b rest =>
    simp only [withNext]
    split
    · next hfits => simpa using hnext b rest hfits rfl
    · exact hmalformed

theorem firstChar_takesNonAscii {lead : UInt8} (h : 128 ≤ lead.toNat) (rest : List UInt8) :
    TakesNonAscii rest (firstChar lead rest) := by
  have hmalformed : TakesNonAscii rest (replacementChar, 0) :=
    takesNonAscii_seen [] rest (by simp) (by decide)
  simp only [firstChar]
  split_ifs with h1 h2 h3 h4 h5
  · omega
  · exact hmalformed
  · refine withNext_takesNonAscii [] rest (by simp) fun b rest₁ hb _ => ?_
    have hb := isContinuation_iff.mp hb
    refine takesNonAscii_seen [b] rest₁ (by simpa using hb.1) ?_
    rw [toNat_ofNat_valid (by omega)]
    omega
  · refine withNext_takesNonAscii [] rest (by simp) fun b rest₁ hb _ => ?_
    have hb := isSecondOfThree_iff.mp hb
    refine withNext_takesNonAscii [b] rest₁ (by simpa using hb.1.1) fun c rest₂ hc _ => ?_
    have hc := isContinuation_iff.mp hc
    refine takesNonAscii_seen [b, c] rest₂ (by simpa using ⟨hb.1.1, hc.1⟩) ?_
    rw [toNat_ofNat_valid (by omega)]
    omega
  · refine withNext_takesNonAscii [] rest (by simp) fun b rest₁ hb _ => ?_
    have hb := isSecondOfFour_iff.mp hb
    refine withNext_takesNonAscii [b] rest₁ (by simpa using hb.1.1) fun c rest₂ hc _ => ?_
    have hc := isContinuation_iff.mp hc
    refine withNext_takesNonAscii [b, c] rest₂ (by simpa using ⟨hb.1.1, hc.1⟩) fun d rest₃ hd _ =>
      ?_
    have hd := isContinuation_iff.mp hd
    refine takesNonAscii_seen [b, c, d] rest₃ (by simpa using ⟨hb.1.1, hc.1, hd.1⟩) ?_
    rw [toNat_ofNat_valid (by omega)]
    omega
  · exact hmalformed

theorem spells_fromUtf8Lossy (bytes : List UInt8) : Spells bytes (fromUtf8Lossy bytes) := by
  induction hn : bytes.length using Nat.strong_induction_on generalizing bytes with
  | _ n ih =>
    cases bytes with
    | nil => exact .nil
    | cons lead rest =>
      rw [fromUtf8Lossy, lossyFrom]
      by_cases hlead : lead.toNat < 128
      · have hfirst : firstChar lead rest = (Char.ofNat lead.toNat, 0) := by
          simp only [firstChar]
          rw [if_pos hlead]
        have hchar : (Char.ofNat lead.toNat).toNat = lead.toNat :=
          toNat_ofNat_valid (by omega)
        have hrest := Spells.ascii (c := Char.ofNat lead.toNat) (by omega)
          (ih rest.length (by simp [← hn]) rest rfl)
        rw [hchar, UInt8.ofNat_toNat] at hrest
        rw [hfirst]
        exact hrest
      · obtain ⟨hlen, htaken, hchar⟩ :=
          firstChar_takesNonAscii (Nat.le_of_not_lt hlead) rest
        rw [lossyFrom_drop hlen]
        have hrest := ih (rest.drop (firstChar lead rest).2).length
          (by rw [← hn, length_drop, length_cons]; omega)
          (rest.drop (firstChar lead rest).2) rfl
        have hpart : ∀ b ∈ lead :: rest.take (firstChar lead rest).2, 128 ≤ b.toNat :=
          forall_mem_cons.mpr ⟨Nat.le_of_not_lt hlead, htaken⟩
        simpa using Spells.chunk hchar hpart hrest

end TextLib
