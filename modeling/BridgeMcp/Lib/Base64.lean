import BridgeMcp.Lib.Text

/-!
The URL-safe base64 code without padding, and the standard code read by way of it. Three bytes are
four characters; a rest of one or two bytes is two or three, and the bits left over in the last one
have to be zero.
-/
namespace Base64Lib
open TextLib Option

def sextetChar (n : ℕ) : Char :=
  if n < 26 then Char.ofNat (65 + n)
  else if n < 52 then Char.ofNat (71 + n)
  else if n < 62 then Char.ofNat (n - 4)
  else if n = 62 then '-'
  else '_'

def charSextet (c : Char) : Option ℕ :=
  if c.isUpper then some (c.toNat - 65)
  else if c.isLower then some (c.toNat - 71)
  else if c.isDigit then some (c.toNat + 4)
  else if c = '-' then some 62
  else if c = '_' then some 63
  else none

theorem charSextet_sextetChar {n : ℕ} (h : n < 64) : charSextet (sextetChar n) = some n := by
  have hall : ∀ n < 64, charSextet (sextetChar n) = some n := by decide
  exact hall n h

theorem charSextet_ascii {c : Char} {n : ℕ} (h : charSextet c = some n) : c.toNat < 128 := by
  unfold charSextet at h
  split_ifs at h with hupper hlower hdigit hdash hunder
  · have hcode := isUpper_iff.mp hupper
    omega
  · have hcode := isLower_iff.mp hlower
    omega
  · have hcode := isDigit_iff.mp hdigit
    omega
  · rw [hdash]
    decide
  · rw [hunder]
    decide

theorem charSextet_eq_some {c : Char} {n : ℕ} (h : charSextet c = some n) :
    n < 64 ∧ sextetChar n = c := by
  have hall : ∀ k < 128, ∀ n ∈ charSextet (Char.ofNat k), n < 64 ∧ sextetChar n = Char.ofNat k := by
    decide
  have hat := hall c.toNat (charSextet_ascii h) n
  rw [Char.ofNat_toNat] at hat
  exact hat h

def encode : List UInt8 → Text
  | [] => []
  | [a] => [sextetChar (a.toNat / 4), sextetChar (a.toNat % 4 * 16)]
  | [a, b] =>
    [sextetChar (a.toNat / 4), sextetChar (a.toNat % 4 * 16 + b.toNat / 16),
      sextetChar (b.toNat % 16 * 4)]
  | a :: b :: c :: rest =>
    sextetChar (a.toNat / 4) :: sextetChar (a.toNat % 4 * 16 + b.toNat / 16) ::
      sextetChar (b.toNat % 16 * 4 + c.toNat / 64) :: sextetChar (c.toNat % 64) :: encode rest

def decode : Text → Option (List UInt8)
  | [] => some []
  | [_] => none
  | [w, x] =>
    (charSextet w).bind fun i => (charSextet x).bind fun j =>
      if j % 16 = 0 then some [UInt8.ofNat (i * 4 + j / 16)] else none
  | [w, x, y] =>
    (charSextet w).bind fun i => (charSextet x).bind fun j => (charSextet y).bind fun k =>
      if k % 4 = 0 then
        some [UInt8.ofNat (i * 4 + j / 16), UInt8.ofNat (j % 16 * 16 + k / 4)]
      else none
  | w :: x :: y :: z :: rest =>
    (charSextet w).bind fun i => (charSextet x).bind fun j => (charSextet y).bind fun k =>
      (charSextet z).bind fun l => (decode rest).map fun bytes =>
        UInt8.ofNat (i * 4 + j / 16) :: UInt8.ofNat (j % 16 * 16 + k / 4) ::
          UInt8.ofNat (k % 4 * 64 + l) :: bytes

/-- The standard alphabet has `+` and `/` where the URL-safe one has `-` and `_`. -/
def urlSafe (c : Char) : Option Char :=
  if c = '+' then some '-'
  else if c = '/' then some '_'
  else if c = '-' ∨ c = '_' then none
  else some c

def decodeStandard (s : Text) : Option (List UInt8) :=
  let code := s.rdropWhile (· = '=')
  if s.length = code.length + (4 - code.length % 4) % 4 then (code.mapM urlSafe).bind decode
  else none

theorem ofNat_eq {n : ℕ} {a : UInt8} (h : n = a.toNat) : UInt8.ofNat n = a := by
  rw [h, UInt8.ofNat_toNat]

theorem decode_encode (bytes : List UInt8) : decode (encode bytes) = some bytes := by
  fun_induction encode bytes with
  | case1 => rfl
  | case2 a =>
    have ha := a.toNat_lt
    have hbyte : UInt8.ofNat (a.toNat / 4 * 4 + a.toNat % 4 * 16 / 16) = a :=
      ofNat_eq (by omega)
    rw [decode, charSextet_sextetChar (by omega), charSextet_sextetChar (by omega),
      bind_some, bind_some, if_pos (by omega), hbyte]
  | case3 a b =>
    have ha := a.toNat_lt
    have hb := b.toNat_lt
    have hfirst : UInt8.ofNat (a.toNat / 4 * 4 + (a.toNat % 4 * 16 + b.toNat / 16) / 16) = a :=
      ofNat_eq (by omega)
    have hsecond : UInt8.ofNat ((a.toNat % 4 * 16 + b.toNat / 16) % 16 * 16 +
        b.toNat % 16 * 4 / 4) = b :=
      ofNat_eq (by omega)
    rw [decode, charSextet_sextetChar (by omega), charSextet_sextetChar (by omega),
      charSextet_sextetChar (by omega), bind_some, bind_some, bind_some,
      if_pos (by omega), hfirst, hsecond]
  | case4 a b c rest ih =>
    have ha := a.toNat_lt
    have hb := b.toNat_lt
    have hc := c.toNat_lt
    have hfirst : UInt8.ofNat (a.toNat / 4 * 4 + (a.toNat % 4 * 16 + b.toNat / 16) / 16) = a :=
      ofNat_eq (by omega)
    have hsecond : UInt8.ofNat ((a.toNat % 4 * 16 + b.toNat / 16) % 16 * 16 +
        (b.toNat % 16 * 4 + c.toNat / 64) / 4) = b :=
      ofNat_eq (by omega)
    have hthird : UInt8.ofNat ((b.toNat % 16 * 4 + c.toNat / 64) % 4 * 64 + c.toNat % 64) = c :=
      ofNat_eq (by omega)
    rw [decode, charSextet_sextetChar (by omega), charSextet_sextetChar (by omega),
      charSextet_sextetChar (by omega), charSextet_sextetChar (by omega), bind_some,
      bind_some, bind_some, bind_some, ih, map_some, hfirst, hsecond,
      hthird]

theorem encode_of_decode {s : Text} {bytes : List UInt8} (h : decode s = some bytes) :
    encode bytes = s := by
  have htoNat : ∀ n < 256, (UInt8.ofNat n).toNat = n := fun n hn => by
    rw [UInt8.toNat_ofNat']
    exact Nat.mod_eq_of_lt hn
  fun_induction decode s generalizing bytes with
  | case1 =>
    obtain rfl := some.inj h
    rfl
  | case2 => cases h
  | case3 w x =>
    obtain ⟨i, hi, hx⟩ := bind_eq_some_iff.mp h
    obtain ⟨j, hj, hbyte⟩ := bind_eq_some_iff.mp hx
    obtain ⟨hi64, rfl⟩ := charSextet_eq_some hi
    obtain ⟨hj64, rfl⟩ := charSextet_eq_some hj
    split_ifs at hbyte with hzero
    obtain rfl := some.inj hbyte
    have hfirst : (i * 4 + j / 16) / 4 = i := by omega
    have hsecond : (i * 4 + j / 16) % 4 * 16 = j := by omega
    rw [encode, htoNat _ (by omega), hfirst, hsecond]
  | case4 w x y =>
    obtain ⟨i, hi, hx⟩ := bind_eq_some_iff.mp h
    obtain ⟨j, hj, hy⟩ := bind_eq_some_iff.mp hx
    obtain ⟨k, hk, hbytes⟩ := bind_eq_some_iff.mp hy
    obtain ⟨hi64, rfl⟩ := charSextet_eq_some hi
    obtain ⟨hj64, rfl⟩ := charSextet_eq_some hj
    obtain ⟨hk64, rfl⟩ := charSextet_eq_some hk
    split_ifs at hbytes with hzero
    obtain rfl := some.inj hbytes
    have hfirst : (i * 4 + j / 16) / 4 = i := by omega
    have hsecond : (i * 4 + j / 16) % 4 * 16 + (j % 16 * 16 + k / 4) / 16 = j := by omega
    have hthird : (j % 16 * 16 + k / 4) % 16 * 4 = k := by omega
    rw [encode, htoNat _ (by omega), htoNat _ (by omega), hfirst, hsecond, hthird]
  | case5 w x y z rest ih =>
    obtain ⟨i, hi, hx⟩ := bind_eq_some_iff.mp h
    obtain ⟨j, hj, hy⟩ := bind_eq_some_iff.mp hx
    obtain ⟨k, hk, hz⟩ := bind_eq_some_iff.mp hy
    obtain ⟨l, hl, hrest⟩ := bind_eq_some_iff.mp hz
    obtain ⟨hi64, rfl⟩ := charSextet_eq_some hi
    obtain ⟨hj64, rfl⟩ := charSextet_eq_some hj
    obtain ⟨hk64, rfl⟩ := charSextet_eq_some hk
    obtain ⟨hl64, rfl⟩ := charSextet_eq_some hl
    obtain ⟨later, hlater, rfl⟩ := map_eq_some_iff.mp hrest
    have hfirst : (i * 4 + j / 16) / 4 = i := by omega
    have hsecond : (i * 4 + j / 16) % 4 * 16 + (j % 16 * 16 + k / 4) / 16 = j := by omega
    have hthird : (j % 16 * 16 + k / 4) % 16 * 4 + (k % 4 * 64 + l) / 64 = k := by omega
    have hfourth : (k % 4 * 64 + l) % 64 = l := by omega
    rw [encode, ih hlater, htoNat _ (by omega), htoNat _ (by omega), htoNat _ (by omega), hfirst,
      hsecond, hthird, hfourth]

theorem sextetChar_ne_dot (n : ℕ) : sextetChar n ≠ '.' := by
  by_cases hn : n < 64
  · have hall : ∀ n < 64, sextetChar n ≠ '.' := by decide
    exact hall n hn
  · unfold sextetChar
    rw [if_neg (by omega), if_neg (by omega), if_neg (by omega), if_neg (by omega)]
    decide

theorem dot_notMem_encode (bytes : List UInt8) : '.' ∉ encode bytes := by
  fun_induction encode bytes with
  | case1 => exact List.not_mem_nil
  | case2 a => simp [(sextetChar_ne_dot _).symm]
  | case3 a b => simp [(sextetChar_ne_dot _).symm]
  | case4 a b c rest ih => simp [(sextetChar_ne_dot _).symm, ih]

end Base64Lib
