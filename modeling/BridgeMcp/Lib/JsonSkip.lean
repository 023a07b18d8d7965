import BridgeMcp.Lib.JsonReaders

/-!
`skipValue` reads a JSON value nobody wants. It follows the grammar only, so it takes numerals out
of range, unpaired surrogates and any depth of nesting.
-/
namespace JsonLib
open TextLib Option List

variable {α β γ κ : Type*}

/-- After the backslash. Any four hexadecimal digits will do; the character is of no use. -/
def skipEscape : Reader Char
  | [] => none
  | c :: s =>
    if c ∈ ['"', '\\', '/', 'b', 'f', 'n', 'r', 't'] then some (c, s)
    else if c = 'u' then mapped (fun _ => c) readHex4 s
    else none

def skipString : Reader Text := readQuoted skipEscape

def skipNumeral : Reader Unit := fun s =>
  let whole := s.takeWhile Char.isDigit
  if whole = [] ∨ (whole.head? = some '0' ∧ whole ≠ ['0']) then none
  else
    (readFraction (s.dropWhile Char.isDigit)).bind fun p =>
      (readExponent p.2).map fun q => ((), q.2)

def skipScalar : Reader Unit := fun s =>
  match s with
  | [] => none
  | c :: rest =>
    if c = '"' then mapped (fun _ => ()) skipString rest
    else if c = '-' then skipNumeral rest
    else if c.isDigit then skipNumeral s
    else mapped (fun _ => ()) readScalar s

def skipNested : ℕ → Reader Unit
  | 0 => readNested (fun _ => none) (fun _ => none) skipScalar
  | depth + 1 =>
    readNested (mapped (fun _ => ()) (readBlock (skipNested depth) ']'))
      (mapped (fun _ => ()) (readBlock (readMember skipString fun _ => skipNested depth) '\x7d'))
      skipScalar

/-- No text nests deeper than it is long. -/
def skipValue : Reader Unit := fun s => skipNested s.length s

theorem lawful_skipEscape : Lawful skipEscape := by
  intro s c r h
  cases s with
  | nil => cases h
  | cons d s =>
    rw [skipEscape] at h
    split_ifs at h with hsimple hunicode
    · exact (stable_pure d).reads_rest (fun _ => if_pos hsimple) h
    · exact (lawful_readHex4.mapped _).stable.reads_rest
        (fun _ => (if_neg hsimple).trans (if_pos hunicode)) h

theorem lawful_skipString : Lawful skipString := lawful_skipEscape.readQuoted

theorem skipNumeral_eq : skipNumeral = readDigits fun _ _ _ => some () := by
  funext s
  rw [skipNumeral, readDigits]
  simp only [map_some]
  split
  · rfl
  · congr 1
    funext p
    cases readExponent p.2 <;> rfl

theorem lawful_skipNumeral : Lawful skipNumeral := by
  rw [skipNumeral_eq]
  exact lawful_readDigits _

theorem skipScalar_cons (c : Char) (s : Text) :
    skipScalar (c :: s) =
      if c = '"' then mapped (fun _ => ()) skipString s
      else if c = '-' then skipNumeral s
      else if c.isDigit then skipNumeral (c :: s)
      else mapped (fun _ => ()) readScalar (c :: s) :=
  rfl

theorem lawful_skipScalar : Lawful skipScalar := by
  intro s a r h
  cases s with
  | nil => cases h
  | cons c s =>
    have hall := skipScalar_cons c
    rw [hall] at h
    split_ifs at h hall
    · exact (lawful_skipString.mapped _).stable.reads_rest hall h
    · exact lawful_skipNumeral.stable.reads_rest hall h
    · exact lawful_skipNumeral.reads_whole hall h
    · exact (lawful_readScalar.mapped _).reads_whole hall h

theorem lawful_skipNested (depth : ℕ) : Lawful (skipNested depth) := by
  induction depth with
  | zero => exact lawful_none.readNested lawful_none lawful_skipScalar
  | succ depth ih =>
    exact ((ih.readBlock ']' rfl).mapped _).readNested
      (((lawful_skipString.readMember fun _ => ih).readBlock '\x7d' rfl).mapped _) lawful_skipScalar

theorem readBlock_congr {item item' : Reader α} (h : Lawful item) (close : Char) {s : Text}
    (hitem : ∀ t : Text, t.length ≤ s.length → item t = item' t) :
    readBlock item close s = readBlock item' close s := by
  have hsequence : ∀ (fuel : ℕ) (t : Text), t.length ≤ s.length →
      readSequence item close fuel t = readSequence item' close fuel t := by
    intro fuel
    induction fuel with
    | zero => exact fun _ _ => rfl
    | succ fuel ih =>
      intro t ht
      rw [readSequence, readSequence, ← hitem t ht]
      cases hread : item t with
      | none => rfl
      | some x =>
        have hlt := h.length_lt hread
        have hle := skipSpace_length_le x.2
        simp only [bind_some]
        cases hrest : skipSpace x.2 with
        | nil => rfl
        | cons c r =>
          rw [hrest, length_cons] at hle
          simp only [mapped, ih r (by omega)]
  rw [readBlock, readBlock, hsequence _ s (Nat.le_refl _)]

theorem andThen_congr {f : Reader α} (h : Lawful f) {g g' : α → Reader β} {s : Text}
    (hnext : ∀ a t, t.length < s.length → g a t = g' a t) : andThen f g s = andThen f g' s := by
  rw [andThen, andThen]
  cases hread : f s with
  | none => rfl
  | some x => exact hnext x.1 x.2 (h.length_lt hread)

theorem readMember_congr {key : Reader κ} (hkey : Lawful key) {value value' : κ → Reader α}
    {s : Text} (hvalue : ∀ k t, t.length < s.length → value k t = value' k t) :
    readMember key value s = readMember key value' s := by
  refine andThen_congr (lawful_expect '"') fun _ t ht => ?_
  refine andThen_congr hkey fun k u hu => ?_
  refine andThen_congr (lawful_expect ':') fun _ v hv => ?_
  rw [mapped, mapped, hvalue k v (by omega)]

theorem skipNested_eq {depth depth' : ℕ} {s : Text} (h : s.length ≤ depth)
    (h' : s.length ≤ depth') : skipNested depth s = skipNested depth' s := by
  induction depth generalizing depth' s with
  | zero =>
    obtain rfl := length_eq_zero_iff.mp (Nat.le_zero.mp h)
    rw [(lawful_skipNested 0).nil, (lawful_skipNested depth').nil]
  | succ depth ih =>
    cases depth' with
    | zero =>
      obtain rfl := length_eq_zero_iff.mp (Nat.le_zero.mp h')
      rw [(lawful_skipNested 0).nil, (lawful_skipNested (depth + 1)).nil]
    | succ depth' =>
      rw [skipNested, skipNested, readNested, readNested]
      have hle := skipSpace_length_le s
      cases hrest : skipSpace s with
      | nil => rfl
      | cons c r =>
        rw [hrest, length_cons] at hle
        have hinner : ∀ t : Text, t.length ≤ r.length →
            skipNested depth t = skipNested depth' t :=
          fun t ht => ih (by omega) (by omega)
        have harray := readBlock_congr (lawful_skipNested depth) ']' hinner
        have hobject := readBlock_congr (s := r)
          (lawful_skipString.readMember fun _ => lawful_skipNested depth) '\x7d'
          fun t ht => readMember_congr lawful_skipString
            fun _ u hu => hinner u (by omega)
        simp only [mapped, harray, hobject]

theorem lawful_skipValue : Lawful skipValue := by
  intro s a r h
  obtain ⟨p, hne, hs, -⟩ := lawful_skipNested s.length s a r h
  refine ⟨p, hne, hs, fun r' hr => ?_⟩
  -- a depth that is enough for both texts
  have hdeep : skipNested (s.length + (p ++ r').length) s = some (a, r) :=
    (skipNested_eq (Nat.le_add_right _ _) (Nat.le_refl _)).trans h
  obtain ⟨q, -, hq, hreads⟩ := lawful_skipNested _ s a r hdeep
  obtain rfl : q = p := append_cancel_right (hq.symm.trans hs)
  exact (skipNested_eq (Nat.le_refl _) (Nat.le_add_left _ _)).trans (hreads r' hr)

/-- Where both readers accept a text they stop at the same place, with values that `R` relates. -/
def Agree (R : α → β → Prop) (f : Reader α) (g : Reader β) : Prop :=
  ∀ s a r b r', f s = some (a, r) → g s = some (b, r') → r = r' ∧ R a b

section
variable {R : α → β → Prop} {f : Reader α} {g : Reader β}

theorem agree_refl (f : Reader α) : Agree Eq f f := by
  intro s a r b r' h h'
  obtain ⟨rfl, rfl⟩ := Prod.mk.inj (some.inj (h.symm.trans h'))
  exact ⟨rfl, rfl⟩

theorem Agree.imp {S : α → β → Prop} (h : Agree R f g) (hRS : ∀ a b, R a b → S a b) :
    Agree S f g := by
  intro s a r b r' hf hg
  obtain ⟨hr, hab⟩ := h s a r b r' hf hg
  exact ⟨hr, hRS a b hab⟩

theorem Agree.andThen {γ' : Type*} {S : γ → γ' → Prop} {f' : α → Reader γ} {g' : β → Reader γ'}
    (h : Agree R f g) (h' : ∀ a b, R a b → Agree S (f' a) (g' b)) :
    Agree S (andThen f f') (andThen g g') := by
  intro s c r d r' hf hg
  obtain ⟨x, hx, hf⟩ := bind_eq_some_iff.mp hf
  obtain ⟨y, hy, hg⟩ := bind_eq_some_iff.mp hg
  obtain ⟨hrest, hxy⟩ := h s x.1 x.2 y.1 y.2 hx hy
  exact h' x.1 y.1 hxy x.2 c r d r' hf (hrest ▸ hg)

theorem Agree.mapped {γ' : Type*} {S : γ → γ' → Prop} {i : α → γ} {j : β → γ'}
    (h : Agree R f g) (hS : ∀ a b, R a b → S (i a) (j b)) : Agree S (mapped i f) (mapped j g) := by
  intro s c r d r' hf hg
  obtain ⟨x, hx, hf⟩ := map_eq_some_iff.mp hf
  obtain ⟨y, hy, hg⟩ := map_eq_some_iff.mp hg
  cases hf
  cases hg
  obtain ⟨hrest, hxy⟩ := h s x.1 x.2 y.1 y.2 hx hy
  exact ⟨hrest, hS x.1 y.1 hxy⟩

theorem Agree.mapped_right {S : α → γ → Prop} {j : β → γ} (h : Agree R f g)
    (hS : ∀ a b, R a b → S a (j b)) : Agree S f (JsonLib.mapped j g) := by
  intro s a r c r' hf hg
  obtain ⟨y, hy, hg⟩ := map_eq_some_iff.mp hg
  cases hg
  obtain ⟨hrest, hxy⟩ := h s a r y.1 y.2 hf hy
  exact ⟨hrest, hS a y.1 hxy⟩

theorem Agree.keep_right (h : Agree R f g) (p : β → Bool) : Agree R f (keep p g) :=
  fun s a r b r' hf hg => h s a r b r' hf (eq_some_of_filter_eq_some hg)

theorem agree_of_none_left : Agree R (fun _ => none) g := nofun

theorem Agree.readMember {κ' : Type*} {K : κ → κ' → Prop} {V : κ → α → β → Prop} {key : Reader κ}
    {key' : Reader κ'} {value : κ → Reader α} {value' : κ' → Reader β} (hkey : Agree K key key')
    (hvalue : ∀ k k', K k k' → Agree (V k) (value k) (value' k')) :
    Agree (fun m m' => K m.1 m'.1 ∧ V m.1 m.2 m'.2) (readMember key value)
      (readMember key' value') :=
  (agree_refl _).andThen fun _ _ _ => hkey.andThen fun k k' hk => (agree_refl _).andThen fun _ _ _ =>
    (hvalue k k' hk).mapped fun _ _ hab => ⟨hk, hab⟩

theorem Agree.readSequence (h : Agree R f g) (close : Char) (fuel fuel' : ℕ) :
    Agree (List.Forall₂ R) (readSequence f close fuel) (readSequence g close fuel') := by
  induction fuel generalizing fuel' with
  | zero => exact agree_of_none_left
  | succ fuel ih =>
    intro s items r items' r' hf hg
    cases fuel' with
    | zero => cases hg
    | succ fuel' =>
      rw [JsonLib.readSequence] at hf hg
      obtain ⟨x, hx, hf⟩ := bind_eq_some_iff.mp hf
      obtain ⟨y, hy, hg⟩ := bind_eq_some_iff.mp hg
      obtain ⟨hrest, hxy⟩ := h s x.1 x.2 y.1 y.2 hx hy
      rw [← hrest] at hg
      cases hskip : skipSpace x.2 with
      | nil =>
        rw [hskip] at hf
        cases hf
      | cons c t =>
        rw [hskip] at hf hg
        dsimp only at hf hg
        split_ifs at hf hg
        · exact (ih fuel').mapped (S := List.Forall₂ R) (fun _ _ hl => .cons hxy hl)
            t items r items' r' hf hg
        · cases hf
          cases hg
          exact ⟨rfl, .cons hxy .nil⟩

theorem Agree.readBlock (h : Agree R f g) (close : Char) :
    Agree (List.Forall₂ R) (readBlock f close) (readBlock g close) := by
  intro s items r items' r' hf hg
  rw [JsonLib.readBlock] at hf hg
  split_ifs at hf hg
  · cases hf
    cases hg
    exact ⟨rfl, .nil⟩
  · exact h.readSequence close _ _ s items r items' r' hf hg

theorem Agree.readNested {array object scalar : Reader α} {array' object' scalar' : Reader β}
    (harray : Agree R array array') (hobject : Agree R object object')
    (hscalar : Agree R scalar scalar') :
    Agree R (readNested array object scalar) (readNested array' object' scalar') := by
  intro s a r b r' hf hg
  rw [JsonLib.readNested] at hf hg
  cases hskip : skipSpace s with
  | nil =>
    rw [hskip] at hf
    cases hf
  | cons c t =>
    rw [hskip] at hf hg
    dsimp only at hf hg
    split_ifs at hf hg
    · exact harray t a r b r' hf hg
    · exact hobject t a r b r' hf hg
    · exact hscalar (c :: t) a r b r' hf hg

end

theorem skipEscape_of_readEscape {s r : Text} {c : Char} (h : readEscape s = some (c, r)) :
    (∃ d, skipEscape s = some (d, r)) ∨
      ∃ d e rest, skipEscape s = some (d, '\\' :: rest) ∧ skipEscape rest = some (e, r) := by
  have hskip : ∀ (x : ℕ) (t u : Text), readHex4 t = some (x, u) →
      skipEscape ('u' :: t) = some ('u', u) := by
    intro x t u hread
    simp [skipEscape, mapped, hread]
  unfold readEscape at h
  split at h
  case h_9 t =>
    rw [readUnicodeEscape_eq] at h
    obtain ⟨x, hx, hnext⟩ := bind_eq_some_iff.mp h
    dsimp only at hnext
    split_ifs at hnext
    · obtain ⟨word, hword, hnext⟩ := bind_eq_some_iff.mp hnext
      rw [readWord] at hword
      split_ifs at hword with hprefix
      cases hword
      obtain ⟨y, hy, heq⟩ := map_eq_some_iff.mp hnext
      obtain ⟨-, rfl⟩ := Prod.mk.inj heq
      have hx2 : x.2 = '\\' :: 'u' :: x.2.drop 2 := (List.prefix_iff_eq_append.mp hprefix).symm
      exact .inr ⟨'u', 'u', 'u' :: x.2.drop 2, hx2 ▸ hskip x.1 t x.2 hx,
        hskip y.1 _ y.2 (eq_some_of_filter_eq_some hy)⟩
    · obtain ⟨-, rfl⟩ := Prod.mk.inj (some.inj hnext)
      exact .inl ⟨_, hskip x.1 t x.2 hx⟩
  case h_10 => cases h
  all_goals
    cases h
    exact .inl ⟨_, rfl⟩

theorem readBody_skip_succ {fuel : ℕ} {s u : Text} {d : Char} (h : skipEscape s = some (d, u)) :
    readBody skipEscape (fuel + 1) ('\\' :: s) = mapped (d :: ·) (readBody skipEscape fuel) u := by
  simp [readBody, andThen, h]

theorem agree_readBody (fuel fuel' : ℕ) :
    Agree (fun _ _ => True) (readBody readEscape fuel) (readBody skipEscape fuel') := by
  induction fuel generalizing fuel' with
  | zero => exact agree_of_none_left
  | succ fuel ih =>
    intro s t r t' r' hread hskip
    cases s with
    | nil => cases hread
    | cons c s =>
      cases fuel' with
      | zero => cases hskip
      | succ fuel' =>
        by_cases hquote : c = '"'
        · simp only [readBody, if_pos hquote] at hread hskip
          cases hread
          cases hskip
          exact ⟨rfl, trivial⟩
        · by_cases hescape : c = '\\'
          · subst hescape
            rw [readBody, if_neg (by decide), if_pos rfl] at hread
            obtain ⟨x, hx, hnext⟩ := bind_eq_some_iff.mp hread
            obtain ⟨y, hy, heq⟩ := map_eq_some_iff.mp hnext
            obtain ⟨-, rfl⟩ := Prod.mk.inj heq
            obtain ⟨d, hd⟩ | ⟨d, e, rest, hd, he⟩ := skipEscape_of_readEscape hx
            · rw [readBody_skip_succ hd] at hskip
              obtain ⟨z, hz, heq⟩ := map_eq_some_iff.mp hskip
              obtain ⟨-, rfl⟩ := Prod.mk.inj heq
              exact ih fuel' x.2 y.1 y.2 z.1 z.2 hy hz
            · rw [readBody_skip_succ hd] at hskip
              obtain ⟨z, hz, heq⟩ := map_eq_some_iff.mp hskip
              obtain ⟨-, rfl⟩ := Prod.mk.inj heq
              cases fuel' with
              | zero => cases hz
              | succ fuel' =>
                rw [readBody_skip_succ he] at hz
                obtain ⟨z', hz', heq⟩ := map_eq_some_iff.mp hz
                obtain ⟨-, hrest⟩ := Prod.mk.inj heq
                rw [← hrest]
                exact ih fuel' x.2 y.1 y.2 z'.1 z'.2 hy hz'
          · rw [readBody, if_neg hquote, if_neg hescape] at hread hskip
            split_ifs at hread hskip
            exact (ih fuel').mapped (S := fun _ _ => True) (fun _ _ _ => trivial)
              s t r t' r' hread hskip

theorem agree_skipString : Agree (fun _ _ => True) readString skipString := by
  intro s t r t' r' hread hskip
  rw [readString_eq] at hread
  exact agree_readBody _ _ s t r t' r' hread hskip

theorem agree_readDigits (number : Text → Text → Option ℤ → Option α)
    (number' : Text → Text → Option ℤ → Option β) :
    Agree (fun _ _ => True) (readDigits number) (readDigits number') := by
  intro s a r b r' hf hg
  rw [readDigits] at hf hg
  split_ifs at hf hg
  obtain ⟨p, hp, hf⟩ := bind_eq_some_iff.mp hf
  obtain ⟨p', hp', hg⟩ := bind_eq_some_iff.mp hg
  obtain rfl := some.inj (hp.symm.trans hp')
  obtain ⟨q, hq, hf⟩ := bind_eq_some_iff.mp hf
  obtain ⟨q', hq', hg⟩ := bind_eq_some_iff.mp hg
  obtain rfl := some.inj (hq.symm.trans hq')
  obtain ⟨n, -, hf⟩ := map_eq_some_iff.mp hf
  obtain ⟨m, -, hg⟩ := map_eq_some_iff.mp hg
  cases hf
  cases hg
  exact ⟨rfl, trivial⟩

theorem agree_skipNumeral (negative : Bool) :
    Agree (fun _ _ => True) (readNumeral negative) skipNumeral := by
  rw [readNumeral_eq, skipNumeral_eq]
  exact agree_readDigits _ _

theorem agree_skipScalar : Agree (fun _ _ => True) readScalar skipScalar := by
  intro s a r b r' hf hg
  cases s with
  | nil => cases hf
  | cons c s =>
    rw [skipScalar_cons] at hg
    split_ifs at hg with hquote hminus hdigit
    · subst hquote
      exact agree_skipString.mapped (S := fun _ _ => True) (fun _ _ _ => trivial)
        s a r b r' hf hg
    · subst hminus
      exact (agree_skipNumeral true).mapped (S := fun _ _ => True) (j := id)
        (fun _ _ _ => trivial) s a r b r' hf (by simpa [mapped] using hg)
    · rw [readScalar_cons] at hf
      split_ifs at hf with hn ht hfalse
      · subst hn
        cases hdigit
      · subst ht
        cases hdigit
      · subst hfalse
        cases hdigit
      · exact (agree_skipNumeral false).mapped (S := fun _ _ => True) (j := id)
          (fun _ _ _ => trivial) (c :: s) a r b r' hf (by simpa [mapped] using hg)
    · exact ((agree_refl readScalar).mapped (S := fun _ _ => True) (i := id)
        fun _ _ _ => trivial) (c :: s) a r b r' (by simpa [mapped] using hf) hg

theorem agree_skipNested (depth depth' : ℕ) :
    Agree (fun _ _ => True) (readValue depth) (skipNested depth') := by
  induction depth generalizing depth' with
  | zero =>
    rw [readValue_zero]
    cases depth' with
    | zero => exact agree_of_none_left.readNested agree_of_none_left agree_skipScalar
    | succ depth' => exact agree_of_none_left.readNested agree_of_none_left agree_skipScalar
  | succ depth ih =>
    rw [readValue_succ, readArray_eq, readObject_eq]
    cases depth' with
    | zero =>
      intro s a r b r' hf hg
      rw [skipNested, readNested] at hg
      rw [readNested] at hf
      cases hskip : skipSpace s with
      | nil =>
        rw [hskip] at hf
        cases hf
      | cons c t =>
        rw [hskip] at hf hg
        dsimp only at hf hg
        split_ifs at hf hg
        exact agree_skipScalar (c :: t) a r b r' hf hg
    | succ depth' =>
      have harray := ((ih depth').readBlock ']').mapped (S := fun _ _ => True)
        (i := Json.array) (j := fun _ => ()) fun _ _ _ => trivial
      have hobject := ((agree_skipString.readMember (V := fun _ _ _ => True)
        fun _ _ _ => ih depth').readBlock '\x7d').mapped (S := fun _ _ => True) (i := Json.object) (j := fun _ => ())
        fun _ _ _ => trivial
      exact harray.readNested hobject agree_skipScalar

theorem agree_skipValue (depth : ℕ) : Agree (fun _ _ => True) (readValue depth) skipValue :=
  fun s => agree_skipNested depth s.length s

end JsonLib
