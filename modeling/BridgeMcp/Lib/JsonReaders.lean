import BridgeMcp.Lib.JsonText

/-!
Readers of JSON put together from parts, and what carries over from the parts to the whole: a
reader takes some text, and white space after the text makes no difference to it (`Lawful`).
-/
namespace JsonLib
open TextLib List

abbrev Reader (α : Type*) : Type _ := Text → Option (α × Text)

variable {α β κ : Type*}

def andThen (f : Reader α) (g : α → Reader β) : Reader β := fun s => (f s).bind fun p => g p.1 p.2

def mapped (h : α → β) (f : Reader α) : Reader β := fun s => (f s).map fun p => (h p.1, p.2)

def keep (p : α → Bool) (f : Reader α) : Reader α := fun s => (f s).filter fun x => p x.1

def expect (c : Char) : Reader Unit := fun s =>
  match skipSpace s with
  | [] => none
  | d :: s => if d = c then some ((), s) else none

def readMember (key : Reader κ) (value : κ → Reader α) : Reader (κ × α) :=
  andThen (expect '"') fun _ => andThen key fun k => andThen (expect ':') fun _ =>
    mapped (fun a => (k, a)) (value k)

def readSequence (item : Reader α) (close : Char) : ℕ → Reader (List α)
  | 0, _ => none
  | fuel + 1, s =>
    (item s).bind fun p =>
      match skipSpace p.2 with
      | [] => none
      | c :: s =>
        if c = ',' then mapped (p.1 :: ·) (readSequence item close fuel) s
        else if c = close then some ([p.1], s)
        else none

def readBlock (item : Reader α) (close : Char) : Reader (List α) := fun s =>
  if (skipSpace s).head? = some close then some ([], (skipSpace s).tail)
  else readSequence item close s.length s

/-- The first character of a value says what it is. -/
def readNested (array object scalar : Reader α) : Reader α := fun s =>
  match skipSpace s with
  | [] => none
  | c :: s => if c = '[' then array s else if c = '\x7b' then object s else scalar (c :: s)

section
variable (value : Reader Json) (fuel : ℕ) (s : Text)
include value fuel s

theorem readItems_eq :
    readItems value fuel s = readSequence value ']' fuel s := by
  induction fuel generalizing s with
  | zero => rfl
  | succ fuel ih =>
    rw [readItems, readSequence]
    congr 1
    funext p
    obtain ⟨item, s⟩ := p
    dsimp only
    cases skipSpace s with
    | nil => rfl
    | cons c r =>
      by_cases hcomma : c = ','
      · subst hcomma
        simp [mapped, ih]
      · by_cases hclose : c = ']'
        · subst hclose
          simp
        · simp [hcomma, hclose]

theorem readMembers_succ :
    readMembers value (fuel + 1) s =
      (readMember readString (fun _ => value) s).bind fun p =>
        match skipSpace p.2 with
        | ',' :: s => (readMembers value fuel s).map fun (members, s) => (p.1 :: members, s)
        | '\x7d' :: s => some ([p.1], s)
        | _ => none := by
  rw [readMembers]
  simp only [readMember, andThen, expect, mapped]
  cases skipSpace s with
  | nil => rfl
  | cons c r =>
    by_cases hquote : c = '"'
    · subst hquote
      simp only [if_true, Option.bind_some, Option.bind_assoc]
      congr 1
      funext key
      cases skipSpace key.2 with
      | nil => rfl
      | cons d r =>
        by_cases hcolon : d = ':'
        · subst hcolon
          simp only [if_true, Option.bind_some, Option.bind_map]
          rfl
        · simp [hcolon]
    · simp [hquote]

theorem readMembers_eq :
    readMembers value fuel s =
      readSequence (readMember readString fun _ => value) '\x7d' fuel s := by
  induction fuel generalizing s with
  | zero => rfl
  | succ fuel ih =>
    rw [readMembers_succ, readSequence]
    congr 1
    funext p
    cases skipSpace p.2 with
    | nil => rfl
    | cons c r =>
      by_cases hcomma : c = ','
      · subst hcomma
        simp [mapped, ih]
      · by_cases hclose : c = '\x7d'
        · subst hclose
          simp
        · simp [hcomma, hclose]

end

theorem readArray_eq (value : Reader Json) :
    readArray value = mapped Json.array (readBlock value ']') := by
  funext s
  simp only [readArray, mapped, readBlock, readItems_eq]
  split <;> rfl

theorem readObject_eq (value : Reader Json) :
    readObject value =
      mapped Json.object (readBlock (readMember readString fun _ => value) '\x7d') := by
  funext s
  simp only [readObject, mapped, readBlock, readMembers_eq]
  split <;> rfl

theorem readValue_zero : readValue 0 = readNested (fun _ => none) (fun _ => none) readScalar := by
  funext s
  rw [readValue, readNested]
  cases skipSpace s with
  | nil => rfl
  | cons c r =>
    by_cases harray : c = '['
    · simp [harray]
    · by_cases hobject : c = '\x7b' <;> simp [harray, hobject]

theorem readValue_succ (depth : ℕ) :
    readValue (depth + 1) =
      readNested (readArray (readValue depth)) (readObject (readValue depth)) readScalar := by
  funext s
  rw [readValue, readNested]
  cases skipSpace s with
  | nil => rfl
  | cons c r =>
    by_cases harray : c = '['
    · simp [harray]
    · by_cases hobject : c = '\x7b' <;> simp [harray, hobject]

/-- A string after its opening quote, with its own reader of what follows a backslash. -/
def readBody (escape : Reader Char) : ℕ → Reader Text
  | 0, _ => none
  | _ + 1, [] => none
  | fuel + 1, c :: s =>
    if c = '"' then some ([], s)
    else if c = '\\' then andThen escape (fun c => mapped (c :: ·) (readBody escape fuel)) s
    else if c.toNat < 0x20 then none
    else mapped (c :: ·) (readBody escape fuel) s

def readQuoted (escape : Reader Char) : Reader Text := fun s => readBody escape (s.length + 1) s

theorem readStringBody_eq (fuel : ℕ) (s : Text) :
    readStringBody fuel s = readBody readEscape fuel s := by
  induction fuel generalizing s with
  | zero => rfl
  | succ fuel ih =>
    cases s with
    | nil => rfl
    | cons c s =>
      simp only [readStringBody, readBody, andThen, mapped, ih]

theorem readString_eq : readString = readQuoted readEscape := by
  funext s
  exact readStringBody_eq _ s

def Blank (w : Text) : Prop := ∀ c ∈ w, isSpace c = true

theorem space_cases {c : Char} (h : isSpace c = true) :
    c = ' ' ∨ c = '\t' ∨ c = '\n' ∨ c = '\r' := by
  simpa [isSpace, or_assoc] using h

variable {w s r word : Text} {c : Char} {f item : Reader α} {close : Char} {a : α}

theorem skipSpace_of_blank (h : Blank w) : skipSpace w = [] :=
  dropWhile_eq_nil_iff.mpr h

theorem skipSpace_length_le (s : Text) : (skipSpace s).length ≤ s.length :=
  (dropWhile_suffix _).length_le

theorem exists_skipped (s : Text) : ∃ p, s = p ++ skipSpace s :=
  ⟨s.takeWhile isSpace, (takeWhile_append_dropWhile ..).symm⟩

theorem skipSpace_cons (h : skipSpace s = c :: r) :
    ∃ p, s = p ++ c :: r ∧ ∀ r', skipSpace (p ++ c :: r') = c :: r' := by
  refine ⟨s.takeWhile isSpace, ?_, fun r' => ?_⟩
  · rw [← h]
    exact (takeWhile_append_dropWhile ..).symm
  · have hc : ¬ isSpace c = true := by
      have hhead := head?_dropWhile_not isSpace s
      rw [← skipSpace, h] at hhead
      exact Bool.eq_false_iff.mp hhead
    rw [skipSpace, dropWhile_append_of_pos fun d hd => mem_takeWhile_imp hd,
      dropWhile_cons_of_neg hc]

/-- What the reader takes does not depend on the text after it, but for its first character. -/
def Reads (f : Reader α) (s : Text) (a : α) (r p : Text) : Prop :=
  s = p ++ r ∧ ∀ r', r'.head? = r.head? → f (p ++ r') = some (a, r')

def Stable (f : Reader α) : Prop := ∀ s a r, f s = some (a, r) → ∃ p, Reads f s a r p

/-- A stable reader that takes some text. -/
def Lawful (f : Reader α) : Prop := ∀ s a r, f s = some (a, r) → ∃ p, p ≠ [] ∧ Reads f s a r p

theorem Lawful.stable (h : Lawful f) : Stable f := by
  intro s a r hread
  obtain ⟨p, -, hp⟩ := h s a r hread
  exact ⟨p, hp⟩

theorem Lawful.length_lt (h : Lawful f) (hread : f s = some (a, r)) : r.length < s.length := by
  obtain ⟨p, hp, rfl, -⟩ := h s a r hread
  rw [length_append]
  exact Nat.lt_add_of_pos_left (length_pos_iff.mpr hp)

theorem Lawful.nil (h : Lawful f) : f [] = none := by
  cases hf : f [] with
  | none => rfl
  | some x => exact absurd (h.length_lt hf) (Nat.not_lt_zero _)

theorem lawful_of_closed
    (h : ∀ s a r, f s = some (a, r) → ∃ p c, s = p ++ c :: r ∧ ∀ r', f (p ++ c :: r') = some (a, r')) :
    Lawful f := by
  intro s a r hread
  obtain ⟨p, c, rfl, hp⟩ := h s a r hread
  refine ⟨p ++ [c], by simp, by simp, fun r' _ => ?_⟩
  rw [append_assoc]
  exact hp r'

theorem lawful_none : Lawful fun _ : Text => (none : Option (α × Text)) := nofun

theorem stable_pure (a : α) : Stable fun s => some (a, s) := by
  intro s b r h
  cases h
  exact ⟨[], rfl, fun _ _ => rfl⟩

theorem head?_append_congr {p r r' : Text} (h : r'.head? = r.head?) :
    (p ++ r').head? = (p ++ r).head? := by
  cases p with
  | nil => exact h
  | cons d p => rfl

variable {g : α → Reader β}

theorem Reads.andThen {b : β} {r' p q : Text} (hf : Reads f s a r p)
    (hg : Reads (g a) r b r' q) : Reads (andThen f g) s b r' (p ++ q) := by
  obtain ⟨rfl, hf⟩ := hf
  obtain ⟨rfl, hg⟩ := hg
  refine ⟨(append_assoc ..).symm, fun t ht => ?_⟩
  rw [JsonLib.andThen, append_assoc, hf _ (head?_append_congr ht)]
  exact hg t ht

theorem Stable.andThen (hf : Stable f) (hg : ∀ a, Stable (g a)) :
    Stable (andThen f g) := by
  intro s b r h
  obtain ⟨x, hx, hrest⟩ := Option.bind_eq_some_iff.mp h
  obtain ⟨p, hp⟩ := hf s x.1 x.2 hx
  obtain ⟨q, hq⟩ := hg x.1 x.2 b r hrest
  exact ⟨p ++ q, hp.andThen hq⟩

theorem Lawful.andThen_stable (hf : Lawful f) (hg : ∀ a, Stable (g a)) :
    Lawful (andThen f g) := by
  intro s b r h
  obtain ⟨x, hx, hrest⟩ := Option.bind_eq_some_iff.mp h
  obtain ⟨p, hne, hp⟩ := hf s x.1 x.2 hx
  obtain ⟨q, hq⟩ := hg x.1 x.2 b r hrest
  exact ⟨p ++ q, fun hnil => hne (append_eq_nil_iff.mp hnil).1, hp.andThen hq⟩

theorem Lawful.andThen (hf : Lawful f) (hg : ∀ a, Lawful (g a)) :
    Lawful (andThen f g) :=
  hf.andThen_stable fun a => (hg a).stable

theorem Lawful.mapped (hf : Lawful f) (h : α → β) : Lawful (mapped h f) := by
  have heq : JsonLib.mapped h f = JsonLib.andThen f fun a s => some (h a, s) := by
    funext s
    rw [JsonLib.mapped, JsonLib.andThen]
    cases f s <;> rfl
  rw [heq]
  exact hf.andThen_stable fun a => stable_pure (h a)

theorem Lawful.keep (hf : Lawful f) (p : α → Bool) : Lawful (keep p f) := by
  intro s a r h
  obtain ⟨hread, hp⟩ := Option.filter_eq_some_iff.mp h
  obtain ⟨t, hne, hs, ht⟩ := hf s a r hread
  refine ⟨t, hne, hs, fun r' hr => ?_⟩
  rw [JsonLib.keep, ht r' hr, Option.filter_some, if_pos hp]

theorem Lawful.reads_whole {g : Reader α} (hg : Lawful g) (heq : ∀ t, f (c :: t) = g (c :: t))
    (h : g (c :: s) = some (a, r)) : ∃ p, p ≠ [] ∧ Reads f (c :: s) a r p := by
  obtain ⟨p, hp, hs, hreads⟩ := hg _ a r h
  cases p with
  | nil => exact absurd rfl hp
  | cons d p =>
    cases hs
    exact ⟨c :: p, hp, rfl, fun r' hr => (heq _).trans (hreads r' hr)⟩

theorem Stable.reads_rest {g : Reader α} (hg : Stable g) (heq : ∀ t, f (c :: t) = g t)
    (h : g s = some (a, r)) : ∃ p, p ≠ [] ∧ Reads f (c :: s) a r p := by
  obtain ⟨p, rfl, hreads⟩ := hg s a r h
  exact ⟨c :: p, cons_ne_nil _ _, rfl, fun r' hr => (heq _).trans (hreads r' hr)⟩

theorem Lawful.afterSpace (hf : Lawful f) : Lawful fun s => f (skipSpace s) := by
  intro s a r h
  cases hskip : skipSpace s with
  | nil =>
    dsimp only at h
    rw [hskip, hf.nil] at h
    cases h
  | cons c t =>
    obtain ⟨space, rfl, hskips⟩ := skipSpace_cons hskip
    dsimp only at h
    rw [hskip] at h
    obtain ⟨p, hne, ht, hp⟩ := hf _ a r h
    cases p with
    | nil => exact absurd rfl hne
    | cons d p =>
      cases ht
      refine ⟨space ++ c :: p, by simp, by simp, fun r' hr => ?_⟩
      dsimp only
      rw [append_assoc, cons_append, hskips]
      exact hp r' hr

theorem lawful_expect (c : Char) : Lawful (expect c) := by
  refine Lawful.afterSpace (f := fun | [] => none | d :: s => if d = c then some ((), s) else none)
    fun s a r h => ?_
  cases s with
  | nil => cases h
  | cons d s =>
    dsimp only at h
    split_ifs at h with hd
    exact (stable_pure ()).reads_rest (fun _ => if_pos hd) h

theorem Lawful.readMember {key : Reader κ} {value : κ → Reader α} (hkey : Lawful key)
    (hvalue : ∀ k, Lawful (value k)) : Lawful (readMember key value) :=
  (lawful_expect '"').andThen fun _ => hkey.andThen fun k => (lawful_expect ':').andThen fun _ =>
    (hvalue k).mapped fun a => (k, a)

theorem readSequence_closes (h : Lawful item) {fuel : ℕ} {items : List α}
    (hread : readSequence item close fuel s = some (items, r)) :
    ∃ p, s = p ++ close :: r ∧ ∀ r' fuel', p.length < fuel' →
      readSequence item close fuel' (p ++ close :: r') = some (items, r') := by
  induction fuel generalizing s items with
  | zero => cases hread
  | succ fuel ih =>
    rw [readSequence] at hread
    obtain ⟨x, hx, hnext⟩ := Option.bind_eq_some_iff.mp hread
    obtain ⟨p, -, rfl, hp⟩ := h s x.1 x.2 hx
    split at hnext
    · cases hnext
    · next c rest hskip =>
      obtain ⟨space, hspace, hskips⟩ := skipSpace_cons hskip
      rw [hspace] at hp ⊢
      -- the item and the character after it, whatever comes next
      have hitem : ∀ t, item (p ++ (space ++ c :: t)) = some (x.1, space ++ c :: t) := fun t =>
        hp _ (by cases space <;> rfl)
      split_ifs at hnext with hcomma hclose
      · obtain ⟨y, hy, heq⟩ := Option.map_eq_some_iff.mp hnext
        cases heq
        obtain ⟨q, rfl, hq⟩ := ih hy
        subst hcomma
        refine ⟨p ++ space ++ ',' :: q, by simp, fun r' fuel' hfuel => ?_⟩
        obtain ⟨fuel', rfl⟩ := Nat.exists_eq_succ_of_ne_zero (Nat.ne_zero_of_lt hfuel)
        simp only [length_append, length_cons] at hfuel
        simp only [append_assoc, cons_append, readSequence, hitem, Option.bind_some, hskips, mapped,
          if_true, hq r' fuel' (by omega), Option.map_some]
      · cases hnext
        subst hclose
        refine ⟨p ++ space, by simp, fun r' fuel' hfuel => ?_⟩
        obtain ⟨fuel', rfl⟩ := Nat.exists_eq_succ_of_ne_zero (Nat.ne_zero_of_lt hfuel)
        simp only [append_assoc, readSequence, hitem, Option.bind_some, hskips, hcomma, if_false,
          if_true]

theorem head?_skipSpace_append (hc : isSpace c = false) (p r : Text) :
    (skipSpace (p ++ c :: r)).head? = (skipSpace (p ++ [c])).head? := by
  induction p with
  | nil => simp [skipSpace, hc]
  | cons d p ih => by_cases hd : isSpace d = true <;> simp_all [skipSpace]

theorem readBlock_closes (h : Lawful item) (hclose : isSpace close = false) {items : List α}
    (hread : readBlock item close s = some (items, r)) :
    ∃ p, s = p ++ close :: r ∧ ∀ r', readBlock item close (p ++ close :: r') = some (items, r') := by
  rw [readBlock] at hread
  split_ifs at hread with hhead
  · cases hread
    obtain ⟨rest, hrest⟩ := head?_eq_some_iff.mp hhead
    obtain ⟨p, hs, hp⟩ := skipSpace_cons hrest
    refine ⟨p, by rw [hrest]; exact hs, fun r' => ?_⟩
    rw [readBlock, hp r']
    exact if_pos rfl
  · obtain ⟨p, rfl, hp⟩ := readSequence_closes h hread
    refine ⟨p, rfl, fun r' => ?_⟩
    rw [head?_skipSpace_append hclose] at hhead
    rw [readBlock, head?_skipSpace_append hclose, if_neg hhead]
    exact hp r' _ (by simp)

theorem Lawful.readBlock (h : Lawful item) (close : Char) (hclose : isSpace close = false) :
    Lawful (readBlock item close) := by
  refine lawful_of_closed fun s items r hread => ?_
  obtain ⟨p, hp⟩ := readBlock_closes h hclose hread
  exact ⟨p, close, hp⟩

theorem Lawful.readNested {array object scalar : Reader α} (harray : Lawful array)
    (hobject : Lawful object) (hscalar : Lawful scalar) :
    Lawful (readNested array object scalar) := by
  refine Lawful.afterSpace (f := fun
    | [] => none
    | c :: s => if c = '[' then array s else if c = '\x7b' then object s else scalar (c :: s))
    fun s a r h => ?_
  cases s with
  | nil => cases h
  | cons c s =>
    dsimp only at h
    split_ifs at h with h1 h2
    · exact harray.stable.reads_rest (fun _ => if_pos h1) h
    · exact hobject.stable.reads_rest (fun _ => (if_neg h1).trans (if_pos h2)) h
    · exact hscalar.reads_whole (fun _ => (if_neg h1).trans (if_neg h2)) h

theorem lawful_readHex4 : Lawful readHex4 := by
  refine lawful_of_closed fun s n r h => ?_
  unfold readHex4 at h
  split at h
  · next a b c d s =>
    split at h
    · next ha hb hc hd =>
      cases h
      exact ⟨[a, b, c], d, rfl, fun r' => by simp [readHex4, ha, hb, hc, hd]⟩
    · cases h
  · cases h

theorem lawful_readWord (p : Text) (c : Char) (value : Json) :
    Lawful (readWord (p ++ [c]) value) := by
  refine lawful_of_closed fun s a r h => ?_
  rw [readWord] at h
  split_ifs at h with hword
  obtain ⟨rest, rfl⟩ := hword
  cases h
  refine ⟨p, c, by simp, fun r' => ?_⟩
  have heq : p ++ c :: r' = (p ++ [c]) ++ r' := by simp
  rw [readWord, heq, if_pos (prefix_append ..), drop_left]

def pairCode (n m : ℕ) : ℕ := 0x10000 + (n - 0xD800) * 0x400 + (m - 0xDC00)

def readTrail (n : ℕ) : Reader Char :=
  mapped (fun m => Char.ofNat (pairCode n m)) (keep isTrailSurrogate readHex4)

theorem lawful_readTrail (n : ℕ) : Lawful (readTrail n) :=
  (lawful_readHex4.keep isTrailSurrogate).mapped _

theorem readTrail_eq (n : ℕ) (s : Text) :
    readTrail n s =
      match readHex4 s with
      | none => none
      | some (m, s) => if isTrailSurrogate m then some (Char.ofNat (pairCode n m), s) else none := by
  rw [readTrail, mapped, keep]
  cases readHex4 s with
  | none => rfl
  | some x => cases hm : isTrailSurrogate x.1 <;> simp [Option.filter, hm]

theorem readUnicodeEscape_eq :
    readUnicodeEscape = andThen readHex4 fun n =>
      if isTrailSurrogate n then fun _ => none
      else if isLeadSurrogate n then andThen (readWord (['\\'] ++ ['u']) .null) fun _ => readTrail n
      else fun s => some (Char.ofNat n, s) := by
  funext s
  rw [readUnicodeEscape, andThen]
  cases readHex4 s with
  | none => rfl
  | some x =>
    obtain ⟨n, r⟩ := x
    rw [Option.bind_some]
    dsimp only
    split_ifs
    · rfl
    · rw [andThen, readWord]
      by_cases hprefix : ['\\'] ++ ['u'] <+: r
      · obtain ⟨rest, rfl⟩ := hprefix
        rw [if_pos (prefix_append ..)]
        exact (readTrail_eq n rest).symm
      · rw [if_neg hprefix]
        split
        · exact absurd (prefix_append ['\\', 'u'] _) hprefix
        · rfl
    · rfl

theorem lawful_readUnicodeEscape : Lawful readUnicodeEscape := by
  rw [readUnicodeEscape_eq]
  refine lawful_readHex4.andThen_stable fun n => ?_
  split_ifs
  · exact lawful_none.stable
  · exact ((lawful_readWord ['\\'] 'u' .null).andThen fun _ => lawful_readTrail n).stable
  · exact stable_pure _

theorem lawful_readEscape : Lawful readEscape := by
  intro s c r h
  unfold readEscape at h
  split at h
  case h_9 => exact lawful_readUnicodeEscape.stable.reads_rest (fun _ => rfl) h
  case h_10 => cases h
  all_goals exact (stable_pure _).reads_rest (fun _ => rfl) h

theorem readBody_closes {escape : Reader Char} (h : Lawful escape) {fuel : ℕ} {t : Text}
    (hread : readBody escape fuel s = some (t, r)) :
    ∃ p, s = p ++ '"' :: r ∧ ∀ r' fuel', p.length < fuel' →
      readBody escape fuel' (p ++ '"' :: r') = some (t, r') := by
  induction fuel generalizing s t with
  | zero => cases hread
  | succ fuel ih =>
    cases s with
    | nil => cases hread
    | cons c s =>
      rw [readBody] at hread
      split_ifs at hread with hquote hescape hcontrol
      · cases hread
        refine ⟨[], by rw [hquote]; rfl, fun r' fuel' hfuel => ?_⟩
        obtain ⟨fuel', rfl⟩ := Nat.exists_eq_succ_of_ne_zero (Nat.ne_zero_of_lt hfuel)
        rfl
      · obtain ⟨x, hx, hrest⟩ := Option.bind_eq_some_iff.mp hread
        obtain ⟨y, hy, heq⟩ := Option.map_eq_some_iff.mp hrest
        cases heq
        obtain ⟨p, -, rfl, hp⟩ := h s x.1 x.2 hx
        obtain ⟨q, hq, hreads⟩ := ih hy
        subst hescape
        refine ⟨'\\' :: p ++ q, by rw [hq]; simp, fun r' fuel' hfuel => ?_⟩
        obtain ⟨fuel', rfl⟩ := Nat.exists_eq_succ_of_ne_zero (Nat.ne_zero_of_lt hfuel)
        simp only [length_append, length_cons] at hfuel
        have hnext : escape (p ++ (q ++ '"' :: r')) = some (x.1, q ++ '"' :: r') :=
          hp _ (by rw [hq]; cases q <;> rfl)
        simp only [cons_append, append_assoc, readBody, hquote, if_false, if_true, andThen,
          hnext, Option.bind_some, mapped, hreads r' fuel' (by omega), Option.map_some]
      · obtain ⟨y, hy, heq⟩ := Option.map_eq_some_iff.mp hread
        cases heq
        obtain ⟨q, rfl, hreads⟩ := ih hy
        refine ⟨c :: q, rfl, fun r' fuel' hfuel => ?_⟩
        obtain ⟨fuel', rfl⟩ := Nat.exists_eq_succ_of_ne_zero (Nat.ne_zero_of_lt hfuel)
        rw [length_cons] at hfuel
        simp only [cons_append, readBody, hquote, hescape, hcontrol, if_false, mapped,
          hreads r' fuel' (by omega), Option.map_some]

theorem Lawful.readQuoted {escape : Reader Char} (h : Lawful escape) :
    Lawful (readQuoted escape) := by
  refine lawful_of_closed fun s t r hread => ?_
  obtain ⟨p, rfl, hp⟩ := readBody_closes h hread
  exact ⟨p, '"', rfl, fun r' => hp r' _ (by rw [length_append]; omega)⟩

theorem lawful_readString : Lawful readString := by
  rw [readString_eq]
  exact lawful_readEscape.readQuoted

def readRun : Reader Text := fun s =>
  if s.takeWhile Char.isDigit = [] then none
  else some (s.takeWhile Char.isDigit, s.dropWhile Char.isDigit)

theorem lawful_readRun : Lawful readRun := by
  intro s digits r h
  rw [readRun] at h
  split_ifs at h with hnil
  cases h
  refine ⟨s.takeWhile Char.isDigit, hnil, (takeWhile_append_dropWhile ..).symm, fun r' hr => ?_⟩
  have hdigits : ∀ c ∈ s.takeWhile Char.isDigit, c.isDigit = true := fun c hc =>
    mem_takeWhile_imp hc
  have hend := head?_dropWhile_not Char.isDigit s
  rw [← hr] at hend
  rw [readRun, takeWhile_append_of_pos hdigits, dropWhile_append_of_pos hdigits]
  cases r' with
  | nil =>
    rw [takeWhile_nil, append_nil, if_neg hnil]
    rfl
  | cons c r' =>
    have hc : ¬ c.isDigit = true := Bool.eq_false_iff.mp hend
    rw [takeWhile_cons_of_neg hc, dropWhile_cons_of_neg hc, append_nil, if_neg hnil]

theorem stable_readFraction : Stable readFraction := by
  intro s digits r h
  rw [readFraction] at h
  split_ifs at h with hdot
  · obtain ⟨s, rfl⟩ := head?_eq_some_iff.mp hdot
    obtain ⟨p, -, hp⟩ := lawful_readRun.stable.reads_rest (f := readFraction) (fun _ => if_pos rfl) h
    exact ⟨p, hp⟩
  · cases h
    refine ⟨[], rfl, fun r' hr => ?_⟩
    rw [readFraction, nil_append, hr, if_neg hdot]

def readExponentDigits (s : Text) : Option (Option ℤ × Text) :=
  let negative := s.head? = some '-'
  let s := if s.head? = some '-' ∨ s.head? = some '+' then s.tail else s
  let digits := s.takeWhile Char.isDigit
  if digits = [] then none
  else
    let n : ℤ := Nat.ofDigitChars 10 digits 0
    some (some (if negative then -n else n), s.dropWhile Char.isDigit)

theorem readExponentDigits_cons (c : Char) (s : Text) :
    readExponentDigits (c :: s) =
      mapped (fun digits => some (if c = '-' then -(Nat.ofDigitChars 10 digits 0 : ℤ)
        else Nat.ofDigitChars 10 digits 0)) readRun (if c = '-' ∨ c = '+' then s else c :: s) := by
  simp only [readExponentDigits, head?_cons, Option.some.injEq, tail_cons, mapped, readRun]
  generalize (if c = '-' ∨ c = '+' then s else c :: s) = t
  by_cases hnil : t.takeWhile Char.isDigit = [] <;> simp [hnil]

theorem lawful_readExponentDigits : Lawful readExponentDigits := by
  intro s e r h
  cases s with
  | nil => cases h
  | cons c s =>
    have hall := readExponentDigits_cons c
    rw [hall] at h
    by_cases hsign : c = '-' ∨ c = '+'
    · simp only [if_pos hsign] at h hall
      exact (lawful_readRun.mapped _).stable.reads_rest hall h
    · simp only [if_neg hsign] at h hall
      exact (lawful_readRun.mapped _).reads_whole hall h

theorem readExponent_eq (s : Text) :
    readExponent s =
      if s.head? = some 'e' ∨ s.head? = some 'E' then readExponentDigits s.tail
      else some (none, s) :=
  rfl

theorem stable_readExponent : Stable readExponent := by
  intro s e r h
  rw [readExponent_eq] at h
  split_ifs at h with hmark
  · cases s with
    | nil => simp at hmark
    | cons c s =>
      obtain ⟨p, -, hp⟩ := lawful_readExponentDigits.stable.reads_rest (f := readExponent) (c := c)
        (fun _ => if_pos hmark) h
      exact ⟨p, hp⟩
  · cases h
    refine ⟨[], rfl, fun r' hr => ?_⟩
    rw [readExponent_eq, nil_append, hr, if_neg hmark]

/-- The digits before the point, and then the fraction and the exponent. -/
def readDigits (number : Text → Text → Option ℤ → Option α) : Reader α := fun s =>
  let whole := s.takeWhile Char.isDigit
  if whole = [] ∨ (whole.head? = some '0' ∧ whole ≠ ['0']) then none
  else
    (readFraction (s.dropWhile Char.isDigit)).bind fun p =>
      (readExponent p.2).bind fun q => (number whole p.1 q.1).map fun n => (n, q.2)

theorem readDigits_eq (number : Text → Text → Option ℤ → Option α) :
    readDigits number =
      andThen (keep (fun whole => whole.head? ≠ some '0' ∨ whole = ['0']) readRun) fun whole =>
        andThen readFraction fun fraction => andThen readExponent fun exponent t =>
          (number whole fraction exponent).map fun n => (n, t) := by
  funext s
  rw [readDigits, andThen, keep, readRun]
  by_cases hnil : s.takeWhile Char.isDigit = []
  · rw [if_pos (.inl hnil), if_pos hnil]
    rfl
  · rw [if_neg hnil, Option.filter_some]
    by_cases hzero : (s.takeWhile Char.isDigit).head? ≠ some '0' ∨ s.takeWhile Char.isDigit = ['0']
    · rw [if_neg (by tauto), if_pos (decide_eq_true hzero)]
      rfl
    · rw [if_pos (by tauto), if_neg (by simpa using hzero)]
      rfl

theorem lawful_readDigits (number : Text → Text → Option ℤ → Option α) :
    Lawful (readDigits number) := by
  rw [readDigits_eq]
  refine (lawful_readRun.keep _).andThen_stable fun whole => stable_readFraction.andThen
    fun fraction => stable_readExponent.andThen fun exponent => ?_
  cases number whole fraction exponent with
  | none => exact lawful_none.stable
  | some n => exact stable_pure n

theorem readNumeral_eq (negative : Bool) :
    readNumeral negative =
      readDigits fun whole fraction exponent =>
        if fraction = [] ∧ exponent = none then
          readInteger negative (Nat.ofDigitChars 10 whole 0)
        else
          readReal negative (Nat.ofDigitChars 10 (whole ++ fraction) 0)
            (exponent.getD 0 - fraction.length) := by
  funext s
  rfl

theorem lawful_readNumeral (negative : Bool) : Lawful (readNumeral negative) := by
  rw [readNumeral_eq]
  exact lawful_readDigits _

theorem readScalar_cons (c : Char) (s : Text) :
    readScalar (c :: s) =
      if c = 'n' then readWord "null" .null (c :: s)
      else if c = 't' then readWord "true" (.bool true) (c :: s)
      else if c = 'f' then readWord "false" (.bool false) (c :: s)
      else if c = '"' then mapped .string readString s
      else if c = '-' then mapped .number (readNumeral true) s
      else if c.isDigit then mapped .number (readNumeral false) (c :: s)
      else none :=
  rfl

theorem lawful_readScalar : Lawful readScalar := by
  intro s a r h
  cases s with
  | nil => cases h
  | cons c s =>
    have hall := fun t => readScalar_cons c t
    rw [readScalar_cons] at h
    split_ifs at h hall
    · exact (lawful_readWord ['n', 'u', 'l'] 'l' _).reads_whole hall h
    · exact (lawful_readWord ['t', 'r', 'u'] 'e' _).reads_whole hall h
    · exact (lawful_readWord ['f', 'a', 'l', 's'] 'e' _).reads_whole hall h
    · exact (lawful_readString.mapped _).stable.reads_rest hall h
    · exact ((lawful_readNumeral true).mapped _).stable.reads_rest hall h
    · exact ((lawful_readNumeral false).mapped _).reads_whole hall h

theorem lawful_readValue (depth : ℕ) : Lawful (readValue depth) := by
  induction depth with
  | zero =>
    rw [readValue_zero]
    exact lawful_none.readNested lawful_none lawful_readScalar
  | succ depth ih =>
    rw [readValue_succ, readArray_eq, readObject_eq]
    exact ((ih.readBlock ']' rfl).mapped _).readNested
      (((lawful_readString.readMember fun _ => ih).readBlock '\x7d' rfl).mapped _) lawful_readScalar

end JsonLib
