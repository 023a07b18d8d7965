import BridgeMcp.Mcp.Message

/-!
The text of a message and its two readers. The HTTP transport reads a body as a JSON value before it
reads it as a message.
-/
namespace BridgeMcp.Mcp
open JsonLib TextLib List Option

theorem lawful_readErrorField (name : Text) : Lawful (readErrorField name) := by
  rw [readErrorField]
  split_ifs
  · exact (lawful_readValue _).keep _
  · exact (lawful_readValue _).keep _
  · exact lawful_readValue _
  · exact lawful_skipValue.mapped _

theorem lawful_readErrorData : Lawful readErrorData := by
  have harray := (((lawful_readValue (valueDepth - 1)).readBlock ']' rfl).keep
    isErrorSequence).mapped fun _ => Json.null
  have hobject := (((lawful_readString.readMember lawful_readErrorField).readBlock '\x7d' rfl).keep
    fun members => distinctFields errorDataFields members &&
      hasFields ["code", "message"] members).mapped fun _ => Json.null
  exact harray.readNested hobject (lawful_readScalar.keep _)

theorem lawful_readField (name : Text) : Lawful (readField name) := by
  rw [readField]
  split_ifs
  · exact (lawful_readValue _).keep _
  · exact lawful_readValue _
  · exact (lawful_readValue _).keep _
  · exact lawful_readErrorData
  · exact lawful_skipValue.mapped _

theorem lawful_readMembers : Lawful (readMember readString readField) :=
  lawful_readString.readMember lawful_readField

variable {w s r rest name t : Text}

theorem expect_eq_some {c : Char} {a : Unit} (h : expect c s = some (a, r)) :
    skipSpace s = c :: r := by
  rw [expect] at h
  split at h
  · cases h
  · next d rest hrest =>
      split_ifs at h with hd
      cases h
      rw [hrest, hd]

variable {members : List (Text × Json)}

theorem readMessage_eq_some (h : readMessage s = some (members, r)) :
    ∃ rest, skipSpace s = '\x7b' :: rest ∧
      readBlock (readMember readString readField) '\x7d' rest = some (members, r) := by
  obtain ⟨x, hx, hblock⟩ := bind_eq_some_iff.mp h
  exact ⟨x.2, expect_eq_some hx, hblock⟩

variable {value body : Json}

theorem readValue_object (hs : skipSpace s = '\x7b' :: rest)
    (h : readValue maxDepth s = some (value, r)) :
    ∃ members, value = .object members ∧
      readBlock (readMember readString fun _ => readValue valueDepth) '\x7d' rest =
        some (members, r) := by
  rw [maxDepth, readValue_succ, readNested, hs, readObject_eq] at h
  obtain ⟨x, hx, heq⟩ := map_eq_some_iff.mp h
  cases heq
  exact ⟨x.1, rfl, hx⟩

theorem agree_readErrorField (name : Text) :
    Agree (fun _ _ => True) (readValue (valueDepth - 1)) (readErrorField name) := by
  have hsame : Agree (fun _ _ => True) (readValue (valueDepth - 1)) (readValue (valueDepth - 1)) :=
    (agree_refl _).imp fun _ _ _ => trivial
  rw [readErrorField]
  split_ifs
  · exact hsame.keep_right _
  · exact hsame.keep_right _
  · exact hsame
  · exact (agree_skipValue _).mapped_right fun _ _ _ => trivial

theorem agree_readErrorData : Agree (fun _ _ => True) (readValue valueDepth) readErrorData := by
  have hdepth : valueDepth = valueDepth - 1 + 1 := rfl
  have hitems := ((agree_refl (readValue (valueDepth - 1))).readBlock ']').keep_right
    isErrorSequence
  have hmembers := (((agree_refl readString).readMember (V := fun _ _ _ => True)
    fun _ name _ => agree_readErrorField name).readBlock '\x7d').keep_right
    fun members => distinctFields errorDataFields members &&
      hasFields ["code", "message"] members
  have hscalar := ((agree_refl readScalar).keep_right isNull).imp
    (S := fun _ _ => True) fun _ _ _ => trivial
  rw [hdepth, readValue_succ, readArray_eq, readObject_eq]
  exact (hitems.mapped fun _ _ _ => trivial).readNested (hmembers.mapped fun _ _ _ => trivial)
    hscalar

/-- The fields whose values a message keeps as they are. -/
def keptFields : List Text := ["jsonrpc", "id", "method", "params"]

theorem agree_readField (name : Text) :
    Agree (fun value field => name ∈ keptFields → value = field) (readValue valueDepth)
      (readField name) := by
  have hsame : Agree (fun value field => name ∈ keptFields → value = field) (readValue valueDepth)
      (readValue valueDepth) := (agree_refl _).imp fun _ _ h _ => h
  rw [readField]
  split_ifs with hjsonrpc hvalue hmethod herror
  · exact hsame.keep_right _
  · exact hsame
  · exact hsame.keep_right _
  · refine agree_readErrorData.imp fun _ _ _ hname => ?_
    rw [herror] at hname
    exact absurd hname (by decide)
  · refine (agree_skipValue _).mapped_right fun _ _ _ hname => ?_
    simp only [keptFields, mem_cons, not_mem_nil, or_false] at hname
    tauto

theorem lookup_of_forall₂ {members' : List (Text × Json)}
    (h : List.Forall₂ (fun m m' => m.1 = m'.1 ∧ (m.1 = name → m.2 = m'.2)) members members') :
    members.lookup name = members'.lookup name := by
  induction h with
  | nil => rfl
  | @cons m m' _ _ hm _ ih =>
    obtain ⟨key, value⟩ := m
    obtain ⟨key', value'⟩ := m'
    obtain ⟨rfl, hvalue⟩ := hm
    by_cases hname : name = key
    · obtain rfl := hvalue hname.symm
      rw [lookup_cons, lookup_cons, ih]
    · rw [lookup_cons, lookup_cons, beq_false_of_ne hname, ih]

theorem get_eq_of_read {r' : Text} (hvalue : readValue maxDepth s = some (value, r))
    (hmessage : readMessage s = some (members, r')) (hname : name ∈ keptFields) :
    value.get name = (Json.object members).get name := by
  obtain ⟨rest, hs, hblock'⟩ := readMessage_eq_some hmessage
  obtain ⟨all, rfl, hblock⟩ := readValue_object hs hvalue
  have hmember : ∀ key key', key = key' →
      Agree (fun value field => key ∈ keptFields → value = field) (readValue valueDepth)
        (readField key') := by
    rintro key _ rfl
    exact agree_readField key
  have hagree := ((agree_refl readString).readMember
    (V := fun key value field => key ∈ keptFields → value = field) hmember).readBlock '\x7d'
  obtain ⟨-, hall⟩ := hagree rest all r members r' hblock hblock'
  rw [Json.get, Json.get]
  refine lookup_of_forall₂ (forall₂_reverse_iff.mpr (hall.imp fun m m' hm => ⟨hm.1, ?_⟩))
  rintro rfl
  exact hm.2 hname

theorem parse_eq_some (h : parse s = some value) :
    ∃ r, readValue maxDepth s = some (value, r) ∧ Blank r := by
  obtain ⟨⟨value', r⟩, hx, hrest⟩ := bind_eq_some_iff.mp h
  dsimp only at hrest
  split_ifs at hrest with hnil
  obtain rfl := some.inj hrest
  exact ⟨r, hx, dropWhile_eq_nil_iff.mp hnil⟩

variable {m : JsonRpcMessage}

theorem messageFromStr_eq_some :
    messageFromStr s = some m ↔
      ∃ members r, readMessage s = some (members, r) ∧ Blank r ∧ messageOf members = some m := by
  constructor
  · intro h
    obtain ⟨x, hx, hrest⟩ := bind_eq_some_iff.mp h
    split_ifs at hrest with hnil
    exact ⟨x.1, x.2, hx, dropWhile_eq_nil_iff.mp hnil, hrest⟩
  · rintro ⟨members, r, hread, hr, hm⟩
    rw [messageFromStr, hread, bind_some, skipSpace_of_blank hr, if_pos rfl, hm]

theorem exists_members (hbody : parse s = some body) (hm : messageFromStr s = some m) :
    ∃ members, body = .object members := by
  obtain ⟨r, hvalue, -⟩ := parse_eq_some hbody
  obtain ⟨members, r', hmessage, -, -⟩ := messageFromStr_eq_some.mp hm
  obtain ⟨rest, hs, -⟩ := readMessage_eq_some hmessage
  obtain ⟨all, hall, -⟩ := readValue_object hs hvalue
  exact ⟨all, hall⟩

/-- A message says what the JSON value of its text says. -/
theorem message_of_body (hbody : parse s = some body) (hm : messageFromStr s = some m) :
    m.method = (body.get "method").bind Json.asStr ∧
      m.id = (body.get "id").bind nonNull ∧
      m.params = (body.get "params").bind nonNull := by
  obtain ⟨r, hvalue, -⟩ := parse_eq_some hbody
  obtain ⟨members, r', hmessage, -, hm⟩ := messageFromStr_eq_some.mp hm
  rw [messageOf] at hm
  split_ifs at hm
  obtain ⟨jsonrpc, -, rfl⟩ := map_eq_some_iff.mp hm
  have hget {name : Text} (hname : name ∈ keptFields) :
      body.get name = (Json.object members).get name := get_eq_of_read hvalue hmessage hname
  refine ⟨?_, ?_, ?_⟩
  · rw [hget (by simp [keptFields])]
  · rw [hget (by simp [keptFields])]
  · rw [hget (by simp [keptFields])]

theorem isWhitespace_of_isSpace {c : Char} (h : isSpace c = true) : isWhitespace c = true := by
  obtain rfl | rfl | rfl | rfl := space_cases h <;> rfl

theorem readScalar_white {c : Char} (h : isWhitespace c = true) (s : Text) :
    readScalar (c :: s) = none := by
  have hne {d : Char} (hd : isWhitespace d = false) : c ≠ d := by
    rintro rfl
    exact Bool.false_ne_true (hd.symm.trans h)
  have hdigit : c.isDigit = false := by
    by_contra hdigit
    rw [Bool.not_eq_false, isDigit_iff] at hdigit
    simp only [isWhitespace, Bool.or_eq_true, Bool.and_eq_true, decide_eq_true_eq, beq_iff_eq] at h
    omega
  rw [readScalar_cons, if_neg (hne rfl), if_neg (hne rfl), if_neg (hne rfl), if_neg (hne rfl),
    if_neg (hne rfl), hdigit, if_neg Bool.false_ne_true]

theorem trimStart_of_read (h : readValue maxDepth s = some (value, r)) :
    trimStart s = skipSpace s := by
  rw [maxDepth, readValue_succ, readNested] at h
  cases hskip : skipSpace s with
  | nil =>
    rw [hskip] at h
    cases h
  | cons c rest =>
    rw [hskip] at h
    dsimp only at h
    have hc : ¬ isWhitespace c = true := by
      intro hwhite
      split_ifs at h with harray hobject
      · rw [harray] at hwhite
        cases hwhite
      · rw [hobject] at hwhite
        cases hwhite
      · rw [readScalar_white hwhite] at h
        cases h
    have hs : s = s.takeWhile isSpace ++ c :: rest := by
      rw [← hskip]
      exact (takeWhile_append_dropWhile ..).symm
    have hlead : ∀ d ∈ s.takeWhile isSpace, isWhitespace d = true := fun d hd =>
      isWhitespace_of_isSpace (mem_takeWhile_imp hd)
    rw [trimStart, hs, dropWhile_append_of_pos hlead, dropWhile_cons_of_neg hc]

theorem parse_trimStart (h : parse t = some body) :
    parse (trimStart t) = some body := by
  obtain ⟨r, hread, -⟩ := parse_eq_some h
  have hskip : skipSpace (skipSpace t) = skipSpace t := dropWhile_idempotent _ _
  have hsame : readValue maxDepth (skipSpace t) = readValue maxDepth t := by
    rw [maxDepth, readValue_succ, readNested, readNested, hskip]
  rw [trimStart_of_read hread, ← h, parse, parse, hsame]

theorem trimStart_eq_append {p : Text} (h : trimStart t = p ++ '\x7d' :: w) (hw : Blank w) :
    trimStart t = trim t ++ w ∧ trim t = p ++ ['\x7d'] := by
  have hwhite : ∀ c ∈ w, isWhitespace c = true := fun c hc => isWhitespace_of_isSpace (hw c hc)
  have hsplit : trimStart t = (p ++ ['\x7d']) ++ w := by rw [h, append_assoc]; rfl
  have htrim : trim t = p ++ ['\x7d'] := by
    rw [trim, ← trimStart, hsplit, trimEnd_append _ hwhite, trimEnd,
      rdropWhile_concat_neg _ _ _ (by decide)]
  exact ⟨by rw [hsplit, htrim], htrim⟩

/-- What follows the closing brace is not looked at. -/
theorem readMessage_closes {members : List (Text × Json)} (h : readMessage s = some (members, r)) :
    ∃ p, s = p ++ '\x7d' :: r ∧ ∀ r', readMessage (p ++ '\x7d' :: r') = some (members, r') := by
  obtain ⟨rest, hs, hblock⟩ := readMessage_eq_some h
  obtain ⟨lead, rfl, hlead⟩ := skipSpace_cons hs
  obtain ⟨p, rfl, hp⟩ := readBlock_closes lawful_readMembers rfl hblock
  refine ⟨lead ++ '\x7b' :: p, by simp, fun r' => ?_⟩
  rw [readMessage, andThen, append_assoc, cons_append, expect, hlead]
  exact hp r'

theorem exists_close_of_object (h : parse s = some body) (hs : skipSpace s = '\x7b' :: rest) :
    ∃ p w, s = p ++ '\x7d' :: w ∧ Blank w := by
  obtain ⟨r, hread, hr⟩ := parse_eq_some h
  obtain ⟨members, -, hblock⟩ := readValue_object hs hread
  obtain ⟨lead, hlead⟩ := exists_skipped s
  obtain ⟨p, rfl, -⟩ := readBlock_closes
    (lawful_readString.readMember fun _ => lawful_readValue _) rfl hblock
  exact ⟨lead ++ '\x7b' :: p, r, by rw [hlead, hs]; simp, hr⟩

theorem skipSpace_trim (t : Text) : trim t = skipSpace (trim t) := by
  have hstart := trimStart_trim t
  cases htrim : trim t with
  | nil => rfl
  | cons c r =>
    rw [htrim, trimStart, dropWhile_eq_self_iff] at hstart
    have hc : isSpace c = false := by
      by_contra hspace
      exact hstart (by simp) (isWhitespace_of_isSpace (Bool.of_not_eq_false hspace))
    exact (skipSpace_of_head hc r).symm

/-- White space behind a body does not matter. -/
theorem messageFromStr_trim (hbody : parse t = some body) (m : JsonRpcMessage) :
    messageFromStr (trim t) = some m ↔ messageFromStr (trimStart t) = some m := by
  constructor
  · intro hm
    obtain ⟨members, r, hread, hr, hmembers⟩ := messageFromStr_eq_some.mp hm
    obtain ⟨rest, hs, -⟩ := readMessage_eq_some hread
    -- Nothing white is left in front, so the brace is the first character.
    have hopen : trim t = '\x7b' :: rest := by
      rw [← hs]
      exact skipSpace_trim t
    obtain ⟨after, hafter⟩ : trim t <+: trimStart t := rdropWhile_prefix _ _
    have hskip : skipSpace (trimStart t) = '\x7b' :: (rest ++ after) := by
      rw [← hafter, hopen]
      rfl
    obtain ⟨q, w, hclose, hw⟩ := exists_close_of_object (parse_trimStart hbody) hskip
    obtain ⟨p, hp, hreads⟩ := readMessage_closes hread
    refine messageFromStr_eq_some.mpr ⟨members, r ++ w, ?_, ?_, hmembers⟩
    · rw [(trimStart_eq_append hclose hw).1, hp, append_assoc]
      exact hreads (r ++ w)
    · exact fun c hc => (mem_append.mp hc).elim (hr c) (hw c)
  · intro hm
    obtain ⟨members, r, hread, hr, hmembers⟩ := messageFromStr_eq_some.mp hm
    obtain ⟨p, hp, hreads⟩ := readMessage_closes hread
    refine messageFromStr_eq_some.mpr ⟨members, [], ?_, nofun, hmembers⟩
    rw [(trimStart_eq_append hp hr).2]
    exact hreads []

end BridgeMcp.Mcp
