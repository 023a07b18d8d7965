import BridgeMcp.Lib.JsonText
import BridgeMcp.Session.ExecOutput
import BridgeMcp.Shell.Hosts
import BridgeMcp.Shell.Lexer

/-!
The two builders that send data in a here-document: a template applied to a file
(`domain/use_cases/templates.rs`) and a secret written to Vault (`domain/use_cases/vault.rs`).
-/
namespace BridgeMcp.HereDocs
open CheckLib TextLib LineLib JsonLib Shell Session List

def simple (id : Uuid) : Text := id.text.filter (· ≠ '-')

/-- A command text up to the quoted delimiter of its here-document, the body without its last line
feed, and the delimiter's line. -/
def withHereDoc (front delimiter content : Text) : Text :=
  front ++ ('\'' :: delimiter ++ "'\n" ++ (content ++ ['\n'] ++ delimiter))

def templateTerminator (id : Uuid) : Text := "MCP_EOF_" ++ simple id

/-- The loop, over the UUIDs it draws. Without a result it draws on. -/
def chooseTerminator (content : Text) (draws : List Uuid) : Option Text :=
  (draws.map templateTerminator).find? fun candidate => !(lines content).contains candidate

def backupText (dest : Text) : Text :=
  "if [ -e " ++ (escape dest .posix ++ (" ]; then cp -p -- " ++
    (escape dest .posix ++ (" " ++ (escape dest .posix ++
      ".bak || \x7b echo 'backup failed' >&2; exit 1; \x7d; fi; ")))))

def buildTemplateApplyCommand (content dest : Text) (backup : Bool) (draws : List Uuid) :
    Option Text :=
  (chooseTerminator content draws).map fun terminator =>
    (if backup then backupText dest else []) ++
      withHereDoc ("cat > " ++ escape dest .posix ++ " << ") terminator content

/-- The characters of `validate_vault_path`, over `char::is_alphanumeric`. -/
def validateVaultPath (isAlphanumeric : Char → Bool) (path : Text) : Except CommandDenied Unit :=
  if path.isEmpty then .error ⟨"Vault path cannot be empty"⟩
  else if (path.splitOn '/').contains ".." then
    .error ⟨"Path traversal ('..') is not allowed in Vault paths"⟩
  else if !path.all fun c => isAlphanumeric c || ['/', '-', '_', '.'].contains c then
    .error ⟨"Invalid Vault path '" ++ path ++ "': must contain only alphanumeric " ++
      "characters, slashes, hyphens, underscores, or dots"⟩
  else .ok ()

def addEntry (object : List (Text × Text)) (position : ℕ) (entry : Text) :
    Except CommandDenied (List (Text × Text)) :=
  match splitFirst ['='] entry with
  | none =>
    .error ⟨"'data' entry " ++ Nat.toDigits 10 position ++
      " is not a key=value pair (no '=')"⟩
  | some (key, value) =>
    if key.isEmpty then
      .error ⟨"'data' entry " ++ Nat.toDigits 10 position ++ " has an empty key"⟩
    else if (object.lookup key).isSome then
      .error ⟨"'data' repeats the key '" ++ key ++ "' (entry " ++
        Nat.toDigits 10 position ++ ")"⟩
    else .ok (object.orderedInsert (fun a b => a.1 ≤ b.1) (key, value))

def addEntries (object : List (Text × Text)) (position : ℕ) :
    List Text → Except CommandDenied (List (Text × Text))
  | [] => .ok object
  | entry :: data => do
      let object ← addEntry object position entry
      addEntries object (position + 1) data

def stringObject (object : List (Text × Text)) : Text :=
  objectText (object.map fun member => (member.1, encodeString member.2))

def dataToJson (data : List Text) : Except CommandDenied Text :=
  if data.isEmpty then .error ⟨"'data' needs at least one key=value entry"⟩
  else (addEntries [] 1 data).map stringObject

def vaultTerminator (id : Uuid) : Text := "VAULT_DATA_EOF_" ++ simple id

def validateWriteArgs (isAlphanumeric : Char → Bool) (path : Text) (data : List Text) :
    Except CommandDenied Unit := do
  validateVaultPath isAlphanumeric path
  let _ ← dataToJson data

def buildWriteCommand (isAlphanumeric : Char → Bool) (path : Text) (data : List Text)
    (mount : Option Text) (draw : Uuid) : Except CommandDenied Text := do
  validateWriteArgs isAlphanumeric path data
  let body ← dataToJson data
  return withHereDoc
    ("vault kv put".toList ++ ((mount.elim [] fun m => " -mount=".toList ++ escape m .posix) ++
      (" -- ".toList ++ (escape path .posix ++ " - <<".toList))))
    (vaultTerminator draw) body

/-- The text has exactly one here-document, with this body, and ends with its terminator. -/
def OneHereDoc (cmd body : Text) : Prop :=
  ∃ front delimiter, lexFrom .start cmd = some ⟨front, .body delimiter body delimiter, false, []⟩ ∧
    Shell.lex cmd = some (front.reverse ++ [.hereDoc body]) ∧ ∀ b, .hereDoc b ∉ front

theorem simple_chars (id : Uuid) {c : Char} (hc : c ∈ simple id) :
    c ≠ '\'' ∧ c ≠ '\n' ∧ c ≠ '\r' := by
  have hall := (Bool.and_eq_true_iff.mp id.hyphenated).2
  have hchar := all_eq_true.mp hall c (mem_filter.mp hc).1
  refine ⟨?_, ?_, ?_⟩ <;> rintro rfl <;> exact absurd hchar (by decide)

structure PlainDelimiter (delimiter : Text) : Prop where
  quote : '\'' ∉ delimiter
  lineFeed : '\n' ∉ delimiter
  carriageReturn : '\r' ∉ delimiter
  nonempty : delimiter ≠ []

theorem plainDelimiter_append {start : Text} (hstart : start.all (fun c => c.isUpper || c == '_') = true)
    (hne : start ≠ []) (id : Uuid) : PlainDelimiter (start ++ simple id) := by
  have hchars : ∀ c ∈ start ++ simple id, c ≠ '\'' ∧ c ≠ '\n' ∧ c ≠ '\r' := by
    intro c hc
    rcases mem_append.mp hc with hc | hc
    · have hupper := all_eq_true.mp hstart c hc
      refine ⟨?_, ?_, ?_⟩ <;> rintro rfl <;> exact absurd hupper (by decide)
    · exact simple_chars id hc
  exact ⟨fun hc => (hchars _ hc).1 rfl, fun hc => (hchars _ hc).2.1 rfl,
    fun hc => (hchars _ hc).2.2 rfl, by simp [hne]⟩

section Document
variable {st : Lexing} {out : List Lexeme} {delimiter content : Text}

theorem lexFrom_hereDoc
    (hst : lexFrom st (escape delimiter .posix) = some ⟨out, .word delimiter false, true, []⟩)
    (hplain : PlainDelimiter delimiter) (hfree : delimiter ∉ content.splitOn '\n') :
    lexFrom st ('\'' :: delimiter ++ "'\n" ++ (content ++ ['\n'] ++ delimiter)) =
      some ⟨.newline :: .word delimiter :: out, .body delimiter (content ++ ['\n']) delimiter,
        false, []⟩ := by
  have htext : '\'' :: delimiter ++ "'\n" ++ (content ++ ['\n'] ++ delimiter) =
      escape delimiter .posix ++ (['\n'] ++ (content ++ ['\n'] ++ delimiter)) := by
    rw [escape_of_notMem hplain.quote]
    simp
  have hfeed : lexFrom ⟨out, .word delimiter false, true, []⟩ ['\n'] =
      some ⟨.newline :: .word delimiter :: out, .body delimiter [] [], false, []⟩ := rfl
  rw [htext, lexFrom_then hst, lexFrom_then hfeed, lexFrom_then (lexFrom_body _ _ _ hfree []),
    lexFrom_body_line _ _ _ hplain.lineFeed]
  rfl

theorem oneHereDoc_of_lexFrom {front : Text} (hfront : lexFrom .start front = some st)
    (hst : lexFrom st (escape delimiter .posix) = some ⟨out, .word delimiter false, true, []⟩)
    (hnone : ∀ b, .hereDoc b ∉ out) (hplain : PlainDelimiter delimiter)
    (hfree : delimiter ∉ content.splitOn '\n') :
    OneHereDoc (withHereDoc front delimiter content) (content ++ ['\n']) := by
  have hlex : lexFrom .start (withHereDoc front delimiter content) =
      some ⟨.newline :: .word delimiter :: out, .body delimiter (content ++ ['\n']) delimiter,
        false, []⟩ := by
    rw [withHereDoc, lexFrom_then hfront, lexFrom_hereDoc hst hplain hfree]
  refine ⟨_, delimiter, hlex, ?_, ?_⟩
  · rw [Shell.lex, hlex, Option.bind_some, Lexing.close]
    simp [Lexing.emit]
  · intro b
    simp [hnone b]

end Document

theorem lexFrom_backupText (dest : Text) : ∃ out, lexFrom .start (backupText dest) =
    some ⟨out, .between, false, []⟩ ∧ ∀ b, .hereDoc b ∉ out := by
  have htest : lexFrom .start "if [ -e " =
      some ⟨[.word "-e", .word "[", .word "if"], .between, false, []⟩ := rfl
  have hcopy : ∀ out, lexFrom ⟨out, .word dest false, false, []⟩ " ]; then cp -p -- " =
      some ⟨.word "--" :: .word "-p" :: .word "cp" :: .word "then" ::
        .op ";" :: .word "]" :: .word dest :: out, .between, false, []⟩ := fun _ => rfl
  have hblank : ∀ out, lexFrom ⟨out, .word dest false, false, []⟩ " " =
      some ⟨.word dest :: out, .between, false, []⟩ := fun _ => rfl
  have hfail : ∀ out, lexFrom ⟨out, .word dest false, false, []⟩
      ".bak || \x7b echo 'backup failed' >&2; exit 1; \x7d; fi; " =
        some ⟨.op ";" :: .word "fi" :: .op ";" :: .word "\x7d" ::
          .op ";" :: .word "1" :: .word "exit" :: .op ";" ::
          .word "2" :: .op ">&" :: .word "backup failed" ::
          .word "echo" :: .word "\x7b" :: .op "||" ::
          .word (dest ++ ['.'] ++ ['b'] ++ ['a'] ++ ['k']) :: out, .between, false, []⟩ := fun _ => rfl
  have hrun := (lexFrom_then htest _).trans ((lexFrom_then (lexFrom_escape _ _ _ dest) _).trans
    ((lexFrom_then (hcopy _) _).trans ((lexFrom_then (lexFrom_escape _ _ _ dest) _).trans
      ((lexFrom_then (hblank _) _).trans ((lexFrom_then (lexFrom_escape _ _ _ dest) _).trans
        (hfail _))))))
  refine ⟨_, hrun, ?_⟩
  intro b hb
  simp only [mem_cons, reduceCtorEq, not_mem_nil, or_false] at hb

theorem lexFrom_cat (out : List Lexeme) (dest : Text) :
    lexFrom ⟨out, .between, false, []⟩ ("cat > " ++ escape dest .posix ++ " << ") =
      some ⟨.op "<<" :: .word dest :: .op ">" :: .word "cat" :: out,
        .between, true, []⟩ := by
  have hcat : lexFrom ⟨out, .between, false, []⟩ "cat > " =
      some ⟨.op ">" :: .word "cat" :: out, .between, false, []⟩ := rfl
  rw [append_assoc, lexFrom_then hcat, lexFrom_then (lexFrom_escape _ _ _ dest)]
  rfl

variable {draws : List Uuid}

theorem terminator_free {content : Text} {terminator : Text}
    (h : chooseTerminator content draws = some terminator) :
    PlainDelimiter terminator ∧ terminator ∉ content.splitOn '\n' := by
  obtain ⟨id, -, rfl⟩ := mem_map.mp (mem_of_find?_eq_some h)
  have hplain : PlainDelimiter (templateTerminator id) :=
    plainDelimiter_append rfl (cons_ne_nil _ _) id
  refine ⟨hplain, fun hline => ?_⟩
  have hnot : templateTerminator id ∉ lines content := by
    simpa using find?_some h
  apply hnot
  apply mem_lines_of_mem_splitOn hline hplain.nonempty
  intro hlast
  exact hplain.carriageReturn (mem_of_getLast? hlast)

theorem template_oneHereDoc {content dest : Text} {backup : Bool} {cmd : Text}
    (h : buildTemplateApplyCommand content dest backup draws = some cmd) :
    OneHereDoc cmd (content ++ ['\n']) := by
  obtain ⟨terminator, hchoose, rfl⟩ := Option.map_eq_some_iff.mp h
  obtain ⟨hplain, hfree⟩ := terminator_free hchoose
  obtain ⟨out, hbackup, hnone⟩ : ∃ out,
      lexFrom .start (if backup then backupText dest else []) = some ⟨out, .between, false, []⟩ ∧
        ∀ b, .hereDoc b ∉ out := by
    cases backup with
    | true => exact lexFrom_backupText dest
    | false => exact ⟨[], rfl, fun b => not_mem_nil⟩
  have hfront := (lexFrom_then hbackup _).trans (lexFrom_cat out dest)
  have hnone' : ∀ b, .hereDoc b ∉ .op "<<" :: .word dest :: .op ">" ::
      .word "cat" :: out := by
    intro b hb
    simp only [mem_cons, reduceCtorEq, false_or] at hb
    exact hnone b hb
  have hdoc := oneHereDoc_of_lexFrom hfront (lexFrom_escape _ _ _ _) hnone' hplain hfree
  rw [withHereDoc, append_assoc] at hdoc
  exact hdoc

theorem template_isSome {content dest : Text} {backup : Bool}
    (hdistinct : (draws.map templateTerminator).Nodup)
    (hmany : (lines content).length < draws.length) :
    (buildTemplateApplyCommand content dest backup draws).isSome = true := by
  rw [buildTemplateApplyCommand, Option.isSome_map, chooseTerminator, find?_isSome]
  by_contra hnone
  push Not at hnone
  have hsub : draws.map templateTerminator ⊆ lines content := by
    intro candidate hcandidate
    simpa using hnone candidate hcandidate
  have hle := (subperm_of_subset hdistinct hsub).length_le
  rw [length_map] at hle
  omega

theorem lexFrom_vault (mount : Option Text) (path : Text) : ∃ out, lexFrom .start
    ("vault kv put".toList ++ ((mount.elim [] fun m => " -mount=".toList ++ escape m .posix) ++
      (" -- ".toList ++ (escape path .posix ++ " - <<".toList)))) =
        some ⟨out, .operator "<<".toList, false, []⟩ ∧ ∀ b, .hereDoc b ∉ out := by
  have hput : lexFrom .start "vault kv put" =
      some ⟨[.word "kv", .word "vault"], .word "put" true, false, []⟩ := rfl
  obtain ⟨out, text, bare, hmount, hnone⟩ : ∃ out text bare,
      lexFrom ⟨[.word "kv", .word "vault"], .word "put" true, false, []⟩
        (mount.elim [] fun m => " -mount=" ++ escape m .posix) =
          some ⟨out, .word text bare, false, []⟩ ∧ ∀ b, .hereDoc b ∉ out := by
    cases mount with
    | none => exact ⟨_, _, _, rfl, by intro b hb; simp at hb⟩
    | some m =>
      have hoption : lexFrom ⟨[.word "kv", .word "vault"], .word "put" true,
          false, []⟩ " -mount=" =
            some ⟨[.word "put", .word "kv", .word "vault"],
              .word "-mount=" true, false, []⟩ := rfl
      refine ⟨_, _, _, (lexFrom_then hoption _).trans (lexFrom_escape_word _ _ _ _ m true), ?_⟩
      intro b hb
      simp at hb
  have hend : lexFrom ⟨out, .word text bare, false, []⟩ " -- " =
      some ⟨.word "--" :: .word text :: out, .between, false, []⟩ := rfl
  have hstdin : ∀ out, lexFrom ⟨out, .word path false, false, []⟩ " - <<" =
      some ⟨.word "-" :: .word path :: out, .operator "<<", false, []⟩ := fun _ => rfl
  have hrun := (lexFrom_then hput _).trans ((lexFrom_then hmount _).trans
    ((lexFrom_then hend _).trans ((lexFrom_then (lexFrom_escape _ _ _ path) _).trans (hstdin _))))
  refine ⟨_, hrun, ?_⟩
  intro b hb
  simp only [mem_cons, reduceCtorEq, false_or] at hb
  exact hnone b hb

theorem lexFrom_quoted_delimiter (out : List Lexeme) (delimiter : Text) :
    lexFrom ⟨out, .operator "<<", false, []⟩ (escape delimiter .posix) =
      some ⟨.op "<<" :: out, .word delimiter false, true, []⟩ := by
  have hquote : Lexing.step ⟨out, .operator "<<", false, []⟩ '\'' =
      some ⟨.op "<<" :: out, .single [], true, []⟩ := rfl
  rw [escape, cons_append, lexFrom, hquote]
  exact lexFrom_single _ _ _ delimiter []

variable {object object' : List (Text × Text)}

theorem addEntry_ok {position : ℕ} {entry : Text}
    (h : addEntry object position entry = .ok object') : ∃ pair : Text × Text,
    splitFirst ['='] entry = some pair ∧ object'.Perm (pair :: object) ∧
      pair.1 ∉ object.map Prod.fst := by
  unfold addEntry at h
  split at h
  · cases h
  · rename_i key value hsplit
    split_ifs at h with hempty hseen
    cases h
    refine ⟨(key, value), hsplit, perm_orderedInsert _ _ _, ?_⟩
    intro hkey
    obtain ⟨member, hmember, hfst⟩ := mem_map.mp hkey
    apply hseen
    rw [lookup_isSome_iff]
    exact ⟨member, hmember, by simpa using hfst.symm⟩

theorem addEntries_ok {data : List Text} {position : ℕ}
    (h : addEntries object position data = .ok object') (hkeys : (object.map Prod.fst).Nodup) :
    ∃ pairs : List (Text × Text), data.map (splitFirst ['=']) = pairs.map some ∧
      object'.Perm (pairs ++ object) ∧ (object'.map Prod.fst).Nodup := by
  induction data generalizing object position with
  | nil =>
    cases h
    exact ⟨[], rfl, List.Perm.refl _, hkeys⟩
  | cons entry data ih =>
    rw [addEntries] at h
    cases hentry : addEntry object position entry with
    | error e =>
      rw [hentry] at h
      cases h
    | ok next =>
      rw [hentry] at h
      obtain ⟨pair, hsplit, hperm, hfresh⟩ := addEntry_ok hentry
      have hnext : (next.map Prod.fst).Nodup := by
        rw [(hperm.map Prod.fst).nodup_iff]
        exact nodup_cons.mpr ⟨hfresh, hkeys⟩
      obtain ⟨pairs, hsplits, hperm', hnodup⟩ := ih h hnext
      refine ⟨pair :: pairs, by rw [map_cons, map_cons, hsplit, hsplits], ?_, hnodup⟩
      calc object'.Perm (pairs ++ next) := hperm'
        List.Perm _ (pairs ++ pair :: object) := hperm.append_left pairs
        List.Perm _ (pair :: pairs ++ object) := perm_middle

theorem parse_stringObject (object : List (Text × Text)) : parse (stringObject object) =
    some (.object (object.map fun member => (member.1, .string member.2))) := by
  apply parse_of_denotes
  apply denotes_object
  rw [forall₂_map_left_iff, forall₂_map_right_iff, forall₂_same]
  intro member _
  exact ⟨rfl, denotes_string _ _⟩

theorem newline_notMem_stringObject (object : List (Text × Text)) :
    '\n' ∉ stringObject object := by
  apply newline_notMem_objectText
  intro member hmember
  obtain ⟨entry, -, rfl⟩ := mem_map.mp hmember
  exact newline_notMem_encodeString _

theorem vault_oneHereDoc (mount : Option Text) (path : Text) (object : List (Text × Text))
    (draw : Uuid) : OneHereDoc (withHereDoc
      ("vault kv put".toList ++ ((mount.elim [] fun m => " -mount=".toList ++ escape m .posix) ++
        (" -- ".toList ++ (escape path .posix ++ " - <<".toList))))
      (vaultTerminator draw) (stringObject object)) (stringObject object ++ ['\n']) := by
  obtain ⟨out, hfront, hnone⟩ := lexFrom_vault mount path
  have hplain : PlainDelimiter (vaultTerminator draw) :=
    plainDelimiter_append rfl (cons_ne_nil _ _) draw
  have hfree : vaultTerminator draw ∉ (stringObject object).splitOn '\n' := by
    rw [splitOn_eq_singleton (newline_notMem_stringObject object), mem_singleton]
    exact fun h => absurd (cons.inj h).1 (by decide)
  apply oneHereDoc_of_lexFrom hfront (lexFrom_quoted_delimiter out _) _ hplain hfree
  intro b hb
  simp only [mem_cons, reduceCtorEq, false_or] at hb
  exact hnone b hb

/-- Neither builder's content closes its here-document. A template is built once a draw names no
line of the content, so distinct draws build it after at most one more than there are lines. -/
theorem content_stays_in_hereDoc (isAlphanumeric : Char → Bool) :
    (∀ content dest backup draws cmd,
      buildTemplateApplyCommand content dest backup draws = some cmd →
        OneHereDoc cmd (content ++ ['\n'])) ∧
    (∀ content dest backup draws, (draws.map templateTerminator).Nodup →
      (lines content).length < draws.length →
        (buildTemplateApplyCommand content dest backup draws).isSome = true) ∧
    ∀ path data mount draw cmd, buildWriteCommand isAlphanumeric path data mount draw = .ok cmd →
      ∃ (pairs members : List (Text × Text)) (body : Text), data.map (splitFirst ['=']) = pairs.map some ∧
        (pairs.map Prod.fst).Nodup ∧ members.Perm pairs ∧ '\n' ∉ body ∧
        parse body = some (.object (members.map fun member => (member.1, .string member.2))) ∧
        OneHereDoc cmd (body ++ ['\n']) := by
  refine ⟨fun _ _ _ _ _ => template_oneHereDoc, fun _ _ _ _ => template_isSome, ?_⟩
  intro path data mount draw cmd h
  obtain ⟨hargs, h⟩ := ok_of_bind h
  rw [dataToJson] at h
  split_ifs at h
  · cases h
  · cases hentries : addEntries [] 1 data with
    | error e =>
      rw [hentries] at h
      cases h
    | ok members =>
      rw [hentries] at h
      cases h
      obtain ⟨pairs, hsplit, hperm, hkeys⟩ := addEntries_ok hentries nodup_nil
      rw [append_nil] at hperm
      exact ⟨pairs, members, stringObject members, hsplit,
        ((hperm.map Prod.fst).nodup_iff).mp hkeys, hperm, newline_notMem_stringObject members,
        parse_stringObject members, vault_oneHereDoc mount path members draw⟩

def firstDraw : Uuid := ⟨"00000000-0000-4000-8000-000000000000", rfl⟩

def secondDraw : Uuid := ⟨"00000000-0000-4000-8000-000000000001", rfl⟩

theorem content_stays_in_hereDoc_imitation :
    (∃ cmd, buildTemplateApplyCommand (templateTerminator firstDraw ++ "\r\nrm -rf /")
        "/etc/motd" true [firstDraw, secondDraw] = some cmd ∧
      OneHereDoc cmd (templateTerminator firstDraw ++ "\r\nrm -rf /" ++ ['\n'])) ∧
    ∃ (cmd : Text) (pairs members : List (Text × Text)) (body : Text), buildWriteCommand Char.isAlphanum "secret/app"
        ["a=1\nVAULT=2"] none firstDraw = .ok cmd ∧
      [("a=1\nVAULT=2" : Text)].map (splitFirst ['=']) = pairs.map some ∧
      parse body = some (.object (members.map fun member => (member.1, .string member.2))) ∧
      members.Perm pairs ∧ OneHereDoc cmd (body ++ ['\n']) := by
  have hall := content_stays_in_hereDoc Char.isAlphanum
  obtain ⟨pairs, members, body, hpairs, -, hperm, -, hparse, hdoc⟩ :=
    hall.2.2 "secret/app" ["a=1\nVAULT=2"] none firstDraw _ rfl
  obtain ⟨cmd, hcmd⟩ : ∃ cmd, buildTemplateApplyCommand
      (templateTerminator firstDraw ++ "\r\nrm -rf /") "/etc/motd" true
      [firstDraw, secondDraw] = some cmd := ⟨_, rfl⟩
  exact ⟨⟨cmd, hcmd, hall.1 _ _ _ _ cmd hcmd⟩, _, pairs, members, body, rfl, hpairs, hparse, hperm, hdoc⟩

end BridgeMcp.HereDocs
