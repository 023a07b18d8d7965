import BridgeMcp.Shell.Hosts
import BridgeMcp.Shell.Lexer
import BridgeMcp.Shell.Script

/-!
Scheduling a job (`domain/use_cases/cron.rs`): the checks and the command of `build_add_command`,
what the shell makes `printf` emit for it, and how cron reads the line.
-/
namespace BridgeMcp.Cron
open CheckLib TextLib LineLib Shell List

def isCronFieldChar (c : Char) : Bool := c.isDigit || ['*', '/', '-', ','].contains c

def validateCronSchedule (schedule : Text) : Except CommandDenied Unit :=
  let fields := splitWhitespace schedule
  if fields.length ≠ 5 then
    .error ⟨"Invalid cron schedule: expected 5 fields (minute hour day month weekday), got " ++
      Nat.toDigits 10 fields.length⟩
  else
    match fields.zipIdx.find? fun field =>
        field.1.head? == some '-' || !field.1.all isCronFieldChar with
    | some (field, i) =>
      .error ⟨"Invalid cron field " ++ Nat.toDigits 10 (i + 1) ++ ": '" ++ field ++
        "' contains invalid characters"⟩
    | none => .ok ()

def validateSingleLine (what text : Text) : Except CommandDenied Unit :=
  if text.contains '\n' || text.contains '\r' then
    .error ⟨"Cron " ++ what ++ " must not contain newlines"⟩
  else .ok ()

def validateCronComment (comment : Text) : Except CommandDenied Unit :=
  validateSingleLine "comment" comment

def escapePercentFrom : Bool → Text → Text
  | _, [] => []
  | true, c :: s => c :: escapePercentFrom false s
  | false, c :: s =>
    if c = '\\' then c :: escapePercentFrom true s
    else if c = '%' then '\\' :: c :: escapePercentFrom false s
    else c :: escapePercentFrom false s

/-- A `%` that is not behind a backslash gets one. -/
def escapeCronPercent (command : Text) : Text := escapePercentFrom false command

def cronLine (schedule command : Text) (comment : Option Text) : Text :=
  (comment.elim [] fun c => "# ".toList ++ c ++ ['\n']) ++
    (schedule ++ ' ' :: escapeCronPercent command)

def crontabOf (user : Option Text) : Text :=
  "crontab ".toList ++ user.elim [] fun u => "-u ".toList ++ escape u .posix ++ [' ']

def addCommand (line : Text) (user : Option Text) : Text :=
  ['('] ++ (crontabOf user ++ ("-l 2>/dev/null; printf '%s\\n' " ++
    (escape line .posix ++ (") | " ++ (crontabOf user ++ ['-'])))))

def buildAddCommand (schedule command : Text) (user comment : Option Text) :
    Except CommandDenied Text := do
  validateSingleLine "schedule" schedule
  validateCronSchedule schedule
  validateSingleLine "command" command
  ifGiven comment validateCronComment
  return addCommand (cronLine schedule command comment) user

def isBlank (c : Char) : Bool := c == ' ' || c == '\t'

/-- The first fields of an entry and the rest of it. Blanks in front of a field and in front of the
rest are skipped. -/
def takeFields : ℕ → Text → List Text × Text
  | 0, s => ([], s.dropWhile isBlank)
  | n + 1, s =>
    let s := s.dropWhile isBlank
    let found := takeFields n (s.dropWhile (!isBlank ·))
    (s.takeWhile (!isBlank ·) :: found.1, found.2)

def isEntry (line : Text) : Bool :=
  match (line.dropWhile isBlank).head? with
  | none => false
  | some c => c != '#'

/-- Behind a backslash when the flag is set: the command that cron hands to the shell, and the
standard input it starts after a `%`. -/
def cronReadFrom : Bool → Text → Text × Option Text
  | false, [] => ([], none)
  | true, [] => (['\\'], none)
  | true, c :: s =>
    let found := cronReadFrom false s
    (if c = '%' then '%' :: found.1 else '\\' :: c :: found.1, found.2)
  | false, c :: s =>
    if c = '\\' then cronReadFrom true s
    else if c = '%' then ([], some s)
    else
      let found := cronReadFrom false s
      (c :: found.1, found.2)

def cronRead (s : Text) : Text × Option Text := cronReadFrom false s

def unescapePercentFrom : Bool → Text → Text
  | false, [] => []
  | true, [] => ['\\']
  | true, c :: s => (if c = '%' then ['%'] else ['\\', c]) ++ unescapePercentFrom false s
  | false, c :: s =>
    if c = '\\' then unescapePercentFrom true s else c :: unescapePercentFrom false s

def unescapePercent (command : Text) : Text := unescapePercentFrom false command

def printfOf : List Text → Option Text
  | name :: format :: args => if name = "printf" then printf format args else none
  | _ => none

def emitted (cmd : Text) : Option (List Text) :=
  (Shell.lex cmd).map fun tokens => (simpleCommands tokens).filterMap printfOf

/-- The line makes `printf` emit one entry, after the comment if there is one, and cron reads the
entry as the schedule and the command. -/
def Schedules (cmd schedule command : Text) (comment : Option Text) : Prop :=
  ∃ out entry, emitted cmd = some [out] ∧
    inputLines out = comment.toList.map ("# ".toList ++ ·) ++ [entry] ∧
    (inputLines out).filter isEntry = [entry] ∧
    (takeFields 5 entry).1 = splitWhitespace schedule ∧
    cronRead (takeFields 5 entry).2 = (unescapePercent command, none) ∧
    (¬ "\\%" <:+: command → unescapePercent command = command)

theorem cronReadFrom_escape (escaped : Bool) (command : Text) :
    cronReadFrom escaped (escapePercentFrom escaped command) =
      (unescapePercentFrom escaped command, none) := by
  induction command generalizing escaped with
  | nil => cases escaped <;> rfl
  | cons c s ih =>
    cases escaped with
    | true =>
      rw [escapePercentFrom, cronReadFrom, ih, unescapePercentFrom]
      split_ifs <;> rfl
    | false =>
      rw [escapePercentFrom, unescapePercentFrom]
      by_cases hslash : c = '\\'
      · rw [if_pos hslash, if_pos hslash, cronReadFrom, if_pos hslash, ih]
      · rw [if_neg hslash, if_neg hslash]
        by_cases hpercent : c = '%'
        · -- the backslash that was put in front
          rw [if_pos hpercent, cronReadFrom, if_pos rfl, cronReadFrom, ih, if_pos hpercent,
            hpercent]
        · rw [if_neg hpercent, cronReadFrom, if_neg hslash, if_neg hpercent, ih]

theorem unescapePercentFrom_of_free (command : Text) :
    (¬ "\\%" <:+: command → unescapePercentFrom false command = command) ∧
      (¬ "\\%" <:+: '\\' :: command →
        unescapePercentFrom true command = '\\' :: command) := by
  induction command with
  | nil => exact ⟨fun _ => rfl, fun _ => rfl⟩
  | cons c s ih =>
    constructor
    · intro hfree
      rw [unescapePercentFrom]
      split_ifs with hslash
      · rw [hslash] at hfree ⊢
        exact ih.2 hfree
      · rw [ih.1 fun h => hfree (List.infix_cons h)]
    · intro hfree
      have hpercent : c ≠ '%' := by
        rintro rfl
        exact hfree ⟨[], s, rfl⟩
      rw [unescapePercentFrom, if_neg hpercent, ih.1 fun h => hfree (List.infix_cons (List.infix_cons h))]
      rfl

theorem cronReadFrom_plain {u : Text} (hu : ∀ c ∈ u, c ≠ '\\' ∧ c ≠ '%') (s : Text) :
    cronRead (u ++ s) = (u ++ (cronRead s).1, (cronRead s).2) := by
  induction u with
  | nil => rfl
  | cons c u ih =>
    obtain ⟨hslash, hpercent⟩ := hu c mem_cons_self
    have hrest := ih fun d hd => hu d (mem_cons_of_mem c hd)
    rw [cronRead] at hrest
    rw [cronRead, cons_append, cronReadFrom, if_neg hslash, if_neg hpercent, hrest]
    rfl

theorem cronReadFrom_copy {u : Text} (hu : '%' ∉ u) (hend : u.getLast? ≠ some '\\') (s : Text) :
    cronReadFrom false (u ++ s) = (u ++ (cronRead s).1, (cronRead s).2) ∧
      (u ≠ [] → cronReadFrom true (u ++ s) = ('\\' :: u ++ (cronRead s).1, (cronRead s).2)) := by
  induction u with
  | nil => exact ⟨rfl, fun hne => absurd rfl hne⟩
  | cons c u ih =>
    obtain ⟨hpercent, hrest⟩ := not_or.mp (mt mem_cons.mpr hu)
    have hendRest : u.getLast? ≠ some '\\' := by
      cases u with
      | nil => nofun
      | cons d u => exact getLast?_cons_cons ▸ hend
    obtain ⟨hplain, hescaped⟩ := ih hrest hendRest
    constructor
    · rw [cons_append, cronReadFrom, if_neg (Ne.symm hpercent)]
      split_ifs with hslash
      · have hne : u ≠ [] := by
          rintro rfl
          exact hend (congrArg some hslash)
        rw [hescaped hne, hslash]
      · rw [hplain]
        rfl
    · intro _
      rw [cons_append, cronReadFrom, hplain, if_neg (Ne.symm hpercent)]
      rfl

theorem cronRead_copy {u : Text} (hu : '%' ∉ u) (hend : u.getLast? ≠ some '\\') (s : Text) :
    cronRead (u ++ s) = (u ++ (cronRead s).1, (cronRead s).2) :=
  (cronReadFrom_copy hu hend s).1

theorem isWhitespace_of_isBlank {c : Char} (h : isBlank c = true) : isWhitespace c = true := by
  rw [isBlank, Bool.or_eq_true, beq_iff_eq, beq_iff_eq] at h
  rcases h with rfl | rfl <;> rfl

theorem takeFields_spec (n : ℕ) (s : Text) :
    ∃ before, s = before ++ (takeFields n s).2 ∧
      before.filter (!isBlank ·) = (takeFields n s).1.flatten ∧
      ∀ c ∈ (takeFields n s).2.head?, isBlank c = false := by
  induction n generalizing s with
  | zero =>
    refine ⟨s.takeWhile isBlank, (takeWhile_append_dropWhile).symm, ?_, ?_⟩
    · apply filter_eq_nil_iff.mpr
      intro c hc
      simpa using mem_takeWhile_imp hc
    · intro c hc
      have hnot := head?_dropWhile_not isBlank s
      rw [takeFields] at hc
      rw [Option.mem_def.mp hc] at hnot
      exact hnot
  | succ n ih =>
    obtain ⟨before, hbefore, hfields, hhead⟩ := ih ((s.dropWhile isBlank).dropWhile (!isBlank ·))
    refine ⟨s.takeWhile isBlank ++ (s.dropWhile isBlank).takeWhile (!isBlank ·) ++ before, ?_, ?_, hhead⟩
    · rw [takeFields, append_assoc, append_assoc, ← hbefore,
        takeWhile_append_dropWhile, takeWhile_append_dropWhile]
    · have hblank : (s.takeWhile isBlank).filter (!isBlank ·) = [] := by
        apply filter_eq_nil_iff.mpr
        intro c hc
        simpa using mem_takeWhile_imp hc
      have hfield : ((s.dropWhile isBlank).takeWhile (!isBlank ·)).filter (!isBlank ·) =
          (s.dropWhile isBlank).takeWhile (!isBlank ·) :=
        filter_eq_self.mpr fun c hc => mem_takeWhile_imp (p := fun c => !isBlank c) hc
      rw [filter_append, filter_append, hblank, hfield, hfields, takeFields,
        flatten_cons]
      rfl

theorem splitWhitespace_cases (s : Text) :
    (splitWhitespace s = [] ∧ ∀ c ∈ s, isWhitespace c = true) ∨
      ∃ lead word rest, s = lead ++ (word ++ rest) ∧ (∀ c ∈ lead, isWhitespace c = true) ∧
        word ≠ [] ∧ (∀ c ∈ word, isWhitespace c = false) ∧
        (∀ c ∈ rest.head?, isWhitespace c = true) ∧
        splitWhitespace s = word :: splitWhitespace rest := by
  induction s with
  | nil => exact .inl ⟨rfl, fun c hc => absurd hc not_mem_nil⟩
  | cons c s ih =>
    by_cases hc : isWhitespace c = true
    · rw [splitWhitespace_cons hc]
      rcases ih with ⟨hnil, hall⟩ | ⟨lead, word, rest, rfl, hlead, hrest⟩
      · exact .inl ⟨hnil, forall_mem_cons.mpr ⟨hc, hall⟩⟩
      · exact .inr ⟨c :: lead, word, rest, rfl, forall_mem_cons.mpr ⟨hc, hlead⟩, hrest⟩
    · right
      have hword : ∀ d ∈ (c :: s).takeWhile (!isWhitespace ·), isWhitespace d = false := by
        intro d hd
        simpa using mem_takeWhile_imp (p := fun c => !isWhitespace c) hd
      have hne : (c :: s).takeWhile (!isWhitespace ·) ≠ [] := by simp [hc]
      have hrest : ∀ d ∈ ((c :: s).dropWhile (!isWhitespace ·)).head?, isWhitespace d = true := by
        intro d hd
        have hnot := head?_dropWhile_not (!isWhitespace ·) (c :: s)
        rw [Option.mem_def.mp hd] at hnot
        simpa using hnot
      refine ⟨[], _, _, takeWhile_append_dropWhile.symm, ?_, hne, hword, hrest, ?_⟩
      · exact fun d hd => absurd hd not_mem_nil
      · rw [← splitWhitespace_word hne hword hrest, takeWhile_append_dropWhile]

theorem takeFields_schedule {s : Text} (hs : ∀ c ∈ s, isWhitespace c = true → isBlank c = true)
    (t : Text) : takeFields (splitWhitespace s).length (s ++ ' ' :: t) =
      (splitWhitespace s, t.dropWhile isBlank) := by
  generalize hn : (splitWhitespace s).length = n
  induction n generalizing s with
  | zero =>
    rcases splitWhitespace_cases s with ⟨hnil, hall⟩ | ⟨_, word, rest, -, -, -, -, -, hcons⟩
    · have hblank : ∀ c ∈ s, isBlank c = true := fun c hc => hs c hc (hall c hc)
      rw [takeFields, dropWhile_append_of_pos hblank, hnil]
      rfl
    · rw [hcons] at hn
      cases hn
  | succ n ih =>
    rcases splitWhitespace_cases s with ⟨hnil, -⟩ | ⟨lead, word, rest, rfl, hlead, hne, hword, hrest, hcons⟩
    · rw [hnil] at hn
      cases hn
    · rw [hcons, length_cons, Nat.succ_inj] at hn
      have hleadBlank : ∀ c ∈ lead, isBlank c = true := fun c hc => hs c (by simp [hc]) (hlead c hc)
      have hwordPlain : ∀ c ∈ word, (!isBlank c) = true := by
        intro c hc
        have := mt isWhitespace_of_isBlank (by rw [hword c hc]; decide)
        simpa using this
      have hfirst : ((lead ++ (word ++ rest)) ++ ' ' :: t).dropWhile isBlank =
          word ++ (rest ++ ' ' :: t) := by
        rw [append_assoc, dropWhile_append_of_pos hleadBlank, append_assoc]
        obtain ⟨c, word, rfl⟩ := exists_cons_of_ne_nil hne
        rw [cons_append, dropWhile_cons_of_neg]
        simpa using hwordPlain c mem_cons_self
      have hstop : ∃ b tail, rest ++ ' ' :: t = b :: tail ∧ isBlank b = true := by
        cases rest with
        | nil => exact ⟨' ', t, rfl, rfl⟩
        | cons b rest =>
          exact ⟨b, rest ++ ' ' :: t, rfl, hs b (by simp) (hrest b rfl)⟩
      obtain ⟨b, tail, htail, hb⟩ := hstop
      have htake : (word ++ (rest ++ ' ' :: t)).takeWhile (!isBlank ·) = word := by
        rw [takeWhile_append_of_pos hwordPlain, htail,
          takeWhile_cons_of_neg (by simp [hb]), append_nil]
      have hdrop : (word ++ (rest ++ ' ' :: t)).dropWhile (!isBlank ·) = rest ++ ' ' :: t := by
        rw [dropWhile_append_of_pos hwordPlain, htail,
          dropWhile_cons_of_neg (by simp [hb])]
      have htailFields := ih (fun c hc => hs c (by simp [hc])) hn
      rw [takeFields, hfirst, htake, hdrop, htailFields, hcons]

theorem blanks_of_takeFields {n : ℕ} {schedule t : Text}
    (hfields : (takeFields n (schedule ++ ' ' :: t)).1 = splitWhitespace schedule) :
    (∀ c ∈ schedule, isWhitespace c = true → isBlank c = true) ∨
      ∃ c rest, (takeFields n (schedule ++ ' ' :: t)).2 = c :: rest ∧ isWhitespace c = true ∧
        isBlank c = false := by
  obtain ⟨before, hentry, hbefore, hhead⟩ := takeFields_spec n (schedule ++ ' ' :: t)
  set rest := (takeFields n (schedule ++ ' ' :: t)).2
  rw [hfields, flatten_splitWhitespace] at hbefore
  have hfree : ∀ c ∈ before, isWhitespace c = true → isBlank c = true := by
    intro c hc hspace
    by_contra hblank
    have hmem : c ∈ before.filter (!isBlank ·) := mem_filter.mpr ⟨hc, by simpa using hblank⟩
    rw [hbefore] at hmem
    have hnot := (mem_filter.mp hmem).2
    rw [hspace] at hnot
    cases hnot
  have hsplit : (schedule ++ [' ']) ++ t = before ++ rest := by
    rw [← hentry, append_assoc]
    rfl
  rcases append_eq_append_iff.mp hsplit with ⟨u, rfl, -⟩ | ⟨u, hu, hrest⟩
  · exact .inl fun c hc => hfree c (mem_append_left _ (mem_append_left _ hc))
  · cases u with
    | nil =>
      rw [append_nil] at hu
      exact .inl fun c hc => hfree c (hu ▸ mem_append_left _ hc)
    | cons c u =>
      -- the rest starts in the schedule, with white space since no field is shorter
      have hsame : before.filter (!isBlank ·) = before.filter (!isWhitespace ·) := by
        apply filter_congr
        intro d hd
        cases hspace : isWhitespace d with
        | true => rw [hfree d hd hspace]
        | false =>
          cases hblank : isBlank d with
          | false => rfl
          | true =>
            rw [isWhitespace_of_isBlank hblank] at hspace
            cases hspace
      have hspaces : (c :: u).filter (!isWhitespace ·) = [] := by
        have hall := congrArg (filter (!isWhitespace ·)) hu
        rw [filter_append, filter_append, ← hbefore, hsame] at hall
        exact append_cancel_left hall.symm
      have hspace : isWhitespace c = true := by
        simpa using filter_eq_nil_iff.mp hspaces c mem_cons_self
      refine .inr ⟨c, u ++ t, hrest, hspace, hhead c ?_⟩
      rw [hrest]
      rfl

variable {schedule : Text}

theorem schedule_chars
    (h : ∀ field ∈ splitWhitespace schedule, ∀ c ∈ field, isCronFieldChar c = true) {c : Char}
    (hc : c ∈ schedule) : isWhitespace c = true ∨ isCronFieldChar c = true := by
  by_cases hspace : isWhitespace c = true
  · exact .inl hspace
  · right
    have hmem : c ∈ schedule.filter (!isWhitespace ·) := mem_filter.mpr ⟨hc, by simpa using hspace⟩
    rw [← flatten_splitWhitespace] at hmem
    obtain ⟨field, hfield, hc⟩ := mem_flatten.mp hmem
    exact h field hfield c hc

theorem isEntry_append (hfields : splitWhitespace schedule ≠ [])
    (hchars : ∀ c ∈ schedule, isWhitespace c = true ∨ isCronFieldChar c = true) (t : Text) :
    isEntry (schedule ++ t) = true := by
  have hsome : ∃ c ∈ schedule, isBlank c = false := by
    rcases splitWhitespace_cases schedule with ⟨hnil, -⟩ | ⟨lead, word, rest, hs, -, hne, hword, -⟩
    · exact absurd hnil hfields
    · obtain ⟨c, word, rfl⟩ := exists_cons_of_ne_nil hne
      have hc := hword c mem_cons_self
      refine ⟨c, by rw [hs]; simp, ?_⟩
      by_contra hblank
      rw [isWhitespace_of_isBlank (by simpa using hblank)] at hc
      cases hc
  obtain ⟨c, hc, hblank⟩ := hsome
  cases hdrop : schedule.dropWhile isBlank with
  | nil =>
    have := dropWhile_eq_nil_iff.mp hdrop c hc
    rw [hblank] at this
    cases this
  | cons d rest =>
    have hd : d ∈ schedule := (dropWhile_sublist isBlank).mem (hdrop ▸ mem_cons_self)
    have hhash : d ≠ '#' := by
      rintro rfl
      rcases hchars _ hd with hspace | hfield
      · exact absurd hspace (by decide)
      · exact absurd hfield (by decide)
    have hline : (schedule ++ t).dropWhile isBlank = d :: (rest ++ t) := by
      rw [dropWhile_append, hdrop]
      rfl
    rw [isEntry, hline]
    simpa using hhash

structure Accepted (schedule command : Text) (comment : Option Text) : Prop where
  scheduleLine : '\n' ∉ schedule
  fields : (splitWhitespace schedule).length = 5
  fieldChars : ∀ field ∈ splitWhitespace schedule, ∀ c ∈ field, isCronFieldChar c = true
  commandLine : '\n' ∉ command
  commentLine : ∀ c, comment = some c → '\n' ∉ c

theorem line_of_validate {what text : Text} (h : validateSingleLine what text = .ok ()) :
    '\n' ∉ text := by
  intro hc
  rw [validateSingleLine, if_pos] at h
  · cases h
  · rw [Bool.or_eq_true, contains_iff_mem]
    exact .inl hc

theorem fields_of_validate (h : validateCronSchedule schedule = .ok ()) :
    (splitWhitespace schedule).length = 5 ∧
      ∀ field ∈ splitWhitespace schedule, ∀ c ∈ field, isCronFieldChar c = true := by
  simp only [validateCronSchedule] at h
  split_ifs at h with hlength
  refine ⟨not_not.mp hlength, fun field hfield => ?_⟩
  split at h
  · cases h
  · next hfind =>
      obtain ⟨i, hi⟩ := mem_iff_getElem?.mp hfield
      have hgood := find?_eq_none.mp hfind (field, i) (mem_zipIdx_iff_getElem?.mpr hi)
      rw [Bool.or_eq_true, not_or] at hgood
      simpa using hgood.2

theorem accepted_of_build {schedule command : Text} {user comment : Option Text} {cmd : Text}
    (h : buildAddCommand schedule command user comment = .ok cmd) :
    Accepted schedule command comment ∧
      cmd = addCommand (cronLine schedule command comment) user := by
  obtain ⟨hschedule, h⟩ := ok_of_bind h
  obtain ⟨hfields, h⟩ := ok_of_bind h
  obtain ⟨hcommand, h⟩ := ok_of_bind h
  obtain ⟨hcomment, h⟩ := ok_of_bind h
  refine ⟨⟨line_of_validate hschedule, (fields_of_validate hfields).1,
    (fields_of_validate hfields).2, line_of_validate hcommand, ?_⟩, (Except.ok.inj h).symm⟩
  rintro c rfl
  exact line_of_validate hcomment

def crontabWords (user : Option Text) : List Text :=
  "crontab" :: user.elim [] fun u => ["-u", u]

theorem lexFrom_crontab (out : List Lexeme) (user : Option Text) :
    lexFrom ⟨out, .between, false, []⟩ (crontabOf user) =
      some ⟨((crontabWords user).map Lexeme.word).reverse ++ out, .between, false, []⟩ := by
  cases user with
  | none => rfl
  | some u =>
    have hoption : lexFrom ⟨out, .between, false, []⟩ "crontab -u ".toList =
        some ⟨.word "-u".toList :: .word "crontab".toList :: out, .between, false, []⟩ := rfl
    have hquoted := lexFrom_escape (.word "-u".toList :: .word "crontab".toList :: out) false [] u
    have hword := lexFrom_then hquoted [' ']
    have hall := lexFrom_then hoption (escape u .posix ++ [' '])
    exact hall.trans hword

theorem lex_addCommand (line : Text) (user : Option Text) : Shell.lex (addCommand line user) =
    some (.op "(" :: ((crontabWords user).map Lexeme.word ++
      (.word "-l" :: .ioNumber "2" :: .op ">" :: .word "/dev/null" ::
        .op ";" :: .word "printf" :: .word "%s\\n" :: .word line ::
        .op ")" :: .op "|" ::
        ((crontabWords user).map Lexeme.word ++ [.word "-"])))) := by
  have hopen : ∀ rest, lexFrom .start (['('] ++ (crontabOf user ++ rest)) =
      lexFrom ⟨[.op "(".toList], .between, false, []⟩ (crontabOf user ++ rest) := fun _ => rfl
  have hlist : ∀ out, lexFrom ⟨out, .between, false, []⟩
      "-l 2>/dev/null; printf '%s\\n' " =
        some ⟨.word "%s\\n" :: .word "printf" :: .op ";" ::
          .word "/dev/null" :: .op ">" :: .ioNumber "2" ::
          .word "-l" :: out, .between, false, []⟩ := fun _ => rfl
  have hpipe : ∀ out, lexFrom ⟨out, .word line false, false, []⟩ ") | " =
      some ⟨.op "|" :: .op ")" :: .word line :: out, .between, false, []⟩ := fun _ => rfl
  have hend : ∀ out, (lexFrom ⟨out, .between, false, []⟩ ['-']).bind Lexing.close =
      some (.word "-" :: out).reverse := fun _ => rfl
  rw [Shell.lex, addCommand, hopen, lexFrom_then (lexFrom_crontab _ user), lexFrom_then (hlist _),
    lexFrom_then (lexFrom_escape _ _ _ line), lexFrom_then (hpipe _),
    lexFrom_then (lexFrom_crontab _ user), hend]
  simp only [reverse_cons, reverse_append, reverse_reverse, append_assoc,
    cons_append, nil_append, reverse_nil]

theorem emitted_addCommand (line : Text) (user : Option Text) :
    emitted (addCommand line user) = some [line ++ ['\n']] := by
  rw [emitted, lex_addCommand]
  cases user <;> rfl

section Entry
variable {schedule command : Text} {comment : Option Text}

theorem lineFeed_notMem_escape {escaped : Bool} (h : '\n' ∉ command) :
    '\n' ∉ escapePercentFrom escaped command := by
  induction command generalizing escaped with
  | nil => cases escaped <;> exact not_mem_nil
  | cons c s ih =>
    obtain ⟨hc, hs⟩ := not_or.mp (mt mem_cons.mpr h)
    cases escaped with
    | true =>
      rw [escapePercentFrom, mem_cons, not_or]
      exact ⟨hc, ih hs⟩
    | false =>
      rw [escapePercentFrom]
      split_ifs
      · rw [mem_cons, not_or]
        exact ⟨hc, ih hs⟩
      · rw [mem_cons, mem_cons, not_or, not_or]
        exact ⟨by decide, hc, ih hs⟩
      · rw [mem_cons, not_or]
        exact ⟨hc, ih hs⟩

def entryOf (schedule command : Text) : Text := schedule ++ ' ' :: escapeCronPercent command

section
variable (h : Accepted schedule command comment)
include h

theorem inputLines_cronLine :
    inputLines (cronLine schedule command comment ++ ['\n']) =
      comment.toList.map ("# ".toList ++ ·) ++ [entryOf schedule command] := by
  have hentry : '\n' ∉ entryOf schedule command := by
    rw [entryOf, mem_append, mem_cons, not_or, not_or]
    exact ⟨h.scheduleLine, by decide, lineFeed_notMem_escape h.commandLine⟩
  rw [inputLines_newline, cronLine]
  cases hcomment : comment with
  | none => exact splitOn_eq_singleton hentry
  | some c =>
    have hline : '\n' ∉ "# " ++ c := by
      rw [mem_append, not_or]
      exact ⟨by decide, h.commentLine c hcomment⟩
    rw [Option.elim_some, append_assoc, singleton_append, splitOn_append_cons,
      splitOn_eq_singleton hline]
    exact congrArg ([_] ++ ·) (splitOn_eq_singleton hentry)

theorem isEntry_entryOf :
    isEntry (entryOf schedule command) = true := by
  apply isEntry_append
  · intro hnil
    have := h.fields
    rw [hnil] at this
    cases this
  · exact fun c hc => schedule_chars h.fieldChars hc

theorem filter_isEntry :
    (comment.toList.map ("# ".toList ++ ·) ++ [entryOf schedule command]).filter isEntry =
      [entryOf schedule command] := by
  rw [filter_append, filter_cons_of_pos (isEntry_entryOf h)]
  cases comment <;> rfl

end

theorem head?_escape (command : Text) (c : Char) (hc : isBlank c = true) :
    (escapeCronPercent command).head? = some c ↔ command.head? = some c := by
  cases command with
  | nil => rfl
  | cons d s =>
    rw [escapeCronPercent, escapePercentFrom]
    split_ifs with hslash hpercent
    · rfl
    · subst hpercent
      refine iff_of_false ?_ ?_ <;>
      · rintro heq
        cases heq
        cases hc
    · rfl

end Entry

/-- Cron separates fields by blanks and tabs only. -/
def BlanksOnly (schedule command : Text) : Prop :=
  (∀ c ∈ schedule, isWhitespace c = true → isBlank c = true) ∧
    ∀ c ∈ command.head?, isBlank c = false

section Asked
variable {schedule command : Text} {comment : Option Text}

theorem read_of_blanksOnly (h : Accepted schedule command comment)
    (hblanks : BlanksOnly schedule command) :
    takeFields 5 (entryOf schedule command) =
      (splitWhitespace schedule, escapeCronPercent command) := by
  have hfields := takeFields_schedule hblanks.1 (escapeCronPercent command)
  rw [h.fields] at hfields
  rw [entryOf, hfields]
  congr 1
  cases hesc : escapeCronPercent command with
  | nil => rfl
  | cons c s =>
    rw [dropWhile_cons_of_neg]
    intro hc
    have hhead := (head?_escape command c hc).mp (by rw [hesc]; rfl)
    rw [hblanks.2 c hhead] at hc
    cases hc

theorem eq_nil_of_cronRead {u s t : Text} (hu : ∀ c ∈ u, c ≠ '\\' ∧ c ≠ '%')
    (hs : cronRead s = (t, none)) (hus : cronRead (u ++ s) = (t, none)) : u = [] := by
  rw [cronReadFrom_plain hu, hs] at hus
  simpa using congrArg Prod.fst hus

theorem length_filter_nonspace_le (s : Text) :
    (s.filter (!isWhitespace ·)).length ≤ (s.filter (!isBlank ·)).length := by
  rw [← countP_eq_length_filter, ← countP_eq_length_filter]
  apply countP_mono_left
  intro c _ hc
  have := mt (isWhitespace_of_isBlank (c := c)) (by simpa using hc)
  simpa using this

section
variable (h : Accepted schedule command comment)
  (hfields : (takeFields 5 (entryOf schedule command)).1 = splitWhitespace schedule)
  (hread : cronRead (takeFields 5 (entryOf schedule command)).2 = (unescapePercent command, none))
include h hfields hread

theorem rest_eq_of_read :
    (schedule ++ [' ']).filter (!isBlank ·) = (splitWhitespace schedule).flatten ∧
      (takeFields 5 (entryOf schedule command)).2 = escapeCronPercent command := by
  obtain ⟨before, hentry, hbefore, -⟩ := takeFields_spec 5 (entryOf schedule command)
  rw [hfields] at hbefore
  set rest := (takeFields 5 (entryOf schedule command)).2 with hrest
  have hesc : cronRead (escapeCronPercent command) = (unescapePercent command, none) :=
    cronReadFrom_escape false command
  have hsplit : (schedule ++ [' ']) ++ escapeCronPercent command = before ++ rest := by
    rw [← hentry, entryOf]
    simp
  rcases append_eq_append_iff.mp hsplit with ⟨u, hu, hescape⟩ | ⟨u, hu, hlonger⟩
  · -- the fields reach into the command, by blanks only since no field is longer
    have hblank : u.filter (!isBlank ·) = [] := by
      have hlength := congrArg length hbefore
      have hle := length_filter_nonspace_le schedule
      rw [hu, flatten_splitWhitespace, filter_append, filter_append, length_append,
        length_append] at hlength
      apply eq_nil_of_length_eq_zero
      omega
    have hchars : ∀ c ∈ u, c ≠ '\\' ∧ c ≠ '%' := by
      intro c hc
      have hblankChar := filter_eq_nil_iff.mp hblank c hc
      constructor <;> rintro rfl <;> exact hblankChar rfl
    rw [hescape] at hesc
    obtain rfl := eq_nil_of_cronRead hchars hread hesc
    rw [append_nil] at hu
    exact ⟨hu ▸ hbefore, hescape.symm⟩
  · -- the rest starts in the schedule
    have hchars : ∀ c ∈ u, c ≠ '\\' ∧ c ≠ '%' := by
      intro c hc
      have hmem : c ∈ schedule ++ [' '] := hu ▸ mem_append_right before hc
      rcases mem_append.mp hmem with hmem | hmem
      · rcases schedule_chars h.fieldChars hmem with hspace | hfield
        · constructor <;> rintro rfl <;> exact absurd hspace (by decide)
        · constructor <;> rintro rfl <;> exact absurd hfield (by decide)
      · rw [mem_singleton.mp hmem]
        decide
    rw [hlonger] at hread
    obtain rfl := eq_nil_of_cronRead hchars hesc hread
    rw [append_nil] at hu
    exact ⟨hu ▸ hbefore, hlonger⟩

theorem blanksOnly_of_read :
    BlanksOnly schedule command := by
  obtain ⟨hsame, hrest⟩ := rest_eq_of_read h hfields hread
  constructor
  · intro c hc hspace
    by_contra hblank
    have hmem : c ∈ (schedule ++ [' ']).filter (!isBlank ·) :=
      mem_filter.mpr ⟨mem_append_left _ hc, by simpa using hblank⟩
    rw [hsame, flatten_splitWhitespace] at hmem
    have hnot := (mem_filter.mp hmem).2
    rw [hspace] at hnot
    cases hnot
  · intro c hc
    obtain ⟨-, -, -, hhead⟩ := takeFields_spec 5 (entryOf schedule command)
    rw [hrest] at hhead
    by_contra hblank
    have hblank : isBlank c = true := by simpa using hblank
    have := hhead c ((head?_escape command c hblank).mpr hc)
    rw [hblank] at this
    cases this

end

end Asked

/-- Cron runs an accepted job as asked just when `BlanksOnly` holds. -/
theorem scheduled_as_asked (schedule command : Text) (user comment : Option Text) (cmd : Text)
    (h : buildAddCommand schedule command user comment = .ok cmd) :
    Schedules cmd schedule command comment ↔ BlanksOnly schedule command := by
  obtain ⟨haccepted, rfl⟩ := accepted_of_build h
  have hemitted := emitted_addCommand (cronLine schedule command comment) user
  have hlines := inputLines_cronLine haccepted
  constructor
  · rintro ⟨out, entry, hout, hentry, -, hfields, hread, -⟩
    rw [hemitted] at hout
    obtain rfl : cronLine schedule command comment ++ ['\n'] = out := by simpa using hout
    obtain rfl : entryOf schedule command = entry := by
      rw [hlines] at hentry
      simpa using hentry
    exact blanksOnly_of_read haccepted hfields hread
  · intro hblanks
    have hread := read_of_blanksOnly haccepted hblanks
    refine ⟨_, entryOf schedule command, hemitted, hlines, ?_, ?_, ?_, ?_⟩
    · rw [hlines, filter_isEntry haccepted]
    · rw [hread]
    · rw [hread]
      exact cronReadFrom_escape false command
    · exact (unescapePercentFrom_of_free command).1

theorem scheduled_as_asked_backup :
    Schedules "(crontab -l 2>/dev/null; printf '%s\\n' '0 3 * * * date +\\%F') | crontab -".toList
      "0 3 * * *".toList "date +%F".toList none := by
  apply (scheduled_as_asked _ _ none none _ rfl).mpr
  constructor
  · intro c hc hspace
    have hall : "0 3 * * *".toList.all (fun c => !isWhitespace c || isBlank c) = true := rfl
    have hblank := all_eq_true.mp hall c hc
    rw [hspace] at hblank
    exact hblank
  · intro c hc
    cases hc
    rfl

theorem vertical_tab_moves_fields :
    buildAddCommand "0\x0b* * * *".toList "reboot".toList none none =
        .ok "(crontab -l 2>/dev/null; printf '%s\\n' '0\x0b* * * * reboot') | crontab -".toList ∧
      ¬ Schedules "(crontab -l 2>/dev/null; printf '%s\\n' '0\x0b* * * * reboot') | crontab -".toList
        "0\x0b* * * *".toList "reboot".toList none := by
  refine ⟨rfl, ?_⟩
  rintro ⟨out, entry, hout, hlines, -, hfields, -⟩
  have hemitted := emitted_addCommand "0\x0b* * * * reboot".toList none
  obtain rfl : "0\x0b* * * * reboot\n".toList = out := by
    have heq := hemitted.symm.trans hout
    simpa using heq
  obtain rfl : "0\x0b* * * * reboot".toList = entry := singleton_inj.mp hlines
  exact absurd hfields (by decide)

end BridgeMcp.Cron
