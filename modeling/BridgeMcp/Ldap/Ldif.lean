import BridgeMcp.Ldap.Uri
import BridgeMcp.Lib.Lines
import BridgeMcp.Lib.Replace

/-!
The check of an LDIF text (`domain/use_cases/ldap.rs`): the client must not read a file of the host.
A long line may be folded, and the check is the same however it is.
-/
namespace BridgeMcp.Ldap
open TextLib LineLib BridgeMcp.Shell List

/-- A line that starts with a blank continues the line before it. -/
def joinLine (logical : List Text) (line : Text) : List Text :=
  match stripPrefix [' '] line, logical.getLast? with
  | some rest, some previous => logical.dropLast ++ [previous ++ rest]
  | _, _ => logical ++ [line]

def logicalLines (ldif : Text) : List Text := (ldif.splitOn '\n').foldl joinLine []

def readsFile (line : Text) : Bool :=
  line.head? != some '#' && (splitFirst [':'] line).any fun (lineType, value) =>
    value.head? == some '<' || lower (trim lineType) == "include" ||
      lower (trim lineType) == "control"

def fileReadDenied : CommandDenied :=
  ⟨("'ldif' must not read a value from a file ('attr:< file:///...'), " ++
    "carry a 'control:' line (its value can read a file) nor include " ++
    "another file ('include:'): the client would read it on the remote host").toList⟩

def validateLdif (ldif : Text) : Except CommandDenied Unit :=
  let ldif := replaceAll "\r\n" "\n" ldif
  if contains ldif ['\r'] then
    .error ⟨"'ldif' must not contain a carriage return outside a CRLF line end"⟩
  else if (logicalLines ldif).any readsFile then .error fileReadDenied
  else .ok ()

def unfold (ldif : Text) : Text := replaceAll "\n " [] ldif

/-- `folded` is `ldif` with folds inserted, each after at least one character of a line. -/
inductive Folds (ldif : Text) : Text → Prop where
  | none : Folds ldif ldif
  | fold {front back : Text} {c : Char} (h : Folds ldif (front ++ c :: back)) (hc : c ≠ '\n') :
      Folds ldif (front ++ c :: '\n' :: ' ' :: back)

theorem unfold_fold (s : Text) : unfold ('\n' :: ' ' :: s) = unfold s :=
  replaceAll_hit (by decide) [] s

variable {s ldif folded line : Text}

theorem unfold_cons {c : Char} (h : ¬ (c = '\n' ∧ s.head? = some ' ')) :
    unfold (c :: s) = c :: unfold s := by
  refine replaceAll_miss [] ?_
  rintro ⟨rest, hrest⟩
  obtain ⟨rfl, rfl⟩ := cons.inj hrest
  exact h ⟨rfl, rfl⟩

theorem unfold_append : ∀ {front : Text} (s : Text), front.getLast? ≠ some '\n' →
    unfold (front ++ s) = unfold front ++ unfold s
  | [], _, _ => rfl
  | [d], s, h => by
    have hd : ∀ rest : Text, ¬ (d = '\n' ∧ rest.head? = some ' ') := by
      rintro rest ⟨rfl, -⟩
      exact h rfl
    rw [singleton_append, unfold_cons (hd s), unfold_cons (hd [])]
    rfl
  | d :: e :: front, s, h => by
    have hlast : (e :: front).getLast? ≠ some '\n' := by rwa [getLast?_cons_cons] at h
    by_cases hfold : d = '\n' ∧ e = ' '
    · obtain ⟨rfl, rfl⟩ := hfold
      have hfront : front.getLast? ≠ some '\n' := by
        cases front with
        | nil => nofun
        | cons f front => rwa [getLast?_cons_cons] at hlast
      rw [cons_append, cons_append, unfold_fold, unfold_fold, unfold_append s hfront]
    · have hmiss : ∀ rest : Text, ¬ (d = '\n' ∧ (e :: rest).head? = some ' ') := fun rest h =>
        hfold ⟨h.1, Option.some.inj h.2⟩
      have htail := unfold_append s hlast
      rw [cons_append] at htail
      rw [cons_append, cons_append, unfold_cons (hmiss _), unfold_cons (hmiss _), htail]
      rfl

theorem unfold_of_notMem (h : '\n' ∉ s) : unfold s = s := by
  refine replaceAll_of_absent [] fun hin => h (hin.subset ?_)
  decide

theorem Folds.unfold_eq (h : Folds ldif folded) :
    unfold folded = unfold ldif := by
  induction h with
  | none => rfl
  | @fold front back c _ hc ih =>
    have hlast : (front ++ [c]).getLast? ≠ some '\n' := by simpa using hc
    rw [← ih, append_cons, append_cons front c back, unfold_append _ hlast, unfold_fold,
      unfold_append _ hlast]

theorem Folds.notMem (h : Folds ldif folded) (hplain : '\r' ∉ ldif) :
    '\r' ∉ folded := by
  induction h with
  | none => exact hplain
  | fold _ _ ih =>
    simp only [mem_append, mem_cons, not_or] at ih ⊢
    exact ⟨ih.1, ih.2.1, by decide, by decide, ih.2.2⟩

theorem joinLine_blank (logical : List Text) (previous more : Text) :
    joinLine (logical ++ [previous]) (' ' :: more) = logical ++ [previous ++ more] := by
  simp [joinLine, stripPrefix]

theorem joinLine_plain (h : line.head? ≠ some ' ') (logical : List Text) :
    joinLine logical line = logical ++ [line] := by
  have hstrip : stripPrefix [' '] line = none := by
    rw [stripPrefix, if_neg]
    rintro ⟨rest, rfl⟩
    exact h rfl
  rw [joinLine, hstrip]

theorem foldl_joinLine {lines : List Text} (hlines : ∀ line ∈ lines, '\n' ∉ line)
    (logical : List Text) {previous : Text} (hprevious : '\n' ∉ previous) :
    lines.foldl joinLine (logical ++ [previous]) =
      logical ++ (previous ++ unfold (lines.flatMap ('\n' :: ·))).splitOn '\n' := by
  induction lines generalizing logical previous with
  | nil =>
    have hnone : previous ++ unfold [] = previous := append_nil _
    rw [flatMap_nil, hnone, splitOn_eq_singleton hprevious]
    rfl
  | cons line lines ih =>
    obtain ⟨hline, hothers⟩ := forall_mem_cons.mp hlines
    have hrest : ∀ {s : Text}, '\n' ∉ s → unfold (s ++ lines.flatMap ('\n' :: ·)) =
        s ++ unfold (lines.flatMap ('\n' :: ·)) := by
      intro s hs
      rw [unfold_append _ fun hlast => hs (mem_of_getLast? hlast), unfold_of_notMem hs]
    rw [foldl_cons, flatMap_cons]
    by_cases hblank : line.head? = some ' '
    · obtain ⟨more, rfl⟩ := head?_eq_some_iff.mp hblank
      have hmore : '\n' ∉ more := fun hmem => hline (mem_cons_of_mem _ hmem)
      rw [joinLine_blank, ih hothers logical (by simpa using ⟨hprevious, hmore⟩), cons_append,
        cons_append, unfold_fold, hrest hmore, append_assoc]
    · have hmiss : (line ++ lines.flatMap ('\n' :: ·)).head? ≠ some ' ' := by
        cases line with
        | nil => cases lines <;> simp
        | cons c line => exact hblank
      rw [joinLine_plain hblank, ih hothers _ hline, cons_append,
        unfold_cons fun h => hmiss h.2, hrest hline, splitOn_append_cons,
        splitOn_eq_singleton hprevious, append_assoc]

theorem intercalate_newline (first : Text) (lines : List Text) :
    ['\n'].intercalate (first :: lines) = first ++ lines.flatMap ('\n' :: ·) := by
  induction lines generalizing first with
  | nil => simp [intercalate]
  | cons line lines ih =>
    rw [flatMap_cons, cons_append, ← ih line]
    simp [intercalate, intersperse]

theorem logicalLines_eq (ldif : Text) : logicalLines ldif = (unfold ldif).splitOn '\n' := by
  obtain ⟨first, lines, hsplit⟩ := exists_cons_of_ne_nil (splitOn_ne_nil '\n' ldif)
  have hall : ∀ line ∈ first :: lines, '\n' ∉ line := by
    intro line hline
    rw [← hsplit] at hline
    exact (of_mem_splitOn hline).1
  obtain ⟨hfirst, hlines⟩ := forall_mem_cons.mp hall
  have hldif : ldif = first ++ lines.flatMap ('\n' :: ·) := by
    rw [← intercalate_newline, ← hsplit, intercalate_splitOn]
  have hstart : joinLine [] first = [] ++ [first] := by
    unfold joinLine
    split
    · rename_i heq
      cases heq
    · rfl
  have hunfold : unfold ldif = first ++ unfold (lines.flatMap ('\n' :: ·)) := by
    rw [hldif, unfold_append _ fun hlast => hfirst (mem_of_getLast? hlast),
      unfold_of_notMem hfirst]
  rw [logicalLines, hsplit, foldl_cons, hstart, foldl_joinLine hlines [] hfirst, hunfold]
  rfl

/-- The client takes this line's value from a file, or splices one in. -/
structure ReadsFile (line : Text) : Prop where
  noComment : line.head? ≠ some '#'
  reads : ∃ lineType value, line = lineType ++ ':' :: value ∧ ':' ∉ lineType ∧
    (value.head? = some '<' ∨ lower (trim lineType) ∈ ["include".toList, "control".toList])

theorem readsFile_of_reads (h : ReadsFile line) : readsFile line = true := by
  obtain ⟨hcomment, lineType, value, rfl, hcolon, hreads⟩ := h
  rw [readsFile, splitFirst_singleton hcolon, Bool.and_eq_true]
  refine ⟨bne_iff_ne.mpr hcomment, ?_⟩
  simpa [or_assoc] using hreads

def unfoldedLines (ldif : Text) : List Text :=
  (unfold (replaceAll "\r\n" "\n" ldif)).splitOn '\n'

theorem not_reads_of_ok (h : validateLdif ldif = .ok ()) :
    ∀ line ∈ unfoldedLines ldif, ¬ ReadsFile line := by
  intro line hline hreads
  rw [unfoldedLines, ← logicalLines_eq] at hline
  unfold validateLdif at h
  dsimp only at h
  split_ifs at h with hreturn hfile
  exact hfile (any_eq_true.mpr ⟨line, hline, readsFile_of_reads hreads⟩)

theorem validateLdif_of_notMem (h : '\r' ∉ ldif) :
    validateLdif ldif =
      if ((unfold ldif).splitOn '\n').any readsFile then .error fileReadDenied else .ok () := by
  have hsame : replaceAll "\r\n" "\n" ldif = ldif :=
    replaceAll_of_absent _ fun hin => h (hin.subset (by decide))
  have hnone : ¬ contains ldif ['\r'] = true := by
    rw [TextLib.contains, splitFirst_eq_none h]
    decide
  rw [validateLdif, hsame, if_neg hnone, logicalLines_eq]

/-- Folding changes no verdict, and no line of an accepted text reads a file. -/
theorem folds_hide_nothing :
    (∀ ldif folded : Text, '\r' ∉ ldif → Folds ldif folded →
      validateLdif folded = validateLdif ldif) ∧
    ∀ ldif : Text, validateLdif ldif = .ok () → ∀ line ∈ unfoldedLines ldif, ¬ ReadsFile line := by
  refine ⟨fun ldif folded hplain hfolds => ?_, fun ldif => not_reads_of_ok⟩
  rw [validateLdif_of_notMem hplain, validateLdif_of_notMem (hfolds.notMem hplain),
    hfolds.unfold_eq]

end BridgeMcp.Ldap
