import BridgeMcp.Connections.Load
import BridgeMcp.Lib.Lines

/-!
The blocks of an ssh config (`config/ssh_config.rs`): what each `Host` block gives, what the parser
reads of it, and which defaults a block meets when it is closed.
-/
namespace BridgeMcp.Connections
open TextLib LineLib List PartialHost Option

def IsBlank (c : Char) : Prop := c = ' ' ∨ c = '\t'

/-- A `Key Value` line. A value that starts with `=` would make it a `Key=Value` line. -/
structure Directive where
  indent : Text
  key : Text
  gap : Text
  value : Text
  trail : Text
  indent_blank : ∀ c ∈ indent, IsBlank c
  key_ne : key ≠ []
  key_letters : ∀ c ∈ key, c.isAlphanum = true
  gap_ne : gap ≠ []
  gap_blank : ∀ c ∈ gap, IsBlank c
  value_ne : value ≠ []
  value_line : '\n' ∉ value
  value_head : ∀ c ∈ value.head?, isWhitespace c = false ∧ c ≠ '='
  value_last : ∀ c ∈ value.getLast?, isWhitespace c = false
  trail_blank : ∀ c ∈ trail, IsBlank c

namespace Directive

def core (d : Directive) : Text := d.key ++ (d.gap ++ d.value)

def text (d : Directive) : Text := d.indent ++ d.core ++ d.trail

/-- No `=` before the value's last character. -/
def readable (d : Directive) : Bool := decide ('=' ∉ d.value.dropLast)

def name (d : Directive) : Text := lower d.key

def ofWords (key word : Text) (hkey : key ≠ [] ∧ key.all Char.isAlphanum = true)
    (hword : word ≠ [] ∧ word.all (fun c => !isWhitespace c && c != '=') = true) : Directive where
  indent := []
  key := key
  gap := [' ']
  value := word
  trail := []
  indent_blank := forall_mem_nil _
  key_ne := hkey.1
  key_letters := all_eq_true.mp hkey.2
  gap_ne := cons_ne_nil _ _
  gap_blank := forall_mem_singleton.mpr (.inl rfl)
  value_ne := hword.1
  value_line := fun hmem => nomatch all_eq_true.mp hword.2 _ hmem
  value_head := fun c hc => by
    simpa using all_eq_true.mp hword.2 c (mem_of_mem_head? hc)
  value_last := fun c hc => by
    have h := all_eq_true.mp hword.2 c (mem_of_getLast? hc)
    simp only [Bool.and_eq_true, Bool.not_eq_true'] at h
    exact h.1
  trail_blank := forall_mem_nil _

end Directive

def supported : List Text :=
  ["hostname", "port", "user", "identityfile", "proxyjump"]

/-- A `Host` line and the lines below it, with no supported key twice. -/
structure Block where
  header : Directive
  settings : List Directive
  header_host : header.name = "host"
  settings_plain : ∀ d ∈ settings, d.name ≠ "host"
  settings_once : settings.Pairwise fun d e => d.name ∈ supported → d.name ≠ e.name

namespace Block

def directives (b : Block) : List Directive := b.header :: b.settings

def hostAlias (b : Block) : Text := b.header.value

/-- One alias that is no pattern. -/
def Concrete (b : Block) : Prop :=
  ∀ c ∈ b.hostAlias, c ≠ '*' ∧ c ≠ '?' ∧ c ≠ '=' ∧ isWhitespace c = false

end Block

def configText (blocks : List Block) : Text :=
  unlines ((blocks.flatMap Block.directives).map Directive.text)

def valueOf (settings : List Directive) (name : Text) : Option Text :=
  (settings.find? (·.name = name)).map Directive.value

def given (settings : List Directive) : PartialHost where
  hostname := valueOf settings "hostname"
  port := (valueOf settings "port").bind parsePort
  user := valueOf settings "user"
  identityFile := valueOf settings "identityfile"
  proxyJump := valueOf settings "proxyjump"

def read (settings : List Directive) : PartialHost := given (settings.filter Directive.readable)

def PartialHost.over (own defaults : PartialHost) : PartialHost where
  hostname := own.hostname.or defaults.hostname
  port := own.port.or defaults.port
  user := own.user.or defaults.user
  identityFile := own.identityFile.or defaults.identityFile
  proxyJump := own.proxyJump.or defaults.proxyJump

/-- Two sets of values make the same host, or both none. -/
structure Agree (env : Environment) (p q : PartialHost) : Prop where
  hostname : p.hostname = q.hostname
  port : p.hostname.isSome → p.port.getD 22 = q.port.getD 22
  user : p.hostname.isSome → p.user.getD (systemUser env) = q.user.getD (systemUser env)
  identityFile : p.hostname.isSome →
    p.identityFile.filter (fun key => (env.files (homeExpandOrInput env key)).isSome) =
      q.identityFile.filter fun key => (env.files (homeExpandOrInput env key)).isSome
  proxyJump : p.hostname.isSome → p.proxyJump = q.proxyJump

theorem IsBlank.isWhitespace {c : Char} (h : IsBlank c) : isWhitespace c = true := by
  rcases h with rfl | rfl
  · rfl
  · rfl

theorem not_whitespace_of_isAlphanum {c : Char} (h : c.isAlphanum = true) :
    isWhitespace c = false ∧ c ≠ '=' ∧ c ≠ '#' := by
  refine ⟨?_, ?_, ?_⟩
  · have hcode := isAlphanum_iff.mp h
    simp only [TextLib.isWhitespace, Bool.or_eq_false_iff, Bool.and_eq_false_iff,
      decide_eq_false_iff_not, beq_eq_false_iff_ne]
    omega
  · rintro rfl
    simp at h
  · rintro rfl
    simp at h

namespace Directive

variable (d : Directive)

theorem core_ne : d.core ≠ [] := append_ne_nil_of_left_ne_nil d.key_ne _

theorem head_core {c : Char} (h : c ∈ d.core.head?) : c ∈ d.key := by
  obtain ⟨k, key, hkey⟩ := exists_cons_of_ne_nil d.key_ne
  rw [core, hkey] at h
  rw [hkey]
  cases h
  exact mem_cons_self

theorem trim_text : trim d.text = d.core := by
  refine trim_pad (fun c hc => (d.indent_blank c hc).isWhitespace)
    (fun c hc => (d.trail_blank c hc).isWhitespace) ?_ ?_ d.core_ne
  · intro c hc
    exact (not_whitespace_of_isAlphanum (d.key_letters c (d.head_core hc))).1
  · intro c hc
    rw [core, ← append_assoc, getLast?_append_of_ne_nil _ d.value_ne] at hc
    exact d.value_last c hc

theorem head_core_ne_comment : d.core.head? ≠ some '#' := by
  intro h
  exact (not_whitespace_of_isAlphanum (d.key_letters '#' (d.head_core h))).2.2 rfl

theorem trim_key : trim d.key = d.key := by
  have hplain : ∀ c ∈ d.key, isWhitespace c = false := fun c hc =>
    (not_whitespace_of_isAlphanum (d.key_letters c hc)).1
  have h : trim ([] ++ d.key ++ []) = d.key :=
    trim_pad (forall_mem_nil _) (forall_mem_nil _)
      (fun c hc => hplain c (mem_of_mem_head? hc))
      (fun c hc => hplain c (mem_of_getLast? hc)) d.key_ne
  rwa [nil_append, append_nil] at h

theorem splitDirective_core : splitDirective d.core = some (d.key, d.value) := by
  obtain ⟨g, gap, hgap⟩ := exists_cons_of_ne_nil d.gap_ne
  have hblank := d.gap_blank
  rw [hgap] at hblank
  obtain ⟨hg, hrest⟩ := forall_mem_cons.mp hblank
  have hkey : ∀ c ∈ d.key, (!isWhitespace c) = true := by
    intro c hc
    rw [(not_whitespace_of_isAlphanum (d.key_letters c hc)).1]
    rfl
  have hstop : (!isWhitespace g) = false := by
    rw [hg.isWhitespace]
    rfl
  have htake : d.core.takeWhile (!isWhitespace ·) = d.key := by
    rw [core, hgap, takeWhile_append_of_pos hkey, cons_append,
      takeWhile_cons_of_neg (by rw [hstop]; exact Bool.false_ne_true), append_nil]
  have hdrop : d.core.dropWhile (!isWhitespace ·) = g :: (gap ++ d.value) := by
    rw [core, hgap, dropWhile_append_of_pos hkey, cons_append,
      dropWhile_cons_of_neg (by rw [hstop]; exact Bool.false_ne_true)]
  have hvalue : trim (gap ++ d.value) = d.value := by
    have h : trim (gap ++ d.value ++ []) = d.value :=
      trim_pad (fun c hc => (hrest c hc).isWhitespace) (forall_mem_nil _)
        (fun c hc => (d.value_head c hc).1) d.value_last d.value_ne
    rwa [append_nil] at h
  simp only [splitDirective, htake, hdrop, hvalue, d.trim_key]
  exact if_neg (not_or.mpr ⟨d.key_ne, d.value_ne⟩)

theorem equals_notMem : '=' ∉ d.key ++ d.gap := by
  intro h
  rcases mem_append.mp h with hkey | hgap
  · exact (not_whitespace_of_isAlphanum (d.key_letters _ hkey)).2.1 rfl
  · rcases d.gap_blank _ hgap with h | h
    · cases h
    · cases h

theorem parse_readable (h : d.readable = true) : parseDirective d.core = some (d.key, d.value) := by
  have hinner : '=' ∉ d.value.dropLast := of_decide_eq_true h
  by_cases hmem : '=' ∈ d.value
  · -- the only one is the last character, with nothing for a value behind it
    have hlast : d.value = d.value.dropLast ++ ['='] := by
      obtain ⟨body, last, hvalue⟩ := (eq_nil_or_concat' d.value).resolve_left d.value_ne
      rw [hvalue, dropLast_concat] at hinner
      rw [hvalue] at hmem ⊢
      rcases mem_append.mp hmem with hbody | hend
      · exact absurd hbody hinner
      · rw [dropLast_concat, mem_singleton.mp hend]
    have hsplit : splitFirst ['='] d.core = some (d.key ++ d.gap ++ d.value.dropLast, []) := by
      have hcore : d.core = (d.key ++ d.gap ++ d.value.dropLast) ++ '=' :: [] := by
        rw [core, append_assoc _ _ ['='], ← hlast, append_assoc]
      rw [hcore]
      apply splitFirst_singleton
      rw [mem_append, not_or]
      exact ⟨d.equals_notMem, hinner⟩
    rw [parseDirective, hsplit]
    exact (if_neg fun hboth => hboth.2 rfl).trans d.splitDirective_core
  · have hnone : splitFirst ['='] d.core = none := by
      apply splitFirst_eq_none
      rw [core, ← append_assoc, mem_append, not_or]
      exact ⟨d.equals_notMem, hmem⟩
    rw [parseDirective, hnone]
    exact d.splitDirective_core

theorem parse_unreadable (h : d.readable = false) :
    ∃ key value, parseDirective d.core = some (key, value) ∧ ∃ c ∈ key, isWhitespace c = true := by
  have hinner : '=' ∈ d.value.dropLast := by
    rw [readable, decide_eq_false_iff_not, not_not] at h
    exact h
  obtain ⟨before, after, hbody, hbefore⟩ := eq_append_cons_of_mem hinner
  obtain ⟨body, last, hvalue⟩ := (eq_nil_or_concat' d.value).resolve_left d.value_ne
  rw [hvalue, dropLast_concat] at hbody
  have hlast : isWhitespace last = false := by
    apply d.value_last
    rw [hvalue]
    exact getLast?_concat
  have hsplit : splitFirst ['='] d.core = some (d.key ++ d.gap ++ before, after ++ [last]) := by
    have hcore : d.core = (d.key ++ d.gap ++ before) ++ '=' :: (after ++ [last]) := by
      rw [core, hvalue, hbody]
      simp
    rw [hcore]
    apply splitFirst_singleton
    rw [mem_append, not_or]
    exact ⟨d.equals_notMem, hbefore⟩
  obtain ⟨first, before, rfl⟩ : ∃ first rest, before = first :: rest := by
    apply exists_cons_of_ne_nil
    rintro rfl
    refine (d.value_head '=' ?_).2 rfl
    rw [hvalue, hbody]
    rfl
  have hfirst : isWhitespace first = false := by
    refine (d.value_head first ?_).1
    rw [hvalue, hbody]
    rfl
  obtain ⟨k, key, hkey⟩ := exists_cons_of_ne_nil d.key_ne
  have hk : isWhitespace k = false :=
    (not_whitespace_of_isAlphanum (d.key_letters k (hkey ▸ mem_cons_self))).1
  obtain ⟨g, gap, hgap⟩ := exists_cons_of_ne_nil d.gap_ne
  have hblank : g ∈ trim (d.key ++ d.gap ++ first :: before) := by
    rw [hgap, append_assoc, cons_append]
    refine mem_trim (hkey ▸ mem_cons_self) hk ?_ hfirst
    simp
  have hafter : trim (after ++ [last]) ≠ [] := by
    intro hnil
    have hws := trim_eq_nil hnil last (by simp)
    rw [hlast] at hws
    cases hws
  refine ⟨_, trim (after ++ [last]), ?_, g, hblank, (d.gap_blank g (hgap ▸ mem_cons_self)).isWhitespace⟩
  rw [parseDirective, hsplit]
  exact if_pos ⟨ne_nil_of_mem hblank, hafter⟩

theorem newline_notMem_text : '\n' ∉ d.text := by
  have hblank : ∀ {t : Text}, (∀ c ∈ t, IsBlank c) → '\n' ∉ t := by
    intro t ht hmem
    rcases ht _ hmem with h | h
    · cases h
    · cases h
  have hkey : '\n' ∉ d.key := by
    intro hmem
    exact absurd (d.key_letters _ hmem) (by decide)
  simp only [text, core, mem_append, not_or]
  exact ⟨⟨hblank d.indent_blank, hkey, hblank d.gap_blank, d.value_line⟩, hblank d.trail_blank⟩

theorem getLast_text : d.text.getLast? ≠ some '\r' := by
  intro h
  by_cases htrail : d.trail = []
  · rw [text, htrail, append_nil, core, ← append_assoc, ← append_assoc,
      getLast?_append_of_ne_nil _ d.value_ne] at h
    exact absurd (d.value_last '\r' h) (by decide)
  · rw [text, getLast?_append_of_ne_nil _ htrail] at h
    rcases d.trail_blank '\r' (mem_of_getLast? h) with h | h
    · cases h
    · cases h

end Directive

theorem lines_directives (ds : List Directive) :
    lines (unlines (ds.map Directive.text)) = ds.map Directive.text := by
  induction ds with
  | nil => rfl
  | cons d ds ih =>
    have hfirst := lines_line d.newline_notMem_text d.getLast_text .lf
      (unlines (ds.map Directive.text))
    rw [ih] at hfirst
    exact hfirst

section
variable {env : Environment} {exclude : List Text}

theorem line_of_parse {state : Discovery} {line key value : Text} (hne : trim line ≠ [])
    (hcomment : (trim line).head? ≠ some '#')
    (hparse : parseDirective (trim line) = some (key, value)) :
    state.line env exclude line =
      if lower key = "host" then state.openHost env exclude value
      else if state.currentAlias = some ['*'] then
        { state with globalDefaults := state.globalDefaults.applyDirective key value }
      else if state.currentAlias.isSome then
        { state with currentHost := state.currentHost.applyDirective key value }
      else state := by
  simp only [Discovery.line, hparse]
  exact if_neg (not_or.mpr ⟨hne, hcomment⟩)

theorem lower_ne_of_whitespace {key name : Text} (hname : ∀ c ∈ name, isWhitespace c = false)
    {c : Char} (hc : c ∈ key) (hblank : isWhitespace c = true) : lower key ≠ name := by
  intro h
  have hlower : c.toLower = c := by
    simp only [isWhitespace, Bool.or_eq_true, Bool.and_eq_true, decide_eq_true_eq, beq_iff_eq] at hblank
    exact toLower_of_not_upper (by omega)
  have hin : c ∈ name := by
    rw [← h, lower]
    exact mem_map.mpr ⟨c, hc, hlower⟩
  rw [hname c hin] at hblank
  cases hblank

def Discovery.absorb (state : Discovery) (change : PartialHost → PartialHost) : Discovery :=
  if state.currentAlias = some ['*'] then { state with globalDefaults := change state.globalDefaults }
  else if state.currentAlias.isSome then { state with currentHost := change state.currentHost }
  else state

theorem absorb_id (state : Discovery) : state.absorb id = state := by
  simp only [Discovery.absorb, id]
  split
  · rfl
  · split <;> rfl

theorem absorb_absorb (state : Discovery) (f g : PartialHost → PartialHost) :
    (state.absorb f).absorb g = state.absorb (g ∘ f) := by
  by_cases hstar : state.currentAlias = some ['*']
  · simp only [Discovery.absorb, if_pos hstar, Function.comp_apply]
  · by_cases hsome : state.currentAlias.isSome
    · simp only [Discovery.absorb, if_neg hstar, if_pos hsome, Function.comp_apply]
    · simp only [Discovery.absorb, if_neg hstar, if_neg hsome]

theorem line_setting {d : Directive} (hplain : d.name ≠ "host") (state : Discovery) :
    state.line env exclude d.text =
      state.absorb fun host => if d.readable then host.applyDirective d.key d.value else host := by
  have hne : trim d.text ≠ [] := d.trim_text ▸ d.core_ne
  have hcomment : (trim d.text).head? ≠ some '#' := d.trim_text ▸ d.head_core_ne_comment
  cases hreadable : d.readable with
  | true =>
    have hparse := d.trim_text ▸ d.parse_readable hreadable
    have hkey : lower d.key ≠ "host" := hplain
    rw [line_of_parse hne hcomment hparse, if_neg hkey]
    rfl
  | false =>
    obtain ⟨key, value, hparse, c, hc, hblank⟩ := d.parse_unreadable hreadable
    have hunknown : ∀ name : Text, name.all (!isWhitespace ·) = true → lower key ≠ name := by
      intro name hname
      refine lower_ne_of_whitespace (fun c hc => ?_) hc hblank
      simpa using all_eq_true.mp hname c hc
    have hignored : ∀ host : PartialHost, host.applyDirective key value = host := by
      intro host
      simp only [applyDirective]
      rw [if_neg (hunknown _ rfl), if_neg (hunknown _ rfl), if_neg (hunknown _ rfl),
        if_neg (hunknown _ rfl), if_neg (hunknown _ rfl)]
    have hparse := d.trim_text ▸ hparse
    rw [line_of_parse hne hcomment hparse, if_neg (hunknown _ rfl)]
    simp only [hignored]
    rfl

def applyAll (settings : List Directive) (host : PartialHost) : PartialHost :=
  settings.foldl (fun host d => host.applyDirective d.key d.value) host

variable {settings : List Directive}

theorem lines_settings (h : ∀ d ∈ settings, d.name ≠ "host") (state : Discovery) :
    (settings.map Directive.text).foldl (Discovery.line env exclude) state =
      state.absorb (applyAll (settings.filter Directive.readable)) := by
  induction settings generalizing state with
  | nil => exact (absorb_id state).symm
  | cons d settings ih =>
    obtain ⟨hd, hrest⟩ := forall_mem_cons.mp h
    rw [map_cons, foldl_cons, line_setting hd, ih hrest, absorb_absorb]
    congr 1
    funext host
    cases hreadable : d.readable with
    | true => rw [filter_cons_of_pos hreadable]; rfl
    | false => rw [filter_cons_of_neg (by simp [hreadable])]; rfl

theorem PartialHost.over_default (p : PartialHost) : p.over .default = p := by
  simp [PartialHost.over, PartialHost.default]

theorem valueOf_cons (d : Directive) (settings : List Directive) (name : Text) :
    valueOf (d :: settings) name = if d.name = name then some d.value else valueOf settings name := by
  by_cases h : d.name = name
  · simp [valueOf, h]
  · simp [valueOf, h]

theorem valueOf_eq_none {name : Text} (h : ∀ d ∈ settings, name ≠ d.name) :
    valueOf settings name = none := by
  rw [valueOf, find?_eq_none.mpr]
  · rfl
  · intro d hd
    simpa using (h d hd).symm

theorem applyDirective_eq (host : PartialHost) (key value : Text) :
    host.applyDirective key value =
      { hostname := if lower key = "hostname" then some value else host.hostname
        port := if lower key = "port" then (parsePort value).or host.port else host.port
        user := if lower key = "user" then some value else host.user
        identityFile := if lower key = "identityfile" then some value else host.identityFile
        proxyJump := if lower key = "proxyjump" then some value else host.proxyJump } := by
  have hdistinct : supported.Pairwise (· ≠ ·) := by decide
  simp only [supported, pairwise_cons, mem_cons, not_mem_nil, or_false,
    forall_eq_or_imp, forall_eq] at hdistinct
  obtain ⟨⟨h12, h13, h14, h15⟩, ⟨h23, h24, h25⟩, ⟨h34, h35⟩, h45, -⟩ := hdistinct
  rw [applyDirective]
  generalize "hostname" = n1 at *
  generalize "port" = n2 at *
  generalize "user" = n3 at *
  generalize "identityfile" = n4 at *
  generalize "proxyjump" = n5 at *
  -- at most one of the names is the key
  by_cases h1 : lower key = n1
  · simp [h1, h12, h13, h14, h15]
  by_cases h2 : lower key = n2
  · simp [h2, h12.symm, h23, h24, h25]
  by_cases h3 : lower key = n3
  · simp [h3, h13.symm, h23.symm, h34, h35]
  by_cases h4 : lower key = n4
  · simp [h4, h14.symm, h24.symm, h34.symm, h45]
  by_cases h5 : lower key = n5
  · simp [h5, h15.symm, h25.symm, h35.symm, h45.symm]
  simp [h1, h2, h3, h4, h5]

theorem applyAll_eq (h : settings.Pairwise fun d e => d.name ∈ supported → d.name ≠ e.name)
    (host : PartialHost) :
    applyAll settings host = (given settings).over host := by
  induction settings generalizing host with
  | nil => rfl
  | cons d settings ih =>
    obtain ⟨hd, hrest⟩ := pairwise_cons.mp h
    have honce : ∀ name ∈ supported, d.name = name → valueOf settings name = none := by
      rintro name hname rfl
      exact valueOf_eq_none fun e he => hd e he hname
    have hstep : applyAll (d :: settings) host =
        applyAll settings (host.applyDirective d.key d.value) := rfl
    rw [hstep, ih hrest, applyDirective_eq]
    have hfield : ∀ name ∈ supported, ∀ old : Option Text,
        (valueOf settings name).or (if lower d.key = name then some d.value else old) =
          (valueOf (d :: settings) name).or old := by
      intro name hname old
      rw [valueOf_cons]
      by_cases h : d.name = name
      · rw [if_pos h, honce name hname h, Option.none_or]
        exact (if_pos h).trans (Option.some_or).symm
      · rw [if_neg h]
        exact congrArg _ (if_neg h)
    have hport : ((valueOf settings "port").bind parsePort).or
        (if lower d.key = "port" then (parsePort d.value).or host.port else host.port) =
          ((valueOf (d :: settings) "port").bind parsePort).or host.port := by
      rw [valueOf_cons]
      by_cases h : d.name = "port"
      · rw [if_pos h, honce _ (by simp [supported]) h, Option.bind_none, Option.none_or]
        exact if_pos h
      · rw [if_neg h]
        exact congrArg _ (if_neg h)
    simp only [given, PartialHost.over, PartialHost.mk.injEq]
    exact ⟨hfield _ (by simp [supported]) _, hport, hfield _ (by simp [supported]) _,
      hfield _ (by simp [supported]) _, hfield _ (by simp [supported]) _⟩

theorem applyAll_readable (b : Block) (host : PartialHost) :
    applyAll (b.settings.filter Directive.readable) host = (read b.settings).over host :=
  applyAll_eq (b.settings_once.filter Directive.readable) host

variable {b : Block}

theorem line_header (h : '=' ∉ b.hostAlias) (state : Discovery) :
    state.line env exclude b.header.text = state.openHost env exclude b.hostAlias := by
  have hreadable : b.header.readable = true :=
    decide_eq_true fun hmem => h (mem_of_mem_dropLast hmem)
  have hparse := b.header.trim_text ▸ b.header.parse_readable hreadable
  have hkey : lower b.header.key = "host" := b.header_host
  rw [line_of_parse (b.header.trim_text ▸ b.header.core_ne)
    (b.header.trim_text ▸ b.header.head_core_ne_comment) hparse, if_pos hkey]
  rfl

def blockRun (env : Environment) (exclude : List Text) (state : Discovery) (b : Block) : Discovery :=
  (b.directives.map Directive.text).foldl (Discovery.line env exclude) state

theorem blockRun_eq (h : '=' ∉ b.hostAlias) (state : Discovery) :
    blockRun env exclude state b =
      (state.openHost env exclude b.hostAlias).absorb
        (applyAll (b.settings.filter Directive.readable)) := by
  rw [blockRun, Block.directives, map_cons, foldl_cons, line_header h,
    lines_settings b.settings_plain]

def insertHost (hosts : Hosts) (name : Text) : Option HostConfig → Hosts
  | none => hosts
  | some host => hosts.insert name host

theorem blockRun_concrete (hb : b.Concrete) (state : Discovery) :
    (blockRun env exclude state b).globalDefaults = state.globalDefaults ∧
      (blockRun env exclude state b).finalize env =
        if b.hostAlias ∈ exclude then state.finalize env
        else insertHost (state.finalize env) b.hostAlias
          ((read b.settings).toHostConfig env state.globalDefaults) := by
  have hequals : '=' ∉ b.hostAlias := fun h => (hb _ h).2.2.1 rfl
  have hpattern : ¬ ('*' ∈ b.hostAlias ∨ '?' ∈ b.hostAlias) := by
    rintro (h | h)
    · exact (hb _ h).1 rfl
    · exact (hb _ h).2.1 rfl
  have hstar : b.hostAlias ≠ ['*'] := by
    intro h
    exact hpattern (.inl (h ▸ mem_cons_self))
  rw [blockRun_eq hequals]
  simp only [Discovery.openHost, if_neg hpattern]
  by_cases hexclude : b.hostAlias ∈ exclude
  · simp only [if_pos hexclude]
    exact ⟨rfl, rfl⟩
  · have hmarker : some b.hostAlias ≠ some ['*'] := fun h => hstar (some.inj h)
    have hread := applyAll_readable b .default
    rw [over_default] at hread
    simp only [if_neg hexclude, Discovery.absorb, if_neg hmarker, isSome_some, if_true, hread]
    refine ⟨trivial, ?_⟩
    simp only [Discovery.finalize, if_neg hstar]
    cases (read b.settings).toHostConfig env state.globalDefaults <;> rfl

theorem blockRun_star (hb : b.hostAlias = ['*']) (state : Discovery) :
    (blockRun env exclude state b).globalDefaults = (read b.settings).over state.globalDefaults ∧
      (blockRun env exclude state b).finalize env = state.finalize env := by
  have hequals : '=' ∉ b.hostAlias := by
    rw [hb]
    decide
  rw [blockRun_eq hequals]
  simp only [Discovery.openHost, Discovery.absorb, hb, if_true, applyAll_readable]
  exact ⟨rfl, rfl⟩

theorem lookup_insertHost_self (hosts : Hosts) (name : Text) (host : Option HostConfig)
    (h : hosts.lookup name = none) : (insertHost hosts name host).lookup name = host := by
  cases host with
  | none => exact h
  | some host => exact AList.lookup_insert hosts

theorem lookup_insertHost_ne {name other : Text} (hne : other ≠ name) (hosts : Hosts)
    (host : Option HostConfig) : (insertHost hosts name host).lookup other = hosts.lookup other := by
  cases host with
  | none => rfl
  | some host => exact AList.lookup_insert_ne hne

structure Ran (env : Environment) (exclude : List Text) (blocks : List Block) (state after : Discovery) :
    Prop where
  defaults : after.globalDefaults = state.globalDefaults
  found : ∀ b ∈ blocks, b.hostAlias ∉ exclude → (state.finalize env).lookup b.hostAlias = none →
    (after.finalize env).lookup b.hostAlias =
      (read b.settings).toHostConfig env state.globalDefaults
  others : ∀ name, (∀ b ∈ blocks, b.hostAlias = name → name ∈ exclude) →
    (after.finalize env).lookup name = (state.finalize env).lookup name

theorem ran_blocks {blocks : List Block} (hconcrete : ∀ b ∈ blocks, b.Concrete)
    (hdistinct : (blocks.map Block.hostAlias).Nodup) (state : Discovery) :
    Ran env exclude blocks state (blocks.foldl (blockRun env exclude) state) := by
  induction blocks generalizing state with
  | nil => exact ⟨rfl, forall_mem_nil _, fun _ _ => rfl⟩
  | cons b blocks ih =>
    obtain ⟨hb, hblocks⟩ := forall_mem_cons.mp hconcrete
    rw [map_cons, nodup_cons] at hdistinct
    obtain ⟨hfirst, hlater⟩ := hdistinct
    have hrun : (blockRun env exclude state b).globalDefaults = _ ∧
        (blockRun env exclude state b).finalize env = _ := blockRun_concrete hb state
    obtain ⟨hdefaults, hfinal⟩ := hrun
    have hrest := ih hblocks hlater (blockRun env exclude state b)
    have hkept : ∀ name, (b.hostAlias = name → name ∈ exclude) →
        ((blockRun env exclude state b).finalize env).lookup name =
          (state.finalize env).lookup name := by
      intro name hname
      rw [hfinal]
      split
      · rfl
      · next hexclude =>
          apply lookup_insertHost_ne
          rintro rfl
          exact hexclude (hname rfl)
    have hunique : ∀ c ∈ blocks, c.hostAlias ≠ b.hostAlias := fun c hc h =>
      hfirst (h ▸ mem_map_of_mem hc)
    constructor
    · exact hrest.defaults.trans hdefaults
    · intro c hc hexclude hnone
      rcases mem_cons.mp hc with rfl | hc
      · rw [foldl_cons, hrest.others _ fun d hd h => absurd h (hunique d hd), hfinal,
          if_neg hexclude]
        exact lookup_insertHost_self _ _ _ hnone
      · rw [foldl_cons, hrest.found c hc hexclude, hdefaults]
        rw [hkept _ fun h => absurd h.symm (hunique c hc)]
        exact hnone
    · intro name hname
      obtain ⟨hown, hothers⟩ := forall_mem_cons.mp hname
      rw [foldl_cons, hrest.others name hothers, hkept name hown]

theorem parse_blocks (blocks : List Block) :
    parseSshConfigContent env (configText blocks) exclude =
      (blocks.foldl (blockRun env exclude) .start).finalize env := by
  rw [parseSshConfigContent, configText, lines_directives, map_flatMap, foldl_flatMap]
  rfl

theorem toHostConfig_over (own defaults : PartialHost) :
    own.toHostConfig env defaults = (own.over defaults).toHostConfig env .default := by
  simp [PartialHost.toHostConfig, PartialHost.over, PartialHost.auth, PartialHost.default]

theorem auth_eq_iff (p q : PartialHost) :
    p.auth env .default = q.auth env .default ↔
      p.identityFile.filter (fun key => (env.files (homeExpandOrInput env key)).isSome) =
        q.identityFile.filter fun key => (env.files (homeExpandOrInput env key)).isSome := by
  have hauth : ∀ r : PartialHost, r.auth env .default =
      ((r.identityFile.filter fun key => (env.files (homeExpandOrInput env key)).isSome).map
        fun key => AuthConfig.key key none).getD .agent := by
    intro r
    simp only [PartialHost.auth, PartialHost.default, Option.or_none]
    cases r.identityFile with
    | none => rfl
    | some key =>
      rw [Option.filter_some]
      by_cases h : (env.files (homeExpandOrInput env key)).isSome
      · simp only [if_pos h, Option.map_some, Option.getD_some]
      · simp only [if_neg h, Option.map_none, Option.getD_none]
  rw [hauth p, hauth q]
  generalize p.identityFile.filter _ = k
  generalize q.identityFile.filter _ = k'
  cases k with
  | none => cases k' <;> simp
  | some key => cases k' <;> simp

theorem toHostConfig_eq_iff (own defaults own' defaults' : PartialHost) :
    own.toHostConfig env defaults = own'.toHostConfig env defaults' ↔
      Agree env (own.over defaults) (own'.over defaults') := by
  rw [toHostConfig_over own, toHostConfig_over own']
  generalize own.over defaults = p
  generalize own'.over defaults' = q
  have habsent : ∀ {r : PartialHost}, r.hostname = none → r.toHostConfig env .default = none := by
    intro r hr
    simp [PartialHost.toHostConfig, PartialHost.default, hr]
  have hpresent : ∀ {r : PartialHost} {name : Text}, r.hostname = some name →
      ∃ host, r.toHostConfig env .default = some host := by
    intro r name hr
    simp [PartialHost.toHostConfig, hr]
  cases hp : p.hostname with
  | none =>
    cases hq : q.hostname with
    | none =>
      have hvacuous : ¬ p.hostname.isSome = true := by simp [hp]
      exact iff_of_true ((habsent hp).trans (habsent hq).symm) ⟨hp.trans hq.symm,
        fun h => absurd h hvacuous, fun h => absurd h hvacuous, fun h => absurd h hvacuous,
        fun h => absurd h hvacuous⟩
    | some name =>
      obtain ⟨host, hhost⟩ := hpresent hq
      rw [habsent hp, hhost]
      exact iff_of_false nofun fun h => nomatch hp.symm.trans (h.hostname.trans hq)
  | some name =>
    have hsome : p.hostname.isSome = true := by simp [hp]
    cases hq : q.hostname with
    | none =>
      obtain ⟨host, hhost⟩ := hpresent hp
      rw [habsent hq, hhost]
      exact iff_of_false nofun fun h => nomatch hp.symm.trans (h.hostname.trans hq)
    | some name' =>
      simp only [PartialHost.toHostConfig, PartialHost.default, Option.or_none, hp, hq,
        Option.map_some, Option.some.injEq, HostConfig.mk.injEq, and_true]
      constructor
      · rintro ⟨hname, hport, huser, hauth, hproxy⟩
        exact ⟨by rw [hp, hq, hname], fun _ => hport, fun _ => huser,
          fun _ => (auth_eq_iff p q).mp hauth, fun _ => hproxy⟩
      · intro h
        refine ⟨?_, h.port hsome, h.user hsome, (auth_eq_iff p q).mpr (h.identityFile hsome),
          h.proxyJump hsome⟩
        exact Option.some.inj (hp.symm.trans (h.hostname.trans hq))

theorem lookup_iff_asked {blocks : List Block} {hosts : Hosts} (asked : Block → Option HostConfig)
    (hdistinct : (blocks.map Block.hostAlias).Nodup)
    (hothers : ∀ name, (∀ b ∈ blocks, b.hostAlias = name → name ∈ exclude) → hosts.lookup name = none) :
    (∀ name host, hosts.lookup name = some host ↔
        ∃ b ∈ blocks, b.hostAlias = name ∧ name ∉ exclude ∧ asked b = some host) ↔
      ∀ b ∈ blocks, b.hostAlias ∉ exclude → hosts.lookup b.hostAlias = asked b := by
  have hsame : ∀ b ∈ blocks, ∀ c ∈ blocks, c.hostAlias = b.hostAlias → c = b := fun b hb c hc h =>
    inj_on_of_nodup_map hdistinct hc hb h
  constructor
  · intro h b hb hexclude
    apply ext
    intro host
    rw [h]
    constructor
    · rintro ⟨c, hc, halias, -, hasked⟩
      rw [← hsame b hb c hc halias]
      exact hasked
    · intro hasked
      exact ⟨b, hb, rfl, hexclude, hasked⟩
  · intro h name host
    constructor
    · intro hlookup
      by_contra hnone
      have habsent := hothers name fun b hb halias => by
        by_contra hexclude
        refine hnone ⟨b, hb, halias, hexclude, ?_⟩
        rw [← h b hb (halias ▸ hexclude), halias]
        exact hlookup
      exact nomatch habsent.symm.trans hlookup
    · rintro ⟨b, hb, rfl, hexclude, hasked⟩
      rw [h b hb hexclude]
      exact hasked

theorem lookup_parse {before after : List Block} {star : Block} (hstar : star.hostAlias = ['*'])
    (hconcrete : ∀ b ∈ before ++ after, b.Concrete)
    (hdistinct : ((before ++ after).map Block.hostAlias).Nodup) :
    let hosts := parseSshConfigContent env (configText (before ++ star :: after)) exclude
    (∀ b ∈ before, b.hostAlias ∉ exclude →
      hosts.lookup b.hostAlias = (read b.settings).toHostConfig env .default) ∧
    (∀ b ∈ after, b.hostAlias ∉ exclude →
      hosts.lookup b.hostAlias = (read b.settings).toHostConfig env (read star.settings)) ∧
    ∀ name, (∀ b ∈ before ++ after, b.hostAlias = name → name ∈ exclude) →
      hosts.lookup name = none := by
  intro hosts
  obtain ⟨hfirst, hlast⟩ := forall_mem_append.mp hconcrete
  rw [map_append, nodup_append] at hdistinct
  obtain ⟨hbefore, hafter, hdisjoint⟩ := hdistinct
  have hran : Ran env exclude before .start _ := ran_blocks hfirst hbefore .start
  obtain ⟨hdefaults, hkept⟩ : _ ∧ (blockRun env exclude
      (before.foldl (blockRun env exclude) .start) star).finalize env = _ :=
    blockRun_star hstar (before.foldl (blockRun env exclude) .start)
  have hran' : Ran env exclude after (blockRun env exclude
      (before.foldl (blockRun env exclude) .start) star) _ := ran_blocks hlast hafter _
  rw [hran.defaults] at hdefaults
  have hread := hdefaults.trans (over_default (read star.settings))
  have hhosts : hosts = _ := parse_blocks (before ++ star :: after)
  rw [foldl_append, foldl_cons] at hhosts
  have hempty : ∀ name : Text, (Discovery.start.finalize env).lookup name = none := fun _ => rfl
  have hseparate : ∀ b ∈ before, ∀ c ∈ after, c.hostAlias ≠ b.hostAlias := fun b hb c hc h =>
    hdisjoint _ (mem_map_of_mem hb) _ (mem_map_of_mem hc) h.symm
  refine ⟨?_, ?_, ?_⟩
  · intro b hb hexclude
    rw [hhosts, hran'.others _ fun c hc h => absurd h (hseparate b hb c hc), hkept]
    exact hran.found b hb hexclude (hempty _)
  · intro b hb hexclude
    rw [hhosts, hran'.found b hb hexclude, hread]
    rw [hkept, hran.others _ fun c hc h => absurd h.symm (hseparate c hc b hb)]
    exact hempty _
  · intro name hname
    obtain ⟨hown, hlater⟩ := forall_mem_append.mp hname
    rw [hhosts, hran'.others name hlater, hkept, hran.others name hown]
    exact hempty name

variable (env exclude) in
/-- Every order of the blocks gives the map that the blocks ask for just when, for every name that is
not excluded, the values the parser has when it closes the block make the host that the values of the
block and of the `*` block make. No pattern is ever a name of the map. The aliases have no `=`, where
the reader would end the keyword of the header. -/
theorem defaults_apply_iff (before after : List Block) (star : Block)
    (hstar : star.hostAlias = ['*']) (hconcrete : ∀ b ∈ before ++ after, b.Concrete)
    (hdistinct : ((before ++ after).map Block.hostAlias).Nodup) :
    ((∀ name host,
        (parseSshConfigContent env (configText (before ++ star :: after)) exclude).lookup name =
          some host ↔
        ∃ b ∈ before ++ after, b.hostAlias = name ∧ name ∉ exclude ∧
          (given b.settings).toHostConfig env (given star.settings) = some host) ↔
      (∀ b ∈ before, b.hostAlias ∉ exclude →
        Agree env (read b.settings) ((given b.settings).over (given star.settings))) ∧
      ∀ b ∈ after, b.hostAlias ∉ exclude →
        Agree env ((read b.settings).over (read star.settings))
          ((given b.settings).over (given star.settings))) ∧
    ∀ name ∈ parseSshConfigContent env (configText (before ++ star :: after)) exclude,
      '*' ∉ name ∧ '?' ∉ name := by
  obtain ⟨hfound, hfound', hothers⟩ := lookup_parse hstar hconcrete hdistinct
  constructor
  · rw [lookup_iff_asked (fun b => (given b.settings).toHostConfig env (given star.settings))
      hdistinct hothers, forall_mem_append]
    apply and_congr
    · apply forall₂_congr
      intro b hb
      apply imp_congr_right
      intro hexclude
      rw [hfound b hb hexclude, toHostConfig_eq_iff, over_default]
    · apply forall₂_congr
      intro b hb
      apply imp_congr_right
      intro hexclude
      rw [hfound' b hb hexclude, toHostConfig_eq_iff]
  · intro name hname
    obtain ⟨host, hhost⟩ := isSome_iff_exists.mp (AList.lookup_isSome.mpr hname)
    by_contra hpattern
    have hnone := hothers name fun b hb halias => by
      refine absurd ⟨fun h => ?_, fun h => ?_⟩ hpattern
      · exact (hconcrete b hb _ (halias ▸ h)).1 rfl
      · exact (hconcrete b hb _ (halias ▸ h)).2.1 rfl
    exact nomatch hnone.symm.trans hhost

end

def bareEnvironment : Environment where
  rules := .unix
  home := none
  var := fun _ => none
  files := fun _ => none

def blockOf (name : Text) (hname : name ≠ [] ∧ name.all (fun c => !isWhitespace c && c != '=') = true)
    (d : Directive) (hd : d.name ≠ "host") : Block where
  header := .ofWords "Host" name ⟨by decide, rfl⟩ hname
  settings := [d]
  header_host := rfl
  settings_plain := forall_mem_singleton.mpr hd
  settings_once := pairwise_singleton _ _

theorem defaults_apply_iff_first :
    let star := blockOf "*" ⟨by decide, rfl⟩
      (.ofWords "User" "u" ⟨by decide, rfl⟩ ⟨by decide, rfl⟩) (by decide)
    let own := blockOf "a" ⟨by decide, rfl⟩
      (.ofWords "HostName" "h" ⟨by decide, rfl⟩ ⟨by decide, rfl⟩) (by decide)
    configText [star, own] = "Host *\nUser u\nHost a\nHostName h\n" ∧
      ∀ name host,
        (parseSshConfigContent bareEnvironment (configText [star, own]) []).lookup name = some host ↔
          ∃ b ∈ [own], b.hostAlias = name ∧ name ∉ [] ∧
            (given b.settings).toHostConfig bareEnvironment (given star.settings) = some host := by
  intro star own
  have hconcrete : ∀ b ∈ [] ++ [own], b.Concrete := by
    intro b hb
    rw [mem_singleton.mp hb]
    refine forall_mem_singleton.mpr ?_
    decide
  have hiff := (defaults_apply_iff bareEnvironment [] [] [own] star rfl hconcrete
    (nodup_singleton _)).1
  refine ⟨rfl, hiff.mpr ⟨forall_mem_nil _, ?_⟩⟩
  intro b hb _
  rw [mem_singleton.mp hb]
  exact ⟨rfl, fun _ => rfl, fun _ => rfl, fun _ => rfl, fun _ => rfl⟩

/-- A `*` block at the end of the file is read too late. -/
theorem late_defaults_lost :
    ((parseSshConfigContent bareEnvironment "Host *\nUser u\nHost a\nHostName h\n".toList []).lookup
        "a".toList).map HostConfig.user = some "u".toList ∧
      ((parseSshConfigContent bareEnvironment "Host a\nHostName h\nHost *\nUser u\n".toList []).lookup
        "a".toList).map HostConfig.user = some "root".toList ∧
      ((parseSshConfigContent bareEnvironment "Host *\nHostName h\nHost a\nUser u\n".toList []).lookup
        "a".toList).isSome = true ∧
      ((parseSshConfigContent bareEnvironment "Host a\nUser u\nHost *\nHostName h\n".toList []).lookup
        "a".toList) = none := by
  refine ⟨rfl, rfl, rfl, rfl⟩

end BridgeMcp.Connections
