import WordMachine.Proofs.Switches

/-!
# The layout of an argument list

An argument list is made of settings, each written in one of several forms, and of one block of file names.
Where the block stands among the settings does not matter, and neither does the form of a setting: the list
asks for the files of the block, the last text and the last encoding that are set, and a log if there is a
setting for one (`Options.asked`).

A list is gone through argument by argument. `Progress.Reads` says where that leads; a setting takes one step
(`Reads.setting`), a file name another (`Reads.plain`), and a whole list is a chain of such steps. What the
steps come to is then a matter of folds, in which the last setting of a kind wins.

A file name, or a value that is an argument of its own, must not be taken for a switch. `Argument.IsCandidate`
describes the texts that may be, and `classify_eq_plain_iff` shows that all others are plain.
-/

namespace WordMachine

/-! ## Texts that may be switches -/

namespace Argument

/-- The text is a switch with what may belong to it: its long name, whole or cut short, maybe with a value
behind `=`, or its letter with anything behind it. A name cut so short that several switches fit counts too. -/
def NamesSwitch (text : String) : Prop :=
  ∃ s : Switch,
    (['-', '-'] <+: text.toList ∧ text.toList.takeWhile (· ≠ '=') <+: s.long.toList) ∨
    ∃ c rest, s.letter? = some c ∧ text.toList = '-' :: c :: rest

/-- The text may be a switch: it starts with a minus sign that does not stand alone, and either it names a
switch or it is neither a negative number nor has a space in it. -/
def IsCandidate (text : String) : Prop :=
  text.toList.head? = some '-' ∧ text ≠ "-" ∧
    (NamesSwitch text ∨ isNegativeNumber text.toList = false ∧ ' ' ∉ text.toList)

theorem cutEquals_fst (cs : List Char) : (cutEquals cs).1 = cs.takeWhile (· ≠ '=') := by
  induction cs with
  | nil => rfl
  | cons c cs ih =>
    rw [cutEquals]
    by_cases hc : c = '='
    · simp [hc]
    · simp [hc, ih]

theorem cutEquals_append {name : List Char} (h : '=' ∉ name) (value : List Char) :
    cutEquals (name ++ '=' :: value) = (name, some value) := by
  induction name with
  | nil => simp [cutEquals]
  | cons c name ih =>
    simp only [List.mem_cons, not_or] at h
    rw [List.cons_append, cutEquals, if_neg (Ne.symm h.1), ih h.2]

theorem append_of_cutEquals {cs name value : List Char} (h : cutEquals cs = (name, some value)) :
    cs = name ++ '=' :: value := by
  induction cs generalizing name with
  | nil => cases h
  | cons c cs ih =>
    rw [cutEquals] at h
    by_cases hc : c = '='
    · rw [if_pos hc] at h
      cases h
      rw [hc]
      rfl
    · rw [if_neg hc] at h
      obtain ⟨rfl, hvalue⟩ := Prod.mk.inj h
      exact congrArg (c :: ·) (ih (Prod.ext rfl hvalue))

end Argument

theorem Switch.not_mem_long (s : Switch) : '=' ∉ s.long.toList := by
  cases s <;> decide

theorem Switch.dashes_prefix_long (s : Switch) : ['-', '-'] <+: s.long.toList := by
  cases s <;> exact ⟨_, rfl⟩

theorem Switch.named?_long (s : Switch) : named? s.long.toList = some (s, false) := by
  cases s <;> rfl

/-- What a name stands for is a switch with this long name or with this letter. -/
theorem Switch.named?_cases {name : List Char} {s : Switch} {short : Bool}
    (h : named? name = some (s, short)) :
    name = s.long.toList ∨ ∃ c, s.letter? = some c ∧ name = ['-', c] := by
  unfold named? at h
  split at h
  · next c =>
    obtain ⟨s', hs', heq⟩ := Option.map_eq_some_iff.mp h
    cases heq
    exact .inr ⟨c, letter?_of_ofLetter? hs', rfl⟩
  · obtain ⟨s', hs', heq⟩ := Option.map_eq_some_iff.mp h
    cases heq
    have hlong : s.long.toList = name := by simpa using List.find?_some hs'
    exact .inl hlong.symm

theorem Switch.mem_all (s : Switch) : s ∈ all := by
  cases s <;> decide

theorem Switch.startingWith_eq_nil_iff {start : List Char} :
    startingWith start = [] ↔ ∀ s : Switch, ¬ start <+: s.long.toList := by
  simp [startingWith, mem_all]

theorem Switch.ofLetter?_eq_none_iff {c : Char} :
    ofLetter? c = none ↔ ∀ s : Switch, s.letter? ≠ some c := by
  simp [ofLetter?, mem_all]

namespace Argument

section Candidates

variable {text : String}

/-- A name of a switch, alone or before `=`. -/
theorem namesSwitch_of_named? {name rest : List Char} {named : Switch × Bool}
    (htext : text.toList = name ++ rest) (hrest : rest.takeWhile (· ≠ '=') = [])
    (h : Switch.named? name = some named) : NamesSwitch text := by
  obtain hlong | ⟨c, hletter, hname⟩ := Switch.named?_cases h
  · have hname : ∀ c ∈ name, (c ≠ '=' : Bool) := by
      intro c hc
      rw [hlong] at hc
      have hne : c ≠ '=' := ne_of_mem_of_not_mem hc named.1.not_mem_long
      simpa using hne
    have hwhole : text.toList.takeWhile (· ≠ '=') = named.1.long.toList := by
      rw [htext, List.takeWhile_append_of_pos hname, hrest, List.append_nil, hlong]
    refine ⟨named.1, .inl ⟨?_, [], by rw [hwhole, List.append_nil]⟩⟩
    rw [htext, hlong]
    exact named.1.dashes_prefix_long.trans (List.prefix_append _ _)
  · exact ⟨named.1, .inr ⟨c, rest, hletter, by rw [htext, hname]; rfl⟩⟩

theorem namesSwitch_dashes_iff {cs : List Char} (htext : text.toList = '-' :: '-' :: cs) :
    NamesSwitch text ↔ ∃ s : Switch, text.toList.takeWhile (· ≠ '=') <+: s.long.toList := by
  constructor
  · rintro ⟨s, ⟨-, hlong⟩ | ⟨c, rest, hletter, hrest⟩⟩
    · exact ⟨s, hlong⟩
    · rw [htext] at hrest
      cases hrest
      cases s <;> cases hletter
  · rintro ⟨s, hlong⟩
    exact ⟨s, .inl ⟨by rw [htext]; exact ⟨cs, rfl⟩, hlong⟩⟩

theorem namesSwitch_letter_iff {c : Char} {cs : List Char} (htext : text.toList = '-' :: c :: cs)
    (hc : c ≠ '-') : NamesSwitch text ↔ ∃ s : Switch, s.letter? = some c := by
  constructor
  · rintro ⟨s, ⟨hdashes, -⟩ | ⟨c', rest, hletter, hrest⟩⟩
    · rw [htext] at hdashes
      simp [hc.symm] at hdashes
    · rw [htext] at hrest
      cases hrest
      exact ⟨s, hletter⟩
  · rintro ⟨s, hletter⟩
    exact ⟨s, .inr ⟨c, cs, hletter, htext⟩⟩

/-- A text that names no switch exactly may still name one that is cut short or has more glued to it. -/
theorem abbreviated_of_not_namesSwitch {c : Char} {cs : List Char}
    (htext : text.toList = '-' :: c :: cs) (h : ¬ NamesSwitch text) :
    abbreviated text = .ok (leftover text) := by
  unfold abbreviated
  by_cases hc : c = '-'
  · subst hc
    rw [namesSwitch_dashes_iff htext, ← cutEquals_fst, not_exists,
      ← Switch.startingWith_eq_nil_iff, htext] at h
    simp only [htext, h]
  · rw [namesSwitch_letter_iff htext hc, not_exists, ← Switch.ofLetter?_eq_none_iff] at h
    simp only [htext, h]

theorem abbreviated_of_namesSwitch {c : Char} {cs : List Char}
    (htext : text.toList = '-' :: c :: cs) (h : NamesSwitch text) :
    abbreviated text ≠ .ok (.plain text) := by
  unfold abbreviated
  by_cases hc : c = '-'
  · subst hc
    rw [namesSwitch_dashes_iff htext, ← cutEquals_fst] at h
    have hsome : Switch.startingWith (cutEquals text.toList).1 ≠ [] := by
      rw [ne_eq, Switch.startingWith_eq_nil_iff]
      simpa using h
    simp only [htext] at hsome ⊢
    split
    · contradiction
    · simp
    · simp
  · rw [namesSwitch_letter_iff htext hc] at h
    have hsome : Switch.ofLetter? c ≠ none := by
      rw [ne_eq, Switch.ofLetter?_eq_none_iff]
      simpa using h
    obtain ⟨s, hs⟩ := Option.ne_none_iff_exists'.mp hsome
    simp only [htext, hs]
    simp

/-- A text with a minus sign before something else is a switch by its exact name, or it is one cut short. -/
theorem classify_switch_or_abbreviated {c : Char} {cs : List Char}
    (htext : text.toList = '-' :: c :: cs) :
    (NamesSwitch text ∧ ∃ s short value, classify text = .ok (.switch s short value)) ∨
      classify text = abbreviated text := by
  have hstart : ¬ (text.toList.head? ≠ some '-' ∨ text.toList = ['-']) := by simp [htext]
  unfold classify
  rw [if_neg hstart]
  cases hnamed : Switch.named? text.toList with
  | some named =>
    exact .inl ⟨namesSwitch_of_named? (List.append_nil _).symm rfl hnamed, named.1, named.2, none, rfl⟩
  | none =>
    cases hcut : cutEquals text.toList with
    | mk name value =>
    cases value with
    | none => exact .inr rfl
    | some value =>
      cases hname : Switch.named? name with
      | none => exact .inr (by simp only [hname])
      | some named =>
        have hnames : NamesSwitch text :=
          namesSwitch_of_named? (append_of_cutEquals hcut) (by simp) hname
        exact .inl ⟨hnames, named.1, named.2, some (String.ofList value), by simp only [hname]⟩

theorem leftover_eq_plain_iff :
    leftover text = .plain text ↔ ¬ (isNegativeNumber text.toList = false ∧ ' ' ∉ text.toList) := by
  simp only [leftover]
  split
  · next h =>
    simp only [Bool.or_eq_true, List.contains_iff_mem] at h
    refine iff_of_true rfl ?_
    rintro ⟨hnumber, hspace⟩
    rcases h with h | h
    · simp [h] at hnumber
    · exact hspace h
  · next h =>
    simp only [Bool.or_eq_true, List.contains_iff_mem, not_or, Bool.not_eq_true] at h
    exact iff_of_false (by simp) (not_not_intro h)

/-- A text starts with a minus sign before something else, or not. -/
theorem start_cases (text : String) :
    (text.toList.head? ≠ some '-' ∨ text.toList = ['-']) ∨ ∃ c cs, text.toList = '-' :: c :: cs := by
  by_cases hhead : text.toList.head? = some '-'
  · obtain ⟨cs, hcs⟩ := List.head?_eq_some_iff.mp hhead
    cases cs with
    | nil => exact .inl (.inr hcs)
    | cons c cs => exact .inr ⟨c, cs, hcs⟩
  · exact .inl (.inl hhead)

/-- Exactly the texts that may not be switches are plain arguments. -/
theorem classify_eq_plain_iff : classify text = .ok (.plain text) ↔ ¬ IsCandidate text := by
  obtain hstart | ⟨c, cs, htext⟩ := start_cases text
  · have hplain : ¬ IsCandidate text := by
      rintro ⟨hhead, hlone, -⟩
      rcases hstart with hstart | hstart
      · exact hstart hhead
      · exact hlone (String.toList_injective hstart)
    refine iff_of_true ?_ hplain
    rw [classify, if_pos hstart]
  · have hlone : text ≠ "-" := by
      rintro rfl
      cases htext
    by_cases hnames : NamesSwitch text
    · refine iff_of_false ?_ (not_not_intro ⟨by rw [htext]; rfl, hlone, .inl hnames⟩)
      obtain ⟨-, s, short, value, hswitch⟩ | habbreviated := classify_switch_or_abbreviated htext
      · rw [hswitch]
        simp
      · rw [habbreviated]
        exact abbreviated_of_namesSwitch htext hnames
    · have hleftover : classify text = .ok (leftover text) := by
        obtain ⟨hnames', -⟩ | habbreviated := classify_switch_or_abbreviated htext
        · exact absurd hnames' hnames
        · rw [habbreviated, abbreviated_of_not_namesSwitch htext hnames]
      rw [hleftover, Except.ok.injEq, leftover_eq_plain_iff]
      simp [IsCandidate, hnames, hlone, htext]

end Candidates

theorem classify_attached (s : Switch) (value : String) :
    classify (s.long ++ "=" ++ value) = .ok (.switch s false (some value)) := by
  have htext : (s.long ++ "=" ++ value).toList = s.long.toList ++ '=' :: value.toList := by simp
  have hnamed : Switch.named? (s.long.toList ++ '=' :: value.toList) = none := by
    cases s <;> rfl
  obtain ⟨cs, hcs⟩ := s.dashes_prefix_long
  have hstart : ¬ ((s.long.toList ++ '=' :: value.toList).head? ≠ some '-' ∨
      s.long.toList ++ '=' :: value.toList = ['-']) := by
    rw [← hcs]
    simp
  unfold classify
  rw [htext, if_neg hstart]
  simp only [hnamed, cutEquals_append s.not_mem_long, s.named?_long, String.ofList_toList]

/-- An argument that names a file or is the value of a switch before it: it may not be a switch, and it is
not the separator. -/
def IsPlain (text : String) : Prop :=
  ¬ IsCandidate text ∧ text ≠ separatorText

theorem classifyAll_cons {text : String} {a : Argument} (h : classify text = .ok a)
    (rest : List String) : classifyAll (text :: rest) = (classifyAll rest).map (a :: ·) := by
  -- the separator on its own would be a name that several switches fit
  have hseparator : text ≠ separatorText := by
    rintro rfl
    cases h
  rw [classifyAll, if_neg hseparator, h]
  cases classifyAll rest <;> rfl

theorem IsPlain.classify_eq {text : String} (h : IsPlain text) : classify text = .ok (.plain text) :=
  classify_eq_plain_iff.mpr h.1

end Argument

namespace Options

/-! ## Settings -/

/-- Sets a switch with a value that is kept whole. -/
def put (o : Options) : Switch → String → Options
  | .eval, text => { o with text := some (some text) }
  | .encoding, name => { o with encoding := some name }
  | _, _ => o

theorem value_of_ne (o : Options) (s : Switch) {text : String} (h : text ≠ Argument.separatorText) :
    o.value s text = o.put s text := by
  cases s <;> simp [value, put, kept?, h]

/-- How the text to run is set. -/
inductive TextForm where
  /-- `-e TEXT` -/
  | short
  /-- `--eval TEXT` -/
  | long
  /-- `--eval=TEXT` -/
  | attached

/-- A switch with its value, in one of its forms. -/
inductive Setting where
  | text (form : TextForm) (value : String)
  /-- The encoding is named behind `=`, or as an argument of its own. -/
  | encoding (attached : Bool) (name : String)
  | verbose (short : Bool)

namespace Setting

/-- The arguments that a setting is written as. -/
def arguments : Setting → List String
  | text .short value => ["-e", value]
  | text .long value => ["--eval", value]
  | text .attached value => ["--eval=" ++ value]
  | encoding false name => ["--encoding", name]
  | encoding true name => ["--encoding=" ++ name]
  | verbose true => ["-v"]
  | verbose false => ["--verbose"]

/-- A value that is an argument of its own has to be plain. Behind `=` it may be anything but the separator. -/
def Allowed : Setting → Prop
  | text .attached value => value ≠ Argument.separatorText
  | text _ value => Argument.IsPlain value
  | encoding true name => name ≠ Argument.separatorText
  | encoding false name => Argument.IsPlain name
  | verbose _ => True

/-- The text to run that is set. -/
def text? : Setting → Option String
  | text _ value => some value
  | _ => none

/-- The encoding that is set. -/
def encoding? : Setting → Option String
  | encoding _ name => some name
  | _ => none

/-- Whether the log is switched on. -/
def isVerbose : Setting → Bool
  | verbose _ => true
  | _ => false

/-- Makes the setting. -/
def set (o : Options) : Setting → Options
  | text _ value => o.put .eval value
  | encoding _ name => o.put .encoding name
  | verbose _ => o.loud

end Setting

/-- What settings and file names ask for: of each kind of setting the last one counts. -/
def asked (settings : List Setting) (files : List String) : Options where
  files
  text := (settings.filterMap Setting.text?).getLast?.map some
  encoding := some ((settings.filterMap Setting.encoding?).getLast?.getD "utf-8")
  verbose := settings.any Setting.isVerbose

/-! ## One step -/

namespace Progress

/-- Behind `p`, the arguments lead to the options `o`, and all of them are recognized. -/
def Reads (p : Progress) (arguments : List String) (o : Options) : Prop :=
  ∃ as q, Argument.classifyAll arguments = .ok as ∧ p.consume as = .ok q ∧ q.extras = [] ∧
    q.options = o

/-- The progress behind a setting. -/
def told (p : Progress) (s : Setting) : Progress :=
  p.endRun.adjust s.set

variable {p : Progress} {rest : List String} {o : Options}

theorem Reads.plain {text : String} (h : (p.plain text).Reads rest o)
    (htext : Argument.IsPlain text) : p.Reads (text :: rest) o := by
  obtain ⟨as, q, has, hq⟩ := h
  refine ⟨.plain text :: as, q, ?_, hq⟩
  rw [Argument.classifyAll_cons htext.classify_eq, has]
  rfl

/-- A switch that needs no other argument. -/
theorem Reads.switch {name : String} {s : Switch} {short : Bool} {attached : Option String}
    {p' : Progress} (h : p'.Reads rest o)
    (hname : Argument.classify name = .ok (.switch s short attached))
    (hp : ∀ as, p.consume (.switch s short attached :: as) = p'.consume as) :
    p.Reads (name :: rest) o := by
  obtain ⟨as, q, has, hq⟩ := h
  refine ⟨.switch s short attached :: as, q, ?_, by rw [hp]; exact hq⟩
  rw [Argument.classifyAll_cons hname, has]
  rfl

section Values

variable {name value : String} {s : Switch} (hs : s.takesValue = true)
  (h : (p.endRun.adjust (·.put s value)).Reads rest o)
include hs h

/-- A switch with its value behind `=`. -/
theorem Reads.attached (hvalue : value ≠ Argument.separatorText) :
    p.Reads ((s.long ++ "=" ++ value) :: rest) o := by
  refine h.switch (Argument.classify_attached s value) fun as => ?_
  simp only [← value_of_ne _ s hvalue]
  cases s with
  | eval => rfl
  | encoding => rfl
  | help => cases hs
  | verbose => cases hs

/-- A switch and its value as an argument of its own. -/
theorem Reads.apart {short : Bool} (hname : Argument.classify name = .ok (.switch s short none))
    (hvalue : Argument.IsPlain value) : p.Reads (name :: value :: rest) o := by
  obtain ⟨as, q, has, hq⟩ := h
  refine ⟨.switch s short none :: .plain value :: as, q, ?_, ?_⟩
  · rw [Argument.classifyAll_cons hname, Argument.classifyAll_cons hvalue.classify_eq, has]
    rfl
  · simp only [← value_of_ne _ s hvalue.2] at hq
    cases s with
    | eval => exact hq
    | encoding => exact hq
    | help => cases hs
    | verbose => cases hs

end Values

/-- A setting in any of its forms is made, and ends the run of file names if that has begun. -/
theorem Reads.setting {s : Setting} (h : (p.told s).Reads rest o) (hs : s.Allowed) :
    p.Reads (s.arguments ++ rest) o := by
  cases s with
  | text form value =>
    cases form with
    | short => exact .apart (s := .eval) rfl h rfl hs
    | long => exact .apart (s := .eval) rfl h rfl hs
    | attached => exact .attached (s := .eval) rfl h hs
  | encoding attached name =>
    cases attached with
    | false => exact .apart (s := .encoding) rfl h rfl hs
    | true => exact .attached (s := .encoding) rfl h hs
  | verbose short =>
    cases short with
    | false => exact h.switch rfl fun _ => rfl
    | true => exact h.switch rfl fun _ => rfl

/-! ## Whole lists -/

variable {options : Options} {settings : List Setting} (hsettings : ∀ s ∈ settings, s.Allowed)

include hsettings in
/-- Before the first file name, settings are made in order. -/
theorem Reads.leading (h : (mk (settings.foldl Setting.set options) .ahead []).Reads rest o) :
    (mk options .ahead []).Reads (settings.flatMap Setting.arguments ++ rest) o := by
  induction settings generalizing options with
  | nil => exact h
  | cons s settings ih =>
    simp only [List.forall_mem_cons] at hsettings
    rw [List.flatMap_cons, List.append_assoc]
    exact Reads.setting (ih hsettings.2 h) hsettings.1

include hsettings in
/-- At the end of a list they are made wherever the run of file names stands. -/
theorem reads_trailing (run : FileRun) :
    (mk options run []).Reads (settings.flatMap Setting.arguments)
      (settings.foldl Setting.set options) := by
  induction settings generalizing options run with
  | nil => exact ⟨[], mk options run [], rfl, rfl, rfl, rfl⟩
  | cons s settings ih =>
    simp only [List.forall_mem_cons] at hsettings
    rw [List.flatMap_cons]
    refine Reads.setting ?_ hsettings.1
    cases run with
    | ahead => exact ih hsettings.2 .ahead
    | within => exact ih hsettings.2 .passed
    | passed => exact ih hsettings.2 .passed

/-- A plain argument names a file unless the run of file names has ended. -/
theorem plain_of_ne_passed {run : FileRun} (hrun : run ≠ .passed) (text : String) :
    (mk options run []).plain text =
      mk { options with files := options.files ++ [text] } .within [] := by
  cases run with
  | ahead => rfl
  | within => rfl
  | passed => exact absurd rfl hrun

/-- A block of file names. -/
theorem Reads.block {names : List String} {run : FileRun} (hrun : run ≠ .passed)
    (hnames : ∀ name ∈ names, Argument.IsPlain name)
    (h : ∀ run, (mk { options with files := options.files ++ names } run []).Reads rest o) :
    (mk options run []).Reads (names ++ rest) o := by
  induction names generalizing options run with
  | nil => simpa using h run
  | cons name names ih =>
    simp only [List.forall_mem_cons] at hnames
    refine Reads.plain ?_ hnames.1
    rw [plain_of_ne_passed hrun]
    exact ih nofun hnames.2 (by simpa using h)

theorem consume_plains (options : Options) {run : FileRun} (hrun : run ≠ .passed)
    (texts : List String) :
    ∃ run', (mk options run []).consume (texts.map .plain) =
      .ok (mk { options with files := options.files ++ texts } run' []) := by
  induction texts generalizing options run with
  | nil => exact ⟨run, by rw [List.append_nil]; rfl⟩
  | cons text texts ih =>
    have hwithin : FileRun.within ≠ .passed := nofun
    rw [List.map_cons, consume, plain_of_ne_passed hrun]
    simpa using ih { options with files := options.files ++ [text] } hwithin

/-- Behind the separator all arguments name files. -/
theorem reads_separator (options : Options) (texts : List String) :
    (mk options .ahead []).Reads (Argument.separatorText :: texts)
      { options with files := options.files ++ texts } := by
  have hwithin : FileRun.within ≠ .passed := nofun
  obtain ⟨run, hplains⟩ := consume_plains options hwithin texts
  refine ⟨.separator :: texts.map .plain, _, ?_, hplains, rfl, rfl⟩
  rw [Argument.classifyAll, if_pos rfl]

end Progress

/-- Settings that are made one after the other: of each kind the last one wins over all before it. -/
theorem foldl_set (o : Options) (settings : List Setting) :
    settings.foldl Setting.set o =
      { files := o.files
        text := ((settings.filterMap Setting.text?).getLast?.map some).or o.text
        encoding := (settings.filterMap Setting.encoding?).getLast?.or o.encoding
        verbose := o.verbose || settings.any Setting.isVerbose } := by
  induction settings generalizing o with
  | nil => simp
  | cons s settings ih =>
    rw [List.foldl_cons, ih]
    cases s with
    | text form value =>
      cases hlast : (settings.filterMap Setting.text?).getLast? <;>
        simp [Setting.set, put, Setting.text?, Setting.encoding?, Setting.isVerbose, List.getLast?_cons, hlast]
    | encoding attached name =>
      cases hlast : (settings.filterMap Setting.encoding?).getLast? <;>
        simp [Setting.set, put, Setting.text?, Setting.encoding?, Setting.isVerbose, List.getLast?_cons, hlast]
    | verbose short => simp [Setting.set, loud, Setting.text?, Setting.encoding?, Setting.isVerbose]

theorem files_foldl_set (settings : List Setting) :
    (settings.foldl Setting.set ({} : Options)).files = [] := by
  rw [foldl_set]

/-- The files may be named before the settings, behind them, or in between. -/
theorem foldl_set_eq_asked (before after : List Setting) (files : List String) :
    after.foldl Setting.set { before.foldl Setting.set {} with files } =
      asked (before ++ after) files := by
  rw [foldl_set, foldl_set]
  simp only [asked, List.filterMap_append, List.getLast?_append, List.any_append, Option.map_or,
    Option.or_none, Option.or_some, Option.getD_or, Bool.false_or]

/-- **The layout of the arguments does not matter.** Take any settings in any order, each kind any number of
times and in any of its forms, and any file names. A file name, and a value that is an argument of its own,
must not be what may be a switch, nor the separator.

* Wherever the file names stand among the settings as one block, the list asks for just these files, the last
  text and the last encoding that are set, and a log if there is a setting for one. Without a setting there is
  no text and the encoding is UTF-8.
* Behind the settings and the separator all arguments are file names, whatever they look like, and the settings
  are the same. -/
theorem layout_does_not_matter (before after : List Setting) (names : List String)
    (hsettings : ∀ s ∈ before ++ after, s.Allowed) (hnames : ∀ name ∈ names, Argument.IsPlain name) :
    parse (before.flatMap Setting.arguments ++ names ++ after.flatMap Setting.arguments) =
      .ok (asked (before ++ after) names) ∧
    ∀ texts : List String,
      parse ((before ++ after).flatMap Setting.arguments ++ "--" :: texts) =
        .ok (asked (before ++ after) texts) := by
  constructor
  · obtain ⟨hbefore, hafter⟩ := List.forall_mem_append.mp hsettings
    rw [List.append_assoc, ← foldl_set_eq_asked]
    refine parse_eq_ok_iff.mpr (Progress.Reads.leading hbefore ?_)
    refine Progress.Reads.block nofun hnames fun run => ?_
    rw [files_foldl_set]
    exact Progress.reads_trailing hafter run
  · intro texts
    refine parse_eq_ok_iff.mpr (Progress.Reads.leading hsettings ?_)
    have hfiles := foldl_set_eq_asked (before ++ after) [] texts
    rw [List.append_nil] at hfiles
    rw [← hfiles]
    have hreads := Progress.reads_separator ((before ++ after).foldl Setting.set {}) texts
    rw [files_foldl_set] at hreads
    exact hreads

/-- Settings before and behind a block of file names, some of which start with a minus sign. A text and an
encoding are set twice each. -/
theorem layout_does_not_matter_mixed :
    parse ["-e", "-5 書く", "-v", "-", "-7", "甲 乙", "--encoding=utf-16", "--eval=-x", "--encoding",
        "latin-1"] =
      .ok ⟨["-", "-7", "甲 乙"], some (some "-x"), some "latin-1", true⟩ ∧
    parse ["-e", "-5 書く", "-v", "--encoding=utf-16", "--eval=-x", "--encoding", "latin-1", "--", "-h",
        "--", "甲"] =
      .ok ⟨["-h", "--", "甲"], some (some "-x"), some "latin-1", true⟩ := by
  have hplain : ∀ {text : String}, Argument.classify text = .ok (.plain text) →
      text ≠ Argument.separatorText → Argument.IsPlain text := fun hclassify hseparator =>
    ⟨Argument.classify_eq_plain_iff.mp hclassify, hseparator⟩
  obtain ⟨hblock, hseparated⟩ := layout_does_not_matter
    [.text .short "-5 書く", .verbose true]
    [.encoding true "utf-16", .text .attached "-x", .encoding false "latin-1"]
    ["-", "-7", "甲 乙"]
    (by simpa [Setting.Allowed] using
      ⟨hplain rfl (by decide), by decide, by decide, hplain rfl (by decide)⟩)
    (by simpa using
      ⟨hplain rfl (by decide), hplain rfl (by decide), hplain rfl (by decide)⟩)
  exact ⟨hblock, hseparated ["-h", "--", "甲"]⟩

end Options

end WordMachine
