import WordMachine.CommandLine.Options

/-!
# Adding a switch to an argument list

The options of an argument list are found by going through its arguments, and each of them changes the
options so far in its own way. A change that commutes with all these (`Options.Commutes`) can be made first
or last: so a switch in front of a list only adds its own setting, unless a later one takes it back
(`Progress.consume_adjust`).

A switch without a value can also stand further back. There it ends the run of plain arguments, or takes the
place of a value that a switch before it waits for. If the list still makes sense with the switch in it, it
did so without it and asked for the same but for the switch (`Progress.consume_insert_verbose`).
-/

namespace WordMachine

namespace Options

/-! ## Changes that can be made first or last -/

/-- A change of options that commutes with naming files, with switches that take no value, and with the
values of the switches in `others`. -/
structure Commutes (f : Options → Options) (others : Switch → Prop) : Prop where
  files : ∀ (o : Options) (names : List String),
    f { o with files := o.files ++ names } = { f o with files := (f o).files ++ names }
  flag : ∀ (o : Options) (s : Switch), (f o).flag s = (o.flag s).map f
  value : ∀ (o : Options) {s : Switch} (text : String), others s →
    f (o.value s text) = (f o).value s text
  /-- Switches that can be glued together are among them. -/
  lettered : ∀ {s : Switch} {c : Char}, s.letter? = some c → others s

/-- The options with a log. -/
def loud (o : Options) : Options :=
  { o with verbose := true }

/-- The options with another encoding. -/
def stored (name : String) (o : Options) : Options :=
  { o with encoding := some name }

theorem commutes_loud : Commutes loud fun _ => True where
  files _ _ := rfl
  flag o s := by cases s <;> rfl
  value o s text _ := by cases s <;> rfl
  lettered _ := trivial

theorem commutes_stored (name : String) : Commutes (stored name) (· ≠ .encoding) where
  files _ _ := rfl
  flag o s := by cases s <;> rfl
  value o s text hs := by
    cases s with
    | encoding => exact absurd rfl hs
    | _ => rfl
  lettered := by
    rintro s c hletter rfl
    cases hletter

namespace Progress

/-- What was gone through so far, with a change of the options. -/
def adjust (f : Options → Options) (p : Progress) : Progress :=
  { p with options := f p.options }

/-- Goes through a group of switches: it sets those without a value, and perhaps one value. -/
def settle (p : Progress) (flags : List Switch) (given : Option (Switch × String)) :
    Except Stop Progress := do
  let q ← p.endRun.flags flags
  return q.adjust fun o => match given with
    | none => o
    | some (s, text) => o.value s text

/-! ## Changing the options first or last -/

section Adjust

variable {f : Options → Options} {others : Switch → Prop} (hf : Commutes f others) (p : Progress)

theorem endRun_adjust : (p.adjust f).endRun = p.endRun.adjust f := by
  obtain ⟨options, run, extras⟩ := p
  cases run <;> rfl

theorem separator_adjust : (p.adjust f).separator = p.separator.adjust f := by
  obtain ⟨options, run, extras⟩ := p
  cases run <;> rfl

include hf

theorem plain_adjust (text : String) : (p.adjust f).plain text = (p.plain text).adjust f := by
  obtain ⟨options, run, extras⟩ := p
  cases run with
  | passed => rfl
  | ahead => exact congrArg (Progress.mk · _ _) (hf.files options [text]).symm
  | within => exact congrArg (Progress.mk · _ _) (hf.files options [text]).symm

theorem foldlM_flag (ss : List Switch) (o : Options) :
    ss.foldlM Options.flag (f o) = (ss.foldlM Options.flag o).map f := by
  induction ss generalizing o with
  | nil => rfl
  | cons s ss ih =>
    rw [List.foldlM_cons, List.foldlM_cons, hf.flag]
    cases o.flag s with
    | error stop => rfl
    | ok o' => exact ih o'

theorem settle_adjust (flags : List Switch) {given : Option (Switch × String)}
    (hgiven : ∀ s text, given = some (s, text) → others s) :
    (p.adjust f).settle flags given = (p.settle flags given).map (adjust f) := by
  unfold settle
  rw [endRun_adjust]
  unfold Progress.flags
  rw [adjust, foldlM_flag hf]
  cases flags.foldlM Options.flag p.endRun.options with
  | error stop => rfl
  | ok o =>
    cases given with
    | none => rfl
    | some g =>
      have hvalue := hf.value o g.2 (hgiven g.1 g.2 rfl)
      exact congrArg (fun o => Except.ok (Progress.mk o _ _)) hvalue.symm

end Adjust

end Progress

end Options

/-! ## Groups -/

/-- The switch that takes a value in a group. -/
def Argument.Operand.switch? : Argument.Operand → Option Switch
  | none => .none
  | wanted s => some s
  | given s _ => some s

theorem Switch.letter?_of_ofLetter? {c : Char} {s : Switch} (h : ofLetter? c = some s) :
    s.letter? = some c := by
  simpa using List.find?_some h

section Groups

variable {others : Switch → Prop} (hletter : ∀ {s : Switch} {c : Char}, s.letter? = some c → others s)
  {s s' : Switch} {g : Argument.Group}
include hletter

/-- The switch with a value is the first of a group, or one that was glued to it. -/
theorem Argument.others_of_glued {cs : List Char} (hs : others s) (hg : glued s cs = .ok g)
    (hg' : g.operand.switch? = some s') : others s' := by
  induction cs generalizing s g with
  | nil =>
    rw [glued] at hg
    cases hg
    split at hg'
    · cases hg'
      exact hs
    · cases hg'
  | cons c cs ih =>
    rw [glued] at hg
    split at hg
    · cases hg
      cases hg'
      exact hs
    · cases hnext : Switch.ofLetter? c with
      | none =>
        simp only [hnext] at hg
        cases hg
      | some next =>
        simp only [hnext] at hg
        cases hlater : glued next cs with
        | error e =>
          rw [hlater] at hg
          cases hg
        | ok g' =>
          rw [hlater] at hg
          cases hg
          exact ih (hletter (Switch.letter?_of_ofLetter? hnext)) hlater hg'

theorem Argument.others_of_group {short : Bool} {attached : Option String} (hs : others s)
    (hg : group s short attached = .ok g) (hg' : g.operand.switch? = some s') : others s' := by
  cases attached with
  | none => exact others_of_glued hletter hs hg hg'
  | some value =>
    rw [group] at hg
    split at hg
    · cases hg
      cases hg'
      exact hs
    · split at hg
      · exact others_of_glued hletter hs hg hg'
      · cases hg

end Groups

namespace Options.Progress

/-- What a switch does, wherever it stands: it is wrong in itself; or it sets some switches, perhaps with a
value; or it waits for a value, which has to be the next argument. -/
theorem consume_switch {others : Switch → Prop}
    (hletter : ∀ {s : Switch} {c : Char}, s.letter? = some c → others s) {s : Switch} (hs : others s)
    (short : Bool) (attached : Option String) :
    (∃ e, ∀ (p : Progress) rest, p.consume (.switch s short attached :: rest) = .error e) ∨
    (∃ flags given, (∀ s' text, given = some (s', text) → others s') ∧
      ∀ (p : Progress) rest, p.consume (.switch s short attached :: rest) =
        (do (← p.settle flags given).consume rest)) ∨
    ∃ flags s' e, others s' ∧
      (∀ (p : Progress) text rest, p.consume (.switch s short attached :: .plain text :: rest) =
        (do (← p.settle flags (some (s', text))).consume rest)) ∧
      ∀ (p : Progress) rest, (∀ text rest', rest ≠ .plain text :: rest') →
        p.consume (.switch s short attached :: rest) = .error e := by
  cases hg : Argument.group s short attached with
  | error e =>
    refine .inl ⟨.usage e, fun p rest => ?_⟩
    rw [consume]
    simp only [hg]
  | ok g =>
    have hoperand : ∀ s', g.operand.switch? = some s' → others s' := fun s' =>
      Argument.others_of_group hletter hs hg
    cases ho : g.operand with
    | none =>
      refine .inr (.inl ⟨g.flags, none, nofun, fun p rest => ?_⟩)
      rw [consume]
      simp only [hg, ho, settle, bind_assoc, pure_bind]
      rfl
    | given s' text =>
      refine .inr (.inl ⟨g.flags, some (s', text), ?_, fun p rest => ?_⟩)
      · rintro _ _ ⟨⟩
        exact hoperand s' (by rw [ho]; rfl)
      · rw [consume]
        simp only [hg, ho, settle, bind_assoc, pure_bind]
        rfl
    | wanted s' =>
      refine .inr (.inr ⟨g.flags, s', .usage (.missingValue s'), hoperand s' (by rw [ho]; rfl),
        fun p text rest => ?_, fun p rest hrest => ?_⟩)
      · rw [consume]
        simp only [hg, ho, settle, bind_assoc, pure_bind]
        rfl
      · rw [consume]
        simp only [hg, ho]

/-- A change that commutes with all that the arguments do can be made before them or behind them. -/
theorem consume_adjust {f : Options → Options} {others : Switch → Prop} (hf : Commutes f others)
    (p : Progress) (as : List Argument)
    (has : ∀ s short attached, Argument.switch s short attached ∈ as → others s) :
    (p.adjust f).consume as = (p.consume as).map (adjust f) := by
  match as with
  | [] => rfl
  | .plain text :: rest =>
    rw [consume, consume, plain_adjust hf]
    exact consume_adjust hf _ rest fun s short attached hs => has s short attached (.tail _ hs)
  | .separator :: rest =>
    rw [consume, consume, separator_adjust]
    exact consume_adjust hf _ rest fun s short attached hs => has s short attached (.tail _ hs)
  | .unknown text :: rest =>
    rw [consume, consume, endRun_adjust]
    exact consume_adjust hf { p.endRun with extras := p.endRun.extras ++ [text] } rest
      fun s short attached hs => has s short attached (.tail _ hs)
  | .switch s short attached :: rest =>
    have hs : others s := has s short attached (.head _)
    obtain ⟨e, herror⟩ | ⟨flags, given, hgiven, hsets⟩ | ⟨flags, s', e, hs', hwaits, hmissing⟩ :=
      consume_switch hf.lettered hs short attached
    · rw [herror, herror]
      rfl
    · rw [hsets, hsets, settle_adjust hf p flags hgiven]
      cases p.settle flags given with
      | error stop => rfl
      | ok q =>
        exact consume_adjust hf q rest fun s short attached hs => has s short attached (.tail _ hs)
    · by_cases hplain : ∃ text rest', rest = .plain text :: rest'
      · obtain ⟨text, rest', rfl⟩ := hplain
        have hgiven : ∀ s text', some (s', text) = some (s, text') → others s := by
          rintro _ _ ⟨⟩
          exact hs'
        rw [hwaits, hwaits, settle_adjust hf p flags hgiven]
        cases p.settle flags (some (s', text)) with
        | error stop => rfl
        | ok q =>
          exact consume_adjust hf q rest' fun s short attached hs =>
            has s short attached (.tail _ (.tail _ hs))
      · have hother : ∀ text rest', rest ≠ .plain text :: rest' := by simpa using hplain
        rw [hmissing _ _ hother, hmissing _ _ hother]
        rfl
termination_by as.length

/-! ## A switch further back -/

section Inserting

variable {p p' q : Progress} {flags : List Switch} {given : Option (Switch × String)}

theorem endRun_of_within (h : p.run = .within) : p.endRun = { p with run := .passed } := by
  unfold endRun
  rw [h]

theorem endRun_of_not_within (h : p.run ≠ .within) : p.endRun = p := by
  obtain ⟨options, run, extras⟩ := p
  cases run with
  | within => exact absurd rfl h
  | ahead => rfl
  | passed => rfl

theorem endRun_endRun (p : Progress) : p.endRun.endRun = p.endRun := by
  obtain ⟨options, run, extras⟩ := p
  cases run <;> rfl

theorem extras_settle (h : p.settle flags given = .ok q) : q.extras = p.extras := by
  have hend : p.endRun.extras = p.extras := by
    obtain ⟨options, run, extras⟩ := p
    cases run <;> rfl
  unfold settle Progress.flags at h
  cases hflags : flags.foldlM Options.flag p.endRun.options with
  | error stop =>
    rw [hflags] at h
    cases h
  | ok o =>
    rw [hflags] at h
    cases h
    exact hend

theorem settle_endRun (p : Progress) (flags : List Switch) (given : Option (Switch × String)) :
    p.endRun.settle flags given = p.settle flags given := by
  rw [settle, settle, endRun_endRun]

theorem consume_of_settle {rest : List Argument} (hp : p.settle flags given = .ok p') :
    (do (← p.settle flags given).consume rest) = p'.consume rest := by
  rw [hp]
  rfl

/-- A switch that is gone through sets what it sets, whatever stands behind it and its value. -/
theorem consume_switch_ok {s : Switch} {short : Bool} {attached : Option String}
    {rest : List Argument} (h : p.consume (.switch s short attached :: rest) = .ok q) :
    ∃ flags given p', p.settle flags given = .ok p' ∧
      ((p'.consume rest = .ok q ∧
        ∀ (r : Progress) more, r.consume (.switch s short attached :: more) =
          (do (← r.settle flags given).consume more)) ∨
      ∃ text rest', rest = .plain text :: rest' ∧ p'.consume rest' = .ok q ∧
        ∀ (r : Progress) more, r.consume (.switch s short attached :: .plain text :: more) =
          (do (← r.settle flags given).consume more)) := by
  have hsettled : ∀ (flags : List Switch) (given : Option (Switch × String)) (rest : List Argument),
      (do (← p.settle flags given).consume rest) = .ok q →
        ∃ p', p.settle flags given = .ok p' ∧ p'.consume rest = .ok q := by
    intro flags given rest hq
    cases hp : p.settle flags given with
    | error stop =>
      rw [hp] at hq
      cases hq
    | ok p' => exact ⟨p', rfl, by rwa [consume_of_settle hp] at hq⟩
  obtain ⟨e, herror⟩ | ⟨flags, given, -, hsets⟩ | ⟨flags, s', e, -, hwaits, hmissing⟩ :=
    consume_switch (s := s) (fun _ => trivial) trivial short attached
  · rw [herror] at h
    cases h
  · rw [hsets] at h
    obtain ⟨p', hp, hq⟩ := hsettled _ _ _ h
    exact ⟨flags, given, p', hp, .inl ⟨hq, hsets⟩⟩
  · by_cases hplain : ∃ text rest', rest = .plain text :: rest'
    · obtain ⟨text, rest', rfl⟩ := hplain
      rw [hwaits] at h
      obtain ⟨p', hp, hq⟩ := hsettled _ _ _ h
      exact ⟨flags, _, p', hp, .inr ⟨text, rest', rfl, hq, fun r => hwaits r text⟩⟩
    · rw [hmissing _ _ (by simpa using hplain)] at h
      cases h

/-- What was not recognized is never forgotten. -/
theorem extras_consume {p q : Progress} {as : List Argument} (h : p.consume as = .ok q)
    (hq : q.extras = []) : p.extras = [] := by
  match as with
  | [] =>
    cases h
    exact hq
  | .plain text :: rest =>
    rw [consume] at h
    have hlater := extras_consume h hq
    obtain ⟨options, run, extras⟩ := p
    cases run with
    | passed => exact absurd hlater (by simp [plain])
    | ahead => exact hlater
    | within => exact hlater
  | .separator :: rest =>
    rw [consume] at h
    have hlater := extras_consume h hq
    obtain ⟨options, run, extras⟩ := p
    cases run with
    | passed => exact absurd hlater (by simp [separator])
    | ahead => exact hlater
    | within => exact hlater
  | .unknown text :: rest =>
    rw [consume] at h
    exact absurd (extras_consume h hq) (by simp)
  | .switch s short attached :: rest =>
    obtain ⟨flags, given, p', hp, ⟨hrest, -⟩ | ⟨text, rest', rfl, hrest, -⟩⟩ := consume_switch_ok h
    · rw [← extras_settle hp]
      exact extras_consume hrest hq
    · rw [← extras_settle hp]
      exact extras_consume hrest hq
termination_by as.length

/-- If a list makes sense behind a run of plain arguments that has ended, it makes the same sense behind the
run itself. -/
theorem consume_of_endRun {as : List Argument} (h : p.endRun.consume as = .ok q)
    (hq : q.extras = []) :
    ∃ r, p.consume as = .ok r ∧ r.extras = [] ∧ r.options = q.options := by
  by_cases hrun : p.run = .within
  · rw [endRun_of_within hrun] at h
    match as with
    | [] =>
      cases h
      exact ⟨p, rfl, hq, rfl⟩
    | .plain text :: rest =>
      rw [consume] at h
      exact absurd (extras_consume h hq) (by simp [plain])
    | .separator :: rest =>
      rw [consume] at h
      exact absurd (extras_consume h hq) (by simp [separator])
    | .unknown text :: rest =>
      rw [consume] at h
      exact absurd (extras_consume h hq) (by simp)
    | .switch s short attached :: rest =>
      rw [← endRun_of_within hrun] at h
      have hsame : p.consume (.switch s short attached :: rest) =
          p.endRun.consume (.switch s short attached :: rest) := by
        obtain ⟨flags, given, p', hp, ⟨-, hsets⟩ | ⟨text, rest', rfl, -, hsets⟩⟩ :=
          consume_switch_ok h
        · rw [hsets, hsets, settle_endRun]
        · rw [hsets, hsets, settle_endRun]
      exact ⟨q, hsame.trans h, hq, rfl⟩
  · rw [endRun_of_not_within hrun] at h
    exact ⟨q, h, hq, rfl⟩

end Inserting

/-- The switch for a log, as an argument. -/
def verboseSwitch : Argument :=
  .switch .verbose true none

theorem consume_verboseSwitch (p : Progress) (as : List Argument) :
    p.consume (verboseSwitch :: as) = (p.endRun.adjust loud).consume as := rfl

/-- Arguments that make sense with the switch for a log among them make sense without it, and ask for the
same but for the log. -/
theorem consume_insert_verbose {p q : Progress} {as bs : List Argument}
    (h : p.consume (as ++ verboseSwitch :: bs) = .ok q) (hq : q.extras = []) :
    ∃ r, p.consume (as ++ bs) = .ok r ∧ r.extras = [] ∧ q.options = loud r.options := by
  match as with
  | [] =>
    rw [List.nil_append, consume_verboseSwitch,
      consume_adjust commutes_loud _ _ fun _ _ _ _ => trivial] at h
    cases hend : p.endRun.consume bs with
    | error stop =>
      rw [hend] at h
      cases h
    | ok r =>
      rw [hend] at h
      cases h
      obtain ⟨r', hr', hextras, hoptions⟩ := consume_of_endRun hend hq
      exact ⟨r', hr', hextras, congrArg loud hoptions.symm⟩
  | .plain text :: rest =>
    rw [List.cons_append, consume] at h ⊢
    exact consume_insert_verbose h hq
  | .separator :: rest =>
    rw [List.cons_append, consume] at h ⊢
    exact consume_insert_verbose h hq
  | .unknown text :: rest =>
    rw [List.cons_append, consume] at h ⊢
    exact consume_insert_verbose h hq
  | .switch s short attached :: rest =>
    obtain ⟨flags, given, p', hp, ⟨hrest, hsets⟩ | ⟨text, rest', hplain, hrest, hsets⟩⟩ :=
      consume_switch_ok h
    · rw [List.cons_append, hsets, consume_of_settle hp]
      exact consume_insert_verbose hrest hq
    · -- the value of the switch is not the switch for a log, so it stands before that
      match rest with
      | [] => cases hplain
      | a :: rest =>
        obtain ⟨rfl, rfl⟩ := List.cons.inj hplain
        rw [List.cons_append, List.cons_append, hsets, consume_of_settle hp]
        exact consume_insert_verbose hrest hq
termination_by as.length

end Options.Progress

/-! ## Whole lists -/

/-- Arguments before the separator are classified one by one. -/
theorem Argument.classifyAll_append {l : List String} (h : separatorText ∉ l) (r : List String) :
    classifyAll (l ++ r) =
      (do
        let as ← classifyAll l
        let bs ← classifyAll r
        return as ++ bs) := by
  induction l with
  | nil =>
    rw [List.nil_append]
    cases classifyAll r <;> rfl
  | cons text l ih =>
    simp only [List.mem_cons, not_or] at h
    obtain ⟨htext, hl⟩ := h
    rw [List.cons_append, classifyAll, classifyAll, if_neg (Ne.symm htext), if_neg (Ne.symm htext),
      ih hl]
    simp only [bind_assoc, pure_bind, List.cons_append]

namespace Options

theorem parse_eq_ok_iff {arguments : List String} {o : Options} :
    parse arguments = .ok o ↔ ∃ as p, Argument.classifyAll arguments = .ok as ∧
      ({} : Progress).consume as = .ok p ∧ p.extras = [] ∧ p.options = o := by
  unfold parse
  cases Argument.classifyAll arguments with
  | error e => simp
  | ok as =>
    cases hp : ({} : Progress).consume as with
    | error stop => simp [hp]
    | ok p =>
      by_cases hextras : p.extras = []
      · simp [hp, hextras]
      · simp [hp, hextras]

/-- The argument that switches the log on. -/
def verboseArgument : String := "-v"

/-- A list without the separator before the switch for a log. -/
theorem classifyAll_insert_verbose {l : List String} (h : Argument.separatorText ∉ l)
    (r : List String) :
    Argument.classifyAll (l ++ verboseArgument :: r) =
      (do
        let as ← Argument.classifyAll l
        let bs ← Argument.classifyAll r
        return as ++ Progress.verboseSwitch :: bs) := by
  have hverbose : Argument.classify verboseArgument = .ok Progress.verboseSwitch := by
    rfl
  rw [Argument.classifyAll_append h, Argument.classifyAll, if_neg (by decide), hverbose]
  cases Argument.classifyAll l with
  | error e => rfl
  | ok as => cases Argument.classifyAll r <;> rfl

/-- In front of any list that makes sense the log can be switched on. -/
theorem parse_cons_verbose {arguments : List String} {o : Options}
    (h : parse arguments = .ok o) : parse (verboseArgument :: arguments) = .ok (loud o) := by
  obtain ⟨as, p, has, hp, hextras, rfl⟩ := parse_eq_ok_iff.mp h
  refine parse_eq_ok_iff.mpr ⟨Progress.verboseSwitch :: as, p.adjust loud, ?_, ?_, hextras, rfl⟩
  · have hall := classifyAll_insert_verbose (l := []) (by simp) arguments
    rw [has] at hall
    exact hall
  · rw [Progress.consume_verboseSwitch, Progress.consume_adjust commutes_loud _ _ fun _ _ _ _ => trivial]
    show (({} : Progress).consume as).map (Progress.adjust loud) = _
    rw [hp]
    rfl

/-- Wherever the log is switched on before the separator, the list asks for the same otherwise. -/
theorem parse_insert_verbose {l r : List String} (hl : Argument.separatorText ∉ l) {o : Options}
    (h : parse (l ++ verboseArgument :: r) = .ok o) :
    ∃ o', parse (l ++ r) = .ok o' ∧ o = loud o' := by
  obtain ⟨all, q, hall, hq, hextras, rfl⟩ := parse_eq_ok_iff.mp h
  rw [classifyAll_insert_verbose hl] at hall
  cases has : Argument.classifyAll l with
  | error e =>
    rw [has] at hall
    cases hall
  | ok as =>
    cases hbs : Argument.classifyAll r with
    | error e =>
      rw [has, hbs] at hall
      cases hall
    | ok bs =>
      rw [has, hbs] at hall
      cases hall
      obtain ⟨p, hp, hnone, hoptions⟩ := Progress.consume_insert_verbose hq hextras
      refine ⟨p.options, parse_eq_ok_iff.mpr ⟨as ++ bs, p, ?_, hp, hnone, rfl⟩, hoptions⟩
      rw [Argument.classifyAll_append hl, has, hbs]
      rfl

/-- Whether an encoding is named among the arguments. -/
def NamesEncoding (arguments : List String) : Prop :=
  ∃ as, Argument.classifyAll arguments = .ok as ∧
    ∃ short attached, Argument.switch .encoding short attached ∈ as

theorem ne_encoding_of_not_namesEncoding {arguments : List String} {as : List Argument}
    (h : ¬ NamesEncoding arguments) (has : Argument.classifyAll arguments = .ok as) (s : Switch)
    (short : Bool) (attached : Option String) (hmem : Argument.switch s short attached ∈ as) :
    s ≠ .encoding := by
  rintro rfl
  exact h ⟨as, has, short, attached, hmem⟩

/-- Where no encoding is named, it is UTF-8: naming that would change nothing. -/
theorem encoding_of_parse {arguments : List String} {o : Options} (h : parse arguments = .ok o)
    (hnone : ¬ NamesEncoding arguments) : o.encoding = some "utf-8" := by
  obtain ⟨as, p, has, hp, -, rfl⟩ := parse_eq_ok_iff.mp h
  have hsame := Progress.consume_adjust (commutes_stored "utf-8") {} as
    (ne_encoding_of_not_namesEncoding hnone has)
  rw [show Progress.adjust (stored "utf-8") {} = {} from rfl, hp] at hsame
  have hstored : p = p.adjust (stored "utf-8") := Except.ok.inj hsame
  exact congrArg (fun q => q.options.encoding) hstored

/-- The argument before the name of an encoding. -/
def encodingArgument : String := "--encoding"

/-- In front of any list that makes sense and names no encoding, one can be named. -/
theorem parse_cons_encoding {arguments : List String} {o : Options} (h : parse arguments = .ok o)
    (hnone : ¬ NamesEncoding arguments) {name : String} (hname : name ≠ Argument.separatorText)
    (hplain : Argument.classify name = .ok (.plain name)) :
    parse (encodingArgument :: name :: arguments) = .ok (stored name o) := by
  obtain ⟨as, p, has, hp, hextras, rfl⟩ := parse_eq_ok_iff.mp h
  have hswitch : Argument.classify encodingArgument = .ok (.switch .encoding false none) := by
    rfl
  have hstart : ({} : Progress).consume (.switch .encoding false none :: .plain name :: as) =
      (Progress.adjust (stored name) {}).consume as := by
    show (Progress.adjust (fun o => { o with encoding := kept? name }) {}).consume as = _
    rw [kept?, if_neg hname]
    rfl
  refine parse_eq_ok_iff.mpr
    ⟨.switch .encoding false none :: .plain name :: as, p.adjust (stored name), ?_, ?_, hextras, rfl⟩
  · rw [Argument.classifyAll, if_neg (by decide), hswitch, Argument.classifyAll, if_neg hname, hplain,
      has]
    rfl
  · rw [hstart, Progress.consume_adjust (commutes_stored name) _ _
      (ne_encoding_of_not_namesEncoding hnone has), hp]
    rfl

end Options

end WordMachine
