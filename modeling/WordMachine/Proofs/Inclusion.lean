import WordMachine.Proofs.Classified
import WordMachine.Proofs.Inline
import WordMachine.Proofs.Pieces

/-!
# Loading a source and writing it out

A text that loads a file and the text with the contents of the file in that place come to the same. The
words on both sides of the place are the same by `Act.runText_append`, as long as nothing before it is
left unclosed. What is left is one word: its run takes the path off the stack again and runs the contents
on the very state that it found (`loadSite_enters`), one call deeper. So this is a `CallSite`, and
everything that the contents do to the machine, open units, new meanings of words and errors included, is
done to the machine that goes on with the rest.
-/

namespace WordMachine

variable {Op : Type}

open Word

/-- The name of the word that loads a source. -/
def loadName : String := "読み込む"

/-- The text that loads the source at a path. -/
def loading (path : String) : String :=
  "「" ++ path ++ "」" ++ loadName

/-! ## The words of the loading text -/

namespace Token

theorem classify_literal (text : String) :
    classify ("「" ++ text ++ "」") = .ok (literal text) := by
  have hchars : ("「" ++ text ++ "」").toList = literalOpen :: (text.toList ++ [literalClose]) := by
    simp [literalOpen, literalClose]
  have hbody : literalBody (text.toList ++ [literalClose]) = text.toList := by
    simp [literalBody]
  rw [classify_of_literalOpen hchars, hbody, String.ofList_toList]
  rfl

theorem classify_loadName : classify loadName = .ok (identifier loadName) := by decide +kernel

end Token

section Words

variable {path : String} (h : literalClose ∉ path.toList)
include h

theorem scan_loading :
    scan (loading path) =
      [⟨"「" ++ path ++ "」", 0, .literal⟩, ⟨loadName, path.toList.length + 2, .plain⟩] := by
  have hchars : (loading path).toList =
      literalOpen :: (path.toList ++ literalClose :: loadName.toList) := by
    simp [loading, literalOpen, literalClose]
  have hliteral : String.ofList (literalOpen :: (path.toList ++ [literalClose])) =
      "「" ++ path ++ "」" := by
    apply String.toList_inj.mp
    simp [literalOpen, literalClose]
  have hname : ∀ before pos, scanFrom before pos loadName.toList = [⟨loadName, pos, .plain⟩] := by
    intro before pos
    have hstarts : StartsPlain '読' := ⟨by decide, by decide, by decide⟩
    have hall : loadName.toList.all (!Text.isBlank ·) = true := by decide +kernel
    have hblank : ∀ c ∈ loadName.toList, Text.isBlank c = false := by
      simpa only [List.all_eq_true, Bool.not_eq_eq_eq_not, Bool.not_true] using hall
    exact scanFrom_plain hstarts hblank before pos
  rw [scan, hchars, scanFrom_literal h, hname, hliteral, Nat.zero_add]

theorem isClosed_loading : isClosed (loading path) = true := by
  rw [isClosed, scan_loading h]
  rfl

theorem Act.runText_loading (call : Call Op) :
    runText call (loading path) =
      interpret call [Token.literal path, Token.identifier loadName] := by
  rw [runText, scan_loading h]
  apply runWords_eq_interpret
  simp only [List.mapM_cons, List.mapM_nil, Token.classify_literal, Token.classify_loadName]
  rfl

end Words

/-! ## The run of the loading text -/

/-- Whether a machine loads the sources that a text names: no unit is open, and the name that loads
sources in the given encoding has its meaning and opens no unit. -/
structure State.Loads (s : State Op) (encoding : Option String) : Prop where
  executing : s.depth = 0
  bound : s.dictionary[Value.text loadName]? = some (.builtin (.load encoding))
  plain : Value.text loadName ∉ s.declarers

/-- Words that are added under other names leave a name as it is. -/
theorem Dictionary.getElem?_foldl_of_not_mem (ws : List (String × Builtin)) (d : Dictionary Op)
    {name : String} (h : name ∉ ws.map Prod.fst) :
    (ws.foldl (fun d w => d.insert (.text w.1) (.builtin w.2)) d)[Value.text name]? =
      d[Value.text name]? := by
  induction ws generalizing d with
  | nil => rfl
  | cons w ws ih =>
    simp only [List.map_cons, List.mem_cons, not_or] at h
    have hne : ¬ Value.text w.1 = Value.text name := fun heq => h.1 (Value.text.inj heq).symm
    rw [List.foldl_cons, ih _ h.2, Std.ExtTreeMap.getElem?_insert]
    simp [hne]

/-- Installing gives every built-in word its name. -/
theorem Dictionary.getElem?_install (encoding : Option String) (d : Dictionary Op) {name : String}
    {b : Builtin} (h : (name, b) ∈ Builtin.all encoding) :
    (d.install encoding)[Value.text name]? = some (.builtin b) := by
  have hnames : ((Builtin.all encoding).map Prod.fst).Nodup := by
    simp [Builtin.all]
  unfold install
  generalize Builtin.all encoding = ws at h hnames
  induction ws generalizing d with
  | nil => cases h
  | cons w ws ih =>
    rw [List.map_cons, List.nodup_cons] at hnames
    rw [List.foldl_cons]
    rcases List.mem_cons.mp h with rfl | hlater
    · rw [getElem?_foldl_of_not_mem ws _ hnames.1]
      simp
    · exact ih _ hlater hnames.2

theorem State.loads_install {s : State Op} {encoding : Option String} (hd : s.depth = 0)
    (h : Value.text loadName ∉ s.declarers) : (s.install encoding).Loads encoding :=
  ⟨hd, Dictionary.getElem?_install encoding s.dictionary (by simp [Builtin.all, loadName]), h⟩

theorem Builtin.popString_apply {path : String} {s : State Op} {vs : List Value}
    (hs : s.stack = .text path :: vs) :
    (popString : Act Op String) s = ⟨.ok path, { s with stack := vs }, "", []⟩ := by
  rw [popString, Act.bind_apply_ok (Act.pop_apply_of_cons hs)]
  rfl

theorem Builtin.execute_load {files : Files} {encoding : Option String} {path text : String}
    (hread : Source.read files encoding path = .ok text) (call : Act.Call Op) {s : State Op}
    {vs : List Value} (hs : s.stack = .text path :: vs) :
    (Builtin.load encoding).execute files call s =
      (Act.runText call text { s with stack := vs }).behind "" [.loading path] := by
  rw [execute, Act.bind_apply_ok (popString_apply hs), Act.bind_apply_ok (Act.note_apply _ _), hread]
  simp [Act.ofExcept]

namespace World

variable {w : World Op} {encoding : Option String} {s : State Op} {path text : String}

/-- A source is loaded between two texts. -/
def loadSite (a path text b : String) : Act.CallSite Op where
  before call := Act.runText call a
  call call := Act.runText call (loading path)
  body call := Act.runText call text
  after call := Act.runText call b
  before_respects := Act.respectsCalls_runText a
  body_respects := Act.respectsCalls_runText text
  after_respects := Act.respectsCalls_runText b

/-- The path is pushed, and the word that loads it is called. -/
theorem runText_loading_apply (h : literalClose ∉ path.toList) (hs : s.Loads encoding)
    (call : Act.Call Op) :
    Act.runText call (loading path) s =
      call (Token.identifier loadName) { s with stack := .text path :: s.stack } := by
  have hname : Act.runToken call (Token.identifier loadName)
      { s with stack := .text path :: s.stack } =
        call (Token.identifier loadName) { s with stack := .text path :: s.stack } :=
    Act.runToken_identifier (s := { s with stack := .text path :: s.stack }) hs.executing hs.plain
  rw [Act.runText_loading h, Act.interpret, Act.bind_apply_ok (Act.runToken_literal hs.executing path),
    Outcome.behind_nil, Act.interpret, Act.bind_apply_congr hname]
  simp [Act.interpret]

theorem loadSite_enters (h : literalClose ∉ path.toList)
    (hread : Source.read w.files encoding path = .ok text) (hs : s.Loads encoding) (a b : String) :
    (loadSite a path text b).Enters w s := by
  have hbound : ({ s with stack := .text path :: s.stack } : State Op).dictionary[
      (Token.identifier loadName).name]? = some (.builtin (.load encoding)) := hs.bound
  refine ⟨fun beyond limit => ?_, fun mark => ?_⟩
  · show (Act.runText _ (loading path) s).Agrees (Act.runText _ text s)
    rw [runText_loading_apply h hs, executeBeyond_succ_apply hbound, perform,
      Builtin.execute_load hread _ rfl]
    exact Outcome.agrees_behind _ _
  · show (Act.runText _ (loading path) s).result = .error mark
    rw [runText_loading_apply h hs, executeMarked, executeBeyond_zero_apply hbound]
    rfl

theorem called_loadSite {a : String} (ha : isClosed a = true) (h : literalClose ∉ path.toList)
    (text b : String) :
    (loadSite a path text b : Act.CallSite Op).called =
      fun call => Act.runText call (a ++ "\n" ++ loading path ++ "\n" ++ b) := by
  funext call
  have hrest : a ++ "\n" ++ loading path ++ "\n" ++ b = a ++ "\n" ++ (loading path ++ "\n" ++ b) := by
    simp only [String.append_assoc]
  rw [hrest, Act.runText_append call ha, Act.runText_append call (isClosed_loading h)]
  rfl

theorem inlined_loadSite {a : String} (ha : isClosed a = true) (htext : isClosed text = true)
    (path b : String) :
    (loadSite a path text b : Act.CallSite Op).inlined =
      fun call => Act.runText call (a ++ "\n" ++ text ++ "\n" ++ b) := by
  funext call
  have hrest : a ++ "\n" ++ text ++ "\n" ++ b = a ++ "\n" ++ (text ++ "\n" ++ b) := by
    simp only [String.append_assoc]
  rw [hrest, Act.runText_append call ha, Act.runText_append call htext]
  rfl

/-- **Loading a file is textual inclusion.** Behind a closed text, which leaves no unit open and the
loading word in place if it ends normally, a closed source is loaded and more text follows. This run and
the run of the text with the contents in place of the loading agree in their end, their output and the
state, whatever the contents and the text behind them do.

The contents run one call deeper when they are loaded. So if the loading run stays within the limit, the
other needs no larger one; and if the other stays within the limit, the loading run needs room for one
call more. -/
theorem load_eq_inclusion (w : World Op) (limit : Nat) (s : State Op) {a path text : String}
    (b : String) {encoding : Option String} (ha : isClosed a = true)
    (hpath : literalClose ∉ path.toList) (hread : Source.read w.files encoding path = .ok text)
    (htext : isClosed text = true)
    (hloads : (w.run limit a s).result = .ok () → (w.run limit a s).state.Loads encoding) :
    (w.StaysWithin limit
        (fun call => Act.runText call (a ++ "\n" ++ loading path ++ "\n" ++ b)) s →
      (w.run limit (a ++ "\n" ++ loading path ++ "\n" ++ b) s).Agrees
        (w.run limit (a ++ "\n" ++ text ++ "\n" ++ b) s)) ∧
    (w.StaysWithin limit (fun call => Act.runText call (a ++ "\n" ++ text ++ "\n" ++ b)) s →
      (w.run (limit + 1) (a ++ "\n" ++ loading path ++ "\n" ++ b) s).Agrees
        (w.run limit (a ++ "\n" ++ text ++ "\n" ++ b) s)) := by
  have hcalled := @called_loadSite Op path a ha hpath text b
  have hinlined := @inlined_loadSite Op text a ha htext path b
  have henters : ((loadSite a path text b : Act.CallSite Op).before (w.execute limit) s).result =
      .ok () → (loadSite a path text b).Enters w
        ((loadSite a path text b : Act.CallSite Op).before (w.execute limit) s).state :=
    fun hok => loadSite_enters hpath hread (hloads hok) a b
  have hprogram : ∀ call, (Act.runText call (a ++ "\n" ++ loading path ++ "\n" ++ b) s).Agrees
      ((loadSite a path text b).called call s) := by
    intro call
    rw [hcalled]
    exact .refl _
  refine ⟨fun hstays => ?_, fun hstays => ?_⟩
  · have hagrees := Act.CallSite.agrees_of_called hstays hprogram henters
    rw [hinlined] at hagrees
    exact hagrees
  · rw [← hinlined] at hstays
    have hagrees := Act.CallSite.agrees_of_inlined hstays hprogram henters
    rw [hinlined] at hagrees
    exact hagrees

/-- One file, with a unit that it leaves open. -/
def halfDefinition : World Empty :=
  ofFiles fun path =>
    if path = "三" then .ok (Encoding.Utf8.encode "「三」は 3".toList) else .error .notFound

/-- The text behind the loading closes the unit that the file left open, calls its word and fails at
last. -/
theorem load_eq_inclusion_halfDefinition :
    (halfDefinition.run callLimit ("" ++ "\n" ++ "「三」は 3" ++ "\n" ++ "です 三 書く 消す")
        (State.new.install (some "utf-8"))).output = "3" ∧
      (halfDefinition.run callLimit ("" ++ "\n" ++ loading "三" ++ "\n" ++ "です 三 書く 消す")
        (State.new.install (some "utf-8"))).Agrees
      (halfDefinition.run callLimit ("" ++ "\n" ++ "「三」は 3" ++ "\n" ++ "です 三 書く 消す")
        (State.new.install (some "utf-8"))) ∧
      (halfDefinition.run (callLimit + 1) ("" ++ "\n" ++ loading "三" ++ "\n" ++ "です 三 書く 消す")
        (State.new.install (some "utf-8"))).Agrees
      (halfDefinition.run callLimit ("" ++ "\n" ++ "「三」は 3" ++ "\n" ++ "です 三 書く 消す")
        (State.new.install (some "utf-8"))) := by
  have hread : Source.read halfDefinition.files (some "utf-8") "三" = .ok "「三」は 3" := by
    decide +kernel
  have hloads : ((halfDefinition.run callLimit "" (State.new.install (some "utf-8"))).result =
      .ok ()) → (halfDefinition.run callLimit ""
        (State.new.install (some "utf-8"))).state.Loads (some "utf-8") := by
    intro _
    rw [run_empty]
    exact State.loads_install rfl Std.ExtTreeSet.not_mem_empty
  obtain ⟨hloading, hincluded⟩ := load_eq_inclusion halfDefinition callLimit
    (State.new.install (some "utf-8")) (a := "") "です 三 書く 消す" (by decide +kernel)
    (by decide +kernel) hread (by decide +kernel) hloads
  have hends : ∀ text, (halfDefinition.run callLimit text
      (State.new.install (some "utf-8"))).result = .error (.error (.unknownName "消す")) →
      halfDefinition.StaysWithin callLimit (fun call => Act.runText call text)
        (State.new.install (some "utf-8")) := by
    intro text hresult
    refine staysWithin_of_not_mayExceed (Act.respectsCalls_runText text) fun e he => ?_
    cases hresult.symm.trans he
    exact id
  refine ⟨by decide +kernel, hloading (hends _ ?_), hincluded (hends _ ?_)⟩
  · decide +kernel
  · decide +kernel

end World

end WordMachine
