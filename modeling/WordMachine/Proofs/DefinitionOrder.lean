import Mathlib.Data.List.Nodup
import WordMachine.Machine.Execute
import WordMachine.Proofs.Block

/-!
# Definitions in any order

A definition block leaves no trace but the meaning of its word (`Act.interpret_definition`). So blocks in a
row come to their end and give each word its meaning, one after the other (`Act.interpret_definitions`). What
is left to see is that the order does not matter: two words of different names can be added either way round
(`State.withWord_comm`), so any two orders of words whose names all differ add up to the same dictionary
(`State.withWords_perm`).

Nothing is asked of what the bodies name. A word may be defined before the words that it calls, and words may
call each other, or themselves.
-/

namespace WordMachine

variable {Op : Type}

namespace Token

/-- The blocks that give names their meanings, in this order. -/
def definitions (words : List (String × List Token)) : List Token :=
  words.flatMap fun word => definition word.1 word.2

end Token

namespace State

/-- The state with these words added one after the other. -/
def withWords (s : State Op) (words : List (String × List Token)) : State Op :=
  words.foldl (fun s word => s.withWord word.1 word.2) s

/-- The second state is the first with exactly these words added, or with these meanings of them. -/
structure Gains (s : State Op) (words : List (String × List Token)) (r : State Op) : Prop where
  stack : r.stack = s.stack
  buffer : r.buffer = s.buffer
  depth : r.depth = s.depth
  declarers : r.declarers = s.declarers
  defined : ∀ word ∈ words, r.dictionary[Value.text word.1]? = some (.procedure word.2)
  others : ∀ name, (∀ word ∈ words, name ≠ Value.text word.1) →
    r.dictionary[name]? = s.dictionary[name]?

/-! ## Adding words -/

theorem getElem?_withWord (s : State Op) (n : String) (body : List Token) (name : Value) :
    (s.withWord n body).dictionary[name]? =
      if .text n = name then some (.procedure body) else s.dictionary[name]? := by
  unfold withWord
  rw [Std.ExtTreeMap.getElem?_insert]
  simp only [Std.compare_eq_iff_eq]

/-- Words of different names can be added in either order. -/
theorem withWord_comm (s : State Op) {n m : String} (h : n ≠ m) (body other : List Token) :
    (s.withWord n body).withWord m other = (s.withWord m other).withWord n body := by
  have hdictionary : ((s.withWord n body).withWord m other).dictionary =
      ((s.withWord m other).withWord n body).dictionary := by
    apply Std.ExtTreeMap.ext_getElem?
    intro name
    simp only [getElem?_withWord]
    split
    · rename_i hm
      rw [if_neg (by simp [← hm, h])]
    · rfl
  unfold withWord at hdictionary ⊢
  rw [State.mk.injEq]
  exact ⟨hdictionary, rfl, rfl, rfl, rfl⟩

theorem withWords_perm (s : State Op) {words order : List (String × List Token)}
    (hnames : (words.map Prod.fst).Nodup) (hperm : order.Perm words) :
    s.withWords order = s.withWords words := by
  apply hperm.foldl_eq'
  intro x hx y hy r
  by_cases hxy : x.1 = y.1
  · have hsame : x = y :=
      List.inj_on_of_nodup_map hnames (hperm.mem_iff.mp hx) (hperm.mem_iff.mp hy) hxy
    rw [hsame]
  · exact r.withWord_comm hxy x.2 y.2

theorem gains_withWords (s : State Op) {words : List (String × List Token)}
    (hnames : (words.map Prod.fst).Nodup) : s.Gains words (s.withWords words) := by
  induction words generalizing s with
  | nil => exact ⟨rfl, rfl, rfl, rfl, by simp, fun _ _ => rfl⟩
  | cons word words ih =>
    rw [List.map_cons, List.nodup_cons] at hnames
    obtain ⟨hfirst, hlater⟩ := hnames
    have hrest := ih (s.withWord word.1 word.2) hlater
    refine ⟨hrest.stack, hrest.buffer, hrest.depth, hrest.declarers, ?_, ?_⟩
    · intro other hother
      rcases List.mem_cons.mp hother with rfl | hmem
      · -- no later word has the name of the first one
        have hkept := hrest.others (.text other.1) fun later hmem heq =>
          hfirst (List.mem_map.mpr ⟨later, hmem, (Value.text.inj heq).symm⟩)
        exact hkept.trans (by rw [getElem?_withWord, if_pos rfl])
      · exact hrest.defined other hmem
    · intro name hname
      have hkept := hrest.others name fun later hmem => hname later (by simp [hmem])
      exact hkept.trans (by rw [getElem?_withWord, if_neg (hname word (by simp)).symm])

end State

/-! ## Blocks in a row -/

namespace Act

/-- What is noted while blocks are read. -/
def definitionNotes (words : List (String × List Token)) : List Note :=
  words.flatMap fun word => [.compiling (.text "は"), .defining (.text word.1) word.2.length]

theorem interpret_definitions (call : Call Op) {s : State Op} {words : List (String × List Token)}
    (hd : s.depth = 0) (hb : s.buffer = []) (hend : Value.text "です" ∉ s.declarers)
    (h : ∀ word ∈ words, ∀ t ∈ word.2, s.Inert t) :
    interpret call (Token.definitions words) s =
      ⟨.ok (), s.withWords words, "", definitionNotes words⟩ := by
  induction words generalizing s with
  | nil => rfl
  | cons word words ih =>
    have hfirst : interpret call (Token.definition word.1 word.2) s = _ :=
      interpret_definition hd hb hend (h word (by simp))
    -- depth, buffer and declarers are those of `s`, so the later bodies are as inert as before
    have hlater := ih (s := s.withWord word.1 word.2) hd hb hend
      fun later hmem => h later (by simp [hmem])
    have hsplit : Token.definitions (word :: words) =
        Token.definition word.1 word.2 ++ Token.definitions words := List.flatMap_cons
    rw [hsplit, interpret_append, bind_apply_ok hfirst, hlater]
    rfl

end Act

namespace World

/-- **Definitions of different words commute.** Let no unit be open and です open none, let the names of
some words all differ, and let nothing in their bodies declare, close a unit or open one. Their definition
blocks run to a normal end in any order, write nothing, and come to the same state: each name has its body
for a meaning, and all else is as it was. -/
theorem definitions_commute (w : World Op) (limit : Nat) {s : State Op}
    {words : List (String × List Token)} (hd : s.depth = 0) (hb : s.buffer = [])
    (hend : Value.text "です" ∉ s.declarers) (hnames : (words.map Prod.fst).Nodup)
    (hbodies : ∀ word ∈ words, ∀ t ∈ word.2, s.Inert t) :
    ∃ r, s.Gains words r ∧ ∀ order, order.Perm words →
      Act.interpret (w.execute limit) (Token.definitions order) s =
        ⟨.ok (), r, "", Act.definitionNotes order⟩ := by
  refine ⟨s.withWords words, s.gains_withWords hnames, ?_⟩
  intro order hperm
  have hinert : ∀ word ∈ order, ∀ t ∈ word.2, s.Inert t :=
    fun word hword => hbodies word (hperm.mem_iff.mp hword)
  rw [Act.interpret_definitions (w.execute limit) hd hb hend hinert, s.withWords_perm hnames hperm]

/-- Two words that call each other, and a built-in word that is given another meaning. -/
def entangledWords : List (String × List Token) :=
  [("甲", [.identifier "乙", .identifier "書く"]), ("乙", [.literal "甲", .identifier "甲"]),
    ("書く", [⟨.number, .int 2, "2"⟩])]

/-- On a machine with the built-in words, in the one order and in the other. -/
theorem definitions_commute_entangled :
    ∃ r, (State.new.install none : State Empty).Gains entangledWords r ∧
      ∀ order ∈ [entangledWords, entangledWords.reverse],
        Act.interpret ((ofFiles fun _ => .error .notFound).execute callLimit)
            (Token.definitions order) (State.new.install none) =
          ⟨.ok (), r, "", Act.definitionNotes order⟩ := by
  have hempty : Value.text "です" ∉ (State.new.install none : State Empty).declarers :=
    Std.ExtTreeSet.not_mem_empty
  have hnames : (entangledWords.map Prod.fst).Nodup := by decide
  obtain ⟨r, hgains, hall⟩ := definitions_commute (ofFiles fun _ => .error .notFound) callLimit
    (s := State.new.install none) rfl rfl hempty hnames (by decide)
  refine ⟨r, hgains, ?_⟩
  intro order horder
  apply hall
  rcases List.mem_cons.mp horder with rfl | hlast
  · exact List.Perm.refl _
  · rw [List.mem_singleton.mp hlast]
    exact List.reverse_perm _

end World

end WordMachine
