import WordMachine.Numeral

/-!
# Values

A value is an integer or a text. Values stand on the stack and also name words: the integer 5 and
the text 5 are different names. They are ordered, integers first by size, then texts by their
characters.
-/

namespace WordMachine

/-- What the stack holds and what a word may be called. -/
inductive Value where
  | int (n : Int)
  | text (t : String)
deriving DecidableEq, Repr

namespace Value

instance : Inhabited Value := ⟨int 0⟩

/-- Integers come first by size, then texts by their characters. -/
def compare : Value → Value → Ordering
  | int a, int b => Ord.compare a b
  | int _, text _ => .lt
  | text _, int _ => .gt
  | text a, text b => Ord.compare a b

instance : Ord Value := ⟨compare⟩

theorem compare_int_int (a b : Int) : Ord.compare (int a) (int b) = Ord.compare a b := rfl

theorem compare_int_text (a : Int) (b : String) : Ord.compare (int a) (text b) = .lt := rfl

theorem compare_text_int (a : String) (b : Int) : Ord.compare (text a) (int b) = .gt := rfl

theorem compare_text_text (a b : String) : Ord.compare (text a) (text b) = Ord.compare a b := rfl

instance : Std.OrientedOrd Value where
  eq_swap {a b} := by
    cases a <;> cases b
    · exact Std.OrientedOrd.eq_swap (α := Int)
    · rfl
    · rfl
    · exact Std.OrientedOrd.eq_swap (α := String)

instance : Std.TransOrd Value where
  isLE_trans {a b c} hab hbc := by
    cases a <;> cases b <;> cases c <;>
      simp only [compare_int_int, compare_int_text, compare_text_int, compare_text_text] at hab hbc ⊢
    case int.int.int => exact Std.TransOrd.isLE_trans hab hbc
    case text.text.text => exact Std.TransOrd.isLE_trans hab hbc
    all_goals first | rfl | contradiction

instance : Std.LawfulEqOrd Value where
  eq_of_compare {a b} h := by
    cases a <;> cases b <;>
      simp only [compare_int_int, compare_int_text, compare_text_int, compare_text_text] at h
    · exact congrArg int (Std.LawfulEqOrd.eq_of_compare h)
    · contradiction
    · contradiction
    · exact congrArg text (Std.LawfulEqOrd.eq_of_compare h)

/-- The value as plain text: an integer in decimal, a text as it is. -/
def written : Value → Except Fault String
  | int n => Numeral.write n
  | text t => .ok t

end Value

end WordMachine
