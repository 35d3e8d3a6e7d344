import WordMachine.Machine.Act

/-!
# Outcomes in a row

An act that follows another one is run from the state the first one left, and its output and journal
stand behind those of the first. `Outcome.behind` says the latter once, so that a row of acts is opened
one act at a time by `bind_apply_ok` and `bind_apply_error`.
-/

namespace WordMachine

variable {Op α β : Type}

/-- An outcome that stands behind the output `out` and the journal `notes`. -/
def Outcome.behind (o : Outcome Op α) (out : String) (notes : List Note) : Outcome Op α :=
  { o with output := out ++ o.output, journal := notes ++ o.journal }

namespace Outcome

@[simp]
theorem result_behind (o : Outcome Op α) (out : String) (notes : List Note) :
    (o.behind out notes).result = o.result := rfl

@[simp]
theorem state_behind (o : Outcome Op α) (out : String) (notes : List Note) :
    (o.behind out notes).state = o.state := rfl

@[simp]
theorem output_behind (o : Outcome Op α) (out : String) (notes : List Note) :
    (o.behind out notes).output = out ++ o.output := rfl

theorem behind_mk (r : Except Failure α) (s : State Op) (out out' : String)
    (notes notes' : List Note) :
    (Outcome.mk r s out' notes').behind out notes = ⟨r, s, out ++ out', notes ++ notes'⟩ := rfl

@[simp]
theorem behind_nil (o : Outcome Op α) : o.behind "" [] = o := by
  simp [behind]

end Outcome

namespace Act

theorem bind_apply_ok {m : Act Op α} {f : α → Act Op β} {s s' : State Op} {a : α} {out : String}
    {notes : List Note} (h : m s = ⟨.ok a, s', out, notes⟩) :
    (m >>= f) s = (f a s').behind out notes := by
  have hr : (m s).result = .ok a := by rw [h]
  rw [bind_apply_of_ok hr, h]
  rfl

theorem bind_apply_error {m : Act Op α} {f : α → Act Op β} {s s' : State Op} {e : Failure}
    {out : String} {notes : List Note} (h : m s = ⟨.error e, s', out, notes⟩) :
    (m >>= f) s = ⟨.error e, s', out, notes⟩ := by
  have hr : (m s).result = .error e := by rw [h]
  rw [bind_apply_of_error hr, h]

theorem bind_apply_congr {m m' : Act Op α} {s : State Op} (h : m s = m' s) (f : α → Act Op β) :
    (m >>= f) s = (m' >>= f) s := by
  show Act.bind m f s = Act.bind m' f s
  simp only [Act.bind, h]

end Act

end WordMachine
