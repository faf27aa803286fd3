import Mathlib.Tactic.Common

/-! Code that fails, and `while` loops that may not end. A loop that takes the items of a
list one after another is followed by an invariant over those taken and those left. -/

/-- What comes back: nothing so far, a failure, or a result. -/
inductive Outcome (α : Type)
  | unfinished
  | null
  | done (result : α)

namespace Outcome

variable {α β ι : Type} {more : α → Bool} {step : α → Outcome α} {s s' : α} {fuel : Nat}

def bind : Outcome α → (α → Outcome β) → Outcome β
  | unfinished, _ => unfinished
  | null, _ => null
  | done result, next => next result

@[simp] theorem bind_done (result : α) (next : α → Outcome β) : (done result).bind next = next result := rfl

@[simp] theorem bind_null (next : α → Outcome β) : (null : Outcome α).bind next = null := rfl

@[simp] theorem bind_unfinished (next : α → Outcome β) : (unfinished : Outcome α).bind next = unfinished := rfl

def loop (more : α → Bool) (step : α → Outcome α) : Nat → α → Outcome α
  | 0, _ => unfinished
  | fuel+1, s => if more s then (step s).bind (loop more step fuel) else done s

theorem loop_ended (ended : more s = false) : loop more step (fuel+1) s = done s := by simp [loop,ended]

theorem loop_more (again : more s) (stepped : step s = done s') : loop more step (fuel+1) s = loop more step fuel s' := by
  simp [loop,again,stepped]

/-- A loop that takes one item each time, with an invariant over the items taken and those left. -/
theorem loop_items (Inv : List ι → List ι → α → Prop) (ended : ∀ taken s, Inv taken [] s → more s = false)
    (each : ∀ taken i left s, Inv taken (i::left) s → more s ∧ ∃ s', step s = done s' ∧ Inv (taken ++ [i]) left s')
    {taken left : List ι} (holds : Inv taken left s) (enough : left.length < fuel) :
    ∃ s', loop more step fuel s = done s' ∧ Inv (taken ++ left) [] s' := by
  induction left generalizing taken s fuel with
  | nil =>
    obtain ⟨fuel,rfl⟩ := Nat.exists_eq_succ_of_ne_zero (Nat.ne_of_gt enough)
    exact ⟨s,loop_ended (ended taken s holds),by rwa [List.append_nil]⟩
  | cons i left ih =>
    obtain ⟨fuel,rfl⟩ := Nat.exists_eq_succ_of_ne_zero (Nat.ne_of_gt (Nat.zero_lt_of_lt enough))
    obtain ⟨again,s₁,stepped,holds₁⟩ := each taken i left s holds
    obtain ⟨s',looped,final⟩ := ih holds₁ (Nat.lt_of_succ_lt_succ enough)
    refine ⟨s',(loop_more again stepped).trans looped,?_⟩
    rwa [List.append_cons]

end Outcome
