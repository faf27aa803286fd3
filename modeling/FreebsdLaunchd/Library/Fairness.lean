import Mathlib.Data.Nat.Basic

/-! Infinite schedules of a machine and the ranking rule for what a fair
schedule must reach. Every state names one helpful kind of action; an action of
another kind may leave the rank and the helpful kind as they are, and a
schedule that keeps offering the helpful kinds then runs the rank down. -/
namespace Fairness

variable {S A K : Type}

def trace (step : S → A → S) (s : S) (schedule : ℕ → A) : ℕ → S
  | 0 => s
  | n+1 => step (trace step s schedule n) (schedule n)

def Offers (kind : A → K) (schedule : ℕ → A) (k : K) : Prop :=
  ∀ n, ∃ m, n ≤ m ∧ kind (schedule m) = k

variable (step : S → A → S) (s : S) (schedule : ℕ → A)

theorem trace_invariant {P : S → Prop} (initial : P s)
    (keeps : ∀ n, P (trace step s schedule n) → P (trace step s schedule (n+1))) (n : ℕ) :
    P (trace step s schedule n) := by
  induction n with
  | zero => exact initial
  | succ n ih => exact keeps n ih

theorem trace_settled {step : S → A → S} {s : S} {schedule : ℕ → A} {n : ℕ}
    (settled : ∀ a, step (trace step s schedule n) a = trace step s schedule n)
    {m : ℕ} (later : n ≤ m) : trace step s schedule m = trace step s schedule n := by
  induction m, later using Nat.le_induction with
  | base => rfl
  | succ m _ ih => rw [trace,ih,settled]

/-- The ranking rule: away from the goal each step lowers the rank, or keeps
it and the helpful kind without having been of that kind. -/
theorem reaches_goal {kind : A → K} (goal : S → Prop) (rank : S → ℕ) (helpful : S → K)
    (fair : ∀ n, Offers kind schedule (helpful (trace step s schedule n)))
    (progress : ∀ n, ¬ goal (trace step s schedule n) →
      rank (trace step s schedule (n+1)) < rank (trace step s schedule n) ∨
      (rank (trace step s schedule (n+1)) = rank (trace step s schedule n) ∧
        kind (schedule n) ≠ helpful (trace step s schedule n) ∧
        helpful (trace step s schedule (n+1)) = helpful (trace step s schedule n))) :
    ∃ n, goal (trace step s schedule n) := by
  suffices descent : ∀ r n, rank (trace step s schedule n) = r → ∃ m, goal (trace step s schedule m) from
    descent _ 0 rfl
  intro r
  induction r using Nat.strong_induction_on with
  | _ r lower =>
    intro n ranked
    obtain ⟨m,later,offered⟩ := fair n n
    -- the inner induction walks to the time at which the helpful kind is offered
    obtain ⟨d,rfl⟩ := Nat.exists_eq_add_of_le later
    clear later
    induction d generalizing n with
    | zero =>
      by_cases done : goal (trace step s schedule n)
      · exact ⟨n,done⟩
      rcases progress n done with less | ⟨_,other,_⟩
      · exact lower _ (ranked ▸ less) (n+1) rfl
      · exact absurd offered other
    | succ d ih =>
      by_cases done : goal (trace step s schedule n)
      · exact ⟨n,done⟩
      rcases progress n done with less | ⟨same,_,kept⟩
      · exact lower _ (ranked ▸ less) (n+1) rfl
      · refine ih (n+1) (same.trans ranked) ?_
        rw [kept,show n+1+d = n+(d+1) by omega]
        exact offered

end Fairness
