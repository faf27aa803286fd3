import Mathlib.Logic.Function.Basic

/-! Two partial functions that are each other's inverse: each thing has at most one
owner and each owner at most one thing, whichever side is asked. -/
namespace Matching

variable {A B : Type} {f : A → Option B} {g : B → Option A} {a a' : A} {b : B}

def Matched (f : A → Option B) (g : B → Option A) : Prop := ∀ a b, f a = some b ↔ g b = some a

theorem Matched.one (matched : Matched f g) (own : f a = some b) (own' : f a' = some b) : a = a' :=
  Option.some.inj (((matched a b).mp own).symm.trans ((matched a' b).mp own'))

variable [DecidableEq A] [DecidableEq B]

theorem Matched.join (matched : Matched f g) (single : f a = none) (free : g b = none) :
    Matched (Function.update f a (some b)) (Function.update g b (some a)) := by
  intro x y
  by_cases hereA : x = a
  · subst hereA
    by_cases hereB : y = b
    · subst hereB
      simp
    · have other : g y ≠ some x := fun own => by
        rw [(matched x y).mpr own] at single
        cases single
      simp [Function.update_of_ne hereB,other,Ne.symm hereB]
  · by_cases hereB : y = b
    · subst hereB
      have other : f x ≠ some y := fun own => by
        rw [(matched x y).mp own] at free
        cases free
      simp [Function.update_of_ne hereA,other,Ne.symm hereA]
    · simpa [Function.update_of_ne hereA,Function.update_of_ne hereB] using matched x y

theorem Matched.part (matched : Matched f g) (own : f a = some b) :
    Matched (Function.update f a none) (Function.update g b none) := by
  have own' := (matched a b).mp own
  intro x y
  by_cases hereA : x = a
  · subst hereA
    by_cases hereB : y = b
    · subst hereB
      simp
    · have other : g y ≠ some x := fun there => hereB (Option.some.inj (((matched x y).mpr there).symm.trans own))
      simp [Function.update_of_ne hereB,other]
  · by_cases hereB : y = b
    · subst hereB
      have other : f x ≠ some y := fun there => hereA (matched.one there own)
      simp [Function.update_of_ne hereA,other]
    · simpa [Function.update_of_ne hereA,Function.update_of_ne hereB] using matched x y

end Matching
