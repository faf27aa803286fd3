import Mathlib.Data.Fintype.Card
import Mathlib.Data.Set.Finite.Basic
import Mathlib.Logic.Relation

/-! Descending along a relation. From a point that reaches finitely many others
every descent comes to an end exactly if none of them is reached from itself. -/
namespace Descents
open Relation

variable {α : Type} {r : α → α → Prop} {start d e : α}

/-- No point below `start`, and not `start` itself, is reached again from itself. -/
def Acyclic (r : α → α → Prop) (start : α) : Prop := ∀ d, ReflTransGen r start d → ¬ TransGen r d d

/-- Every descent from `start` comes to an end. -/
def Ends (r : α → α → Prop) (start : α) : Prop := Acc (fun e d => r d e) start

theorem Ends.inner (ends : Ends r d) (step : r d e) : Ends r e := ends.inv step

theorem Ends.below (ends : Ends r d) (reach : ReflTransGen r d e) : Ends r e := by
  induction reach with
  | refl => exact ends
  | tail _ step ih => exact Ends.inner ih step

theorem Ends.no_cycle (ends : Ends r d) : ¬ TransGen r d d := by
  induction ends with
  | intro d _ ih =>
    intro cycle
    obtain ⟨e,step,back⟩ := TransGen.head'_iff.mp cycle
    exact ih e step (TransGen.tail' back step)

/-- On finitely many points the descent is well-founded once there is no cycle. -/
theorem Acyclic.ends (acyclic : Acyclic r start) (finite : {d | ReflTransGen r start d}.Finite) :
    Ends r start := by
  let below (e d : {d | ReflTransGen r start d}) : Prop := TransGen r d.1 e.1
  have : Finite {d | ReflTransGen r start d} := finite
  have : IsTrans _ below := ⟨fun a b c ab bc => bc.trans ab⟩
  have : Std.Irrefl below := ⟨fun d => acyclic d.1 d.2⟩
  have wellFounded : WellFounded below := Finite.wellFounded_of_trans_of_irrefl below
  have each (d : {d | ReflTransGen r start d}) : Ends r d.1 := by
    induction d using wellFounded.induction with
    | h d ih =>
      refine .intro d.1 fun e step => ?_
      exact ih ⟨e,d.2.tail step⟩ (.single step)
  exact each ⟨start,.refl⟩

theorem ends_iff (finite : {d | ReflTransGen r start d}.Finite) : Ends r start ↔ Acyclic r start :=
  ⟨fun ends _ reach => (ends.below reach).no_cycle,fun acyclic => acyclic.ends finite⟩

end Descents
