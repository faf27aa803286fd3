import FreebsdLaunchd.Library.Runs
import Mathlib.Data.List.Basic

/-! Events of several parties handled one after another: where two events of different
parties may change places, only the order of each party's own events counts. -/
namespace Interleavings
open Runs

variable {S E κ : Type} [DecidableEq κ] {step : S → E → S} {party : E → κ}

/-- Two events of different parties may change places. -/
def Independent (step : S → E → S) (party : E → κ) : Prop :=
  ∀ s e e', party e ≠ party e' → step (step s e) e' = step (step s e') e

/-- Each party has the same events in the same order. -/
def SameByParty (party : E → κ) (events events' : List E) : Prop :=
  ∀ k, events.filter (fun e => party e = k) = events'.filter fun e => party e = k

theorem SameByParty.swap {e e' : E} (other : party e ≠ party e') : SameByParty party [e,e'] [e',e] := by
  intro k
  by_cases mine : party e = k
  · have others : ¬ party e' = k := fun same => other (mine.trans same.symm)
    simp [mine,others]
  · simp [List.filter_cons,mine]

omit [DecidableEq κ] in
theorem run_past (independent : Independent step party) (s : S) {e : E} {before : List E}
    (others : ∀ e' ∈ before, party e' ≠ party e) : run step (step s e) before = step (run step s before) e := by
  induction before generalizing s with
  | nil => rfl
  | cons e' rest ih =>
    obtain ⟨here,later⟩ := List.forall_mem_cons.mp others
    have swap : step (step s e) e' = step (step s e') e := independent s e e' here.symm
    rw [run,List.foldl_cons,swap]
    exact ih (step s e') later

/-- The first event of the one order, found in the other. -/
theorem SameByParty.split {e : E} {rest events' : List E} (same : SameByParty party (e::rest) events') :
    ∃ before after, events' = before ++ e :: after ∧ (∀ e' ∈ before, party e' ≠ party e) ∧
      SameByParty party rest (before ++ after) := by
  have own := same (party e)
  rw [List.filter_cons_of_pos (by simp)] at own
  obtain ⟨before,after,rfl,others,_,tail⟩ := List.filter_eq_cons_iff.mp own.symm
  have others : ∀ e' ∈ before, party e' ≠ party e := fun e' member => by simpa using others e' member
  refine ⟨before,after,rfl,others,fun k => ?_⟩
  by_cases mine : party e = k
  · subst mine
    have none_ : before.filter (fun e' => party e' = party e) = [] :=
      List.filter_eq_nil_iff.mpr fun e' member => by simpa using others e' member
    rw [List.filter_append,none_,List.nil_append]
    exact tail.symm
  · have all := same k
    rw [List.filter_cons_of_neg (by simpa using mine),List.filter_append,List.filter_cons_of_neg (by simpa using mine),
      ← List.filter_append] at all
    exact all

theorem run_eq_of_sameByParty (independent : Independent step party) {events events' : List E}
    (same : SameByParty party events events') (s : S) : run step s events = run step s events' := by
  induction events generalizing events' s with
  | nil =>
    cases events' with
    | nil => rfl
    | cons e rest =>
      have none_ := same (party e)
      rw [List.filter_nil,List.filter_cons_of_pos (by simp)] at none_
      cases none_
  | cons e rest ih =>
    obtain ⟨before,after,rfl,others,tail⟩ := same.split
    have moved : run step s (before ++ e :: after) = run step (step s e) (before ++ after) := by
      rw [run,List.foldl_append,List.foldl_cons]
      have past := run_past independent s others
      rw [run,run] at past
      rw [← past,run,List.foldl_append]
    rw [moved]
    exact ih tail (step s e)

end Interleavings
