import Mathlib.Data.List.MinMax
import Mathlib.Tactic.Order

/-! The first of the least elements of a list that comes in blocks. It does not
depend on the order of the blocks when no two of them agree on the value. -/
namespace FirstLeast
open List

variable {α β κ : Type*} [LinearOrder κ] {f : α → κ}

theorem argmin_append (f : α → κ) (l m : List α) :
    (l ++ m).argmin f = match l.argmin f,m.argmin f with
      | a, none => a
      | none, b => b
      | some a, some b => if f b < f a then some b else some a := by
  induction m using List.reverseRecOn with
  | nil => simp
  | append_singleton m c ih =>
    rw [← append_assoc,argmin_concat,argmin_concat,ih]
    cases l.argmin f with
    | none =>
      cases m.argmin f with
      | none => rfl
      | some b => by_cases less : f c < f b <;> simp [less]
    | some a =>
      cases m.argmin f with
      | none => rfl
      | some b =>
        by_cases first : f b < f a
        · by_cases last : f c < f b
          · simp [first,last,last.trans first]
          · simp [first,last]
        · by_cases last : f c < f b
          · simp [first,last]
          · have behind : ¬ f c < f a := by order
            simp [first,last,behind]

theorem argmin_perm {block : β → List α} {l m : List β} (perm : l.Perm m)
    (apart : l.Pairwise fun s t => ∀ a ∈ block s, ∀ b ∈ block t, f a ≠ f b) :
    (l.flatMap block).argmin f = (m.flatMap block).argmin f := by
  induction perm with
  | nil => rfl
  | cons s _ ih => rw [flatMap_cons,flatMap_cons,argmin_append,argmin_append,ih apart.of_cons]
  | swap s t l =>
    have differ := (pairwise_cons.mp apart).1 s mem_cons_self
    have swapped : (block t ++ block s).argmin f = (block s ++ block t).argmin f := by
      rw [argmin_append,argmin_append]
      cases first : (block t).argmin f with
      | none => cases (block s).argmin f <;> rfl
      | some a =>
        cases second : (block s).argmin f with
        | none => rfl
        | some b =>
          rcases lt_or_gt_of_ne (differ a (argmin_mem first) b (argmin_mem second)) with less | more
          · simp [less,not_lt.mpr less.le]
          · simp [more,not_lt.mpr more.le]
    simp only [flatMap_cons,← append_assoc]
    rw [argmin_append,swapped,← argmin_append]
  | trans first _ ih ih' =>
    rw [ih apart]
    apply ih'
    exact (first.pairwise_iff fun differ a ha b hb => (differ b hb a ha).symm).mp apart

end FirstLeast
