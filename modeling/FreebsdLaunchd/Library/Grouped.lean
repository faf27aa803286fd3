import Mathlib.Order.Lattice
import Mathlib.Data.List.Pairwise

/-! Lists that are sorted by a key: the entries with one key stand together,
and what is done to one of these groups does not reach the others. -/
namespace Grouped
open List

variable {α κ : Type*} {l l' : List α} {x : α} {i : Nat}

/-! ## Positions -/

theorem insertIdx_append_right (l l' : List α) (i : Nat) (x : α) :
    (l ++ l').insertIdx (l.length+i) x = l ++ l'.insertIdx i x := by
  induction l with
  | nil => simp
  | cons a l ih => rw [cons_append,length_cons,Nat.add_right_comm,insertIdx_succ_cons,ih,cons_append]

theorem insertIdx_append_left (le : i ≤ l.length) : (l ++ l').insertIdx i x = l.insertIdx i x ++ l' := by
  induction l generalizing i with
  | nil =>
    obtain rfl := Nat.le_zero.mp le
    rfl
  | cons a l ih =>
    cases i with
    | zero => rfl
    | succ i => rw [cons_append,insertIdx_succ_cons,insertIdx_succ_cons,ih (Nat.le_of_succ_le_succ le),cons_append]

theorem modify_append_right (l l' : List α) (i : Nat) (f : α → α) :
    (l ++ l').modify (l.length+i) f = l ++ l'.modify i f := by
  induction l with
  | nil => simp
  | cons a l ih => rw [cons_append,length_cons,Nat.add_right_comm,modify_succ_cons,ih,cons_append]

theorem modify_append_left {f : α → α} (lt : i < l.length) : (l ++ l').modify i f = l.modify i f ++ l' := by
  induction l generalizing i with
  | nil => cases lt
  | cons a l ih =>
    cases i with
    | zero => rfl
    | succ i => rw [cons_append,modify_succ_cons,modify_succ_cons,ih (Nat.lt_of_succ_lt_succ lt),cons_append]

/-! ## Groups -/

/-- Where no value occurs twice, what is erased is all that has the value. -/
theorem eraseIdx_findIdx? {β : Type*} [DecidableEq β] {f : α → β} (apart : l.Pairwise (f · ≠ f ·)) (b : β) :
    (l.findIdx? (f · = b)).elim l l.eraseIdx = l.filter (f · ≠ b) := by
  induction l with
  | nil => rfl
  | cons a l ih =>
    obtain ⟨first,rest⟩ := pairwise_cons.mp apart
    by_cases here : f a = b
    · have others : l.filter (f · ≠ b) = l := by simpa [filter_eq_self] using fun x member => here ▸ (first x member).symm
      rw [findIdx?_cons,if_pos (by simpa using here),filter_cons_of_neg (by simpa using here),others]
      rfl
    · rw [findIdx?_cons,if_neg (by simpa using here),filter_cons_of_pos (by simpa using here),← ih rest]
      cases l.findIdx? (f · = b) <;> rfl

section Key
variable [LinearOrder κ] (key : α → κ)

def group (k : κ) (l : List α) : List α := l.filter (key · = k)

def Sorted (l : List α) : Prop := l.Pairwise (key · ≤ key ·)

variable {key} {k c : κ}

@[simp] theorem mem_group : x ∈ group key k l ↔ x ∈ l ∧ key x = k := by simp [group]

/-- A group stands between the entries with smaller keys and those with greater ones. -/
theorem Sorted.split (sorted : Sorted key l) (k : κ) :
    ∃ front back, l = front ++ group key k l ++ back ∧ (∀ x ∈ front, key x < k) ∧ (∀ x ∈ back, k < key x) := by
  induction l with
  | nil => exact ⟨[],[],rfl,nofun,nofun⟩
  | cons a l ih =>
    obtain ⟨first,rest⟩ := pairwise_cons.mp sorted
    obtain ⟨front,back,same,less,more⟩ := ih rest
    rcases lt_trichotomy (key a) k with lt | rfl | gt
    · refine ⟨a::front,back,?_,forall_mem_cons.mpr ⟨lt,less⟩,more⟩
      rw [group,filter_cons_of_neg (by simpa using lt.ne),cons_append,cons_append]
      exact congrArg (a :: ·) same
    · have none : front = [] := by
        apply eq_nil_iff_forall_not_mem.mpr
        intro x member
        have inside : x ∈ l := by
          rw [same,append_assoc]
          exact mem_append_left _ member
        exact absurd (less x member) (not_lt.mpr (first x inside))
      subst none
      refine ⟨[],back,?_,nofun,more⟩
      rw [group,filter_cons_of_pos (by simp),nil_append,cons_append]
      exact congrArg (a :: ·) same
    · have none : group key k l = [] := by
        apply eq_nil_iff_forall_not_mem.mpr
        intro x member
        obtain ⟨inside,equal⟩ := mem_group.mp member
        exact absurd (first x inside) (not_le.mpr (equal ▸ gt))
      have all (x : α) (member : x ∈ a::l) : k < key x := by
        rcases mem_cons.mp member with rfl | inside
        · exact gt
        · exact gt.trans_le (first x inside)
      refine ⟨[],a::l,?_,nofun,all⟩
      rw [group,filter_cons_of_neg (by simpa using gt.ne')]
      change _ = [] ++ group key k l ++ _
      rw [none]
      rfl

/-- What holds within the groups, and the order of the keys between them. -/
theorem Sorted.pairwise {r : α → α → Prop} (sorted : Sorted key l) (within : ∀ k, (group key k l).Pairwise r) :
    l.Pairwise fun a b => key a < key b ∨ key a = key b ∧ r a b := by
  induction l with
  | nil => exact .nil
  | cons a l ih =>
    obtain ⟨first,rest⟩ := pairwise_cons.mp sorted
    have later (k : κ) : (group key k l).Pairwise r :=
      (within k).sublist ((sublist_cons_self a l).filter _)
    refine pairwise_cons.mpr ⟨?_,ih rest later⟩
    intro b member
    rcases lt_or_eq_of_le (first b member) with lt | same
    · exact .inl lt
    · have here := within (key a)
      rw [group,filter_cons_of_pos (by simp)] at here
      exact .inr ⟨same,(pairwise_cons.mp here).1 b (mem_group.mpr ⟨member,same.symm⟩)⟩

theorem Sorted.replace {front g back : List α} (sorted : Sorted key (front ++ g ++ back))
    (less : ∀ x ∈ front, key x < k) (more : ∀ x ∈ back, k < key x) {g' : List α}
    (there : ∀ x ∈ g', key x = k) : Sorted key (front ++ g' ++ back) := by
  simp only [Sorted,pairwise_append,mem_append] at sorted ⊢
  obtain ⟨⟨first,_,_⟩,last,_⟩ := sorted
  have level : g'.Pairwise (key · ≤ key ·) :=
    pairwise_of_forall_mem_list fun x hx y hy => le_of_eq ((there x hx).trans (there y hy).symm)
  refine ⟨⟨first,level,fun x hx y hy => ?_⟩,last,?_⟩
  · exact (there y hy).symm ▸ (less x hx).le
  · rintro x (hx | hx) y hy
    · exact ((less x hx).trans (more y hy)).le
    · exact (there x hx).symm ▸ (more y hy).le

theorem group_replace {front g back : List α} (less : ∀ x ∈ front, key x < k) (here : ∀ x ∈ g, key x = k)
    (more : ∀ x ∈ back, k < key x) : group key k (front ++ g ++ back) = g := by
  have before : front.filter (key · = k) = [] := by
    simpa [filter_eq_nil_iff] using fun x member => (less x member).ne
  have behind : back.filter (key · = k) = [] := by
    simpa [filter_eq_nil_iff] using fun x member => (more x member).ne'
  have middle : g.filter (key · = k) = g := by simpa [filter_eq_self] using here
  rw [group,filter_append,filter_append,before,behind,middle,nil_append,append_nil]

theorem group_other {front g g' back : List α} (here : ∀ x ∈ g, key x = k) (there : ∀ x ∈ g', key x = k)
    (other : c ≠ k) : group key c (front ++ g' ++ back) = group key c (front ++ g ++ back) := by
  have without : g.filter (key · = c) = [] := by
    simpa [filter_eq_nil_iff] using fun x member => (here x member).trans_ne other.symm
  have without' : g'.filter (key · = c) = [] := by
    simpa [filter_eq_nil_iff] using fun x member => (there x member).trans_ne other.symm
  simp only [group,filter_append,without,without']

end Key

end Grouped
