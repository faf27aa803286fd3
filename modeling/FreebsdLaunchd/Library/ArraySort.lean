import Mathlib.Data.List.Pairwise
import Mathlib.Data.List.Perm.Basic
import Mathlib.Order.Extension.Linear

/-! Sorting an array with a comparison function that is given by the caller. What a
sort is expected to do is said for comparisons that are consistent on the array; it
may order the values in any way otherwise. -/
namespace ArraySorting

variable {α : Type}

/-- A strict order among the places of the list. -/
structure Consistent (compare : α → α → Ordering) (list : List α) : Prop where
  opposite : list.Pairwise fun a b => compare a b = (compare b a).swap
  transitive : ∀ a ∈ list, ∀ b ∈ list, ∀ c ∈ list, compare a b = .lt → compare b c = .lt → compare a c = .lt

/-- A sort puts the values of the list in another order; where the comparison is
consistent, no value is behind a greater one. -/
structure ArraySort (α : Type) where
  sortValues : (α → α → Ordering) → List α → List α
  perm : ∀ compare list, (sortValues compare list).Perm list
  sorted : ∀ compare list, Consistent compare list →
    (sortValues compare list).Pairwise fun a b => compare b a ≠ .lt

/-- A comparison that is strict among all values; values it does not tell apart may be
told from others in different ways. -/
structure Strict (compare : α → α → Ordering) : Prop where
  swap : ∀ a b, compare a b = (compare b a).swap
  transitive : ∀ a b c, compare a b = .lt → compare b c = .lt → compare a c = .lt

theorem Strict.behind {second : α → α → Ordering} (strict : Strict second) (first : α → α → Ordering)
    [Std.TransCmp first] :
    Strict fun a b => (first a b).then (second a b) where
  swap a b := by
    rw [Ordering.swap_then,← strict.swap,← Std.OrientedCmp.eq_swap]
  transitive a b c before after := by
    rw [Ordering.then_eq_lt] at before after ⊢
    rcases before with before | ⟨same,before⟩
    · left
      rcases after with after | ⟨same,_⟩
      · exact Std.TransCmp.lt_trans before after
      · exact Std.TransCmp.lt_of_lt_of_eq before same
    · rcases after with after | ⟨same',after⟩
      · exact .inl (Std.TransCmp.lt_of_eq_of_lt same after)
      · exact .inr ⟨Std.TransCmp.eq_trans same same',strict.transitive a b c before after⟩

/-- A strict comparison of the values of one kind, which tells no others apart. -/
theorem Strict.among {second : α → α → Ordering} (strict : Strict second) (kind : α → Bool) :
    Strict fun a b => if kind a && kind b then second a b else .eq where
  swap a b := by
    by_cases both : kind a && kind b
    · simp only [both,Bool.and_comm (kind b),if_true]
      exact strict.swap a b
    · simp [both,Bool.and_comm (kind b)]
  transitive a b c before after := by
    by_cases first : kind a && kind b
    · by_cases second_ : kind b && kind c
      · have third : kind a && kind c := by
          rw [Bool.and_eq_true] at first second_ ⊢
          exact ⟨first.1,second_.2⟩
        rw [if_pos first] at before
        rw [if_pos second_] at after
        rw [if_pos third]
        exact strict.transitive a b c before after
      · simp [second_] at after
    · simp [first] at before

theorem Strict.consistent {compare : α → α → Ordering} (strict : Strict compare) (list : List α) :
    Consistent compare list where
  opposite := List.pairwise_of_forall strict.swap
  transitive a _ b _ c _ := strict.transitive a b c

/-- One value has no other order. -/
theorem ArraySort.short (sort : ArraySort α) (compare : α → α → Ordering) {list : List α} (short : ¬ list.length > 1) :
    sort.sortValues compare list = list := by
  have perm := sort.perm compare list
  match list with
  | [] => exact perm.eq_nil
  | [a] => exact List.perm_singleton.mp perm
  | _::_::_ => simp at short

/-- A least value is sorted to the front. -/
theorem ArraySort.head (sort : ArraySort α) {compare : α → α → Ordering} {list : List α}
    (consistent : Consistent compare list) {a : α} (member : a ∈ list)
    (least : ∀ b ∈ list, b ≠ a → compare a b = .lt) : (sort.sortValues compare list).head? = some a := by
  have sorted := sort.sorted compare list consistent
  have perm := sort.perm compare list
  generalize sort.sortValues compare list = result at sorted perm
  cases result with
  | nil => exact absurd (perm.mem_iff.mpr member) List.not_mem_nil
  | cons b rest =>
    rw [List.head?_cons,Option.some.injEq]
    by_contra other
    have behind := (List.mem_cons.mp (perm.mem_iff.mpr member)).resolve_left (Ne.symm other)
    exact (List.pairwise_cons.mp sorted).1 a behind (least b (perm.mem_iff.mp List.mem_cons_self) other)

theorem Consistent.erase [DecidableEq α]
    {compare : α → α → Ordering} {list : List α} (consistent : Consistent compare list) (a : α) :
    Consistent compare (list.erase a) where
  opposite := consistent.opposite.sublist List.erase_sublist
  transitive b first c second d third := consistent.transitive b (List.mem_of_mem_erase first) c
    (List.mem_of_mem_erase second) d (List.mem_of_mem_erase third)

/-- Equal values may come out in any order: a value that none is less than can be the first. -/
def ArraySort.leading [DecidableEq α] (sort : ArraySort α) (a : α) : ArraySort α where
  sortValues compare list :=
    if a ∈ list ∧ ∀ b ∈ list, compare b a ≠ .lt then a::sort.sortValues compare (list.erase a)
    else sort.sortValues compare list
  perm compare list := by
    split
    next least => exact ((sort.perm compare _).cons a).trans (List.perm_cons_erase least.1).symm
    next => exact sort.perm compare list
  sorted compare list consistent := by
    split
    next least =>
      refine List.pairwise_cons.mpr ⟨fun b behind => ?_,sort.sorted compare _ (consistent.erase a)⟩
      exact least.2 b (List.mem_of_mem_erase ((sort.perm compare _).mem_iff.mp behind))
    next => exact sort.sorted compare list consistent

theorem ArraySort.leading_head [DecidableEq α] (sort : ArraySort α) {compare : α → α → Ordering} {list : List α} {a : α}
    (member : a ∈ list) (least : ∀ b ∈ list, compare b a ≠ .lt) : ((sort.leading a).sortValues compare list).head? = some a := by
  rw [ArraySort.leading]
  exact congrArg List.head? (if_pos ⟨member,least⟩)

/-! ## Two lists that are sorted alike -/

section Alike

variable {β : Type}

/-- The values a sorted list keeps, as values of a list of places. -/
theorem ArraySort.kept (sort : ArraySort α) {compare : α → α → Ordering} {places : List β} {value : β → α}
    {list : List α} (perm : list.Perm (places.map value)) (consistent : Consistent compare list) (keep : α → Bool) :
    ∃ order : List β, order.Perm (places.filter (keep ∘ value)) ∧ (sort.sortValues compare list).filter keep = order.map value ∧
      order.Pairwise fun a b => compare (value b) (value a) ≠ .lt := by
  have whole : ((sort.sortValues compare list).filter keep).Perm ((places.filter (keep ∘ value)).map value) := by
    rw [← List.filter_map]
    exact ((sort.perm compare list).trans perm).filter keep
  have lifted := List.eq_map_comp_perm value
  obtain ⟨order,same,permuted⟩ := (congrFun (congrFun lifted _) _).mpr whole
  have sorted := (sort.sorted compare list consistent).filter keep
  rw [same,List.pairwise_map] at sorted
  exact ⟨order,permuted,same,sorted⟩

/-- Two lists with values for the same places are sorted in the same order of places,
as far as the comparisons of the kept values agree and tell them apart. -/
theorem ArraySort.alike (sort : ArraySort α) {compare : α → α → Ordering} {places : List β} {value value' : β → α}
    {list list' : List α} (keep : α → Bool) (distinct : places.Nodup)
    (perm : list.Perm (places.map value)) (perm' : list'.Perm (places.map value'))
    (consistent : Consistent compare list) (consistent' : Consistent compare list')
    (kept : ∀ a ∈ places, keep (value a) = keep (value' a))
    (swap : ∀ a ∈ places, ∀ b ∈ places, a ≠ b → compare (value a) (value b) = (compare (value b) (value a)).swap)
    (agree : ∀ a ∈ places, ∀ b ∈ places, keep (value a) → keep (value b) → a ≠ b →
      compare (value a) (value b) = compare (value' a) (value' b) ∧ compare (value a) (value b) ≠ .eq) :
    ∃ order : List β, order.Perm (places.filter (keep ∘ value)) ∧ (sort.sortValues compare list).filter keep = order.map value ∧
      (sort.sortValues compare list').filter keep = order.map value' := by
  have filters : places.filter (keep ∘ value') = places.filter (keep ∘ value) :=
    List.filter_congr fun a member => (kept a member).symm
  obtain ⟨order,permuted,same,sorted⟩ := sort.kept perm consistent keep
  obtain ⟨order',permuted',same',sorted'⟩ := sort.kept perm' consistent' keep
  rw [filters] at permuted'
  refine ⟨order,permuted,same,?_⟩
  have inside (a : β) (member : a ∈ order) : a ∈ places ∧ keep (value a) := by
    have there := List.mem_filter.mp (permuted.mem_iff.mp member)
    exact ⟨there.1,there.2⟩
  have less (a b : β) (memberA : a ∈ order) (memberB : b ∈ order) (apart : a ≠ b)
      (behind : compare (value b) (value a) ≠ .lt) : compare (value a) (value b) = .lt := by
    obtain ⟨placeA,keepA⟩ := inside a memberA
    obtain ⟨placeB,keepB⟩ := inside b memberB
    have told := (agree b placeB a placeA keepB keepA (Ne.symm apart)).2
    rw [swap a placeA b placeB apart]
    cases result : compare (value b) (value a) with
    | lt => exact absurd result behind
    | eq => exact absurd result told
    | gt => rfl
  have nodup : order.Nodup := permuted.nodup_iff.mpr (distinct.filter _)
  have perms : order.Perm order' := permuted.trans permuted'.symm
  have first : order.Pairwise fun a b => compare (value a) (value b) = .lt :=
    List.Pairwise.imp_of_mem (fun memberA memberB both => less _ _ memberA memberB both.1 both.2) (nodup.and sorted)
  have second : order'.Pairwise fun a b => compare (value a) (value b) = .lt := by
    refine List.Pairwise.imp_of_mem (fun {a b} memberA memberB both => ?_) ((perms.nodup_iff.mp nodup).and sorted')
    have memberA := perms.mem_iff.mpr memberA
    have memberB := perms.mem_iff.mpr memberB
    obtain ⟨placeA,keepA⟩ := inside a memberA
    obtain ⟨placeB,keepB⟩ := inside b memberB
    have equal := (agree b placeB a placeA keepB keepA (Ne.symm both.1)).1
    exact less a b memberA memberB both.1 (equal ▸ both.2)
  have equal : order = order' := by
    refine List.Perm.eq_of_pairwise (fun a b memberA memberB before after => ?_) first second perms
    by_contra apart
    have memberB := perms.mem_iff.mpr memberB
    rw [swap a (inside a memberA).1 b (inside b memberB).1 apart,after] at before
    cases before
  rw [equal]
  exact same'

end Alike

/-! ## There is such a sort -/

def Opposite (compare : α → α → Ordering) (a b : α) : Prop := compare a b = (compare b a).swap

instance (compare : α → α → Ordering) : Std.Symm (Opposite compare) where
  symm a b same := by
    rw [Opposite,same,Ordering.swap_swap]

theorem Consistent.swap {compare : α → α → Ordering} {list : List α} (consistent : Consistent compare list) {a b : α}
    (first : a ∈ list) (second : b ∈ list) (apart : a ≠ b) : compare a b = (compare b a).swap := by
  have opposite : list.Pairwise (Opposite compare) := consistent.opposite
  exact opposite.forall first second apart

def Below (compare : α → α → Ordering) (list : List α) (a b : α) : Prop :=
  a = b ∨ a ∈ list ∧ b ∈ list ∧ a ≠ b ∧ compare a b = .lt

theorem Consistent.asymm {compare : α → α → Ordering} {list : List α} (consistent : Consistent compare list) {a b : α}
    (first : a ∈ list) (second : b ∈ list) (apart : a ≠ b) (less : compare a b = .lt) : compare b a ≠ .lt := by
  rw [consistent.swap second first (Ne.symm apart),less]
  decide

theorem Consistent.partialOrder {compare : α → α → Ordering} {list : List α} (consistent : Consistent compare list) :
    IsPartialOrder α (Below compare list) where
  refl _ := .inl rfl
  trans a b c first later := by
    rcases first with rfl | ⟨memberA,memberB,apart,less⟩
    · exact later
    · rcases later with rfl | ⟨_,memberC,apart',less'⟩
      · exact .inr ⟨memberA,memberB,apart,less⟩
      · by_cases same : a = c
        · exact .inl same
        · exact .inr ⟨memberA,memberC,same,consistent.transitive a memberA b memberB c memberC less less'⟩
  antisymm a b first later := by
    rcases first with same | ⟨memberA,memberB,apart,less⟩
    · exact same
    · rcases later with same | ⟨_,_,_,less'⟩
      · exact same.symm
      · exact absurd less' (consistent.asymm memberA memberB apart less)

open Classical in
noncomputable def linearSort (compare : α → α → Ordering) (list : List α) : List α :=
  if consistent : Consistent compare list then
    have := consistent.partialOrder
    list.mergeSort fun a b => decide ((extend_partialOrder (Below compare list)).choose a b)
  else list

open Classical in
noncomputable def linearized : ArraySort α where
  sortValues := linearSort
  perm compare list := by
    unfold linearSort
    split
    · exact List.mergeSort_perm ..
    · exact .refl _
  sorted compare list consistent := by
    have := consistent.partialOrder
    rw [linearSort,dif_pos consistent]
    dsimp only
    obtain ⟨linear,extends_⟩ := (extend_partialOrder (Below compare list)).choose_spec
    generalize (extend_partialOrder (Below compare list)).choose = order at linear extends_
    have perm := List.mergeSort_perm list fun a b => decide (order a b)
    have ordered := @List.pairwise_mergeSort _ (fun a b => decide (order a b))
      (fun a b c first later => by
        rw [decide_eq_true_eq] at first later ⊢
        exact linear.trans a b c first later)
      (fun a b => by
        rw [Bool.or_eq_true,decide_eq_true_eq,decide_eq_true_eq]
        exact linear.total a b) list
    have opposite : (list.mergeSort fun a b => decide (order a b)).Pairwise (Opposite compare) :=
      (perm.pairwise_iff fun {a b} same => Std.Symm.symm a b same).mpr consistent.opposite
    refine List.Pairwise.imp_of_mem ?_ (ordered.and opposite)
    intro a b memberA memberB both less
    have before : order a b := of_decide_eq_true both.1
    by_cases same : a = b
    · subst same
      have swapped : compare a a = (compare a a).swap := both.2
      rw [less] at swapped
      cases swapped
    · have behind : order b a := extends_ b a (.inr ⟨perm.mem_iff.mp memberB,perm.mem_iff.mp memberA,Ne.symm same,less⟩)
      exact same (linear.antisymm a b before behind)

end ArraySorting
