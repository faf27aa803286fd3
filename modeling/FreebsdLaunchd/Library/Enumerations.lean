import Mathlib.Data.List.Perm.Basic

/-! The entries of a dictionary in the order of one enumeration. Another enumeration has
the same entries, so that what depends on the order is what several entries give. -/
namespace Enumerations

variable {α β γ : Type}

/-- Without repetitions, entries that are all the same are at most one. -/
theorem eq_of_single {list list' : List α} (perm : list.Perm list') (distinct : list.Nodup)
    (single : ∀ a ∈ list, ∀ b ∈ list, a = b) : list = list' := by
  match list with
  | [] => exact perm.nil_eq
  | [a] => exact List.singleton_perm.mp perm
  | a::b::_ =>
    have same : a = b := single a List.mem_cons_self b (List.mem_cons_of_mem _ List.mem_cons_self)
    exact absurd (same ▸ List.mem_cons_self) (List.nodup_cons.mp distinct).1

theorem flatMap_filter (f : α → List γ) (p : α → Bool) (list : List α) (rest : ∀ a ∈ list, p a = false → f a = []) :
    (list.filter p).flatMap f = list.flatMap f := by
  induction list with
  | nil => rfl
  | cons a list ih =>
    obtain ⟨first,rest⟩ := List.forall_mem_cons.mp rest
    cases kept : p a with
    | false => rw [List.filter_cons_of_neg (by simp [kept]),List.flatMap_cons,first kept,ih rest,List.nil_append]
    | true => rw [List.filter_cons_of_pos kept,List.flatMap_cons,List.flatMap_cons,ih rest]

/-- If at most one entry gives anything, all enumerations give the same. -/
theorem flatMap_of_single [DecidableEq γ] {f : α → List γ} {list list' : List α} (perm : list.Perm list')
    (distinct : list.Nodup) (single : ∀ a ∈ list, ∀ b ∈ list, f a ≠ [] → f b ≠ [] → a = b) :
    list.flatMap f = list'.flatMap f := by
  let gives (a : α) : Bool := f a ≠ []
  have rest (list : List α) : ∀ a ∈ list, gives a = false → f a = [] := by
    intro a _ none_
    simpa [gives] using none_
  have same : list.filter gives = list'.filter gives := by
    refine eq_of_single (perm.filter _) (distinct.filter _) fun a member b member' => ?_
    rw [List.mem_filter] at member member'
    exact single a member.1 b member'.1 (of_decide_eq_true member.2) (of_decide_eq_true member'.2)
  rw [← flatMap_filter f gives list (rest list),same,flatMap_filter f gives list' (rest list')]

/-! ## First come, first served -/

section FirstCome

variable {κ : Type} [DecidableEq κ] (offer : α → Option (κ × List γ))

/-- Of several entries with one key, the first gets it. -/
def firstCome : List α → List κ → List γ
  | [], _ => []
  | a::list, seen =>
    match offer a with
    | none => firstCome list seen
    | some (key,given) => if key ∈ seen then firstCome list seen else given ++ firstCome list (key::seen)

def offered (seen : List κ) (a : α) : List γ :=
  match offer a with
  | none => []
  | some (key,given) => if key ∈ seen then [] else given

variable {offer}

theorem firstCome_congr (list : List α) {seen seen' : List κ} (same : ∀ key, key ∈ seen ↔ key ∈ seen') :
    firstCome offer list seen = firstCome offer list seen' := by
  induction list generalizing seen seen' with
  | nil => rfl
  | cons a list ih =>
    rw [firstCome,firstCome]
    cases offer a with
    | none => exact ih same
    | some pair =>
      dsimp only
      by_cases known : pair.1 ∈ seen
      · rw [if_pos known,if_pos ((same _).mp known),ih same]
      · rw [if_neg known,if_neg (mt (same _).mpr known)]
        refine congrArg _ (ih fun key => ?_)
        rw [List.mem_cons,List.mem_cons,same]

/-- The entries behind others find the keys of those seen. -/
theorem firstCome_append (list list' : List α) (seen : List κ) :
    firstCome offer (list ++ list') seen = firstCome offer list seen ++
      firstCome offer list' (list.filterMap (fun a => (offer a).map Prod.fst) ++ seen) := by
  induction list generalizing seen with
  | nil => rfl
  | cons a list ih =>
    rw [List.cons_append,firstCome,firstCome]
    cases found : offer a with
    | none =>
      dsimp only
      rw [List.filterMap_cons_none (by rw [found]; rfl)]
      exact ih seen
    | some pair =>
      dsimp only
      rw [List.filterMap_cons_some (by rw [found]; rfl)]
      split_ifs with known
      · rw [ih]
        refine congrArg _ (firstCome_congr list' fun key => ?_)
        simp only [List.cons_append,List.mem_cons,List.mem_append]
        exact ⟨.inr,fun either => either.elim (fun same => .inr (same ▸ known)) id⟩
      · rw [ih,List.append_assoc]
        refine congrArg _ (congrArg _ (firstCome_congr list' fun key => ?_))
        simp only [List.cons_append,List.mem_cons,List.mem_append]
        tauto

/-- Nothing is given if the first entries of all keys have nothing. -/
theorem firstCome_eq_nil (list : List α) (seen : List κ)
    (first : ∀ before a after, list = before ++ a :: after → ∀ key given, offer a = some (key,given) →
      key ∉ before.filterMap (fun a => (offer a).map Prod.fst) ++ seen → given = []) :
    firstCome offer list seen = [] := by
  induction list generalizing seen with
  | nil => rfl
  | cons a list ih =>
    rw [firstCome]
    cases found : offer a with
    | none =>
      refine ih seen fun before b after parts key given offers new => ?_
      refine first (a::before) b after (congrArg _ parts) key given offers ?_
      rwa [List.filterMap_cons_none (by rw [found]; rfl)]
    | some pair =>
      dsimp only
      split_ifs with known
      · refine ih seen fun before b after parts key given offers new => ?_
        refine first (a::before) b after (congrArg _ parts) key given offers ?_
        rw [List.filterMap_cons_some (by rw [found]; rfl),List.cons_append,List.mem_cons,not_or]
        refine ⟨?_,new⟩
        rintro rfl
        exact new (List.mem_append_right _ known)
      · rw [first [] a list rfl pair.1 pair.2 found (by simpa using known),List.nil_append]
        refine ih _ fun before b after parts key given offers new => ?_
        refine first (a::before) b after (congrArg _ parts) key given offers ?_
        rw [List.filterMap_cons_some (by rw [found]; rfl)]
        simp only [List.mem_append,List.mem_cons,List.cons_append] at new ⊢
        tauto

/-- An entry that gives something has no rival for its key, and no other one gives anything. -/
def Unrivalled (offer : α → Option (κ × List γ)) (list : List α) (seen : List κ) : Prop :=
  ∀ a ∈ list, ∀ b ∈ list, a ≠ b → ∀ key given key' given', offer a = some (key,given) → offer b = some (key',given') →
    key ∉ seen → key' ∉ seen → given ≠ [] → given' = [] ∧ key ≠ key'

theorem firstCome_unrivalled (list : List α) (seen extra : List κ) (distinct : list.Nodup)
    (unrivalled : Unrivalled offer list seen)
    (taken : ∀ a ∈ list, ∀ key given, offer a = some (key,given) → key ∉ seen → key ∈ extra → given = []) :
    firstCome offer list (extra ++ seen) = list.flatMap (offered offer seen) := by
  induction list generalizing extra with
  | nil => rfl
  | cons a list ih =>
    obtain ⟨outside,distinct⟩ := List.nodup_cons.mp distinct
    obtain ⟨first,others⟩ := List.forall_mem_cons.mp taken
    have later : Unrivalled offer list seen := fun a member b member' =>
      unrivalled a (List.mem_cons_of_mem _ member) b (List.mem_cons_of_mem _ member')
    rw [firstCome,List.flatMap_cons,offered]
    cases found : offer a with
    | none => exact ih extra distinct later others
    | some pair =>
      obtain ⟨key,given⟩ := pair
      dsimp only
      by_cases known : key ∈ seen
      · rw [if_pos known,if_pos (List.mem_append_right _ known)]
        exact ih extra distinct later others
      · by_cases before : key ∈ extra
        · rw [if_neg known,if_pos (List.mem_append_left _ before),first key given found known before]
          exact ih extra distinct later others
        · have new : key ∉ extra ++ seen := fun member => (List.mem_append.mp member).elim before known
          rw [if_neg known,if_neg new,← List.cons_append]
          refine congrArg _ (ih (key::extra) distinct later fun b member key' given' found' unseen inside => ?_)
          rcases List.mem_cons.mp inside with same | before
          · by_contra gives
            have apart : b ≠ a := fun same => outside (same ▸ member)
            exact (unrivalled b (List.mem_cons_of_mem _ member) a List.mem_cons_self apart key' given' key given found' found
              unseen known gives).2 same
          · exact others b member key' given' found' unseen before

/-- Without rivals all enumerations give the same. -/
theorem firstCome_perm [DecidableEq γ] {list list' : List α} (perm : list.Perm list') (distinct : list.Nodup)
    {seen : List κ} (unrivalled : Unrivalled offer list seen) : firstCome offer list seen = firstCome offer list' seen := by
  have unrivalled' : Unrivalled offer list' seen := fun a member b member' =>
    unrivalled a (perm.mem_iff.mpr member) b (perm.mem_iff.mpr member')
  have first := firstCome_unrivalled list seen [] distinct unrivalled
    fun _ _ _ _ _ _ inside => absurd inside List.not_mem_nil
  have second := firstCome_unrivalled list' seen [] (perm.nodup_iff.mp distinct) unrivalled'
    fun _ _ _ _ _ _ inside => absurd inside List.not_mem_nil
  rw [List.nil_append] at first second
  rw [first,second]
  refine flatMap_of_single perm distinct fun a member b member' gives gives' => ?_
  by_contra apart
  unfold offered at gives gives'
  split at gives
  · exact gives rfl
  · rename_i key given found
    split at gives'
    · exact gives' rfl
    · rename_i key' given' found'
      split_ifs at gives with known
      · exact gives rfl
      · split_ifs at gives' with known'
        · exact gives' rfl
        · exact gives' (unrivalled a member b member' apart key given key' given' found found' known known' gives).1

end FirstCome

/-! ## Places in what the entries give -/

section Places

variable [BEq γ] [LawfulBEq γ]

theorem pairwise_idxOf {list : List γ} (distinct : list.Nodup) :
    list.Pairwise fun x y => list.idxOf x < list.idxOf y := by
  rw [List.pairwise_iff_getElem]
  intro i j hi hj less
  rwa [distinct.idxOf_getElem i hi,distinct.idxOf_getElem j hj]

theorem zipIdx_map_idxOf {δ : Type} {list : List γ} (distinct : list.Nodup) (f : γ × Nat → δ) :
    list.zipIdx.map f = list.map fun x => f (x,list.idxOf x) := by
  refine List.ext_getElem (by simp) fun i hi hj => ?_
  have inside : i < list.length := by simpa using hj
  simp only [List.getElem_map,List.getElem_zipIdx,Nat.zero_add,distinct.idxOf_getElem i inside]

/-- Values of one entry, or of what follows, have the same order in all enumerations. -/
theorem idxOf_lt_of_together {f : α → List γ} {list list' : List α} {rest : List γ} (perm : list.Perm list')
    (entries : list.Nodup) (distinct' : (list'.flatMap f ++ rest).Nodup) {x y : γ}
    (x_mem : x ∈ list.flatMap f ++ rest) (y_mem : y ∈ list.flatMap f ++ rest)
    (together : ∀ a ∈ list, ∀ b ∈ list, a ≠ b → x ∈ f a → y ∉ f b)
    (before : (list.flatMap f ++ rest).idxOf x < (list.flatMap f ++ rest).idxOf y) :
    (list'.flatMap f ++ rest).idxOf x < (list'.flatMap f ++ rest).idxOf y := by
  have places := pairwise_idxOf distinct'
  obtain ⟨flat,behind,across⟩ := List.pairwise_append.mp places
  have all : (list.flatMap f ++ rest).Pairwise fun x y =>
      (list'.flatMap f ++ rest).idxOf x < (list'.flatMap f ++ rest).idxOf y ∨
        ∃ a ∈ list, ∃ b ∈ list, a ≠ b ∧ x ∈ f a ∧ y ∈ f b := by
    refine List.pairwise_append.mpr ⟨List.pairwise_flatMap.mpr ⟨fun a member => ?_,?_⟩,behind.imp .inl,?_⟩
    · have inner : (f a).Sublist (list'.flatMap f) := List.sublist_flatten_of_mem (List.mem_map.mpr ⟨a,perm.mem_iff.mp member,rfl⟩)
      exact (flat.sublist inner).imp .inl
    · exact List.Pairwise.imp_of_mem (fun {a b} member member' apart x x_mem y y_mem =>
        .inr ⟨a,member,b,member',apart,x_mem,y_mem⟩) entries
    · intro x x_mem y y_mem
      exact .inl (across x ((perm.flatMap_right f).mem_iff.mp x_mem) y y_mem)
  rw [List.pairwise_iff_getElem] at all
  have pair := all _ _ (List.idxOf_lt_length_iff.mpr x_mem) (List.idxOf_lt_length_iff.mpr y_mem) before
  rw [List.getElem_idxOf,List.getElem_idxOf] at pair
  refine pair.resolve_right ?_
  rintro ⟨a,member,b,member',apart,x_mem,y_mem⟩
  exact together a member b member' apart x_mem y_mem

end Places

section Keys

variable [BEq α] [LawfulBEq α] {list list' : List (α × β)}

theorem lookup_iff_mem (distinct : (list.map Prod.fst).Nodup) (a : α) (b : β) :
    list.lookup a = some b ↔ (a,b) ∈ list := by
  induction list with
  | nil => simp
  | cons entry list ih =>
    obtain ⟨a',b'⟩ := entry
    obtain ⟨outside,distinct⟩ := List.nodup_cons.mp distinct
    rw [List.mem_cons,List.lookup_cons]
    by_cases same : a = a'
    · subst same
      have absent (b : β) : (a,b) ∉ list := fun member => outside (List.mem_map.mpr ⟨_,member,rfl⟩)
      simp [absent,eq_comm]
    · have other : (a == a') = false := by simpa using same
      simp only [other,ih distinct,Prod.mk.injEq,same,false_and,false_or]

theorem lookup_perm (perm : list.Perm list') (distinct : (list.map Prod.fst).Nodup) (a : α) :
    list.lookup a = list'.lookup a := by
  have distinct' : (list'.map Prod.fst).Nodup := (perm.map Prod.fst).nodup_iff.mp distinct
  ext b
  rw [lookup_iff_mem distinct,lookup_iff_mem distinct',perm.mem_iff]

end Keys

end Enumerations
