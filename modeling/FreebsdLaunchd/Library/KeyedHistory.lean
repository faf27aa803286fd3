import FreebsdLaunchd.Library.Keyed
import Mathlib.Data.List.Dedup
import Mathlib.Data.List.Induction

/-! A list of records under insertion and removal by key. What it holds, and in
which order, can be read off the history: the last record inserted under each key
that has not been removed since, the keys in the order in which the insertions
that began them were made. -/
namespace KeyedHistory

variable {α κ : Type} [DecidableEq κ] (key : α → κ)

inductive Op (α κ : Type)
  | insert (a : α)
  | remove (k : κ)

def Op.named : Op α κ → κ
  | .insert a => key a
  | .remove k => k

/-- A record takes the place of the one that has its key, or goes to the end. -/
def put (l : List α) (a : α) : List α := if key a ∈ l.map key then Keyed.store key l a else l ++ [a]

def apply (l : List α) : Op α κ → List α
  | .insert a => put key l a
  | .remove k => Keyed.unlink key l k

def contents (ops : List (Op α κ)) : List α := ops.foldl (apply key) []

/-- The record of the last insertion under the key, if no removal of it followed. -/
def latest (ops : List (Op α κ)) (k : κ) : Option α :=
  match ops.reverse.find? fun op => op.named key = k with
  | some (.insert a) => some a
  | _ => none

def Op.removes (op : Op α κ) (k : κ) : Bool :=
  match op with
  | .insert _ => false
  | .remove k' => k' = k

/-- The keys of the insertions that found no record under their key and were not
undone, those before `ops` known: the first of the surviving insertions of each key. -/
def firstSurviving (before : List (Op α κ)) : List (Op α κ) → List κ
  | [] => []
  | .insert a::ops =>
    if (latest key before (key a)).isNone && ops.all fun op => !op.removes (key a) then
      key a :: firstSurviving (before ++ [.insert a]) ops
    else firstSurviving (before ++ [.insert a]) ops
  | .remove k::ops => firstSurviving (before ++ [.remove k]) ops

variable {key} {ops before : List (Op α κ)} {a : α} {k : κ} {l : List α}

theorem latest_insert (ops : List (Op α κ)) (a : α) (k : κ) :
    latest key (ops ++ [.insert a]) k = if key a = k then some a else latest key ops k := by
  unfold latest
  rw [List.reverse_append,List.reverse_singleton,List.singleton_append,List.find?_cons]
  by_cases same : key a = k
  · simp [Op.named,same]
  · simp [Op.named,same]

theorem latest_remove (ops : List (Op α κ)) (k' k : κ) :
    latest key (ops ++ [.remove k']) k = if k' = k then none else latest key ops k := by
  unfold latest
  rw [List.reverse_append,List.reverse_singleton,List.singleton_append,List.find?_cons]
  by_cases same : k' = k
  · simp [Op.named,same]
  · simp [Op.named,same]

/-- An insertion adds its key unless a record is there. -/
theorem firstSurviving_insert (before ops : List (Op α κ)) (a : α) :
    firstSurviving key before (ops ++ [.insert a]) = firstSurviving key before ops ++
      if (latest key (before ++ ops) (key a)).isNone then [key a] else [] := by
  induction ops generalizing before with
  | nil => simp [firstSurviving]
  | cons op ops ih =>
    have later (op : Op α κ) : before ++ op::ops = before ++ [op] ++ ops := by simp
    cases op with
    | insert b =>
      have same : (ops ++ [Op.insert a]).all (fun op => !op.removes (key b)) = ops.all fun op => !op.removes (key b) := by
        simp [Op.removes]
      rw [List.cons_append,firstSurviving,firstSurviving,same,ih,later]
      split <;> rfl
    | remove k =>
      rw [List.cons_append,firstSurviving,firstSurviving,ih,later]

theorem firstSurviving_remove (before ops : List (Op α κ)) (k : κ) :
    firstSurviving key before (ops ++ [.remove k]) = (firstSurviving key before ops).filter (· ≠ k) := by
  induction ops generalizing before with
  | nil => simp [firstSurviving]
  | cons op ops ih =>
    cases op with
    | insert b =>
      have undone : (ops ++ [Op.remove k]).all (fun op => !op.removes (key b)) =
          (ops.all (fun op => !op.removes (key b)) && decide (k ≠ key b)) := by
        simp [Op.removes]
      rw [List.cons_append,firstSurviving,firstSurviving,ih,undone]
      by_cases same : key b = k
      · rw [decide_eq_false (not_not.mpr same.symm),Bool.and_false,Bool.and_false,if_neg Bool.false_ne_true]
        split
        · simp [same]
        · rfl
      · rw [decide_eq_true (Ne.symm same),Bool.and_true]
        split
        · simp [same]
        · rfl
    | remove k' => rw [List.cons_append,firstSurviving,firstSurviving,ih]

theorem unlink_keys (distinct : (l.map key).Nodup) (k : κ) :
    (Keyed.unlink key l k).map key = (l.map key).filter (· ≠ k) := by
  have erased : (Keyed.unlink key l k).map key = (l.map key).erase k := by
    rw [List.erase_eq_eraseP',List.eraseP_map]
    rfl
  rw [erased,distinct.erase_eq_filter]
  apply List.filter_congr
  intro k' _
  rw [bne,decide_not,beq_eq_decide]

/-- What the records are, as the history tells it. -/
structure Recorded (key : α → κ) (ops : List (Op α κ)) (l : List α) : Prop where
  order : l.map key = firstSurviving key [] ops
  distinct : (l.map key).Nodup
  latest : ∀ k, Keyed.find key l k = latest key ops k

theorem Recorded.live (recorded : Recorded key ops l) (k : κ) :
    k ∈ l.map key ↔ (KeyedHistory.latest key ops k).isSome := by
  rw [← recorded.latest,Keyed.find,List.find?_isSome,List.mem_map]
  simp

theorem Recorded.insert (recorded : Recorded key ops l) (a : α) :
    Recorded key (ops ++ [.insert a]) (put key l a) := by
  have live := recorded.live (key a)
  unfold put
  by_cases known : key a ∈ l.map key
  · rw [if_pos known]
    have there := live.mp known
    refine ⟨?_,?_,fun k => ?_⟩
    · rw [Keyed.map_key_store,recorded.order,firstSurviving_insert]
      simp [Option.isNone_eq_false_iff.mpr there]
    · rw [Keyed.map_key_store]
      exact recorded.distinct
    · rw [latest_insert]
      by_cases same : key a = k
      · subst same
        have distinct : ((Keyed.store key l a).map key).Nodup := by
          rw [Keyed.map_key_store]
          exact recorded.distinct
        obtain ⟨b,member,equal⟩ := List.mem_map.mp known
        rw [if_pos rfl,Keyed.find_mem distinct (Keyed.mem_store.mpr (.inl ⟨rfl,b,member,equal⟩))]
      · rw [if_neg same,Keyed.find_store_ne same,recorded.latest]
  · rw [if_neg known]
    have gone : KeyedHistory.latest key ops (key a) = none := by
      rw [← Option.not_isSome_iff_eq_none]
      exact fun there => known (live.mpr there)
    refine ⟨?_,?_,fun k => ?_⟩
    · rw [List.map_append,recorded.order,firstSurviving_insert]
      simp [gone]
    · rw [List.map_append]
      exact List.concat_eq_append ▸ List.Nodup.concat known recorded.distinct
    · rw [latest_insert,Keyed.find,List.find?_append,← Keyed.find,recorded.latest]
      by_cases same : key a = k
      · subst same
        simp [gone]
      · simp [same]

theorem Recorded.remove (recorded : Recorded key ops l) (k : κ) :
    Recorded key (ops ++ [.remove k]) (Keyed.unlink key l k) := by
  refine ⟨?_,?_,fun k' => ?_⟩
  · rw [unlink_keys recorded.distinct,recorded.order,firstSurviving_remove]
  · exact ((Keyed.unlink_sublist l k).map key).nodup recorded.distinct
  · rw [latest_remove]
    by_cases same : k = k'
    · subst same
      rw [if_pos rfl,Keyed.find,List.find?_eq_none]
      intro b member equal
      exact ((Keyed.mem_unlink recorded.distinct).mp member).2 (of_decide_eq_true equal)
    · rw [if_neg same,Keyed.find_unlink_ne same,recorded.latest]

/-- Whatever the history, its records are there, each once and in order. -/
theorem contents_recorded (ops : List (Op α κ)) : Recorded key ops (contents key ops) := by
  induction ops using List.reverseRecOn with
  | nil => exact ⟨rfl,List.nodup_nil,fun _ => rfl⟩
  | append_singleton ops op ih =>
    rw [contents,List.foldl_append]
    cases op with
    | insert a => exact ih.insert a
    | remove k => exact ih.remove k

theorem contents_eq (ops : List (Op α κ)) :
    contents key ops = (firstSurviving key [] ops).filterMap (latest key ops) := by
  have recorded : Recorded key ops _ := contents_recorded ops
  rw [← recorded.order,List.filterMap_map]
  have each : ∀ a ∈ contents key ops, (latest key ops ∘ key) a = some a := fun a member =>
    (recorded.latest (key a)).symm.trans (Keyed.find_mem recorded.distinct member)
  rw [List.filterMap_congr each,List.filterMap_some]

/-- There are as many records as keys whose last insertion was not undone. -/
theorem contents_length (ops : List (Op α κ)) :
    (contents key ops).length = ((ops.map (Op.named key)).dedup.filter fun k => (latest key ops k).isSome).length := by
  have recorded : Recorded key ops _ := contents_recorded ops
  rw [← List.length_map (f := key)]
  apply List.Perm.length_eq
  refine (List.perm_ext_iff_of_nodup recorded.distinct ((List.nodup_dedup _).filter _)).mpr fun k => ?_
  rw [recorded.live,List.mem_filter,List.mem_dedup]
  refine ⟨fun there => ⟨?_,there⟩,And.right⟩
  by_contra absent
  have unnamed : ops.reverse.find? (fun op => op.named key = k) = none := by
    rw [List.find?_eq_none]
    intro op member same
    exact absent (List.mem_map.mpr ⟨op,List.mem_reverse.mp member,of_decide_eq_true same⟩)
  rw [latest,unnamed] at there
  cases there

end KeyedHistory
