import Mathlib.Data.List.Find
import Mathlib.Data.List.Induction
import Mathlib.Data.List.Nodup

/-! Collecting elements unless one with the same key is there: what is left of a
list are the first elements of each key. -/
namespace FirstOccurrences

variable {α κ : Type*} [DecidableEq κ] {key : α → κ} {list : List α} {a b : α}

def addFirst (key : α → κ) (found : List α) (a : α) : List α :=
  if found.any fun b => key b = key a then found else found ++ [a]

def firsts (key : α → κ) (list : List α) : List α := list.foldl (addFirst key) []

theorem addFirst_known (known : key a ∈ list.map key) : addFirst key list a = list := by
  obtain ⟨b,member,same⟩ := List.mem_map.mp known
  exact if_pos (List.any_eq_true.mpr ⟨b,member,decide_eq_true same⟩)

theorem addFirst_fresh (fresh : key a ∉ list.map key) : addFirst key list a = list ++ [a] := by
  refine if_neg fun found => fresh ?_
  obtain ⟨b,member,same⟩ := List.any_eq_true.mp found
  exact List.mem_map.mpr ⟨b,member,of_decide_eq_true same⟩

theorem firsts_concat (key : α → κ) (list : List α) (a : α) :
    firsts key (list ++ [a]) = addFirst key (firsts key list) a := List.foldl_append

theorem firsts_sublist (key : α → κ) (list : List α) : (firsts key list).Sublist list := by
  induction list using List.reverseRecOn with
  | nil => exact List.Sublist.slnil
  | append_singleton list a ih =>
    rw [firsts_concat]
    by_cases known : key a ∈ (firsts key list).map key
    · rw [addFirst_known known]
      exact ih.trans (List.sublist_append_left ..)
    · rw [addFirst_fresh known]
      exact ih.append_right [a]

theorem mem_firsts_keys (key : α → κ) (list : List α) (k : κ) :
    k ∈ (firsts key list).map key ↔ k ∈ list.map key := by
  induction list using List.reverseRecOn with
  | nil => exact .rfl
  | append_singleton list a ih =>
    rw [firsts_concat]
    by_cases known : key a ∈ (firsts key list).map key
    · have before := ((firsts_sublist key list).map key).subset known
      rw [addFirst_known known,ih,List.map_append,List.mem_append]
      refine ⟨.inl,fun either => either.elim id fun last => ?_⟩
      rw [List.mem_singleton.mp last]
      exact before
    · rw [addFirst_fresh known,List.map_append,List.map_append,List.mem_append,List.mem_append,ih]

theorem firsts_nodup (key : α → κ) (list : List α) : ((firsts key list).map key).Nodup := by
  induction list using List.reverseRecOn with
  | nil => exact List.nodup_nil
  | append_singleton list a ih =>
    rw [firsts_concat]
    by_cases known : key a ∈ (firsts key list).map key
    · rw [addFirst_known known]
      exact ih
    · rw [addFirst_fresh known,List.map_append]
      exact List.concat_eq_append ▸ List.Nodup.concat known ih

theorem find?_firsts (member : a ∈ firsts key list) : list.find? (fun b => key b = key a) = some a := by
  induction list using List.reverseRecOn with
  | nil => cases member
  | append_singleton list c ih =>
    rw [firsts_concat] at member
    by_cases known : key c ∈ (firsts key list).map key
    · rw [addFirst_known known] at member
      rw [List.find?_append,ih member]
      rfl
    · rw [addFirst_fresh known] at member
      rcases List.mem_append.mp member with earlier | last
      · rw [List.find?_append,ih earlier]
        rfl
      · obtain rfl := List.mem_singleton.mp last
        have none_ : list.find? (fun b => key b = key a) = none := by
          rw [List.find?_eq_none]
          intro b there same
          exact known ((mem_firsts_keys key list _).mpr (List.mem_map.mpr ⟨b,there,of_decide_eq_true same⟩))
        rw [List.find?_append,none_]
        simp

/-- In an ordered list the first of a key comes before every other one. -/
theorem first_least {R : α → α → Prop} (ordered : list.Pairwise R) (member : a ∈ firsts key list) (there : b ∈ list)
    (same : key b = key a) : b = a ∨ R a b := by
  obtain ⟨_,before,after,rfl,none_⟩ := List.find?_eq_some_iff_append.mp (find?_firsts member)
  rcases List.mem_append.mp there with earlier | later
  · have absent := none_ b earlier
    rw [decide_eq_true same] at absent
    cases absent
  · rcases List.mem_cons.mp later with equal | behind
    · exact .inl equal
    · exact .inr ((List.pairwise_cons.mp (List.pairwise_append.mp ordered).2.1).1 b behind)

/-! ## The elements as their own keys -/

section Elements

variable {list list' : List κ}

/-- The first that meets a condition is the first of its own. -/
theorem find?_firsts_id (list : List κ) (p : κ → Bool) : (firsts id list).find? p = list.find? p := by
  induction list using List.reverseRecOn with
  | nil => rfl
  | append_singleton list a ih =>
    rw [firsts_concat]
    by_cases known : a ∈ (firsts id list).map id
    · rw [addFirst_known known,ih,List.find?_append]
      cases found : list.find? p with
      | some b => rfl
      | none =>
        have member : a ∈ list := by simpa using (mem_firsts_keys id list a).mp known
        have fails : ¬ p a := List.find?_eq_none.mp found a member
        simp [fails]
    · rw [addFirst_fresh known,List.find?_append,List.find?_append,ih]

omit [DecidableEq κ] in
/-- What a condition says of an element that is not in the list makes no difference. -/
theorem find?_skip {a : κ} {p q : κ → Bool} (absent : a ∉ list) (same : ∀ b, b ≠ a → p b = q b) :
    list.find? p = list.find? q :=
  List.find?_congr fun b member => same b (ne_of_mem_of_not_mem member absent)

/-- Lists without repetitions are equal if they agree on which of two elements comes first. -/
theorem nodup_ext (once : list.Nodup) (once' : list'.Nodup)
    (agree : ∀ a b, list.find? (fun c => c = a ∨ c = b) = list'.find? fun c => c = a ∨ c = b) : list = list' := by
  induction list generalizing list' with
  | nil =>
    cases list' with
    | nil => rfl
    | cons b list' => simpa using agree b b
  | cons a list ih =>
    cases list' with
    | nil => simpa using agree a a
    | cons b list' =>
      obtain rfl : a = b := by simpa using agree a b
      obtain ⟨absent,once⟩ := List.nodup_cons.mp once
      obtain ⟨absent',once'⟩ := List.nodup_cons.mp once'
      refine congrArg (a :: ·) (ih once once' fun c d => ?_)
      have tails (c d : κ) (other : c ≠ a) (other' : d ≠ a) :
          list.find? (fun e => e = c ∨ e = d) = list'.find? fun e => e = c ∨ e = d := by
        simpa [other.symm,other'.symm] using agree c d
      by_cases first : c = a <;> by_cases second : d = a
      · have never (e : κ) (other : e ≠ a) : decide (e = c ∨ e = d) = false := by simp [first,second,other]
        rw [find?_skip absent never,find?_skip absent' never,List.find?_eq_none.mpr (by simp),
          List.find?_eq_none.mpr (by simp)]
      · have only (e : κ) (other : e ≠ a) : decide (e = c ∨ e = d) = decide (e = d ∨ e = d) := by simp [first,other]
        rw [find?_skip absent only,find?_skip absent' only]
        exact tails d d second second
      · have only (e : κ) (other : e ≠ a) : decide (e = c ∨ e = d) = decide (e = c ∨ e = c) := by simp [second,other]
        rw [find?_skip absent only,find?_skip absent' only]
        exact tails c c first first
      · exact tails c d first second

theorem firsts_id_nodup (list : List κ) : (firsts id list).Nodup := by simpa using firsts_nodup id list

/-- Of elements without repetitions those are added that are not there. -/
theorem foldl_addFirst (once : list.Nodup) (found : List κ) :
    list.foldl (addFirst id) found = found ++ list.filter (· ∉ found) := by
  induction list generalizing found with
  | nil => simp
  | cons a list ih =>
    obtain ⟨absent,once⟩ := List.nodup_cons.mp once
    rw [List.foldl_cons]
    by_cases known : a ∈ found
    · rw [addFirst_known (by simpa using known),ih once,List.filter_cons_of_neg (by simpa using known)]
    · have others : list.filter (· ∉ found ++ [a]) = list.filter (· ∉ found) := by
        refine List.filter_congr fun b member => ?_
        simp [ne_of_mem_of_not_mem member absent]
      rw [addFirst_fresh (by simpa using known),ih once,others,List.filter_cons_of_pos (by simpa using known),
        List.append_assoc,List.singleton_append]

theorem firsts_eq_iff (list list' : List κ) :
    firsts id list = firsts id list' ↔
      ∀ a b, list.find? (fun c => c = a ∨ c = b) = list'.find? fun c => c = a ∨ c = b := by
  refine ⟨fun equal a b => ?_,fun agree => ?_⟩
  · rw [← find?_firsts_id,equal,find?_firsts_id]
  · refine nodup_ext (firsts_id_nodup list) (firsts_id_nodup list') fun a b => ?_
    rw [find?_firsts_id,find?_firsts_id]
    exact agree a b

end Elements

/-! ## Elements that are added once -/

def appendNew (list : List κ) (a : κ) : List κ := if a ∈ list then list else list ++ [a]

@[simp] theorem mem_appendNew {list : List κ} {a b : κ} : b ∈ appendNew list a ↔ b ∈ list ∨ b = a := by
  unfold appendNew
  split_ifs with old
  · constructor
    · exact .inl
    · rintro (member | rfl)
      · exact member
      · exact old
  · simp

theorem mem_foldl_appendNew {added list : List κ} {b : κ} : b ∈ added.foldl appendNew list ↔ b ∈ list ∨ b ∈ added := by
  induction added generalizing list with
  | nil => simp
  | cons a added ih => rw [List.foldl_cons,ih,mem_appendNew,List.mem_cons,or_assoc]

theorem nodup_appendNew {list : List κ} (once : list.Nodup) (a : κ) : (appendNew list a).Nodup := by
  unfold appendNew
  split_ifs with old
  · exact once
  · rw [← List.concat_eq_append]
    exact once.concat old

end FirstOccurrences
