import Mathlib.Data.List.Nodup
import Mathlib.Data.List.NodupEquivFin

/-! Reference counts kept in two parallel arrays, the holders and how many
references each of them has. A holder enters with its first reference and
leaves with its last. -/

structure RefCounts (α : Type) where
  holders : List α
  counts : List Int
  deriving DecidableEq

namespace RefCounts

variable {α : Type} [DecidableEq α]

def count (t : RefCounts α) (a : α) : Int :=
  match t.holders.idxOf? a with
  | none => 0
  | some i => t.counts.getD i 0

def retain (t : RefCounts α) (a : α) : RefCounts α :=
  match t.holders.idxOf? a with
  | none => ⟨t.holders ++ [a],t.counts ++ [1]⟩
  | some i => ⟨t.holders,t.counts.set i (t.counts.getD i 0 + 1)⟩

def release (t : RefCounts α) (a : α) : RefCounts α :=
  match t.holders.idxOf? a with
  | none => t
  | some i =>
    let left := t.counts.getD i 0 - 1
    if left > 0 then ⟨t.holders,t.counts.set i left⟩ else ⟨t.holders.eraseIdx i,t.counts.eraseIdx i⟩

structure Valid (t : RefCounts α) : Prop where
  parallel : t.counts.length = t.holders.length
  distinct : t.holders.Nodup
  positive : ∀ n ∈ t.counts, 1 ≤ n

omit [DecidableEq α] in
theorem valid_empty : Valid (α := α) ⟨[],[]⟩ := ⟨rfl,List.nodup_nil,by simp⟩

private theorem idxOf?_eq_some {l : List α} (distinct : l.Nodup) {a : α} {i : Nat} :
    l.idxOf? a = some i ↔ l[i]? = some a := by
  constructor
  · intro found
    obtain ⟨inside,value,_⟩ := List.findIdx?_eq_some_iff_getElem.mp found
    rw [List.getElem?_eq_getElem inside]
    simpa using value
  · intro value
    obtain ⟨inside,same⟩ := List.getElem?_eq_some_iff.mp value
    apply List.findIdx?_eq_some_iff_getElem.mpr
    refine ⟨inside,by simp [same],?_⟩
    intro j earlier other
    have equal : l[j] = l[i] := by simpa [same] using other
    exact absurd ((distinct.getElem_inj_iff).mp equal) (by omega)

private theorem idxOf?_eq_none {l : List α} {a : α} : l.idxOf? a = none ↔ a ∉ l := by
  simp [List.idxOf?,List.findIdx?_eq_none_iff]
  constructor
  · intro other member
    exact other a member rfl
  · rintro absent x member rfl
    exact absent member

variable {t : RefCounts α}

theorem count_of_not_mem {a : α} (absent : a ∉ t.holders) : t.count a = 0 := by
  simp [count,idxOf?_eq_none.mpr absent]

theorem count_at (valid : t.Valid) {i : Nat} {a : α} (holder : t.holders[i]? = some a) :
    t.count a = t.counts.getD i 0 := by
  simp [count,(idxOf?_eq_some valid.distinct).mpr holder]

theorem place_eq_iff (valid : t.Valid) {i j : Nat} {a b : α} (holder : t.holders[i]? = some a)
    (place : t.holders[j]? = some b) : b = a ↔ j = i := by
  constructor
  · rintro rfl
    have first := (idxOf?_eq_some valid.distinct).mpr place
    rw [(idxOf?_eq_some valid.distinct).mpr holder] at first
    exact (Option.some.inj first).symm
  · rintro rfl
    rw [holder] at place
    exact (Option.some.inj place).symm

omit [DecidableEq α] in
theorem counts_positive (valid : t.Valid) {i : Nat} {a : α} (holder : t.holders[i]? = some a) :
    1 ≤ t.counts.getD i 0 := by
  obtain ⟨inside,_⟩ := List.getElem?_eq_some_iff.mp holder
  have inside : i < t.counts.length := by rw [valid.parallel]; exact inside
  rw [List.getD_eq_getElem?_getD,List.getElem?_eq_getElem inside]
  exact valid.positive _ (List.getElem_mem inside)

theorem count_pos (valid : t.Valid) {a : α} (member : a ∈ t.holders) : 1 ≤ t.count a := by
  obtain ⟨i,holder⟩ := List.mem_iff_getElem?.mp member
  rw [count_at valid holder]
  exact counts_positive valid holder

theorem mem_holders (valid : t.Valid) {a : α} : a ∈ t.holders ↔ 0 < t.count a := by
  constructor
  · intro member
    have := count_pos valid member
    omega
  · intro positive
    by_contra absent
    rw [count_of_not_mem absent] at positive
    omega

theorem count_nonneg (valid : t.Valid) (a : α) : 0 ≤ t.count a := by
  by_cases member : a ∈ t.holders
  · have := count_pos valid member
    omega
  · rw [count_of_not_mem member]

theorem valid_retain (valid : t.Valid) (a : α) : (t.retain a).Valid := by
  unfold retain
  cases found : t.holders.idxOf? a with
  | none =>
    have absent := idxOf?_eq_none.mp found
    refine ⟨by simp [valid.parallel],?_,?_⟩
    · simpa using valid.distinct.concat absent
    · intro n member
      rcases List.mem_append.mp member with old | new
      · exact valid.positive n old
      · simp [List.mem_singleton.mp new]
  | some i =>
    have holder := (idxOf?_eq_some valid.distinct).mp found
    refine ⟨by simp [valid.parallel],valid.distinct,?_⟩
    intro n member
    rcases List.mem_or_eq_of_mem_set member with old | rfl
    · exact valid.positive n old
    · have := counts_positive valid holder
      omega

theorem mem_retain {a b : α} : b ∈ (t.retain a).holders ↔ b ∈ t.holders ∨ b = a := by
  unfold retain
  cases found : t.holders.idxOf? a with
  | none => simp
  | some i =>
    have member : a ∈ t.holders := by
      by_contra absent
      simp [idxOf?_eq_none.mpr absent] at found
    constructor
    · exact .inl
    · rintro (old | rfl)
      · exact old
      · exact member

theorem count_retain (valid : t.Valid) (a b : α) :
    (t.retain a).count b = t.count b + if b = a then 1 else 0 := by
  by_cases member : b ∈ (t.retain a).holders
  · obtain ⟨j,place⟩ := List.mem_iff_getElem?.mp member
    rw [count_at (valid_retain valid a) place]
    unfold retain at place ⊢
    cases found : t.holders.idxOf? a with
    | none =>
      have absent := idxOf?_eq_none.mp found
      simp only [found] at place ⊢
      by_cases earlier : j < t.holders.length
      · rw [List.getElem?_append_left earlier] at place
        have other : b ≠ a := by
          rintro rfl
          exact absent (List.mem_iff_getElem?.mpr ⟨j,place⟩)
        rw [count_at valid place,if_neg other,List.getD_eq_getElem?_getD,
          List.getElem?_append_left (by rw [valid.parallel]; exact earlier),List.getD_eq_getElem?_getD]
        simp
      · have last : j = t.holders.length ∧ b = a := by
          have bound := (List.getElem?_eq_some_iff.mp place).1
          have j_eq : j = t.holders.length := by simp at bound; omega
          subst j_eq
          simpa [eq_comm] using place
        obtain ⟨rfl,rfl⟩ := last
        rw [count_of_not_mem absent,List.getD_eq_getElem?_getD]
        simp [← valid.parallel]
    | some i =>
      have holder := (idxOf?_eq_some valid.distinct).mp found
      simp only [found] at place ⊢
      rw [count_at valid place]
      by_cases same : b = a
      · have here := (place_eq_iff valid holder place).mp same
        have inside : i < t.counts.length := by
          rw [valid.parallel]
          exact (List.getElem?_eq_some_iff.mp holder).1
        subst same here
        simp [inside]
      · have apart : i ≠ j := fun here => same ((place_eq_iff valid holder place).mpr here.symm)
        simp [same,List.getElem?_set_ne apart]
  · have absent := (not_congr mem_retain).mp member
    push Not at absent
    rw [count_of_not_mem member,count_of_not_mem absent.1,if_neg absent.2,Int.add_zero]

theorem release_of_not_mem {a : α} (absent : a ∉ t.holders) : t.release a = t := by
  simp [release,idxOf?_eq_none.mpr absent]

theorem valid_release (valid : t.Valid) (a : α) : (t.release a).Valid := by
  unfold release
  cases found : t.holders.idxOf? a with
  | none => exact valid
  | some i =>
    have holder := (idxOf?_eq_some valid.distinct).mp found
    simp only []
    split
    · refine ⟨by simp [valid.parallel],valid.distinct,?_⟩
      intro n member
      rcases List.mem_or_eq_of_mem_set member with old | rfl
      · exact valid.positive n old
      · omega
    · refine ⟨by simp [List.length_eraseIdx,valid.parallel],valid.distinct.eraseIdx i,?_⟩
      intro n member
      exact valid.positive n (List.mem_of_mem_eraseIdx member)

/-- Only the last reference takes its holder along. -/
theorem mem_release (valid : t.Valid) {a b : α} :
    b ∈ (t.release a).holders ↔ b ∈ t.holders ∧ (b = a → 1 < t.count a) := by
  by_cases held : a ∈ t.holders
  swap
  · rw [release_of_not_mem held]
    constructor
    · intro member
      exact ⟨member,fun same => absurd (same ▸ member) held⟩
    · exact And.left
  obtain ⟨i,holder⟩ := List.mem_iff_getElem?.mp held
  rw [count_at valid holder]
  simp only [release,(idxOf?_eq_some valid.distinct).mpr holder]
  split
  · have more : 1 < t.counts.getD i 0 := by omega
    exact ⟨fun member => ⟨member,fun _ => more⟩,And.left⟩
  · rw [List.mem_eraseIdx_iff_getElem?]
    constructor
    · rintro ⟨j,apart,place⟩
      refine ⟨List.mem_iff_getElem?.mpr ⟨j,place⟩,?_⟩
      intro same
      exact absurd ((place_eq_iff valid holder place).mp same) apart
    · rintro ⟨member,more⟩
      obtain ⟨j,place⟩ := List.mem_iff_getElem?.mp member
      refine ⟨j,?_,place⟩
      intro here
      have := more ((place_eq_iff valid holder place).mpr here)
      omega

theorem count_release (valid : t.Valid) (a b : α) :
    (t.release a).count b = t.count b - if b = a ∧ a ∈ t.holders then 1 else 0 := by
  by_cases held : a ∈ t.holders
  swap
  · simp [release_of_not_mem held,held]
  obtain ⟨i,holder⟩ := List.mem_iff_getElem?.mp held
  have found := (idxOf?_eq_some valid.distinct).mpr holder
  have inside : i < t.counts.length := by
    rw [valid.parallel]
    exact (List.getElem?_eq_some_iff.mp holder).1
  by_cases member : b ∈ (t.release a).holders
  · obtain ⟨j,place⟩ := List.mem_iff_getElem?.mp member
    rw [count_at (valid_release valid a) place]
    simp only [release,found] at place ⊢
    split at place
    · have positive : t.counts.getD i 0 - 1 > 0 := by assumption
      rw [if_pos positive]
      simp only at place ⊢
      rw [count_at valid place]
      by_cases same : b = a
      · have here := (place_eq_iff valid holder place).mp same
        subst here
        simp [same,held,inside]
      · have apart : i ≠ j := fun here => same ((place_eq_iff valid holder place).mpr here.symm)
        simp [same,List.getElem?_set_ne apart]
    · have last : ¬ t.counts.getD i 0 - 1 > 0 := by assumption
      rw [if_neg last]
      simp only at place ⊢
      rw [List.getElem?_eraseIdx] at place
      rw [List.getD_eq_getElem?_getD,List.getElem?_eraseIdx]
      -- what stood behind the holder has moved up by one
      split at place
      · have before : j < i := by assumption
        rw [if_pos before,count_at valid place,if_neg]
        · simp
        · intro same
          have := (place_eq_iff valid holder place).mp same.1
          omega
      · have after : ¬ j < i := by assumption
        rw [if_neg after,count_at valid place,if_neg]
        · simp
        · intro same
          have := (place_eq_iff valid holder place).mp same.1
          omega
  · rw [count_of_not_mem member]
    rw [mem_release valid] at member
    by_cases same : b = a
    · subst same
      have least := count_pos valid held
      have last : ¬ 1 < t.count b := fun more => member ⟨held,fun _ => more⟩
      rw [if_pos ⟨rfl,held⟩]
      omega
    · have absent : b ∉ t.holders := fun old => member ⟨old,fun here => absurd here same⟩
      rw [count_of_not_mem absent,if_neg fun both => same both.1,Int.sub_zero]

end RefCounts
