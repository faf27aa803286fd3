import Mathlib.Data.List.Infix

/-! Where a pattern first occurs in a text, and what follows it there. A text may be
one of blocks with a separator between them, and the pattern a key and a value. -/
namespace Substrings

/-- The comparison by which a text is found in a list, under one name for all modules. -/
instance lawfulBEq_text : LawfulBEq (List Char) := inferInstance

variable {α : Type*} [DecidableEq α] {pattern text key value block rest : List α} {sep : α}

def location (pattern : List α) : List α → Option Nat
  | [] => if pattern = [] then some 0 else none
  | a::text => if pattern <+: a::text then some 0 else (location pattern text).map (· + 1)

def following (pattern text : List α) : Option (List α) :=
  (location pattern text).map fun location => text.drop (location + pattern.length)

theorem following_nil (occurs : pattern ≠ []) : following pattern [] = none := by
  rw [following,location,if_neg occurs]
  rfl

theorem following_of_prefix {a : α} (here : pattern <+: a::text) :
    following pattern (a::text) = some ((a::text).drop pattern.length) := by
  rw [following,location,if_pos here]
  simp

theorem following_cons {a : α} (later : ¬ pattern <+: a::text) :
    following pattern (a::text) = following pattern text := by
  rw [following,following,location,if_neg later,Option.map_map]
  refine congrArg (Option.map · _) (funext fun location => ?_)
  rw [Function.comp,Nat.add_right_comm]
  rfl

theorem following_eq_none (part : sep ∈ pattern) (absent : sep ∉ text) : following pattern text = none := by
  induction text with
  | nil => exact following_nil (List.ne_nil_of_mem part)
  | cons a text ih =>
    rw [following_cons fun here => absent (here.subset part),ih fun there => absent (List.mem_cons_of_mem a there)]

omit [DecidableEq α] in
theorem prefix_iff (key_ : sep ∉ key) (block_ : sep ∉ block) :
    key ++ sep::value <+: block ++ sep::rest ↔ key = block ∧ value <+: rest := by
  induction key generalizing block with
  | nil =>
    cases block with
    | nil => simp
    | cons b block => simp [List.ne_of_not_mem_cons block_]
  | cons k key ih =>
    cases block with
    | nil => simp [(List.ne_of_not_mem_cons key_).symm]
    | cons b block =>
      have further := ih (List.not_mem_of_not_mem_cons key_) (List.not_mem_of_not_mem_cons block_)
      rw [List.cons_append,List.cons_append,List.cons_prefix_cons,further,List.cons_eq_cons,and_assoc]

/-- The pattern is found in front of a block's separator, or behind it. -/
theorem following_block (key_ : sep ∉ key) (block_ : sep ∉ block) :
    following (key ++ sep::value) (block ++ sep::rest) =
      if key <:+ block ∧ value <+: rest then some (rest.drop value.length) else following (key ++ sep::value) rest := by
  induction block with
  | nil =>
    by_cases here : key = [] ∧ value <+: rest
    · obtain ⟨rfl,same⟩ := here
      rw [if_pos ⟨List.suffix_rfl,same⟩,List.nil_append,List.nil_append,
        following_of_prefix ((List.prefix_cons_inj sep).mpr same)]
      rfl
    · have here' : ¬ (key <:+ [] ∧ value <+: rest) := by rwa [List.suffix_nil]
      rw [if_neg here',List.nil_append,following_cons]
      exact fun found => here ((prefix_iff key_ block_).mp found)
  | cons b block ih =>
    by_cases here : key = b::block ∧ value <+: rest
    · have found : key ++ sep::value <+: (b::block) ++ sep::rest := (prefix_iff key_ block_).mpr here
      obtain ⟨rfl,same⟩ := here
      have behind : following (b::block ++ sep::value) (b::(block ++ sep::rest)) = _ := following_of_prefix found
      simpa [same] using behind
    · have later : ¬ key ++ sep::value <+: b::(block ++ sep::rest) := fun found =>
        here ((prefix_iff key_ block_).mp found)
      rw [List.cons_append,following_cons later,ih (List.not_mem_of_not_mem_cons block_)]
      refine if_congr ?_ rfl rfl
      rw [List.suffix_cons_iff,or_and_right,or_iff_right here]

end Substrings
