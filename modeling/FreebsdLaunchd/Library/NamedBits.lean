import Mathlib.Data.BitVec
import Mathlib.Data.List.Pairwise

/-! Words that are read through a table of masks: the entries present in a word are those
whose mask it touches. The masks of some entries put together are a word in which the same
entries are present. -/
namespace NamedBits

variable {w : Nat} {ε : Type*} {mask : ε → BitVec w} {table entries : List ε} {a b : ε} {word other : BitVec w}

def present (mask : ε → BitVec w) (table : List ε) (word : BitVec w) : List ε :=
  table.filter fun e => word &&& mask e ≠ 0#w

def together (mask : ε → BitVec w) (entries : List ε) : BitVec w :=
  entries.foldr (fun e word => mask e ||| word) 0#w

/-- No mask of the table is empty and no two share a bit. -/
structure Separate (mask : ε → BitVec w) (table : List ε) : Prop where
  nonzero : ∀ e ∈ table, mask e ≠ 0#w
  apart : table.Pairwise fun a b => mask a &&& mask b = 0#w

theorem or_and (x y z : BitVec w) : (x ||| y) &&& z = (x &&& z) ||| (y &&& z) := by
  ext i inside
  simp [Bool.and_or_distrib_right]

instance symm_apart (mask : ε → BitVec w) : Std.Symm fun a b => mask a &&& mask b = 0#w where
  symm a b apart := by rwa [BitVec.and_comm]

@[simp] theorem present_nil : present mask [] word = [] := rfl

@[simp] theorem present_cons : present mask (a::table) word =
    if word &&& mask a = 0#w then present mask table word else a::present mask table word := by
  by_cases touched : word &&& mask a = 0#w
  · simp [present,touched]
  · simp [present,touched]

theorem present_congr (same : ∀ e ∈ table, word &&& mask e = 0#w ↔ other &&& mask e = 0#w) :
    present mask table word = present mask table other :=
  List.filter_congr fun e member => decide_eq_decide.mpr (not_congr (same e member))

/-- Clearing the mask of one entry leaves the others. -/
theorem present_clear (apart : ∀ e ∈ table, mask a &&& mask e = 0#w) :
    present mask table (word &&& ~~~mask a) = present mask table word := by
  apply present_congr
  intro e member
  have cleared : word &&& ~~~mask a &&& mask e = word &&& mask e := by
    ext i inside
    have bit := congrArg (fun x => x[i]) (apart e member)
    simp only [BitVec.getElem_and,BitVec.getElem_zero] at bit
    simp only [BitVec.getElem_and,BitVec.getElem_not]
    cases there : (mask a)[i] with
    | false => simp
    | true => simp_all
  rw [cleared]

@[simp] theorem together_nil : together mask [] = 0#w := rfl

@[simp] theorem together_cons : together mask (a::entries) = mask a ||| together mask entries := rfl

theorem together_and_apart (apart : ∀ e ∈ entries, mask e &&& word = 0#w) : together mask entries &&& word = 0#w := by
  induction entries with
  | nil => simp
  | cons e entries ih =>
    obtain ⟨first,rest⟩ := List.forall_mem_cons.mp apart
    rw [together_cons,or_and,first,ih rest]
    simp

theorem together_and_of_mem (member : a ∈ entries) : together mask entries &&& mask a = mask a := by
  induction entries with
  | nil => cases member
  | cons e entries ih =>
    rw [together_cons,or_and]
    rcases List.mem_cons.mp member with rfl | member
    · ext i inside
      simp
    · rw [ih member]
      ext i inside
      simp

/-- The masks that were present, put into a word that touches none of the table, are present again. -/
theorem present_together (separate : Separate mask table) (clear : ∀ e ∈ table, other &&& mask e = 0#w) :
    present mask table (other ||| together mask (present mask table word)) = present mask table word := by
  apply present_congr
  intro e member
  rw [or_and,clear e member]
  by_cases touched : word &&& mask e = 0#w
  · have absent : together mask (present mask table word) &&& mask e = 0#w := by
      refine together_and_apart fun b chosen => ?_
      obtain ⟨there,present⟩ := List.mem_filter.mp chosen
      have different : b ≠ e := fun same => by simp [same,touched] at present
      exact separate.apart.forall there member different
    simp [absent,touched]
  · have chosen : e ∈ present mask table word := List.mem_filter.mpr ⟨member,by simpa using touched⟩
    rw [together_and_of_mem chosen]
    simp [touched,separate.nonzero e member]

end NamedBits
