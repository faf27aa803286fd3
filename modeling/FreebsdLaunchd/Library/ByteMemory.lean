import FreebsdLaunchd.Library.CData
import Mathlib.Data.List.Basic

/-! Memory as a byte for every address: bytes that are written are read again, and what
is written elsewhere does not change them. Words are read in either byte order. -/
namespace ByteMemory
open CData

abbrev Memory := Nat → UInt8

def read (m : Memory) (a w : Nat) : Bytes := (List.range w).map fun i => m (a+i)

def write (m : Memory) (a : Nat) (bytes : Bytes) : Memory :=
  fun x => if a ≤ x then bytes.getD (x-a) (m x) else m x

def bigEndian (w n : Nat) : Bytes := (littleEndian w n).reverse

def loadLE (m : Memory) (a w : Nat) : Nat := ofLittleEndian (read m a w)

def loadBE (m : Memory) (a w : Nat) : Nat := ofLittleEndian (read m a w).reverse

def storeLE (m : Memory) (a w n : Nat) : Memory := write m a (littleEndian w n)

variable {m m' : Memory} {a b w k n x lo hi : Nat} {bytes l l' : Bytes}

/-! ## Bytes -/

@[simp] theorem read_length (m : Memory) (a w : Nat) : (read m a w).length = w := by simp [read]

@[simp] theorem read_zero (m : Memory) (a : Nat) : read m a 0 = [] := rfl

theorem read_succ (m : Memory) (a w : Nat) : read m a (w+1) = m a :: read m (a+1) w := by
  rw [read,List.range_succ_eq_map,List.map_cons,List.map_map]
  refine congrArg₂ _ rfl (List.map_congr_left fun i _ => ?_)
  exact congrArg m (by show a + (i+1) = a+1+i; omega)

theorem read_add (m : Memory) (a w k : Nat) : read m a (w+k) = read m a w ++ read m (a+w) k := by
  rw [read,List.range_add,List.map_append,List.map_map]
  refine congrArg _ (List.map_congr_left fun i _ => ?_)
  exact congrArg m (Nat.add_assoc a w i).symm

/-- The memory is the same at the addresses from `lo` up to `hi`. -/
def Agree (m m' : Memory) (lo hi : Nat) : Prop := ∀ x, lo ≤ x → x < hi → m' x = m x

theorem Agree.refl (m : Memory) (lo hi : Nat) : Agree m m lo hi := fun _ _ _ => rfl

theorem Agree.trans {m'' : Memory} (first : Agree m m' lo hi) (second : Agree m' m'' lo hi) : Agree m m'' lo hi :=
  fun x above below => (second x above below).trans (first x above below)

theorem Agree.read (agree : Agree m m' lo hi) (above : lo ≤ a) (below : a + w ≤ hi) : read m' a w = read m a w := by
  refine List.map_congr_left fun i inside => agree _ (by omega) ?_
  have := List.mem_range.mp inside
  omega

theorem Agree.loadLE (agree : Agree m m' lo hi) (above : lo ≤ a) (below : a + w ≤ hi) : loadLE m' a w = loadLE m a w :=
  congrArg ofLittleEndian (agree.read above below)

theorem Agree.loads (agree : Agree m m' a (a+w)) : ByteMemory.loadLE m' a w = ByteMemory.loadLE m a w :=
  agree.loadLE (le_refl a) (le_refl _)

theorem Agree.here (agree : Agree m m' x (x+1)) : m' x = m x := agree x (le_refl x) (Nat.lt_succ_self x)

theorem Agree.loadBE (agree : Agree m m' lo hi) (above : lo ≤ a) (below : a + w ≤ hi) : loadBE m' a w = loadBE m a w :=
  congrArg (fun bytes : Bytes => ofLittleEndian bytes.reverse) (agree.read above below)

theorem write_outside (outside : x < a ∨ a + bytes.length ≤ x) : write m a bytes x = m x := by
  unfold write
  split
  · rw [List.getD_eq_getElem?_getD,List.getElem?_eq_none (by omega),Option.getD_none]
  · rfl

theorem agree_write (apart : hi ≤ a ∨ a + bytes.length ≤ lo) : Agree m (write m a bytes) lo hi :=
  fun x above below => write_outside (by omega)

theorem read_write (m : Memory) (a : Nat) (bytes : Bytes) : read (write m a bytes) a bytes.length = bytes := by
  apply List.ext_getElem (read_length _ _ _)
  intro i inside inside'
  simp [read,write,inside']

/-! ## Words -/

@[simp] theorem bigEndian_length (w n : Nat) : (bigEndian w n).length = w := by simp [bigEndian]

theorem agree_storeLE (apart : hi ≤ a ∨ a + w ≤ lo) : Agree m (storeLE m a w n) lo hi :=
  agree_write (by rwa [littleEndian_length])

theorem storeLE_outside (outside : x < a ∨ a + w ≤ x) : storeLE m a w n x = m x :=
  write_outside (by rwa [littleEndian_length])

@[simp] theorem loadLE_storeLE (m : Memory) (a w n : Nat) : loadLE (storeLE m a w n) a w = n % 256^w := by
  have same := read_write m a (littleEndian w n)
  rw [littleEndian_length] at same
  rw [loadLE,storeLE,same,ofLittleEndian_littleEndian]

theorem loadLE_storeLE_apart (apart : b + k ≤ a ∨ a + w ≤ b) : loadLE (storeLE m a w n) b k = loadLE m b k :=
  (agree_storeLE apart).loadLE (le_refl b) (le_refl _)

theorem loadBE_storeLE_apart (apart : b + k ≤ a ∨ a + w ≤ b) : loadBE (storeLE m a w n) b k = loadBE m b k :=
  (agree_storeLE apart).loadBE (le_refl b) (le_refl _)

theorem ofLittleEndian_lt (bytes : Bytes) : ofLittleEndian bytes < 256^bytes.length := by
  induction bytes with
  | nil => exact Nat.one_pos
  | cons b rest ih =>
    have byte : b.toNat < 256 := b.toNat_lt
    rw [ofLittleEndian,List.length_cons,Nat.pow_succ]
    omega

theorem loadBE_lt (m : Memory) (a w : Nat) : loadBE m a w < 256^w := by
  have bound := ofLittleEndian_lt (read m a w).reverse
  rwa [List.length_reverse,read_length] at bound

/-! ## What is stored from an address on -/

def Holds (m : Memory) (a : Nat) (bytes : Bytes) : Prop := read m a bytes.length = bytes

@[simp] theorem holds_nil : Holds m a [] := rfl

theorem holds_append : Holds m a (l ++ l') ↔ Holds m a l ∧ Holds m (a+l.length) l' := by
  rw [Holds,List.length_append,read_add]
  constructor
  · exact fun same => List.append_inj same (read_length _ _ _)
  · rintro ⟨first,second⟩
    rw [first,second]

theorem holds_iff : Holds m a bytes ↔ ∀ i (inside : i < bytes.length), m (a+i) = bytes[i] := by
  constructor
  · intro holds i inside
    have at_i := congrArg (·[i]?) holds
    simpa [read,inside] using at_i
  · intro same
    apply List.ext_getElem (read_length _ _ _)
    intro i inside inside'
    simpa [read] using same i inside'

theorem Holds.agree (holds : Holds m a bytes) (agree : Agree m m' lo hi) (above : lo ≤ a)
    (below : a + bytes.length ≤ hi) :
    Holds m' a bytes := (agree.read above below).trans holds

theorem Holds.loadBE (holds : Holds m a (bigEndian w n)) : ByteMemory.loadBE m a w = n % 256^w := by
  rw [Holds,bigEndian_length] at holds
  rw [ByteMemory.loadBE,holds,bigEndian,List.reverse_reverse,ofLittleEndian_littleEndian]

theorem Holds.loadLE (holds : Holds m a (littleEndian w n)) : ByteMemory.loadLE m a w = n % 256^w := by
  rw [Holds,littleEndian_length] at holds
  rw [ByteMemory.loadLE,holds,ofLittleEndian_littleEndian]

/-! ## Texts that end in a zero byte -/

/-- The text at an address, if it ends in front of `limit`. -/
def textAt (m : Memory) (limit a : Nat) : Option Bytes :=
  let behind := read m a (limit-a)
  if 0 ∈ behind then some (behind.takeWhile (· ≠ 0)) else none

theorem textAt_of_holds (holds : Holds m a (bytes ++ [0])) (noNul : 0 ∉ bytes) (inside : a + bytes.length < limit) :
    textAt m limit a = some bytes := by
  obtain ⟨k,behind⟩ : ∃ k, limit - a = (bytes ++ [0]).length + k := ⟨limit - a - (bytes ++ [0]).length,by simp; omega⟩
  have split : read m a (limit-a) = bytes ++ 0 :: read m (a + (bytes ++ [0]).length) k := by
    rw [behind,read_add,holds,List.append_assoc]
    rfl
  have plain (b : UInt8) (member : b ∈ bytes) : decide (b ≠ 0) = true := by
    simp only [decide_eq_true_eq]
    rintro rfl
    exact noNul member
  rw [textAt,split,if_pos (by simp),List.takeWhile_append_of_pos plain]
  simp

theorem textAt_terminated (read : textAt m limit a = some bytes) : m (a + bytes.length) = 0 := by
  simp only [textAt,Option.ite_none_right_eq_some,Option.some.injEq] at read
  obtain ⟨ends,rfl⟩ := read
  have split := @List.takeWhile_append_dropWhile _ (fun b : UInt8 => b ≠ 0) (ByteMemory.read m a (limit-a))
  generalize front : (ByteMemory.read m a (limit-a)).takeWhile (fun b => b ≠ 0) = bytes at split ⊢
  cases rest : (ByteMemory.read m a (limit-a)).dropWhile (fun b => b ≠ 0) with
  | nil =>
    have plain := List.dropWhile_eq_nil_iff.mp rest 0 ends
    simp at plain
  | cons b rest' =>
    have stops : b = 0 := by
      have first := List.head?_dropWhile_not (fun b : UInt8 => decide (b ≠ 0)) (ByteMemory.read m a (limit-a))
      rw [rest] at first
      simpa using first
    rw [rest,stops] at split
    have holds : Holds m a (bytes ++ 0::rest') := by
      have length : (bytes ++ 0::rest').length = limit - a := by rw [split,read_length]
      rw [Holds,length,split]
    exact (holds_iff.mp (holds_append.mp holds).2 0 (by simp)).trans rfl

end ByteMemory
