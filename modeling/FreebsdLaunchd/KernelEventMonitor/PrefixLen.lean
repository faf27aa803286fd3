import Mathlib.Data.BitVec
import Mathlib.Data.Fintype.Basic

/-! The length of an IPv6 netmask as the kernel event monitor writes it. The
loops over the bits of a byte end before they look at its bit 0. -/
namespace FreebsdLaunchd.KernelEventMonitor

abbrev In6Addr := Vector (BitVec 8) 16

/-- The first loop: `plen` counts eight for each full byte, up to the first other one. -/
def skipFull : List (BitVec 8) → Nat → Nat × List (BitVec 8)
  | [], plen => (plen,[])
  | byte::rest, plen => if byte ≠ 0xff then (plen,byte::rest) else skipFull rest (plen+8)

/-- The second loop, from `bit` down: where it ends, and `plen` there. -/
def countOnes (byte : BitVec 8) : Nat → Nat → Nat × Nat
  | 0, plen => (0,plen)
  | bit+1, plen => if byte.getLsbD (bit+1) then countOnes byte bit (plen+1) else (bit+1,plen)

def onesBelow (byte : BitVec 8) : Nat → Bool
  | 0 => false
  | bit+1 => byte.getLsbD (bit+1) || onesBelow byte bit

def plenOf (name : List (BitVec 8)) (plen : Nat) : Nat :=
  match skipFull name plen with
  | (plen,[]) => plen
  | (plen,byte::rest) =>
    let (bit,plen) := countOnes byte 7 plen
    if onesBelow byte bit then 0
    else if rest.any (· ≠ 0) then 0
    else plen

/-- The value of `kSCPropNetIPv6PrefixLength` before and after. -/
def appendPrefixLen (prefixLens : Option (List Nat)) (name : In6Addr) : List Nat :=
  prefixLens.getD [] ++ [plenOf name.toList 0]

/-! ## The bits of a mask -/

/-- Bit `i` of a mask from the left, with zeros after its last byte. -/
def bitAt (name : List (BitVec 8)) (i : Nat) : Bool := (name.getD (i/8) 0).getLsbD (7-i%8)

/-- Ones up to `k` and zeros from there on; with `slip` there is a one at the end of
the byte in which the zeros begin. -/
def Front (slip : Bool) (k : Nat) (name : List (BitVec 8)) : Prop :=
  ∀ i < 8 * name.length, bitAt name i = (decide (i < k) || slip && decide (i = k/8*8+7))

def Within (slip : Bool) (k n : Nat) : Prop := if slip then k < 8 * n ∧ k % 8 ≠ 7 else k ≤ 8 * n

@[simp] theorem bitAt_head (byte : BitVec 8) (rest : List (BitVec 8)) {i : Nat} (inside : i < 8) :
    bitAt (byte::rest) i = byte.getLsbD (7-i) := by
  simp [bitAt,Nat.div_eq_of_lt inside,Nat.mod_eq_of_lt inside]

@[simp] theorem bitAt_tail (byte : BitVec 8) (rest : List (BitVec 8)) (i : Nat) :
    bitAt (byte::rest) (i+8) = bitAt rest i := by
  simp [bitAt]

private theorem bitAt_zeros {name : List (BitVec 8)} (zeros : name.any (· ≠ 0) = false) (i : Nat) :
    bitAt name i = false := by
  have zero : name.getD (i/8) 0 = 0 := by
    rw [List.getD_eq_getElem?_getD]
    cases at_ : name[i/8]? with
    | none => rfl
    | some byte => simpa using List.any_eq_false.mp zeros byte (List.mem_of_getElem? at_)
  rw [bitAt,zero]
  simp

private theorem zeros_of_bitAt {name : List (BitVec 8)} (zeros : ∀ i < 8 * name.length, bitAt name i = false) :
    name.any (· ≠ 0) = false := by
  induction name with
  | nil => rfl
  | cons byte rest ih =>
    have first : byte = 0 := by
      apply BitVec.eq_of_getLsbD_eq
      intro i inside
      have bit := zeros (7-i) (by simp only [List.length_cons]; omega)
      rw [bitAt_head byte rest (by omega)] at bit
      simpa [show 7-(7-i) = i by omega] using bit
    have later : rest.any (· ≠ 0) = false := ih fun i inside => by
      rw [← bitAt_tail byte rest i]
      exact zeros (i+8) (by simp only [List.length_cons]; omega)
    rw [List.any_cons,first,later]
    rfl

/-! ## The boundary byte -/

private theorem countOnes_plen (byte : BitVec 8) (bit plen : Nat) :
    countOnes byte bit plen = ((countOnes byte bit 0).1,plen+(countOnes byte bit 0).2) := by
  induction bit generalizing plen with
  | zero => rfl
  | succ bit ih =>
    simp only [countOnes]
    split
    · rw [ih (plen+1),ih (0+1)]
      simp only [Prod.mk.injEq,true_and]
      omega
    · rfl

private theorem boundary_found : ∀ byte : BitVec 8, byte ≠ 0xff → onesBelow byte (countOnes byte 7 0).1 = false →
    ∃ slip : Bool, (slip = true → (countOnes byte 7 0).2 ≠ 7) ∧ (countOnes byte 7 0).2 < 8 ∧
      ∀ i < 8, byte.getLsbD (7-i) = (decide (i < (countOnes byte 7 0).2) || slip && decide (i = 7)) := by
  decide +kernel

def frontByte (k : Nat) (slip : Bool) : BitVec 8 := BitVec.ofNat 8 (256 - 2^(8-k) + slip.toNat)

private theorem frontByte_bits : ∀ k < 8, ∀ slip, ∀ i < 8,
    (frontByte k slip).getLsbD (7-i) = (decide (i < k) || slip && decide (i = 7)) := by
  decide +kernel

private theorem frontByte_counted : ∀ k < 8, ∀ slip : Bool, (slip = true → k ≠ 7) → frontByte k slip ≠ 0xff ∧
    onesBelow (frontByte k slip) (countOnes (frontByte k slip) 7 0).1 = false ∧ (countOnes (frontByte k slip) 7 0).2 = k := by
  decide +kernel

private theorem byte_of_bits {byte byte' : BitVec 8} (same : ∀ i < 8, byte.getLsbD (7-i) = byte'.getLsbD (7-i)) :
    byte = byte' := by
  apply BitVec.eq_of_getLsbD_eq
  intro i inside
  have bit := same (7-i) (by omega)
  rwa [Nat.sub_sub_self (by omega)] at bit

private theorem boundary_counted {byte : BitVec 8} {k : Nat} (inside : k < 8) {slip : Bool} (within : slip = true → k ≠ 7)
    (bits : ∀ i < 8, byte.getLsbD (7-i) = (decide (i < k) || slip && decide (i = 7))) :
    byte ≠ 0xff ∧ onesBelow byte (countOnes byte 7 0).1 = false ∧ (countOnes byte 7 0).2 = k := by
  have known : byte = frontByte k slip := byte_of_bits fun i less => by rw [bits i less,frontByte_bits k inside slip i less]
  rw [known]
  exact frontByte_counted k inside slip within

private theorem full_of_bits {byte : BitVec 8} (bits : ∀ i < 8, byte.getLsbD (7-i) = true) : byte = 0xff :=
  byte_of_bits fun i less => by rw [bits i less]; revert i; decide

/-! ## The whole mask -/

@[simp] theorem plenOf_nil (plen : Nat) : plenOf [] plen = plen := rfl

@[simp] theorem plenOf_full (rest : List (BitVec 8)) (plen : Nat) : plenOf (0xff::rest) plen = plenOf rest (plen+8) := by
  simp [plenOf,skipFull]

private theorem plenOf_boundary {byte : BitVec 8} (rest : List (BitVec 8)) (plen : Nat) (boundary : byte ≠ 0xff) :
    plenOf (byte::rest) plen = if onesBelow byte (countOnes byte 7 0).1 || rest.any (· ≠ 0) then 0
      else plen + (countOnes byte 7 0).2 := by
  rw [plenOf,skipFull,if_pos boundary]
  dsimp only
  rw [countOnes_plen byte 7 plen]
  cases onesBelow byte (countOnes byte 7 0).1 <;> simp

private theorem front_shift (slip : Bool) (i k : Nat) :
    (decide (i+8 < k+8) || slip && decide (i+8 = (k+8)/8*8+7)) = (decide (i < k) || slip && decide (i = k/8*8+7)) := by
  have ones : i+8 < k+8 ↔ i < k := by omega
  have last : i+8 = (k+8)/8*8+7 ↔ i = k/8*8+7 := by omega
  simp only [ones,last]

theorem Front.tail {slip : Bool} {k : Nat} {byte : BitVec 8} {rest : List (BitVec 8)}
    (front : Front slip (k+8) (byte::rest)) : Front slip k rest := by
  intro i inside
  have bit := front (i+8) (by simp only [List.length_cons]; omega)
  rwa [bitAt_tail,front_shift] at bit

theorem Front.full {slip : Bool} {k : Nat} {rest : List (BitVec 8)} (front : Front slip k rest) :
    Front slip (k+8) (0xff::rest) := by
  intro i inside
  rw [List.length_cons] at inside
  rcases Nat.lt_or_ge i 8 with head | tail
  · rw [bitAt_head _ _ head]
    have ones : ∀ j < 8, (0xff : BitVec 8).getLsbD (7-j) = true := by decide
    rw [ones i head]
    simp [show i < k+8 by omega]
  · obtain ⟨j,rfl⟩ := Nat.exists_eq_add_of_le' tail
    rw [bitAt_tail,front j (by omega),front_shift]

/-- A mask of either form is counted up to its first zero. -/
theorem plenOf_front {slip : Bool} {k : Nat} {name : List (BitVec 8)} (front : Front slip k name)
    (within : Within slip k name.length) (plen : Nat) : plenOf name plen = plen + k := by
  induction name generalizing k plen with
  | nil =>
    have none : k = 0 := by
      cases slip with
      | false => simpa [Within] using within
      | true => simp [Within] at within
    simp [none]
  | cons byte rest ih =>
    have bits (i : Nat) (inside : i < 8) := (bitAt_head byte rest inside).symm.trans
      (front i (by simp only [List.length_cons]; omega))
    rcases Nat.lt_or_ge k 8 with here | later
    · have bits : ∀ i < 8, byte.getLsbD (7-i) = (decide (i < k) || slip && decide (i = 7)) := by
        simpa [Nat.div_eq_of_lt here] using bits
      have inside : slip = true → k ≠ 7 := by
        intro slips
        simp [Within,slips] at within
        omega
      obtain ⟨boundary,below,counted⟩ := boundary_counted here inside bits
      have zeros : rest.any (· ≠ 0) = false := zeros_of_bitAt fun i inside => by
        have bit := front (i+8) (by simp only [List.length_cons]; omega)
        rw [bitAt_tail] at bit
        rw [bit]
        simp [Nat.div_eq_of_lt here,show ¬ i+8 < k by omega]
      rw [plenOf_boundary rest plen boundary,below,zeros,counted]
      simp
    · obtain ⟨k,rfl⟩ := Nat.exists_eq_add_of_le' later
      have full : byte = 0xff := full_of_bits fun i inside => by
        rw [bits i inside]
        simp [show i < k+8 by omega]
      rw [full,plenOf_full,ih front.tail (by cases slip <;> simp [Within] at within ⊢ <;> omega)]
      omega

/-- Where anything but 0 is counted, the mask has one of the two forms. -/
theorem front_of_plenOf {name : List (BitVec 8)} {plen : Nat} (counted : plenOf name plen ≠ 0) :
    ∃ slip k, Within slip k name.length ∧ Front slip k name := by
  induction name generalizing plen with
  | nil => exact ⟨false,0,by simp [Within],fun i inside => by simp at inside⟩
  | cons byte rest ih =>
    rcases eq_or_ne byte 0xff with rfl | boundary
    · rw [plenOf_full] at counted
      obtain ⟨slip,k,within,front⟩ := ih counted
      exact ⟨slip,k+8,by cases slip <;> simp [Within] at within ⊢ <;> omega,front.full⟩
    · rw [plenOf_boundary rest plen boundary] at counted
      split at counted
      · exact absurd rfl counted
      · rename_i clear
        obtain ⟨below,zeros⟩ := Bool.or_eq_false_iff.mp (Bool.eq_false_iff.mpr clear)
        obtain ⟨slip,inside,small,bits⟩ := boundary_found byte boundary below
        refine ⟨slip,(countOnes byte 7 0).2,?_,?_⟩
        · cases slip
          · simp only [Within,List.length_cons,Bool.false_eq_true,if_false]
            omega
          · have inside := inside rfl
            simp only [Within,List.length_cons,if_true]
            omega
        · intro i _
          rw [Nat.div_eq_of_lt small]
          rcases Nat.lt_or_ge i 8 with head | tail
          · rw [bitAt_head byte rest head,bits i head]
          · obtain ⟨j,rfl⟩ := Nat.exists_eq_add_of_le' tail
            rw [bitAt_tail,bitAt_zeros zeros]
            simp [show ¬ j+8 < (countOnes byte 7 0).2 by omega]

/-! ## What is appended -/

/-- `k` ones and then zeros only. -/
def OnesThenZeros (k : Nat) (name : In6Addr) : Prop := ∀ i < 128, bitAt name.toList i = decide (i < k)

/-- `k` ones and then zeros, but for a one at the end of the byte in which the zeros begin. -/
def OnesThenStray (k : Nat) (name : In6Addr) : Prop :=
  k < 128 ∧ k % 8 ≠ 7 ∧ ∀ i < 128, bitAt name.toList i = decide (i < k ∨ i = k/8*8+7)

private theorem front_plain {k : Nat} {name : In6Addr} : Front false k name.toList ↔ OnesThenZeros k name := by
  simp [Front,OnesThenZeros]

private theorem front_stray {k : Nat} {name : In6Addr} :
    Front true k name.toList ∧ Within true k 16 ↔ OnesThenStray k name := by
  simp only [Front,OnesThenStray,Within,Vector.length_toList,if_true,Bool.true_and,Bool.decide_or]
  tauto

theorem OnesThenStray.not_plain {k l : Nat} {name : In6Addr} (stray : OnesThenStray k name) :
    ¬ OnesThenZeros l name := by
  obtain ⟨bound,inside,bits⟩ := stray
  intro plain
  have zero := (bits k (by omega)).symm.trans (plain k (by omega))
  have one := (bits (k/8*8+7) (by omega)).symm.trans (plain (k/8*8+7) (by omega))
  simp [show k ≠ k/8*8+7 by omega] at zero one
  omega

private theorem plenOf_plain {k : Nat} {name : In6Addr} (bound : k ≤ 128) (plain : OnesThenZeros k name) :
    plenOf name.toList 0 = k := by
  simpa using plenOf_front (front_plain.mpr plain) (by simpa [Within] using bound) 0

private theorem plenOf_stray {k : Nat} {name : In6Addr} (stray : OnesThenStray k name) : plenOf name.toList 0 = k := by
  obtain ⟨front,within⟩ := front_stray.mpr stray
  simpa using plenOf_front front (by simpa using within) 0

/-- The length is right, and 0 for what is no mask, unless the zeros of the mask begin
in the middle of a byte whose last bit is the only other one. -/
theorem appendPrefixLen_iff (prefixLens : Option (List Nat)) (name : In6Addr) :
    (∃ plen, appendPrefixLen prefixLens name = prefixLens.getD [] ++ [plen] ∧
      (∀ k ≤ 128, OnesThenZeros k name → plen = k) ∧
      ((∀ k ≤ 128, ¬ OnesThenZeros k name) → plen = 0)) ↔
    ∀ k, 0 < k → ¬ OnesThenStray k name := by
  constructor
  · rintro ⟨plen,appended,-,other⟩ k positive stray
    have counted : plenOf name.toList 0 = plen := by simpa [appendPrefixLen] using appended
    have zero := other fun l _ => stray.not_plain
    rw [plenOf_stray stray] at counted
    omega
  · intro noStray
    refine ⟨plenOf name.toList 0,rfl,fun k bound plain => plenOf_plain bound plain,fun noMask => ?_⟩
    by_contra counted
    obtain ⟨slip,k,within,front⟩ := front_of_plenOf counted
    rw [Vector.length_toList] at within
    cases slip with
    | false => exact noMask k (by simpa [Within] using within) (front_plain.mp front)
    | true =>
      have stray := front_stray.mp ⟨front,within⟩
      rw [plenOf_stray stray] at counted
      exact noStray k (Nat.pos_of_ne_zero counted) stray

/-- For ff01:: a length of 8 is appended. -/
theorem stray_counted :
    ¬ (∃ plen, appendPrefixLen none (#v[0xff,1,0,0,0,0,0,0,0,0,0,0,0,0,0,0]) = [] ++ [plen] ∧
      (∀ k ≤ 128, OnesThenZeros k #v[0xff,1,0,0,0,0,0,0,0,0,0,0,0,0,0,0] → plen = k) ∧
      ((∀ k ≤ 128, ¬ OnesThenZeros k #v[0xff,1,0,0,0,0,0,0,0,0,0,0,0,0,0,0]) → plen = 0)) := by
  rintro ⟨plen,appended,-,other⟩
  have counted : appendPrefixLen none (#v[0xff,1,0,0,0,0,0,0,0,0,0,0,0,0,0,0]) = [8] := by decide
  have zero := other fun k _ plain => by
    have gap := plain 8 (by decide)
    have last := plain 15 (by decide)
    have gapBit : bitAt (#v[0xff,1,0,0,0,0,0,0,0,0,0,0,0,0,0,0] : In6Addr).toList 8 = false := by decide
    have lastBit : bitAt (#v[0xff,1,0,0,0,0,0,0,0,0,0,0,0,0,0,0] : In6Addr).toList 15 = true := by decide
    rw [gapBit] at gap
    rw [lastBit] at last
    simp at gap last
    omega
  rw [counted,zero] at appended
  simp at appended

end FreebsdLaunchd.KernelEventMonitor
