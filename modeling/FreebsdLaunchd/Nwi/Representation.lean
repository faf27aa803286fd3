import FreebsdLaunchd.Nwi.State

/-! What holds of every network information state: names once in a family, the
last-item flag on the last entry, and aliases that lead to the entry of the same
name in the other family and back. -/
namespace FreebsdLaunchd.Nwi

variable {s s' : NwiState} {af af' : AF} {i j n : Nat} {name : IfName} {c : Candidate}

@[simp] theorem otherAf_otherAf (af : AF) : nwiOtherAf (nwiOtherAf af) = af := by cases af <;> rfl

theorem otherAf_ne (af : AF) : nwiOtherAf af ≠ af := by cases af <;> decide

/-! ## Entries -/

namespace NwiState

def addr (s : NwiState) (af : AF) (i : Nat) : Nat := s.base af + i

def entry (s : NwiState) (af : AF) (i : Nat) : NwiIfstate := s.ifstateList (s.addr af i)

theorem addr_inj (inside : i < s.maxIfCount) (inside' : j < s.maxIfCount) :
    s.addr af i = s.addr af' j ↔ af = af' ∧ i = j := by
  cases af <;> cases af' <;> simp [addr,base] <;> omega

theorem write_entry {place : Nat} (there : place = s.addr af i) (inside : i < s.maxIfCount) (inside' : j < s.maxIfCount)
    (e : NwiIfstate) : (s.write place e).entry af' j = if af' = af ∧ j = i then e else s.entry af' j := by
  subst there
  have same : (s.write (s.addr af i) e).addr af' j = s.addr af' j := by cases af' <;> rfl
  by_cases here : af' = af ∧ j = i
  · rw [if_pos here,entry,same,here.1,here.2]
    exact Function.update_self ..
  · have apart := mt (addr_inj (s := s) inside' inside).mp here
    rw [if_neg here,entry,same]
    exact Function.update_of_ne apart ..

theorem modify_entry {place : Nat} (there : place = s.addr af i) (inside : i < s.maxIfCount)
    (inside' : j < s.maxIfCount) (f : NwiIfstate → NwiIfstate) :
    (s.modify place f).entry af' j = if af' = af ∧ j = i then f (s.entry af i) else s.entry af' j := by
  subst there
  exact write_entry rfl inside inside' _

@[simp] theorem write_addr (place : Nat) (e : NwiIfstate) (af : AF) (i : Nat) :
    (s.write place e).addr af i = s.addr af i := by cases af <;> rfl

@[simp] theorem modify_addr (place : Nat) (f : NwiIfstate → NwiIfstate) (af : AF) (i : Nat) :
    (s.modify place f).addr af i = s.addr af i := write_addr ..

@[simp] theorem write_count (i : Nat) (e : NwiIfstate) (af : AF) : (s.write i e).count af = s.count af := by
  cases af <;> rfl

@[simp] theorem write_base (i : Nat) (e : NwiIfstate) (af : AF) : (s.write i e).base af = s.base af := by
  cases af <;> rfl

@[simp] theorem write_max (i : Nat) (e : NwiIfstate) : (s.write i e).maxIfCount = s.maxIfCount := rfl

@[simp] theorem modify_count (i : Nat) (f : NwiIfstate → NwiIfstate) (af : AF) : (s.modify i f).count af = s.count af :=
  write_count ..

@[simp] theorem modify_base (i : Nat) (f : NwiIfstate → NwiIfstate) (af : AF) : (s.modify i f).base af = s.base af :=
  write_base ..

@[simp] theorem modify_max (i : Nat) (f : NwiIfstate → NwiIfstate) : (s.modify i f).maxIfCount = s.maxIfCount := rfl

@[simp] theorem setCount_count (af af' : AF) (n : Nat) :
    (s.setCount af n).count af' = if af' = af then n else s.count af' := by
  cases af <;> cases af' <;> rfl

@[simp] theorem setCount_base (af af' : AF) (n : Nat) : (s.setCount af n).base af' = s.base af' := by
  cases af <;> cases af' <;> rfl

@[simp] theorem setCount_max (af : AF) (n : Nat) : (s.setCount af n).maxIfCount = s.maxIfCount := by cases af <;> rfl

@[simp] theorem setCount_list (af : AF) (n : Nat) : (s.setCount af n).ifstateList = s.ifstateList := by
  cases af <;> rfl

@[simp] theorem setCount_entry (af af' : AF) (n i : Nat) : (s.setCount af n).entry af' i = s.entry af' i := by
  simp [entry,addr]

def nameIndex (s : NwiState) (af : AF) (name : IfName) : Option Nat :=
  (List.range (s.count af)).find? fun idx => (s.entry af idx).ifname = name

theorem getWithName (s : NwiState) (af : AF) (name : IfName) :
    nwiStateGetIfstateWithName (some s) af name = (s.nameIndex af name).map (s.addr af) := rfl

private theorem nameIndex_some (found : s.nameIndex af name = some i) : i < s.count af ∧ (s.entry af i).ifname = name :=
  ⟨List.mem_range.mp (List.mem_of_find?_eq_some found),by simpa using List.find?_some found⟩

private theorem nameIndex_none : s.nameIndex af name = none ↔ ∀ i < s.count af, (s.entry af i).ifname ≠ name := by
  simp [nameIndex]

end NwiState
open NwiState

/-! ## The invariant -/

def isLast (e : NwiIfstate) : Prop := e.flags &&& NWI_IFSTATE_FLAGS_LAST_ITEM ≠ 0

private theorem isLast_iff (e : NwiIfstate) : isLast e ↔ e.flags.getLsbD 12 = true := by
  have bit : NWI_IFSTATE_FLAGS_LAST_ITEM = BitVec.twoPow 64 12 := by decide
  rw [isLast,bit,BitVec.and_twoPow]
  cases e.flags.getLsbD 12 <;> simp
  decide

structure Represented (s : NwiState) : Prop where
  room : ∀ af, s.count af ≤ s.maxIfCount
  listRoom : s.ifList.length ≤ s.maxIfCount
  family : ∀ af i, i < s.count af → (s.entry af i).af = af
  unique : ∀ af i j, i < s.count af → j < s.count af → (s.entry af i).ifname = (s.entry af j).ifname → i = j
  last : ∀ af i, i < s.count af → (isLast (s.entry af i) ↔ i + 1 = s.count af)
  aliased : ∀ af i j, i < s.count af → j < s.count (nwiOtherAf af) →
    (s.entry af i).ifname = (s.entry (nwiOtherAf af) j).ifname →
    (s.entry af i).afAliasOffset = (s.addr (nwiOtherAf af) j : Int) - s.addr af i
  alone : ∀ af i, i < s.count af →
    (∀ j < s.count (nwiOtherAf af), (s.entry af i).ifname ≠ (s.entry (nwiOtherAf af) j).ifname) →
    (s.entry af i).afAliasOffset = 0

/-- What the invariant says of an entry is kept where its name, family, alias and
last-item flag are. -/
structure Keeps (e e' : NwiIfstate) : Prop where
  ifname : e'.ifname = e.ifname
  af : e'.af = e.af
  offset : e'.afAliasOffset = e.afAliasOffset
  last : isLast e' ↔ isLast e

theorem Keeps.refl (e : NwiIfstate) : Keeps e e := ⟨rfl,rfl,rfl,.rfl⟩

theorem Represented.congr (represented : Represented s) (max_ : s'.maxIfCount = s.maxIfCount)
    (count_ : ∀ af, s'.count af = s.count af) (listRoom : s'.ifList.length ≤ s'.maxIfCount)
    (keeps : ∀ af i, i < s.count af → Keeps (s.entry af i) (s'.entry af i)) : Represented s' := by
  have addr_ (af : AF) (i : Nat) : s'.addr af i = s.addr af i := by cases af <;> simp [addr,base,max_]
  refine ⟨fun af => ?_,listRoom,fun af i inside => ?_,fun af i j inside inside' same => ?_,fun af i inside => ?_,
    fun af i j inside inside' same => ?_,fun af i inside alone => ?_⟩
  · rw [count_,max_]
    exact represented.room af
  · rw [count_] at inside
    rw [(keeps af i inside).af]
    exact represented.family af i inside
  · rw [count_] at inside inside'
    rw [(keeps af i inside).ifname,(keeps af j inside').ifname] at same
    exact represented.unique af i j inside inside' same
  · rw [count_] at inside ⊢
    rw [(keeps af i inside).last]
    exact represented.last af i inside
  · rw [count_] at inside inside'
    rw [(keeps af i inside).ifname,(keeps _ j inside').ifname] at same
    rw [(keeps af i inside).offset,addr_,addr_]
    exact represented.aliased af i j inside inside' same
  · rw [count_] at inside
    rw [(keeps af i inside).offset]
    refine represented.alone af i inside fun j inside' same => ?_
    refine alone j (by rw [count_]; exact inside') ?_
    rw [(keeps af i inside).ifname,(keeps _ j inside').ifname]
    exact same

/-! ## What the invariant gives -/

theorem Represented.inside (represented : Represented s) (used : i < s.count af) : i < s.maxIfCount :=
  Nat.lt_of_lt_of_le used (represented.room af)

theorem addr_ne_other (s : NwiState) (af : AF) (i j : Nat) (inside : i < s.maxIfCount) (inside' : j < s.maxIfCount) :
    (s.addr (nwiOtherAf af) j : Int) - s.addr af i ≠ 0 := by
  have apart : s.addr (nwiOtherAf af) j ≠ s.addr af i := fun same =>
    otherAf_ne af ((addr_inj inside' inside).mp same).1
  omega

/-- An alias is there exactly if the other family has the name. -/
theorem Represented.alias_iff (represented : Represented s) (used : i < s.count af) :
    (s.entry af i).afAliasOffset ≠ 0 ↔
      ∃ j < s.count (nwiOtherAf af), (s.entry af i).ifname = (s.entry (nwiOtherAf af) j).ifname := by
  constructor
  · intro present
    by_contra nowhere
    exact present (represented.alone af i used fun j inside same => nowhere ⟨j,inside,same⟩)
  · rintro ⟨j,used',same⟩
    rw [represented.aliased af i j used used' same]
    exact addr_ne_other s af i j (represented.inside used) (represented.inside used')

/-- The alias is the entry of that name in the other family. -/
theorem Represented.getAlias (represented : Represented s) (used : i < s.count af)
    (used' : j < s.count (nwiOtherAf af)) (same : (s.entry af i).ifname = (s.entry (nwiOtherAf af) j).ifname) :
    nwiIfstateGetAlias s (s.addr af i) (nwiOtherAf af) = some (s.addr (nwiOtherAf af) j) := by
  have family := represented.family af i used
  have offset := represented.aliased af i j used used' same
  have present := addr_ne_other s af i j (represented.inside used) (represented.inside used')
  rw [entry] at family offset
  rw [nwiIfstateGetAlias,family,if_neg (Ne.symm (otherAf_ne af)),offset,if_neg present]
  congr 1
  omega

theorem Represented.getAlias_none (represented : Represented s) (used : i < s.count af)
    (alone : ∀ j < s.count (nwiOtherAf af), (s.entry af i).ifname ≠ (s.entry (nwiOtherAf af) j).ifname) :
    nwiIfstateGetAlias s (s.addr af i) (nwiOtherAf af) = none := by
  have family := represented.family af i used
  have offset := represented.alone af i used alone
  rw [entry] at family offset
  rw [nwiIfstateGetAlias,family,if_neg (Ne.symm (otherAf_ne af)),if_pos offset]

/-! ## Updating an entry's fields -/

private theorem updateFields_keeps (c : Candidate) (e : NwiIfstate) : Keeps e (updateFields c e) := by
  have vpn (e : NwiIfstate) (a : Option Sockaddr) : (nwiIfstateSetVpnServer e a).ifname = e.ifname ∧
      (nwiIfstateSetVpnServer e a).af = e.af ∧ (nwiIfstateSetVpnServer e a).afAliasOffset = e.afAliasOffset ∧
      (nwiIfstateSetVpnServer e a).flags = e.flags := by
    unfold nwiIfstateSetVpnServer
    cases a with
    | none => exact ⟨rfl,rfl,rfl,rfl⟩
    | some a =>
      simp only []
      split <;> exact ⟨rfl,rfl,rfl,rfl⟩
  have low (f g : BitVec 64) : ((f &&& ~~~NWI_IFSTATE_FLAGS_MASK) ||| (g &&& NWI_IFSTATE_FLAGS_MASK)).getLsbD 12 =
      f.getLsbD 12 := by simp [NWI_IFSTATE_FLAGS_MASK]
  rcases c with ⟨name,af,flags,rank,ifa,addr,reach⟩
  cases ifa <;> cases af <;>
    exact ⟨(vpn _ _).1,(vpn _ _).2.1,(vpn _ _).2.2.1,by
      rw [isLast_iff,isLast_iff]
      simp only [updateFields,low,(vpn _ _).2.2.2]⟩

theorem Represented.updated (represented : Represented s) (used : i < s.count af) (c : Candidate) :
    Represented (s.modify (s.addr af i) (updateFields c)) := by
  refine represented.congr rfl (fun af => modify_count ..) represented.listRoom fun af' j used' => ?_
  rw [modify_entry rfl (represented.inside used) (represented.inside used')]
  by_cases here : af' = af ∧ j = i
  · rw [if_pos here,here.1,here.2]
    exact updateFields_keeps c _
  · rw [if_neg here]
    exact .refl _

/-! ## A new entry -/

def freshIfstate (c : Candidate) : NwiIfstate :=
  {zeroIfstate with
    ifname := strlcpy c.ifname IFNAMSIZ
    af := c.af
    flags := zeroIfstate.flags ||| NWI_IFSTATE_FLAGS_LAST_ITEM}

def notLast (e : NwiIfstate) : NwiIfstate := {e with flags := e.flags &&& ~~~NWI_IFSTATE_FLAGS_LAST_ITEM}

private theorem fresh_last (c : Candidate) : isLast (freshIfstate c) := by
  rw [isLast_iff]
  simp [freshIfstate,NWI_IFSTATE_FLAGS_LAST_ITEM]

private theorem notLast_last (e : NwiIfstate) : ¬ isLast (notLast e) := by
  rw [isLast_iff]
  simp [notLast,NWI_IFSTATE_FLAGS_LAST_ITEM]

/-- The state with the new element at the end of its family, its alias still to be set. -/
def appended (s : NwiState) (c : Candidate) : NwiState :=
  ((if s.count c.af > 0 then s.modify (s.base c.af + s.count c.af - 1) notLast else s).write
    (s.addr c.af (s.count c.af)) (freshIfstate c)).setCount c.af (s.count c.af + 1)

private theorem appendIfstate_appended (s : NwiState) (c : Candidate) :
    appendIfstate s c = nwiStateAddIfstateAlias (appended s c) (s.addr c.af (s.count c.af)) := rfl

private theorem appended_max : (appended s c).maxIfCount = s.maxIfCount := by
  unfold appended
  split <;> simp

private theorem appended_count (af : AF) :
    (appended s c).count af = if af = c.af then s.count c.af + 1 else s.count af := by
  unfold appended
  split <;> simp

private theorem appended_addr (af : AF) (i : Nat) : (appended s c).addr af i = s.addr af i := by
  cases af <;> simp [addr,base,appended_max]

private theorem appended_entry (room : s.count c.af < s.maxIfCount) (inside : i < s.maxIfCount) :
    (appended s c).entry af i =
      if af = c.af ∧ i = s.count c.af then freshIfstate c
      else if af = c.af ∧ i + 1 = s.count c.af then notLast (s.entry af i)
      else s.entry af i := by
  unfold appended
  rw [setCount_entry]
  by_cases some_ : s.count c.af > 0
  · have prev : s.base c.af + s.count c.af - 1 = s.addr c.af (s.count c.af - 1) := by rw [addr]; omega
    rw [if_pos some_,write_entry (modify_addr ..).symm room inside,modify_entry prev (by omega) inside]
    by_cases last : af = c.af ∧ i = s.count c.af
    · rw [if_pos last,if_pos last]
    · rw [if_neg last,if_neg last]
      by_cases before : af = c.af ∧ i + 1 = s.count c.af
      · have at_ : i = s.count c.af - 1 := by omega
        rw [if_pos ⟨before.1,at_⟩,if_pos before,before.1,at_]
      · rw [if_neg before,if_neg]
        rintro ⟨same,at_⟩
        exact before ⟨same,by omega⟩
  · rw [if_neg some_,write_entry rfl room inside]
    by_cases last : af = c.af ∧ i = s.count c.af
    · rw [if_pos last,if_pos last]
    · rw [if_neg last,if_neg last,if_neg]
      rintro ⟨_,at_⟩
      omega

def partner (s : NwiState) (c : Candidate) : Option Nat :=
  s.nameIndex (nwiOtherAf c.af) (strlcpy c.ifname IFNAMSIZ)

private theorem appended_partner (room : s.count c.af < s.maxIfCount) (fits : s.count (nwiOtherAf c.af) ≤ s.maxIfCount) :
    (appended s c).nameIndex (nwiOtherAf c.af) (strlcpy c.ifname IFNAMSIZ) = partner s c := by
  rw [partner,nameIndex,nameIndex,appended_count,if_neg (otherAf_ne c.af)]
  have same (i : Nat) (inside : i < s.count (nwiOtherAf c.af)) :
      (appended s c).entry (nwiOtherAf c.af) i = s.entry (nwiOtherAf c.af) i := by
    rw [appended_entry room (by omega),if_neg fun here => otherAf_ne c.af here.1,
      if_neg fun here => otherAf_ne c.af here.1]
  rw [← List.head?_filter,← List.head?_filter]
  congr 1
  refine List.filter_congr fun i member => ?_
  rw [same i (List.mem_range.mp member)]

def withOffset (offset : Int) (e : NwiIfstate) : NwiIfstate := {e with afAliasOffset := offset}

/-- The alias of the new element and of the entry of its name are set, each to the other. -/
theorem appendIfstate_eq (room : s.count c.af < s.maxIfCount) (fits : s.count (nwiOtherAf c.af) ≤ s.maxIfCount) :
    appendIfstate s c = match partner s c with
      | none => appended s c
      | some j => ((appended s c).modify (s.addr c.af (s.count c.af))
          (withOffset (s.addr (nwiOtherAf c.af) j - s.addr c.af (s.count c.af)))).modify (s.addr (nwiOtherAf c.af) j)
          (withOffset (s.addr c.af (s.count c.af) - s.addr (nwiOtherAf c.af) j)) := by
  have new : (appended s c).ifstateList (s.addr c.af (s.count c.af)) = freshIfstate c := by
    rw [← appended_addr (s := s) (c := c),← entry,appended_entry room room,if_pos ⟨rfl,rfl⟩]
  have fresh : (freshIfstate c).ifname = strlcpy c.ifname IFNAMSIZ ∧ (freshIfstate c).af = c.af := ⟨rfl,rfl⟩
  rw [appendIfstate_appended,nwiStateAddIfstateAlias,new,fresh.1,fresh.2,getWithName,appended_partner room fits]
  cases partner s c with
  | none => rfl
  | some j =>
    simp only [Option.map_some,appended_addr]
    rfl

private theorem appendIfstate_max (room : s.count c.af < s.maxIfCount) (fits : s.count (nwiOtherAf c.af) ≤ s.maxIfCount) :
    (appendIfstate s c).maxIfCount = s.maxIfCount := by
  rw [appendIfstate_eq room fits]
  cases partner s c <;> simp [appended_max]

private theorem appendIfstate_count (room : s.count c.af < s.maxIfCount) (fits : s.count (nwiOtherAf c.af) ≤ s.maxIfCount)
    (af : AF) : (appendIfstate s c).count af = if af = c.af then s.count c.af + 1 else s.count af := by
  rw [appendIfstate_eq room fits]
  cases partner s c <;> simp [appended_count]

def newOffset (s : NwiState) (c : Candidate) : Int :=
  match partner s c with
  | none => 0
  | some j => s.addr (nwiOtherAf c.af) j - s.addr c.af (s.count c.af)

private theorem appendIfstate_new (room : s.count c.af < s.maxIfCount) (fits : s.count (nwiOtherAf c.af) ≤ s.maxIfCount) :
    (appendIfstate s c).entry c.af (s.count c.af) = withOffset (newOffset s c) (freshIfstate c) := by
  have new : (appended s c).entry c.af (s.count c.af) = freshIfstate c := by
    rw [appended_entry room room,if_pos ⟨rfl,rfl⟩]
  rw [appendIfstate_eq room fits,newOffset]
  cases found : partner s c with
  | none => exact new
  | some j =>
    have used := (nameIndex_some found).1
    simp only []
    rw [modify_entry ((modify_addr ..).trans (appended_addr ..)).symm (by simp only [modify_max,appended_max]; omega)
        (by simpa only [modify_max,appended_max] using room),if_neg fun here => otherAf_ne c.af here.1.symm,
      modify_entry (appended_addr ..).symm (by simpa only [appended_max] using room)
        (by simpa only [appended_max] using room),if_pos ⟨rfl,rfl⟩,new]

/-- An entry that was there keeps its name and family, its flag only where it is not
the previous of the new one, and its alias only where its name is not the new one's. -/
theorem appendIfstate_old (room : s.count c.af < s.maxIfCount) (fits : ∀ af, s.count af ≤ s.maxIfCount)
    (used : i < s.count af) :
    (appendIfstate s c).entry af i =
      let e := if af = c.af ∧ i + 1 = s.count c.af then notLast (s.entry af i) else s.entry af i
      if af = nwiOtherAf c.af ∧ partner s c = some i then
        withOffset (s.addr c.af (s.count c.af) - s.addr af i) e
      else e := by
  have inside : i < s.maxIfCount := Nat.lt_of_lt_of_le used (fits af)
  have notNew : ¬ (af = c.af ∧ i = s.count c.af) := by
    rintro ⟨rfl,rfl⟩
    exact absurd used (Nat.lt_irrefl _)
  have before : (appended s c).entry af i = _ := appended_entry room inside
  rw [if_neg notNew] at before
  rw [appendIfstate_eq room (fits _)]
  simp only []
  cases found : partner s c with
  | none =>
    simp only [reduceCtorEq,and_false,if_false]
    exact before
  | some j =>
    have used' := (nameIndex_some found).1
    have inside' : j < s.maxIfCount := Nat.lt_of_lt_of_le used' (fits _)
    simp only [Option.some.injEq]
    rw [modify_entry ((modify_addr ..).trans (appended_addr ..)).symm (by simpa only [modify_max,appended_max] using inside')
      (by simpa only [modify_max,appended_max] using inside)]
    have unaffected (af : AF) (i : Nat) (inside : i < s.maxIfCount) (other : ¬ (af = c.af ∧ i = s.count c.af)) :
        ((appended s c).modify (s.addr c.af (s.count c.af))
          (withOffset (s.addr (nwiOtherAf c.af) j - s.addr c.af (s.count c.af)))).entry af i =
          (appended s c).entry af i := by
      rw [modify_entry (appended_addr ..).symm (by simpa only [appended_max] using room)
        (by simpa only [appended_max] using inside),if_neg other]
    by_cases here : af = nwiOtherAf c.af ∧ i = j
    · obtain ⟨rfl,rfl⟩ := here
      rw [if_pos ⟨rfl,rfl⟩,if_pos ⟨rfl,rfl⟩,unaffected _ _ inside notNew,before]
    · rw [if_neg here,if_neg fun same => here ⟨same.1,same.2.symm⟩,unaffected _ _ inside notNew,before]

private theorem strlcpy_short (short : name.length < IFNAMSIZ) : strlcpy name IFNAMSIZ = name :=
  List.take_of_length_le (by omega)

private theorem appendIfstate_ifList (room : s.count c.af < s.maxIfCount)
    (fits : s.count (nwiOtherAf c.af) ≤ s.maxIfCount) :
    (appendIfstate s c).ifList = s.ifList := by
  have list (s : NwiState) (af : AF) (n : Nat) : (s.setCount af n).ifList = s.ifList := by cases af <;> rfl
  have before : (appended s c).ifList = s.ifList := by
    unfold appended
    rw [list]
    split <;> rfl
  rw [appendIfstate_eq room fits]
  cases partner s c <;> exact before

private theorem old_fields (previous aliased : Prop) [Decidable previous] [Decidable aliased] (e : NwiIfstate)
    (offset : Int) :
    let e₁ := if previous then notLast e else e
    let e₂ := if aliased then withOffset offset e₁ else e₁
    e₂.ifname = e.ifname ∧ e₂.af = e.af ∧ (isLast e₂ ↔ isLast e ∧ ¬ previous) ∧
      e₂.afAliasOffset = if aliased then offset else e.afAliasOffset := by
  have offset_last (e : NwiIfstate) : isLast (withOffset offset e) ↔ isLast e := .rfl
  by_cases previous_ : previous <;> by_cases aliased_ : aliased <;>
    simp [previous_,aliased_,offset_last,notLast_last] <;> exact ⟨rfl,rfl,rfl⟩

section Append
variable (represented : Represented s) (room : s.count c.af < s.maxIfCount) (short : c.ifname.length < IFNAMSIZ)
  (absent : s.nameIndex c.af c.ifname = none)
include represented

include short in
private theorem partner_iff : partner s c = some j ↔
    j < s.count (nwiOtherAf c.af) ∧ (s.entry (nwiOtherAf c.af) j).ifname = c.ifname := by
  rw [partner,strlcpy_short short]
  constructor
  · exact nameIndex_some
  · rintro ⟨used,same⟩
    cases found : s.nameIndex (nwiOtherAf c.af) c.ifname with
    | none => exact absurd same (nameIndex_none.mp found j used)
    | some j' =>
      obtain ⟨used',same'⟩ := nameIndex_some found
      rw [represented.unique _ j' j used' used (same'.trans same.symm)]

include room in
private theorem append_used (used : i < (appendIfstate s c).count af) :
    i < s.count af ∨ af = c.af ∧ i = s.count c.af := by
  rw [appendIfstate_count room (represented.room _)] at used
  by_cases here : af = c.af
  · subst here
    rw [if_pos rfl] at used
    exact (Nat.lt_succ_iff_lt_or_eq.mp used).imp_right fun same => ⟨rfl,same⟩
  · rw [if_neg here] at used
    exact .inl used

include room in
private theorem append_old (used : i < s.count af) :
    ((appendIfstate s c).entry af i).ifname = (s.entry af i).ifname ∧
    ((appendIfstate s c).entry af i).af = (s.entry af i).af ∧
    (isLast ((appendIfstate s c).entry af i) ↔ isLast (s.entry af i) ∧ ¬ (af = c.af ∧ i + 1 = s.count c.af)) ∧
    ((appendIfstate s c).entry af i).afAliasOffset =
      if af = nwiOtherAf c.af ∧ partner s c = some i then (s.addr c.af (s.count c.af) : Int) - s.addr af i
      else (s.entry af i).afAliasOffset := by
  rw [appendIfstate_old room represented.room used]
  exact old_fields _ _ _ _

include room short in
private theorem append_new :
    ((appendIfstate s c).entry c.af (s.count c.af)).ifname = c.ifname ∧
    ((appendIfstate s c).entry c.af (s.count c.af)).af = c.af ∧
    isLast ((appendIfstate s c).entry c.af (s.count c.af)) ∧
    ((appendIfstate s c).entry c.af (s.count c.af)).afAliasOffset = newOffset s c := by
  rw [appendIfstate_new room (represented.room _)]
  exact ⟨strlcpy_short short,rfl,fresh_last c,rfl⟩

include room short absent in
theorem Represented.appended : Represented (appendIfstate s c) := by
  have new := append_new represented room short
  have old {af : AF} {i : Nat} (used : i < s.count af) := append_old (c := c) represented room used
  have absent' := nameIndex_none.mp absent
  have count_ := appendIfstate_count room (represented.room (nwiOtherAf c.af))
  have addr_ (af : AF) (i : Nat) : (appendIfstate s c).addr af i = s.addr af i := by
    cases af <;> simp [addr,base,appendIfstate_max room (represented.room _)]
  refine ⟨fun af => ?_,?_,fun af i used => ?_,fun af i j used used' same => ?_,fun af i used => ?_,
    fun af i j used used' same => ?_,fun af i used alone => ?_⟩
  · rw [count_,appendIfstate_max room (represented.room _)]
    split
    · omega
    · exact represented.room af
  · rw [appendIfstate_ifList room (represented.room _),appendIfstate_max room (represented.room _)]
    exact represented.listRoom
  · rcases append_used represented room used with before | ⟨rfl,rfl⟩
    · rw [(old before).2.1]
      exact represented.family af i before
    · exact new.2.1
  · rcases append_used represented room used with before | ⟨rfl,rfl⟩
    · rw [(old before).1] at same
      rcases append_used represented room used' with before' | ⟨rfl,rfl⟩
      · rw [(old before').1] at same
        exact represented.unique af i j before before' same
      · rw [new.1] at same
        exact absurd same (absent' i before)
    · rw [new.1] at same
      rcases append_used represented room used' with before' | ⟨_,rfl⟩
      · rw [(old before').1] at same
        exact absurd same.symm (absent' j before')
      · rfl
  · rcases append_used represented room used with before | ⟨rfl,rfl⟩
    · rw [(old before).2.2.1,represented.last af i before,count_]
      by_cases here : af = c.af
      · subst here
        simp
        omega
      · simp [here]
    · rw [count_,if_pos rfl]
      exact iff_of_true new.2.2.1 rfl
  · rcases append_used represented room used with before | ⟨rfl,rfl⟩
    · rw [(old before).1] at same
      rw [(old before).2.2.2,addr_,addr_]
      rcases append_used represented room used' with before' | ⟨here,rfl⟩
      · rw [(old before').1] at same
        rw [if_neg]
        · exact represented.aliased af i j before before' same
        · rintro ⟨rfl,partner_⟩
          have named := ((partner_iff represented short).mp partner_).2
          rw [otherAf_otherAf] at before' same
          exact absent' j before' (same.symm.trans named)
      · have there : af = nwiOtherAf c.af := by rw [← here,otherAf_otherAf]
        subst there
        rw [otherAf_otherAf] at same ⊢
        rw [new.1] at same
        rw [if_pos ⟨rfl,(partner_iff represented short).mpr ⟨before,same⟩⟩]
    · rcases append_used represented room used' with before' | ⟨here,_⟩
      · rw [new.1,(old before').1] at same
        rw [new.2.2.2,newOffset,(partner_iff represented short).mpr ⟨before',same.symm⟩,addr_,addr_]
      · exact absurd here (otherAf_ne c.af)
  · rcases append_used represented room used with before | ⟨rfl,rfl⟩
    · rw [(old before).2.2.2,if_neg]
      · refine represented.alone af i before fun j before' same => alone j ?_ ?_
        · rw [count_]
          split
          · rename_i here
            rw [here] at before'
            omega
          · exact before'
        · rw [(old before).1,(old before').1]
          exact same
      · rintro ⟨rfl,partner_⟩
        have named := ((partner_iff represented short).mp partner_).2
        refine alone (s.count c.af) ?_ ?_
        · rw [count_,otherAf_otherAf,if_pos rfl]
          omega
        · rw [(old before).1,otherAf_otherAf,new.1]
          exact named
    · rw [new.2.2.2,newOffset]
      cases found : partner s c with
      | none => rfl
      | some j =>
        obtain ⟨before',named⟩ := (partner_iff represented short).mp found
        refine absurd ?_ (alone j ?_)
        · rw [new.1,(old before').1,named]
        · rw [count_,if_neg (otherAf_ne c.af)]
          exact before'

end Append

/-- Adding an interface state, new or there already, keeps the invariant. -/
theorem Represented.added (represented : Represented s) (short : c.ifname.length < IFNAMSIZ) :
    Represented (nwiStateAddIfstate s c).1 := by
  unfold nwiStateAddIfstate
  rw [getWithName]
  cases found : s.nameIndex c.af c.ifname with
  | some i =>
    simp only [Option.map_some]
    split
    · exact represented
    · exact represented.updated (nameIndex_some found).1 c
  | none =>
    simp only [Option.map_none]
    split
    · exact represented
    · rename_i notFull
      have room : s.count c.af < s.maxIfCount := Nat.lt_of_le_of_ne (represented.room _) notFull
      have appended := represented.appended room short found
      have used : s.count c.af < (appendIfstate s c).count c.af := by
        rw [appendIfstate_count room (represented.room _),if_pos rfl]
        omega
      have place : s.base c.af + s.count c.af = (appendIfstate s c).addr c.af (s.count c.af) := by
        rw [addr]
        cases c.af <;> simp [base,appendIfstate_max room (represented.room _)]
      rw [place]
      exact appended.updated used c

end FreebsdLaunchd.Nwi
