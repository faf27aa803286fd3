import FreebsdLaunchd.Library.FirstOccurrences
import FreebsdLaunchd.Nwi.Representation
import Mathlib.Data.List.Dedup
import Mathlib.Data.List.Perm.Subperm

/-! The interface list goes through the entries of both families in one order, by
rank and IPv4 first, and keeps the first entry that shows each interface. -/
namespace FreebsdLaunchd.Nwi
open NwiState FirstOccurrences

variable {s t : NwiState} {x y : AF × Nat} {name : IfName}

/-! ## The order of the entries -/

def slots (s : NwiState) (af : AF) : List (AF × Nat) := (List.range (s.count af)).map (af,·)

def slotEntry (s : NwiState) (x : AF × Nat) : NwiIfstate := s.entry x.1 x.2

def Precedes (s : NwiState) (x y : AF × Nat) : Prop :=
  (slotEntry s x).rank < (slotEntry s y).rank ∨
    (slotEntry s x).rank = (slotEntry s y).rank ∧ (x.1 = .inet ∨ y.1 = .inet6)

instance (s : NwiState) (x y : AF × Nat) : Decidable (Precedes s x y) := inferInstanceAs (Decidable (_ ∨ _))

def precedes (s : NwiState) (x y : AF × Nat) : Bool := Precedes s x y

private theorem precedes_iff : precedes s x y = true ↔ Precedes s x y := decide_eq_true_iff

theorem Precedes.trans {z : AF × Nat} (first : Precedes s x y) (later : Precedes s y z) : Precedes s x z := by
  rcases first with less | ⟨same,early⟩
  · refine .inl ?_
    rcases later with less' | ⟨same',_⟩
    · exact Nat.lt_trans less less'
    · exact same' ▸ less
  · rcases later with less' | ⟨same',early'⟩
    · exact .inl (same ▸ less')
    · refine .inr ⟨same.trans same',?_⟩
      rcases early with start | mid
      · exact .inl start
      · rcases early' with mid' | stop
        · rw [mid] at mid'
          cases mid'
        · exact .inr stop

theorem Precedes.total (s : NwiState) (x y : AF × Nat) : Precedes s x y ∨ Precedes s y x := by
  rcases Nat.lt_trichotomy (slotEntry s x).rank (slotEntry s y).rank with less | same | more
  · exact .inl (.inl less)
  · cases start : x.1 with
    | inet => exact .inl (.inr ⟨same,.inl start⟩)
    | inet6 => exact .inr (.inr ⟨same.symm,.inr start⟩)
  · exact .inr (.inl more)

def upcoming (s : NwiState) (v4 v6 : Nat) : List (AF × Nat) :=
  ((slots s .inet).drop v4).merge ((slots s .inet6).drop v6) (precedes s)

private theorem slot_none (s : NwiState) (af : AF) (i : Nat) (ended : s.count af ≤ i) :
    nwiStateGetIfstateWithIndex s af i = none ∧ (slots s af).drop i = [] :=
  ⟨if_pos ended,List.drop_eq_nil_of_le (by simpa [slots] using ended)⟩

private theorem slot_some (s : NwiState) (af : AF) {i : Nat} (used : i < s.count af) :
    nwiStateGetIfstateWithIndex s af i = some (s.addr af i) ∧
      (slots s af).drop i = (af,i) :: (slots s af).drop (i+1) := by
  refine ⟨if_neg (by omega),?_⟩
  rw [List.drop_eq_getElem_cons (by simpa [slots] using used)]
  simp [slots]

theorem precedes_families (i j : Nat) :
    precedes s (.inet,i) (.inet6,j) = true ↔ (s.entry .inet i).rank ≤ (s.entry .inet6 j).rank := by
  rw [precedes_iff,Nat.le_iff_lt_or_eq]
  simp [Precedes,slotEntry]

def addSlot (t : NwiState) (x : AF × Nat) : NwiState := nwiStateAddToIfList t (t.addr x.1 x.2)

theorem addSlot_list (t : NwiState) (x : AF × Nat) : ∃ list, addSlot t x = {t with ifList := list} := by
  unfold addSlot nwiStateAddToIfList
  split_ifs
  · exact ⟨t.ifList,rfl⟩
  · exact ⟨t.ifList,rfl⟩
  · exact ⟨t.ifList,rfl⟩
  · exact ⟨_,rfl⟩

/-- The loop adds the entries of both families in one order. -/
theorem setIfListLoop_slots (steps v4 v6 : Nat) (s : NwiState)
    (enough : (s.ipv4Count - v4) + (s.ipv6Count - v6) ≤ steps) :
    setIfListLoop steps v4 v6 s = (upcoming s v4 v6).foldl addSlot s := by
  induction steps generalizing v4 v6 s with
  | zero =>
    have left4 := (slot_none s .inet v4 (by simp only [count]; omega)).2
    have left6 := (slot_none s .inet6 v6 (by simp only [count]; omega)).2
    rw [upcoming,left4,left6,List.nil_merge]
    rfl
  | succ steps ih =>
    have onward (x : AF × Nat) (v4' v6' : Nat) (fewer : (s.ipv4Count - v4') + (s.ipv6Count - v6') ≤ steps) :
        setIfListLoop steps v4' v6' (addSlot s x) = (upcoming s v4' v6').foldl addSlot (addSlot s x) := by
      obtain ⟨list,same⟩ := addSlot_list s x
      rw [same]
      exact ih v4' v6' {s with ifList := list} fewer
    rw [setIfListLoop]
    by_cases used4 : v4 < s.ipv4Count
    · obtain ⟨there4,left4⟩ := slot_some s .inet used4
      rw [there4]
      by_cases used6 : v6 < s.ipv6Count
      · obtain ⟨there6,left6⟩ := slot_some s .inet6 used6
        rw [there6]
        by_cases first : (s.entry .inet v4).rank ≤ (s.entry .inet6 v6).rank
        · have next : upcoming s v4 v6 = (.inet,v4) :: upcoming s (v4+1) v6 := by
            rw [upcoming,left4,left6,List.cons_merge_cons,if_pos ((precedes_families v4 v6).mpr first),← left6]
            rfl
          rw [next]
          exact (if_pos first).trans (onward (.inet,v4) (v4+1) v6 (by omega))
        · have next : upcoming s v4 v6 = (.inet6,v6) :: upcoming s v4 (v6+1) := by
            rw [upcoming,left4,left6,List.cons_merge_cons,if_neg (mt (precedes_families v4 v6).mp first),← left4]
            rfl
          rw [next]
          exact (if_neg first).trans (onward (.inet6,v6) v4 (v6+1) (by omega))
      · obtain ⟨there6,left6⟩ := slot_none s .inet6 v6 (by simp only [count]; omega)
        have next : upcoming s v4 v6 = (.inet,v4) :: upcoming s (v4+1) v6 := by
          rw [upcoming,upcoming,left4,left6,List.merge_right,List.merge_right]
        rw [there6,next]
        exact onward (.inet,v4) (v4+1) v6 (by omega)
    · obtain ⟨there4,left4⟩ := slot_none s .inet v4 (by simp only [count]; omega)
      rw [there4]
      by_cases used6 : v6 < s.ipv6Count
      · obtain ⟨there6,left6⟩ := slot_some s .inet6 used6
        have next : upcoming s v4 v6 = (.inet6,v6) :: upcoming s v4 (v6+1) := by
          rw [upcoming,upcoming,left4,left6,List.nil_merge,List.nil_merge]
        rw [there6,next]
        exact onward (.inet6,v6) v4 (v6+1) (by omega)
      · obtain ⟨there6,left6⟩ := slot_none s .inet6 v6 (by simp only [count]; omega)
        rw [there6,upcoming,left4,left6,List.nil_merge]
        rfl

/-! ## The entries that are listed -/

def slotName (s : NwiState) (x : AF × Nat) : IfName := (slotEntry s x).ifname

def Shown (s : NwiState) (x : AF × Nat) : Prop :=
  x.2 < s.count x.1 ∧ (slotEntry s x).flags &&& NWI_IFSTATE_FLAGS_NOT_IN_IFLIST = 0

def candidate (s : NwiState) (x : AF × Nat) : Bool := (slotEntry s x).flags &&& NWI_IFSTATE_FLAGS_NOT_IN_IFLIST = 0

def place (s : NwiState) (x : AF × Nat) : Nat := s.addr x.1 x.2

/-- One more entry, where the interfaces `found` are listed. -/
theorem addSlot_eq (s : NwiState) (found : List (AF × Nat)) (x : AF × Nat) :
    addSlot {s with ifList := found.map (place s)} x =
      if candidate s x = false ∨ s.maxIfCount ≤ found.length ∨ slotName s x ∈ found.map (slotName s) then
        {s with ifList := found.map (place s)}
      else {s with ifList := (found ++ [x]).map (place s)} := by
  have known : ((found.map (place s)).any fun scan => (s.ifstateList scan).ifname = slotName s x) = true ↔
      slotName s x ∈ found.map (slotName s) := by
    rw [List.any_map,List.any_eq_true,List.mem_map]
    exact exists_congr fun y => and_congr_right fun _ => decide_eq_true_iff
  have out : candidate s x = false ↔ (slotEntry s x).flags &&& NWI_IFSTATE_FLAGS_NOT_IN_IFLIST ≠ 0 :=
    decide_eq_false_iff_not
  have size : found.length = (found.map (place s)).length := (List.length_map _).symm
  simp only [out,← known,List.map_append,size,ite_or]
  rfl

/-- While there is room, the list is that of the first candidates of each name. -/
theorem foldl_addSlot (s : NwiState) (xs : List (AF × Nat))
    (room : (firsts (slotName s) (xs.filter (candidate s))).length ≤ s.maxIfCount) :
    xs.foldl addSlot {s with ifList := []} =
      {s with ifList := (firsts (slotName s) (xs.filter (candidate s))).map (place s)} := by
  induction xs using List.reverseRecOn with
  | nil => rfl
  | append_singleton xs x ih =>
    rw [List.foldl_append,List.foldl_cons,List.foldl_nil]
    cases out : candidate s x with
    | false =>
      have same : (xs ++ [x]).filter (candidate s) = xs.filter (candidate s) := by simp [out]
      rw [same] at room ⊢
      rw [ih room,addSlot_eq,if_pos (.inl out)]
    | true =>
      have more : (xs ++ [x]).filter (candidate s) = xs.filter (candidate s) ++ [x] := by simp [out]
      rw [more,firsts_concat] at room ⊢
      by_cases known : slotName s x ∈ (firsts (slotName s) (xs.filter (candidate s))).map (slotName s)
      · rw [addFirst_known known] at room ⊢
        rw [ih room,addSlot_eq,if_pos (.inr (.inr known))]
      · rw [addFirst_fresh known] at room ⊢
        rw [List.length_append,List.length_singleton] at room
        rw [ih (by omega),addSlot_eq,if_neg]
        rintro (hidden | full | there)
        · exact Bool.false_ne_true (hidden.symm.trans out)
        · omega
        · exact known there

structure Best (s : NwiState) (name : IfName) (x : AF × Nat) : Prop where
  shown : Shown s x
  named : slotName s x = name
  least : ∀ y, Shown s y → slotName s y = name → Precedes s x y

/-- A list of indices that has the interfaces of both families once each, in the
order of their best ranks. -/
structure Merged (s : NwiState) (list : List Nat) : Prop where
  once : (list.map fun i => (s.ifstateList i).ifname).Nodup
  shown : ∀ name, name ∈ list.map (fun i => (s.ifstateList i).ifname) ↔ ∃ x, Shown s x ∧ slotName s x = name
  best : ∀ i ∈ list, ∃ x, i = s.addr x.1 x.2 ∧ Best s (s.ifstateList i).ifname x
  ascending : list.Pairwise fun i j => ∀ x y, Best s (s.ifstateList i).ifname x →
    Best s (s.ifstateList j).ifname y → Precedes s x y

private theorem mem_upcoming : x ∈ upcoming s 0 0 ↔ x.2 < s.count x.1 := by
  obtain ⟨af,i⟩ := x
  rw [upcoming,List.mem_merge,List.drop_zero,List.drop_zero]
  cases af <;> simp [slots]

private theorem upcoming_ordered (ascending : ∀ af i j, i < j → j < s.count af → (s.entry af i).rank ≤ (s.entry af j).rank) :
    (upcoming s 0 0).Pairwise (Precedes s) := by
  have family (af : AF) : (slots s af).Pairwise (precedes s · ·) := by
    rw [slots,List.pairwise_map]
    refine List.Pairwise.imp_of_mem ?_ List.pairwise_lt_range
    intro i j _ used less
    rw [precedes_iff]
    rcases Nat.lt_or_eq_of_le (ascending af i j less (List.mem_range.mp used)) with lower | same
    · exact .inl lower
    · refine .inr ⟨same,?_⟩
      cases af
      · exact .inl rfl
      · exact .inr rfl
  have merged := @List.pairwise_merge _ (precedes s)
  refine (merged ?_ ?_ _ _ (family .inet) (family .inet6)).imp precedes_iff.mp
  · intro x y z first later
    exact precedes_iff.mpr ((precedes_iff.mp first).trans (precedes_iff.mp later))
  · intro x y
    rw [Bool.or_eq_true,precedes_iff,precedes_iff]
    exact Precedes.total s x y

/-- After `nwi_state_finalize` the interface list has the interfaces of both
families in the order of their best ranks. -/
theorem finalize_merged (s : NwiState)
    (ascending : ∀ af i j, i < j → j < s.count af → (s.entry af i).rank ≤ (s.entry af j).rank)
    (few : ((slots s .inet ++ slots s .inet6).map (slotName s)).dedup.length ≤ s.maxIfCount) :
    ∃ list, nwiStateFinalize (some s) = some {s with ifList := list} ∧ Merged s list := by
  let found := firsts (slotName s) ((upcoming s 0 0).filter (candidate s))
  have keys (name : IfName) : name ∈ found.map (slotName s) ↔ ∃ x, Shown s x ∧ slotName s x = name := by
    rw [mem_firsts_keys,List.mem_map]
    refine exists_congr fun x => and_congr_left fun _ => ?_
    rw [List.mem_filter,mem_upcoming]
    exact and_congr_right fun _ => decide_eq_true_iff
  have distinct : (found.map (slotName s)).Nodup := firsts_nodup ..
  have room : found.length ≤ s.maxIfCount := by
    have subset : found.map (slotName s) ⊆ ((slots s .inet ++ slots s .inet6).map (slotName s)).dedup := by
      intro name member
      obtain ⟨⟨af,i⟩,⟨used,_⟩,named⟩ := (keys name).mp member
      rw [List.mem_dedup,List.mem_map]
      refine ⟨(af,i),?_,named⟩
      cases af <;> simp [slots] <;> exact used
    have fewer := (List.subperm_of_subset distinct subset).length_le
    rw [List.length_map] at fewer
    exact Nat.le_trans fewer few
  have best (x : AF × Nat) (member : x ∈ found) : Best s (slotName s x) x := by
    have candidates := (firsts_sublist (slotName s) ((upcoming s 0 0).filter (candidate s))).subset member
    obtain ⟨used,clear⟩ := List.mem_filter.mp candidates
    refine ⟨⟨mem_upcoming.mp used,of_decide_eq_true clear⟩,rfl,fun y shown same => ?_⟩
    have there : y ∈ (upcoming s 0 0).filter (candidate s) :=
      List.mem_filter.mpr ⟨mem_upcoming.mpr shown.1,decide_eq_true shown.2⟩
    rcases first_least ((upcoming_ordered ascending).filter _) member there same with equal | behind
    · subst equal
      exact (Precedes.total s y y).elim id id
    · exact behind
  refine ⟨found.map (place s),?_,?_,fun name => ?_,fun i member => ?_,?_⟩
  · have added := setIfListLoop_slots (s.ipv4Count + s.ipv6Count) 0 0 {s with ifList := []} (Nat.le_refl _)
    exact congrArg some (added.trans (foldl_addSlot s (upcoming s 0 0) room))
  · rw [List.map_map]
    exact distinct
  · rw [List.map_map]
    exact keys name
  · obtain ⟨x,there,rfl⟩ := List.mem_map.mp member
    exact ⟨x,rfl,best x there⟩
  · rw [List.pairwise_map]
    have ordered : found.Pairwise (Precedes s) :=
      ((upcoming_ordered ascending).filter _).sublist (firsts_sublist ..)
    refine ordered.imp_of_mem fun {x y} member member' before v w first second => ?_
    have earlier := first.least x (best x member).shown rfl
    exact earlier.trans (before.trans ((best y member').least w second.shown second.named))

/-- An interface that its IPv4 entry keeps out of the list and its IPv6 entry shows. -/
def halfShown : NwiState :=
  ⟨2,1,1,0,fun i =>
    if i = 0 then {zeroIfstate with ifname := ['e','n','0'],flags := NWI_IFSTATE_FLAGS_NOT_IN_IFLIST}
    else {zeroIfstate with ifname := ['e','n','0'],af := .inet6,rank := 7},[]⟩

theorem halfShown_merged : ∃ list, nwiStateFinalize (some halfShown) = some {halfShown with ifList := list} ∧
    Merged halfShown list := by
  apply finalize_merged halfShown
  · intro af i j less used
    cases af <;> exact absurd (Nat.lt_of_le_of_lt (Nat.zero_le i) less) (by simp [count,halfShown] at used; omega)
  · decide

end FreebsdLaunchd.Nwi
