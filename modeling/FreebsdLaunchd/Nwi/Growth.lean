import FreebsdLaunchd.Nwi.InterfaceList

/-! The interface list as a merge of both families by rank, and growing: the
families move apart, and each alias moves with them. -/
namespace FreebsdLaunchd.Nwi
open NwiState

variable {s s' : NwiState} {af af' : AF} {i j n : Nat}

/-! ## The interface list -/

def view (e : NwiIfstate) : NwiIfstate := {e with afAliasOffset := 0}

def views (s : NwiState) (af : AF) : List NwiIfstate := (List.range (s.count af)).map fun i => view (s.entry af i)

/-- One more entry for the list, unless it is kept out of it or its name is there. -/
def listed (names : List NwiIfstate) (e : NwiIfstate) : List NwiIfstate :=
  if e.flags &&& NWI_IFSTATE_FLAGS_NOT_IN_IFLIST ≠ 0 then names
  else if names.any fun scan => scan.ifname = e.ifname then names
  else names ++ [e]

def rankLe (e e' : NwiIfstate) : Bool := e.rank ≤ e'.rank

/-- The interfaces in the order of rank, each once, however many there are. -/
def interfaces (s : NwiState) : List NwiIfstate :=
  ((views s .inet).merge (views s .inet6) rankLe).foldl listed []

def interfaceList (s : NwiState) : List NwiIfstate := s.ifList.map fun i => view (s.ifstateList i)

private theorem addToIfList_list (s : NwiState) (i : Nat) :
    ∃ list, nwiStateAddToIfList s i = {s with ifList := list} ∧
      (s.ifList.length ≤ s.maxIfCount → list.length ≤ s.maxIfCount) := by
  unfold nwiStateAddToIfList
  split
  · exact ⟨s.ifList,rfl,id⟩
  · split
    · exact ⟨s.ifList,rfl,id⟩
    · split
      · exact ⟨s.ifList,rfl,id⟩
      · exact ⟨s.ifList ++ [i],rfl,fun _ => by simp; omega⟩

private theorem listed_prefix (names : List NwiIfstate) (e : NwiIfstate) : names <+: listed names e := by
  unfold listed
  split
  · exact List.prefix_rfl
  · split
    · exact List.prefix_rfl
    · exact List.prefix_append ..

/-- One step on the list that has no room is the step on the list with room, cut off. -/
theorem addToIfList_listed {names : List NwiIfstate} (shown : interfaceList s = names.take s.maxIfCount) (i : Nat) :
    interfaceList (nwiStateAddToIfList s i) = (listed names (view (s.ifstateList i))).take s.maxIfCount := by
  have flags_ : (view (s.ifstateList i)).flags = (s.ifstateList i).flags := rfl
  have lengths := congrArg List.length shown
  simp only [interfaceList,List.length_map,List.length_take] at lengths
  unfold nwiStateAddToIfList
  by_cases out : (s.ifstateList i).flags &&& NWI_IFSTATE_FLAGS_NOT_IN_IFLIST ≠ 0
  · rw [if_pos out,shown,listed,flags_,if_pos out]
  · rw [if_neg out]
    by_cases full : s.ifList.length ≥ s.maxIfCount
    · rw [if_pos full,shown]
      obtain ⟨more,longer⟩ := listed_prefix names (view (s.ifstateList i))
      rw [← longer,List.take_append_of_le_length (by omega)]
    · have whole : names.take s.maxIfCount = names := List.take_of_length_le (by omega)
      rw [whole] at shown
      have known : (s.ifList.any fun scan => (s.ifstateList scan).ifname = (s.ifstateList i).ifname) =
          names.any fun scan => scan.ifname = (view (s.ifstateList i)).ifname := by
        rw [← shown,interfaceList,List.any_map]
        rfl
      rw [if_neg full,listed,flags_,if_neg out,known]
      by_cases there : (names.any fun scan => scan.ifname = (view (s.ifstateList i)).ifname) = true
      · rw [if_pos there,if_pos there,whole,shown]
      · rw [if_neg there,if_neg there,List.take_of_length_le (by simp; omega),← shown]
        simp [interfaceList]

def remaining (s : NwiState) (v4 v6 : Nat) : List NwiIfstate :=
  ((views s .inet).drop v4).merge ((views s .inet6).drop v6) rankLe

private theorem views_slots (s : NwiState) (af : AF) : views s af = (slots s af).map fun x => view (slotEntry s x) := by
  rw [views,slots,List.map_map]
  rfl

private theorem remaining_upcoming (s : NwiState) (v4 v6 : Nat) :
    remaining s v4 v6 = (upcoming s v4 v6).map fun x => view (slotEntry s x) := by
  rw [upcoming,remaining,views_slots,views_slots,← List.map_drop,← List.map_drop]
  refine (List.map_merge fun x member y member' => ?_).symm
  obtain ⟨i,_,rfl⟩ := List.mem_map.mp (List.mem_of_mem_drop member)
  obtain ⟨j,_,rfl⟩ := List.mem_map.mp (List.mem_of_mem_drop member')
  rw [Bool.eq_iff_iff,precedes_families]
  exact decide_eq_true_iff.symm

private theorem foldl_addSlot_shown (xs : List (AF × Nat)) (s : NwiState) {names : List NwiIfstate}
    (shown : interfaceList s = names.take s.maxIfCount) :
    interfaceList (xs.foldl addSlot s) =
      ((xs.map fun x => view (slotEntry s x)).foldl listed names).take s.maxIfCount := by
  induction xs generalizing s names with
  | nil => exact shown
  | cons x xs ih =>
    have added : interfaceList (addSlot s x) = (listed names (view (slotEntry s x))).take s.maxIfCount :=
      addToIfList_listed shown (s.addr x.1 x.2)
    obtain ⟨list,same⟩ := addSlot_list s x
    rw [same] at added
    rw [List.foldl_cons,List.map_cons,List.foldl_cons,same]
    exact ih {s with ifList := list} added

/-- The loop goes through both families in the order of rank. -/
theorem setIfListLoop_shown (steps v4 v6 : Nat) (s : NwiState) {names : List NwiIfstate}
    (enough : (s.ipv4Count - v4) + (s.ipv6Count - v6) ≤ steps)
    (shown : interfaceList s = names.take s.maxIfCount) :
    interfaceList (setIfListLoop steps v4 v6 s) = ((remaining s v4 v6).foldl listed names).take s.maxIfCount := by
  rw [setIfListLoop_slots steps v4 v6 s enough,remaining_upcoming]
  exact foldl_addSlot_shown _ s shown

private theorem setIfListLoop_list (steps v4 v6 : Nat) (s : NwiState) (room : s.ifList.length ≤ s.maxIfCount) :
    ∃ list, setIfListLoop steps v4 v6 s = {s with ifList := list} ∧ list.length ≤ s.maxIfCount := by
  induction steps generalizing v4 v6 s with
  | zero => exact ⟨s.ifList,rfl,room⟩
  | succ steps ih =>
    have onward (i v4' v6' : Nat) : ∃ list,
        setIfListLoop steps v4' v6' (nwiStateAddToIfList s i) = {s with ifList := list} ∧
          list.length ≤ s.maxIfCount := by
      obtain ⟨list,same,fits⟩ := addToIfList_list s i
      rw [same]
      exact ih v4' v6' {s with ifList := list} (fits room)
    rw [setIfListLoop]
    split
    · exact ⟨s.ifList,rfl,room⟩
    · exact onward _ _ _
    · exact onward _ _ _
    · split
      · exact onward _ _ _
      · exact onward _ _ _

/-- `nwi_state_set_if_list` touches the interface list alone. -/
theorem setIfList_list (s : NwiState) : ∃ list, nwiStateSetIfList s = {s with ifList := list} ∧
    list.length ≤ s.maxIfCount :=
  setIfListLoop_list _ 0 0 {s with ifList := []} (Nat.zero_le _)

theorem setIfList_shown (s : NwiState) : interfaceList (nwiStateSetIfList s) = (interfaces s).take s.maxIfCount :=
  setIfListLoop_shown (s.ipv4Count + s.ipv6Count) 0 0 {s with ifList := []} (Nat.le_refl _)
    (by simp [interfaceList])

/-! ## Growing -/

def copied (s : NwiState) (max : Nat) : NwiState :=
  ⟨max,s.ipv4Count,s.ipv6Count,0,
    bcopy s.ifstateList 0 (bcopy s.ifstateList s.maxIfCount (newState max).ifstateList max s.ipv6Count) 0 s.ipv4Count,[]⟩

private theorem new_grown {max : Nat} (more : s.maxIfCount < max) :
    nwiStateNew (some s) max = some (nwiStateSetIfList (nwiStateFixAfAliases (copied s max) s.maxIfCount)) :=
  if_neg (by omega)

private theorem copied_count (max : Nat) (af : AF) : (copied s max).count af = s.count af := by cases af <;> rfl

private theorem copied_entry (represented : Represented s) {max : Nat} (more : s.maxIfCount < max)
    (used : i < s.count af) :
    (copied s max).entry af i = s.entry af i := by
  cases af with
  | inet =>
    have here : 0 ≤ 0 + i ∧ 0 + i < 0 + s.ipv4Count := ⟨Nat.zero_le _,Nat.add_lt_add_left used 0⟩
    refine (if_pos here).trans ?_
    simp [entry,addr,base]
  | inet6 =>
    have room : s.ipv4Count ≤ s.maxIfCount := represented.room .inet
    have apart : ¬ (0 ≤ max + i ∧ max + i < 0 + s.ipv4Count) := by omega
    have here : max ≤ max + i ∧ max + i < max + s.ipv6Count := ⟨by omega,Nat.add_lt_add_left used max⟩
    refine ((if_neg apart).trans (if_pos here)).trans ?_
    show s.ifstateList (s.maxIfCount + (max + i - max)) = s.ifstateList (s.maxIfCount + i)
    rw [Nat.add_sub_cancel_left]

def modifyAll (f : NwiIfstate → NwiIfstate) (af : AF) (n : Nat) (s : NwiState) : NwiState :=
  (List.range n).foldl (fun s i => s.modify (s.base af + i) f) s

private theorem modifyAll_succ (f : NwiIfstate → NwiIfstate) (af : AF) (n : Nat) (s : NwiState) :
    modifyAll f af (n+1) s = (modifyAll f af n s).modify ((modifyAll f af n s).base af + n) f := by
  simp [modifyAll,List.range_succ]

@[simp] theorem modifyAll_max (f : NwiIfstate → NwiIfstate) (af : AF) (n : Nat) (s : NwiState) :
    (modifyAll f af n s).maxIfCount = s.maxIfCount := by
  induction n with
  | zero => rfl
  | succ n ih => rw [modifyAll_succ,modify_max,ih]

@[simp] theorem modifyAll_count (f : NwiIfstate → NwiIfstate) (af af' : AF) (n : Nat) (s : NwiState) :
    (modifyAll f af n s).count af' = s.count af' := by
  induction n with
  | zero => rfl
  | succ n ih => rw [modifyAll_succ,modify_count,ih]

private theorem modifyAll_entry (f : NwiIfstate → NwiIfstate) (fits : n ≤ s.maxIfCount) (inside : j < s.maxIfCount) :
    (modifyAll f af n s).entry af' j = if af' = af ∧ j < n then f (s.entry af j) else s.entry af' j := by
  induction n with
  | zero => simp [modifyAll]
  | succ n ih =>
    have before := ih (by omega)
    have place : (modifyAll f af n s).base af + n = (modifyAll f af n s).addr af n := rfl
    rw [modifyAll_succ,modify_entry place (by rw [modifyAll_max]; omega) (by rw [modifyAll_max]; exact inside)]
    by_cases here : af' = af ∧ j = n
    · obtain ⟨rfl,rfl⟩ := here
      rw [if_pos ⟨rfl,rfl⟩,if_pos ⟨rfl,Nat.lt_succ_self _⟩,before,if_neg (fun less => Nat.lt_irrefl _ less.2)]
    · rw [if_neg here,before]
      by_cases earlier : af' = af ∧ j < n
      · rw [if_pos earlier,if_pos ⟨earlier.1,by omega⟩]
      · rw [if_neg earlier,if_neg]
        rintro ⟨same,less⟩
        rcases Nat.lt_succ_iff_lt_or_eq.mp less with less | equal
        · exact earlier ⟨same,less⟩
        · exact here ⟨same,equal⟩

def shift (distance : Int) : AF → Int
  | .inet => distance
  | .inet6 => -distance

/-- `g` holds what `s` holds, in an array that may be larger. -/
structure Moved (s g : NwiState) : Prop where
  max : s.maxIfCount ≤ g.maxIfCount
  count : ∀ af, g.count af = s.count af
  entry : ∀ af i, i < s.count af →
    g.entry af i = fixOffset (shift (g.maxIfCount - s.maxIfCount) af) (s.entry af i)

private theorem fixAfAliases_eq (s : NwiState) {old : Nat} (fewer : old ≤ s.maxIfCount) :
    nwiStateFixAfAliases s old =
      modifyAll (fixOffset (-((s.maxIfCount : Int) - old))) .inet6
        (modifyAll (fixOffset ((s.maxIfCount : Int) - old)) .inet s.ipv4Count s).ipv6Count
        (modifyAll (fixOffset ((s.maxIfCount : Int) - old)) .inet s.ipv4Count s) :=
  if_neg (by omega)

private theorem fixed_moved (represented : Represented s) {max : Nat} (more : s.maxIfCount < max) :
    Moved s (nwiStateFixAfAliases (copied s max) s.maxIfCount) := by
  have larger : (copied s max).maxIfCount = max := rfl
  rw [fixAfAliases_eq _ (Nat.le_of_lt more)]
  refine ⟨?_,fun af => ?_,fun af i used => ?_⟩
  · rw [modifyAll_max,modifyAll_max]
    exact Nat.le_of_lt more
  · rw [modifyAll_count,modifyAll_count,copied_count]
  · have room4 : s.ipv4Count ≤ s.maxIfCount := represented.room .inet
    have room6 : s.ipv6Count ≤ s.maxIfCount := represented.room .inet6
    have inside := represented.inside used
    have count6 : (modifyAll (fixOffset (((copied s max).maxIfCount : Int) - s.maxIfCount)) .inet
        (copied s max).ipv4Count (copied s max)).ipv6Count = s.ipv6Count :=
      modifyAll_count _ .inet .inet6 _ _
    rw [count6,modifyAll_entry _ (by rw [modifyAll_max]; omega) (by rw [modifyAll_max]; omega),
      modifyAll_entry _ (by rw [larger]; exact Nat.le_trans room4 (Nat.le_of_lt more)) (by omega),
      modifyAll_entry _ (by rw [larger]; exact Nat.le_trans room4 (Nat.le_of_lt more)) (by omega),
      modifyAll_max,modifyAll_max]
    cases af with
    | inet => simp [copied_entry represented more used,shift,larger,show i < (copied s max).ipv4Count from used]
    | inet6 => simp [copied_entry represented more used,shift,larger,show i < s.ipv6Count from used]

private theorem fixOffset_fields (distance : Int) (e : NwiIfstate) :
    (fixOffset distance e).ifname = e.ifname ∧ (fixOffset distance e).af = e.af ∧
      (fixOffset distance e).flags = e.flags ∧ view (fixOffset distance e) = view e := by
  unfold fixOffset
  split <;> exact ⟨rfl,rfl,rfl,rfl⟩

theorem Moved.view {g : NwiState} (moved : Moved s g) (used : i < s.count af) :
    Nwi.view (g.entry af i) = Nwi.view (s.entry af i) := by
  rw [moved.entry af i used]
  exact (fixOffset_fields _ _).2.2.2

theorem Moved.name {g : NwiState} (moved : Moved s g) (used : i < s.count af) :
    (g.entry af i).ifname = (s.entry af i).ifname := by
  rw [moved.entry af i used]
  exact (fixOffset_fields _ _).1

theorem Moved.views {g : NwiState} (moved : Moved s g) (af : AF) : Nwi.views g af = Nwi.views s af := by
  rw [Nwi.views,Nwi.views,moved.count]
  exact List.map_congr_left fun i member => moved.view (List.mem_range.mp member)

theorem Moved.interfaces {g : NwiState} (moved : Moved s g) : Nwi.interfaces g = Nwi.interfaces s := by
  rw [Nwi.interfaces,Nwi.interfaces,moved.views,moved.views]

/-- The offsets lead to the same entries once the families have moved apart. -/
theorem Moved.represented {g : NwiState} (moved : Moved s g) (represented : Represented s)
    (listRoom : g.ifList.length ≤ g.maxIfCount) : Represented g := by
  refine ⟨fun af => ?_,listRoom,fun af i used => ?_,fun af i j used used' same => ?_,fun af i used => ?_,
    fun af i j used used' same => ?_,fun af i used alone => ?_⟩
  · rw [moved.count]
    exact Nat.le_trans (represented.room af) moved.max
  · rw [moved.count] at used
    rw [moved.entry af i used,(fixOffset_fields _ _).2.1]
    exact represented.family af i used
  · rw [moved.count] at used used'
    rw [moved.name used,moved.name used'] at same
    exact represented.unique af i j used used' same
  · rw [moved.count] at used ⊢
    rw [isLast,moved.entry af i used,(fixOffset_fields _ _).2.2.1]
    exact represented.last af i used
  · rw [moved.count] at used used'
    rw [moved.name used,moved.name used'] at same
    have offset := represented.aliased af i j used used' same
    have present := addr_ne_other s af i j (represented.inside used) (represented.inside used')
    rw [moved.entry af i used,fixOffset,offset,if_pos present]
    cases af <;> simp [addr,base,nwiOtherAf,shift] <;> omega
  · rw [moved.count] at used
    have none_ := represented.alone af i used fun j used' same => by
      refine alone j (by rw [moved.count]; exact used') ?_
      rw [moved.name used,moved.name used']
      exact same
    rw [moved.entry af i used,fixOffset,none_,if_neg (fun absurd_ => absurd_ rfl)]
    exact none_

theorem Moved.withList {g : NwiState} (moved : Moved s g) (list : List Nat) : Moved s {g with ifList := list} := by
  have count_ (af : AF) : ({g with ifList := list} : NwiState).count af = g.count af := by cases af <;> rfl
  have entry_ (af : AF) (i : Nat) : ({g with ifList := list} : NwiState).entry af i = g.entry af i := by
    cases af <;> rfl
  exact ⟨moved.max,fun af => (count_ af).trans (moved.count af),fun af i used =>
    (entry_ af i).trans (moved.entry af i used)⟩

theorem Represented.withList (represented : Represented s) {list : List Nat} (room : list.length ≤ s.maxIfCount) :
    Represented {s with ifList := list} :=
  represented.congr rfl (fun af => by cases af <;> rfl) room fun af i _ => by cases af <;> exact .refl _

/-- A growing call gives an array with the same entries and the interface list
computed from them. -/
theorem grown_moved (represented : Represented s) {max : Nat} (more : s.maxIfCount < max) :
    ∃ g, nwiStateNew (some s) max = some g ∧ g.maxIfCount = max ∧ Moved s g ∧ Represented g ∧
      interfaceList g = (interfaces s).take max := by
  have moved := fixed_moved represented more
  have larger : (nwiStateFixAfAliases (copied s max) s.maxIfCount).maxIfCount = max := by
    rw [fixAfAliases_eq _ (Nat.le_of_lt more),modifyAll_max,modifyAll_max]
    rfl
  have shown := setIfList_shown (nwiStateFixAfAliases (copied s max) s.maxIfCount)
  obtain ⟨list,same,room⟩ := setIfList_list (nwiStateFixAfAliases (copied s max) s.maxIfCount)
  rw [moved.interfaces,larger] at shown
  refine ⟨_,new_grown more,?_⟩
  rw [same] at shown ⊢
  exact ⟨larger,moved.withList list,(moved.withList list).represented represented room,shown⟩

end FreebsdLaunchd.Nwi
