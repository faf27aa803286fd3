import FreebsdLaunchd.Nwi.Representation
import Mathlib.Tactic.IntervalCases

/-! The difference of two states: a state of its own whose elements carry in
their flags what became of the interface in their family. -/
namespace FreebsdLaunchd.Nwi
open NwiState

def NWI_IFSTATE_DIFF_UNCHANGED : BitVec 8 := 0
def NWI_IFSTATE_DIFF_ADDED : BitVec 8 := 1
def NWI_IFSTATE_DIFF_REMOVED : BitVec 8 := 2
def NWI_IFSTATE_DIFF_CHANGED : BitVec 8 := 3
def NWI_IFSTATE_DIFF_RANK_UP : BitVec 8 := 4
def NWI_IFSTATE_DIFF_RANK_DOWN : BitVec 8 := 5

def nwiIfstateGetDiff (ifstate : NwiIfstate) : BitVec 8 :=
  ((ifstate.flags &&& NWI_IFSTATE_FLAGS_DIFF_MASK) >>> 8).setWidth 8

def nwiIfstateSetDiff (diff : BitVec 8) (ifstate : NwiIfstate) : NwiIfstate :=
  let ifstate := {ifstate with flags := ifstate.flags &&& ~~~NWI_IFSTATE_FLAGS_DIFF_MASK}
  if diff ≠ NWI_IFSTATE_DIFF_UNCHANGED then
    {ifstate with flags := ifstate.flags ||| ((diff.setWidth 64 <<< 8) &&& NWI_IFSTATE_FLAGS_DIFF_MASK)}
  else ifstate

def nwiIfstateHasChanged (ifstate1 ifstate2 : NwiIfstate) : Bool :=
  if ifstate1.flags &&& NWI_IFSTATE_FLAGS_MASK ≠ ifstate2.flags &&& NWI_IFSTATE_FLAGS_MASK then true
  else match ifstate1.af with
    | .inet => ifstate1.iaddr ≠ ifstate2.iaddr
    | .inet6 => ifstate1.iaddr6 ≠ ifstate2.iaddr6

def ifstateWithName (state : Option NwiState) (af : AF) (name : IfName) : Option NwiIfstate :=
  state.bind fun s => (nwiStateGetIfstateWithName (some s) af name).map s.ifstateList

/-- The copy is appended without a look at the room there is. -/
def nwiStateDiffAppend (state : NwiState) (scan : NwiIfstate) : NwiState × Nat :=
  let last := state.base scan.af + state.count scan.af
  ((state.write last scan).setCount scan.af (state.count scan.af + 1),last)

def nwiStateDiffAddChange (oldIfstate : Option NwiState) (diff : NwiState) (ifstate : NwiIfstate) : NwiState :=
  let existing := ifstateWithName oldIfstate ifstate.af ifstate.ifname
  let (diff,newIfstate) := nwiStateDiffAppend diff ifstate
  match existing with
  | some existing =>
    if nwiIfstateHasChanged existing (diff.ifstateList newIfstate) then
      diff.modify newIfstate (nwiIfstateSetDiff NWI_IFSTATE_DIFF_CHANGED)
    else if existing.rank < (diff.ifstateList newIfstate).rank then
      diff.modify newIfstate (nwiIfstateSetDiff NWI_IFSTATE_DIFF_RANK_DOWN)
    else if existing.rank > (diff.ifstateList newIfstate).rank then
      diff.modify newIfstate (nwiIfstateSetDiff NWI_IFSTATE_DIFF_RANK_UP)
    else diff.modify newIfstate (nwiIfstateSetDiff NWI_IFSTATE_DIFF_UNCHANGED)
  | none => diff.modify newIfstate (nwiIfstateSetDiff NWI_IFSTATE_DIFF_ADDED)

def nwiStateDiffRemove (state : NwiState) (ifstate : NwiIfstate) : NwiState :=
  if (nwiStateGetIfstateWithName (some state) ifstate.af ifstate.ifname).isSome then state
  else
    let (state,removedIfstate) := nwiStateDiffAppend state ifstate
    state.modify removedIfstate (nwiIfstateSetDiff NWI_IFSTATE_DIFF_REMOVED)

def forIfstates (state : NwiState) (af : AF) (f : NwiState → NwiIfstate → NwiState) (diff : NwiState) : NwiState :=
  (List.range (state.count af)).foldl (fun diff i => f diff (state.ifstateList (state.base af + i))) diff

def nwiStateDiffPopulate (diff : NwiState) (oldIfstate newIfstate : Option NwiState) : NwiState :=
  let diff := match newIfstate with
    -- check for adds/changes
    | some newIfstate =>
      forIfstates newIfstate .inet6 (nwiStateDiffAddChange oldIfstate)
        (forIfstates newIfstate .inet (nwiStateDiffAddChange oldIfstate) diff)
    | none => diff
  match oldIfstate with
  -- check for removes
  | some oldIfstate =>
    forIfstates oldIfstate .inet6 nwiStateDiffRemove (forIfstates oldIfstate .inet nwiStateDiffRemove diff)
  | none => diff

def nwiStateMaxAfCount (state : NwiState) : Nat :=
  if state.ipv4Count ≥ state.ipv6Count then state.ipv4Count else state.ipv6Count

def nwiStateDiff (oldIfstate newIfstate : Option NwiState) : Option NwiState :=
  -- worst case assumes that the old and new share none of the same interfaces
  let totalCount := (oldIfstate.map nwiStateMaxAfCount).getD 0 + (newIfstate.map nwiStateMaxAfCount).getD 0
  if totalCount = 0 then none
  else (nwiStateNew none totalCount).map fun diff => nwiStateDiffPopulate diff oldIfstate newIfstate

variable {s d d' : NwiState} {old state : Option NwiState} {af af' : AF} {e e' : NwiIfstate} {i j n : Nat}
  {name : IfName}

/-! ## The bits of a difference -/

theorem getDiff_setDiff (e : NwiIfstate) (diff : BitVec 8) :
    nwiIfstateGetDiff (nwiIfstateSetDiff diff e) = diff &&& 0xf := by
  unfold nwiIfstateSetDiff nwiIfstateGetDiff
  split
  · apply BitVec.eq_of_getLsbD_eq
    intro i inside
    interval_cases i <;> simp [NWI_IFSTATE_FLAGS_DIFF_MASK]
  · rename_i unchanged
    rw [not_not.mp unchanged]
    apply BitVec.eq_of_getLsbD_eq
    intro i inside
    interval_cases i <;> simp [NWI_IFSTATE_FLAGS_DIFF_MASK,NWI_IFSTATE_DIFF_UNCHANGED]

theorem setDiff_name (diff : BitVec 8) (e : NwiIfstate) : (nwiIfstateSetDiff diff e).ifname = e.ifname := by
  unfold nwiIfstateSetDiff
  split <;> rfl

/-! ## Entries by name -/

def members (state : Option NwiState) (af : AF) : List NwiIfstate :=
  match state with
  | none => []
  | some s => (List.range (s.count af)).map (s.entry af)

theorem mem_members : e ∈ members (some s) af ↔ ∃ i < s.count af, s.entry af i = e := by
  simp [members]

theorem members_length (s : NwiState) (af : AF) : (members (some s) af).length = s.count af := by simp [members]

theorem withName_members (state : Option NwiState) (af : AF) (name : IfName) :
    ifstateWithName state af name = (members state af).find? fun e => e.ifname = name := by
  cases state with
  | none => rfl
  | some s =>
    rw [members,List.find?_map,ifstateWithName,Option.bind_some,getWithName,Option.map_map]
    rfl

theorem withName_some (found : ifstateWithName state af name = some e) : e ∈ members state af ∧ e.ifname = name := by
  rw [withName_members] at found
  exact ⟨List.mem_of_find?_eq_some found,by simpa using List.find?_some found⟩

theorem withName_none : ifstateWithName state af name = none ↔ ∀ e ∈ members state af, e.ifname ≠ name := by
  rw [withName_members]
  simp

/-! ## Appending -/

def marked (d : NwiState) (e : NwiIfstate) (f : NwiIfstate → NwiIfstate) : NwiState :=
  (nwiStateDiffAppend d e).1.modify (nwiStateDiffAppend d e).2 f

theorem marked_max (d : NwiState) (e : NwiIfstate) (f : NwiIfstate → NwiIfstate) :
    (marked d e f).maxIfCount = d.maxIfCount := by
  simp [marked,nwiStateDiffAppend]

private theorem marked_count (d : NwiState) (e : NwiIfstate) (f : NwiIfstate → NwiIfstate) (af : AF) :
    (marked d e f).count af = if af = e.af then d.count e.af + 1 else d.count af := by
  simp [marked,nwiStateDiffAppend]

private theorem marked_entry (f : NwiIfstate → NwiIfstate) (room : d.count e.af < d.maxIfCount)
    (inside : i < d.maxIfCount) :
    (marked d e f).entry af i = if af = e.af ∧ i = d.count e.af then f e else d.entry af i := by
  have place : (nwiStateDiffAppend d e).2 = (nwiStateDiffAppend d e).1.addr e.af (d.count e.af) := by
    simp [nwiStateDiffAppend,addr]
  have larger : (nwiStateDiffAppend d e).1.maxIfCount = d.maxIfCount := by simp [nwiStateDiffAppend]
  have copied (af : AF) (i : Nat) (inside : i < d.maxIfCount) : (nwiStateDiffAppend d e).1.entry af i =
      if af = e.af ∧ i = d.count e.af then e else d.entry af i := by
    rw [nwiStateDiffAppend,setCount_entry]
    exact write_entry rfl room inside e
  have new := copied e.af (d.count e.af) room
  rw [if_pos ⟨rfl,rfl⟩] at new
  rw [marked,modify_entry place (by omega) (by omega),new,copied _ _ inside]
  split <;> rfl

theorem marked_members (f : NwiIfstate → NwiIfstate) (room : d.count e.af < d.maxIfCount)
    (fits : d.count af ≤ d.maxIfCount) :
    members (some (marked d e f)) af =
      if af = e.af then members (some d) af ++ [f e] else members (some d) af := by
  have before (i : Nat) (used : i < d.count af) : (marked d e f).entry af i = d.entry af i := by
    rw [marked_entry f room (by omega),if_neg]
    rintro ⟨rfl,equal⟩
    exact Nat.ne_of_lt used equal
  have same : (List.range (d.count af)).map ((marked d e f).entry af) = (List.range (d.count af)).map (d.entry af) :=
    List.map_congr_left fun i member => before i (List.mem_range.mp member)
  rw [members,members,marked_count]
  by_cases here : af = e.af
  · subst here
    rw [if_pos rfl,if_pos rfl,List.range_succ,List.map_append,same]
    simp [marked_entry f room room]
  · rw [if_neg here,if_neg here,same]

/-! ## Families joining a difference -/

/-- From `d` to `d'` the elements of one family have joined, those marked whose
name was not there. -/
structure Joins (af : AF) (mark : NwiIfstate → NwiIfstate) (es : List NwiIfstate) (d d' : NwiState) : Prop where
  max : d'.maxIfCount = d.maxIfCount
  count : d'.count af ≤ d.count af + es.length
  other : d'.count (nwiOtherAf af) = d.count (nwiOtherAf af)
  found : ∀ name, ifstateWithName (some d') af name =
    (ifstateWithName (some d) af name).or ((es.find? fun e => e.ifname = name).map mark)
  rest : ∀ name, ifstateWithName (some d') (nwiOtherAf af) name = ifstateWithName (some d) (nwiOtherAf af) name

variable {mark : NwiIfstate → NwiIfstate} {es : List NwiIfstate}

theorem Joins.nil : Joins af mark [] d d := ⟨rfl,Nat.le_refl _,rfl,fun _ => by simp,fun _ => rfl⟩

theorem Joins.cons {d₂ : NwiState} (first : Joins af mark [e] d d') (later : Joins af mark es d' d₂) :
    Joins af mark (e::es) d d₂ := by
  refine ⟨later.max.trans first.max,?_,later.other.trans first.other,fun name => ?_,fun name =>
    (later.rest name).trans (first.rest name)⟩
  · have bound := later.count
    have bound' := first.count
    simp only [List.length_cons,List.length_nil] at bound' ⊢
    omega
  · rw [later.found,first.found,Option.or_assoc,show e::es = [e] ++ es from rfl,List.find?_append,Option.map_or]

private theorem foldl_joins {f : NwiState → NwiIfstate → NwiState}
    (step : ∀ d e, e.af = af → d.count af < d.maxIfCount → d.count (nwiOtherAf af) ≤ d.maxIfCount →
      Joins af mark [e] d (f d e))
    (family : ∀ e ∈ es, e.af = af) (room : d.count af + es.length ≤ d.maxIfCount)
    (fits : d.count (nwiOtherAf af) ≤ d.maxIfCount) : Joins af mark es d (es.foldl f d) := by
  induction es generalizing d with
  | nil => exact .nil
  | cons e es ih =>
    rw [List.length_cons] at room
    have first := step d e (family e (.head _)) (by omega) fits
    have count_ := first.count
    rw [List.length_singleton] at count_
    refine first.cons (ih (fun e member => family e (.tail _ member)) ?_ ?_)
    · rw [first.max]
      omega
    · rw [first.max,first.other]
      exact fits

private theorem marked_joins (keeps : ∀ e, (mark e).ifname = e.ifname) (family : e.af = af)
    (room : d.count af < d.maxIfCount)
    (fits : d.count (nwiOtherAf af) ≤ d.maxIfCount) : Joins af mark [e] d (marked d e mark) := by
  subst family
  refine ⟨marked_max d e mark,?_,?_,fun name => ?_,fun name => ?_⟩
  · rw [marked_count,if_pos rfl]
    exact Nat.le_refl _
  · rw [marked_count,if_neg (otherAf_ne e.af)]
  · rw [withName_members,withName_members,marked_members mark room (Nat.le_of_lt room),if_pos rfl,List.find?_append]
    by_cases same : e.ifname = name
    · simp [same,keeps]
    · simp [same,keeps]
  · rw [withName_members,withName_members,marked_members mark room fits,if_neg (otherAf_ne e.af)]

/-! ## What the difference says of an interface -/

def change (old : Option NwiState) (e : NwiIfstate) : BitVec 8 :=
  match ifstateWithName old e.af e.ifname with
  | some existing =>
    if nwiIfstateHasChanged existing e then NWI_IFSTATE_DIFF_CHANGED
    else if existing.rank < e.rank then NWI_IFSTATE_DIFF_RANK_DOWN
    else if existing.rank > e.rank then NWI_IFSTATE_DIFF_RANK_UP
    else NWI_IFSTATE_DIFF_UNCHANGED
  | none => NWI_IFSTATE_DIFF_ADDED

def markChange (old : Option NwiState) (e : NwiIfstate) : NwiIfstate := nwiIfstateSetDiff (change old e) e

theorem addChange_marked (old : Option NwiState) (d : NwiState) (e : NwiIfstate) :
    nwiStateDiffAddChange old d e = marked d e (nwiIfstateSetDiff (change old e)) := by
  have copy : (nwiStateDiffAppend d e).1.ifstateList (nwiStateDiffAppend d e).2 = e := by
    simp [nwiStateDiffAppend,NwiState.write]
  unfold nwiStateDiffAddChange change marked
  cases ifstateWithName old e.af e.ifname with
  | none => rfl
  | some existing =>
    simp only [copy]
    split_ifs <;> rfl

private theorem addChange_joins (old : Option NwiState) (d : NwiState) (e : NwiIfstate) (family : e.af = af)
    (room : d.count af < d.maxIfCount) (fits : d.count (nwiOtherAf af) ≤ d.maxIfCount) :
    Joins af (markChange old) [e] d (nwiStateDiffAddChange old d e) := by
  have joins : Joins af (nwiIfstateSetDiff (change old e)) [e] d (marked d e (nwiIfstateSetDiff (change old e))) :=
    marked_joins (setDiff_name _) family room fits
  rw [addChange_marked]
  refine ⟨joins.max,joins.count,joins.other,fun name => ?_,joins.rest⟩
  rw [joins.found]
  by_cases same : e.ifname = name
  · simp [same,markChange]
  · simp [same]

private theorem remove_joins (d : NwiState) (e : NwiIfstate) (family : e.af = af) (room : d.count af < d.maxIfCount)
    (fits : d.count (nwiOtherAf af) ≤ d.maxIfCount) :
    Joins af (nwiIfstateSetDiff NWI_IFSTATE_DIFF_REMOVED) [e] d (nwiStateDiffRemove d e) := by
  unfold nwiStateDiffRemove
  by_cases there : (nwiStateGetIfstateWithName (some d) e.af e.ifname).isSome = true
  · rw [if_pos there]
    refine ⟨rfl,Nat.le_add_right ..,rfl,fun name => ?_,fun _ => rfl⟩
    by_cases same : e.ifname = name
    · obtain ⟨i,found⟩ := Option.isSome_iff_exists.mp there
      rw [← same,← family,ifstateWithName,Option.bind_some,found]
      rfl
    · simp [same]
  · rw [if_neg there]
    exact marked_joins (setDiff_name _) family room fits

private theorem forIfstates_members (s : NwiState) (af : AF) (f : NwiState → NwiIfstate → NwiState) (d : NwiState) :
    forIfstates s af f d = (members (some s) af).foldl f d := by
  rw [members,List.foldl_map]
  rfl

theorem populate_members (d : NwiState) (old new : Option NwiState) : nwiStateDiffPopulate d old new =
    (members old .inet6).foldl nwiStateDiffRemove ((members old .inet).foldl nwiStateDiffRemove
      ((members new .inet6).foldl (nwiStateDiffAddChange old)
        ((members new .inet).foldl (nwiStateDiffAddChange old) d))) := by
  cases old <;> cases new <;> simp only [nwiStateDiffPopulate,forIfstates_members] <;> rfl

def inFamily (state : Option NwiState) : Prop := ∀ af, ∀ e ∈ members state af, e.af = af

theorem Represented.inFamily (represented : ∀ s ∈ state, Represented s) : inFamily state := by
  intro af e member
  cases state with
  | none => cases member
  | some s =>
    obtain ⟨i,used,rfl⟩ := mem_members.mp member
    exact (represented s rfl).family af i used

/-- Both families of a state join, where there is room in both. -/
theorem both_join {f : NwiState → NwiIfstate → NwiState}
    (step : ∀ af d e, e.af = af → d.count af < d.maxIfCount → d.count (nwiOtherAf af) ≤ d.maxIfCount →
      Joins af mark [e] d (f d e))
    (family : inFamily state) (room : ∀ af, d.count af + (members state af).length ≤ d.maxIfCount)
    (joined : d' = (members state .inet6).foldl f ((members state .inet).foldl f d)) :
    d'.maxIfCount = d.maxIfCount ∧ (∀ af, d'.count af ≤ d.count af + (members state af).length) ∧
      ∀ af name, ifstateWithName (some d') af name =
        (ifstateWithName (some d) af name).or ((ifstateWithName state af name).map mark) := by
  subst joined
  have room4 := room .inet
  have room6 := room .inet6
  obtain ⟨max4,count4,other4,found4,rest4⟩ := foldl_joins (step .inet) (family .inet) room4
    (Nat.le_of_add_right_le room6)
  have kept6 : ((members state .inet).foldl f d).count .inet6 = d.count .inet6 := other4
  obtain ⟨max6,count6,other6,found6,rest6⟩ := foldl_joins (step .inet6) (family .inet6)
    (d := (members state .inet).foldl f d) (by rw [max4,kept6]; exact room6)
    (by rw [max4]; exact Nat.le_trans count4 room4)
  refine ⟨max6.trans max4,fun af => ?_,fun af name => ?_⟩
  · cases af with
    | inet => exact (Nat.le_of_eq other6).trans count4
    | inet6 => exact kept6 ▸ count6
  · rw [withName_members state]
    cases af with
    | inet => exact (rest6 name).trans (found4 name)
    | inet6 => exact (found6 name).trans (congrArg (Option.or · _) (rest4 name))

def expected (old new : Option NwiState) (af : AF) (name : IfName) : Option NwiIfstate :=
  ((ifstateWithName new af name).map (markChange old)).or
    ((ifstateWithName old af name).map (nwiIfstateSetDiff NWI_IFSTATE_DIFF_REMOVED))

/-- Where there is room for both states' elements, each interface joins the
difference under what became of it. -/
theorem populate_found (old new : Option NwiState) (oldFamily : inFamily old) (newFamily : inFamily new) {max : Nat}
    (room : ∀ af, (members old af).length + (members new af).length ≤ max) (af : AF) (name : IfName) :
    ifstateWithName (some (nwiStateDiffPopulate (newState max) old new)) af name = expected old new af name := by
  have empty (af : AF) : (newState max).count af = 0 := by cases af <;> rfl
  have nothing : ifstateWithName (some (newState max)) af name = none := by
    rw [withName_none,members,empty]
    exact fun _ member => nomatch member
  obtain ⟨max1,count1,found1⟩ := both_join (d := newState max) (fun af d e => addChange_joins old d e) newFamily
    (fun af => by rw [empty]; exact (Nat.zero_add _).trans_le (Nat.le_of_add_left_le (room af))) rfl
  obtain ⟨_,_,found2⟩ := both_join (fun af d e => remove_joins d e) oldFamily
    (fun af => by
      have bound := count1 af
      have total := room af
      rw [empty] at bound
      rw [max1]
      show _ ≤ max
      omega) rfl
  rw [populate_members,found2,found1,nothing,Option.none_or,expected]

theorem members_bound (state : Option NwiState) (af : AF) :
    (members state af).length ≤ (state.map nwiStateMaxAfCount).getD 0 := by
  cases state with
  | none => exact Nat.le_refl _
  | some s =>
    have bound : s.count af ≤ nwiStateMaxAfCount s := by
      unfold nwiStateMaxAfCount
      cases af <;> simp only [count] <;> split <;> omega
    rw [members_length]
    exact bound

/-- The difference has room for all it is given, and says of each interface and
family what became of it. -/
theorem diff_found (oldFamily : inFamily old) (newFamily : inFamily state) :
    (∃ changes, nwiStateDiff old state = some changes ∧
      ∀ af name, ifstateWithName (some changes) af name = expected old state af name) ∨
    nwiStateDiff old state = none ∧ ∀ af, members old af = [] ∧ members state af = [] := by
  have boundOld := members_bound old
  have boundNew := members_bound state
  unfold nwiStateDiff
  by_cases total : (old.map nwiStateMaxAfCount).getD 0 + (state.map nwiStateMaxAfCount).getD 0 = 0
  · refine .inr ⟨if_pos total,fun af => ⟨List.eq_nil_of_length_eq_zero ?_,List.eq_nil_of_length_eq_zero ?_⟩⟩
    · have bound := boundOld af
      omega
    · have bound := boundNew af
      omega
  · refine .inl ⟨_,(if_neg total).trans (congrArg (Option.map _) (if_neg total)),fun af name => ?_⟩
    exact populate_found old state oldFamily newFamily (fun af => Nat.add_le_add (boundOld af) (boundNew af)) af name

end FreebsdLaunchd.Nwi
