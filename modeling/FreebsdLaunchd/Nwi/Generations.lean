import FreebsdLaunchd.Nwi.Diff
import FreebsdLaunchd.Nwi.Reachable
import FreebsdLaunchd.Library.Runs
import Mathlib.Data.List.Induction

/-! The generations of the interfaces: an update gives each interface that changed
in either family the state's generation, and every other one the generation it
had, so that along a run of updates an interface carries the generation of the
last update in which it changed. -/
namespace FreebsdLaunchd.Nwi
open NwiState

def nwiIfstateSetGeneration (generationCount : Nat) (ifstate : NwiIfstate) : NwiIfstate :=
  {ifstate with ifGenerationCount := generationCount}

/-- `_nwi_ifstate_has_changed`: the v4 or the v6 element of that name has. -/
def nwiIfstateNameHasChanged (state : NwiState) (ifname : IfName) : Bool :=
  (ifstateWithName (some state) .inet ifname).any (nwiIfstateGetDiff · ≠ NWI_IFSTATE_DIFF_UNCHANGED) ||
  (ifstateWithName (some state) .inet6 ifname).any (nwiIfstateGetDiff · ≠ NWI_IFSTATE_DIFF_UNCHANGED)

/-- One round of a loop; `none` is the failed assertion that the old state has
the interface. -/
def updateGeneration (oldState : Option NwiState) (changes : NwiState) (generationCount : Nat) (af : AF)
    (state : NwiState) (i : Nat) : Option NwiState :=
  let place := state.base af + i
  let scan := state.ifstateList place
  if nwiIfstateNameHasChanged changes scan.ifname then
    some (state.modify place (nwiIfstateSetGeneration generationCount))
  else
    match ifstateWithName oldState af scan.ifname with
    | some oldIfstate => some (state.modify place (nwiIfstateSetGeneration oldIfstate.ifGenerationCount))
    | none => none

def nwiStateUpdateInterfaceGenerations (oldState state changes : Option NwiState) : Option (Option NwiState) :=
  match state, changes with
  | some state, some changes => do
    let generationCount := state.generationCount
    let state ← (List.range state.ipv4Count).foldlM (updateGeneration oldState changes generationCount .inet) state
    let state ← (List.range state.ipv6Count).foldlM (fun state i =>
      -- the generation count has been already updated, just skip it
      if (state.ifstateList (state.base .inet6 + i)).ifGenerationCount = generationCount then some state
      else updateGeneration oldState changes generationCount .inet6 state i) state
    return some state
  | state, _ => some state

variable {s s' t : NwiState} {old state : Option NwiState} {changes : NwiState} {af : AF} {e e' : NwiIfstate}
  {i j n : Nat} {name : IfName}

/-! ## The interfaces that changed -/

def address (af : AF) (e : NwiIfstate) : BitVec 32 ⊕ BitVec 128 :=
  match af with
  | .inet => .inl e.iaddr
  | .inet6 => .inr e.iaddr6

/-- In this family the interface was added, removed, changed or changed rank. -/
def FamilyChanged (old state : Option NwiState) (af : AF) (name : IfName) : Prop :=
  match ifstateWithName old af name, ifstateWithName state af name with
  | none, none => False
  | none, some _ => True
  | some _, none => True
  | some e, some e' => e.flags &&& NWI_IFSTATE_FLAGS_MASK ≠ e'.flags &&& NWI_IFSTATE_FLAGS_MASK ∨
      address af e ≠ address af e' ∨ e.rank ≠ e'.rank

def InterfaceChanged (old state : Option NwiState) (name : IfName) : Prop :=
  FamilyChanged old state .inet name ∨ FamilyChanged old state .inet6 name

theorem hasChanged_iff (e' : NwiIfstate) (family : e.af = af) : nwiIfstateHasChanged e e' = true ↔
    e.flags &&& NWI_IFSTATE_FLAGS_MASK ≠ e'.flags &&& NWI_IFSTATE_FLAGS_MASK ∨ address af e ≠ address af e' := by
  unfold nwiIfstateHasChanged
  rw [family]
  by_cases flags : e.flags &&& NWI_IFSTATE_FLAGS_MASK = e'.flags &&& NWI_IFSTATE_FLAGS_MASK
  · cases af <;> simp [flags,address]
  · simp [flags]

/-- The code of an element that is in both states tells whether it changed. -/
theorem change_some (family : e.af = af) (existing : ifstateWithName old e'.af e'.ifname = some e) :
    change old e' &&& 0xf ≠ NWI_IFSTATE_DIFF_UNCHANGED ↔
      e.flags &&& NWI_IFSTATE_FLAGS_MASK ≠ e'.flags &&& NWI_IFSTATE_FLAGS_MASK ∨
        address af e ≠ address af e' ∨ e.rank ≠ e'.rank := by
  have changed := hasChanged_iff e' family
  simp only [change,existing]
  by_cases other : nwiIfstateHasChanged e e' = true
  · rw [if_pos other]
    refine iff_of_true (by decide) ?_
    rcases changed.mp other with flags | address_
    · exact .inl flags
    · exact .inr (.inl address_)
  · rw [if_neg other]
    by_cases down : e.rank < e'.rank
    · rw [if_pos down]
      exact iff_of_true (by decide) (.inr (.inr (Nat.ne_of_lt down)))
    · rw [if_neg down]
      by_cases up : e.rank > e'.rank
      · rw [if_pos up]
        exact iff_of_true (by decide) (.inr (.inr (Nat.ne_of_gt up)))
      · rw [if_neg up]
        refine iff_of_false (by decide) ?_
        rintro (flags | address_ | rank)
        · exact other (changed.mpr (.inl flags))
        · exact other (changed.mpr (.inr address_))
        · omega

/-- The mark of an element in the difference is not that of an unchanged one
exactly if the interface changed in its family. -/
theorem expected_changed (oldFamily : inFamily old) (newFamily : inFamily state) (af : AF) (name : IfName) :
    (expected old state af name).any (nwiIfstateGetDiff · ≠ NWI_IFSTATE_DIFF_UNCHANGED) = true ↔
      FamilyChanged old state af name := by
  unfold expected FamilyChanged
  cases new : ifstateWithName state af name with
  | none =>
    cases existing : ifstateWithName old af name with
    | none => simp
    | some e =>
      simp only [Option.map_none,Option.map_some,Option.none_or,Option.any_some,decide_eq_true_eq,getDiff_setDiff]
      exact iff_of_true (by decide) trivial
  | some e' =>
    obtain ⟨member',rfl⟩ := withName_some new
    have family' := newFamily af e' member'
    subst family'
    simp only [Option.map_some,Option.some_or,Option.any_some,markChange,decide_eq_true_eq,getDiff_setDiff]
    cases existing : ifstateWithName old e'.af e'.ifname with
    | none =>
      simp only [change,existing]
      exact iff_of_true (by decide) trivial
    | some e => exact change_some (oldFamily _ e (withName_some existing).1) existing

private theorem nameHasChanged_iff (oldFamily : inFamily old) (newFamily : inFamily state)
    (found : ∀ af name, ifstateWithName (some changes) af name = expected old state af name) (name : IfName) :
    nwiIfstateNameHasChanged changes name = true ↔ InterfaceChanged old state name := by
  unfold nwiIfstateNameHasChanged InterfaceChanged
  rw [Bool.or_eq_true,found,found,expected_changed oldFamily newFamily,expected_changed oldFamily newFamily]

/-- An interface of the new state that did not change was in the old one. -/
theorem old_of_unchanged (member : ifstateWithName state af name = some e)
    (unchanged : ¬ InterfaceChanged old state name) :
    ∃ e', ifstateWithName old af name = some e' := by
  have unchanged' : ¬ FamilyChanged old state af name := fun changed => unchanged (by
    cases af with
    | inet => exact .inl changed
    | inet6 => exact .inr changed)
  rw [FamilyChanged,member] at unchanged'
  cases existing : ifstateWithName old af name with
  | none =>
    rw [existing] at unchanged'
    exact absurd trivial unchanged'
  | some e' => exact ⟨e',rfl⟩

/-! ## A loop that rewrites entries one by one -/

/-- Where every round writes what `target` makes of its entry, and makes something
of each, the loop has rewritten the entries it passed. -/
theorem foldlM_entries {step : NwiState → Nat → Option NwiState} {target : NwiIfstate → Option NwiIfstate}
    (spec : ∀ s i, step s i = (target (s.entry af i)).map (s.write (s.addr af i)))
    (fits : n ≤ s.maxIfCount) (defined : ∀ i < n, ∃ e, target (s.entry af i) = some e) :
    ∃ list, (List.range n).foldlM step s = some {s with ifstateList := list} ∧
      ∀ af' j, j < s.maxIfCount → ({s with ifstateList := list} : NwiState).entry af' j =
        if af' = af ∧ j < n then (target (s.entry af j)).getD (s.entry af j) else s.entry af' j := by
  induction n with
  | zero => exact ⟨s.ifstateList,rfl,fun af' j inside => by cases af' <;> simp [entry,addr,base]⟩
  | succ n ih =>
    obtain ⟨list,run,entries⟩ := ih (by omega) fun i less => defined i (by omega)
    obtain ⟨e,made⟩ := defined n (Nat.lt_succ_self n)
    have here := entries af n (by omega)
    rw [if_neg fun less => Nat.lt_irrefl n less.2] at here
    refine ⟨(NwiState.write {s with ifstateList := list} (s.addr af n) e).ifstateList,?_,fun af' j inside => ?_⟩
    · rw [List.range_succ,List.foldlM_append,run]
      simp only [Option.bind_eq_bind,Option.bind_some,List.foldlM_cons,List.foldlM_nil,spec,here,made]
      cases af <;> rfl
    · have place : s.addr af n = ({s with ifstateList := list} : NwiState).addr af n := by cases af <;> rfl
      have written : (NwiState.write {s with ifstateList := list} (s.addr af n) e).entry af' j = _ :=
        write_entry place (by show n < s.maxIfCount; omega) inside e
      refine Eq.trans (by cases af' <;> rfl) written |>.trans ?_
      rw [entries af' j inside]
      by_cases new : af' = af ∧ j = n
      · obtain ⟨rfl,rfl⟩ := new
        rw [if_pos ⟨rfl,rfl⟩,if_pos ⟨rfl,Nat.lt_succ_self _⟩,made]
        rfl
      · rw [if_neg new]
        by_cases before : af' = af ∧ j < n
        · rw [if_pos before,if_pos ⟨before.1,by omega⟩]
        · rw [if_neg before,if_neg]
          rintro ⟨same,less⟩
          rcases Nat.lt_succ_iff_lt_or_eq.mp less with less | equal
          · exact before ⟨same,less⟩
          · exact new ⟨same,equal⟩

/-! ## One update -/

def renewed (old : Option NwiState) (changes : NwiState) (generationCount : Nat) (af : AF) (e : NwiIfstate) :
    Option NwiIfstate :=
  if nwiIfstateNameHasChanged changes e.ifname then some (nwiIfstateSetGeneration generationCount e)
  else (ifstateWithName old af e.ifname).map fun oldIfstate => nwiIfstateSetGeneration oldIfstate.ifGenerationCount e

private theorem updateGeneration_renewed (old : Option NwiState) (changes : NwiState) (generationCount : Nat) (af : AF)
    (s : NwiState) (i : Nat) : updateGeneration old changes generationCount af s i =
      (renewed old changes generationCount af (s.entry af i)).map (s.write (s.addr af i)) := by
  have here : s.ifstateList (s.base af + i) = s.entry af i := rfl
  simp only [updateGeneration,renewed,here]
  split
  · rfl
  · cases ifstateWithName old af (s.entry af i).ifname <;> rfl

/-- Both loops make a new entry of each where they can make one of every entry. -/
theorem update_entries (old : Option NwiState) (changes : NwiState) (room : ∀ af, s.count af ≤ s.maxIfCount)
    (fresh : ∀ af, ∀ e ∈ members (some s) af, e.ifGenerationCount ≠ s.generationCount)
    (defined : ∀ af i, i < s.count af → ∃ e, renewed old changes s.generationCount af (s.entry af i) = some e) :
    ∃ list, nwiStateUpdateInterfaceGenerations old (some s) (some changes) = some (some {s with ifstateList := list}) ∧
      ∀ af i, i < s.count af → renewed old changes s.generationCount af (s.entry af i) =
        some (({s with ifstateList := list} : NwiState).entry af i) := by
  obtain ⟨list4,run4,entries4⟩ := foldlM_entries (updateGeneration_renewed old changes s.generationCount .inet)
    (room .inet) (defined .inet)
  let target6 (e : NwiIfstate) : Option NwiIfstate :=
    if e.ifGenerationCount = s.generationCount then some e else renewed old changes s.generationCount .inet6 e
  have spec6 (s' : NwiState) (i : Nat) :
      (if (s'.ifstateList (s'.base .inet6 + i)).ifGenerationCount = s.generationCount then some s'
        else updateGeneration old changes s.generationCount .inet6 s' i) =
      (target6 (s'.entry .inet6 i)).map (s'.write (s'.addr .inet6 i)) := by
    have here : s'.ifstateList (s'.base .inet6 + i) = s'.entry .inet6 i := rfl
    rw [here]
    simp only [target6]
    split
    · exact congrArg some (by simp [NwiState.write,entry])
    · exact updateGeneration_renewed old changes s.generationCount .inet6 s' i
  have kept6 (i : Nat) (used : i < s.ipv6Count) :
      ({s with ifstateList := list4} : NwiState).entry .inet6 i = s.entry .inet6 i :=
    (entries4 .inet6 i (Nat.lt_of_lt_of_le used (room .inet6))).trans (if_neg fun same => by cases same.1)
  have made6 (i : Nat) (used : i < s.ipv6Count) :
      target6 (({s with ifstateList := list4} : NwiState).entry .inet6 i) =
        renewed old changes s.generationCount .inet6 (s.entry .inet6 i) := by
    rw [kept6 i used]
    exact if_neg (fresh .inet6 _ (mem_members.mpr ⟨i,used,rfl⟩))
  obtain ⟨list,run6,entries6⟩ := foldlM_entries (s := {s with ifstateList := list4}) (n := s.ipv6Count) spec6
    (room .inet6) fun i used => made6 i used ▸ defined .inet6 i used
  refine ⟨list,?_,fun af i used => ?_⟩
  · rw [nwiStateUpdateInterfaceGenerations]
    have run4' : (List.range s.ipv4Count).foldlM (updateGeneration old changes s.generationCount .inet) s =
      some {s with ifstateList := list4} := run4
    simp only [run4',Option.bind_eq_bind,Option.bind_some,run6]
    rfl
  · obtain ⟨e,made⟩ := defined af i used
    have inside := Nat.lt_of_lt_of_le used (room af)
    rw [made]
    congr 1
    cases af with
    | inet =>
      refine Eq.trans ?_ ((entries6 .inet i inside).trans (if_neg fun same => by cases same.1)).symm
      refine Eq.trans ?_ ((entries4 .inet i inside).trans (if_pos ⟨rfl,used⟩)).symm
      rw [made]
      rfl
    | inet6 =>
      refine Eq.trans ?_ ((entries6 .inet6 i inside).trans (if_pos ⟨rfl,used⟩)).symm
      rw [made6 i used,made]
      rfl

def Agreeing (s : NwiState) : Prop :=
  ∀ i j, i < s.count .inet → j < s.count .inet6 → (s.entry .inet i).ifname = (s.entry .inet6 j).ifname →
    (s.entry .inet i).ifGenerationCount = (s.entry .inet6 j).ifGenerationCount

private theorem withName_entry (represented : Represented s) (used : i < s.count af) :
    ifstateWithName (some s) af (s.entry af i).ifname = some (s.entry af i) := by
  cases found : ifstateWithName (some s) af (s.entry af i).ifname with
  | none => exact absurd rfl (withName_none.mp found _ (mem_members.mpr ⟨i,used,rfl⟩))
  | some e =>
    obtain ⟨member,named⟩ := withName_some found
    obtain ⟨j,used',rfl⟩ := mem_members.mp member
    rw [represented.unique af j i used' used named]

theorem Agreeing.found (agreeing : ∀ s ∈ old, Agreeing s) (found : ifstateWithName old .inet name = some e)
    (found' : ifstateWithName old .inet6 name = some e') : e.ifGenerationCount = e'.ifGenerationCount := by
  obtain ⟨member,named⟩ := withName_some found
  obtain ⟨member',named'⟩ := withName_some found'
  cases old with
  | none => cases member
  | some s =>
    obtain ⟨i,used,rfl⟩ := mem_members.mp member
    obtain ⟨j,used',rfl⟩ := mem_members.mp member'
    exact agreeing s rfl i j used used' (named.trans named'.symm)

/-- What an update makes of a state: each entry is as it was but for its
generation, which is the state's if the interface changed and otherwise the one
it had in the old state. -/
structure Updated (old : Option NwiState) (s t : NwiState) : Prop where
  count : ∀ af, t.count af = s.count af
  changed : ∀ af i, i < s.count af → InterfaceChanged old (some s) (s.entry af i).ifname →
    t.entry af i = nwiIfstateSetGeneration s.generationCount (s.entry af i)
  unchanged : ∀ af i, i < s.count af → ¬ InterfaceChanged old (some s) (s.entry af i).ifname →
    ∃ e, ifstateWithName old af (s.entry af i).ifname = some e ∧
      t.entry af i = nwiIfstateSetGeneration e.ifGenerationCount (s.entry af i)

theorem Updated.keeps (updated : Updated old s t) (used : i < s.count af) :
    ∃ g, t.entry af i = nwiIfstateSetGeneration g (s.entry af i) := by
  by_cases changed : InterfaceChanged old (some s) (s.entry af i).ifname
  · exact ⟨_,updated.changed af i used changed⟩
  · obtain ⟨e,_,same⟩ := updated.unchanged af i used changed
    exact ⟨_,same⟩

theorem Updated.represented (updated : Updated old s t) (represented : Represented s)
    (max_ : t.maxIfCount = s.maxIfCount) (list_ : t.ifList = s.ifList) : Represented t := by
  refine represented.congr max_ updated.count ?_ fun af i used => ?_
  · rw [list_,max_]
    exact represented.listRoom
  · obtain ⟨g,same⟩ := updated.keeps used
    rw [same]
    exact ⟨rfl,rfl,rfl,.rfl⟩

theorem Updated.agreeing (updated : Updated old s t) (agreeing : ∀ s ∈ old, Agreeing s) : Agreeing t := by
  intro i j used used' same
  rw [updated.count] at used used'
  obtain ⟨_,kept⟩ := updated.keeps used
  obtain ⟨_,kept'⟩ := updated.keeps used'
  have names : (s.entry .inet i).ifname = (s.entry .inet6 j).ifname := by
    rw [kept,kept'] at same
    exact same
  by_cases changed : InterfaceChanged old (some s) (s.entry .inet i).ifname
  · rw [updated.changed .inet i used changed,updated.changed .inet6 j used' (names ▸ changed)]
    rfl
  · obtain ⟨e,found,entry_⟩ := updated.unchanged .inet i used changed
    obtain ⟨e',found',entry'⟩ := updated.unchanged .inet6 j used' (names ▸ changed)
    rw [← names] at found'
    rw [entry_,entry']
    show e.ifGenerationCount = e'.ifGenerationCount
    exact Agreeing.found agreeing found found'

def Fresh (s : NwiState) : Prop := ∀ af, ∀ e ∈ members (some s) af, e.ifGenerationCount ≠ s.generationCount

/-- Over the difference of the two states the update fails no assertion. -/
theorem generations_updated (oldSound : ∀ s ∈ old, Represented s) (represented : Represented s)
    (fresh : Fresh s) : ∃ list, nwiStateUpdateInterfaceGenerations old (some s) (nwiStateDiff old (some s)) =
        some (some {s with ifstateList := list}) ∧ Updated old s {s with ifstateList := list} := by
  have oldFamily := Represented.inFamily oldSound
  have newFamily : inFamily (some s) := Represented.inFamily fun _ same =>
    Option.some.inj same ▸ represented
  have count_ (list : Nat → NwiIfstate) (af : AF) : ({s with ifstateList := list} : NwiState).count af = s.count af := by
    cases af <;> rfl
  rcases diff_found oldFamily newFamily with ⟨changes,result,found⟩ | ⟨result,nothing⟩
  · have changedIff := nameHasChanged_iff oldFamily newFamily found
    have previous (af : AF) (i : Nat) (used : i < s.count af)
        (unchanged : ¬ InterfaceChanged old (some s) (s.entry af i).ifname) :
        ∃ e, ifstateWithName old af (s.entry af i).ifname = some e :=
      old_of_unchanged (withName_entry represented used) unchanged
    obtain ⟨list,run,entries⟩ := update_entries old changes represented.room fresh
      fun af i used => by
        unfold renewed
        split
        · exact ⟨_,rfl⟩
        · rename_i same
          obtain ⟨e,there⟩ := previous af i used (mt (changedIff _).mpr same)
          rw [there]
          exact ⟨_,rfl⟩
    refine ⟨list,result ▸ run,count_ list,fun af i used changed => ?_,fun af i used unchanged => ?_⟩
    · have made := entries af i used
      rw [renewed,if_pos ((changedIff _).mpr changed)] at made
      exact (Option.some.inj made).symm
    · obtain ⟨e,there⟩ := previous af i used unchanged
      have made := entries af i used
      rw [renewed,if_neg (mt (changedIff _).mp unchanged),there] at made
      exact ⟨e,there,(Option.some.inj made).symm⟩
  · have unused (af : AF) (i : Nat) (used : i < s.count af) : False := by
      rw [← members_length,(nothing af).2] at used
      exact Nat.not_lt_zero i used
    exact ⟨s.ifstateList,by rw [result]; rfl,count_ _,fun af i used => (unused af i used).elim,
      fun af i used => (unused af i used).elim⟩

/-! ## Runs of updates -/

/-- `IPMonitorProcessChanges` updates the generations over the difference to the
state it had. -/
def update (old : Option NwiState) (state : NwiState) : Option NwiState :=
  (nwiStateUpdateInterfaceGenerations old (some state) (nwiStateDiff old (some state))).join

def Sound (state : Option NwiState) : Prop := ∀ s ∈ state, Represented s ∧ Agreeing s

private theorem update_sound (sound : Sound old) (represented : Represented s) (fresh : Fresh s) :
    ∃ t, nwiStateUpdateInterfaceGenerations old (some s) (nwiStateDiff old (some s)) = some (some t) ∧
      Updated old s t ∧ Represented t ∧ Agreeing t ∧ t.generationCount = s.generationCount := by
  obtain ⟨list,run,updated⟩ := generations_updated (fun o there => (sound o there).1) represented fresh
  exact ⟨_,run,updated,updated.represented represented rfl rfl,updated.agreeing fun o there => (sound o there).2,rfl⟩

/-- `generation` is that of the last of the updates in which the interface changed. -/
def LastChange (updates : List NwiState) (name : IfName) (generation : Nat) : Prop :=
  ∃ before s after, updates = before ++ s :: after ∧ generation = s.generationCount ∧
    InterfaceChanged (Runs.run update none before) (some s) name ∧
    ∀ mid next rest, after = mid ++ next :: rest →
      ¬ InterfaceChanged (Runs.run update none (before ++ s :: mid)) (some next) name

private theorem run_concat (updates : List NwiState) (s : NwiState) :
    Runs.run update none (updates ++ [s]) = update (Runs.run update none updates) s := by
  simp [Runs.run]

theorem LastChange.now {updates : List NwiState} (changed : InterfaceChanged (Runs.run update none updates) (some s) name) :
    LastChange (updates ++ [s]) name s.generationCount :=
  ⟨updates,s,[],rfl,rfl,changed,fun mid _ _ split => by cases mid <;> cases split⟩

theorem LastChange.later {updates : List NwiState} {generation : Nat} (last : LastChange updates name generation)
    (unchanged : ¬ InterfaceChanged (Runs.run update none updates) (some s) name) :
    LastChange (updates ++ [s]) name generation := by
  obtain ⟨before,s',after,rfl,generation_,changed,quiet⟩ := last
  refine ⟨before,s',after ++ [s],by simp,generation_,changed,fun mid next rest split => ?_⟩
  rcases List.eq_nil_or_concat rest with rfl | ⟨rest,s'',rfl⟩
  · obtain ⟨rfl,same⟩ := List.append_inj' split rfl
    obtain rfl := (List.cons.inj same).1
    exact unchanged
  · have split' : after ++ [s] = (mid ++ next :: rest) ++ [s''] := by simpa using split
    exact quiet mid next rest (List.append_inj' split' rfl).1

/-- After any run of updates from nothing the entries of an interface carry the
generation of the last update in which it changed. -/
theorem run_generations (updates : List NwiState) (sound : ∀ s ∈ updates, Represented s ∧ Fresh s) :
    Sound (Runs.run update none updates) ∧
      ∀ t ∈ Runs.run update none updates, ∀ af i, i < t.count af →
        LastChange updates (t.entry af i).ifname (t.entry af i).ifGenerationCount := by
  induction updates using List.reverseRecOn with
  | nil => exact ⟨fun _ there => (nomatch there),fun _ there => (nomatch there)⟩
  | append_singleton updates s ih =>
    obtain ⟨before,generations⟩ := ih fun s member => sound s (List.mem_append_left _ member)
    obtain ⟨represented,fresh⟩ := sound s (List.mem_append_right _ (.head _))
    obtain ⟨t,result,updated,represented',agreeing,_⟩ := update_sound before represented fresh
    have reached : Runs.run update none (updates ++ [s]) = some t := by rw [run_concat,update,result]; rfl
    rw [reached]
    refine ⟨fun _ there => Option.some.inj there ▸ ⟨represented',agreeing⟩,fun _ there af i used => ?_⟩
    obtain rfl := Option.some.inj there
    rw [updated.count] at used
    by_cases changed : InterfaceChanged (Runs.run update none updates) (some s) (s.entry af i).ifname
    · rw [updated.changed af i used changed]
      exact .now changed
    · obtain ⟨e,found,same⟩ := updated.unchanged af i used changed
      obtain ⟨member,named⟩ := withName_some found
      have last : LastChange updates (s.entry af i).ifname e.ifGenerationCount := by
        cases reached' : Runs.run update none updates with
        | none =>
          rw [reached'] at member
          cases member
        | some o =>
          rw [reached'] at member
          obtain ⟨j,used',rfl⟩ := mem_members.mp member
          exact named ▸ generations o reached' af j used'
      rw [same]
      exact last.later changed

/-- Per-interface generations: an update fails no assertion, gives the entries of
each interface that changed in either family the state's generation and those of
every other one the generation it had, so that the families agree again; and over
a run an interface's generation is that of the last update in which it changed. -/
theorem interface_generations :
    (∀ old s, Sound old → Represented s → Fresh s →
      ∃ t, nwiStateUpdateInterfaceGenerations old (some s) (nwiStateDiff old (some s)) = some (some t) ∧
        Represented t ∧ Agreeing t ∧ t.generationCount = s.generationCount ∧ (∀ af, t.count af = s.count af) ∧
        ∀ af i, i < s.count af → (t.entry af i).ifname = (s.entry af i).ifname ∧
          (InterfaceChanged old (some s) (s.entry af i).ifname →
            (t.entry af i).ifGenerationCount = s.generationCount) ∧
          (¬ InterfaceChanged old (some s) (s.entry af i).ifname →
            ∃ e, ifstateWithName old af (s.entry af i).ifname = some e ∧
              (t.entry af i).ifGenerationCount = e.ifGenerationCount)) ∧
    (∀ updates, (∀ s ∈ updates, Represented s ∧ Fresh s) →
      ((Runs.run update none updates).isSome ↔ updates ≠ []) ∧
      ∀ t ∈ Runs.run update none updates, ∀ af i, i < t.count af →
        LastChange updates (t.entry af i).ifname (t.entry af i).ifGenerationCount) := by
  refine ⟨fun old s sound represented fresh => ?_,fun updates sound => ⟨?_,(run_generations updates sound).2⟩⟩
  · obtain ⟨t,result,updated,represented',agreeing,generation⟩ := update_sound sound represented fresh
    refine ⟨t,result,represented',agreeing,generation,updated.count,fun af i used => ⟨?_,fun changed => ?_,
      fun unchanged => ?_⟩⟩
    · obtain ⟨_,same⟩ := updated.keeps used
      rw [same]
      rfl
    · rw [updated.changed af i used changed]
      rfl
    · obtain ⟨e,found,same⟩ := updated.unchanged af i used unchanged
      exact ⟨e,found,by rw [same]; rfl⟩
  · rcases List.eq_nil_or_concat updates with rfl | ⟨before,s,rfl⟩
    · simp [Runs.run]
    · have earlier := (run_generations before fun s member => sound s (by simp [member])).1
      obtain ⟨represented,fresh⟩ := sound s (by simp)
      obtain ⟨t,result,_⟩ := update_sound earlier represented fresh
      have reached : Runs.run update none (before ++ [s]) = some t := by rw [run_concat,update,result]; rfl
      simp [reached]

def named (name : Char) (af : AF) : Candidate := {sampleCandidate af with ifname := ['e','n',name]}

def stateOf (candidates : List Candidate) (generation : Nat) : NwiState :=
  {Runs.run (fun s c => (nwiStateAddIfstate s c).1) (newState 3) candidates with generationCount := generation}

private theorem stateOf_represented (candidates : List Candidate) (generation : Nat)
    (short : ∀ c ∈ candidates, c.ifname.length < IFNAMSIZ) : Represented (stateOf candidates generation) := by
  have made : Represented (Runs.run (fun s c => (nwiStateAddIfstate s c).1) (newState 3) candidates) := by
    induction candidates using List.reverseRecOn with
    | nil => exact newState_represented 3
    | append_singleton candidates c ih =>
      simp only [Runs.run,List.foldl_append,List.foldl_cons,List.foldl_nil]
      exact (ih fun c member => short c (List.mem_append_left _ member)).added (short c (by simp))
  exact made.congr rfl (fun af => by cases af <;> rfl) made.listRoom fun af i _ => by cases af <;> exact .refl _

def firstState : NwiState := stateOf [named '0' .inet,named '1' .inet6,named '2' .inet] 7
def secondState : NwiState := stateOf [named '0' .inet,named '0' .inet6,named '1' .inet6] 8

theorem firstState_represented : Represented firstState := stateOf_represented _ 7 (by decide)
theorem secondState_represented : Represented secondState := stateOf_represented _ 8 (by decide)

theorem sample_generations : ∃ t t', update none firstState = some t ∧ update (some t) secondState = some t' ∧
    (t'.entry .inet 0).ifGenerationCount = 8 ∧ (t'.entry .inet6 0).ifGenerationCount = 8 ∧
    (t'.entry .inet6 1).ifGenerationCount = 7 := by
  obtain ⟨t,result,represented,agreeing,_⟩ := interface_generations.1 none firstState (fun _ there => nomatch there)
    firstState_represented fun af => by cases af <;> decide
  obtain ⟨t',result',_,_,_,_,entries⟩ := interface_generations.1 (some t) secondState
    (fun _ there => Option.some.inj there ▸ ⟨represented,agreeing⟩) secondState_represented
    fun af => by cases af <;> decide
  have same := Option.some.inj (Option.some.inj result)
  have unchanged : ¬ InterfaceChanged (some t) (some secondState) ['e','n','1'] := by
    rw [← same]
    rintro (changed | changed)
    · exact changed
    · revert changed
      change ¬ (_ ∨ _ ∨ _)
      decide
  obtain ⟨e,before,kept⟩ := (entries .inet6 1 (by decide)).2.2 unchanged
  refine ⟨t,t',by rw [update,result]; rfl,by rw [update,result']; rfl,(entries .inet 0 (by decide)).2.1 ?_,
    (entries .inet6 0 (by decide)).2.1 ?_,?_⟩
  · rw [← same]
    exact .inr trivial
  · rw [← same]
    exact .inr trivial
  · rw [← same] at before
    rw [kept,← Option.some.inj before]
    decide

end FreebsdLaunchd.Nwi
