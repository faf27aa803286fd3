import FreebsdLaunchd.Nwi.Generations
import Mathlib.Data.List.Nodup

/-! The difference as a whole: each interface of either state has one entry in its
family, those of the new state first, and nothing is written outside the elements
that were allocated. -/
namespace FreebsdLaunchd.Nwi
open NwiState

variable {s d d' : NwiState} {old new : Option NwiState} {af : AF} {e e' : NwiIfstate} {es : List NwiIfstate}
  {name : IfName}

/-! ## What surrounds the allocated elements -/

/-- The state in a memory that holds something else behind its elements. -/
def NwiState.over (d : NwiState) (memory : Nat → NwiIfstate) : NwiState :=
  {d with ifstateList := fun i => if i < 2*d.maxIfCount then d.ifstateList i else memory i}

private theorem addr_inside {i : Nat} (inside : i < d.maxIfCount) : d.addr af i < 2*d.maxIfCount := by
  cases af <;> simp only [addr,base] <;> omega

private theorem over_count (d : NwiState) (memory : Nat → NwiIfstate) (af : AF) :
    (d.over memory).count af = d.count af := by
  cases af <;> rfl

private theorem over_addr (d : NwiState) (memory : Nat → NwiIfstate) (af : AF) (i : Nat) :
    (d.over memory).addr af i = d.addr af i := by
  cases af <;> rfl

private theorem over_entry (memory : Nat → NwiIfstate) {i : Nat} (inside : i < d.maxIfCount) :
    (d.over memory).entry af i = d.entry af i := by
  rw [entry,over_addr]
  exact if_pos (addr_inside inside)

private theorem over_members (memory : Nat → NwiIfstate) (fits : d.count af ≤ d.maxIfCount) :
    members (some (d.over memory)) af = members (some d) af := by
  rw [members,members,over_count]
  exact List.map_congr_left fun i member => over_entry memory (Nat.lt_of_lt_of_le (List.mem_range.mp member) fits)

private theorem over_withName (memory : Nat → NwiIfstate) (fits : d.count af ≤ d.maxIfCount) (name : IfName) :
    ifstateWithName (some (d.over memory)) af name = ifstateWithName (some d) af name := by
  rw [withName_members,withName_members,over_members memory fits]

private theorem write_over (memory : Nat → NwiIfstate) {place : Nat} (inside : place < 2*d.maxIfCount) (e : NwiIfstate) :
    (d.over memory).write place e = (d.write place e).over memory := by
  unfold NwiState.write NwiState.over
  congr 1
  funext i
  by_cases here : i = place
  · subst here
    simp [inside]
  · simp [here]

private theorem marked_over (memory : Nat → NwiIfstate) (room : d.count e.af < d.maxIfCount)
    (f : NwiIfstate → NwiIfstate) :
    marked (d.over memory) e f = (marked d e f).over memory := by
  have inside : d.addr e.af (d.count e.af) < 2*d.maxIfCount := addr_inside room
  have copied : (nwiStateDiffAppend (d.over memory) e).1 = (nwiStateDiffAppend d e).1.over memory := by
    simp only [nwiStateDiffAppend,over_count]
    rw [show (d.over memory).base e.af + d.count e.af = d.addr e.af (d.count e.af) from over_addr d memory e.af _,
      write_over memory inside]
    cases e.af <;> rfl
  have place : (nwiStateDiffAppend (d.over memory) e).2 = (nwiStateDiffAppend d e).2 := by
    simp only [nwiStateDiffAppend,over_count]
    exact over_addr d memory e.af _
  have larger : (nwiStateDiffAppend d e).1.maxIfCount = d.maxIfCount := by simp [nwiStateDiffAppend]
  have within : (nwiStateDiffAppend d e).2 < 2*(nwiStateDiffAppend d e).1.maxIfCount := by
    rw [larger]
    exact inside
  have same : ((nwiStateDiffAppend d e).1.over memory).ifstateList (nwiStateDiffAppend d e).2 =
      (nwiStateDiffAppend d e).1.ifstateList (nwiStateDiffAppend d e).2 := if_pos within
  rw [marked,marked,copied,place,NwiState.modify,NwiState.modify,same,write_over memory within]

/-! ## Runs that append -/

/-- From `d` the run appends these entries to the families, whatever is in the
memory behind the elements, and leaves that as it is. -/
structure Extends (added : AF → List NwiIfstate) (run : NwiState → NwiState) (d : NwiState) : Prop where
  max : (run d).maxIfCount = d.maxIfCount
  members : ∀ af, members (some (run d)) af = members (some d) af ++ added af
  beside : ∀ memory, run (d.over memory) = (run d).over memory

theorem Extends.refl (d : NwiState) : Extends (fun _ => []) id d :=
  ⟨rfl,fun _ => (List.append_nil _).symm,fun _ => rfl⟩

theorem Extends.trans {added added' : AF → List NwiIfstate} {run run' : NwiState → NwiState}
    (first : Extends added run d) (later : Extends added' run' (run d)) :
    Extends (fun af => added af ++ added' af) (fun d => run' (run d)) d := by
  refine ⟨later.max.trans first.max,fun af => ?_,fun memory => ?_⟩
  · rw [later.members,first.members,List.append_assoc]
  · rw [first.beside,later.beside]

theorem Extends.count {added : AF → List NwiIfstate} {run : NwiState → NwiState} (extends_ : Extends added run d)
    (af : AF) : (run d).count af = d.count af + (added af).length := by
  have lengths := congrArg List.length (extends_.members af)
  rw [members_length,List.length_append,members_length] at lengths
  exact lengths

theorem Extends.room {added added' : AF → List NwiIfstate} {run : NwiState → NwiState} (first : Extends added run d)
    (room : ∀ af, d.count af + (added af ++ added' af).length ≤ d.maxIfCount) (af : AF) :
    (run d).count af + (added' af).length ≤ (run d).maxIfCount := by
  have total := room af
  rw [List.length_append] at total
  rw [first.count,first.max]
  omega

private theorem room_first {added added' : AF → List NwiIfstate}
    (room : ∀ af, d.count af + (added af ++ added' af).length ≤ d.maxIfCount) (af : AF) :
    d.count af + (added af).length ≤ d.maxIfCount := by
  have total := room af
  rw [List.length_append] at total
  omega

def only (af : AF) (es : List NwiIfstate) (af' : AF) : List NwiIfstate := if af' = af then es else []

private theorem only_append (af : AF) (es es' : List NwiIfstate) :
    (fun af' => only af es af' ++ only af es' af') = only af (es ++ es') := by
  funext af'
  unfold only
  split <;> rfl

private theorem only_nil (af : AF) : only af [] = fun _ => [] := by
  funext af'
  exact ite_self _

private theorem marked_extends (f : NwiIfstate → NwiIfstate) (family : e.af = af)
    (room : ∀ af', d.count af' + (only af [f e] af').length ≤ d.maxIfCount) :
    Extends (only af [f e]) (fun d => marked d e f) d := by
  subst family
  have here := room e.af
  rw [only,if_pos rfl] at here
  refine ⟨marked_max d e f,fun af' => ?_,fun memory => marked_over memory here f⟩
  rw [marked_members f here (Nat.le_of_add_right_le (room af')),only]
  split
  · rfl
  · exact (List.append_nil _).symm

private theorem adds_extends (old : Option NwiState) (family : ∀ e ∈ es, e.af = af)
    (room : ∀ af', d.count af' + (only af (es.map (markChange old)) af').length ≤ d.maxIfCount) :
    Extends (only af (es.map (markChange old))) (fun d => es.foldl (nwiStateDiffAddChange old) d) d := by
  induction es generalizing d with
  | nil =>
    rw [List.map_nil,only_nil]
    exact .refl d
  | cons e es ih =>
    have split_ := only_append af [markChange old e] (es.map (markChange old))
    rw [List.map_cons,← List.singleton_append,← split_] at room ⊢
    have first : Extends (only af [markChange old e]) (fun d => nwiStateDiffAddChange old d e) d := by
      simp only [addChange_marked]
      exact marked_extends (nwiIfstateSetDiff (change old e)) (family e List.mem_cons_self) (room_first room)
    exact first.trans (ih (fun e' member => family e' (List.mem_cons_of_mem _ member)) (first.room room))

def missing (d : Option NwiState) (af : AF) (es : List NwiIfstate) : List NwiIfstate :=
  es.filter fun e => (ifstateWithName d af e.ifname).isNone

def markRemoved (e : NwiIfstate) : NwiIfstate := nwiIfstateSetDiff NWI_IFSTATE_DIFF_REMOVED e

private theorem remove_there (family : e.af = af) (there : (ifstateWithName (some d) af e.ifname).isSome = true) :
    nwiStateDiffRemove d e = d := by
  subst family
  rw [ifstateWithName,Option.bind_some,Option.isSome_map] at there
  exact if_pos there

private theorem remove_missing (family : e.af = af) (gone : ifstateWithName (some d) af e.ifname = none) :
    nwiStateDiffRemove d e = marked d e (nwiIfstateSetDiff NWI_IFSTATE_DIFF_REMOVED) := by
  subst family
  rw [ifstateWithName,Option.bind_some,Option.map_eq_none_iff] at gone
  exact if_neg (by rw [gone]; decide)

private theorem removes_extends (family : ∀ e ∈ es, e.af = af) (distinct : (es.map NwiIfstate.ifname).Nodup)
    (room : ∀ af', d.count af' + (only af ((missing (some d) af es).map markRemoved) af').length ≤ d.maxIfCount) :
    Extends (only af ((missing (some d) af es).map markRemoved)) (fun d => es.foldl nwiStateDiffRemove d) d := by
  induction es generalizing d with
  | nil =>
    rw [missing,List.filter_nil,List.map_nil,only_nil]
    exact .refl d
  | cons e es ih =>
    obtain ⟨fresh,distinct⟩ := List.nodup_cons.mp distinct
    have family' : ∀ e' ∈ es, e'.af = af := fun e' member => family e' (List.mem_cons_of_mem _ member)
    have fits : d.count af ≤ d.maxIfCount := Nat.le_of_add_right_le (room af)
    cases there : ifstateWithName (some d) af e.ifname with
    | some found =>
      have same (memory : Nat → NwiIfstate) : nwiStateDiffRemove (d.over memory) e = d.over memory :=
        remove_there (family e List.mem_cons_self) (by rw [over_withName memory fits,there]; rfl)
      have kept : missing (some d) af (e::es) = missing (some d) af es := by simp [missing,there]
      rw [kept] at room ⊢
      have later := ih family' distinct room
      have stays : nwiStateDiffRemove d e = d := remove_there (family e List.mem_cons_self) (by rw [there]; rfl)
      refine ⟨?_,fun af' => ?_,fun memory => ?_⟩
      · rw [List.foldl_cons,stays]
        exact later.max
      · rw [List.foldl_cons,stays]
        exact later.members af'
      · rw [List.foldl_cons,same,List.foldl_cons,stays]
        exact later.beside memory
    | none =>
      have split_ : missing (some d) af (e::es) = [e] ++ missing (some d) af es := by simp [missing,there]
      rw [split_,List.map_append,← only_append] at room ⊢
      have first : Extends (only af [markRemoved e]) (fun d => nwiStateDiffRemove d e) d := by
        have extends_ := marked_extends (nwiIfstateSetDiff NWI_IFSTATE_DIFF_REMOVED) (family e List.mem_cons_self)
          (room_first room)
        have same := remove_missing (family e List.mem_cons_self) there
        refine ⟨?_,fun af' => ?_,fun memory => ?_⟩
        · rw [same]
          exact extends_.max
        · rw [same]
          exact extends_.members af'
        · rw [same,remove_missing (family e List.mem_cons_self) (by rw [over_withName memory fits,there])]
          exact extends_.beside memory
      -- no later element has the name of this one
      have unaffected : missing (some (nwiStateDiffRemove d e)) af es = missing (some d) af es := by
        apply List.filter_congr
        intro e' member
        have apart : e.ifname ≠ e'.ifname := fun equal => fresh (equal ▸ List.mem_map_of_mem member)
        rw [withName_members,withName_members,first.members,only,if_pos rfl,List.find?_append]
        simp [markRemoved,setDiff_name,apart]
      have later := ih (d := nwiStateDiffRemove d e) family' distinct (by rw [unaffected]; exact first.room room)
      rw [unaffected] at later
      exact first.trans later

/-! ## Populating -/

private theorem missing_congr (same : members old af = members new af) (es : List NwiIfstate) :
    missing old af es = missing new af es := by
  unfold missing
  simp only [withName_members,same]

private theorem both_families (f : AF → List NwiIfstate) :
    (fun af => only .inet (f .inet) af ++ only .inet6 (f .inet6) af) = f := by
  funext af
  cases af
  · exact List.append_nil _
  · rfl

private theorem both_room {f : AF → List NwiIfstate} (room : ∀ af, d.count af + (f af).length ≤ d.maxIfCount) (af : AF) :
    d.count af + (only .inet (f .inet) af ++ only .inet6 (f .inet6) af).length ≤ d.maxIfCount := by
  rw [congrFun (both_families f) af]
  exact room af

private theorem adds_both (old : Option NwiState) (family : inFamily new)
    (room : ∀ af, d.count af + ((members new af).map (markChange old)).length ≤ d.maxIfCount) :
    Extends (fun af => (members new af).map (markChange old))
      (fun d => (members new .inet6).foldl (nwiStateDiffAddChange old)
        ((members new .inet).foldl (nwiStateDiffAddChange old) d)) d := by
  have room := both_room (f := fun af => (members new af).map (markChange old)) room
  have first := adds_extends old (family .inet) fun _ => room_first room _
  rw [← both_families fun af => (members new af).map (markChange old)]
  exact first.trans (adds_extends old (family .inet6) (first.room room))

def names (state : Option NwiState) (af : AF) : List IfName := (members state af).map NwiIfstate.ifname

private theorem removes_both (family : inFamily old) (distinct : ∀ af, (names old af).Nodup)
    (room : ∀ af, d.count af + ((missing (some d) af (members old af)).map markRemoved).length ≤ d.maxIfCount) :
    Extends (fun af => (missing (some d) af (members old af)).map markRemoved)
      (fun d => (members old .inet6).foldl nwiStateDiffRemove ((members old .inet).foldl nwiStateDiffRemove d)) d := by
  have room := both_room (f := fun af => (missing (some d) af (members old af)).map markRemoved) room
  have first := removes_extends (family .inet) (distinct .inet) fun _ => room_first room _
  have same := missing_congr ((first.members .inet6).trans (List.append_nil _)) (members old .inet6)
  have later := removes_extends (d := (members old .inet).foldl nwiStateDiffRemove d) (family .inet6) (distinct .inet6)
    (by rw [same]; exact first.room room)
  rw [same] at later
  rw [← both_families fun af => (missing (some d) af (members old af)).map markRemoved]
  exact first.trans later

/-- Where both states' elements have room, those of the new state are followed by
those of the old one whose names it has not. -/
theorem populate_extends (oldFamily : inFamily old) (newFamily : inFamily new) (distinct : ∀ af, (names old af).Nodup)
    (empty : ∀ af, d.count af = 0)
    (room : ∀ af, (members old af).length + (members new af).length ≤ d.maxIfCount) :
    Extends (fun af => (members new af).map (markChange old) ++ (missing new af (members old af)).map markRemoved)
      (fun d => nwiStateDiffPopulate d old new) d := by
  have total (af : AF) : d.count af + ((members new af).map (markChange old) ++
      (missing new af (members old af)).map markRemoved).length ≤ d.maxIfCount := by
    have fewer : (missing new af (members old af)).length ≤ (members old af).length := List.length_filter_le _ _
    have bound := room af
    rw [empty,List.length_append,List.length_map,List.length_map]
    omega
  have first := adds_both old newFamily fun _ => room_first total _
  have none_ (af : AF) : members (some d) af = [] := List.eq_nil_of_length_eq_zero ((members_length d af).trans (empty af))
  -- the names appended so far are those of the new state
  have same (af : AF) : missing (some ((members new .inet6).foldl (nwiStateDiffAddChange old)
      ((members new .inet).foldl (nwiStateDiffAddChange old) d))) af (members old af) =
        missing new af (members old af) := by
    apply List.filter_congr
    intro e _
    rw [withName_members,withName_members,first.members,none_,List.nil_append,List.find?_map,Option.isNone_map]
    simp only [Function.comp_def,markChange,setDiff_name]
  have later := removes_both (d := (members new .inet6).foldl (nwiStateDiffAddChange old)
    ((members new .inet).foldl (nwiStateDiffAddChange old) d)) oldFamily distinct
    (fun af => by rw [same]; exact first.room total af)
  simp only [same] at later
  simp only [populate_members]
  exact first.trans later

/-! ## What became of each interface -/

def Altered (af : AF) (e e' : NwiIfstate) : Prop :=
  e.flags &&& NWI_IFSTATE_FLAGS_MASK ≠ e'.flags &&& NWI_IFSTATE_FLAGS_MASK ∨ address af e ≠ address af e'

instance (af : AF) (e e' : NwiIfstate) : Decidable (Altered af e e') := inferInstanceAs (Decidable (_ ∨ _))

def compared (af : AF) (e e' : NwiIfstate) : BitVec 8 :=
  if Altered af e e' then NWI_IFSTATE_DIFF_CHANGED
  else if e.rank < e'.rank then NWI_IFSTATE_DIFF_RANK_DOWN
  else if e'.rank < e.rank then NWI_IFSTATE_DIFF_RANK_UP
  else NWI_IFSTATE_DIFF_UNCHANGED

inductive Fate (af : AF) (old new : List NwiIfstate) (name : IfName) : BitVec 8 → Prop
  | added (absent : ∀ e ∈ old, e.ifname ≠ name) (e' : NwiIfstate) (present : e' ∈ new) (named : e'.ifname = name) :
    Fate af old new name NWI_IFSTATE_DIFF_ADDED
  | removed (e : NwiIfstate) (present : e ∈ old) (named : e.ifname = name) (absent : ∀ e' ∈ new, e'.ifname ≠ name) :
    Fate af old new name NWI_IFSTATE_DIFF_REMOVED
  | kept (e : NwiIfstate) (present : e ∈ old) (named : e.ifname = name) (e' : NwiIfstate) (present' : e' ∈ new)
    (named' : e'.ifname = name) : Fate af old new name (compared af e e')

theorem Fate.unique {old new : List NwiIfstate} (distinct : (old.map NwiIfstate.ifname).Nodup)
    (distinct' : (new.map NwiIfstate.ifname).Nodup) {tag tag' : BitVec 8} (fate : Fate af old new name tag)
    (fate' : Fate af old new name tag') : tag = tag' := by
  cases fate with
  | added absent e' present named =>
    cases fate' with
    | added => rfl
    | removed e there same _ => exact absurd same (absent e there)
    | kept e there same => exact absurd same (absent e there)
  | removed e present named absent =>
    cases fate' with
    | added _ e' there same => exact absurd same (absent e' there)
    | removed => rfl
    | kept _ _ _ e' there same => exact absurd same (absent e' there)
  | kept e present named e' present' named' =>
    cases fate' with
    | added absent => exact absurd named (absent e present)
    | removed _ _ _ absent => exact absurd named' (absent e' present')
    | kept f there same f' there' same' =>
      have first : e = f := List.inj_on_of_nodup_map distinct present there (named.trans same.symm)
      have second : e' = f' := List.inj_on_of_nodup_map distinct' present' there' (named'.trans same'.symm)
      rw [first,second]

private theorem change_fate (oldFamily : inFamily old) (newFamily : inFamily new) (member : e ∈ members new af) :
    Fate af (members old af) (members new af) e.ifname (change old e) := by
  have family := newFamily af e member
  cases existing : ifstateWithName old af e.ifname with
  | none =>
    have tag : change old e = NWI_IFSTATE_DIFF_ADDED := by simp only [change,family,existing]
    rw [tag]
    exact .added (withName_none.mp existing) e member rfl
  | some e₀ =>
    obtain ⟨there,same⟩ := withName_some existing
    have altered : nwiIfstateHasChanged e₀ e = true ↔ Altered af e₀ e := hasChanged_iff e (oldFamily af e₀ there)
    have tag : change old e = compared af e₀ e := by
      simp only [change,family,existing,compared,altered]
    rw [tag]
    exact .kept e₀ there same e member rfl

private theorem change_small (old : Option NwiState) (e : NwiIfstate) : change old e &&& 0xf = change old e := by
  unfold change
  split
  · split_ifs <;> rfl
  · rfl

def untagged (e : NwiIfstate) : NwiIfstate := {e with flags := e.flags &&& ~~~NWI_IFSTATE_FLAGS_DIFF_MASK}

private theorem untagged_setDiff (diff : BitVec 8) (e : NwiIfstate) :
    untagged (nwiIfstateSetDiff diff e) = untagged e := by
  have cleared (flags bits : BitVec 64) : ((flags &&& ~~~NWI_IFSTATE_FLAGS_DIFF_MASK) |||
      (bits &&& NWI_IFSTATE_FLAGS_DIFF_MASK)) &&& ~~~NWI_IFSTATE_FLAGS_DIFF_MASK =
        flags &&& ~~~NWI_IFSTATE_FLAGS_DIFF_MASK := by
    ext i inside
    simp only [BitVec.getElem_and,BitVec.getElem_or,BitVec.getElem_not]
    grind
  unfold untagged nwiIfstateSetDiff
  split
  · simp only [cleared]
  · simp only [BitVec.and_assoc,BitVec.and_self]

/-- One entry for each interface of either list, those of the new state first, with
the tag of what became of it. -/
structure Classified (old new : Option NwiState) (diff : NwiState) : Prop where
  entries : ∀ af, (members (some diff) af).map untagged =
    (members new af ++ (members old af).filter fun e => e.ifname ∉ names new af).map untagged
  once : ∀ af, (names (some diff) af).Nodup
  tagged : ∀ af, ∀ e ∈ members (some diff) af, ∀ tag,
    nwiIfstateGetDiff e = tag ↔ Fate af (members old af) (members new af) e.ifname tag

private theorem missing_filter (state : Option NwiState) (af : AF) (es : List NwiIfstate) :
    missing state af es = es.filter fun e => e.ifname ∉ names state af := by
  apply List.filter_congr
  intro e _
  rw [Bool.eq_iff_iff,Option.isNone_iff_eq_none,withName_none,decide_eq_true_eq]
  simp [names]

private theorem classified_of_members {diff : NwiState} (oldFamily : inFamily old) (newFamily : inFamily new)
    (distinct : ∀ af, (names old af).Nodup) (distinct' : ∀ af, (names new af).Nodup)
    (whole : ∀ af, members (some diff) af =
      (members new af).map (markChange old) ++ (missing new af (members old af)).map markRemoved) :
    Classified old new diff := by
  refine ⟨fun af => ?_,fun af => ?_,fun af e member tag => ?_⟩
  · rw [whole,← missing_filter,List.map_append,List.map_append,List.map_map,List.map_map]
    simp [Function.comp_def,markChange,markRemoved,untagged_setDiff]
  · have names_ : names (some diff) af = names new af ++ (missing new af (members old af)).map NwiIfstate.ifname := by
      rw [names,whole,List.map_append,List.map_map,List.map_map]
      simp [Function.comp_def,markChange,markRemoved,setDiff_name,names]
    rw [names_,missing_filter]
    refine List.nodup_append.mpr ⟨distinct' af,(List.filter_sublist.map _).nodup (distinct af),?_⟩
    intro name there name' later equal
    obtain ⟨e,member,rfl⟩ := List.mem_map.mp later
    have absent := (List.mem_filter.mp member).2
    rw [decide_eq_true_eq] at absent
    exact absent (equal ▸ there)
  · have fated : Fate af (members old af) (members new af) e.ifname (nwiIfstateGetDiff e) := by
      rw [whole] at member
      rcases List.mem_append.mp member with fresh | gone
      · obtain ⟨e',there,rfl⟩ := List.mem_map.mp fresh
        rw [markChange,getDiff_setDiff,setDiff_name,change_small]
        exact change_fate oldFamily newFamily there
      · obtain ⟨e',there,rfl⟩ := List.mem_map.mp gone
        obtain ⟨there,absent⟩ := List.mem_filter.mp there
        rw [markRemoved,getDiff_setDiff,setDiff_name]
        exact .removed e' there rfl (withName_none.mp (Option.isNone_iff_eq_none.mp absent))
    constructor
    · intro equal
      rw [← equal]
      exact fated
    · exact fated.unique (distinct af) (distinct' af)

theorem Represented.names_nodup {state : Option NwiState} (represented : ∀ s ∈ state, Represented s) (af : AF) :
    (names state af).Nodup := by
  cases state with
  | none => exact List.nodup_nil
  | some s =>
    rw [names,members,List.map_map]
    refine (List.nodup_map_iff_inj_on List.nodup_range).mpr fun i used j used' same => ?_
    exact (represented s rfl).unique af i j (List.mem_range.mp used) (List.mem_range.mp used') same

/-- The difference classifies each interface once, and populating it in any memory
touches the elements that were allocated and no others. -/
theorem diff_classified (old new : Option NwiState) (oldSound : ∀ s ∈ old, Represented s)
    (newSound : ∀ s ∈ new, Represented s) :
    (nwiStateDiff old new = none ∧ ∀ af, members old af = [] ∧ members new af = []) ∨
    ∃ diff, nwiStateDiff old new = some diff ∧ Classified old new diff ∧
      ∀ memory, nwiStateDiffPopulate ((newState diff.maxIfCount).over memory) old new = diff.over memory := by
  have oldFamily := Represented.inFamily oldSound
  have newFamily := Represented.inFamily newSound
  have boundOld := members_bound old
  have boundNew := members_bound new
  unfold nwiStateDiff
  by_cases total : (old.map nwiStateMaxAfCount).getD 0 + (new.map nwiStateMaxAfCount).getD 0 = 0
  · refine .inl ⟨if_pos total,fun af => ⟨List.eq_nil_of_length_eq_zero ?_,List.eq_nil_of_length_eq_zero ?_⟩⟩
    · have bound := boundOld af
      omega
    · have bound := boundNew af
      omega
  · have empty (max : Nat) (af : AF) : (newState max).count af = 0 := by cases af <;> rfl
    have extends_ := populate_extends oldFamily newFamily (Represented.names_nodup oldSound) (empty _)
      fun af => Nat.add_le_add (boundOld af) (boundNew af)
    refine .inr ⟨_,(if_neg total).trans (congrArg (Option.map _) (if_neg total)),?_,fun memory => ?_⟩
    · refine classified_of_members oldFamily newFamily (Represented.names_nodup oldSound)
        (Represented.names_nodup newSound) fun af => (extends_.members af).trans ?_
      rw [List.eq_nil_of_length_eq_zero ((members_length _ af).trans (empty _ af)),List.nil_append]
    · rw [extends_.max]
      exact extends_.beside memory

theorem sample_removed : ∃ diff, nwiStateDiff (some firstState) (some secondState) = some diff ∧
    nwiIfstateGetDiff (diff.entry .inet 1) = NWI_IFSTATE_DIFF_REMOVED ∧
    nwiIfstateGetDiff (diff.entry .inet6 0) = NWI_IFSTATE_DIFF_ADDED := by
  have sound : ∀ s ∈ some firstState, Represented s := fun s there => Option.some.inj there ▸ firstState_represented
  have sound' : ∀ s ∈ some secondState, Represented s := fun s there => Option.some.inj there ▸ secondState_represented
  rcases diff_classified (some firstState) (some secondState) sound sound' with nothing | classified
  · exact absurd (nothing.2 .inet).1 (by decide)
  · obtain ⟨diff,result,classified,_⟩ := classified
    have same := Option.some.inj result
    have gone : diff.entry .inet 1 ∈ members (some diff) .inet := mem_members.mpr ⟨1,by rw [← same]; decide,rfl⟩
    have come : diff.entry .inet6 0 ∈ members (some diff) .inet6 := mem_members.mpr ⟨0,by rw [← same]; decide,rfl⟩
    refine ⟨diff,result,(classified.tagged .inet _ gone _).mpr ?_,(classified.tagged .inet6 _ come _).mpr ?_⟩
    · refine .removed (firstState.entry .inet 1) (mem_members.mpr ⟨1,by decide,rfl⟩) (by rw [← same]; decide) ?_
      rw [← same]
      decide
    · refine .added ?_ (secondState.entry .inet6 0) (mem_members.mpr ⟨0,by decide,rfl⟩) (by rw [← same]; decide)
      rw [← same]
      decide
end FreebsdLaunchd.Nwi
