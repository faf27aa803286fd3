import FreebsdLaunchd.Library.Runs
import FreebsdLaunchd.Library.Substrings
import Mathlib.Data.List.AList
import Mathlib.Data.List.Perm.Subperm

/-! The bonds in a preferences session and the objects that stand for them. An object
keeps the member list that it was made with or given last, whatever is stored since. -/
namespace FreebsdLaunchd.BondConfiguration
open Runs

/-- The BSD name of an interface, by which two are told apart. -/
abbrev Name := List Char

/-- `SCBondInterfaceRef`, a bond of the session; it is known by the number in its name. -/
structure Bond where
  bondIf : Nat
  interfaces : List Name
  deriving DecidableEq

/-- The bonds that are stored with the names of their members, and the objects that have been obtained. -/
structure Session where
  stored : AList fun _ : Nat => List Name
  objects : List Bond

def Session.start : Session := ⟨∅,[]⟩

structure Surroundings where
  /-- The interfaces that are there and may be in a bond. -/
  interfaces : List Name
  /-- The members of bridges and the physical interfaces of VLANs. -/
  taken : List Name
  /-- The interfaces of enabled network services. -/
  inService : Name → Bool
  /-- The names for which `add_interface` makes an interface. -/
  known : Name → Bool
  known_interfaces : ∀ name ∈ interfaces, known name

inductive Status
  | ok | keyExists | invalidArgument | failed
  deriving DecidableEq, Repr

/-! ## Finding members -/

def copyAll (env : Surroundings) (s : Session) : List Bond :=
  s.stored.entries.map fun entry => ⟨entry.1,entry.2.filter env.known⟩

def listCollectMembers (bonds : List Bond) : List Name := bonds.flatMap Bond.interfaces

def copyAvailableMemberInterfaces (env : Surroundings) (s : Session) : List Name :=
  let excluded := listCollectMembers (copyAll env s) ++ env.taken
  env.interfaces.filter (· ∉ excluded)

def checkMembers (env : Surroundings) (current available : List Name) : List Name → Status
  | [] => .ok
  | member::members =>
    if member ∈ current then checkMembers env current available members
    else if member ∈ available then
      if env.inService member then .keyExists else checkMembers env current available members
    else .invalidArgument

/-! ## The calls -/

def unusedName (s : Session) : Nat :=
  ((List.range (s.stored.keys.length + 1)).find? fun i => (s.stored.lookup i).isNone).getD 0

/-- `SCBondInterfaceCreate`; `saved` is whether the path can be set. -/
def create (saved : Bool) (s : Session) : Session :=
  if saved then ⟨s.stored.insert (unusedName s) [],s.objects ++ [⟨unusedName s,[]⟩]⟩ else s

def remove (object : Nat) (removed : Bool) (s : Session) : Session :=
  match s.objects[object]? with
  | some bond => if removed then {s with stored := s.stored.erase bond.bondIf} else s
  | none => s

/-- `__SCBondInterfaceSetMemberInterfaces` for a bond of the session. The path is only set if that makes a difference. -/
def setMembers (object : Nat) (bond : Bond) (members : List Name) (saved : Bool) (s : Session) : Bool × Session :=
  match s.stored.lookup bond.bondIf with
  | none => (false,s)
  | some names =>
    let objects := s.objects.set object {bond with interfaces := members}
    if names = members then (true,{s with objects})
    else if saved then (true,⟨s.stored.insert bond.bondIf members,objects⟩)
    else (false,s)

def setMemberInterfaces (object : Nat) (members : List Name) (env : Surroundings) (saved : Bool) (s : Session) :
    Bool × Session :=
  match s.objects[object]? with
  | none => (false,s)
  | some bond =>
    if checkMembers env bond.interfaces (copyAvailableMemberInterfaces env s) members ≠ .ok then (false,s)
    else setMembers object bond members saved s

inductive Call
  | create (saved : Bool)
  | copyAll (env : Surroundings)
  | setMemberInterfaces (object : Nat) (members : List Name) (env : Surroundings) (saved : Bool)
  | remove (object : Nat) (removed : Bool)

def Session.step (s : Session) : Call → Session
  | .create saved => create saved s
  | .copyAll env => {s with objects := s.objects ++ copyAll env s}
  | .setMemberInterfaces object members env saved => (setMemberInterfaces object members env saved s).2
  | .remove object removed => remove object removed s

/-! ## Exclusive members -/

/-- No interface is twice in a stored list, or in those of two bonds. -/
structure Exclusive (s : Session) : Prop where
  once : ∀ i names, s.stored.lookup i = some names → names.Nodup
  apart : ∀ i j names names', i ≠ j → s.stored.lookup i = some names → s.stored.lookup j = some names' →
    ∀ name ∈ names, name ∉ names'

def Unchanged (s : Session) (call : Call) : Prop :=
  ∀ object members env saved, call = .setMemberInterfaces object members env saved →
    (setMemberInterfaces object members env saved s).1 = false → s.step call = s

/-- The members that are allowed because they are members already, in the list of the object. -/
def StaleOf (s : Session) (bond : Bond) (name : Name) : Prop :=
  name ∈ bond.interfaces ∧ ∃ i names, i ≠ bond.bondIf ∧ s.stored.lookup i = some names ∧ name ∈ names

/-- Where all members are allowed and can be stored, none is there twice, and none that the object
still has as a member has become one of another bond. -/
def Proper (s : Session) : Call → Prop
  | .setMemberInterfaces object members env saved =>
    ∀ bond, s.objects[object]? = some bond → (s.stored.lookup bond.bondIf).isSome → saved →
      checkMembers env bond.interfaces (copyAvailableMemberInterfaces env s) members = .ok →
      members.Nodup ∧ ∀ name ∈ members, ¬ StaleOf s bond name
  | _ => True

section
variable {s : Session} {bond : Bond} {members : List Name} {env : Surroundings} {object : Nat} {saved : Bool}

private theorem mem_collected {name : Name} :
    name ∈ listCollectMembers (copyAll env s) ↔ ∃ i names, s.stored.lookup i = some names ∧ name ∈ names ∧ env.known name := by
  simp only [listCollectMembers,copyAll,List.mem_flatMap,List.mem_map]
  constructor
  · rintro ⟨_,⟨entry,member,rfl⟩,inside⟩
    obtain ⟨inside,known⟩ := List.mem_filter.mp inside
    exact ⟨entry.1,entry.2,AList.mem_lookup_iff.mpr member,inside,known⟩
  · rintro ⟨i,names,found,inside,known⟩
    exact ⟨_,⟨⟨i,names⟩,AList.mem_lookup_iff.mp found,rfl⟩,List.mem_filter.mpr ⟨inside,known⟩⟩

/-- An available interface is a member of no bond. -/
theorem available_free {name : Name} (available : name ∈ copyAvailableMemberInterfaces env s)
    {i : Nat} {names : List Name}
    (found : s.stored.lookup i = some names) : name ∉ names := by
  intro member
  obtain ⟨there,free⟩ := List.mem_filter.mp available
  have excluded : name ∈ listCollectMembers (copyAll env s) :=
    mem_collected.mpr ⟨i,names,found,member,env.known_interfaces name there⟩
  simp [excluded] at free

private theorem checkMembers_ok {current available : List Name} (ok : checkMembers env current available members = .ok) :
    ∀ name ∈ members, name ∈ current ∨ name ∈ available := by
  induction members with
  | nil => simp
  | cons member members ih =>
    unfold checkMembers at ok
    split_ifs at ok with cached free service
    · exact List.forall_mem_cons.mpr ⟨.inl cached,ih ok⟩
    · exact List.forall_mem_cons.mpr ⟨.inr free,ih ok⟩

private theorem setMemberInterfaces_unchanged (s : Session) (call : Call) : Unchanged s call := by
  rintro object members env saved rfl failed
  simp only [Session.step]
  unfold setMemberInterfaces at failed ⊢
  split
  · rfl
  · rename_i bond found
    rw [found] at failed
    dsimp only at failed
    split_ifs at failed ⊢
    · rfl
    · unfold setMembers at failed ⊢
      split
      · rfl
      · rename_i names there
        rw [there] at failed
        dsimp only at failed
        split_ifs at failed ⊢
        rfl

/-! ## Storing a list -/

theorem Exclusive.congr {s' : Session} (exclusive : Exclusive s) (same : s'.stored = s.stored) : Exclusive s' := by
  constructor
  · rw [same]
    exact exclusive.once
  · rw [same]
    exact exclusive.apart

/-- A list may be stored if and only if it has no interface twice and none of another bond. -/
theorem exclusive_insert (exclusive : Exclusive s) (i : Nat) (members : List Name) (objects : List Bond) :
    Exclusive ⟨s.stored.insert i members,objects⟩ ↔
      members.Nodup ∧ ∀ j names, j ≠ i → s.stored.lookup j = some names → ∀ name ∈ members, name ∉ names := by
  constructor
  · intro after
    refine ⟨after.once i members (AList.lookup_insert _),fun j names other found => ?_⟩
    exact after.apart i j members names other.symm (AList.lookup_insert _) (by rwa [AList.lookup_insert_ne other])
  · rintro ⟨once,apart⟩
    constructor
    · intro j names found
      rcases eq_or_ne j i with rfl | other
      · rw [AList.lookup_insert] at found
        exact Option.some.inj found ▸ once
      · rw [AList.lookup_insert_ne other] at found
        exact exclusive.once j names found
    · intro j k names names' different first second name member member'
      dsimp only at first second
      rcases eq_or_ne j i with rfl | otherJ
      · rw [AList.lookup_insert] at first
        rw [AList.lookup_insert_ne different.symm] at second
        obtain rfl := Option.some.inj first
        exact apart k names' different.symm second name member member'
      · rw [AList.lookup_insert_ne otherJ] at first
        rcases eq_or_ne k i with rfl | otherK
        · rw [AList.lookup_insert] at second
          obtain rfl := Option.some.inj second
          exact apart j names otherJ first name member' member
        · rw [AList.lookup_insert_ne otherK] at second
          exact exclusive.apart j k names names' different first second name member member'

theorem Exclusive.erase (exclusive : Exclusive s) (i : Nat) (objects : List Bond) :
    Exclusive ⟨s.stored.erase i,objects⟩ := by
  have kept {j : Nat} {names : List Name} (found : (s.stored.erase i).lookup j = some names) : s.stored.lookup j = some names := by
    rcases eq_or_ne j i with rfl | other
    · rw [AList.lookup_erase] at found
      cases found
    · rwa [AList.lookup_erase_ne other] at found
  exact ⟨fun j names found => exclusive.once j names (kept found),
    fun j k names names' different first second => exclusive.apart j k names names' different (kept first) (kept second)⟩

/-! ## One call -/

private theorem exclusive_create (exclusive : Exclusive s) (saved : Bool) : Exclusive (create saved s) := by
  unfold create
  split_ifs
  · exact (exclusive_insert exclusive (unusedName s) [] _).mpr ⟨List.nodup_nil,fun j names _ _ name member => by cases member⟩
  · exact exclusive

private theorem exclusive_remove (exclusive : Exclusive s) (object : Nat) (removed : Bool) :
    Exclusive (remove object removed s) := by
  unfold remove
  split
  · split_ifs
    · exact exclusive.erase _ _
    · exact exclusive
  · exact exclusive

/-- A list that goes through may be stored if and only if it has nothing twice and no stale member. -/
theorem exclusive_setMembers (exclusive : Exclusive s)
    (allowed : checkMembers env bond.interfaces (copyAvailableMemberInterfaces env s) members = .ok)
    (there : (s.stored.lookup bond.bondIf).isSome) (object : Nat) :
    Exclusive (setMembers object bond members true s).2 ↔ members.Nodup ∧ ∀ name ∈ members, ¬ StaleOf s bond name := by
  have stale : (∀ name ∈ members, ¬ StaleOf s bond name) ↔
      ∀ j names, j ≠ bond.bondIf → s.stored.lookup j = some names → ∀ name ∈ members, name ∉ names := by
    constructor
    · intro fresh j names other found name member inside
      rcases checkMembers_ok allowed name member with cached | available
      · exact fresh name member ⟨cached,j,names,other,found,inside⟩
      · exact available_free available found inside
    · rintro apart name member ⟨_,j,names,other,found,inside⟩
      exact apart j names other found name member inside
  obtain ⟨names,found⟩ := Option.isSome_iff_exists.mp there
  rw [stale,setMembers,found]
  dsimp only
  by_cases same : names = members
  · rw [if_pos same]
    subst same
    refine iff_of_true (exclusive.congr rfl) ⟨exclusive.once _ _ found,fun j names' other found' name member => ?_⟩
    exact exclusive.apart _ _ _ _ other.symm found found' name member
  · rw [if_neg same,if_pos rfl]
    exact exclusive_insert exclusive bond.bondIf members _

private theorem step_exclusive_iff (exclusive : Exclusive s) (call : Call) : Exclusive (s.step call) ↔ Proper s call := by
  cases call with
  | create saved => exact iff_of_true (exclusive_create exclusive saved) trivial
  | copyAll env => exact iff_of_true (exclusive.congr rfl) trivial
  | remove object removed => exact iff_of_true (exclusive_remove exclusive object removed) trivial
  | setMemberInterfaces object members env saved =>
    simp only [Session.step,setMemberInterfaces,Proper]
    cases found : s.objects[object]? with
    | none => exact iff_of_true exclusive fun bond none_ => by cases none_
    | some bond =>
      simp only [Option.some.injEq,forall_eq']
      by_cases allowed : checkMembers env bond.interfaces (copyAvailableMemberInterfaces env s) members = .ok
      · rw [if_neg (not_not.mpr allowed)]
        cases there : s.stored.lookup bond.bondIf with
        | none =>
          rw [setMembers,there]
          exact iff_of_true exclusive fun none_ => by cases none_
        | some names =>
          have isSome : (s.stored.lookup bond.bondIf).isSome := by rw [there]; rfl
          cases saved with
          | true => simpa [allowed] using exclusive_setMembers exclusive allowed isSome object
          | false =>
            refine iff_of_true ?_ (by simp)
            rw [setMembers,there]
            dsimp only
            rw [if_neg Bool.false_ne_true]
            split_ifs
            · exact exclusive.congr rfl
            · exact exclusive
      · rw [if_pos allowed]
        exact iff_of_true exclusive fun _ _ ok => absurd ok allowed

end

private theorem exclusive_start : Exclusive .start := by
  constructor
  · intro i names found
    cases found
  · intro i j names names' _ found
    cases found

def oneInterface : Surroundings where
  interfaces := ["en0".toList]
  taken := []
  inService _ := false
  known _ := true
  known_interfaces := by simp

end FreebsdLaunchd.BondConfiguration
