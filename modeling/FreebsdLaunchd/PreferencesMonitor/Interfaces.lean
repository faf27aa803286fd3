import FreebsdLaunchd.Preferences.Path
import Mathlib.Data.List.Forall2
import Mathlib.Data.List.Nodup

/-! The interfaces the InterfaceNamer names. Each name is looked up in the
IORegistry ten times with a short delay in between, what is found is listed, and
the list of names is compared with the next one that is delivered. -/
namespace FreebsdLaunchd.PreferencesMonitor
open Preferences

structure Interface where
  bsdName : CFString
  ioPath : Option CFString
  deriving DecidableEq

/-- `_SCNetworkInterfaceCreateWithBSDName` at each of a name's attempts. An interface
has the name it was created with. -/
structure IORegistry where
  createWithBSDName : CFString → Nat → Option Interface
  named : ∀ bsdName retry interface, createWithBSDName bsdName retry = some interface → interface.bsdName = bsdName

structure Matched where
  interfaces : Option (List Interface) := none
  names : Option (List CFString) := none
  updated : Bool := false

def attempt (registry : IORegistry) (bsdName : CFString) (retry : Nat) : Option Interface :=
  match registry.createWithBSDName bsdName retry with
  | none => none
  | some interface => if interface.ioPath.isNone then none else some interface

def tryInterface (registry : IORegistry) (bsdName : CFString) (matched : Matched) (retry : Nat) : Matched :=
  match attempt registry bsdName retry with
  | none => matched
  | some interface => {
      names := some (matched.names.getD [] ++ [bsdName])
      interfaces := some (matched.interfaces.getD [] ++ [interface])
      updated := true }

/-- The names matched so far are `matchedNames`. -/
def findInterfaces (registry : IORegistry) (interfaces matchedNames : Option (List CFString)) : Matched :=
  let nx := (matchedNames.getD []).length
  let matched := (interfaces.getD []).foldl
    (fun matched bsdName => (List.range 10).foldl (tryInterface registry bsdName) matched) {}
  -- check if all interfaces were detached
  if nx > 0 ∧ (matched.names.getD []).length = 0 then { matched with updated := true } else matched

/-! ## The callback -/

structure Namer where
  quiet : Bool
  timeout : Bool
  excluded : Option (List CFString)
  preconfigured : Option (List CFString)

structure Monitor where
  excludedInterfaces : Option (List Interface) := none
  excludedNames : Option (List CFString) := none
  preconfiguredInterfaces : Option (List Interface) := none
  preconfiguredNames : Option (List CFString) := none
  haveConfiguration : Bool := false
  restorePrefs : Bool := false

inductive Action
  | establishNewPreferences | restorePreferences | updateConfiguration
  deriving DecidableEq

/-- Each of the two lists: where it is not the list known already it is matched anew. -/
def updateExcluded (registry : IORegistry) (excluded : Option (List CFString)) (st : Monitor) : Bool × Monitor :=
  if excluded = st.excludedNames then (false,st)
  else
    let matched := findInterfaces registry excluded st.excludedNames
    (matched.updated,{ st with excludedInterfaces := matched.interfaces, excludedNames := matched.names })

def updatePreconfigured (registry : IORegistry) (preconfigured : Option (List CFString)) (st : Monitor) :
    Bool × Monitor :=
  if preconfigured = st.preconfiguredNames then (false,st)
  else
    let matched := findInterfaces registry preconfigured st.preconfiguredNames
    (matched.updated,{ st with preconfiguredInterfaces := matched.interfaces, preconfiguredNames := matched.names })

/-- What a callback is given: the state of the IORegistry while each list is matched,
whether `changedKeys` is not `NULL`, and whether the target is an iPhone. -/
structure Callback where
  excludedRegistry : IORegistry
  preconfiguredRegistry : IORegistry
  changedKeys : Bool
  targetOSiPhone : Bool

def storeCallback (call : Callback) (namer : Option Namer) (st : Monitor) : List Action × Monitor :=
  let quiet := namer.any Namer.quiet
  let timeout := namer.any Namer.timeout
  let (updated,st) := match namer with
    | none => (false,st)
    | some dict =>
      let (excludedUpdated,st) := updateExcluded call.excludedRegistry dict.excluded st
      let (preconfiguredUpdated,st) := updatePreconfigured call.preconfiguredRegistry dict.preconfigured st
      (excludedUpdated || preconfiguredUpdated,st)
  let (established,st) :=
    if !st.haveConfiguration && (quiet || timeout) then
      let haveConfiguration := quiet || (timeout && !call.targetOSiPhone)
      (Action.establishNewPreferences :: (if st.restorePrefs then [Action.restorePreferences] else []),
        { st with haveConfiguration := haveConfiguration, restorePrefs := false })
    else ([],st)
  (established ++ (if updated && call.changedKeys then [Action.updateConfiguration] else []),st)

/-! ## The services -/

/-- A network service and the BSD name of its interface. -/
structure NetworkService where
  serviceID : CFString
  bsdName : Option CFString
  deriving DecidableEq

/-- How the calls made for one interface answer. -/
structure ServiceAnswers where
  create : Option CFString
  setServiceID : Bool
  establishDefaultConfiguration : Bool
  addService : Bool
  remove : Bool

def createService (copyInterfaceUUID : CFString → Option CFString) (answers : ServiceAnswers) (interface : Interface) :
    Option NetworkService :=
  match answers.create with
  | none => none
  | some random =>
    let serviceID := match copyInterfaceUUID interface.bsdName with
      | some uuid => if answers.setServiceID then uuid else random
      | none => random
    let service : NetworkService := ⟨serviceID,some interface.bsdName⟩
    if !answers.establishDefaultConfiguration || !answers.addService then
      if answers.remove then none else some service
    else some service

/-- The services of the preferences after the call, and those of them that are new. -/
def updatePreConfiguredConfiguration (copyInterfaceUUID : CFString → Option CFString)
    (answers : Nat → ServiceAnswers) (removes : NetworkService → Bool) (hasCurrentSet : Bool) (st : Monitor)
    (services : List NetworkService) : List NetworkService × List NetworkService :=
  let range := (st.preconfiguredNames.getD []).length
  if range = 0 then (services,[])
  else if !hasCurrentSet then (services,[])
  else
    let kept := services.filter fun service =>
      match service.bsdName with
      | none => true
      | some bsdName => !((st.preconfiguredNames.getD []).contains bsdName && removes service)
    let created := ((st.preconfiguredInterfaces.getD []).take range).zipIdx.filterMap
      fun (interface,i) => createService copyInterfaceUUID (answers i) interface
    (kept ++ created,created)

/-! ## What is matched -/

def found (registry : IORegistry) (bsdName : CFString) : List Interface :=
  (List.range 10).filterMap (attempt registry bsdName)

def Available (registry : IORegistry) (bsdName : CFString) : Prop := ∃ retry < 10, (attempt registry bsdName retry).isSome

def FoundOnce (registry : IORegistry) (bsdName : CFString) : Prop := (found registry bsdName).length ≤ 1

variable {registry : IORegistry} {bsdName : CFString} {names : List CFString}

private theorem available_iff : Available registry bsdName ↔ found registry bsdName ≠ [] := by
  rw [Available,found,ne_eq,List.filterMap_eq_nil_iff]
  push Not
  apply exists_congr
  intro retry
  rw [List.mem_range,Option.isSome_iff_ne_none]

instance : Decidable (Available registry bsdName) := decidable_of_iff _ available_iff.symm

/-- What the loops have listed; an array that is empty is `NULL`. -/
structure Lists (matched : Matched) (names : List CFString) (interfaces : List Interface) : Prop where
  listed : matched.names.getD [] = names
  parallel : matched.interfaces.getD [] = interfaces
  absent : names = [] → matched.names = none
  updated : matched.updated = true ↔ names ≠ []

private theorem lists_tryInterface (registry : IORegistry) {matched : Matched} {interfaces : List Interface}
    (lists : Lists matched names interfaces)
    (bsdName : CFString) (retry : Nat) :
    Lists (tryInterface registry bsdName matched retry)
      (names ++ ((attempt registry bsdName retry).toList.map fun _ => bsdName))
      (interfaces ++ (attempt registry bsdName retry).toList) := by
  unfold tryInterface
  cases attempt registry bsdName retry with
  | none => simpa using lists
  | some interface => exact ⟨by simp [lists.listed],by simp [lists.parallel],by simp,by simp⟩

private theorem lists_retries (registry : IORegistry) {matched : Matched} {interfaces : List Interface}
    (lists : Lists matched names interfaces)
    (bsdName : CFString) (retries : List Nat) :
    Lists (retries.foldl (tryInterface registry bsdName) matched)
      (names ++ ((retries.filterMap (attempt registry bsdName)).map fun _ => bsdName))
      (interfaces ++ retries.filterMap (attempt registry bsdName)) := by
  induction retries generalizing matched names interfaces with
  | nil => simpa using lists
  | cons retry rest ih =>
    have more := ih (lists_tryInterface registry lists bsdName retry)
    rw [List.foldl_cons]
    cases here : attempt registry bsdName retry with
    | none => simpa [here] using more
    | some interface => simpa [here,List.append_assoc] using more

private theorem lists_names (registry : IORegistry)
    {matched : Matched} {listed : List CFString} {interfaces : List Interface}
    (lists : Lists matched listed interfaces) (names : List CFString) :
    Lists (names.foldl (fun matched bsdName => (List.range 10).foldl (tryInterface registry bsdName) matched) matched)
      (listed ++ names.flatMap fun bsdName => (found registry bsdName).map fun _ => bsdName)
      (interfaces ++ names.flatMap (found registry)) := by
  induction names generalizing matched listed interfaces with
  | nil => simpa using lists
  | cons bsdName rest ih =>
    have more := ih (lists_retries registry lists bsdName (List.range 10))
    rw [List.foldl_cons]
    simpa [found,List.append_assoc] using more

/-- Each name is listed once for every attempt that finds its interface. -/
theorem findInterfaces_lists (registry : IORegistry) (interfaces matchedNames : Option (List CFString)) :
    (findInterfaces registry interfaces matchedNames).names.getD [] =
        ((interfaces.getD []).flatMap fun bsdName => (found registry bsdName).map fun _ => bsdName) ∧
      (findInterfaces registry interfaces matchedNames).interfaces.getD [] = (interfaces.getD []).flatMap (found registry) ∧
      ((findInterfaces registry interfaces matchedNames).names.getD [] = [] →
        (findInterfaces registry interfaces matchedNames).names = none) := by
  have empty : Lists {} [] [] := ⟨rfl,rfl,fun _ => rfl,by simp⟩
  have lists := lists_names registry empty (interfaces.getD [])
  have names := lists.listed
  have interfaces := lists.parallel
  simp only [List.nil_append] at names interfaces
  have absent := lists.absent
  rw [← lists.listed] at absent
  unfold findInterfaces
  simp only []
  split
  · exact ⟨names,interfaces,absent⟩
  · exact ⟨names,interfaces,absent⟩

private theorem foundOnce_cases (once : FoundOnce registry bsdName) :
    found registry bsdName = [] ∨ ∃ interface, found registry bsdName = [interface] := by
  unfold FoundOnce at once
  cases list : found registry bsdName with
  | nil => exact .inl rfl
  | cons interface rest =>
    rw [list,List.length_cons] at once
    have none : rest = [] := List.eq_nil_of_length_eq_zero (by omega)
    exact .inr ⟨interface,by rw [none]⟩

/-- The names that are available, each once and in their order, and one interface for each. -/
structure Matches (registry : IORegistry) (names : List CFString) (matched : Matched) : Prop where
  listed : matched.names.getD [] = names.filter fun bsdName => Available registry bsdName
  parallel : List.Forall₂ (fun bsdName interface => ∃ retry < 10, attempt registry bsdName retry = some interface)
    (matched.names.getD []) (matched.interfaces.getD [])

private theorem mem_found {interface : Interface} :
    interface ∈ found registry bsdName ↔ ∃ retry < 10, attempt registry bsdName retry = some interface := by
  simp [found,List.mem_filterMap]

private theorem flatMap_once (once : ∀ bsdName ∈ names, FoundOnce registry bsdName) :
    (names.flatMap fun bsdName => (found registry bsdName).map fun _ => bsdName) =
      names.filter fun bsdName => Available registry bsdName := by
  induction names with
  | nil => rfl
  | cons bsdName rest ih =>
    rw [List.flatMap_cons,ih fun other member => once other (List.mem_cons_of_mem _ member)]
    rcases foundOnce_cases (once bsdName (by simp)) with none | ⟨interface,one⟩
    · simp [none,available_iff]
    · simp [one,available_iff]

private theorem forall₂_found (registry : IORegistry) (names : List CFString) :
    List.Forall₂ (fun bsdName interface => ∃ retry < 10, attempt registry bsdName retry = some interface)
      (names.flatMap fun bsdName => (found registry bsdName).map fun _ => bsdName) (names.flatMap (found registry)) := by
  induction names with
  | nil => exact .nil
  | cons bsdName rest ih =>
    rw [List.flatMap_cons,List.flatMap_cons]
    refine List.rel_append ?_ ih
    rw [List.forall₂_map_left_iff,List.forall₂_same]
    exact fun interface member => mem_found.mp member

private theorem findInterfaces_matches (interfaces matchedNames : Option (List CFString))
    (once : ∀ bsdName ∈ interfaces.getD [], FoundOnce registry bsdName) :
    Matches registry (interfaces.getD []) (findInterfaces registry interfaces matchedNames) := by
  obtain ⟨names,found,_⟩ := findInterfaces_lists registry interfaces matchedNames
  refine ⟨names.trans (flatMap_once once),?_⟩
  rw [names,found]
  exact forall₂_found registry _

/-- A name that is found twice is listed twice. -/
theorem once_of_matches {interfaces matchedNames : Option (List CFString)} (distinct : (interfaces.getD []).Nodup)
    (matches_ : Matches registry (interfaces.getD []) (findInterfaces registry interfaces matchedNames)) :
    ∀ bsdName ∈ interfaces.getD [], FoundOnce registry bsdName := by
  intro bsdName member
  obtain ⟨names,_⟩ := findInterfaces_lists registry interfaces matchedNames
  have listed : ((interfaces.getD []).flatMap fun bsdName => (found registry bsdName).map fun _ => bsdName).Nodup := by
    rw [← names,matches_.listed]
    exact distinct.filter _
  have part : ((found registry bsdName).map fun _ => bsdName).Sublist
      ((interfaces.getD []).flatMap fun bsdName => (found registry bsdName).map fun _ => bsdName) :=
    List.sublist_flatten_of_mem (List.mem_map.mpr ⟨bsdName,member,rfl⟩)
  have repeated := listed.sublist part
  rw [List.map_const',List.nodup_replicate] at repeated
  exact repeated

/-! ## What follows from it -/

/-- Matched once and all there, a list is known, or it is empty. -/
theorem names_of_matches {interfaces matchedNames : Option (List CFString)}
    (once : ∀ bsdName ∈ interfaces.getD [], FoundOnce registry bsdName)
    (available : ∀ bsdName ∈ interfaces.getD [], Available registry bsdName) :
    (findInterfaces registry interfaces matchedNames).names =
      if interfaces.getD [] = [] then none else interfaces := by
  obtain ⟨_,_,absent⟩ := findInterfaces_lists registry interfaces matchedNames
  have listed := (findInterfaces_matches interfaces matchedNames once).listed
  rw [List.filter_eq_self.mpr (by simpa using available)] at listed
  split
  · next empty => exact absent (listed.trans empty)
  · next some =>
    cases names : (findInterfaces registry interfaces matchedNames).names with
    | none => exact absurd (by simpa [names] using listed.symm) some
    | some l =>
      cases interfaces with
      | none => exact absurd rfl some
      | some names' => simpa [names] using listed

private theorem findInterfaces_empty {interfaces : Option (List CFString)} (empty : interfaces.getD [] = []) :
    (findInterfaces registry interfaces none).updated = false := by
  simp [findInterfaces,empty]

/-- The list a callback has matched is not matched again, or else it is empty. -/
theorem again_of_once {registry' : IORegistry} {interfaces known : Option (List CFString)}
    (once : ∀ bsdName ∈ interfaces.getD [], FoundOnce registry bsdName)
    (available : ∀ bsdName ∈ interfaces.getD [], Available registry bsdName)
    (moved : interfaces ≠ (findInterfaces registry interfaces known).names) :
    (findInterfaces registry' interfaces (findInterfaces registry interfaces known).names).updated = false := by
  rw [names_of_matches once available] at moved ⊢
  split at moved
  · next empty =>
    rw [if_pos empty]
    exact findInterfaces_empty empty
  · exact absurd rfl moved

def AllAvailable (call : Callback) (dict : Namer) : Prop :=
  (∀ bsdName ∈ dict.excluded.getD [], Available call.excludedRegistry bsdName) ∧
    ∀ bsdName ∈ dict.preconfigured.getD [], Available call.preconfiguredRegistry bsdName

def AllOnce (call : Callback) (dict : Namer) : Prop :=
  (∀ bsdName ∈ dict.excluded.getD [], FoundOnce call.excludedRegistry bsdName) ∧
    ∀ bsdName ∈ dict.preconfigured.getD [], FoundOnce call.preconfiguredRegistry bsdName

private theorem updateExcluded_again {registry' : IORegistry} {excluded : Option (List CFString)} {st st' : Monitor}
    (once : ∀ bsdName ∈ excluded.getD [], FoundOnce registry bsdName)
    (available : ∀ bsdName ∈ excluded.getD [], Available registry bsdName)
    (known : st'.excludedNames = (updateExcluded registry excluded st).2.excludedNames) :
    (updateExcluded registry' excluded st').1 = false := by
  by_cases same : excluded = st'.excludedNames
  · simp [updateExcluded,same]
  · by_cases before : excluded = st.excludedNames
    · rw [updateExcluded,if_pos before] at known
      exact absurd (before.trans known.symm) same
    · rw [updateExcluded,if_neg before] at known
      have known : st'.excludedNames = (findInterfaces registry excluded st.excludedNames).names := known
      rw [updateExcluded,if_neg same,known]
      exact again_of_once once available (known ▸ same)

private theorem updatePreconfigured_again {registry' : IORegistry} {preconfigured : Option (List CFString)}
    {st st' : Monitor}
    (once : ∀ bsdName ∈ preconfigured.getD [], FoundOnce registry bsdName)
    (available : ∀ bsdName ∈ preconfigured.getD [], Available registry bsdName)
    (known : st'.preconfiguredNames = (updatePreconfigured registry preconfigured st).2.preconfiguredNames) :
    (updatePreconfigured registry' preconfigured st').1 = false := by
  by_cases same : preconfigured = st'.preconfiguredNames
  · simp [updatePreconfigured,same]
  · by_cases before : preconfigured = st.preconfiguredNames
    · rw [updatePreconfigured,if_pos before] at known
      exact absurd (before.trans known.symm) same
    · rw [updatePreconfigured,if_neg before] at known
      have known : st'.preconfiguredNames = (findInterfaces registry preconfigured st.preconfiguredNames).names := known
      rw [updatePreconfigured,if_neg same,known]
      exact again_of_once once available (known ▸ same)

private theorem updateExcluded_preconfigured (registry : IORegistry) (excluded : Option (List CFString)) (st : Monitor) :
    (updateExcluded registry excluded st).2.preconfiguredNames = st.preconfiguredNames := by
  unfold updateExcluded
  split <;> rfl

private theorem updatePreconfigured_excluded (registry : IORegistry) (preconfigured : Option (List CFString))
    (st : Monitor) :
    (updatePreconfigured registry preconfigured st).2.excludedNames = st.excludedNames := by
  unfold updatePreconfigured
  split <;> rfl

/-- The names after a callback are those its two lists leave. -/
theorem storeCallback_names (call : Callback) (dict : Namer) (st : Monitor) :
    (storeCallback call (some dict) st).2.excludedNames =
        (updateExcluded call.excludedRegistry dict.excluded st).2.excludedNames ∧
      (storeCallback call (some dict) st).2.preconfiguredNames =
        (updatePreconfigured call.preconfiguredRegistry dict.preconfigured
          (updateExcluded call.excludedRegistry dict.excluded st).2).2.preconfiguredNames := by
  unfold storeCallback
  simp only []
  split
  · exact ⟨updatePreconfigured_excluded _ _ _,rfl⟩
  · exact ⟨updatePreconfigured_excluded _ _ _,rfl⟩

private theorem storeCallback_quiet (call : Callback) (dict : Namer) (st : Monitor)
    (excluded : (updateExcluded call.excludedRegistry dict.excluded st).1 = false)
    (preconfigured : (updatePreconfigured call.preconfiguredRegistry dict.preconfigured
      (updateExcluded call.excludedRegistry dict.excluded st).2).1 = false) :
    Action.updateConfiguration ∉ (storeCallback call (some dict) st).1 := by
  unfold storeCallback
  simp only [excluded,preconfigured]
  split
  · split <;> simp
  · simp

private theorem createService_name {copyInterfaceUUID : CFString → Option CFString} {answers : ServiceAnswers}
    {interface : Interface} {service : NetworkService}
    (created : createService copyInterfaceUUID answers interface = some service) :
    service.bsdName = some interface.bsdName := by
  unfold createService at created
  cases create : answers.create with
  | none => simp [create] at created
  | some random =>
    simp only [create] at created
    split at created
    · split at created
      · cases created
      · rw [← Option.some.inj created]
    · rw [← Option.some.inj created]

/-- The services that are created have the names of the interfaces. -/
theorem created_names (copyInterfaceUUID : CFString → Option CFString) (answers : Nat → ServiceAnswers)
    (interfaces : List Interface) (i : Nat) :
    (((interfaces.zipIdx i).filterMap fun (interface,i) => createService copyInterfaceUUID (answers i) interface).map
      NetworkService.bsdName).Sublist (interfaces.map fun interface => some interface.bsdName) := by
  induction interfaces generalizing i with
  | nil => exact .refl _
  | cons interface rest ih =>
    rw [List.zipIdx_cons,List.filterMap_cons,List.map_cons]
    split
    · exact (ih (i+1)).cons _
    · next service created =>
      rw [List.map_cons,createService_name created]
      exact (ih (i+1)).cons_cons _

private theorem names_of_parallel {registry : IORegistry} {names : List CFString} {interfaces : List Interface}
    (parallel : List.Forall₂ (fun bsdName interface => ∃ retry < 10, attempt registry bsdName retry = some interface)
      names interfaces) : interfaces.map Interface.bsdName = names := by
  induction parallel with
  | nil => rfl
  | @cons bsdName interface names interfaces here _ ih =>
    obtain ⟨retry,_,got⟩ := here
    have name : interface.bsdName = bsdName := by
      unfold attempt at got
      cases created : registry.createWithBSDName bsdName retry with
      | none => simp [created] at got
      | some other =>
        simp only [created] at got
        split at got
        · cases got
        · rw [← Option.some.inj got]
          exact registry.named bsdName retry other created
    rw [List.map_cons,name,ih]

/-- At most one service for each interface of a list that has each once. -/
theorem created_once {st : Monitor} {registry : IORegistry} {names : List CFString} {matched : Matched}
    (distinct : names.Nodup) (matches_ : Matches registry names matched)
    (interfaces : st.preconfiguredInterfaces = matched.interfaces)
    (copyInterfaceUUID : CFString → Option CFString) (answers : Nat → ServiceAnswers)
    (removes : NetworkService → Bool) (hasCurrentSet : Bool) (services : List NetworkService) (bsdName : CFString) :
    (updatePreConfiguredConfiguration copyInterfaceUUID answers removes hasCurrentSet st services).2.countP
      (fun service => service.bsdName = some bsdName) ≤ 1 := by
  unfold updatePreConfiguredConfiguration
  simp only []
  split
  · simp
  · split
    · simp
    · generalize (st.preconfiguredNames.getD []).length = range
      have all : (st.preconfiguredInterfaces.getD []).map Interface.bsdName = names.filter fun bsdName =>
          Available registry bsdName := by
        rw [interfaces,names_of_parallel matches_.parallel,matches_.listed]
      have named : (((st.preconfiguredInterfaces.getD []).take range).map fun interface => some interface.bsdName).Nodup := by
        have whole : ((st.preconfiguredInterfaces.getD []).map fun interface => some interface.bsdName).Nodup := by
          have each := (distinct.filter fun bsdName => Available registry bsdName).map (Option.some_injective CFString)
          rwa [← all,List.map_map] at each
        exact whole.sublist ((List.take_sublist range _).map _)
      have created := named.sublist (created_names copyInterfaceUUID answers _ 0)
      have once := List.nodup_iff_count_le_one.mp created (some bsdName)
      rw [List.count_eq_countP,List.countP_map] at once
      refine Nat.le_trans (List.countP_mono_left fun service _ same => ?_) once
      simpa using same

/-- What is meant to hold of the lists a callback is given: they are matched whatever
was known before, once all is there they cause no second update, and the services
created for the preconfigured list are one for an interface at most. -/
structure EachOnce (call : Callback) (dict : Namer) : Prop where
  excluded : ∀ known, Matches call.excludedRegistry (dict.excluded.getD [])
    (findInterfaces call.excludedRegistry dict.excluded known)
  preconfigured : ∀ known, Matches call.preconfiguredRegistry (dict.preconfigured.getD [])
    (findInterfaces call.preconfiguredRegistry dict.preconfigured known)
  again : AllAvailable call dict → ∀ call' st, AllAvailable call' dict →
    Action.updateConfiguration ∉ (storeCallback call' (some dict) (storeCallback call (some dict) st).2).1
  services : ∀ st : Monitor, dict.preconfigured ≠ st.preconfiguredNames →
    ∀ copyInterfaceUUID answers removes hasCurrentSet services bsdName,
      (updatePreConfiguredConfiguration copyInterfaceUUID answers removes hasCurrentSet
        (updatePreconfigured call.preconfiguredRegistry dict.preconfigured st).2 services).2.countP
          (fun service => service.bsdName = some bsdName) ≤ 1

/-- Interfaces are listed once exactly if none is found at two of its attempts: the
attempts go on after the first that succeeds. -/
theorem eachOnce_iff (call : Callback) (dict : Namer) (excluded : (dict.excluded.getD []).Nodup)
    (preconfigured : (dict.preconfigured.getD []).Nodup) : EachOnce call dict ↔ AllOnce call dict := by
  constructor
  · intro each
    exact ⟨once_of_matches excluded (each.excluded none),once_of_matches preconfigured (each.preconfigured none)⟩
  · intro once
    refine ⟨fun known => findInterfaces_matches _ known once.1,fun known => findInterfaces_matches _ known once.2,?_,?_⟩
    · intro available call' st _
      obtain ⟨excludedNames,preconfiguredNames⟩ := storeCallback_names call dict st
      refine storeCallback_quiet call' dict _ (updateExcluded_again once.1 available.1 excludedNames) ?_
      apply updatePreconfigured_again once.2 available.2
      rw [updateExcluded_preconfigured,preconfiguredNames]
    · intro st moved copyInterfaceUUID answers removes hasCurrentSet services bsdName
      apply created_once preconfigured (findInterfaces_matches dict.preconfigured st.preconfiguredNames once.2)
      rw [updatePreconfigured,if_neg moved]

def en0 : Interface := ⟨"en0".toList,some "/en0".toList⟩

def registryFrom (first : Nat) : IORegistry where
  createWithBSDName bsdName retry := if bsdName = en0.bsdName ∧ first ≤ retry then some en0 else none
  named := by
    intro bsdName retry interface created
    split at created
    · next here => rw [← Option.some.inj created,here.1]
    · cases created

def namer : Namer := ⟨true,false,none,some [en0.bsdName]⟩

def callbackFrom (first : Nat) : Callback := ⟨registryFrom first,registryFrom first,true,false⟩

theorem eachOnce_last : EachOnce (callbackFrom 9) namer :=
  (eachOnce_iff (callbackFrom 9) namer (by decide) (by decide)).mpr
    ⟨by simp [namer],by simp only [namer,Option.getD_some,List.mem_singleton,forall_eq]; unfold FoundOnce; decide⟩

theorem listed_ten_times : ¬ ∀ (call : Callback) (dict : Namer), (dict.excluded.getD []).Nodup →
    (dict.preconfigured.getD []).Nodup → EachOnce call dict := by
  intro always
  have listed := ((always (callbackFrom 0) namer (by decide) (by decide)).preconfigured none).listed
  exact absurd (congrArg List.length listed) (by decide)

end FreebsdLaunchd.PreferencesMonitor
