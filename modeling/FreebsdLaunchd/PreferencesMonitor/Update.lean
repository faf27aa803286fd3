import FreebsdLaunchd.Preferences.Path

/-! How the preferences monitor brings the `Setup:` keys of the dynamic store up
to date: the preferences are flattened into one dictionary for each path, and
compared with what the store has. -/
namespace FreebsdLaunchd.PreferencesMonitor
open Trees Preferences

def kSCDynamicStoreDomainSetup : CFString := "Setup:".toList

def kSCDynamicStorePropSetupCurrentSet : CFString := "CurrentSet".toList

def kSCDynamicStorePropSetupLastUpdated : CFString := "LastUpdated".toList

def kSCPrefSystem : CFString := "System".toList

def kSCPrefCurrentSet : CFString := "CurrentSet".toList

def kSCResvInactive : CFString := "__INACTIVE__".toList

variable {α : Type}

abbrev Store (α : Type) := List (CFString × PropertyList α)

/-- The dictionaries to be in the store, by their keys. -/
abbrev NewPrefs (α : Type) := List (CFString × CFDictionary α)

/-! ## Flattening -/

def followed (prefs : PrefsPrivate α) (base : CFDictionary α) : Option (CFDictionary α) :=
  match find base kSCResvLink with
  | none => some base
  | some link =>
    match scPreferencesPathGetValue prefs link with
    | .error _ => none
    | .ok subset => some subset

def setupKey (key : CFString) : CFString := kSCDynamicStoreDomainSetup ++ key

def subKey (key element : CFString) : CFString :=
  key ++ (if key = "/".toList then [] else "/".toList) ++ element

/-- One entry of a dictionary that is flattened: a value is added to the dictionary
of this key, a subdictionary is flattened in its turn. -/
def flattenEntry (flatten : CFString → CFDictionary α → NewPrefs α → Option (NewPrefs α)) (key : CFString)
    (state : CFDictionary α × NewPrefs α) (entry : CFString × PropertyList α) :
    Option (CFDictionary α × NewPrefs α) :=
  match entry.2 with
  | .leaf value => some (set state.1 entry.1 (.leaf value),state.2)
  | .dict sub => (flatten (subKey key entry.1) sub state.2).map fun newPrefs => (state.1,newPrefs)

/-- `none` stands for a recursion deeper than `depth`. -/
def flatten (prefs : PrefsPrivate α) : Nat → CFString → CFDictionary α → NewPrefs α → Option (NewPrefs α)
  | 0, _, _, _ => none
  | depth+1, key, base, newPrefs =>
    match followed prefs base with
    | none => some newPrefs
    | some subset =>
      if (find subset kSCResvInactive).isSome then some newPrefs
      else
        let myDict := (find newPrefs (setupKey key)).getD []
        match subset.foldlM (flattenEntry (flatten prefs depth) key) (myDict,newPrefs) with
        | none => none
        | some (myDict,newPrefs) =>
          if myDict = [] then some newPrefs else some (set newPrefs (setupKey key) myDict)

/-! ## Loading and comparing -/

/-- The current set's part: the set is flattened over what is there already. -/
def getSet (prefs : PrefsPrivate α) (depth : Nat) (newPrefs : NewPrefs α) :
    Option (NewPrefs α × Option CFString) :=
  match scPreferencesGetValue prefs kSCPrefCurrentSet with
  | some (.leaf (.string current)) =>
    match scPreferencesPathGetValue prefs (.leaf (.string current)) with
    | .error _ => some (newPrefs,none)
    | .ok theSet => (flatten prefs depth "/".toList theSet newPrefs).map fun newPrefs => (newPrefs,some current)
  | _ => some (newPrefs,none)

/-- The flattened preferences, and the current set if there is one. -/
def loadPreferences (prefs : PrefsPrivate α) (depth : Nat) : Option (NewPrefs α × Option CFString) :=
  if prefs.prefs = [] then some ([],none)
  else
    match scPreferencesGetValue prefs kSCPrefSystem with
    | none => getSet prefs depth []
    | some (.leaf _) => some ([],none)
    | some (.dict global) =>
      match flatten prefs depth "/".toList global [] with
      | none => none
      | some newPrefs => getSet prefs depth newPrefs

def setupDict (current : Option CFString) (date : α) : CFDictionary α :=
  let dict := match current with
    | none => []
    | some current => set [] kSCDynamicStorePropSetupCurrentSet (.leaf (.string current))
  set dict kSCDynamicStorePropSetupLastUpdated (.leaf (.other date))

structure Submission (α : Type) where
  set : NewPrefs α
  remove : List CFString

variable [DecidableEq α]

/-- The keys unchanged so far and those still to be removed, after one more key of
the new preferences. -/
def updateCache (currentPrefs : Store α) (keys : List CFString × List CFString)
    (entry : CFString × CFDictionary α) : List CFString × List CFString :=
  let unchangedPrefsKeys := match find currentPrefs entry.1 with
    | none => keys.1
    | some cacheData => if Tree.same cacheData (.dict entry.2) then keys.1 ++ [entry.1] else keys.1
  -- in any case, this key should not be removed
  (unchangedPrefsKeys,keys.2.erase entry.1)

def updateSCDynamicStore (prefs : PrefsPrivate α) (date : α) (depth : Nat) (store : Store α) :
    Option (Submission α) :=
  let currentPrefs := store.filter fun entry => kSCDynamicStoreDomainSetup.isPrefixOf entry.1
  match loadPreferences prefs depth with
  | none => none
  | some (newPrefs,current) =>
    let newPrefs := set newPrefs kSCDynamicStoreDomainSetup (setupDict current date)
    let keys := newPrefs.foldl (updateCache currentPrefs) ([],currentPrefs.map Prod.fst)
    some ⟨keys.1.foldl erase newPrefs,keys.2⟩

def scDynamicStoreSetMultiple (store : Store α) (submission : Submission α) : Store α :=
  submission.remove.foldl erase (submission.set.foldl (fun store entry => set store entry.1 (.dict entry.2)) store)

end FreebsdLaunchd.PreferencesMonitor
