import FreebsdLaunchd.PreferencesMonitor.Update
import Mathlib.Data.List.TakeWhile

/-! The preferences of more than one hardware model in one file: those of the models
that are not the present one stand under keys with the model's name in front. -/
namespace FreebsdLaunchd.PreferencesMonitor
open Trees Preferences

variable {α : Type}

def MODEL : CFString := "Model".toList

def kSCPrefSets : CFString := "Sets".toList

/-- The session of the plugin and the file behind it. -/
structure PrefsFile (α : Type) where
  prefs : PrefsPrivate α
  stored : CFDictionary α

def scPreferencesCommitChanges (committed : Bool) (p : PrefsFile α) : PrefsFile α :=
  if committed then ⟨{p.prefs with changed := false},p.prefs.prefs⟩ else p

/-- `SCPreferencesCopyKeyList`: the keys, in the order in which the dictionary gives them. -/
def scPreferencesCopyKeyList (order : List CFString → List CFString) (prefs : PrefsPrivate α) : List CFString :=
  order (prefs.prefs.map Prod.fst)

def modelKey (model key : CFString) : CFString := model ++ ':' :: key

/-! ## A new model -/

/-- What the world does while the preferences are established: the lock, the order of
the keys, the description of a value that is no string, what the current or a default
set with its default configuration makes of the dictionary, and the commit. -/
structure EstablishIO (α : Type) where
  locked : Bool
  order : List CFString → List CFString
  describe : PropertyList α → CFString
  configure : CFDictionary α → Bool × CFDictionary α
  committed : Bool

def sameModel (old : PropertyList α) (newModel : CFString) : Bool :=
  match old with
  | .leaf (.string text) => text = newModel
  | _ => false

def modelText (describe : PropertyList α → CFString) : PropertyList α → CFString
  | .leaf (.string text) => text
  | old => describe old

def saveKey (oldModel : CFString) (prefs : PrefsPrivate α) (existingKey : CFString) : PrefsPrivate α :=
  -- skip what already contains a model
  if existingKey = MODEL ∨ ':' ∈ existingKey then prefs
  else
    match scPreferencesGetValue prefs existingKey with
    | none => prefs
    | some value =>
      let prefs := (scPreferencesSetValue prefs (modelKey oldModel existingKey) value).2
      -- preserve existing host names
      if existingKey = kSCPrefSystem then prefs else (scPreferencesRemoveValue prefs existingKey).2

/-- The first half of `establishNewPreferences`: the old model's keys and the new model's name. -/
def renewModel (io : EstablishIO α) (newModel : CFString) (prefs : PrefsPrivate α) : PrefsPrivate α :=
  let prefs := match scPreferencesGetValue prefs MODEL with
    | none => prefs
    | some oldModel =>
      if sameModel oldModel newModel then prefs
      else (scPreferencesCopyKeyList io.order prefs).foldl (saveKey (modelText io.describe oldModel)) prefs
  (scPreferencesSetValue prefs MODEL (.leaf (.string newModel))).2

def establishNewPreferences (io : EstablishIO α) (newModel : Option CFString) (p : PrefsFile α) : Bool × PrefsFile α :=
  if !io.locked then (false,p)
  else
    let prefs := match newModel with
      | none => p.prefs
      | some newModel => renewModel io newModel p.prefs
    let (ok,dict) := io.configure prefs.prefs
    let p := {p with prefs := {prefs := dict,changed := true}}
    if ok then (io.committed,scPreferencesCommitChanges io.committed p) else (false,p)

/-! ## A model that was there before -/

/-- What the world does while preferences are restored: the lock, the order of the
keys, the check of both files and the commit. -/
structure RestoreIO where
  locked : Bool
  order : List CFString → List CFString
  valid : Bool
  committed : Bool

def restoreKey (currentModel : CFString) (acc : Bool × PrefsPrivate α) (existingKey : CFString) : Bool × PrefsPrivate α :=
  if modelKey currentModel [] <+: existingKey then
    let key := (existingKey.splitOn ':').getD 1 []
    match scPreferencesGetValue acc.2 existingKey with
    | none => acc
    | some value => (true,(scPreferencesRemoveValue (scPreferencesSetValue acc.2 key value).2 existingKey).2)
  else acc

def restorePreferences (io : RestoreIO) (currentModel : Option CFString) (p : PrefsFile α) : Bool × PrefsFile α :=
  if !io.locked then (false,p)
  else
    match currentModel with
    | none => (false,p)
    | some currentModel =>
      let (modified,prefs) := (scPreferencesCopyKeyList io.order p.prefs).foldl (restoreKey currentModel) (false,p.prefs)
      let p := {p with prefs := prefs}
      -- commit the changes only if the files are valid
      (modified,if modified && io.valid then scPreferencesCommitChanges io.committed p else p)

/-- Only a backup of `Sets` counts. -/
def previousConfigurationAvailable (prefs : PrefsPrivate α) (currentModel : Option CFString) : Bool :=
  match currentModel with
  | none => false
  | some currentModel => (scPreferencesGetValue prefs (modelKey currentModel kSCPrefSets)).isSome

/-! ## From the start of the plugin -/

structure BootIO (α : Type) where
  /-- Whether `SCNetworkSetCopyCurrent` finds a set. -/
  current : CFDictionary α → Bool
  establish : EstablishIO α
  restore : RestoreIO

def needUpdate (prefs : PrefsPrivate α) (newModel : Option CFString) : Bool :=
  match newModel with
  | none => false
  | some newModel =>
    match scPreferencesGetValue prefs MODEL with
    | none => false
    | some oldModel => !sameModel oldModel newModel

/-- The file after a start on the model: what is there is kept if the model is not new
and a set can be found; the rest is done once the interfaces are known. -/
def boot (io : BootIO α) (newModel : Option CFString) (stored : CFDictionary α) : CFDictionary α :=
  let p : PrefsFile α := ⟨⟨stored,false⟩,stored⟩
  let update := needUpdate p.prefs newModel
  let restorePrefs := update && previousConfigurationAvailable p.prefs newModel
  let haveConfiguration := !update && io.current stored
  if haveConfiguration then stored
  else
    let p := (establishNewPreferences io.establish newModel p).2
    if restorePrefs then (restorePreferences io.restore newModel p).2.stored else p.stored

end FreebsdLaunchd.PreferencesMonitor
