import FreebsdLaunchd.PreferencesMonitor.Renaming
import Mathlib.Logic.Relation

/-! Hardware that changes and changes back: what is saved when a model is left, that
it stays while other models come and go, and what is there when the model returns. -/
namespace FreebsdLaunchd.PreferencesMonitor
open Trees Preferences Relation

variable {α : Type} {d d' : CFDictionary α} {q key model : CFString}

/-! ## One change of the model -/

def stringValue (text : CFString) : PropertyList α := .leaf (.string text)

/-- Every key with a model in front is one that was saved, and the present model is a name. -/
structure WellSaved (d : CFDictionary α) : Prop where
  model : ∃ model, Plain model ∧ find d MODEL = some (stringValue model)
  saved : ∀ q, find d q ≠ none → ':' ∈ q → ∃ model key, Plain model ∧ Saveable key ∧ q = modelKey model key

/-- The world lets everything succeed, and the default creation writes only the keys of `D`. -/
structure BootIO.Fine (io : BootIO α) (D : CFString → Prop) : Prop where
  locked : io.establish.locked = true
  order : ∀ keys q, q ∈ io.establish.order keys ↔ q ∈ keys
  configured : ∀ d, (io.establish.configure d).1 = true
  creates : ∀ d q, ¬ D q → find (io.establish.configure d).2 q = find d q
  committed : io.establish.committed = true
  locked' : io.restore.locked = true
  order' : ∀ keys q, q ∈ io.restore.order keys ↔ q ∈ keys
  valid : io.restore.valid = true
  committed' : io.restore.committed = true

/-- What a change from the one model to the other does to the file. -/
structure Changed (D : CFString → Prop) (left new : CFString) (d d' : CFDictionary α) : Prop where
  model : find d' MODEL = some (stringValue new)
  saved : ∀ key, Saveable key → find d' (modelKey left key) = (find d key).or (find d (modelKey left key))
  untouched : ∀ q, ':' ∈ q → (∀ key, Saveable key → q ≠ modelKey left key) → ¬ modelKey new [] <+: q →
    find d' q = find d q
  unavailable : find d (modelKey new kSCPrefSets) = none → ∀ q, modelKey new [] <+: q → find d' q = find d q
  cleared : find d (modelKey new kSCPrefSets) ≠ none → ∀ q, modelKey new [] <+: q → find d' q = none
  restored : find d (modelKey new kSCPrefSets) ≠ none → ∀ key v, Saveable key →
    find d (modelKey new key) = some v → find d' key = some v
  fresh : ∀ key, Saveable key → ¬ D key → key ≠ kSCPrefSystem → find d' key ≠ none →
    find d (modelKey new kSCPrefSets) ≠ none ∧ find d (modelKey new key) ≠ none

variable {D : CFString → Prop} {io : BootIO α} {left new : CFString}

private theorem plain_model : Plain MODEL := by decide

def established (io : BootIO α) (new : CFString) (d : CFDictionary α) : CFDictionary α :=
  (io.establish.configure (renewModel io.establish new ⟨d,false⟩).prefs).2

private theorem renewModel_find (named : find d MODEL = some (stringValue left)) (other : left ≠ new)
    (q : CFString) : find (renewModel io.establish new ⟨d,false⟩).prefs q = if MODEL = q then some (stringValue new) else
      find ((scPreferencesCopyKeyList io.establish.order ⟨d,false⟩).foldl (saveKey left) ⟨d,false⟩).prefs q := by
  have differ : sameModel (stringValue left : PropertyList α) new = false := by simpa [sameModel,stringValue] using other
  have text : modelText io.establish.describe (stringValue left) = left := rfl
  simp only [renewModel,scPreferencesGetValue,named,differ,text,scPreferencesSetValue,find_set]
  simp [stringValue]

private theorem mem_keyList (fine : io.Fine D) {q : CFString} :
    q ∈ scPreferencesCopyKeyList io.establish.order ⟨d,false⟩ ↔ find d q ≠ none := by
  rw [scPreferencesCopyKeyList,fine.order,find_isSome]

private theorem established_model (fine : io.Fine D) (keeps : ¬ D MODEL) (named : find d MODEL = some (stringValue left))
    (other : left ≠ new) : find (established io new d) MODEL = some (stringValue new) := by
  rw [established,fine.creates _ _ keeps,renewModel_find named other,if_pos rfl]

private theorem established_plain (fine : io.Fine D) (named : find d MODEL = some (stringValue left)) (other : left ≠ new)
    (saveable : Saveable q) (uncreated : ¬ D q) (notSystem : q ≠ kSCPrefSystem) :
    find (established io new d) q = none := by
  rw [established,fine.creates _ _ uncreated,renewModel_find named other,if_neg saveable.1.symm,
    saved_plain _ _ saveable.2]
  split
  · rfl
  · rename_i kept
    by_contra present
    exact kept ⟨(mem_keyList fine).mpr present,saveable.1,notSystem⟩

private theorem established_saved (fine : io.Fine D) (plainD : ∀ q, D q → Plain q) (plain : Plain left)
    (named : find d MODEL = some (stringValue left)) (other : left ≠ new) (saveable : Saveable key) :
    find (established io new d) (modelKey left key) = (find d key).or (find d (modelKey left key)) := by
  have colon := modelKey_colon left key
  rw [established,fine.creates _ _ fun created => plainD _ created colon,renewModel_find named other,
    if_neg (modelKey_ne_plain plain_model).symm,saved_saved plain _ _ saveable]
  split
  · rfl
  · rename_i absent
    have absent : find d key = none := by
      by_contra present
      exact absent ((mem_keyList fine).mpr present)
    rw [absent,Option.none_or]

private theorem established_other (fine : io.Fine D) (plainD : ∀ q, D q → Plain q)
    (named : find d MODEL = some (stringValue left)) (other : left ≠ new) (colon : ':' ∈ q)
    (unsaved : ∀ key, Saveable key → q ≠ modelKey left key) : find (established io new d) q = find d q := by
  have apart : MODEL ≠ q := by
    rintro rfl
    exact plain_model colon
  rw [established,fine.creates _ _ fun created => plainD _ created colon,renewModel_find named other,if_neg apart,
    saved_other _ _ colon unsaved]

/-- The keys that a restoring start finds, and what it makes of the dictionary. -/
def restoredFrom (io : BootIO α) (new : CFString) (d : CFDictionary α) : CFDictionary α :=
  ((scPreferencesCopyKeyList io.restore.order ⟨d,false⟩).foldl (restoreKey new) (false,⟨d,false⟩)).2.prefs

private theorem boot_new (fine : io.Fine D) (plain : Plain new) (named : find d MODEL = some (stringValue left))
    (other : left ≠ new)
    (shaped : OneColon new (scPreferencesCopyKeyList io.restore.order ⟨established io new d,false⟩)) :
    boot io (some new) d = if find d (modelKey new kSCPrefSets) ≠ none
      then restoredFrom io new (established io new d) else established io new d := by
  have differ : sameModel (stringValue left : PropertyList α) new = false := by simpa [sameModel,stringValue] using other
  have update : needUpdate (⟨d,false⟩ : PrefsPrivate α) (some new) = true := by
    simp [needUpdate,scPreferencesGetValue,named,differ]
  have half : establishNewPreferences io.establish (some new) ⟨⟨d,false⟩,d⟩ =
      (true,⟨⟨established io new d,false⟩,established io new d⟩) := by
    simp [establishNewPreferences,fine.locked,fine.configured,fine.committed,scPreferencesCommitChanges,established]
  simp only [boot,update,half,Bool.not_true,Bool.false_and,Bool.true_and,Bool.false_eq_true,if_false]
  cases found : find d (modelKey new kSCPrefSets) with
  | none => simp [previousConfigurationAvailable,scPreferencesGetValue,found]
  | some sets =>
    simp only [previousConfigurationAvailable,scPreferencesGetValue,found,Option.isSome_some,if_true,ne_eq,
      reduceCtorEq,not_false_eq_true]
    simp only [restorePreferences,fine.locked',Bool.not_true,Bool.false_eq_true,if_false,restoredFrom]
    rcases restored_modified plain _ shaped with same | modified
    · rw [same]
      simp
    · simp [modified,fine.valid,fine.committed',scPreferencesCommitChanges]

private theorem mem_restoreList (fine : io.Fine D) {q : CFString} :
    q ∈ scPreferencesCopyKeyList io.restore.order ⟨d,false⟩ ↔ find d q ≠ none := by
  rw [scPreferencesCopyKeyList,fine.order',find_isSome]

theorem WellSaved.oneColon (well : WellSaved d) (plain : Plain new) {keys : List CFString}
    (present : ∀ q ∈ keys, find d q ≠ none) : OneColon new keys := by
  intro q member within
  obtain ⟨key,rfl⟩ := prefix_modelKey.mp within
  obtain ⟨model,key',plainModel,saveable,same⟩ := well.saved _ (present _ member) (modelKey_colon _ _)
  obtain ⟨rfl,rfl⟩ := modelKey_inj plain plainModel same
  exact ⟨key,saveable.2,rfl⟩

/-- The file between the halves is well saved again. -/
theorem established_well (fine : io.Fine D) (plainD : ∀ q, D q → Plain q) (keeps : ¬ D MODEL) (well : WellSaved d)
    (plain : Plain new) (plainLeft : Plain left) (named : find d MODEL = some (stringValue left)) (other : left ≠ new) :
    WellSaved (established io new d) where
  model := ⟨new,plain,established_model fine keeps named other⟩
  saved := by
    intro q present colon
    by_cases unsaved : ∀ key, Saveable key → q ≠ modelKey left key
    · rw [established_other fine plainD named other colon unsaved] at present
      exact well.saved q present colon
    · obtain ⟨key,saveable,rfl⟩ : ∃ key, Saveable key ∧ q = modelKey left key := by
        by_contra none_
        exact unsaved fun key saveable same => none_ ⟨key,saveable,same⟩
      exact ⟨left,key,plainLeft,saveable,rfl⟩

/-- A start on another model saves what the one holds and restores what was saved of
the other, provided its `Sets` were. -/
theorem boot_changed (fine : io.Fine D) (plainD : ∀ q, D q → Plain q) (keeps : ¬ D MODEL) (well : WellSaved d)
    (plain : Plain new) (plainLeft : Plain left) (named : find d MODEL = some (stringValue left)) (other : left ≠ new) :
    Changed D left new d (boot io (some new) d) := by
  have well' := established_well fine plainD keeps well plain plainLeft named other
  have shaped : OneColon new (scPreferencesCopyKeyList io.restore.order ⟨established io new d,false⟩) :=
    well'.oneColon plain fun q member => (mem_restoreList fine).mp member
  have between : ∀ key key', modelKey new key ≠ modelKey left key' := fun key key' same =>
    other (modelKey_inj plain plainLeft same).1.symm
  have kept : ∀ key, find (established io new d) (modelKey new key) = find d (modelKey new key) := fun key =>
    established_other fine plainD named other (modelKey_colon new key) fun key' _ => between key key'
  have outside : ∀ key, ¬ modelKey new [] <+: modelKey left key := by
    intro key within
    obtain ⟨key',same⟩ := prefix_modelKey.mp within
    exact between key' key same.symm
  rw [boot_new fine plain named other shaped]
  by_cases available : find d (modelKey new kSCPrefSets) = none
  · rw [if_neg (not_not.mpr available)]
    refine ⟨established_model fine keeps named other,fun key => established_saved fine plainD plainLeft named other,
      fun q colon unsaved _ => established_other fine plainD named other colon unsaved,?_,
      fun absurdity => absurd available absurdity,fun absurdity => absurd available absurdity,?_⟩
    · intro _ q within
      obtain ⟨key,rfl⟩ := prefix_modelKey.mp within
      exact kept key
    · intro key saveable uncreated notSystem present
      exact absurd (established_plain fine named other saveable uncreated notSystem) present
  · rw [if_pos available,restoredFrom]
    refine ⟨?_,?_,?_,fun absurdity => absurd absurdity available,?_,?_,?_⟩
    · have unsaved : find (established io new d) (modelKey new MODEL) = none := by
        by_contra present
        obtain ⟨model,key,plainModel,saveable,same⟩ := well'.saved _ present (modelKey_colon _ _)
        exact saveable.1 (modelKey_inj plain plainModel same).2.symm
      rw [restored_plain plain _ shaped plain_model,unsaved,Option.none_or,ite_self]
      exact established_model fine keeps named other
    · intro key saveable
      rw [restored_other plain _ shaped (modelKey_colon _ _) (outside key)]
      exact established_saved fine plainD plainLeft named other saveable
    · intro q colon unsaved without
      rw [restored_other plain _ shaped colon without]
      exact established_other fine plainD named other colon unsaved
    · intro _ q within
      rw [restored_cleared plain _ shaped within]
      split
      · rfl
      · rename_i absent
        by_contra present
        exact absent ((mem_restoreList fine).mpr present)
    · intro _ key v saveable found
      rw [← kept key] at found
      rw [restored_plain plain _ shaped saveable.2,if_pos ((mem_restoreList fine).mpr (by rw [found]; simp)),found]
      rfl
    · intro key saveable uncreated notSystem present
      rw [restored_plain plain _ shaped saveable.2,established_plain fine named other saveable uncreated notSystem,
        Option.or_none] at present
      split at present
      · rw [kept key] at present
        exact ⟨available,present⟩
      · exact absurd rfl present

/-- On the model that is there already, only the default creation may write. -/
theorem boot_same (fine : io.Fine D) (plainD : ∀ q, D q → Plain q) (keeps : ¬ D MODEL)
    (named : find d MODEL = some (stringValue new)) (fixed : ':' ∈ q ∨ q = MODEL) :
    find (boot io (some new) d) q = find d q := by
  have same : sameModel (stringValue new : PropertyList α) new = true := by simp [sameModel,stringValue]
  have update : needUpdate (⟨d,false⟩ : PrefsPrivate α) (some new) = false := by
    simp [needUpdate,scPreferencesGetValue,named,same]
  have uncreated : ¬ D q := by
    rcases fixed with colon | rfl
    · exact fun created => plainD q created colon
    · exact keeps
  have renewed : find (renewModel io.establish new ⟨d,false⟩).prefs q = find d q := by
    simp only [renewModel,scPreferencesGetValue,named,same,if_true,scPreferencesSetValue,find_set]
    split
    · rename_i here
      subst here
      exact named.symm
    · rfl
  simp only [boot,update,Bool.not_false,Bool.true_and,Bool.false_and,Bool.false_eq_true,if_false]
  split
  · rfl
  · simp only [establishNewPreferences,fine.locked,fine.configured,fine.committed,scPreferencesCommitChanges,
      Bool.not_true,Bool.false_eq_true,if_false,if_true]
    rw [fine.creates _ _ uncreated,renewed]

/-! ## Runs -/

/-- Between starts, the keys without a colon are edited, the model's own aside. -/
inductive Step (D : CFString → Prop) : CFDictionary α → CFDictionary α → Prop
  | edit {d d' : CFDictionary α} (same : ∀ q, ':' ∈ q ∨ q = MODEL → find d' q = find d q) : Step D d d'
  | boot {d : CFDictionary α} {io : BootIO α} {new : CFString} (fine : io.Fine D) (plain : Plain new) :
      Step D d (boot io (some new) d)

def Away (D : CFString → Prop) (model : CFString) (d d' : CFDictionary α) : Prop :=
  Step D d d' ∧ find d' MODEL ≠ some (stringValue model)

private theorem stringValue_inj {text text' : CFString} (same : (stringValue text : PropertyList α) = stringValue text') :
    text = text' := Leaf.string.inj (Tree.leaf.inj same)

theorem WellSaved.fixed (well : WellSaved d) (same : ∀ q, ':' ∈ q ∨ q = MODEL → find d' q = find d q) :
    WellSaved d' where
  model := by
    rw [same MODEL (.inr rfl)]
    exact well.model
  saved := by
    intro q present colon
    rw [same q (.inl colon)] at present
    exact well.saved q present colon

theorem Changed.well (changed : Changed D left new d d') (well : WellSaved d) (plain : Plain new)
    (plainLeft : Plain left) : WellSaved d' where
  model := ⟨new,plain,changed.model⟩
  saved := by
    intro q present colon
    by_cases within : modelKey new [] <+: q
    · by_cases available : find d (modelKey new kSCPrefSets) = none
      · rw [changed.unavailable available q within] at present
        exact well.saved q present colon
      · exact absurd (changed.cleared available q within) present
    · by_cases unsaved : ∀ key, Saveable key → q ≠ modelKey left key
      · rw [changed.untouched q colon unsaved within] at present
        exact well.saved q present colon
      · obtain ⟨key,saveable,rfl⟩ : ∃ key, Saveable key ∧ q = modelKey left key := by
          by_contra none_
          exact unsaved fun key saveable same => none_ ⟨key,saveable,same⟩
        exact ⟨left,key,plainLeft,saveable,rfl⟩

variable (plainD : ∀ q, D q → Plain q) (modelStays : ¬ D MODEL)

include plainD modelStays

/-- A step keeps what has a colon, or it is a change of the model. -/
theorem Step.outcome (step : Step D d d') (well : WellSaved d) :
    (∀ q, ':' ∈ q ∨ q = MODEL → find d' q = find d q) ∨
      ∃ left new, Plain left ∧ Plain new ∧ left ≠ new ∧ find d MODEL = some (stringValue left) ∧
        Changed D left new d d' := by
  cases step with
  | edit same => exact .inl same
  | @boot io new fine plain =>
    obtain ⟨left,plainLeft,named⟩ := well.model
    by_cases same : left = new
    · subst same
      exact .inl fun q fixed => boot_same fine plainD modelStays named fixed
    · exact .inr ⟨left,new,plainLeft,plain,same,named,boot_changed fine plainD modelStays well plain plainLeft named same⟩

theorem Step.well (step : Step D d d') (well : WellSaved d) : WellSaved d' := by
  rcases step.outcome plainD modelStays well with same | ⟨left,new,plainLeft,plain,_,_,changed⟩
  · exact well.fixed same
  · exact changed.well well plain plainLeft

private theorem run_well (run : ReflTransGen (Step D) d d') (well : WellSaved d) : WellSaved d' := by
  induction run with
  | refl => exact well
  | tail _ step ih => exact step.well plainD modelStays ih

/-- While another model is there, what was saved of one stays. -/
theorem Away.keeps {left : CFDictionary α} (plain : Plain model) (away : ReflTransGen (Away D model) left d)
    (well : WellSaved left) (other : find left MODEL ≠ some (stringValue model)) :
    WellSaved d ∧ find d MODEL ≠ some (stringValue model) ∧
      ∀ key, find d (modelKey model key) = find left (modelKey model key) := by
  induction away with
  | refl => exact ⟨well,other,fun _ => rfl⟩
  | tail _ away ih =>
    obtain ⟨well',other',kept⟩ := ih
    obtain ⟨step,gone⟩ := away
    refine ⟨step.well plainD modelStays well',gone,fun key => ?_⟩
    rw [← kept key]
    rcases step.outcome plainD modelStays well' with same | ⟨old,new,plainOld,plainNew,_,named,changed⟩
    · exact same _ (.inl (modelKey_colon model key))
    · have notOld : model ≠ old := fun same => other' (same ▸ named)
      have notNew : model ≠ new := fun same => gone (same ▸ changed.model)
      refine changed.untouched _ (modelKey_colon model key) (fun key' _ same => ?_) fun within => ?_
      · exact notOld (modelKey_inj plain plainOld same).1
      · obtain ⟨key',same⟩ := prefix_modelKey.mp within
        exact notNew (modelKey_inj plain plainNew same).1

omit plainD modelStays

/-- The file after a change back to a model, against the one when it was left and the
one just before the change, which was the model `gone`'s. -/
structure Returned (D : CFString → Prop) (left back after : CFDictionary α) (model gone : CFString) : Prop where
  present : find after MODEL = some (stringValue model)
  values : ∀ key v, Saveable key → find left key = some v → find after key = some v
  nothingElse : ∀ key, Saveable key → ¬ D key → key ≠ kSCPrefSystem → find after key ≠ none →
    find left key ≠ none ∨ find left (modelKey model key) ≠ none
  leftovers : ∀ key v, Saveable key → find left key = none → find left (modelKey model key) = some v →
    find after key = some v
  cleared : ∀ q, modelKey model [] <+: q → find after q = none
  others : ∀ other key, Plain other → other ≠ model → other ≠ gone →
    find after (modelKey other key) = find back (modelKey other key)
  gone : ∀ key, Saveable key →
    find after (modelKey gone key) = (find back key).or (find back (modelKey gone key))

variable {start leave back : CFDictionary α} {io' : BootIO α} {gone : CFString}

/-- A model that comes back finds its preferences as it left them, if they held its
sets. Beside them it finds what an earlier departure had saved and no return had restored. -/
theorem return_restores (plainD : ∀ q, D q → Plain q) (modelStays : ¬ D MODEL) (well : WellSaved start)
    (run : ReflTransGen (Step D) start leave) (plain : Plain model)
    (named : find leave MODEL = some (stringValue model)) (sets : find leave kSCPrefSets ≠ none)
    (fine : io.Fine D) (plainNew : Plain new) (other : model ≠ new)
    (away : ReflTransGen (Away D model) (boot io (some new) leave) back)
    (goneNamed : find back MODEL = some (stringValue gone)) (fine' : io'.Fine D) :
    Returned D leave back (boot io' (some model) back) model gone := by
  have wellLeave := run_well plainD modelStays run well
  have change := boot_changed fine plainD modelStays wellLeave plainNew plain named other
  have differs : find (boot io (some new) leave) MODEL ≠ some (stringValue model) := by
    rw [change.model]
    exact fun same => other (stringValue_inj (Option.some.inj same)).symm
  obtain ⟨wellBack,notBack,kept⟩ := Away.keeps plainD modelStays plain away
    (change.well wellLeave plainNew plain) differs
  have saved : ∀ key, Saveable key →
      find back (modelKey model key) = (find leave key).or (find leave (modelKey model key)) := fun key saveable => by
    rw [kept,change.saved key saveable]
  have notGone : gone ≠ model := fun same => notBack (same ▸ goneNamed)
  have plainGone : Plain gone := by
    obtain ⟨text,plainText,named'⟩ := wellBack.model
    rw [stringValue_inj (Option.some.inj (goneNamed.symm.trans named'))]
    exact plainText
  have returned := boot_changed fine' plainD modelStays wellBack plain plainGone goneNamed notGone
  have available : find back (modelKey model kSCPrefSets) ≠ none := by
    obtain ⟨v,found⟩ := Option.ne_none_iff_exists'.mp sets
    rw [saved _ (by decide),found]
    simp
  refine ⟨returned.model,?_,?_,?_,returned.cleared available,?_,returned.saved⟩
  · intro key v saveable found
    exact returned.restored available key v saveable (by rw [saved key saveable,found]; rfl)
  · intro key saveable uncreated notSystem present
    obtain ⟨_,there⟩ := returned.fresh key saveable uncreated notSystem present
    rw [saved key saveable] at there
    by_cases absent : find leave key = none
    · rw [absent,Option.none_or] at there
      exact .inr there
    · exact .inl absent
  · intro key v saveable absent leftover
    exact returned.restored available key v saveable (by rw [saved key saveable,absent,leftover]; rfl)
  · intro third key plainThird notModel notGone'
    refine returned.untouched _ (modelKey_colon third key) (fun key' _ same => ?_) fun within => ?_
    · exact notGone' (modelKey_inj plainThird plainGone same).1
    · obtain ⟨key',same⟩ := prefix_modelKey.mp within
      exact notModel (modelKey_inj plainThird plain same).1

def createSets : BootIO Nat where
  current d := (find d kSCPrefSets).isSome
  establish := ⟨true,id,fun _ => [],fun d => (true,set d kSCPrefSets (.dict [])),true⟩
  restore := ⟨true,id,true,true⟩

private theorem createSets_fine : createSets.Fine (· = kSCPrefSets) where
  locked := rfl
  order _ _ := Iff.rfl
  configured _ := rfl
  creates d q other := by simp [createSets,Ne.symm other]
  committed := rfl
  locked' := rfl
  order' _ _ := Iff.rfl
  valid := rfl
  committed' := rfl

def setless : CFDictionary Nat := [(MODEL,stringValue "A".toList),("k".toList,.leaf (.other 1))]

/-- The file when the model has come back once, without its preferences. -/
def cameBack : CFDictionary Nat := boot createSets (some "A".toList) (boot createSets (some "B".toList) setless)

private theorem setless_well : WellSaved setless where
  model := ⟨"A".toList,by decide,rfl⟩
  saved := by
    intro q present colon
    have member := find_isSome.mp present
    simp only [setless,List.map_cons,List.map_nil,List.mem_cons,List.not_mem_nil,or_false] at member
    rcases member with rfl | rfl <;> exact absurd colon (by decide)

private theorem cameBack_run : ReflTransGen (Step (· = kSCPrefSets)) setless cameBack :=
  (ReflTransGen.single (.boot createSets_fine (by decide))).tail (.boot createSets_fine (by decide))

private theorem cameBack_sets : find cameBack kSCPrefSets ≠ none := by
  have found : find cameBack kSCPrefSets = some (.dict []) := rfl
  simp [found]

theorem return_restores_sets :
    Returned (· = kSCPrefSets) cameBack (boot createSets (some "B".toList) cameBack)
      (boot createSets (some "A".toList) (boot createSets (some "B".toList) cameBack)) "A".toList "B".toList :=
  return_restores (by rintro _ rfl; decide) (by decide) setless_well cameBack_run (by decide) rfl cameBack_sets
    createSets_fine (by decide) (by decide) .refl rfl createSets_fine

/-- What an earlier departure saved comes back although it was not there any more. -/
theorem return_brings_leftovers :
    ¬ ∀ (D : CFString → Prop) (start leave back : CFDictionary Nat) (io io' : BootIO Nat) (model new : CFString),
      (∀ q, D q → Plain q) → ¬ D MODEL → WellSaved start → ReflTransGen (Step D) start leave → Plain model →
      find leave MODEL = some (stringValue model) → find leave kSCPrefSets ≠ none → io.Fine D → Plain new →
      model ≠ new → ReflTransGen (Away D model) (boot io (some new) leave) back → io'.Fine D →
      ∀ key, Saveable key → ¬ D key → key ≠ kSCPrefSystem → find (boot io' (some model) back) key ≠ none →
        find leave key ≠ none := by
  intro always
  have found : find (boot createSets (some "A".toList) (boot createSets (some "B".toList) cameBack)) "k".toList =
      some (.leaf (.other 1)) := rfl
  have absent : find cameBack "k".toList = none := rfl
  exact always (· = kSCPrefSets) setless cameBack _ createSets createSets "A".toList "B".toList
    (by rintro _ rfl; decide) (by decide) setless_well cameBack_run (by decide) rfl cameBack_sets createSets_fine
    (by decide) (by decide) .refl createSets_fine "k".toList (by decide) (by decide) (by decide) (by rw [found]; simp) absent

end FreebsdLaunchd.PreferencesMonitor
