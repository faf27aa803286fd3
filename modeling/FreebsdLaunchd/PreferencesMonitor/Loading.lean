import FreebsdLaunchd.PreferencesMonitor.Flatten

/-! What of the preferences is to be mirrored in the store, and that loading them
comes to an end with exactly this. -/
namespace FreebsdLaunchd.PreferencesMonitor
open Trees Tree Preferences

variable {α : Type} {prefs prefs' : PrefsPrivate α} {base base' : CFDictionary α} {path : List CFString}
  {k key : CFString} {newPrefs : NewPrefs α} {current : Option CFString}

/-! ## What is to be mirrored -/

def system (prefs : PrefsPrivate α) : Option (CFDictionary α) :=
  match find prefs.prefs kSCPrefSystem with
  | some (.dict global) => some global
  | _ => none

def currentSet (prefs : PrefsPrivate α) : Option (CFString × CFDictionary α) :=
  match find prefs.prefs kSCPrefCurrentSet with
  | some (.leaf (.string current)) =>
    match scPreferencesPathGetValue prefs (.leaf (.string current)) with
    | .ok theSet => some (current,theSet)
    | .error _ => none
  | _ => none

/-- The value to be mirrored under a key at a path: the set's, or else the system's. -/
def mirrored (prefs : PrefsPrivate α) (path : List CFString) (k : CFString) : Option (Leaf α) :=
  ((currentSet prefs).bind fun current => leafAt prefs current.2 path k).or
    ((system prefs).bind fun global => leafAt prefs global path k)

def setupValue (prefs : PrefsPrivate α) (date : α) (k : CFString) : Option (Leaf α) :=
  if k = kSCDynamicStorePropSetupLastUpdated then some (.other date)
  else if k = kSCDynamicStorePropSetupCurrentSet then (currentSet prefs).map fun current => .string current.1
  else none

/-- Descending below `base` through subdictionaries and links comes to an end. -/
inductive Expands (prefs : PrefsPrivate α) : CFDictionary α → Prop
  | intro {base : CFDictionary α} (below : ∀ subset k sub, opened prefs base = some subset →
      (k,Tree.dict sub) ∈ subset → Expands prefs sub) : Expands prefs base

structure Mirrorable (prefs : PrefsPrivate α) : Prop where
  pathKeys : PathKeys prefs
  systemDict : ∀ u, find prefs.prefs kSCPrefSystem = some u → ∃ global, u = .dict global
  systemExpands : ∀ global, system prefs = some global → Expands prefs global
  currentExpands : ∀ current, currentSet prefs = some current → Expands prefs current.2

/-- Every key once, in the store and in its values. -/
structure StoreKeys (store : Store α) : Prop where
  keys : (store.map Prod.fst).Nodup
  values : ∀ key u, find store key = some u → Distinct u

/-! ## Flattening ends -/

variable {A B C E : Type}

/-- From some depth on, there is a result and it stays the same. -/
def Settles (f : Nat → C → A → Option B) : Prop :=
  ∃ depth, ∀ c a, ∃ b, ∀ more, depth ≤ more → f more c a = some b

private theorem foldlM_settles {step : Nat → C → A → E → Option A} {entries : List E}
    (each : ∀ e ∈ entries, Settles fun depth c a => step depth c a e) :
    Settles fun depth c a => entries.foldlM (step depth c) a := by
  induction entries with
  | nil => exact ⟨0,fun c a => ⟨a,fun _ _ => rfl⟩⟩
  | cons e rest ih =>
    obtain ⟨depth,first⟩ := each e (by simp)
    obtain ⟨depth',others⟩ := ih fun e member => each e (List.mem_cons_of_mem _ member)
    refine ⟨max depth depth',fun c a => ?_⟩
    obtain ⟨middle,went⟩ := first c a
    obtain ⟨last,went'⟩ := others c middle
    refine ⟨last,fun more enough => ?_⟩
    have one : step more c a e = some middle := went more (by omega)
    simp only [List.foldlM_cons,one,Option.bind_eq_bind,Option.bind_some]
    exact went' more (by omega)

theorem flatten_settles (expands : Expands prefs base) :
    Settles fun depth key newPrefs => flatten prefs depth key base newPrefs := by
  induction expands with
  | @intro base _ ih =>
    cases opens : opened prefs base with
    | none =>
      refine ⟨1,fun key newPrefs => ⟨newPrefs,fun more enough => ?_⟩⟩
      obtain ⟨depth,rfl⟩ := Nat.exists_eq_add_of_le' enough
      simp [flatten_succ,opens]
    | some subset =>
      have loop : Settles fun depth key state => subset.foldlM (flattenEntry (flatten prefs depth) key) state := by
        refine foldlM_settles fun entry member => ?_
        obtain ⟨k,u⟩ := entry
        cases u with
        | leaf v => exact ⟨0,fun key state => ⟨_,fun _ _ => rfl⟩⟩
        | dict sub =>
          obtain ⟨depth,settled⟩ := ih subset k sub opens member
          refine ⟨depth,fun key state => ?_⟩
          obtain ⟨r,went⟩ := settled (subKey key k) state.2
          exact ⟨_,fun more enough => by simp only [flattenEntry,went more enough]; rfl⟩
      obtain ⟨depth,settled⟩ := loop
      refine ⟨depth+1,fun key newPrefs => ?_⟩
      obtain ⟨⟨myDict,newPrefs'⟩,went⟩ := settled key ((find newPrefs (setupKey key)).getD [],newPrefs)
      refine ⟨if myDict = [] then newPrefs' else set newPrefs' (setupKey key) myDict,fun more enough => ?_⟩
      obtain ⟨deeper,rfl⟩ := Nat.exists_eq_add_of_le' enough
      have looped := went (deeper + depth) (by omega)
      simp only [← Nat.add_assoc,flatten_succ,opens] at looped ⊢
      rw [looped]
      simp only []
      split <;> rfl

/-! ## What is loaded -/

structure Loaded (prefs : PrefsPrivate α) (newPrefs : NewPrefs α) (current : Option CFString) : Prop where
  sound : Sound newPrefs
  current_ : current = (currentSet prefs).map Prod.fst
  values : ∀ path, Clean path → ∀ k, valueOf newPrefs (setupKey (pathKey path)) k = mirrored prefs path k
  others : ∀ key, (∀ path, Clean path → key ≠ setupKey (pathKey path)) → find newPrefs key = none

theorem clean_nil : Clean [] := fun _ member => by cases member

private theorem top_within {k : CFString} {d : CFDictionary α} (found : find prefs.prefs k = some (.dict d)) :
    Within prefs d := ⟨[k],by rw [look_key]; exact found⟩

theorem system_within {global : CFDictionary α} (there : system prefs = some global) : Within prefs global := by
  unfold system at there
  split at there
  · rename_i found
    exact Option.some.inj there ▸ top_within found
  · cases there

theorem currentSet_within {current : CFString × CFDictionary α} (there : currentSet prefs = some current) :
    Within prefs current.2 := by
  unfold currentSet at there
  split at there
  · split at there
    · rename_i got
      obtain rfl := Option.some.inj there
      exact pathGetValue_within got
    · cases there
  · cases there

/-- The part of the current set, over what there is of the system. -/
theorem getSet_loads (mirrorable : Mirrorable prefs) {newPrefs : NewPrefs α} (sound : Sound newPrefs)
    (values : ∀ path, Clean path → ∀ k, valueOf newPrefs (setupKey (pathKey path)) k =
      (system prefs).bind fun global => leafAt prefs global path k)
    (others : ∀ key, (∀ path, Clean path → key ≠ setupKey (pathKey path)) → find newPrefs key = none) :
    ∃ newPrefs' current, (∃ depth, ∀ more, depth ≤ more → getSet prefs more newPrefs = some (newPrefs',current)) ∧
      Loaded prefs newPrefs' current := by
  cases there : currentSet prefs with
  | none =>
    refine ⟨newPrefs,none,⟨0,fun more _ => ?_⟩,sound,by rw [there]; rfl,fun path clean k => ?_,others⟩
    · unfold currentSet at there
      unfold getSet scPreferencesGetValue
      split at there
      · rename_i found
        rw [found]
        split at there
        · cases there
        · rename_i failed
          simp only [failed]
      · rename_i notString
        split
        · rename_i found
          exact absurd found (notString _)
        · rfl
    · rw [values path clean,mirrored,there]
      rfl
  | some current =>
    obtain ⟨depth,settled⟩ := flatten_settles (mirrorable.currentExpands current there)
    obtain ⟨newPrefs',went⟩ := settled (pathKey []) newPrefs
    have flattened := flatten_flattened mirrorable.pathKeys (currentSet_within there) [] clean_nil _ _
      (went depth (Nat.le_refl _))
    refine ⟨newPrefs',some current.1,⟨depth,fun more enough => ?_⟩,flattened.sound sound,by rw [there]; rfl,
      fun path clean k => ?_,fun key other => ?_⟩
    · have went := went more enough
      unfold currentSet at there
      unfold getSet scPreferencesGetValue
      split at there
      · rename_i found
        rw [found]
        split at there
        · rename_i got
          obtain rfl := Option.some.inj there
          simp only [got]
          exact Option.map_eq_some_iff.mpr ⟨newPrefs',went,rfl⟩
        · cases there
      · cases there
    · have value := flattened.at_ path clean k
      rw [List.nil_append,values path clean] at value
      rw [value,mirrored,there]
      rfl
    · rw [flattened.others key other]
      exact others key other

theorem loadPreferences_loads (mirrorable : Mirrorable prefs) :
    ∃ newPrefs current, (∃ depth, ∀ more, depth ≤ more → loadPreferences prefs more = some (newPrefs,current)) ∧
      Loaded prefs newPrefs current := by
  by_cases none_ : prefs.prefs = []
  · have noSystem : system prefs = none := by simp [system,none_]
    have noSet : currentSet prefs = none := by simp [currentSet,none_]
    refine ⟨[],none,⟨0,fun more _ => by simp [loadPreferences,none_]⟩,.nil,by rw [noSet]; rfl,fun path _ k => ?_,
      fun _ _ => rfl⟩
    rw [mirrored,noSystem,noSet]
    rfl
  · cases there : system prefs with
    | none =>
      have absent : find prefs.prefs kSCPrefSystem = none := by
        by_contra present
        obtain ⟨u,found⟩ := Option.ne_none_iff_exists'.mp present
        obtain ⟨global,rfl⟩ := mirrorable.systemDict u found
        simp [system,found] at there
      obtain ⟨newPrefs,current,⟨depth,went⟩,loaded⟩ := getSet_loads mirrorable .nil
        (fun path _ k => by rw [there]; rfl) (fun _ _ => rfl)
      refine ⟨newPrefs,current,⟨depth,fun more enough => ?_⟩,loaded⟩
      simp only [loadPreferences,none_,if_false,scPreferencesGetValue,absent]
      exact went more enough
    | some global =>
      have found : find prefs.prefs kSCPrefSystem = some (.dict global) := by
        unfold system at there
        split at there
        · rename_i found
          exact Option.some.inj there ▸ found
        · cases there
      obtain ⟨depth,settled⟩ := flatten_settles (mirrorable.systemExpands global there)
      obtain ⟨newPrefs,went⟩ := settled (pathKey []) []
      have flattened := flatten_flattened mirrorable.pathKeys (system_within there) [] clean_nil _ _
        (went depth (Nat.le_refl _))
      obtain ⟨newPrefs',current,⟨depth',went'⟩,loaded⟩ := getSet_loads mirrorable (flattened.sound .nil)
        (fun path clean k => by
          rw [there]
          have value := flattened.at_ path clean k
          rw [List.nil_append] at value
          rw [value]
          simp [valueOf])
        (fun key other => flattened.others key other)
      refine ⟨newPrefs',current,⟨max depth depth',fun more enough => ?_⟩,loaded⟩
      have first : flatten prefs more "/".toList global [] = some newPrefs := went more (by omega)
      simp only [loadPreferences,none_,if_false,scPreferencesGetValue,found,first]
      exact went' more (by omega)

end FreebsdLaunchd.PreferencesMonitor
