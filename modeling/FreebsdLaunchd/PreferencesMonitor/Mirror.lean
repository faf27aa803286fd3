import FreebsdLaunchd.PreferencesMonitor.Order

/-! The `Setup:` domain mirrors the preferences: what one update leaves in the
store, what it submits, and that neither depends on the order of the entries. -/
namespace FreebsdLaunchd.PreferencesMonitor
open Trees Tree Preferences

variable {α : Type} [DecidableEq α] {prefs prefs' : PrefsPrivate α} {store store' : Store α} {newPrefs : NewPrefs α}
  {submission : Submission α} {key : CFString} {date : α}

/-! ## Comparing with the store -/

def isSetup (key : CFString) : Bool := kSCDynamicStoreDomainSetup.isPrefixOf key

def submit (store : Store α) (newPrefs : NewPrefs α) : Submission α :=
  let currentPrefs := store.filter fun entry => isSetup entry.1
  let keys := newPrefs.foldl (updateCache currentPrefs) ([],currentPrefs.map Prod.fst)
  ⟨keys.1.foldl erase newPrefs,keys.2⟩

private theorem updateSCDynamicStore_submit (prefs : PrefsPrivate α) (date : α) (depth : Nat) (store : Store α) :
    updateSCDynamicStore prefs date depth store = (loadPreferences prefs depth).map fun loaded =>
      submit store (set loaded.1 kSCDynamicStoreDomainSetup (setupDict loaded.2 date)) := by
  rw [updateSCDynamicStore]
  cases loadPreferences prefs depth <;> rfl

def isUnchanged (currentPrefs : Store α) (entry : CFString × CFDictionary α) : Bool :=
  match find currentPrefs entry.1 with
  | none => false
  | some cacheData => same cacheData (.dict entry.2)

private theorem foldl_updateCache (currentPrefs : Store α) (newPrefs : NewPrefs α) (unchanged removed : List CFString) :
    newPrefs.foldl (updateCache currentPrefs) (unchanged,removed) =
      (unchanged ++ (newPrefs.filter (isUnchanged currentPrefs)).map Prod.fst,removed.diff (newPrefs.map Prod.fst)) := by
  induction newPrefs generalizing unchanged removed with
  | nil => simp
  | cons entry rest ih =>
    have one : updateCache currentPrefs (unchanged,removed) entry =
        (if isUnchanged currentPrefs entry then unchanged ++ [entry.1] else unchanged,removed.erase entry.1) := by
      unfold updateCache isUnchanged
      cases find currentPrefs entry.1 <;> simp
    rw [List.foldl_cons,one,ih,List.map_cons,List.diff_cons]
    by_cases kept : isUnchanged currentPrefs entry <;> simp [kept]

/-- The unchanged keys are taken out of the new preferences. -/
theorem find_changed (currentPrefs : Store α) (keys : (newPrefs.map Prod.fst).Nodup) (key : CFString) :
    find (((newPrefs.filter (isUnchanged currentPrefs)).map Prod.fst).foldl erase newPrefs) key =
      (find newPrefs key).filter fun d => !isUnchanged currentPrefs (key,d) := by
  rw [find_foldl_erase]
  cases found : find newPrefs key with
  | none => simp
  | some d =>
    have listed : key ∈ (newPrefs.filter (isUnchanged currentPrefs)).map Prod.fst ↔
        isUnchanged currentPrefs (key,d) = true := by
      constructor
      · intro member
        obtain ⟨⟨key',d'⟩,inside,rfl⟩ := List.mem_map.mp member
        obtain ⟨inside,kept⟩ := List.mem_filter.mp inside
        have there := find_of_mem keys inside
        rw [found] at there
        rw [Option.some.inj there]
        exact kept
      · intro kept
        exact List.mem_map.mpr ⟨(key,d),List.mem_filter.mpr ⟨mem_of_find found,kept⟩,rfl⟩
    by_cases kept : isUnchanged currentPrefs (key,d) <;> simp [Option.filter,listed,kept]

/-- What is submitted for the new preferences: a set for each key whose value
differs, a removal for each key they no longer have. -/
structure Compared (store : Store α) (newPrefs : NewPrefs α) (submission : Submission α) : Prop where
  keys : (submission.set.map Prod.fst).Nodup
  set : ∀ key d, find submission.set key = some d ↔
    find newPrefs key = some d ∧ ∀ u, find store key = some u → same u (.dict d) = false
  remove : ∀ key, key ∈ submission.remove ↔ isSetup key ∧ find store key ≠ none ∧ find newPrefs key = none

private theorem submit_compared (storeKeys : StoreKeys store) (keys : (newPrefs.map Prod.fst).Nodup)
    (setup : ∀ key, find newPrefs key ≠ none → isSetup key) : Compared store newPrefs (submit store newPrefs) := by
  have current (key : CFString) : find (store.filter fun entry => isSetup entry.1) key =
      if isSetup key then find store key else none := find_filter_key store isSetup key
  simp only [submit,foldl_updateCache,List.nil_append]
  refine ⟨?_,fun key d => ?_,fun key => ?_⟩
  · rw [foldl_erase]
    exact (List.filter_sublist.map Prod.fst).nodup keys
  · rw [find_changed _ keys,Option.filter_eq_some_iff]
    refine and_congr_right fun found => ?_
    have own : isSetup key := setup key (by rw [found]; exact Option.some_ne_none d)
    rw [isUnchanged,current,if_pos own]
    cases find store key <;> simp
  · have distinct : ((store.filter fun entry => isSetup entry.1).map Prod.fst).Nodup :=
      (List.filter_sublist.map Prod.fst).nodup storeKeys.keys
    have absent : key ∉ newPrefs.map Prod.fst ↔ find newPrefs key = none := by
      rw [← find_isSome,not_not]
    rw [distinct.mem_sdiff_iff,← find_isSome,current,absent]
    by_cases own : isSetup key <;> simp [own]

/-! ## The store afterwards -/

private theorem after_find (compared : Compared store newPrefs submission) (key : CFString) :
    find (scDynamicStoreSetMultiple store submission) key =
      if key ∈ submission.remove then none
      else ((find submission.set key).map .dict).or (find store key) := by
  rw [scDynamicStoreSetMultiple,find_foldl_erase,find_foldl_set Tree.dict compared.keys]
  by_cases gone : key ∈ submission.remove <;> simp only [gone,if_true,if_false]

private theorem after_other (setup : ∀ key, find newPrefs key ≠ none → isSetup key)
    (compared : Compared store newPrefs submission) (other : isSetup key = false) :
    find (scDynamicStoreSetMultiple store submission) key = find store key := by
  have kept : key ∉ submission.remove := by
    intro member
    rw [((compared.remove key).mp member).1] at other
    cases other
  have unset : find submission.set key = none := by
    cases found : find submission.set key with
    | none => rfl
    | some d =>
      have own := setup key (by rw [((compared.set key d).mp found).1]; exact Option.some_ne_none d)
      rw [own] at other
      cases other
  rw [after_find compared,if_neg kept,unset]
  rfl

omit [DecidableEq α] in
private theorem flat_distinct {d : CFDictionary α} (flat : Flat d) : Distinct (Tree.dict d) := by
  refine distinct_dict flat.keys fun e member => ?_
  obtain ⟨v,leaf_⟩ := flat.leaves e.1 e.2 (find_of_mem flat.keys member)
  rw [leaf_]
  exact distinct_leaf v

/-- Every key of the domain has the new value afterwards. -/
theorem after_new (storeKeys : StoreKeys store) (sound : Sound newPrefs)
    (compared : Compared store newPrefs submission) (own : isSetup key) :
    Option.Rel Alike (find (scDynamicStoreSetMultiple store submission) key) ((find newPrefs key).map .dict) := by
  rw [after_find compared]
  cases found : find newPrefs key with
  | none =>
    have unset : find submission.set key = none := by
      cases set_ : find submission.set key with
      | none => rfl
      | some d =>
        have there := ((compared.set key d).mp set_).1
        rw [found] at there
        cases there
    rw [unset]
    by_cases there : find store key = none
    · simp only [there]
      split <;> exact .none
    · rw [if_pos ((compared.remove key).mpr ⟨own,there,found⟩)]
      exact .none
  | some d =>
    have kept : key ∉ submission.remove := by
      intro member
      have absent := ((compared.remove key).mp member).2.2
      rw [found] at absent
      cases absent
    rw [if_neg kept]
    cases set_ : find submission.set key with
    | some d' =>
      have there := ((compared.set key d').mp set_).1
      rw [found] at there
      rw [Option.some.inj there]
      exact .some (.refl _)
    | none =>
      -- no set: the store has the value already
      have stays : ∃ u, find store key = some u ∧ same u (.dict d) = true := by
        by_contra differs
        have set_' := (compared.set key d).mpr ⟨found,fun u there => by
          by_contra equal
          exact differs ⟨u,there,by simpa using equal⟩⟩
        rw [set_] at set_'
        cases set_'
      obtain ⟨u,there,equal⟩ := stays
      rw [there]
      exact .some ((same_iff (storeKeys.values key u there) (flat_distinct (sound.flat key d found))).mp equal)

private theorem after_storeKeys (storeKeys : StoreKeys store) (sound : Sound newPrefs)
    (compared : Compared store newPrefs submission) :
    StoreKeys (scDynamicStoreSetMultiple store submission) where
  keys := by
    rw [scDynamicStoreSetMultiple,foldl_erase]
    exact (List.filter_sublist.map Prod.fst).nodup (nodup_foldl_set Tree.dict _ storeKeys.keys)
  values := by
    intro key u found
    rw [after_find compared] at found
    split at found
    · cases found
    · rcases Option.or_eq_some_iff.mp found with new | ⟨_,there⟩
      · obtain ⟨d,set_,rfl⟩ := Option.map_eq_some_iff.mp new
        exact flat_distinct (sound.flat key d ((compared.set key d).mp set_).1)
      · exact storeKeys.values key u there

/-! ## The new preferences as a whole -/

def allPrefs (newPrefs : NewPrefs α) (current : Option CFString) (date : α) : NewPrefs α :=
  set newPrefs kSCDynamicStoreDomainSetup (setupDict current date)

variable {current : Option CFString} {path : List CFString} {k : CFString}

section Whole
omit [DecidableEq α]

private theorem setupDict_flat (current : Option CFString) (date : α) : Flat (setupDict current date) := by
  unfold setupDict
  cases current with
  | none => exact Flat.nil.set _ _
  | some current => exact (Flat.nil.set _ _).set _ _

private theorem leafIn_setupDict (current : Option CFString) (date : α) (k : CFString) :
    leafIn (setupDict current date) k =
      if k = kSCDynamicStorePropSetupLastUpdated then some (.other date)
      else if k = kSCDynamicStorePropSetupCurrentSet then current.map .string else none := by
  unfold setupDict
  rw [leafIn_set]
  by_cases last : kSCDynamicStorePropSetupLastUpdated = k
  · rw [if_pos last,if_pos last.symm]
  · rw [if_neg last,if_neg (Ne.symm last)]
    cases current with
    | none => simp [leafIn]
    | some current =>
      rw [leafIn_set]
      by_cases name : kSCDynamicStorePropSetupCurrentSet = k
      · rw [if_pos name,if_pos name.symm]
        rfl
      · rw [if_neg name,if_neg (Ne.symm name)]
        rfl

private theorem isSetup_setupKey (key : CFString) : isSetup (setupKey key) = true := by
  rw [isSetup,List.isPrefixOf_iff_prefix]
  exact List.prefix_append _ _

private theorem setupKey_ne (path : List CFString) : kSCDynamicStoreDomainSetup ≠ setupKey (pathKey path) := by
  intro same
  have empty : pathKey path = [] := List.append_cancel_left (by rw [List.append_nil]; exact same.symm)
  cases path <;> simp [pathKey] at empty

section Loaded
variable (loaded : Loaded prefs newPrefs current)
include loaded

private theorem allPrefs_sound (date : α) : Sound (allPrefs newPrefs current date) := by
  refine loaded.sound.set _ (setupDict_flat current date) fun empty => ?_
  have filled := leafIn_setupDict current date kSCDynamicStorePropSetupLastUpdated
  rw [empty,if_pos rfl] at filled
  cases filled

/-- Every key of the new preferences is the `Setup:` key or that of a path. -/
theorem allPrefs_keys (date : α) (there : find (allPrefs newPrefs current date) key ≠ none) :
    key = kSCDynamicStoreDomainSetup ∨ ∃ path, Clean path ∧ key = setupKey (pathKey path) := by
  by_contra neither
  rw [not_or] at neither
  rw [allPrefs,find_set,if_neg (Ne.symm neither.1)] at there
  exact there (loaded.others key fun path clean same => neither.2 ⟨path,clean,same⟩)

private theorem allPrefs_setup (date : α) (key : CFString) (there : find (allPrefs newPrefs current date) key ≠ none) :
    isSetup key = true := by
  rcases allPrefs_keys loaded date there with rfl | ⟨path,_,rfl⟩
  · decide
  · exact isSetup_setupKey _

private theorem allPrefs_value (date : α) (clean : Clean path) (k : CFString) :
    valueOf (allPrefs newPrefs current date) (setupKey (pathKey path)) k = mirrored prefs path k := by
  rw [allPrefs,valueOf_set,if_neg (setupKey_ne path),loaded.values path clean]

/-- A path has its dictionary exactly if there is a value to be mirrored at it. -/
theorem allPrefs_path (date : α) (clean : Clean path) :
    (∃ d, find (allPrefs newPrefs current date) (setupKey (pathKey path)) = some d) ↔
      ∃ k, mirrored prefs path k ≠ none := by
  constructor
  · rintro ⟨d,found⟩
    have sound := allPrefs_sound loaded date
    obtain ⟨k,value⟩ := (sound.flat _ d found).filled (sound.filled _ d found)
    refine ⟨k,?_⟩
    rw [← allPrefs_value loaded date clean,valueOf,found]
    exact value
  · rintro ⟨k,value⟩
    rw [← allPrefs_value loaded date clean,valueOf] at value
    cases found : find (allPrefs newPrefs current date) (setupKey (pathKey path)) with
    | none => rw [found] at value; exact absurd rfl value
    | some d => exact ⟨d,rfl⟩

end Loaded

private theorem flat_alike {d d' : CFDictionary α} (flat : Flat d) (flat' : Flat d')
    (same : ∀ k, leafIn d k = leafIn d' k) :
    Alike (Tree.dict d) (Tree.dict d') := by
  refine alike_of_find fun k => ?_
  rw [flat.find,flat'.find,same]
  cases leafIn d' k with
  | none => exact .none
  | some v => exact .some (.refl _)

/-- What is like a dictionary of values has the same values. -/
theorem alike_flat {u : PropertyList α} {d : CFDictionary α} (alike : Alike u (Tree.dict d)) (flat : Flat d) :
    ∃ d', u = .dict d' ∧ ∀ k, find d' k = (leafIn d k).map .leaf := by
  obtain ⟨d',rfl⟩ := alike.symm.dict_left
  refine ⟨d',rfl,fun k => ?_⟩
  rw [← flat.find]
  cases found : find d k with
  | none => exact alike.symm.find_none found
  | some v =>
    obtain ⟨u,found',same⟩ := alike.symm.find_some found
    obtain ⟨w,rfl⟩ := flat.leaves k v found
    obtain rfl := same.leaf_left
    exact found'

private theorem allPrefs_alike {newPrefs' : NewPrefs α} {current' : Option CFString} (loaded : Loaded prefs newPrefs current)
    (loaded' : Loaded prefs' newPrefs' current') (alike : Alike prefs.tree prefs'.tree) (date : α) {d : CFDictionary α}
    (found : find (allPrefs newPrefs current date) key = some d) :
    ∃ d', find (allPrefs newPrefs' current' date) key = some d' ∧ Alike (Tree.dict d) (Tree.dict d') := by
  rcases allPrefs_keys loaded date (by rw [found]; exact Option.some_ne_none d) with rfl | ⟨path,clean,rfl⟩
  · have sameSet : current = current' := by
      rw [loaded.current_,loaded'.current_,currentName_alike alike]
    subst sameSet
    refine ⟨d,?_,.refl _⟩
    rw [allPrefs,find_set,if_pos rfl] at found ⊢
    exact found
  · obtain ⟨k,value⟩ := (allPrefs_path loaded date clean).mp ⟨d,found⟩
    rw [mirrored_alike alike] at value
    obtain ⟨d',found'⟩ := (allPrefs_path loaded' date clean).mpr ⟨k,value⟩
    refine ⟨d',found',flat_alike ((allPrefs_sound loaded date).flat _ d found)
      ((allPrefs_sound loaded' date).flat _ d' found') fun k => ?_⟩
    have first := allPrefs_value loaded date clean k
    have second := allPrefs_value loaded' date clean k
    rw [valueOf,found,Option.bind_some] at first
    rw [valueOf,found',Option.bind_some] at second
    rw [first,second,mirrored_alike alike]

def SameContents (store store' : Store α) : Prop := ∀ key, Option.Rel Alike (find store key) (find store' key)

structure SameSubmission (submission submission' : Submission α) : Prop where
  set : ∀ key, Option.Rel Alike ((find submission.set key).map .dict) ((find submission'.set key).map .dict)
  remove : ∀ key, key ∈ submission.remove ↔ key ∈ submission'.remove

private theorem rel_dict {d d' : Option (CFDictionary α)}
    (forward : ∀ e, d = some e → ∃ e', d' = some e' ∧ Alike (Tree.dict e) (Tree.dict e'))
    (backward : ∀ e', d' = some e' → ∃ e, d = some e ∧ Alike (Tree.dict e') (Tree.dict e)) :
    Option.Rel Alike (d.map .dict) (d'.map .dict) := by
  cases d with
  | some e =>
    obtain ⟨e',rfl,alike⟩ := forward e rfl
    exact .some alike
  | none =>
    cases d' with
    | none => exact .none
    | some e' =>
      obtain ⟨e,absurd_,_⟩ := backward e' rfl
      cases absurd_

private theorem rel_trans {t u v : Option (PropertyList α)} (first : Option.Rel Alike t u)
    (second : Option.Rel Alike u v) :
    Option.Rel Alike t v := by
  cases first with
  | none =>
    cases second
    exact .none
  | some alike =>
    cases second with
    | some alike' => exact .some (alike.trans alike')

private theorem rel_symm {t u : Option (PropertyList α)} (related : Option.Rel Alike t u) : Option.Rel Alike u t := by
  cases related with
  | none => exact .none
  | some alike => exact .some alike.symm

private theorem rel_none {t u : Option (PropertyList α)} (related : Option.Rel Alike t u) : t = none ↔ u = none := by
  cases related <;> simp

end Whole

/-! ## One update -/

/-- From some depth of the recursion on, an update submits this. -/
def Returns (prefs : PrefsPrivate α) (date : α) (store : Store α) (submission : Submission α) : Prop :=
  ∃ depth, ∀ more, depth ≤ more → updateSCDynamicStore prefs date more store = some submission

/-- The preferences are loaded in one way, whatever the date and the store. -/
theorem returns_iff (mirrorable : Mirrorable prefs) : ∃ newPrefs current, Loaded prefs newPrefs current ∧
    ∀ date store submission, Returns prefs date store submission ↔
      submission = submit store (allPrefs newPrefs current date) := by
  obtain ⟨newPrefs,current,⟨depth,went⟩,loaded⟩ := loadPreferences_loads mirrorable
  refine ⟨newPrefs,current,loaded,fun date store submission => ⟨?_,?_⟩⟩
  · rintro ⟨depth',returned⟩
    have now := returned (max depth depth') (by omega)
    rw [updateSCDynamicStore_submit,went (max depth depth') (by omega)] at now
    exact (Option.some.inj now).symm
  · rintro rfl
    refine ⟨depth,fun more enough => ?_⟩
    rw [updateSCDynamicStore_submit,went more enough]
    rfl

/-- What one update does: the domain mirrors the preferences, and the submission is
what this takes. -/
structure Mirrors (prefs : PrefsPrivate α) (date : α) (store : Store α) (submission : Submission α)
    (after : Store α) : Prop where
  setup : ∃ d, find after kSCDynamicStoreDomainSetup = some (.dict d) ∧
    ∀ k, find d k = (setupValue prefs date k).map .leaf
  paths : ∀ path, Clean path → (∃ k, mirrored prefs path k ≠ none) →
    ∃ d, find after (setupKey (pathKey path)) = some (.dict d) ∧ ∀ k, find d k = (mirrored prefs path k).map .leaf
  only : ∀ key, isSetup key = true → find after key ≠ none → key = kSCDynamicStoreDomainSetup ∨
    ∃ path, Clean path ∧ key = setupKey (pathKey path) ∧ ∃ k, mirrored prefs path k ≠ none
  others : ∀ key, isSetup key = false → find after key = find store key
  disjoint : ∀ key ∈ submission.remove, find submission.set key = none
  changed : ∀ key d, find submission.set key = some d → ∀ u, find store key = some u → ¬ Alike u (Tree.dict d)
  removed : ∀ key, key ∈ submission.remove ↔ isSetup key = true ∧ find store key ≠ none ∧ find after key = none

private theorem update_mirrors {newPrefs : NewPrefs α} (storeKeys : StoreKeys store)
    (loaded : Loaded prefs newPrefs current)
    (compared : Compared store (allPrefs newPrefs current date) submission) :
    Mirrors prefs date store submission (scDynamicStoreSetMultiple store submission) := by
  have sound := allPrefs_sound loaded date
  have setup := allPrefs_setup loaded date
  have new {key : CFString} (own : isSetup key = true) := after_new storeKeys sound compared own
  have given {key : CFString} {d : CFDictionary α} (found : find (allPrefs newPrefs current date) key = some d) :
      ∃ d', find (scDynamicStoreSetMultiple store submission) key = some (.dict d') ∧
        ∀ k, find d' k = (leafIn d k).map .leaf := by
    have there := new (setup key (by rw [found]; exact Option.some_ne_none d))
    rw [found,Option.map_some] at there
    generalize find (scDynamicStoreSetMultiple store submission) key = here at there ⊢
    cases there with
    | some alike =>
      obtain ⟨d',rfl,values⟩ := alike_flat alike (sound.flat key d found)
      exact ⟨d',rfl,values⟩
  have absent {key : CFString} (own : isSetup key = true) :
      find (scDynamicStoreSetMultiple store submission) key = none ↔ find (allPrefs newPrefs current date) key = none := by
    have there := new own
    generalize find (scDynamicStoreSetMultiple store submission) key = here at there ⊢
    cases found : find (allPrefs newPrefs current date) key with
    | none =>
      rw [found] at there
      cases there
      exact ⟨fun _ => rfl,fun _ => rfl⟩
    | some d =>
      rw [found] at there
      cases there
      simp
  refine ⟨?_,fun path clean values => ?_,fun key own there => ?_,fun key other => after_other setup compared other,
    fun key member => ?_,fun key d set_ u there alike => ?_,fun key => ?_⟩
  · have found : find (allPrefs newPrefs current date) kSCDynamicStoreDomainSetup = some (setupDict current date) := by
      rw [allPrefs,find_set,if_pos rfl]
    obtain ⟨d,there,values⟩ := given found
    refine ⟨d,there,fun k => ?_⟩
    rw [values,leafIn_setupDict,setupValue,loaded.current_,Option.map_map]
    rfl
  · obtain ⟨d,found⟩ := (allPrefs_path loaded date clean).mpr values
    obtain ⟨d',there,values⟩ := given found
    refine ⟨d',there,fun k => ?_⟩
    rw [values,← allPrefs_value loaded date clean,valueOf,found,Option.bind_some]
  · have found := mt (absent own).mpr there
    rcases allPrefs_keys loaded date found with rfl | ⟨path,clean,rfl⟩
    · exact .inl rfl
    · exact .inr ⟨path,clean,rfl,(allPrefs_path loaded date clean).mp (Option.ne_none_iff_exists'.mp found)⟩
  · cases set_ : find submission.set key with
    | none => rfl
    | some d =>
      have gone := ((compared.remove key).mp member).2.2
      rw [((compared.set key d).mp set_).1] at gone
      cases gone
  · obtain ⟨found,differs⟩ := (compared.set key d).mp set_
    have equal := (same_iff (storeKeys.values key u there) (flat_distinct (sound.flat key d found))).mpr alike
    rw [differs u there] at equal
    cases equal
  · rw [compared.remove]
    by_cases own : isSetup key = true
    · rw [absent own]
    · simp [own]

/-- Preferences and stores that differ in the order of entries only get like submissions. -/
theorem submitted_alike {newPrefs newPrefs' : NewPrefs α} {submission' : Submission α} {current' : Option CFString}
    (storeKeys : StoreKeys store) (storeKeys' : StoreKeys store') (contents : SameContents store store')
    (loaded : Loaded prefs newPrefs current) (loaded' : Loaded prefs' newPrefs' current')
    (alike : Alike prefs.tree prefs'.tree)
    (compared : Compared store (allPrefs newPrefs current date) submission)
    (compared' : Compared store' (allPrefs newPrefs' current' date) submission') {d : CFDictionary α}
    (set_ : find submission.set key = some d) :
    ∃ d', find submission'.set key = some d' ∧ Alike (Tree.dict d) (Tree.dict d') := by
  obtain ⟨found,differs⟩ := (compared.set key d).mp set_
  obtain ⟨d',found',same⟩ := allPrefs_alike loaded loaded' alike date found
  refine ⟨d',(compared'.set key d').mpr ⟨found',fun u' there' => ?_⟩,same⟩
  by_contra equal
  have distinct := flat_distinct ((allPrefs_sound loaded date).flat key d found)
  have distinct' := flat_distinct ((allPrefs_sound loaded' date).flat key d' found')
  have like := (same_iff (storeKeys'.values key u' there') distinct').mp (by simpa using equal)
  have there := contents key
  rw [there'] at there
  cases stored : find store key with
  | none => rw [stored] at there; cases there
  | some u =>
    rw [stored] at there
    cases there with
    | some both =>
      have unequal := differs u stored
      rw [(same_iff (storeKeys.values key u stored) distinct).mpr (both.trans (like.trans same.symm))] at unequal
      cases unequal

/-- A second update of what the first one left. -/
theorem second_update {newPrefs : NewPrefs α} {submission' : Submission α} {date' : α} (storeKeys : StoreKeys store)
    (loaded : Loaded prefs newPrefs current)
    (compared : Compared store (allPrefs newPrefs current date) submission)
    (compared' : Compared (scDynamicStoreSetMultiple store submission) (allPrefs newPrefs current date') submission') :
    submission'.remove = [] ∧ ∀ key d, find submission'.set key = some d → key = kSCDynamicStoreDomainSetup ∧
      ∀ k, find d k = (setupValue prefs date' k).map .leaf := by
  have sound := allPrefs_sound loaded date
  have again {key : CFString} (inner : key ≠ kSCDynamicStoreDomainSetup) :
      find (allPrefs newPrefs current date') key = find (allPrefs newPrefs current date) key := by
    rw [allPrefs,allPrefs,find_set,find_set,if_neg (Ne.symm inner),if_neg (Ne.symm inner)]
  constructor
  · rw [List.eq_nil_iff_forall_not_mem]
    intro key member
    obtain ⟨own,there,absent⟩ := (compared'.remove key).mp member
    have new := after_new storeKeys sound compared own
    by_cases outer : key = kSCDynamicStoreDomainSetup
    · subst outer
      rw [allPrefs,find_set,if_pos rfl] at absent
      cases absent
    · rw [again outer] at absent
      rw [absent] at new
      generalize find (scDynamicStoreSetMultiple store submission) key = here at new there
      cases new
      exact there rfl
  · intro key d set_
    obtain ⟨found,differs⟩ := (compared'.set key d).mp set_
    by_cases outer : key = kSCDynamicStoreDomainSetup
    · subst outer
      rw [allPrefs,find_set,if_pos rfl] at found
      obtain rfl := Option.some.inj found
      refine ⟨rfl,fun k => ?_⟩
      rw [(setupDict_flat current date').find,leafIn_setupDict,setupValue,loaded.current_,Option.map_map]
      rfl
    · rw [again outer] at found
      have own := allPrefs_setup loaded date key (by rw [found]; exact Option.some_ne_none d)
      have new := after_new storeKeys sound compared own
      rw [found,Option.map_some] at new
      cases here : find (scDynamicStoreSetMultiple store submission) key with
      | none => rw [here] at new; cases new
      | some u =>
        rw [here] at new
        cases new with
        | some alike =>
          have equal := (same_iff ((after_storeKeys storeKeys sound compared).values key u here)
            (flat_distinct (sound.flat key d found))).mpr alike
          rw [differs u here] at equal
          cases equal

def networkLink : CFDictionary Nat := [(kSCResvLink,.leaf (.string "/Shared".toList))]

def sampleSystem : CFDictionary Nat := [("Network".toList,.dict networkLink)]

def sampleShared : CFDictionary Nat := [("a".toList,.leaf (.other 1))]

def sampleSet : CFDictionary Nat := [("b".toList,.leaf (.other 2))]

def sample : PrefsPrivate Nat :=
  ⟨[(kSCPrefSystem,.dict sampleSystem),("Shared".toList,.dict sampleShared),("Office".toList,.dict sampleSet),
    (kSCPrefCurrentSet,.leaf (.string "/Office".toList))],false⟩

def staleStore : Store Nat := [("Setup:/Old".toList,.dict [("c".toList,.leaf (.other 3))])]

private theorem clean_leaf {α : Type} (v : Leaf α) (s : List CFString)
    (there : ((Tree.leaf v : PropertyList α).look s).isSome) :
    Clean s := by
  cases s with
  | nil => exact clean_nil
  | cons k rest => cases there

private theorem clean_dict {α : Type} {d : CFDictionary α}
    (each : ∀ e ∈ d, (e.1 ≠ [] ∧ '/' ∉ e.1) ∧ ∀ s, (e.2.look s).isSome → Clean s) (s : List CFString)
    (there : ((Tree.dict d).look s).isSome) : Clean s := by
  cases s with
  | nil => exact clean_nil
  | cons k rest =>
    rw [look_cons,entries_dict] at there
    cases found : find d k with
    | none => rw [found] at there; cases there
    | some u =>
      rw [found] at there
      obtain ⟨single,below⟩ := each (k,u) (mem_of_find found)
      exact Clean.cons single (below rest there)

private theorem expands_flat {α : Type} {prefs : PrefsPrivate α} {d subset : CFDictionary α} (opens : opened prefs d = some subset)
    (flat : ∀ e ∈ subset, ∃ v, e.2 = .leaf v) : Expands prefs d := by
  refine .intro fun subset' k sub opens' member => ?_
  rw [opens] at opens'
  obtain rfl := Option.some.inj opens'
  obtain ⟨v,leaf_⟩ := flat _ member
  cases leaf_

private theorem sample_mirrorable : Mirrorable sample where
  pathKeys := by
    constructor
    · refine distinct_dict (by decide) ?_
      simp only [sample,List.forall_mem_cons,List.not_mem_nil,false_implies,implies_true,and_true]
      refine ⟨distinct_dict (by decide) ?_,distinct_dict (by decide) ?_,distinct_dict (by decide) ?_,distinct_leaf _⟩
      all_goals simp only [sampleSystem,sampleShared,sampleSet,List.forall_mem_cons,List.not_mem_nil,false_implies,
        implies_true,and_true]
      · exact distinct_dict (by decide) (by simpa [networkLink] using distinct_leaf _)
      · exact distinct_leaf _
      · exact distinct_leaf _
    · refine clean_dict ?_
      simp only [sample,List.forall_mem_cons,List.not_mem_nil,false_implies,implies_true,and_true]
      refine ⟨⟨by decide,clean_dict ?_⟩,⟨by decide,clean_dict ?_⟩,⟨by decide,clean_dict ?_⟩,by decide,clean_leaf _⟩
      all_goals simp only [sampleSystem,sampleShared,sampleSet,List.forall_mem_cons,List.not_mem_nil,false_implies,
        implies_true,and_true]
      · exact ⟨by decide,clean_dict (by simpa [networkLink] using ⟨by decide,clean_leaf _⟩)⟩
      · exact ⟨by decide,clean_leaf _⟩
      · exact ⟨by decide,clean_leaf _⟩
  systemDict := fun u found => ⟨sampleSystem,(Option.some.inj found).symm⟩
  systemExpands := by
    intro global there
    obtain rfl : sampleSystem = global := Option.some.inj there
    refine .intro fun subset k sub opens member => ?_
    obtain rfl : sampleSystem = subset := Option.some.inj opens
    obtain ⟨rfl,inner⟩ := Prod.mk.inj (List.mem_singleton.mp member)
    obtain rfl := Tree.dict.inj inner
    have opens' : opened sample networkLink = some sampleShared := rfl
    exact expands_flat opens' (by simp [sampleShared])
  currentExpands := by
    intro current there
    obtain rfl : ("/Office".toList,sampleSet) = current := Option.some.inj there
    have opens : opened sample sampleSet = some sampleSet := rfl
    exact expands_flat opens (by simp [sampleSet])

private theorem staleStore_keys : StoreKeys staleStore where
  keys := by decide
  values := by
    intro key u found
    obtain ⟨_,rfl⟩ := Prod.mk.inj (List.mem_singleton.mp (mem_of_find found))
    exact distinct_dict (by decide) (by simpa using distinct_leaf _)

end FreebsdLaunchd.PreferencesMonitor
