import FreebsdLaunchd.PreferencesMonitor.Models

/-! The two loops that put a model's name in front of keys and take it off again,
by what they make of each key. -/
namespace FreebsdLaunchd.PreferencesMonitor
open Trees Preferences

variable {α : Type} {prefs : PrefsPrivate α} {q key old model model' : CFString}

/-! ## Keys with a model in front -/

def Plain (q : CFString) : Prop := ':' ∉ q

instance : DecidablePred Plain := fun q => inferInstanceAs (Decidable (':' ∉ q))

theorem modelKey_colon (model key : CFString) : ':' ∈ modelKey model key := by simp [modelKey]

theorem modelKey_ne_plain (plain : Plain q) : modelKey model key ≠ q := by
  rintro rfl
  exact plain (modelKey_colon model key)

private theorem modelKey_model (plain : Plain model) (key : CFString) :
    (modelKey model key).takeWhile (· ≠ ':') = model := by
  have whole : model.takeWhile (· ≠ ':') = model := List.takeWhile_eq_self_iff.mpr fun c member => by
    have other : c ≠ ':' := fun same => plain (same ▸ member)
    simpa using other
  rw [modelKey,List.takeWhile_append_of_pos]
  · simp
  · intro c member
    have other : c ≠ ':' := fun same => plain (same ▸ member)
    simpa using other

theorem modelKey_inj {key' : CFString} (plain : Plain model) (plain' : Plain model')
    (same : modelKey model key = modelKey model' key') : model = model' ∧ key = key' := by
  have models : model = model' := by
    rw [← modelKey_model plain key,same,modelKey_model plain' key']
  subst models
  exact ⟨rfl,(List.cons.inj (List.append_cancel_left same)).2⟩

theorem prefix_modelKey : modelKey model [] <+: q ↔ ∃ key, q = modelKey model key := by
  constructor
  · rintro ⟨key,rfl⟩
    exact ⟨key,by simp [modelKey]⟩
  · rintro ⟨key,rfl⟩
    exact ⟨key,by simp [modelKey]⟩

private theorem split_modelKey (plain : Plain model) (plain' : Plain key) :
    ((modelKey model key).splitOn ':').getD 1 [] = key := by
  rw [modelKey,List.splitOn_append_cons_self,List.splitOn_eq_singleton plain,List.splitOn_eq_singleton plain']
  rfl

/-! ## Saving -/

private theorem find_remove (prefs : PrefsPrivate α) (key q : CFString) :
    find (scPreferencesRemoveValue prefs key).2.prefs q = if key = q then none else find prefs.prefs q := by
  unfold scPreferencesRemoveValue
  split
  · rename_i absent
    by_cases same : key = q
    · subst same
      simpa using absent
    · simp [same]
  · simp

def Saveable (key : CFString) : Prop := key ≠ MODEL ∧ Plain key

instance : DecidablePred Saveable := fun key => inferInstanceAs (Decidable (key ≠ MODEL ∧ Plain key))

private theorem saveKey_skip (skip : ¬ Saveable key ∨ find prefs.prefs key = none) : saveKey old prefs key = prefs := by
  unfold saveKey
  rcases skip with other | absent
  · have skip : key = MODEL ∨ ':' ∈ key := by
      by_contra saveable
      exact other (not_or.mp saveable)
    rw [if_pos skip]
  · rw [scPreferencesGetValue,absent,ite_self]

private theorem saveKey_find {value : PropertyList α} (saveable : Saveable key)
    (found : find prefs.prefs key = some value)
    (q : CFString) : find (saveKey old prefs key).prefs q =
      if key = q ∧ key ≠ kSCPrefSystem then none
      else if modelKey old key = q then some value else find prefs.prefs q := by
  have kept : ¬ (key = MODEL ∨ ':' ∈ key) := not_or.mpr saveable
  rw [saveKey,if_neg kept,scPreferencesGetValue,found]
  by_cases system : key = kSCPrefSystem
  · rw [if_neg (fun both => both.2 system)]
    simp only [if_pos system,scPreferencesSetValue,find_set]
  · simp only [if_neg system,find_remove,scPreferencesSetValue,find_set]
    by_cases same : key = q
    · subst same
      simp [system]
    · simp [same]

/-- A key is saved when its turn comes, or there is nothing to save. -/
theorem saveKey_turn (old : CFString) (prefs : PrefsPrivate α) (key : CFString) :
    saveKey old prefs key = prefs ∧ (Saveable key → find prefs.prefs key = none) ∨
      Saveable key ∧ ∃ value, find prefs.prefs key = some value := by
  by_cases saveable : Saveable key
  · cases found : find prefs.prefs key with
    | none => exact .inl ⟨saveKey_skip (.inr found),fun _ => rfl⟩
    | some value => exact .inr ⟨saveable,value,rfl⟩
  · exact .inl ⟨saveKey_skip (.inl saveable),fun absurdity => absurd absurdity saveable⟩

private theorem saveKey_plain (prefs : PrefsPrivate α) (key : CFString) (plain : Plain q) :
    find (saveKey old prefs key).prefs q =
      if key = q ∧ q ≠ MODEL ∧ q ≠ kSCPrefSystem then none else find prefs.prefs q := by
  rcases saveKey_turn old prefs key with ⟨skipped,absent⟩ | ⟨saveable,value,found⟩
  · rw [skipped]
    split
    · rename_i gone
      obtain ⟨rfl,notModel,_⟩ := gone
      exact absent ⟨notModel,plain⟩
    · rfl
  · rw [saveKey_find saveable found,if_neg (modelKey_ne_plain plain)]
    by_cases same : key = q
    · subst same
      simp [saveable.1]
    · simp [same]

private theorem saveKey_saved (plainOld : Plain old) (prefs : PrefsPrivate α) (key' : CFString)
    (saveable : Saveable key) :
    find (saveKey old prefs key').prefs (modelKey old key) =
      if key' = key then (find prefs.prefs key).or (find prefs.prefs (modelKey old key))
      else find prefs.prefs (modelKey old key) := by
  rcases saveKey_turn old prefs key' with ⟨skipped,absent⟩ | ⟨saveable',value,found⟩
  · rw [skipped]
    split
    · rename_i same
      subst same
      rw [absent saveable,Option.none_or]
    · rfl
  · have apart : key' ≠ modelKey old key := (modelKey_ne_plain saveable'.2).symm
    rw [saveKey_find saveable' found,if_neg (fun both => apart both.1)]
    by_cases same : key' = key
    · subst same
      simp [found]
    · have other : modelKey old key' ≠ modelKey old key := fun equal => same (modelKey_inj plainOld plainOld equal).2
      simp [same,other]

private theorem saveKey_other (prefs : PrefsPrivate α) (key : CFString) (colon : ':' ∈ q)
    (other : ∀ key, Saveable key → q ≠ modelKey old key) :
    find (saveKey old prefs key).prefs q = find prefs.prefs q := by
  rcases saveKey_turn old prefs key with ⟨skipped,_⟩ | ⟨saveable,value,found⟩
  · rw [skipped]
  · have apart : key ≠ q := fun same => saveable.2 (same ▸ colon)
    rw [saveKey_find saveable found,if_neg (fun both => apart both.1),if_neg (other key saveable).symm]

theorem saved_plain (prefs : PrefsPrivate α) (keys : List CFString) (plain : Plain q) :
    find (keys.foldl (saveKey old) prefs).prefs q =
      if q ∈ keys ∧ q ≠ MODEL ∧ q ≠ kSCPrefSystem then none else find prefs.prefs q := by
  induction keys generalizing prefs with
  | nil => simp
  | cons key rest ih =>
    rw [List.foldl_cons,ih,saveKey_plain prefs key plain]
    by_cases later : q ∈ rest ∧ q ≠ MODEL ∧ q ≠ kSCPrefSystem
    · simp [later]
    · rw [if_neg later]
      by_cases here : key = q ∧ q ≠ MODEL ∧ q ≠ kSCPrefSystem
      · simp [here]
      · rw [if_neg here,if_neg]
        rintro ⟨member,kept⟩
        rcases List.mem_cons.mp member with rfl | inside
        · exact here ⟨rfl,kept⟩
        · exact later ⟨inside,kept⟩

theorem saved_saved (plainOld : Plain old) (prefs : PrefsPrivate α) (keys : List CFString) (saveable : Saveable key) :
    find (keys.foldl (saveKey old) prefs).prefs (modelKey old key) =
      if key ∈ keys then (find prefs.prefs key).or (find prefs.prefs (modelKey old key))
      else find prefs.prefs (modelKey old key) := by
  induction keys generalizing prefs with
  | nil => simp
  | cons key' rest ih =>
    rw [List.foldl_cons,ih,saveKey_saved plainOld prefs key' saveable,saveKey_plain prefs key' saveable.2]
    by_cases same : key' = key
    · subst same
      by_cases system : key' = kSCPrefSystem
      · cases find prefs.prefs key' <;> simp [system]
      · simp [system,saveable.1]
    · have differ : key ≠ key' := Ne.symm same
      simp [same,differ]

theorem saved_other (prefs : PrefsPrivate α) (keys : List CFString) (colon : ':' ∈ q)
    (other : ∀ key, Saveable key → q ≠ modelKey old key) :
    find (keys.foldl (saveKey old) prefs).prefs q = find prefs.prefs q := by
  induction keys generalizing prefs with
  | nil => rfl
  | cons key rest ih => rw [List.foldl_cons,ih,saveKey_other prefs key colon other]

/-! ## Restoring -/

variable {acc : Bool × PrefsPrivate α}

/-- Every key of the model has one more component. -/
def OneColon (model : CFString) (keys : List CFString) : Prop :=
  ∀ q ∈ keys, modelKey model [] <+: q → ∃ key, Plain key ∧ q = modelKey model key

private theorem restoreKey_find {value : PropertyList α} (plain : Plain model) (plain' : Plain key)
    (found : find acc.2.prefs (modelKey model key) = some value) (q : CFString) :
    (restoreKey model acc (modelKey model key)).1 = true ∧
      find (restoreKey model acc (modelKey model key)).2.prefs q =
        if modelKey model key = q then none else if key = q then some value else find acc.2.prefs q := by
  rw [restoreKey,if_pos (prefix_modelKey.mpr ⟨key,rfl⟩),split_modelKey plain plain',scPreferencesGetValue,found]
  simp only [find_remove,scPreferencesSetValue,find_set,true_and]

/-- A key is restored when its turn comes, or there is nothing to restore. -/
theorem restoreKey_turn (model : CFString) (acc : Bool × PrefsPrivate α) (q : CFString) :
    restoreKey model acc q = acc ∧ (modelKey model [] <+: q → find acc.2.prefs q = none) ∨
      modelKey model [] <+: q ∧ ∃ value, find acc.2.prefs q = some value := by
  unfold restoreKey
  split
  · rename_i within
    rw [scPreferencesGetValue]
    cases found : find acc.2.prefs q with
    | none => exact .inl ⟨rfl,fun _ => rfl⟩
    | some value => exact .inr ⟨within,value,rfl⟩
  · rename_i without
    exact .inl ⟨rfl,fun absurdity => absurd absurdity without⟩

theorem restored_modified (plain : Plain model) (keys : List CFString) (shaped : OneColon model keys) :
    keys.foldl (restoreKey model) acc = acc ∨ (keys.foldl (restoreKey model) acc).1 = true := by
  have stays : ∀ keys acc, OneColon model keys → (acc : Bool × PrefsPrivate α).1 = true →
      (keys.foldl (restoreKey model) acc).1 = true := by
    intro keys
    induction keys with
    | nil => exact fun _ _ yes => yes
    | cons q rest ih =>
      intro acc shaped yes
      refine ih _ (fun q member => shaped q (List.mem_cons_of_mem _ member)) ?_
      rcases restoreKey_turn model acc q with ⟨skipped,_⟩ | ⟨within,value,found⟩
      · rw [skipped,yes]
      · obtain ⟨key,plain',rfl⟩ := shaped q List.mem_cons_self within
        exact (restoreKey_find plain plain' found []).1
  induction keys generalizing acc with
  | nil => exact .inl rfl
  | cons q rest ih =>
    have shaped' : OneColon model rest := fun q member => shaped q (List.mem_cons_of_mem _ member)
    rw [List.foldl_cons]
    rcases restoreKey_turn model acc q with ⟨skipped,_⟩ | ⟨within,value,found⟩
    · rw [skipped]
      exact ih shaped'
    · obtain ⟨key,plain',rfl⟩ := shaped q List.mem_cons_self within
      exact .inr (stays rest _ shaped' (restoreKey_find plain plain' found []).1)

theorem restored_plain (plain : Plain model) (keys : List CFString) (shaped : OneColon model keys) (plainKey : Plain q) :
    find (keys.foldl (restoreKey model) acc).2.prefs q =
      if modelKey model q ∈ keys then (find acc.2.prefs (modelKey model q)).or (find acc.2.prefs q)
      else find acc.2.prefs q := by
  induction keys generalizing acc with
  | nil => simp
  | cons key rest ih =>
    have shaped' : OneColon model rest := fun q member => shaped q (List.mem_cons_of_mem _ member)
    rw [List.foldl_cons,ih shaped']
    rcases restoreKey_turn model acc key with ⟨skipped,absent⟩ | ⟨within,value,found⟩
    · rw [skipped]
      by_cases same : modelKey model q = key
      · have none_ := absent (prefix_modelKey.mpr ⟨q,same.symm⟩)
        rw [← same] at none_
        simp [none_]
      · simp [same]
    · obtain ⟨key,plain',rfl⟩ := shaped key List.mem_cons_self within
      have turned := fun q => (restoreKey_find plain plain' found q).2
      rw [turned,turned,if_neg (modelKey_ne_plain plainKey)]
      by_cases same : key = q
      · subst same
        simp [found]
      · have other : modelKey model q ≠ modelKey model key := fun equal => same (modelKey_inj plain plain equal).2.symm
        simp [same,other,other.symm,modelKey_ne_plain plain' |>.symm]

theorem restored_cleared (plain : Plain model) (keys : List CFString) (shaped : OneColon model keys)
    (within : modelKey model [] <+: q) : find (keys.foldl (restoreKey model) acc).2.prefs q =
      if q ∈ keys then none else find acc.2.prefs q := by
  induction keys generalizing acc with
  | nil => simp
  | cons key rest ih =>
    rw [List.foldl_cons,ih fun q member => shaped q (List.mem_cons_of_mem _ member)]
    obtain ⟨key',rfl⟩ := prefix_modelKey.mp within
    rcases restoreKey_turn model acc key with ⟨skipped,absent⟩ | ⟨within',value,found⟩
    · rw [skipped]
      by_cases same : modelKey model key' = key
      · subst same
        simp [absent within]
      · simp [same]
    · obtain ⟨key,plain',rfl⟩ := shaped key List.mem_cons_self within'
      rw [(restoreKey_find plain plain' found _).2,if_neg (modelKey_ne_plain plain').symm]
      by_cases same : modelKey model key' = modelKey model key
      · simp [same]
      · simp [same,Ne.symm same]

theorem restored_other (plain : Plain model) (keys : List CFString) (shaped : OneColon model keys) (colon : ':' ∈ q)
    (other : ¬ modelKey model [] <+: q) :
    find (keys.foldl (restoreKey model) acc).2.prefs q = find acc.2.prefs q := by
  induction keys generalizing acc with
  | nil => rfl
  | cons key rest ih =>
    rw [List.foldl_cons,ih fun q member => shaped q (List.mem_cons_of_mem _ member)]
    rcases restoreKey_turn model acc key with ⟨skipped,_⟩ | ⟨within,value,found⟩
    · rw [skipped]
    · obtain ⟨key,plain',rfl⟩ := shaped key List.mem_cons_self within
      have apart : modelKey model key ≠ q := fun same => other (prefix_modelKey.mpr ⟨key,same.symm⟩)
      have apart' : key ≠ q := fun same => plain' (same ▸ colon)
      rw [(restoreKey_find plain plain' found q).2,if_neg apart,if_neg apart']

end FreebsdLaunchd.PreferencesMonitor
