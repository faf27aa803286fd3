import FreebsdLaunchd.DynamicStore.Operations

/-! What the operations on watchers, session lists and single entries do to the
fields of every key's entry and of every session's information. -/
namespace FreebsdLaunchd.DynamicStore
open State

variable {Regex : Type}

/-! ## Entries -/

theorem entry_insert (st : State Regex) (key k : CFString) (e : Entry) :
    ({ st with storeData := st.storeData.insert key e }).entry k = if k = key then e else st.entry k := by
  by_cases same : k = key
  · subst k
    simp [entry]
  · simp [entry,same,AList.lookup_insert_ne same]

theorem Entry.eq_empty_of_count {e : Entry} (none : ¬ e.count > 0) : e = {} := by
  obtain ⟨data,session,watchers,watcherRefs⟩ := e
  cases data <;> cases session <;> cases watchers <;> cases watcherRefs <;> simp [Entry.count] at none ⊢

theorem entry_put (st : State Regex) (key k : CFString) (e : Entry) :
    ({ st with storeData := if e.count > 0 then st.storeData.insert key e
                            else st.storeData.erase key }).entry k = if k = key then e else st.entry k := by
  by_cases some : e.count > 0
  · simp only [some,if_true]
    exact entry_insert st key k e
  · simp only [some,if_false,entry]
    by_cases same : k = key
    · subst k
      simp [Entry.eq_empty_of_count some]
    · simp [same,AList.lookup_erase_ne same]

theorem entry_of_lookup {st : State Regex} {key : CFString} {e : Entry}
    (found : st.storeData.lookup key = some e) : st.entry key = e := by
  simp [entry,found]

theorem entry_of_absent {st : State Regex} {key : CFString}
    (absent : st.storeData.lookup key = none) : st.entry key = {} := by
  simp [entry,absent]

theorem copyValue_eq (key : CFString) (st : State Regex) : copyValue key st = (st.entry key).data := by
  unfold copyValue
  cases found : st.storeData.lookup key with
  | none => simp [entry_of_absent found]
  | some e => simp [entry_of_lookup found]

/-! ## Watchers -/

@[simp] theorem setRefs_data (e : Entry) (t : RefCounts Int) : (e.setRefs t).data = e.data := rfl
@[simp] theorem setRefs_session (e : Entry) (t : RefCounts Int) : (e.setRefs t).session = e.session := rfl
@[simp] theorem setRefs_refs (e : Entry) (t : RefCounts Int) : (e.setRefs t).refs = t := rfl

private theorem entry_addWatcher (s : Int) (key k : CFString) (st : State Regex) :
    (addWatcher s key st).entry k =
      if k = key then (st.entry key).setRefs ((st.entry key).refs.retain s) else st.entry k := by
  simp only [addWatcher]
  rw [entry_insert]
  rfl

theorem data_addWatcher (s : Int) (key k : CFString) (st : State Regex) :
    ((addWatcher s key st).entry k).data = (st.entry k).data := by
  rw [entry_addWatcher]
  by_cases same : k = key <;> simp [same]

theorem session_addWatcher (s : Int) (key k : CFString) (st : State Regex) :
    ((addWatcher s key st).entry k).session = (st.entry k).session := by
  rw [entry_addWatcher]
  by_cases same : k = key <;> simp [same]

theorem refs_addWatcher (s : Int) (key k : CFString) (st : State Regex) :
    ((addWatcher s key st).entry k).refs =
      if k = key then (st.entry key).refs.retain s else (st.entry k).refs := by
  rw [entry_addWatcher]
  by_cases same : k = key <;> simp [same]

/-- The entry a key has once `_removeWatcher` has dropped one reference of `s`. -/
def Entry.released (e : Entry) (s : Int) : Entry :=
  if e.watchers.isNone ∨ s ∉ e.refs.holders then e
  else if (e.refs.release s).holders.length > 0 then e.setRefs (e.refs.release s)
  else { e with watchers := none, watcherRefs := none }

private theorem entry_removeWatcher (s : Int) (key k : CFString) (st : State Regex) :
    (removeWatcher s key st).entry k = if k = key then (st.entry key).released s else st.entry k := by
  unfold removeWatcher Entry.released
  cases found : st.storeData.lookup key with
  | none =>
    rw [entry_of_absent found]
    by_cases same : k = key
    · subst k
      simp [entry_of_absent found]
    · simp [same]
  | some dict =>
    rw [entry_of_lookup found]
    have kept : st.entry k = if k = key then dict else st.entry k := by
      by_cases same : k = key
      · subst k
        simp [entry_of_lookup found]
      · simp [same]
    by_cases unwatched : dict.watchers.isNone
    · simpa [unwatched] using kept
    · by_cases member : s ∈ dict.refs.holders
      · simp only [unwatched,member,Bool.false_eq_true,not_true_eq_false,if_false,or_self]
        exact entry_put st key k _
      · simpa [unwatched,member] using kept

private theorem released_data (e : Entry) (s : Int) : (e.released s).data = e.data := by
  unfold Entry.released
  split
  · rfl
  · split <;> rfl

private theorem released_session (e : Entry) (s : Int) : (e.released s).session = e.session := by
  unfold Entry.released
  split
  · rfl
  · split <;> rfl

private theorem released_refs {e : Entry} (valid : e.refs.Valid) (s : Int) :
    (e.released s).refs = e.refs.release s := by
  unfold Entry.released
  split
  · have absent : s ∉ e.refs.holders := by
      rename_i idle
      rcases idle with unwatched | absent
      · simp [Entry.refs,Option.isNone_iff_eq_none.mp unwatched]
      · exact absent
    rw [RefCounts.release_of_not_mem absent]
  · split
    · rfl
    · rename_i none
      have noHolder : (e.refs.release s).holders = [] := by simpa using none
      have noCount : (e.refs.release s).counts = [] := by
        have parallel := (RefCounts.valid_release valid s).parallel
        rw [noHolder] at parallel
        exact List.length_eq_zero_iff.mp parallel
      cases released : e.refs.release s
      simp_all [Entry.refs]

theorem data_removeWatcher (s : Int) (key k : CFString) (st : State Regex) :
    ((removeWatcher s key st).entry k).data = (st.entry k).data := by
  rw [entry_removeWatcher]
  by_cases same : k = key <;> simp [same,released_data]

theorem session_removeWatcher (s : Int) (key k : CFString) (st : State Regex) :
    ((removeWatcher s key st).entry k).session = (st.entry k).session := by
  rw [entry_removeWatcher]
  by_cases same : k = key <;> simp [same,released_session]

theorem refs_removeWatcher {st : State Regex} {key : CFString} (valid : (st.entry key).refs.Valid)
    (s : Int) (k : CFString) :
    ((removeWatcher s key st).entry k).refs =
      if k = key then (st.entry key).refs.release s else (st.entry k).refs := by
  rw [entry_removeWatcher]
  by_cases same : k = key <;> simp [same,released_refs valid]

end FreebsdLaunchd.DynamicStore
