import FreebsdLaunchd.DynamicStore.Views

/-! The reference counts of the watchers. A session's count on a key is meant
to be the number of reasons it has for watching it, the key itself and each of
its patterns whose cached list has the key; a batch of references moves the
counts by as much as it moves the reasons. -/
namespace FreebsdLaunchd.DynamicStore
open State

variable {Regex : Type}

namespace State

variable (st : State Regex)

def watchedKeys (s : Int) : List CFString := (st.deref s).keys

def watchedPatterns (s : Int) : List CFString := (st.deref s).patterns

def cachedKeys (pattern : CFString) : List CFString :=
  ((st.patternData.lookup pattern).map PatternInfo.keys).getD []

def refCount (s : Int) (key : CFString) : Int := (st.entry key).refs.count s

def listing (patterns : List CFString) (key : CFString) : Nat :=
  patterns.countP fun p => (st.cachedKeys p).contains key

def reasons (s : Int) (key : CFString) : Nat :=
  (if (st.watchedKeys s).contains key then 1 else 0) + st.listing (st.watchedPatterns s) key

theorem listing_eq (patterns : List CFString) (key : CFString) :
    st.listing patterns key = patterns.countP fun p => key ∈ st.cachedKeys p := by
  simp [listing]

theorem reasons_eq (s : Int) (key : CFString) : st.reasons s key =
    (if key ∈ st.watchedKeys s then 1 else 0) + st.listing (st.watchedPatterns s) key := by
  simp [reasons]

end State

structure Watched (st : State Regex) : Prop where
  valid : ∀ key, (st.entry key).refs.Valid
  counts : ∀ s key, st.refCount s key = st.reasons s key

theorem Watched.mem_holders {st : State Regex} (watched : Watched st) {s : Int} {key : CFString} :
    s ∈ (st.entry key).refs.holders ↔
      key ∈ st.watchedKeys s ∨ ∃ p ∈ st.watchedPatterns s, key ∈ st.cachedKeys p := by
  have counted := watched.counts s key
  rw [RefCounts.mem_holders (watched.valid key)]
  change 0 < st.refCount s key ↔ _
  rw [counted,reasons_eq,listing_eq]
  constructor
  · intro positive
    by_cases direct : key ∈ st.watchedKeys s
    · exact .inl direct
    · right
      have some : 0 < (st.watchedPatterns s).countP fun p => key ∈ st.cachedKeys p := by
        simp only [direct,if_false] at positive
        omega
      obtain ⟨p,member,inside⟩ := List.countP_pos_iff.mp some
      exact ⟨p,member,by simpa using inside⟩
  · rintro (direct | ⟨p,member,inside⟩)
    · simp only [direct,if_true]
      omega
    · have some : 0 < (st.watchedPatterns s).countP fun p => key ∈ st.cachedKeys p :=
        List.countP_pos_iff.mpr ⟨p,member,by simpa using inside⟩
      omega

theorem listing_congr {st st' : State Regex} {l : List CFString}
    (cached : ∀ p ∈ l, st'.cachedKeys p = st.cachedKeys p) (key : CFString) :
    st'.listing l key = st.listing l key := by
  rw [listing_eq,listing_eq]
  apply List.countP_congr
  intro p member
  simp [cached p member]

theorem listing_append (st : State Regex) (l : List CFString) (p key : CFString) :
    st.listing (l ++ [p]) key = st.listing l key + if key ∈ st.cachedKeys p then 1 else 0 := by
  by_cases inside : key ∈ st.cachedKeys p <;> simp [State.listing_eq,inside]

theorem listing_erase (st : State Regex) {l : List CFString} {p : CFString} (member : p ∈ l)
    (key : CFString) :
    st.listing l key = st.listing (l.erase p) key + if key ∈ st.cachedKeys p then 1 else 0 := by
  rw [State.listing_eq,State.listing_eq,(List.perm_cons_erase member).countP_eq]
  by_cases inside : key ∈ st.cachedKeys p <;> simp [inside]

/-! ## Everything but watchers and patterns -/

/-- The two states agree except for watchers and cached patterns. -/
structure SameValues (st st' : State Regex) : Prop where
  data : ∀ key, (st'.entry key).data = (st.entry key).data
  session : ∀ key, (st'.entry key).session = (st.entry key).session
  sessionData : st'.sessionData = st.sessionData
  changedKeys : st'.changedKeys = st.changedKeys
  deferredRemovals : st'.deferredRemovals = st.deferredRemovals
  removedSessionKeys : st'.removedSessionKeys = st.removedSessionKeys
  needsNotification : st'.needsNotification = st.needsNotification
  sessions : st'.sessions = st.sessions
  assertionFailed : st'.assertionFailed = st.assertionFailed

theorem SameValues.refl (st : State Regex) : SameValues st st :=
  ⟨fun _ => rfl,fun _ => rfl,rfl,rfl,rfl,rfl,rfl,rfl,rfl⟩

theorem SameValues.trans {a b c : State Regex} (first : SameValues a b) (second : SameValues b c) :
    SameValues a c where
  data key := (second.data key).trans (first.data key)
  session key := (second.session key).trans (first.session key)
  sessionData := second.sessionData.trans first.sessionData
  changedKeys := second.changedKeys.trans first.changedKeys
  deferredRemovals := second.deferredRemovals.trans first.deferredRemovals
  removedSessionKeys := second.removedSessionKeys.trans first.removedSessionKeys
  needsNotification := second.needsNotification.trans first.needsNotification
  sessions := second.sessions.trans first.sessions
  assertionFailed := second.assertionFailed.trans first.assertionFailed

theorem SameValues.foldl {α : Type} {f : State Regex → α → State Regex}
    (each : ∀ st a, SameValues st (f st a)) (l : List α) (st : State Regex) :
    SameValues st (l.foldl f st) := by
  induction l generalizing st with
  | nil => exact .refl st
  | cons a rest ih => exact (each st a).trans (ih (f st a))

theorem SameValues.live {st st' : State Regex} (same : SameValues st st') : st'.live = st.live := by
  simp [State.live,same.sessions]

theorem SameValues.deref {st st' : State Regex} (same : SameValues st st') (s : Int) :
    st'.deref s = st.deref s := by
  simp [State.deref,same.live]

theorem sameValues_addWatcher (s : Int) (key : CFString) (st : State Regex) :
    SameValues st (addWatcher s key st) :=
  ⟨fun k => data_addWatcher s key k st,fun k => session_addWatcher s key k st,
    rfl,rfl,rfl,rfl,rfl,rfl,rfl⟩

private theorem patternData_addWatcher (s : Int) (key : CFString) (st : State Regex) :
    (addWatcher s key st).patternData = st.patternData := rfl

private theorem removeWatcher_eq (s : Int) (key : CFString) (st : State Regex) :
    removeWatcher s key st = { st with storeData := (removeWatcher s key st).storeData } := by
  unfold removeWatcher
  cases st.storeData.lookup key with
  | none => rfl
  | some dict =>
    by_cases unwatched : dict.watchers.isNone
    · simp [unwatched]
    · by_cases member : s ∈ dict.refs.holders <;> simp [unwatched,member]

theorem sameValues_removeWatcher (s : Int) (key : CFString) (st : State Regex) :
    SameValues st (removeWatcher s key st) := by
  refine ⟨fun k => data_removeWatcher s key k st,fun k => session_removeWatcher s key k st,
    ?_,?_,?_,?_,?_,?_,?_⟩ <;> rw [removeWatcher_eq]

theorem patternData_removeWatcher (s : Int) (key : CFString) (st : State Regex) :
    (removeWatcher s key st).patternData = st.patternData := by rw [removeWatcher_eq]

/-! ## Batches of references -/

def retainAll (pairs : List (Int × CFString)) (st : State Regex) : State Regex :=
  pairs.foldl (fun st p => addWatcher p.1 p.2 st) st

def releaseAll (pairs : List (Int × CFString)) (st : State Regex) : State Regex :=
  pairs.foldl (fun st p => removeWatcher p.1 p.2 st) st

theorem sameValues_retainAll (pairs : List (Int × CFString)) (st : State Regex) :
    SameValues st (retainAll pairs st) := by
  unfold retainAll
  exact .foldl (fun st p => sameValues_addWatcher p.1 p.2 st) pairs st

theorem sameValues_releaseAll (pairs : List (Int × CFString)) (st : State Regex) :
    SameValues st (releaseAll pairs st) := by
  unfold releaseAll
  exact .foldl (fun st p => sameValues_removeWatcher p.1 p.2 st) pairs st

theorem patternData_retainAll (pairs : List (Int × CFString)) (st : State Regex) :
    (retainAll pairs st).patternData = st.patternData := by
  induction pairs generalizing st with
  | nil => rfl
  | cons p rest ih => exact (ih _).trans (patternData_addWatcher p.1 p.2 st)

theorem patternData_releaseAll (pairs : List (Int × CFString)) (st : State Regex) :
    (releaseAll pairs st).patternData = st.patternData := by
  induction pairs generalizing st with
  | nil => rfl
  | cons p rest ih => exact (ih _).trans (patternData_removeWatcher p.1 p.2 st)

theorem valid_addWatcher {st : State Regex} (valid : ∀ k, (st.entry k).refs.Valid) (s : Int)
    (key k : CFString) : ((addWatcher s key st).entry k).refs.Valid := by
  rw [refs_addWatcher]
  split
  · exact RefCounts.valid_retain (valid key) s
  · exact valid k

theorem refCount_addWatcher {st : State Regex} (valid : ∀ k, (st.entry k).refs.Valid) (s : Int)
    (key : CFString) (t : Int) (k : CFString) :
    (addWatcher s key st).refCount t k = st.refCount t k + if (t,k) = (s,key) then 1 else 0 := by
  rw [refCount,refs_addWatcher]
  by_cases here : k = key
  · subst k
    simp [RefCounts.count_retain (valid key),refCount]
  · simp [here,refCount]

theorem valid_removeWatcher {st : State Regex} (valid : ∀ k, (st.entry k).refs.Valid) (s : Int)
    (key k : CFString) : ((removeWatcher s key st).entry k).refs.Valid := by
  rw [refs_removeWatcher (valid key)]
  split
  · exact RefCounts.valid_release (valid key) s
  · exact valid k

theorem refCount_removeWatcher {st : State Regex} (valid : ∀ k, (st.entry k).refs.Valid) {s : Int}
    {key : CFString} (held : 0 < st.refCount s key) (t : Int) (k : CFString) :
    (removeWatcher s key st).refCount t k = st.refCount t k - if (t,k) = (s,key) then 1 else 0 := by
  have member : s ∈ (st.entry key).refs.holders := (RefCounts.mem_holders (valid key)).mpr held
  rw [refCount,refs_removeWatcher (valid key)]
  by_cases here : k = key
  · subst k
    simp [RefCounts.count_release (valid key),member,refCount]
  · simp [here,refCount]

theorem valid_retainAll (pairs : List (Int × CFString)) {st : State Regex}
    (valid : ∀ k, (st.entry k).refs.Valid) : ∀ k, ((retainAll pairs st).entry k).refs.Valid := by
  induction pairs generalizing st with
  | nil => exact valid
  | cons p rest ih => exact ih (valid_addWatcher valid p.1 p.2)

theorem refCount_retainAll (pairs : List (Int × CFString)) {st : State Regex}
    (valid : ∀ k, (st.entry k).refs.Valid) (t : Int) (k : CFString) :
    (retainAll pairs st).refCount t k = st.refCount t k + pairs.count (t,k) := by
  induction pairs generalizing st with
  | nil => simp [retainAll]
  | cons p rest ih =>
    have later := ih (valid_addWatcher valid p.1 p.2)
    rw [refCount_addWatcher valid] at later
    rw [List.count_cons]
    change (retainAll rest (addWatcher p.1 p.2 st)).refCount t k = _
    rw [later]
    by_cases same : (t,k) = p
    · subst same
      simp
      omega
    · have other : ¬ p = (t,k) := fun equal => same equal.symm
      simp [same,other]

theorem valid_releaseAll (pairs : List (Int × CFString)) {st : State Regex}
    (valid : ∀ k, (st.entry k).refs.Valid) : ∀ k, ((releaseAll pairs st).entry k).refs.Valid := by
  induction pairs generalizing st with
  | nil => exact valid
  | cons p rest ih => exact ih (valid_removeWatcher valid p.1 p.2)

theorem refCount_releaseAll (pairs : List (Int × CFString)) {st : State Regex}
    (valid : ∀ k, (st.entry k).refs.Valid)
    (held : ∀ t k, (pairs.count (t,k) : Int) ≤ st.refCount t k) (t : Int) (k : CFString) :
    (releaseAll pairs st).refCount t k = st.refCount t k - pairs.count (t,k) := by
  induction pairs generalizing st with
  | nil => simp [releaseAll]
  | cons p rest ih =>
    have first : 0 < st.refCount p.1 p.2 := by
      have := held p.1 p.2
      rw [List.count_cons] at this
      simp at this
      omega
    have counted (t : Int) (k : CFString) := refCount_removeWatcher valid first t k
    have later := ih (valid_removeWatcher valid p.1 p.2) (by
      intro t k
      have := held t k
      rw [List.count_cons] at this
      rw [counted]
      by_cases same : (t,k) = p
      · subst same
        simp at this ⊢
        omega
      · have other : ¬ p = (t,k) := fun equal => same equal.symm
        simp [same,other] at this ⊢
        omega)
    rw [counted] at later
    rw [List.count_cons]
    change (releaseAll rest (removeWatcher p.1 p.2 st)).refCount t k = _
    rw [later]
    by_cases same : (t,k) = p
    · subst same
      simp
      omega
    · have other : ¬ p = (t,k) := fun equal => same equal.symm
      simp [same,other]

theorem count_sessions_key {sessions : List Int} (distinct : sessions.Nodup) (key : CFString) (t : Int)
    (k : CFString) :
    (sessions.map fun s => (s,key)).count (t,k) = if t ∈ sessions ∧ k = key then 1 else 0 := by
  have injective : Function.Injective fun s : Int => (s,key) := fun a b same => by simpa using same
  have separate := distinct.map injective
  by_cases member : t ∈ sessions ∧ k = key
  · rw [if_pos member]
    apply List.count_eq_one_of_mem separate
    exact List.mem_map.mpr ⟨t,member.1,by rw [member.2]⟩
  · rw [if_neg member]
    apply List.count_eq_zero.mpr
    rintro inside
    obtain ⟨s,held,same⟩ := List.mem_map.mp inside
    simp only [Prod.mk.injEq] at same
    exact member ⟨same.1 ▸ held,same.2.symm⟩

theorem count_session_keys {keys : List CFString} (distinct : keys.Nodup) (s t : Int) (k : CFString) :
    (keys.map fun key => (s,key)).count (t,k) = if t = s ∧ k ∈ keys then 1 else 0 := by
  have injective : Function.Injective fun key : CFString => (s,key) := fun a b same => by simpa using same
  have separate := distinct.map injective
  by_cases member : t = s ∧ k ∈ keys
  · rw [if_pos member]
    apply List.count_eq_one_of_mem separate
    exact List.mem_map.mpr ⟨k,member.2,by rw [member.1]⟩
  · rw [if_neg member]
    apply List.count_eq_zero.mpr
    rintro inside
    obtain ⟨key,held,same⟩ := List.mem_map.mp inside
    simp only [Prod.mk.injEq] at same
    exact member ⟨same.1.symm,same.2 ▸ held⟩

end FreebsdLaunchd.DynamicStore
