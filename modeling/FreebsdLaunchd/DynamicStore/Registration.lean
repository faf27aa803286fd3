import FreebsdLaunchd.DynamicStore.Patterns

/-! A session starts or stops watching a key or a pattern. The reference counts
and the cached patterns stay what they are meant to be, and nothing else of the
store moves. -/
namespace FreebsdLaunchd.DynamicStore
open State

variable {Regex : Type} {os : Platform Regex}

variable (os) in
structure Registry (st : State Regex) : Prop where
  table : Table st
  watched : Watched st
  cached : Cached os st (Present st)

/-- The two states agree on all that a change of a key's value can touch. -/
structure SameStore (st st' : State Regex) : Prop where
  data : ∀ key, (st'.entry key).data = (st.entry key).data
  session : ∀ key, (st'.entry key).session = (st.entry key).session
  sessionData : st'.sessionData = st.sessionData
  changedKeys : st'.changedKeys = st.changedKeys
  deferredRemovals : st'.deferredRemovals = st.deferredRemovals
  removedSessionKeys : st'.removedSessionKeys = st.removedSessionKeys
  needsNotification : st'.needsNotification = st.needsNotification
  opened : ∀ s, Open st' s ↔ Open st s
  assertionFailed : st'.assertionFailed = st.assertionFailed

theorem SameValues.sameStore {st st' : State Regex} (same : SameValues st st') : SameStore st st' where
  data := same.data
  session := same.session
  sessionData := same.sessionData
  changedKeys := same.changedKeys
  deferredRemovals := same.deferredRemovals
  removedSessionKeys := same.removedSessionKeys
  needsNotification := same.needsNotification
  opened s := by rw [Open,same.live,Open]
  assertionFailed := same.assertionFailed

theorem SameStore.refl (st : State Regex) : SameStore st st := (SameValues.refl st).sameStore

theorem SameStore.trans {a b c : State Regex} (first : SameStore a b) (second : SameStore b c) :
    SameStore a c where
  data key := (second.data key).trans (first.data key)
  session key := (second.session key).trans (first.session key)
  sessionData := second.sessionData.trans first.sessionData
  changedKeys := second.changedKeys.trans first.changedKeys
  deferredRemovals := second.deferredRemovals.trans first.deferredRemovals
  removedSessionKeys := second.removedSessionKeys.trans first.removedSessionKeys
  needsNotification := second.needsNotification.trans first.needsNotification
  opened s := (second.opened s).trans (first.opened s)
  assertionFailed := second.assertionFailed.trans first.assertionFailed

/-! ## Writing through a session's pointer -/

theorem live_modify (st : State Regex) (n : Int) (f : StorePrivate → StorePrivate) :
    (st.modify n f).live = st.live.map fun x => if x.server = n then f x else x := by
  simp only [State.live,State.modify]
  induction st.sessions with
  | nil => rfl
  | cons slot rest ih =>
    cases slot with
    | none => simpa using ih
    | some x => simpa using ih

variable {st : State Regex} {n : Int} {f : StorePrivate → StorePrivate}

@[simp] theorem cachedKeys_modify (p : CFString) : (st.modify n f).cachedKeys p = st.cachedKeys p := rfl

@[simp] theorem refCount_modify (s : Int) (k : CFString) :
    (st.modify n f).refCount s k = st.refCount s k := rfl

@[simp] theorem cachedKeys_addWatcher (key p : CFString) :
    (addWatcher n key st).cachedKeys p = st.cachedKeys p := rfl

@[simp] theorem cachedKeys_removeWatcher (key p : CFString) :
    (removeWatcher n key st).cachedKeys p = st.cachedKeys p := by
  rw [State.cachedKeys,patternData_removeWatcher,State.cachedKeys]

private theorem servers_modify (server : ∀ x, (f x).server = x.server) :
    (st.modify n f).live.map StorePrivate.server = st.live.map StorePrivate.server := by
  rw [live_modify,List.map_map]
  apply List.map_congr_left
  intro x _
  by_cases here : x.server = n <;> simp [here,server]

theorem open_modify (server : ∀ x, (f x).server = x.server) (s : Int) :
    Open (st.modify n f) s ↔ Open st s := by
  have mapped (st : State Regex) : Open st s ↔ s ∈ st.live.map StorePrivate.server := by
    simp [Open]
  rw [mapped,mapped,servers_modify server]

theorem sameStore_modify (server : ∀ x, (f x).server = x.server) : SameStore st (st.modify n f) where
  data _ := rfl
  session _ := rfl
  sessionData := rfl
  changedKeys := rfl
  deferredRemovals := rfl
  removedSessionKeys := rfl
  needsNotification := rfl
  opened := open_modify server
  assertionFailed := rfl

theorem deref_modify (server : ∀ x, (f x).server = x.server) (isOpen : Open st n) (s : Int) :
    (st.modify n f).deref s = if s = n then f (st.deref n) else st.deref s := by
  have found : (st.live.map fun x => if x.server = n then f x else x).find? (fun x => x.server = s) =
      (st.live.find? fun x => x.server = s).map fun x => if x.server = n then f x else x := by
    rw [List.find?_map]
    congr 1
    apply congrArg (fun q => st.live.find? q)
    funext x
    by_cases here : x.server = n <;> simp [here,server]
  simp only [State.deref,live_modify,found]
  cases hit : st.live.find? fun x => x.server = s with
  | none =>
    have closed : s ≠ n := by
      rintro rfl
      obtain ⟨x,member,same⟩ := isOpen
      exact absurd (List.find?_eq_none.mp hit x member) (by simp [same])
    simp [closed]
  | some x =>
    have same : x.server = s := by simpa using List.find?_some hit
    by_cases here : s = n
    · subst here
      simp [same,hit]
    · simp [same,here]

theorem Table.modify (table : Table st) (server : ∀ x, (f x).server = x.server)
    (keys : ∀ x ∈ st.live, x.server = n → (f x).keys.Nodup)
    (patterns : ∀ x ∈ st.live, x.server = n → (f x).patterns.Nodup) : Table (st.modify n f) := by
  have origin {y : StorePrivate} (member : y ∈ (st.modify n f).live) :
      ∃ x ∈ st.live, (if x.server = n then f x else x) = y := by
    rw [live_modify] at member
    exact List.mem_map.mp member
  refine ⟨?_,?_,?_,?_⟩
  · rw [servers_modify server]
    exact table.distinct
  · intro y member
    obtain ⟨x,inside,rfl⟩ := origin member
    by_cases here : x.server = n
    · simpa [here,server] using here ▸ table.nonzero x inside
    · simpa [here] using table.nonzero x inside
  · intro y member
    obtain ⟨x,inside,rfl⟩ := origin member
    by_cases here : x.server = n
    · simpa [here] using keys x inside here
    · simpa [here] using table.keys x inside
  · intro y member
    obtain ⟨x,inside,rfl⟩ := origin member
    by_cases here : x.server = n
    · simpa [here] using patterns x inside here
    · simpa [here] using table.patterns x inside

/-! ## Keys -/

private theorem mem_deref (table : Table st) {x : StorePrivate} (member : x ∈ st.live) (here : x.server = n) :
    x = st.deref n := by
  rw [← here,table.deref member]

theorem SameStore.present {st st' : State Regex} (same : SameStore st st') : Present st' = Present st := by
  funext key
  simp only [Present,same.data,same.deferredRemovals]

/-- Changing the plain keys a session watches does not concern the cache. -/
theorem Cached.of_patterns {st st' : State Regex} {present : CFString → Prop}
    (cached : Cached os st present) (patternData : st'.patternData = st.patternData)
    (patterns : ∀ s, st'.watchedPatterns s = st.watchedPatterns s) : Cached os st' present := by
  refine ⟨?_,?_,?_⟩
  · intro p pInfo found
    rw [patternData] at found
    have sound := cached.each p pInfo found
    refine ⟨sound.compiled,sound.distinctKeys,sound.distinctSessions,?_,sound.keys⟩
    intro s
    rw [sound.sessions,patterns]
  · intro p pInfo found
    rw [patternData] at found
    exact cached.watched p pInfo found
  · intro s p member
    rw [patterns] at member
    rw [patternData]
    exact cached.registered s p member

def addKeyTo (key : CFString) (x : StorePrivate) : StorePrivate := { x with keys := x.keys ++ [key] }

def dropKeyFrom (key : CFString) (x : StorePrivate) : StorePrivate := { x with keys := x.keys.erase key }

private theorem registry_watchKey (registry : Registry os st) (isOpen : Open st n) {key : CFString}
    (fresh : key ∉ st.watchedKeys n) :
    Registry os ((addWatcher n key st).modify n (addKeyTo key)) ∧
      SameStore st ((addWatcher n key st).modify n (addKeyTo key)) := by
  have moved := sameValues_addWatcher n key st
  have same := moved.sameStore.trans (sameStore_modify (n := n) (f := addKeyTo key) fun _ => rfl)
  have derefs (s : Int) : ((addWatcher n key st).modify n (addKeyTo key)).deref s =
      if s = n then addKeyTo key (st.deref n) else st.deref s := by
    rw [deref_modify (f := addKeyTo key) (fun _ => rfl) ((moved.sameStore.opened n).mpr isOpen),
      moved.deref,moved.deref]
  have patterns (s : Int) : ((addWatcher n key st).modify n (addKeyTo key)).watchedPatterns s =
      st.watchedPatterns s := by
    rw [State.watchedPatterns,derefs,State.watchedPatterns]
    split
    · rename_i here
      rw [here]
      rfl
    · rfl
  have keys (s : Int) : ((addWatcher n key st).modify n (addKeyTo key)).watchedKeys s =
      if s = n then st.watchedKeys n ++ [key] else st.watchedKeys s := by
    rw [State.watchedKeys,derefs]
    split <;> rfl
  have listing (l : List CFString) (k : CFString) :
      ((addWatcher n key st).modify n (addKeyTo key)).listing l k = st.listing l k :=
    listing_congr (by simp) k
  refine ⟨⟨?_,⟨valid_addWatcher registry.watched.valid n key,?_⟩,
    same.present ▸ registry.cached.of_patterns rfl patterns⟩,same⟩
  · apply Table.modify (f := addKeyTo key) (moved.table registry.table) fun _ => rfl
    · intro x member here
      rw [moved.live] at member
      rw [mem_deref registry.table member here]
      simpa [addKeyTo,State.watchedKeys] using (registry.table.watchedKeys n).concat fresh
    · intro x member _
      rw [moved.live] at member
      exact registry.table.patterns x member
  · intro s k
    rw [refCount_modify,refCount_addWatcher registry.watched.valid,registry.watched.counts,
      State.reasons_eq,State.reasons_eq,patterns,
      listing,keys]
    by_cases here : s = n
    · subst s
      by_cases this : k = key
      · subst k
        simp [fresh,Int.add_comm]
      · simp [this]
    · simp [here]

private theorem registry_unwatchKey (registry : Registry os st) (isOpen : Open st n) {key : CFString}
    (listed : key ∈ st.watchedKeys n) :
    Registry os (removeWatcher n key (st.modify n (dropKeyFrom key))) ∧
      SameStore st (removeWatcher n key (st.modify n (dropKeyFrom key))) := by
  have moved := sameValues_removeWatcher n key (st.modify n (dropKeyFrom key))
  have written : SameStore st (st.modify n (dropKeyFrom key)) := sameStore_modify fun _ => rfl
  have same := written.trans moved.sameStore
  have derefs (s : Int) : (st.modify n (dropKeyFrom key)).deref s =
      if s = n then dropKeyFrom key (st.deref n) else st.deref s :=
    deref_modify (f := dropKeyFrom key) (fun _ => rfl) isOpen s
  have patterns (s : Int) : (removeWatcher n key (st.modify n (dropKeyFrom key))).watchedPatterns s =
      st.watchedPatterns s := by
    rw [State.watchedPatterns,moved.deref,derefs,State.watchedPatterns]
    split
    · rename_i here
      rw [here]
      rfl
    · rfl
  have keys (s : Int) : (removeWatcher n key (st.modify n (dropKeyFrom key))).watchedKeys s =
      if s = n then (st.watchedKeys n).erase key else st.watchedKeys s := by
    rw [State.watchedKeys,moved.deref,derefs]
    split <;> rfl
  have valid : ∀ k, ((st.modify n (dropKeyFrom key)).entry k).refs.Valid := registry.watched.valid
  have held : 0 < (st.modify n (dropKeyFrom key)).refCount n key := by
    rw [refCount_modify,registry.watched.counts,State.reasons_eq]
    simp only [listed,if_true]
    omega
  have listing (l : List CFString) (k : CFString) :
      (removeWatcher n key (st.modify n (dropKeyFrom key))).listing l k = st.listing l k :=
    listing_congr (by simp) k
  refine ⟨⟨?_,⟨valid_removeWatcher valid n key,?_⟩,
    same.present ▸ registry.cached.of_patterns (patternData_removeWatcher n key _) patterns⟩,same⟩
  · apply moved.table
    apply Table.modify (f := dropKeyFrom key) registry.table fun _ => rfl
    · intro x member _
      exact (registry.table.keys x member).erase key
    · exact fun x member _ => registry.table.patterns x member
  · intro s k
    rw [refCount_removeWatcher valid held,refCount_modify,registry.watched.counts,
      State.reasons_eq,State.reasons_eq,patterns,
      listing,keys]
    by_cases here : s = n
    · subst s
      by_cases this : k = key
      · subst k
        simp [listed,(registry.table.watchedKeys n).not_mem_erase]
      · simp [this,List.mem_erase_of_ne this]
    · simp [here]

/-! ## Patterns -/

def addPatternTo (pattern : CFString) (x : StorePrivate) : StorePrivate :=
  { x with patterns := x.patterns ++ [pattern] }

def dropPatternFrom (pattern : CFString) (x : StorePrivate) : StorePrivate :=
  { x with patterns := x.patterns.erase pattern }

variable {pattern : CFString} {pInfo : PatternInfo Regex}

theorem patternNew_keys (new : patternNew os pattern st = some pInfo) :
    patternCompile os pattern = some pInfo.regex ∧ pInfo.keys.Nodup ∧ pInfo.sessions = [] ∧
      ∀ key, key ∈ pInfo.keys ↔ matchesPattern os pattern key ∧ (st.entry key).data.isSome := by
  unfold patternNew at new
  cases compiled : patternCompile os pattern with
  | none => simp [compiled] at new
  | some pRegex =>
    simp only [compiled,Option.some.injEq] at new
    subst new
    refine ⟨rfl,?_,rfl,?_⟩
    · have distinct : ((os.order _ st.storeData.entries).map Sigma.fst).Nodup :=
        ((os.order_perm _ st.storeData.entries).map Sigma.fst).nodup_iff.mpr st.storeData.keys_nodup
      exact distinct.sublist (List.filter_sublist.map Sigma.fst)
    · intro key
      rw [matchesPattern_iff os compiled]
      simp only [List.mem_map,List.mem_filter,(os.order_perm _ st.storeData.entries).mem_iff]
      constructor
      · rintro ⟨e,⟨member,fits⟩,rfl⟩
        have found : st.storeData.lookup e.1 = some e.2 := AList.mem_lookup_iff.mpr member
        rw [entry_of_lookup found]
        simp only [Bool.and_eq_true] at fits
        exact ⟨fits.2,fits.1⟩
      · rintro ⟨hit,data⟩
        cases found : st.storeData.lookup key with
        | none => simp [entry_of_absent found] at data
        | some e =>
          rw [entry_of_lookup found] at data
          exact ⟨⟨key,e⟩,⟨AList.mem_lookup_iff.mp found,by simp [data,hit]⟩,rfl⟩

private theorem patternNew_spec (settled : st.deferredRemovals = [])
    (unwatched : ∀ s, pattern ∉ st.watchedPatterns s) (new : patternNew os pattern st = some pInfo) :
    CachedPattern os st (Present st) pattern pInfo := by
  obtain ⟨compiled,distinct,nobody,keys⟩ := patternNew_keys new
  refine ⟨compiled,distinct,?_,?_,?_⟩
  · rw [nobody]
    exact List.nodup_nil
  · intro s
    simpa [nobody] using unwatched s
  · intro key
    rw [keys,Present,settled]
    simp

/-- A pattern's record, known already or new, is sound, and what it lists is
what the sessions watching it count on. -/
theorem patternCopy_spec (registry : Registry os st) (settled : st.deferredRemovals = [])
    (copied : patternCopy os pattern st = some pInfo) :
    CachedPattern os st (Present st) pattern pInfo ∧
      ∀ s, pattern ∈ st.watchedPatterns s → pInfo.keys = st.cachedKeys pattern := by
  unfold patternCopy at copied
  cases found : st.patternData.lookup pattern with
  | some known =>
    simp only [found,Option.some.injEq] at copied
    subst copied
    exact ⟨registry.cached.each pattern known found,fun _ _ => (cachedKeys_of_lookup found).symm⟩
  | none =>
    simp only [found] at copied
    have unwatched (s : Int) : pattern ∉ st.watchedPatterns s := fun member =>
      AList.lookup_eq_none.mp found (registry.cached.registered s pattern member)
    exact ⟨patternNew_spec settled unwatched copied,fun s member => absurd member (unwatched s)⟩

def watchPattern (n : Int) (pattern : CFString) (pInfo : PatternInfo Regex) (st : State Regex) :
    State Regex :=
  (retainAll (pInfo.keys.map fun key => (n,key))
    (st.setPattern pattern { pInfo with sessions := pInfo.sessions ++ [n] })).modify n
      (addPatternTo pattern)

/-- What changes when a session begins or ceases to watch a pattern: the
session's own patterns and the pattern's record. -/
structure Rewatched (n : Int) (pattern : CFString) (mine : List CFString) (record : Option (PatternInfo Regex))
    (st st' : State Regex) : Prop where
  same : SameStore st st'
  keys : ∀ s, st'.watchedKeys s = st.watchedKeys s
  patterns : ∀ s, st'.watchedPatterns s = if s = n then mine else st.watchedPatterns s
  data : ∀ q, st'.patternData.lookup q = if q = pattern then record else st.patternData.lookup q

/-- The session's part of that, where only its patterns were written. -/
theorem rewatched_of_deref {st' : State Regex} {mine : List CFString} {record : Option (PatternInfo Regex)}
    (same : SameStore st st') (keys : (f (st.deref n)).keys = (st.deref n).keys)
    (patterns : (f (st.deref n)).patterns = mine)
    (derefs : ∀ s, st'.deref s = if s = n then f (st.deref n) else st.deref s)
    (data : ∀ q, st'.patternData.lookup q = if q = pattern then record else st.patternData.lookup q) :
    Rewatched n pattern mine record st st' where
  same := same
  keys := by
    intro s
    rw [State.watchedKeys,derefs,State.watchedKeys]
    split
    · rename_i here
      rw [here]
      exact keys
    · rfl
  patterns := by
    intro s
    rw [State.watchedPatterns,derefs]
    split
    · exact patterns
    · rfl
  data := data

section Rewatched
variable {st' : State Regex} {mine : List CFString} {record : Option (PatternInfo Regex)}

theorem Rewatched.cachedKeys_other (rewatched : Rewatched n pattern mine record st st') {q : CFString}
    (other : q ≠ pattern) : st'.cachedKeys q = st.cachedKeys q := by
  rw [State.cachedKeys,rewatched.data,if_neg other,State.cachedKeys]

/-- The other patterns are watched by the same sessions as before. -/
theorem Rewatched.mem_other (rewatched : Rewatched n pattern mine record st st')
    (others : ∀ q, q ≠ pattern → (q ∈ mine ↔ q ∈ st.watchedPatterns n)) {q : CFString} (other : q ≠ pattern) (s : Int) :
    q ∈ st'.watchedPatterns s ↔ q ∈ st.watchedPatterns s := by
  rw [rewatched.patterns]
  split
  · rename_i here
    rw [here]
    exact others q other
  · rfl

/-- The cached lists stay sound if the record of the pattern is, and if there is
one as long as the pattern is watched. -/
theorem Rewatched.cached (rewatched : Rewatched n pattern mine record st st') (cached : Cached os st (Present st))
    (others : ∀ q, q ≠ pattern → (q ∈ mine ↔ q ∈ st.watchedPatterns n))
    (here : ∀ info, record = some info → CachedPattern os st' (Present st) pattern info ∧ info.sessions ≠ [])
    (registered : ∀ s, pattern ∈ st'.watchedPatterns s → record.isSome) : Cached os st' (Present st') := by
  rw [rewatched.same.present]
  refine ⟨?_,?_,?_⟩
  · intro q info found
    rw [rewatched.data] at found
    by_cases this : q = pattern
    · subst this
      rw [if_pos rfl] at found
      exact (here info found).1
    · rw [if_neg this] at found
      have sound := cached.each q info found
      refine ⟨sound.compiled,sound.distinctKeys,sound.distinctSessions,?_,sound.keys⟩
      intro s
      rw [sound.sessions,rewatched.mem_other others this]
  · intro q info found
    rw [rewatched.data] at found
    by_cases this : q = pattern
    · rw [if_pos this] at found
      exact (here info found).2
    · rw [if_neg this] at found
      exact cached.watched q info found
  · intro s q member
    apply AList.lookup_isSome.mp
    rw [rewatched.data]
    by_cases this : q = pattern
    · subst this
      rw [if_pos rfl]
      exact registered s member
    · rw [if_neg this]
      exact AList.lookup_isSome.mpr (cached.registered s q ((rewatched.mem_other others this s).mp member))

end Rewatched

private theorem sameValues_watchPattern (n : Int) (pattern : CFString) (pInfo : PatternInfo Regex) (st : State Regex) :
    SameValues st (retainAll (pInfo.keys.map fun key => (n,key))
      (st.setPattern pattern { pInfo with sessions := pInfo.sessions ++ [n] })) :=
  (sameValues_setPattern st _ _).trans (sameValues_retainAll _ _)

theorem rewatched_watchPattern (isOpen : Open st n) (pattern : CFString) (pInfo : PatternInfo Regex) :
    Rewatched n pattern (st.watchedPatterns n ++ [pattern]) (some { pInfo with sessions := pInfo.sessions ++ [n] }) st
      (watchPattern n pattern pInfo st) := by
  have moved := sameValues_watchPattern n pattern pInfo st
  have same : SameStore st (watchPattern n pattern pInfo st) :=
    moved.sameStore.trans (sameStore_modify (n := n) (f := addPatternTo pattern) fun _ => rfl)
  apply rewatched_of_deref (f := addPatternTo pattern) same rfl rfl
  · intro s
    rw [watchPattern,deref_modify (f := addPatternTo pattern) (fun _ => rfl) ((moved.sameStore.opened n).mpr isOpen),
      moved.deref,moved.deref]
  · intro q
    change (retainAll _ _).patternData.lookup q = _
    rw [patternData_retainAll,lookup_setPattern]

private theorem table_watchPattern (table : Table st) (fresh : pattern ∉ st.watchedPatterns n)
    (pInfo : PatternInfo Regex) :
    Table (watchPattern n pattern pInfo st) := by
  have moved := sameValues_watchPattern n pattern pInfo st
  apply Table.modify (f := addPatternTo pattern) (moved.table table) fun _ => rfl
  · intro x member _
    rw [moved.live] at member
    exact table.keys x member
  · intro x member here
    rw [moved.live] at member
    rw [mem_deref table member here]
    simpa [addPatternTo,State.watchedPatterns] using (table.watchedPatterns n).concat fresh

/-- The keys that the pattern lists are what the session counts on besides. -/
theorem counts_watchPattern (registry : Registry os st) (isOpen : Open st n) (distinct : pInfo.keys.Nodup)
    (listed : ∀ s, pattern ∈ st.watchedPatterns s → pInfo.keys = st.cachedKeys pattern) (s : Int) (k : CFString) :
    (watchPattern n pattern pInfo st).refCount s k = (watchPattern n pattern pInfo st).reasons s k := by
  have rewatched := rewatched_watchPattern isOpen pattern pInfo
  have cachedHere : (watchPattern n pattern pInfo st).cachedKeys pattern = pInfo.keys := by
    rw [State.cachedKeys,rewatched.data,if_pos rfl]
    rfl
  have cachedNow (s : Int) : ∀ q ∈ st.watchedPatterns s,
      (watchPattern n pattern pInfo st).cachedKeys q = st.cachedKeys q := by
    intro q member
    by_cases here : q = pattern
    · subst here
      rw [cachedHere]
      exact listed s member
    · exact rewatched.cachedKeys_other here
  have valid : ∀ k, ((st.setPattern pattern { pInfo with sessions := pInfo.sessions ++ [n] }).entry k).refs.Valid :=
    registry.watched.valid
  change (retainAll _ _).refCount s k = _
  rw [refCount_retainAll _ valid,count_session_keys distinct,refCount_setPattern,registry.watched.counts,
    State.reasons_eq,State.reasons_eq,rewatched.keys,rewatched.patterns]
  by_cases here : s = n
  · subst s
    rw [if_pos rfl,listing_append,listing_congr (cachedNow n),cachedHere]
    simp [Int.add_assoc]
  · rw [if_neg here,listing_congr (cachedNow s)]
    simp [here]

private theorem registry_watchPattern (registry : Registry os st) (settled : st.deferredRemovals = [])
    (isOpen : Open st n) (fresh : pattern ∉ st.watchedPatterns n)
    (copied : patternCopy os pattern st = some pInfo) :
    Registry os (watchPattern n pattern pInfo st) ∧ SameStore st (watchPattern n pattern pInfo st) := by
  obtain ⟨sound,listed⟩ := patternCopy_spec registry settled copied
  have rewatched := rewatched_watchPattern isOpen pattern pInfo
  have outsider : n ∉ pInfo.sessions := fun member => fresh ((sound.sessions n).mp member)
  have before : ∀ k, ((st.setPattern pattern { pInfo with sessions := pInfo.sessions ++ [n] }).entry k).refs.Valid :=
    registry.watched.valid
  have valid := valid_retainAll (pInfo.keys.map fun key => (n,key)) before
  refine ⟨⟨table_watchPattern registry.table fresh pInfo,
    ⟨valid,counts_watchPattern registry isOpen sound.distinctKeys listed⟩,
    rewatched.cached registry.cached ?_ ?_ ?_⟩,rewatched.same⟩
  · intro q other
    simp [other]
  · intro info found
    obtain rfl := Option.some.inj found
    refine ⟨⟨sound.compiled,sound.distinctKeys,by simpa using sound.distinctSessions.concat outsider,?_,sound.keys⟩,by simp⟩
    intro s
    rw [rewatched.patterns,List.mem_append,sound.sessions,List.mem_singleton]
    by_cases mine : s = n
    · simp [mine]
    · simp [mine]
  · intro s _
    rfl

private theorem refCount_of_entry {st st' : State Regex} (entries : ∀ k, st'.entry k = st.entry k) (s : Int)
    (k : CFString) : st'.refCount s k = st.refCount s k := by
  rw [State.refCount,entries,State.refCount]

theorem patternRemoveSession_eq (found : st.patternData.lookup pattern = some pInfo) (n : Int) :
    patternRemoveSession pattern n st =
      { releaseAll (pInfo.keys.map fun key => (n,key)) st with
        patternData :=
          if pInfo.sessions.length > 1 then
            st.patternData.insert pattern { pInfo with sessions := pInfo.sessions.erase n }
          else st.patternData.erase pattern } := by
  have kept := patternData_releaseAll (pInfo.keys.map fun key => (n,key)) st
  simp only [releaseAll,List.foldl_map] at kept
  simp only [patternRemoveSession,found,releaseAll,List.foldl_map,kept]
  split <;> rfl

def unwatchPattern (n : Int) (pattern : CFString) (st : State Regex) : State Regex :=
  patternRemoveSession pattern n (st.modify n (dropPatternFrom pattern))

section Unwatch
variable (found : st.patternData.lookup pattern = some pInfo)
include found

private theorem unwatchPattern_eq : unwatchPattern n pattern st =
    { releaseAll (pInfo.keys.map fun key => (n,key)) (st.modify n (dropPatternFrom pattern)) with
      patternData :=
        if pInfo.sessions.length > 1 then
          st.patternData.insert pattern { pInfo with sessions := pInfo.sessions.erase n }
        else st.patternData.erase pattern } := by
  have found : (st.modify n (dropPatternFrom pattern)).patternData.lookup pattern = some pInfo := found
  exact patternRemoveSession_eq found n

private theorem sameValues_unwatchPattern :
    SameValues (st.modify n (dropPatternFrom pattern)) (unwatchPattern n pattern st) := by
  rw [unwatchPattern_eq found]
  exact (sameValues_releaseAll _ _).trans ⟨fun _ => rfl,fun _ => rfl,rfl,rfl,rfl,rfl,rfl,rfl,rfl⟩

private theorem entry_unwatchPattern (k : CFString) : (unwatchPattern n pattern st).entry k =
    (releaseAll (pInfo.keys.map fun key => (n,key)) (st.modify n (dropPatternFrom pattern))).entry k := by
  rw [unwatchPattern_eq found]
  rfl

theorem rewatched_unwatchPattern (isOpen : Open st n) :
    Rewatched n pattern ((st.watchedPatterns n).erase pattern)
      (if pInfo.sessions.length > 1 then some { pInfo with sessions := pInfo.sessions.erase n } else none) st
      (unwatchPattern n pattern st) := by
  have moved := sameValues_unwatchPattern (n := n) found
  have same : SameStore st (unwatchPattern n pattern st) :=
    (sameStore_modify (n := n) (f := dropPatternFrom pattern) fun _ => rfl).trans moved.sameStore
  apply rewatched_of_deref (f := dropPatternFrom pattern) same rfl rfl
  · intro s
    rw [moved.deref]
    exact deref_modify (f := dropPatternFrom pattern) (fun _ => rfl) isOpen s
  · intro q
    rw [unwatchPattern_eq found]
    simp only []
    split
    · exact lookup_insert_ite _ _ _ _
    · exact lookup_erase_ite _ _ _

/-- The session holds a reference to every key that is released. -/
theorem releasable (registry : Registry os st) (listed : pattern ∈ st.watchedPatterns n) (t : Int) (k : CFString) :
    ((pInfo.keys.map fun key => (n,key)).count (t,k) : Int) ≤
      (st.modify n (dropPatternFrom pattern)).refCount t k := by
  have sound := registry.cached.each pattern pInfo found
  rw [count_session_keys sound.distinctKeys,refCount_modify]
  split
  · rename_i due
    have holder : t ∈ (st.entry k).refs.holders := by
      rw [registry.watched.mem_holders,due.1]
      exact .inr ⟨pattern,listed,cachedKeys_of_lookup found ▸ due.2⟩
    exact RefCounts.count_pos (registry.watched.valid k) holder
  · exact RefCounts.count_nonneg (registry.watched.valid k) t

/-- With a second session on the pattern, its record stays. -/
theorem sessions_many (registry : Registry os st) (listed : pattern ∈ st.watchedPatterns n) {s : Int}
    (member : s ∈ pInfo.sessions) (other : s ≠ n) : pInfo.sessions.length > 1 := by
  by_contra few
  have mine := ((registry.cached.each pattern pInfo found).sessions n).mpr listed
  obtain ⟨t,single⟩ := List.length_eq_one_iff.mp
    (Nat.le_antisymm (Nat.not_lt.mp few) (List.length_pos_of_mem mine))
  rw [single] at mine member
  exact other ((List.mem_singleton.mp member).trans (List.mem_singleton.mp mine).symm)

private theorem counts_unwatchPattern (registry : Registry os st) (isOpen : Open st n)
    (listed : pattern ∈ st.watchedPatterns n) (s : Int) (k : CFString) :
    (unwatchPattern n pattern st).refCount s k = (unwatchPattern n pattern st).reasons s k := by
  have sound := registry.cached.each pattern pInfo found
  have rewatched := rewatched_unwatchPattern found isOpen
  have cachedBefore : st.cachedKeys pattern = pInfo.keys := cachedKeys_of_lookup found
  have valid : ∀ k, ((st.modify n (dropPatternFrom pattern)).entry k).refs.Valid := registry.watched.valid
  rw [refCount_of_entry (entry_unwatchPattern found),refCount_releaseAll _ valid (releasable found registry listed),
    refCount_modify,registry.watched.counts,count_session_keys sound.distinctKeys,State.reasons_eq,State.reasons_eq,
    rewatched.keys,rewatched.patterns]
  by_cases here : s = n
  · subst s
    have rest : (unwatchPattern n pattern st).listing ((st.watchedPatterns n).erase pattern) k =
        st.listing ((st.watchedPatterns n).erase pattern) k := by
      apply listing_congr
      intro q member
      apply rewatched.cachedKeys_other
      rintro rfl
      exact (registry.table.watchedPatterns n).not_mem_erase member
    rw [if_pos rfl,listing_erase st listed,cachedBefore,rest]
    simp
    omega
  · have unmoved : (unwatchPattern n pattern st).listing (st.watchedPatterns s) k =
        st.listing (st.watchedPatterns s) k := by
      apply listing_congr
      intro q member
      by_cases this : q = pattern
      · subst this
        have many := sessions_many found registry listed ((sound.sessions s).mpr member) here
        rw [State.cachedKeys,rewatched.data,if_pos rfl,if_pos many,cachedBefore]
        rfl
      · exact rewatched.cachedKeys_other this
    rw [if_neg here,unmoved]
    simp [here]

end Unwatch

private theorem table_unwatchPattern (table : Table st) (found : st.patternData.lookup pattern = some pInfo) :
    Table (unwatchPattern n pattern st) := by
  apply (sameValues_unwatchPattern found).table
  apply Table.modify (f := dropPatternFrom pattern) table fun _ => rfl
  · exact fun x member _ => table.keys x member
  · exact fun x member _ => (table.patterns x member).erase pattern

private theorem registry_unwatchPattern (registry : Registry os st) (isOpen : Open st n)
    (listed : pattern ∈ st.watchedPatterns n) :
    Registry os (unwatchPattern n pattern st) ∧ SameStore st (unwatchPattern n pattern st) := by
  obtain ⟨pInfo,found⟩ := Option.isSome_iff_exists.mp
    (AList.lookup_isSome.mpr (registry.cached.registered n pattern listed))
  have sound := registry.cached.each pattern pInfo found
  have rewatched := rewatched_unwatchPattern found isOpen
  have stillWatched (s : Int) : pattern ∈ (unwatchPattern n pattern st).watchedPatterns s ↔
      s ≠ n ∧ s ∈ pInfo.sessions := by
    rw [rewatched.patterns,sound.sessions]
    by_cases mine : s = n
    · simp [mine,(registry.table.watchedPatterns n).not_mem_erase]
    · simp [mine]
  have before : ∀ k, ((st.modify n (dropPatternFrom pattern)).entry k).refs.Valid := registry.watched.valid
  have valid (k : CFString) : ((unwatchPattern n pattern st).entry k).refs.Valid := by
    rw [entry_unwatchPattern found]
    exact valid_releaseAll _ before k
  refine ⟨⟨table_unwatchPattern registry.table found,⟨valid,counts_unwatchPattern found registry isOpen listed⟩,
    rewatched.cached registry.cached ?_ ?_ ?_⟩,rewatched.same⟩
  · intro q other
    exact List.mem_erase_of_ne other
  · intro info known
    split at known
    · rename_i many
      obtain rfl := Option.some.inj known
      refine ⟨⟨sound.compiled,sound.distinctKeys,sound.distinctSessions.erase n,?_,sound.keys⟩,?_⟩
      · intro s
        rw [stillWatched,sound.distinctSessions.mem_erase_iff]
      · intro (empty : pInfo.sessions.erase n = [])
        have size := List.length_erase_of_mem ((sound.sessions n).mpr listed)
        rw [empty] at size
        simp at size
        omega
    · cases known
  · intro s member
    obtain ⟨other,inside⟩ := (stillWatched s).mp member
    simp [sessions_many found registry listed inside other]

/-! ## The requests -/

theorem addWatchedKey_registry (registry : Registry os st) (settled : st.deferredRemovals = [])
    (isOpen : Open st n) (key : CFString) (isRegex : Bool) :
    Registry os (addWatchedKey os n key isRegex st).2 ∧
      SameStore st (addWatchedKey os n key isRegex st).2 := by
  simp only [addWatchedKey,deref_server]
  cases isRegex with
  | false =>
    by_cases known : key ∈ (st.deref n).keys
    · simpa [known] using ⟨registry,SameStore.refl st⟩
    · simp only [known,if_false,Bool.false_eq_true]
      exact registry_watchKey registry isOpen known
  | true =>
    by_cases known : key ∈ (st.deref n).patterns
    · simpa [known] using ⟨registry,SameStore.refl st⟩
    · simp only [known,if_false,if_true,patternAddSession]
      cases copied : patternCopy os key st with
      | none => exact ⟨registry,.refl st⟩
      | some pInfo =>
        have watching := registry_watchPattern registry settled isOpen known copied
        simp only [watchPattern,retainAll,List.foldl_map,State.setPattern] at watching
        exact watching

theorem removeWatchedKey_registry (registry : Registry os st) (isOpen : Open st n) (key : CFString)
    (isRegex : Bool) :
    Registry os (removeWatchedKey n key isRegex st).2 ∧
      SameStore st (removeWatchedKey n key isRegex st).2 := by
  simp only [removeWatchedKey,deref_server]
  cases isRegex with
  | false =>
    by_cases known : key ∈ (st.deref n).keys
    · simp only [known,if_false,Bool.false_eq_true,not_true_eq_false]
      exact registry_unwatchKey registry isOpen known
    · simpa [known] using ⟨registry,SameStore.refl st⟩
  | true =>
    by_cases known : key ∈ (st.deref n).patterns
    · simp only [known,if_false,if_true,not_true_eq_false]
      exact registry_unwatchPattern registry isOpen known
    · simpa [known] using ⟨registry,SameStore.refl st⟩

def KeepsRegistry (os : Platform Regex) (st st' : State Regex) : Prop :=
  Registry os st' ∧ SameStore st st'

theorem KeepsRegistry.trans {a b c : State Regex} (first : KeepsRegistry os a b)
    (second : KeepsRegistry os b c) : KeepsRegistry os a c :=
  ⟨second.1,first.2.trans second.2⟩

private theorem foldl_registry {α β : Type} {f : β → α → β} (store : β → State Regex)
    (each : ∀ b a, Registry os (store b) → (store b).deferredRemovals = [] → Open (store b) n →
      KeepsRegistry os (store b) (store (f b a))) (l : List α) (b : β)
    (registry : Registry os (store b)) (settled : (store b).deferredRemovals = [])
    (isOpen : Open (store b) n) : KeepsRegistry os (store b) (store (l.foldl f b)) := by
  induction l generalizing b with
  | nil => exact ⟨registry,.refl _⟩
  | cons a rest ih =>
    have first := each b a registry settled isOpen
    exact first.trans (ih (f b a) first.1 (first.2.deferredRemovals.trans settled)
      ((first.2.opened n).mpr isOpen))

private theorem updateKeys_registry (keys : List CFString) (isRegex : Bool) (context : Status × State Regex)
    (registry : Registry os context.2) (settled : context.2.deferredRemovals = [])
    (isOpen : Open context.2 n) :
    KeepsRegistry os context.2 (updateKeys os n keys isRegex context).2 := by
  unfold updateKeys
  have removed : KeepsRegistry os context.2
      (((context.2.deref n).registered isRegex).foldl (removeOldKey n keys isRegex) context).2 := by
    refine foldl_registry Prod.snd ?_ _ context registry settled isOpen
    intro context key registry _ isOpen
    unfold removeOldKey
    split
    · exact ⟨registry,.refl _⟩
    · split
      · exact removeWatchedKey_registry registry isOpen key isRegex
      · exact ⟨registry,.refl _⟩
  apply removed.trans
  refine foldl_registry Prod.snd ?_ keys _ removed.1 (removed.2.deferredRemovals.trans settled)
    ((removed.2.opened n).mpr isOpen)
  · intro context key registry settled isOpen
    unfold addNewKey
    split
    · exact ⟨registry,.refl _⟩
    · split
      · exact addWatchedKey_registry registry settled isOpen key isRegex
      · exact ⟨registry,.refl _⟩

theorem setNotificationKeys_registry (registry : Registry os st) (settled : st.deferredRemovals = [])
    (isOpen : Open st n) (keys patterns : List CFString) :
    KeepsRegistry os st (dynamicStoreSetNotificationKeys os n keys patterns st).2 := by
  have first := updateKeys_registry keys false (Status.ok,st) registry settled isOpen
  exact first.trans (updateKeys_registry patterns true _ first.1
    (first.2.deferredRemovals.trans settled) ((first.2.opened n).mpr isOpen))

end FreebsdLaunchd.DynamicStore
