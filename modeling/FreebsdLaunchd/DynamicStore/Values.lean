import FreebsdLaunchd.DynamicStore.Consistency
import FreebsdLaunchd.Library.NoticeBoard

/-! Setting, removing and notifying keys. Seen as a notice board, on which what
is queued counts as done, each operation posts its one key, and the push changes
nothing; so a batch before a single push is its parts. -/
namespace FreebsdLaunchd.DynamicStore
open State

variable {Regex : Type} {os : Platform Regex} {st : State Regex} {pardoned : CFString → Prop}

/-- The store as its readers are to see it once the queue has been pushed. -/
def board (os : Platform Regex) (st : State Regex) : NoticeBoard CFString CFData CFString Int where
  value k := (st.entry k).data
  owner k := (st.entry k).session
  watches s := {k | Watching os st s k}
  unread s := {k | k ∈ st.changesOf (sessionKey s) ∨ k ∈ st.changedKeys ∧ Watching os st s k}
  due := {s | s ∈ st.needsNotification ∨ ∃ k ∈ st.changedKeys, Watching os st s k}

theorem board_push (consistent : Consistent os nobody st) :
    board os (dynamicStorePush os st) = board os st := by
  obtain ⟨_,pushed⟩ := push_consistent consistent
  have watching : Watching os _ = Watching os st := watching_of_eq pushed.sessions
  apply NoticeBoard.ext
  · funext k
    exact pushed.data k
  · funext k
    exact pushed.session k
  · simp only [board,watching]
  · funext s
    ext k
    simp [board,pushed.changes,pushed.settled.changed]
  · ext s
    simp [board,pushed.needs,pushed.settled.changed]

/-! ## Saving an entry -/

private theorem cached_patternAddKey {present : CFString → Prop} (table : Table st) (watched : Watched st)
    (cached : Cached os st present) {key : CFString} (fresh : ¬ present key) :
    Cached os (patternAddKey os key st) fun k => present k ∨ k = key := by
  have data := (patternAddKey_spec table watched cached fresh).2
  have same := sameValues_patternAddKey os key st
  have patterns (s : Int) : (patternAddKey os key st).watchedPatterns s = st.watchedPatterns s := by
    rw [State.watchedPatterns,same.deref,State.watchedPatterns]
  refine ⟨?_,?_,?_⟩
  · intro p pInfo found
    rw [data] at found
    obtain ⟨old,known,rfl⟩ := Option.map_eq_some_iff.mp found
    have sound := cached.each p old known
    have absent : key ∉ old.keys := fun member => fresh ((sound.keys key).mp member).2
    have hit := matchesPattern_iff os sound.compiled key
    unfold PatternInfo.withKey
    by_cases matching : keyMatchesPattern os key old.regex = true
    · rw [if_pos matching]
      refine ⟨sound.compiled,?_,sound.distinctSessions,?_,?_⟩
      · simpa using sound.distinctKeys.concat absent
      · intro s
        rw [patterns]
        exact sound.sessions s
      · intro k
        rw [List.mem_append,List.mem_singleton,sound.keys]
        constructor
        · rintro (⟨fits,here⟩ | rfl)
          · exact ⟨fits,.inl here⟩
          · exact ⟨hit.mpr matching,.inr rfl⟩
        · rintro ⟨fits,here | rfl⟩
          · exact .inl ⟨fits,here⟩
          · exact .inr rfl
    · rw [if_neg matching]
      refine ⟨sound.compiled,sound.distinctKeys,sound.distinctSessions,?_,?_⟩
      · intro s
        rw [patterns]
        exact sound.sessions s
      · intro k
        rw [sound.keys]
        constructor
        · rintro ⟨fits,here⟩
          exact ⟨fits,.inl here⟩
        · rintro ⟨fits,here | rfl⟩
          · exact ⟨fits,here⟩
          · exact absurd (hit.mp fits) matching
  · intro p pInfo found
    rw [data] at found
    obtain ⟨old,known,rfl⟩ := Option.map_eq_some_iff.mp found
    unfold PatternInfo.withKey
    split <;> exact cached.watched p old known
  · intro s p member
    rw [patterns] at member
    have known := AList.lookup_isSome.mpr (cached.registered s p member)
    apply AList.lookup_isSome.mp
    rw [data]
    simpa using known

structure Saved (os : Platform Regex) (st : State Regex) (key : CFString) (newDict : Entry)
    (st' : State Regex) : Prop where
  data : ∀ k, (st'.entry k).data = if k = key then newDict.data else (st.entry k).data
  session : ∀ k, (st'.entry k).session = if k = key then newDict.session else (st.entry k).session
  sessionData : st'.sessionData = st.sessionData
  changedKeys : st'.changedKeys = st.changedKeys.insert key
  deferredRemovals : st'.deferredRemovals = st.deferredRemovals.erase key
  removedSessionKeys : st'.removedSessionKeys = st.removedSessionKeys
  needsNotification : st'.needsNotification = st.needsNotification
  sessions : st'.sessions = st.sessions
  assertionFailed : st'.assertionFailed = st.assertionFailed
  registry : Registry os st'

private theorem present_saved {st st' : State Regex} {key : CFString} {newDict : Entry}
    (distinct : st.deferredRemovals.Nodup) (some : newDict.data.isSome)
    (data : ∀ k, (st'.entry k).data = if k = key then newDict.data else (st.entry k).data)
    (deferred : st'.deferredRemovals = st.deferredRemovals.erase key) :
    Present st' = fun k => Present st k ∨ k = key := by
  funext k
  simp only [Present,data,deferred,distinct.mem_erase_iff]
  by_cases here : k = key
  · simp [here,some]
  · simp [here]

/-- A present key is in the cached lists already: at most its removal is called off. -/
theorem saveEntry_of_present {key : CFString} (deferred : ∀ k ∈ st.deferredRemovals, (st.entry k).data = none)
    (present : Present st key) (newDict : Entry) :
    saveEntry os key newDict (st.entry key).data.isNone st = { st with
      storeData := st.storeData.insert key newDict
      deferredRemovals := st.deferredRemovals.erase key
      changedKeys := st.changedKeys.insert key } := by
  by_cases member : key ∈ st.deferredRemovals
  · simp [saveEntry,deferred key member,member]
  · have new : (st.entry key).data.isNone = false := by
      simpa using present.resolve_right member
    simp [saveEntry,new,List.erase_of_not_mem member]

private theorem saveEntry_of_absent {key : CFString} (absent : ¬ Present st key) (newDict : Entry) :
    saveEntry os key newDict (st.entry key).data.isNone st =
      let st := patternAddKey os key { st with storeData := st.storeData.insert key newDict }
      { st with changedKeys := st.changedKeys.insert key } := by
  obtain ⟨empty,queued⟩ := not_or.mp absent
  have new : (st.entry key).data.isNone = true := by simpa using empty
  simp [saveEntry,new,queued]

theorem saveEntry_spec (registry : Registry os st)
    (deferred : ∀ k ∈ st.deferredRemovals, (st.entry k).data = none)
    (distinct : st.deferredRemovals.Nodup) (key : CFString) (newDict : Entry)
    (data : newDict.data.isSome) (refs : newDict.refs = (st.entry key).refs) :
    Saved os st key newDict (saveEntry os key newDict (st.entry key).data.isNone st) := by
  let stored : State Regex := { st with storeData := st.storeData.insert key newDict }
  have entries (k : CFString) : stored.entry k = if k = key then newDict else st.entry k :=
    entry_insert st key k newDict
  have sameRefs (k : CFString) : (stored.entry k).refs = (st.entry k).refs := by
    rw [entries]
    split
    · rename_i here
      rw [here,refs]
    · rfl
  have table : Table stored := registry.table.of_eq rfl
  have watched : Watched stored := registry.watched.of_refs sameRefs rfl rfl
  have cached : Cached os stored (Present st) := registry.cached.of_eq rfl rfl
  have dataOf (k : CFString) : (stored.entry k).data = if k = key then newDict.data else (st.entry k).data := by
    rw [entries]
    split <;> rfl
  have sessionOf (k : CFString) :
      (stored.entry k).session = if k = key then newDict.session else (st.entry k).session := by
    rw [entries]
    split <;> rfl
  by_cases present : Present st key
  · have kept : (fun k => Present st k ∨ k = key) = Present st := by
      funext k
      apply propext
      constructor
      · rintro (old | rfl)
        · exact old
        · exact present
      · exact .inl
    let saved : State Regex := { stored with
      deferredRemovals := st.deferredRemovals.erase key
      changedKeys := st.changedKeys.insert key }
    have presentNow : Present saved = fun k => Present st k ∨ k = key :=
      present_saved distinct data dataOf rfl
    rw [saveEntry_of_present deferred present]
    refine ⟨dataOf,sessionOf,rfl,rfl,rfl,rfl,rfl,rfl,rfl,⟨table.of_eq rfl,watched.of_eq rfl rfl rfl,?_⟩⟩
    change Cached os saved (Present saved)
    rw [presentNow,kept]
    exact cached.of_eq rfl rfl
  · have same := sameValues_patternAddKey os key stored
    have added := patternAddKey_spec table watched cached present
    have dataNow (k : CFString) : ((patternAddKey os key stored).entry k).data =
        if k = key then newDict.data else (st.entry k).data := by rw [same.data,dataOf]
    have sessionNow (k : CFString) : ((patternAddKey os key stored).entry k).session =
        if k = key then newDict.session else (st.entry k).session := by rw [same.session,sessionOf]
    have erased : (patternAddKey os key stored).deferredRemovals = st.deferredRemovals.erase key :=
      same.deferredRemovals.trans (List.erase_of_not_mem (not_or.mp present).2).symm
    let saved : State Regex := { patternAddKey os key stored with
      changedKeys := (patternAddKey os key stored).changedKeys.insert key }
    have presentNow : Present saved = fun k => Present st k ∨ k = key :=
      present_saved distinct data dataNow erased
    rw [saveEntry_of_absent present]
    refine ⟨dataNow,sessionNow,same.sessionData,congrArg (List.insert key) same.changedKeys,erased,
      same.removedSessionKeys,same.needsNotification,same.sessions,same.assertionFailed,
      ⟨(same.table table).of_eq rfl,added.1.of_eq rfl rfl rfl,?_⟩⟩
    change Cached os saved (Present saved)
    rw [presentNow]
    exact (cached_patternAddKey table watched cached present).of_eq rfl rfl

theorem board_congr {st' : State Regex} (entries : ∀ k, st'.entry k = st.entry k)
    (changes : ∀ s, st'.changesOf (sessionKey s) = st.changesOf (sessionKey s))
    (changedKeys : st'.changedKeys = st.changedKeys)
    (needs : st'.needsNotification = st.needsNotification) (sessions : st'.sessions = st.sessions) :
    board os st' = board os st := by
  simp only [board,entries,changes,changedKeys,needs,watching_of_eq sessions]

theorem board_posted {st' : State Regex} {key : CFString} {v : Option CFData} {z : Option CFString}
    (data : ∀ k, (st'.entry k).data = if k = key then v else (st.entry k).data)
    (session : ∀ k, (st'.entry k).session = if k = key then z else (st.entry k).session)
    (sessionData : st'.sessionData = st.sessionData)
    (changedKeys : st'.changedKeys = st.changedKeys.insert key)
    (needs : st'.needsNotification = st.needsNotification) (sessions : st'.sessions = st.sessions) :
    board os st' = (board os st).post key v z := by
  have watching : Watching os st' = Watching os st := watching_of_eq sessions
  have changes (z : CFString) : st'.changesOf z = st.changesOf z := by
    rw [State.changesOf,State.info,sessionData,State.changesOf,State.info]
  apply NoticeBoard.ext
  · funext k
    simp [board,NoticeBoard.post,Function.update_apply,data]
  · funext k
    simp [board,NoticeBoard.post,Function.update_apply,session]
  · simp only [board,NoticeBoard.post,watching]
  · funext s
    ext k
    simp only [board,NoticeBoard.post,watching,changes,changedKeys,List.mem_insert_iff,
      Set.mem_ofPred_eq]
    constructor
    · rintro (old | ⟨rfl | queued,watches⟩)
      · exact .inl (.inl old)
      · exact .inr ⟨rfl,watches⟩
      · exact .inl (.inr ⟨queued,watches⟩)
    · rintro ((old | ⟨queued,watches⟩) | ⟨rfl,watches⟩)
      · exact .inl old
      · exact .inr ⟨.inr queued,watches⟩
      · exact .inr ⟨.inl rfl,watches⟩
  · ext s
    simp only [board,NoticeBoard.post,watching,changedKeys,needs,List.mem_insert_iff,
      Set.mem_ofPred_eq]
    constructor
    · rintro (old | ⟨k,rfl | queued,watches⟩)
      · exact .inl (.inl old)
      · exact .inr watches
      · exact .inl (.inr ⟨k,queued,watches⟩)
    · rintro ((old | ⟨k,queued,watches⟩) | watches)
      · exact .inl old
      · exact .inr ⟨k,.inr queued,watches⟩
      · exact .inr ⟨key,.inl rfl,watches⟩

theorem Saved.board {key : CFString} {newDict : Entry} {st' : State Regex}
    (saved : Saved os st key newDict st') :
    DynamicStore.board os st' = (DynamicStore.board os st).post key newDict.data newDict.session :=
  board_posted saved.data saved.session saved.sessionData saved.changedKeys saved.needsNotification
    saved.sessions

theorem Saved.noted {key : CFString} {newDict : Entry} {st' : State Regex}
    (saved : Saved os st key newDict st') (noted : Noted st) (some : newDict.data.isSome) : Noted st' := by
  have opened := open_of_eq saved.sessions
  have info (z : CFString) : st'.info z = st.info z := by
    rw [State.info,saved.sessionData,State.info]
  refine ⟨?_,?_,?_,?_,?_,?_,?_,?_,saved.assertionFailed.trans noted.alive⟩
  · intro k member
    rw [saved.changedKeys,List.mem_insert_iff] at member
    rw [Present,saved.data,saved.deferredRemovals,noted.distinctDeferred.mem_erase_iff]
    by_cases here : k = key
    · simp [here,some]
    · simpa [here,Present] using noted.changed k (member.resolve_left here)
  · intro k member
    rw [saved.deferredRemovals,noted.distinctDeferred.mem_erase_iff] at member
    rw [saved.data,if_neg member.1]
    exact noted.deferred k member.2
  · rw [saved.deferredRemovals]
    exact noted.distinctDeferred.erase key
  · intro s member
    rw [saved.needsNotification] at member
    rw [opened]
    exact noted.needs s member
  · rw [saved.needsNotification]
    exact noted.distinctNeeds
  · intro z
    rw [State.changesOf,info]
    exact noted.distinct z
  · intro z
    rw [saved.sessionData,opened]
    exact noted.known z
  · intro s isOpen
    rw [info]
    rw [opened] at isOpen
    exact noted.named s isOpen

/-! ## Owners -/

theorem addSessionKey_info (session key z : CFString) (st : State Regex) :
    (addSessionKey session key st).sessionKeysOf z = (if z = session ∧ key ∉ st.sessionKeysOf z then
        st.sessionKeysOf z ++ [key] else st.sessionKeysOf z) ∧
      (addSessionKey session key st).changesOf z = st.changesOf z ∧
      ((addSessionKey session key st).info z).name = (st.info z).name := by
  unfold addSessionKey
  cases keys : ((st.sessionData.lookup session).getD {}).sessionKeys with
  | none =>
    simp only [keys]
    have empty : st.sessionKeysOf session = [] := by
      rw [State.sessionKeysOf,State.info,keys]
      rfl
    rw [State.sessionKeysOf,State.changesOf,info_insert]
    by_cases here : z = session
    · subst here
      simp [empty,State.changesOf,State.info]
    · simp [here,State.sessionKeysOf,State.changesOf]
  | some old =>
    have listed : st.sessionKeysOf session = old := by
      rw [State.sessionKeysOf,State.info,keys]
      rfl
    by_cases member : key ∈ old
    · simp only [keys,member,if_true]
      refine ⟨?_,trivial,trivial⟩
      rw [if_neg]
      rintro ⟨rfl,absent⟩
      exact absent (listed ▸ member)
    · simp only [keys,member,if_false]
      rw [State.sessionKeysOf,State.changesOf,info_insert]
      by_cases here : z = session
      · subst here
        simp [listed,member,State.changesOf,State.info]
      · simp [here,State.sessionKeysOf,State.changesOf]

theorem addSessionKey_eq (session key : CFString) (st : State Regex) :
    addSessionKey session key st =
      { st with sessionData := (addSessionKey session key st).sessionData } := by
  simp only [addSessionKey]
  split
  · rfl
  · split <;> rfl

theorem mem_sessionData_addSessionKey {session : CFString} (known : session ∈ st.sessionData)
    (key z : CFString) : z ∈ (addSessionKey session key st).sessionData ↔ z ∈ st.sessionData := by
  have inserted (i : SessionInfo) : z ∈ st.sessionData.insert session i ↔ z ∈ st.sessionData := by
    rw [AList.mem_insert]
    constructor
    · rintro (rfl | old)
      · exact known
      · exact old
    · exact .inr
  simp only [addSessionKey]
  split
  · exact inserted _
  · split
    · rfl
    · exact inserted _

variable {key : CFString} {newDict : Entry} {st' : State Regex}

theorem Saved.owned (saved : Saved os st key newDict st') (owned : Owned pardoned st)
    (some : newDict.data.isSome) (same : newDict.session = (st.entry key).session) :
    Owned pardoned st' := by
  have opened := open_of_eq saved.sessions
  have lists (z : CFString) : st'.sessionKeysOf z = st.sessionKeysOf z := by
    rw [State.sessionKeysOf,State.info,saved.sessionData,State.sessionKeysOf,State.info]
  have session (k : CFString) : (st'.entry k).session = (st.entry k).session := by
    rw [saved.session]
    split
    · rename_i here
      rw [here,same]
    · rfl
  apply owned.of_lists _ session lists saved.removedSessionKeys fun s => opened ▸ id
  intro k data
  rw [saved.data]
  split
  · exact some
  · exact data

theorem Owned.pardon {allowed : CFString → Prop} (owned : Owned pardoned st)
    (weaker : ∀ k, pardoned k → allowed k) : Owned allowed st where
  owner := owned.owner
  listed := owned.listed
  records := owned.records
  removed n k recorded mine := weaker k (owned.removed n k recorded mine)
  distinct := owned.distinct

/-- A key loses its owner, if it has one, and the loss is recorded. -/
theorem Owned.lose (owned : Owned pardoned st) (opened : Open st' = Open st)
    (lists : ∀ z, st'.sessionKeysOf z = st.sessionKeysOf z)
    (session : ∀ k, (st'.entry k).session = if k = key then none else (st.entry k).session)
    (data : ∀ k, k ≠ key → (st'.entry k).data = (st.entry k).data)
    (removed : ∀ r, r ∈ st'.removedSessionKeys ↔
      (∃ z, (st.entry key).session = some z ∧ r = removedSessionKey z key) ∨ r ∈ st.removedSessionKeys) :
    Owned (fun k => pardoned k ∧ k ≠ key) st' := by
  refine ⟨?_,?_,?_,?_,?_⟩
  · intro k z mine
    rw [session] at mine
    split at mine
    · cases mine
    · rename_i apart
      rw [lists,opened,data k apart]
      exact owned.owner k z mine
  · intro s k member
    rw [lists] at member
    rw [session,removed]
    rcases owned.listed s k member with mine | recorded
    · by_cases here : k = key
      · subst here
        exact .inr (.inl ⟨_,mine,rfl⟩)
      · rw [if_neg here]
        exact .inl mine
    · exact .inr (.inr recorded)
  · intro r member
    rcases (removed r).mp member with ⟨z,former,rfl⟩ | old
    · obtain ⟨_,t,_,rfl,_⟩ := owned.owner key z former
      exact ⟨t,key,rfl⟩
    · exact owned.records r old
  · intro n k recorded mine
    rw [session] at mine
    split at mine
    · cases mine
    · rename_i apart
      rcases (removed _).mp recorded with ⟨z,former,new⟩ | old
      · obtain ⟨_,t,_,rfl,_⟩ := owned.owner key z former
        exact absurd (removedSessionKey_injective new).2 apart
      · exact ⟨owned.removed n k old mine,apart⟩
  · intro z
    rw [lists]
    exact owned.distinct z

/-- Saving an entry that is its former owner's no more. -/
theorem Saved.owned_lost {other : CFString}
    (saved : Saved os { st with
      removedSessionKeys := st.removedSessionKeys.insert (removedSessionKey other key) } key newDict st')
    (owned : Owned pardoned st) (former : (st.entry key).session = some other)
    (lost : newDict.session = none) : Owned pardoned st' := by
  have opened : Open st' = Open st := open_of_eq saved.sessions
  have lists (z : CFString) : st'.sessionKeysOf z = st.sessionKeysOf z := by
    rw [State.sessionKeysOf,State.info,saved.sessionData]
    rfl
  have removed (r : CFString) : r ∈ st'.removedSessionKeys ↔
      (∃ z, (st.entry key).session = some z ∧ r = removedSessionKey z key) ∨ r ∈ st.removedSessionKeys := by
    rw [saved.removedSessionKeys,List.mem_insert_iff]
    simp [former]
  have session (k : CFString) : (st'.entry k).session = if k = key then none else (st.entry k).session := by
    rw [saved.session,lost]
    rfl
  have data (k : CFString) (apart : k ≠ key) : (st'.entry k).data = (st.entry k).data := by
    rw [saved.data,if_neg apart]
    rfl
  exact (owned.lose opened lists session data removed).pardon fun _ both => both.1

/-- Saving a new entry as the temporary key of an open session. -/
theorem mem_addSessionKey {session key z k : CFString} :
    k ∈ (addSessionKey session key st).sessionKeysOf z ↔
      k ∈ st.sessionKeysOf z ∨ z = session ∧ k = key := by
  rw [(addSessionKey_info session key z st).1]
  split
  · rename_i here
    simp [here.1]
  · rename_i known
    constructor
    · exact .inl
    · rintro (old | ⟨rfl,rfl⟩)
      · exact old
      · by_contra absent
        exact known ⟨rfl,absent⟩

private theorem nodup_addSessionKey {z : CFString} (distinct : (st.sessionKeysOf z).Nodup) (session key : CFString) :
    ((addSessionKey session key st).sessionKeysOf z).Nodup := by
  rw [(addSessionKey_info session key z st).1]
  split
  · rename_i new
    simpa using distinct.concat new.2
  · exact distinct

theorem Saved.owned_new {n : Int} (saved : Saved os (addSessionKey (sessionKey n) key st) key newDict st')
    (owned : Owned pardoned st) (isOpen : Open st n) (unowned : (st.entry key).session = none)
    (mine : newDict.session = some (sessionKey n)) (some : newDict.data.isSome) :
    Owned (fun k => pardoned k ∨
      k = key ∧ removedSessionKey (sessionKey n) key ∈ st.removedSessionKeys) st' := by
  have equation := addSessionKey_eq (sessionKey n) key st
  have opened : Open st' = Open st := open_of_eq (saved.sessions.trans (by rw [equation]))
  have entries (k : CFString) : (addSessionKey (sessionKey n) key st).entry k = st.entry k := by
    rw [equation]
    rfl
  have lists (z : CFString) : st'.sessionKeysOf z = (addSessionKey (sessionKey n) key st).sessionKeysOf z := by
    rw [State.sessionKeysOf,State.info,saved.sessionData]
    rfl
  have removed : st'.removedSessionKeys = st.removedSessionKeys := by
    rw [saved.removedSessionKeys,equation]
  have session (k : CFString) : (st'.entry k).session =
      if k = key then Option.some (sessionKey n) else (st.entry k).session := by
    rw [saved.session,mine,entries]
  refine ⟨?_,?_,?_,?_,?_⟩
  · intro k z taken
    rw [session] at taken
    rw [saved.data,opened,lists,mem_addSessionKey]
    split at taken
    · rename_i here
      rw [Option.some.injEq] at taken
      subst taken
      rw [if_pos here]
      exact ⟨some,n,isOpen,rfl,.inr ⟨rfl,here⟩⟩
    · rename_i apart
      rw [if_neg apart,entries]
      obtain ⟨data,s,isOpen,rfl,member⟩ := owned.owner k z taken
      exact ⟨data,s,isOpen,rfl,.inl member⟩
  · intro s k member
    rw [lists] at member
    rw [session,removed]
    rcases mem_addSessionKey.mp member with old | ⟨same,rfl⟩
    · rcases owned.listed s k old with taken | recorded
      · by_cases here : k = key
        · rw [here,unowned] at taken
          cases taken
        · rw [if_neg here]
          exact .inl taken
      · exact .inr recorded
    · rw [if_pos rfl,same]
      exact .inl rfl
  · rw [removed]
    exact owned.records
  · intro s k recorded taken
    rw [removed] at recorded
    rw [session] at taken
    split at taken
    · rename_i here
      have same := sessionKey_injective (Option.some.inj taken)
      subst here same
      exact .inr ⟨rfl,recorded⟩
    · exact .inl (owned.removed s k recorded taken)
  · intro z
    rw [lists]
    exact nodup_addSessionKey (owned.distinct z) (sessionKey n) key

end FreebsdLaunchd.DynamicStore
