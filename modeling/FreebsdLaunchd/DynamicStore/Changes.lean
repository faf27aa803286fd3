import FreebsdLaunchd.DynamicStore.Values

/-! What each operation that changes a value does to the store and to its board,
alone and in a batch. -/
namespace FreebsdLaunchd.DynamicStore
open State

variable {Regex : Type} {os : Platform Regex} {st : State Regex} {pardoned : CFString → Prop}

structure Change (os : Platform Regex) (pardoned : CFString → Prop) (st st' : State Regex) : Prop where
  consistent : Consistent os pardoned st'
  sessions : st'.sessions = st.sessions
  known : ∀ z, z ∈ st'.sessionData ↔ z ∈ st.sessionData

theorem Consistent.pardon {allowed : CFString → Prop} (consistent : Consistent os pardoned st)
    (weaker : ∀ k, pardoned k → allowed k) : Consistent os allowed st where
  registry := consistent.registry
  owned := consistent.owned.pardon weaker
  noted := consistent.noted

theorem Consistent.unowned (consistent : Consistent os pardoned st) {key : CFString}
    (empty : (st.entry key).data = none) : (st.entry key).session = none := by
  cases owner : (st.entry key).session with
  | none => rfl
  | some z =>
    have some := (consistent.owned.owner key z owner).1
    simp [empty] at some

theorem Consistent.known (consistent : Consistent os pardoned st) {n : Int} (isOpen : Open st n) :
    sessionKey n ∈ st.sessionData :=
  (consistent.noted.known _).mpr ⟨n,isOpen,rfl⟩

theorem sameQueue_addSessionKey (session key : CFString) (st : State Regex) :
    (∀ k, (addSessionKey session key st).entry k = st.entry k) ∧
      (addSessionKey session key st).deferredRemovals = st.deferredRemovals ∧
      (addSessionKey session key st).sessions = st.sessions ∧
      (addSessionKey session key st).changedKeys = st.changedKeys ∧
      (addSessionKey session key st).needsNotification = st.needsNotification ∧
      (addSessionKey session key st).removedSessionKeys = st.removedSessionKeys := by
  rw [addSessionKey_eq]
  exact ⟨fun _ => rfl,rfl,rfl,rfl,rfl,rfl⟩

private theorem noted_addSessionKey (consistent : Consistent os pardoned st) {n : Int} (isOpen : Open st n)
    (key : CFString) : Noted (addSessionKey (sessionKey n) key st) := by
  obtain ⟨entries,deferred,sessions,changed,needs,_⟩ := sameQueue_addSessionKey (sessionKey n) key st
  have info (z : CFString) := (addSessionKey_info (sessionKey n) key z st).2
  apply consistent.noted.of_eq
  · intro k
    rw [entries]
  · exact changed
  · exact deferred
  · exact needs
  · exact open_of_eq sessions
  · exact fun z => (info z).1
  · exact mem_sessionData_addSessionKey (consistent.known isOpen) key
  · exact fun z => (info z).2
  · rw [addSessionKey_eq]

theorem registry_of_eq {st' : State Regex} (registry : Registry os st)
    (entries : ∀ k, st'.entry k = st.entry k) (patternData : st'.patternData = st.patternData)
    (deferred : st'.deferredRemovals = st.deferredRemovals) (sessions : st'.sessions = st.sessions) :
    Registry os st' := by
  refine ⟨registry.table.of_eq sessions,registry.watched.of_refs (fun k => by rw [entries]) patternData
    sessions,?_⟩
  have present : Present st' = Present st := by
    funext k
    simp only [Present,entries,deferred]
  rw [present]
  exact registry.cached.of_eq patternData sessions

/-! ## Setting -/

def Recorded (st : State Regex) (n : Int) (key : CFString) : Prop :=
  removedSessionKey (sessionKey n) key ∈ st.removedSessionKeys

private theorem saveEntry_change (consistent : Consistent os pardoned st) (key : CFString) (newDict : Entry)
    (some : newDict.data.isSome) (refs : newDict.refs = (st.entry key).refs)
    (same : newDict.session = (st.entry key).session) :
    Change os pardoned st (saveEntry os key newDict (st.entry key).data.isNone st) ∧
      board os (saveEntry os key newDict (st.entry key).data.isNone st) =
        (board os st).post key newDict.data newDict.session ∧
      (saveEntry os key newDict (st.entry key).data.isNone st).removedSessionKeys =
        st.removedSessionKeys := by
  have noted := consistent.noted
  have saved := saveEntry_spec consistent.registry noted.deferred noted.distinctDeferred key newDict some refs
  refine ⟨⟨⟨saved.registry,saved.owned consistent.owned some same,saved.noted noted some⟩,
    saved.sessions,?_⟩,saved.board,saved.removedSessionKeys⟩
  intro z
  rw [saved.sessionData]

private theorem saveEntry_lost (consistent : Consistent os pardoned st) {key other : CFString} (newDict : Entry)
    (owner : (st.entry key).session = some other) (some : newDict.data.isSome)
    (refs : newDict.refs = (st.entry key).refs) (free : newDict.session = none) :
    let st' := saveEntry os key newDict (st.entry key).data.isNone { st with
      removedSessionKeys := st.removedSessionKeys.insert (removedSessionKey other key) }
    Change os pardoned st st' ∧ board os st' = (board os st).post key newDict.data none ∧
      ∀ r, r ∈ st'.removedSessionKeys ↔ r = removedSessionKey other key ∨ r ∈ st.removedSessionKeys := by
  intro st'
  let queue : State Regex := { st with
    removedSessionKeys := st.removedSessionKeys.insert (removedSessionKey other key) }
  have noted := consistent.noted
  have queued : Noted queue :=
    ⟨noted.changed,noted.deferred,noted.distinctDeferred,noted.needs,noted.distinctNeeds,noted.distinct,
      noted.known,noted.named,noted.alive⟩
  have registry : Registry os queue := registry_of_eq consistent.registry (fun _ => rfl) rfl rfl rfl
  have saved : Saved os queue key newDict st' :=
    saveEntry_spec registry queued.deferred queued.distinctDeferred key newDict some refs
  have same : board os queue = board os st := board_congr (fun _ => rfl) (fun _ => rfl) rfl rfl rfl
  refine ⟨⟨⟨saved.registry,saved.owned_lost consistent.owned owner free,saved.noted queued some⟩,
    saved.sessions,?_⟩,?_,?_⟩
  · intro z
    rw [saved.sessionData]
  · rw [saved.board,same,free]
  · intro r
    rw [saved.removedSessionKeys]
    exact List.mem_insert_iff

/-- What a write of the session makes of the store. A value that comes back while the
removal of its key from the session is still recorded is pardoned until the push. -/
structure Written (os : Platform Regex) (pardoned : CFString → Prop) (store : StorePrivate) (key : CFString)
    (value : CFData) (st st' : State Regex) : Prop where
  change : Change os (fun k => pardoned k ∨
    k = key ∧ (st.entry key).data = none ∧ Recorded st store.server key) st st'
  board : board os st' = (board os st).put (sessionKey store.server) store.useSessionKeys key value
  recorded : ∀ k, Recorded st' store.server k → Recorded st store.server k

theorem Change.written {st' : State Regex} {store : StorePrivate} {key : CFString} {value : CFData}
    (change : Change os pardoned st st')
    (posted : board os st' = (board os st).put (sessionKey store.server) store.useSessionKeys key value)
    (recorded : ∀ k, Recorded st' store.server k → Recorded st store.server k) :
    Written os pardoned store key value st st' :=
  ⟨⟨change.consistent.pardon fun _ => .inl,change.sessions,change.known⟩,posted,recorded⟩

/-- A session's first value for a key that has none. -/
theorem written_new (consistent : Consistent os pardoned st) {store : StorePrivate}
    (temporary : store.useSessionKeys = true) (isOpen : Open st store.server) {key : CFString}
    (empty : (st.entry key).data = none) (value : CFData) :
    Written os pardoned store key value st (saveEntry os key { st.entry key with
      data := some value
      session := some (sessionKey store.server) } true (addSessionKey (sessionKey store.server) key st)) := by
  obtain ⟨entries,deferred,sessions,changed,needs,removed⟩ :=
    sameQueue_addSessionKey (sessionKey store.server) key st
  have noted := noted_addSessionKey consistent isOpen key
  have patternData : (addSessionKey (sessionKey store.server) key st).patternData = st.patternData := by
    rw [addSessionKey_eq]
  have saved := saveEntry_spec (registry_of_eq consistent.registry entries patternData deferred sessions)
    noted.deferred noted.distinctDeferred key { st.entry key with
      data := some value
      session := some (sessionKey store.server) } rfl (by rw [entries]; rfl)
  have new : (st.entry key).data.isNone = true := by simp [empty]
  rw [entries,new] at saved
  refine ⟨⟨⟨saved.registry,?_,saved.noted noted rfl⟩,saved.sessions.trans sessions,?_⟩,?_,?_⟩
  · apply (saved.owned_new consistent.owned isOpen (consistent.unowned empty) rfl rfl).pardon
    rintro k (old | ⟨here,recorded⟩)
    · exact .inl old
    · exact .inr ⟨here,empty,recorded⟩
  · intro z
    rw [saved.sessionData]
    exact mem_sessionData_addSessionKey (consistent.known isOpen) key z
  · rw [saved.board,board_congr entries (fun s => (addSessionKey_info _ key _ st).2.1) changed needs
      sessions]
    simp [NoticeBoard.put,FreebsdLaunchd.DynamicStore.board,empty,temporary]
  · intro k recorded
    rw [Recorded,saved.removedSessionKeys,removed] at recorded
    exact recorded

/-- A value for a key whose owner stays. -/
theorem written_inPlace (consistent : Consistent os pardoned st) {store : StorePrivate} {key : CFString}
    {value : CFData}
    (stays : (board os st).put (sessionKey store.server) store.useSessionKeys key value =
      (board os st).post key (some value) (st.entry key).session) :
    Written os pardoned store key value st
      (saveEntry os key { st.entry key with data := some value } (st.entry key).data.isNone st) := by
  obtain ⟨change,posted,removed⟩ := saveEntry_change consistent key
    { st.entry key with data := some value } rfl rfl rfl
  refine change.written (posted.trans stays.symm) ?_
  intro k recorded
  rw [Recorded,removed] at recorded
  exact recorded

/-- A value that takes the key from another session. -/
theorem written_taken (consistent : Consistent os pardoned st) {store : StorePrivate} {key other : CFString}
    (plain : store.useSessionKeys = false) (owner : (st.entry key).session = some other)
    (apart : other ≠ sessionKey store.server) (value : CFData) :
    Written os pardoned store key value st (saveEntry os key { st.entry key with
      data := some value
      session := none } (st.entry key).data.isNone { st with
        removedSessionKeys := st.removedSessionKeys.insert (removedSessionKey other key) }) := by
  obtain ⟨lost,posted,removed⟩ := saveEntry_lost consistent { st.entry key with
      data := some value
      session := none } owner rfl rfl rfl
  refine lost.written (posted.trans ?_) ?_
  · simp [NoticeBoard.put,board,owner,apart,plain]
  · intro k recorded
    rcases (removed (removedSessionKey (sessionKey store.server) k)).mp recorded with same | old
    · obtain ⟨_,t,_,rfl,_⟩ := consistent.owned.owner key other owner
      exact absurd (congrArg sessionKey (removedSessionKey_injective same).1).symm apart
    · exact old

theorem setValue_spec (consistent : Consistent os pardoned st) (store : StorePrivate)
    (mine : store.useSessionKeys = true → Open st store.server) (key : CFString) (value : CFData) :
    Written os pardoned store key value st (dynamicStoreSetValue os store key value true st).2 := by
  have entry : (st.storeData.lookup key).getD {} = st.entry key := rfl
  cases temporary : store.useSessionKeys with
  | true =>
    simp only [dynamicStoreSetValue,temporary,entry,if_true]
    by_cases empty : (st.entry key).data = none
    · have new : (st.entry key).data.isNone = true := by simp [empty]
      rw [if_pos new,new]
      exact written_new consistent temporary (mine temporary) empty value
    · have new : (st.entry key).data.isNone = false := by
        simpa [Option.isSome_iff_ne_none] using empty
      rw [if_neg (by simp [new])]
      by_cases own : (st.entry key).session = some (sessionKey store.server)
      · rw [if_neg (not_not.mpr own)]
        apply written_inPlace consistent
        simp [NoticeBoard.put,board,own,temporary]
      · rw [if_pos own]
        apply Change.written ⟨consistent,rfl,fun _ => Iff.rfl⟩
        · simp [NoticeBoard.put,board,own,empty,temporary]
        · exact fun _ => id
  | false =>
    simp only [dynamicStoreSetValue,temporary,entry,Bool.false_eq_true,if_false,if_true]
    split
    · rename_i other owner
      have new : (st.entry key).data.isNone = false := by
        simpa [Option.isSome_iff_ne_none] using (consistent.owned.owner key other owner).1
      by_cases apart : other = sessionKey store.server
      · rw [if_neg (by simp [apart])]
        apply written_inPlace consistent
        simp [NoticeBoard.put,board,owner,apart,temporary]
      · rw [if_pos (by simp [new,apart])]
        exact written_taken consistent temporary owner apart value
    · rename_i owner
      apply written_inPlace consistent
      simp [NoticeBoard.put,board,owner,temporary]

/-! ## Removing -/

def discardEntry (key : CFString) (st : State Regex) : State Regex :=
  let newDict := { st.entry key with session := none, data := none }
  { st with
    storeData := if newDict.count > 0 then st.storeData.insert key newDict else st.storeData.erase key
    changedKeys := st.changedKeys.insert key
    deferredRemovals := st.deferredRemovals.insert key
    removedSessionKeys := (st.entry key).session.elim st.removedSessionKeys fun session =>
      st.removedSessionKeys.insert (removedSessionKey session key) }

variable {key : CFString}

private theorem removeValue_of_absent (absent : (st.entry key).data = none) (internal : Bool) :
    dynamicStoreRemoveValue os key internal st = (.noKey,st) := by
  unfold dynamicStoreRemoveValue
  cases found : st.storeData.lookup key with
  | none => rfl
  | some dict =>
    rw [entry_of_lookup found] at absent
    simp [absent]

theorem removeValue_of_some (some : (st.entry key).data.isSome) (internal : Bool) :
    dynamicStoreRemoveValue os key internal st =
      (.ok,if internal then discardEntry key st else dynamicStorePush os (discardEntry key st)) := by
  unfold dynamicStoreRemoveValue
  cases found : st.storeData.lookup key with
  | none => simp [entry_of_absent found] at some
  | some dict =>
    rw [entry_of_lookup found] at some
    have data : dict.data.isNone = false := by simpa [Option.isSome_iff_ne_none] using some
    simp only [data,discardEntry,entry_of_lookup found]
    cases dict.session <;> rfl

private theorem entry_discardEntry (key k : CFString) (st : State Regex) :
    (discardEntry key st).entry k =
      if k = key then { st.entry key with session := none, data := none } else st.entry k := by
  exact entry_put { st with
    changedKeys := st.changedKeys.insert key
    deferredRemovals := st.deferredRemovals.insert key
    removedSessionKeys := (st.entry key).session.elim st.removedSessionKeys fun session =>
      st.removedSessionKeys.insert (removedSessionKey session key) } key k _

theorem mem_removed_discardEntry (key r : CFString) (st : State Regex) :
    r ∈ (discardEntry key st).removedSessionKeys ↔
      (∃ z, (st.entry key).session = some z ∧ r = removedSessionKey z key) ∨
        r ∈ st.removedSessionKeys := by
  simp only [discardEntry]
  cases (st.entry key).session with
  | none => simp
  | some z => simp [List.mem_insert_iff]

private theorem registry_discardEntry (registry : Registry os st) (some : (st.entry key).data.isSome) :
    Registry os (discardEntry key st) := by
  have refs (k : CFString) : ((discardEntry key st).entry k).refs = (st.entry k).refs := by
    rw [entry_discardEntry]
    split
    · rename_i here
      rw [here]
      rfl
    · rfl
  have present : Present (discardEntry key st) = Present st := by
    funext k
    have deferred : (discardEntry key st).deferredRemovals = st.deferredRemovals.insert key := rfl
    simp only [Present,deferred,List.mem_insert_iff,entry_discardEntry]
    by_cases here : k = key
    · simp [here,some]
    · simp [here]
  refine ⟨registry.table.of_eq rfl,registry.watched.of_refs refs rfl rfl,?_⟩
  rw [present]
  exact registry.cached.of_eq rfl rfl

private theorem noted_discardEntry (noted : Noted st) (some : (st.entry key).data.isSome) :
    Noted (discardEntry key st) := by
  have absent : key ∉ st.deferredRemovals := fun member => by simp [noted.deferred key member] at some
  have deferred : (discardEntry key st).deferredRemovals = st.deferredRemovals.insert key := rfl
  refine ⟨?_,?_,?_,noted.needs,noted.distinctNeeds,noted.distinct,noted.known,noted.named,noted.alive⟩
  · intro k member
    have member : k ∈ st.changedKeys.insert key := member
    rw [Present,deferred,entry_discardEntry,List.mem_insert_iff]
    by_cases here : k = key
    · exact .inr (.inl here)
    · rw [if_neg here]
      rcases noted.changed k ((List.mem_insert_iff.mp member).resolve_left here) with data | queued
      · exact .inl data
      · exact .inr (.inr queued)
  · intro k member
    rw [deferred,List.mem_insert_iff] at member
    rw [entry_discardEntry]
    by_cases here : k = key
    · rw [if_pos here]
    · rw [if_neg here]
      exact noted.deferred k (member.resolve_left here)
  · rw [deferred,List.insert_of_not_mem absent]
    exact List.nodup_cons.mpr ⟨absent,noted.distinctDeferred⟩

theorem removeValue_spec (consistent : Consistent os pardoned st) (key : CFString) :
    Change os (fun k => pardoned k ∧ k ≠ key) st (dynamicStoreRemoveValue os key true st).2 ∧
      board os (dynamicStoreRemoveValue os key true st).2 = (board os st).discard key := by
  cases data : (st.entry key).data with
  | none =>
    have unowned := consistent.unowned data
    rw [removeValue_of_absent data]
    refine ⟨⟨⟨consistent.registry,?_,consistent.noted⟩,rfl,fun _ => Iff.rfl⟩,?_⟩
    · have owned := consistent.owned
      refine ⟨owned.owner,owned.listed,owned.records,?_,owned.distinct⟩
      intro n k recorded mine
      refine ⟨owned.removed n k recorded mine,?_⟩
      rintro rfl
      rw [unowned] at mine
      cases mine
    · simp [NoticeBoard.discard,board,data]
  | some v =>
    have some : (st.entry key).data.isSome := by rw [data]; rfl
    rw [removeValue_of_some some]
    simp only [if_true]
    refine ⟨⟨⟨registry_discardEntry consistent.registry some,?_,noted_discardEntry consistent.noted some⟩,
      rfl,fun _ => Iff.rfl⟩,?_⟩
    · refine consistent.owned.lose (open_of_eq rfl) ?_ ?_ ?_ ?_
      · exact fun _ => rfl
      · intro k
        rw [entry_discardEntry]
        split <;> rfl
      · intro k apart
        rw [entry_discardEntry,if_neg apart]
      · intro r
        exact mem_removed_discardEntry key r st
    · have posted : board os (discardEntry key st) = (board os st).post key none none := by
        apply board_posted
        · intro k
          rw [entry_discardEntry]
          split <;> rfl
        · intro k
          rw [entry_discardEntry]
          split <;> rfl
        · rfl
        · rfl
        · rfl
        · rfl
      rw [posted]
      simp [NoticeBoard.discard,board,data]

/-! ## Notifying -/

theorem Change.trans {a b c : State Regex} {between : CFString → Prop} (first : Change os between a b)
    (second : Change os pardoned b c) : Change os pardoned a c :=
  ⟨second.consistent,second.sessions.trans first.sessions,fun z => (second.known z).trans (first.known z)⟩

private theorem notifyValue_spec (consistent : Consistent os pardoned st) (store : StorePrivate)
    (mine : store.useSessionKeys = true → Open st store.server) (key : CFString) :
    Change os pardoned st (dynamicStoreNotifyValue os store key true st).2 ∧
      board os (dynamicStoreNotifyValue os store key true st).2 =
        (board os st).touch (sessionKey store.server) store.useSessionKeys os.serializedTrue key := by
  simp only [dynamicStoreNotifyValue,copyValue_eq,if_true]
  cases data : (st.entry key).data with
  | some value =>
    obtain ⟨change,posted,_⟩ := setValue_spec consistent store mine key value
    refine ⟨⟨change.consistent.pardon ?_,change.sessions,change.known⟩,?_⟩
    · rintro k (old | ⟨_,empty,_⟩)
      · exact old
      · rw [data] at empty
        cases empty
    · rw [posted]
      simp [NoticeBoard.touch,board,data]
  | none =>
    obtain ⟨up,posted,_⟩ := setValue_spec consistent store mine key os.serializedTrue
    obtain ⟨down,taken⟩ := removeValue_spec up.consistent key
    have both := up.trans down
    refine ⟨⟨both.consistent.pardon ?_,both.sessions,both.known⟩,?_⟩
    · rintro k ⟨old | ⟨here,_⟩,apart⟩
      · exact old
      · exact absurd here apart
    · rw [taken,posted]
      simp [NoticeBoard.touch,board,data]

/-! ## Operations with their push -/

variable (os) in
structure AtRest (st : State Regex) : Prop where
  consistent : Consistent os nobody st
  settled : Settled st

variable (os) in
structure Performed (st : State Regex) (b : NoticeBoard CFString CFData CFString Int)
    (st' : State Regex) : Prop where
  atRest : AtRest os st'
  sessions : st'.sessions = st.sessions
  board : board os st' = b

theorem Change.push {st' : State Regex} (change : Change os nobody st st') :
    Performed os st (board os st') (dynamicStorePush os st') := by
  obtain ⟨consistent,pushed⟩ := push_consistent change.consistent
  exact ⟨⟨consistent,pushed.settled⟩,pushed.sessions.trans change.sessions,
    board_push change.consistent⟩

theorem AtRest.refl (atRest : AtRest os st) : Performed os st (board os st) st := ⟨atRest,rfl,rfl⟩

theorem AtRest.unrecorded (atRest : AtRest os st) (n : Int) (k : CFString) : ¬ Recorded st n k := by
  simp [Recorded,atRest.settled.removed]

/-- Where no removal from the session's keys is recorded none will be pardoned. -/
theorem setValue_change (consistent : Consistent os nobody st) (store : StorePrivate)
    (mine : store.useSessionKeys = true → Open st store.server)
    (unrecorded : ∀ k, ¬ Recorded st store.server k) (key : CFString) (value : CFData) :
    Change os nobody st (dynamicStoreSetValue os store key value true st).2 := by
  obtain ⟨change,_⟩ := setValue_spec consistent store mine key value
  refine ⟨change.consistent.pardon ?_,change.sessions,change.known⟩
  rintro k (no | ⟨_,_,recorded⟩)
  · exact no
  · exact unrecorded key recorded

theorem removeValue_change (consistent : Consistent os nobody st) (key : CFString) :
    Change os nobody st (dynamicStoreRemoveValue os key true st).2 := by
  obtain ⟨change,_⟩ := removeValue_spec consistent key
  exact ⟨change.consistent.pardon fun _ both => both.1,change.sessions,change.known⟩

private theorem setValue_push (store : StorePrivate) (key : CFString) (value : CFData) (st : State Regex) :
    (dynamicStoreSetValue os store key value false st).2 =
      dynamicStorePush os (dynamicStoreSetValue os store key value true st).2 := rfl

theorem notifyValue_push (store : StorePrivate) (key : CFString) (st : State Regex) :
    (dynamicStoreNotifyValue os store key false st).2 =
      dynamicStorePush os (dynamicStoreNotifyValue os store key true st).2 := rfl

variable {store : StorePrivate}

theorem setValue_performed (atRest : AtRest os st)
    (mine : store.useSessionKeys = true → Open st store.server) (key : CFString) (value : CFData) :
    Performed os st ((board os st).put (sessionKey store.server) store.useSessionKeys key value)
      (dynamicStoreSetValue os store key value false st).2 := by
  have change := setValue_change atRest.consistent store mine (atRest.unrecorded store.server) key value
  rw [setValue_push,← (setValue_spec atRest.consistent store mine key value).board]
  exact change.push

theorem addValue_performed (atRest : AtRest os st)
    (mine : store.useSessionKeys = true → Open st store.server) (key : CFString) (value : CFData) :
    Performed os st (if (st.entry key).data.isSome then board os st
        else (board os st).put (sessionKey store.server) store.useSessionKeys key value)
      (dynamicStoreAddValue os store key value st).2 := by
  unfold dynamicStoreAddValue
  rw [copyValue_eq]
  cases data : (st.entry key).data with
  | some _ => exact atRest.refl
  | none => exact setValue_performed atRest mine key value

theorem removeValue_performed (atRest : AtRest os st) (key : CFString) :
    Performed os st ((board os st).discard key) (dynamicStoreRemoveValue os key false st).2 := by
  cases data : (st.entry key).data with
  | none =>
    rw [removeValue_of_absent data]
    have same : (board os st).discard key = board os st := by simp [NoticeBoard.discard,board,data]
    rw [same]
    exact atRest.refl
  | some v =>
    have some : (st.entry key).data.isSome := by rw [data]; rfl
    have change := removeValue_change atRest.consistent key
    rw [← (removeValue_spec atRest.consistent key).2]
    rw [removeValue_of_some some] at change ⊢
    rw [removeValue_of_some some]
    exact change.push

theorem notifyValue_performed (atRest : AtRest os st)
    (mine : store.useSessionKeys = true → Open st store.server) (key : CFString) :
    Performed os st
      ((board os st).touch (sessionKey store.server) store.useSessionKeys os.serializedTrue key)
      (dynamicStoreNotifyValue os store key false st).2 := by
  obtain ⟨change,posted⟩ := notifyValue_spec atRest.consistent store mine key
  rw [notifyValue_push,← posted]
  exact change.push

/-! ## Batches -/

abbrev Board := NoticeBoard CFString CFData CFString Int

def putItem (store : StorePrivate) (b : Board) : Plist × Plist → Board
  | (.string k,.data v) => b.put (sessionKey store.server) store.useSessionKeys k v
  | _ => b

def discardItem (b : Board) : Plist → Board
  | .string k => b.discard k
  | _ => b

def touchItem (blank : CFData) (store : StorePrivate) (b : Board) : Plist → Board
  | .string k => b.touch (sessionKey store.server) store.useSessionKeys blank k
  | _ => b

def batch (blank : CFData) (store : StorePrivate) (keysToSet : List (Plist × Plist))
    (keysToRemove keysToNotify : List Plist) (b : Board) : Board :=
  keysToNotify.foldl (touchItem blank store)
    (keysToRemove.foldl discardItem (keysToSet.foldl (putItem store) b))

/-- An operation before its push, and what it makes of the board. -/
def Turns (os : Platform Regex) (st : State Regex) (b : Board) (st' : State Regex) : Prop :=
  Change os nobody st st' ∧ board os st' = b

theorem Turns.refl (consistent : Consistent os nobody st) : Turns os st (board os st) st :=
  ⟨⟨consistent,rfl,fun _ => Iff.rfl⟩,rfl⟩

/-- A step that turns the board as `g` does, and keeps what it needs for it,
does so all along a list. -/
theorem foldl_turns {α : Type} {f : State Regex → α → State Regex} {g : Board → α → Board}
    {P : State Regex → Prop}
    (each : ∀ st a, Consistent os nobody st → P st →
      Turns os st (g (board os st) a) (f st a) ∧ P (f st a)) (l : List α)
    (consistent : Consistent os nobody st) (holds : P st) :
    Turns os st (l.foldl g (board os st)) (l.foldl f st) ∧ P (l.foldl f st) := by
  induction l generalizing st with
  | nil => exact ⟨.refl consistent,holds⟩
  | cons a rest ih =>
    obtain ⟨⟨change,turned⟩,still⟩ := each st a consistent holds
    obtain ⟨⟨changes,all⟩,after⟩ := ih change.consistent still
    rw [List.foldl_cons,List.foldl_cons,← turned]
    exact ⟨⟨change.trans changes,all⟩,after⟩

private theorem setSpecificKey_turns (consistent : Consistent os nobody st)
    (mine : store.useSessionKeys = true → Open st store.server)
    (unrecorded : ∀ k, ¬ Recorded st store.server k) (item : Plist × Plist) :
    Turns os st (putItem store (board os st) item) (setSpecificKey os store st item) ∧
      ∀ k, ¬ Recorded (setSpecificKey os store st item) store.server k := by
  obtain ⟨key | _ | _,_ | value | _⟩ := item
  case string.data =>
    obtain ⟨_,posted,recorded⟩ := setValue_spec consistent store mine key value
    exact ⟨⟨setValue_change consistent store mine unrecorded key value,posted⟩,
      fun k again => unrecorded k (recorded k again)⟩
  all_goals exact ⟨.refl consistent,unrecorded⟩

private theorem removeSpecificKey_turns (consistent : Consistent os nobody st) (item : Plist) :
    Turns os st (discardItem (board os st) item) (removeSpecificKey os st item) := by
  cases item with
  | string key => exact ⟨removeValue_change consistent key,(removeValue_spec consistent key).2⟩
  | data _ => exact .refl consistent
  | other => exact .refl consistent

private theorem notifySpecificKey_turns (consistent : Consistent os nobody st)
    (mine : store.useSessionKeys = true → Open st store.server) (item : Plist) :
    Turns os st (touchItem os.serializedTrue store (board os st) item)
      (notifySpecificKey os store st item) := by
  cases item with
  | string key => exact notifyValue_spec consistent store mine key
  | data _ => exact .refl consistent
  | other => exact .refl consistent

theorem setMultiple_performed (atRest : AtRest os st)
    (mine : store.useSessionKeys = true → Open st store.server) (keysToSet : List (Plist × Plist))
    (keysToRemove keysToNotify : List Plist) :
    Performed os st
      (batch os.serializedTrue store (os.order _ keysToSet) keysToRemove keysToNotify (board os st))
      (dynamicStoreSetMultiple os store keysToSet keysToRemove keysToNotify st).2 := by
  have stays {st st' : State Regex} {b : Board} (turns : Turns os st b st')
      (mine : store.useSessionKeys = true → Open st store.server) :
      store.useSessionKeys = true → Open st' store.server := by
    rw [open_of_eq turns.1.sessions]
    exact mine
  obtain ⟨⟨sets,set⟩,mine',_⟩ := foldl_turns
    (P := fun st => (store.useSessionKeys = true → Open st store.server) ∧
      ∀ k, ¬ Recorded st store.server k)
    (fun st item consistent holds =>
      have turned := setSpecificKey_turns consistent holds.1 holds.2 item
      ⟨turned.1,stays turned.1 holds.1,turned.2⟩)
    (os.order _ keysToSet) atRest.consistent ⟨mine,atRest.unrecorded store.server⟩
  obtain ⟨⟨removes,removed⟩,mine'⟩ := foldl_turns
    (P := fun st => store.useSessionKeys = true → Open st store.server)
    (fun st item consistent holds =>
      have turned := removeSpecificKey_turns consistent item
      ⟨turned,stays turned holds⟩)
    keysToRemove sets.consistent mine'
  obtain ⟨⟨notifies,notified⟩,_⟩ := foldl_turns
    (P := fun st => store.useSessionKeys = true → Open st store.server)
    (fun st item consistent holds =>
      have turned := notifySpecificKey_turns consistent holds item
      ⟨turned,stays turned holds⟩)
    keysToNotify removes.consistent mine'
  have pushed := ((sets.trans removes).trans notifies).push
  rw [notified,removed,set] at pushed
  exact pushed

end FreebsdLaunchd.DynamicStore
