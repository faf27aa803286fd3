import FreebsdLaunchd.DynamicStore.Push
import FreebsdLaunchd.DynamicStore.Server

/-! The invariant of the dynamic store. It holds between the steps of an
operation too, when removals, notices and repairs of the sessions' lists are
still to be carried out, and the push carries them out. -/
namespace FreebsdLaunchd.DynamicStore
open State

variable {Regex : Type} {os : Platform Regex}

/-- Temporary keys are in their owners' lists, which hold nothing else but keys
whose removal is recorded. A key in `pardoned` may be owned by the session its
record names. -/
structure Owned (pardoned : CFString → Prop) (st : State Regex) : Prop where
  owner : ∀ k z, (st.entry k).session = some z →
    (st.entry k).data.isSome ∧ ∃ s, Open st s ∧ z = sessionKey s ∧ k ∈ st.sessionKeysOf z
  listed : ∀ s, ∀ k ∈ st.sessionKeysOf (sessionKey s),
    (st.entry k).session = some (sessionKey s) ∨
      removedSessionKey (sessionKey s) k ∈ st.removedSessionKeys
  records : ∀ r ∈ st.removedSessionKeys, ∃ n k, r = removedSessionKey (sessionKey n) k
  removed : ∀ n k, removedSessionKey (sessionKey n) k ∈ st.removedSessionKeys →
    (st.entry k).session = some (sessionKey n) → pardoned k
  distinct : ∀ z, (st.sessionKeysOf z).Nodup

structure Noted (st : State Regex) : Prop where
  changed : ∀ k ∈ st.changedKeys, Present st k
  deferred : ∀ k ∈ st.deferredRemovals, (st.entry k).data = none
  distinctDeferred : st.deferredRemovals.Nodup
  needs : ∀ s ∈ st.needsNotification, Open st s
  distinctNeeds : st.needsNotification.Nodup
  distinct : ∀ z, (st.changesOf z).Nodup
  known : ∀ z, z ∈ st.sessionData ↔ ∃ s, Open st s ∧ z = sessionKey s
  named : ∀ s, Open st s → (st.info (sessionKey s)).name.isSome
  alive : st.assertionFailed = false

variable (os) in
structure Consistent (pardoned : CFString → Prop) (st : State Regex) : Prop where
  registry : Registry os st
  owned : Owned pardoned st
  noted : Noted st

abbrev nobody : CFString → Prop := fun _ => False

structure Settled (st : State Regex) : Prop where
  changed : st.changedKeys = []
  deferred : st.deferredRemovals = []
  removed : st.removedSessionKeys = []

/-- `s` watches `key`, by itself or through one of its patterns. -/
def Watching (os : Platform Regex) (st : State Regex) (s : Int) (key : CFString) : Prop :=
  key ∈ st.watchedKeys s ∨ ∃ p ∈ st.watchedPatterns s, matchesPattern os p key

variable {st : State Regex} {pardoned : CFString → Prop}

theorem Watching.isOpen {s : Int} {key : CFString} (watching : Watching os st s key) : Open st s := by
  by_contra closed
  simp [Watching,State.watchedKeys,State.watchedPatterns,deref_of_closed closed] at watching

theorem Consistent.mem_holders (consistent : Consistent os pardoned st) {s : Int} {key : CFString}
    (present : Present st key) : s ∈ (st.entry key).refs.holders ↔ Watching os st s key :=
  consistent.registry.watched.mem_holders_iff consistent.registry.cached present

theorem Consistent.mem_notices (consistent : Consistent os pardoned st) {s : Int} {key : CFString} :
    (key,s) ∈ notices os st ↔ key ∈ st.changedKeys ∧ Watching os st s key := by
  rw [DynamicStore.mem_notices]
  apply and_congr_right
  intro changed
  exact consistent.mem_holders (consistent.noted.changed key changed)

theorem watching_of_eq {st' : State Regex} (sessions : st'.sessions = st.sessions) :
    Watching os st' = Watching os st := by
  funext s key
  simp [Watching,State.watchedKeys,State.watchedPatterns,State.deref,State.live,sessions]

theorem open_of_eq {st' : State Regex} (sessions : st'.sessions = st.sessions) : Open st' = Open st := by
  funext s
  simp [Open,State.live,sessions]

theorem Owned.of_lists {st' : State Regex} (owned : Owned pardoned st)
    (data : ∀ k, (st.entry k).data.isSome → (st'.entry k).data.isSome)
    (session : ∀ k, (st'.entry k).session = (st.entry k).session)
    (lists : ∀ z, st'.sessionKeysOf z = st.sessionKeysOf z)
    (removed : st'.removedSessionKeys = st.removedSessionKeys)
    (opened : ∀ s, Open st s → Open st' s) : Owned pardoned st' := by
  refine ⟨?_,?_,?_,?_,?_⟩
  · intro k z mine
    rw [session] at mine
    obtain ⟨some,s,isOpen,here,member⟩ := owned.owner k z mine
    rw [lists]
    exact ⟨data k some,s,opened s isOpen,here,member⟩
  · intro s k member
    rw [lists] at member
    rw [session,removed]
    exact owned.listed s k member
  · rw [removed]
    exact owned.records
  · intro n k
    rw [session,removed]
    exact owned.removed n k
  · intro z
    rw [lists]
    exact owned.distinct z

/-- Neither the queue nor what is known of the sessions moves. -/
theorem Noted.of_eq {st' : State Regex} (noted : Noted st)
    (data : ∀ k, (st'.entry k).data = (st.entry k).data) (changed : st'.changedKeys = st.changedKeys)
    (deferred : st'.deferredRemovals = st.deferredRemovals)
    (needs : st'.needsNotification = st.needsNotification) (opened : Open st' = Open st)
    (changes : ∀ z, st'.changesOf z = st.changesOf z)
    (known : ∀ z, z ∈ st'.sessionData ↔ z ∈ st.sessionData)
    (name : ∀ z, (st'.info z).name = (st.info z).name)
    (alive : st'.assertionFailed = st.assertionFailed) : Noted st' := by
  refine ⟨?_,?_,?_,?_,?_,?_,?_,?_,alive.trans noted.alive⟩
  · intro k member
    rw [changed] at member
    rw [Present,data,deferred]
    exact noted.changed k member
  · intro k
    rw [deferred,data]
    exact noted.deferred k
  · rw [deferred]
    exact noted.distinctDeferred
  · rw [needs,opened]
    exact noted.needs
  · rw [needs]
    exact noted.distinctNeeds
  · intro z
    rw [changes]
    exact noted.distinct z
  · intro z
    rw [known,opened]
    exact noted.known z
  · intro s
    rw [opened,name]
    exact noted.named s

/-! ## The push -/

structure Pushed (os : Platform Regex) (st st' : State Regex) : Prop where
  data : ∀ k, (st'.entry k).data = (st.entry k).data
  session : ∀ k, (st'.entry k).session = (st.entry k).session
  sessions : st'.sessions = st.sessions
  changes : ∀ s k, k ∈ st'.changesOf (sessionKey s) ↔
    k ∈ st.changesOf (sessionKey s) ∨ k ∈ st.changedKeys ∧ Watching os st s k
  needs : ∀ s, s ∈ st'.needsNotification ↔
    s ∈ st.needsNotification ∨ ∃ k ∈ st.changedKeys, Watching os st s k
  lists : ∀ s k, k ∈ st'.sessionKeysOf (sessionKey s) ↔
    k ∈ st.sessionKeysOf (sessionKey s) ∧ removedSessionKey (sessionKey s) k ∉ st.removedSessionKeys
  settled : Settled st'

structure Delivered (os : Platform Regex) (st st' : State Regex) : Prop where
  data : ∀ k, (st'.entry k).data = (st.entry k).data
  session : ∀ k, (st'.entry k).session = (st.entry k).session
  sessions : st'.sessions = st.sessions
  watched : Watched st'
  cached : Cached os st' (Present st')
  changes : ∀ z, st'.changesOf z = (tellAll (notices os st) st).changesOf z
  known : ∀ z, z ∈ st'.sessionData ↔ z ∈ (tellAll (notices os st) st).sessionData
  names : ∀ z, (st'.info z).name = (st.info z).name
  needs : st'.needsNotification = (tellAll (notices os st) st).needsNotification
  lists : ∀ s k, k ∈ st'.sessionKeysOf (sessionKey s) ↔
    k ∈ st.sessionKeysOf (sessionKey s) ∧ removedSessionKey (sessionKey s) k ∉ st.removedSessionKeys
  distinct : ∀ z, (st'.sessionKeysOf z).Nodup
  settled : Settled st'
  alive : st'.assertionFailed = st.assertionFailed

/-- The keys whose removal was put off are gone once it is carried out. -/
theorem present_swept (noted : Noted st) {st' : State Regex} {keys : List CFString}
    (queued : ∀ k, k ∈ keys ↔ k ∈ st.deferredRemovals) (data : ∀ k, (st'.entry k).data = (st.entry k).data)
    (empty : st'.deferredRemovals = []) : (fun k => Present st k ∧ k ∉ keys) = Present st' := by
  funext k
  have gone (member : k ∈ st.deferredRemovals) := noted.deferred k member
  simp only [Present,queued,data,empty,List.not_mem_nil,or_false]
  apply propext
  constructor
  · rintro ⟨some | deferred,kept⟩
    · exact some
    · exact absurd deferred kept
  · intro some
    refine ⟨.inl some,?_⟩
    intro member
    simp [gone member] at some

private theorem push_delivered (consistent : Consistent os nobody st) : Delivered os st (dynamicStorePush os st) := by
  -- first the watchers are told
  let told := tellAll (notices os st) st
  have telling : SameButNotices st told := sameButNotices_tellAll _ st
  let noticed : State Regex := { told with changedKeys := [] }
  have noticedEq : notifyWatchers os st = noticed := notifyWatchers_eq st
  have entryNoticed (k : CFString) : noticed.entry k = st.entry k := entry_of_eq telling.storeData k
  have tableNoticed : Table noticed := consistent.registry.table.of_eq telling.sessions
  have watchedNoticed : Watched noticed :=
    consistent.registry.watched.of_eq telling.storeData telling.patternData telling.sessions
  have cachedNoticed : Cached os noticed (Present st) :=
    consistent.registry.cached.of_eq telling.patternData telling.sessions
  -- then the removed keys leave the patterns
  let keys := (os.order _ noticed.deferredRemovals).reverse
  have memKeys (k : CFString) : k ∈ keys ↔ k ∈ st.deferredRemovals := by
    rw [List.mem_reverse,(os.order_perm _ noticed.deferredRemovals).mem_iff]
    change k ∈ told.deferredRemovals ↔ _
    rw [telling.deferredRemovals]
  let swept := keys.foldl (fun st key => patternRemoveKey os key st) noticed
  have sweeping : SameValues noticed swept :=
    .foldl (fun st key => sameValues_patternRemoveKey os key st) keys noticed
  obtain ⟨watchedSwept,cachedSwept⟩ := foldl_patternRemoveKey tableNoticed watchedNoticed cachedNoticed keys
  -- and the sessions' lists lose what is recorded as removed
  let cleared : State Regex := { swept with deferredRemovals := [] }
  have info : cleared.sessionData = told.sessionData := sweeping.sessionData
  let records := os.order _ cleared.removedSessionKeys
  have removedCleared : cleared.removedSessionKeys = st.removedSessionKeys :=
    sweeping.removedSessionKeys.trans telling.removedSessionKeys
  have memRecords (r : CFString) : r ∈ records ↔ r ∈ st.removedSessionKeys := by
    rw [(os.order_perm _ cleared.removedSessionKeys).mem_iff,removedCleared]
  have listsCleared (z : CFString) : cleared.sessionKeysOf z = st.sessionKeysOf z := by
    rw [State.sessionKeysOf,State.info,info]
    exact telling.sessionKeys z
  obtain ⟨cleaning,distinctLists,memLists⟩ := foldl_cleanup records
    (fun r member => consistent.owned.records r ((memRecords r).mp member)) cleared
    (fun z => listsCleared z ▸ consistent.owned.distinct z)
  let cleaned := records.foldl cleanupRemovedSessionKeys cleared
  have equation : dynamicStorePush os st = { cleaned with removedSessionKeys := [] } := by
    rw [dynamicStorePush,noticedEq]
    rfl
  rw [equation]
  let final : State Regex := { cleaned with removedSessionKeys := [] }
  have entrySwept (k : CFString) : final.entry k = swept.entry k := entry_of_eq cleaning.storeData k
  have data (k : CFString) : (final.entry k).data = (st.entry k).data := by
    rw [entrySwept,sweeping.data,entryNoticed]
  have present := present_swept consistent.noted memKeys data cleaning.deferredRemovals
  exact {
    data := data
    session := by
      intro k
      rw [entrySwept,sweeping.session,entryNoticed]
    sessions := cleaning.sessions.trans (sweeping.sessions.trans telling.sessions)
    watched := watchedSwept.of_eq cleaning.storeData cleaning.patternData cleaning.sessions
    cached := by
      rw [← present]
      exact cachedSwept.of_eq cleaning.patternData cleaning.sessions
    changes := by
      intro z
      change cleaned.changesOf z = _
      rw [cleaning.changes,State.changesOf,State.info,info]
      rfl
    known := by
      intro z
      change z ∈ cleaned.sessionData ↔ _
      rw [cleaning.known,info]
    names := by
      intro z
      change (cleaned.info z).name = _
      rw [cleaning.name,State.info,info]
      exact telling.name z
    needs := cleaning.needsNotification.trans sweeping.needsNotification
    lists := by
      intro s k
      change k ∈ cleaned.sessionKeysOf _ ↔ _
      rw [memLists,listsCleared,memRecords]
    distinct := distinctLists
    settled := ⟨cleaning.changedKeys.trans sweeping.changedKeys,cleaning.deferredRemovals,rfl⟩
    alive := cleaning.assertionFailed.trans (sweeping.assertionFailed.trans telling.assertionFailed) }

theorem Delivered.pushed {st' : State Regex} (delivered : Delivered os st st') (consistent : Consistent os nobody st) :
    Pushed os st st' := by
  refine ⟨delivered.data,delivered.session,delivered.sessions,?_,?_,delivered.lists,delivered.settled⟩
  · intro s k
    rw [delivered.changes,mem_changesOf_tellAll,consistent.mem_notices]
  · intro s
    rw [delivered.needs,mem_needs_tellAll]
    apply or_congr_right
    apply exists_congr
    intro k
    rw [consistent.mem_notices]

/-- With the records carried out, the lists hold just the keys that are owned. -/
theorem Delivered.owned {st' : State Regex} (delivered : Delivered os st st') (owned : Owned nobody st) :
    Owned nobody st' := by
  refine ⟨?_,?_,?_,?_,delivered.distinct⟩
  · intro k z belongs
    rw [delivered.session] at belongs
    obtain ⟨some,s,isOpen,rfl,member⟩ := owned.owner k z belongs
    rw [delivered.data]
    refine ⟨some,s,open_of_eq delivered.sessions ▸ isOpen,rfl,(delivered.lists s k).mpr ⟨member,?_⟩⟩
    intro recorded
    exact owned.removed s k recorded belongs
  · intro s k member
    obtain ⟨before,unrecorded⟩ := (delivered.lists s k).mp member
    rw [delivered.session]
    exact .inl ((owned.listed s k before).resolve_right unrecorded)
  · intro r member
    rw [delivered.settled.removed] at member
    cases member
  · intro n k member
    rw [delivered.settled.removed] at member
    cases member

theorem Delivered.noted {st' : State Regex} (delivered : Delivered os st st') (consistent : Consistent os nobody st) :
    Noted st' := by
  have opened := open_of_eq delivered.sessions
  have pushed := delivered.pushed consistent
  have unchanged (k : CFString) : k ∉ st'.changedKeys := by simp [delivered.settled.changed]
  have undeferred (k : CFString) : k ∉ st'.deferredRemovals := by simp [delivered.settled.deferred]
  have distinct : st'.deferredRemovals.Nodup := by simp [delivered.settled.deferred]
  refine ⟨fun k member => absurd member (unchanged k),fun k member => absurd member (undeferred k),
    distinct,?_,?_,?_,?_,?_,delivered.alive.trans consistent.noted.alive⟩
  · intro s member
    rw [opened]
    rcases (pushed.needs s).mp member with old | ⟨k,_,watching⟩
    · exact consistent.noted.needs s old
    · exact watching.isOpen
  · rw [delivered.needs]
    exact nodup_needs_tellAll _ st consistent.noted.distinctNeeds
  · intro z
    rw [delivered.changes]
    exact nodup_changesOf_tellAll _ st consistent.noted.distinct z
  · intro z
    rw [delivered.known,mem_sessionData_tellAll,consistent.noted.known,opened]
    constructor
    · rintro (old | ⟨⟨k,s⟩,member,rfl⟩)
      · exact old
      · exact ⟨s,(consistent.mem_notices.mp member).2.isOpen,rfl⟩
    · exact .inl
  · intro s isOpen
    rw [opened] at isOpen
    rw [delivered.names]
    exact consistent.noted.named s isOpen

theorem push_consistent (consistent : Consistent os nobody st) :
    Consistent os nobody (dynamicStorePush os st) ∧ Pushed os st (dynamicStorePush os st) := by
  have delivered := push_delivered consistent
  have table := consistent.registry.table.of_eq delivered.sessions
  exact ⟨⟨⟨table,delivered.watched,delivered.cached⟩,delivered.owned consistent.owned,delivered.noted consistent⟩,
    delivered.pushed consistent⟩

end FreebsdLaunchd.DynamicStore
