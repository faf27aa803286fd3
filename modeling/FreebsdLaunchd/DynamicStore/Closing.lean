import FreebsdLaunchd.DynamicStore.Sessions

/-! A session is closed: it ceases to watch, its keys are removed, and only
then is it taken off the table. -/
namespace FreebsdLaunchd.DynamicStore
open State

variable {Regex : Type} {os : Platform Regex} {st st' : State Regex} {n : Int}

/-! ## Ceasing to watch -/

def dropFrom (isRegex : Bool) (x : StorePrivate) (key : CFString) : StorePrivate :=
  if isRegex then dropPatternFrom key x else dropKeyFrom key x

theorem sessions_patternRemoveSession (pattern : CFString) (n : Int) (st : State Regex) :
    (patternRemoveSession pattern n st).sessions = st.sessions := by
  cases found : st.patternData.lookup pattern with
  | none => simp [patternRemoveSession,found]
  | some pInfo =>
    rw [patternRemoveSession_eq found]
    exact (sameValues_releaseAll _ st).sessions

theorem deref_of_sessions (sessions : st'.sessions = st.sessions) (s : Int) : st'.deref s = st.deref s := by
  simp [State.deref,State.live,sessions]

private theorem deref_removeWatchedKey (isOpen : Open st n) (key : CFString) (isRegex : Bool) (s : Int) :
    (removeWatchedKey n key isRegex st).2.deref s =
      if s = n then dropFrom isRegex (st.deref n) key else st.deref s := by
  have unchanged (same : dropFrom isRegex (st.deref n) key = st.deref n) :
      st.deref s = if s = n then dropFrom isRegex (st.deref n) key else st.deref s := by
    rw [same]
    split
    · rename_i here
      rw [here]
    · rfl
  simp only [removeWatchedKey,deref_server]
  cases isRegex with
  | false =>
    by_cases known : key ∈ (st.deref n).keys
    · simp only [known,not_true_eq_false,Bool.false_eq_true,if_false]
      rw [deref_of_sessions (sameValues_removeWatcher n key _).sessions]
      exact deref_modify (f := dropKeyFrom key) (fun _ => rfl) isOpen s
    · simp only [known,not_false_eq_true,Bool.false_eq_true,if_false,if_true]
      apply unchanged
      simp [dropFrom,dropKeyFrom,List.erase_of_not_mem known]
  | true =>
    by_cases known : key ∈ (st.deref n).patterns
    · simp only [known,not_true_eq_false,if_false,if_true]
      rw [deref_of_sessions (sessions_patternRemoveSession key n _)]
      exact deref_modify (f := dropPatternFrom key) (fun _ => rfl) isOpen s
    · simp only [known,not_false_eq_true,if_true]
      apply unchanged
      simp [dropFrom,dropPatternFrom,List.erase_of_not_mem known]

private theorem registered_dropFrom (isRegex kind : Bool) (x : StorePrivate) (key : CFString) :
    (dropFrom isRegex x key).registered kind =
      if kind = isRegex then (x.registered kind).erase key else x.registered kind := by
  cases isRegex <;> cases kind <;> rfl

private theorem registered_foldl_dropFrom (isRegex kind : Bool) (l : List CFString) (x : StorePrivate) :
    (l.foldl (dropFrom isRegex) x).registered kind =
      if kind = isRegex then l.foldl List.erase (x.registered kind) else x.registered kind := by
  induction l generalizing x with
  | nil => simp
  | cons key rest ih =>
    rw [List.foldl_cons,ih,registered_dropFrom]
    split <;> rfl

private theorem foldl_erase_self (l : List CFString) : l.foldl List.erase l = [] := by
  induction l with
  | nil => rfl
  | cons a rest ih =>
    rw [List.foldl_cons,List.erase_cons_head]
    exact ih

private theorem foldl_removeWatchedKey (isRegex : Bool) (l : List CFString) (registry : Registry os st)
    (isOpen : Open st n) :
    KeepsRegistry os st (l.foldl (fun st key => (removeWatchedKey n key isRegex st).2) st) ∧
      ∀ s, (l.foldl (fun st key => (removeWatchedKey n key isRegex st).2) st).deref s =
        if s = n then l.foldl (dropFrom isRegex) (st.deref n) else st.deref s := by
  induction l generalizing st with
  | nil =>
    refine ⟨⟨registry,.refl st⟩,?_⟩
    intro s
    by_cases here : s = n <;> simp [here]
  | cons key rest ih =>
    have first : KeepsRegistry os st (removeWatchedKey n key isRegex st).2 :=
      removeWatchedKey_registry registry isOpen key isRegex
    have derefs := deref_removeWatchedKey isOpen key isRegex
    obtain ⟨others,after⟩ := ih first.1 ((first.2.opened n).mpr isOpen)
    refine ⟨first.trans others,?_⟩
    intro s
    rw [List.foldl_cons,after,derefs,derefs,if_pos rfl]
    split <;> rfl

private theorem removeAllKeys_spec (isRegex : Bool) (registry : Registry os st) (isOpen : Open st n) :
    KeepsRegistry os st (removeAllKeys n isRegex st) ∧
      ∀ s kind, ((removeAllKeys n isRegex st).deref s).registered kind =
        if s = n ∧ kind = isRegex then [] else (st.deref s).registered kind := by
  obtain ⟨keeps,derefs⟩ := foldl_removeWatchedKey isRegex ((st.deref n).registered isRegex) registry isOpen
  refine ⟨keeps,?_⟩
  intro s kind
  rw [removeAllKeys,derefs]
  by_cases here : s = n
  · subst here
    rw [if_pos rfl,registered_foldl_dropFrom]
    by_cases same : kind = isRegex
    · subst same
      simp [foldl_erase_self]
    · simp [same]
  · simp [here]

theorem notifyCancel_spec (atRest : AtRest os st) (isOpen : Open st n) :
    AtRest os (dynamicStoreNotifyCancel n st) ∧
      (∀ s, (dynamicStoreNotifyCancel n st).watchedKeys s = st.watchedKeys s) ∧
      (∀ s, (dynamicStoreNotifyCancel n st).watchedPatterns s = st.watchedPatterns s) ∧
      ∀ s, Open (dynamicStoreNotifyCancel n st) s ↔ Open st s := by
  let f : StorePrivate → StorePrivate := fun x => { x with
    notifyPort := 0
    notifyFile := -1
    notifySignal := if x.notifySignal > 0 then 0 else x.notifySignal
    notifySignalTask := if x.notifySignal > 0 then 0 else x.notifySignalTask
    notifyStatus := .notRegistered }
  obtain ⟨keeps,keys,patterns⟩ := modify_keeps (f := f) atRest.consistent.registry isOpen
    (fun _ => rfl) (fun _ => rfl) (fun _ => rfl)
  have noted := atRest.consistent.noted
  refine ⟨atRest_needs (keeps.atRest atRest) ?_ ?_,keys,patterns,keeps.2.opened⟩
  · intro s member
    exact (keeps.2.opened s).mpr (noted.needs s (List.mem_of_mem_erase member))
  · exact noted.distinctNeeds.erase n

/-! ## Removing the keys of a session -/

private theorem isMySessionKey_iff (session key : CFString) (st : State Regex) :
    isMySessionKey session key st = true ↔ (st.entry key).session = some session := by
  unfold isMySessionKey
  cases found : st.storeData.lookup key with
  | none => simp [entry_of_absent found]
  | some dict => simp [entry_of_lookup found]

private theorem removeSessionKey_turns (session : CFString) {context : Bool × State Regex}
    (consistent : Consistent os nobody context.2) (key : CFString) :
    Turns os context.2 ((board os context.2).withdraw session key)
        (removeSessionKey os session context key).2 ∧
      ((removeSessionKey os session context key).1 = false →
        removeSessionKey os session context key = context) := by
  unfold removeSessionKey NoticeBoard.withdraw
  by_cases mine : (board os context.2).owner key = some session
  · rw [if_pos ((isMySessionKey_iff session key context.2).mpr mine),if_pos mine]
    exact ⟨⟨removeValue_change consistent key,(removeValue_spec consistent key).2⟩,
      fun no => Bool.noConfusion no⟩
  · rw [if_neg (mt (isMySessionKey_iff session key context.2).mp mine),if_neg mine]
    exact ⟨.refl consistent,fun _ => rfl⟩

private theorem foldl_removeSessionKey (session : CFString) (keys : List CFString)
    (context : Bool × State Regex) (consistent : Consistent os nobody context.2) :
    Turns os context.2 (keys.foldl (NoticeBoard.withdraw session) (board os context.2))
        (keys.foldl (removeSessionKey os session) context).2 ∧
      ((keys.foldl (removeSessionKey os session) context).1 = false →
        keys.foldl (removeSessionKey os session) context = context) := by
  induction keys generalizing context with
  | nil => exact ⟨.refl consistent,fun _ => rfl⟩
  | cons key rest ih =>
    obtain ⟨⟨change,turned⟩,still⟩ := removeSessionKey_turns session consistent key
    obtain ⟨⟨changes,all⟩,unmoved⟩ := ih _ change.consistent
    rw [List.foldl_cons,List.foldl_cons,← turned]
    refine ⟨⟨change.trans changes,all⟩,?_⟩
    intro no
    have rest := unmoved no
    rw [rest] at no ⊢
    exact still no

/-- The keys are removed and, if there were any, pushed. -/
theorem closeKeys_performed (atRest : AtRest os st) (session : CFString) (keys : List CFString) :
    Performed os st (keys.foldl (NoticeBoard.withdraw session) (board os st))
      (if (keys.foldl (removeSessionKey os session) (false,st)).1 then
        dynamicStorePush os (keys.foldl (removeSessionKey os session) (false,st)).2
      else (keys.foldl (removeSessionKey os session) (false,st)).2) := by
  obtain ⟨⟨change,turned⟩,unmoved⟩ :=
    foldl_removeSessionKey session keys (false,st) atRest.consistent
  rw [← turned]
  cases moved : (keys.foldl (removeSessionKey os session) (false,st)).1 with
  | true => exact change.push
  | false =>
    rw [unmoved moved]
    exact atRest.refl

/-! ## Closing a session -/

def dropSession (n : Int) (st : State Regex) : State Regex :=
  { st with
    sessionData := st.sessionData.erase (sessionKey n)
    sessions := clearSlot n st.sessions }

theorem live_dropSession (n : Int) (st : State Regex) :
    (dropSession n st).live = st.live.filter fun x => x.server ≠ n :=
  filterMap_clearSlot n st.sessions

theorem open_dropSession (n s : Int) (st : State Regex) :
    Open (dropSession n st) s ↔ s ≠ n ∧ Open st s := by
  simp only [Open,live_dropSession,List.mem_filter,decide_eq_true_eq]
  constructor
  · rintro ⟨x,⟨member,apart⟩,rfl⟩
    exact ⟨apart,x,member,rfl⟩
  · rintro ⟨apart,x,member,rfl⟩
    exact ⟨x,⟨member,apart⟩,rfl⟩

private theorem table_dropSession (table : Table st) (n : Int) : Table (dropSession n st) := by
  have sub : (dropSession n st).live.Sublist st.live := by
    rw [live_dropSession]
    exact List.filter_sublist
  exact ⟨table.distinct.sublist (sub.map _),fun x member => table.nonzero x (sub.subset member),
    fun x member => table.keys x (sub.subset member),fun x member => table.patterns x (sub.subset member)⟩

theorem deref_dropSession (table : Table st) (n s : Int) :
    (dropSession n st).deref s = if s = n then { server := n } else st.deref s := by
  by_cases here : s = n
  · subst here
    rw [if_pos rfl]
    exact deref_of_closed fun now => ((open_dropSession s s st).mp now).1 rfl
  · rw [if_neg here]
    by_cases isOpen : Open st s
    · obtain ⟨x,member,rfl⟩ := isOpen
      have still : x ∈ (dropSession n st).live := by
        rw [live_dropSession]
        exact List.mem_filter.mpr ⟨member,by simpa using here⟩
      rw [table.deref member]
      exact (table_dropSession table n).deref still
    · have closed : ¬ Open (dropSession n st) s := fun now => isOpen ((open_dropSession n s st).mp now).2
      rw [deref_of_closed isOpen,deref_of_closed closed]

private theorem info_dropSession (n : Int) (z : CFString) (st : State Regex) :
    (dropSession n st).info z = if z = sessionKey n then {} else st.info z := by
  simp only [State.info,dropSession]
  rw [lookup_erase_ite]
  split <;> rfl

/-- A session that watches nothing, owns nothing and is owed nothing. -/
structure Idle (n : Int) (st : State Regex) : Prop where
  keys : st.watchedKeys n = []
  patterns : st.watchedPatterns n = []
  unowned : ∀ k, (st.entry k).session ≠ some (sessionKey n)
  quiet : n ∉ st.needsNotification

private theorem watched_dropSession (table : Table st) (idle : Idle n st) :
    (∀ s, (dropSession n st).watchedKeys s = st.watchedKeys s) ∧
      ∀ s, (dropSession n st).watchedPatterns s = st.watchedPatterns s := by
  constructor
  · intro s
    rw [State.watchedKeys,deref_dropSession table]
    split
    · rename_i here
      rw [here]
      exact idle.keys.symm
    · rfl
  · intro s
    rw [State.watchedPatterns,deref_dropSession table]
    split
    · rename_i here
      rw [here]
      exact idle.patterns.symm
    · rfl

private theorem dropSession_atRest (atRest : AtRest os st) (idle : Idle n st) : AtRest os (dropSession n st) := by
  obtain ⟨⟨registry,owned,noted⟩,settled⟩ := atRest
  obtain ⟨keys,patterns⟩ := watched_dropSession registry.table idle
  refine ⟨⟨?_,?_,?_⟩,⟨settled.changed,settled.deferred,settled.removed⟩⟩
  · exact registry_of_views registry (table_dropSession registry.table n) (fun _ => rfl) rfl rfl keys patterns
  · have lists (z : CFString) : (dropSession n st).sessionKeysOf z =
        if z = sessionKey n then [] else st.sessionKeysOf z := by
      rw [State.sessionKeysOf,info_dropSession]
      split <;> rfl
    refine ⟨?_,?_,owned.records,owned.removed,?_⟩
    · intro k z mine
      obtain ⟨some,s,isOpen,rfl,member⟩ := owned.owner k z mine
      have apart : s ≠ n := by
        rintro rfl
        exact idle.unowned k mine
      rw [lists,if_neg (sessionKey_injective.ne apart)]
      exact ⟨some,s,(open_dropSession n s st).mpr ⟨apart,isOpen⟩,rfl,member⟩
    · intro s k member
      rw [lists] at member
      split at member
      · cases member
      · exact owned.listed s k member
    · intro z
      rw [lists]
      split
      · exact List.nodup_nil
      · exact owned.distinct z
  · refine ⟨noted.changed,noted.deferred,noted.distinctDeferred,?_,noted.distinctNeeds,?_,?_,?_,noted.alive⟩
    · intro s member
      refine (open_dropSession n s st).mpr ⟨?_,noted.needs s member⟩
      rintro rfl
      exact idle.quiet member
    · intro z
      rw [State.changesOf,info_dropSession]
      split
      · exact List.nodup_nil
      · exact noted.distinct z
    · intro z
      have erased : z ∈ (dropSession n st).sessionData ↔ z ≠ sessionKey n ∧ z ∈ st.sessionData :=
        AList.mem_erase
      rw [erased,noted.known]
      constructor
      · rintro ⟨apart,s,isOpen,rfl⟩
        exact ⟨s,(open_dropSession n s st).mpr ⟨fun same => apart (same ▸ rfl),isOpen⟩,rfl⟩
      · rintro ⟨s,now,rfl⟩
        obtain ⟨apart,isOpen⟩ := (open_dropSession n s st).mp now
        exact ⟨sessionKey_injective.ne apart,s,isOpen,rfl⟩
    · intro s now
      obtain ⟨apart,isOpen⟩ := (open_dropSession n s st).mp now
      rw [info_dropSession,if_neg (sessionKey_injective.ne apart)]
      exact noted.named s isOpen

theorem AtRest.mem_unread (atRest : AtRest os st) {s : Int} {k : CFString} :
    k ∈ (board os st).unread s ↔ k ∈ st.changesOf (sessionKey s) := by
  simp [board,atRest.settled.changed]

theorem AtRest.mem_due (atRest : AtRest os st) {s : Int} :
    s ∈ (board os st).due ↔ s ∈ st.needsNotification := by
  simp [board,atRest.settled.changed]

theorem AtRest.mem_sessionKeys (atRest : AtRest os st) {s : Int} {k : CFString} :
    k ∈ st.sessionKeysOf (sessionKey s) ↔ (st.entry k).session = some (sessionKey s) := by
  constructor
  · intro member
    exact (atRest.consistent.owned.listed s k member).resolve_right (atRest.unrecorded s k)
  · intro mine
    obtain ⟨_,_,_,_,member⟩ := atRest.consistent.owned.owner k _ mine
    exact member

theorem getSession_isSome (registry : Registry os st) (isOpen : Open st n) : (st.getSession n).isSome := by
  obtain ⟨x,member,rfl⟩ := isOpen
  rw [State.getSession,if_neg (registry.table.nonzero x member),List.find?_isSome]
  exact ⟨x,member,by simp⟩

def silenceSession (n : Int) (st : State Regex) : State Regex :=
  dynamicStoreNotifyCancel n (removeAllKeys n true (removeAllKeys n false st))

structure Silenced (os : Platform Regex) (n : Int) (st st' : State Regex) : Prop where
  atRest : AtRest os st'
  opened : ∀ s, Open st' s ↔ Open st s
  data : ∀ k, (st'.entry k).data = (st.entry k).data
  session : ∀ k, (st'.entry k).session = (st.entry k).session
  sessionData : st'.sessionData = st.sessionData
  needs : st'.needsNotification = st.needsNotification.erase n
  keys : ∀ s, st'.watchedKeys s = if s = n then [] else st.watchedKeys s
  patterns : ∀ s, st'.watchedPatterns s = if s = n then [] else st.watchedPatterns s

theorem silenceSession_spec (atRest : AtRest os st) (isOpen : Open st n) :
    Silenced os n st (silenceSession n st) := by
  obtain ⟨first,withoutKeys⟩ := removeAllKeys_spec false atRest.consistent.registry isOpen
  have still := (first.2.opened n).mpr isOpen
  obtain ⟨second,withoutPatterns⟩ := removeAllKeys_spec true first.1 still
  have both := first.trans second
  obtain ⟨quiet,keys,patterns,opened⟩ :=
    notifyCancel_spec (both.atRest atRest) ((both.2.opened n).mpr isOpen)
  refine ⟨quiet,?_,both.2.data,both.2.session,both.2.sessionData,?_,?_,?_⟩
  · intro s
    rw [silenceSession,opened,both.2.opened]
  · exact congrArg (List.erase · n) both.2.needsNotification
  · intro s
    have before := withoutPatterns s false
    rw [withoutKeys] at before
    rw [silenceSession,keys]
    simpa [StorePrivate.registered,State.watchedKeys] using before
  · intro s
    have before := withoutPatterns s true
    rw [withoutKeys] at before
    rw [silenceSession,patterns]
    simpa [StorePrivate.registered,State.watchedPatterns] using before

private theorem watching_without (keys : ∀ s, st'.watchedKeys s = if s = n then [] else st.watchedKeys s)
    (patterns : ∀ s, st'.watchedPatterns s = if s = n then [] else st.watchedPatterns s) (s : Int)
    (k : CFString) : Watching os st' s k ↔ s ≠ n ∧ Watching os st s k := by
  by_cases here : s = n
  · simp [Watching,keys,patterns,here]
  · simp [Watching,keys,patterns,here]

theorem Silenced.watching (silenced : Silenced os n st st') (s : Int) (k : CFString) :
    Watching os st' s k ↔ s ≠ n ∧ Watching os st s k :=
  watching_without silenced.keys silenced.patterns s k

structure Closed (os : Platform Regex) (n : Int) (st st' : State Regex) : Prop where
  atRest : AtRest os st'
  opened : ∀ s, Open st' s ↔ s ≠ n ∧ Open st s
  data : ∀ k, (st'.entry k).data =
    if (st.entry k).session = some (sessionKey n) then none else (st.entry k).data
  session : ∀ k, (st'.entry k).session =
    if (st.entry k).session = some (sessionKey n) then none else (st.entry k).session
  watching : ∀ s k, Watching os st' s k ↔ s ≠ n ∧ Watching os st s k
  changes : ∀ s k, k ∈ st'.changesOf (sessionKey s) ↔ s ≠ n ∧ (k ∈ st.changesOf (sessionKey s) ∨
    (st.entry k).session = some (sessionKey n) ∧ Watching os st s k)
  needs : ∀ s, s ∈ st'.needsNotification ↔ s ≠ n ∧ (s ∈ st.needsNotification ∨
    ∃ k, (st.entry k).session = some (sessionKey n) ∧ Watching os st s k)

theorem cleanupSession_of_closed (closed : ¬ Open st n) : cleanupSession os n st = st := by
  have absent : st.live.find? (fun x => x.server = n) = none := by
    apply List.find?_eq_none.mpr
    intro x member
    simpa using fun same => closed ⟨x,member,same⟩
  simp [cleanupSession,absent]

def closeKeys (os : Platform Regex) (n : Int) (st : State Regex) : State Regex :=
  let removed := (st.sessionKeysOf (sessionKey n)).foldl (removeSessionKey os (sessionKey n)) (false,st)
  if removed.1 then dynamicStorePush os removed.2 else removed.2

theorem cleanupSession_eq (isOpen : Open st n)
    (found : ((closeKeys os n (silenceSession n st)).getSession n).isSome) :
    cleanupSession os n st = dropSession n (closeKeys os n (silenceSession n st)) := by
  have listed : (st.live.find? fun x => x.server = n).isSome := by
    obtain ⟨x,member,rfl⟩ := isOpen
    exact List.find?_isSome.mpr ⟨x,member,by simp⟩
  have closing : dynamicStoreClose os n st = closeKeys os n (silenceSession n st) := by
    unfold dynamicStoreClose
    simp only
    split
    · rename_i missing
      exact absurd found (Option.not_isSome_iff_eq_none.mpr missing)
    · rfl
  obtain ⟨x,listed⟩ := Option.isSome_iff_exists.mp listed
  simp only [cleanupSession,listed,closing,dropSession]

structure Vacated (os : Platform Regex) (n : Int) (st st' : State Regex) : Prop where
  atRest : AtRest os st'
  opened : Open st' = Open st
  keys : ∀ s, st'.watchedKeys s = if s = n then [] else st.watchedKeys s
  patterns : ∀ s, st'.watchedPatterns s = if s = n then [] else st.watchedPatterns s
  data : ∀ k, (st'.entry k).data =
    if (st.entry k).session = some (sessionKey n) then none else (st.entry k).data
  session : ∀ k, (st'.entry k).session =
    if (st.entry k).session = some (sessionKey n) then none else (st.entry k).session
  changes : ∀ s k, k ∈ st'.changesOf (sessionKey s) ↔ k ∈ st.changesOf (sessionKey s) ∨
    (st.entry k).session = some (sessionKey n) ∧ s ≠ n ∧ Watching os st s k
  needs : ∀ s, s ∈ st'.needsNotification ↔ s ≠ n ∧ (s ∈ st.needsNotification ∨
    ∃ k, (st.entry k).session = some (sessionKey n) ∧ Watching os st s k)

theorem closeKeys_vacated (atRest : AtRest os st) (isOpen : Open st n) :
    Vacated os n st (closeKeys os n (silenceSession n st)) := by
  have silenced := silenceSession_spec atRest isOpen
  have resting := silenced.atRest
  have performed : Performed os (silenceSession n st) _ (closeKeys os n (silenceSession n st)) :=
    closeKeys_performed resting (sessionKey n) ((silenceSession n st).sessionKeysOf (sessionKey n))
  obtain ⟨told,gone⟩ := NoticeBoard.foldl_withdraw (b := board os (silenceSession n st))
    ((silenceSession n st).sessionKeysOf (sessionKey n))
    fun k mine => (resting.consistent.owned.owner k (sessionKey n) mine).1
  rw [← performed.board] at told gone
  have mine : {k | k ∈ (silenceSession n st).sessionKeysOf (sessionKey n) ∧
      (board os (silenceSession n st)).owner k = some (sessionKey n)} =
        {k | (st.entry k).session = some (sessionKey n)} := by
    ext k
    change _ ∧ ((silenceSession n st).entry k).session = some (sessionKey n) ↔ _
    rw [resting.mem_sessionKeys,silenced.session,and_self]
    rfl
  rw [mine] at told
  have derefs := deref_of_sessions performed.sessions
  refine ⟨performed.atRest,?_,?_,?_,?_,?_,?_,?_⟩
  · funext s
    rw [open_of_eq performed.sessions]
    exact propext (silenced.opened s)
  · intro s
    rw [State.watchedKeys,derefs]
    exact silenced.keys s
  · intro s
    rw [State.watchedPatterns,derefs]
    exact silenced.patterns s
  · intro k
    split
    · rename_i own
      rw [← silenced.session] at own
      exact (gone k (resting.mem_sessionKeys.mpr own) own).1
    · rename_i other
      exact (told.value k other).trans (silenced.data k)
  · intro k
    split
    · rename_i own
      rw [← silenced.session] at own
      exact (gone k (resting.mem_sessionKeys.mpr own) own).2
    · rename_i other
      exact (told.owner k other).trans (silenced.session k)
  · intro s k
    have same : (silenceSession n st).changesOf (sessionKey s) = st.changesOf (sessionKey s) := by
      rw [State.changesOf,State.info,silenced.sessionData,State.changesOf,State.info]
    rw [← performed.atRest.mem_unread,told.unread,resting.mem_unread,same,← silenced.watching]
    rfl
  · intro s
    rw [← performed.atRest.mem_due,told.due,resting.mem_due,silenced.needs,
      atRest.consistent.noted.distinctNeeds.mem_erase_iff]
    constructor
    · rintro (⟨apart,old⟩ | ⟨k,own,watched⟩)
      · exact ⟨apart,.inl old⟩
      · obtain ⟨apart,watched⟩ := (silenced.watching s k).mp watched
        exact ⟨apart,.inr ⟨k,own,watched⟩⟩
    · rintro ⟨apart,old | ⟨k,own,watched⟩⟩
      · exact .inl ⟨apart,old⟩
      · exact .inr ⟨k,own,(silenced.watching s k).mpr ⟨apart,watched⟩⟩

theorem Vacated.idle (vacated : Vacated os n st st') : Idle n st' := by
  refine ⟨?_,?_,?_,fun member => ((vacated.needs n).mp member).1 rfl⟩
  · rw [vacated.keys,if_pos rfl]
  · rw [vacated.patterns,if_pos rfl]
  · intro k
    rw [vacated.session]
    split
    · simp
    · assumption

theorem cleanupSession_spec (atRest : AtRest os st) (isOpen : Open st n) :
    Closed os n st (cleanupSession os n st) := by
  have vacated := closeKeys_vacated atRest isOpen
  have registry := vacated.atRest.consistent.registry
  have still : Open (closeKeys os n (silenceSession n st)) n := by
    rw [vacated.opened]
    exact isOpen
  rw [cleanupSession_eq isOpen (getSession_isSome registry still)]
  generalize closeKeys os n (silenceSession n st) = after at vacated registry
  obtain ⟨keys,patterns⟩ := watched_dropSession registry.table vacated.idle
  refine ⟨dropSession_atRest vacated.atRest vacated.idle,?_,vacated.data,vacated.session,?_,?_,vacated.needs⟩
  · intro s
    rw [open_dropSession,vacated.opened]
  · intro s k
    rw [watching_of_views keys patterns]
    exact watching_without vacated.keys vacated.patterns s k
  · intro s k
    rw [State.changesOf,info_dropSession]
    by_cases here : s = n
    · simp [here]
    · rw [if_neg (sessionKey_injective.ne here)]
      refine (vacated.changes s k).trans ?_
      simp [here]

end FreebsdLaunchd.DynamicStore
