import FreebsdLaunchd.DynamicStore.Ownership

/-! Notifying a key writes its value again, as its session would write any value. It
changes nothing else exactly if that write is neither refused nor takes the key from
another session. -/
namespace FreebsdLaunchd.DynamicStore
open State CData

variable {Regex : Type} {os : Platform Regex} {st : State Regex} {pardoned : CFString → Prop}

/-! ## The lists of the sessions' keys, in their order -/

private theorem foldl_cleanup_lists (l : List CFString)
    (records : ∀ r ∈ l, ∃ n k, r = removedSessionKey (sessionKey n) k) (st : State Regex)
    (distinct : ∀ z, (st.sessionKeysOf z).Nodup) (s : Int) :
    (l.foldl cleanupRemovedSessionKeys st).sessionKeysOf (sessionKey s) =
      (st.sessionKeysOf (sessionKey s)).filter fun k => removedSessionKey (sessionKey s) k ∉ l := by
  induction l generalizing st with
  | nil => simp
  | cons r rest ih =>
    obtain ⟨n,key,rfl⟩ := records r List.mem_cons_self
    have lists (z : CFString) := sessionKeysOf_dropSessionKey (sessionKey n) key z st
    have distinct' (z : CFString) : ((dropSessionKey (sessionKey n) key st).sessionKeysOf z).Nodup := by
      rw [lists]
      split
      · exact (distinct z).erase key
      · exact distinct z
    rw [List.foldl_cons,cleanup_eq,ih (fun r member => records r (List.mem_cons_of_mem _ member)) _ distinct',lists]
    by_cases here : s = n
    · subst here
      have record (k : CFString) : removedSessionKey (sessionKey s) k = removedSessionKey (sessionKey s) key ↔ k = key :=
        ⟨fun same => (removedSessionKey_injective same).2,fun same => by rw [same]⟩
      rw [if_pos rfl,(distinct _).erase_eq_filter,List.filter_filter]
      refine List.filter_congr fun k _ => ?_
      simp only [List.mem_cons,record]
      by_cases same : k = key <;> simp [same]
    · have apart (k : CFString) : removedSessionKey (sessionKey s) k ≠ removedSessionKey (sessionKey n) key :=
        fun same => here (removedSessionKey_injective same).1
      rw [if_neg fun same => here (sessionKey_injective same)]
      refine List.filter_congr fun k _ => ?_
      simp [apart k]

private theorem push_lists (consistent : Consistent os pardoned st) (s : Int) :
    (dynamicStorePush os st).sessionKeysOf (sessionKey s) =
      (st.sessionKeysOf (sessionKey s)).filter fun k => removedSessionKey (sessionKey s) k ∉ st.removedSessionKeys := by
  have telling := sameButNotices_tellAll (notices os st) st
  have noticed : notifyWatchers os st = { tellAll (notices os st) st with changedKeys := [] } := notifyWatchers_eq st
  have sweeping : SameValues (notifyWatchers os st) ((os.order _ (notifyWatchers os st).deferredRemovals).reverse.foldl
      (fun st key => patternRemoveKey os key st) (notifyWatchers os st)) :=
    .foldl (fun st key => sameValues_patternRemoveKey os key st) _ _
  have removed : (processDeferredRemovals os (notifyWatchers os st)).removedSessionKeys = st.removedSessionKeys := by
    refine sweeping.removedSessionKeys.trans ?_
    rw [noticed]
    exact telling.removedSessionKeys
  have lists (z : CFString) : (processDeferredRemovals os (notifyWatchers os st)).sessionKeysOf z = st.sessionKeysOf z := by
    have info : (processDeferredRemovals os (notifyWatchers os st)).sessionData = (notifyWatchers os st).sessionData :=
      sweeping.sessionData
    rw [State.sessionKeysOf,State.info,info,noticed]
    exact telling.sessionKeys z
  have records (r : CFString) : r ∈ os.order _ (processDeferredRemovals os (notifyWatchers os st)).removedSessionKeys ↔
      r ∈ st.removedSessionKeys := by
    rw [(os.order_perm _ _).mem_iff,removed]
  have cleaned := foldl_cleanup_lists (os.order _ (processDeferredRemovals os (notifyWatchers os st)).removedSessionKeys)
    (fun r member => consistent.owned.records r ((records r).mp member)) (processDeferredRemovals os (notifyWatchers os st))
    (fun z => lists z ▸ consistent.owned.distinct z) s
  refine cleaned.trans ?_
  rw [lists]
  exact List.filter_congr fun k _ => by simp only [records]

variable {store : StorePrivate} {key : CFString}

variable (os) in
private theorem saveEntry_lists (key : CFString) (newDict : Entry) (newEntry : Bool) (st : State Regex) :
    (saveEntry os key newDict newEntry st).sessionData = st.sessionData ∧
      (saveEntry os key newDict newEntry st).removedSessionKeys = st.removedSessionKeys := by
  have cached := sameValues_patternAddKey os key { st with storeData := st.storeData.insert key newDict }
  unfold saveEntry
  cases newEntry with
  | false => exact ⟨rfl,rfl⟩
  | true =>
    simp only [if_true]
    split
    · exact ⟨rfl,rfl⟩
    · exact ⟨cached.sessionData,cached.removedSessionKeys⟩

variable (os) in
/-- A write of the value that a key has leaves the lists alone, if it does not take the
key from another session. -/
theorem setValue_lists (value : CFData) {v : CFData} (data : (st.entry key).data = some v)
    (kept : (st.entry key).session = some (sessionKey store.server) ∨ store.useSessionKeys = true ∨
      (st.entry key).session = none) :
    (dynamicStoreSetValue os store key value true st).2.sessionData = st.sessionData ∧
      (dynamicStoreSetValue os store key value true st).2.removedSessionKeys = st.removedSessionKeys := by
  have entry : (st.storeData.lookup key).getD {} = st.entry key := rfl
  have old : (st.entry key).data.isNone = false := by simp [data]
  cases temporary : store.useSessionKeys with
  | true =>
    simp only [dynamicStoreSetValue,temporary,entry,old,if_true]
    split
    · contradiction
    · split
      · exact ⟨rfl,rfl⟩
      · exact saveEntry_lists os ..
  | false =>
    simp only [dynamicStoreSetValue,temporary,entry,old,if_true]
    rw [if_neg Bool.false_ne_true]
    cases owner : (st.entry key).session with
    | none => exact saveEntry_lists os ..
    | some other =>
      have mine : other = sessionKey store.server := by simpa [owner,temporary] using kept
      simp only [mine]
      rw [if_neg (by simp)]
      exact saveEntry_lists os ..

variable (os store) in
/-- A first value is listed, if it is temporary. -/
theorem setValue_new_lists (value : CFData) (data : (st.entry key).data = none)
    (unowned : (st.entry key).session = none) :
    (dynamicStoreSetValue os store key value true st).2.sessionData = (if store.useSessionKeys then
        addSessionKey (sessionKey store.server) key st else st).sessionData ∧
      (dynamicStoreSetValue os store key value true st).2.removedSessionKeys = st.removedSessionKeys := by
  have entry : (st.storeData.lookup key).getD {} = st.entry key := rfl
  have new : (st.entry key).data.isNone = true := by simp [data]
  cases temporary : store.useSessionKeys with
  | true =>
    simp only [dynamicStoreSetValue,temporary,entry,new,if_true]
    obtain ⟨sessionData,removed⟩ := saveEntry_lists os key { st.entry key with
      data := some value
      session := some (sessionKey store.server) } true (addSessionKey (sessionKey store.server) key st)
    exact ⟨sessionData,removed.trans (sameQueue_addSessionKey ..).2.2.2.2.2⟩
  | false =>
    simp only [dynamicStoreSetValue,temporary,entry,unowned,if_true]
    rw [if_neg Bool.false_ne_true,if_neg Bool.false_ne_true]
    exact saveEntry_lists os ..

private theorem listed_of_sessionData {st' : State Regex} (same : st'.sessionData = st.sessionData) (z : CFString) :
    st'.sessionKeysOf z = st.sessionKeysOf z := by
  rw [State.sessionKeysOf,State.info,same,State.sessionKeysOf,State.info]

/-- The temporary value that stands in for a missing one leaves the lists as it leaves. -/
theorem notify_new_lists (atRest : AtRest os st) (mine : store.useSessionKeys = true → Open st store.server)
    (data : (st.entry key).data = none) (s : Int) :
    (dynamicStoreNotifyValue os store key false st).2.sessionKeysOf (sessionKey s) = st.sessionKeysOf (sessionKey s) := by
  have unowned := atRest.consistent.unowned data
  have absent (n : Int) : key ∉ st.sessionKeysOf (sessionKey n) := fun member => by
    rw [atRest.mem_sessionKeys,unowned] at member
    cases member
  obtain ⟨up,posted,_⟩ := setValue_spec atRest.consistent store mine key os.serializedTrue
  obtain ⟨sessionData,removed⟩ := setValue_new_lists os store os.serializedTrue data unowned
  rw [notifyValue_push]
  simp only [dynamicStoreNotifyValue,copyValue_eq,data,if_true]
  generalize (dynamicStoreSetValue os store key os.serializedTrue true st).2 = st₁ at up posted sessionData removed
  have value : (st₁.entry key).data.isSome ∧ (st₁.entry key).session =
      if store.useSessionKeys then some (sessionKey store.server) else none := by
    have value := congrArg (fun b => b.value key) posted
    have owner := congrArg (fun b => b.owner key) posted
    cases temporary : store.useSessionKeys with
    | true =>
      simp only [NoticeBoard.put,NoticeBoard.post,board,temporary,data,if_true,Option.isNone_none,true_or,
        Function.update_self] at value owner
      exact ⟨by rw [value]; rfl,owner⟩
    | false =>
      simp only [NoticeBoard.put,NoticeBoard.post,board,temporary,unowned,Bool.false_eq_true,if_false,
        Function.update_self,reduceCtorEq] at value owner
      exact ⟨by rw [value]; rfl,owner⟩
  have consistent := (removeValue_spec up.consistent key).1.consistent
  rw [removeValue_of_some value.1] at consistent ⊢
  have sameLists : (discardEntry key st₁).sessionData = st₁.sessionData := rfl
  rw [if_pos rfl] at consistent
  simp only [if_true]
  rw [push_lists consistent,listed_of_sessionData sameLists]
  have record (k : CFString) : removedSessionKey (sessionKey s) k ∈ (discardEntry key st₁).removedSessionKeys ↔
      store.useSessionKeys = true ∧ s = store.server ∧ k = key := by
    rw [mem_removed_discardEntry,removed,atRest.settled.removed,value.2]
    cases store.useSessionKeys with
    | false => simp
    | true =>
      simp only [if_true,Option.some.injEq,exists_eq_left',List.not_mem_nil,or_false,true_and]
      exact ⟨fun same => removedSessionKey_injective same,fun both => by rw [both.1,both.2]⟩
  simp only [record]
  cases temporary : store.useSessionKeys with
  | false =>
    rw [temporary] at sessionData
    rw [listed_of_sessionData sessionData]
    simp
  | true =>
    rw [temporary] at sessionData
    rw [listed_of_sessionData sessionData,if_pos rfl,(addSessionKey_info ..).1]
    by_cases here : s = store.server
    · subst here
      rw [if_pos ⟨rfl,absent _⟩,List.filter_append]
      have kept : (st.sessionKeysOf (sessionKey store.server)).filter (fun k => ¬ (True ∧ True ∧ k = key)) =
          st.sessionKeysOf (sessionKey store.server) :=
        List.filter_eq_self.mpr fun k member => by simpa using fun same => absent _ (same ▸ member)
      simpa using kept
    · rw [if_neg fun both => here (sessionKey_injective both.1)]
      simp [here]

private theorem notify_lists (atRest : AtRest os st) (mine : store.useSessionKeys = true → Open st store.server)
    (kept : (st.entry key).data = none ∨ (st.entry key).session = some (sessionKey store.server) ∨
      store.useSessionKeys = true ∨ (st.entry key).session = none) (s : Int) :
    (dynamicStoreNotifyValue os store key false st).2.sessionKeysOf (sessionKey s) = st.sessionKeysOf (sessionKey s) := by
  cases data : (st.entry key).data with
  | none => exact notify_new_lists atRest mine data s
  | some v =>
    obtain ⟨sessionData,removed⟩ := setValue_lists os v data (kept.resolve_left (by simp [data]))
    have consistent := (setValue_spec atRest.consistent store mine key v).change.consistent
    rw [notifyValue_push]
    simp only [dynamicStoreNotifyValue,copyValue_eq,data,if_true]
    rw [push_lists consistent,listed_of_sessionData sessionData,removed,atRest.settled.removed]
    simp

/-! ## Nothing but notices -/

/-- Every key, value, owner and list is as before, and who watches `key` has it among its
changes. -/
structure OnlyNotifies (os : Platform Regex) (key : CFString) (st st' : State Regex) : Prop where
  values : ∀ k, copyValue k st' = copyValue k st
  owners : ∀ k, (st'.entry k).session = (st.entry k).session
  lists : ∀ s, st'.sessionKeysOf (sessionKey s) = st.sessionKeysOf (sessionKey s)
  told : ∀ s, Watching os st s key → key ∈ st'.changesOf (sessionKey s)

/-- The write would neither be refused nor take the key from another session; where it
is refused, everybody who would be told has been already. -/
def Tickles (os : Platform Regex) (store : StorePrivate) (key : CFString) (st : State Regex) : Prop :=
  (st.entry key).data = none ∨ (st.entry key).session = some (sessionKey store.server) ∨
    if store.useSessionKeys then ∀ s, Watching os st s key → key ∈ st.changesOf (sessionKey s)
    else (st.entry key).session = none

private theorem tickles_refused (tickles : Tickles os store key st)
    (refused : NoticeBoard.Refused (sessionKey store.server) store.useSessionKeys (board os st) key) {s : Int}
    (watching : Watching os st s key) : key ∈ st.changesOf (sessionKey s) := by
  obtain ⟨temporary,value,apart⟩ := refused
  rcases tickles with absent | own | told
  · simp [board,absent] at value
  · exact absurd own apart
  · rw [if_pos temporary] at told
    exact told s watching

/-- What is written again is what was there. -/
theorem touch_same (atRest : AtRest os st) (kept : (st.entry key).data = none ∨
      (st.entry key).session = some (sessionKey store.server) ∨ store.useSessionKeys = true ∨
      (st.entry key).session = none) (blank : CFData) (k : CFString) :
    ((board os st).touch (sessionKey store.server) store.useSessionKeys blank key).value k = (st.entry k).data ∧
      ((board os st).touch (sessionKey store.server) store.useSessionKeys blank key).owner k =
        (st.entry k).session := by
  -- posting what a key has already
  have again {v : Option CFData} {o : Option CFString} (value : v = (st.entry key).data)
      (owner : o = (st.entry key).session) : ((board os st).post key v o).value k = (st.entry k).data ∧
        ((board os st).post key v o).owner k = (st.entry k).session := by
    subst value owner
    by_cases here : k = key
    · subst here
      simp [NoticeBoard.post]
    · simp [here,board]
  cases data : (st.entry key).data with
  | none =>
    rw [NoticeBoard.touch_of_absent data]
    exact again data.symm (atRest.consistent.unowned data).symm
  | some v =>
    have value : (board os st).value key = some v := data
    have owner : (board os st).owner key = (st.entry key).session := rfl
    have kept := kept.resolve_left (by simp [data])
    simp only [NoticeBoard.touch,value,NoticeBoard.put]
    split
    · split
      · next mine =>
        exact again data.symm (mine.resolve_left (by simp)).symm
      · exact ⟨rfl,rfl⟩
    · next permanent =>
      rw [owner]
      split
      · next mine => exact again data.symm mine.symm
      · next other => exact again data.symm ((kept.resolve_left other).resolve_left permanent).symm

/-- A notified key loses its owner where that is another session than the one that
notifies, whose keys are not temporary. -/
theorem touch_taken (permanent : store.useSessionKeys = false) {v : CFData} (data : (st.entry key).data = some v)
    (apart : (st.entry key).session ≠ some (sessionKey store.server)) (blank : CFData) :
    ((board os st).touch (sessionKey store.server) store.useSessionKeys blank key).owner key = none := by
  have value : (board os st).value key = some v := data
  have owner : (board os st).owner key ≠ some (sessionKey store.server) := apart
  simp [NoticeBoard.touch,value,NoticeBoard.put,permanent,owner,NoticeBoard.post]

/-- Notifying always returns OK, and changes nothing but notices exactly where writing
the value again would change nothing else and be granted. -/
theorem notify_only_notifies_iff (reachable : Reachable os st) {server : Int}
    (found : sessionFor os server st = some store) (key : CFString) :
    (dynamicStoreNotifyValue os store key false st).1 = .ok ∧
      (OnlyNotifies os key st (dynamicStoreNotifyValue os store key false st).2 ↔ Tickles os store key st) := by
  have atRest := reachable.atRest
  have mine := sessionFor_open found
  have performed := notifyValue_performed atRest mine key
  have tells : NoticeBoard.Tells
      {k | k = key ∧ ¬ NoticeBoard.Refused (sessionKey store.server) store.useSessionKeys (board os st) k}
      (board os st) _ := NoticeBoard.tells_touch os.serializedTrue (board os st) key
  rw [← performed.board] at tells
  have told (s : Int) := tells.unread s key
  simp only [performed.atRest.mem_unread,atRest.mem_unread] at told
  refine ⟨rfl,?_,?_⟩
  · intro only
    by_contra fails
    obtain ⟨some,apart,rest⟩ : (st.entry key).data ≠ none ∧
        (st.entry key).session ≠ some (sessionKey store.server) ∧ ¬ _ := by
      simpa only [Tickles,not_or] using fails
    obtain ⟨v,data⟩ := Option.ne_none_iff_exists'.mp some
    split at rest
    · next temporary =>
      refine rest fun s watching => ?_
      have refused : NoticeBoard.Refused (sessionKey store.server) store.useSessionKeys (board os st) key :=
        ⟨temporary,by simp [board,data],apart⟩
      refine ((told s).mp (only.told s watching)).resolve_right ?_
      rintro ⟨⟨_,granted⟩,_⟩
      exact granted refused
    · next permanent =>
      have owner := congrArg (fun b => b.owner key) performed.board
      rw [touch_taken (by simpa using permanent) data apart] at owner
      exact rest ((only.owners key).symm.trans owner)
  · intro tickles
    have kept : (st.entry key).data = none ∨ (st.entry key).session = some (sessionKey store.server) ∨
        store.useSessionKeys = true ∨ (st.entry key).session = none := by
      rcases tickles with absent | own | rest
      · exact .inl absent
      · exact .inr (.inl own)
      · split at rest
        · next temporary => exact .inr (.inr (.inl temporary))
        · exact .inr (.inr (.inr rest))
    have same := touch_same atRest kept os.serializedTrue
    rw [← performed.board] at same
    refine ⟨fun k => ?_,fun k => (same k).2,notify_lists atRest mine kept,fun s watching => (told s).mpr ?_⟩
    · rw [copyValue_eq,copyValue_eq]
      exact (same k).1
    · by_cases refused : NoticeBoard.Refused (sessionKey store.server) store.useSessionKeys (board os st) key
      · exact .inl (tickles_refused tickles refused watching)
      · exact .inr ⟨⟨rfl,refused⟩,watching⟩

private theorem ownKey_reachable : Reachable literal (Runs.run (step literal) {} ownKey) :=
  ⟨ownKey,⟨⟨by decide,by decide⟩,⟨by decide,by decide⟩,trivial,trivial⟩,rfl⟩

theorem own_key_only_notifies : OnlyNotifies literal aKey (Runs.run (step literal) {} ownKey)
    (dynamicStoreNotifyValue literal { server := 5 } aKey false (Runs.run (step literal) {} ownKey)).2 := by
  have found : sessionFor literal 5 (Runs.run (step literal) {} ownKey) = some { server := 5 } := by decide
  exact (notify_only_notifies_iff ownKey_reachable found aKey).2.mpr (.inr (.inl (by decide)))

/-- Session 6 notifies the temporary key of session 5, which is permanent then. -/
theorem notify_takes_key : ¬ ∀ (st : State CString) (server : Int) (store : StorePrivate) (key : CFString),
    Reachable literal st → sessionFor literal server st = some store →
      (dynamicStoreNotifyValue literal store key false st).1 = .ok →
      OnlyNotifies literal key st (dynamicStoreNotifyValue literal store key false st).2 := by
  intro always
  have only := always (Runs.run (step literal) {} ownKey) 6 { server := 6 } aKey ownKey_reachable (by decide) rfl
  exact absurd (only.owners aKey) (by decide)

end FreebsdLaunchd.DynamicStore
