import FreebsdLaunchd.DynamicStoreClient.Linked

/-! Every call of a client keeps its record sound, and registered if it was. -/
namespace FreebsdLaunchd.DynamicStoreClient
open DynamicStore State

variable {Regex : Type} {os : Platform Regex} {w w' : World Regex} {st st' : State Regex} {client client' : Client}
variable {n newServer port : Int} {key : CFString} {isRegex : Bool}

/-! ## The record -/

/-- Either notifications are not asked for, or there is a queue and a port for them. -/
inductive Scheduled (client : Client) : Prop
  | idle (status : client.notifyStatus = .notRegistered) (queue : client.dispatchQueue = none)
      (source : client.dispatchSource = none)
  | receiving (queue port : Int) (status : client.notifyStatus = .informViaDispatch)
      (queued : client.dispatchQueue = some queue) (source : client.dispatchSource = some port) (nonzero : port ≠ 0)

structure Sound (os : Platform Regex) (w : World Regex) : Prop where
  distinct : ∀ isRegex, (w.client.recorded isRegex).Nodup
  compile : ∀ p ∈ w.client.recorded true, Compiles os p = true
  scheduled : Scheduled w.client
  inBounds : w.outOfBounds = false
  linked : Linked os w

/-- What a call has to keep: a sound world, and a record that is registered. -/
structure Kept (os : Platform Regex) (w w' : World Regex) : Prop where
  sound : Sound os w'
  restored : Restored w → Restored w'
  unused : ∀ newServer, Unused newServer w → Unused newServer w'

theorem Sound.kept (sound : Sound os w) : Kept os w w := ⟨sound,id,fun _ => id⟩

theorem Kept.trans {a b c : World Regex} (first : Kept os a b) (second : Kept os b c) : Kept os a c :=
  ⟨second.sound,second.restored ∘ first.restored,fun s => second.unused s ∘ first.unused s⟩

theorem Sound.keptLost (sound : Sound os w) (unrestored : ¬ Restored w) : Kept os w w.lost where
  sound := {
    distinct := sound.distinct
    compile := sound.compile
    scheduled := by
      rcases sound.scheduled with ⟨status,queue,source⟩ | ⟨queue,port,status,queued,source,nonzero⟩
      · exact .idle status queue source
      · exact .receiving queue port status queued source nonzero
    inBounds := sound.inBounds
    linked := lost_linked sound.linked }
  restored restored := absurd restored unrestored
  unused newServer _ := lost_unused newServer w

/-- A call that has reached session `n` and left the client's record sound. -/
theorem Sound.keptJoined (sound : Sound os w) (distinct : ∀ isRegex, (client.recorded isRegex).Nodup)
    (compile : ∀ p ∈ client.recorded true, Compiles os p = true) (scheduled : Scheduled client)
    (serving : Serving os client n st) (complete : Restored w → Complete client n st) :
    Kept os w (w.joined n st client) where
  sound := {
    distinct := distinct
    compile := compile
    scheduled := by
      rcases scheduled with ⟨status,queue,source⟩ | ⟨queue,port,status,queued,source,nonzero⟩
      · exact .idle status queue source
      · exact .receiving queue port status queued source nonzero
    inBounds := sound.inBounds
    linked := joined_linked serving }
  restored restored := joined_restored (complete restored)
  unused newServer _ := joined_unused newServer

/-- Requests that leave the session's registrations as they are. -/
theorem Reached.moved (reached : Reached os w n st) (moved : Moved os n (st.registered n) st st') :
    Serving os w.client n st' ∧ (Restored w → Complete w.client n st') := by
  have status : (st'.deref n).notifyStatus = (st.deref n).notifyStatus := congrArg Prod.fst moved.told
  refine ⟨⟨moved.serves,?_,?_⟩,fun restored => ⟨?_,?_⟩⟩
  · intro isRegex k member
    rw [moved.registered] at member
    exact reached.serving.watched isRegex k member
  · intro p source
    rw [status,moved.told]
    exact reached.serving.told p source
  · intro isRegex k member
    rw [moved.registered]
    exact (reached.complete restored).watched isRegex k member
  · intro p source
    rw [moved.told]
    exact (reached.complete restored).told p source

theorem exchange_kept {α : Type} (sound : Sound os w) (unused : Unused newServer w)
    {request : Int → State Regex → α × State Regex}
    (moves : ∀ n st, Serves os n st → Moved os n (st.registered n) st (request n st).2) :
    Kept os w (exchange os newServer request w).2 := by
  rcases exchange_cases sound.linked unused request with ⟨error,_,lost,unrestored⟩ | ⟨n,st,_,reached,joined⟩
  · rw [lost]
    exact sound.keptLost unrestored
  · rw [joined]
    obtain ⟨serving,complete⟩ := reached.moved (moves n st reached.serving.serves)
    exact sound.keptJoined sound.distinct sound.compile sound.scheduled serving complete

/-- A request that is answered with a status, and what comes of each answer. -/
theorem exchangeStatus_cases (linked : Linked os w) (unused : Unused newServer w)
    (request : Int → State Regex → Status × State Regex) :
    (∃ error, session os newServer w = .error error ∧
        exchangeStatus os newServer request w = (.error error,w.lost) ∧ ¬ Restored w) ∨
      ∃ n st, session os newServer w = .ok (n,st) ∧ Reached os w n st ∧
        (∀ after, request n st = (.ok,after) →
          exchangeStatus os newServer request w = (.ok (),w.joined n after w.client)) ∧
        ((request n st).1 ≠ .ok → ∃ error,
          exchangeStatus os newServer request w = (.error error,w.joined n (request n st).2 w.client)) := by
  rcases exchange_cases linked unused request with ⟨error,failed,lost,unrestored⟩ | ⟨n,st,found,reached,joined⟩
  · exact .inl ⟨error,failed,by simp only [exchangeStatus,lost],unrestored⟩
  · refine .inr ⟨n,st,found,reached,?_,?_⟩
    · intro after ok
      simp only [exchangeStatus,joined,ok,if_true]
    · intro failed
      exact ⟨.status (request n st).1,by simp only [exchangeStatus,joined,if_neg failed]⟩

/-! ## Keys and patterns -/

structure Rerecorded (isRegex : Bool) (mine : List CFString) (client client' : Client) : Prop where
  recorded : ∀ kind, client'.recorded kind = changed isRegex mine client.recorded kind
  status : client'.notifyStatus = client.notifyStatus
  queue : client'.dispatchQueue = client.dispatchQueue
  source : client'.dispatchSource = client.dispatchSource

theorem Rerecorded.scheduled {mine : List CFString} (rerecorded : Rerecorded isRegex mine client client')
    (scheduled : Scheduled client) : Scheduled client' := by
  rcases scheduled with ⟨status,queue,source⟩ | ⟨queue,port,status,queued,source,nonzero⟩
  · exact .idle (rerecorded.status.trans status) (rerecorded.queue.trans queue) (rerecorded.source.trans source)
  · exact .receiving queue port (rerecorded.status.trans status) (rerecorded.queue.trans queued)
      (rerecorded.source.trans source) nonzero

/-- The session and the record change one list in the same way. -/
theorem keptRerecorded {mine registered : List CFString} (sound : Sound os w) (reached : Reached os w n st)
    (moved : Moved os n (changed isRegex registered (st.registered n)) st st')
    (rerecorded : Rerecorded isRegex mine w.client client') (distinct : mine.Nodup)
    (compile : isRegex = true → ∀ p ∈ mine, Compiles os p = true) (within : ∀ k ∈ registered, k ∈ mine)
    (all : Restored w → ∀ k ∈ mine, k ∈ registered) : Kept os w (w.joined n st' client') := by
  have status : (st'.deref n).notifyStatus = (st.deref n).notifyStatus := congrArg Prod.fst moved.told
  have lists (kind : Bool) : kind = isRegex ∧ client'.recorded kind = mine ∧ st'.registered n kind = registered ∨
      client'.recorded kind = w.client.recorded kind ∧ st'.registered n kind = st.registered n kind := by
    rw [rerecorded.recorded,moved.registered]
    unfold changed
    by_cases here : kind = isRegex <;> simp [here]
  refine sound.keptJoined ?_ ?_ (rerecorded.scheduled sound.scheduled) ⟨moved.serves,?_,?_⟩ fun restored => ⟨?_,?_⟩
  · intro kind
    rcases lists kind with ⟨_,recorded,_⟩ | ⟨recorded,_⟩
    · rw [recorded]
      exact distinct
    · rw [recorded]
      exact sound.distinct kind
  · rcases lists true with ⟨here,recorded,_⟩ | ⟨recorded,_⟩
    · rw [recorded]
      exact compile here.symm
    · rw [recorded]
      exact sound.compile
  · intro kind k member
    rcases lists kind with ⟨_,recorded,now⟩ | ⟨recorded,now⟩
    · rw [now] at member
      rw [recorded]
      exact within k member
    · rw [now] at member
      rw [recorded]
      exact reached.serving.watched kind k member
  · intro p source
    rw [status,moved.told]
    exact reached.serving.told p (rerecorded.source ▸ source)
  · intro kind k member
    rcases lists kind with ⟨_,recorded,now⟩ | ⟨recorded,now⟩
    · rw [recorded] at member
      rw [now]
      exact all restored k member
    · rw [recorded] at member
      rw [now]
      exact (reached.complete restored).watched kind k member
  · intro p source
    rw [moved.told]
    exact (reached.complete restored).told p (rerecorded.source ▸ source)

private theorem rerecorded_setArray (client : Client) (isRegex : Bool) (array : Option (List CFString)) :
    Rerecorded isRegex (array.getD []) client (client.setArray isRegex array) := by
  cases isRegex with
  | false =>
    refine ⟨fun kind => ?_,rfl,rfl,rfl⟩
    cases kind <;> rfl
  | true =>
    refine ⟨fun kind => ?_,rfl,rfl,rfl⟩
    cases kind <;> rfl

private theorem joined_setArray (w : World Regex) (n : Int) (st : State Regex) (isRegex : Bool)
    (array : Option (List CFString)) : (w.joined n st client).update (Client.setArray isRegex array) =
      w.joined n st (client.setArray isRegex array) := by
  cases isRegex <;> rfl

theorem addWatchedKey_kept (sound : Sound os w) (unused : Unused newServer w)
    (new : key ∉ w.client.recorded isRegex) :
    Kept os w (scDynamicStoreAddWatchedKey os newServer key isRegex w).2 := by
  unfold scDynamicStoreAddWatchedKey
  rcases exchangeStatus_cases sound.linked unused fun server => notifyadd os server key isRegex with
    ⟨error,_,lost,unrestored⟩ | ⟨n,st,_,reached,accepted,refused⟩
  · rw [lost]
    exact sound.keptLost unrestored
  · rcases notifyadd_moves reached.serving.serves key isRegex with ⟨ok,_,compiles,moved⟩ | ⟨failed,same⟩
    · rw [accepted _ (Prod.ext ok rfl)]
      have recorded : (w.joined n (notifyadd os n key isRegex st).2 w.client).update (fun client =>
          client.setArray isRegex (addKey key (client.array isRegex))) = _ :=
        joined_setArray w n _ isRegex (addKey key (w.client.array isRegex))
      have rerecorded : Rerecorded isRegex (w.client.recorded isRegex ++ [key]) w.client _ :=
        rerecorded_setArray w.client isRegex (addKey key (w.client.array isRegex))
      simp only [recorded]
      refine keptRerecorded sound reached moved rerecorded ?_ ?_ ?_ ?_
      · exact List.nodup_append.mpr ⟨sound.distinct isRegex,by simp,by simpa using fun k known => ne_of_mem_of_not_mem known new⟩
      · rintro rfl p member
        rcases List.mem_append.mp member with old | added
        · exact sound.compile p old
        · obtain rfl := List.mem_singleton.mp added
          simpa [accepts] using compiles
      · intro k member
        rcases List.mem_append.mp member with old | added
        · exact List.mem_append_left _ (reached.serving.watched isRegex k old)
        · exact List.mem_append_right _ added
      · intro restored k member
        rcases List.mem_append.mp member with old | added
        · exact List.mem_append_left _ ((reached.complete restored).watched isRegex k old)
        · exact List.mem_append_right _ added
    · obtain ⟨error,answered⟩ := refused failed
      rw [answered,same]
      exact sound.keptJoined sound.distinct sound.compile sound.scheduled reached.serving reached.complete

private theorem removeKey_recorded {client : Client} (known : key ∈ client.recorded isRegex) :
    removeKey key (client.array isRegex) = some (some ((client.recorded isRegex).erase key)) := by
  unfold Client.recorded at known ⊢
  cases array : client.array isRegex with
  | none =>
    rw [array] at known
    cases known
  | some keys =>
    have inside : key ∈ keys := by simpa [array] using known
    simp [removeKey,inside]

theorem removeWatchedKey_kept (sound : Sound os w) (unused : Unused newServer w) :
    Kept os w (scDynamicStoreRemoveWatchedKey os newServer key isRegex w).2 := by
  unfold scDynamicStoreRemoveWatchedKey
  rcases exchangeStatus_cases sound.linked unused fun server => notifyremove server key isRegex with
    ⟨error,_,lost,unrestored⟩ | ⟨n,st,_,reached,accepted,refused⟩
  · rw [lost]
    exact sound.keptLost unrestored
  · rcases notifyremove_moves reached.serving.serves key isRegex with ⟨ok,known,moved⟩ | ⟨failed,same⟩
    · rw [accepted _ (Prod.ext ok rfl)]
      let left := (w.client.recorded isRegex).erase key
      have removed : removeKey key ((w.joined n (notifyremove n key isRegex st).2 w.client).client.array isRegex) =
          some (some left) := removeKey_recorded (reached.serving.watched isRegex key known)
      have rerecorded : Rerecorded isRegex left w.client _ := rerecorded_setArray w.client isRegex (some left)
      simp only [removed,joined_setArray]
      have distinct := sound.distinct isRegex
      have registered := reached.serving.serves.distinct isRegex
      refine keptRerecorded sound reached moved rerecorded (distinct.erase key) ?_ ?_ ?_
      · rintro rfl p member
        exact sound.compile p (List.mem_of_mem_erase member)
      · intro k member
        rw [registered.mem_erase_iff] at member
        exact distinct.mem_erase_iff.mpr ⟨member.1,reached.serving.watched isRegex k member.2⟩
      · intro restored k member
        rw [distinct.mem_erase_iff] at member
        exact registered.mem_erase_iff.mpr ⟨member.1,(reached.complete restored).watched isRegex k member.2⟩
    · obtain ⟨error,answered⟩ := refused failed
      rw [answered,same]
      exact sound.keptJoined sound.distinct sound.compile sound.scheduled reached.serving reached.complete

/-- Where there is a session the lists are registered and recorded. -/
theorem setNotificationKeys_cases {keys patterns : Option (List CFString)} (linked : Linked os w)
    (unused : Unused newServer w) (distinctKeys : (keys.getD []).Nodup) (distinctPatterns : (patterns.getD []).Nodup)
    (compile : ∀ p ∈ patterns.getD [], Compiles os p = true) :
    (∃ error, session os newServer w = .error error ∧
        scDynamicStoreSetNotificationKeys os newServer keys patterns w = (.error error,w.lost) ∧ ¬ Restored w) ∨
      ∃ n st st' lists, session os newServer w = .ok (n,st) ∧ Reached os w n st ∧ Moved os n lists st st' ∧
        (∀ isRegex k, k ∈ lists isRegex ↔ k ∈ if isRegex then patterns.getD [] else keys.getD []) ∧
        scDynamicStoreSetNotificationKeys os newServer keys patterns w =
          (.ok (),w.joined n st' { w.client with keys := keys, patterns := patterns }) := by
  unfold scDynamicStoreSetNotificationKeys
  rcases exchangeStatus_cases linked unused fun server => notifyset os server (keys.getD []) (patterns.getD []) with
    ⟨error,failed,lost,unrestored⟩ | ⟨n,st,found,reached,accepted,_⟩
  · exact .inl ⟨error,failed,by simp only [lost],unrestored⟩
  · obtain ⟨ok,lists,moved,members⟩ :=
      notifyset_moves reached.serving.serves distinctKeys distinctPatterns compile
    refine .inr ⟨n,st,_,lists,found,reached,moved,members,?_⟩
    simp only [accepted _ (Prod.ext ok rfl)]
    rfl

private theorem recorded_set (client : Client) (keys patterns : Option (List CFString)) (isRegex : Bool) :
    Client.recorded { client with keys := keys, patterns := patterns } isRegex =
      if isRegex then patterns.getD [] else keys.getD [] := by
  cases isRegex <;> rfl

theorem setNotificationKeys_kept {keys patterns : Option (List CFString)} (sound : Sound os w)
    (unused : Unused newServer w) (distinctKeys : (keys.getD []).Nodup) (distinctPatterns : (patterns.getD []).Nodup)
    (compile : ∀ p ∈ patterns.getD [], Compiles os p = true) :
    Kept os w (scDynamicStoreSetNotificationKeys os newServer keys patterns w).2 := by
  rcases setNotificationKeys_cases sound.linked unused distinctKeys distinctPatterns compile with
    ⟨error,_,lost,unrestored⟩ | ⟨n,st,st',lists,_,reached,moved,members,answered⟩
  · rw [lost]
    exact sound.keptLost unrestored
  · rw [answered]
    have status : (st'.deref n).notifyStatus = (st.deref n).notifyStatus := congrArg Prod.fst moved.told
    have watched (isRegex : Bool) (k : CFString) : k ∈ st'.registered n isRegex ↔
        k ∈ Client.recorded { w.client with keys := keys, patterns := patterns } isRegex := by
      rw [moved.registered,members,recorded_set]
    refine sound.keptJoined ?_ compile ?_ ⟨moved.serves,fun isRegex k => (watched isRegex k).mp,?_⟩
      fun restored => ⟨fun isRegex k => (watched isRegex k).mpr,?_⟩
    · intro isRegex
      rw [recorded_set]
      cases isRegex with
      | false => exact distinctKeys
      | true => exact distinctPatterns
    · rcases sound.scheduled with ⟨status,queue,source⟩ | ⟨queue,port,status,queued,source,nonzero⟩
      · exact .idle status queue source
      · exact .receiving queue port status queued source nonzero
    · intro p source
      rw [status,moved.told]
      exact reached.serving.told p source
    · intro p source
      rw [moved.told]
      exact (reached.complete restored).told p source

/-! ## Being told -/

/-- Giving up the queue leaves the record and the session. -/
theorem Sound.cleaned (sound : Sound os w) (recorded : w'.client.recorded = w.client.recorded)
    (inBounds : w'.outOfBounds = w.outOfBounds) (linked : Linked os w') (restored : Restored w → Restored w')
    (unused : ∀ newServer, Unused newServer w → Unused newServer w') : Kept os w (cleanup w') := by
  have distinct : ∀ isRegex, (w'.client.recorded isRegex).Nodup := by
    rw [recorded]
    exact sound.distinct
  have compile : ∀ p ∈ w'.client.recorded true, Compiles os p = true := by
    rw [recorded]
    exact sound.compile
  refine ⟨⟨distinct,compile,.idle rfl rfl rfl,inBounds.trans sound.inBounds,linked.atRest,linked.gone,?_⟩,?_,?_⟩
  · intro n st now
    have serving := linked.serving n st ⟨now.server,now.configd,now.alive⟩
    exact ⟨serving.serves,serving.watched,fun p source => by cases source⟩
  · intro before
    obtain ⟨n,st,now,complete⟩ := restored before
    exact ⟨n,st,⟨now.server,now.configd,now.alive⟩,complete.watched,fun p source => by cases source⟩
  · intro newServer before server closed
    exact unused newServer before server fun n st now => closed n st ⟨now.server,now.configd,now.alive⟩

theorem linked_status (linked : Linked os w) (status : NotificationStatus) :
    Linked os (w.update fun client => { client with notifyStatus := status }) := by
  refine ⟨linked.atRest,linked.gone,fun n st now => ?_⟩
  have serving := linked.serving n st ⟨now.server,now.configd,now.alive⟩
  exact ⟨serving.serves,serving.watched,serving.told⟩

/-- Where the session is told of nothing yet, it is told on the new port. -/
theorem acquireNotifyPort_cases (linked : Linked os w) (unused : Unused newServer w) (nonzero : port ≠ 0) :
    (∃ error, session os newServer w = .error error ∧ acquireNotifyPort os newServer port w = (none,w.lost) ∧
        ¬ Restored w) ∨
      ∃ n st, session os newServer w = .ok (n,st) ∧ Reached os w n st ∧
        ((∃ st', Serves os n st' ∧ (∀ isRegex, st'.registered n isRegex = st.registered n isRegex) ∧
            notifier (st'.deref n) = (.informViaMachPort,port) ∧
            acquireNotifyPort os newServer port w = (some port,w.joined n st' w.client)) ∨
          (st.deref n).notifyStatus ≠ .notRegistered ∧
            acquireNotifyPort os newServer port w = (none,w.joined n st w.client)) := by
  unfold acquireNotifyPort
  rcases exchangeStatus_cases linked unused fun server => notifyviaport server port 0 with
    ⟨error,failed,lost,unrestored⟩ | ⟨n,st,found,reached,accepted,refused⟩
  · exact .inl ⟨error,failed,by simp only [lost],unrestored⟩
  · refine .inr ⟨n,st,found,reached,?_⟩
    rcases notifyviaport_moves reached.serving.serves nonzero with ⟨_,ok,serves,same,told⟩ | ⟨busy,failed,same⟩
    · exact .inl ⟨_,serves,same,told,by simp only [accepted _ (Prod.ext ok rfl)]⟩
    · obtain ⟨error,answered⟩ := refused failed
      rw [same] at answered
      exact .inr ⟨busy,by simp only [answered]⟩

def Client.receiving (queue port : Int) (client : Client) : Client :=
  { client with notifyStatus := .informViaDispatch, dispatchQueue := some queue, dispatchSource := some port }

theorem receiving_complete {queue : Int} (told : notifier (st.deref n) = (.informViaMachPort,port))
    (watched : ∀ isRegex, ∀ k ∈ client.recorded isRegex, k ∈ st.registered n isRegex) :
    Complete (client.receiving queue port) n st := by
  refine ⟨watched,?_⟩
  intro p source
  obtain rfl := Option.some.inj source
  exact told

theorem setDispatchQueue_kept (sound : Sound os w) (unused : Unused newServer w) (nonzero : port ≠ 0)
    (queue : Option Int) : Kept os w (scDynamicStoreSetDispatchQueue os newServer port queue w).2 := by
  unfold scDynamicStoreSetDispatchQueue
  cases queue with
  | none =>
    simp only
    split
    · exact sound.kept
    · exact sound.cleaned rfl rfl sound.linked id fun _ => id
  | some queue =>
    simp only
    split
    · exact sound.kept
    · split
      · exact sound.kept
      · let marked := w.update fun client => { client with notifyStatus := .informViaDispatch }
        have linked : Linked os marked := linked_status sound.linked .informViaDispatch
        have restored : Restored w → Restored marked := by
          rintro ⟨n,st,now,complete⟩
          exact ⟨n,st,⟨now.server,now.configd,now.alive⟩,complete.watched,complete.told⟩
        have markedUnused : Unused newServer marked := fun server closed =>
          unused server fun n st now => closed n st ⟨now.server,now.configd,now.alive⟩
        rcases acquireNotifyPort_cases linked markedUnused nonzero with
          ⟨error,_,lost,unrestored⟩ | ⟨n,st,_,reached,⟨st',serves,same,told,acquired⟩ | ⟨_,busy⟩⟩
        · simp only [marked] at lost
          simp only [lost]
          exact sound.cleaned rfl rfl (lost_linked linked) (fun before => absurd (restored before) unrestored)
            fun newServer _ => lost_unused newServer marked
        · simp only [marked] at acquired
          simp only [acquired]
          have serving : Serving os (w.client.receiving queue port) n st' := by
            refine ⟨serves,?_,?_⟩
            · intro isRegex k member
              rw [same] at member
              exact reached.serving.watched isRegex k member
            · intro p source
              obtain rfl := Option.some.inj source
              exact .inr told
          have scheduled : Scheduled (w.client.receiving queue port) := .receiving queue port rfl rfl rfl nonzero
          have complete (before : Restored w) : Complete (w.client.receiving queue port) n st' := by
            apply receiving_complete told
            intro isRegex k member
            rw [same]
            exact (reached.complete (restored before)).watched isRegex k member
          have kept : Kept os w (w.joined n st' (w.client.receiving queue port)) :=
            sound.keptJoined sound.distinct sound.compile scheduled serving complete
          exact kept
        · simp only [marked] at busy
          simp only [busy]
          exact sound.cleaned rfl rfl (joined_linked reached.serving)
            (fun before => joined_restored (reached.complete (restored before)))
            fun newServer _ => joined_unused newServer

theorem notifyCancel_kept (sound : Sound os w) : Kept os w (scDynamicStoreNotifyCancel os w) := by
  unfold scDynamicStoreNotifyCancel
  split
  · exact sound.kept
  · simp only [scDynamicStoreSetDispatchQueue]
    split
    · exact sound.kept
    · exact sound.cleaned rfl rfl sound.linked id fun _ => id

/-- The client's own flags and what its functions were called with do not matter. -/
theorem Sound.renoted (sound : Sound os w) (f : Client → Client) (callouts : List Callout)
    (recorded : (f w.client).recorded = w.client.recorded) (server : (f w.client).server = w.client.server)
    (status : (f w.client).notifyStatus = w.client.notifyStatus)
    (queue : (f w.client).dispatchQueue = w.client.dispatchQueue)
    (source : (f w.client).dispatchSource = w.client.dispatchSource) :
    Kept os w { w with client := f w.client, callouts := callouts } := by
  have connected {n : Int} {st : State Regex} :
      Connected { w with client := f w.client, callouts := callouts } n st ↔ Connected w n st :=
    ⟨fun now => ⟨server ▸ now.server,now.configd,now.alive⟩,fun now => ⟨server.trans now.server,now.configd,now.alive⟩⟩
  refine ⟨⟨?_,?_,?_,sound.inBounds,sound.linked.atRest,sound.linked.gone,?_⟩,?_,?_⟩
  · rw [recorded]
    exact sound.distinct
  · rw [recorded]
    exact sound.compile
  · rcases sound.scheduled with ⟨idle,none,no⟩ | ⟨q,p,receives,queued,listens,nonzero⟩
    · exact .idle (status.trans idle) (queue.trans none) (source.trans no)
    · exact .receiving q p (status.trans receives) (queue.trans queued) (source.trans listens) nonzero
  · intro n st now
    have serving := sound.linked.serving n st (connected.mp now)
    refine ⟨serving.serves,?_,?_⟩
    · rw [recorded]
      exact serving.watched
    · rw [source]
      exact serving.told
  · rintro ⟨n,st,now,complete⟩
    refine ⟨n,st,connected.mpr now,?_,?_⟩
    · rw [recorded]
      exact complete.watched
    · rw [source]
      exact complete.told
  · intro newServer before has closed
    exact before (server ▸ has) fun n st now => closed n st (connected.mpr now)

theorem pushDisconnect_kept (sound : Sound os w) : Kept os w (pushDisconnect w) := by
  unfold pushDisconnect
  split
  · exact sound.renoted id _ rfl rfl rfl rfl rfl
  · exact sound.renoted (fun client => { client with disconnectForceCallBack := true }) w.callouts rfl rfl rfl rfl rfl

theorem rlsPerform_kept (sound : Sound os w) (unused : Unused newServer w) :
    Kept os w (rlsPerform os newServer w) := by
  have fetched : Kept os w (exchange os newServer notifychanges w).2 :=
    exchange_kept sound unused fun _ _ => notifychanges_moves
  refine fetched.trans ?_
  simp only [rlsPerform]
  generalize exchange os newServer notifychanges w = result at fetched ⊢
  obtain ⟨changedKeys,after⟩ := result
  simp only at fetched ⊢
  split
  · exact fetched.sound.renoted (fun client => { client with disconnectForceCallBack := false }) _ rfl rfl rfl rfl rfl
  · split
    · exact fetched.sound.kept
    · exact fetched.sound.kept
    · exact fetched.sound.renoted id _ rfl rfl rfl rfl rfl

end FreebsdLaunchd.DynamicStoreClient
