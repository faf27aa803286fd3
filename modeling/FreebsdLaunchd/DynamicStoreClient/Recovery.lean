import FreebsdLaunchd.DynamicStoreClient.Calls

/-! A client outlives configd. Its record of what it watches stays sound through
every run; once the notification handler has run after a restart, the new
configd tells the client of every change of what is recorded. -/
namespace FreebsdLaunchd.DynamicStoreClient
open DynamicStore State

variable {Regex : Type} {os : Platform Regex} {w w' : World Regex} {st : State Regex} {client : Client}
variable {n newServer port : Int}

/-! ## The events of a run -/

/-- What the kernel and configd's other clients keep to: a port gets a number that is
not in use, the handler runs when nobody can send to its port any more, and nobody
else registers, cancels or ends the client's session. -/
def Allowed (w : World Regex) : Event → Prop
  | .addWatchedKey newServer _ _ | .removeWatchedKey newServer _ _ | .setNotificationKeys newServer _ _
  | .notified newServer => Unused newServer w
  | .setDispatchQueue newServer port _ => Unused newServer w ∧ port ≠ 0
  | .noSenders newServer port => Unused newServer w ∧ port ≠ 0 ∧
    ∃ p, w.client.dispatchSource = some p ∧ ∀ st, w.configd = some st → ∀ x ∈ st.live, x.notifyPort ≠ p
  | .call newServer request => Unused newServer w ∧ ∀ n (st : State Regex), Admissible st (request n) ∧ Foreign n st (request n)
  | .started => w.configd = none
  | .request request => ∀ st, w.configd = some st →
    Admissible st request ∧ ∀ n, Connected w n st → Foreign n st request
  | .setDisconnectCallBack _ | .died => True

variable (os) in
/-- A client that adds nothing it has recorded, and gives lists without repeats and
patterns that compile. -/
def Careful (w : World Regex) : Event → Prop
  | .addWatchedKey _ key isRegex => key ∉ w.client.recorded isRegex
  | .setNotificationKeys _ keys patterns =>
    (keys.getD []).Nodup ∧ (patterns.getD []).Nodup ∧ ∀ p ∈ patterns.getD [], Compiles os p = true
  | _ => True

/-! ## The handler -/

private theorem reconnectNotifications_kept (sound : Sound os w) (unused : Unused newServer w) (nonzero : port ≠ 0) :
    Kept os w (scDynamicStoreReconnectNotifications os newServer port w).2 := by
  have cancelled := notifyCancel_kept sound
  have set : Kept os w (if (scDynamicStoreNotifyCancel os w).client.keys.isSome ∨
      (scDynamicStoreNotifyCancel os w).client.patterns.isSome then
        scDynamicStoreSetNotificationKeys os newServer (scDynamicStoreNotifyCancel os w).client.keys
          (scDynamicStoreNotifyCancel os w).client.patterns (scDynamicStoreNotifyCancel os w)
      else (.ok (),scDynamicStoreNotifyCancel os w)).2 := by
    split
    · exact cancelled.trans (setNotificationKeys_kept cancelled.sound (cancelled.unused newServer unused)
        (cancelled.sound.distinct false) (cancelled.sound.distinct true) cancelled.sound.compile)
    · exact cancelled
  simp only [scDynamicStoreReconnectNotifications]
  generalize (if (scDynamicStoreNotifyCancel os w).client.keys.isSome ∨
      (scDynamicStoreNotifyCancel os w).client.patterns.isSome then
        scDynamicStoreSetNotificationKeys os newServer (scDynamicStoreNotifyCancel os w).client.keys
          (scDynamicStoreNotifyCancel os w).client.patterns (scDynamicStoreNotifyCancel os w)
      else (.ok (),scDynamicStoreNotifyCancel os w)) = result at set ⊢
  obtain ⟨answer,after⟩ := result
  simp only at set ⊢
  split
  · exact set.trans (pushDisconnect_kept set.sound)
  · split
    · exact set.trans (pushDisconnect_kept set.sound)
    · have scheduled := setDispatchQueue_kept set.sound (set.unused newServer unused) nonzero w.client.dispatchQueue
      exact (set.trans scheduled).trans (pushDisconnect_kept scheduled.sound)

/-! ## Every event -/

private theorem notConnected_of_gone (gone : w.configd = none) : ¬ Connected w n st := by
  intro connected
  rw [connected.configd] at gone
  cases gone

private theorem request_kept (sound : Sound os w) {request : Request} (allowed : Allowed w (.request request)) :
    Sound os (step os w (.request request)) ∧ (Restored w → Restored (step os w (.request request))) := by
  have connected {n : Int} {st' : State Regex} (now : Connected (step os w (.request request)) n st') :
      ∃ st, Connected w n st ∧ st' = DynamicStore.step os st request := by
    obtain ⟨st,runs,rfl⟩ : ∃ st, w.configd = some st ∧ DynamicStore.step os st request = st' := by
      simpa [step] using now.configd
    exact ⟨st,⟨now.server,runs,now.alive⟩,rfl⟩
  have moves {n : Int} {st : State Regex} (here : Connected w n st) :
      Moved os n (st.registered n) st (DynamicStore.step os st request) :=
    step_moves (sound.linked.serving n st here).serves (allowed st here.configd).1
      ((allowed st here.configd).2 n here)
  have reached {n : Int} {st : State Regex} (here : Connected w n st) : Reached os w n st := by
    refine ⟨sound.linked.serving n st here,?_,fun unheard => unheard n st here⟩
    rintro ⟨n',st',there,complete⟩
    obtain ⟨rfl,rfl⟩ := here.same there
    exact complete
  refine ⟨⟨sound.distinct,sound.compile,sound.scheduled,sound.inBounds,?_,?_,?_⟩,?_⟩
  · intro st' runs
    obtain ⟨st,before,rfl⟩ : ∃ st, w.configd = some st ∧ DynamicStore.step os st request = st' := by
      simpa [step] using runs
    exact (step_effect (sound.linked.atRest st before) (allowed st before).1).atRest
  · intro gone
    apply sound.linked.gone
    simpa [step] using gone
  · intro n st' now
    obtain ⟨st,here,rfl⟩ := connected now
    exact ((reached here).moved (moves here)).1
  · intro restored
    obtain ⟨n,st,here,_⟩ := id restored
    refine ⟨n,DynamicStore.step os st request,⟨here.server,by simp [step,here.configd],here.alive⟩,?_⟩
    exact ((reached here).moved (moves here)).2 restored

private theorem step_sound (sound : Sound os w) {event : Event} (allowed : Allowed w event)
    (careful : Careful os w event) :
    Sound os (step os w event) ∧ (event ≠ .died → Restored w → Restored (step os w event)) := by
  have of_kept {w' : World Regex} (kept : Kept os w w') :
      Sound os w' ∧ (event ≠ .died → Restored w → Restored w') := ⟨kept.sound,fun _ => kept.restored⟩
  cases event with
  | addWatchedKey newServer key isRegex => exact of_kept (addWatchedKey_kept sound allowed careful)
  | removeWatchedKey newServer key isRegex => exact of_kept (removeWatchedKey_kept sound allowed)
  | setNotificationKeys newServer keys patterns =>
    exact of_kept (setNotificationKeys_kept sound allowed careful.1 careful.2.1 careful.2.2)
  | setDispatchQueue newServer port queue => exact of_kept (setDispatchQueue_kept sound allowed.1 allowed.2 queue)
  | setDisconnectCallBack callout =>
    exact of_kept (sound.renoted (fun client => { client with disconnectFunction := callout }) w.callouts
      rfl rfl rfl rfl rfl)
  | noSenders newServer port =>
    have restored := reconnectNotifications_kept sound allowed.1 allowed.2.1
    exact of_kept (restored.trans (rlsPerform_kept restored.sound (restored.unused newServer allowed.1)))
  | notified newServer => exact of_kept (rlsPerform_kept sound allowed)
  | call newServer request =>
    refine of_kept (exchange_kept sound allowed.1 fun n st serves => ?_)
    exact step_moves serves (allowed.2 n st).1 (allowed.2 n st).2
  | died =>
    refine ⟨⟨sound.distinct,sound.compile,sound.scheduled,sound.inBounds,?_,fun _ => rfl,?_⟩,
      fun survives => absurd rfl survives⟩
    · intro st runs
      cases runs
    · intro n st now
      exact absurd now (notConnected_of_gone rfl)
  | started =>
    have dead := sound.linked.gone allowed
    refine ⟨⟨sound.distinct,sound.compile,sound.scheduled,sound.inBounds,?_,?_,?_⟩,?_⟩
    · intro st runs
      obtain rfl := Option.some.inj runs
      exact initial_atRest
    · intro gone
      cases gone
    · intro n st now
      exact absurd (dead.symm.trans now.alive) (by simp)
    · rintro _ ⟨n,st,connected,_⟩
      exact absurd connected (notConnected_of_gone allowed)
  | request request =>
    obtain ⟨still,registered⟩ := request_kept sound allowed
    exact ⟨still,fun _ => registered⟩

/-! ## A session is restored -/

variable (os) in
private theorem exchange_own {α : Type} (newServer : Int) (request : Int → State Regex → α × State Regex)
    (w : World Regex) :
    (exchange os newServer request w).2.callouts = w.callouts ∧
      (exchange os newServer request w).2.client.dispatchSource = w.client.dispatchSource ∧
      (exchange os newServer request w).2.client.disconnectForceCallBack = w.client.disconnectForceCallBack := by
  unfold exchange
  split <;> exact ⟨rfl,rfl,rfl⟩

variable (os) in
/-- The client is called if it has to be, and does not cease to receive. -/
theorem rlsPerform_calls (newServer : Int) (w : World Regex) :
    (rlsPerform os newServer w).client.dispatchSource = w.client.dispatchSource ∧
      ∃ told, (rlsPerform os newServer w).callouts = w.callouts ++ told ∧
        (w.client.disconnectForceCallBack = true → told ≠ []) := by
  obtain ⟨callouts,source,force⟩ := exchange_own os newServer notifychanges w
  simp only [rlsPerform]
  generalize exchange os newServer notifychanges w = result at callouts source force ⊢
  obtain ⟨changedKeys,after⟩ := result
  simp only at callouts source force ⊢
  rw [← force,← callouts,← source]
  split
  · exact ⟨rfl,_,rfl,fun _ => by simp⟩
  · next calm =>
    split
    · exact ⟨rfl,[],by simp,fun forced => absurd forced calm⟩
    · exact ⟨rfl,[],by simp,fun forced => absurd forced calm⟩
    · exact ⟨rfl,_,rfl,fun forced => absurd forced calm⟩

private theorem pushDisconnect_calls (w : World Regex) :
    (pushDisconnect w).client.dispatchSource = w.client.dispatchSource ∧
      ∃ told, (pushDisconnect w).callouts = w.callouts ++ told ∧
        ((pushDisconnect w).client.disconnectForceCallBack = true ∨ told ≠ []) := by
  unfold pushDisconnect
  split
  · exact ⟨rfl,_,rfl,.inr (by simp)⟩
  · exact ⟨rfl,[],(List.append_nil _).symm,.inl rfl⟩

/-- A client that does not receive yet, at a session that is not told and watches
what is recorded. -/
structure Ready (os : Platform Regex) (newServer : Int) (w : World Regex) : Prop where
  linked : Linked os w
  unused : Unused newServer w
  status : w.client.notifyStatus = .notRegistered
  queue : w.client.dispatchQueue = none
  unheard : Unheard w
  found : ∃ n st, session os newServer w = .ok (n,st) ∧
    ∀ isRegex, ∀ k ∈ w.client.recorded isRegex, k ∈ st.registered n isRegex

private theorem session_server {found : Int × State Regex} (reached : session os newServer w = .ok found) :
    w.client.server ≠ none := by
  intro none
  simp [session,none] at reached

private theorem setDispatchQueue_restores (ready : Ready os newServer w) (nonzero : port ≠ 0) (queue : Int) :
    ∃ n st, Complete (w.client.receiving queue port) n st ∧
      scDynamicStoreSetDispatchQueue os newServer port (some queue) w =
        (.ok (),w.joined n st (w.client.receiving queue port)) := by
  obtain ⟨n,st,found,watched⟩ := ready.found
  let marked := w.update fun client => { client with notifyStatus := .informViaDispatch }
  have linked : Linked os marked := linked_status ready.linked .informViaDispatch
  have markedUnused : Unused newServer marked := fun server closed =>
    ready.unused server fun n st now => closed n st ⟨now.server,now.configd,now.alive⟩
  have markedUnheard : Unheard marked := fun n st now => ready.unheard n st ⟨now.server,now.configd,now.alive⟩
  have markedFound : session os newServer marked = .ok (n,st) := found
  rcases acquireNotifyPort_cases linked markedUnused nonzero with
    ⟨error,failed,_⟩ | ⟨n',st',found',reached,⟨after,serves,same,told,acquired⟩ | ⟨busy,_⟩⟩
  · rw [failed] at markedFound
    cases markedFound
  · obtain ⟨rfl,rfl⟩ : n' = n ∧ st' = st := by simpa [found'] using markedFound
    refine ⟨n',after,receiving_complete told ?_,?_⟩
    · intro isRegex k member
      rw [same]
      exact watched isRegex k member
    · simp only [marked] at acquired
      have server : w.client.server.isNone = false :=
        Option.isNone_eq_false_iff.mpr (Option.isSome_iff_ne_none.mpr (session_server found))
      simp only [scDynamicStoreSetDispatchQueue,server,ready.queue,ready.status,acquired]
      rfl
  · exact absurd (reached.unheard markedUnheard) busy

/-- Where a session with configd can be had, the handler registers all that is recorded
and asks to be told on the new port. -/
theorem noSenders_restores (sound : Sound os w) (allowed : Allowed w (.noSenders newServer port))
    (found : ∃ n st, session os newServer w = .ok (n,st)) :
    Restored (step os w (.noSenders newServer port)) ∧
      (step os w (.noSenders newServer port)).client.dispatchSource = some port ∧
      ∃ told, told ≠ [] ∧ (step os w (.noSenders newServer port)).callouts = w.callouts ++ told := by
  obtain ⟨unused,nonzero,p,source,silent⟩ := allowed
  obtain ⟨n,st,found⟩ := found
  obtain ⟨queue,status,queued⟩ : ∃ queue, w.client.notifyStatus = .informViaDispatch ∧
      w.client.dispatchQueue = some queue := by
    rcases sound.scheduled with ⟨_,_,no⟩ | ⟨queue,_,status,queued,_,_⟩
    · rw [no] at source
      cases source
    · exact ⟨queue,status,queued⟩
  have cancelled : scDynamicStoreNotifyCancel os w = cleanup w := by
    simp [scDynamicStoreNotifyCancel,scDynamicStoreSetDispatchQueue,status,queued]
  have cleaned : Kept os w (cleanup w) := sound.cleaned rfl rfl sound.linked id fun _ => id
  have cleanedFound : session os newServer (cleanup w) = .ok (n,st) := found
  -- a session that was told would still be able to send to the port
  have unheard : Unheard (cleanup w) := by
    intro n st now
    have here : Connected w n st := ⟨now.server,now.configd,now.alive⟩
    have serving := sound.linked.serving n st here
    rcases serving.told p source with idle | told
    · exact idle
    · obtain ⟨x,member,rfl⟩ := serving.serves.opened
      rw [serving.serves.registry.table.deref member] at told
      exact absurd (congrArg Prod.snd told) (silent st here.configd x member)
  have set : ∃ after, Ready os newServer after ∧ after.callouts = w.callouts ∧
      (if (cleanup w).client.keys.isSome ∨ (cleanup w).client.patterns.isSome then
        scDynamicStoreSetNotificationKeys os newServer (cleanup w).client.keys (cleanup w).client.patterns (cleanup w)
      else (.ok (),cleanup w)) = (.ok (),after) := by
    split
    · rcases setNotificationKeys_cases cleaned.sound.linked (cleaned.unused newServer unused)
        (cleaned.sound.distinct false) (cleaned.sound.distinct true) cleaned.sound.compile with
        ⟨error,failed,_⟩ | ⟨n',st',after,lists,found',reached,moved,members,answered⟩
      · rw [failed] at cleanedFound
        cases cleanedFound
      · have idle : (after.deref n').notifyStatus = .notRegistered :=
          (congrArg Prod.fst moved.told).trans (reached.unheard unheard)
        have watched (isRegex : Bool) (k : CFString) (member : k ∈ (cleanup w).client.recorded isRegex) :
            k ∈ after.registered n' isRegex := by
          rw [moved.registered,members]
          cases isRegex <;> exact member
        have serving : Serving os (cleanup w).client n' after := by
          refine ⟨moved.serves,?_,fun _ _ => .inl idle⟩
          intro isRegex k member
          rw [moved.registered,members] at member
          cases isRegex <;> exact member
        exact ⟨_,⟨joined_linked serving,joined_unused newServer,rfl,rfl,joined_unheard idle,n',after,
          session_connected (connected_joined _ _ _ _),watched⟩,rfl,answered⟩
    · next nothing =>
      refine ⟨cleanup w,⟨cleaned.sound.linked,cleaned.unused newServer unused,rfl,rfl,unheard,n,st,cleanedFound,?_⟩,rfl,rfl⟩
      intro isRegex k member
      have none : (cleanup w).client.array isRegex = none := by
        simp only [not_or,Option.not_isSome_iff_eq_none] at nothing
        cases isRegex with
        | false => exact nothing.1
        | true => exact nothing.2
      rw [Client.recorded,none] at member
      cases member
  obtain ⟨after,ready,quiet,answered⟩ := set
  obtain ⟨n',st',complete,scheduled⟩ := setDispatchQueue_restores ready nonzero queue
  let received := after.joined n' st' (after.client.receiving queue port)
  have reconnected : (scDynamicStoreReconnectNotifications os newServer port w).2 = pushDisconnect received := by
    simp only [scDynamicStoreReconnectNotifications,cancelled,answered,status,queued,scheduled,received]
  obtain ⟨source',told,callouts,forced⟩ := pushDisconnect_calls received
  obtain ⟨source'',told',callouts',called⟩ := rlsPerform_calls os newServer (pushDisconnect received)
  have kept := reconnectNotifications_kept sound unused nonzero
  rw [reconnected] at kept
  have performed := rlsPerform_kept kept.sound (kept.unused newServer unused)
  have restored : Restored (pushDisconnect received) := by
    have connected := connected_joined after n' st' (after.client.receiving queue port)
    unfold pushDisconnect
    split
    · exact ⟨n',st',⟨connected.server,connected.configd,connected.alive⟩,complete.watched,complete.told⟩
    · exact ⟨n',st',⟨connected.server,connected.configd,connected.alive⟩,complete.watched,complete.told⟩
  have stepped : step os w (.noSenders newServer port) = rlsPerform os newServer (pushDisconnect received) := by
    rw [step,reconnected]
  rw [stepped]
  refine ⟨performed.restored restored,?_,told ++ told',?_,?_⟩
  · rw [source'',source']
    rfl
  · rcases forced with forced | some
    · simp [called forced]
    · simp [some]
  · rw [callouts',callouts,List.append_assoc]
    exact congrArg (· ++ (told ++ told')) quiet

/-! ## Whole runs -/

private theorem created_sound (atRest : AtRest os st) (fresh : Fresh n st)
    {name : CFString} {useSessionKeys : Option Bool}
    (created : scDynamicStoreCreateWithOptions os n name useSessionKeys (some st) = .ok w) : Sound os w := by
  let client : Client := { name, useSessionKeys, server := none }
  let closed : World Regex := { client, configd := some st, deadName := true }
  have linked : Linked os closed := by
    refine ⟨fun st' runs => ?_,fun _ => rfl,fun n st' connected => ?_⟩
    · obtain rfl := Option.some.inj runs
      exact atRest
    · cases connected.alive
  have unused (st' : State Regex) (runs : closed.configd = some st') : Fresh n st' := by
    obtain rfl := Option.some.inj runs
    exact fresh
  simp only [scDynamicStoreCreateWithOptions] at created
  split at created
  · next now opened =>
    obtain ⟨serves,nothing,_⟩ := addSession_serves linked unused opened
    obtain rfl := Except.ok.inj created
    have serving : Serving os client n now := by
      refine ⟨serves,fun isRegex k member => ?_,fun _ source => by cases source⟩
      rw [nothing] at member
      cases member
    have joined : Linked os (closed.joined n now client) := joined_linked serving
    refine ⟨fun isRegex => ?_,fun p member => ?_,.idle rfl rfl rfl,rfl,joined⟩
    · cases isRegex <;> exact List.nodup_nil
    · cases member
  · cases created

def Wanted (os : Platform Regex) (client : Client) (k : CFString) : Prop :=
  k ∈ client.recorded false ∨ ∃ p ∈ client.recorded true, matchesPattern os p k

/-- configd watches for the client what this has recorded, and whoever sets, removes or
notifies such a key: the client gets a message on the port it receives on. -/
def Informed (os : Platform Regex) (w : World Regex) : Prop :=
  ∃ n st, Connected w n st ∧ (∀ isRegex k, k ∈ st.registered n isRegex ↔ k ∈ w.client.recorded isRegex) ∧
    ∀ p, w.client.dispatchSource = some p → ∀ r k, Admissible st r → Foreign n st r → Announces os st r k →
      Wanted os w.client k → ∀ answers, .message n p ∈ (pushNotifications os answers (DynamicStore.step os st r)).1

private theorem undrained_of_foreign {r : Request} {k : CFString} (foreign : Foreign n st r)
    (announces : Announces os st r k) :
    ¬ Drains st r n := by
  cases r with
  | notifychanges server => exact announces.elim
  | cleanupSession server => exact fun same => foreign same.symm
  | _ => exact id

private theorem informed_of_restored (sound : Sound os w) (restored : Restored w) : Informed os w := by
  obtain ⟨n,st,connected,complete⟩ := restored
  have serving := sound.linked.serving n st connected
  have atRest := serving.serves.atRest
  refine ⟨n,st,connected,?_,?_⟩
  · exact fun isRegex k => ⟨serving.watched isRegex k,complete.watched isRegex k⟩
  · intro p source r k admissible foreign announces wanted answers
    have nonzero : p ≠ 0 := by
      rcases sound.scheduled with ⟨_,_,no⟩ | ⟨_,port,_,_,source',nonzero⟩
      · rw [no] at source
        cases source
      · rw [source'] at source
        exact Option.some.inj source ▸ nonzero
    have notified := complete.told p source
    have told : Told n p st := ⟨serving.serves.opened,serving.serves.named,congrArg Prod.fst notified,
      congrArg Prod.snd notified,nonzero⟩
    have watching : Watching os st n k := by
      rcases wanted with key | ⟨pattern,member,matched⟩
      · exact .inl (complete.watched false k key)
      · exact .inr ⟨pattern,complete.watched true pattern member,matched⟩
    have effect := step_effect atRest admissible
    exact pushNotifications_told effect.atRest (told.keeps (step_keeps atRest told.opened admissible foreign))
      (effect.needs n k announces watching (undrained_of_foreign foreign announces)) answers

/-- In every run of a careful client nothing is taken from out of bounds. If the handler finds a
configd to open a session with, the client is told of every change of what it has
recorded from then on, until configd dies again. -/
theorem informed_after_restart (reachable : Reachable os st) (fresh : Fresh n st) {name : CFString}
    {useSessionKeys : Option Bool}
    (created : scDynamicStoreCreateWithOptions os n name useSessionKeys (some st) = .ok w) {events : List Event}
    (meets : Runs.Meets (step os) (fun w e => Allowed w e ∧ Careful os w e) w events) :
    Runs.Along (step os) (fun w => w.outOfBounds = false) w events ∧
    ∀ before newServer port after, events = before ++ .noSenders newServer port :: after →
      (∃ n st, session os newServer (Runs.run (step os) w before) = .ok (n,st)) → (∀ e ∈ after, e ≠ .died) →
      Informed os (Runs.run (step os) w events) ∧
        (Runs.run (step os) w (before ++ [.noSenders newServer port])).client.dispatchSource = some port ∧
        ∃ told, told ≠ [] ∧ (Runs.run (step os) w (before ++ [.noSenders newServer port])).callouts =
          (Runs.run (step os) w before).callouts ++ told := by
  have initial := created_sound reachable.atRest fresh created
  have keeps (w : World Regex) (e : Event) (sound : Sound os w) (guarded : Allowed w e ∧ Careful os w e) :
      Sound os (step os w e) := (step_sound sound guarded.1 guarded.2).1
  refine ⟨(Runs.along_of_meets keeps initial meets).imp fun _ sound => sound.inBounds,?_⟩
  rintro before newServer port after rfl found survives
  obtain ⟨earlier,⟨allowed,careful⟩,later⟩ := Runs.meets_append.mp meets
  have sound := (Runs.along_of_meets keeps initial earlier).last
  obtain ⟨restored,source,told⟩ := noSenders_restores sound allowed found
  let restarted := step os (Runs.run (step os) w before) (.noSenders newServer port)
  have both : Runs.Along (step os) (fun w => Sound os w ∧ Restored w) restarted after := by
    refine Runs.along_of_meets ?_ ⟨(step_sound sound allowed careful).1,restored⟩
      (later.and (Runs.meets_of_mem survives restarted))
    intro w e holds guarded
    obtain ⟨still,registered⟩ := step_sound holds.1 guarded.1.1 guarded.1.2
    exact ⟨still,registered guarded.2 holds.2⟩
  have whole : Runs.run (step os) w (before ++ .noSenders newServer port :: after) =
      Runs.run (step os) (step os (Runs.run (step os) w before) (.noSenders newServer port)) after := by
    simp [Runs.run,List.foldl_append]
  have upTo : Runs.run (step os) w (before ++ [.noSenders newServer port]) =
      step os (Runs.run (step os) w before) (.noSenders newServer port) := by
    simp [Runs.run,List.foldl_append]
  rw [whole,upTo]
  exact ⟨informed_of_restored both.last.1 both.last.2,source,told⟩

def watcher : World CData.CString where
  client := { name := ['w'], useSessionKeys := none, server := some 5 }
  configd := some (configopen 1 ['w'] none 5 {}).2

def untilRestart : List Event :=
  [.addWatchedKey 0 aKey false,.setDispatchQueue 0 7 (some 1),.died,.started]

theorem informed_after_restart_watcher :
    Informed literal (Runs.run (step literal) watcher (untilRestart ++ [.noSenders 6 8])) := by
  have reachable : Reachable literal ({} : State CData.CString) := ⟨[],trivial,rfl⟩
  have fresh (n : Int) (nonzero : n ≠ 0) : Fresh n ({} : State CData.CString) :=
    ⟨nonzero,fun x member => absurd member List.not_mem_nil⟩
  have meets : Runs.Meets (step literal) (fun w e => Allowed w e ∧ Careful literal w e) watcher
      (untilRestart ++ [.noSenders 6 8]) := by
    refine ⟨⟨fun _ closed => absurd ⟨rfl,rfl,rfl⟩ (closed 5 _),(List.not_mem_nil : aKey ∉ [])⟩,
      ⟨⟨fun _ closed => absurd ⟨rfl,rfl,rfl⟩ (closed 5 _),by decide⟩,trivial⟩,⟨trivial,trivial⟩,⟨rfl,trivial⟩,
      ⟨⟨?_,by decide,7,by decide,?_⟩,trivial⟩,trivial⟩
    · rintro _ _ st runs
      obtain rfl := Option.some.inj runs
      exact fresh 6 (by decide)
    · intro st runs x member
      obtain rfl := Option.some.inj runs
      exact absurd member List.not_mem_nil
  have created : scDynamicStoreCreateWithOptions literal 5 ['w'] none (some {}) = .ok watcher := rfl
  exact ((informed_after_restart reachable (fresh 5 (by decide)) created meets).2 untilRestart 6 8 [] rfl
    ⟨6,_,rfl⟩ (by simp)).1

/-- A list with a repeat is taken and recorded, and the new configd refuses it. -/
example : (Runs.run (step literal) watcher [.setNotificationKeys 0 (some [aKey]) none,
    .setNotificationKeys 0 (some [aKey,aKey]) none,.setDispatchQueue 0 7 (some 1),.died,.started,
    .noSenders 6 8]).client.dispatchSource = none := by decide

/-- A client that asks to be told only after the restart is told of nothing. -/
example : ((Runs.run (step literal) watcher [.addWatchedKey 0 aKey false,.died,.started,
    .setDispatchQueue 6 8 (some 1)]).configd.map fun st => st.watchedKeys 6) = some [] := by decide

end FreebsdLaunchd.DynamicStoreClient
