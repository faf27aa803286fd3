import FreebsdLaunchd.DynamicStore.Undisturbed
import FreebsdLaunchd.DynamicStoreClient.Client

/-! What the requests of a client do to its own session of configd. -/
namespace FreebsdLaunchd.DynamicStoreClient
open DynamicStore State Enrolment

variable {Regex : Type} {os : Platform Regex} {st st' : State Regex} {n : Int}

structure Serves (os : Platform Regex) (n : Int) (st : State Regex) : Prop where
  atRest : AtRest os st
  opened : Open st n
  named : Named n st

theorem Serves.registry (serves : Serves os n st) : Registry os st := serves.atRest.consistent.registry

theorem Serves.distinct (serves : Serves os n st) (isRegex : Bool) : (st.registered n isRegex).Nodup := by
  cases isRegex with
  | false => exact serves.registry.table.watchedKeys n
  | true => exact serves.registry.table.watchedPatterns n

theorem Serves.withSession (serves : Serves os n st)
    (operation : StorePrivate → State Regex → Status × State Regex) :
    withSession n operation st = operation (st.deref n) st := by
  rw [DynamicStore.withSession,getSession_own serves.registry serves.opened serves.named]

def notifier (x : StorePrivate) : NotifyStatus × Int := (x.notifyStatus,x.notifyPort)

private theorem spares_notifier (m n : Int) : Spares notifier m n := fun _ _ _ _ => rfl

structure Moved (os : Platform Regex) (n : Int) (lists : Bool → List CFString) (st st' : State Regex) : Prop where
  serves : Serves os n st'
  registered : ∀ isRegex, st'.registered n isRegex = lists isRegex
  told : notifier (st'.deref n) = notifier (st.deref n)

theorem Serves.moves {lists : Bool → List CFString} (serves : Serves os n st) (keepsRegistry : KeepsRegistry os st st')
    (registered : ∀ isRegex, st'.registered n isRegex = lists isRegex) (keeps : Keeps notifier n st st') :
    Moved os n lists st st' :=
  ⟨⟨keepsRegistry.atRest serves.atRest,keeps.opened serves.opened,keeps.named serves.named⟩,registered,keeps.field⟩

def changed (isRegex : Bool) (mine : List CFString) (lists : Bool → List CFString) : Bool → List CFString :=
  fun kind => if kind = isRegex then mine else lists kind

private theorem registered_changed {isRegex : Bool} {mine : List CFString} (reregistered : Reregistered os n isRegex mine st st')
    (kind : Bool) : st'.registered n kind = changed isRegex mine (st.registered n) kind := by
  unfold changed
  split
  · next here =>
    rw [here]
    exact reregistered.mine
  · next other => exact reregistered.others n kind (.inr other)

theorem notifyadd_moves (serves : Serves os n st) (key : CFString) (isRegex : Bool) :
    (notifyadd os n key isRegex st).1 = .ok ∧ key ∉ st.registered n isRegex ∧ accepts os isRegex key = true ∧
        Moved os n (changed isRegex (st.registered n isRegex ++ [key]) (st.registered n)) st
          (notifyadd os n key isRegex st).2 ∨
      (notifyadd os n key isRegex st).1 ≠ .ok ∧ (notifyadd os n key isRegex st).2 = st := by
  have call : notifyadd os n key isRegex st = addWatchedKey os n key isRegex st := by
    rw [notifyadd,serves.withSession,deref_server]
  rw [call]
  by_cases known : key ∈ st.registered n isRegex
  · rw [addWatchedKey_known known]
    exact .inr ⟨by simp,rfl⟩
  · cases accepted : accepts os isRegex key with
    | false =>
      rw [addWatchedKey_refused serves.registry known accepted]
      exact .inr ⟨by simp,rfl⟩
    | true =>
      obtain ⟨ok,added⟩ := addWatchedKey_spec serves.registry serves.atRest.settled.deferred serves.opened known accepted
      exact .inl ⟨ok,known,rfl,serves.moves added.keeps (registered_changed added)
        (keeps_addWatchedKey (spares_notifier n n) key isRegex)⟩

private theorem removeWatchedKey_unknown {key : CFString} {isRegex : Bool} (unknown : key ∉ st.registered n isRegex) :
    removeWatchedKey n key isRegex st = (.noKey,st) := by
  cases isRegex with
  | false =>
    have unknown : key ∉ (st.deref n).keys := unknown
    simp [removeWatchedKey,unknown]
  | true =>
    have unknown : key ∉ (st.deref n).patterns := unknown
    simp [removeWatchedKey,unknown]

theorem notifyremove_moves (serves : Serves os n st) (key : CFString) (isRegex : Bool) :
    (notifyremove n key isRegex st).1 = .ok ∧ key ∈ st.registered n isRegex ∧
        Moved os n (changed isRegex ((st.registered n isRegex).erase key) (st.registered n)) st
          (notifyremove n key isRegex st).2 ∨
      (notifyremove n key isRegex st).1 ≠ .ok ∧ (notifyremove n key isRegex st).2 = st := by
  have call : notifyremove n key isRegex st = removeWatchedKey n key isRegex st := by
    rw [notifyremove,serves.withSession,deref_server]
  rw [call]
  by_cases known : key ∈ st.registered n isRegex
  · obtain ⟨ok,removed⟩ := removeWatchedKey_spec serves.registry serves.opened known
    exact .inl ⟨ok,known,serves.moves removed.keeps (registered_changed removed)
      (keeps_removeWatchedKey (spares_notifier n n) key isRegex)⟩
  · rw [removeWatchedKey_unknown known]
    exact .inr ⟨by simp,rfl⟩

/-- Lists without repeats, and with patterns that compile, are taken. -/
theorem notifyset_moves (serves : Serves os n st) {keys patterns : List CFString} (distinctKeys : keys.Nodup)
    (distinctPatterns : patterns.Nodup) (compile : ∀ p ∈ patterns, Compiles os p = true) :
    (notifyset os n keys patterns st).1 = .ok ∧
      ∃ lists, Moved os n lists st (notifyset os n keys patterns st).2 ∧
        ∀ isRegex k, k ∈ lists isRegex ↔ k ∈ if isRegex then patterns else keys := by
  have settled := serves.atRest.settled.deferred
  have call : notifyset os n keys patterns st = dynamicStoreSetNotificationKeys os n keys patterns st := by
    rw [notifyset,serves.withSession,deref_server]
  have fresh {old wanted : List CFString} (distinct : wanted.Nodup) : (fresh old wanted).Nodup := distinct.filter _
  obtain ⟨status,first⟩ := updateKeys_spec keys false serves.registry settled serves.opened
  have entered : (replace (accepts os false) (st.registered n false) keys).1 = .entered :=
    replace_entered_iff.mpr ⟨fresh distinctKeys,fun _ _ => rfl⟩
  have context : updateKeys os n keys false (.ok,st) = (.ok,(updateKeys os n keys false (.ok,st)).2) :=
    Prod.ext (status.trans (statusOf_ok.mpr entered)) rfl
  obtain ⟨status',second⟩ := updateKeys_spec patterns true first.keeps.1
    (first.keeps.2.deferredRemovals.trans settled) ((first.keeps.2.opened n).mpr serves.opened)
  have before := first.others n true (.inr (by simp))
  rw [before] at status' second
  have entered' : (replace (accepts os true) (st.registered n true) patterns).1 = .entered :=
    replace_entered_iff.mpr ⟨fresh distinctPatterns,fun p member => by
      simpa [accepts] using compile p (mem_fresh.mp member).1⟩
  have set : dynamicStoreSetNotificationKeys os n keys patterns st =
      updateKeys os n patterns true (.ok,(updateKeys os n keys false (.ok,st)).2) := by
    rw [dynamicStoreSetNotificationKeys,← context]
  rw [call]
  have registered (isRegex : Bool) : (dynamicStoreSetNotificationKeys os n keys patterns st).2.registered n isRegex =
      if isRegex then (replace (accepts os true) (st.registered n true) patterns).2
      else (replace (accepts os false) (st.registered n false) keys).2 := by
    rw [set]
    cases isRegex with
    | false => exact (second.others n false (.inr (by simp))).trans first.mine
    | true => exact second.mine
  refine ⟨by rw [set]; exact status'.trans (statusOf_ok.mpr entered'),_,
    serves.moves (setNotificationKeys_registry serves.registry settled serves.opened keys patterns) registered
      (keeps_setNotificationKeys (spares_notifier n n) keys patterns),?_⟩
  intro isRegex k
  cases isRegex with
  | false => exact mem_replace entered k
  | true => exact mem_replace entered' k

/-- A session that is not told yet is told on the port from then on. -/
theorem notifyviaport_moves (serves : Serves os n st) {port : Int} (nonzero : port ≠ 0) :
    (st.deref n).notifyStatus = .notRegistered ∧ (notifyviaport n port 0 st).1 = .ok ∧
        Serves os n (notifyviaport n port 0 st).2 ∧
        (∀ isRegex, (notifyviaport n port 0 st).2.registered n isRegex = st.registered n isRegex) ∧
        notifier ((notifyviaport n port 0 st).2.deref n) = (.informViaMachPort,port) ∨
      (st.deref n).notifyStatus ≠ .notRegistered ∧ (notifyviaport n port 0 st).1 ≠ .ok ∧
        (notifyviaport n port 0 st).2 = st := by
  let f : StorePrivate → StorePrivate := fun x => { x with notifyStatus := .informViaMachPort, notifyPort := port }
  by_cases idle : (st.deref n).notifyStatus = .notRegistered
  · have call : notifyviaport n port 0 st = (.ok,(notifyPending n st).modify n f) := by
      rw [notifyviaport,serves.withSession,deref_server]
      simp [idle,nonzero,f]
    have atRest := (notifyviaport_effect serves.atRest n port 0).atRest
    rw [call] at atRest ⊢
    have pending : Keeps id n st (notifyPending n st) := keeps_of_sessions (sessions_notifyPending n st)
    have still := pending.opened serves.opened
    have modified : Keeps StorePrivate.server n (notifyPending n st) ((notifyPending n st).modify n f) :=
      keeps_modify (fun _ => rfl) (fun _ => id) fun _ _ => rfl
    have derefs : ((notifyPending n st).modify n f).deref n = f (st.deref n) := by
      rw [deref_modify (f := f) (fun _ => rfl) still,if_pos rfl]
      exact congrArg f pending.field
    refine .inl ⟨idle,rfl,⟨atRest,modified.opened still,modified.named (pending.named serves.named)⟩,?_,?_⟩
    · intro isRegex
      rw [State.registered,derefs]
      cases isRegex <;> rfl
    · rw [derefs]
      rfl
  · have call : notifyviaport n port 0 st = (.notifierActive,st) := by
      rw [notifyviaport,serves.withSession]
      simp [idle]
    rw [call]
    exact .inr ⟨idle,by simp,rfl⟩

private theorem registered_of_registration (same : (st'.deref n).registration = (st.deref n).registration)
    (isRegex : Bool) :
    st'.registered n isRegex = st.registered n isRegex := by
  obtain ⟨keys,patterns,_⟩ : _ ∧ _ ∧ _ := by simpa [StorePrivate.registration] using same
  cases isRegex with
  | false => exact keys
  | true => exact patterns

private theorem notifier_of_registration (same : (st'.deref n).registration = (st.deref n).registration) :
    notifier (st'.deref n) = notifier (st.deref n) :=
  congrArg (fun r => (r.2.2.1,r.2.2.2)) same

/-- A request that registers nothing for the session and cancels nothing. -/
theorem step_moves (serves : Serves os n st) {r : Request} (admissible : Admissible st r) (foreign : Foreign n st r) :
    Moved os n (st.registered n) st (DynamicStore.step os st r) := by
  have keeps := step_keeps serves.atRest serves.opened admissible foreign
  exact ⟨⟨(step_effect serves.atRest admissible).atRest,keeps.opened serves.opened,keeps.named serves.named⟩,
    registered_of_registration keeps.field,notifier_of_registration keeps.field⟩

theorem notifychanges_moves (serves : Serves os n st) : Moved os n (st.registered n) st (notifychanges n st).2 := by
  have keeps : Keeps StorePrivate.registration n st (notifychanges n st).2 :=
    keeps_of_sessions (sessions_notifychanges n st)
  exact ⟨⟨(notifychanges_effect serves.atRest n).atRest,keeps.opened serves.opened,keeps.named serves.named⟩,
    registered_of_registration keeps.field,notifier_of_registration keeps.field⟩

/-- The number is that of no session and of no task that a session has registered. -/
def Fresh (newServer : Int) (st : State Regex) : Prop :=
  newServer ≠ 0 ∧ ∀ x ∈ st.live, x.server ≠ newServer ∧ x.notifySignalTask ≠ newServer

/-- A session that has just been opened watches nothing and is not told. -/
theorem configopen_serves (atRest : AtRest os st) (fresh : Fresh n st) {server : Int} {name : CFString}
    {useSessionKeys : Option Bool} (ok : (configopen server name useSessionKeys n st).1 = .ok) :
    Serves os n (configopen server name useSessionKeys n st).2 ∧
      (∀ isRegex, (configopen server name useSessionKeys n st).2.registered n isRegex = []) ∧
      notifier ((configopen server name useSessionKeys n st).2.deref n) = (.notRegistered,0) := by
  have table := atRest.consistent.registry.table
  have unused (x : StorePrivate) (member : x ∈ st.live) : x.server ≠ n := (fresh.2 x member).1
  have resting := (configopen_atRest server atRest fresh.1 unused name useSessionKeys).1
  let new : StorePrivate := { server := n, useSessionKeys := useSessionKeys.getD false }
  have members (x : StorePrivate) : x ∈ (configopen server name useSessionKeys n st).2.live ↔ x = new ∨ x ∈ st.live := by
    unfold configopen at ok ⊢
    cases added : addSession server n st with
    | none =>
      rw [added] at ok
      cases ok
    | some joined =>
      obtain ⟨_,rfl⟩ := addSession_opened (useSessionKeys.getD false) table fresh.1 unused added
      have perm : (State.live { st with sessions := fillSlot { server := n } st.sessions }).Perm
          ({ server := n } :: st.live) := filterMap_fillSlot _ st.sessions
      let f : StorePrivate → StorePrivate := fun x => { x with useSessionKeys := useSessionKeys.getD false }
      have others : (st.modify n f).live = st.live := by
        apply modify_of_closed
        rintro ⟨y,member,same⟩
        exact unused y member same
      rw [live_modify] at others
      change x ∈ (State.modify { st with sessions := fillSlot { server := n } st.sessions } n f).live ↔ _
      rw [live_modify,(perm.map _).mem_iff,List.map_cons,if_pos rfl,List.mem_cons,others]
  have derefs : (configopen server name useSessionKeys n st).2.deref n = new :=
    resting.consistent.registry.table.deref ((members new).mpr (.inl rfl))
  refine ⟨⟨resting,⟨new,(members new).mpr (.inl rfl),rfl⟩,?_⟩,?_,?_⟩
  · intro x member
    rcases (members x).mp member with rfl | old
    · exact fresh.1.symm
    · exact (fresh.2 x old).2
  · intro isRegex
    rw [State.registered,derefs]
    cases isRegex <;> rfl
  · rw [derefs]
    rfl

end FreebsdLaunchd.DynamicStoreClient
