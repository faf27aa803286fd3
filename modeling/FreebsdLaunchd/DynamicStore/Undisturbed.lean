import FreebsdLaunchd.DynamicStore.Notices
import FreebsdLaunchd.DynamicStore.Rewatching

/-! What the requests of others leave of a session: it stays open, under its
own number, with the keys it watches and the port it is told on. -/
namespace FreebsdLaunchd.DynamicStore
open State CData

variable {Regex : Type} {os : Platform Regex} {st st' : State Regex} {n m : Int}
variable {α : Type} {field : StorePrivate → α}

/-- No task that a session has registered goes by the number `n`. -/
def Named (n : Int) (st : State Regex) : Prop := ∀ x ∈ st.live, x.notifySignalTask ≠ n

theorem getSession_own (registry : Registry os st) (isOpen : Open st n) (named : Named n st) :
    st.getSession n = some (st.deref n) := by
  obtain ⟨x,member,rfl⟩ := isOpen
  have alike : st.live.find? (fun y => y.server = x.server ∨ y.notifySignalTask = x.server) =
      st.live.find? fun y => y.server = x.server := by
    rw [← List.head?_filter,← List.head?_filter]
    apply congrArg
    apply List.filter_congr
    intro y inside
    simp [named y inside]
  rw [State.getSession,if_neg (registry.table.nonzero x member),alike,registry.table.find member,
    registry.table.deref member]

/-! ## What a session keeps -/

/-- Session `n` keeps `field`, and is found under its number if it was. -/
structure Keeps (field : StorePrivate → α) (n : Int) (st st' : State Regex) : Prop where
  field : field (st'.deref n) = field (st.deref n)
  opened : Open st n → Open st' n
  named : Named n st → Named n st'

theorem Keeps.refl (field : StorePrivate → α) (n : Int) (st : State Regex) : Keeps field n st st :=
  ⟨rfl,id,id⟩

theorem Keeps.trans {a b c : State Regex} (first : Keeps field n a b) (second : Keeps field n b c) :
    Keeps field n a c :=
  ⟨second.field.trans first.field,second.opened ∘ first.opened,second.named ∘ first.named⟩

theorem Keeps.foldl {β : Type} {f : State Regex → β → State Regex} (each : ∀ st b, Keeps field n st (f st b))
    (l : List β) (st : State Regex) : Keeps field n st (l.foldl f st) := by
  induction l generalizing st with
  | nil => exact .refl field n st
  | cons b rest ih => exact (each st b).trans (ih (f st b))

/-- A fold that carries a result beside the state. -/
theorem Keeps.foldlSnd {β γ : Type} {f : γ × State Regex → β → γ × State Regex}
    (each : ∀ c b, Keeps field n c.2 (f c b).2) (l : List β) (c : γ × State Regex) :
    Keeps field n c.2 (l.foldl f c).2 := by
  induction l generalizing c with
  | nil => exact .refl field n c.2
  | cons b rest ih => exact (each c b).trans (ih (f c b))

theorem keeps_of_sessions (sessions : st'.sessions = st.sessions) : Keeps field n st st' := by
  have live : st'.live = st.live := by rw [State.live,sessions,State.live]
  refine ⟨?_,?_,?_⟩
  · rw [deref_of_sessions sessions]
  · rw [open_of_eq sessions]
    exact id
  · rw [Named,Named,live]
    exact id

theorem modify_of_closed (closed : ¬ Open st m) (f : StorePrivate → StorePrivate) : (st.modify m f).live = st.live := by
  rw [live_modify,List.map_congr_left (g := id)]
  · exact List.map_id _
  · intro x member
    rw [if_neg fun same => closed ⟨x,member,same⟩]
    rfl

theorem keeps_modify {f : StorePrivate → StorePrivate} (server : ∀ x, (f x).server = x.server)
    (task : ∀ x, x.notifySignalTask ≠ n → (f x).notifySignalTask ≠ n)
    (same : m = n → ∀ x, field (f x) = field x) : Keeps field n st (st.modify m f) := by
  refine ⟨?_,(open_modify server n).mpr,?_⟩
  · by_cases isOpen : Open st m
    · rw [deref_modify server isOpen]
      split
      · next here =>
        rw [same here.symm,here]
      · rfl
    · rw [State.deref,modify_of_closed isOpen,State.deref]
  · intro named x member
    rw [live_modify] at member
    obtain ⟨y,inside,rfl⟩ := List.mem_map.mp member
    split
    · exact task y (named y inside)
    · exact named y inside

/-! ## Watching and ceasing to watch -/

/-- A session `m` that changes what it watches leaves `field` of session `n` alone. -/
def Spares (field : StorePrivate → α) (m n : Int) : Prop :=
  m = n → ∀ x keys patterns, field { x with keys := keys, patterns := patterns } = field x

private theorem spares_of_ne (apart : m ≠ n) : Spares field m n := fun same => absurd same apart

private theorem sessions_patternAddSession (pattern : CFString) (m : Int) (st : State Regex) :
    (patternAddSession os pattern m st).2.sessions = st.sessions := by
  unfold patternAddSession
  split
  · rfl
  · exact (SameValues.foldl (fun st key => sameValues_addWatcher m key st) _ _).sessions

theorem keeps_addWatchedKey (spares : Spares field m n) (key : CFString) (isRegex : Bool) :
    Keeps field n st (addWatchedKey os m key isRegex st).2 := by
  simp only [addWatchedKey]
  split
  · split
    · exact .refl field n st
    · have sessions : (patternAddSession os key (st.deref m).server st).2.sessions = st.sessions :=
        sessions_patternAddSession key (st.deref m).server st
      cases added : patternAddSession os key (st.deref m).server st with
      | mk entered after =>
        rw [added] at sessions
        have listed : Keeps field n after (after.modify m fun x => { x with patterns := x.patterns ++ [key] }) :=
          keeps_modify (fun _ => rfl) (fun _ => id) fun same x => spares same x x.keys (x.patterns ++ [key])
        cases entered with
        | false => exact keeps_of_sessions sessions
        | true => exact (keeps_of_sessions sessions).trans listed
  · split
    · exact .refl field n st
    · have watched : Keeps field n st (addWatcher (st.deref m).server key st) := keeps_of_sessions rfl
      exact watched.trans (keeps_modify (f := fun x => { x with keys := x.keys ++ [key] }) (fun _ => rfl)
        (fun _ => id) fun same x => spares same x (x.keys ++ [key]) x.patterns)

theorem keeps_removeWatchedKey (spares : Spares field m n) (key : CFString) (isRegex : Bool) :
    Keeps field n st (removeWatchedKey m key isRegex st).2 := by
  simp only [removeWatchedKey]
  split
  · split
    · exact .refl field n st
    · have dropped : Keeps field n st (st.modify m fun x => { x with patterns := x.patterns.erase key }) :=
        keeps_modify (fun _ => rfl) (fun _ => id) fun same x => spares same x x.keys (x.patterns.erase key)
      exact dropped.trans (keeps_of_sessions (sessions_patternRemoveSession key _ _))
  · split
    · exact .refl field n st
    · have dropped : Keeps field n st (st.modify m fun x => { x with keys := x.keys.erase key }) :=
        keeps_modify (fun _ => rfl) (fun _ => id) fun same x => spares same x (x.keys.erase key) x.patterns
      exact dropped.trans (keeps_of_sessions (sameValues_removeWatcher _ key _).sessions)

private theorem keeps_updateKeys (spares : Spares field m n) (wanted : List CFString) (isRegex : Bool)
    (context : Status × State Regex) : Keeps field n context.2 (updateKeys os m wanted isRegex context).2 := by
  have removed : ∀ (c : Status × State Regex) (key : CFString),
      Keeps field n c.2 (removeOldKey m wanted isRegex c key).2 := by
    intro c key
    unfold removeOldKey
    split
    · exact .refl field n c.2
    · split
      · exact keeps_removeWatchedKey spares key isRegex
      · exact .refl field n c.2
  have added : ∀ (old : List CFString) (c : Status × State Regex) (key : CFString),
      Keeps field n c.2 (addNewKey os m old isRegex c key).2 := by
    intro old c key
    unfold addNewKey
    split
    · exact .refl field n c.2
    · split
      · exact keeps_addWatchedKey spares key isRegex
      · exact .refl field n c.2
  exact (Keeps.foldlSnd removed _ context).trans (Keeps.foldlSnd (added _) wanted _)

theorem keeps_setNotificationKeys (spares : Spares field m n) (keys patterns : List CFString) :
    Keeps field n st (dynamicStoreSetNotificationKeys os m keys patterns st).2 :=
  (keeps_updateKeys spares keys false (.ok,st)).trans (keeps_updateKeys spares patterns true _)

/-! ## Opening and closing another session -/

private theorem keeps_notifyCancel (nonzero : n ≠ 0) (apart : m ≠ n) :
    Keeps field n st (dynamicStoreNotifyCancel m st) := by
  let f : StorePrivate → StorePrivate := fun x => { x with
    notifyPort := 0
    notifyFile := -1
    notifySignal := if x.notifySignal > 0 then 0 else x.notifySignal
    notifySignalTask := if x.notifySignal > 0 then 0 else x.notifySignalTask
    notifyStatus := .notRegistered }
  have modified : Keeps field n st (st.modify m f) := by
    refine keeps_modify (fun _ => rfl) ?_ fun same => absurd same apart
    intro x named
    by_cases signalled : x.notifySignal > 0
    · simpa [f,signalled] using nonzero.symm
    · simpa [f,signalled] using named
  exact modified.trans (keeps_of_sessions rfl)

private theorem keeps_cleanupSession (atRest : AtRest os st) (nonzero : n ≠ 0) (apart : m ≠ n) :
    Keeps field n st (cleanupSession os m st) := by
  by_cases isOpen : Open st m
  · have spares : Spares field m n := spares_of_ne apart
    have keys : Keeps field n st (removeAllKeys m false st) :=
      Keeps.foldl (fun st key => keeps_removeWatchedKey spares key false) _ st
    have patterns : Keeps field n (removeAllKeys m false st) (removeAllKeys m true (removeAllKeys m false st)) :=
      Keeps.foldl (fun st key => keeps_removeWatchedKey spares key true) _ _
    have cancelled : Keeps field n (removeAllKeys m true (removeAllKeys m false st)) (silenceSession m st) :=
      keeps_notifyCancel nonzero apart
    have silenced := silenceSession_spec atRest isOpen
    have closed : Keeps field n (silenceSession m st) (closeKeys os m (silenceSession m st)) :=
      keeps_of_sessions (closeKeys_performed silenced.atRest (sessionKey m)
        ((silenceSession m st).sessionKeysOf (sessionKey m))).sessions
    have vacated := closeKeys_vacated atRest isOpen
    have registry := vacated.atRest.consistent.registry
    have still : Open (closeKeys os m (silenceSession m st)) m := by
      rw [vacated.opened]
      exact isOpen
    rw [cleanupSession_eq isOpen (getSession_isSome registry still)]
    refine (((keys.trans patterns).trans cancelled).trans closed).trans ⟨?_,?_,?_⟩
    · rw [deref_dropSession registry.table,if_neg apart.symm]
    · exact fun isOpen => (open_dropSession m n _).mpr ⟨apart.symm,isOpen⟩
    · intro named x member
      rw [live_dropSession] at member
      exact named x (List.mem_of_mem_filter member)
  · rw [cleanupSession_of_closed isOpen]
    exact .refl field n st

private theorem find_fillSlot {β : Type} {p : β → Bool} {x : β} (passed : p x = false) (slots : List (Option β)) :
    ((fillSlot x slots).filterMap id).find? p = (slots.filterMap id).find? p := by
  induction slots with
  | nil => simp [fillSlot,passed]
  | cons slot rest ih =>
    cases slot with
    | none => simp [fillSlot,passed]
    | some y =>
      simp only [fillSlot,List.filterMap_cons_some (f := id) (b := y) rfl,List.find?_cons,ih]

private theorem keeps_configopen {newServer : Int} (atRest : AtRest os st) (nonzero : newServer ≠ 0)
    (fresh : ∀ x ∈ st.live, x.server ≠ newServer) (isOpen : Open st n) (server : Int) (name : CFString)
    (useSessionKeys : Option Bool) : Keeps field n st (configopen server name useSessionKeys newServer st).2 := by
  have table := atRest.consistent.registry.table
  obtain ⟨x,member,rfl⟩ := isOpen
  have apart := fresh x member
  unfold configopen
  cases added : addSession server newServer st with
  | none => exact .refl field x.server st
  | some joined =>
    obtain ⟨opened,rfl⟩ := addSession_opened (useSessionKeys.getD false) table nonzero fresh added
    let entered : State Regex := { st with sessions := fillSlot { server := newServer } st.sessions }
    have members (y : StorePrivate) : y ∈ entered.live ↔ y = { server := newServer } ∨ y ∈ st.live := by
      have perm : entered.live.Perm ({ server := newServer } :: st.live) := filterMap_fillSlot _ st.sessions
      rw [perm.mem_iff,List.mem_cons]
    have joins : Keeps field x.server st entered := by
      refine ⟨?_,fun _ => ⟨x,(members x).mpr (.inr member),rfl⟩,?_⟩
      · have found : entered.live.find? (fun y => y.server = x.server) =
            st.live.find? fun y => y.server = x.server := find_fillSlot (by simpa using apart.symm) st.sessions
        rw [State.deref,found,State.deref]
      · intro named y inside
        rcases (members y).mp inside with rfl | old
        · exact (table.nonzero x member).symm
        · exact named y old
    have flagged : Keeps field x.server entered
        (entered.modify newServer fun x => { x with useSessionKeys := useSessionKeys.getD false }) :=
      keeps_modify (fun _ => rfl) (fun _ => id) fun same => absurd same.symm apart
    exact (joins.trans flagged).trans (keeps_of_sessions rfl)

/-! ## Being told -/

def StorePrivate.registration (x : StorePrivate) : List CFString × List CFString × NotifyStatus × Int :=
  (x.keys,x.patterns,x.notifyStatus,x.notifyPort)

private theorem keeps_pushNotification (nonzero : n ≠ 0) (answers : PushAnswers) (context : List Delivery × State Regex)
    (server : Int) : Keeps StorePrivate.registration n context.2 (pushNotification answers context server).2 := by
  obtain ⟨sent,st⟩ := context
  have same : Keeps StorePrivate.registration n st st := .refl _ n st
  simp only [pushNotification]
  cases st.getSession server with
  | none => exact keeps_of_sessions rfl
  | some store =>
    simp only
    split
    · exact same
    · split <;> exact same
    · split
      · split
        · exact same
        · exact same
        · exact keeps_modify (fun _ => rfl) (fun _ => id) fun _ _ => rfl
      · exact same
    · split
      · split
        · exact same
        · exact keeps_modify (fun _ => rfl) (fun _ _ => nonzero.symm) fun _ _ => rfl
      · exact same

private theorem pushNotification_sends (answers : PushAnswers) (context : List Delivery × State Regex) (server : Int) :
    context.1 <+: (pushNotification answers context server).1 := by
  obtain ⟨sent,st⟩ := context
  simp only [pushNotification]
  cases st.getSession server with
  | none => exact List.prefix_rfl
  | some store =>
    simp only
    split
    · exact List.prefix_rfl
    · split
      · exact List.prefix_append _ _
      · exact List.prefix_rfl
    · split
      · split
        · exact List.prefix_append _ _
        · exact List.prefix_rfl
        · exact List.prefix_rfl
      · exact List.prefix_rfl
    · split
      · split
        · exact List.prefix_append _ _
        · exact List.prefix_rfl
      · exact List.prefix_rfl

structure Told (n port : Int) (st : State Regex) : Prop where
  opened : Open st n
  named : Named n st
  status : (st.deref n).notifyStatus = .informViaMachPort
  address : (st.deref n).notifyPort = port
  nonzero : port ≠ 0

theorem Told.keeps {port : Int} (told : Told n port st) (keeps : Keeps StorePrivate.registration n st st') :
    Told n port st' := by
  obtain ⟨_,_,status,registered⟩ : _ ∧ _ ∧ _ ∧ _ := by
    simpa [StorePrivate.registration] using keeps.field
  exact ⟨keeps.opened told.opened,keeps.named told.named,status.trans told.status,registered.trans told.address,
    told.nonzero⟩

private theorem foldl_pushNotification_sends (answers : PushAnswers) (l : List Int)
    (context : List Delivery × State Regex) :
    context.1 <+: (l.foldl (pushNotification answers) context).1 := by
  induction l generalizing context with
  | nil => exact List.prefix_rfl
  | cons server rest ih => exact (pushNotification_sends answers context server).trans (ih _)

private theorem foldl_pushNotification_told {port : Int} (answers : PushAnswers) {l : List Int} (member : n ∈ l)
    {context : List Delivery × State Regex} (registry : Registry os context.2)
    (isOpen : ∀ s ∈ l, Open context.2 s) (told : Told n port context.2) :
    .message n port ∈ (l.foldl (pushNotification answers) context).1 := by
  have nonzero : n ≠ 0 := by
    obtain ⟨x,inside,rfl⟩ := told.opened
    exact registry.table.nonzero x inside
  induction l generalizing context with
  | nil => cases member
  | cons server rest ih =>
    rw [List.foldl_cons]
    rcases List.mem_cons.mp member with rfl | later
    · have sent : .message n port ∈ (pushNotification answers context n).1 := by
        simp [pushNotification,getSession_own registry told.opened told.named,told.status,told.address,told.nonzero,
          deref_server]
      exact (foldl_pushNotification_sends answers rest _).subset sent
    · have kept := (pushNotification_keeps answers registry (isOpen server List.mem_cons_self)).1
      exact ih later kept.1 (fun s inside => (kept.2.opened s).mpr (isOpen s (List.mem_cons_of_mem _ inside)))
        (told.keeps (keeps_pushNotification nonzero answers context server))

theorem pushNotifications_told {port : Int} (atRest : AtRest os st) (told : Told n port st)
    (due : n ∈ st.needsNotification) (answers : PushAnswers) :
    .message n port ∈ (pushNotifications os answers st).1 := by
  have noted := atRest.consistent.noted
  have listed (s : Int) : s ∈ (os.order _ st.needsNotification).reverse ↔ s ∈ st.needsNotification := by
    rw [List.mem_reverse,(os.order_perm _ st.needsNotification).mem_iff]
  exact foldl_pushNotification_told answers ((listed n).mpr due) atRest.consistent.registry
    (fun s member => noted.needs s ((listed s).mp member)) told

/-! ## Every request -/

def Foreign (n : Int) (st : State Regex) : Request → Prop
  | .notifyadd server _ _ | .notifyremove server _ _ | .notifyset server _ _ | .notifyviaport server _ _
  | .notifyviafd server _ _ | .notifycancel server =>
    ∀ store, st.getSession server = some store → store.server ≠ n
  | .notifyviasignal server task _ _ _ =>
    task ≠ n ∧ ∀ store, st.getSession server = some store → store.server ≠ n
  | .cleanupSession server => server ≠ n
  | _ => True

private theorem keeps_withSession {server : Int} {operation : StorePrivate → State Regex → Status × State Regex}
    (each : ∀ store, st.getSession server = some store → Keeps field n st (operation store st).2) :
    Keeps field n st (withSession server operation st).2 := by
  unfold withSession
  cases found : st.getSession server with
  | none => exact .refl field n st
  | some store => exact each store found

private theorem sessions_withAccess {session : Option StorePrivate} {access : Bool}
    {operation : StorePrivate → State Regex → Status × State Regex}
    (each : ∀ store, session = some store → (operation store st).2.sessions = st.sessions) :
    (withAccess session access operation st).2.sessions = st.sessions := by
  cases session with
  | none => rfl
  | some store =>
    cases access with
    | false => rfl
    | true => exact each store rfl

theorem sessions_notifyPending (n : Int) (st : State Regex) : (notifyPending n st).sessions = st.sessions := by
  unfold notifyPending
  split
  · rfl
  · split <;> rfl

theorem sessions_notifychanges (server : Int) (st : State Regex) :
    (notifychanges server st).2.sessions = st.sessions := by
  unfold notifychanges
  cases st.getSession server with
  | none => rfl
  | some store =>
    simp only [copyNotifiedKeys_eq]
    split <;> rfl

private theorem keeps_register {f : StorePrivate → StorePrivate} (server : ∀ x, (f x).server = x.server)
    (task : ∀ x, x.notifySignalTask ≠ n → (f x).notifySignalTask ≠ n) (apart : m ≠ n) :
    Keeps field n st ((notifyPending m st).modify m f) :=
  (keeps_of_sessions (sessions_notifyPending m st)).trans
    (keeps_modify server task fun same => absurd same apart)

theorem step_keeps (atRest : AtRest os st) (isOpen : Open st n) {r : Request} (admissible : Admissible st r)
    (foreign : Foreign n st r) : Keeps StorePrivate.registration n st (step os st r) := by
  have nonzero : n ≠ 0 := by
    obtain ⟨x,member,rfl⟩ := isOpen
    exact atRest.consistent.registry.table.nonzero x member
  cases r with
  | configopen server name useSessionKeys newServer =>
    exact keeps_configopen atRest admissible.1 admissible.2 isOpen server name useSessionKeys
  | configset server key data access =>
    exact keeps_of_sessions (sessions_withAccess fun store found =>
      (setValue_performed atRest (sessionFor_open found) key data).sessions)
  | configadd server key data access =>
    exact keeps_of_sessions (sessions_withAccess fun store found =>
      (addValue_performed atRest (sessionFor_open found) key data).sessions)
  | configaddS server key data access =>
    exact keeps_of_sessions (sessions_withAccess fun store found =>
      have isOpen := getSession_open found
      have own : ({ store with useSessionKeys := true } : StorePrivate).useSessionKeys = true →
          Open st ({ store with useSessionKeys := true } : StorePrivate).server := fun _ => isOpen
      (addValue_performed atRest own key data).sessions)
  | configremove server key access =>
    exact keeps_of_sessions (sessions_withAccess fun _ _ => (removeValue_performed atRest key).sessions)
  | confignotify server key access =>
    exact keeps_of_sessions (sessions_withAccess fun store found =>
      (notifyValue_performed atRest (sessionFor_open found) key).sessions)
  | configsetM server dict remove notify access =>
    exact keeps_of_sessions (sessions_withAccess fun store found =>
      (setMultiple_performed atRest (sessionFor_open found) dict remove notify).sessions)
  | notifyadd server key isRegex =>
    exact keeps_withSession fun store found =>
      keeps_addWatchedKey (spares_of_ne (foreign store found)) key isRegex
  | notifyremove server key isRegex =>
    exact keeps_withSession fun store found =>
      keeps_removeWatchedKey (spares_of_ne (foreign store found)) key isRegex
  | notifyset server keys patterns =>
    exact keeps_withSession fun store found =>
      keeps_setNotificationKeys (spares_of_ne (foreign store found)) keys patterns
  | notifychanges server => exact keeps_of_sessions (sessions_notifychanges server st)
  | notifyviaport server port identifier =>
    refine keeps_withSession fun store found => ?_
    split
    · exact .refl _ n st
    · split
      · exact .refl _ n st
      · split
        · exact .refl _ n st
        · exact keeps_register (fun _ => rfl) (fun _ => id) (foreign store found)
  | notifyviafd server fd identifier =>
    refine keeps_withSession fun store found => ?_
    split
    · exact .refl _ n st
    · exact keeps_register (fun _ => rfl) (fun _ => id) (foreign store found)
  | notifyviasignal server task own nsig sig =>
    refine keeps_withSession fun store found => ?_
    split
    · exact .refl _ n st
    · split
      · exact .refl _ n st
      · split
        · exact .refl _ n st
        · exact keeps_register (fun _ => rfl) (fun _ _ => foreign.1) (foreign.2 store found)
  | notifycancel server =>
    exact keeps_withSession fun store found => keeps_notifyCancel nonzero (foreign store found)
  | cleanupSession server => exact keeps_cleanupSession atRest nonzero foreign
  | pushNotifications answers =>
    have pushed := Keeps.foldlSnd (keeps_pushNotification nonzero answers)
      (os.order _ st.needsNotification).reverse ([],st)
    exact pushed.trans (keeps_of_sessions rfl)

end FreebsdLaunchd.DynamicStore
