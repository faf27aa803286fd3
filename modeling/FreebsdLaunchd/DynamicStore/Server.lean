import FreebsdLaunchd.DynamicStore.Operations
import FreebsdLaunchd.Library.Runs
import Mathlib.Data.List.DropRight

/-! configd as its clients see it: the session table, the handler of each
request once its arguments are unserialized, the clean-up after a client is
gone and the notifications sent when a round of the server loop ends. -/
namespace FreebsdLaunchd.DynamicStore

variable {Regex : Type} (os : Platform Regex)

/-! ## The session table -/

def fillSlot {α : Type} (x : α) : List (Option α) → List (Option α)
  | [] => [some x]
  | none::rest => some x :: rest
  | some y::rest => some y :: fillSlot x rest

def addSession (server mp : Int) (st : State Regex) : Option (State Regex) :=
  if st.live.any fun x => x.server = server ∨ x.notifySignalTask = server then none
  else some { st with sessions := fillSlot { server := mp } st.sessions }

def configopen (server : Int) (name : CFString) (useSessionKeys : Option Bool) (mp : Int)
    (st : State Regex) : Status × State Regex :=
  match addSession server mp st with
  | none => (.failed,st)
  | some st =>
    let st := st.modify mp fun x => { x with useSessionKeys := useSessionKeys.getD false }
    let newInfo := (st.sessionData.lookup (sessionKey mp)).getD {}
    (.ok,{ st with
      sessionData := st.sessionData.insert (sessionKey mp) { newInfo with name := some name } })

def isMySessionKey (session key : CFString) (st : State Regex) : Bool :=
  match st.storeData.lookup key with
  | none => false
  | some dict => dict.session = some session

def removeAllKeys (server : Int) (isRegex : Bool) (st : State Regex) : State Regex :=
  ((st.deref server).registered isRegex).foldl
    (fun st key => (removeWatchedKey server key isRegex st).2) st

/-- One round of the loop that removes the session's keys: whether a push is
due, and the state. -/
def removeSessionKey (session : CFString) (context : Bool × State Regex) (key : CFString) :
    Bool × State Regex :=
  if isMySessionKey session key context.2 then
    (true,(dynamicStoreRemoveValue os key true context.2).2)
  else context

def dynamicStoreClose (server : Int) (st : State Regex) : State Regex :=
  let st := removeAllKeys server false st
  let st := removeAllKeys server true st
  let st := dynamicStoreNotifyCancel server st
  let dict := (st.sessionData.lookup (sessionKey server)).getD {}
  let keys := dict.sessionKeys.getD []
  let (push,st) := keys.foldl (removeSessionKey os (sessionKey server)) (false,st)
  let st := if push then dynamicStorePush os st else st
  match st.getSession server with
  | none => { st with assertionFailed := true }
  | some _ => st

def clearSlot (server : Int) (slots : List (Option StorePrivate)) : List (Option StorePrivate) :=
  let cleared := slots.map fun slot => if slot.any (·.server = server) then none else slot
  match cleared.getLast? with
  | some none => cleared.rdropWhile Option.isNone
  | _ => cleared

def cleanupSession (server : Int) (st : State Regex) : State Regex :=
  match st.live.find? fun x => x.server = server with
  | none => st
  | some _ =>
    let st := dynamicStoreClose os server st
    { st with
      sessionData := st.sessionData.erase (sessionKey server)
      sessions := clearSlot server st.sessions }

/-! ## Requests -/

def tempSession (server : Int) : Option StorePrivate :=
  if server = os.servicePort then some { server := 0 } else none

def sessionFor (server : Int) (st : State Regex) : Option StorePrivate :=
  match st.getSession server with
  | some store => some store
  | none => tempSession os server

/-- A request that writes: it needs a session and, for the keys it names, the
answer `access` of `hasWriteAccess`. -/
def withAccess (session : Option StorePrivate) (access : Bool)
    (operation : StorePrivate → State Regex → Status × State Regex) (st : State Regex) :
    Status × State Regex :=
  match session with
  | none => (.noStoreSession,st)
  | some store => if access then operation store st else (.accessError,st)

def configset (server : Int) (key : CFString) (data : CFData) (access : Bool) (st : State Regex) :
    Status × State Regex :=
  withAccess (sessionFor os server st) access
    (fun store => dynamicStoreSetValue os store key data false) st

def configadd (server : Int) (key : CFString) (data : CFData) (access : Bool) (st : State Regex) :
    Status × State Regex :=
  withAccess (sessionFor os server st) access (fun store => dynamicStoreAddValue os store key data) st

def configaddS (server : Int) (key : CFString) (data : CFData) (access : Bool) (st : State Regex) :
    Status × State Regex :=
  withAccess (st.getSession server) access
    (fun store => dynamicStoreAddValue os { store with useSessionKeys := true } key data) st

def configremove (server : Int) (key : CFString) (access : Bool) (st : State Regex) :
    Status × State Regex :=
  withAccess (sessionFor os server st) access (fun _ => dynamicStoreRemoveValue os key false) st

def confignotify (server : Int) (key : CFString) (access : Bool) (st : State Regex) :
    Status × State Regex :=
  withAccess (sessionFor os server st) access
    (fun store => dynamicStoreNotifyValue os store key false) st

def configsetM (server : Int) (dict : List (Plist × Plist)) (remove notify : List Plist)
    (access : Bool) (st : State Regex) : Status × State Regex :=
  withAccess (sessionFor os server st) access
    (fun store => dynamicStoreSetMultiple os store dict remove notify) st

def withSession (server : Int) (operation : StorePrivate → State Regex → Status × State Regex)
    (st : State Regex) : Status × State Regex :=
  match st.getSession server with
  | none => (.noStoreSession,st)
  | some store => operation store st

def notifyadd (server : Int) (key : CFString) (isRegex : Bool) (st : State Regex) :
    Status × State Regex :=
  withSession server (fun store => addWatchedKey os store.server key isRegex) st

def notifyremove (server : Int) (key : CFString) (isRegex : Bool) (st : State Regex) :
    Status × State Regex :=
  withSession server (fun store => removeWatchedKey store.server key isRegex) st

def notifyset (server : Int) (keys patterns : List CFString) (st : State Regex) :
    Status × State Regex :=
  withSession server (fun store => dynamicStoreSetNotificationKeys os store.server keys patterns) st

def notifychanges (server : Int) (st : State Regex) : List CFString × State Regex :=
  match st.getSession server with
  | none => ([],st)
  | some store => dynamicStoreCopyNotifiedKeys store.server st

def notifycancel (server : Int) (st : State Regex) : Status × State Regex :=
  withSession server (fun store st => (.ok,dynamicStoreNotifyCancel store.server st)) st

def notifyPending (server : Int) (st : State Regex) : State Regex :=
  match st.sessionData.lookup (sessionKey server) with
  | none => st
  | some info =>
    if info.changedKeys.isSome then
      { st with needsNotification := st.needsNotification.insert server }
    else st

def notifyviaport (server port identifier : Int) (st : State Regex) : Status × State Regex :=
  withSession server (fun store st =>
    if store.notifyStatus ≠ .notRegistered then (.notifierActive,st)
    else if identifier ≠ 0 then (.invalidArgument,st)
    else if port = 0 then (.invalidArgument,st)
    else (.ok,(notifyPending store.server st).modify store.server fun x => { x with
      notifyStatus := .informViaMachPort
      notifyPort := port })) st

def notifyviafd (server fd identifier : Int) (st : State Regex) : Status × State Regex :=
  withSession server (fun store st =>
    if store.notifyStatus ≠ .notRegistered then (.notifierActive,st)
    else (.ok,(notifyPending store.server st).modify store.server fun x => { x with
      notifyStatus := .informViaFD
      notifyFile := fd
      notifyFileIdentifier := identifier })) st

/-- `own` is whether the task is configd's, `nsig` the platform's `NSIG`. -/
def notifyviasignal (server task : Int) (own : Bool) (nsig sig : Int) (st : State Regex) :
    Status × State Regex :=
  withSession server (fun store st =>
    if store.notifyStatus ≠ .notRegistered then (.notifierActive,st)
    else if own then (.invalidArgument,st)
    else if sig ≤ 0 ∨ sig > nsig then (.invalidArgument,st)
    else (.ok,(notifyPending store.server st).modify store.server fun x => { x with
      notifyStatus := .informViaSignal
      notifySignal := sig
      notifySignalTask := task })) st

/-! ## The server loop -/

inductive WriteResult
  | written | wouldBlock | failed
  deriving DecidableEq, Repr

/-- How the system answers while notifications are pushed. -/
structure PushAnswers where
  write : Int → WriteResult
  pidForTask : Int → Bool

inductive Delivery
  | message (session port : Int)
  | fileMessage (session file identifier : Int)
  | signal (session task signal : Int)
  deriving DecidableEq, Repr

def Delivery.session : Delivery → Int
  | message session _ => session
  | fileMessage session _ _ => session
  | signal session _ _ => session

def pushNotification (answers : PushAnswers) (context : List Delivery × State Regex) (server : Int) :
    List Delivery × State Regex :=
  let (sent,st) := context
  match st.getSession server with
  | none => (sent,{ st with assertionFailed := true })
  | some store =>
    match store.notifyStatus with
    | .notRegistered => (sent,st)
    | .informViaMachPort =>
      if store.notifyPort ≠ 0 then (sent ++ [.message store.server store.notifyPort],st)
      else (sent,st)
    | .informViaFD =>
      if store.notifyFile ≥ 0 then
        match answers.write store.notifyFile with
        | .written =>
          (sent ++ [.fileMessage store.server store.notifyFile store.notifyFileIdentifier],st)
        | .wouldBlock => (sent,st)
        | .failed => (sent,st.modify store.server fun x => { x with notifyFile := -1 })
      else (sent,st)
    | .informViaSignal =>
      if store.notifySignal > 0 then
        if answers.pidForTask store.notifySignalTask then
          (sent ++ [.signal store.server store.notifySignalTask store.notifySignal],st)
        else (sent,st.modify store.server fun x => { x with
          notifySignal := 0
          notifySignalTask := 0 })
      else (sent,st)

def pushNotifications (answers : PushAnswers) (st : State Regex) : List Delivery × State Regex :=
  let (sent,st) :=
    (os.order _ st.needsNotification).reverse.foldl (pushNotification answers) ([],st)
  (sent,{ st with needsNotification := [] })

inductive Request
  | configopen (server : Int) (name : CFString) (useSessionKeys : Option Bool) (newServer : Int)
  | configset (server : Int) (key : CFString) (data : CFData) (access : Bool)
  | configadd (server : Int) (key : CFString) (data : CFData) (access : Bool)
  | configaddS (server : Int) (key : CFString) (data : CFData) (access : Bool)
  | configremove (server : Int) (key : CFString) (access : Bool)
  | confignotify (server : Int) (key : CFString) (access : Bool)
  | configsetM (server : Int) (dict : List (Plist × Plist)) (remove notify : List Plist)
      (access : Bool)
  | notifyadd (server : Int) (key : CFString) (isRegex : Bool)
  | notifyremove (server : Int) (key : CFString) (isRegex : Bool)
  | notifyset (server : Int) (keys patterns : List CFString)
  | notifychanges (server : Int)
  | notifyviaport (server port identifier : Int)
  | notifyviafd (server fd identifier : Int)
  | notifyviasignal (server task : Int) (own : Bool) (nsig sig : Int)
  | notifycancel (server : Int)
  | cleanupSession (server : Int)
  | pushNotifications (answers : PushAnswers)

def step (st : State Regex) : Request → State Regex
  | .configopen server name useSessionKeys newServer =>
    (configopen server name useSessionKeys newServer st).2
  | .configset server key data access => (configset os server key data access st).2
  | .configadd server key data access => (configadd os server key data access st).2
  | .configaddS server key data access => (configaddS os server key data access st).2
  | .configremove server key access => (configremove os server key access st).2
  | .confignotify server key access => (confignotify os server key access st).2
  | .configsetM server dict remove notify access =>
    (configsetM os server dict remove notify access st).2
  | .notifyadd server key isRegex => (notifyadd os server key isRegex st).2
  | .notifyremove server key isRegex => (notifyremove server key isRegex st).2
  | .notifyset server keys patterns => (notifyset os server keys patterns st).2
  | .notifychanges server => (notifychanges server st).2
  | .notifyviaport server port identifier => (notifyviaport server port identifier st).2
  | .notifyviafd server fd identifier => (notifyviafd server fd identifier st).2
  | .notifyviasignal server task own nsig sig => (notifyviasignal server task own nsig sig st).2
  | .notifycancel server => (notifycancel server st).2
  | .cleanupSession server => cleanupSession os server st
  | .pushNotifications answers => (pushNotifications os answers st).2

/-- The kernel names a new port like no port that is in use. -/
def Admissible (st : State Regex) : Request → Prop
  | .configopen _ _ _ newServer => newServer ≠ 0 ∧ ∀ x ∈ st.live, x.server ≠ newServer
  | _ => True

/-- The states between two requests of a run that starts with an empty store. -/
def Reachable (st : State Regex) : Prop :=
  ∃ requests, Runs.Meets (step os) Admissible {} requests ∧ Runs.run (step os) {} requests = st

end FreebsdLaunchd.DynamicStore
