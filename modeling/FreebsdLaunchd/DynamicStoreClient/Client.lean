import FreebsdLaunchd.DynamicStore.Server

/-! A client of the dynamic store with a session of configd. It records what it
has asked configd to watch; when configd is gone a call opens a session with
the next one, and the notification handler registers the record anew. -/
namespace FreebsdLaunchd.DynamicStoreClient
open DynamicStore

variable {Regex : Type} (os : Platform Regex)

/-- What `SCError` tells: that there is no server, or a status. -/
inductive SCError
  | noStoreServer
  | status (status : Status)
  deriving DecidableEq, Repr

inductive NotificationStatus
  | notRegistered | informViaDispatch
  deriving DecidableEq, Repr

/-- The client's side of a session. `server` is `none` for `MACH_PORT_NULL`;
`dispatchSource` is the port the source receives on. -/
structure Client where
  name : CFString
  useSessionKeys : Option Bool
  server : Option Int
  notifyStatus : NotificationStatus := .notRegistered
  dispatchQueue : Option Int := none
  dispatchSource : Option Int := none
  disconnectFunction : Bool := false
  disconnectForceCallBack : Bool := false
  keys : Option (List CFString) := none
  patterns : Option (List CFString) := none
  deriving DecidableEq

def Client.array (isRegex : Bool) (client : Client) : Option (List CFString) :=
  if isRegex then client.patterns else client.keys

def Client.setArray (isRegex : Bool) (array : Option (List CFString)) (client : Client) : Client :=
  if isRegex then { client with patterns := array } else { client with keys := array }

def Client.recorded (client : Client) (isRegex : Bool) : List CFString := (client.array isRegex).getD []

inductive Callout
  | changed (changedKeys : List CFString)
  | disconnected
  deriving DecidableEq, Repr

/-- The client and configd, if it runs. With `deadName` the session's port is a
dead name; `callouts` are the calls of the client's own functions; `outOfBounds`
is `CFArrayRemoveValueAtIndex` with the index -1. -/
structure World (Regex : Type) where
  client : Client
  configd : Option (State Regex)
  deadName : Bool := false
  callouts : List Callout := []
  outOfBounds : Bool := false

def World.update (w : World Regex) (f : Client → Client) : World Regex := { w with client := f w.client }

/-! ## Sessions -/

/-- configd looked up and a session opened with it; `newServer` is the session's port. -/
def scDynamicStoreAddSession (newServer : Int) (client : Client) (configd : Option (State Regex)) :
    Except SCError (State Regex) :=
  match configd with
  | none => .error .noStoreServer
  | some st =>
    match configopen os.servicePort client.name client.useSessionKeys newServer st with
    | (.ok,st) => .ok st
    | (status,_) => .error (.status status)

def scDynamicStoreCreateWithOptions (newServer : Int) (name : CFString) (useSessionKeys : Option Bool)
    (configd : Option (State Regex)) : Except SCError (World Regex) :=
  let client : Client := { name, useSessionKeys, server := none }
  match scDynamicStoreAddSession os newServer client configd with
  | .ok st => .ok { client := { client with server := some newServer }, configd := some st }
  | .error error => .error error

/-- The session a call is sent to: where configd died before the call is answered,
`__SCDynamicStoreCheckRetryAndHandleError` has opened another one. -/
def session (newServer : Int) (w : World Regex) : Except SCError (Int × State Regex) :=
  match w.client.server with
  | none => .error .noStoreServer
  | some server =>
    match w.deadName, w.configd with
    | false, some st => .ok (server,st)
    | _, configd => (scDynamicStoreAddSession os newServer w.client configd).map fun st => (newServer,st)

def exchange {α : Type} (newServer : Int) (request : Int → State Regex → α × State Regex) (w : World Regex) :
    Except SCError α × World Regex :=
  match session os newServer w with
  | .error error => (.error error,w.update fun client => { client with server := none })
  | .ok (server,st) =>
    let (answer,st) := request server st
    (.ok answer,{ w with
      client := { w.client with server := some server }
      configd := some st
      deadName := false })

def exchangeStatus (newServer : Int) (request : Int → State Regex → Status × State Regex) (w : World Regex) :
    Except SCError Unit × World Regex :=
  match exchange os newServer request w with
  | (.error error,w) => (.error error,w)
  | (.ok status,w) => (if status = .ok then .ok () else .error (.status status),w)

/-! ## Keys and patterns -/

def addKey (key : CFString) (keys : Option (List CFString)) : Option (List CFString) :=
  some (keys.getD [] ++ [key])

/-- `none` where the key is not in the array: its index is then -1. -/
def removeKey (key : CFString) : Option (List CFString) → Option (Option (List CFString))
  | none => some none
  | some keys => if key ∈ keys then some (some (keys.erase key)) else none

def scDynamicStoreAddWatchedKey (newServer : Int) (key : CFString) (isRegex : Bool) (w : World Regex) :
    Except SCError Unit × World Regex :=
  match exchangeStatus os newServer (fun server => notifyadd os server key isRegex) w with
  | (.error error,w) => (.error error,w)
  | (.ok (),w) => (.ok (),w.update fun client => client.setArray isRegex (addKey key (client.array isRegex)))

def scDynamicStoreRemoveWatchedKey (newServer : Int) (key : CFString) (isRegex : Bool) (w : World Regex) :
    Except SCError Unit × World Regex :=
  match exchangeStatus os newServer (fun server => notifyremove server key isRegex) w with
  | (.error error,w) => (.error error,w)
  | (.ok (),w) =>
    match removeKey key (w.client.array isRegex) with
    | none => (.ok (),{ w with outOfBounds := true })
    | some left => (.ok (),w.update (Client.setArray isRegex left))

def scDynamicStoreSetNotificationKeys (newServer : Int) (keys patterns : Option (List CFString))
    (w : World Regex) : Except SCError Unit × World Regex :=
  match exchangeStatus os newServer (fun server => notifyset os server (keys.getD []) (patterns.getD [])) w with
  | (.error error,w) => (.error error,w)
  | (.ok (),w) => (.ok (),w.update fun client => { client with
      keys := keys
      patterns := patterns })

/-! ## Notifications -/

def acquireNotifyPort (newServer port : Int) (w : World Regex) : Option Int × World Regex :=
  match exchangeStatus os newServer (fun server => notifyviaport server port 0) w with
  | (.error _,w) => (none,w)
  | (.ok (),w) => (some port,w)

def cleanup (w : World Regex) : World Regex :=
  w.update fun client => { client with
    dispatchSource := none
    dispatchQueue := none
    notifyStatus := .notRegistered }

def scDynamicStoreSetDispatchQueue (newServer port : Int) (queue : Option Int) (w : World Regex) :
    Except SCError Unit × World Regex :=
  match queue with
  | none =>
    if w.client.dispatchQueue.isNone then (.error (.status .invalidArgument),w) else (.ok (),cleanup w)
  | some queue =>
    if w.client.server.isNone then (.error .noStoreServer,w)
    else if w.client.dispatchQueue.isSome ∨ w.client.notifyStatus ≠ .notRegistered then
      (.error (.status .notifierActive),w)
    else
      let w := w.update fun client => { client with notifyStatus := .informViaDispatch }
      match acquireNotifyPort os newServer port w with
      | (none,w) => (.error (.status .failed),cleanup w)
      | (some mp,w) => (.ok (),w.update fun client => { client with
          dispatchQueue := some queue
          dispatchSource := some mp })

/-- Giving up the queue takes no request. -/
def scDynamicStoreNotifyCancel (w : World Regex) : World Regex :=
  match w.client.notifyStatus with
  | .notRegistered => w
  | .informViaDispatch => (scDynamicStoreSetDispatchQueue os 0 0 none w).2

def scDynamicStoreSetDisconnectCallBack (callout : Bool) (w : World Regex) : World Regex :=
  w.update fun client => { client with disconnectFunction := callout }

def pushDisconnect (w : World Regex) : World Regex :=
  if w.client.disconnectFunction then { w with callouts := w.callouts ++ [.disconnected] }
  else w.update fun client => { client with disconnectForceCallBack := true }

def scDynamicStoreReconnectNotifications (newServer port : Int) (w : World Regex) : Bool × World Regex :=
  let notifyStatus := w.client.notifyStatus
  let dispatchQueue := w.client.dispatchQueue
  let w := scDynamicStoreNotifyCancel os w
  let (set,w) :=
    if w.client.keys.isSome ∨ w.client.patterns.isSome then
      scDynamicStoreSetNotificationKeys os newServer w.client.keys w.client.patterns w
    else (.ok (),w)
  match set with
  | .error _ => (false,pushDisconnect w)
  | .ok () =>
    match notifyStatus with
    | .notRegistered => (false,pushDisconnect w)
    | .informViaDispatch =>
      let (scheduled,w) := scDynamicStoreSetDispatchQueue os newServer port dispatchQueue w
      (scheduled.isOk,pushDisconnect w)

def rlsPerform (newServer : Int) (w : World Regex) : World Regex :=
  let (changedKeys,w) := exchange os newServer notifychanges w
  if w.client.disconnectForceCallBack then
    let w := w.update fun client => { client with disconnectForceCallBack := false }
    { w with callouts := w.callouts ++ [.changed (changedKeys.toOption.getD [])] }
  else
    match changedKeys with
    | .error _ | .ok [] => w
    | .ok keys => { w with callouts := w.callouts ++ [.changed keys] }

/-! ## Runs -/

/-- The calls of the client with the port a new session would get and the port
that is made for notifications; the messages on that port; the other calls that go
through the session; configd's end and start; and the requests of everybody else. -/
inductive Event
  | addWatchedKey (newServer : Int) (key : CFString) (isRegex : Bool)
  | removeWatchedKey (newServer : Int) (key : CFString) (isRegex : Bool)
  | setNotificationKeys (newServer : Int) (keys patterns : Option (List CFString))
  | setDispatchQueue (newServer port : Int) (queue : Option Int)
  | setDisconnectCallBack (callout : Bool)
  | noSenders (newServer port : Int)
  | notified (newServer : Int)
  | call (newServer : Int) (request : Int → Request)
  | died
  | started
  | request (request : Request)

def step (w : World Regex) : Event → World Regex
  | .addWatchedKey newServer key isRegex => (scDynamicStoreAddWatchedKey os newServer key isRegex w).2
  | .removeWatchedKey newServer key isRegex => (scDynamicStoreRemoveWatchedKey os newServer key isRegex w).2
  | .setNotificationKeys newServer keys patterns =>
    (scDynamicStoreSetNotificationKeys os newServer keys patterns w).2
  | .setDispatchQueue newServer port queue => (scDynamicStoreSetDispatchQueue os newServer port queue w).2
  | .setDisconnectCallBack callout => scDynamicStoreSetDisconnectCallBack callout w
  | .noSenders newServer port =>
    rlsPerform os newServer (scDynamicStoreReconnectNotifications os newServer port w).2
  | .notified newServer => rlsPerform os newServer w
  | .call newServer request =>
    (exchange os newServer (fun server st => ((),DynamicStore.step os st (request server))) w).2
  | .died => { w with configd := none, deadName := true }
  | .started => { w with configd := some {} }
  | .request request => { w with configd := w.configd.map fun st => DynamicStore.step os st request }

end FreebsdLaunchd.DynamicStoreClient
