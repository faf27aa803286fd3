import FreebsdLaunchd.DynamicStore.Server

/-! The table of configd's sessions, slot by slot: an array that is allocated
with room to spare, the index of the last slot in use, and the scans that
`getSession`, `addSession` and `cleanupSession` make of the slots before it. -/
namespace FreebsdLaunchd.SessionTable

/-- Of a session the scans read its port and, once its store is open, the task
port of the store's signals. -/
structure Session where
  key : Int
  notifySignalTask : Option Int := none
  deriving DecidableEq

def Session.serves (s : Session) (server : Int) : Bool :=
  s.key = server || s.notifySignalTask = some server

/-- What an element of the array is: memory no one has written, `NULL` or a pointer. -/
inductive Slot
  | uninitialized | null | session (s : Session)
  deriving DecidableEq

structure Table where
  sessions : List Slot := []
  nSessions : Int := 0
  lastSession : Int := -1

/-- The slots from 1 to `lastSession`; slot 0 is the server port. -/
def Table.used (t : Table) : List Slot := (t.sessions.drop 1).take t.lastSession.toNat

def Slot.session? : Slot → Option Session
  | .session s => some s
  | _ => none

def Table.live (t : Table) : List Session := t.used.filterMap Slot.session?

/-! ## The scans

Each is `none` where it follows a pointer that was never written. -/

def findSession (server : Int) : List Slot → Option (Option Session)
  | [] => some none
  | .uninitialized::_ => none
  | .null::rest => findSession server rest
  | .session s::rest => if s.serves server then some (some s) else findSession server rest

def getSession (server : Int) (t : Table) : Option (Option Session) :=
  if server = 0 then some none else findSession server t.used

inductive Scan
  | known | scanned (empty : Option Nat)
  deriving DecidableEq

/-- The scan of `addSession`, at slot `i`: whether the caller has a session
already, and else the first empty slot. -/
def scanSlots (server : Int) : Nat → Option Nat → List Slot → Option Scan
  | _, n, [] => some (.scanned n)
  | _, _, .uninitialized::_ => none
  | i, n, .null::rest => scanSlots server (i+1) (n <|> some i) rest
  | i, n, .session s::rest =>
    if s.serves server then some .known else scanSlots server (i+1) n rest

def findKey (server : Int) : Nat → List Slot → Option (Option Nat)
  | _, [] => some none
  | _, .uninitialized::_ => none
  | i, .null::rest => findKey server (i+1) rest
  | i, .session s::rest => if s.key = server then some (some i) else findKey server (i+1) rest

/-! ## The operations -/

/-- What the kernel answers in the end: a shortage is waited out. -/
inductive PortAnswer
  | failed | uninserted (mp : Int) | granted (mp : Int)
  deriving DecidableEq

/-- No slot is empty: `lastSession` moves on, and the array grows if it must. -/
def newSlot (t : Table) : Nat × Table :=
  let t := { t with lastSession := t.lastSession + 1 }
  if t.lastSession ≥ t.nSessions then
    (t.lastSession.toNat,{ t with
      nSessions := t.nSessions * 2
      sessions := t.sessions ++ List.replicate t.nSessions.toNat .uninitialized })
  else (t.lastSession.toNat,t)

def addSession (server : Int) (answer : PortAnswer) (t : Table) : Option (Option Session × Table) :=
  if t.nSessions ≤ 0 then
    let newSession : Session := { key := server }
    some (some newSession,{
      lastSession := 0
      nSessions := 64
      sessions := (List.replicate 64 Slot.uninitialized).set 0 (.session newSession) })
  else
    match scanSlots server 1 none t.used with
    | none => none
    | some .known => some (none,t)
    | some (.scanned empty) =>
      let (n,t) := match empty with
        | some i => (i,t)
        | none => newSlot t
      match answer with
      | .failed => some (none,t)
      | .uninserted _ => some (none,t)
      | .granted mp =>
        let newSession : Session := { key := mp }
        some (some newSession,{ t with sessions := t.sessions.set n (.session newSession) })

/-- `lastSession` goes back to the last slot that is not empty. -/
def lastUsed (sessions : List Slot) : Nat → Nat
  | 0 => 0
  | i+1 => if i > 0 ∧ sessions[i]? = some .null then lastUsed sessions i else i

def cleanupSession (server : Int) (t : Table) : Option Table :=
  match findKey server 1 t.used with
  | none => none
  | some none => some t
  | some (some i) =>
    let sessions := t.sessions.set i .null
    some { t with
      sessions := sessions
      lastSession := if i = t.lastSession then lastUsed sessions i else t.lastSession }

def Session.record (server task : Int) (s : Session) : Session :=
  if s.key = server then { s with notifySignalTask := some task } else s

def Slot.record (server task : Int) : Slot → Slot
  | .session s => .session (s.record server task)
  | slot => slot

/-- A handler opens the session's store, or records or forgets a task in it. -/
def setTask (server task : Int) (t : Table) : Table :=
  { t with sessions := t.sessions.take 1 ++ (t.sessions.drop 1).map (Slot.record server task) }

/-! ## Runs -/

inductive Event
  | addSession (server : Int) (answer : PortAnswer)
  | cleanupSession (server : Int)
  | setTask (server task : Int)

/-- `none` once a pointer that was never written has been followed. -/
def step (t : Option Table) (e : Event) : Option Table :=
  t.bind fun t =>
    match e with
    | .addSession server answer => (addSession server answer t).map Prod.snd
    | .cleanupSession server => cleanupSession server t
    | .setTask server task => some (setTask server task t)

end FreebsdLaunchd.SessionTable
