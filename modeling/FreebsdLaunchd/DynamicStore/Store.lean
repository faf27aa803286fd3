import FreebsdLaunchd.Library.CData
import FreebsdLaunchd.Library.RefCounts
import FreebsdLaunchd.Library.Substrings
import Mathlib.Data.List.AList

/-! The dynamic store of configd: its dictionaries, the sessions that use it
and the services of Core Foundation and of the regular expression library.
An array or set that the source leaves NULL until it is needed is the empty
list here, except inside a dictionary, where absence is what the code tests. -/
namespace FreebsdLaunchd.DynamicStore
open CData

abbrev CFString := List Char
abbrev CFData := Bytes

inductive Status
  | ok | failed | invalidArgument | accessError | noKey | keyExists | noStoreSession
  | notifierActive
  deriving DecidableEq, Repr

/-- What is not decided by configd: regular expressions, the order in which a
collection is enumerated, the serialization of `kCFBooleanTrue` and the name of
its service port. -/
structure Platform (Regex : Type) where
  servicePort : Int
  regcomp : CString → Option Regex
  regexec : Regex → CString → Bool
  order : (α : Type) → List α → List α
  order_perm : ∀ (α : Type) (l : List α), (order α l).Perm l
  serializedTrue : CFData

/-- The value of one key of `storeData`; a missing field is an absent entry of
the dictionary. -/
structure Entry where
  data : Option CFData := none
  session : Option CFString := none
  watchers : Option (List Int) := none
  watcherRefs : Option (List Int) := none
  deriving DecidableEq

def Entry.count (e : Entry) : Nat :=
  (if e.data.isSome then 1 else 0) + (if e.session.isSome then 1 else 0) +
    (if e.watchers.isSome then 1 else 0) + (if e.watcherRefs.isSome then 1 else 0)

structure SessionInfo where
  name : Option CFString := none
  sessionKeys : Option (List CFString) := none
  changedKeys : Option (List CFString) := none
  deriving DecidableEq

def SessionInfo.count (i : SessionInfo) : Nat :=
  (if i.name.isSome then 1 else 0) + (if i.sessionKeys.isSome then 1 else 0) +
    (if i.changedKeys.isSome then 1 else 0)

/-- The array kept for a pattern: the compiled expression, the sessions
watching the pattern and then the keys that match it. -/
structure PatternInfo (Regex : Type) where
  regex : Regex
  sessions : List Int
  keys : List CFString

inductive NotifyStatus
  | notRegistered | informViaMachPort | informViaFD | informViaSignal
  deriving DecidableEq, Repr

/-- The server's side of a session. Its port's number is also the key of the
session in the session table. -/
structure StorePrivate where
  server : Int
  useSessionKeys : Bool := false
  keys : List CFString := []
  patterns : List CFString := []
  notifyStatus : NotifyStatus := .notRegistered
  notifyPort : Int := 0
  notifyFile : Int := -1
  notifyFileIdentifier : Int := 0
  notifySignal : Int := 0
  notifySignalTask : Int := 0
  deriving DecidableEq

structure State (Regex : Type) where
  storeData : AList fun _ : CFString => Entry := ∅
  sessionData : AList fun _ : CFString => SessionInfo := ∅
  patternData : AList fun _ : CFString => PatternInfo Regex := ∅
  changedKeys : List CFString := []
  deferredRemovals : List CFString := []
  removedSessionKeys : List CFString := []
  needsNotification : List Int := []
  /-- The slots after the one of the server port, up to `lastSession`. -/
  sessions : List (Option StorePrivate) := []
  /-- An `assert` has failed and the process is gone. -/
  assertionFailed : Bool := false

def sessionKey : Int → CFString
  | .ofNat n => Nat.toDigits 10 n
  | .negSucc n => '-' :: Nat.toDigits 10 (n+1)

namespace State

variable {Regex : Type} (st : State Regex)

def entry (key : CFString) : Entry := (st.storeData.lookup key).getD {}

def info (sessionKey : CFString) : SessionInfo := (st.sessionData.lookup sessionKey).getD {}

def live : List StorePrivate := st.sessions.filterMap id

/-- The store a session's pointer leads to. -/
def deref (server : Int) : StorePrivate := (st.live.find? fun x => x.server = server).getD { server }

def modify (server : Int) (f : StorePrivate → StorePrivate) : State Regex :=
  { st with sessions := st.sessions.map (Option.map fun x => if x.server = server then f x else x) }

def getSession (server : Int) : Option StorePrivate :=
  if server = 0 then none
  else st.live.find? fun x => x.server = server ∨ x.notifySignalTask = server

end State

/-- `_SC_cfstring_to_cstring` in ASCII. -/
def toCString (s : CFString) : Option CString :=
  if s.all (·.toNat < 128) then some (.ofBuffer (s.map fun c => UInt8.ofNat c.toNat)) else none

end FreebsdLaunchd.DynamicStore
