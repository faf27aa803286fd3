import FreebsdLaunchd.Library.Runs
import FreebsdLaunchd.Library.Tally

/-! The information server that configd's DNS and network state services share:
it keeps the last generation each client connection has acknowledged, and
counts the clients that are in sync with the stored configuration. -/
namespace FreebsdLaunchd.InfoServer

/-- `xpc_connection_t`, a pointer; `_client_key` makes it the key of `info`. -/
abbrev Connection := UInt64

structure ClientVal where
  pid : Int32
  generationPushed : UInt64
  generationAcknowledged : UInt64
  deriving DecidableEq

/-- `libSC_info_server_t`. The counters count connections, which are far from
exhausting an `int`. -/
structure Server (Data : Type) where
  data : Option Data
  generation : UInt64
  info : AList fun _ : Connection => ClientVal
  inSyncNO : Int
  inSyncYES : Int

variable {Data : Type}

def init : Server Data := ⟨none,0,∅,0,0⟩

def setData (data : Option Data) (generation : UInt64) (s : Server Data) : Server Data :=
  let generation := if generation = 0 then 1 else generation
  {s with data,generation,inSyncNO := s.inSyncNO + s.inSyncYES,inSyncYES := 0}

def inSync (s : Server Data) : Bool := s.inSyncNO == 0

def openConnection (c : Connection) (pid : Int32) (s : Server Data) : Server Data :=
  {s with info := s.info.insert c ⟨pid,0,0⟩}

/-- There is no result for a connection without an entry, whose missing value
the code follows. -/
def getData (c : Connection) (s : Server Data) : Option ((Option Data × UInt64) × Server Data) :=
  match s.info.lookup c with
  | none => none
  | some val =>
    let generation := if s.generation = 1 then 0 else s.generation
    some ((s.data,generation),{s with info := s.info.insert c {val with generationPushed := s.generation}})

/-- Without the entitlement the acknowledgement is dropped before anything is
looked up. -/
def acknowledged (c : Connection) (entitled : Bool) (generation : UInt64) (s : Server Data) :
    Option (Bool × Server Data) :=
  if !entitled then some (false,s)
  else
    match s.info.lookup c with
    | none => none
    | some val =>
      let (syncUpdated,t) :=
        if val.generationAcknowledged = 0 then
          if generation = s.generation then (false,{s with inSyncYES := s.inSyncYES+1})
          else (true,{s with inSyncNO := s.inSyncNO+1})
        else if generation ≠ val.generationAcknowledged ∧ generation = s.generation then
          (true,{s with inSyncNO := s.inSyncNO-1,inSyncYES := s.inSyncYES+1})
        else (false,s)
      some (syncUpdated,{t with info := t.info.insert c {val with generationAcknowledged := generation}})

def close (c : Connection) (s : Server Data) : Bool × Server Data :=
  let (syncUpdated,t) :=
    match s.info.lookup c with
    | none => (false,s)
    | some val =>
      if val.generationAcknowledged > 0 then
        if val.generationAcknowledged = s.generation then (false,{s with inSyncYES := s.inSyncYES-1})
        else (true,{s with inSyncNO := s.inSyncNO-1})
      else (false,s)
  (syncUpdated,{t with info := t.info.erase c})

inductive Event (Data : Type)
  | opens (c : Connection) (pid : Int32)
  | fetches (c : Connection)
  | acknowledges (c : Connection) (entitled : Bool) (generation : UInt64)
  | setsData (data : Option Data) (generation : UInt64)
  | closes (c : Connection)

def apply (s : Server Data) : Event Data → Option (Server Data)
  | .opens c pid => some (openConnection c pid s)
  | .fetches c => (getData c s).map (·.2)
  | .acknowledges c entitled generation => (acknowledged c entitled generation s).map (·.2)
  | .setsData data generation => some (setData data generation s)
  | .closes c => some (close c s).2

end FreebsdLaunchd.InfoServer
