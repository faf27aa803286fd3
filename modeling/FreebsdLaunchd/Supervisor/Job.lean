import FreebsdLaunchd.Library.CData

/-! The data of the supervisor: `core.h`'s Job, the property list it is read
from, and what the kernel and libdispatch hold for launchd. A Job is named by
its address, which the model never gives to a second Job, so that a pointer to
a freed Job is told apart from every pointer to a live one. -/
namespace FreebsdLaunchd.Supervisor
open CData

inductive JobState
  | loaded | running | stopping | removed
  deriving DecidableEq, Repr

abbrev JobId := Nat
abbrev TimerId := Nat
abbrev Pid := Nat

structure Job where
  id : JobId
  label : CString
  plistPath : CString
  program : Option CString
  /-- NULL, or the strings in front of the terminating NULL. -/
  argv : Option (List (Option CString))
  runAtLoad : Bool
  disabled : Bool
  keepAlive : Bool
  state : JobState
  p : Pid
  lastExitStatus : Nat
  lastSpawnAt : Nat
  pendingUnload : Bool
  restartTimer : Option TimerId
  deriving DecidableEq

def Job.argc (j : Job) : Nat := (j.argv.getD []).length

/-- A parsed property list. A string has no UTF-8 form when `UTF8String` is NULL. -/
inductive Plist
  | string (utf8 : Option Bytes)
  | number (boolValue : Bool)
  | array (items : List Plist)
  | dict (entries : List (String × Plist))
  | other

inductive FileContent
  | unreadable
  | unparsable
  | object (obj : Plist)

def nsStringToUtf8 (utf8 : Option Bytes) : Option CString := utf8.map CString.ofBuffer

def nsdictGet (d : List (String × Plist)) (key : String) : Option Plist :=
  (d.find? fun entry => entry.1 == key).map (·.2)

def nsdictGetString (d : List (String × Plist)) (key : String) : Option CString :=
  match nsdictGet d key with
  | some (.string utf8) => nsStringToUtf8 utf8
  | _ => none

def nsdictGetBool (d : List (String × Plist)) (key : String) (dflt : Bool) : Bool :=
  match nsdictGet d key with
  | some (.number boolValue) => boolValue
  | _ => dflt

/-- One element that is not a string makes the whole array NULL. -/
def argvOf : List Plist → Option (List (Option CString))
  | [] => some []
  | .string utf8::rest => (argvOf rest).map (nsStringToUtf8 utf8 :: ·)
  | _::_ => none

def nsdictGetArgv (d : List (String × Plist)) (key : String) : Option (List (Option CString)) :=
  match nsdictGet d key with
  | some (.array items) => argvOf items
  | _ => none

/-- `jobmgr_load_plist_file`; `id` is the address `calloc` returns. -/
def jobmgrLoadPlistFile (id : JobId) (path : CString) (file : FileContent) : Option Job :=
  match file with
  | .object (.dict d) =>
    match nsdictGetString d "Label" with
    | none => none
    | some label =>
      let program := nsdictGetString d "Program"
      let argv := nsdictGetArgv d "ProgramArguments"
      if program = none ∧ (argv = none ∨ argv = some []) then none
      else some {
        id := id
        label := label
        plistPath := path
        program := program
        argv := argv
        disabled := nsdictGetBool d "Disabled" false
        runAtLoad := nsdictGetBool d "RunAtLoad" true
        keepAlive := nsdictGetBool d "KeepAlive" false
        state := .loaded
        p := 0
        lastExitStatus := 0
        lastSpawnAt := 0
        pendingUnload := false
        restartTimer := none }
  | _ => none

/-- A process created by `job_spawn` that `waitpid` has not returned. -/
structure Child where
  pid : Pid
  job : JobId
  label : CString
  deriving DecidableEq

/-- An armed one-shot source. Its block captures the Job's address; it does not
run before the clock has reached the deadline. -/
structure Timer where
  id : TimerId
  job : JobId
  deadline : Int
  deriving DecidableEq

inductive SpawnPath
  | runAtLoad | start | keepAlive
  deriving DecidableEq, Repr

/-- A successful `posix_spawn`: its arguments, when it was called and the clock
reading stored after it. -/
structure Spawn where
  job : JobId
  label : CString
  pid : Pid
  calledAt : Nat
  spawnedAt : Nat
  via : SpawnPath
  prog : Option CString
  argv : List (Option CString)
  deriving DecidableEq

/-- The world outside launchd's memory. `spawns` (newest first) and `reaps` are
the history of what happened to its children. -/
structure Kernel where
  clock : Nat
  children : List Child
  timers : List Timer
  nextTimer : TimerId
  spawns : List Spawn
  reaps : List JobId
  deriving DecidableEq

/-- The outcome of one `posix_spawn`: how long it took, and the pid it returned. -/
structure SpawnIO where
  elapsed : Nat
  newpid : Option Pid

/-- The kernel never returns 0 or the pid of an unreaped child; an outcome that
names one stands for a failure. -/
def Kernel.grant (k : Kernel) (io : SpawnIO) : Option Pid :=
  io.newpid.filter fun pid => pid ≠ 0 ∧ pid ∉ k.children.map Child.pid

def Kernel.cancel (k : Kernel) : Option TimerId → Kernel
  | none => k
  | some t => {k with timers := k.timers.filter fun timer => timer.id ≠ t}

def Kernel.wait (k : Kernel) (pid : Pid) : Kernel :=
  {k with children := k.children.filter fun c => c.pid ≠ pid}

def Kernel.tick (k : Kernel) (seconds : Nat) : Kernel := {k with clock := k.clock + seconds}

end FreebsdLaunchd.Supervisor
