import FreebsdLaunchd.Supervisor.Core
import FreebsdLaunchd.Ipc.Protocol

/-! `ipc.c`: the request handlers. A handler gives back the state and the
status it replies with; the bytes of a reply are what `send_reply` formats. -/
namespace FreebsdLaunchd.Supervisor
open CData Ipc

inductive Reply
  | status (err : Option Errno) (msg : CString)
  | listing (payload : Bytes)
  deriving DecidableEq

def Reply.Failed : Reply → Prop
  | status err _ => err ≠ none
  | listing _ => False

instance : DecidablePred Reply.Failed
  | .status err _ => inferInstanceAs (Decidable (err ≠ none))
  | .listing _ => inferInstanceAs (Decidable False)

def replyBuffer : Nat := 1024

/-- The payload `send_reply` sends: `"%d %s\n"`, cut at the buffer. -/
def sendReply (err : Option Errno) (msg : CString) : Bytes :=
  let code := match err with
    | none => 0
    | some e => e.code
  (snprintf replyBuffer (decimal code ++ [32] ++ msg.bytes ++ [10])).1

def Reply.payload : Reply → Bytes
  | status err msg => sendReply err msg
  | listing payload => payload

/-- The outcomes of the allocations LIST makes, by the number of the call, and
the memory behind what `snprintf` wrote into the line buffer. -/
structure ListIO where
  realloc : Nat → Bool
  malloc : Bool
  stack : Nat → UInt8

/-- What the world does while a request is handled: the plist file, the spawn,
the errno of a failing `kill`, LIST's allocations and a leftover `errno`. -/
structure RequestIO where
  file : FileContent
  spawn : SpawnIO
  kill : Option Errno
  list : ListIO
  errno : Option Errno

/-- A handler that takes a string refuses NULL and the empty string before it
does anything else. -/
def withText (s : State) (text : Option CString) (complaint : String)
    (handle : CString → State × Reply) : State × Reply :=
  match text with
  | none => (s,.status (some .EINVAL) (.lit complaint))
  | some text => if text.bytes = [] then (s,.status (some .EINVAL) (.lit complaint)) else handle text

def handleLoad (s : State) (path : Option CString) (io : RequestIO) : State × Reply :=
  withText s path "missing plist path" fun path =>
    match jobmgrLoadPlistFile s.nextJob path io.file with
    | none => (s,.status (some .EINVAL) (.lit "plist load failed (see launchd log)"))
    | some j =>
      match insertAndSpawn s j io.spawn with
      | (0,0,s) => (s,.status none j.label)
      | (0,_,s) => (s,.status (some .EIOERR) (.lit "spawn failed"))
      | (_,_,s) => (s,.status (some .EEXIST)
          (.ofBuffer (snprintf 256 (j.label.bytes ++ (CString.lit " already loaded").bytes)).1))

def handleUnload (s : State) (label : Option CString) : State × Reply :=
  withText s label "missing label" fun label =>
    match jobmgrUnload s label with
    | (none,s) => (s,.status none label)
    | (some .ENOENT,s) => (s,.status (some .ENOENT) (.lit "no such job"))
    | (some err,s) => (s,.status (some err) (.lit err.text))

def handleStart (s : State) (label : Option CString) (io : RequestIO) : State × Reply :=
  withText s label "missing label" fun label =>
    match jobmgrFindByLabel s label with
    | none => (s,.status (some .ENOENT) (.lit "no such job"))
    | some j =>
      if j.state = .running then (s,.status (some .EALREADY) (.lit "already running"))
      else
        let spawned := jobSpawn s.kernel j .start io.spawn
        let s := s.put spawned.kernel spawned.job
        if spawned.rc ≠ 0 then (s,.status (some .EIOERR) (.lit "spawn failed"))
        else (s,.status none label)

def handleStop (s : State) (label : Option CString) (io : RequestIO) : State × Reply :=
  withText s label "missing label" fun label =>
    match jobmgrFindByLabel s label with
    | none => (s,.status (some .ENOENT) (.lit "no such job"))
    | some j =>
      if j.state ≠ .running ∨ j.p = 0 then (s,.status (some .ESRCH) (.lit "not running"))
      else
        match io.kill with
        | some errno => (s,.status (some errno) (.lit errno.text))
        | none => (s.put s.kernel {j with state := .stopping},.status none label)

def wifexited (wstatus : Nat) : Bool := wstatus % 128 = 0
def wexitstatus (wstatus : Nat) : Nat := wstatus / 256

structure ListCtx where
  buf : Bytes
  cap : Nat
  reallocs : Nat

def lineSize : Nat := 512

def listLine (j : Job) : Bytes :=
  j.label.bytes ++ [9] ++ decimal j.p ++ [9] ++
    decimal (if wifexited j.lastExitStatus then wexitstatus j.lastExitStatus else -1) ++ [10]

/-- The doubling loop of `list_append`, which runs at most `fuel` times. -/
def doubleCap (need : Nat) : Nat → Nat → Nat
  | 0, newcap => newcap
  | fuel+1, newcap => if newcap < need then doubleCap need fuel (newcap*2) else newcap

def listAppend (io : ListIO) (c : ListCtx) (j : Job) : ListCtx :=
  let (written,n) := snprintf lineSize (listLine j)
  let need := c.buf.length + n + 1
  -- `memcpy` takes `n` bytes from the line, also those `snprintf` did not write
  let copied := (List.range n).map fun i => (written ++ [0]).getD i (io.stack i)
  if c.cap < need then
    if io.realloc c.reallocs then
      ⟨c.buf ++ copied,doubleCap need need (if c.cap = 0 then 1024 else c.cap*2),c.reallocs+1⟩
    else {c with reallocs := c.reallocs+1}
  else {c with buf := c.buf ++ copied}

def handleList (s : State) (io : RequestIO) : State × Reply :=
  let header := decimal 0 ++ [32] ++ decimal s.jobs.length ++ (CString.lit " jobs").bytes ++ [10]
  let c := s.jobs.foldl (listAppend io.list) ⟨[],0,0⟩
  if io.list.malloc then (s,.listing (header ++ c.buf))
  else (s,.status (some .ENOMEM) (.lit "out of memory"))

/-- `launchd_shutdown`: the listener is closed and the process exits. -/
def launchdShutdown (s : State) : State := {s with shuttingDown := true,listening := false}

def handleShutdown (s : State) : State × Reply :=
  (launchdShutdown s,.status none (.lit "shutting down"))

def dispatchMsg (s : State) (cmd : UInt32) (payload : Option Bytes) (io : RequestIO) : State × Reply :=
  let text := payload.map CString.ofBuffer
  if cmd = Cmd.load.word then handleLoad s text io
  else if cmd = Cmd.unload.word then handleUnload s text
  else if cmd = Cmd.list.word then handleList s io
  else if cmd = Cmd.start.word then handleStart s text io
  else if cmd = Cmd.stop.word then handleStop s text io
  else if cmd = Cmd.shutdown.word then handleShutdown s
  else (s,.status (some .EINVAL) (.lit "unknown command"))

def handleConnection (s : State) (r : Recv) (io : RequestIO) : State × Option Reply :=
  match r.phase with
  | .returned rc errno =>
    if rc = -2 then (s,none)
    else if rc < 0 then
      (s,some (.status (some ((errno.or io.errno).getD .EPROTO)) (.lit "protocol error")))
    else
      let (s,reply) := dispatchMsg s r.hdrOut.cmd r.payloadOut io
      (s,some reply)
  | _ => (s,none)

end FreebsdLaunchd.Supervisor
