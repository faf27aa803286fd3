import FreebsdLaunchd.Supervisor.Handlers
import FreebsdLaunchd.Library.Runs

/-! `runtime.c` and `launchd.c`: the events of the main queue, one handler after
another, and the start of the process. -/
namespace FreebsdLaunchd.Supervisor
open CData Ipc Runs

/-- A positive return of `waitpid`: the pid, its status, the time that passed
before it, and what the world does to the respawn it may lead to. -/
structure WaitRet where
  pid : Pid
  status : Nat
  elapsed : Nat
  io : RespawnIO

/-- The end of an iteration of `sigchld_handler`: single-plist mode exits once
the singleton is done. -/
def exitIfDone (s : State) : State :=
  if s.singletonDone && s.exitWhenDone then launchdShutdown s else s

def reapOne (s : State) (w : WaitRet) : State :=
  if s.shuttingDown then s
  else
    let s := {s with kernel := (s.kernel.tick w.elapsed).wait w.pid}
    match jobFindByPid s w.pid with
    -- reaped orphan
    | none => s
    | some j =>
      let s := {s with kernel := {s.kernel with reaps := j.id :: s.kernel.reaps}}
      exitIfDone (jobReap s j w.status w.io)

/-- `sigchld_handler`: the returns of `waitpid` until it has no more. -/
def sigchldHandler (s : State) (returns : List WaitRet) : State := run reapOne s returns

/-- What the main queue runs: time passing, a connection with what `ipc_recv`
returns on it, a scan, SIGCHLD, a timer, and SIGTERM, SIGINT or SIGHUP. -/
inductive Event
  | tick (seconds : Nat)
  | connection (recv : Recv) (io : RequestIO)
  | scan (dir : CString) (entries : List DirEntry)
  | sigchld (returns : List WaitRet)
  | timer (id : TimerId) (io : SpawnIO)
  | signal

def dueTimer (s : State) (id : TimerId) : Option Timer :=
  s.kernel.timers.find? fun t => t.id = id ∧ t.deadline ≤ s.kernel.clock

/-- One event. A process that has exited handles none. -/
def step (s : State) (e : Event) : State :=
  if s.shuttingDown then s
  else
    match e with
    | .tick seconds => {s with kernel := s.kernel.tick seconds}
    | .connection r io => if s.listening then (handleConnection s r io).1 else s
    | .scan dir entries => (jobmgrLoadPlistDir s dir entries).2
    | .sigchld returns => sigchldHandler s returns
    | .timer id io =>
      match dueTimer s id with
      | none => s
      | some t => restartTimerBlock s t io
    | .signal => launchdShutdown s

structure Options where
  daemon : Bool
  plist : Option CString
  file : FileContent
  spawn : SpawnIO
  scanDirs : List (CString × List DirEntry)
  throttleEnv : Option CString
  clock : Nat
  ipcServer : Bool

def emptyState (o : Options) : State where
  jobs := []
  singleton := none
  singletonDone := false
  exitWhenDone := true
  listening := false
  shuttingDown := false
  nextJob := 0
  interval := throttleInterval o.throttleEnv
  kernel := ⟨o.clock,[],[],0,[],[]⟩

/-- The `-p` plist of `main`: its Job in the table as the singleton, or the
exit with status 1. -/
def loadSingleton (s : State) (path : CString) (file : FileContent) (io : SpawnIO) : Option State :=
  match jobmgrLoadPlistFile s.nextJob path file with
  | none => none
  | some j =>
    let (inserted,s) := jobmgrInsert s j
    if inserted ≠ 0 then none
    else
      let s := jobmgrSetSingleton s j
      if j.runAtLoad && !j.disabled then
        let spawned := jobSpawn s.kernel j .runAtLoad io
        if spawned.rc ≠ 0 then none else some (s.put spawned.kernel spawned.job)
      else some s

def scanAll (s : State) (dirs : List (CString × List DirEntry)) : State :=
  dirs.foldl (fun s dir => (jobmgrLoadPlistDir s dir.1 dir.2).2) s

/-- `main` up to `dispatch_main`, after the command line has been read. -/
def main (o : Options) : Option State :=
  let begun := match o.plist with
    | none => if o.daemon then some (emptyState o) else none
    | some path => loadSingleton (emptyState o) path o.file o.spawn
  match begun with
  | none => none
  | some s =>
    let s := scanAll s o.scanDirs
    if o.daemon then
      if o.ipcServer then some {s with exitWhenDone := false,listening := true} else none
    else some s

/-- A state between two events of some run of launchd. -/
def Reachable (s : State) : Prop := ∃ o s₀ events, main o = some s₀ ∧ s = run step s₀ events

end FreebsdLaunchd.Supervisor
