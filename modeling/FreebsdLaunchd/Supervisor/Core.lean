import FreebsdLaunchd.Supervisor.Job
import FreebsdLaunchd.Library.Keyed

/-! `core.m`: the job table, spawning, the KeepAlive throttle, reaping and
unloading. A function that takes a Job pointer takes the Job and gives back
what it wrote; `put` stores it under its address. -/
namespace FreebsdLaunchd.Supervisor
open CData

def throttleDefault : Nat := 10

/-- `throttle_interval`, from the value of $LAUNCHD_THROTTLE_INTERVAL. -/
def throttleInterval (env : Option CString) : Nat :=
  match env with
  | none => throttleDefault
  | some value =>
    if value.bytes = [] then throttleDefault
    else
      let (v,endp) := strtol value.bytes
      if endp = [] ∧ 0 ≤ v then v.toNat else throttleDefault

/-- The process: its static variables and the world outside it. `interval` is
the cached result of `throttle_interval`. -/
structure State where
  jobs : List Job
  singleton : Option JobId
  singletonDone : Bool
  exitWhenDone : Bool
  listening : Bool
  shuttingDown : Bool
  nextJob : JobId
  interval : Nat
  kernel : Kernel
  deriving DecidableEq

namespace State

def deref (s : State) (id : JobId) : Option Job := Keyed.find Job.id s.jobs id

/-- What was written through a Job pointer, and to the world. -/
def put (s : State) (k : Kernel) (j : Job) : State :=
  {s with jobs := Keyed.store Job.id s.jobs j,kernel := k}

end State

def jobmgrFindByLabel (s : State) (label : CString) : Option Job := Keyed.find Job.label s.jobs label

/-- `jobmgr_insert`: 0 and the longer table, or -1. -/
def jobmgrInsert (s : State) (j : Job) : Int × State :=
  if (jobmgrFindByLabel s j.label).isSome then (-1,s)
  else (0,{s with jobs := j::s.jobs,nextJob := s.nextJob+1})

/-- `jobmgr_remove_and_free`: unlink, forget the singleton, and let
`jobmgr_free` cancel the restart timer. -/
def jobmgrRemoveAndFree (s : State) (target : Job) : State :=
  let single := s.singleton = some target.id
  {s with
    jobs := Keyed.unlink Job.id s.jobs target.id
    singleton := if single then none else s.singleton
    singletonDone := if single then true else s.singletonDone
    kernel := s.kernel.cancel target.restartTimer}

def jobmgrSetSingleton (s : State) (j : Job) : State :=
  {s with singleton := some j.id,singletonDone := false}

def jobFindByPid (s : State) (p : Pid) : Option Job :=
  if p = 0 then none else Keyed.find Job.p s.jobs p

def spawnProg (j : Job) : Option CString :=
  match j.program with
  | some program => some program
  | none => ((j.argv.getD []).head?).join

def spawnArgv (j : Job) : List (Option CString) :=
  if j.argv = none ∨ j.argc = 0 then [j.program] else j.argv.getD []

structure Spawned where
  rc : Int
  kernel : Kernel
  job : Job

def jobSpawn (k : Kernel) (j : Job) (via : SpawnPath) (io : SpawnIO) : Spawned :=
  if j.disabled then ⟨0,k,j⟩
  else if j.state = .running then ⟨0,k,j⟩
  else
    let after := k.tick io.elapsed
    match k.grant io with
    | none => ⟨-1,after,j⟩
    | some newpid =>
      ⟨0,{after with
          children := ⟨newpid,j.id,j.label⟩ :: k.children
          spawns := ⟨j.id,j.label,newpid,k.clock,after.clock,via,spawnProg j,spawnArgv j⟩ :: k.spawns},
        {j with p := newpid,state := .running,lastSpawnAt := after.clock}⟩

/-- The idiom `if (j->restart_timer) { cancel; j->restart_timer = NULL; }`. -/
def cancelRestart (k : Kernel) (j : Job) : Kernel × Job :=
  (k.cancel j.restartTimer,{j with restartTimer := none})

def nsecPerSec : Int := 1000000000

/-- `long` arithmetic of `schedule_respawn`, wrapping at 64 bits. -/
def respawnDelay (interval lastSpawnAt now : Nat) : Int :=
  let earliest := toInt64 (lastSpawnAt + interval)
  if (now : Int) < earliest then earliest - now else 0

/-- The second in which a timer armed at `now` for `delay` seconds is due. The
product with NSEC_PER_SEC is unsigned and reaches `dispatch_time` as an int64. -/
def dispatchDeadline (now : Nat) (delay : Int) : Int :=
  now + toInt64 (delay * nsecPerSec) / nsecPerSec

/-- What the world does to one respawn: the spawn, and whether
`dispatch_source_create` returns a source. -/
structure RespawnIO where
  spawn : SpawnIO
  source : Bool

def scheduleRespawn (interval : Nat) (k : Kernel) (j : Job) (io : RespawnIO) : Kernel × Job :=
  let now := k.clock
  let delay := respawnDelay interval j.lastSpawnAt now
  if delay ≤ 0 then
    let spawned := jobSpawn k j .keepAlive io.spawn
    (spawned.kernel,spawned.job)
  else
    let (k,j) := cancelRestart k j
    if io.source then
      ({k with
          timers := ⟨k.nextTimer,j.id,dispatchDeadline now delay⟩ :: k.timers
          nextTimer := k.nextTimer+1},
        {j with restartTimer := some k.nextTimer})
    else (k,j)

/-- The block of a restart timer that has fired. The source is one-shot. -/
def restartTimerBlock (s : State) (timer : Timer) (io : SpawnIO) : State :=
  let s := {s with kernel := s.kernel.cancel (some timer.id)}
  match s.deref timer.job with
  -- the captured address is no longer a Job: the block would use freed memory
  | none => s
  | some j =>
    let (k,j) := cancelRestart s.kernel j
    if j.pendingUnload then jobmgrRemoveAndFree (s.put k j) j
    else
      let spawned := jobSpawn k j .keepAlive io
      s.put spawned.kernel spawned.job

def jobReap (s : State) (j : Job) (wstatus : Nat) (io : RespawnIO) : State :=
  let j := {j with p := 0,state := .loaded,lastExitStatus := wstatus}
  let s := s.put s.kernel j
  if j.pendingUnload then jobmgrRemoveAndFree s j
  else if j.keepAlive then
    let respawned := scheduleRespawn s.interval s.kernel j io
    s.put respawned.1 respawned.2
  else if s.singleton = some j.id then {s with singletonDone := true}
  else s

/-- `jobmgr_unload`: 0 or ENOENT. Whether its `kill` succeeds changes nothing. -/
def jobmgrUnload (s : State) (label : CString) : Option Errno × State :=
  match jobmgrFindByLabel s label with
  | none => (some .ENOENT,s)
  | some j =>
    let (k,j) := cancelRestart s.kernel j
    let j := {j with pendingUnload := true}
    if j.state = .running ∧ 0 < j.p then (none,s.put k {j with state := .stopping})
    else (none,jobmgrRemoveAndFree (s.put k j) j)

structure DirEntry where
  name : CString
  file : FileContent
  spawn : SpawnIO

def pathBuffer : Nat := 1024

def plistSuffix : Bytes := (CString.lit ".plist").bytes

/-- `dir/name`, when the name is a visible `*.plist` and the path fits. -/
def scanPath (dir name : CString) : Option CString :=
  let n := name.bytes
  if n.head? = some 46 then none
  else if n.length < 7 ∨ n.drop (n.length - 6) ≠ plistSuffix then none
  else if pathBuffer ≤ (dir.bytes ++ 47 :: n).length then none
  else some (CString.ofBuffer (dir.bytes ++ 47 :: n))

/-- Insert a loaded Job and spawn it if it is to run at load: the result of
`jobmgr_insert`, the one of `job_spawn` and the state. -/
def insertAndSpawn (s : State) (j : Job) (io : SpawnIO) : Int × Int × State :=
  let (inserted,s) := jobmgrInsert s j
  if inserted ≠ 0 then (inserted,0,s)
  else if j.runAtLoad && !j.disabled then
    let spawned := jobSpawn s.kernel j .runAtLoad io
    (0,spawned.rc,s.put spawned.kernel spawned.job)
  else (0,0,s)

/-- One iteration of the loop of `jobmgr_load_plist_dir`, with its count. -/
def scanEntry (dir : CString) (acc : Nat × State) (entry : DirEntry) : Nat × State :=
  match scanPath dir entry.name with
  | none => acc
  | some path =>
    match jobmgrLoadPlistFile acc.2.nextJob path entry.file with
    | none => acc
    | some j =>
      match insertAndSpawn acc.2 j entry.spawn with
      | (0,_,s) => (acc.1+1,s)
      | (_,_,s) => (acc.1,s)

/-- `jobmgr_load_plist_dir`; no entries stand for a directory that cannot be
opened. -/
def jobmgrLoadPlistDir (s : State) (dir : CString) (entries : List DirEntry) : Nat × State :=
  entries.foldl (scanEntry dir) (0,s)

end FreebsdLaunchd.Supervisor
