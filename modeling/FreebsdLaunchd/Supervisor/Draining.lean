import FreebsdLaunchd.Supervisor.Table
import FreebsdLaunchd.Library.Interleavings
import Mathlib.Data.Set.Basic

/-! The exits of a drain as they are seen without the names of pids and of timers:
each is then a change of its own Job alone, and the order in which the exits of
different Jobs come does not matter. -/
namespace FreebsdLaunchd.Supervisor
open CData Runs Interleavings

/-! ## The state without names -/

def Job.nameless (j : Job) : Job :=
  {j with p := if j.p = 0 then 0 else 1,restartTimer := j.restartTimer.map fun _ => 0}

structure View where
  jobs : List Job
  timers : Set (JobId × Int)
  singleton : Option JobId
  singletonDone : Bool
  exitWhenDone : Bool
  listening : Bool
  shuttingDown : Bool
  nextJob : JobId
  interval : Nat
  clock : Nat

def Kernel.armedAt (k : Kernel) : Set (JobId × Int) := {at_ | ∃ t ∈ k.timers, at_ = (t.job,t.deadline)}

def State.view (s : State) : View where
  jobs := s.jobs.map Job.nameless
  timers := s.kernel.armedAt
  singleton := s.singleton
  singletonDone := s.singletonDone
  exitWhenDone := s.exitWhenDone
  listening := s.listening
  shuttingDown := s.shuttingDown
  nextJob := s.nextJob
  interval := s.interval
  clock := s.kernel.clock

/-- The exit of a Job's child, with what the world answers if the Job is to run again. -/
structure Exit where
  job : JobId
  status : Nat
  spawned : Bool
  source : Bool
  deriving DecidableEq

/-- What an exit comes to: the Job that is left, if one is, its timer, if that is
touched, and whether a singleton is then done. -/
structure ExitOutcome where
  job : Option Job
  timer : Option (Option Int)
  done : Bool

def outcome (interval clock : Nat) (j : Job) (e : Exit) : ExitOutcome :=
  let j := {j with p := 0,state := .loaded,lastExitStatus := e.status}
  let delay := respawnDelay interval j.lastSpawnAt clock
  if j.pendingUnload then ⟨none,none,true⟩
  else if !j.keepAlive then ⟨some j,none,true⟩
  else if delay ≤ 0 then
    ⟨some (if e.spawned then {j with p := 1,state := .running,lastSpawnAt := clock} else j),none,false⟩
  else if e.source then ⟨some {j with restartTimer := some 0},some (some (dispatchDeadline clock delay)),false⟩
  else ⟨some {j with restartTimer := none},some none,false⟩

def replace (id : JobId) (l : List Job) : Option Job → List Job
  | some j => Keyed.store Job.id l j
  | none => Keyed.unlink Job.id l id

/-- The timer of the Job is left alone, or replaced by none or by another. -/
def retime (id : JobId) (timers : Set (JobId × Int)) : Option (Option Int) → Set (JobId × Int)
  | none => timers
  | some deadline => {at_ | at_ ∈ timers ∧ at_.1 ≠ id ∨ at_.1 = id ∧ deadline = some at_.2}

def View.put (v : View) (id : JobId) (o : ExitOutcome) : View :=
  let single := v.singleton = some id
  {v with
    jobs := replace id v.jobs o.job
    timers := retime id v.timers o.timer
    singleton := if single ∧ o.job = none then none else v.singleton
    singletonDone := v.singletonDone || (o.done && single)}

def View.exit (v : View) (e : Exit) : View :=
  match Keyed.find Job.id v.jobs e.job with
  | none => v
  | some j => v.put e.job (outcome v.interval v.clock j e)

/-! ## Exits of different Jobs -/

private theorem outcome_id {interval clock : Nat} {j j' : Job} {e : Exit} (left : (outcome interval clock j e).job = some j') :
    j'.id = j.id := by
  unfold outcome at left
  simp only at left
  split at left
  · cases left
  · split at left
    · cases left
      rfl
    · split at left
      · split at left
        all_goals
          cases left
          rfl
      · split at left
        all_goals
          cases left
          rfl

/-- An outcome writes the Job it is about. -/
def ExitOutcome.About (o : ExitOutcome) (id : JobId) : Prop := ∀ j, o.job = some j → j.id = id

private theorem outcome_about {interval clock : Nat} {j : Job} {e : Exit} {l : List Job} (found : Keyed.find Job.id l e.job = some j) :
    (outcome interval clock j e).About e.job := fun _ left =>
  (outcome_id left).trans (Keyed.find_some found).2

private theorem replace_comm {id id' : JobId} (other : id ≠ id') {o o' : ExitOutcome} (about : o.About id)
    (about' : o'.About id')
    (l : List Job) : replace id' (replace id l o.job) o'.job = replace id (replace id' l o'.job) o.job := by
  cases left : o.job with
  | none =>
    cases left' : o'.job with
    | none => exact Keyed.unlink_comm other l
    | some j' =>
      exact Keyed.store_unlink (by rw [about' j' left']; exact other.symm) l
  | some j =>
    cases left' : o'.job with
    | none => exact (Keyed.store_unlink (by rw [about j left]; exact other) l).symm
    | some j' => exact Keyed.store_comm (by rw [about j left,about' j' left']; exact other) l

private theorem find_replace_ne {id id' : JobId} (other : id ≠ id') {o : ExitOutcome} (about : o.About id)
    (l : List Job) :
    Keyed.find Job.id (replace id l o.job) id' = Keyed.find Job.id l id' := by
  cases left : o.job with
  | none => exact Keyed.find_unlink_ne other l
  | some j => exact Keyed.find_store_ne (by rw [about j left]; exact other) l

private theorem retime_comm {id id' : JobId} (other : id ≠ id') (timers : Set (JobId × Int))
    (t t' : Option (Option Int)) :
    retime id' (retime id timers t) t' = retime id (retime id' timers t') t := by
  cases t with
  | none => cases t' <;> rfl
  | some deadline =>
    cases t' with
    | none => rfl
    | some deadline' =>
      ext ⟨job,at_⟩
      simp only [retime,Set.mem_ofPred_eq]
      by_cases first : job = id
      · subst first
        simp [other]
      · by_cases second : job = id'
        · subst second
          simp [first]
        · simp [first,second]

theorem View.put_comm (v : View) {id id' : JobId} (other : id ≠ id') {o o' : ExitOutcome} (about : o.About id)
    (about' : o'.About id') : (v.put id o).put id' o' = (v.put id' o').put id o := by
  have jobs := replace_comm other about about' v.jobs
  have timers := retime_comm other v.timers o.timer o'.timer
  by_cases first : v.singleton = some id
  · have second : ¬ v.singleton = some id' := fun same => other (Option.some.inj (first.symm.trans same))
    have differ : ¬ (some id : Option JobId) = some id' := fun same => other (Option.some.inj same)
    cases left : o.job <;> simp [View.put,first,differ,left,left ▸ jobs,timers]
  · by_cases second : v.singleton = some id'
    · have differ : ¬ (some id' : Option JobId) = some id := fun same => other (Option.some.inj same).symm
      cases left' : o'.job <;> simp [View.put,second,differ,left',left' ▸ jobs,timers]
    · simp [View.put,first,second,jobs,timers]

private theorem exit_independent : Independent View.exit Exit.job := by
  intro v e e' other
  cases found : Keyed.find Job.id v.jobs e.job with
  | none =>
    have still : v.exit e = v := by rw [View.exit,found]
    cases found' : Keyed.find Job.id v.jobs e'.job with
    | none =>
      have still' : v.exit e' = v := by rw [View.exit,found']
      rw [still,still',still]
    | some j' =>
      have absent : Keyed.find Job.id (v.exit e').jobs e.job = none := by
        rw [View.exit,found']
        exact (find_replace_ne other.symm (outcome_about found') v.jobs).trans found
      have still' : (v.exit e').exit e = v.exit e' := by
        rw [View.exit,absent]
      rw [still,still']
  | some j =>
    have done : v.exit e = v.put e.job (outcome v.interval v.clock j e) := by rw [View.exit,found]
    have same' : Keyed.find Job.id (v.exit e).jobs e'.job = Keyed.find Job.id v.jobs e'.job := by
      rw [done]
      exact find_replace_ne other (outcome_about found) v.jobs
    cases found' : Keyed.find Job.id v.jobs e'.job with
    | none =>
      have still' : v.exit e' = v := by rw [View.exit,found']
      rw [still',View.exit,same',found']
    | some j' =>
      have done' : v.exit e' = v.put e'.job (outcome v.interval v.clock j' e') := by rw [View.exit,found']
      have same : Keyed.find Job.id (v.exit e').jobs e.job = Keyed.find Job.id v.jobs e.job := by
        rw [done']
        exact find_replace_ne other.symm (outcome_about found') v.jobs
      have first : (v.exit e).exit e' = (v.exit e).put e'.job (outcome v.interval v.clock j' e') := by
        rw [View.exit,same',found',done]
        rfl
      have second : (v.exit e').exit e = (v.exit e').put e.job (outcome v.interval v.clock j e) := by
        rw [View.exit,same,found,done']
        rfl
      rw [first,second,done,done']
      exact v.put_comm other (outcome_about found) (outcome_about found')

/-! ## The reaps behind the exits -/

variable {s : State} {k : Kernel} {j : Job} {w : WaitRet}

/-- The clock reads the same throughout. -/
structure Timeless (w : WaitRet) : Prop where
  wait : w.elapsed = 0
  spawn : w.io.spawn.elapsed = 0

def exitOf (s : State) (w : WaitRet) : Option Exit :=
  if s.shuttingDown then none
  else (jobFindByPid s w.pid).map fun j =>
    ⟨j.id,w.status,((s.kernel.reaped j.id w).grant w.io.spawn).isSome,w.io.source⟩

private theorem armedAt_cancel (kernel : KernelOk k) (ok : JobOk k j) :
    (k.cancel j.restartTimer).armedAt = {at_ | at_ ∈ k.armedAt ∧ at_.1 ≠ j.id} := by
  ext at_
  simp only [Kernel.armedAt,Set.mem_ofPred_eq]
  constructor
  · rintro ⟨t,member,rfl⟩
    obtain ⟨member,other⟩ := Kernel.mem_cancel.mp member
    exact ⟨⟨t,member,rfl⟩,fun mine => other (ok.owned t member mine)⟩
  · rintro ⟨⟨t,member,rfl⟩,other⟩
    refine ⟨t,Kernel.mem_cancel.mpr ⟨member,fun set => other ?_⟩,rfl⟩
    obtain ⟨timer,inside,same,mine⟩ := ok.armed t.id set
    rw [Keyed.eq_of_key kernel.timerIds member inside same.symm]
    exact mine

@[simp] theorem armedAt_reaped (id : JobId) (w : WaitRet) : (k.reaped id w).armedAt = k.armedAt := rfl
@[simp] theorem armedAt_tick (seconds : Nat) : (k.tick seconds).armedAt = k.armedAt := rfl
@[simp] theorem armedAt_wait (pid : Pid) : (k.wait pid).armedAt = k.armedAt := rfl
@[simp] theorem armedAt_spawned (j : Job) (via : SpawnPath) (io : SpawnIO) (pid : Pid) :
    (k.spawned j via io pid).armedAt = k.armedAt := rfl

private theorem armedAt_armed (id : JobId) (deadline : Int) :
    (k.armed id deadline).armedAt = {at_ | at_ ∈ k.armedAt ∨ at_ = (id,deadline)} := by
  ext at_
  simp only [Kernel.armedAt,Kernel.armed,Set.mem_ofPred_eq,List.mem_cons]
  constructor
  · rintro ⟨t,rfl | member,rfl⟩
    · exact .inr rfl
    · exact .inl ⟨t,member,rfl⟩
  · rintro (⟨t,member,rfl⟩ | rfl)
    · exact ⟨t,.inr member,rfl⟩
    · exact ⟨_,.inl rfl,rfl⟩

private theorem view_put (s : State) (k : Kernel) (j : Job) : (s.put k j).view =
    {s.view with jobs := Keyed.store Job.id s.view.jobs j.nameless,timers := k.armedAt,clock := k.clock} := by
  simp only [State.view,State.put]
  rw [Keyed.store_map Job.nameless fun _ => rfl]

private theorem view_find (ok : Ok s) (member : j ∈ s.jobs) : Keyed.find Job.id s.view.jobs j.id = some j.nameless := by
  rw [State.view,Keyed.find_map Job.nameless fun _ => rfl,Keyed.find_mem ok.ids member]
  rfl

/-- A write through the Job's pointer is an outcome that leaves the Job. -/
theorem view_written {id : JobId} {o : ExitOutcome} {k' : Kernel} {j' : Job} (left : o.job = some j'.nameless)
    (timers : k'.armedAt = retime id s.kernel.armedAt o.timer) (clock : k'.clock = s.kernel.clock)
    (open_ : o.done = false) : (s.put k' j').view = s.view.put id o := by
  rw [view_put]
  simp [View.put,replace,left,timers,clock,open_,State.view]

private theorem view_removed (ok : Ok s) {o : ExitOutcome} {k' : Kernel} {j' : Job} (gone : o = ⟨none,none,true⟩)
    (same : j'.id = j.id) (bare : j'.restartTimer = none) (timers : k'.armedAt = s.kernel.armedAt)
    (clock : k'.clock = s.kernel.clock) : (jobmgrRemoveAndFree (s.put k' j') j').view = s.view.put j.id o := by
  have jobs : (Keyed.unlink Job.id s.jobs j.id).map Job.nameless = Keyed.unlink Job.id (s.jobs.map Job.nameless) j.id :=
    Keyed.unlink_map Job.nameless (fun _ => rfl) s.jobs j.id
  have fields : (jobmgrRemoveAndFree (s.put k' j') j').view =
      {(s.put k' j').view with
        jobs := (jobmgrRemoveAndFree (s.put k' j') j').jobs.map Job.nameless
        singleton := if s.singleton = some j.id then none else s.singleton
        singletonDone := if s.singleton = some j.id then true else s.singletonDone} := by
    simp [jobmgrRemoveAndFree,bare,Kernel.cancel,State.view,same]
  rw [fields,ok.free_jobs same,jobs,view_put,gone]
  by_cases single : s.singleton = some j.id <;>
    simp [View.put,replace,retime,State.view,timers,clock,single]

private theorem jobReap_view (ok : Ok s) (member : j ∈ s.jobs) (positive : 0 < j.p) (mine : w.pid = j.p)
    (timeless : Timeless w) :
    (jobReap {s with kernel := s.kernel.reaped j.id w} j w.status w.io).view =
      s.view.put j.id (outcome s.interval s.kernel.clock j.nameless
        ⟨j.id,w.status,((s.kernel.reaped j.id w).grant w.io.spawn).isSome,w.io.source⟩) := by
  have agrees := ok.jobs j member
  have clock : (s.kernel.reaped j.id w).clock = s.kernel.clock := by simp [Kernel.reaped,Kernel.tick,Kernel.wait,timeless.wait]
  have delay : j.delay s.interval s.kernel w = respawnDelay s.interval j.lastSpawnAt s.kernel.clock := by
    rw [Job.delay,timeless.wait,Nat.add_zero]
  have cancelled : ((s.kernel.reaped j.id w).cancel j.restartTimer).armedAt =
      {at_ | at_ ∈ s.kernel.armedAt ∧ at_.1 ≠ j.id} := by
    rw [← armedAt_cancel ok.kernel agrees]
    cases j.restartTimer <;> rfl
  rcases jobReap_cases ok member positive mine with ⟨leaving,ended⟩ | ⟨staying,alive,k',j',effect,ended⟩ | ⟨staying,once,ended⟩
  · rw [ended]
    exact view_removed ok (by simp [outcome,Job.nameless,leaving]) rfl (agrees.timerless leaving) rfl clock
  · rw [ended]
    cases effect with
    | spawn asked _ _ _ _ => cases asked
    | rest _ _ _ once => simp [alive] at once
    | @respawn _ pid _ _ _ _ _ due granted =>
      have given : pid ≠ 0 := Nat.ne_of_gt (Kernel.grant_some granted).1
      rw [delay] at due
      apply view_written
      · simp [outcome,Job.nameless,Job.reaped,Job.spawned,staying,alive,due,granted,given,timeless.wait,timeless.spawn]
      · simp [outcome,Job.nameless,staying,alive,due,retime]
      · simp [Kernel.spawned,Kernel.tick,Kernel.reaped,Kernel.wait,timeless.wait,timeless.spawn]
      · simp [outcome,Job.nameless,staying,alive,due]
    | refused _ _ _ _ due denied =>
      rw [delay] at due
      apply view_written
      · simp [outcome,Job.nameless,Job.reaped,staying,alive,due,denied]
      · simp [outcome,Job.nameless,staying,alive,due,retime]
      · simp [Kernel.tick,Kernel.reaped,Kernel.wait,timeless.wait,timeless.spawn]
      · simp [outcome,Job.nameless,staying,alive,due]
    | throttle _ _ _ _ early source =>
      have later := Int.not_le.mpr early
      rw [delay] at later
      apply view_written
      · simp [outcome,Job.nameless,Job.reaped,Job.armed,staying,alive,later,source]
      · rw [armedAt_armed,cancelled,delay,timeless.wait,Nat.add_zero]
        ext ⟨job,deadline⟩
        simp [outcome,Job.nameless,staying,alive,later,source,retime,eq_comm]
      · simp [Kernel.armed,Kernel.tick,Kernel.reaped,Kernel.wait,timeless.wait]
      · simp [outcome,Job.nameless,staying,alive,later,source]
    | sourceless _ _ _ _ early source =>
      have later := Int.not_le.mpr early
      rw [delay] at later
      apply view_written
      · simp [outcome,Job.nameless,Job.reaped,Job.unarmed,staying,alive,later,source]
      · rw [cancelled]
        simp [outcome,Job.nameless,staying,alive,later,source,retime]
      · simp [Kernel.tick,Kernel.reaped,Kernel.wait,timeless.wait]
      · simp [outcome,Job.nameless,staying,alive,later,source]
  · have rests : outcome s.interval s.kernel.clock j.nameless
        ⟨j.id,w.status,((s.kernel.reaped j.id w).grant w.io.spawn).isSome,w.io.source⟩ =
          ⟨some (j.reaped w).nameless,none,true⟩ := by
      simp [outcome,Job.nameless,Job.reaped,staying,once]
    have noted : ((s.put (s.kernel.reaped j.id w) (j.reaped w)).noteDone (s.singleton = some j.id)).view =
        {(s.put (s.kernel.reaped j.id w) (j.reaped w)).view with
          singletonDone := s.singletonDone || decide (s.singleton = some j.id)} := rfl
    rw [ended,noted,view_put,rests]
    by_cases single : s.singleton = some j.id <;> simp [View.put,replace,retime,State.view,clock,single]

private theorem jobReap_modes (s : State) (j : Job) (wstatus : Nat) (io : RespawnIO) :
    (jobReap s j wstatus io).exitWhenDone = s.exitWhenDone ∧ (jobReap s j wstatus io).shuttingDown = s.shuttingDown := by
  unfold jobReap
  simp only
  split
  · exact ⟨rfl,rfl⟩
  · split
    · exact ⟨rfl,rfl⟩
    · split <;> exact ⟨rfl,rfl⟩

structure Daemon (s : State) : Prop where
  ok : Ok s
  mode : s.exitWhenDone = false

/-- In the daemon's mode the end of a singleton ends nothing else. -/
theorem Daemon.reapOne_cases (daemon : Daemon s) (w : WaitRet) (up : s.shuttingDown = false) :
    (jobFindByPid s w.pid = none ∧ reapOne s w = {s with kernel := (s.kernel.tick w.elapsed).wait w.pid}) ∨
    ∃ j, jobFindByPid s w.pid = some j ∧
      reapOne s w = jobReap {s with kernel := s.kernel.reaped j.id w} j w.status w.io := by
  rcases Supervisor.reapOne_cases s w up with orphan | ⟨j,found,same⟩
  · exact .inl orphan
  · have mode := (jobReap_modes {s with kernel := s.kernel.reaped j.id w} j w.status w.io).1
    refine .inr ⟨j,found,same.trans ?_⟩
    rw [exitIfDone,mode,daemon.mode,Bool.and_false]
    rfl

theorem Daemon.reapOne_modes (daemon : Daemon s) (w : WaitRet) :
    (reapOne s w).exitWhenDone = false ∧ (reapOne s w).shuttingDown = s.shuttingDown := by
  cases up : s.shuttingDown with
  | true => simp [reapOne,up,daemon.mode]
  | false =>
    rcases daemon.reapOne_cases w up with ⟨_,same⟩ | ⟨j,_,same⟩
    · rw [same]
      exact ⟨daemon.mode,up⟩
    · rw [same]
      obtain ⟨mode,running⟩ := jobReap_modes {s with kernel := s.kernel.reaped j.id w} j w.status w.io
      exact ⟨mode.trans daemon.mode,running.trans up⟩

theorem Daemon.reapOne (daemon : Daemon s) (w : WaitRet) : Daemon (reapOne s w) where
  ok := (reapOne_path anything daemon.ok w fun _ _ _ => trivial).ok daemon.ok
  mode := (daemon.reapOne_modes w).1

/-- A return of `waitpid` is the exit of one Job, or nothing that can be seen. -/
theorem Daemon.view (daemon : Daemon s) (timeless : Timeless w) :
    (Supervisor.reapOne s w).view = ((exitOf s w).map s.view.exit).getD s.view := by
  cases up : s.shuttingDown with
  | true => simp [Supervisor.reapOne,exitOf,up]
  | false =>
    rcases daemon.reapOne_cases w up with ⟨absent,same⟩ | ⟨j,found,same⟩
    · rw [same,exitOf,up,absent]
      simp [State.view,up,timeless.wait,Kernel.tick,Kernel.wait,Kernel.armedAt]
    · obtain ⟨member,positive,mine⟩ := jobFindByPid_some found
      rw [same,jobReap_view daemon.ok member positive mine timeless,exitOf,up,found]
      simp only [Bool.false_eq_true,if_false,Option.map_some,Option.getD_some,View.exit,view_find daemon.ok member]
      rfl

/-- The exits among the returns of `waitpid`, in their order. -/
def exits : State → List WaitRet → List Exit
  | _, [] => []
  | s, w::rest => (exitOf s w).toList ++ exits (reapOne s w) rest

theorem Daemon.drain_view (daemon : Daemon s) {returns : List WaitRet} (timeless : ∀ w ∈ returns, Timeless w) :
    (sigchldHandler s returns).view = run View.exit s.view (exits s returns) := by
  induction returns generalizing s with
  | nil => rfl
  | cons w rest ih =>
    obtain ⟨here,later⟩ := List.forall_mem_cons.mp timeless
    have first := daemon.view here
    have onward : sigchldHandler s (w::rest) = sigchldHandler (Supervisor.reapOne s w) rest := rfl
    rw [onward,ih (daemon.reapOne w) later,first,exits]
    cases exitOf s w <;> rfl

/-! ## Jobs that do not exit -/

theorem Daemon.member (daemon : Daemon s) (member : j ∈ s.jobs) (other : ∀ e, exitOf s w = some e → e.job ≠ j.id) :
    j ∈ (Supervisor.reapOne s w).jobs := by
  cases up : s.shuttingDown with
  | true => simpa [Supervisor.reapOne,up] using member
  | false =>
    rcases daemon.reapOne_cases w up with ⟨_,same⟩ | ⟨x,found,same⟩
    · rw [same]
      exact member
    · obtain ⟨inside,positive,mine⟩ := jobFindByPid_some found
      have differs : x.id ≠ j.id := other _ (by rw [exitOf,up,found]; rfl)
      rw [same]
      rcases jobReap_cases daemon.ok inside positive mine with ⟨_,ended⟩ | ⟨_,_,k',x',effect,ended⟩ | ⟨_,_,ended⟩
      · rw [ended]
        exact (daemon.ok.mem_free rfl).mpr ⟨member,differs.symm⟩
      · rw [ended]
        have kept := (effect.keeps daemon.ok.kernel (daemon.ok.jobs x inside)).id
        exact State.mem_put.mpr (.inr ⟨member,by rw [kept]; exact differs.symm⟩)
      · have kept : j ∈ (s.put (s.kernel.reaped x.id w) (x.reaped w)).jobs := State.mem_put.mpr (.inr ⟨member,differs.symm⟩)
        rw [ended]
        exact kept

theorem Daemon.unexited (daemon : Daemon s) {returns : List WaitRet} (member : j ∈ s.jobs)
    (other : ∀ e ∈ exits s returns, e.job ≠ j.id) : j ∈ (sigchldHandler s returns).jobs := by
  induction returns generalizing s with
  | nil => exact member
  | cons w rest ih =>
    rw [exits] at other
    refine ih (daemon.reapOne w) (daemon.member member fun e here => other e ?_) fun e later => other e ?_
    · rw [here]
      exact List.mem_cons_self
    · exact List.mem_append_right _ later

private theorem jobFindByPid_mem (ok : Ok s) (member : j ∈ s.jobs) (positive : 0 < j.p) :
    jobFindByPid s j.p = some j := by
  cases found : jobFindByPid s j.p with
  | none => exact absurd rfl (jobFindByPid_none found j member positive)
  | some x =>
    obtain ⟨inside,_,same⟩ := jobFindByPid_some found
    rw [ok.eq_of_p member inside positive same]

/-- After orphans and exits of other Jobs, the child of a Job is still found by its pid. -/
theorem Daemon.still_found (daemon : Daemon s) {returns : List WaitRet} {pid : Pid} (found : jobFindByPid s pid = some j)
    (other : ∀ e ∈ exits s returns, e.job ≠ j.id) : jobFindByPid (sigchldHandler s returns) pid = some j := by
  obtain ⟨member,positive,rfl⟩ := jobFindByPid_some found
  have ok : Ok (sigchldHandler s returns) :=
    (sigchldHandler_path anything daemon.ok returns (meets_of_forall (fun _ _ _ _ _ => trivial) s returns)).ok daemon.ok
  exact jobFindByPid_mem ok (daemon.unexited member other) positive

/-! ## Two orders of one drain -/

private theorem sigchldHandler_down (down : s.shuttingDown = true) (returns : List WaitRet) :
    sigchldHandler s returns = s := by
  induction returns with
  | nil => rfl
  | cons w rest ih =>
    have still : reapOne s w = s := by simp [reapOne,down]
    rw [sigchldHandler,run,List.foldl_cons,still]
    exact ih

private theorem exits_append (s : State) (returns returns' : List WaitRet) :
    exits s (returns ++ returns') = exits s returns ++ exits (sigchldHandler s returns) returns' := by
  induction returns generalizing s with
  | nil => rfl
  | cons w rest ih =>
    rw [List.cons_append,exits,exits,ih,List.append_assoc]
    rfl

private theorem sigchldHandler_groups (s : State) (groups : List (List WaitRet)) :
    run step s (groups.map Event.sigchld) = sigchldHandler s groups.flatten := by
  induction groups generalizing s with
  | nil => rfl
  | cons returns rest ih =>
    have one : step s (.sigchld returns) = sigchldHandler s returns := by
      cases down : s.shuttingDown with
      | true => rw [sigchldHandler_down down,step,down,if_pos rfl]
      | false => simp [step,down]
    have onward := ih (sigchldHandler s returns)
    rw [run] at onward
    rw [List.map_cons,run,List.foldl_cons,one,onward,List.flatten_cons]
    simp only [sigchldHandler,run,List.foldl_append]

theorem Daemon.modes (daemon : Daemon s) (returns : List WaitRet) :
    Daemon (sigchldHandler s returns) ∧ (sigchldHandler s returns).shuttingDown = s.shuttingDown := by
  induction returns generalizing s with
  | nil => exact ⟨daemon,rfl⟩
  | cons w rest ih =>
    obtain ⟨later,running⟩ := ih (daemon.reapOne w)
    exact ⟨later,running.trans (daemon.reapOne_modes w).2⟩

theorem Daemon.reordered (daemon : Daemon s) {returns returns' : List WaitRet} (timeless : ∀ w ∈ returns, Timeless w)
    (timeless' : ∀ w ∈ returns', Timeless w) (same : SameByParty Exit.job (exits s returns) (exits s returns')) :
    (sigchldHandler s returns).view = (sigchldHandler s returns').view := by
  rw [daemon.drain_view timeless,daemon.drain_view timeless']
  exact run_eq_of_sameByParty exit_independent same s.view

/-- One exit drained at two places: the child and its status are the same, and a respawn
and its timer succeed at both or at neither. -/
structure SameAnswer (s : State) (w : WaitRet) (s' : State) (w' : WaitRet) : Prop where
  pid : w'.pid = w.pid
  status : w'.status = w.status
  spawned : ((s'.kernel.wait w'.pid).grant w'.io.spawn).isSome = ((s.kernel.wait w.pid).grant w.io.spawn).isSome
  source : w'.io.source = w.io.source

private theorem exitOf_found (up : s.shuttingDown = false) (found : jobFindByPid s w.pid = some j) :
    exitOf s w = some ⟨j.id,w.status,((s.kernel.wait w.pid).grant w.io.spawn).isSome,w.io.source⟩ := by
  rw [exitOf,up,found]
  rfl

theorem SameAnswer.exit {s' : State} {w' : WaitRet} (same : SameAnswer s w s' w') (up : s.shuttingDown = false)
    (up' : s'.shuttingDown = false) (found : jobFindByPid s w.pid = some j) (found' : jobFindByPid s' w.pid = some j) :
    exitOf s' w' = exitOf s w := by
  rw [exitOf_found up found,exitOf_found up' (same.pid ▸ found'),same.status,same.spawned,same.source]

/-- Two exits with orphans between them, as the first of the two is drained in `s`. -/
theorem Daemon.two_exits (daemon : Daemon s) (up : s.shuttingDown = false) {first last : WaitRet} {orphans : List WaitRet}
    {j₁ j₂ : Job} (differ : j₁.id ≠ j₂.id) (found : jobFindByPid s first.pid = some j₁)
    (found' : jobFindByPid s last.pid = some j₂) (orphaned : exits (Supervisor.reapOne s first) orphans = []) :
    jobFindByPid (sigchldHandler s (first::orphans)) last.pid = some j₂ ∧
      exits s (first::orphans ++ [last]) =
        (exitOf s first).toList ++ (exitOf (sigchldHandler s (first::orphans)) last).toList := by
  have early : exits s (first::orphans) = (exitOf s first).toList := by
    rw [exits,orphaned,List.append_nil]
  refine ⟨daemon.still_found found' fun e member => ?_,?_⟩
  · rw [early,exitOf_found up found] at member
    cases List.mem_singleton.mp member
    exact differ
  · rw [exits_append,early,exits,exits,List.append_nil]

theorem Daemon.pair (daemon : Daemon s) {j₁ j₂ : Job} (differ : j₁.id ≠ j₂.id) {w₁ w₂ w₁' w₂' : WaitRet}
    {orphans orphans' : List WaitRet} (found₁ : jobFindByPid s w₁.pid = some j₁) (found₂ : jobFindByPid s w₂.pid = some j₂)
    (timeless : ∀ w ∈ w₁::orphans ++ [w₂], Timeless w) (timeless' : ∀ w ∈ w₂'::orphans' ++ [w₁'], Timeless w)
    (orphaned : exits (Supervisor.reapOne s w₁) orphans = []) (orphaned' : exits (Supervisor.reapOne s w₂') orphans' = [])
    (same₁ : SameAnswer s w₁ (sigchldHandler s (w₂'::orphans')) w₁')
    (same₂ : SameAnswer (sigchldHandler s (w₁::orphans)) w₂ s w₂') :
    (sigchldHandler s (w₁::orphans ++ [w₂])).view = (sigchldHandler s (w₂'::orphans' ++ [w₁'])).view := by
  cases up : s.shuttingDown with
  | true => rw [sigchldHandler_down up,sigchldHandler_down up]
  | false =>
    obtain ⟨still₂,there⟩ := daemon.two_exits up differ found₁ found₂ orphaned
    obtain ⟨still₁,back⟩ := daemon.two_exits up differ.symm (same₂.pid.symm ▸ found₂) (same₁.pid.symm ▸ found₁) orphaned'
    have up₁ := (daemon.modes (w₁::orphans)).2.trans up
    have up₂ := (daemon.modes (w₂'::orphans')).2.trans up
    have first := same₁.exit up up₂ found₁ (same₁.pid ▸ still₁)
    have second := same₂.exit up₁ up still₂ found₂
    refine daemon.reordered timeless timeless' ?_
    rw [there,back,first,second,exitOf_found up found₁,exitOf_found up₁ still₂]
    exact SameByParty.swap differ

/-- What the order of a drain leaves open: the pids of fresh children, and the names of timers. -/
structure OrderFree (s : State) : Prop where
  /-- Deliveries of SIGCHLD one after another are one drain of all their exits. -/
  delivered : ∀ groups : List (List WaitRet), run step s (groups.map Event.sigchld) = sigchldHandler s groups.flatten
  /-- Two drains in which each Job exits in the same ways, fresh children among them. -/
  reordered : ∀ returns returns' : List WaitRet, (∀ w ∈ returns, Timeless w) → (∀ w ∈ returns', Timeless w) →
    SameByParty Exit.job (exits s returns) (exits s returns') →
    (sigchldHandler s returns).view = (sigchldHandler s returns').view
  /-- The children of two Jobs in either order, in one drain or several, with orphans between them. -/
  pair : ∀ (j₁ j₂ : Job) (w₁ w₂ w₁' w₂' : WaitRet) (orphans orphans' : List WaitRet) (groups groups' : List (List WaitRet)),
    j₁.id ≠ j₂.id → jobFindByPid s w₁.pid = some j₁ → jobFindByPid s w₂.pid = some j₂ →
    groups.flatten = w₁::orphans ++ [w₂] → groups'.flatten = w₂'::orphans' ++ [w₁'] →
    (∀ w ∈ groups.flatten, Timeless w) → (∀ w ∈ groups'.flatten, Timeless w) →
    exits (reapOne s w₁) orphans = [] → exits (reapOne s w₂') orphans' = [] →
    SameAnswer s w₁ (sigchldHandler s (w₂'::orphans')) w₁' → SameAnswer (sigchldHandler s (w₁::orphans)) w₂ s w₂' →
    (run step s (groups.map Event.sigchld)).view = (run step s (groups'.map Event.sigchld)).view
  /-- A Job whose child does not exit keeps its record, pid and timer included. -/
  others : ∀ (returns : List WaitRet) (j : Job), j ∈ s.jobs → (∀ e ∈ exits s returns, e.job ≠ j.id) →
    j ∈ (sigchldHandler s returns).jobs

theorem drain_orderFree (reachable : Reachable s) (mode : s.exitWhenDone = false) : OrderFree s := by
  have daemon : Daemon s := ⟨reachable.ok,mode⟩
  refine ⟨sigchldHandler_groups s,fun _ _ => daemon.reordered,?_,fun _ _ => daemon.unexited⟩
  intro j₁ j₂ w₁ w₂ w₁' w₂' orphans orphans' groups groups' differ found₁ found₂ there back timeless timeless' orphaned
    orphaned' same₁ same₂
  rw [sigchldHandler_groups,sigchldHandler_groups,there,back]
  rw [there] at timeless
  rw [back] at timeless'
  exact daemon.pair differ found₁ found₂ timeless timeless' orphaned orphaned' same₁ same₂

open Sample in
theorem drain_orderFree_two :
    let s := run step booted [load (service "a" true false true) (some 100),load (service "b" true false false) (some 101)]
    (s.jobs.filter fun j => 0 < j.p).length = 2 ∧ OrderFree s :=
  ⟨by decide,drain_orderFree ⟨daemon,booted,_,rfl,rfl⟩ rfl⟩

end FreebsdLaunchd.Supervisor
