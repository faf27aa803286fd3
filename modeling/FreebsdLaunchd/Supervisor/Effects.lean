import FreebsdLaunchd.Supervisor.Representation

/-! What the supervisor's operations do to one Job and to the kernel: a spawn,
a reap, a cancelled or armed restart timer, a termination under way. Each keeps
the Job in agreement with the kernel; the operations of `core.m` are made of
these. -/
namespace FreebsdLaunchd.Supervisor
open CData

def Job.spawned (j : Job) (pid : Pid) (now : Nat) : Job :=
  {j with p := pid,state := .running,lastSpawnAt := now}

def Job.reaped (j : Job) (w : WaitRet) : Job :=
  {j with p := 0,state := .loaded,lastExitStatus := w.status}

def Job.unarmed (j : Job) : Job := {j with restartTimer := none}

def Job.armed (j : Job) (t : TimerId) : Job := {j with restartTimer := some t}

def Job.marked (j : Job) : Job := {j.unarmed with pendingUnload := true}

def Job.unloading (j : Job) : Job := {j.marked with state := .stopping}

def State.noteDone (s : State) (single : Bool) : State := {s with singletonDone := s.singletonDone || single}

namespace Kernel

def spawned (k : Kernel) (j : Job) (via : SpawnPath) (io : SpawnIO) (pid : Pid) : Kernel :=
  {k.tick io.elapsed with
    children := ⟨pid,j.id,j.label⟩ :: k.children
    spawns := ⟨j.id,j.label,pid,k.clock,k.clock+io.elapsed,via,spawnProg j,spawnArgv j⟩ :: k.spawns}

def reaped (k : Kernel) (id : JobId) (w : WaitRet) : Kernel :=
  {(k.tick w.elapsed).wait w.pid with reaps := id :: k.reaps}

def armed (k : Kernel) (id : JobId) (deadline : Int) : Kernel :=
  {k with timers := ⟨k.nextTimer,id,deadline⟩ :: k.timers,nextTimer := k.nextTimer+1}

@[simp] theorem cancel_clock (k : Kernel) (t : Option TimerId) : (k.cancel t).clock = k.clock := by cases t <;> rfl
@[simp] theorem cancel_children (k : Kernel) (t : Option TimerId) : (k.cancel t).children = k.children := by
  cases t <;> rfl
@[simp] theorem cancel_spawns (k : Kernel) (t : Option TimerId) : (k.cancel t).spawns = k.spawns := by cases t <;> rfl
@[simp] theorem cancel_reaps (k : Kernel) (t : Option TimerId) : (k.cancel t).reaps = k.reaps := by cases t <;> rfl
@[simp] theorem cancel_nextTimer (k : Kernel) (t : Option TimerId) : (k.cancel t).nextTimer = k.nextTimer := by
  cases t <;> rfl

@[simp] theorem cancel_grant (k : Kernel) (t : Option TimerId) (io : SpawnIO) : (k.cancel t).grant io = k.grant io := by
  simp [grant]

theorem mem_cancel {k : Kernel} {t : Option TimerId} {timer : Timer} :
    timer ∈ (k.cancel t).timers ↔ timer ∈ k.timers ∧ t ≠ some timer.id := by
  cases t with
  | none => simp [cancel]
  | some t => simp [cancel,@eq_comm _ t]

private theorem cancel_sublist (k : Kernel) (t : Option TimerId) : (k.cancel t).timers.Sublist k.timers := by
  cases t with
  | none => exact List.Sublist.refl _
  | some t => exact List.filter_sublist

theorem mem_wait {k : Kernel} {pid : Pid} {c : Child} :
    c ∈ (k.wait pid).children ↔ c ∈ k.children ∧ c.pid ≠ pid := by simp [wait]

theorem grant_some {k : Kernel} {io : SpawnIO} {pid : Pid} (granted : k.grant io = some pid) :
    0 < pid ∧ pid ∉ k.children.map Child.pid := by
  simp only [grant,Option.filter_eq_some_iff,decide_eq_true_eq] at granted
  exact ⟨Nat.pos_of_ne_zero granted.2.1,granted.2.2⟩

theorem lastSpawn_cons {k : Kernel} {r : Spawn} {rest : List Spawn} {id : JobId} (logged : k.spawns = r::rest) :
    k.lastSpawn id = if r.job = id then some r else rest.find? fun r => r.job = id := by
  by_cases same : r.job = id <;> simp [lastSpawn,logged,same]

end Kernel

theorem KernelOk.tick {k : Kernel} (ok : KernelOk k) (seconds : Nat) : KernelOk (k.tick seconds) :=
  ⟨ok.pids,ok.positive,ok.timerIds,ok.timerFresh⟩

theorem KernelOk.wait {k : Kernel} (ok : KernelOk k) (pid : Pid) : KernelOk (k.wait pid) where
  pids := ok.pids.sublist (List.filter_sublist.map Child.pid)
  positive c member := ok.positive c (Kernel.mem_wait.mp member).1
  timerIds := ok.timerIds
  timerFresh := ok.timerFresh

theorem KernelOk.cancel {k : Kernel} (ok : KernelOk k) (t : Option TimerId) : KernelOk (k.cancel t) where
  pids := by
    rw [Kernel.cancel_children]
    exact ok.pids
  positive := by
    rw [Kernel.cancel_children]
    exact ok.positive
  timerIds := ok.timerIds.sublist ((k.cancel_sublist t).map Timer.id)
  timerFresh timer member := by
    rw [Kernel.cancel_nextTimer]
    exact ok.timerFresh timer (Kernel.mem_cancel.mp member).1

theorem KernelOk.reaped {k : Kernel} (ok : KernelOk k) (id : JobId) (w : WaitRet) : KernelOk (k.reaped id w) :=
  ⟨(ok.wait w.pid).pids,(ok.wait w.pid).positive,ok.timerIds,ok.timerFresh⟩

theorem Allocated.reaped {k : Kernel} {n : JobId} (names : Allocated k n) {id : JobId} (mine : id < n)
    (w : WaitRet) : Allocated (k.reaped id w) n where
  children c member := names.children c (Kernel.mem_wait.mp member).1
  spawns := names.spawns
  reaps i member := by
    rcases List.mem_cons.mp member with rfl | inside
    · exact mine
    · exact names.reaps i inside

theorem Allocated.cancel {k : Kernel} {n : JobId} (names : Allocated k n) (t : Option TimerId) :
    Allocated (k.cancel t) n :=
  ⟨by simpa using names.children,by simpa using names.spawns,by simpa using names.reaps⟩

theorem Framed.reaped {k : Kernel} {j : Job} (kernel : KernelOk k) (ok : JobOk k j) (positive : 0 < j.p)
    {w : WaitRet} (mine : w.pid = j.p) : Framed j.id k (k.reaped j.id w) := by
  have child := ok.child positive
  refine ⟨Nat.le_add_right _ _,?_,fun _ _ => Iff.rfl,fun _ _ => rfl,?_⟩
  · intro c other
    refine Kernel.mem_wait.trans ⟨And.left,fun member => ⟨member,fun same => other ?_⟩⟩
    exact congrArg Child.job (Keyed.eq_of_key kernel.pids member child (same.trans mine))
  · intro i other
    simp [Kernel.reaped,other]

theorem JobOk.down {k : Kernel} {j : Job} (ok : JobOk k j) (idle : j.state ≠ .running) (still : j.state ≠ .stopping) :
    j.p = 0 := by
  by_contra up
  rcases ok.live.mp (Nat.pos_of_ne_zero up) with running | stopping
  · exact idle running
  · exact still stopping

theorem JobOk.on {k : Kernel} {j : Job} (ok : JobOk k j) (positive : 0 < j.p) : j.disabled = false := by
  by_contra off
  exact absurd (ok.disabled (by simpa using off)) (Nat.ne_of_gt positive)

theorem JobOk.timerless {k : Kernel} {j : Job} (ok : JobOk k j) (leaving : j.pendingUnload = true) :
    j.restartTimer = none := by
  by_contra set
  exact absurd leaving (by simp [(ok.policy set).2])

theorem JobOk.bare {k : Kernel} {j : Job} (ok : JobOk k j) (bare : j.restartTimer = none) :
    ∀ t ∈ k.timers, t.job ≠ j.id := fun t armed mine =>
  absurd (ok.owned t armed mine) (by simp [bare])

namespace Local
variable {k : Kernel} {j : Job}

theorem write {j' : Job} (kernel : KernelOk k) (same : j'.id = j.id) (name : j'.label = j.label)
    (ok : JobOk k j') : Local k j k j' where
  id := same
  label := name
  framed := Framed.refl _ k
  job := ok
  kernel := kernel
  names _ _ names := names

theorem tick (kernel : KernelOk k) (ok : JobOk k j) (seconds : Nat) : Local k j (k.tick seconds) j where
  id := rfl
  label := rfl
  framed := ⟨Nat.le_add_right _ _,fun _ _ => Iff.rfl,fun _ _ => Iff.rfl,fun _ _ => rfl,fun _ _ => Iff.rfl⟩
  job := ⟨ok.live,ok.child,ok.pending,ok.disabled,ok.armed,ok.owned,ok.policy,ok.enabled⟩
  kernel := kernel.tick seconds
  names _ _ names := ⟨names.children,names.spawns,names.reaps⟩

theorem spawned (kernel : KernelOk k) (ok : JobOk k j) (enabled : j.disabled = false) {via : SpawnPath}
    {io : SpawnIO} {pid : Pid} (granted : k.grant io = some pid) {now : Nat} :
    Local k j (k.spawned j via io pid) (j.spawned pid now) := by
  obtain ⟨positive,fresh⟩ := Kernel.grant_some granted
  refine ⟨rfl,rfl,⟨Nat.le_add_right _ _,?_,fun _ _ => Iff.rfl,?_,fun _ _ => Iff.rfl⟩,?_,?_,?_⟩
  · intro c other
    refine ⟨fun member => ?_,List.mem_cons_of_mem _⟩
    rcases List.mem_cons.mp member with rfl | inside
    · exact absurd rfl other
    · exact inside
  · intro i other
    rw [Kernel.lastSpawn_cons rfl,if_neg (Ne.symm other)]
    rfl
  · exact {
      live := by simp [Job.spawned,positive]
      child := fun _ => List.mem_cons_self
      pending := fun _ => positive
      disabled := fun off => by simp [Job.spawned,enabled] at off
      armed := ok.armed
      owned := ok.owned
      policy := ok.policy
      enabled := fun _ => enabled }
  · refine ⟨List.nodup_cons.mpr ⟨fresh,kernel.pids⟩,?_,kernel.timerIds,kernel.timerFresh⟩
    intro c member
    rcases List.mem_cons.mp member with rfl | inside
    · exact positive
    · exact kernel.positive c inside
  · intro n mine names
    refine ⟨?_,?_,names.reaps⟩
    · intro c member
      rcases List.mem_cons.mp member with rfl | inside
      · exact mine
      · exact names.children c inside
    · intro r member
      rcases List.mem_cons.mp member with rfl | inside
      · exact mine
      · exact names.spawns r inside

theorem reaped (kernel : KernelOk k) (ok : JobOk k j) (positive : 0 < j.p) (staying : j.pendingUnload = false)
    {w : WaitRet} (mine : w.pid = j.p) : Local k j (k.reaped j.id w) (j.reaped w) where
  id := rfl
  label := rfl
  framed := Framed.reaped kernel ok positive mine
  job := {
    live := by simp [Job.reaped]
    child := fun absurdity => absurd absurdity (lt_irrefl 0)
    pending := fun leaving => absurd leaving (by simp [Job.reaped,staying])
    disabled := fun _ => rfl
    armed := ok.armed
    owned := ok.owned
    policy := ok.policy
    enabled := ok.enabled }
  kernel := kernel.reaped j.id w
  names _ mine names := names.reaped mine w

theorem unarmed (kernel : KernelOk k) (ok : JobOk k j) : Local k j (k.cancel j.restartTimer) j.unarmed where
  id := rfl
  label := rfl
  framed := by
    refine ⟨by simp,by simp,?_,by simp [Kernel.lastSpawn],by simp⟩
    intro t other
    refine Kernel.mem_cancel.trans ⟨And.left,fun member => ⟨member,fun set => other ?_⟩⟩
    obtain ⟨timer,inside,same,mine⟩ := ok.armed t.id set
    rw [Keyed.eq_of_key kernel.timerIds member inside same.symm]
    exact mine
  job := {
    live := ok.live
    child := by
      rw [Kernel.cancel_children]
      exact ok.child
    pending := ok.pending
    disabled := ok.disabled
    armed := nofun
    owned := fun timer member mine => by
      obtain ⟨inside,other⟩ := Kernel.mem_cancel.mp member
      exact absurd (ok.owned timer inside mine) other
    policy := fun set => absurd rfl set
    enabled := fun set => absurd rfl set }
  kernel := kernel.cancel _
  names _ _ names := names.cancel _

theorem armed (kernel : KernelOk k) (ok : JobOk k j) (bare : j.restartTimer = none) (alive : j.keepAlive = true)
    (staying : j.pendingUnload = false) (enabled : j.disabled = false) {deadline : Int} :
    Local k j (k.armed j.id deadline) (j.armed k.nextTimer) := by
  refine ⟨rfl,rfl,⟨le_refl _,fun _ _ => Iff.rfl,?_,fun _ _ => rfl,fun _ _ => Iff.rfl⟩,?_,?_,?_⟩
  · intro t other
    refine ⟨fun member => ?_,List.mem_cons_of_mem _⟩
    rcases List.mem_cons.mp member with rfl | inside
    · exact absurd rfl other
    · exact inside
  · exact {
      live := ok.live
      child := ok.child
      pending := ok.pending
      disabled := ok.disabled
      armed := fun t set => ⟨_,List.mem_cons_self,by simpa [Job.armed] using set,rfl⟩
      owned := fun timer member mine => by
        rcases List.mem_cons.mp member with rfl | inside
        · rfl
        · exact absurd (ok.owned timer inside mine) (by simp [bare])
      policy := fun _ => ⟨alive,staying⟩
      enabled := fun _ => enabled }
  · refine ⟨kernel.pids,kernel.positive,?_,?_⟩
    · refine List.nodup_cons.mpr ⟨fun member => ?_,kernel.timerIds⟩
      obtain ⟨timer,inside,same⟩ := List.mem_map.mp member
      exact absurd (kernel.timerFresh timer inside) (not_lt.mpr same.ge)
    · intro timer member
      rcases List.mem_cons.mp member with rfl | inside
      · exact Nat.lt_succ_self _
      · exact Nat.lt_succ_of_lt (kernel.timerFresh timer inside)
  · intro n _ names
    exact ⟨names.children,names.spawns,names.reaps⟩

end Local

/-- A Job as `jobmgr_load_plist_file` leaves it: it has not been started and no
part of the world knows it. -/
structure Job.Idle (j : Job) : Prop where
  state : j.state = .loaded
  p : j.p = 0
  lastSpawnAt : j.lastSpawnAt = 0
  pendingUnload : j.pendingUnload = false
  restartTimer : j.restartTimer = none

theorem jobmgrLoadPlistFile_idle {id : JobId} {path : CString} {file : FileContent} {j : Job}
    (loaded : jobmgrLoadPlistFile id path file = some j) : j.id = id ∧ j.Idle := by
  unfold jobmgrLoadPlistFile at loaded
  split at loaded
  · split at loaded
    · cases loaded
    · simp only at loaded
      split at loaded
      · cases loaded
      · cases loaded
        exact ⟨rfl,rfl,rfl,rfl,rfl,rfl⟩
  · cases loaded

theorem free_kernel (s : State) {j : Job} (bare : j.restartTimer = none) {k : Kernel} :
    (jobmgrRemoveAndFree (s.put k j) j).kernel = k := by
  rw [jobmgrRemoveAndFree,bare]
  rfl

namespace Ok
variable {s : State}

theorem quiet (ok : Ok s) {s' : State} {seconds : Nat} (jobs : s'.jobs = s.jobs)
    (singleton : s'.singleton = s.singleton) (next : s'.nextJob = s.nextJob)
    (kernel : s'.kernel = s.kernel.tick seconds) : Ok s' where
  ids := jobs ▸ ok.ids
  labels := jobs ▸ ok.labels
  allocated := by
    rw [jobs,next]
    exact ok.allocated
  names := by
    rw [kernel,next]
    exact ⟨ok.names.children,ok.names.spawns,ok.names.reaps⟩
  jobs j member := by
    rw [jobs] at member
    rw [kernel]
    exact (Local.tick ok.kernel (ok.jobs j member) seconds).job
  kernel := by
    rw [kernel]
    exact ok.kernel.tick seconds
  timers := by
    rw [kernel,jobs]
    exact ok.timers
  singleton := by
    rw [singleton,jobs]
    exact ok.singleton

theorem orphan (ok : Ok s) {pid : Pid} (foreign : ∀ j ∈ s.jobs, 0 < pid → j.p ≠ pid) :
    Ok {s with kernel := s.kernel.wait pid} where
  ids := ok.ids
  labels := ok.labels
  allocated := ok.allocated
  names := ⟨fun c member => ok.names.children c (Kernel.mem_wait.mp member).1,ok.names.spawns,ok.names.reaps⟩
  jobs j member := {
    live := (ok.jobs j member).live
    child := fun positive => by
      have child := (ok.jobs j member).child positive
      refine Kernel.mem_wait.mpr ⟨child,fun same => ?_⟩
      exact foreign j member (same ▸ positive) same
    pending := (ok.jobs j member).pending
    disabled := (ok.jobs j member).disabled
    armed := (ok.jobs j member).armed
    owned := (ok.jobs j member).owned
    policy := (ok.jobs j member).policy
    enabled := (ok.jobs j member).enabled }
  kernel := ok.kernel.wait pid
  timers := ok.timers
  singleton := ok.singleton

theorem insert (ok : Ok s) {j : Job} (fresh : j.id = s.nextJob) (idle : j.Idle)
    (new : ∀ x ∈ s.jobs, x.label ≠ j.label) :
    Ok {s with jobs := j::s.jobs,nextJob := s.nextJob+1} where
  ids := by
    refine List.nodup_cons.mpr ⟨fun member => ?_,ok.ids⟩
    obtain ⟨x,inside,same⟩ := List.mem_map.mp member
    exact absurd (ok.allocated x inside) (not_lt.mpr (fresh ▸ same.ge))
  labels := by
    refine List.nodup_cons.mpr ⟨fun member => ?_,ok.labels⟩
    obtain ⟨x,inside,same⟩ := List.mem_map.mp member
    exact new x inside same
  allocated x member := by
    rcases List.mem_cons.mp member with rfl | inside
    · exact fresh ▸ Nat.lt_succ_self _
    · exact Nat.lt_succ_of_lt (ok.allocated x inside)
  names := ⟨fun c member => Nat.lt_succ_of_lt (ok.names.children c member),
    fun r member => Nat.lt_succ_of_lt (ok.names.spawns r member),
    fun i member => Nat.lt_succ_of_lt (ok.names.reaps i member)⟩
  jobs x member := by
    rcases List.mem_cons.mp member with rfl | inside
    · exact {
        live := by simp [idle.p,idle.state]
        child := fun positive => absurd positive (by simp [idle.p])
        pending := fun leaving => absurd leaving (by simp [idle.pendingUnload])
        disabled := fun _ => idle.p
        armed := fun t set => absurd set (by simp [idle.restartTimer])
        owned := fun timer inside mine => by
          obtain ⟨y,present,same⟩ := ok.timers timer inside
          exact absurd (ok.allocated y present) (not_lt.mpr (by rw [same,mine,fresh]))
        policy := fun set => absurd idle.restartTimer set
        enabled := fun set => absurd idle.restartTimer set }
    · exact ok.jobs x inside
  kernel := ok.kernel
  timers t member := by
    obtain ⟨x,inside,same⟩ := ok.timers t member
    exact ⟨x,List.mem_cons_of_mem _ inside,same⟩
  singleton id set := by
    obtain ⟨x,inside,same⟩ := ok.singleton id set
    exact ⟨x,List.mem_cons_of_mem _ inside,same⟩

theorem free_jobs (ok : Ok s) {j j' : Job} (same : j'.id = j.id) (k : Kernel) :
    (jobmgrRemoveAndFree (s.put k j') j').jobs = Keyed.unlink Job.id s.jobs j.id := by
  rw [jobmgrRemoveAndFree,← same]
  exact Keyed.unlink_store ok.ids

theorem mem_free (ok : Ok s) {j j' : Job} (same : j'.id = j.id) {k : Kernel} {x : Job} :
    x ∈ (jobmgrRemoveAndFree (s.put k j') j').jobs ↔ x ∈ s.jobs ∧ x.id ≠ j.id := by
  rw [ok.free_jobs same]
  exact Keyed.mem_unlink ok.ids

/-- A Job is freed after a change that framed the other Jobs; the timer that
goes with it is the last thing the kernel held for it. -/
theorem free (ok : Ok s) {j j' : Job} {k : Kernel} (same : j'.id = j.id) (kernel : KernelOk k)
    (names : Allocated k s.nextJob) (framed : Framed j.id s.kernel (k.cancel j'.restartTimer))
    (bare : ∀ t ∈ (k.cancel j'.restartTimer).timers, t.job ≠ j.id) :
    Ok (jobmgrRemoveAndFree (s.put k j') j') := by
  have shorter : (jobmgrRemoveAndFree (s.put k j') j').jobs.Sublist s.jobs := by
    rw [ok.free_jobs same]
    exact Keyed.unlink_sublist _ _
  exact {
    ids := ok.ids.sublist (shorter.map Job.id)
    labels := ok.labels.sublist (shorter.map Job.label)
    allocated := fun x inside => ok.allocated x ((ok.mem_free same).mp inside).1
    names := names.cancel _
    jobs := fun x inside => (ok.jobs x ((ok.mem_free same).mp inside).1).frame framed ((ok.mem_free same).mp inside).2
    kernel := kernel.cancel _
    timers := fun t inside => by
      obtain ⟨x,present,mine⟩ := ok.timers t ((framed.timers t (bare t inside)).mp inside)
      exact ⟨x,(ok.mem_free same).mpr ⟨present,mine ▸ bare t inside⟩,mine⟩
    singleton := fun id set => by
      by_cases single : s.singleton = some j'.id
      · simp [jobmgrRemoveAndFree,single] at set
      · have set : s.singleton = some id := by simpa [jobmgrRemoveAndFree,single] using set
        obtain ⟨x,present,mine⟩ := ok.singleton id set
        refine ⟨x,(ok.mem_free same).mpr ⟨present,fun equal => single ?_⟩,mine⟩
        rw [set,← mine,equal,same] }

end Ok

end FreebsdLaunchd.Supervisor
