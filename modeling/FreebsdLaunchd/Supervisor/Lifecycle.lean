import FreebsdLaunchd.Supervisor.Effects
import Mathlib.Logic.Relation

/-! The life of a Job. Whatever event is handled, each Job it reaches goes
through one of the transitions of `Effect` or is freed by one of `Release`;
the handlers of `core.m` and `ipc.c` are shown to do nothing else. A property
of every run is then proved transition by transition, under a law on the acts
that the run has to keep. -/
namespace FreebsdLaunchd.Supervisor
open CData Ipc Runs

/-- What is done to a Job of the table, with how the world answers. -/
inductive Act
  | load (io : SpawnIO)
  | start (io : SpawnIO)
  | stop
  | unload
  | reap (w : WaitRet)
  | fire (io : SpawnIO)

def Act.asks : Act → Option (SpawnPath × SpawnIO)
  | load io => some (.runAtLoad,io)
  | start io => some (.start,io)
  | _ => none

theorem Act.asks_cases {act : Act} {via : SpawnPath} {io : SpawnIO} (asked : act.asks = some (via,io)) :
    act = .load io ∧ via = .runAtLoad ∨ act = .start io ∧ via = .start := by
  cases act with
  | load io' =>
    cases asked
    exact .inl ⟨rfl,rfl⟩
  | start io' =>
    cases asked
    exact .inr ⟨rfl,rfl⟩
  | stop | unload | reap _ | fire _ => cases asked

def Job.delay (interval : Nat) (k : Kernel) (j : Job) (w : WaitRet) : Int :=
  respawnDelay interval j.lastSpawnAt (k.clock + w.elapsed)

/-- The transitions of a Job that stays in the table. -/
inductive Effect (interval : Nat) (k : Kernel) (j : Job) : Act → Kernel → Job → Prop
  | spawn {act : Act} {via : SpawnPath} {io : SpawnIO} {pid : Pid} (asked : act.asks = some (via,io))
      (new : act = .load io → j.Idle) (enabled : j.disabled = false) (idle : j.state ≠ .running)
      (granted : k.grant io = some pid) :
      Effect interval k j act (k.spawned j via io pid) (j.spawned pid (k.clock+io.elapsed))
  | stop (running : j.state = .running) : Effect interval k j .stop k {j with state := .stopping}
  | unload (running : j.state = .running) (positive : 0 < j.p) :
      Effect interval k j .unload (k.cancel j.restartTimer) j.unloading
  | rest {w : WaitRet} (positive : 0 < j.p) (mine : w.pid = j.p) (staying : j.pendingUnload = false)
      (once : j.keepAlive = false) : Effect interval k j (.reap w) (k.reaped j.id w) (j.reaped w)
  | respawn {w : WaitRet} {pid : Pid} (positive : 0 < j.p) (mine : w.pid = j.p) (staying : j.pendingUnload = false)
      (alive : j.keepAlive = true) (enabled : j.disabled = false) (due : j.delay interval k w ≤ 0)
      (granted : (k.reaped j.id w).grant w.io.spawn = some pid) :
      Effect interval k j (.reap w) ((k.reaped j.id w).spawned (j.reaped w) .keepAlive w.io.spawn pid)
        ((j.reaped w).spawned pid (k.clock+w.elapsed+w.io.spawn.elapsed))
  | refused {w : WaitRet} (positive : 0 < j.p) (mine : w.pid = j.p) (staying : j.pendingUnload = false)
      (alive : j.keepAlive = true) (due : j.delay interval k w ≤ 0)
      (denied : (k.reaped j.id w).grant w.io.spawn = none) :
      Effect interval k j (.reap w) ((k.reaped j.id w).tick w.io.spawn.elapsed) (j.reaped w)
  | throttle {w : WaitRet} (positive : 0 < j.p) (mine : w.pid = j.p) (staying : j.pendingUnload = false)
      (alive : j.keepAlive = true) (early : 0 < j.delay interval k w) (source : w.io.source = true) :
      Effect interval k j (.reap w)
        (((k.reaped j.id w).cancel j.restartTimer).armed j.id
          (dispatchDeadline (k.clock+w.elapsed) (j.delay interval k w)))
        ((j.reaped w).armed ((k.reaped j.id w).cancel j.restartTimer).nextTimer)
  | sourceless {w : WaitRet} (positive : 0 < j.p) (mine : w.pid = j.p) (staying : j.pendingUnload = false)
      (alive : j.keepAlive = true) (early : 0 < j.delay interval k w) (source : w.io.source = false) :
      Effect interval k j (.reap w) ((k.reaped j.id w).cancel j.restartTimer) (j.reaped w).unarmed
  | fire {io : SpawnIO} {t : Timer} {pid : Pid} (armed : t ∈ k.timers) (mine : t.job = j.id)
      (due : t.deadline ≤ k.clock) (enabled : j.disabled = false) (idle : j.state ≠ .running)
      (granted : k.grant io = some pid) :
      Effect interval k j (.fire io) ((k.cancel j.restartTimer).spawned j.unarmed .keepAlive io pid)
        (j.unarmed.spawned pid (k.clock+io.elapsed))
  | fireRefused {io : SpawnIO} {t : Timer} (armed : t ∈ k.timers) (mine : t.job = j.id)
      (due : t.deadline ≤ k.clock) (enabled : j.disabled = false) (idle : j.state ≠ .running)
      (denied : k.grant io = none) :
      Effect interval k j (.fire io) ((k.cancel j.restartTimer).tick io.elapsed) j.unarmed
  | fireIdle {io : SpawnIO} {t : Timer} (armed : t ∈ k.timers) (mine : t.job = j.id)
      (due : t.deadline ≤ k.clock) (moot : j.disabled = true ∨ j.state = .running) :
      Effect interval k j (.fire io) (k.cancel j.restartTimer) j.unarmed

/-- The two ways a Job leaves the table: an unload that finds no running
child, and the reap of the child an unload has left behind. -/
inductive Release (k : Kernel) (j : Job) : Act → Kernel → Job → Prop
  | discard (down : ¬ (j.state = .running ∧ 0 < j.p)) :
      Release k j .unload (k.cancel j.restartTimer) j.marked
  | gone {w : WaitRet} (positive : 0 < j.p) (mine : w.pid = j.p) (leaving : j.pendingUnload = true) :
      Release k j (.reap w) (k.reaped j.id w) (j.reaped w)

/-- What the acts of a run have to keep to. Nothing is ever asked of the spawn
at load or of STOP. -/
structure Law where
  allows : State → Job → Act → Prop
  load : ∀ s j io, allows s j (.load io)
  stop : ∀ s j, allows s j .stop

def anything : Law := ⟨fun _ _ _ => True,fun _ _ _ => trivial,fun _ _ => trivial⟩

inductive Move (law : Law) (s : State) : State → Prop
  | quiet {s' : State} {seconds : Nat} (jobs : s'.jobs = s.jobs) (singleton : s'.singleton = s.singleton)
      (next : s'.nextJob = s.nextJob) (interval : s'.interval = s.interval)
      (kernel : s'.kernel = s.kernel.tick seconds) : Move law s s'
  | singleton {j : Job} (member : j ∈ s.jobs) : Move law s (jobmgrSetSingleton s j)
  | orphan {pid : Pid} (foreign : ∀ j ∈ s.jobs, 0 < pid → j.p ≠ pid) :
      Move law s {s with kernel := s.kernel.wait pid}
  | insert {j : Job} (fresh : j.id = s.nextJob) (idle : j.Idle) (new : ∀ x ∈ s.jobs, x.label ≠ j.label) :
      Move law s {s with jobs := j::s.jobs,nextJob := s.nextJob+1}
  | effect {j j' : Job} {act : Act} {k : Kernel} (member : j ∈ s.jobs) (allowed : law.allows s j act)
      (effect : Effect s.interval s.kernel j act k j') : Move law s (s.put k j')
  | release {j j' : Job} {act : Act} {k : Kernel} (member : j ∈ s.jobs) (allowed : law.allows s j act)
      (release : Release s.kernel j act k j') : Move law s (jobmgrRemoveAndFree (s.put k j') j')

/-- A transition keeps its Job in agreement with the kernel and touches no
other. -/
theorem Effect.keeps {interval : Nat} {k k' : Kernel} {j j' : Job} {act : Act}
    (effect : Effect interval k j act k' j') (kernel : KernelOk k) (ok : JobOk k j) : Local k j k' j' := by
  cases effect with
  | spawn _ _ enabled _ granted => exact Local.spawned kernel ok enabled granted
  | stop running =>
    refine Local.write kernel rfl rfl { ok with live := ?_ }
    have positive := ok.live.mpr (.inl running)
    simpa using positive
  | unload running positive =>
    have bare := Local.unarmed kernel ok
    refine bare.trans (Local.write bare.kernel rfl rfl ?_)
    exact { bare.job with
      live := by simpa [Job.unloading,Job.marked,Job.unarmed] using positive
      pending := fun _ => positive
      armed := nofun
      policy := fun set => absurd rfl set
      enabled := fun set => absurd rfl set }
  | rest positive mine staying _ =>
    exact Local.reaped kernel ok positive staying mine
  | respawn positive mine staying _ enabled _ granted =>
    have first := Local.reaped kernel ok positive staying mine
    exact first.trans (Local.spawned first.kernel first.job enabled granted)
  | refused positive mine staying _ _ denied =>
    have first := Local.reaped kernel ok positive staying mine
    exact first.trans (Local.tick first.kernel first.job _)
  | throttle positive mine staying alive early _ =>
    have first := Local.reaped kernel ok positive staying mine
    have second := first.trans (Local.unarmed first.kernel first.job)
    exact second.trans (Local.armed second.kernel second.job rfl alive staying (ok.on positive))
  | sourceless positive mine staying _ _ _ =>
    have first := Local.reaped kernel ok positive staying mine
    exact first.trans (Local.unarmed first.kernel first.job)
  | fire _ _ _ enabled _ granted =>
    have first := Local.unarmed kernel ok
    refine first.trans (Local.spawned first.kernel first.job enabled ?_)
    rw [Kernel.cancel_grant]
    exact granted
  | fireRefused _ _ _ _ _ _ =>
    have first := Local.unarmed kernel ok
    exact first.trans (Local.tick first.kernel first.job _)
  | fireIdle _ _ _ _ => exact Local.unarmed kernel ok

/-- What the other Jobs see of a release, and that nothing is left of the Job. -/
theorem Release.keeps {k k' : Kernel} {j j' : Job} {act : Act} (release : Release k j act k' j')
    (kernel : KernelOk k) (ok : JobOk k j) :
    j'.id = j.id ∧ j'.restartTimer = none ∧ Framed j.id k k' ∧ KernelOk k' ∧
      (∀ n, j.id < n → Allocated k n → Allocated k' n) ∧ ∀ t ∈ k'.timers, t.job ≠ j.id := by
  cases release with
  | discard _ =>
    have bare := Local.unarmed kernel ok
    exact ⟨rfl,rfl,bare.framed,bare.kernel,bare.names,bare.job.bare rfl⟩
  | @gone w positive mine leaving =>
    have bare := ok.timerless leaving
    exact ⟨rfl,bare,Framed.reaped kernel ok positive mine,kernel.reaped _ _,
      fun n mine names => names.reaped mine w,ok.bare bare⟩

theorem Effect.spawns {interval : Nat} {k k' : Kernel} {j j' : Job} {act : Act}
    (effect : Effect interval k j act k' j') :
    k'.spawns = k.spawns ∨ ∃ r, k'.spawns = r::k.spawns ∧ r.job = j.id ∧ r.label = j.label := by
  cases effect with
  | spawn _ _ _ _ _ => exact .inr ⟨_,rfl,rfl,rfl⟩
  | respawn _ _ _ _ _ _ _ => exact .inr ⟨_,rfl,rfl,rfl⟩
  | fire _ _ _ _ _ _ => exact .inr ⟨_,by rw [Kernel.spawned,Kernel.cancel_spawns],rfl,rfl⟩
  | stop _ => exact .inl rfl
  | unload _ _ => exact .inl (Kernel.cancel_spawns _ _)
  | rest _ _ _ _ => exact .inl rfl
  | refused _ _ _ _ _ _ => exact .inl rfl
  | throttle _ _ _ _ _ _ => exact .inl (Kernel.cancel_spawns _ _)
  | sourceless _ _ _ _ _ _ => exact .inl (Kernel.cancel_spawns _ _)
  | fireRefused _ _ _ _ _ _ => exact .inl (Kernel.cancel_spawns _ _)
  | fireIdle _ _ _ _ => exact .inl (Kernel.cancel_spawns _ _)

theorem Release.spawns {k k' : Kernel} {j j' : Job} {act : Act} (release : Release k j act k' j') :
    k'.spawns = k.spawns := by
  cases release with
  | discard _ => exact Kernel.cancel_spawns _ _
  | gone _ _ _ => rfl

theorem Move.ok {law : Law} {s s' : State} (move : Move law s s') (ok : Ok s) : Ok s' := by
  cases move with
  | quiet jobs singleton next _ kernel => exact ok.quiet jobs singleton next kernel
  | @singleton j member =>
    exact { ok with singleton := fun id set => ⟨j,member,by simpa [jobmgrSetSingleton] using set⟩ }
  | orphan foreign => exact ok.orphan foreign
  | insert fresh idle new => exact ok.insert fresh idle new
  | effect member _ effect => exact ok.put member (effect.keeps ok.kernel (ok.jobs _ member))
  | release member _ release =>
    obtain ⟨same,bare,framed,kernel,names,alone⟩ := release.keeps ok.kernel (ok.jobs _ member)
    apply ok.free same kernel (names _ (ok.allocated _ member) ok.names)
    · rw [bare]
      exact framed
    · rw [bare]
      exact alone

abbrev Path (law : Law) : State → State → Prop := Relation.ReflTransGen (Move law)

theorem Path.ok {law : Law} {s s' : State} (path : Path law s s') (ok : Ok s) : Ok s' := by
  induction path with
  | refl => exact ok
  | tail _ move ih => exact move.ok ih

theorem Path.keeps {law : Law} {P : State → Prop} (keeps : ∀ s s', Ok s → P s → Move law s s' → P s')
    {s s' : State} (path : Path law s s') (ok : Ok s) (holds : P s) : P s' := by
  induction path with
  | refl => exact holds
  | tail before move ih => exact keeps _ _ (Path.ok before ok) ih move

/-- The rule for a property of each Job by itself: it is stable under what other
Jobs do, it holds of a fresh Job, and every transition of its own keeps it. -/
theorem Move.each {law : Law} {s s' : State} (move : Move law s s') (ok : Ok s) {Q : Kernel → Job → Prop}
    (frame : ∀ id k k' x, Framed id k k' → x.id ≠ id → Q k x → Q k' x)
    (wait : ∀ k pid x, Q k x → Q (k.wait pid) x)
    (new : ∀ j, j.id = s.nextJob → j.Idle → Q s.kernel j)
    (own : ∀ j act k' j', j ∈ s.jobs → law.allows s j act → Effect s.interval s.kernel j act k' j' →
      Q s.kernel j → Q k' j')
    (all : ∀ x ∈ s.jobs, Q s.kernel x) : ∀ x ∈ s'.jobs, Q s'.kernel x := by
  intro x inside
  cases move with
  | @quiet _ seconds jobs _ _ _ kernel =>
    rw [jobs] at inside
    rw [kernel]
    have framed := (Local.tick ok.kernel (ok.jobs x inside) seconds).framed
    -- time passing is no Job's own doing, so any other name will do
    have still : Framed (x.id+1) s.kernel (s.kernel.tick seconds) :=
      ⟨framed.clock,fun _ _ => Iff.rfl,fun _ _ => Iff.rfl,fun _ _ => rfl,fun _ _ => Iff.rfl⟩
    exact frame _ _ _ x still (Nat.ne_of_lt (Nat.lt_succ_self _)) (all x inside)
  | singleton _ => exact all x inside
  | orphan _ => exact wait _ _ x (all x inside)
  | insert fresh idle _ =>
    rcases List.mem_cons.mp inside with rfl | present
    · exact new x fresh idle
    · exact all x present
  | effect member allowed effect =>
    have change := effect.keeps ok.kernel (ok.jobs _ member)
    rcases State.mem_put.mp inside with ⟨rfl,_⟩ | ⟨present,other⟩
    · exact own _ _ _ _ member allowed effect (all _ member)
    · exact frame _ _ _ x change.framed (change.id ▸ other) (all x present)
  | release member _ release =>
    obtain ⟨same,bare,framed,_⟩ := release.keeps ok.kernel (ok.jobs _ member)
    obtain ⟨present,other⟩ := (ok.mem_free same).mp inside
    rw [free_kernel s bare]
    exact frame _ _ _ x framed other (all x present)

end FreebsdLaunchd.Supervisor
