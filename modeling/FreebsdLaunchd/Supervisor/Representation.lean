import FreebsdLaunchd.Supervisor.Runtime

/-! The representation invariant of the job table. What it says about one Job
concerns that Job, its own children and its own timers, so a write through one
Job pointer is checked against that Job alone: everything that belongs to the
other Jobs is framed away. -/
namespace FreebsdLaunchd.Supervisor
open CData

/-- A Job agrees with what the kernel holds for it. -/
structure JobOk (k : Kernel) (j : Job) : Prop where
  live : 0 < j.p ↔ j.state = .running ∨ j.state = .stopping
  child : 0 < j.p → ⟨j.p,j.id,j.label⟩ ∈ k.children
  pending : j.pendingUnload = true → 0 < j.p
  disabled : j.disabled = true → j.p = 0
  armed : ∀ t, j.restartTimer = some t → ∃ timer ∈ k.timers, timer.id = t ∧ timer.job = j.id
  owned : ∀ timer ∈ k.timers, timer.job = j.id → j.restartTimer = some timer.id
  policy : j.restartTimer ≠ none → j.keepAlive = true ∧ j.pendingUnload = false
  enabled : j.restartTimer ≠ none → j.disabled = false

structure KernelOk (k : Kernel) : Prop where
  pids : (k.children.map Child.pid).Nodup
  positive : ∀ c ∈ k.children, 0 < c.pid
  timerIds : (k.timers.map Timer.id).Nodup
  timerFresh : ∀ t ∈ k.timers, t.id < k.nextTimer

/-- Every Job whose name the kernel still holds has been allocated. -/
structure Allocated (k : Kernel) (nextJob : JobId) : Prop where
  children : ∀ c ∈ k.children, c.job < nextJob
  spawns : ∀ r ∈ k.spawns, r.job < nextJob
  reaps : ∀ i ∈ k.reaps, i < nextJob

structure Ok (s : State) : Prop where
  ids : (s.jobs.map Job.id).Nodup
  labels : (s.jobs.map Job.label).Nodup
  allocated : ∀ j ∈ s.jobs, j.id < s.nextJob
  names : Allocated s.kernel s.nextJob
  jobs : ∀ j ∈ s.jobs, JobOk s.kernel j
  kernel : KernelOk s.kernel
  timers : ∀ t ∈ s.kernel.timers, ∃ j ∈ s.jobs, j.id = t.job
  singleton : ∀ id, s.singleton = some id → ∃ j ∈ s.jobs, j.id = id

def Kernel.lastSpawn (k : Kernel) (id : JobId) : Option Spawn := k.spawns.find? fun r => r.job = id

/-- Time went on, and nothing changed for any Job but the one at `id`. -/
structure Framed (id : JobId) (k k' : Kernel) : Prop where
  clock : k.clock ≤ k'.clock
  children : ∀ c, c.job ≠ id → (c ∈ k'.children ↔ c ∈ k.children)
  timers : ∀ t, t.job ≠ id → (t ∈ k'.timers ↔ t ∈ k.timers)
  spawns : ∀ i, i ≠ id → k'.lastSpawn i = k.lastSpawn i
  reaps : ∀ i, i ≠ id → (i ∈ k'.reaps ↔ i ∈ k.reaps)

theorem Framed.refl (id : JobId) (k : Kernel) : Framed id k k :=
  ⟨le_refl _,fun _ _ => Iff.rfl,fun _ _ => Iff.rfl,fun _ _ => rfl,fun _ _ => Iff.rfl⟩

theorem Framed.trans {id : JobId} {k k' k'' : Kernel} (first : Framed id k k') (second : Framed id k' k'') :
    Framed id k k'' where
  clock := first.clock.trans second.clock
  children c other := (second.children c other).trans (first.children c other)
  timers t other := (second.timers t other).trans (first.timers t other)
  spawns i other := (second.spawns i other).trans (first.spawns i other)
  reaps i other := (second.reaps i other).trans (first.reaps i other)

theorem JobOk.frame {id : JobId} {k k' : Kernel} {j : Job} (framed : Framed id k k') (other : j.id ≠ id)
    (ok : JobOk k j) : JobOk k' j where
  live := ok.live
  child positive := (framed.children _ other).mpr (ok.child positive)
  pending := ok.pending
  disabled := ok.disabled
  armed t set := by
    obtain ⟨timer,member,same,mine⟩ := ok.armed t set
    exact ⟨timer,(framed.timers timer (by rw [mine]; exact other)).mpr member,same,mine⟩
  owned timer member mine :=
    ok.owned timer ((framed.timers timer (by rw [mine]; exact other)).mp member) mine
  policy := ok.policy
  enabled := ok.enabled

/-- A write through one Job pointer that leaves the Job in agreement with the
kernel and touches nothing of the others. -/
structure Local (k : Kernel) (j : Job) (k' : Kernel) (j' : Job) : Prop where
  id : j'.id = j.id
  label : j'.label = j.label
  framed : Framed j.id k k'
  job : JobOk k' j'
  kernel : KernelOk k'
  names : ∀ n, j.id < n → Allocated k n → Allocated k' n

theorem Local.trans {k k' k'' : Kernel} {j j' j'' : Job} (first : Local k j k' j')
    (second : Local k' j' k'' j'') : Local k j k'' j'' where
  id := second.id.trans first.id
  label := second.label.trans first.label
  framed := first.framed.trans (first.id ▸ second.framed)
  job := second.job
  kernel := second.kernel
  names n mine names := second.names n (first.id ▸ mine) (first.names n mine names)

@[simp] theorem State.put_kernel (s : State) (k : Kernel) (j : Job) : (s.put k j).kernel = k := rfl
@[simp] theorem State.put_singleton (s : State) (k : Kernel) (j : Job) :
    (s.put k j).singleton = s.singleton := rfl
@[simp] theorem State.put_singletonDone (s : State) (k : Kernel) (j : Job) :
    (s.put k j).singletonDone = s.singletonDone := rfl

theorem State.mem_put {s : State} {k : Kernel} {j x : Job} : x ∈ (s.put k j).jobs ↔
    (x = j ∧ ∃ y ∈ s.jobs, y.id = j.id) ∨ (x ∈ s.jobs ∧ x.id ≠ j.id) := Keyed.mem_store

theorem State.put_ids (s : State) (k : Kernel) (j : Job) :
    (s.put k j).jobs.map Job.id = s.jobs.map Job.id := Keyed.map_key_store

theorem State.exists_put_id {s : State} {k : Kernel} {j : Job} {id : JobId} :
    (∃ x ∈ (s.put k j).jobs, x.id = id) ↔ ∃ x ∈ s.jobs, x.id = id := by
  have same := congrArg (id ∈ ·) (s.put_ids k j)
  simpa only [List.mem_map,eq_iff_iff] using same

namespace Ok
variable {s : State}

theorem eq_of_id (ok : Ok s) {a b : Job} (ha : a ∈ s.jobs) (hb : b ∈ s.jobs) (same : a.id = b.id) : a = b :=
  Keyed.eq_of_key ok.ids ha hb same

theorem eq_of_label (ok : Ok s) {a b : Job} (ha : a ∈ s.jobs) (hb : b ∈ s.jobs)
    (same : a.label = b.label) : a = b :=
  Keyed.eq_of_key ok.labels ha hb same

theorem eq_of_pid (ok : Ok s) {c d : Child} (hc : c ∈ s.kernel.children) (hd : d ∈ s.kernel.children)
    (same : c.pid = d.pid) : c = d :=
  Keyed.eq_of_key ok.kernel.pids hc hd same

theorem eq_of_p (ok : Ok s) {a b : Job} (ha : a ∈ s.jobs) (hb : b ∈ s.jobs) (positive : 0 < a.p)
    (same : a.p = b.p) : a = b := by
  have mine := (ok.jobs a ha).child positive
  have yours := (ok.jobs b hb).child (same ▸ positive)
  have child := ok.eq_of_pid mine yours same
  exact ok.eq_of_id ha hb (congrArg Child.job child)

theorem put (ok : Ok s) {j j' : Job} {k' : Kernel} (member : j ∈ s.jobs)
    (step : Local s.kernel j k' j') : Ok (s.put k' j') where
  ids := by
    rw [State.put_ids]
    exact ok.ids
  labels := by
    have same : (s.put k' j').jobs.map Job.label = s.jobs.map Job.label := by
      apply Keyed.map_store
      intro x inside equal
      rw [ok.eq_of_id inside member (equal.trans step.id),step.label]
    rw [same]
    exact ok.labels
  allocated := by
    intro x inside
    obtain ⟨y,present,same⟩ := State.exists_put_id.mp ⟨x,inside,rfl⟩
    exact same ▸ ok.allocated y present
  names := step.names s.nextJob (ok.allocated j member) ok.names
  jobs := by
    intro x inside
    rcases State.mem_put.mp inside with ⟨rfl,_⟩ | ⟨present,other⟩
    · exact step.job
    · exact (ok.jobs x present).frame step.framed (step.id ▸ other)
  kernel := step.kernel
  timers := by
    intro t inside
    rw [State.exists_put_id]
    by_cases mine : t.job = j.id
    · exact ⟨j,member,mine.symm⟩
    · exact ok.timers t ((step.framed.timers t mine).mp inside)
  singleton := by
    intro id set
    rw [State.exists_put_id]
    exact ok.singleton id set

end Ok

end FreebsdLaunchd.Supervisor
