import FreebsdLaunchd.Supervisor.Table

/-! The children launchd has spawned and the Jobs that wait for them. A Job
whose process is still terminating is STOPPING, not RUNNING, and `job_spawn`,
`jobmgr_unload` and the restart timer take it for one that is down: exactly
there a child is lost. -/
namespace FreebsdLaunchd.Supervisor
open CData Ipc Runs

/-- Every child belongs to a Job that will notice its exit. -/
structure Attended (s : State) : Prop where
  owner : ∀ c ∈ s.kernel.children, ∃! j, j ∈ s.jobs ∧ j.p = c.pid
  onePerLabel : ∀ c ∈ s.kernel.children, ∀ d ∈ s.kernel.children, c.label = d.label → c = d
  /-- While `sigchld_handler` drains, no child of launchd's is taken for an orphan. -/
  noOrphan : ∀ returns, Along reapOne (fun s => ∀ c ∈ s.kernel.children, jobFindByPid s c.pid ≠ none) s returns

/-- A Job that is terminating is not spawned again, unloaded or restarted. -/
def patience : Law where
  allows s j
    | .start io => j.state = .stopping → s.kernel.grant io = none
    | .unload => j.state ≠ .stopping
    | .fire io => j.state = .stopping → s.kernel.grant io = none
    | _ => True
  load _ _ _ := trivial
  stop _ _ := trivial

def Accounts (k : Kernel) (j : Job) : Prop := ∀ c ∈ k.children, c.job = j.id → c.pid = j.p

/-- Every child is the process of the Job it was spawned for. -/
def NoLostChild (s : State) : Prop := ∀ c ∈ s.kernel.children, ∃ j ∈ s.jobs, j.id = c.job ∧ c.pid = j.p

theorem Accounts.childless {k : Kernel} {j : Job} (kernel : KernelOk k) (accounts : Accounts k j) (down : j.p = 0) :
    ∀ c ∈ k.children, c.job ≠ j.id := by
  intro c member mine
  have positive := kernel.positive c member
  rw [accounts c member mine,down] at positive
  exact absurd positive (lt_irrefl 0)

private theorem accounts_spawned {k : Kernel} {j : Job} (childless : ∀ c ∈ k.children, c.job ≠ j.id)
    {via : SpawnPath} {io : SpawnIO} {pid : Pid} {now : Nat} :
    Accounts (k.spawned j via io pid) (j.spawned pid now) := by
  intro c member mine
  rcases List.mem_cons.mp member with rfl | inside
  · rfl
  · exact absurd mine (childless c inside)

private theorem childless_reaped {k : Kernel} {j : Job} {w : WaitRet} (accounts : Accounts k j) (mine : w.pid = j.p) :
    ∀ c ∈ (k.reaped j.id w).children, c.job ≠ j.id := by
  intro c member owned
  obtain ⟨inside,other⟩ := Kernel.mem_wait.mp member
  exact other ((accounts c inside owned).trans mine.symm)

private theorem accounts_childless {k : Kernel} {j : Job} (childless : ∀ c ∈ k.children, c.job ≠ j.id) : Accounts k j :=
  fun c member mine => absurd mine (childless c member)

theorem Effect.accounts {s : State} {k' : Kernel} {j j' : Job} {act : Act} (kernel : KernelOk s.kernel)
    (ok : JobOk s.kernel j) (allowed : patience.allows s j act)
    (effect : Effect s.interval s.kernel j act k' j') (accounts : Accounts s.kernel j) : Accounts k' j' := by
  cases effect with
  | @spawn _ via io pid asked new enabled idle granted =>
    have still : j.state ≠ .stopping := by
      intro stopping
      rcases Act.asks_cases asked with ⟨rfl,_⟩ | ⟨rfl,_⟩
      · exact absurd (new rfl).state (by simp [stopping])
      · exact absurd granted (by simp [allowed stopping])
    exact accounts_spawned (accounts.childless kernel (ok.down idle still))
  | stop _ => exact accounts
  | unload _ _ =>
    intro c member
    rw [Kernel.cancel_children] at member
    exact accounts c member
  | rest _ mine _ _ => exact accounts_childless (childless_reaped accounts mine)
  | respawn _ mine _ _ _ _ _ =>
    have childless := childless_reaped accounts mine
    exact accounts_spawned (j := j.reaped _) childless
  | refused _ mine _ _ _ _ =>
    have childless := childless_reaped accounts mine
    exact accounts_childless childless
  | throttle _ mine _ _ _ _ =>
    apply accounts_childless
    intro c member
    simp only [Kernel.armed,Kernel.cancel_children] at member
    exact childless_reaped accounts mine c member
  | sourceless _ mine _ _ _ _ =>
    apply accounts_childless
    rw [Kernel.cancel_children]
    exact childless_reaped accounts mine
  | fire _ _ _ _ idle granted =>
    have still : j.state ≠ .stopping := fun stopping => absurd granted (by simp [allowed stopping])
    have childless := accounts.childless kernel (ok.down idle still)
    rw [← Kernel.cancel_children s.kernel j.restartTimer] at childless
    exact accounts_spawned (j := j.unarmed) childless
  | fireRefused _ _ _ _ _ _ =>
    intro c member
    simp only [Kernel.tick,Kernel.cancel_children] at member
    exact accounts c member
  | fireIdle _ _ _ _ =>
    intro c member
    rw [Kernel.cancel_children] at member
    exact accounts c member

theorem Release.childless {s : State} {k' : Kernel} {j j' : Job} {act : Act} (kernel : KernelOk s.kernel)
    (ok : JobOk s.kernel j) (allowed : patience.allows s j act) (release : Release s.kernel j act k' j')
    (accounts : Accounts s.kernel j) : ∀ c ∈ k'.children, c.job ≠ j.id := by
  cases release with
  | discard down =>
    rw [Kernel.cancel_children]
    refine accounts.childless kernel (ok.down (fun running => down ⟨running,?_⟩) allowed)
    exact ok.live.mpr (.inl running)
  | gone _ mine _ => exact childless_reaped accounts mine

theorem NoLostChild.accounts {s : State} (ok : Ok s) (attended : NoLostChild s) {j : Job} (member : j ∈ s.jobs) :
    Accounts s.kernel j := by
  intro c inside mine
  obtain ⟨x,present,named,same⟩ := attended c inside
  rw [ok.eq_of_id member present (mine.symm.trans named.symm)]
  exact same

theorem Move.noLostChild {s s' : State} (move : Move patience s s') (ok : Ok s) (attended : NoLostChild s) :
    NoLostChild s' := by
  cases move with
  | quiet jobs _ _ _ kernel =>
    intro c member
    rw [kernel] at member
    rw [jobs]
    exact attended c member
  | singleton _ => exact attended
  | orphan _ => exact fun c member => attended c (Kernel.mem_wait.mp member).1
  | insert _ _ _ =>
    intro c member
    obtain ⟨j,inside,mine⟩ := attended c member
    exact ⟨j,List.mem_cons_of_mem _ inside,mine⟩
  | @effect j j' act k member allowed effect =>
    have change := effect.keeps ok.kernel (ok.jobs j member)
    have accounts := effect.accounts ok.kernel (ok.jobs j member) allowed (attended.accounts ok member)
    intro c inside
    by_cases mine : c.job = j.id
    · refine ⟨j',State.mem_put.mpr (.inl ⟨rfl,j,member,change.id.symm⟩),change.id.trans mine.symm,?_⟩
      exact accounts c inside (mine.trans change.id.symm)
    · obtain ⟨x,present,named,same⟩ := attended c ((change.framed.children c mine).mp inside)
      refine ⟨x,State.mem_put.mpr (.inr ⟨present,?_⟩),named,same⟩
      rw [named,change.id]
      exact mine
  | @release j j' act k member allowed release =>
    obtain ⟨same,bare,framed,_⟩ := release.keeps ok.kernel (ok.jobs j member)
    have childless := release.childless ok.kernel (ok.jobs j member) allowed (attended.accounts ok member)
    intro c inside
    rw [free_kernel s bare] at inside
    obtain ⟨x,present,named,process⟩ := attended c ((framed.children c (childless c inside)).mp inside)
    refine ⟨x,(ok.mem_free same).mpr ⟨present,?_⟩,named,process⟩
    rw [named]
    exact childless c inside

theorem NoLostChild.reapOne {s : State} (ok : Ok s) (attended : NoLostChild s) (w : WaitRet) :
    NoLostChild (reapOne s w) := by
  have path := reapOne_path patience ok w fun _ _ _ => trivial
  exact path.keeps (fun _ _ ok attended move => move.noLostChild ok attended) ok attended

theorem NoLostChild.attended {s : State} (ok : Ok s) (attended : NoLostChild s) : Attended s := by
  -- the child a Job's p stands for is the one `Ok` names
  have known : ∀ c ∈ s.kernel.children, ∃ j ∈ s.jobs, j.p = c.pid ∧ j.label = c.label := by
    intro c inside
    obtain ⟨j,member,_,process⟩ := attended c inside
    have child := (ok.jobs j member).child (process ▸ ok.kernel.positive c inside)
    exact ⟨j,member,process.symm,congrArg Child.label (ok.eq_of_pid child inside process.symm)⟩
  refine ⟨?_,?_,?_⟩
  · intro c inside
    obtain ⟨j,member,process,_⟩ := known c inside
    refine ⟨j,⟨member,process⟩,fun x ⟨present,same⟩ => ?_⟩
    exact ok.eq_of_p present member (same ▸ ok.kernel.positive c inside) (same.trans process.symm)
  · intro c inside d inside' same
    obtain ⟨j,member,process,named⟩ := known c inside
    obtain ⟨x,present,process',named'⟩ := known d inside'
    have one := ok.eq_of_label member present (named.trans (same.trans named'.symm))
    exact ok.eq_of_pid inside inside' (by rw [← process,← process',one])
  · intro returns
    have drained : Along Supervisor.reapOne (fun s => Ok s ∧ NoLostChild s) s returns := by
      apply along_of_meets _ ⟨ok,attended⟩ (meets_of_forall (fun _ _ => trivial) s returns)
      intro s w holds _
      exact ⟨(reapOne_path anything holds.1 w fun _ _ _ => trivial).ok holds.1,holds.2.reapOne holds.1 w⟩
    refine drained.imp fun s holds c inside missing => ?_
    obtain ⟨j,member,_,process⟩ := holds.2 c inside
    exact jobFindByPid_none missing j member (holds.1.kernel.positive c inside) process.symm

private theorem forgotten_not_attended {s s' : State} (ok : Ok s) {j : Job} (member : j ∈ s.jobs) (positive : 0 < j.p)
    (child : ⟨j.p,j.id,j.label⟩ ∈ s'.kernel.children)
    (others : ∀ x ∈ s'.jobs, x.p = j.p → x ∈ s.jobs ∧ x.id ≠ j.id) : ¬ Attended s' := by
  intro attended
  obtain ⟨x,⟨inside,process⟩,_⟩ := attended.owner _ child
  obtain ⟨present,other⟩ := others x inside process
  exact other (congrArg Job.id (ok.eq_of_p present member (process ▸ positive) process))

private theorem respawn_not_attended {s : State} (ok : Ok s) {j j' : Job} (member : j ∈ s.jobs) (positive : 0 < j.p)
    {k : Kernel} {via : SpawnPath} {io : SpawnIO} {pid : Pid} (same : k.children = s.kernel.children)
    (named : j'.id = j.id) (granted : k.grant io = some pid) {now : Nat} :
    ¬ Attended (s.put (k.spawned j' via io pid) (j'.spawned pid now)) := by
  have child := (ok.jobs j member).child positive
  apply forgotten_not_attended ok member positive
  · exact List.mem_cons_of_mem _ (same ▸ child)
  · intro x inside process
    rcases State.mem_put.mp inside with ⟨rfl,_⟩ | ⟨present,other⟩
    · have fresh := (Kernel.grant_some granted).2
      rw [same,show pid = j.p from process] at fresh
      exact absurd (List.mem_map_of_mem child) fresh
    · exact ⟨present,fun equal => other (equal.trans named.symm)⟩

private theorem lawful_of_calm {s : State} (calm : ∀ j ∈ s.jobs, j.state ≠ .stopping) (e : Event) :
    Lawful patience s e := by
  intro _
  cases e with
  | connection r io =>
    intro _ label j found
    have still := calm j (Keyed.find_some found).1
    exact ⟨fun _ stopping => absurd stopping still,fun _ => still⟩
  | timer id io => exact fun t j _ found stopping => absurd stopping (calm j (Keyed.find_some found).1)
  | sigchld returns => exact meets_of_forall (fun _ _ _ _ _ => trivial) s returns
  | tick seconds => exact trivial
  | scan dir entries => exact trivial
  | signal => exact trivial

private theorem lawful_of_attended {s : State} {e : Event} (ok : Ok s) (attended : Attended (step s e)) :
    Lawful patience s e := by
  intro up
  cases e with
  | connection r io =>
    intro open' label j found
    have member := (Keyed.find_some found).1
    refine ⟨fun asks stopping => ?_,fun asks stopping => ?_⟩
    · have positive := (ok.jobs j member).live.mpr (.inr stopping)
      by_contra refused
      obtain ⟨pid,granted,done⟩ := handleStart_stopping ok asks.2.2.2 found stopping refused
      rw [step_start up open' asks,done] at attended
      exact respawn_not_attended ok member positive rfl rfl granted attended
    · have positive := (ok.jobs j member).live.mpr (.inr stopping)
      rw [step_unload up open' asks] at attended
      rcases jobmgrUnload_cases s label with ⟨absent,_⟩ | ⟨x,same,cases⟩
      · exact absurd found (by simp [absent])
      rw [found,Option.some.injEq] at same
      subst same
      rcases cases with ⟨running,_⟩ | ⟨_,done⟩
      · exact absurd running (by simp [stopping])
      · simp only [handleUnload,withText,if_neg asks.2.2.2,done] at attended
        have named : j.marked.id = j.id := rfl
        refine forgotten_not_attended ok member positive ?_ ?_ attended
        · rw [free_kernel s rfl,Kernel.cancel_children]
          exact (ok.jobs j member).child positive
        · exact fun x inside _ => (ok.mem_free named).mp inside
  | timer id io =>
    intro t j due found stopping
    by_contra refused
    obtain ⟨armed,ripe⟩ := dueTimer_some due
    obtain ⟨x,k',x',same,member,_,effect,done⟩ := restartTimerBlock_effect ok armed ripe io
    rw [found,Option.some.injEq] at same
    subst same
    have positive := (ok.jobs j member).live.mpr (.inr stopping)
    rw [step_timer up due,done] at attended
    cases effect with
    | spawn asked _ _ _ _ => cases asked
    | fire _ _ _ _ _ granted =>
      have named : j.unarmed.id = j.id := rfl
      rw [← Kernel.cancel_grant _ j.restartTimer] at granted
      exact respawn_not_attended ok member positive (Kernel.cancel_children _ _) named granted attended
    | fireRefused _ _ _ _ _ denied => exact refused denied
    | fireIdle _ _ _ moot =>
      rcases moot with off | running
      · exact absurd off (by simp [(ok.jobs j member).on positive])
      · exact absurd running (by simp [stopping])
  | sigchld returns => exact meets_of_forall (fun _ _ _ _ _ => trivial) s returns
  | tick seconds => exact trivial
  | scan dir entries => exact trivial
  | signal => exact trivial

/-- No child is lost in a run exactly if no event of the run reaches for a Job
that is still terminating. -/
theorem attended_iff_patient {o : Options} {s₀ : State} (started : main o = some s₀) (events : List Event) :
    Along step Attended s₀ events ↔ Meets step (Lawful patience) s₀ events := by
  have start : NoLostChild s₀ :=
    (main_path patience started).keeps (fun _ _ ok attended move => move.noLostChild ok attended)
      (emptyState_ok o) nofun
  refine along_iff_meets (I := Ok) (P := NoLostChild) ?_ ?_ ?_ ?_ (main_ok started) start events
  · exact fun s e ok => step_ok ok e
  · intro s e ok attended lawful
    exact (step_path patience ok e lawful).keeps (fun _ _ ok attended move => move.noLostChild ok attended) ok attended
  · exact fun s e ok _ attended => lawful_of_attended ok attended
  · exact fun s ok attended => attended.attended ok

open Sample

/-- STOP leaves the process running for a while; START then spawns a second one
and forgets the first. -/
theorem started_while_stopping_not_attended :
    ¬ ∀ o s₀ events, main o = some s₀ → Along step Attended s₀ events := by
  intro attended
  have last := (attended daemon booted [load (service "svc" true false false) (some 100),stop "svc",
    start "svc" (some 101)] rfl).last
  obtain ⟨j,⟨member,process⟩,_⟩ := last.owner ⟨100,0,.lit "svc"⟩ (by decide)
  have forgotten : ∀ j ∈ (run step booted [load (service "svc" true false false) (some 100),stop "svc",
    start "svc" (some 101)]).jobs, j.p ≠ 100 := by decide
  exact forgotten j member process

theorem attended_iff_patient_restarted :
    Along step Attended booted [load (service "svc" true false false) (some 100),stop "svc",exited 100 1 none,
      start "svc" (some 101)] :=
  (attended_iff_patient (o := daemon) rfl _).mpr
    ⟨lawful_of_calm (by decide) _,lawful_of_calm (by decide) _,fun _ => ⟨fun _ _ _ => trivial,trivial⟩,
      lawful_of_calm (by decide) _,trivial⟩

end FreebsdLaunchd.Supervisor
