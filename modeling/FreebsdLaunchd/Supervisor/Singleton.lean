import FreebsdLaunchd.Supervisor.KeepAlive

/-! Single-plist mode: launchd started without `-d` ends with the Job of its `-p`
plist. It exits at no other moment, and as long as it runs that Job has to have
a process or a timer, or the end cannot come. -/
namespace FreebsdLaunchd.Supervisor
open CData Ipc Runs

/-- The events of a launchd that has no socket: time, exits and timers. -/
def Event.Unasked : Event → Prop
  | .tick _ => True
  | .sigchld _ => True
  | .timer _ _ => True
  | _ => False

/-- launchd has exited, or the singleton is up or about to be. -/
def Awaited (s : State) : Prop :=
  s.shuttingDown = true ∨ ∃ j ∈ s.jobs, s.singleton = some j.id ∧
    (0 < j.p ∨ ∃ t ∈ s.kernel.timers, j.restartTimer = some t.id)

/-- A return of `waitpid` that ends launchd is the exit of the singleton's
process, and the singleton is not to be respawned. -/
def EndsWithSingleton (s : State) (w : WaitRet) : Prop :=
  s.shuttingDown = false → (reapOne s w).shuttingDown = true →
    ∃ j ∈ s.jobs, s.singleton = some j.id ∧ 0 < j.p ∧ w.pid = j.p ∧ (j.keepAlive = false ∨ j.pendingUnload = true)

/-- `launchd_shutdown` is called nowhere else. -/
def ExitsByReap (s : State) : Event → Prop
  | .sigchld returns => Meets reapOne EndsWithSingleton s returns
  | e => (step s e).shuttingDown = s.shuttingDown

def singletonRespawning : Law where
  allows s j act := s.singleton = some j.id → respawning.allows s j act
  load _ _ _ _ := trivial
  stop _ _ _ := trivial

structure Waiting (s : State) : Prop where
  exits : s.exitWhenDone = true
  undone : s.shuttingDown = false → s.singletonDone = false

def Pending (s : State) : Prop :=
  ∃ j ∈ s.jobs, s.singleton = some j.id ∧ (0 < j.p ∨ j.restartTimer ≠ none)

theorem Pending.armed {s : State} (ok : Ok s) (pending : Pending s) : ∃ j ∈ s.jobs, s.singleton = some j.id ∧
    (0 < j.p ∨ ∃ t ∈ s.kernel.timers, j.restartTimer = some t.id) := by
  obtain ⟨j,member,single,up | set⟩ := pending
  · exact ⟨j,member,single,.inl up⟩
  · obtain ⟨t,named⟩ := Option.ne_none_iff_exists'.mp set
    obtain ⟨timer,armed,same,_⟩ := (ok.jobs j member).armed t named
    exact ⟨j,member,single,.inr ⟨timer,armed,by rw [named,same]⟩⟩

private theorem exitIfDone_undone {s : State} (undone : s.singletonDone = false) : exitIfDone s = s := by
  simp [exitIfDone,undone]

private theorem exitIfDone_done {s : State} (done : s.singletonDone = true) (exits : s.exitWhenDone = true) :
    exitIfDone s = launchdShutdown s := by
  simp [exitIfDone,done,exits]

/-- What one return of `waitpid` means for single-plist mode: the singleton is
done and launchd exits, KeepAlive takes care of the singleton, or the return was
none of the singleton's. -/
inductive Outcome (s : State) (w : WaitRet) (s' : State) : Prop
  | done {j : Job} (exited : s'.shuttingDown = true) (member : j ∈ s.jobs) (single : s.singleton = some j.id)
      (positive : 0 < j.p) (mine : w.pid = j.p) (final : j.keepAlive = false ∨ j.pendingUnload = true)
  | respawned {j j' : Job} {k' : Kernel} (up : s'.shuttingDown = false) (same : s'.singleton = s.singleton)
      (found : jobFindByPid s w.pid = some j) (single : s.singleton = some j.id) (alive : j.keepAlive = true)
      (staying : j.pendingUnload = false) (effect : Effect s.interval s.kernel j (.reap w) k' j')
      (named : j'.id = j.id) (member : j' ∈ s'.jobs)
  | other (up : s'.shuttingDown = false) (same : s'.singleton = s.singleton)
      (kept : ∀ j ∈ s.jobs, s.singleton = some j.id → j ∈ s'.jobs)

private theorem reapOne_outcome {s : State} (ok : Ok s) (waiting : Waiting s) (up : s.shuttingDown = false)
    (w : WaitRet) :
    Waiting (reapOne s w) ∧ Outcome s w (reapOne s w) := by
  have undone := waiting.undone up
  rcases reapOne_cases s w up with ⟨_,same⟩ | ⟨x,found,same⟩
  · rw [same]
    exact ⟨⟨waiting.exits,fun _ => undone⟩,.other up rfl fun j member _ => member⟩
  obtain ⟨member,positive,mine⟩ := jobFindByPid_some found
  rw [same]
  rcases jobReap_cases ok member positive mine with
    ⟨leaving,ended⟩ | ⟨staying,alive,k',x',effect,ended⟩ | ⟨staying,once,ended⟩
  · rw [ended]
    have named : (x.reaped w).id = x.id := rfl
    by_cases single : s.singleton = some x.id
    · have done : (jobmgrRemoveAndFree (s.put (s.kernel.reaped x.id w) (x.reaped w)) (x.reaped w)).singletonDone =
        true := by simp [jobmgrRemoveAndFree,single,named]
      rw [exitIfDone_done done waiting.exits]
      exact ⟨⟨waiting.exits,fun down => by cases down⟩,.done rfl member single positive mine (.inr leaving)⟩
    · have calm : (jobmgrRemoveAndFree (s.put (s.kernel.reaped x.id w) (x.reaped w)) (x.reaped w)).singletonDone =
        false := by simp [jobmgrRemoveAndFree,single,named,undone]
      rw [exitIfDone_undone calm]
      refine ⟨⟨waiting.exits,fun _ => calm⟩,.other up (by simp [jobmgrRemoveAndFree,single,named]) ?_⟩
      exact fun j inside yours => (ok.mem_free named).mpr ⟨inside,fun equal => single (equal ▸ yours)⟩
  · have change := effect.keeps ok.kernel (ok.jobs x member)
    have calm : (s.put k' x').singletonDone = false := undone
    rw [ended,exitIfDone_undone calm]
    refine ⟨⟨waiting.exits,fun _ => undone⟩,?_⟩
    by_cases single : s.singleton = some x.id
    · exact .respawned up rfl found single alive staying effect change.id
        (State.mem_put.mpr (.inl ⟨rfl,x,member,change.id.symm⟩))
    · refine .other up rfl fun j inside yours => State.mem_put.mpr (.inr ⟨inside,fun equal => single ?_⟩)
      rw [yours,equal,change.id]
  · rw [ended]
    by_cases single : s.singleton = some x.id
    · have done : ((s.put (s.kernel.reaped x.id w) (x.reaped w)).noteDone (s.singleton = some x.id)).singletonDone =
        true := by simp [State.noteDone,single]
      rw [exitIfDone_done done waiting.exits]
      exact ⟨⟨waiting.exits,fun down => by cases down⟩,.done rfl member single positive mine (.inl once)⟩
    · have calm : ((s.put (s.kernel.reaped x.id w) (x.reaped w)).noteDone (s.singleton = some x.id)).singletonDone =
        false := by simp [State.noteDone,undone,single]
      rw [exitIfDone_undone calm]
      refine ⟨⟨waiting.exits,fun _ => calm⟩,.other up rfl fun j inside yours => ?_⟩
      change j ∈ (s.put (s.kernel.reaped x.id w) (x.reaped w)).jobs
      refine State.mem_put.mpr (.inr ⟨inside,fun equal => single ?_⟩)
      rw [yours,equal]
      rfl

theorem Waiting.reapOne {s : State} (ok : Ok s) (waiting : Waiting s) (w : WaitRet) : Waiting (reapOne s w) := by
  cases up : s.shuttingDown with
  | true =>
    rw [Supervisor.reapOne,if_pos up]
    exact waiting
  | false => exact (reapOne_outcome ok waiting up w).1

theorem Waiting.endsWithSingleton {s : State} (ok : Ok s) (waiting : Waiting s) (w : WaitRet) :
    EndsWithSingleton s w := by
  intro up ended
  cases (reapOne_outcome ok waiting up w).2 with
  | done _ member single positive mine final => exact ⟨_,member,single,positive,mine,final⟩
  | respawned still _ _ _ _ _ _ _ _ => exact absurd ended (by simp [still])
  | other still _ _ => exact absurd ended (by simp [still])

private theorem reapOne_pending {s : State} (ok : Ok s) (waiting : Waiting s) (up : s.shuttingDown = false)
    (pending : Pending s) {w : WaitRet}
    (allowed : ∀ j, jobFindByPid s w.pid = some j → singletonRespawning.allows s j (.reap w)) :
    (reapOne s w).shuttingDown = true ∨ Pending (reapOne s w) := by
  cases (reapOne_outcome ok waiting up w).2 with
  | done exited _ _ _ _ _ => exact .inl exited
  | respawned _ same found single alive staying effect named member =>
    obtain ⟨inside,positive,_⟩ := jobFindByPid_some found
    have agrees := ok.jobs _ inside
    refine .inr ⟨_,member,?_,effect.up agrees alive (agrees.on positive) staying (allowed _ found single)⟩
    rw [same,named]
    exact single
  | other _ same kept =>
    obtain ⟨j,inside,single,brings⟩ := pending
    exact .inr ⟨j,kept j inside single,same ▸ single,brings⟩

private theorem restartTimerBlock_pending {s : State} (ok : Ok s) {t : Timer} (armed : t ∈ s.kernel.timers)
    (due : t.deadline ≤ s.kernel.clock) {io : SpawnIO}
    (allowed : ∀ j, s.deref t.job = some j → singletonRespawning.allows s j (.fire io)) (pending : Pending s) :
    Pending (restartTimerBlock s t io) := by
  obtain ⟨x,k',x',found,member,set,effect,same⟩ := restartTimerBlock_effect ok armed due io
  obtain ⟨j,inside,single,brings⟩ := pending
  have agrees := ok.jobs x member
  have change := effect.keeps ok.kernel agrees
  rw [same]
  by_cases equal : j.id = x.id
  · have single : s.singleton = some x.id := equal ▸ single
    have armed : x.restartTimer ≠ none := by simp [set]
    obtain ⟨alive,staying⟩ := agrees.policy armed
    refine ⟨x',State.mem_put.mpr (.inl ⟨rfl,x,member,change.id.symm⟩),change.id.symm ▸ single,?_⟩
    exact effect.up agrees alive (agrees.enabled armed) staying (allowed x found single)
  · exact ⟨j,State.mem_put.mpr (.inr ⟨inside,change.id ▸ equal⟩),single,brings⟩

private theorem sigchldHandler_waiting {s : State} (ok : Ok s) (waiting : Waiting s) (returns : List WaitRet) :
    Waiting (sigchldHandler s returns) ∧ Meets reapOne EndsWithSingleton s returns := by
  induction returns generalizing s with
  | nil => exact ⟨waiting,trivial⟩
  | cons w rest ih =>
    have next := (reapOne_path anything ok w fun _ _ _ => trivial).ok ok
    obtain ⟨last,later⟩ := ih next (waiting.reapOne ok w)
    exact ⟨last,waiting.endsWithSingleton ok w,later⟩

private theorem sigchldHandler_pending {s : State} (ok : Ok s) (waiting : Waiting s) {returns : List WaitRet}
    (pending : s.shuttingDown = true ∨ Pending s) (allowed : PermitsReaps singletonRespawning s returns) :
    (sigchldHandler s returns).shuttingDown = true ∨ Pending (sigchldHandler s returns) := by
  induction returns generalizing s with
  | nil => exact pending
  | cons w rest ih =>
    have next := (reapOne_path anything ok w fun _ _ _ => trivial).ok ok
    refine ih next (waiting.reapOne ok w) ?_ allowed.2
    cases up : s.shuttingDown with
    | true =>
      rw [reapOne,if_pos up]
      exact .inl up
    | false =>
      exact reapOne_pending ok waiting up (pending.resolve_left (by simp [up])) (allowed.1 up)

private theorem restartTimerBlock_flags {s : State} (ok : Ok s) {t : Timer} (armed : t ∈ s.kernel.timers)
    (due : t.deadline ≤ s.kernel.clock) (io : SpawnIO) :
    (restartTimerBlock s t io).exitWhenDone = s.exitWhenDone ∧
      (restartTimerBlock s t io).singletonDone = s.singletonDone ∧
      (restartTimerBlock s t io).shuttingDown = s.shuttingDown := by
  obtain ⟨_,_,_,_,_,_,_,same⟩ := restartTimerBlock_effect ok armed due io
  rw [same]
  exact ⟨rfl,rfl,rfl⟩

private theorem step_waiting {s : State} (ok : Ok s) (waiting : Waiting s) {e : Event} (unasked : e.Unasked) :
    Waiting (step s e) ∧ ExitsByReap s e := by
  cases up : s.shuttingDown with
  | true =>
    refine ⟨by rw [step_exited up]; exact waiting,?_⟩
    cases e with
    | sigchld returns => exact (sigchldHandler_waiting ok waiting returns).2
    | tick _ => exact congrArg State.shuttingDown (step_exited up _)
    | timer _ _ => exact congrArg State.shuttingDown (step_exited up _)
    | connection _ _ | scan _ _ | signal => exact unasked.elim
  | false =>
    cases e with
    | tick seconds =>
      have ticked := step_tick up seconds
      refine ⟨?_,(congrArg State.shuttingDown ticked).trans rfl⟩
      rw [ticked]
      exact ⟨waiting.exits,waiting.undone⟩
    | sigchld returns =>
      rw [step_sigchld up]
      exact sigchldHandler_waiting ok waiting returns
    | timer id io =>
      cases due : dueTimer s id with
      | none =>
        have idle := step_idle up due io
        exact ⟨by rw [idle]; exact waiting,congrArg State.shuttingDown idle⟩
      | some t =>
        have fired := step_timer up due io
        obtain ⟨armed,ripe⟩ := dueTimer_some due
        obtain ⟨exits,done,running⟩ := restartTimerBlock_flags ok armed ripe io
        refine ⟨?_,(congrArg State.shuttingDown fired).trans running⟩
        rw [fired]
        exact ⟨exits.trans waiting.exits,fun still => done.trans (waiting.undone (running ▸ still))⟩
    | connection _ _ | scan _ _ | signal => exact unasked.elim

private theorem step_pending {s : State} (ok : Ok s) (waiting : Waiting s) {e : Event} (unasked : e.Unasked)
    (lawful : Lawful singletonRespawning s e) (pending : s.shuttingDown = true ∨ Pending s) :
    (step s e).shuttingDown = true ∨ Pending (step s e) := by
  cases up : s.shuttingDown with
  | true =>
    rw [step_exited up]
    exact .inl up
  | false =>
    have open' := pending.resolve_left (by simp [up])
    have lawful := lawful up
    cases e with
    | tick seconds =>
      rw [step_tick up]
      exact .inr open'
    | sigchld returns =>
      rw [step_sigchld up]
      exact sigchldHandler_pending ok waiting pending lawful
    | timer id io =>
      cases due : dueTimer s id with
      | none =>
        rw [step_idle up due]
        exact .inr open'
      | some t =>
        rw [step_timer up due]
        obtain ⟨armed,ripe⟩ := dueTimer_some due
        exact .inr (restartTimerBlock_pending ok armed ripe (fun j found => lawful t j due found) open')
    | connection _ _ | scan _ _ | signal => exact unasked.elim

structure Untouched (s s' : State) : Prop where
  jobs : ∀ j ∈ s.jobs, j ∈ s'.jobs
  singleton : s'.singleton = s.singleton
  done : s'.singletonDone = s.singletonDone
  exits : s'.exitWhenDone = s.exitWhenDone
  running : s'.shuttingDown = s.shuttingDown

private theorem insertAndSpawn_untouched {s : State} (ok : Ok s) {path : CString} {file : FileContent} {j : Job}
    (loaded : jobmgrLoadPlistFile s.nextJob path file = some j) (io : SpawnIO) :
    Untouched s (insertAndSpawn s j io).2.2 := by
  obtain ⟨fresh,_⟩ := jobmgrLoadPlistFile_idle loaded
  rcases jobmgrInsert_cases s j with ⟨_,refused⟩ | ⟨_,inserted⟩
  · simp only [insertAndSpawn,refused]
    exact ⟨fun _ member => member,rfl,rfl,rfl,rfl⟩
  · simp only [insertAndSpawn,inserted]
    by_cases now : (j.runAtLoad && !j.disabled) = true
    · simp only [now,if_true,ne_eq,not_true_eq_false,if_false]
      refine ⟨fun x member => ?_,rfl,rfl,rfl,rfl⟩
      refine State.mem_put.mpr (.inr ⟨List.mem_cons_of_mem _ member,fun same => ?_⟩)
      rw [jobSpawn_id,fresh] at same
      exact absurd (ok.allocated x member) (not_lt.mpr same.ge)
    · simp only [now,ne_eq,not_true_eq_false,if_false]
      exact ⟨fun x member => List.mem_cons_of_mem _ member,rfl,rfl,rfl,rfl⟩

theorem Untouched.scan : ScanRule Untouched where
  refl _ := ⟨fun _ member => member,rfl,rfl,rfl,rfl⟩
  trans first second := {
    jobs := fun j member => second.jobs j (first.jobs j member)
    singleton := second.singleton.trans first.singleton
    done := second.done.trans first.done
    exits := second.exits.trans first.exits
    running := second.running.trans first.running }
  insert io ok loaded := insertAndSpawn_untouched ok loaded io

private theorem loadSingleton_waiting {o : Options} {path : CString} {file : FileContent} {io : SpawnIO} {j : Job} {s : State}
    (loaded : jobmgrLoadPlistFile 0 path file = some j) (begun : loadSingleton (emptyState o) path file io = some s) :
    s.exitWhenDone = true ∧ s.singletonDone = false ∧ (j.runAtLoad = true → j.disabled = false → Pending s) := by
  obtain ⟨_,idle⟩ := jobmgrLoadPlistFile_idle loaded
  have inserted : jobmgrInsert (emptyState o) j = (0,{emptyState o with jobs := [j],nextJob := 1}) := rfl
  have loaded : jobmgrLoadPlistFile (emptyState o).nextJob path file = some j := loaded
  simp only [loadSingleton,loaded,inserted,ne_eq,not_true_eq_false,if_false] at begun
  split at begun
  · rename_i now
    split at begun
    · cases begun
    · rename_i spawned
      cases begun
      refine ⟨rfl,rfl,fun _ enabled => ?_⟩
      refine ⟨_,State.mem_put.mpr (.inl ⟨rfl,j,List.mem_singleton_self j,(jobSpawn_id _ _ _ _).symm⟩),
        congrArg some (jobSpawn_id _ _ _ _).symm,.inl ?_⟩
      rcases jobSpawn_cases _ j .runAtLoad io with ⟨moot,_⟩ | ⟨_,_,⟨_,same⟩ | ⟨pid,granted,same⟩⟩
      · exact absurd moot (by simp [enabled,idle.state])
      · exact absurd (by rw [same]; exact nofun) spawned
      · rw [same]
        exact (Kernel.grant_some granted).1
  · rename_i later
    cases begun
    exact ⟨rfl,rfl,fun now enabled => absurd (by simp [now,enabled]) later⟩

private theorem main_single {o : Options} {s₀ : State} {path : CString} {j : Job} (alone : o.daemon = false)
    (given : o.plist = some path) (loaded : jobmgrLoadPlistFile 0 path o.file = some j) (started : main o = some s₀) :
    Waiting s₀ ∧ (j.runAtLoad = true → j.disabled = false → Pending s₀) := by
  obtain ⟨fresh,idle⟩ := jobmgrLoadPlistFile_idle loaded
  simp only [main,given,alone] at started
  cases begun : loadSingleton (emptyState o) path o.file o.spawn with
  | none => simp [begun] at started
  | some s₁ =>
    obtain rfl : scanAll s₁ o.scanDirs = s₀ := by simpa [begun] using started
    have scanned := Untouched.scan.all ((loadSingleton_path anything (emptyState_ok o) begun).ok (emptyState_ok o))
      o.scanDirs
    obtain ⟨exits,undone,spawned⟩ := loadSingleton_waiting loaded begun
    refine ⟨⟨scanned.exits.trans exits,fun _ => scanned.done.trans undone⟩,fun now enabled => ?_⟩
    obtain ⟨x,member,single,brings⟩ := spawned now enabled
    exact ⟨x,scanned.jobs x member,scanned.singleton.trans single,brings⟩

private theorem exitsByReap_along {s : State} (ok : Ok s) (waiting : Waiting s) {events : List Event}
    (unasked : ∀ e ∈ events, e.Unasked) : Meets step ExitsByReap s events := by
  induction events generalizing s with
  | nil => exact trivial
  | cons e rest ih =>
    obtain ⟨next,reaped⟩ := step_waiting ok waiting (unasked e List.mem_cons_self)
    exact ⟨reaped,ih (step_ok ok e) next fun e later => unasked e (List.mem_cons_of_mem _ later)⟩

private theorem awaited_along {s : State} (ok : Ok s) (waiting : Waiting s) (pending : s.shuttingDown = true ∨ Pending s)
    {events : List Event} (unasked : ∀ e ∈ events, e.Unasked)
    (lawful : Meets step (Lawful singletonRespawning) s events) : Along step Awaited s events := by
  have here : Awaited s := pending.imp id fun pending => pending.armed ok
  induction events generalizing s with
  | nil => exact here
  | cons e rest ih =>
    have asked := unasked e List.mem_cons_self
    have next := step_pending ok waiting asked lawful.1 pending
    have waits := (step_waiting ok waiting asked).1
    refine ⟨here,ih (step_ok ok e) waits next (fun e later => unasked e (List.mem_cons_of_mem _ later)) lawful.2 ?_⟩
    exact next.imp id fun pending => pending.armed (step_ok ok e)

/-- In single-plist mode launchd exits only with the singleton, and as long as
it runs the end of the singleton is pending: if the singleton was spawned at
load and the world lets it be respawned. -/
theorem single_plist_ends {o : Options} {s₀ : State} {path : CString} {j : Job} (alone : o.daemon = false)
    (given : o.plist = some path) (loaded : jobmgrLoadPlistFile 0 path o.file = some j) (started : main o = some s₀)
    {events : List Event} (unasked : ∀ e ∈ events, e.Unasked) :
    Meets step ExitsByReap s₀ events ∧ (j.runAtLoad = true → j.disabled = false →
      Meets step (Lawful singletonRespawning) s₀ events → Along step Awaited s₀ events) := by
  obtain ⟨waiting,spawned⟩ := main_single alone given loaded started
  have ok := main_ok started
  exact ⟨exitsByReap_along ok waiting unasked,fun now enabled lawful =>
    awaited_along ok waiting (.inr (spawned now enabled)) unasked lawful⟩

namespace Sample

def foreground (file : FileContent) : Options :=
  {daemon with daemon := false,plist := some (.lit "/etc/svc.plist"),file := file,spawn := ⟨0,some 100⟩}

end Sample

open Sample

/-- The singleton exits after 11 seconds and its respawn fails: launchd goes on
waiting for an exit that cannot come. -/
theorem respawn_refused_not_awaited :
    ¬ ∀ o s₀ path j events, o.daemon = false → o.plist = some path → jobmgrLoadPlistFile 0 path o.file = some j →
      main o = some s₀ → (∀ e ∈ events, e.Unasked) →
      Meets step ExitsByReap s₀ events ∧ Along step Awaited s₀ events := by
  intro awaited
  have along := (awaited (foreground (service "svc" true false true)) _ _ _ [exited 100 11 none] rfl rfl rfl rfl
    (by simp [exited,Event.Unasked])).2
  have last := Along.last along
  unfold Awaited at last
  exact absurd last (by decide)

private def lone : State := (main (foreground (service "svc" true false false))).getD (emptyState daemon)

theorem single_plist_ends_once : main (foreground (service "svc" true false false)) = some lone ∧
    (run step lone [.tick 5,exited 100 1 none]).shuttingDown = true ∧
    Meets step ExitsByReap lone [.tick 5,exited 100 1 none] ∧
    Along step Awaited lone [.tick 5,exited 100 1 none] := by
  have started : main (foreground (service "svc" true false false)) = some lone := rfl
  have unasked : ∀ e ∈ [.tick 5,exited 100 1 none], e.Unasked := by simp [exited,Event.Unasked]
  have once : ∀ j ∈ (step lone (.tick 5)).jobs, j.keepAlive = false := by decide
  obtain ⟨exits,awaited⟩ := single_plist_ends rfl rfl rfl started unasked
  refine ⟨started,by decide,exits,awaited rfl rfl ⟨fun _ => trivial,fun _ => ⟨?_,trivial⟩,trivial⟩⟩
  intro _ j found _ alive
  exact absurd alive (by simp [once j (jobFindByPid_some found).1])

end FreebsdLaunchd.Supervisor
