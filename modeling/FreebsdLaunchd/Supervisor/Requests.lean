import FreebsdLaunchd.Supervisor.Table

/-! What a reply says about the table: a request that is refused has changed
nothing, and one that is granted has done what it was asked for. -/
namespace FreebsdLaunchd.Supervisor
open CData Ipc Runs

structure Unchanged (s s' : State) : Prop where
  jobs : s'.jobs = s.jobs
  singleton : s'.singleton = s.singleton
  singletonDone : s'.singletonDone = s.singletonDone
  timers : s'.kernel.timers = s.kernel.timers
  children : s'.kernel.children = s.kernel.children

theorem Unchanged.refl (s : State) : Unchanged s s := ⟨rfl,rfl,rfl,rfl,rfl⟩

private theorem handleLoad_cases (s : State) {path : CString} (nonempty : path.bytes ≠ []) (io : RequestIO) :
    (jobmgrLoadPlistFile s.nextJob path io.file = none ∧ handleLoad s (some path) io =
      (s,.status (some .EINVAL) (.lit "plist load failed (see launchd log)"))) ∨
    ∃ j, jobmgrLoadPlistFile s.nextJob path io.file = some j ∧
      (((∃ x ∈ s.jobs, x.label = j.label) ∧ handleLoad s (some path) io = (s,.status (some .EEXIST)
        (.ofBuffer (snprintf 256 (j.label.bytes ++ (CString.lit " already loaded").bytes)).1))) ∨
      (∀ x ∈ s.jobs, x.label ≠ j.label) ∧
        ((¬ (j.runAtLoad = true ∧ j.disabled = false) ∧
          handleLoad s (some path) io = ({s with jobs := j::s.jobs,nextJob := s.nextJob+1},.status none j.label)) ∨
        (j.runAtLoad = true ∧ j.disabled = false ∧ s.kernel.grant io.spawn = none ∧
          handleLoad s (some path) io =
            (State.put {s with jobs := j::s.jobs,nextJob := s.nextJob+1} (s.kernel.tick io.spawn.elapsed) j,
              .status (some .EIOERR) (.lit "spawn failed"))) ∨
        (j.runAtLoad = true ∧ j.disabled = false ∧ ∃ pid, s.kernel.grant io.spawn = some pid ∧
          handleLoad s (some path) io =
            (State.put {s with jobs := j::s.jobs,nextJob := s.nextJob+1}
              (s.kernel.spawned j .runAtLoad io.spawn pid) (j.spawned pid (s.kernel.clock+io.spawn.elapsed)),
              .status none j.label)))) := by
  cases loaded : jobmgrLoadPlistFile s.nextJob path io.file with
  | none => exact .inl ⟨rfl,by simp [handleLoad,withText,nonempty,loaded]⟩
  | some j =>
    obtain ⟨_,idle⟩ := jobmgrLoadPlistFile_idle loaded
    refine .inr ⟨j,rfl,?_⟩
    rcases jobmgrInsert_cases s j with ⟨taken,refused⟩ | ⟨new,inserted⟩
    · exact .inl ⟨taken,by simp [handleLoad,withText,nonempty,loaded,insertAndSpawn,refused]⟩
    refine .inr ⟨new,?_⟩
    by_cases now : j.runAtLoad = true ∧ j.disabled = false
    · refine .inr ?_
      rcases jobSpawn_cases s.kernel j .runAtLoad io.spawn with ⟨moot,_⟩ | ⟨_,_,⟨denied,same⟩ | ⟨pid,granted,same⟩⟩
      · exact absurd moot (by simp [now.2,idle.state])
      · refine .inl ⟨now.1,now.2,denied,?_⟩
        simp [handleLoad,withText,nonempty,loaded,insertAndSpawn,inserted,now,same]
      · refine .inr ⟨now.1,now.2,pid,granted,?_⟩
        simp [handleLoad,withText,nonempty,loaded,insertAndSpawn,inserted,now,same]
    · refine .inl ⟨now,?_⟩
      have later : (j.runAtLoad && !j.disabled) = false := by simpa using now
      simp [handleLoad,withText,nonempty,loaded,insertAndSpawn,inserted,later]

/-- A LOAD of a plist that can be loaded and is to run at once, whose process
cannot be created. -/
def LoadRefused (s : State) (cmd : UInt32) (payload : Option Bytes) (io : RequestIO) : Prop :=
  cmd = Cmd.load.word ∧ ∃ path j, payload.map CString.ofBuffer = some path ∧ path.bytes ≠ [] ∧
    jobmgrLoadPlistFile s.nextJob path io.file = some j ∧ (∀ x ∈ s.jobs, x.label ≠ j.label) ∧
    j.runAtLoad = true ∧ j.disabled = false ∧ s.kernel.grant io.spawn = none

private theorem handleLoad_failed {s : State} {path : Option CString} {io : RequestIO}
    (failed : (handleLoad s path io).2.Failed) :
    (handleLoad s path io).1 = s ∨ ∃ text j, path = some text ∧ text.bytes ≠ [] ∧
      jobmgrLoadPlistFile s.nextJob text io.file = some j ∧ (∀ x ∈ s.jobs, x.label ≠ j.label) ∧
      j.runAtLoad = true ∧ j.disabled = false ∧ s.kernel.grant io.spawn = none := by
  rcases withText_cases s path "missing plist path" _ with refused | ⟨text,rfl,nonempty,_⟩
  · exact .inl (by rw [handleLoad,refused])
  rcases handleLoad_cases s nonempty io with ⟨_,done⟩ | ⟨j,loaded,⟨_,done⟩ | ⟨new,cases⟩⟩
  · exact .inl (by rw [done])
  · exact .inl (by rw [done])
  rcases cases with ⟨_,done⟩ | ⟨now,enabled,denied,_⟩ | ⟨_,_,_,_,done⟩
  · rw [done] at failed
    exact absurd rfl failed
  · exact .inr ⟨text,j,rfl,nonempty,loaded,new,now,enabled,denied⟩
  · rw [done] at failed
    exact absurd rfl failed

private theorem handleLoad_grown {s : State} {path : CString} {io : RequestIO} {j : Job} (nonempty : path.bytes ≠ [])
    (loaded : jobmgrLoadPlistFile s.nextJob path io.file = some j) (new : ∀ x ∈ s.jobs, x.label ≠ j.label)
    (now : j.runAtLoad = true) (enabled : j.disabled = false) (denied : s.kernel.grant io.spawn = none) :
    (handleLoad s (some path) io).1.jobs.length = s.jobs.length + 1 := by
  rcases handleLoad_cases s nonempty io with ⟨absent,_⟩ | ⟨x,same,cases⟩
  · exact absurd loaded (by simp [absent])
  rw [loaded,Option.some.injEq] at same
  subst same
  rcases cases with ⟨⟨y,member,taken⟩,_⟩ | ⟨_,⟨later,_⟩ | ⟨_,_,_,done⟩ | ⟨_,_,pid,granted,_⟩⟩
  · exact absurd taken (new y member)
  · exact absurd ⟨now,enabled⟩ later
  · rw [done]
    simp [State.put,Keyed.store]
  · exact absurd granted (by simp [denied])

private theorem handleUnload_failed {s : State} {label : Option CString} (failed : (handleUnload s label).2.Failed) :
    (handleUnload s label).1 = s := by
  rcases withText_cases s label "missing label" _ with refused | ⟨text,rfl,nonempty,handled⟩
  · rw [handleUnload,refused]
  rcases jobmgrUnload_cases s text with ⟨_,done⟩ | ⟨j,_,⟨_,_,done⟩ | ⟨_,done⟩⟩
  · rw [handleUnload,handled]
    simp only [done]
  · rw [handleUnload,handled] at failed
    simp only [done] at failed
    exact absurd rfl failed
  · rw [handleUnload,handled] at failed
    simp only [done] at failed
    exact absurd rfl failed

private theorem handleStart_failed {s : State} (ok : Ok s) {label : Option CString} {io : RequestIO}
    (failed : (handleStart s label io).2.Failed) : Unchanged s (handleStart s label io).1 := by
  rcases withText_cases s label "missing label" _ with refused | ⟨text,rfl,nonempty,_⟩
  · rw [handleStart,refused]
    exact .refl s
  rcases handleStart_cases s nonempty io with ⟨_,done⟩ | ⟨j,found,cases⟩
  · rw [done]
    exact .refl s
  have member := (Keyed.find_some found).1
  rcases cases with ⟨_,done⟩ | ⟨_,_,done⟩ | ⟨_,_,_,done⟩ | ⟨_,_,_,_,done⟩
  · rw [done]
    exact .refl s
  · rw [done] at failed
    exact absurd rfl failed
  · rw [done,State.put_same ok member]
    exact ⟨rfl,rfl,rfl,rfl,rfl⟩
  · rw [done] at failed
    exact absurd rfl failed

private theorem handleStop_failed {s : State} {label : Option CString} {io : RequestIO}
    (failed : (handleStop s label io).2.Failed) : (handleStop s label io).1 = s := by
  rcases withText_cases s label "missing label" _ with refused | ⟨text,rfl,nonempty,handled⟩
  · rw [handleStop,refused]
  rw [handleStop,handled] at failed ⊢
  cases found : jobmgrFindByLabel s text with
  | none => rfl
  | some j =>
    simp only [found] at failed ⊢
    split
    · rfl
    · rename_i up
      rw [if_neg up] at failed
      split
      · rfl
      · rename_i killed
        simp only [killed] at failed
        exact absurd rfl failed

private theorem handleList_state (s : State) (io : RequestIO) : (handleList s io).1 = s := by
  unfold handleList
  simp only
  split
  · rfl
  · rfl

/-- What a refused request owes: nothing has changed, and to LOAD again is as to
LOAD for the first time. -/
structure RefusedCleanly (s : State) (cmd : UInt32) (payload : Option Bytes) (io : RequestIO) : Prop where
  unchanged : Unchanged s (dispatchMsg s cmd payload io).1
  retry : cmd = Cmd.load.word → ∀ io', dispatchMsg (dispatchMsg s cmd payload io).1 cmd payload io' =
    dispatchMsg s cmd payload io'

private theorem dispatchMsg_load (s : State) (payload : Option Bytes) (io : RequestIO) :
    dispatchMsg s Cmd.load.word payload io = handleLoad s (payload.map CString.ofBuffer) io := rfl

private theorem dispatchMsg_failed {s : State} (ok : Ok s) {cmd : UInt32} (other : cmd ≠ Cmd.load.word)
    {payload : Option Bytes} {io : RequestIO} (failed : (dispatchMsg s cmd payload io).2.Failed) :
    Unchanged s (dispatchMsg s cmd payload io).1 := by
  have still {s' : State} (same : s' = s) : Unchanged s s' := same ▸ .refl s
  unfold dispatchMsg at failed ⊢
  simp only [if_neg other] at failed ⊢
  split
  · rename_i unload
    rw [if_pos unload] at failed
    exact still (handleUnload_failed failed)
  · rename_i unload
    rw [if_neg unload] at failed
    split
    · exact still (handleList_state s io)
    · rename_i list
      rw [if_neg list] at failed
      split
      · rename_i start
        rw [if_pos start] at failed
        exact handleStart_failed ok failed
      · rename_i start
        rw [if_neg start] at failed
        split
        · rename_i stop
          rw [if_pos stop] at failed
          exact still (handleStop_failed failed)
        · rename_i stop
          rw [if_neg stop] at failed
          split
          · exact ⟨rfl,rfl,rfl,rfl,rfl⟩
          · exact .refl s

/-- A request that is refused has changed nothing, unless it is a LOAD whose
process could not be created. -/
theorem refusedCleanly_iff {s : State} (reachable : Reachable s) (cmd : UInt32) (payload : Option Bytes)
    (io : RequestIO) (failed : (dispatchMsg s cmd payload io).2.Failed) :
    RefusedCleanly s cmd payload io ↔ ¬ LoadRefused s cmd payload io := by
  by_cases load : cmd = Cmd.load.word
  · subst load
    constructor
    · rintro ⟨unchanged,_⟩ ⟨_,path,j,text,nonempty,loaded,new,now,enabled,denied⟩
      have grown := handleLoad_grown nonempty loaded new now enabled denied
      rw [← text,← dispatchMsg_load,unchanged.jobs] at grown
      omega
    · intro other
      rcases handleLoad_failed (by rw [← dispatchMsg_load]; exact failed) with same | ⟨path,j,left⟩
      · have same : (dispatchMsg s Cmd.load.word payload io).1 = s := same
        exact ⟨by rw [same]; exact .refl s,fun _ io' => by rw [same]⟩
      · exact absurd ⟨rfl,path,j,left⟩ other
  · refine ⟨fun _ refused => load refused.1,fun _ => ⟨dispatchMsg_failed reachable.ok load failed,fun again => ?_⟩⟩
    exact absurd again load

/-- The Job with the label is up, spawned at this very time, and one child has
been created. -/
def JustStarted (s s' : State) (label : CString) : Prop :=
  ∃ j, jobmgrFindByLabel s' label = some j ∧ j.state = .running ∧ 0 < j.p ∧ j.lastSpawnAt = s'.kernel.clock ∧
    s'.kernel.children = ⟨j.p,j.id,j.label⟩ :: s.kernel.children

private theorem justStarted_put {s : State} (ok : Ok s) {j : Job} (member : j ∈ s.jobs) (enabled : j.disabled = false)
    {via : SpawnPath} {io : SpawnIO} {pid : Pid} (granted : s.kernel.grant io = some pid) :
    JustStarted s (s.put (s.kernel.spawned j via io pid) (j.spawned pid (s.kernel.clock+io.elapsed))) j.label := by
  have change : Local s.kernel j (s.kernel.spawned j via io pid) (j.spawned pid (s.kernel.clock+io.elapsed)) :=
    Local.spawned ok.kernel (ok.jobs j member) enabled granted
  have inside : j.spawned pid (s.kernel.clock+io.elapsed) ∈
      (s.put (s.kernel.spawned j via io pid) (j.spawned pid (s.kernel.clock+io.elapsed))).jobs :=
    State.mem_put.mpr (.inl ⟨rfl,j,member,rfl⟩)
  exact ⟨j.spawned pid (s.kernel.clock+io.elapsed),Keyed.find_mem (ok.put member change).labels inside,rfl,
    (Kernel.grant_some granted).1,rfl,rfl⟩

private theorem handleStart_success {s : State} (ok : Ok s) {label : Option CString} {io : RequestIO} {s' : State}
    {msg : CString} (handled : handleStart s label io = (s',.status none msg)) :
    ∃ text j, label = some text ∧ jobmgrFindByLabel s text = some j ∧ (j.disabled = true → s' = s) ∧
      (j.disabled = false → JustStarted s s' text) := by
  rcases withText_cases s label "missing label" _ with refused | ⟨text,rfl,nonempty,_⟩
  · rw [handleStart,refused] at handled
    cases handled
  rcases handleStart_cases s nonempty io with ⟨_,done⟩ | ⟨j,found,cases⟩
  · rw [done] at handled
    cases handled
  obtain ⟨member,named⟩ := Keyed.find_some found
  refine ⟨text,j,rfl,found,?_⟩
  rcases cases with ⟨_,done⟩ | ⟨_,off,done⟩ | ⟨_,_,_,done⟩ | ⟨_,enabled,pid,granted,done⟩
  · rw [done] at handled
    cases handled
  · rw [done,State.put_same ok member] at handled
    cases handled
    exact ⟨fun _ => rfl,fun enabled => absurd off (by simp [enabled])⟩
  · rw [done] at handled
    cases handled
  · rw [done] at handled
    cases handled
    refine ⟨fun off => absurd off (by simp [enabled]),fun _ => ?_⟩
    rw [← named]
    exact justStarted_put ok member enabled granted

private theorem handleLoad_success {s : State} (ok : Ok s) {path : Option CString} {io : RequestIO} {s' : State}
    {msg : CString} (handled : handleLoad s path io = (s',.status none msg)) :
    ∃ text j, path = some text ∧ jobmgrLoadPlistFile s.nextJob text io.file = some j ∧
      (j.runAtLoad = true → j.disabled = false → JustStarted s s' j.label) := by
  rcases withText_cases s path "missing plist path" _ with refused | ⟨text,rfl,nonempty,_⟩
  · rw [handleLoad,refused] at handled
    cases handled
  rcases handleLoad_cases s nonempty io with ⟨_,done⟩ | ⟨j,loaded,⟨_,done⟩ | ⟨new,cases⟩⟩
  · rw [done] at handled
    cases handled
  · rw [done] at handled
    cases handled
  refine ⟨text,j,rfl,loaded,fun now enabled => ?_⟩
  obtain ⟨fresh,idle⟩ := jobmgrLoadPlistFile_idle loaded
  rcases cases with ⟨later,_⟩ | ⟨_,_,_,done⟩ | ⟨_,_,pid,granted,done⟩
  · exact absurd ⟨now,enabled⟩ later
  · rw [done] at handled
    cases handled
  · rw [done] at handled
    cases handled
    exact justStarted_put (ok.insert fresh idle new) List.mem_cons_self enabled granted

/-- START replies 0 when the Job is up, and when it is disabled; then nothing has
happened. LOAD of a plist that is to run at once replies 0 when its Job is up. -/
theorem justStarted_of_success {s : State} (reachable : Reachable s) (io : RequestIO) (s' : State) (msg : CString) :
    (∀ label, handleStart s label io = (s',.status none msg) → ∃ text j, label = some text ∧
      jobmgrFindByLabel s text = some j ∧ (j.disabled = true → s' = s) ∧
      (j.disabled = false → JustStarted s s' text)) ∧
    (∀ path, handleLoad s path io = (s',.status none msg) → ∃ text j, path = some text ∧
      jobmgrLoadPlistFile s.nextJob text io.file = some j ∧
      (j.runAtLoad = true → j.disabled = false → JustStarted s s' j.label)) :=
  ⟨fun _ handled => handleStart_success reachable.ok handled,fun _ handled => handleLoad_success reachable.ok handled⟩

open Sample

/-- A LOAD for which there is no process leaves its Job in the table, and the
next LOAD is told that it is loaded already. -/
theorem load_refused_not_clean :
    ¬ ∀ s cmd payload io, Reachable s → (dispatchMsg s cmd payload io).2.Failed → RefusedCleanly s cmd payload io := by
  intro clean
  have refused := clean booted Cmd.load.word (some ((CString.lit "/etc/svc.plist").bytes ++ [0]))
    (world (service "svc" true false false) none) ⟨daemon,booted,[],rfl,rfl⟩ (by decide)
  exact absurd refused.unchanged.jobs (by decide)

theorem refusedCleanly_iff_unreadable :
    RefusedCleanly booted Cmd.load.word (some ((CString.lit "/etc/svc.plist").bytes ++ [0]))
      (world .unreadable none) := by
  refine (refusedCleanly_iff ⟨daemon,booted,[],rfl,rfl⟩ _ _ _ (by decide)).mpr ?_
  rintro ⟨_,path,j,_,_,loaded,_⟩
  cases loaded

private def disabled : State := run step booted [load (service "svc" true true false) none]

/-- START of a disabled Job replies 0 and starts nothing. -/
theorem start_disabled_not_started :
    ¬ ∀ s io s' msg text, Reachable s → handleStart s (some text) io = (s',.status none msg) →
      JustStarted s s' text := by
  intro started
  obtain ⟨j,found,running,_⟩ := started disabled (world .unreadable (some 100)) _ _ (.lit "svc")
    ⟨daemon,booted,_,rfl,rfl⟩ rfl
  have down : ∀ j ∈ (handleStart disabled (some (.lit "svc")) (world .unreadable (some 100))).1.jobs,
    j.state ≠ .running := by decide
  exact down j (Keyed.find_some found).1 running

private def resting : State :=
  run step booted [load (service "svc" true false false) (some 100),exited 100 1 none]

theorem justStarted_of_success_restarted :
    JustStarted resting (handleStart resting (some (.lit "svc")) (world .unreadable (some 101))).1 (.lit "svc") := by
  have reachable : Reachable resting := ⟨daemon,booted,_,rfl,rfl⟩
  obtain ⟨text,j,same,found,_,started⟩ := (justStarted_of_success reachable (world .unreadable (some 101)) _ _).1
    (some (.lit "svc")) rfl
  cases same
  have enabled : ∀ j ∈ resting.jobs, j.disabled = false := by decide
  exact started (enabled j (Keyed.find_some found).1)

end FreebsdLaunchd.Supervisor
