import FreebsdLaunchd.Supervisor.Lifecycle

/-! The handlers refine the life cycle: from a table that is in order, whatever
an event of the main queue does is a path of moves, and the acts on this path
are those the event asks for. -/
namespace FreebsdLaunchd.Supervisor
open CData Ipc Runs

theorem jobSpawn_cases (k : Kernel) (j : Job) (via : SpawnPath) (io : SpawnIO) :
    ((j.disabled = true ∨ j.state = .running) ∧ jobSpawn k j via io = ⟨0,k,j⟩) ∨
    (j.disabled = false ∧ j.state ≠ .running ∧
      ((k.grant io = none ∧ jobSpawn k j via io = ⟨-1,k.tick io.elapsed,j⟩) ∨
      ∃ pid, k.grant io = some pid ∧
        jobSpawn k j via io = ⟨0,k.spawned j via io pid,j.spawned pid (k.clock+io.elapsed)⟩)) := by
  by_cases off : j.disabled = true
  · exact .inl ⟨.inl off,by simp [jobSpawn,off]⟩
  by_cases running : j.state = .running
  · exact .inl ⟨.inr running,by simp [jobSpawn,running]⟩
  refine .inr ⟨by simpa using off,running,?_⟩
  cases granted : k.grant io with
  | none => exact .inl ⟨rfl,by simp [jobSpawn,off,running,granted]⟩
  | some pid => exact .inr ⟨pid,rfl,by simp [jobSpawn,off,running,granted,Kernel.spawned,Job.spawned,Kernel.tick]⟩

theorem jobSpawn_id (k : Kernel) (j : Job) (via : SpawnPath) (io : SpawnIO) : (jobSpawn k j via io).job.id = j.id := by
  rcases jobSpawn_cases k j via io with ⟨_,same⟩ | ⟨_,_,⟨_,same⟩ | ⟨pid,_,same⟩⟩
  · rw [same]
  · rw [same]
  · rw [same]
    rfl

/-- Both places that load a plist hand `jobmgr_insert` a fresh Job. -/
theorem jobmgrInsert_cases (s : State) (j : Job) :
    ((∃ x ∈ s.jobs, x.label = j.label) ∧ jobmgrInsert s j = (-1,s)) ∨
    ((∀ x ∈ s.jobs, x.label ≠ j.label) ∧
      jobmgrInsert s j = (0,{s with jobs := j::s.jobs,nextJob := s.nextJob+1})) := by
  cases found : jobmgrFindByLabel s j.label with
  | none => exact .inr ⟨Keyed.find_none found,by simp [jobmgrInsert,found]⟩
  | some x => exact .inl ⟨⟨x,Keyed.find_some found⟩,by simp [jobmgrInsert,found]⟩

theorem jobmgrUnload_cases (s : State) (label : CString) :
    (jobmgrFindByLabel s label = none ∧ jobmgrUnload s label = (some .ENOENT,s)) ∨
    ∃ j, jobmgrFindByLabel s label = some j ∧
      ((j.state = .running ∧ 0 < j.p ∧
        jobmgrUnload s label = (none,s.put (s.kernel.cancel j.restartTimer) j.unloading)) ∨
      (¬ (j.state = .running ∧ 0 < j.p) ∧
        jobmgrUnload s label = (none,jobmgrRemoveAndFree
          (s.put (s.kernel.cancel j.restartTimer) j.marked)
          j.marked))) := by
  cases found : jobmgrFindByLabel s label with
  | none => exact .inl ⟨rfl,by simp [jobmgrUnload,found]⟩
  | some j =>
    refine .inr ⟨j,rfl,?_⟩
    by_cases up : j.state = .running ∧ 0 < j.p
    · exact .inl ⟨up.1,up.2,by simp [jobmgrUnload,found,cancelRestart,up,Job.unloading,Job.marked,Job.unarmed]⟩
    · exact .inr ⟨up,by simp only [jobmgrUnload,found,cancelRestart,up,if_false]; rfl⟩

theorem handleStart_cases (s : State) {label : CString} (nonempty : label.bytes ≠ []) (io : RequestIO) :
    (jobmgrFindByLabel s label = none ∧
      handleStart s (some label) io = (s,.status (some .ENOENT) (.lit "no such job"))) ∨
    ∃ j, jobmgrFindByLabel s label = some j ∧
      ((j.state = .running ∧ handleStart s (some label) io = (s,.status (some .EALREADY) (.lit "already running"))) ∨
      (j.state ≠ .running ∧ j.disabled = true ∧
        handleStart s (some label) io = (s.put s.kernel j,.status none label)) ∨
      (j.state ≠ .running ∧ j.disabled = false ∧ s.kernel.grant io.spawn = none ∧
        handleStart s (some label) io =
          (s.put (s.kernel.tick io.spawn.elapsed) j,.status (some .EIOERR) (.lit "spawn failed"))) ∨
      (j.state ≠ .running ∧ j.disabled = false ∧ ∃ pid, s.kernel.grant io.spawn = some pid ∧
        handleStart s (some label) io =
          (s.put (s.kernel.spawned j .start io.spawn pid) (j.spawned pid (s.kernel.clock+io.spawn.elapsed)),
            .status none label))) := by
  cases found : jobmgrFindByLabel s label with
  | none => exact .inl ⟨rfl,by simp [handleStart,withText,nonempty,found]⟩
  | some j =>
    refine .inr ⟨j,rfl,?_⟩
    by_cases running : j.state = .running
    · exact .inl ⟨running,by simp [handleStart,withText,nonempty,found,running]⟩
    refine .inr ?_
    rcases jobSpawn_cases s.kernel j .start io.spawn with ⟨moot,same⟩ | ⟨enabled,_,⟨denied,same⟩ | ⟨pid,granted,same⟩⟩
    · refine .inl ⟨running,moot.resolve_right running,?_⟩
      simp [handleStart,withText,nonempty,found,running,same]
    · refine .inr (.inl ⟨running,enabled,denied,?_⟩)
      simp [handleStart,withText,nonempty,found,running,same]
    · refine .inr (.inr ⟨running,enabled,pid,granted,?_⟩)
      simp [handleStart,withText,nonempty,found,running,same]

/-- START of a Job that is terminating: `job_spawn` takes it for one that is
down. -/
theorem handleStart_stopping {s : State} (ok : Ok s) {label : CString} (nonempty : label.bytes ≠ []) {j : Job}
    (found : jobmgrFindByLabel s label = some j) (stopping : j.state = .stopping) {io : RequestIO}
    (granted : s.kernel.grant io.spawn ≠ none) :
    ∃ pid, s.kernel.grant io.spawn = some pid ∧ (handleStart s (some label) io).1 =
      s.put (s.kernel.spawned j .start io.spawn pid) (j.spawned pid (s.kernel.clock+io.spawn.elapsed)) := by
  have agrees := ok.jobs j (Keyed.find_some found).1
  have enabled := agrees.on (agrees.live.mpr (.inr stopping))
  rcases handleStart_cases s nonempty io with ⟨absent,_⟩ | ⟨x,same,cases⟩
  · exact absurd found (by simp [absent])
  rw [found,Option.some.injEq] at same
  subst same
  rcases cases with ⟨running,_⟩ | ⟨_,off,_⟩ | ⟨_,_,denied,_⟩ | ⟨_,_,pid,given,done⟩
  · exact absurd running (by simp [stopping])
  · exact absurd off (by simp [enabled])
  · exact absurd denied granted
  · exact ⟨pid,given,by rw [done]⟩

theorem withText_cases (s : State) (text : Option CString) (complaint : String)
    (handle : CString → State × Reply) :
    withText s text complaint handle = (s,.status (some .EINVAL) (.lit complaint)) ∨
    ∃ t, text = some t ∧ t.bytes ≠ [] ∧ withText s text complaint handle = handle t := by
  cases text with
  | none => exact .inl rfl
  | some t =>
    by_cases empty : t.bytes = []
    · exact .inl (by simp [withText,empty])
    · exact .inr ⟨t,rfl,empty,by simp [withText,empty]⟩

namespace State
variable {s : State}

private theorem put_put (s : State) {k k' : Kernel} {j j' : Job} (same : j'.id = j.id) :
    (s.put k j).put k' j' = s.put k' j' := by
  simp only [put]
  rw [Keyed.store_store same]

theorem put_same (ok : Ok s) {j : Job} (member : j ∈ s.jobs) (k : Kernel) : s.put k j = {s with kernel := k} := by
  have untouched : Keyed.store Job.id s.jobs j = s.jobs :=
    Keyed.store_self fun x inside same => ok.eq_of_id inside member same
  simp only [put,untouched]

end State

variable (law : Law) {s : State}

private theorem spawn_path (ok : Ok s) {j : Job} (member : j ∈ s.jobs) {act : Act} {via : SpawnPath} {io : SpawnIO}
    (asked : act.asks = some (via,io)) (new : act = .load io → j.Idle) (allowed : law.allows s j act) :
    Path law s (s.put (jobSpawn s.kernel j via io).kernel (jobSpawn s.kernel j via io).job) := by
  rcases jobSpawn_cases s.kernel j via io with ⟨_,same⟩ | ⟨enabled,idle,⟨denied,same⟩ | ⟨pid,granted,same⟩⟩
  · rw [same,State.put_same ok member]
  · rw [same,State.put_same ok member]
    exact .single (.quiet rfl rfl rfl rfl rfl)
  · rw [same]
    exact .single (.effect member allowed (.spawn asked new enabled idle granted))

private theorem insertAndSpawn_path (ok : Ok s) {path : CString} {file : FileContent} {j : Job}
    (loaded : jobmgrLoadPlistFile s.nextJob path file = some j) (io : SpawnIO) :
    Path law s (insertAndSpawn s j io).2.2 := by
  obtain ⟨fresh,idle⟩ := jobmgrLoadPlistFile_idle loaded
  rcases jobmgrInsert_cases s j with ⟨_,refused⟩ | ⟨new,inserted⟩
  · simp only [insertAndSpawn,refused]
    exact .refl
  · have move : Move law s {s with jobs := j::s.jobs,nextJob := s.nextJob+1} := .insert fresh idle new
    simp only [insertAndSpawn,inserted]
    by_cases now : (j.runAtLoad && !j.disabled) = true
    · simp only [now,if_true,ne_eq,not_true_eq_false,if_false]
      refine .head move ?_
      exact spawn_path law (move.ok ok) List.mem_cons_self rfl (fun _ => idle) (law.load _ _ io)
    · simp only [now,ne_eq,not_true_eq_false,if_false]
      exact .single move

/-- What every loaded plist does to the state, a scan does. -/
structure ScanRule (R : State → State → Prop) : Prop where
  refl : ∀ s, R s s
  trans : ∀ {a b c}, R a b → R b c → R a c
  insert : ∀ {s path file j} (io : SpawnIO), Ok s → jobmgrLoadPlistFile s.nextJob path file = some j →
    R s (insertAndSpawn s j io).2.2

namespace ScanRule
variable {R : State → State → Prop}

private theorem entry (rule : ScanRule R) {s : State} (ok : Ok s) (dir : CString) (n : Nat) (entry : DirEntry) :
    R s (scanEntry dir (n,s) entry).2 := by
  unfold scanEntry
  cases scanPath dir entry.name with
  | none => exact rule.refl s
  | some path =>
    cases loaded : jobmgrLoadPlistFile s.nextJob path entry.file with
    | none =>
      simp only [loaded]
      exact rule.refl s
    | some j =>
      have inserted := rule.insert entry.spawn ok loaded
      simp only [loaded]
      split
      · rename_i same
        simpa only [same] using inserted
      · rename_i same
        simpa only [same] using inserted

theorem ok : ScanRule fun s s' => Ok s → Ok s' where
  refl _ ok := ok
  trans first second ok := second (first ok)
  insert io _ loaded ok := (insertAndSpawn_path anything ok loaded io).ok ok

private theorem dir (rule : ScanRule R) {s : State} (ok : Ok s) (dir : CString) (entries : List DirEntry) :
    R s (jobmgrLoadPlistDir s dir entries).2 := by
  have scanned : ∀ n s, Ok s → R s (entries.foldl (scanEntry dir) (n,s)).2 := by
    induction entries with
    | nil => exact fun _ s _ => rule.refl s
    | cons entry rest ih =>
      intro n s ok
      exact rule.trans (rule.entry ok dir n entry) (ih _ _ (ScanRule.ok.entry ok dir n entry ok))
  exact scanned 0 s ok

theorem all (rule : ScanRule R) {s : State} (ok : Ok s) (dirs : List (CString × List DirEntry)) :
    R s (scanAll s dirs) := by
  induction dirs generalizing s with
  | nil => exact rule.refl s
  | cons first rest ih =>
    exact rule.trans (rule.dir ok first.1 first.2) (ih (ScanRule.ok.dir ok first.1 first.2 ok))

private theorem path : ScanRule (Path law) where
  refl _ := .refl
  trans first second := first.trans second
  insert io ok loaded := insertAndSpawn_path law ok loaded io

end ScanRule

def Asks (r : Recv) (cmd : Cmd) (text : CString) : Prop :=
  (∃ rc errno, r.phase = .returned rc errno ∧ 0 ≤ rc) ∧ r.hdrOut.cmd = cmd.word ∧
    r.payloadOut.map CString.ofBuffer = some text ∧ text.bytes ≠ []

private theorem handleLoad_path (ok : Ok s) (path : Option CString) (io : RequestIO) :
    Path law s (handleLoad s path io).1 := by
  rcases withText_cases s path "missing plist path" _ with refused | ⟨text,_,_,handled⟩
  · rw [handleLoad,refused]
  · rw [handleLoad,handled]
    cases loaded : jobmgrLoadPlistFile s.nextJob text io.file with
    | none => exact .refl
    | some j =>
      have moves := insertAndSpawn_path law ok loaded io.spawn
      simp only
      split
      · rename_i same
        simpa only [same] using moves
      · rename_i same
        simpa only [same] using moves
      · rename_i same
        simpa only [same] using moves

private theorem handleUnload_path (label : Option CString)
    (allowed : ∀ text j, label = some text → text.bytes ≠ [] → jobmgrFindByLabel s text = some j →
      law.allows s j .unload) : Path law s (handleUnload s label).1 := by
  rcases withText_cases s label "missing label" _ with refused | ⟨text,same,some',handled⟩
  · rw [handleUnload,refused]
  · rw [handleUnload,handled]
    rcases jobmgrUnload_cases s text with ⟨_,done⟩ | ⟨j,found,⟨running,positive,done⟩ | ⟨down,done⟩⟩
    · simp only [done]
      exact .refl
    · simp only [done]
      have member := (Keyed.find_some found).1
      exact .single (.effect member (allowed text j same some' found) (.unload running positive))
    · simp only [done]
      have member := (Keyed.find_some found).1
      exact .single (.release member (allowed text j same some' found) (.discard down))

private theorem handleStart_path (ok : Ok s) (label : Option CString) (io : RequestIO)
    (allowed : ∀ text j, label = some text → text.bytes ≠ [] → jobmgrFindByLabel s text = some j →
      law.allows s j (.start io.spawn)) : Path law s (handleStart s label io).1 := by
  rcases withText_cases s label "missing label" _ with refused | ⟨text,rfl,nonempty,_⟩
  · rw [handleStart,refused]
  rcases handleStart_cases s nonempty io with ⟨_,done⟩ | ⟨j,found,cases⟩
  · rw [done]
  have member := (Keyed.find_some found).1
  rcases cases with ⟨_,done⟩ | ⟨_,_,done⟩ | ⟨_,_,_,done⟩ | ⟨idle,enabled,pid,granted,done⟩
  · rw [done]
  · rw [done,State.put_same ok member]
  · rw [done,State.put_same ok member]
    exact .single (.quiet rfl rfl rfl rfl rfl)
  · rw [done]
    exact .single (.effect member (allowed text j rfl nonempty found) (.spawn rfl nofun enabled idle granted))

private theorem handleStop_path (label : Option CString) (io : RequestIO) : Path law s (handleStop s label io).1 := by
  rcases withText_cases s label "missing label" _ with refused | ⟨text,same,_,handled⟩
  · rw [handleStop,refused]
  · rw [handleStop,handled]
    cases found : jobmgrFindByLabel s text with
    | none => exact .refl
    | some j =>
      simp only
      split
      · exact .refl
      · rename_i up
        simp only [not_or,not_not] at up
        split
        · exact .refl
        · exact .single (.effect (Keyed.find_some found).1 (law.stop s j) (.stop up.1))

private theorem exit_path : Path law s (launchdShutdown s) :=
  .single (@Move.quiet law s _ 0 rfl rfl rfl rfl rfl)

private theorem dispatchMsg_path (ok : Ok s) (cmd : UInt32) (payload : Option Bytes) (io : RequestIO)
    (allowed : ∀ text j, payload.map CString.ofBuffer = some text → text.bytes ≠ [] →
      jobmgrFindByLabel s text = some j →
      (cmd = Cmd.start.word → law.allows s j (.start io.spawn)) ∧ (cmd = Cmd.unload.word → law.allows s j .unload)) :
    Path law s (dispatchMsg s cmd payload io).1 := by
  unfold dispatchMsg
  simp only
  split
  · exact handleLoad_path law ok _ io
  · split
    · rename_i unload
      exact handleUnload_path law _ fun text j same some' found => (allowed text j same some' found).2 unload
    · split
      · unfold handleList
        simp only
        split
        · exact .refl
        · exact .refl
      · split
        · rename_i start
          exact handleStart_path law ok _ io fun text j same some' found => (allowed text j same some' found).1 start
        · split
          · exact handleStop_path law _ io
          · split
            · exact exit_path law
            · exact .refl

private theorem handleConnection_path (ok : Ok s) (r : Recv) (io : RequestIO)
    (allowed : ∀ text j, jobmgrFindByLabel s text = some j →
      (Asks r .start text → law.allows s j (.start io.spawn)) ∧ (Asks r .unload text → law.allows s j .unload)) :
    Path law s (handleConnection s r io).1 := by
  unfold handleConnection
  split
  · rename_i rc errno returned
    split
    · exact .refl
    · split
      · exact .refl
      · rename_i nonneg
        apply dispatchMsg_path law ok
        intro text j same some' found
        have asks : ∀ cmd : Cmd, r.hdrOut.cmd = cmd.word → Asks r cmd text := fun cmd word =>
          ⟨⟨rc,errno,returned,Int.not_lt.mp nonneg⟩,word,same,some'⟩
        exact ⟨fun word => (allowed text j found).1 (asks _ word),fun word => (allowed text j found).2 (asks _ word)⟩
  · exact .refl

theorem step_exited (exited : s.shuttingDown = true) (e : Event) : step s e = s := by
  simp [step,exited]

theorem step_tick (up : s.shuttingDown = false) (seconds : Nat) :
    step s (.tick seconds) = {s with kernel := s.kernel.tick seconds} := by
  rw [step.eq_def,if_neg (by simp [up])]

private theorem step_scan (up : s.shuttingDown = false) (dir : CString) (entries : List DirEntry) :
    step s (.scan dir entries) = (jobmgrLoadPlistDir s dir entries).2 := by
  rw [step.eq_def,if_neg (by simp [up])]

theorem step_sigchld (up : s.shuttingDown = false) (returns : List WaitRet) :
    step s (.sigchld returns) = sigchldHandler s returns := by
  rw [step.eq_def,if_neg (by simp [up])]

theorem step_idle (up : s.shuttingDown = false) {id : TimerId} (idle : dueTimer s id = none) (io : SpawnIO) :
    step s (.timer id io) = s := by
  simp [step,up,idle]

theorem step_timer (up : s.shuttingDown = false) {id : TimerId} {t : Timer} (due : dueTimer s id = some t)
    (io : SpawnIO) : step s (.timer id io) = restartTimerBlock s t io := by
  simp [step,up,due]

private theorem step_asks (up : s.shuttingDown = false) (open' : s.listening = true)
    {r : Recv} {cmd : Cmd} {text : CString}
    (asks : Asks r cmd text) (io : RequestIO) :
    step s (.connection r io) = (dispatchMsg s cmd.word r.payloadOut io).1 := by
  obtain ⟨⟨rc,errno,returned,nonneg⟩,word,_⟩ := asks
  have fine : ¬ rc = -2 := by omega
  have whole : ¬ rc < 0 := by omega
  simp only [step,up,open',handleConnection,returned,if_neg fine,if_neg whole,word]
  rfl

theorem step_start (up : s.shuttingDown = false) (open' : s.listening = true) {r : Recv} {text : CString}
    (asks : Asks r .start text) (io : RequestIO) :
    step s (.connection r io) = (handleStart s (some text) io).1 := by
  rw [step_asks up open' asks,← asks.2.2.1]
  rfl

theorem step_unload (up : s.shuttingDown = false) (open' : s.listening = true) {r : Recv} {text : CString}
    (asks : Asks r .unload text) (io : RequestIO) :
    step s (.connection r io) = (handleUnload s (some text)).1 := by
  rw [step_asks up open' asks,← asks.2.2.1]
  rfl

private theorem scheduleRespawn_effect {k : Kernel} {j : Job} {w : WaitRet} {interval : Nat} (ok : JobOk k j)
    (positive : 0 < j.p) (mine : w.pid = j.p) (staying : j.pendingUnload = false) (alive : j.keepAlive = true) :
    Effect interval k j (.reap w) (scheduleRespawn interval (k.reaped j.id w) (j.reaped w) w.io).1
      (scheduleRespawn interval (k.reaped j.id w) (j.reaped w) w.io).2 := by
  have enabled := ok.on positive
  by_cases due : j.delay interval k w ≤ 0
  · have now : respawnDelay interval (j.reaped w).lastSpawnAt (k.reaped j.id w).clock ≤ 0 := due
    simp only [scheduleRespawn,if_pos now]
    rcases jobSpawn_cases (k.reaped j.id w) (j.reaped w) .keepAlive w.io.spawn with
      ⟨moot,_⟩ | ⟨_,_,⟨denied,same⟩ | ⟨pid,granted,same⟩⟩
    · simp [Job.reaped,enabled] at moot
    · rw [same]
      exact .refused positive mine staying alive due denied
    · rw [same]
      exact .respawn positive mine staying alive enabled due granted
  · have early : 0 < j.delay interval k w := Int.not_le.mp due
    have later : ¬ respawnDelay interval (j.reaped w).lastSpawnAt (k.reaped j.id w).clock ≤ 0 := due
    simp only [scheduleRespawn,if_neg later,cancelRestart]
    by_cases source : w.io.source = true
    · simp only [source,if_true]
      exact .throttle positive mine staying alive early source
    · simp only [source]
      exact .sourceless positive mine staying alive early (by simpa using source)

theorem jobReap_cases (ok : Ok s) {j : Job} {w : WaitRet} (member : j ∈ s.jobs) (positive : 0 < j.p)
    (mine : w.pid = j.p) :
    (j.pendingUnload = true ∧ jobReap {s with kernel := s.kernel.reaped j.id w} j w.status w.io =
      jobmgrRemoveAndFree (s.put (s.kernel.reaped j.id w) (j.reaped w)) (j.reaped w)) ∨
    (j.pendingUnload = false ∧ j.keepAlive = true ∧ ∃ k' j', Effect s.interval s.kernel j (.reap w) k' j' ∧
      jobReap {s with kernel := s.kernel.reaped j.id w} j w.status w.io = s.put k' j') ∨
    (j.pendingUnload = false ∧ j.keepAlive = false ∧
      jobReap {s with kernel := s.kernel.reaped j.id w} j w.status w.io =
        (s.put (s.kernel.reaped j.id w) (j.reaped w)).noteDone (s.singleton = some j.id)) := by
  have unfolded : jobReap {s with kernel := s.kernel.reaped j.id w} j w.status w.io =
      if j.pendingUnload then jobmgrRemoveAndFree (s.put (s.kernel.reaped j.id w) (j.reaped w)) (j.reaped w)
      else if j.keepAlive then
        (s.put (s.kernel.reaped j.id w) (j.reaped w)).put
          (scheduleRespawn s.interval (s.kernel.reaped j.id w) (j.reaped w) w.io).1
          (scheduleRespawn s.interval (s.kernel.reaped j.id w) (j.reaped w) w.io).2
      else if s.singleton = some j.id then
        {s.put (s.kernel.reaped j.id w) (j.reaped w) with singletonDone := true}
      else s.put (s.kernel.reaped j.id w) (j.reaped w) := rfl
  by_cases leaving : j.pendingUnload = true
  · exact .inl ⟨leaving,by rw [unfolded,if_pos leaving]⟩
  have staying : j.pendingUnload = false := by simpa using leaving
  refine .inr ?_
  by_cases alive : j.keepAlive = true
  · have effect := @scheduleRespawn_effect _ _ _ s.interval (ok.jobs j member) positive mine staying alive
    refine .inl ⟨staying,alive,_,_,effect,?_⟩
    rw [unfolded,if_neg leaving,if_pos alive]
    exact s.put_put (effect.keeps ok.kernel (ok.jobs j member)).id
  · refine .inr ⟨staying,by simpa using alive,?_⟩
    rw [unfolded,if_neg leaving,if_neg alive]
    by_cases single : s.singleton = some j.id
    · rw [if_pos single]
      simp [State.noteDone,single]
    · rw [if_neg single]
      simp [State.noteDone,single,State.put]

theorem jobFindByPid_some {pid : Pid} {j : Job} (found : jobFindByPid s pid = some j) :
    j ∈ s.jobs ∧ 0 < j.p ∧ pid = j.p := by
  unfold jobFindByPid at found
  split at found
  · cases found
  · rename_i positive
    obtain ⟨member,same⟩ := Keyed.find_some found
    exact ⟨member,Nat.pos_of_ne_zero (same ▸ positive),same.symm⟩

theorem jobFindByPid_none {pid : Pid} (absent : jobFindByPid s pid = none) :
    ∀ j ∈ s.jobs, 0 < pid → j.p ≠ pid := by
  intro j member positive
  simp only [jobFindByPid,if_neg (Nat.ne_of_gt positive)] at absent
  exact Keyed.find_none absent j member

theorem reapOne_cases (s : State) (w : WaitRet) (up : s.shuttingDown = false) :
    (jobFindByPid s w.pid = none ∧ reapOne s w = {s with kernel := (s.kernel.tick w.elapsed).wait w.pid}) ∨
    ∃ j, jobFindByPid s w.pid = some j ∧
      reapOne s w = exitIfDone (jobReap {s with kernel := s.kernel.reaped j.id w} j w.status w.io) := by
  -- The orphan and the Job are looked up in a state that has the same table.
  have lookup : jobFindByPid {s with kernel := (s.kernel.tick w.elapsed).wait w.pid} w.pid = jobFindByPid s w.pid :=
    rfl
  rw [reapOne,if_neg (by simp [up])]
  cases found : jobFindByPid s w.pid with
  | none =>
    rw [found] at lookup
    exact .inl ⟨rfl,by simp only [lookup]⟩
  | some j =>
    rw [found] at lookup
    refine .inr ⟨j,rfl,?_⟩
    simp only [lookup]
    rfl

private theorem exitIfDone_path : Path law s (exitIfDone s) := by
  unfold exitIfDone
  split
  · exact exit_path law
  · exact .refl

theorem reapOne_path (ok : Ok s) (w : WaitRet)
    (allowed : s.shuttingDown = false → ∀ j, jobFindByPid s w.pid = some j → law.allows s j (.reap w)) :
    Path law s (reapOne s w) := by
  cases up : s.shuttingDown with
  | true =>
    simp only [reapOne,up,if_true]
    exact .refl
  | false =>
    rcases reapOne_cases s w up with ⟨absent,same⟩ | ⟨j,found,same⟩
    · rw [same]
      have ticked : Move law s {s with kernel := s.kernel.tick w.elapsed} := .quiet rfl rfl rfl rfl rfl
      exact .head ticked (.single (@Move.orphan law {s with kernel := s.kernel.tick w.elapsed} w.pid
        (jobFindByPid_none absent)))
    · rw [same]
      refine .trans ?_ (exitIfDone_path law)
      obtain ⟨member,positive,mine⟩ := jobFindByPid_some found
      have allowed := allowed up j found
      rcases jobReap_cases ok member positive mine with
        ⟨leaving,ended⟩ | ⟨_,_,k',j',effect,ended⟩ | ⟨staying,once,ended⟩
      · rw [ended]
        exact .single (.release member allowed (.gone positive mine leaving))
      · rw [ended]
        exact .single (.effect member allowed effect)
      · rw [ended]
        refine .head (.effect member allowed (.rest positive mine staying once)) ?_
        exact .single (@Move.quiet law _ _ 0 rfl rfl rfl rfl rfl)

theorem dueTimer_some {id : TimerId} {t : Timer} (due : dueTimer s id = some t) :
    t ∈ s.kernel.timers ∧ t.deadline ≤ s.kernel.clock := by
  have holds := List.find?_some due
  simp only [decide_eq_true_eq] at holds
  exact ⟨List.mem_of_find?_eq_some due,holds.2⟩

/-- The block of a due timer acts on the Job that armed it, which is in the
table and not being unloaded. -/
theorem restartTimerBlock_effect (ok : Ok s) {t : Timer} (armed : t ∈ s.kernel.timers)
    (due : t.deadline ≤ s.kernel.clock) (io : SpawnIO) :
    ∃ j k' j', s.deref t.job = some j ∧ j ∈ s.jobs ∧ j.restartTimer = some t.id ∧
      Effect s.interval s.kernel j (.fire io) k' j' ∧ restartTimerBlock s t io = s.put k' j' := by
  obtain ⟨j,member,same⟩ := ok.timers t armed
  have mine := (ok.jobs j member).owned t armed same.symm
  obtain ⟨_,staying⟩ := (ok.jobs j member).policy (by simp [mine])
  have found : s.deref t.job = some j := by
    rw [← same]
    exact Keyed.find_mem ok.ids member
  have twice : (s.kernel.cancel (some t.id)).cancel (some t.id) = s.kernel.cancel (some t.id) := by
    simp [Kernel.cancel]
  have looked : State.deref {s with kernel := s.kernel.cancel (some t.id)} t.job = some j := found
  have cancelled : cancelRestart (s.kernel.cancel (some t.id)) j = (s.kernel.cancel j.restartTimer,j.unarmed) := by
    rw [cancelRestart,mine,twice]
    rfl
  have wanted : j.unarmed.pendingUnload = false := staying
  have block : restartTimerBlock s t io =
      s.put (jobSpawn (s.kernel.cancel j.restartTimer) j.unarmed .keepAlive io).kernel
        (jobSpawn (s.kernel.cancel j.restartTimer) j.unarmed .keepAlive io).job := by
    simp only [restartTimerBlock,looked,cancelled,wanted]
    rfl
  refine ⟨j,_,_,found,member,mine,?_,block⟩
  rcases jobSpawn_cases (s.kernel.cancel j.restartTimer) j.unarmed .keepAlive io with
    ⟨moot,ended⟩ | ⟨enabled,idle,⟨denied,ended⟩ | ⟨pid,granted,ended⟩⟩
  · rw [ended]
    exact .fireIdle armed same.symm due moot
  · rw [ended]
    rw [Kernel.cancel_grant] at denied
    exact .fireRefused armed same.symm due enabled idle denied
  · rw [ended,Kernel.cancel_clock]
    rw [Kernel.cancel_grant] at granted
    exact .fire armed same.symm due enabled idle granted

private theorem restartTimerBlock_path (ok : Ok s) {t : Timer} (armed : t ∈ s.kernel.timers)
    (due : t.deadline ≤ s.kernel.clock) (io : SpawnIO)
    (allowed : ∀ j, s.deref t.job = some j → law.allows s j (.fire io)) :
    Path law s (restartTimerBlock s t io) := by
  obtain ⟨j,k',j',found,member,_,effect,same⟩ := restartTimerBlock_effect ok armed due io
  rw [same]
  exact .single (.effect member (allowed j found) effect)

def PermitsReaps (law : Law) : State → List WaitRet → Prop :=
  Meets reapOne fun s w => s.shuttingDown = false → ∀ j, jobFindByPid s w.pid = some j → law.allows s j (.reap w)

/-- Every act of an event is allowed in the state it meets. -/
def Permits (law : Law) (s : State) : Event → Prop
  | .connection r io => s.listening = true → ∀ label j, jobmgrFindByLabel s label = some j →
      (Asks r .start label → law.allows s j (.start io.spawn)) ∧ (Asks r .unload label → law.allows s j .unload)
  | .sigchld returns => PermitsReaps law s returns
  | .timer id io => ∀ t j, dueTimer s id = some t → s.deref t.job = some j → law.allows s j (.fire io)
  | _ => True

/-- A process that has exited takes no more acts. -/
def Lawful (law : Law) (s : State) (e : Event) : Prop := s.shuttingDown = false → Permits law s e

theorem sigchldHandler_path (ok : Ok s) (returns : List WaitRet) (lawful : PermitsReaps law s returns) :
    Path law s (sigchldHandler s returns) := by
  induction returns generalizing s with
  | nil => exact .refl
  | cons w rest ih =>
    have first := reapOne_path law ok w lawful.1
    exact first.trans (ih (first.ok ok) lawful.2)

/-- The handlers refine the life cycle. -/
theorem step_path (ok : Ok s) (e : Event) (lawful : Lawful law s e) : Path law s (step s e) := by
  cases up : s.shuttingDown with
  | true => rw [step_exited up]
  | false =>
    have lawful := lawful up
    cases e with
    | tick seconds =>
      rw [step_tick up]
      exact .single (.quiet rfl rfl rfl rfl rfl)
    | connection r io =>
      simp only [step,up]
      cases open' : s.listening with
      | true => exact handleConnection_path law ok r io (lawful open')
      | false => exact .refl
    | scan dir entries =>
      rw [step_scan up]
      exact (ScanRule.path law).dir ok dir entries
    | sigchld returns =>
      rw [step_sigchld up]
      exact sigchldHandler_path law ok returns lawful
    | timer id io =>
      cases due : dueTimer s id with
      | none => rw [step_idle up due]
      | some t =>
        rw [step_timer up due]
        obtain ⟨armed,ripe⟩ := dueTimer_some due
        exact restartTimerBlock_path law ok armed ripe io fun j found => lawful t j due found
    | signal =>
      simp only [step,up]
      exact exit_path law

theorem emptyState_ok (o : Options) : Ok (emptyState o) where
  ids := List.nodup_nil
  labels := List.nodup_nil
  allocated := nofun
  names := ⟨nofun,nofun,nofun⟩
  jobs := nofun
  kernel := ⟨List.nodup_nil,nofun,List.nodup_nil,nofun⟩
  timers := nofun
  singleton := nofun

theorem loadSingleton_path (ok : Ok s) {path : CString} {file : FileContent} {io : SpawnIO} {s' : State}
    (started : loadSingleton s path file io = some s') : Path law s s' := by
  unfold loadSingleton at started
  cases loaded : jobmgrLoadPlistFile s.nextJob path file with
  | none => simp [loaded] at started
  | some j =>
    obtain ⟨fresh,idle⟩ := jobmgrLoadPlistFile_idle loaded
    rcases jobmgrInsert_cases s j with ⟨_,refused⟩ | ⟨new,inserted⟩
    · simp [loaded,refused] at started
    have linked : Move law s {s with jobs := j::s.jobs,nextJob := s.nextJob+1} := .insert fresh idle new
    have marked : Move law _ (jobmgrSetSingleton {s with jobs := j::s.jobs,nextJob := s.nextJob+1} j) :=
      .singleton List.mem_cons_self
    have both : Path law s (jobmgrSetSingleton {s with jobs := j::s.jobs,nextJob := s.nextJob+1} j) :=
      .head linked (.single marked)
    have spawned := spawn_path law (both.ok ok) (j := j) List.mem_cons_self rfl (fun _ => idle) (law.load _ _ io)
    simp only [loaded,inserted,ne_eq,not_true_eq_false,if_false] at started
    split at started
    · split at started
      · cases started
      · cases started
        exact both.trans spawned
    · cases started
      exact both

theorem main_path {o : Options} {s₀ : State} (started : main o = some s₀) : Path law (emptyState o) s₀ := by
  unfold main at started
  simp only at started
  split at started
  · cases started
  · rename_i s first
    have path : Path law (emptyState o) s := by
      cases named : o.plist with
      | none =>
        simp only [named] at first
        split at first
        · cases first
          exact .refl
        · cases first
      | some plist =>
        simp only [named] at first
        exact loadSingleton_path law (emptyState_ok o) first
    have scanned := path.trans ((ScanRule.path law).all (path.ok (emptyState_ok o)) o.scanDirs)
    split at started
    · split at started
      · cases started
        exact scanned.tail (@Move.quiet law _ _ 0 rfl rfl rfl rfl rfl)
      · cases started
    · cases started
      exact scanned

theorem main_ok {o : Options} {s₀ : State} (started : main o = some s₀) : Ok s₀ :=
  (main_path anything started).ok (emptyState_ok o)

private theorem lawful_anything (s : State) (e : Event) : Lawful anything s e := by
  intro _
  cases e with
  | connection r io => exact fun _ _ _ _ => ⟨fun _ => trivial,fun _ => trivial⟩
  | sigchld returns => exact meets_of_forall (fun _ _ _ _ _ => trivial) s returns
  | timer id io => exact fun _ _ _ _ => trivial
  | tick seconds => exact trivial
  | scan dir entries => exact trivial
  | signal => exact trivial

theorem step_ok (ok : Ok s) (e : Event) : Ok (step s e) :=
  (step_path anything ok e (lawful_anything s e)).ok ok

theorem Reachable.ok (reachable : Reachable s) : Ok s := by
  obtain ⟨o,s₀,events,started,rfl⟩ := reachable
  apply invariant _ (main_ok started)
  exact fun s e ok => step_ok ok e

/-- The run rule: what holds of the empty table and is kept by every move under
the law holds in every state of a run whose events are lawful. -/
theorem along_lawful {P : State → Prop} (keeps : ∀ s s', Ok s → P s → Move law s s' → P s') {o : Options}
    (empty : P (emptyState o)) {s₀ : State} (started : main o = some s₀) {events : List Event}
    (lawful : Meets step (Lawful law) s₀ events) : Along step (fun s => Ok s ∧ P s) s₀ events := by
  have initial : P s₀ := (main_path law started).keeps keeps (emptyState_ok o) empty
  apply along_of_meets _ ⟨main_ok started,initial⟩ lawful
  intro s e holds allowed
  have path := step_path law holds.1 e allowed
  exact ⟨path.ok holds.1,path.keeps keeps holds.1 holds.2⟩

end FreebsdLaunchd.Supervisor
