import FreebsdLaunchd.Supervisor.Refinement

/-! The job table between events, as its users rely on it, and a daemon with one
service on which the results of this directory are tried out. -/
namespace FreebsdLaunchd.Supervisor
open CData Ipc Runs

structure TableOk (s : State) : Prop where
  labels : (s.jobs.map Job.label).Nodup
  live : ∀ j ∈ s.jobs, (0 < j.p ↔ j.state = .running ∨ j.state = .stopping)
  pids : ((s.jobs.map Job.p).filter (· ≠ 0)).Nodup
  pending : ∀ j ∈ s.jobs, j.pendingUnload = true → 0 < j.p
  singleton : ∀ id, s.singleton = some id → ∃ j ∈ s.jobs, j.id = id
  timers : ∀ t ∈ s.kernel.timers, ∃! j, j ∈ s.jobs ∧ j.restartTimer = some t.id
  policy : ∀ t ∈ s.kernel.timers, ∀ j ∈ s.jobs, j.restartTimer = some t.id →
    j.keepAlive = true ∧ j.pendingUnload = false
  /-- The pointer a timer block has captured is that Job's, so it is not freed. -/
  captured : ∀ t ∈ s.kernel.timers, ∃ j, s.deref t.job = some j ∧ j.restartTimer = some t.id

private theorem Ok.pids_nodup {s : State} (ok : Ok s) : ((s.jobs.map Job.p).filter (· ≠ 0)).Nodup := by
  rw [List.filter_map]
  refine List.Nodup.map_on ?_ ((ok.ids.of_map).filter _)
  intro a ha b hb same
  simp only [List.mem_filter,Function.comp_apply,decide_eq_true_eq] at ha hb
  exact ok.eq_of_p ha.1 hb.1 (Nat.pos_of_ne_zero ha.2) same

private theorem Ok.timer_owner {s : State} (ok : Ok s) {t : Timer} (armed : t ∈ s.kernel.timers) :
    ∃ j ∈ s.jobs, t.job = j.id ∧ j.restartTimer = some t.id := by
  obtain ⟨j,member,same⟩ := ok.timers t armed
  exact ⟨j,member,same.symm,(ok.jobs j member).owned t armed same.symm⟩

private theorem Ok.eq_of_timer {s : State} (ok : Ok s) {a b : Job} (ha : a ∈ s.jobs) (hb : b ∈ s.jobs)
    {t : TimerId} (mine : a.restartTimer = some t) (yours : b.restartTimer = some t) : a = b := by
  obtain ⟨first,armed,named,owner⟩ := (ok.jobs a ha).armed t mine
  obtain ⟨second,armed',named',owner'⟩ := (ok.jobs b hb).armed t yours
  have same := Keyed.eq_of_key ok.kernel.timerIds armed armed' (named.trans named'.symm)
  exact ok.eq_of_id ha hb (by rw [← owner,← owner',same])

theorem reachable_table {s : State} (reachable : Reachable s) : TableOk s := by
  have ok := reachable.ok
  refine ⟨ok.labels,fun j member => (ok.jobs j member).live,ok.pids_nodup,
    fun j member => (ok.jobs j member).pending,ok.singleton,?_,?_,?_⟩
  · intro t armed
    obtain ⟨j,member,_,mine⟩ := ok.timer_owner armed
    exact ⟨j,⟨member,mine⟩,fun x ⟨inside,yours⟩ => ok.eq_of_timer inside member yours mine⟩
  · intro t _ j member mine
    exact (ok.jobs j member).policy (by simp [mine])
  · intro t armed
    obtain ⟨j,member,same,mine⟩ := ok.timer_owner armed
    refine ⟨j,?_,mine⟩
    rw [same]
    exact Keyed.find_mem ok.ids member

namespace Sample

def service (label : String) (runAtLoad disabled keepAlive : Bool) : FileContent :=
  .object (.dict [("Label",.string (some (CString.lit label).bytes)),
    ("Program",.string (some (CString.lit "/bin/svc").bytes)),
    ("RunAtLoad",.number runAtLoad),("Disabled",.number disabled),("KeepAlive",.number keepAlive)])

def daemon : Options where
  daemon := true
  plist := none
  file := .unreadable
  spawn := ⟨0,none⟩
  scanDirs := []
  throttleEnv := none
  clock := 100
  ipcServer := true

def booted : State := {emptyState daemon with exitWhenDone := false,listening := true}

def message (cmd : Cmd) (text : String) : Recv :=
  let payload := (CString.lit text).bytes
  ⟨.returned 0 none,⟨ipcMagic,ipcVersion,cmd.word,payload.length.toUInt32⟩,some (payload ++ [0]),1⟩

def world (file : FileContent) (newpid : Option Pid) : RequestIO :=
  ⟨file,⟨0,newpid⟩,none,⟨fun _ => true,true,fun _ => 0⟩,none⟩

def load (file : FileContent) (newpid : Option Pid) : Event :=
  .connection (message .load "/etc/svc.plist") (world file newpid)

def start (label : String) (newpid : Option Pid) : Event :=
  .connection (message .start label) (world .unreadable newpid)

def stop (label : String) : Event := .connection (message .stop label) (world .unreadable none)

def exited (pid elapsed : Nat) (newpid : Option Pid) : Event := .sigchld [⟨pid,0,elapsed,⟨⟨0,newpid⟩,true⟩⟩]

end Sample

open Sample

theorem reachable_table_throttled :
    let s := run step booted [load (service "svc" true false true) (some 100),exited 100 1 none]
    s.kernel.timers ≠ [] ∧ TableOk s :=
  ⟨by decide,reachable_table ⟨daemon,booted,_,rfl,rfl⟩⟩

end FreebsdLaunchd.Supervisor
