import FreebsdLaunchd.Supervisor.Table

/-! The KeepAlive policy: a Job that is to be kept alive has a process or a timer
that will spawn one, as long as the world lets it be respawned. -/
namespace FreebsdLaunchd.Supervisor
open CData Ipc Runs

/-- Every Job that KeepAlive has taken charge of is up or about to be. -/
def KeptAlive (s : State) : Prop :=
  ∀ j ∈ s.jobs, j.keepAlive = true → j.disabled = false → j.pendingUnload = false → j.id ∈ s.kernel.reaps →
    0 < j.p ∨ ∃ t ∈ s.kernel.timers, j.restartTimer = some t.id

/-- The world lets the Job be respawned: at a reap the spawn that is due
succeeds or an older timer will repeat it, and a source can be created for one
that is not due; a timer that fires on a Job that is down gets its process. -/
def respawning : Law where
  allows s j
    | .reap w => j.keepAlive = true → j.pendingUnload = false →
        (j.delay s.interval s.kernel w ≤ 0 →
          (s.kernel.reaped j.id w).grant w.io.spawn ≠ none ∨ j.restartTimer ≠ none) ∧
        (0 < j.delay s.interval s.kernel w → w.io.source = true)
    | .fire io => j.p = 0 → s.kernel.grant io ≠ none
    | _ => True
  load _ _ _ := trivial
  stop _ _ := trivial

def Kept (k : Kernel) (j : Job) : Prop :=
  j.keepAlive = true → j.disabled = false → j.pendingUnload = false → j.id ∈ k.reaps →
    0 < j.p ∨ j.restartTimer ≠ none

theorem Effect.flags {interval : Nat} {k k' : Kernel} {j j' : Job} {act : Act}
    (effect : Effect interval k j act k' j') : j'.keepAlive = j.keepAlive ∧ j'.disabled = j.disabled ∧
      (j'.pendingUnload = false → j.pendingUnload = false) := by
  cases effect with
  | unload _ _ => exact ⟨rfl,rfl,fun staying => by cases staying⟩
  | _ => exact ⟨rfl,rfl,id⟩

/-- Under the law every transition of a KeepAlive Job leaves it up, or with a
timer. -/
theorem Effect.up {s : State} {k' : Kernel} {j j' : Job} {act : Act} (ok : JobOk s.kernel j)
    (alive : j.keepAlive = true) (enabled : j.disabled = false) (staying : j.pendingUnload = false)
    (allowed : respawning.allows s j act) (effect : Effect s.interval s.kernel j act k' j') :
    0 < j'.p ∨ j'.restartTimer ≠ none := by
  cases effect with
  | spawn _ _ _ _ granted => exact .inl (Kernel.grant_some granted).1
  | stop running => exact .inl (ok.live.mpr (.inl running))
  | unload _ positive => exact .inl positive
  | rest _ _ _ once => exact absurd alive (by simp [once])
  | respawn _ _ _ _ _ _ granted => exact .inl (Kernel.grant_some granted).1
  | refused _ _ _ _ due denied =>
    exact .inr (((allowed alive staying).1 due).resolve_left fun granted => granted denied)
  | throttle _ _ _ _ _ _ => exact .inr (by simp [Job.armed])
  | sourceless _ _ _ _ early source => exact absurd ((allowed alive staying).2 early) (by simp [source])
  | fire _ _ _ _ _ granted => exact .inl (Kernel.grant_some granted).1
  | fireRefused _ _ _ _ _ denied =>
    exact .inl (Nat.pos_of_ne_zero fun down => allowed down denied)
  | fireIdle _ _ _ moot =>
    rcases moot with off | running
    · exact absurd off (by simp [enabled])
    · exact .inl (ok.live.mpr (.inl running))

theorem Effect.kept {s : State} {k' : Kernel} {j j' : Job} {act : Act} (ok : JobOk s.kernel j)
    (allowed : respawning.allows s j act) (effect : Effect s.interval s.kernel j act k' j') : Kept k' j' := by
  obtain ⟨alive,enabled,staying⟩ := effect.flags
  exact fun keep on stay _ => effect.up ok (alive ▸ keep) (enabled ▸ on) (staying stay) allowed

theorem Move.kept {s s' : State} (move : Move respawning s s') (ok : Ok s)
    (all : ∀ j ∈ s.jobs, Kept s.kernel j) : ∀ j ∈ s'.jobs, Kept s'.kernel j := by
  apply move.each ok _ _ _ _ all
  · intro id k k' x framed other kept alive enabled staying reaped
    exact kept alive enabled staying ((framed.reaps x.id other).mp reaped)
  · exact fun k pid x kept => kept
  · intro j fresh _ _ _ _ reaped
    exact absurd (ok.names.reaps j.id reaped) (not_lt.mpr fresh.ge)
  · exact fun j act k' j' member allowed effect _ => effect.kept (ok.jobs j member) allowed

/-- KeepAlive never gives up on a Job in a run in which the world lets it be
respawned. -/
theorem keptAlive_of_respawning {o : Options} {s₀ : State} (started : main o = some s₀) {events : List Event}
    (lawful : Meets step (Lawful respawning) s₀ events) : Along step KeptAlive s₀ events := by
  have along := along_lawful respawning (P := fun s => ∀ j ∈ s.jobs, Kept s.kernel j)
    (fun _ _ ok all move => move.kept ok all) nofun started lawful
  refine along.imp fun s holds j member alive enabled staying reaped => ?_
  rcases holds.2 j member alive enabled staying reaped with up | set
  · exact .inl up
  · obtain ⟨t,named⟩ := Option.ne_none_iff_exists'.mp set
    obtain ⟨timer,armed,same,_⟩ := (holds.1.jobs j member).armed t named
    exact .inr ⟨timer,armed,by rw [named,same]⟩

open Sample

/-- A KeepAlive service exits after 11 seconds and its respawn fails: nothing
will ever start it again. -/
theorem respawn_refused_not_keptAlive :
    ¬ ∀ o s₀ events, main o = some s₀ → Along step KeptAlive s₀ events := by
  intro kept
  have last := (kept daemon booted [load (service "svc" true false true) (some 100),exited 100 11 none] rfl).last
  unfold KeptAlive at last
  exact absurd last (by decide)

theorem keptAlive_of_respawning_throttled :
    Along step KeptAlive booted [load (service "svc" true false true) (some 100),exited 100 1 none,.tick 9,
      .timer 0 ⟨0,some 101⟩] := by
  refine keptAlive_of_respawning (o := daemon) rfl ⟨?_,?_,fun _ => trivial,?_,trivial⟩
  · exact fun _ _ _ _ _ => ⟨fun _ => trivial,fun _ => trivial⟩
  · refine fun _ => ⟨fun _ j found _ _ => ⟨fun due => ?_,fun _ => rfl⟩,trivial⟩
    have early : ∀ j ∈ (step booted (load (service "svc" true false true) (some 100))).jobs,
      0 < j.delay 10 (step booted (load (service "svc" true false true) (some 100))).kernel
        ⟨100,0,1,⟨⟨0,none⟩,true⟩⟩ := by decide
    exact absurd due (Int.not_le.mpr (early j (jobFindByPid_some found).1))
  · exact fun _ _ _ _ _ _ => by decide

end FreebsdLaunchd.Supervisor
