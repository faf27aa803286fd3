import FreebsdLaunchd.Supervisor.Table

/-! The respawn throttle: the spawns KeepAlive makes for a Job are an interval
apart from the spawn before. The deadline of a timer is computed from the spawn
before the reap; a later START moves the last spawn, and the timer then is early
for it. -/
namespace FreebsdLaunchd.Supervisor
open CData Ipc Runs

/-- In a history, newest spawn first, each KeepAlive spawn was made an interval
after the Job's spawn before it. -/
def Throttled (interval : Nat) : List Spawn → Prop
  | [] => True
  | r::older => (r.via = .keepAlive → ∀ q ∈ older.find? (fun q => q.job = r.job),
      q.spawnedAt + interval ≤ r.calledAt) ∧ Throttled interval older

instance decidableThrottled (interval : Nat) : (history : List Spawn) → Decidable (Throttled interval history)
  | [] => .isTrue trivial
  | r::older =>
    have := decidableThrottled interval older
    inferInstanceAs (Decidable ((r.via = .keepAlive → ∀ q ∈ older.find? (fun q => q.job = r.job),
      q.spawnedAt + interval ≤ r.calledAt) ∧ Throttled interval older))

structure RespawnsThrottled (s : State) : Prop where
  history : Throttled s.interval s.kernel.spawns

/-- The arithmetic of a reap stays inside 64 bits, and no timer spawns a Job
that is terminating before its interval has passed. -/
def pacing : Law where
  allows s j
    | .reap w => j.keepAlive = true → j.pendingUnload = false →
        j.lastSpawnAt + s.interval < 2^63 ∧
        ((j.lastSpawnAt : Int) + s.interval - (s.kernel.clock + w.elapsed : Nat)) * nsecPerSec < 2^63
    | .fire io => j.state = .stopping → s.kernel.grant io ≠ none → j.lastSpawnAt + s.interval ≤ s.kernel.clock
    | _ => True
  load _ _ _ := trivial
  stop _ _ := trivial

/-- What a Job that is down waits for: its timer is not due, or its interval has
passed anyway. -/
structure Paced (interval : Nat) (k : Kernel) (j : Job) : Prop where
  logged : ∀ r, k.lastSpawn j.id = some r → r.spawnedAt = j.lastSpawnAt
  ripe : j.p = 0 → ∀ t ∈ k.timers, t.job = j.id →
    (j.lastSpawnAt + interval : Nat) ≤ t.deadline ∨ j.lastSpawnAt + interval ≤ k.clock

private theorem respawnDelay_eq {interval last now : Nat} (fits : last + interval < 2^63) :
    respawnDelay interval last now = if now < last + interval then ((last + interval : Nat) : Int) - now else 0 := by
  have inside : toInt64 ((last : Int) + interval) = (last + interval : Nat) := by
    rw [toInt64_eq (by omega) (by omega)]
    omega
  simp only [respawnDelay,inside,Int.ofNat_lt]

private theorem dispatchDeadline_eq {now : Nat} {delay : Int} (nonneg : 0 ≤ delay) (fits : delay * nsecPerSec < 2^63) :
    dispatchDeadline now delay = now + delay := by
  have low : -2^63 ≤ delay * nsecPerSec := by
    unfold nsecPerSec
    omega
  rw [dispatchDeadline,toInt64_eq low fits,Int.mul_ediv_cancel _ (by decide)]

theorem Paced.of_bare {interval : Nat} {k k' : Kernel} {j j' : Job} (paced : Paced interval k j)
    (same : k'.spawns = k.spawns) (named : j'.id = j.id) (spawned : j'.lastSpawnAt = j.lastSpawnAt)
    (bare : ∀ t ∈ k'.timers, t.job ≠ j'.id) : Paced interval k' j' where
  logged r newest := by
    rw [Kernel.lastSpawn,same,named] at newest
    rw [spawned]
    exact paced.logged r newest
  ripe _ t armed mine := absurd mine (bare t armed)

theorem Paced.spawned {interval : Nat} {k : Kernel} {j : Job} {via : SpawnPath} {io : SpawnIO} {pid : Pid}
    (positive : 0 < pid) {now : Nat} (read : now = k.clock+io.elapsed) :
    Paced interval (k.spawned j via io pid) (j.spawned pid now) where
  logged r newest := by
    have mine : (k.spawned j via io pid).lastSpawn j.id = some r := newest
    rw [Kernel.lastSpawn_cons rfl,if_pos rfl,Option.some.injEq] at mine
    rw [← mine]
    exact read.symm
  ripe down := absurd down (Nat.ne_of_gt positive)

private theorem throttle_deadline {interval last now : Nat} (fits : last + interval < 2^63)
    (wide : ((last : Int) + interval - now) * nsecPerSec < 2^63) (early : 0 < respawnDelay interval last now) :
    dispatchDeadline now (respawnDelay interval last now) = (last + interval : Nat) := by
  rw [respawnDelay_eq fits] at early ⊢
  split at early
  · rename_i before
    rw [if_pos before]
    have same : ((last + interval : Nat) : Int) - now = (last : Int) + interval - now := by omega
    rw [dispatchDeadline_eq (by omega) (by rw [same]; exact wide)]
    omega
  · exact absurd early (by decide)

theorem Effect.paced {s : State} {k' : Kernel} {j j' : Job} {act : Act} (kernel : KernelOk s.kernel)
    (ok : JobOk s.kernel j) (allowed : pacing.allows s j act) (effect : Effect s.interval s.kernel j act k' j')
    (paced : Paced s.interval s.kernel j) : Paced s.interval k' j' := by
  have change := effect.keeps kernel ok
  cases effect with
  | spawn _ _ _ _ granted => exact .spawned (Kernel.grant_some granted).1 rfl
  | stop _ => exact ⟨paced.logged,paced.ripe⟩
  | unload _ _ => exact paced.of_bare (Kernel.cancel_spawns _ _) rfl rfl (change.job.bare rfl)
  | rest _ _ _ once =>
    refine paced.of_bare rfl rfl rfl (ok.bare ?_)
    by_contra set
    exact absurd (ok.policy set).1 (by simp [once])
  | respawn _ _ _ _ _ _ granted => exact .spawned (Kernel.grant_some granted).1 rfl
  | @refused w _ _ staying alive due _ =>
    refine ⟨paced.logged,fun _ _ _ _ => .inr ?_⟩
    rw [Job.delay,respawnDelay_eq (allowed alive staying).1] at due
    have passed : j.lastSpawnAt + s.interval ≤ s.kernel.clock + w.elapsed := by
      split at due
      · omega
      · omega
    exact passed.trans (Nat.le_add_right _ _)
  | @throttle w positive mine staying alive early _ =>
    obtain ⟨fits,wide⟩ := allowed alive staying
    have cleared := Local.reaped kernel ok positive staying mine
    have bare := (Local.unarmed cleared.kernel cleared.job).job.bare rfl
    refine ⟨?_,fun _ t armed owned => ?_⟩
    · intro r newest
      rw [Kernel.lastSpawn,Kernel.armed,Kernel.cancel_spawns] at newest
      exact paced.logged r newest
    · rcases List.mem_cons.mp armed with rfl | older
      · exact .inl (Int.le_of_eq (throttle_deadline fits wide early).symm)
      · exact absurd owned (bare t older)
  | sourceless _ _ _ _ _ _ => exact paced.of_bare (Kernel.cancel_spawns _ _) rfl rfl (change.job.bare rfl)
  | fire _ _ _ _ _ granted =>
    refine .spawned (Kernel.grant_some granted).1 ?_
    rw [Kernel.cancel_clock]
  | fireRefused _ _ _ _ _ _ => exact paced.of_bare (Kernel.cancel_spawns _ _) rfl rfl (change.job.bare rfl)
  | fireIdle _ _ _ _ => exact paced.of_bare (Kernel.cancel_spawns _ _) rfl rfl (change.job.bare rfl)

theorem Effect.throttled {s : State} {k' : Kernel} {j j' : Job} {act : Act} (ok : JobOk s.kernel j)
    (allowed : pacing.allows s j act) (effect : Effect s.interval s.kernel j act k' j')
    (paced : Paced s.interval s.kernel j) (throttled : Throttled s.interval s.kernel.spawns) :
    Throttled s.interval k'.spawns := by
  cases effect with
  | spawn asked _ _ _ _ =>
    refine ⟨fun keep => ?_,throttled⟩
    rcases Act.asks_cases asked with ⟨_,rfl⟩ | ⟨_,rfl⟩
    · cases keep
    · cases keep
  | @respawn w _ _ _ staying alive _ due _ =>
    refine ⟨fun _ q newest => ?_,throttled⟩
    rw [Job.delay,respawnDelay_eq (allowed alive staying).1] at due
    rw [paced.logged q newest]
    change j.lastSpawnAt + s.interval ≤ s.kernel.clock + w.elapsed
    split at due
    · omega
    · omega
  | @fire io t pid armed mine due _ idle granted =>
    have called : j.lastSpawnAt + s.interval ≤ s.kernel.clock := by
      by_cases stopping : j.state = .stopping
      · exact allowed stopping (by simp [granted])
      · rcases paced.ripe (ok.down idle stopping) t armed mine with waiting | passed
        · omega
        · exact passed
    rw [Kernel.spawned,Kernel.cancel_spawns,Kernel.cancel_clock]
    refine ⟨fun _ q newest => ?_,throttled⟩
    rw [paced.logged q newest]
    exact called
  | stop _ => exact throttled
  | unload _ _ =>
    rw [Kernel.cancel_spawns]
    exact throttled
  | rest _ _ _ _ => exact throttled
  | refused _ _ _ _ _ _ => exact throttled
  | throttle _ _ _ _ _ _ =>
    rw [Kernel.armed,Kernel.cancel_spawns]
    exact throttled
  | sourceless _ _ _ _ _ _ =>
    rw [Kernel.cancel_spawns]
    exact throttled
  | fireRefused _ _ _ _ _ _ =>
    rw [Kernel.tick,Kernel.cancel_spawns]
    exact throttled
  | fireIdle _ _ _ _ =>
    rw [Kernel.cancel_spawns]
    exact throttled

structure OnPace (s : State) : Prop where
  history : Throttled s.interval s.kernel.spawns
  jobs : ∀ j ∈ s.jobs, Paced s.interval s.kernel j

theorem Move.onPace {s s' : State} (move : Move pacing s s') (ok : Ok s) (pace : OnPace s) : OnPace s' := by
  have jobs : ∀ j ∈ s'.jobs, Paced s.interval s'.kernel j := by
    apply move.each ok _ _ _ _ pace.jobs
    · intro id k k' x framed other paced
      refine ⟨fun r newest => paced.logged r (framed.spawns x.id other ▸ newest),fun down t armed mine => ?_⟩
      rcases paced.ripe down t ((framed.timers t (mine ▸ other)).mp armed) mine with waiting | passed
      · exact .inl waiting
      · exact .inr (passed.trans framed.clock)
    · exact fun k pid x paced => ⟨paced.logged,paced.ripe⟩
    · intro j fresh _
      refine ⟨fun r newest => ?_,fun _ t armed mine => ?_⟩
      · have logged := ok.names.spawns r (List.mem_of_find?_eq_some newest)
        have named : r.job = j.id := by simpa using List.find?_some newest
        exact absurd logged (not_lt.mpr (named.trans fresh).ge)
      · obtain ⟨x,present,same⟩ := ok.timers t armed
        exact absurd (ok.allocated x present) (not_lt.mpr ((same.trans mine).trans fresh).ge)
    · exact fun j act k' j' member allowed effect paced => effect.paced ok.kernel (ok.jobs j member) allowed paced
  cases move with
  | quiet _ _ _ interval kernel =>
    refine ⟨?_,interval ▸ jobs⟩
    rw [interval,kernel]
    exact pace.history
  | singleton _ => exact ⟨pace.history,jobs⟩
  | orphan _ => exact ⟨pace.history,jobs⟩
  | insert _ _ _ => exact ⟨pace.history,jobs⟩
  | @effect j _ _ _ member allowed effect =>
    have history := effect.throttled (ok.jobs j member) allowed (pace.jobs j member) pace.history
    exact ⟨history,jobs⟩
  | @release j _ _ _ member _ release =>
    refine ⟨?_,jobs⟩
    obtain ⟨_,bare,_⟩ := release.keeps ok.kernel (ok.jobs j member)
    rw [free_kernel s bare,release.spawns]
    exact pace.history

/-- KeepAlive spawns are throttled in every run in which no timer spawns a
terminating Job too early and the clock arithmetic does not overflow. -/
theorem throttled_of_pacing {o : Options} {s₀ : State} (started : main o = some s₀) {events : List Event}
    (lawful : Meets step (Lawful pacing) s₀ events) :
    Along step RespawnsThrottled s₀ events := by
  have empty : OnPace (emptyState o) := ⟨trivial,nofun⟩
  have along := along_lawful pacing (fun s s' ok pace move => move.onPace ok pace) empty started lawful
  exact along.imp fun s holds => ⟨holds.2.history⟩

open Sample

/-- The timer armed at the first exit outlives a START and fires while STOP is
terminating the second process, nine seconds after that was spawned. -/
private def hasty : List Event :=
  [load (service "svc" true false true) (some 100),exited 100 1 none,start "svc" (some 101),stop "svc",.tick 9,
    .timer 0 ⟨0,some 102⟩]

theorem fired_while_stopping_not_throttled :
    ¬ ∀ o s₀ events, main o = some s₀ → Along step RespawnsThrottled s₀ events := by
  intro throttled
  obtain ⟨history⟩ := Along.last (throttled daemon booted hasty rfl)
  revert history
  decide

theorem throttled_of_pacing_respawned :
    Along step RespawnsThrottled booted
      [load (service "svc" true false true) (some 100),exited 100 1 none,.tick 9,.timer 0 ⟨0,some 101⟩] := by
  refine throttled_of_pacing (o := daemon) rfl ⟨?_,?_,fun _ => trivial,?_,trivial⟩
  · exact fun _ _ _ _ _ => ⟨fun _ => trivial,fun _ => trivial⟩
  · refine fun _ => ⟨fun _ j found _ _ => ?_,trivial⟩
    have fits : ∀ j ∈ (step booted (load (service "svc" true false true) (some 100))).jobs,
      j.lastSpawnAt + 10 < 2^63 ∧ ((j.lastSpawnAt : Int) + (10 : Nat) - (100 + 1 : Nat)) * nsecPerSec < 2^63 := by
      decide
    exact fits j (jobFindByPid_some found).1
  · intro _ t j _ found stopping
    have still : ∀ j ∈ (run step booted [load (service "svc" true false true) (some 100),exited 100 1 none,
      .tick 9]).jobs, j.state ≠ .stopping := by decide
    exact absurd stopping (still j (Keyed.find_some found).1)

/-! ## The arithmetic of one respawn -/

private theorem digits_nonneg {digits : Bytes} (each : ∀ d ∈ digits, isDigit d) {n : Int} (start : 0 ≤ n) :
    0 ≤ digits.foldl (fun n d => 10*n + ((d.toNat : Int)-48)) n := by
  induction digits generalizing n with
  | nil => exact start
  | cons d digits ih =>
    have digit := each d List.mem_cons_self
    have low : 48 ≤ d.toNat := by
      simp only [isDigit,Bool.and_eq_true,decide_eq_true_eq] at digit
      exact UInt8.le_iff_toNat_le.mp digit.1
    have next : 0 ≤ 10*n + ((d.toNat : Int)-48) := by omega
    exact ih (fun x member => each x (List.mem_cons_of_mem _ member)) next

private theorem strtol_le (s : Bytes) : (strtol s).1 ≤ longMax := by
  have large : (0 : Int) ≤ longMax := by decide
  have negative (t : Bytes) :
      -(t.takeWhile isDigit).foldl (fun n d => 10*n + ((d.toNat : Int)-48)) ((0 : Nat) : Int) ≤ longMax := by
    have each : ∀ d ∈ t.takeWhile isDigit, isDigit d := fun d member => List.mem_takeWhile_imp member
    have nonneg := digits_nonneg each (Int.le_refl 0)
    exact le_trans (Int.neg_nonpos_of_nonneg nonneg) large
  unfold strtol
  dsimp only
  -- a minus, a plus, and no sign
  split <;> dsimp only <;> split
  · exact large
  · exact max_le (by decide) (negative _)
  · exact large
  · exact min_le_left _ _
  · exact large
  · exact min_le_left _ _

private theorem throttleInterval_small (env : Option CString) : throttleInterval env < 2^63 := by
  have usual : throttleDefault < 2^63 := by decide
  cases env with
  | none => exact usual
  | some value =>
    have top := strtol_le value.bytes
    have end_ : longMax < 2^63 := by decide
    unfold throttleInterval
    dsimp only
    split_ifs
    · exact usual
    · omega
    · exact usual

/-- When a respawn happens: at once, or when the timer is due. -/
def respawnTime (interval lastSpawnAt now : Nat) : Int := dispatchDeadline now (respawnDelay interval lastSpawnAt now)

/-- The delay and its nanoseconds are those of the integers, and a shorter interval
would not have respawned later. -/
structure RespawnExact (interval lastSpawnAt now : Nat) : Prop where
  delay : respawnDelay interval lastSpawnAt now = max 0 ((lastSpawnAt : Int) + interval - now)
  nanoseconds : toInt64 (respawnDelay interval lastSpawnAt now * nsecPerSec) =
    respawnDelay interval lastSpawnAt now * nsecPerSec
  monotone : ∀ shorter ≤ interval, respawnTime shorter lastSpawnAt now ≤ respawnTime interval lastSpawnAt now

private theorem respawnDelay_max {interval last now : Nat} (fits : last + interval < 2^63) :
    respawnDelay interval last now = max 0 ((last : Int) + interval - now) := by
  rw [respawnDelay_eq fits]
  split <;> omega

/-- A sum past the end of `long` is negative, so the Job would not be delayed. -/
theorem respawnDelay_wraps {interval last now : Nat} (small : interval < 2^63) (spawned : last < 2^63)
    (past : 2^63 ≤ last + interval) : respawnDelay interval last now = 0 := by
  have wrapped : toInt64 ((last : Int) + interval) = (last : Int) + interval - 2^64 := by
    have inside : ((last : Int) + interval) % (2^64 : Nat) = (last : Int) + interval :=
      Int.emod_eq_of_lt (by omega) (by omega)
    rw [toInt64,Int.bmod_def,inside,if_neg (by omega)]
    rfl
  simp only [respawnDelay,wrapped]
  rw [if_neg (by omega)]

private theorem respawnTime_eq {interval last now : Nat} (fits : last + interval < 2^63)
    (wide : ((last : Int) + interval - now) * nsecPerSec < 2^63) :
    respawnTime interval last now = max (now : Int) ((last : Int) + interval) := by
  have positive : (0 : Int) < nsecPerSec := by decide
  rw [respawnTime,respawnDelay_max fits]
  rcases le_total ((last : Int) + interval - now) 0 with passed | early
  · rw [max_eq_left passed,dispatchDeadline_eq (le_refl 0) (by decide)]
    omega
  · rw [max_eq_right early,dispatchDeadline_eq early wide]
    omega

/-- One respawn is timed exactly unless the interval takes the time of the last spawn
past the end of `long`, or the delay has more nanoseconds than an int64 holds. -/
theorem respawn_exact_iff (env : Option CString) (lastSpawnAt now : Nat) (spawned : lastSpawnAt < 2^63)
    (present : now < 2^63) :
    RespawnExact (throttleInterval env) lastSpawnAt now ↔
      lastSpawnAt + throttleInterval env < 2^63 ∧
      ((lastSpawnAt : Int) + throttleInterval env - now) * nsecPerSec < 2^63 := by
  have small := throttleInterval_small env
  generalize throttleInterval env = interval at small
  have positive : (0 : Int) < nsecPerSec := by decide
  constructor
  · intro ⟨delay,nanoseconds,_⟩
    have fits : lastSpawnAt + interval < 2^63 := by
      by_contra past
      rw [respawnDelay_wraps small spawned (Nat.not_lt.mp past)] at delay
      omega
    refine ⟨fits,?_⟩
    have bound : toInt64 (respawnDelay interval lastSpawnAt now * nsecPerSec) < 2^63 := Int.bmod_lt (by decide)
    rw [nanoseconds,respawnDelay_max fits] at bound
    exact Int.lt_of_le_of_lt (Int.mul_le_mul_of_nonneg_right (le_max_right _ _) positive.le) bound
  · intro ⟨fits,wide⟩
    refine ⟨respawnDelay_max fits,?_,fun shorter less => ?_⟩
    · rw [respawnDelay_max fits]
      rcases le_total ((lastSpawnAt : Int) + interval - now) 0 with passed | early
      · rw [max_eq_left passed]
        decide
      · rw [max_eq_right early]
        have nonneg := Int.mul_nonneg early positive.le
        exact toInt64_eq (by omega) wide
    · have narrower : ((lastSpawnAt : Int) + shorter - now) * nsecPerSec < 2^63 :=
        Int.lt_of_le_of_lt (Int.mul_le_mul_of_nonneg_right (by omega) positive.le) wide
      rw [respawnTime_eq fits wide,respawnTime_eq (by omega) narrower]
      omega

theorem respawn_exact_default : RespawnExact 10 100 105 := by
  have timed := (respawn_exact_iff none 100 105 (by decide) (by decide)).mpr
  exact timed ⟨by decide,by decide⟩

/-- The longest interval is accepted, and the Job is respawned at once. -/
theorem longest_interval_respawns_at_once :
    ¬ ∀ env lastSpawnAt now, lastSpawnAt < 2^63 → now < 2^63 →
      RespawnExact (throttleInterval env) lastSpawnAt now := by
  intro exact_
  have timed := exact_ (some (.lit "9223372036854775807")) 100 100 (by decide) (by decide)
  have delay := timed.delay
  revert delay
  decide

end FreebsdLaunchd.Supervisor
