import FreebsdLaunchd.Supervisor.Table

/-! What becomes of an unloaded Job. `jobmgr_unload` of a running Job only asks
its process to terminate; until the reap the Job is still found by its label,
and what its successors under that label do must be told apart from what is
done to it. -/
namespace FreebsdLaunchd.Supervisor
open CData Ipc Runs

/-- In state `s`, after the unload of `j` has led to `s₁`: no process has been
spawned for `j` since, those spawned under its label belong to Jobs allocated
since, and if `j` is still in the table its process has not been reaped. -/
structure StaysUnloaded (j : Job) (s₁ s : State) : Prop where
  spawns : s.kernel.spawns.filter (fun r => r.job = j.id) = s₁.kernel.spawns.filter (fun r => r.job = j.id)
  successors : ∀ r ∈ s.kernel.spawns, r.label = j.label → r ∈ s₁.kernel.spawns ∨ s₁.nextJob ≤ r.job
  waiting : ∀ x ∈ s.jobs, x.id = j.id → x.p = j.p ∧ ⟨j.p,j.id,j.label⟩ ∈ s.kernel.children

def noStart (id : JobId) : Law where
  allows s j
    | .start io => j.id = id → s.kernel.grant io = none
    | _ => True
  load _ _ _ := trivial
  stop _ _ := trivial

/-- Between its unload and its reap nothing but a START can happen to a Job. -/
theorem Effect.not_unloading {s : State} {k' : Kernel} {j j' : Job} {act : Act} (ok : JobOk s.kernel j)
    (leaving : j.pendingUnload = true) (stopping : j.state = .stopping) (allowed : (noStart j.id).allows s j act) :
    ¬ Effect s.interval s.kernel j act k' j' := by
  have timerless : ∀ t ∈ s.kernel.timers, t.job ≠ j.id := ok.bare (ok.timerless leaving)
  have stuck {P : Prop} (staying : j.pendingUnload = false) : P := absurd leaving (by simp [staying])
  intro effect
  cases effect with
  | spawn asked new _ _ granted =>
    rcases Act.asks_cases asked with ⟨rfl,_⟩ | ⟨rfl,_⟩
    · exact stuck (new rfl).pendingUnload
    · exact absurd granted (by simp [allowed rfl])
  | stop running => exact absurd running (by simp [stopping])
  | unload running _ => exact absurd running (by simp [stopping])
  | rest _ _ staying _ => exact stuck staying
  | respawn _ _ staying _ _ _ _ => exact stuck staying
  | refused _ _ staying _ _ _ => exact stuck staying
  | throttle _ _ staying _ _ _ => exact stuck staying
  | sourceless _ _ staying _ _ _ => exact stuck staying
  | fire armed mine _ _ _ _ => exact timerless _ armed mine
  | fireRefused armed mine _ _ _ _ => exact timerless _ armed mine
  | fireIdle armed mine _ _ => exact timerless _ armed mine

structure Leaving (j : Job) (s₁ s : State) : Prop where
  spawns : s.kernel.spawns.filter (fun r => r.job = j.id) = s₁.kernel.spawns.filter (fun r => r.job = j.id)
  successors : ∀ r ∈ s.kernel.spawns, r.label = j.label → r ∈ s₁.kernel.spawns ∨ s₁.nextJob ≤ r.job
  window : ∀ x ∈ s.jobs, x.id = j.id → x.pendingUnload = true ∧ x.state = .stopping ∧ x.p = j.p ∧ x.label = j.label
  labels : ∀ x ∈ s.jobs, x.label = j.label → x.id = j.id ∨ s₁.nextJob ≤ x.id
  next : s₁.nextJob ≤ s.nextJob
  old : j.id < s₁.nextJob

theorem Leaving.staysUnloaded {j : Job} {s₁ s : State} (ok : Ok s) (leaving : Leaving j s₁ s) :
    StaysUnloaded j s₁ s where
  spawns := leaving.spawns
  successors := leaving.successors
  waiting x member mine := by
    obtain ⟨_,stopping,process,named⟩ := leaving.window x member mine
    have positive := (ok.jobs x member).live.mpr (.inr stopping)
    have child := (ok.jobs x member).child positive
    rw [process,mine,named] at child
    exact ⟨process,child⟩

theorem Move.leaving {j : Job} {s₁ s s' : State} (move : Move (noStart j.id) s s') (ok : Ok s)
    (leaving : Leaving j s₁ s) : Leaving j s₁ s' := by
  cases move with
  | quiet jobs _ next _ kernel =>
    exact ⟨by rw [kernel]; exact leaving.spawns,by rw [kernel]; exact leaving.successors,
      by rw [jobs]; exact leaving.window,by rw [jobs]; exact leaving.labels,by rw [next]; exact leaving.next,
      leaving.old⟩
  | singleton _ => exact { leaving with }
  | orphan _ => exact { leaving with }
  | insert fresh _ _ =>
    have later := fresh ▸ leaving.next
    refine ⟨leaving.spawns,leaving.successors,?_,?_,Nat.le_succ_of_le leaving.next,leaving.old⟩
    · intro x inside mine
      rcases List.mem_cons.mp inside with rfl | present
      · exact absurd (mine ▸ leaving.old) (not_lt.mpr later)
      · exact leaving.window x present mine
    · intro x inside named
      rcases List.mem_cons.mp inside with rfl | present
      · exact .inr later
      · exact leaving.labels x present named
  | @effect x x' act k member allowed effect =>
    have change := effect.keeps ok.kernel (ok.jobs x member)
    have other : x.id ≠ j.id := by
      intro mine
      obtain ⟨pending,stopping,_⟩ := leaving.window x member mine
      rw [← mine] at allowed
      exact Effect.not_unloading (ok.jobs x member) pending stopping allowed effect
    have table : ∀ y ∈ (s.put k x').jobs, y = x' ∨ y ∈ s.jobs := by
      intro y inside
      rcases State.mem_put.mp inside with ⟨same,_⟩ | ⟨present,_⟩
      · exact .inl same
      · exact .inr present
    refine ⟨?_,?_,?_,?_,leaving.next,leaving.old⟩
    · rcases effect.spawns with same | ⟨r,logged,mine,_⟩
      · rw [State.put_kernel,same]
        exact leaving.spawns
      · rw [State.put_kernel,logged,List.filter_cons_of_neg (by simp [mine,other])]
        exact leaving.spawns
    · intro r inside named
      rcases effect.spawns with same | ⟨q,logged,mine,labelled⟩
      · rw [State.put_kernel,same] at inside
        exact leaving.successors r inside named
      · rw [State.put_kernel,logged] at inside
        rcases List.mem_cons.mp inside with rfl | before
        · exact .inr (mine ▸ (leaving.labels x member (labelled ▸ named)).resolve_left other)
        · exact leaving.successors r before named
    · intro y inside mine
      rcases table y inside with rfl | present
      · exact absurd (change.id ▸ mine) other
      · exact leaving.window y present mine
    · intro y inside named
      rcases table y inside with rfl | present
      · rw [change.id]
        exact leaving.labels x member (change.label ▸ named)
      · exact leaving.labels y present named
  | @release x x' act k member _ release =>
    obtain ⟨same,bare,_⟩ := release.keeps ok.kernel (ok.jobs x member)
    refine ⟨?_,?_,?_,?_,leaving.next,leaving.old⟩
    · rw [free_kernel s bare,release.spawns]
      exact leaving.spawns
    · rw [free_kernel s bare,release.spawns]
      exact leaving.successors
    · exact fun y inside mine => leaving.window y ((ok.mem_free same).mp inside).1 mine
    · exact fun y inside named => leaving.labels y ((ok.mem_free same).mp inside).1 named

private theorem jobmgrUnload_leaving {s s₁ : State} (ok : Ok s) {label : CString} {j : Job}
    (found : jobmgrFindByLabel s label = some j) (done : jobmgrUnload s label = (none,s₁)) :
    Ok s₁ ∧ Leaving j s₁ s₁ := by
  have member := (Keyed.find_some found).1
  rcases jobmgrUnload_cases s label with ⟨absent,_⟩ | ⟨x,same,cases⟩
  · exact absurd found (by simp [absent])
  rw [found,Option.some.injEq] at same
  subst same
  rcases cases with ⟨running,positive,ended⟩ | ⟨down,ended⟩
  · obtain rfl : s.put (s.kernel.cancel j.restartTimer) j.unloading = s₁ := by simpa [ended] using done
    have move : Move anything s (s.put (s.kernel.cancel j.restartTimer) j.unloading) :=
      .effect member trivial (.unload running positive)
    refine ⟨move.ok ok,rfl,fun r inside _ => .inl inside,?_,?_,le_refl _,ok.allocated j member⟩
    · intro x inside mine
      rcases State.mem_put.mp inside with ⟨rfl,_⟩ | ⟨_,other⟩
      · exact ⟨rfl,rfl,rfl,rfl⟩
      · exact absurd mine other
    · intro x inside named
      rcases State.mem_put.mp inside with ⟨rfl,_⟩ | ⟨present,_⟩
      · exact .inl rfl
      · exact .inl (congrArg Job.id (ok.eq_of_label present member named))
  · obtain rfl : jobmgrRemoveAndFree (s.put (s.kernel.cancel j.restartTimer) j.marked) j.marked = s₁ := by
      simpa [ended] using done
    have named : j.marked.id = j.id := rfl
    have move : Move anything s (jobmgrRemoveAndFree (s.put (s.kernel.cancel j.restartTimer) j.marked) j.marked) :=
      .release member trivial (.discard down)
    refine ⟨move.ok ok,rfl,fun r inside _ => .inl inside,?_,?_,le_refl _,ok.allocated j member⟩
    · exact fun x inside mine => absurd mine ((ok.mem_free named).mp inside).2
    · intro x inside same
      exact .inl (congrArg Job.id (ok.eq_of_label ((ok.mem_free named).mp inside).1 member same))

private theorem lawful_of_staysUnloaded {j : Job} {s₁ s : State} {e : Event} (ok : Ok s) (leaving : Leaving j s₁ s)
    (stays : StaysUnloaded j s₁ (step s e)) : Lawful (noStart j.id) s e := by
  intro up
  cases e with
  | connection r io =>
    intro open' label x found
    refine ⟨fun asks mine => ?_,fun _ => trivial⟩
    have member := (Keyed.find_some found).1
    by_contra refused
    obtain ⟨_,stopping,_⟩ := leaving.window x member mine
    obtain ⟨pid,_,ended⟩ := handleStart_stopping ok asks.2.2.2 found stopping refused
    have same := stays.spawns
    rw [step_start up open' asks,ended,State.put_kernel,Kernel.spawned,
      List.filter_cons_of_pos (by simp [mine]),← leaving.spawns] at same
    exact List.cons_ne_self _ _ same
  | timer id io => exact fun _ _ _ _ => trivial
  | sigchld returns => exact meets_of_forall (fun _ _ _ _ _ => trivial) s returns
  | tick seconds => exact trivial
  | scan dir entries => exact trivial
  | signal => exact trivial

/-- An unloaded Job stays unloaded exactly if no START for its label gets a
process while it is still in the table. -/
theorem staysUnloaded_iff_noStart {s s₁ : State} (reachable : Reachable s) {label : CString} {j : Job}
    (found : jobmgrFindByLabel s label = some j) (done : jobmgrUnload s label = (none,s₁)) (events : List Event) :
    Along step (StaysUnloaded j s₁) s₁ events ↔ Meets step (Lawful (noStart j.id)) s₁ events := by
  obtain ⟨ok,leaving⟩ := jobmgrUnload_leaving reachable.ok found done
  refine along_iff_meets (I := Ok) (P := Leaving j s₁) ?_ ?_ ?_ ?_ ok leaving events
  · exact fun s e ok => step_ok ok e
  · intro s e ok leaving lawful
    exact (step_path _ ok e lawful).keeps (fun _ _ ok leaving move => move.leaving ok leaving) ok leaving
  · exact fun s e ok leaving stays => lawful_of_staysUnloaded ok leaving stays
  · exact fun s ok leaving => leaving.staysUnloaded ok

open Sample

private def serving : State := run step booted [load (service "svc" true false false) (some 100)]

/-- UNLOAD, and START before the process is gone: the service runs again. -/
theorem started_while_unloading_respawned :
    ¬ ∀ s label j s₁ events, Reachable s → jobmgrFindByLabel s label = some j →
      jobmgrUnload s label = (none,s₁) → Along step (StaysUnloaded j s₁) s₁ events := by
  intro stays
  have last := (stays serving (.lit "svc") _ _ [start "svc" (some 101)] ⟨daemon,booted,_,rfl,rfl⟩ rfl rfl).last
  exact absurd last.spawns (by decide)

theorem staysUnloaded_iff_noStart_reloaded :
    jobmgrUnload serving (.lit "svc") = (none,(jobmgrUnload serving (.lit "svc")).2) ∧
    ∃ j, jobmgrFindByLabel serving (.lit "svc") = some j ∧
      Along step (StaysUnloaded j (jobmgrUnload serving (.lit "svc")).2) (jobmgrUnload serving (.lit "svc")).2
        [exited 100 1 none,load (service "svc" true false false) (some 101)] := by
  have reachable : Reachable serving := ⟨daemon,booted,_,rfl,rfl⟩
  have unloaded : jobmgrUnload serving (.lit "svc") = (none,(jobmgrUnload serving (.lit "svc")).2) := rfl
  refine ⟨unloaded,_,rfl,?_⟩
  refine (staysUnloaded_iff_noStart reachable rfl unloaded _).mpr ⟨?_,?_,trivial⟩
  · exact fun _ => ⟨fun _ _ _ => trivial,trivial⟩
  · exact fun _ _ _ _ _ => ⟨fun asks => absurd asks.2.1 (by decide),fun _ => trivial⟩

end FreebsdLaunchd.Supervisor
