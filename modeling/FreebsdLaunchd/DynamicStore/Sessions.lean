import FreebsdLaunchd.DynamicStore.Changes

/-! The session table, and a session that is added to it: it watches nothing,
owns nothing and leaves everybody else alone. -/
namespace FreebsdLaunchd.DynamicStore
open State

variable {Regex : Type} {os : Platform Regex} {st st' : State Regex} {n : Int}

/-! ## States that agree on what the sessions watch -/

theorem registry_of_views (registry : Registry os st) (table : Table st')
    (entries : ∀ k, st'.entry k = st.entry k) (patternData : st'.patternData = st.patternData)
    (deferred : st'.deferredRemovals = st.deferredRemovals)
    (keys : ∀ s, st'.watchedKeys s = st.watchedKeys s)
    (patterns : ∀ s, st'.watchedPatterns s = st.watchedPatterns s) : Registry os st' := by
  refine ⟨table,registry.watched.of_views (fun k => by rw [entries]) patternData keys patterns,?_⟩
  have present : Present st' = Present st := by
    funext k
    simp only [Present,entries,deferred]
  rw [present]
  exact registry.cached.of_patterns patternData patterns

theorem watching_of_views (keys : ∀ s, st'.watchedKeys s = st.watchedKeys s)
    (patterns : ∀ s, st'.watchedPatterns s = st.watchedPatterns s) :
    Watching os st' = Watching os st := by
  funext s key
  simp only [Watching,keys,patterns]

theorem SameStore.settled (same : SameStore st st') (settled : Settled st) : Settled st' :=
  ⟨same.changedKeys.trans settled.changed,same.deferredRemovals.trans settled.deferred,
    same.removedSessionKeys.trans settled.removed⟩

theorem SameStore.info (same : SameStore st st') (z : CFString) : st'.info z = st.info z := by
  rw [State.info,same.sessionData,State.info]

/-- Registrations leave the values, their owners and the queue alone. -/
theorem SameStore.consistent (same : SameStore st st') (registry : Registry os st')
    (consistent : Consistent os nobody st) : Consistent os nobody st' := by
  have opened : Open st' = Open st := by
    funext s
    exact propext (same.opened s)
  have lists (z : CFString) : st'.sessionKeysOf z = st.sessionKeysOf z := by
    rw [State.sessionKeysOf,same.info,State.sessionKeysOf]
  refine ⟨registry,?_,?_⟩
  · apply consistent.owned.of_lists _ same.session lists same.removedSessionKeys fun s => (same.opened s).mpr
    intro k some
    rw [same.data]
    exact some
  · apply consistent.noted.of_eq same.data same.changedKeys same.deferredRemovals same.needsNotification opened
    · intro z
      rw [State.changesOf,same.info,State.changesOf]
    · intro z
      rw [same.sessionData]
    · intro z
      rw [same.info]
    · exact same.assertionFailed

theorem KeepsRegistry.atRest (keeps : KeepsRegistry os st st') (atRest : AtRest os st) : AtRest os st' :=
  ⟨keeps.2.consistent keeps.1 atRest.consistent,keeps.2.settled atRest.settled⟩

/-- A change of a session that is not about what it watches. -/
theorem modify_keeps {f : StorePrivate → StorePrivate} (registry : Registry os st) (isOpen : Open st n)
    (server : ∀ x, (f x).server = x.server) (keys : ∀ x, (f x).keys = x.keys)
    (patterns : ∀ x, (f x).patterns = x.patterns) :
    KeepsRegistry os st (st.modify n f) ∧
      (∀ s, (st.modify n f).watchedKeys s = st.watchedKeys s) ∧
      ∀ s, (st.modify n f).watchedPatterns s = st.watchedPatterns s := by
  have table : Table (st.modify n f) := registry.table.modify server
    (fun x member _ => by rw [keys]; exact registry.table.keys x member)
    (fun x member _ => by rw [patterns]; exact registry.table.patterns x member)
  have keysOf (s : Int) : (st.modify n f).watchedKeys s = st.watchedKeys s := by
    rw [State.watchedKeys,deref_modify server isOpen]
    split
    · rename_i here
      rw [keys,here,State.watchedKeys]
    · rfl
  have patternsOf (s : Int) : (st.modify n f).watchedPatterns s = st.watchedPatterns s := by
    rw [State.watchedPatterns,deref_modify server isOpen]
    split
    · rename_i here
      rw [patterns,here,State.watchedPatterns]
    · rfl
  exact ⟨⟨registry_of_views registry table (fun _ => rfl) rfl rfl keysOf patternsOf,
    sameStore_modify server⟩,keysOf,patternsOf⟩

theorem atRest_needs {l : List Int} (atRest : AtRest os st) (isOpen : ∀ s ∈ l, Open st s)
    (distinct : l.Nodup) : AtRest os { st with needsNotification := l } := by
  obtain ⟨⟨registry,owned,noted⟩,settled⟩ := atRest
  exact ⟨⟨registry_of_eq registry (fun _ => rfl) rfl rfl rfl,
    ⟨owned.owner,owned.listed,owned.records,owned.removed,owned.distinct⟩,
    ⟨noted.changed,noted.deferred,noted.distinctDeferred,isOpen,distinct,noted.distinct,noted.known,
      noted.named,noted.alive⟩⟩,⟨settled.changed,settled.deferred,settled.removed⟩⟩

/-! ## The session table -/

theorem filterMap_fillSlot {α : Type} (x : α) (slots : List (Option α)) :
    ((fillSlot x slots).filterMap id).Perm (x :: slots.filterMap id) := by
  induction slots with
  | nil => exact .refl _
  | cons slot rest ih =>
    cases slot with
    | none => exact .refl _
    | some y =>
      exact (ih.cons y).trans (.swap x y _)

theorem filterMap_rdropWhile {α : Type} (slots : List (Option α)) :
    (slots.rdropWhile Option.isNone).filterMap id = slots.filterMap id := by
  induction slots using List.reverseRecOn with
  | nil => rfl
  | append_singleton rest slot ih =>
    cases slot with
    | none =>
      rw [List.rdropWhile_concat_pos _ _ _ rfl,ih]
      simp
    | some x =>
      rw [List.rdropWhile_concat_neg _ _ _ (by simp)]

theorem filterMap_clearSlot (n : Int) (slots : List (Option StorePrivate)) :
    (clearSlot n slots).filterMap id = (slots.filterMap id).filter fun x => x.server ≠ n := by
  have cleared : (slots.map fun slot => if slot.any (·.server = n) then none else slot).filterMap id =
      (slots.filterMap id).filter fun x => x.server ≠ n := by
    induction slots with
    | nil => rfl
    | cons slot rest ih =>
      cases slot with
      | none => simpa using ih
      | some x => by_cases here : x.server = n <;> simpa [here] using ih
  unfold clearSlot
  simp only
  split
  · rw [filterMap_rdropWhile,cleared]
  · exact cleared

/-! ## Opening a session -/

structure Opened (n : Int) (st st' : State Regex) : Prop where
  table : Table st'
  opened : ∀ s, Open st' s ↔ s = n ∨ Open st s
  keys : ∀ s, st'.watchedKeys s = st.watchedKeys s
  patterns : ∀ s, st'.watchedPatterns s = st.watchedPatterns s

private theorem opened_of_perm (table : Table st) (nonzero : n ≠ 0) (fresh : ∀ x ∈ st.live, x.server ≠ n)
    {x : StorePrivate} (server : x.server = n) (keys : x.keys = []) (patterns : x.patterns = [])
    (perm : st'.live.Perm (x :: st.live)) : Opened n st st' := by
  have members (y : StorePrivate) : y ∈ st'.live ↔ y = x ∨ y ∈ st.live := by
    rw [perm.mem_iff,List.mem_cons]
  have table' : Table st' := by
    refine ⟨?_,?_,?_,?_⟩
    · rw [(perm.map _).nodup_iff,List.map_cons,List.nodup_cons]
      refine ⟨?_,table.distinct⟩
      intro member
      obtain ⟨y,inside,same⟩ := List.mem_map.mp member
      exact fresh y inside (same.trans server)
    · intro y member
      rcases (members y).mp member with rfl | old
      · rw [server]
        exact nonzero
      · exact table.nonzero y old
    · intro y member
      rcases (members y).mp member with rfl | old
      · simp [keys]
      · exact table.keys y old
    · intro y member
      rcases (members y).mp member with rfl | old
      · simp [patterns]
      · exact table.patterns y old
  have opened (s : Int) : Open st' s ↔ s = n ∨ Open st s := by
    simp only [Open,members]
    constructor
    · rintro ⟨y,rfl | old,same⟩
      · exact .inl (same.symm.trans server)
      · exact .inr ⟨y,old,same⟩
    · rintro (rfl | ⟨y,old,same⟩)
      · exact ⟨x,.inl rfl,server⟩
      · exact ⟨y,.inr old,same⟩
  have closed : ¬ Open st n := by
    rintro ⟨y,member,same⟩
    exact fresh y member same
  have derefs (s : Int) : (st'.deref s).keys = (st.deref s).keys ∧
      (st'.deref s).patterns = (st.deref s).patterns := by
    by_cases here : s = n
    · subst here
      have found : st'.deref s = x := by
        rw [← server]
        exact table'.deref ((members x).mpr (.inl rfl))
      rw [found,deref_of_closed closed]
      exact ⟨keys,patterns⟩
    · by_cases isOpen : Open st s
      · obtain ⟨y,member,rfl⟩ := isOpen
        rw [table'.deref ((members y).mpr (.inr member)),table.deref member]
        exact ⟨rfl,rfl⟩
      · have still : ¬ Open st' s := fun now => isOpen (((opened s).mp now).resolve_left here)
        rw [deref_of_closed isOpen,deref_of_closed still]
        exact ⟨rfl,rfl⟩
  exact ⟨table',opened,fun s => (derefs s).1,fun s => (derefs s).2⟩

theorem addSession_opened {server : Int} (useSessionKeys : Bool) (table : Table st) (nonzero : n ≠ 0)
    (fresh : ∀ x ∈ st.live, x.server ≠ n) (added : addSession server n st = some st') :
    Opened n st (st'.modify n fun x => { x with useSessionKeys := useSessionKeys }) ∧
      st' = { st with sessions := fillSlot { server := n } st.sessions } := by
  unfold addSession at added
  split at added
  · cases added
  · obtain rfl := Option.some.inj added
    refine ⟨?_,rfl⟩
    apply opened_of_perm table nonzero fresh (x := { server := n, useSessionKeys }) rfl rfl rfl
    rw [live_modify]
    have perm := (filterMap_fillSlot { server := n } st.sessions).map fun x : StorePrivate =>
      if x.server = n then { x with useSessionKeys := useSessionKeys } else x
    have others : (st.live.map fun x : StorePrivate =>
        if x.server = n then { x with useSessionKeys := useSessionKeys } else x) = st.live := by
      rw [List.map_congr_left (g := id)]
      · simp
      · intro x member
        simp [fresh x member]
    rw [List.map_cons,if_pos rfl] at perm
    exact perm.trans (.of_eq (congrArg _ others))

theorem configopen_atRest (server : Int) (atRest : AtRest os st) (nonzero : n ≠ 0)
    (fresh : ∀ x ∈ st.live, x.server ≠ n) (name : CFString) (useSessionKeys : Option Bool) :
    AtRest os (configopen server name useSessionKeys n st).2 ∧
      board os (configopen server name useSessionKeys n st).2 = board os st := by
  unfold configopen
  cases added : addSession server n st with
  | none => exact ⟨atRest,rfl⟩
  | some st' =>
    obtain ⟨opened,equation⟩ := addSession_opened (useSessionKeys.getD false)
      atRest.consistent.registry.table nonzero fresh added
    subst equation
    let joined : State Regex := ({ st with sessions := fillSlot { server := n } st.sessions }).modify n
      fun x => { x with useSessionKeys := useSessionKeys.getD false }
    let final : State Regex := { joined with
      sessionData := st.sessionData.insert (sessionKey n) { st.info (sessionKey n) with name := some name } }
    change AtRest os final ∧ board os final = board os st
    obtain ⟨⟨registry,owned,noted⟩,settled⟩ := atRest
    have info (z : CFString) : final.info z = if z = sessionKey n then
        { st.info (sessionKey n) with name := some name } else st.info z :=
      info_insert st (sessionKey n) z _
    have lists (z : CFString) : final.sessionKeysOf z = st.sessionKeysOf z := by
      rw [State.sessionKeysOf,info]
      split
      · rename_i here
        rw [here]
        rfl
      · rfl
    have changes (z : CFString) : final.changesOf z = st.changesOf z := by
      rw [State.changesOf,info]
      split
      · rename_i here
        rw [here]
        rfl
      · rfl
    have openedFinal (s : Int) : Open final s ↔ s = n ∨ Open st s := opened.opened s
    refine ⟨⟨⟨?_,?_,?_⟩,⟨settled.changed,settled.deferred,settled.removed⟩⟩,?_⟩
    · exact registry_of_views registry (opened.table.of_eq rfl) (fun _ => rfl) rfl rfl opened.keys
        opened.patterns
    · exact owned.of_lists (fun _ => id) (fun _ => rfl) lists rfl fun s isOpen => (openedFinal s).mpr (.inr isOpen)
    · refine ⟨noted.changed,noted.deferred,noted.distinctDeferred,?_,noted.distinctNeeds,?_,?_,?_,noted.alive⟩
      · intro s member
        exact (openedFinal s).mpr (.inr (noted.needs s member))
      · intro z
        rw [changes]
        exact noted.distinct z
      · intro z
        change z ∈ st.sessionData.insert _ _ ↔ _
        rw [AList.mem_insert,noted.known]
        constructor
        · rintro (here | ⟨s,isOpen,there⟩)
          · exact ⟨n,(openedFinal n).mpr (.inl rfl),here⟩
          · exact ⟨s,(openedFinal s).mpr (.inr isOpen),there⟩
        · rintro ⟨s,now,rfl⟩
          rcases (openedFinal s).mp now with rfl | isOpen
          · exact .inl rfl
          · exact .inr ⟨s,isOpen,rfl⟩
      · intro s now
        rw [info]
        split
        · rfl
        · rename_i apart
          rcases (openedFinal s).mp now with rfl | isOpen
          · exact absurd rfl apart
          · exact noted.named s isOpen
    · have watching : Watching os final = Watching os st := watching_of_views opened.keys opened.patterns
      simp only [board,watching,changes]
      rfl

end FreebsdLaunchd.DynamicStore
