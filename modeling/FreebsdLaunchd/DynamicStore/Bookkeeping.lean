import FreebsdLaunchd.DynamicStore.Notices

/-! The store's books between requests: the reference counts of the watchers,
the cached patterns, and that no number of a closed session is left anywhere. -/
namespace FreebsdLaunchd.DynamicStore
open State CData

variable {Regex : Type} {os : Platform Regex} {st : State Regex}

private theorem initial_registry : Registry os ({} : State Regex) := by
  have nobody (x : StorePrivate) : x ∉ ({} : State Regex).live := List.not_mem_nil
  have patterns (s : Int) : ({} : State Regex).watchedPatterns s = [] := rfl
  refine ⟨⟨List.nodup_nil,?_,?_,?_⟩,⟨?_,?_⟩,⟨?_,?_,?_⟩⟩
  · exact fun x member => absurd member (nobody x)
  · exact fun x member => absurd member (nobody x)
  · exact fun x member => absurd member (nobody x)
  · exact fun key => RefCounts.valid_empty
  · intro s key
    rfl
  · intro pattern pInfo found
    cases found
  · intro pattern pInfo found
    cases found
  · intro s pattern member
    rw [patterns] at member
    cases member

theorem initial_atRest : AtRest os ({} : State Regex) := by
  have closed (s : Int) : ¬ Open ({} : State Regex) s := fun ⟨x,member,_⟩ => List.not_mem_nil member
  refine ⟨⟨initial_registry,⟨?_,?_,?_,?_,?_⟩,⟨?_,?_,List.nodup_nil,?_,List.nodup_nil,?_,?_,?_,rfl⟩⟩,rfl,rfl,rfl⟩
  · intro k z owned
    cases owned
  · intro s k member
    cases member
  · intro r member
    cases member
  · intro n k member
    cases member
  · exact fun z => List.nodup_nil
  · intro k member
    cases member
  · intro k member
    cases member
  · intro s member
    cases member
  · exact fun z => List.nodup_nil
  · intro z
    constructor
    · intro known
      cases known
    · rintro ⟨s,isOpen,_⟩
      exact absurd isOpen (closed s)
  · intro s isOpen
    exact absurd isOpen (closed s)

theorem Reachable.atRest (reachable : Reachable os st) : AtRest os st := by
  obtain ⟨requests,meets,rfl⟩ := reachable
  have along : Runs.Along (step os) (AtRest os) {} requests :=
    Runs.along_of_meets (fun st r atRest admissible => (step_effect atRest admissible).atRest)
      initial_atRest meets
  exact along.last

/-- The watchers of every key and the cached keys of every pattern. -/
theorem watchers_and_caches (reachable : Reachable os st) :
    (∀ k, (st.entry k).refs.holders.length = (st.entry k).refs.counts.length ∧
      (st.entry k).refs.holders.Nodup ∧ ∀ n ∈ (st.entry k).refs.counts, 1 ≤ n) ∧
    (∀ s k, (st.entry k).refs.count s = (if k ∈ st.watchedKeys s then 1 else 0) +
      (st.watchedPatterns s).countP fun p => k ∈ st.cachedKeys p) ∧
    ∀ p pInfo, st.patternData.lookup p = some pInfo →
      pInfo.keys.Nodup ∧ ∀ k, k ∈ pInfo.keys ↔ (st.entry k).data.isSome ∧ matchesPattern os p k := by
  obtain ⟨⟨registry,_,_⟩,settled⟩ := reachable.atRest
  refine ⟨?_,?_,?_⟩
  · intro k
    have valid := registry.watched.valid k
    exact ⟨valid.parallel.symm,valid.distinct,valid.positive⟩
  · intro s k
    have counted := registry.watched.counts s k
    rw [State.refCount,State.reasons_eq,State.listing_eq] at counted
    rw [counted]
    push_cast
    rfl
  · intro p pInfo found
    have sound := registry.cached.each p pInfo found
    refine ⟨sound.distinctKeys,?_⟩
    intro k
    rw [sound.keys,Present,settled.deferred]
    simp [and_comm]

/-! A platform whose regular expressions have no metacharacters, so that each
matches itself only, and a session that watches one key for two reasons. -/

def literal : Platform CString where
  servicePort := 1
  regcomp := some
  regexec pRegex str := pRegex.bytes = 94 :: str.bytes ++ [36]
  order _ l := l
  order_perm _ l := .refl l
  serializedTrue := [1]

def aKey : CFString := ['k']

def watchTwice : List Request :=
  [.configopen 1 ['w'] none 5,.notifyadd 5 aKey false,.notifyadd 5 aKey true,.configset 5 aKey [7] true]

theorem watchTwice_reachable : Reachable literal (Runs.run (step literal) {} watchTwice) :=
  ⟨watchTwice,⟨⟨by decide,by decide⟩,trivial,trivial,trivial,trivial⟩,rfl⟩

theorem watchers_and_caches_twice :
    ((Runs.run (step literal) {} watchTwice).entry aKey).refs.count 5 = 2 := by
  rw [(watchers_and_caches watchTwice_reachable).2.1]
  decide

/-! ## No number of a closed session -/

private theorem open_of_watchedKeys {s : Int} {k : CFString} (member : k ∈ st.watchedKeys s) : Open st s := by
  by_contra closed
  simp [State.watchedKeys,deref_of_closed closed] at member

private theorem open_of_watchedPatterns {s : Int} {p : CFString} (member : p ∈ st.watchedPatterns s) :
    Open st s := by
  by_contra closed
  simp [State.watchedPatterns,deref_of_closed closed] at member

theorem no_dangling_sessions (reachable : Reachable os st) :
    (∀ s ∈ st.needsNotification, Open st s) ∧
    (∀ k, ∀ s ∈ (st.entry k).refs.holders, Open st s) ∧
    (∀ p pInfo, st.patternData.lookup p = some pInfo → ∀ s ∈ pInfo.sessions, Open st s) ∧
    st.assertionFailed = false ∧
    ∀ answers, (pushNotifications os answers st).2.assertionFailed = false ∧
      ∀ d ∈ (pushNotifications os answers st).1, Open st d.session := by
  have atRest := reachable.atRest
  have registry := atRest.consistent.registry
  have noted := atRest.consistent.noted
  refine ⟨noted.needs,?_,?_,noted.alive,?_⟩
  · intro k s member
    rcases registry.watched.mem_holders.mp member with direct | ⟨p,watched,_⟩
    · exact open_of_watchedKeys direct
    · exact open_of_watchedPatterns watched
  · intro p pInfo found s member
    exact open_of_watchedPatterns (((registry.cached.each p pInfo found).sessions s).mp member)
  · intro answers
    obtain ⟨resting,_,_,_,delivered⟩ := pushNotifications_spec atRest answers
    exact ⟨resting.consistent.noted.alive,delivered⟩

/-- The session has been told of a change it has not been notified of yet. -/
theorem no_dangling_sessions_pending :
    (Runs.run (step literal) {} watchTwice).needsNotification = [5] ∧
      Open (Runs.run (step literal) {} watchTwice) 5 := by
  have pending : (Runs.run (step literal) {} watchTwice).needsNotification = [5] := by decide
  exact ⟨pending,(no_dangling_sessions watchTwice_reachable).1 5 (by rw [pending]; simp)⟩

end FreebsdLaunchd.DynamicStore
