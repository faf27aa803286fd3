import FreebsdLaunchd.DynamicStore.Watchers
import FreebsdLaunchd.Library.Keyed

/-! The cached patterns. Each is watched by the sessions that registered it and
lists the keys that match it; a key that enters or leaves the lists takes the
references of the sessions with it, and so does a session that registers or
withdraws a pattern. -/
namespace FreebsdLaunchd.DynamicStore
open State

variable {Regex : Type} (os : Platform Regex)

theorem lookup_insert_ite {β : Type} (m : AList fun _ : CFString => β) (p q : CFString) (b : β) :
    (m.insert p b).lookup q = if q = p then some b else m.lookup q := by
  by_cases same : q = p
  · subst q
    simp
  · simp [same,AList.lookup_insert_ne same]

theorem lookup_erase_ite {β : Type} (m : AList fun _ : CFString => β) (p q : CFString) :
    (m.erase p).lookup q = if q = p then none else m.lookup q := by
  by_cases same : q = p
  · subst q
    simp
  · simp [same,AList.lookup_erase_ne same]

/-! ## The sessions -/

structure Table (st : State Regex) : Prop where
  distinct : (st.live.map StorePrivate.server).Nodup
  nonzero : ∀ x ∈ st.live, x.server ≠ 0
  keys : ∀ x ∈ st.live, x.keys.Nodup
  patterns : ∀ x ∈ st.live, x.patterns.Nodup

def Open (st : State Regex) (s : Int) : Prop := ∃ x ∈ st.live, x.server = s

namespace Table

variable {st : State Regex}

theorem find (table : Table st) {x : StorePrivate} (member : x ∈ st.live) :
    st.live.find? (fun y => y.server = x.server) = some x :=
  Keyed.find_mem table.distinct member

theorem deref (table : Table st) {x : StorePrivate} (member : x ∈ st.live) :
    st.deref x.server = x := by
  simp [State.deref,table.find member]

end Table

theorem deref_of_closed {st : State Regex} {s : Int} (closed : ¬ Open st s) :
    st.deref s = { server := s } := by
  have absent : st.live.find? (fun y => y.server = s) = none := by
    apply List.find?_eq_none.mpr
    intro y member
    simpa using fun same => closed ⟨y,member,same⟩
  simp [State.deref,absent]

theorem deref_server (st : State Regex) (s : Int) : (st.deref s).server = s := by
  unfold State.deref
  cases found : st.live.find? fun y => y.server = s with
  | none => rfl
  | some y => simpa using List.find?_some found

private theorem deref_mem {st : State Regex} {s : Int} (isOpen : Open st s) : st.deref s ∈ st.live := by
  unfold State.deref
  cases found : st.live.find? fun y => y.server = s with
  | none =>
    obtain ⟨x,member,same⟩ := isOpen
    exact absurd (List.find?_eq_none.mp found x member) (by simp [same])
  | some y => exact List.mem_of_find?_eq_some found

theorem Table.watchedKeys {st : State Regex} (table : Table st) (s : Int) : (st.watchedKeys s).Nodup := by
  by_cases isOpen : Open st s
  · exact table.keys _ (deref_mem isOpen)
  · simp [State.watchedKeys,deref_of_closed isOpen]

theorem Table.watchedPatterns {st : State Regex} (table : Table st) (s : Int) :
    (st.watchedPatterns s).Nodup := by
  by_cases isOpen : Open st s
  · exact table.patterns _ (deref_mem isOpen)
  · simp [State.watchedPatterns,deref_of_closed isOpen]

theorem SameValues.table {st st' : State Regex} (same : SameValues st st') (table : Table st) : Table st' := by
  refine ⟨?_,?_,?_,?_⟩ <;> rw [same.live]
  · exact table.distinct
  · exact table.nonzero
  · exact table.keys
  · exact table.patterns

/-! ## The cache -/

def matchesPattern (pattern key : CFString) : Prop :=
  ∃ pRegex, patternCompile os pattern = some pRegex ∧ keyMatchesPattern os key pRegex = true

/-- The keys the cached lists are about: those with data, and those whose
removal has still to reach the lists. -/
def Present (st : State Regex) (key : CFString) : Prop :=
  (st.entry key).data.isSome ∨ key ∈ st.deferredRemovals

structure CachedPattern (st : State Regex) (present : CFString → Prop) (pattern : CFString)
    (pInfo : PatternInfo Regex) : Prop where
  compiled : patternCompile os pattern = some pInfo.regex
  distinctKeys : pInfo.keys.Nodup
  distinctSessions : pInfo.sessions.Nodup
  sessions : ∀ s, s ∈ pInfo.sessions ↔ pattern ∈ st.watchedPatterns s
  keys : ∀ key, key ∈ pInfo.keys ↔ matchesPattern os pattern key ∧ present key

/-- The cached lists hold the `present` keys that match. -/
structure Cached (st : State Regex) (present : CFString → Prop) : Prop where
  each : ∀ pattern pInfo, st.patternData.lookup pattern = some pInfo →
    CachedPattern os st present pattern pInfo
  watched : ∀ pattern pInfo, st.patternData.lookup pattern = some pInfo → pInfo.sessions ≠ []
  registered : ∀ s, ∀ pattern ∈ st.watchedPatterns s, pattern ∈ st.patternData

theorem matchesPattern_iff {pattern : CFString} {pRegex : Regex}
    (compiled : patternCompile os pattern = some pRegex) (key : CFString) :
    matchesPattern os pattern key ↔ keyMatchesPattern os key pRegex = true := by
  constructor
  · rintro ⟨other,same,hit⟩
    rw [compiled] at same
    rw [Option.some.inj same]
    exact hit
  · exact fun hit => ⟨pRegex,compiled,hit⟩

theorem cachedKeys_of_lookup {st : State Regex} {pattern : CFString} {pInfo : PatternInfo Regex}
    (found : st.patternData.lookup pattern = some pInfo) : st.cachedKeys pattern = pInfo.keys := by
  simp [State.cachedKeys,found]

variable {os} {present : CFString → Prop}

theorem Cached.mem_cachedKeys {st : State Regex} (cached : Cached os st present)
    {pattern key : CFString} :
    key ∈ st.cachedKeys pattern ↔
      pattern ∈ st.patternData ∧ matchesPattern os pattern key ∧ present key := by
  cases found : st.patternData.lookup pattern with
  | none =>
    have absent := AList.lookup_eq_none.mp found
    simp [State.cachedKeys,found,absent]
  | some pInfo =>
    have member : pattern ∈ st.patternData := AList.lookup_isSome.mp (by simp [found])
    rw [cachedKeys_of_lookup found]
    simpa [member] using (cached.each pattern pInfo found).keys key

/-- A session's count on a key, for the keys its patterns can reach. -/
theorem Watched.mem_holders_iff {st : State Regex} (watched : Watched st)
    (cached : Cached os st present) {s : Int} {key : CFString} (here : present key) :
    s ∈ (st.entry key).refs.holders ↔
      key ∈ st.watchedKeys s ∨ ∃ p ∈ st.watchedPatterns s, matchesPattern os p key := by
  rw [watched.mem_holders]
  apply or_congr_right
  apply exists_congr
  intro p
  apply and_congr_right
  intro member
  rw [cached.mem_cachedKeys]
  simp [cached.registered s p member,here]

/-! ## A key enters or leaves a list -/

private theorem countP_gain {α : Type} {l : List α} (distinct : l.Nodup) {q q' : α → Bool} {a : α}
    (before : q a = false) (after : q' a = true) (other : ∀ x, x ≠ a → q' x = q x) [DecidableEq α] :
    l.countP q' = l.countP q + if a ∈ l then 1 else 0 := by
  induction l with
  | nil => rfl
  | cons x rest ih =>
    have apart := List.nodup_cons.mp distinct
    rw [List.countP_cons,List.countP_cons,ih apart.2]
    by_cases same : x = a
    · subst x
      simp [before,after,apart.1]
    · have elsewhere : ¬ a = x := fun equal => same equal.symm
      simp [other x same,elsewhere]
      omega

private theorem reasons_gain {st : State Regex} (st' : State Regex) (table : Table st)
    (sessions : st'.sessions = st.sessions) (pattern key : CFString) (before : key ∉ st.cachedKeys pattern)
    (after : ∀ k, k ∈ st'.cachedKeys pattern ↔ k ∈ st.cachedKeys pattern ∨ k = key)
    (other : ∀ q, q ≠ pattern → st'.cachedKeys q = st.cachedKeys q) (s : Int) (k : CFString) :
    st'.reasons s k = st.reasons s k + if pattern ∈ st.watchedPatterns s ∧ k = key then 1 else 0 := by
  have derefs : st'.deref s = st.deref s := by simp [State.deref,State.live,sessions]
  have keys : st'.watchedKeys s = st.watchedKeys s := by simp [State.watchedKeys,derefs]
  have patterns : st'.watchedPatterns s = st.watchedPatterns s := by simp [State.watchedPatterns,derefs]
  rw [State.reasons_eq,State.reasons_eq,State.listing_eq,State.listing_eq,keys,patterns]
  by_cases here : k = key
  · subst k
    rw [countP_gain (table.watchedPatterns s) (q := fun p => key ∈ st.cachedKeys p) (a := pattern)]
    · by_cases member : pattern ∈ st.watchedPatterns s <;> simp [member,Nat.add_assoc]
    · simpa using before
    · simp [after]
    · intro q apart
      simp [other q apart]
  · simp only [here,and_false,if_false,Nat.add_zero]
    congr 1
    apply List.countP_congr
    intro q _
    by_cases apart : q = pattern
    · subst q
      simp [after,here]
    · simp [other q apart]

abbrev PatternItem (Regex : Type) := Sigma fun _ : CFString => PatternInfo Regex

/-- An item of `patternData` that lists its watching sessions. -/
structure Current (st : State Regex) (item : PatternItem Regex) : Prop where
  found : st.patternData.lookup item.1 = some item.2
  distinct : item.2.sessions.Nodup
  sessions : ∀ s, s ∈ item.2.sessions ↔ item.1 ∈ st.watchedPatterns s

theorem Cached.current {st : State Regex} (cached : Cached os st present) {item : PatternItem Regex}
    (member : item ∈ st.patternData.entries) : Current st item := by
  have found : st.patternData.lookup item.1 = some item.2 := by
    apply AList.mem_lookup_iff.mpr
    exact member
  have sound := cached.each _ _ found
  exact ⟨found,sound.distinctSessions,sound.sessions⟩

/-- One pass over the patterns, each of which is visited once and replaced. -/
theorem fold_items {f : State Regex → PatternItem Regex → State Regex}
    {update : PatternInfo Regex → PatternInfo Regex} {Fit : PatternInfo Regex → Prop}
    (same : ∀ st item, SameValues st (f st item))
    (data : ∀ st item, st.patternData.lookup item.1 = some item.2 → ∀ q,
      (f st item).patternData.lookup q =
        if q = item.1 then some (update item.2) else st.patternData.lookup q)
    (keeps : ∀ st item, Table st → Watched st → Current st item → Fit item.2 → Watched (f st item))
    (items : List (PatternItem Regex)) (distinct : (items.map Sigma.fst).Nodup) {st : State Regex}
    (table : Table st) (watched : Watched st) (current : ∀ item ∈ items, Current st item)
    (fit : ∀ item ∈ items, Fit item.2) :
    Watched (items.foldl f st) ∧ ∀ q, (items.foldl f st).patternData.lookup q =
      if q ∈ items.map Sigma.fst then (st.patternData.lookup q).map update
      else st.patternData.lookup q := by
  induction items generalizing st with
  | nil => simpa using watched
  | cons item rest ih =>
    obtain ⟨apart,distinctRest⟩ := List.nodup_cons.mp distinct
    have first := current item List.mem_cons_self
    have changed := data st item first.found
    have kept := same st item
    have later := ih distinctRest (kept.table table)
      (keeps st item table watched first (fit item List.mem_cons_self))
      (by
        intro other member
        have old := current other (List.mem_cons_of_mem _ member)
        have elsewhere : other.1 ≠ item.1 := fun equal =>
          apart (equal ▸ List.mem_map_of_mem member)
        refine ⟨?_,old.distinct,?_⟩
        · rw [changed,if_neg elsewhere]
          exact old.found
        · intro s
          rw [State.watchedPatterns,kept.deref]
          exact old.sessions s)
      (fun other member => fit other (List.mem_cons_of_mem _ member))
    refine ⟨later.1,?_⟩
    intro q
    rw [List.foldl_cons,later.2 q,changed]
    by_cases here : q = item.1
    · subst q
      have listed : item.1 ∈ (item::rest).map Sigma.fst := by simp
      rw [if_neg apart,if_pos rfl,if_pos listed,first.found]
      rfl
    · simp only [List.map_cons,List.mem_cons,here,false_or,if_false]

variable (os)

def PatternInfo.withKey (key : CFString) (pInfo : PatternInfo Regex) : PatternInfo Regex :=
  if keyMatchesPattern os key pInfo.regex then { pInfo with keys := pInfo.keys ++ [key] } else pInfo

def PatternInfo.withoutKey (key : CFString) (pInfo : PatternInfo Regex) : PatternInfo Regex :=
  { pInfo with keys := pInfo.keys.erase key }

def State.setPattern (st : State Regex) (pattern : CFString) (pInfo : PatternInfo Regex) : State Regex :=
  { st with patternData := st.patternData.insert pattern pInfo }

theorem sameValues_setPattern (st : State Regex) (pattern : CFString) (pInfo : PatternInfo Regex) :
    SameValues st (st.setPattern pattern pInfo) :=
  ⟨fun _ => rfl,fun _ => rfl,rfl,rfl,rfl,rfl,rfl,rfl,rfl⟩

@[simp] theorem refCount_setPattern (st : State Regex) (pattern : CFString) (pInfo : PatternInfo Regex)
    (s : Int) (k : CFString) : (st.setPattern pattern pInfo).refCount s k = st.refCount s k := rfl

theorem lookup_setPattern (st : State Regex) (pattern q : CFString) (pInfo : PatternInfo Regex) :
    (st.setPattern pattern pInfo).patternData.lookup q =
      if q = pattern then some pInfo else st.patternData.lookup q :=
  lookup_insert_ite st.patternData pattern q pInfo

private theorem cachedKeys_setPattern (st : State Regex) (pattern q : CFString) (pInfo : PatternInfo Regex) :
    (st.setPattern pattern pInfo).cachedKeys q =
      if q = pattern then pInfo.keys else st.cachedKeys q := by
  simp only [State.cachedKeys,lookup_setPattern]
  split <;> rfl

private theorem addKeyForPattern_eq (key : CFString) (st : State Regex) (item : PatternItem Regex) :
    addKeyForPattern os key st item =
      if keyMatchesPattern os key item.2.regex then
        (retainAll (item.2.sessions.map fun s => (s,key)) st).setPattern item.1
          { item.2 with keys := item.2.keys ++ [key] }
      else st := by
  simp only [addKeyForPattern,retainAll,List.foldl_map,State.setPattern]

private theorem removeKeyFromPattern_eq (key : CFString) (st : State Regex) (item : PatternItem Regex) :
    removeKeyFromPattern key st item =
      if key ∈ item.2.keys then
        (releaseAll (item.2.sessions.map fun s => (s,key)) st).setPattern item.1
          (item.2.withoutKey key)
      else st := by
  simp only [removeKeyFromPattern,releaseAll,List.foldl_map,PatternInfo.withoutKey,State.setPattern]

private theorem sameValues_addKeyForPattern (key : CFString) (st : State Regex) (item : PatternItem Regex) :
    SameValues st (addKeyForPattern os key st item) := by
  rw [addKeyForPattern_eq]
  split
  · exact (sameValues_retainAll _ st).trans (sameValues_setPattern _ _ _)
  · exact .refl st

private theorem sameValues_removeKeyFromPattern (key : CFString) (st : State Regex) (item : PatternItem Regex) :
    SameValues st (removeKeyFromPattern key st item) := by
  rw [removeKeyFromPattern_eq]
  split
  · exact (sameValues_releaseAll _ st).trans (sameValues_setPattern _ _ _)
  · exact .refl st

private theorem lookup_addKeyForPattern (key : CFString) (st : State Regex) (item : PatternItem Regex)
    (found : st.patternData.lookup item.1 = some item.2) (q : CFString) :
    (addKeyForPattern os key st item).patternData.lookup q =
      if q = item.1 then some (item.2.withKey os key) else st.patternData.lookup q := by
  rw [addKeyForPattern_eq,PatternInfo.withKey]
  split
  · rw [lookup_setPattern,patternData_retainAll]
  · by_cases here : q = item.1
    · subst q
      simp [found]
    · simp [here]

private theorem lookup_removeKeyFromPattern (key : CFString) (st : State Regex) (item : PatternItem Regex)
    (found : st.patternData.lookup item.1 = some item.2) (q : CFString) :
    (removeKeyFromPattern key st item).patternData.lookup q =
      if q = item.1 then some (item.2.withoutKey key) else st.patternData.lookup q := by
  rw [removeKeyFromPattern_eq]
  split
  · rw [lookup_setPattern,patternData_releaseAll]
  · rename_i absent
    have kept : item.2.withoutKey key = item.2 := by
      simp [PatternInfo.withoutKey,List.erase_of_not_mem absent]
    by_cases here : q = item.1
    · subst q
      simp [found,kept]
    · simp [here]

private theorem watched_addKeyForPattern {key : CFString} {st : State Regex} {item : PatternItem Regex}
    (table : Table st) (watched : Watched st) (current : Current st item)
    (fresh : key ∉ item.2.keys) : Watched (addKeyForPattern os key st item) := by
  rw [addKeyForPattern_eq]
  split
  swap
  · exact watched
  · let pairs := item.2.sessions.map fun s => (s,key)
    refine ⟨valid_retainAll pairs watched.valid,?_⟩
    intro s k
    have before : st.cachedKeys item.1 = item.2.keys := cachedKeys_of_lookup current.found
    have kept (q : CFString) : (retainAll pairs st).cachedKeys q = st.cachedKeys q := by
      rw [State.cachedKeys,patternData_retainAll,State.cachedKeys]
    have gained := reasons_gain ((retainAll pairs st).setPattern item.1
        { item.2 with keys := item.2.keys ++ [key] })
      table (sameValues_retainAll pairs st).sessions item.1 key
      (before ▸ fresh) (by
        intro k
        rw [cachedKeys_setPattern,if_pos rfl,before]
        simp)
      (by
        intro q apart
        rw [cachedKeys_setPattern,if_neg apart,kept]) s k
    rw [refCount_setPattern,refCount_retainAll pairs watched.valid,watched.counts,
      count_sessions_key current.distinct,gained]
    simp [current.sessions]

private theorem watched_removeKeyFromPattern {key : CFString} {st : State Regex} {item : PatternItem Regex}
    (table : Table st) (watched : Watched st) (current : Current st item)
    (distinct : item.2.keys.Nodup) : Watched (removeKeyFromPattern key st item) := by
  rw [removeKeyFromPattern_eq]
  split
  swap
  · exact watched
  · rename_i listed
    let pairs := item.2.sessions.map fun s => (s,key)
    have before : st.cachedKeys item.1 = item.2.keys := cachedKeys_of_lookup current.found
    have kept (q : CFString) : (releaseAll pairs st).cachedKeys q = st.cachedKeys q := by
      rw [State.cachedKeys,patternData_releaseAll,State.cachedKeys]
    have enough (t : Int) (k : CFString) : (pairs.count (t,k) : Int) ≤ st.refCount t k := by
      rw [count_sessions_key current.distinct]
      split
      · rename_i due
        have holder : t ∈ (st.entry k).refs.holders := by
          rw [watched.mem_holders]
          refine .inr ⟨item.1,(current.sessions t).mp due.1,?_⟩
          rw [before,due.2]
          exact listed
        exact RefCounts.count_pos (watched.valid k) holder
      · exact RefCounts.count_nonneg (watched.valid k) t
    have moved := (sameValues_releaseAll pairs st).trans
      (sameValues_setPattern _ item.1 (item.2.withoutKey key))
    refine ⟨valid_releaseAll pairs watched.valid,?_⟩
    intro s k
    -- read backwards, the step lets the key into the list again
    have gained := reasons_gain st (moved.table table) moved.sessions.symm item.1 key (by
        rw [cachedKeys_setPattern,if_pos rfl]
        exact List.Nodup.not_mem_erase distinct)
      (by
        intro k
        rw [cachedKeys_setPattern,if_pos rfl,before]
        by_cases here : k = key
        · subst k
          simpa using listed
        · simp [PatternInfo.withoutKey,here,List.mem_erase_of_ne here])
      (by
        intro q apart
        rw [cachedKeys_setPattern,if_neg apart,kept]) s k
    rw [refCount_setPattern,refCount_releaseAll pairs watched.valid enough,watched.counts,
      count_sessions_key current.distinct,gained]
    have patterns : (((releaseAll pairs st).setPattern item.1 (item.2.withoutKey key)).watchedPatterns s) =
        st.watchedPatterns s := by
      rw [State.watchedPatterns,moved.deref,State.watchedPatterns]
    simp [current.sessions,patterns]
    rfl

private theorem distinct_items (m : AList fun _ : CFString => PatternInfo Regex) :
    ((os.order _ m.entries).map Sigma.fst).Nodup := by
  have keys : (m.entries.map Sigma.fst).Nodup := m.keys_nodup
  exact ((os.order_perm _ m.entries).map Sigma.fst).nodup_iff.mpr keys

private theorem mem_items {m : AList fun _ : CFString => PatternInfo Regex} {item : PatternItem Regex} :
    item ∈ os.order _ m.entries ↔ item ∈ m.entries :=
  (os.order_perm _ m.entries).mem_iff

private theorem mem_item_keys {m : AList fun _ : CFString => PatternInfo Regex} {q : CFString} :
    q ∈ (os.order _ m.entries).map Sigma.fst ↔ q ∈ m :=
  ((os.order_perm _ m.entries).map Sigma.fst).mem_iff

/-- Every item of the dictionary is visited, whatever the order. -/
theorem fold_all_items {f : State Regex → PatternItem Regex → State Regex}
    {update : PatternInfo Regex → PatternInfo Regex} (Fit : PatternInfo Regex → Prop)
    (same : ∀ st item, SameValues st (f st item))
    (data : ∀ st item, st.patternData.lookup item.1 = some item.2 → ∀ q,
      (f st item).patternData.lookup q =
        if q = item.1 then some (update item.2) else st.patternData.lookup q)
    (keeps : ∀ st item, Table st → Watched st → Current st item → Fit item.2 → Watched (f st item))
    {st : State Regex} (table : Table st) (watched : Watched st)
    (cached : Cached os st present) (fit : ∀ p pInfo, st.patternData.lookup p = some pInfo → Fit pInfo) :
    Watched ((os.order _ st.patternData.entries).foldl f st) ∧ ∀ q,
      ((os.order _ st.patternData.entries).foldl f st).patternData.lookup q =
        (st.patternData.lookup q).map update := by
  have pass := fold_items same data keeps _ (distinct_items os st.patternData) table watched
    (fun item member => cached.current ((mem_items os).mp member))
    (fun item member => fit item.1 item.2 (cached.current ((mem_items os).mp member)).found)
  refine ⟨pass.1,?_⟩
  intro q
  rw [pass.2 q]
  split
  · rfl
  · rename_i absent
    rw [AList.lookup_eq_none.mpr (fun member => absent ((mem_item_keys os).mpr member))]
    rfl

theorem sameValues_patternAddKey (key : CFString) (st : State Regex) :
    SameValues st (patternAddKey os key st) := by
  unfold patternAddKey
  exact .foldl (sameValues_addKeyForPattern os key) _ st

theorem sameValues_patternRemoveKey (key : CFString) (st : State Regex) :
    SameValues st (patternRemoveKey os key st) := by
  unfold patternRemoveKey
  exact .foldl (sameValues_removeKeyFromPattern key) _ st

variable {os} {st : State Regex}

theorem patternAddKey_spec (table : Table st) (watched : Watched st)
    (cached : Cached os st present) {key : CFString} (fresh : ¬ present key) :
    Watched (patternAddKey os key st) ∧ ∀ q,
      (patternAddKey os key st).patternData.lookup q =
        (st.patternData.lookup q).map (PatternInfo.withKey os key) := by
  apply fold_all_items os fun pInfo => key ∉ pInfo.keys
  · exact sameValues_addKeyForPattern os key
  · exact lookup_addKeyForPattern os key
  · exact fun st item => watched_addKeyForPattern os
  · exact table
  · exact watched
  · exact cached
  · intro p pInfo found member
    exact fresh (((cached.each p pInfo found).keys key).mp member).2

theorem patternRemoveKey_spec (table : Table st) (watched : Watched st)
    (cached : Cached os st present) (key : CFString) :
    Watched (patternRemoveKey os key st) ∧ ∀ q,
      (patternRemoveKey os key st).patternData.lookup q =
        (st.patternData.lookup q).map (PatternInfo.withoutKey key) := by
  apply fold_all_items os fun pInfo => pInfo.keys.Nodup
  · exact sameValues_removeKeyFromPattern key
  · exact lookup_removeKeyFromPattern key
  · exact fun st item => watched_removeKeyFromPattern
  · exact table
  · exact watched
  · exact cached
  · exact fun p pInfo found => (cached.each p pInfo found).distinctKeys

end FreebsdLaunchd.DynamicStore
