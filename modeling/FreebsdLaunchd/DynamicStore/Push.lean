import FreebsdLaunchd.DynamicStore.Registration

/-! The push. Every session watching a changed key finds the key in its list
once, the keys taken out of the store leave the cached patterns, and the keys
that are temporary no longer leave their sessions' lists. -/
namespace FreebsdLaunchd.DynamicStore
open State

variable {Regex : Type} {os : Platform Regex}

/-! ## Names of sessions and of removed session keys -/

private theorem digit_of_mem {n : Nat} {c : Char} (member : c ∈ Nat.toDigits 10 n) : c.isDigit :=
  Nat.isDigit_of_mem_toDigits (by decide) (by decide) member

private theorem colon_not_mem_sessionKey (n : Int) : ':' ∉ sessionKey n := by
  intro member
  cases n with
  | ofNat n => exact absurd (digit_of_mem member) (by decide)
  | negSucc n =>
    rcases List.mem_cons.mp member with sign | digit
    · exact absurd sign (by decide)
    · exact absurd (digit_of_mem digit) (by decide)

theorem sessionKey_injective : Function.Injective sessionKey := by
  have value {m n : Nat} (same : Nat.toDigits 10 m = Nat.toDigits 10 n) : m = n := by
    rw [← Nat.ofDigitChars_ten_toDigits (n := m),same,Nat.ofDigitChars_ten_toDigits]
  have unsigned {m n : Nat} (same : Nat.toDigits 10 m = '-' :: Nat.toDigits 10 n) : False := by
    have digit := digit_of_mem (same ▸ List.mem_cons_self : '-' ∈ Nat.toDigits 10 m)
    exact absurd digit (by decide)
  intro a b same
  cases a with
  | ofNat a =>
    cases b with
    | ofNat b => exact congrArg Int.ofNat (value same)
    | negSucc b => exact (unsigned same).elim
  | negSucc a =>
    cases b with
    | ofNat b => exact (unsigned same.symm).elim
    | negSucc b =>
      have tails := (List.cons.inj same).2
      rw [Nat.succ.inj (value tails)]

/-- The record of a removed session key is read back as it was written. -/
theorem removedSessionKey_parts (n : Int) (key : CFString) :
    (removedSessionKey (sessionKey n) key).takeWhile (· ≠ ':') = sessionKey n ∧
      ((removedSessionKey (sessionKey n) key).dropWhile (· ≠ ':')).drop 1 = key := by
  have plain : ∀ c ∈ sessionKey n, decide (c ≠ ':') = true := by
    intro c member
    have other : c ≠ ':' := by
      rintro rfl
      exact colon_not_mem_sessionKey n member
    simpa using other
  constructor
  · rw [removedSessionKey,List.takeWhile_append_of_pos plain]
    simp
  · rw [removedSessionKey,List.dropWhile_append_of_pos plain]
    simp

theorem removedSessionKey_injective {m n : Int} {k l : CFString}
    (same : removedSessionKey (sessionKey m) k = removedSessionKey (sessionKey n) l) : m = n ∧ k = l := by
  have left := removedSessionKey_parts m k
  have right := removedSessionKey_parts n l
  rw [same] at left
  exact ⟨sessionKey_injective (left.1.symm.trans right.1),left.2.symm.trans right.2⟩

/-! ## Session information -/

namespace State

variable (st : State Regex)

def sessionKeysOf (session : CFString) : List CFString := (st.info session).sessionKeys.getD []

def changesOf (session : CFString) : List CFString := (st.info session).changedKeys.getD []

end State

theorem info_insert (st : State Regex) (session z : CFString) (i : SessionInfo) :
    ({ st with sessionData := st.sessionData.insert session i }).info z =
      if z = session then i else st.info z := by
  simp only [State.info,lookup_insert_ite]
  split <;> rfl

theorem SessionInfo.eq_empty_of_count {i : SessionInfo} (none : ¬ i.count > 0) : i = {} := by
  obtain ⟨name,sessionKeys,changedKeys⟩ := i
  cases name <;> cases sessionKeys <;> cases changedKeys <;> simp [SessionInfo.count] at none ⊢

theorem info_put (st : State Regex) (session z : CFString) (i : SessionInfo) :
    ({ st with sessionData := if i.count > 0 then st.sessionData.insert session i
                              else st.sessionData.erase session }).info z =
      if z = session then i else st.info z := by
  by_cases some : i.count > 0
  · simp only [some,if_true]
    exact info_insert st session z i
  · simp only [some,if_false,State.info,lookup_erase_ite]
    by_cases same : z = session
    · simp [same,SessionInfo.eq_empty_of_count some]
    · simp [same]

/-! ## Notices -/

/-- `_notifyWatchers` for each pair of a changed key and a session watching it. -/
def tellAll (pairs : List (CFString × Int)) (st : State Regex) : State Regex :=
  pairs.foldl (fun st p => notifyWatcher p.1 st p.2) st

private theorem info_notifyWatcher (key : CFString) (st : State Regex) (w : Int) (z : CFString) :
    (notifyWatcher key st w).info z =
      if z = sessionKey w then { st.info z with changedKeys := some (
        if key ∈ st.changesOf z then st.changesOf z else st.changesOf z ++ [key]) }
      else st.info z := by
  have inserted := info_insert { st with needsNotification := st.needsNotification.insert w }
    (sessionKey w) z { st.info (sessionKey w) with changedKeys := some (
      if key ∈ st.changesOf (sessionKey w) then st.changesOf (sessionKey w)
      else st.changesOf (sessionKey w) ++ [key]) }
  change _ = if z = sessionKey w then _ else st.info z at inserted
  refine Eq.trans ?_ (inserted.trans ?_)
  · rfl
  · by_cases here : z = sessionKey w
    · subst here
      rfl
    · simp only [here,if_false]

/-- The two states agree except for the changes noted for sessions. -/
structure SameButNotices (st st' : State Regex) : Prop where
  storeData : st'.storeData = st.storeData
  patternData : st'.patternData = st.patternData
  changedKeys : st'.changedKeys = st.changedKeys
  deferredRemovals : st'.deferredRemovals = st.deferredRemovals
  removedSessionKeys : st'.removedSessionKeys = st.removedSessionKeys
  sessions : st'.sessions = st.sessions
  assertionFailed : st'.assertionFailed = st.assertionFailed
  name : ∀ z, (st'.info z).name = (st.info z).name
  sessionKeys : ∀ z, st'.sessionKeysOf z = st.sessionKeysOf z

private theorem sameButNotices_notifyWatcher (key : CFString) (st : State Regex) (w : Int) :
    SameButNotices st (notifyWatcher key st w) where
  storeData := rfl
  patternData := rfl
  changedKeys := rfl
  deferredRemovals := rfl
  removedSessionKeys := rfl
  sessions := rfl
  assertionFailed := rfl
  name z := by
    rw [info_notifyWatcher]
    split <;> rfl
  sessionKeys z := by
    rw [State.sessionKeysOf,info_notifyWatcher]
    split <;> rfl

theorem sameButNotices_tellAll (pairs : List (CFString × Int)) (st : State Regex) :
    SameButNotices st (tellAll pairs st) := by
  induction pairs generalizing st with
  | nil => exact ⟨rfl,rfl,rfl,rfl,rfl,rfl,rfl,fun _ => rfl,fun _ => rfl⟩
  | cons p rest ih =>
    have first := sameButNotices_notifyWatcher p.1 st p.2
    have later := ih (notifyWatcher p.1 st p.2)
    exact ⟨later.storeData.trans first.storeData,later.patternData.trans first.patternData,
      later.changedKeys.trans first.changedKeys,later.deferredRemovals.trans first.deferredRemovals,
      later.removedSessionKeys.trans first.removedSessionKeys,later.sessions.trans first.sessions,
      later.assertionFailed.trans first.assertionFailed,fun z => (later.name z).trans (first.name z),
      fun z => (later.sessionKeys z).trans (first.sessionKeys z)⟩

private theorem mem_changesOf_notifyWatcher (key : CFString) (st : State Regex) (w : Int) (z k : CFString) :
    k ∈ (notifyWatcher key st w).changesOf z ↔ k ∈ st.changesOf z ∨ z = sessionKey w ∧ k = key := by
  rw [State.changesOf,info_notifyWatcher]
  by_cases here : z = sessionKey w
  · simp only [here,if_true,Option.getD_some,true_and]
    split
    · rename_i member
      constructor
      · exact .inl
      · rintro (old | rfl)
        · exact old
        · exact member
    · simp
  · simp only [here,if_false,false_and,or_false]
    rfl

private theorem nodup_changesOf_notifyWatcher (key : CFString) (st : State Regex) (w : Int) (z : CFString)
    (distinct : (st.changesOf z).Nodup) : ((notifyWatcher key st w).changesOf z).Nodup := by
  rw [State.changesOf,info_notifyWatcher]
  by_cases here : z = sessionKey w
  · simp only [here,if_true,Option.getD_some]
    rw [here] at distinct
    split
    · exact distinct
    · rename_i absent
      simpa using distinct.concat absent
  · simp only [here,if_false]
    exact distinct

theorem mem_changesOf_tellAll (pairs : List (CFString × Int)) (st : State Regex) (s : Int) (k : CFString) :
    k ∈ (tellAll pairs st).changesOf (sessionKey s) ↔
      k ∈ st.changesOf (sessionKey s) ∨ (k,s) ∈ pairs := by
  induction pairs generalizing st with
  | nil => simp [tellAll]
  | cons p rest ih =>
    change k ∈ (tellAll rest (notifyWatcher p.1 st p.2)).changesOf (sessionKey s) ↔ _
    rw [ih,mem_changesOf_notifyWatcher,sessionKey_injective.eq_iff,List.mem_cons,or_assoc,
      Prod.ext_iff,and_comm]

theorem nodup_changesOf_tellAll (pairs : List (CFString × Int)) (st : State Regex)
    (distinct : ∀ z, (st.changesOf z).Nodup) (z : CFString) : ((tellAll pairs st).changesOf z).Nodup := by
  induction pairs generalizing st with
  | nil => exact distinct z
  | cons p rest ih =>
    exact ih _ fun z => nodup_changesOf_notifyWatcher p.1 st p.2 z (distinct z)

theorem mem_needs_tellAll (pairs : List (CFString × Int)) (st : State Regex) (s : Int) :
    s ∈ (tellAll pairs st).needsNotification ↔
      s ∈ st.needsNotification ∨ ∃ k, (k,s) ∈ pairs := by
  induction pairs generalizing st with
  | nil => simp [tellAll]
  | cons p rest ih =>
    have first : (notifyWatcher p.1 st p.2).needsNotification = st.needsNotification.insert p.2 := rfl
    change s ∈ (tellAll rest (notifyWatcher p.1 st p.2)).needsNotification ↔ _
    rw [ih,first,List.mem_insert_iff]
    constructor
    · rintro ((rfl | old) | ⟨k,member⟩)
      · exact .inr ⟨p.1,List.mem_cons_self⟩
      · exact .inl old
      · exact .inr ⟨k,List.mem_cons_of_mem _ member⟩
    · rintro (old | ⟨k,member⟩)
      · exact .inl (.inr old)
      · rcases List.mem_cons.mp member with rfl | later
        · exact .inl (.inl rfl)
        · exact .inr ⟨k,later⟩

theorem nodup_needs_tellAll (pairs : List (CFString × Int)) (st : State Regex)
    (distinct : st.needsNotification.Nodup) : (tellAll pairs st).needsNotification.Nodup := by
  induction pairs generalizing st with
  | nil => exact distinct
  | cons p rest ih => exact ih _ (distinct.insert (a := p.2))

theorem mem_sessionData_tellAll (pairs : List (CFString × Int)) (st : State Regex) (z : CFString) :
    z ∈ (tellAll pairs st).sessionData ↔
      z ∈ st.sessionData ∨ ∃ p ∈ pairs, z = sessionKey p.2 := by
  induction pairs generalizing st with
  | nil => simp [tellAll]
  | cons p rest ih =>
    have first : z ∈ (notifyWatcher p.1 st p.2).sessionData ↔ z = sessionKey p.2 ∨ z ∈ st.sessionData :=
      AList.mem_insert _
    change z ∈ (tellAll rest (notifyWatcher p.1 st p.2)).sessionData ↔ _
    rw [ih,first]
    constructor
    · rintro ((here | old) | ⟨q,member,there⟩)
      · exact .inr ⟨p,List.mem_cons_self,here⟩
      · exact .inl old
      · exact .inr ⟨q,List.mem_cons_of_mem _ member,there⟩
    · rintro (old | ⟨q,member,there⟩)
      · exact .inl (.inr old)
      · rcases List.mem_cons.mp member with rfl | later
        · exact .inl (.inl there)
        · exact .inr ⟨q,later,there⟩

private theorem notifyKey_eq (st : State Regex) (key : CFString) :
    notifyKey st key = tellAll ((st.entry key).refs.holders.reverse.map fun w => (key,w)) st := by
  rw [tellAll,List.foldl_map]
  unfold notifyKey
  cases found : st.storeData.lookup key with
  | none => simp [entry_of_absent found,Entry.refs]
  | some dict =>
    rw [entry_of_lookup found]
    cases watching : dict.watchers with
    | none => simp [watching,Entry.refs]
    | some watchers => simp [watching,Entry.refs]

private theorem tellAll_append (pairs more : List (CFString × Int)) (st : State Regex) :
    tellAll (pairs ++ more) st = tellAll more (tellAll pairs st) := by
  simp [tellAll]

def notices (os : Platform Regex) (st : State Regex) : List (CFString × Int) :=
  (os.order _ st.changedKeys).reverse.flatMap fun key =>
    (st.entry key).refs.holders.reverse.map fun w => (key,w)

theorem notifyWatchers_eq (st : State Regex) :
    notifyWatchers os st = { tellAll (notices os st) st with changedKeys := [] } := by
  have loop (keys : List CFString) (st' : State Regex) (same : st'.storeData = st.storeData) :
      keys.foldl notifyKey st' = tellAll (keys.flatMap fun key =>
        (st.entry key).refs.holders.reverse.map fun w => (key,w)) st' := by
    induction keys generalizing st' with
    | nil => rfl
    | cons key rest ih =>
      have entry : st'.entry key = st.entry key := by rw [State.entry,same,State.entry]
      rw [List.foldl_cons,notifyKey_eq,entry,List.flatMap_cons,tellAll_append]
      exact ih _ ((sameButNotices_tellAll _ st').storeData.trans same)
  rw [notifyWatchers,notices,loop _ st rfl]

theorem mem_notices {st : State Regex} {key : CFString} {s : Int} :
    (key,s) ∈ notices os st ↔ key ∈ st.changedKeys ∧ s ∈ (st.entry key).refs.holders := by
  simp only [notices,List.mem_flatMap,List.mem_reverse,(os.order_perm _ st.changedKeys).mem_iff,
    List.mem_map,Prod.mk.injEq]
  constructor
  · rintro ⟨k,changed,w,holder,rfl,rfl⟩
    exact ⟨changed,holder⟩
  · rintro ⟨changed,holder⟩
    exact ⟨key,changed,s,holder,rfl,rfl⟩

/-! ## Deferred removals -/

private theorem cached_patternRemoveKey {st : State Regex} {present : CFString → Prop} (table : Table st)
    (watched : Watched st) (cached : Cached os st present) (key : CFString) :
    Cached os (patternRemoveKey os key st) fun k => present k ∧ k ≠ key := by
  have data := (patternRemoveKey_spec table watched cached key).2
  have same := sameValues_patternRemoveKey os key st
  have patterns (s : Int) : (patternRemoveKey os key st).watchedPatterns s = st.watchedPatterns s := by
    rw [State.watchedPatterns,same.deref,State.watchedPatterns]
  refine ⟨?_,?_,?_⟩
  · intro p pInfo found
    rw [data] at found
    obtain ⟨old,known,rfl⟩ := Option.map_eq_some_iff.mp found
    have sound := cached.each p old known
    refine ⟨sound.compiled,sound.distinctKeys.erase key,sound.distinctSessions,?_,?_⟩
    · intro s
      rw [patterns]
      exact sound.sessions s
    · intro k
      rw [PatternInfo.withoutKey,sound.distinctKeys.mem_erase_iff,sound.keys]
      tauto
  · intro p pInfo found
    rw [data] at found
    obtain ⟨old,known,rfl⟩ := Option.map_eq_some_iff.mp found
    exact cached.watched p old known
  · intro s p member
    rw [patterns] at member
    have known := AList.lookup_isSome.mpr (cached.registered s p member)
    apply AList.lookup_isSome.mp
    rw [data]
    simpa using known

theorem foldl_patternRemoveKey {st : State Regex} {present : CFString → Prop} (table : Table st)
    (watched : Watched st) (cached : Cached os st present) (keys : List CFString) :
    Watched (keys.foldl (fun st key => patternRemoveKey os key st) st) ∧
      Cached os (keys.foldl (fun st key => patternRemoveKey os key st) st)
        fun k => present k ∧ k ∉ keys := by
  induction keys generalizing st present with
  | nil => simpa using ⟨watched,cached⟩
  | cons key rest ih =>
    have later := ih ((sameValues_patternRemoveKey os key st).table table)
      (patternRemoveKey_spec table watched cached key).1 (cached_patternRemoveKey table watched cached key)
    refine ⟨later.1,?_⟩
    have same : (fun k => (present k ∧ k ≠ key) ∧ k ∉ rest) = fun k => present k ∧ k ∉ key::rest := by
      funext k
      simp [and_assoc]
    exact same ▸ later.2

/-! ## Session keys that were removed -/

theorem cleanup_eq (st : State Regex) (n : Int) (key : CFString) :
    cleanupRemovedSessionKeys st (removedSessionKey (sessionKey n) key) =
      dropSessionKey (sessionKey n) key st := by
  obtain ⟨session,rest⟩ := removedSessionKey_parts n key
  rw [cleanupRemovedSessionKeys,session,rest]

def SessionInfo.without (i : SessionInfo) (key : CFString) : SessionInfo :=
  match i.sessionKeys with
  | none => i
  | some keys =>
    if !keys.contains key then i
    else if keys.length = 1 then { i with sessionKeys := none }
    else { i with sessionKeys := some (keys.erase key) }

private theorem info_dropSessionKey (session key z : CFString) (st : State Regex) :
    (dropSessionKey session key st).info z =
      if z = session then (st.info z).without key else st.info z := by
  have kept (same : (st.info session).without key = st.info session) :
      st.info z = if z = session then (st.info z).without key else st.info z := by
    split
    · rename_i here
      rw [here,same]
    · rfl
  unfold dropSessionKey
  cases found : st.sessionData.lookup session with
  | none =>
    apply kept
    simp [State.info,found,SessionInfo.without]
  | some dict =>
    have info : st.info session = dict := by simp [State.info,found]
    cases keys : dict.sessionKeys with
    | none =>
      simp only [keys]
      apply kept
      simp [info,SessionInfo.without,keys]
    | some sessionKeys =>
      by_cases member : key ∈ sessionKeys
      · simp only [keys,member,not_true_eq_false,if_false]
        rw [info_insert]
        split
        · rename_i here
          rw [here,info,SessionInfo.without,keys]
          simp [member]
        · rfl
      · simp only [keys,member,not_false_eq_true,if_true]
        apply kept
        simp [info,SessionInfo.without,keys,member]

private theorem without_sessionKeys (i : SessionInfo) (key : CFString) :
    (i.without key).sessionKeys.getD [] = (i.sessionKeys.getD []).erase key := by
  unfold SessionInfo.without
  cases keys : i.sessionKeys with
  | none => simp [keys]
  | some sessionKeys =>
    by_cases member : key ∈ sessionKeys
    · simp only [List.contains_iff_mem.mpr member,Bool.not_true,Bool.false_eq_true,if_false,
        Option.getD_some]
      split
      · rename_i single
        obtain ⟨only,rfl⟩ := List.length_eq_one_iff.mp single
        rw [List.mem_singleton.mp member]
        simp
      · rfl
    · simp [member,keys,List.erase_of_not_mem member]

private theorem without_fields (i : SessionInfo) (key : CFString) :
    (i.without key).name = i.name ∧ (i.without key).changedKeys = i.changedKeys := by
  unfold SessionInfo.without
  split
  · exact ⟨rfl,rfl⟩
  · split
    · exact ⟨rfl,rfl⟩
    · split <;> exact ⟨rfl,rfl⟩

private theorem dropSessionKey_eq (session key : CFString) (st : State Regex) :
    dropSessionKey session key st =
      { st with sessionData := (dropSessionKey session key st).sessionData } := by
  unfold dropSessionKey
  split
  · rfl
  · split
    · rfl
    · split <;> rfl

private theorem mem_sessionData_dropSessionKey (session key z : CFString) (st : State Regex) :
    z ∈ (dropSessionKey session key st).sessionData ↔ z ∈ st.sessionData := by
  unfold dropSessionKey
  cases found : st.sessionData.lookup session with
  | none => rfl
  | some dict =>
    have known : session ∈ st.sessionData := AList.lookup_isSome.mp (by simp [found])
    cases keys : dict.sessionKeys with
    | none => simp only [keys]
    | some sessionKeys =>
      by_cases member : key ∈ sessionKeys
      · simp only [keys,member,not_true_eq_false,if_false,AList.mem_insert]
        constructor
        · rintro (rfl | old)
          · exact known
          · exact old
        · exact .inr
      · simp only [keys,member,not_false_eq_true,if_true]

/-- The two states agree except for the lists of the sessions' keys. -/
structure SameButLists (st st' : State Regex) : Prop where
  storeData : st'.storeData = st.storeData
  patternData : st'.patternData = st.patternData
  changedKeys : st'.changedKeys = st.changedKeys
  deferredRemovals : st'.deferredRemovals = st.deferredRemovals
  removedSessionKeys : st'.removedSessionKeys = st.removedSessionKeys
  needsNotification : st'.needsNotification = st.needsNotification
  sessions : st'.sessions = st.sessions
  assertionFailed : st'.assertionFailed = st.assertionFailed
  name : ∀ z, (st'.info z).name = (st.info z).name
  changes : ∀ z, st'.changesOf z = st.changesOf z
  known : ∀ z, z ∈ st'.sessionData ↔ z ∈ st.sessionData

private theorem sameButLists_dropSessionKey (session key : CFString) (st : State Regex) :
    SameButLists st (dropSessionKey session key st) := by
  have equation := dropSessionKey_eq session key st
  refine ⟨?_,?_,?_,?_,?_,?_,?_,?_,?_,?_,fun z => mem_sessionData_dropSessionKey session key z st⟩
  iterate 8 rw [equation]
  · intro z
    rw [info_dropSessionKey]
    split
    · exact (without_fields _ key).1
    · rfl
  · intro z
    rw [State.changesOf,info_dropSessionKey,State.changesOf]
    split
    · rw [(without_fields _ key).2]
    · rfl

theorem sessionKeysOf_dropSessionKey (session key z : CFString) (st : State Regex) :
    (dropSessionKey session key st).sessionKeysOf z =
      if z = session then (st.sessionKeysOf z).erase key else st.sessionKeysOf z := by
  rw [State.sessionKeysOf,info_dropSessionKey]
  split
  · exact without_sessionKeys _ key
  · rfl

theorem SameButLists.trans {a b c : State Regex} (first : SameButLists a b) (second : SameButLists b c) :
    SameButLists a c where
  storeData := second.storeData.trans first.storeData
  patternData := second.patternData.trans first.patternData
  changedKeys := second.changedKeys.trans first.changedKeys
  deferredRemovals := second.deferredRemovals.trans first.deferredRemovals
  removedSessionKeys := second.removedSessionKeys.trans first.removedSessionKeys
  needsNotification := second.needsNotification.trans first.needsNotification
  sessions := second.sessions.trans first.sessions
  assertionFailed := second.assertionFailed.trans first.assertionFailed
  name z := (second.name z).trans (first.name z)
  changes z := (second.changes z).trans (first.changes z)
  known z := (second.known z).trans (first.known z)

theorem foldl_cleanup (l : List CFString)
    (records : ∀ r ∈ l, ∃ n k, r = removedSessionKey (sessionKey n) k) (st : State Regex)
    (distinct : ∀ z, (st.sessionKeysOf z).Nodup) :
    SameButLists st (l.foldl cleanupRemovedSessionKeys st) ∧
      (∀ z, ((l.foldl cleanupRemovedSessionKeys st).sessionKeysOf z).Nodup) ∧
      ∀ s k, k ∈ (l.foldl cleanupRemovedSessionKeys st).sessionKeysOf (sessionKey s) ↔
        k ∈ st.sessionKeysOf (sessionKey s) ∧ removedSessionKey (sessionKey s) k ∉ l := by
  induction l generalizing st with
  | nil => exact ⟨⟨rfl,rfl,rfl,rfl,rfl,rfl,rfl,rfl,fun _ => rfl,fun _ => rfl,fun _ => Iff.rfl⟩,
      distinct,by simp⟩
  | cons r rest ih =>
    obtain ⟨n,key,rfl⟩ := records r List.mem_cons_self
    have step := cleanup_eq st n key
    have lists (z : CFString) := sessionKeysOf_dropSessionKey (sessionKey n) key z st
    have later := ih (fun r member => records r (List.mem_cons_of_mem _ member))
      (dropSessionKey (sessionKey n) key st) (by
        intro z
        rw [lists]
        split
        · exact (distinct z).erase key
        · exact distinct z)
    rw [List.foldl_cons,step]
    refine ⟨(sameButLists_dropSessionKey _ key st).trans later.1,later.2.1,?_⟩
    intro s k
    rw [later.2.2,lists,List.mem_cons]
    simp only [sessionKey_injective.eq_iff]
    by_cases here : s = n
    · subst here
      rw [if_pos rfl,(distinct _).mem_erase_iff]
      have record : removedSessionKey (sessionKey s) k = removedSessionKey (sessionKey s) key ↔ k = key :=
        ⟨fun same => (removedSessionKey_injective same).2,fun same => by rw [same]⟩
      rw [record]
      tauto
    · have apart : removedSessionKey (sessionKey s) k ≠ removedSessionKey (sessionKey n) key :=
        fun same => here (removedSessionKey_injective same).1
      simp [here,apart]

/-! ## States that agree on watchers, patterns and sessions -/

theorem entry_of_eq {st st' : State Regex} (storeData : st'.storeData = st.storeData) (k : CFString) :
    st'.entry k = st.entry k := by rw [State.entry,storeData,State.entry]

theorem Watched.of_views {st st' : State Regex} (watched : Watched st)
    (refs : ∀ k, (st'.entry k).refs = (st.entry k).refs) (patternData : st'.patternData = st.patternData)
    (keys : ∀ s, st'.watchedKeys s = st.watchedKeys s)
    (patterns : ∀ s, st'.watchedPatterns s = st.watchedPatterns s) : Watched st' := by
  refine ⟨?_,?_⟩
  · intro k
    rw [refs]
    exact watched.valid k
  · intro s k
    have counted : st'.refCount s k = st.refCount s k := by rw [State.refCount,refs,State.refCount]
    have listed (l : List CFString) : st'.listing l k = st.listing l k := by
      apply listing_congr
      intro p _
      rw [State.cachedKeys,patternData,State.cachedKeys]
    rw [counted,watched.counts,State.reasons_eq,State.reasons_eq,keys,patterns,listed]

theorem Watched.of_refs {st st' : State Regex} (watched : Watched st)
    (refs : ∀ k, (st'.entry k).refs = (st.entry k).refs) (patternData : st'.patternData = st.patternData)
    (sessions : st'.sessions = st.sessions) : Watched st' := by
  have derefs (s : Int) : st'.deref s = st.deref s := by simp [State.deref,State.live,sessions]
  apply watched.of_views refs patternData
  · intro s
    rw [State.watchedKeys,derefs,State.watchedKeys]
  · intro s
    rw [State.watchedPatterns,derefs,State.watchedPatterns]

theorem Watched.of_eq {st st' : State Regex} (watched : Watched st)
    (storeData : st'.storeData = st.storeData) (patternData : st'.patternData = st.patternData)
    (sessions : st'.sessions = st.sessions) : Watched st' :=
  watched.of_refs (fun k => by rw [entry_of_eq storeData]) patternData sessions

theorem Cached.of_eq {st st' : State Regex} {present : CFString → Prop} (cached : Cached os st present)
    (patternData : st'.patternData = st.patternData) (sessions : st'.sessions = st.sessions) :
    Cached os st' present := by
  apply cached.of_patterns patternData
  intro s
  simp [State.watchedPatterns,State.deref,State.live,sessions]

theorem Table.of_eq {st st' : State Regex} (table : Table st) (sessions : st'.sessions = st.sessions) :
    Table st' := by
  have live : st'.live = st.live := by rw [State.live,sessions,State.live]
  refine ⟨?_,?_,?_,?_⟩ <;> rw [live]
  · exact table.distinct
  · exact table.nonzero
  · exact table.keys
  · exact table.patterns

end FreebsdLaunchd.DynamicStore
