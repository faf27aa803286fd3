import FreebsdLaunchd.DynamicStore.Bookkeeping
import FreebsdLaunchd.Library.Enrolment

/-! A session replaces the keys and patterns it watches. The request goes
through the keys and then through the patterns; it stops at the first new one
that is asked for twice or does not compile, and what it has done by then
stays. -/
namespace FreebsdLaunchd.DynamicStore
open State Enrolment CData

variable {Regex : Type} {os : Platform Regex} {st st' : State Regex} {n : Int}

def State.registered (st : State Regex) (s : Int) (isRegex : Bool) : List CFString :=
  (st.deref s).registered isRegex

variable (os) in
structure Reregistered (n : Int) (isRegex : Bool) (mine : List CFString) (st st' : State Regex) : Prop where
  keeps : KeepsRegistry os st st'
  mine : st'.registered n isRegex = mine
  others : ∀ s kind, s ≠ n ∨ kind ≠ isRegex → st'.registered s kind = st.registered s kind

theorem Reregistered.refl (registry : Registry os st) (isRegex : Bool) :
    Reregistered os n isRegex (st.registered n isRegex) st st :=
  ⟨⟨registry,.refl st⟩,rfl,fun _ _ _ => rfl⟩

theorem Reregistered.trans {isRegex : Bool} {between mine : List CFString} {a b c : State Regex}
    (first : Reregistered os n isRegex between a b) (second : Reregistered os n isRegex mine b c) :
    Reregistered os n isRegex mine a c :=
  ⟨first.keeps.trans second.keeps,second.mine,
    fun s kind other => (second.others s kind other).trans (first.others s kind other)⟩

/-! ## One name -/

private theorem reregistered_keys {mine : List CFString} (keeps : KeepsRegistry os st st')
    (derefs : ∀ s, st'.deref s = if s = n then { st.deref n with keys := mine } else st.deref s) :
    Reregistered os n false mine st st' := by
  refine ⟨keeps,by simp [State.registered,derefs,StorePrivate.registered],?_⟩
  intro s kind other
  rw [State.registered,derefs,State.registered]
  split
  · next here =>
    have patterns : kind = true := by simpa [here] using other
    simp [patterns,here,StorePrivate.registered]
  · rfl

theorem Rewatched.reregistered {pattern : CFString} {mine : List CFString} {record : Option (PatternInfo Regex)}
    (rewatched : Rewatched n pattern mine record st st') (keeps : KeepsRegistry os st st') :
    Reregistered os n true mine st st' := by
  refine ⟨keeps,?_,?_⟩
  · have patterns := rewatched.patterns n
    rwa [if_pos rfl] at patterns
  · intro s kind other
    cases kind with
    | false => exact rewatched.keys s
    | true =>
      have apart : s ≠ n := other.resolve_right (by simp)
      have patterns := rewatched.patterns s
      rwa [if_neg apart] at patterns

theorem removeWatchedKey_spec (registry : Registry os st) (isOpen : Open st n) {key : CFString} {isRegex : Bool}
    (known : key ∈ st.registered n isRegex) : (removeWatchedKey n key isRegex st).1 = .ok ∧
      Reregistered os n isRegex ((st.registered n isRegex).erase key) st (removeWatchedKey n key isRegex st).2 := by
  have keeps := removeWatchedKey_registry registry isOpen key isRegex
  simp only [removeWatchedKey,deref_server] at keeps ⊢
  cases isRegex with
  | false =>
    have known : key ∈ (st.deref n).keys := known
    simp only [known,if_false,Bool.false_eq_true,not_true_eq_false] at keeps ⊢
    refine ⟨trivial,reregistered_keys keeps fun s => ?_⟩
    rw [(sameValues_removeWatcher n key _).deref]
    exact deref_modify (f := dropKeyFrom key) (fun _ => rfl) isOpen s
  | true =>
    have known : key ∈ (st.deref n).patterns := known
    simp only [known,if_false,if_true,not_true_eq_false] at keeps ⊢
    obtain ⟨pInfo,found⟩ := Option.isSome_iff_exists.mp
      (AList.lookup_isSome.mpr (registry.cached.registered n key known))
    exact ⟨trivial,(rewatched_unwatchPattern found isOpen).reregistered keeps⟩

variable (os) in
def Compiles (pattern : CFString) : Bool := (patternCompile os pattern).isSome

def accepts (os : Platform Regex) (isRegex : Bool) (name : CFString) : Bool := !isRegex || Compiles os name

private theorem patternCopy_isSome (registry : Registry os st) (pattern : CFString) :
    (patternCopy os pattern st).isSome = Compiles os pattern := by
  unfold patternCopy Compiles
  cases found : st.patternData.lookup pattern with
  | some pInfo => simp [(registry.cached.each pattern pInfo found).compiled]
  | none =>
    unfold patternNew
    cases patternCompile os pattern <;> rfl

theorem addWatchedKey_known {key : CFString} {isRegex : Bool} (known : key ∈ st.registered n isRegex) :
    addWatchedKey os n key isRegex st = (.keyExists,st) := by
  cases isRegex with
  | false =>
    have known : key ∈ (st.deref n).keys := known
    simp [addWatchedKey,known]
  | true =>
    have known : key ∈ (st.deref n).patterns := known
    simp [addWatchedKey,known]

theorem addWatchedKey_refused (registry : Registry os st) {key : CFString} {isRegex : Bool}
    (new : key ∉ st.registered n isRegex) (refused : accepts os isRegex key = false) :
    addWatchedKey os n key isRegex st = (.invalidArgument,st) := by
  cases isRegex with
  | false => simp [accepts] at refused
  | true =>
    have new : key ∉ (st.deref n).patterns := new
    have none : patternCopy os key st = none := by
      rw [← Option.not_isSome_iff_eq_none,patternCopy_isSome registry]
      simpa [accepts] using refused
    simp [addWatchedKey,new,patternAddSession,none]

theorem addWatchedKey_spec (registry : Registry os st) (settled : st.deferredRemovals = []) (isOpen : Open st n)
    {key : CFString} {isRegex : Bool} (new : key ∉ st.registered n isRegex) (accepted : accepts os isRegex key = true) :
    (addWatchedKey os n key isRegex st).1 = .ok ∧
      Reregistered os n isRegex (st.registered n isRegex ++ [key]) st (addWatchedKey os n key isRegex st).2 := by
  have keeps := addWatchedKey_registry registry settled isOpen key isRegex
  simp only [addWatchedKey,deref_server] at keeps ⊢
  cases isRegex with
  | false =>
    have new : key ∉ (st.deref n).keys := new
    have moved := sameValues_addWatcher n key st
    simp only [new,if_false,Bool.false_eq_true] at keeps ⊢
    refine ⟨trivial,reregistered_keys keeps fun s => ?_⟩
    have derefs := deref_modify (f := addKeyTo key) (fun _ => rfl) ((moved.sameStore.opened n).mpr isOpen) s
    rw [moved.deref,moved.deref] at derefs
    exact derefs
  | true =>
    have new : key ∉ (st.deref n).patterns := new
    simp only [new,if_false,if_true,patternAddSession] at keeps ⊢
    obtain ⟨pInfo,copied⟩ : ∃ pInfo, patternCopy os key st = some pInfo := by
      rw [← Option.isSome_iff_exists,patternCopy_isSome registry]
      simpa [accepts] using accepted
    simp only [copied] at keeps ⊢
    have rewatched := rewatched_watchPattern isOpen key pInfo
    simp only [watchPattern,retainAll,List.foldl_map,State.setPattern] at rewatched
    exact ⟨trivial,rewatched.reregistered keeps⟩

/-! ## One kind of names -/

private theorem foldl_removeOldKey_halted {wanted : List CFString} {isRegex : Bool} {context : Status × State Regex}
    (failed : context.1 ≠ .ok) (l : List CFString) :
    l.foldl (removeOldKey n wanted isRegex) context = context := by
  induction l with
  | nil => rfl
  | cons key rest ih => rwa [List.foldl_cons,removeOldKey,if_pos failed]

private theorem foldl_addNewKey_halted {old : List CFString} {isRegex : Bool} {context : Status × State Regex}
    (failed : context.1 ≠ .ok) (l : List CFString) :
    l.foldl (addNewKey os n old isRegex) context = context := by
  induction l with
  | nil => rfl
  | cons key rest ih => rwa [List.foldl_cons,addNewKey,if_pos failed]

private theorem updateKeys_halted {wanted : List CFString} {isRegex : Bool} {context : Status × State Regex}
    (failed : context.1 ≠ .ok) : updateKeys os n wanted isRegex context = context := by
  rw [updateKeys,foldl_removeOldKey_halted failed,foldl_addNewKey_halted failed]

/-- The names no longer wanted leave one by one; `done` has been gone through. -/
theorem foldl_removeOldKey_spec (wanted : List CFString) (isRegex : Bool) (rest done : List CFString)
    (registry : Registry os st) (isOpen : Open st n) (list : st.registered n isRegex = done ++ rest)
    (distinct : (done ++ rest).Nodup) :
    (rest.foldl (removeOldKey n wanted isRegex) (.ok,st)).1 = .ok ∧
      Reregistered os n isRegex (done ++ retained rest wanted) st
        (rest.foldl (removeOldKey n wanted isRegex) (.ok,st)).2 := by
  induction rest generalizing done st with
  | nil =>
    have unchanged := Reregistered.refl (n := n) registry isRegex
    rw [list] at unchanged
    exact ⟨rfl,unchanged⟩
  | cons key rest ih =>
    rw [List.foldl_cons]
    by_cases kept : key ∈ wanted
    · have skip : removeOldKey n wanted isRegex (.ok,st) key = (.ok,st) := by simp [removeOldKey,kept]
      have more := ih (done ++ [key]) registry isOpen (by simp [list]) (by simpa using distinct)
      rw [skip]
      simpa [retained,kept] using more
    · have drop : removeOldKey n wanted isRegex (.ok,st) key = removeWatchedKey n key isRegex st := by
        simp [removeOldKey,kept]
      have known : key ∈ st.registered n isRegex := by simp [list]
      obtain ⟨ok,dropped⟩ := removeWatchedKey_spec registry isOpen known
      have earlier : key ∉ done := fun before => (List.nodup_append.mp distinct).2.2 key before key (by simp) rfl
      have left : (done ++ key :: rest).erase key = done ++ rest := by
        rw [List.erase_append_right _ earlier,List.erase_cons_head]
      rw [list,left] at dropped
      have context : removeWatchedKey n key isRegex st = (.ok,(removeWatchedKey n key isRegex st).2) :=
        Prod.ext ok rfl
      rw [drop,context]
      have more := ih done dropped.keeps.1 ((dropped.keeps.2.opened n).mpr isOpen) dropped.mine
        (distinct.sublist ((List.sublist_cons_self key rest).append_left done))
      refine ⟨more.1,?_⟩
      simpa [retained,kept] using dropped.trans more.2

def statusOf : Outcome → Status
  | .entered => .ok
  | .present => .keyExists
  | .refused => .invalidArgument

theorem statusOf_ok {outcome : Outcome} : statusOf outcome = .ok ↔ outcome = .entered := by
  cases outcome <;> simp [statusOf]

private theorem foldl_addNewKey_spec (old : List CFString) (isRegex : Bool) (wanted : List CFString)
    (registry : Registry os st) (settled : st.deferredRemovals = []) (isOpen : Open st n) :
    (wanted.foldl (addNewKey os n old isRegex) (.ok,st)).1 =
        statusOf (enter (accepts os isRegex) (st.registered n isRegex) (fresh old wanted)).1 ∧
      Reregistered os n isRegex (enter (accepts os isRegex) (st.registered n isRegex) (fresh old wanted)).2 st
        (wanted.foldl (addNewKey os n old isRegex) (.ok,st)).2 := by
  induction wanted generalizing st with
  | nil => exact ⟨rfl,.refl registry isRegex⟩
  | cons key rest ih =>
    rw [List.foldl_cons]
    by_cases before : key ∈ old
    · have skip : addNewKey os n old isRegex (.ok,st) key = (.ok,st) := by simp [addNewKey,before]
      have same : fresh old (key::rest) = fresh old rest := by simp [fresh,before]
      rw [skip,same]
      exact ih registry settled isOpen
    · have add : addNewKey os n old isRegex (.ok,st) key = addWatchedKey os n key isRegex st := by
        simp [addNewKey,before]
      have first : fresh old (key::rest) = key :: fresh old rest := by simp [fresh,before]
      rw [add,first,enter]
      split
      · next known =>
        rw [addWatchedKey_known known,foldl_addNewKey_halted (by simp)]
        exact ⟨rfl,.refl registry isRegex⟩
      · next new =>
        split
        · next accepted =>
          obtain ⟨ok,added⟩ := addWatchedKey_spec registry settled isOpen new accepted
          have context : addWatchedKey os n key isRegex st = (.ok,(addWatchedKey os n key isRegex st).2) :=
            Prod.ext ok rfl
          rw [context]
          have more := ih added.keeps.1 (added.keeps.2.deferredRemovals.trans settled)
            ((added.keeps.2.opened n).mpr isOpen)
          rw [added.mine] at more
          exact ⟨more.1,added.trans more.2⟩
        · next refused =>
          rw [addWatchedKey_refused registry new (by simpa using refused),foldl_addNewKey_halted (by simp)]
          exact ⟨rfl,.refl registry isRegex⟩

theorem updateKeys_spec (wanted : List CFString) (isRegex : Bool) (registry : Registry os st)
    (settled : st.deferredRemovals = []) (isOpen : Open st n) :
    (updateKeys os n wanted isRegex (.ok,st)).1 =
        statusOf (replace (accepts os isRegex) (st.registered n isRegex) wanted).1 ∧
      Reregistered os n isRegex (replace (accepts os isRegex) (st.registered n isRegex) wanted).2 st
        (updateKeys os n wanted isRegex (.ok,st)).2 := by
  have distinct : (st.registered n isRegex).Nodup := by
    cases isRegex with
    | false => exact registry.table.watchedKeys n
    | true => exact registry.table.watchedPatterns n
  obtain ⟨ok,removed⟩ := foldl_removeOldKey_spec wanted isRegex (st.registered n isRegex) [] registry isOpen rfl distinct
  let context := (st.registered n isRegex).foldl (removeOldKey n wanted isRegex) (.ok,st)
  have eq : updateKeys os n wanted isRegex (.ok,st) =
      wanted.foldl (addNewKey os n (st.registered n isRegex) isRegex) context := rfl
  have context_eq : context = (.ok,context.2) := Prod.ext ok rfl
  rw [eq,context_eq]
  have added := foldl_addNewKey_spec (st.registered n isRegex) isRegex wanted removed.keeps.1
    (removed.keeps.2.deferredRemovals.trans settled) ((removed.keeps.2.opened n).mpr isOpen)
  rw [removed.mine] at added
  exact ⟨added.1,removed.trans added.2⟩

/-! ## The request -/

private theorem compiles_of_watched (registry : Registry os st) {p : CFString} (watched : p ∈ st.watchedPatterns n) :
    Compiles os p = true := by
  obtain ⟨pInfo,found⟩ := Option.isSome_iff_exists.mp
    (AList.lookup_isSome.mpr (registry.cached.registered n p watched))
  rw [Compiles,(registry.cached.each p pInfo found).compiled]
  rfl

private theorem replace_ok_iff {isRegex : Bool} {old wanted : List CFString} :
    statusOf (replace (accepts os isRegex) old wanted).1 = .ok ↔
      (fresh old wanted).Nodup ∧ ∀ name ∈ fresh old wanted, accepts os isRegex name = true :=
  statusOf_ok.trans replace_entered_iff

/-- A session that is not concerned counts on its keys as before. -/
theorem refCount_of_registered (registry : Registry os st) (registry' : Registry os st') (same : SameStore st st')
    {s : Int} (registered : ∀ kind, st'.registered s kind = st.registered s kind) (k : CFString) :
    st'.refCount s k = st.refCount s k := by
  have keys : st'.watchedKeys s = st.watchedKeys s := registered false
  have patterns : st'.watchedPatterns s = st.watchedPatterns s := registered true
  have listed : st'.listing (st.watchedPatterns s) k = st.listing (st.watchedPatterns s) k := by
    rw [State.listing_eq,State.listing_eq]
    apply List.countP_congr
    intro p member
    have known := registry.cached.registered s p member
    have known' := registry'.cached.registered s p (patterns ▸ member)
    simp [registry.cached.mem_cachedKeys,registry'.cached.mem_cachedKeys,known,known',same.present]
  rw [registry'.watched.counts,registry.watched.counts,State.reasons_eq,State.reasons_eq,keys,patterns,listed]

/-- Where the request stops: at a key, with the patterns as they were, or at a
pattern, with the keys replaced. What was entered before stays. -/
inductive Stopped (os : Platform Regex) (n : Int) (keys patterns : List CFString) (st st' : State Regex) : Prop
  | atKey (taken : List CFString)
      (keysNow : st'.watchedKeys n = retained (st.watchedKeys n) keys ++ taken)
      (halted : Halted (fun _ => true) (retained (st.watchedKeys n) keys) (fresh (st.watchedKeys n) keys) taken)
      (patternsNow : st'.watchedPatterns n = st.watchedPatterns n)
  | atPattern (taken : List CFString)
      (keysNow : ∀ k, k ∈ st'.watchedKeys n ↔ k ∈ keys)
      (patternsNow : st'.watchedPatterns n = retained (st.watchedPatterns n) patterns ++ taken)
      (halted : Halted (Compiles os) (retained (st.watchedPatterns n) patterns)
        (fresh (st.watchedPatterns n) patterns) taken)

structure OthersKept (n : Int) (st st' : State Regex) : Prop where
  keys : ∀ s, s ≠ n → st'.watchedKeys s = st.watchedKeys s
  patterns : ∀ s, s ≠ n → st'.watchedPatterns s = st.watchedPatterns s
  counts : ∀ s, s ≠ n → ∀ k, st'.refCount s k = st.refCount s k

private theorem othersKept (registry : Registry os st) (keeps : KeepsRegistry os st st')
    (registered : ∀ s, s ≠ n → ∀ kind, st'.registered s kind = st.registered s kind) : OthersKept n st st' where
  keys s other := registered s other false
  patterns s other := registered s other true
  counts _ other := refCount_of_registered registry keeps.1 keeps.2 (registered _ other)

/-- The request succeeds exactly if every pattern compiles and nothing new is asked
for twice. Then the session watches what was asked for; else the part before the
failure has been done. The counts agree with the registrations throughout. -/
theorem setNotificationKeys_outcome (reachable : Reachable os st) (isOpen : Open st n) (keys patterns : List CFString) :
    ((dynamicStoreSetNotificationKeys os n keys patterns st).1 = .ok ↔
      (∀ p ∈ patterns, Compiles os p = true) ∧ (fresh (st.watchedKeys n) keys).Nodup ∧
        (fresh (st.watchedPatterns n) patterns).Nodup) ∧
    ((dynamicStoreSetNotificationKeys os n keys patterns st).1 = .ok →
      (∀ k, k ∈ (dynamicStoreSetNotificationKeys os n keys patterns st).2.watchedKeys n ↔ k ∈ keys) ∧
        ∀ p, p ∈ (dynamicStoreSetNotificationKeys os n keys patterns st).2.watchedPatterns n ↔ p ∈ patterns) ∧
    ((dynamicStoreSetNotificationKeys os n keys patterns st).1 ≠ .ok →
      Stopped os n keys patterns st (dynamicStoreSetNotificationKeys os n keys patterns st).2) ∧
    (∀ s k, (dynamicStoreSetNotificationKeys os n keys patterns st).2.refCount s k =
      (dynamicStoreSetNotificationKeys os n keys patterns st).2.reasons s k) ∧
    OthersKept n st (dynamicStoreSetNotificationKeys os n keys patterns st).2 := by
  have atRest := reachable.atRest
  have registry := atRest.consistent.registry
  have settled := atRest.settled.deferred
  have keeps := setNotificationKeys_registry registry settled isOpen keys patterns
  obtain ⟨status,first⟩ := updateKeys_spec keys false registry settled isOpen
  have compile : (∀ p ∈ patterns, Compiles os p = true) ↔
      ∀ p ∈ fresh (st.watchedPatterns n) patterns, Compiles os p = true := by
    refine ⟨fun all p member => all p (mem_fresh.mp member).1,fun all p member => ?_⟩
    by_cases watched : p ∈ st.watchedPatterns n
    · exact compiles_of_watched registry watched
    · exact all p (mem_fresh.mpr ⟨member,watched⟩)
  by_cases entered : (replace (accepts os false) (st.registered n false) keys).1 = .entered
  · -- the keys are replaced, and the patterns decide
    have context : updateKeys os n keys false (.ok,st) = (.ok,(updateKeys os n keys false (.ok,st)).2) :=
      Prod.ext (status.trans (statusOf_ok.mpr entered)) rfl
    have call : dynamicStoreSetNotificationKeys os n keys patterns st =
        updateKeys os n patterns true (.ok,(updateKeys os n keys false (.ok,st)).2) := by
      rw [dynamicStoreSetNotificationKeys,← context]
    obtain ⟨status',second⟩ := updateKeys_spec patterns true first.keeps.1
      (first.keeps.2.deferredRemovals.trans settled) ((first.keeps.2.opened n).mpr isOpen)
    rw [← call] at status' second
    have before := first.others n true (.inr (by simp))
    rw [before] at status' second
    have keysNow (k : CFString) :
        k ∈ (dynamicStoreSetNotificationKeys os n keys patterns st).2.watchedKeys n ↔ k ∈ keys := by
      have kept : (dynamicStoreSetNotificationKeys os n keys patterns st).2.watchedKeys n = _ :=
        (second.others n false (.inr (by simp))).trans first.mine
      rw [kept]
      exact mem_replace entered k
    have patternsNow : (dynamicStoreSetNotificationKeys os n keys patterns st).2.watchedPatterns n = _ := second.mine
    refine ⟨?_,fun ok => ⟨keysNow,fun p => ?_⟩,fun failed => ?_,keeps.1.watched.counts,?_⟩
    · rw [status',replace_ok_iff,compile]
      have once := (replace_entered_iff.mp entered).1
      exact ⟨fun ⟨distinct,all⟩ => ⟨all,once,distinct⟩,fun ⟨all,_,distinct⟩ => ⟨distinct,all⟩⟩
    · rw [status',statusOf_ok] at ok
      rw [patternsNow]
      exact mem_replace ok p
    · rw [status',ne_eq,statusOf_ok] at failed
      obtain ⟨taken,list,halted⟩ := replace_halted failed
      exact .atPattern taken keysNow (patternsNow.trans list) halted
    · exact othersKept registry keeps fun s other kind =>
        (second.others s kind (.inl other)).trans (first.others s kind (.inl other))
  · -- a key is asked for twice, and nothing happens any more
    have failed : (updateKeys os n keys false (.ok,st)).1 ≠ .ok := by rwa [status,ne_eq,statusOf_ok]
    have call : dynamicStoreSetNotificationKeys os n keys patterns st = updateKeys os n keys false (.ok,st) :=
      updateKeys_halted failed
    obtain ⟨taken,list,halted⟩ := replace_halted entered
    have keyHalted : Halted (fun _ => true) (retained (st.watchedKeys n) keys) (fresh (st.watchedKeys n) keys) taken := halted
    refine ⟨⟨fun ok => absurd (call ▸ ok) failed,?_⟩,fun ok => absurd (call ▸ ok) failed,fun _ => ?_,
      keeps.1.watched.counts,?_⟩
    · rintro ⟨_,once,_⟩
      exact absurd (replace_entered_iff.mpr ⟨once,fun _ _ => rfl⟩) entered
    · rw [call]
      exact .atKey taken (first.mine.trans list) keyHalted (first.others n true (.inr (by simp)))
    · exact othersKept registry keeps fun s other kind => by rw [call]; exact first.others s kind (.inl other)

private theorem watchTwice_open : Open (Runs.run (step literal) {} watchTwice) 5 :=
  ⟨(Runs.run (step literal) {} watchTwice).deref 5,by decide,by decide⟩

theorem setNotificationKeys_outcome_twice :
    (dynamicStoreSetNotificationKeys literal 5 [] [['k'],['l']] (Runs.run (step literal) {} watchTwice)).1 = .ok ∧
      ∀ p, p ∈ (dynamicStoreSetNotificationKeys literal 5 [] [['k'],['l']]
        (Runs.run (step literal) {} watchTwice)).2.watchedPatterns 5 ↔ p ∈ [['k'],['l']] := by
  have outcome := setNotificationKeys_outcome watchTwice_reachable watchTwice_open [] [['k'],['l']]
  have ok := outcome.1.mpr (by decide)
  exact ⟨ok,(outcome.2.1 ok).2⟩

/-- Every pattern compiles, and yet the request fails and leaves the key that it
names twice watched. -/
theorem setNotificationKeys_not_atomic : ¬ ∀ (st : State CString) (n : Int) (keys patterns : List CFString),
    Reachable literal st → Open st n →
      ((dynamicStoreSetNotificationKeys literal n keys patterns st).1 = .ok →
        (∀ k, k ∈ (dynamicStoreSetNotificationKeys literal n keys patterns st).2.watchedKeys n ↔ k ∈ keys) ∧
          ∀ p, p ∈ (dynamicStoreSetNotificationKeys literal n keys patterns st).2.watchedPatterns n ↔ p ∈ patterns) ∧
      ((dynamicStoreSetNotificationKeys literal n keys patterns st).1 ≠ .ok →
        (dynamicStoreSetNotificationKeys literal n keys patterns st).2.watchedKeys n = st.watchedKeys n ∧
          (dynamicStoreSetNotificationKeys literal n keys patterns st).2.watchedPatterns n = st.watchedPatterns n ∧
          ∀ s k, (dynamicStoreSetNotificationKeys literal n keys patterns st).2.refCount s k = st.refCount s k) ∧
      ((∀ p ∈ patterns, Compiles literal p = true) →
        (dynamicStoreSetNotificationKeys literal n keys patterns st).1 = .ok) := by
  intro always
  have claimed := always (Runs.run (step literal) {} watchTwice) 5 [['l'],['l']] [] watchTwice_reachable
    watchTwice_open
  exact absurd (claimed.2.2 (by decide)) (by decide)

end FreebsdLaunchd.DynamicStore
