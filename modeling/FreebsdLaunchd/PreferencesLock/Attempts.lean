import FreebsdLaunchd.PreferencesLock.Links

/-! What an attempt to lock comes to, by either mechanism and through every label:
the session is locked and holds the lock, or it is not and holds nothing, but for a
stale session that has the lock by the key. -/
namespace FreebsdLaunchd.PreferencesLock
open World

variable {w w' : World} {id other : Nat} {wait ok : Bool} {faults : Faults}

/-! ## What an attempt to lock comes to -/

/-- The attempt of a session that was not locked: it is locked and holds the lock,
or it is not and holds it if it `leaks`. -/
structure Attempted (leaks : Prop) (id : Nat) (w w' : World) (ok : Bool) : Prop where
  linked : Linked w'
  others : ∀ other, other ≠ id → w'.sessions other = w.sessions other
  locked : ok = true → (w'.sessions id).locked = true ∧ Holding w' id
  failed : ok = false → (w'.sessions id).locked = false ∧ (Holding w' id ↔ leaks)

theorem Attempted.after {leaks : Prop} {w₁ : World} (attempted : Attempted leaks id w₁ w' ok)
    (others : ∀ other, other ≠ id → w₁.sessions other = w.sessions other) : Attempted leaks id w w' ok :=
  ⟨attempted.linked,fun other apart => (attempted.others other apart).trans (others other apart),attempted.locked,
    attempted.failed⟩

theorem Attempted.of_iff {leaks leaks' : Prop} (attempted : Attempted leaks id w w' ok) (same : leaks ↔ leaks') :
    Attempted leaks' id w w' ok :=
  ⟨attempted.linked,attempted.others,attempted.locked,fun failed =>
    ⟨(attempted.failed failed).1,(attempted.failed failed).2.trans same⟩⟩

private theorem error_attempted (id : Nat) (linked : Linked w) (unlocked : (w.sessions id).locked = false) :
    Attempted ((w.sessions id).sessionNoO_EXLOCK.isSome = true) id w (error w id).1 (error w id).2 := by
  have linked' := linked.closeLock id
  obtain ⟨flock,same⟩ := closeLock_frame w id
  refine ⟨linked',fun other apart => ?_,fun ok => (nomatch ok),fun _ => ⟨?_,?_⟩⟩
  · rw [error,same]
    exact Function.update_of_ne apart ..
  · rw [error,same]
    simpa using unlocked
  · rw [error,Holding,same]
    simp

def Stale (w : World) (id : Nat) (statFails : Bool) : Prop :=
  (w.sessions id).accessed = true ∧ (statFails = true ∨ (w.sessions id).signature ≠ w.file)

theorem stale_congr {statFails : Bool} (file : w'.file = w.file)
    (accessed : (w'.sessions id).accessed = (w.sessions id).accessed)
    (signature : (w'.sessions id).signature = (w.sessions id).signature) : Stale w' id statFails ↔ Stale w id statFails := by
  rw [Stale,Stale,file,accessed,signature]

theorem keyAdded_stale (w : World) (id : Nat) (statFails : Bool) :
    Stale (keyAdded w id) id statFails ↔ Stale w id statFails := by
  have session_ := keyAdded_session w id
  exact stale_congr rfl (by rw [session_]) (by rw [session_])

theorem keyMode_stale (w : World) (id : Nat) (statFails : Bool) :
    Stale (keyMode w id) id statFails ↔ Stale w id statFails := by
  have session_ := keyMode_session w id
  exact stale_congr rfl (by rw [session_]) (by rw [session_])

private theorem locked_attempted (id : Nat) (linked : Linked w) (unlocked : (w.sessions id).locked = false)
    (holding : Holding w id)
    (statFails : Bool) :
    Attempted (Stale w id statFails ∧ (w.sessions id).sessionNoO_EXLOCK.isSome = true) id w
      (locked w id statFails).1 (locked w id statFails).2 := by
  have body : PreferencesLock.locked w id statFails =
      if ((w.sessions id).accessed && (statFails || (w.sessions id).signature ≠ w.file)) = true then
        error {w with lockFile := none} id
      else (w.modify id fun prefs => {prefs with locked := true},true) := rfl
  rw [body]
  split
  · rename_i stale
    have stale' : Stale w id statFails := by simpa [Stale] using stale
    obtain ⟨linked',others,_,failed⟩ := error_attempted id linked.unlinked unlocked
    exact ⟨linked',others,fun ok => (nomatch ok),fun ok => ⟨(failed ok).1,(failed ok).2.trans
      ⟨fun own => ⟨stale',own⟩,And.right⟩⟩⟩
  · have linked' : Linked (w.modify id fun prefs => {prefs with locked := true}) := linked.modify ⟨rfl,rfl⟩
    refine ⟨linked',fun other apart => ?_,fun _ => ⟨?_,?_⟩,fun ok => (nomatch ok)⟩
    · exact Function.update_of_ne apart ..
    · simp
    · simpa [Holding] using holding

/-- Nothing in the dynamic store fails before the key is added. -/
def Faults.addsKey (faults : Faults) : Prop := faults.store = none ∨ faults.store = some .notifyWait

/-- By the key: it is added if it is free, and a stale session keeps it. -/
theorem lockByKey_attempted (linked : Linked w) (unlocked : (w.sessions id).locked = false) (free : ¬ Holding w id)
    (result : lockByKey w id wait faults = some (w',ok)) :
    Attempted (w.lockKey = none ∧ faults.addsKey ∧ Stale w id faults.stat) id w w' ok := by
  have closed : (w.sessions id).sessionNoO_EXLOCK = none := by
    cases own : (w.sessions id).sessionNoO_EXLOCK with
    | none => rfl
    | some session => exact absurd (.inr (by rw [own]; rfl)) free
  -- every way out without the key leaves the session with nothing
  have without {w₁ : World} (linked₁ : Linked w₁) (others : ∀ other, other ≠ id → w₁.sessions other = w.sessions other)
      (unlocked₁ : (w₁.sessions id).locked = false) (closed₁ : (w₁.sessions id).sessionNoO_EXLOCK = none)
      (no : ¬ (w.lockKey = none ∧ faults.addsKey)) (failed : some (error w₁ id) = some (w',ok)) :
      Attempted (w.lockKey = none ∧ faults.addsKey ∧ Stale w id faults.stat) id w w' ok := by
    have attempted := error_attempted id linked₁ unlocked₁
    rw [Option.some.inj failed,closed₁] at attempted
    exact (attempted.after others).of_iff (iff_of_false (fun own => nomatch own) fun all => no ⟨all.1,all.2.1⟩)
  have noKey {call : StoreCall} (fails : faults.store = some call) (early : call ≠ .notifyWait) :
      ¬ (w.lockKey = none ∧ faults.addsKey) := by
    rintro ⟨_,none_ | wait_⟩
    · rw [none_] at fails
      cases fails
    · exact early (Option.some.inj (fails.symm.trans wait_))
  have updated (prefs : PrefsPrivate) (other : Nat) (apart : other ≠ id) :
      Function.update w.sessions id prefs other = w.sessions other := Function.update_of_ne apart ..
  unfold lockByKey lockWithSCDynamicStore at result
  by_cases addSession : faults.store = some .addSession
  · rw [if_pos addSession] at result
    exact without linked (fun _ _ => rfl) unlocked closed (noKey addSession (by decide)) result
  · rw [if_neg addSession] at result
    by_cases addWatchedKey : faults.store = some .addWatchedKey
    · rw [if_pos addWatchedKey,releaseStore_none closed] at result
      exact without linked (fun _ _ => rfl) unlocked closed (noKey addWatchedKey (by decide)) result
    · rw [if_neg addWatchedKey] at result
      by_cases create : faults.store = some .create
      · rw [if_pos create] at result
        have linked' : Linked (w.modify id fun prefs => {prefs with sessionNoO_EXLOCK := none}) :=
          linked.modify ⟨rfl,closed.symm⟩
        exact without linked' (updated _) (by simpa using unlocked) (by simp) (noKey create (by decide)) result
      · rw [if_neg create] at result
        by_cases key : w.lockKey = none ∧ faults.store ≠ some .addTemporaryValue
        · have adds : faults.addsKey := by
            rcases key with ⟨_,early⟩
            unfold Faults.addsKey
            cases store : faults.store with
            | none => exact .inl rfl
            | some call => cases call <;> simp_all
          have result' : some (locked (keyAdded w id) id faults.stat) = some (w',ok) :=
            (congrArg (Option.map _) (if_pos key)).symm.trans result
          have added := keyAdded_session w id
          have attempted := locked_attempted id (linked.addKey id key.1) (by rw [added]; exact unlocked)
            (.inr (by rw [added]; rfl)) faults.stat
          rw [Option.some.inj result',keyAdded_stale] at attempted
          refine (attempted.after (updated _)).of_iff ⟨fun leaked => ⟨key.1,adds,leaked.1⟩,fun all => ⟨all.2.2,?_⟩⟩
          rw [added]
          rfl
        · have no : ¬ (w.lockKey = none ∧ faults.addsKey) := by
            rintro ⟨free_,adds⟩
            refine key ⟨free_,fun add => ?_⟩
            exact noKey add (by decide) ⟨free_,adds⟩
          by_cases gives_up : (!wait || decide (faults.store = some .notifyWait)) = true
          · have result' : some (error ((World.modify {w with nextSession := w.nextSession + 1} id fun prefs =>
                {prefs with sessionNoO_EXLOCK := some w.nextSession}).releaseStore id) id) = some (w',ok) :=
              (congrArg (Option.map _) ((if_neg key).trans (if_pos gives_up))).symm.trans result
            obtain ⟨lockKey,same⟩ := releaseStore_frame (World.modify {w with nextSession := w.nextSession + 1} id
              fun prefs => {prefs with sessionNoO_EXLOCK := some w.nextSession}) id
            refine without (linked.closeNew closed) (fun other apart => ?_) ?_ (releaseStore_closed ..) no result'
            · rw [same]
              simp [Function.update_of_ne apart]
            · rw [same]
              simpa using unlocked
          · have result' : none = some (w',ok) :=
              (congrArg (Option.map _) ((if_neg key).trans (if_neg gives_up))).symm.trans result
            cases result'

/-- Without `O_EXLOCK` the attempts come to the key. -/
def reachesKey : List Attempt → Bool
  | [] => false
  | attempt::rest =>
    match attempt.openFails with
    | none => true
    | some .ENOTSUP => true
    | some .ENOENT => attempt.parentCreated && reachesKey rest
    | some _ => false

private theorem not_holding (free : ¬ Holding w id) :
    (w.sessions id).lockFD = none ∧ (w.sessions id).sessionNoO_EXLOCK = none := by
  unfold Holding at free
  cases fd : (w.sessions id).lockFD with
  | some inode => simp [fd] at free
  | none =>
    cases own : (w.sessions id).sessionNoO_EXLOCK with
    | some session => simp [own] at free
    | none => exact ⟨rfl,rfl⟩

/-- Out of a failed attempt a session that held nothing holds nothing. -/
theorem failed_attempted {leaks : Prop} (linked : Linked w) (unlocked : (w.sessions id).locked = false)
    (closed : (w.sessions id).sessionNoO_EXLOCK = none) (no : ¬ leaks) (failed : some (error w id) = some (w',ok)) :
    Attempted leaks id w w' ok := by
  have attempted := error_attempted id linked unlocked
  rw [Option.some.inj failed,closed] at attempted
  exact attempted.of_iff (iff_of_false (fun own => nomatch own) no)

theorem openLock_unsupported (supported : w.hasO_EXLOCK = false) : openLock w wait none = (w,.fails .ENOTSUP) := by
  simp [openLock,supported]

theorem openLock_creates (supported : w.hasO_EXLOCK = true) (absent : w.lockFile = none) :
    openLock w wait none = ({w with lockFile := some w.nextInode, nextInode := w.nextInode + 1},.fd w.nextInode) := by
  simp [openLock,supported,absent]

theorem openLock_opens {inode : Nat} (supported : w.hasO_EXLOCK = true) (there : w.lockFile = some inode)
    (unlocked : w.flock inode = none) : openLock w wait none = (w,.fd inode) := by
  simp [openLock,supported,there,unlocked]

private theorem openLock_busy {inode : Nat} (supported : w.hasO_EXLOCK = true) (there : w.lockFile = some inode)
    (busy : w.flock inode ≠ none) :
    openLock w wait none = (w,if wait then .blocks else .fails .EWOULDBLOCK) := by
  cases wait <;> simp [openLock,supported,there,busy]

/-- By the lock file, or by the key once it is seen that there is no `O_EXLOCK`. -/
theorem lockByFile_attempted (attempts : List Attempt) (linked : Linked w) (unlocked : (w.sessions id).locked = false)
    (free : ¬ Holding w id) (result : lockByFile w id wait faults attempts = some (w',ok)) :
    Attempted ((w.hasO_EXLOCK = false ∧ reachesKey attempts = true) ∧
      w.lockKey = none ∧ faults.addsKey ∧ Stale w id faults.stat) id w w' ok := by
  induction attempts generalizing w with
  | nil => cases result
  | cons attempt rest ih =>
    obtain ⟨closed,closed'⟩ := not_holding free
    have failed (no : ¬ (w.hasO_EXLOCK = false ∧ reachesKey (attempt::rest) = true))
        (result : some (error w id) = some (w',ok)) :=
      failed_attempted linked unlocked closed'
        (fun all => no all.1 : ¬ ((w.hasO_EXLOCK = false ∧ reachesKey (attempt::rest) = true) ∧
          w.lockKey = none ∧ faults.addsKey ∧ Stale w id faults.stat)) result
    have byKey (supported : w.hasO_EXLOCK = false) (reaches : reachesKey (attempt::rest) = true)
        (result : lockByKey (keyMode w id) id wait faults = some (w',ok)) :
        Attempted ((w.hasO_EXLOCK = false ∧ reachesKey (attempt::rest) = true) ∧
          w.lockKey = none ∧ faults.addsKey ∧ Stale w id faults.stat) id w w' ok := by
      have session_ := keyMode_session w id
      have linked' : Linked (keyMode w id) := linked.unlinked.modify ⟨rfl,rfl⟩
      have attempted := lockByKey_attempted linked' (by rw [session_]; exact unlocked)
        (by rw [Holding,session_]; exact free) result
      rw [keyMode_stale] at attempted
      have after : Attempted _ id w w' ok := attempted.after fun other apart => Function.update_of_ne apart ..
      exact after.of_iff ⟨fun leaked => ⟨⟨supported,reaches⟩,leaked⟩,And.right⟩
    have byFile {w₁ : World} {inode : Nat} (linked₁ : Linked w₁) (sessions : w₁.sessions = w.sessions)
        (supported : w.hasO_EXLOCK = true) (supported₁ : w₁.hasO_EXLOCK = true) (unlocked₁ : w₁.flock inode = none)
        (known : inode < w₁.nextInode)
        (result : (if (attempt.statFails || w₁.lockFile ≠ some inode) = true then
            lockByFile ((descriptor w₁ id inode).closeLock id) id wait faults rest
          else some (locked (descriptor w₁ id inode) id faults.stat)) = some (w',ok)) :
        Attempted ((w.hasO_EXLOCK = false ∧ reachesKey (attempt::rest) = true) ∧
          w.lockKey = none ∧ faults.addsKey ∧ Stale w id faults.stat) id w w' ok := by
      have session_ := descriptor_session w₁ id inode
      have others (other : Nat) (apart : other ≠ id) : (descriptor w₁ id inode).sessions other = w.sessions other :=
        (Function.update_of_ne apart ..).trans (congrFun sessions other)
      have acquired : Linked (descriptor w₁ id inode) := linked₁.acquire (by rw [sessions]; exact closed) unlocked₁ known
      have no : ¬ (w.hasO_EXLOCK = false ∧ reachesKey (attempt::rest) = true) := by simp [supported]
      split at result
      · obtain ⟨flock,same⟩ := closeLock_frame (descriptor w₁ id inode) id
        have session' : ((descriptor w₁ id inode).closeLock id).sessions id = w.sessions id := by
          rw [same]
          simp only [Function.update_self,session_,sessions,← closed]
        have attempted := ih (acquired.closeLock id) (by rw [session']; exact unlocked)
          (by rw [Holding,session']; exact free) result
        have after : Attempted _ id w w' ok := attempted.after fun other apart => by
          rw [same]
          exact (Function.update_of_ne apart ..).trans (others other apart)
        refine after.of_iff (iff_of_false (fun all => ?_) fun all => no all.1)
        have unsupported : (descriptor w₁ id inode).hasO_EXLOCK = false := by
          have there := all.1.1
          rw [same] at there
          exact there
        exact Bool.noConfusion (unsupported.symm.trans supported₁)
      · have attempted := locked_attempted id acquired (by rw [session_,sessions]; exact unlocked)
          (.inl (by rw [session_]; rfl)) faults.stat
        rw [Option.some.inj result] at attempted
        refine (attempted.after others).of_iff (iff_of_false (fun leaked => ?_) fun all => no all.1)
        have own := leaked.2
        rw [session_,sessions] at own
        simp [closed'] at own
    -- no `O_EXLOCK`: the attempt goes on with the key
    have unsupported_ (reaches : reachesKey (attempt::rest) = true)
        (result : (if (!w.hasO_EXLOCK) = true then lockByKey (keyMode w id) id wait faults
          else some (error {w with lockFile := none} id)) = some (w',ok)) :
        Attempted ((w.hasO_EXLOCK = false ∧ reachesKey (attempt::rest) = true) ∧
          w.lockKey = none ∧ faults.addsKey ∧ Stale w id faults.stat) id w w' ok := by
      by_cases supported : w.hasO_EXLOCK = false
      · exact byKey supported reaches ((if_pos (by simp [supported])).symm.trans result)
      · have attempted := failed_attempted linked.unlinked unlocked closed' (fun absurd_ => absurd_ : ¬ False)
          ((if_neg (by simpa using supported)).symm.trans result)
        have after : Attempted False id w w' ok := attempted.after fun _ _ => rfl
        exact after.of_iff (iff_of_false (fun absurd_ => absurd_) fun all => supported all.1.1)
    simp only [lockByFile] at result
    cases fault : attempt.openFails with
    | some errno =>
      have opened : openLock w wait attempt.openFails = (w,.fails errno) := by rw [fault]; rfl
      rw [opened] at result
      cases errno with
      | ENOENT =>
        cases created : attempt.parentCreated with
        | true =>
          simp only [created,if_true] at result
          refine (ih linked unlocked free result).of_iff ?_
          simp [reachesKey,fault,created]
        | false =>
          simp only [created] at result
          exact failed (by simp [reachesKey,fault,created]) result
      | EWOULDBLOCK => exact failed (by simp [reachesKey,fault]) result
      | ENOTSUP => exact unsupported_ (by simp [reachesKey,fault]) result
      | other => exact failed (by simp [reachesKey,fault]) result
    | none =>
      have same : openLock w wait attempt.openFails = openLock w wait none := by rw [fault]
      by_cases supported : w.hasO_EXLOCK = false
      · rw [same,openLock_unsupported supported] at result
        exact unsupported_ (by simp [reachesKey,fault]) result
      · have supported' : w.hasO_EXLOCK = true := by simpa using supported
        cases there : w.lockFile with
        | none =>
          rw [same,openLock_creates supported' there] at result
          have unlocked' : w.flock w.nextInode = none := by
            by_contra busy
            exact Nat.lt_irrefl _ (linked.inodes _ busy)
          exact byFile linked.create rfl supported' supported' unlocked' (Nat.lt_succ_self _) result
        | some inode =>
          by_cases busy : w.flock inode = none
          · rw [same,openLock_opens supported' there busy] at result
            exact byFile linked rfl supported' supported' busy (linked.lockFile inode there) result
          · rw [same,openLock_busy supported' there busy] at result
            cases wait with
            | true => cases result
            | false => exact failed (fun reaches => supported reaches.1) result

/-- A session that is not locked, is root's and has to lock by the key finds the key
free and can add it, and is stale. -/
def KeptByStale (w : World) (id : Nat) (faults : Faults) : Prop :=
  (w.sessions id).locked = false ∧ (w.sessions id).isRoot = true ∧
    ((w.sessions id).sessionKeyLock = true ∨ w.hasO_EXLOCK = false ∧ reachesKey faults.attempts = true) ∧
    w.lockKey = none ∧ faults.addsKey ∧ Stale w id faults.stat

theorem lock_attempted (linked : Linked w) (unlocked : (w.sessions id).locked = false) (free : ¬ Holding w id)
    (result : scPreferencesLock w id wait faults = some (w',ok)) : Attempted (KeptByStale w id faults) id w w' ok := by
  unfold scPreferencesLock at result
  rw [if_neg (by simp [unlocked])] at result
  cases root : (w.sessions id).isRoot with
  | false =>
    rw [if_pos (by simp [root])] at result
    obtain ⟨rfl,rfl⟩ := Prod.mk.inj (Option.some.inj result)
    refine ⟨linked,fun _ _ => rfl,fun ok => (nomatch ok),fun _ => ⟨unlocked,iff_of_false free fun kept => ?_⟩⟩
    exact Bool.noConfusion (root.symm.trans kept.2.1)
  | true =>
    rw [if_neg (by simp [root])] at result
    cases byKey : (w.sessions id).sessionKeyLock with
    | true =>
      rw [if_pos byKey] at result
      refine (lockByKey_attempted linked unlocked free result).of_iff ⟨fun leaked => ?_,fun kept => kept.2.2.2⟩
      exact ⟨unlocked,root,.inl byKey,leaked⟩
    | false =>
      rw [if_neg (by simp [byKey])] at result
      refine (lockByFile_attempted _ linked unlocked free result).of_iff ⟨fun leaked => ?_,fun kept => ⟨?_,kept.2.2.2⟩⟩
      · exact ⟨unlocked,root,.inr leaked.1,leaked.2⟩
      · exact kept.2.2.1.resolve_left (by simp [byKey])

/-! ## An attempt by a stale session that gets the key returns -/

private theorem locked_stale {statFails : Bool} (stale : Stale w id statFails) : (locked w id statFails).2 = false := by
  have stale' : ((w.sessions id).accessed && (statFails || (w.sessions id).signature ≠ w.file)) = true := by
    simpa [Stale] using stale
  have body : locked w id statFails = error {w with lockFile := none} id := if_pos stale'
  rw [body]
  rfl

theorem locked_fresh {statFails : Bool} (fresh : ¬ Stale w id statFails) : (locked w id statFails).2 = true := by
  have fresh' : ¬ ((w.sessions id).accessed && (statFails || (w.sessions id).signature ≠ w.file)) = true := by
    simpa [Stale] using fresh
  have body : locked w id statFails = (w.modify id fun prefs => {prefs with locked := true},true) := if_neg fresh'
  rw [body]

theorem lockByKey_adds (free : w.lockKey = none) (adds : faults.addsKey) (id : Nat) (wait : Bool) :
    lockByKey w id wait faults = some (locked (keyAdded w id) id faults.stat) := by
  have early (call : StoreCall) (early : call ≠ .notifyWait) : faults.store ≠ some call := by
    intro fails
    rcases adds with none_ | wait_
    · exact nomatch none_.symm.trans fails
    · exact early (Option.some.inj (fails.symm.trans wait_))
  have store : lockWithSCDynamicStore w id wait faults.store = some (keyAdded w id,true) := by
    unfold lockWithSCDynamicStore
    rw [if_neg (early _ (by decide)),if_neg (early _ (by decide)),if_neg (early _ (by decide))]
    exact if_pos ⟨free,early _ (by decide)⟩
  rw [lockByKey,store]
  rfl

private theorem lockByKey_stale (free : w.lockKey = none) (adds : faults.addsKey) (stale : Stale w id faults.stat)
    (wait : Bool) : ∃ w', lockByKey w id wait faults = some (w',false) := by
  have kept := locked_stale ((keyAdded_stale w id faults.stat).mpr stale)
  exact ⟨(locked (keyAdded w id) id faults.stat).1,by rw [lockByKey_adds free adds,← kept]⟩

private theorem lockByFile_stale (attempts : List Attempt) (supported : w.hasO_EXLOCK = false)
    (reaches : reachesKey attempts = true) (free : w.lockKey = none) (adds : faults.addsKey)
    (stale : Stale w id faults.stat) : ∃ w', lockByFile w id wait faults attempts = some (w',false) := by
  induction attempts with
  | nil => cases reaches
  | cons attempt rest ih =>
    have freeMode : (keyMode w id).lockKey = none := free
    have byKey : ∃ w', lockByKey (keyMode w id) id wait faults = some (w',false) :=
      lockByKey_stale freeMode adds ((keyMode_stale w id faults.stat).mpr stale) wait
    have unsupported : (!w.hasO_EXLOCK) = true := by simp [supported]
    simp only [lockByFile]
    cases fault : attempt.openFails with
    | none =>
      rw [openLock_unsupported supported]
      obtain ⟨w',result⟩ := byKey
      exact ⟨w',(if_pos unsupported).trans result⟩
    | some errno =>
      cases errno with
      | ENOENT =>
        simp only [reachesKey,fault,Bool.and_eq_true] at reaches
        obtain ⟨w',result⟩ := ih reaches.2
        exact ⟨w',(if_pos reaches.1).trans result⟩
      | ENOTSUP =>
        obtain ⟨w',result⟩ := byKey
        exact ⟨w',(if_pos unsupported).trans result⟩
      | EWOULDBLOCK => simp [reachesKey,fault] at reaches
      | other => simp [reachesKey,fault] at reaches

theorem lock_stale (kept : KeptByStale w id faults) (wait : Bool) :
    ∃ w', scPreferencesLock w id wait faults = some (w',false) := by
  obtain ⟨unlocked,root,mechanism,free,adds,stale⟩ := kept
  unfold scPreferencesLock
  rw [if_neg (by simp [unlocked]),if_neg (by simp [root])]
  split
  · exact lockByKey_stale free adds stale wait
  · rename_i byFile
    obtain ⟨supported,reaches⟩ := mechanism.resolve_left byFile
    exact lockByFile_stale _ supported reaches free adds stale

end FreebsdLaunchd.PreferencesLock
