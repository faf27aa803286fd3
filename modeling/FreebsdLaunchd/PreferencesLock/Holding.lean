import FreebsdLaunchd.PreferencesLock.Attempts

/-! Who holds the lock between calls: a session holds the resource under the lock
exactly if it is locked, as long as no session is found stale once it has the lock
by the key, which it then keeps. -/
namespace FreebsdLaunchd.PreferencesLock
open World

variable {w w' : World} {id other : Nat} {wait ok : Bool} {faults : Faults}

/-! ## The other calls -/

structure Bystands (w w' : World) : Prop where
  flock : w'.flock = w.flock
  lockKey : w'.lockKey = w.lockKey
  lockFile : w'.lockFile = w.lockFile
  nextInode : w'.nextInode = w.nextInode
  nextSession : w'.nextSession = w.nextSession
  links : ∀ id, SameLinks (w.sessions id) (w'.sessions id)
  locked : ∀ id, (w'.sessions id).locked = (w.sessions id).locked

theorem Bystands.refl (w : World) : Bystands w w := ⟨rfl,rfl,rfl,rfl,rfl,fun _ => ⟨rfl,rfl⟩,fun _ => rfl⟩

theorem Bystands.trans {w₁ : World} (first : Bystands w w₁) (second : Bystands w₁ w') : Bystands w w' :=
  ⟨second.flock.trans first.flock,second.lockKey.trans first.lockKey,second.lockFile.trans first.lockFile,
    second.nextInode.trans first.nextInode,second.nextSession.trans first.nextSession,
    fun id => ⟨(second.links id).lockFD.trans (first.links id).lockFD,
      (second.links id).session.trans (first.links id).session⟩,
    fun id => (second.locked id).trans (first.locked id)⟩

private theorem modify_bystands (w : World) (id : Nat) (f : PrefsPrivate → PrefsPrivate)
    (links : SameLinks (w.sessions id) (f (w.sessions id)))
    (locked : (f (w.sessions id)).locked = (w.sessions id).locked) : Bystands w (w.modify id f) :=
  ⟨rfl,rfl,rfl,rfl,rfl,fun other => ⟨update_keeps PrefsPrivate.lockFD links.lockFD other,
    update_keeps PrefsPrivate.sessionNoO_EXLOCK links.session other⟩,
    fun other => update_keeps PrefsPrivate.locked locked other⟩

theorem Bystands.linked (bystands : Bystands w w') (linked : Linked w) : Linked w' :=
  linked.congr bystands.flock bystands.lockKey bystands.nextInode (Nat.le_of_eq bystands.nextSession.symm)
    (fun _ there => bystands.lockFile ▸ there) bystands.links

theorem Bystands.holding (bystands : Bystands w w') (id : Nat) : Holding w' id ↔ Holding w id := by
  rw [Holding,Holding,(bystands.links id).lockFD,(bystands.links id).session]

private theorem files_bystand (w : World) (file nextVersion) :
    Bystands w {w with file := file, nextVersion := nextVersion} :=
  ⟨rfl,rfl,rfl,rfl,rfl,fun _ => ⟨rfl,rfl⟩,fun _ => rfl⟩

private theorem save_bystands (w : World) (id : Nat) (saving : Saving) : Bystands w (save w id saving).1 := by
  cases saving with
  | fails => exact .refl w
  | saves statFails =>
    have saved := files_bystand w (some w.nextVersion) (w.nextVersion + 1)
    cases statFails with
    | true => exact saved
    | false => exact saved.trans (modify_bystands _ id (fun prefs => {prefs with signature := _}) ⟨rfl,rfl⟩ rfl)
  | removes unlinkFails =>
    cases unlinkFails with
    | true => exact modify_bystands w id (fun prefs => {prefs with signature := none}) ⟨rfl,rfl⟩ rfl
    | false =>
      exact (files_bystand w none w.nextVersion).trans
        (modify_bystands _ id (fun prefs => {prefs with signature := none}) ⟨rfl,rfl⟩ rfl)

private theorem commit_bystands (w : World) (id : Nat) (faults : CommitFaults) : Bystands w (commit w id faults).1 := by
  have saved : Bystands w (if (w.sessions id).changed then save w id faults.saving else (w,true)).1 := by
    split
    · exact save_bystands ..
    · exact .refl w
  unfold commit
  generalize (if (w.sessions id).changed then save w id faults.saving else (w,true)) = saving at saved ⊢
  obtain ⟨w₁,ok⟩ := saving
  simp only []
  split
  · exact saved
  · exact saved.trans (modify_bystands w₁ id (fun prefs => {prefs with changed := false}) ⟨rfl,rfl⟩ rfl)

private theorem access_bystands (w : World) (id : Nat) : Bystands w (scPreferencesAccess w id) := by
  unfold scPreferencesAccess
  split
  · exact .refl w
  · exact modify_bystands w id _ ⟨rfl,rfl⟩ rfl

private theorem setValue_bystands (w : World) (id : Nat) : Bystands w (scPreferencesSetValue w id) :=
  (access_bystands w id).trans (modify_bystands _ id (fun prefs => {prefs with changed := true}) ⟨rfl,rfl⟩ rfl)

structure GivesUp (id : Nat) (w w' : World) : Prop where
  linked : Linked w'
  others : ∀ other, other ≠ id → w'.sessions other = w.sessions other
  unlocked : (w'.sessions id).locked = false
  free : ¬ Holding w' id

/-- The lock file is unlinked and its descriptor closed, if there is one. -/
theorem close_unlinked (linked : Linked w) (id : Nat) :
    Linked (if (w.sessions id).lockFD.isSome then World.closeLock {w with lockFile := none} id else w) ∧
      ∃ flock lockFile, (if (w.sessions id).lockFD.isSome then World.closeLock {w with lockFile := none} id else w) =
        {w with
          flock := flock
          lockFile := lockFile
          sessions := Function.update w.sessions id {w.sessions id with lockFD := none}} := by
  cases open_ : (w.sessions id).lockFD with
  | some inode =>
    obtain ⟨flock,same⟩ := closeLock_frame {w with lockFile := none} id
    exact ⟨linked.unlinked.closeLock id,flock,none,same⟩
  | none =>
    have same : {w.sessions id with lockFD := none} = w.sessions id := by rw [← open_]
    exact ⟨linked,w.flock,w.lockFile,by rw [same,Function.update_eq_self]; rfl⟩

private theorem unlock_givesUp (linked : Linked w) (locked : (w.sessions id).locked = true) :
    GivesUp id w (scPreferencesUnlock w id).1 := by
  obtain ⟨lockKey,released⟩ := releaseStore_frame w id
  obtain ⟨linked',flock,lockFile,closed⟩ := close_unlinked (linked.releaseStore id) id
  have body : (scPreferencesUnlock w id).1 = World.modify (if ((w.releaseStore id).sessions id).lockFD.isSome then
      World.closeLock {w.releaseStore id with lockFile := none} id else w.releaseStore id) id
        fun prefs => {prefs with locked := false} := by
    simp [scPreferencesUnlock,locked]
  rw [body]
  refine ⟨linked'.modify ⟨rfl,rfl⟩,fun other apart => ?_,?_,?_⟩
  · rw [closed,released]
    simp [Function.update_of_ne apart]
  · simp
  · rw [Holding,closed,released]
    simp

private theorem deallocate_givesUp (linked : Linked w) (id : Nat) : GivesUp id w (scPreferencesDeallocate w id) := by
  obtain ⟨linked',flock,lockFile,closed⟩ := close_unlinked linked id
  have body : scPreferencesDeallocate w id = World.modify (World.releaseStore (if (w.sessions id).lockFD.isSome then
      World.closeLock {w with lockFile := none} id else w) id) id
        fun prefs => {prefs with locked := false, released := true} := rfl
  obtain ⟨lockKey,released⟩ := releaseStore_frame (if (w.sessions id).lockFD.isSome then
      World.closeLock {w with lockFile := none} id else w) id
  rw [body]
  refine ⟨(linked'.releaseStore id).modify ⟨rfl,rfl⟩,fun other apart => ?_,?_,?_⟩
  · rw [released,closed]
    simp [Function.update_of_ne apart]
  · simp
  · rw [Holding,released,closed]
    simp

/-! ## The resource under the lock -/

/-- The lock file is open, or the key is there that was added through the session
with the dynamic store. -/
def HoldsResource (w : World) (id : Nat) : Prop :=
  (∃ inode, (w.sessions id).lockFD = some inode ∧ w.flock inode = some id) ∨
    ∃ session, (w.sessions id).sessionNoO_EXLOCK = some session ∧ w.lockKey = some session

def Free (w : World) : Prop := w.lockKey = none ∧ ∀ inode, w.flock inode = none

theorem Linked.holdsResource (linked : Linked w) (id : Nat) : HoldsResource w id ↔ Holding w id := by
  constructor
  · rintro (⟨inode,own,_⟩ | ⟨session,own,_⟩)
    · exact .inl (by rw [own]; rfl)
    · exact .inr (by rw [own]; rfl)
  · rintro (fd | session)
    · obtain ⟨inode,own⟩ := Option.isSome_iff_exists.mp fd
      exact .inl ⟨inode,own,(linked.fd id inode).mp own⟩
    · obtain ⟨session,own⟩ := Option.isSome_iff_exists.mp session
      exact .inr ⟨session,own,linked.key id session own⟩

/-! ## Between calls -/

def HoldsExactly (w : World) (id : Nat) : Prop := Holding w id ↔ (w.sessions id).locked = true

structure Sound (w : World) : Prop where
  linked : Linked w
  holds : ∀ id, HoldsExactly w id

theorem HoldsExactly.congr (holds : HoldsExactly w id) (same : w'.sessions id = w.sessions id) : HoldsExactly w' id := by
  rw [HoldsExactly,Holding,same]
  exact holds

theorem Bystands.sound (bystands : Bystands w w') (sound : Sound w) : Sound w' :=
  ⟨bystands.linked sound.linked,fun id => by
    rw [HoldsExactly,bystands.holding,bystands.locked]
    exact sound.holds id⟩

theorem GivesUp.sound (givesUp : GivesUp id w w') (holds : ∀ other, other ≠ id → HoldsExactly w other) : Sound w' := by
  refine ⟨givesUp.linked,fun other => ?_⟩
  by_cases same : other = id
  · subst same
    exact iff_of_false givesUp.free (by simp [givesUp.unlocked])
  · exact (holds other same).congr (givesUp.others other same)

theorem Attempted.sound {leaks : Prop} (attempted : Attempted leaks id w w' ok) (sound : Sound w) (no : ¬ leaks) :
    Sound w' := by
  refine ⟨attempted.linked,fun other => ?_⟩
  by_cases same : other = id
  · subst same
    cases ok with
    | true => exact iff_of_true (attempted.locked rfl).2 (attempted.locked rfl).1
    | false =>
      obtain ⟨unlocked,holding⟩ := attempted.failed rfl
      exact iff_of_false (mt holding.mp no) (by simp [unlocked])
  · exact (sound.holds other).congr (attempted.others other same)

theorem Sound.free (sound : Sound w) (unlocked : (w.sessions id).locked = false) : ¬ Holding w id := fun holding => by
  have locked := (sound.holds id).mp holding
  rw [unlocked] at locked
  cases locked

def NoStaleKey (w : World) (call : Call) : Prop :=
  match call with
  | .lock id _ faults => (w.sessions id).released = true ∨ ¬ KeptByStale w id faults
  | .commit id lockFaults _ => (w.sessions id).released = true ∨ ¬ KeptByStale w id lockFaults
  | _ => True

private theorem lock_sound (sound : Sound w) (fresh : ¬ KeptByStale w id faults)
    (result : scPreferencesLock w id wait faults = some (w',ok)) :
    Sound w' ∧ (ok = true → (w'.sessions id).locked = true) := by
  cases locked : (w.sessions id).locked with
  | true =>
    have unchanged : scPreferencesLock w id wait faults = some (w,false) := if_pos locked
    obtain ⟨rfl,rfl⟩ := Prod.mk.inj (Option.some.inj (unchanged.symm.trans result))
    exact ⟨sound,fun ok => (nomatch ok)⟩
  | false =>
    have attempted := lock_attempted sound.linked locked (sound.free locked) result
    exact ⟨attempted.sound sound fresh,fun ok => (attempted.locked ok).1⟩

private theorem commitChanges_sound {lockFaults : Faults} {commitFaults : CommitFaults} (sound : Sound w)
    (fresh : ¬ KeptByStale w id lockFaults)
    (result : scPreferencesCommitChanges w id lockFaults commitFaults = some (w',ok)) : Sound w' := by
  unfold scPreferencesCommitChanges at result
  split at result
  · have bystands := commit_bystands w id commitFaults
    rw [Option.some.inj result] at bystands
    exact bystands.sound sound
  · split at result
    · cases result
    · rename_i w₁ failed
      obtain ⟨rfl,rfl⟩ := Prod.mk.inj (Option.some.inj result)
      exact (lock_sound sound fresh failed).1
    · rename_i w₁ succeeded
      obtain ⟨sound₁,locked₁⟩ := lock_sound sound fresh succeeded
      have bystands := commit_bystands w₁ id commitFaults
      have sound₂ := bystands.sound sound₁
      have locked₂ : ((commit w₁ id commitFaults).1.sessions id).locked = true :=
        (bystands.locked id).trans (locked₁ rfl)
      obtain ⟨rfl,rfl⟩ := Prod.mk.inj (Option.some.inj result)
      exact (unlock_givesUp sound₂.linked locked₂).sound fun other _ => sound₂.holds other

/-- A call out of which no stale session keeps the key leaves every session with the
resource exactly if it is locked. -/
theorem perform_sound (call : Call) (sound : Sound w) (fresh : NoStaleKey w call) : Sound (perform w call) := by
  unfold perform
  split
  · exact sound
  · rename_i live
    cases call with
    | access id => exact (access_bystands w id).sound sound
    | setValue id => exact (setValue_bystands w id).sound sound
    | lock id wait faults =>
      cases result : scPreferencesLock w id wait faults with
      | none => simpa [result] using sound
      | some returned =>
        simpa [result] using (lock_sound sound (fresh.resolve_left live) result).1
    | unlock id =>
      cases locked : (w.sessions id).locked with
      | false => simpa [scPreferencesUnlock,locked] using sound
      | true => exact (unlock_givesUp sound.linked locked).sound fun other _ => sound.holds other
    | commit id lockFaults faults =>
      cases result : scPreferencesCommitChanges w id lockFaults faults with
      | none => simpa [result] using sound
      | some returned =>
        simpa [result] using commitChanges_sound sound (fresh.resolve_left live) result
    | release id => exact (deallocate_givesUp sound.linked id).sound fun other _ => sound.holds other

/-- Out of any other call a session keeps the key without being locked. -/
theorem perform_leaks (call : Call) (sound : Sound w) (kept : ¬ NoStaleKey w call) :
    HoldsResource (perform w call) call.session ∧ ((perform w call).sessions call.session).locked = false := by
  have leaks {id : Nat} {faults : Faults} (kept : KeptByStale w id faults) (wait : Bool) :
      ∃ w', scPreferencesLock w id wait faults = some (w',false) ∧ HoldsResource w' id ∧
        (w'.sessions id).locked = false := by
    obtain ⟨w',result⟩ := lock_stale kept wait
    have attempted := lock_attempted sound.linked kept.1 (sound.free kept.1) result
    obtain ⟨unlocked,holding⟩ := attempted.failed rfl
    exact ⟨w',result,(attempted.linked.holdsResource id).mpr (holding.mpr kept),unlocked⟩
  unfold NoStaleKey at kept
  cases call with
  | lock id wait faults =>
    obtain ⟨live,kept⟩ := not_or.mp kept
    obtain ⟨w',result,leaked⟩ := leaks (not_not.mp kept) wait
    have performed : perform w (.lock id wait faults) = w' := by
      simp [perform,Call.session,live,result]
    rw [performed]
    exact leaked
  | commit id lockFaults faults =>
    obtain ⟨live,kept⟩ := not_or.mp kept
    have unlocked := (not_not.mp kept).1
    obtain ⟨w',result,leaked⟩ := leaks (not_not.mp kept) true
    have performed : perform w (.commit id lockFaults faults) = w' := by
      simp [perform,Call.session,live,scPreferencesCommitChanges,unlocked,result]
    rw [performed]
    exact leaked
  | access id => exact absurd trivial kept
  | setValue id => exact absurd trivial kept
  | unlock id => exact absurd trivial kept
  | release id => exact absurd trivial kept

def noFaults : Faults := ⟨[⟨none,false,false⟩],none,false⟩

def UpToDate (w : World) (id : Nat) : Prop := (w.sessions id).accessed = true → (w.sessions id).signature = w.file

/-- Between calls a session holds the resource exactly if it is locked; the
resource is free unless a session is locked; and a session that is up to date gets it
when none is. -/
structure Between (w : World) : Prop where
  holds : ∀ id, HoldsResource w id ↔ (w.sessions id).locked = true
  free : Free w ∨ ∃ id, (w.sessions id).locked = true
  gets : ∀ id wait, (w.sessions id).isRoot = true → UpToDate w id → (∀ other, (w.sessions other).locked = false) →
    ∃ w', scPreferencesLock w id wait noFaults = some (w',true)

theorem Sound.freeResource (sound : Sound w) (unlocked : ∀ id, (w.sessions id).locked = false) : Free w := by
  refine ⟨?_,fun inode => ?_⟩
  · cases key : w.lockKey with
    | none => rfl
    | some session =>
      obtain ⟨id,own⟩ := sound.linked.keyed session key
      exact absurd (.inr (by rw [own]; rfl)) (sound.free (unlocked id))
  · cases busy : w.flock inode with
    | none => rfl
    | some id =>
      exact absurd (.inl (by rw [(sound.linked.fd id inode).mpr busy]; rfl)) (sound.free (unlocked id))

theorem Sound.gets (sound : Sound w) (root : (w.sessions id).isRoot = true) (upToDate : UpToDate w id)
    (unlocked : ∀ other, (w.sessions other).locked = false) (wait : Bool) :
    ∃ w', scPreferencesLock w id wait noFaults = some (w',true) := by
  obtain ⟨keyFree,inodesFree⟩ := sound.freeResource unlocked
  have fresh : ¬ Stale w id noFaults.stat := by
    rintro ⟨accessed,fails | differs⟩
    · cases fails
    · exact differs (upToDate accessed)
  have adds : noFaults.addsKey := .inl rfl
  -- by either way the attempt comes to the label `locked`
  have ends {w₁ : World} (fresh₁ : ¬ Stale w₁ id noFaults.stat) :
      ∃ w', some (locked w₁ id noFaults.stat) = some (w',true) :=
    ⟨(locked w₁ id noFaults.stat).1,by rw [← locked_fresh fresh₁]⟩
  have byKey {w₁ : World} (free₁ : w₁.lockKey = none) (fresh₁ : ¬ Stale w₁ id noFaults.stat) :
      ∃ w', lockByKey w₁ id wait noFaults = some (w',true) := by
    rw [lockByKey_adds free₁ adds]
    exact ends (mt (keyAdded_stale w₁ id _).mp fresh₁)
  have byFile {w₁ : World} {inode : Nat} (file : w₁.file = w.file) (sessions : w₁.sessions = w.sessions) :
      ¬ Stale (descriptor w₁ id inode) id noFaults.stat := by
    have session_ := descriptor_session w₁ id inode
    have stale : Stale (descriptor w₁ id inode) id noFaults.stat ↔ Stale w id noFaults.stat :=
      stale_congr file (by rw [session_,sessions]) (by rw [session_,sessions])
    exact mt stale.mp fresh
  unfold scPreferencesLock
  rw [if_neg (by simp [unlocked id]),if_neg (by simp [root])]
  split
  · exact byKey keyFree fresh
  · simp only [noFaults,lockByFile]
    by_cases supported : w.hasO_EXLOCK = false
    · rw [openLock_unsupported supported]
      have keyFree' : (keyMode w id).lockKey = none := keyFree
      obtain ⟨w',result⟩ := byKey keyFree' (mt (keyMode_stale w id _).mp fresh)
      exact ⟨w',(if_pos (by simp [supported])).trans result⟩
    · have supported' : w.hasO_EXLOCK = true := by simpa using supported
      cases there : w.lockFile with
      | none =>
        rw [openLock_creates supported' there]
        have same : ¬ (false || decide (some w.nextInode ≠ some w.nextInode)) = true := by simp
        have fresh₁ : ¬ Stale (descriptor {w with lockFile := some w.nextInode, nextInode := w.nextInode + 1} id
            w.nextInode) id noFaults.stat := byFile rfl rfl
        obtain ⟨w',result⟩ := ends fresh₁
        exact ⟨w',(if_neg same).trans result⟩
      | some inode =>
        rw [openLock_opens supported' there (inodesFree inode)]
        have same : ¬ (false || decide (w.lockFile ≠ some inode)) = true := by simp [there]
        have fresh₁ : ¬ Stale (descriptor w id inode) id noFaults.stat := byFile rfl rfl
        obtain ⟨w',result⟩ := ends fresh₁
        exact ⟨w',(if_neg same).trans result⟩

theorem Sound.between (sound : Sound w) : Between w := by
  refine ⟨fun id => (sound.linked.holdsResource id).trans (sound.holds id),?_,fun id wait root upToDate unlocked =>
    sound.gets root upToDate unlocked wait⟩
  by_cases someone : ∃ id, (w.sessions id).locked = true
  · exact .inr someone
  · exact .inl (sound.freeResource fun id => by simpa using fun locked => someone ⟨id,locked⟩)

private theorem initial_sound (hasO_EXLOCK : Bool) (file lockFile : Option Nat) (isRoot : Nat → Bool) :
    Sound (initial hasO_EXLOCK file lockFile isRoot) := by
  refine ⟨⟨fun id inode => ?_,fun id session own => (nomatch own),fun session there => (nomatch there),
    fun id _ session own => (nomatch own),fun inode busy => absurd rfl busy,fun inode there => ?_,
    fun session there => (nomatch there)⟩,fun id => ?_⟩
  · exact iff_of_false (fun own => nomatch own) (fun own => nomatch own)
  · cases lockFile with
    | none => cases there
    | some left =>
      obtain rfl := Option.some.inj there
      exact Nat.lt_succ_self _
  · exact iff_of_false (by rintro (own | own) <;> cases own) (fun locked => nomatch locked)

/-- Along every sequence of calls of any sessions, what is to hold between calls does
exactly if out of no call a stale session keeps the key. -/
theorem between_iff (hasO_EXLOCK : Bool) (file lockFile : Option Nat) (isRoot : Nat → Bool) (calls : List Call) :
    Runs.Along perform Between (initial hasO_EXLOCK file lockFile isRoot) calls ↔
      Runs.Meets perform NoStaleKey (initial hasO_EXLOCK file lockFile isRoot) calls := by
  refine Runs.along_iff_meets (I := fun _ => True) (P := Sound) (fun _ _ _ => trivial)
    (fun w call _ sound fresh => perform_sound call sound fresh) (fun w call _ sound between => ?_)
    (fun w _ sound => sound.between) trivial (initial_sound ..) calls
  by_contra kept
  obtain ⟨holding,unlocked⟩ := perform_leaks call sound kept
  have locked := (between.holds call.session).mp holding
  rw [unlocked] at locked
  cases locked

/-- No `O_EXLOCK`, and a file that session 0 has read and session 1 then replaces:
session 0 is refused the lock, and keeps the key. -/
def staleCalls : List Call :=
  [.access 0,.setValue 1,.commit 1 noFaults ⟨.saves false,false⟩,.lock 0 false noFaults]

theorem stale_session_keeps_key : ¬ ∀ (hasO_EXLOCK : Bool) (file lockFile : Option Nat) (isRoot : Nat → Bool)
    (calls : List Call), ∀ id, HoldsResource (Runs.run perform (initial hasO_EXLOCK file lockFile isRoot) calls) id ↔
      ((Runs.run perform (initial hasO_EXLOCK file lockFile isRoot) calls).sessions id).locked = true := by
  intro always
  have locked := (always false (some 0) none (fun _ => true) staleCalls 0).mp (.inr ⟨1,rfl,rfl⟩)
  exact absurd locked (by decide)

end FreebsdLaunchd.PreferencesLock
