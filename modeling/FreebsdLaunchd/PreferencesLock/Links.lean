import FreebsdLaunchd.Library.Matching
import FreebsdLaunchd.PreferencesLock.Locking

/-! The two sides of a lock: what a session has open, and what the kernel and the
dynamic store have locked. Every part of a call keeps them together. -/
namespace FreebsdLaunchd.PreferencesLock
open World

variable {w w' : World} {id : Nat}

/-! ## What the parts of a call leave alone -/

@[simp] theorem modify_sessions (w : World) (id : Nat) (f : PrefsPrivate → PrefsPrivate) :
    (w.modify id f).sessions = Function.update w.sessions id (f (w.sessions id)) := rfl

/-- What an update of one session keeps, it keeps of all. -/
theorem update_keeps {β : Type} (field : PrefsPrivate → β) {sessions : Nat → PrefsPrivate} {id : Nat}
    {prefs : PrefsPrivate} (same : field prefs = field (sessions id)) (other : Nat) :
    field (Function.update sessions id prefs other) = field (sessions other) := by
  by_cases here : other = id
  · rw [here,Function.update_self,same]
  · rw [Function.update_of_ne here]

theorem closeLock_frame (w : World) (id : Nat) : ∃ flock, w.closeLock id =
    {w with flock := flock, sessions := Function.update w.sessions id {w.sessions id with lockFD := none}} := by
  unfold closeLock
  cases open_ : (w.sessions id).lockFD with
  | some inode => exact ⟨_,rfl⟩
  | none =>
    have same : {w.sessions id with lockFD := none} = w.sessions id := by rw [← open_]
    exact ⟨w.flock,by rw [same,Function.update_eq_self]⟩

theorem releaseStore_frame (w : World) (id : Nat) : ∃ lockKey, w.releaseStore id =
    {w with lockKey := lockKey, sessions := Function.update w.sessions id {w.sessions id with sessionNoO_EXLOCK := none}} := by
  unfold releaseStore
  cases open_ : (w.sessions id).sessionNoO_EXLOCK with
  | some session => exact ⟨_,rfl⟩
  | none =>
    have same : {w.sessions id with sessionNoO_EXLOCK := none} = w.sessions id := by rw [← open_]
    exact ⟨w.lockKey,by rw [same,Function.update_eq_self]⟩

/-! ## The kernel's and the store's side of a lock -/

/-- The descriptors, the locked inodes, the sessions with the dynamic store and the
temporary key tell the same. -/
structure Linked (w : World) : Prop where
  fd : ∀ id inode, (w.sessions id).lockFD = some inode ↔ w.flock inode = some id
  key : ∀ id session, (w.sessions id).sessionNoO_EXLOCK = some session → w.lockKey = some session
  keyed : ∀ session, w.lockKey = some session → ∃ id, (w.sessions id).sessionNoO_EXLOCK = some session
  one : ∀ id id' session, (w.sessions id).sessionNoO_EXLOCK = some session →
    (w.sessions id').sessionNoO_EXLOCK = some session → id = id'
  inodes : ∀ inode, w.flock inode ≠ none → inode < w.nextInode
  lockFile : ∀ inode, w.lockFile = some inode → inode < w.nextInode
  store : ∀ session, w.lockKey = some session → session < w.nextSession

theorem Linked.matched (linked : Linked w) : Matching.Matched (PrefsPrivate.lockFD ∘ w.sessions) w.flock := linked.fd

def Holding (w : World) (id : Nat) : Prop :=
  (w.sessions id).lockFD.isSome = true ∨ (w.sessions id).sessionNoO_EXLOCK.isSome = true

structure SameLinks (prefs prefs' : PrefsPrivate) : Prop where
  lockFD : prefs'.lockFD = prefs.lockFD
  session : prefs'.sessionNoO_EXLOCK = prefs.sessionNoO_EXLOCK

theorem Linked.congr (linked : Linked w) (flock : w'.flock = w.flock) (lockKey : w'.lockKey = w.lockKey)
    (nextInode : w'.nextInode = w.nextInode) (nextSession : w.nextSession ≤ w'.nextSession)
    (lockFile : ∀ inode, w'.lockFile = some inode → w.lockFile = some inode)
    (sessions : ∀ id, SameLinks (w.sessions id) (w'.sessions id)) : Linked w' := by
  refine ⟨fun id inode => ?_,fun id session => ?_,fun session => ?_,fun id id' session => ?_,fun inode => ?_,
    fun inode there => ?_,fun session => ?_⟩
  · rw [(sessions id).lockFD,flock]
    exact linked.fd id inode
  · rw [(sessions id).session,lockKey]
    exact linked.key id session
  · rw [lockKey]
    intro there
    obtain ⟨id,own⟩ := linked.keyed session there
    exact ⟨id,by rw [(sessions id).session]; exact own⟩
  · rw [(sessions id).session,(sessions id').session]
    exact linked.one id id' session
  · rw [flock,nextInode]
    exact linked.inodes inode
  · rw [nextInode]
    exact linked.lockFile inode (lockFile inode there)
  · rw [lockKey]
    exact fun there => Nat.lt_of_lt_of_le (linked.store session there) nextSession

theorem Linked.modify (linked : Linked w) {f : PrefsPrivate → PrefsPrivate}
    (keeps : SameLinks (w.sessions id) (f (w.sessions id))) : Linked (w.modify id f) :=
  linked.congr rfl rfl rfl (Nat.le_refl _) (fun _ there => there) fun other =>
    ⟨update_keeps PrefsPrivate.lockFD keeps.lockFD other,update_keeps PrefsPrivate.sessionNoO_EXLOCK keeps.session other⟩

theorem Linked.unlinked (linked : Linked w) : Linked {w with lockFile := none} :=
  linked.congr rfl rfl rfl (Nat.le_refl _) (fun _ there => nomatch there) fun _ => ⟨rfl,rfl⟩

theorem Linked.closeLock (linked : Linked w) (id : Nat) : Linked (w.closeLock id) := by
  unfold World.closeLock
  cases open_ : (w.sessions id).lockFD with
  | none => exact linked
  | some inode =>
    have fds := linked.matched.part open_
    rw [← Function.comp_update PrefsPrivate.lockFD w.sessions id {w.sessions id with lockFD := none}] at fds
    obtain ⟨_,key,keyed,one,inodes,lockFile,store⟩ := linked
    have session_ (other : Nat) : (Function.update w.sessions id {w.sessions id with lockFD := none} other).sessionNoO_EXLOCK =
        (w.sessions other).sessionNoO_EXLOCK := update_keeps PrefsPrivate.sessionNoO_EXLOCK (by rfl) other
    refine ⟨fds,fun other => ?_,fun session there => ?_,fun other other' => ?_,fun inode' busy => ?_,lockFile,store⟩
    · exact (session_ other) ▸ key other
    · obtain ⟨other,own⟩ := keyed session there
      exact ⟨other,(session_ other).trans own⟩
    · intro session own own'
      exact one other other' session ((session_ other).symm.trans own) ((session_ other').symm.trans own')
    · refine inodes inode' fun free => busy ?_
      show Function.update w.flock inode none inode' = none
      by_cases here : inode' = inode
      · rw [here,Function.update_self]
      · rw [Function.update_of_ne here,free]

theorem Linked.releaseStore (linked : Linked w) (id : Nat) : Linked (w.releaseStore id) := by
  unfold World.releaseStore
  cases open_ : (w.sessions id).sessionNoO_EXLOCK with
  | none => exact linked
  | some session =>
    have held := linked.key id session open_
    obtain ⟨fd,key,keyed,one,inodes,lockFile,store⟩ := linked
    have gone : (if w.lockKey = some session then none else w.lockKey) = none := if_pos held
    -- the one session there was has been closed
    have closed (other : Nat) :
        (Function.update w.sessions id {w.sessions id with sessionNoO_EXLOCK := none} other).sessionNoO_EXLOCK = none := by
      by_cases same : other = id
      · rw [same,Function.update_self]
      · rw [Function.update_of_ne same]
        cases own : (w.sessions other).sessionNoO_EXLOCK with
        | none => rfl
        | some session' =>
          obtain rfl := Option.some.inj (held.symm.trans (key other session' own))
          exact absurd (one other id session own open_) same
    simp only [gone]
    refine ⟨fun other inode => ?_,fun other session' own => ?_,fun _ there => (nomatch there),
      fun other other' session' own => ?_,inodes,lockFile,fun _ there => (nomatch there)⟩
    · rw [modify_sessions,update_keeps PrefsPrivate.lockFD (by rfl) other]
      exact fd other inode
    · rw [modify_sessions,closed other] at own
      cases own
    · rw [modify_sessions,closed other] at own
      cases own

theorem releaseStore_closed (w : World) (id : Nat) : ((w.releaseStore id).sessions id).sessionNoO_EXLOCK = none := by
  obtain ⟨lockKey,same⟩ := releaseStore_frame w id
  simp [same]

theorem releaseStore_none (closed : (w.sessions id).sessionNoO_EXLOCK = none) : w.releaseStore id = w := by
  rw [releaseStore,closed]

/-! ## Acquiring -/

theorem Linked.create (linked : Linked w) :
    Linked {w with lockFile := some w.nextInode, nextInode := w.nextInode + 1} := by
  obtain ⟨fd,key,keyed,one,inodes,_,store⟩ := linked
  exact ⟨fd,key,keyed,one,fun inode busy => Nat.lt_succ_of_lt (inodes inode busy),
    fun _ there => Option.some.inj there ▸ Nat.lt_succ_self _,store⟩

def descriptor (w : World) (id inode : Nat) : World :=
  World.modify {w with flock := Function.update w.flock inode (some id)} id fun prefs => {prefs with lockFD := some inode}

def keyAdded (w : World) (id : Nat) : World :=
  {World.modify {w with nextSession := w.nextSession + 1} id fun prefs =>
    {prefs with sessionNoO_EXLOCK := some w.nextSession} with lockKey := some w.nextSession}

def keyMode (w : World) (id : Nat) : World :=
  World.modify {w with lockFile := none} id fun prefs => {prefs with sessionKeyLock := true}

theorem descriptor_session (w : World) (id inode : Nat) :
    (descriptor w id inode).sessions id = {w.sessions id with lockFD := some inode} := Function.update_self ..

theorem keyAdded_session (w : World) (id : Nat) :
    (keyAdded w id).sessions id = {w.sessions id with sessionNoO_EXLOCK := some w.nextSession} := Function.update_self ..

theorem keyMode_session (w : World) (id : Nat) :
    (keyMode w id).sessions id = {w.sessions id with sessionKeyLock := true} := Function.update_self ..

/-- A descriptor of an inode that nobody has locked. -/
theorem Linked.acquire (linked : Linked w) {inode : Nat} (closed : (w.sessions id).lockFD = none)
    (unlocked : w.flock inode = none) (known : inode < w.nextInode) :
    Linked (descriptor w id inode) := by
  have fds := linked.matched.join closed unlocked
  rw [← Function.comp_update PrefsPrivate.lockFD w.sessions id {w.sessions id with lockFD := some inode}] at fds
  obtain ⟨_,key,keyed,one,inodes,lockFile,store⟩ := linked
  have session_ (other : Nat) : (Function.update w.sessions id {w.sessions id with lockFD := some inode} other).sessionNoO_EXLOCK =
      (w.sessions other).sessionNoO_EXLOCK := update_keeps PrefsPrivate.sessionNoO_EXLOCK (by rfl) other
  refine ⟨fds,fun other => ?_,fun session there => ?_,fun other other' => ?_,fun inode' busy => ?_,lockFile,store⟩
  · exact (session_ other) ▸ key other
  · obtain ⟨other,own⟩ := keyed session there
    exact ⟨other,(session_ other).trans own⟩
  · intro session own own'
    exact one other other' session ((session_ other).symm.trans own) ((session_ other').symm.trans own')
  · by_cases here : inode' = inode
    · exact here ▸ known
    · refine inodes inode' fun free => busy ?_
      exact (Function.update_of_ne here ..).trans free

/-- A new session with the dynamic store adds the key. -/
theorem Linked.addKey (linked : Linked w) (id : Nat) (free : w.lockKey = none) :
    Linked (keyAdded w id) := by
  obtain ⟨fd,key,_,_,inodes,lockFile,_⟩ := linked
  have own (other : Nat) : (Function.update w.sessions id {w.sessions id with sessionNoO_EXLOCK := some w.nextSession}
      other).sessionNoO_EXLOCK = if other = id then some w.nextSession else none := by
    by_cases same : other = id
    · rw [same,Function.update_self,if_pos rfl]
    · rw [Function.update_of_ne same,if_neg same]
      cases there : (w.sessions other).sessionNoO_EXLOCK with
      | none => rfl
      | some session => exact absurd (free.symm.trans (key other session there)) (fun there => nomatch there)
  refine ⟨fun other inode => ?_,fun other session there => ?_,fun session there => ⟨id,?_⟩,
    fun other other' session there there' => ?_,inodes,lockFile,fun session there => ?_⟩
  · show (Function.update w.sessions id _ other).lockFD = some inode ↔ w.flock inode = some other
    rw [update_keeps PrefsPrivate.lockFD (by rfl) other]
    exact fd other inode
  · have there' := (own other).symm.trans there
    split at there'
    · exact there'
    · cases there'
  · exact ((own id).trans (if_pos rfl)).trans there
  · have mine := (own other).symm.trans there
    have mine' := (own other').symm.trans there'
    split at mine
    · split at mine'
      · rename_i same same'
        exact same.trans same'.symm
      · cases mine'
    · cases mine
  · exact Option.some.inj there ▸ Nat.lt_succ_self _

/-- A new session with the dynamic store that adds nothing is closed again. -/
theorem Linked.closeNew (linked : Linked w) (closed : (w.sessions id).sessionNoO_EXLOCK = none) :
    Linked ((World.modify {w with nextSession := w.nextSession + 1} id fun prefs =>
      {prefs with sessionNoO_EXLOCK := some w.nextSession}).releaseStore id) := by
  have other_ : w.lockKey ≠ some w.nextSession := fun same => Nat.lt_irrefl _ (linked.store _ same)
  simp only [World.releaseStore,modify_sessions,Function.update_self]
  refine linked.congr rfl (if_neg other_) rfl (Nat.le_succ _) (fun _ there => there) fun other => ?_
  by_cases same : other = id
  · subst same
    simp only [World.modify,Function.update_self]
    exact ⟨rfl,closed.symm⟩
  · simp only [World.modify,Function.update_of_ne same]
    exact ⟨rfl,rfl⟩

end FreebsdLaunchd.PreferencesLock
