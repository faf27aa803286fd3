import FreebsdLaunchd.Library.Runs
import FreebsdLaunchd.PreferencesLock.Locking

/-! The calls of many sessions on one preferences file, interleaved system call by
system call. `O_EXLOCK` is there to lock with, and an inode that is open is no other
lock file's. -/
namespace FreebsdLaunchd.PreferencesRace
open PreferencesLock (Signature)

inductive Point where
  | idle
  -- SCPreferencesLock
  | opening
  | acquiring (inode : Nat)
  | comparing
  | retrying
  | checking
  | stale
  | closing
  -- SCPreferencesCommitChanges
  | saving
  | replacing
  | signing
  | removing
  | notifying
  -- SCPreferencesUnlock
  | unlinking
  | unlockClosing
  | clearing
  deriving DecidableEq

structure PrefsPrivate where
  point : Point
  /-- The one of `SCPreferencesCommitChanges`, while the session is in it. -/
  wasLocked : Option Bool
  /-- The argument of `SCPreferencesLock`. -/
  wait : Bool
  accessed : Bool
  changed : Bool
  locked : Bool
  signature : Signature
  /-- The inode that the descriptor of the lock file is of. -/
  lockFD : Option Nat
  /-- What the session found when it accessed the file: history, which no step reads. -/
  read : Signature
  /-- What the session last made of the file: history too. -/
  lastCommitted : Option Signature

structure Disk where
  file : Signature
  nextVersion : Nat
  /-- The inode of the lock file. -/
  lockFile : Option Nat
  nextInode : Nat
  /-- Who has an inode locked. -/
  flock : Nat → Option Nat

structure World where
  disk : Disk
  sessions : Nat → PrefsPrivate

/-- What comes of a system call, and of the question whether empty preferences are
to be removed. -/
inductive Outcome where | done | fails | removes deriving DecidableEq

inductive Action where
  /-- `dictionary` tells whether a file, if there is one, has a dictionary in it. -/
  | access (dictionary : Bool)
  | setValue (dictionary : Bool)
  | lock (wait : Bool)
  | unlock
  | commit
  /-- The call goes on. -/
  | go (outcome : Outcome)
  deriving DecidableEq

structure Event where
  session : Nat
  action : Action

/-! ## Calling -/

def scPreferencesAccess (disk : Disk) (prefs : PrefsPrivate) (dictionary : Bool) : PrefsPrivate :=
  if prefs.accessed then prefs
  else {prefs with
    accessed := true
    signature := disk.file
    read := disk.file
    changed := prefs.changed || decide (disk.file = none) || !dictionary}

def scPreferencesSetValue (disk : Disk) (prefs : PrefsPrivate) (dictionary : Bool) : PrefsPrivate :=
  {scPreferencesAccess disk prefs dictionary with changed := true}

def scPreferencesLock (prefs : PrefsPrivate) (wait : Bool) : PrefsPrivate :=
  if prefs.locked then prefs else {prefs with wait := wait, point := .opening}

def scPreferencesUnlock (prefs : PrefsPrivate) : PrefsPrivate :=
  if prefs.locked then {prefs with point := .unlinking} else prefs

/-- What `SCPreferencesCommitChanges` does once the session is locked. -/
def apply (prefs : PrefsPrivate) : PrefsPrivate :=
  {prefs with point := if prefs.changed then .saving else .notifying}

def scPreferencesCommitChanges (prefs : PrefsPrivate) : PrefsPrivate :=
  if prefs.locked then apply {prefs with wasLocked := some true}
  else scPreferencesLock {prefs with wasLocked := some false} true

def call (disk : Disk) (prefs : PrefsPrivate) : Action → PrefsPrivate
  | .access dictionary => scPreferencesAccess disk prefs dictionary
  | .setValue dictionary => scPreferencesSetValue disk prefs dictionary
  | .lock wait => scPreferencesLock prefs wait
  | .unlock => scPreferencesUnlock prefs
  | .commit => scPreferencesCommitChanges prefs
  | .go _ => prefs

/-! ## Going on -/

def leave (prefs : PrefsPrivate) : PrefsPrivate := {prefs with point := .idle, wasLocked := none}

def enter (prefs : PrefsPrivate) : PrefsPrivate :=
  match prefs.wasLocked with
  | some _ => apply {prefs with locked := true}
  | none => leave {prefs with locked := true}

def done (prefs : PrefsPrivate) : PrefsPrivate :=
  match prefs.wasLocked with
  | some false => {prefs with point := .unlinking}
  | _ => leave prefs

def Disk.close (disk : Disk) : Option Nat → Disk
  | some inode => {disk with flock := Function.update disk.flock inode none}
  | none => disk

def Disk.unlinkLock (disk : Disk) (outcome : Outcome) : Disk :=
  if outcome = .fails then disk else {disk with lockFile := none}

/-- One system call, and what the session does with what comes of it. -/
def proceed (disk : Disk) (id : Nat) (prefs : PrefsPrivate) (outcome : Outcome) : Disk × PrefsPrivate :=
  match prefs.point with
  | .idle => (disk,prefs)
  | .opening =>
    if outcome = .fails then (disk,{prefs with point := .closing})
    else match disk.lockFile with
      | some inode => (disk,{prefs with point := .acquiring inode})
      | none =>
        ({disk with lockFile := some disk.nextInode, nextInode := disk.nextInode + 1},
          {prefs with point := .acquiring disk.nextInode})
  | .acquiring inode =>
    -- the same open, with its O_EXLOCK
    if outcome = .fails then (disk,{prefs with point := .closing})
    else if disk.flock inode = none then
      ({disk with flock := Function.update disk.flock inode (some id)},
        {prefs with lockFD := some inode, point := .comparing})
    else if prefs.wait then (disk,prefs)
    else (disk,{prefs with point := .closing})
  | .comparing =>
    -- if the lock file was unlinked or re-created
    if outcome = .fails ∨ disk.lockFile ≠ prefs.lockFD then (disk,{prefs with point := .retrying})
    else (disk,{prefs with point := .checking})
  | .retrying => (disk.close prefs.lockFD,{prefs with lockFD := none, point := .opening})
  | .checking =>
    if prefs.accessed = true ∧ (outcome = .fails ∨ prefs.signature ≠ disk.file) then
      -- the preferences have been updated since the session was accessed
      (disk,{prefs with point := .stale})
    else (disk,enter prefs)
  | .stale => (disk.unlinkLock outcome,{prefs with point := .closing})
  | .closing => (disk.close prefs.lockFD,leave {prefs with lockFD := none})
  | .saving =>
    match outcome with
    | .fails => (disk,done prefs)
    | .removes => (disk,{prefs with point := .removing})
    | .done => (disk,{prefs with point := .replacing})
  | .replacing =>
    if outcome = .fails then (disk,done prefs)
    else
      let disk := {disk with file := some disk.nextVersion, nextVersion := disk.nextVersion + 1}
      (disk,{prefs with lastCommitted := some disk.file, point := .signing})
  | .signing =>
    if outcome = .fails then (disk,done prefs)
    else (disk,{prefs with signature := disk.file, point := .notifying})
  | .removing =>
    let prefs := {prefs with signature := none, point := .notifying}
    if outcome = .fails then (disk,prefs)
    else ({disk with file := none},{prefs with lastCommitted := some none})
  | .notifying => (disk,if outcome = .fails then done prefs else done {prefs with changed := false})
  | .unlinking => (disk.unlinkLock outcome,{prefs with point := .unlockClosing})
  | .unlockClosing => (disk.close prefs.lockFD,{prefs with lockFD := none, point := .clearing})
  | .clearing => (disk,leave {prefs with locked := false})

/-- A session that is in a call makes no other. -/
def act (disk : Disk) (id : Nat) (prefs : PrefsPrivate) : Action → Disk × PrefsPrivate
  | .go outcome => proceed disk id prefs outcome
  | action => (disk,if prefs.point = .idle then call disk prefs action else prefs)

def step (w : World) (event : Event) : World :=
  let (disk,prefs) := act w.disk event.session (w.sessions event.session) event.action
  ⟨disk,Function.update w.sessions event.session prefs⟩

/-- New sessions, on a file and perhaps a lock file that somebody left. -/
def initial (file lockFile : Option Nat) : World :=
  ⟨⟨file,file.elim 0 (· + 1),lockFile,lockFile.elim 0 (· + 1),fun _ => none⟩,
    fun _ => ⟨.idle,none,false,false,false,false,none,none,none,none⟩⟩

end FreebsdLaunchd.PreferencesRace
