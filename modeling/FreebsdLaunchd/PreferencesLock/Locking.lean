import Mathlib.Logic.Function.Basic
import FreebsdLaunchd.Library.Runs

/-! Locking, unlocking, committing and releasing sessions on one writable
preferences file, call by call. The lock is a lock file opened with `O_EXLOCK` or,
where the file system does not have it, a temporary key in the dynamic store. -/
namespace FreebsdLaunchd.PreferencesLock

/-- The signature of a version of the file, and nothing for no file. -/
abbrev Signature := Option Nat

structure PrefsPrivate where
  isRoot : Bool
  accessed : Bool
  changed : Bool
  locked : Bool
  released : Bool
  signature : Signature
  /-- The inode that the descriptor of the lock file is of. -/
  lockFD : Option Nat
  /-- Whether there is a key to lock with, as there is once `O_EXLOCK` was not supported. -/
  sessionKeyLock : Bool
  /-- The session with the dynamic store that the key is added through. -/
  sessionNoO_EXLOCK : Option Nat

structure World where
  hasO_EXLOCK : Bool
  file : Signature
  nextVersion : Nat
  /-- The inode of the lock file. -/
  lockFile : Option Nat
  nextInode : Nat
  /-- Who has an inode locked. -/
  flock : Nat → Option Nat
  /-- The session with the dynamic store that the temporary key is of. -/
  lockKey : Option Nat
  nextSession : Nat
  sessions : Nat → PrefsPrivate

inductive Errno where | ENOENT | EWOULDBLOCK | ENOTSUP | other deriving DecidableEq

/-- What may go wrong with one attempt to open the lock file. -/
structure Attempt where
  openFails : Option Errno
  parentCreated : Bool
  statFails : Bool

inductive StoreCall where
  | addSession
  | addWatchedKey
  | create
  | addTemporaryValue
  | notifyWait
  deriving DecidableEq

structure Faults where
  attempts : List Attempt
  store : Option StoreCall
  /-- `stat` of the preferences fails, other than for there being none. -/
  stat : Bool

namespace World

def modify (w : World) (id : Nat) (f : PrefsPrivate → PrefsPrivate) : World :=
  {w with sessions := Function.update w.sessions id (f (w.sessions id))}

def closeLock (w : World) (id : Nat) : World :=
  match (w.sessions id).lockFD with
  | some inode =>
    World.modify {w with flock := Function.update w.flock inode none} id fun prefs => {prefs with lockFD := none}
  | none => w

/-- Closing a session with the dynamic store removes its temporary key. -/
def releaseStore (w : World) (id : Nat) : World :=
  match (w.sessions id).sessionNoO_EXLOCK with
  | some session =>
    World.modify {w with lockKey := if w.lockKey = some session then none else w.lockKey} id fun prefs =>
      {prefs with sessionNoO_EXLOCK := none}
  | none => w

end World

/-! ## Locking -/

inductive OpenResult where
  | fd (inode : Nat)
  | fails (errno : Errno)
  | blocks

def openLock (w : World) (wait : Bool) (fault : Option Errno) : World × OpenResult :=
  match fault with
  | some errno => (w,.fails errno)
  | none =>
    if !w.hasO_EXLOCK then (w,.fails .ENOTSUP)
    else match w.lockFile with
      | none => ({w with lockFile := some w.nextInode, nextInode := w.nextInode + 1},.fd w.nextInode)
      | some inode =>
        if w.flock inode = none then (w,.fd inode)
        else if wait then (w,.blocks)
        else (w,.fails .EWOULDBLOCK)

def error (w : World) (id : Nat) : World × Bool := (w.closeLock id,false)

def locked (w : World) (id : Nat) (statFails : Bool) : World × Bool :=
  let prefs := w.sessions id
  if prefs.accessed && (statFails || prefs.signature ≠ w.file) then
    -- the preferences have been updated since the session was accessed
    error {w with lockFile := none} id
  else (w.modify id fun prefs => {prefs with locked := true},true)

/-- `none` for a session that goes on waiting. -/
def lockWithSCDynamicStore (w : World) (id : Nat) (wait : Bool) (fault : Option StoreCall) : Option (World × Bool) :=
  if fault = some .addSession then some (w,false)
  else if fault = some .addWatchedKey then some (w.releaseStore id,false)
  else if fault = some .create then some (w.modify id fun prefs => {prefs with sessionNoO_EXLOCK := none},false)
  else
    let session := w.nextSession
    let w := World.modify {w with nextSession := w.nextSession + 1} id fun prefs =>
      {prefs with sessionNoO_EXLOCK := some session}
    if w.lockKey = none ∧ fault ≠ some .addTemporaryValue then some ({w with lockKey := some session},true)
    else if !wait || fault = some .notifyWait then some (w.releaseStore id,false)
    else none

def lockByKey (w : World) (id : Nat) (wait : Bool) (faults : Faults) : Option (World × Bool) :=
  (lockWithSCDynamicStore w id wait faults.store).map fun (w,ok) =>
    if ok then locked w id faults.stat else error w id

def lockByFile (w : World) (id : Nat) (wait : Bool) (faults : Faults) : List Attempt → Option (World × Bool)
  | [] => none
  | attempt::rest =>
    match openLock w wait attempt.openFails with
    | (_,.blocks) => none
    | (w,.fails .ENOENT) =>
      if attempt.parentCreated then lockByFile w id wait faults rest else some (error w id)
    | (w,.fails .EWOULDBLOCK) => some (error w id)
    | (w,.fails .ENOTSUP) =>
      -- has_O_EXLOCK creates the lock file and unlinks it
      let w := {w with lockFile := none}
      if !w.hasO_EXLOCK then
        lockByKey (w.modify id fun prefs => {prefs with sessionKeyLock := true}) id wait faults
      else some (error w id)
    | (w,.fails .other) => some (error w id)
    | (w,.fd inode) =>
      let w := World.modify {w with flock := Function.update w.flock inode (some id)} id fun prefs =>
        {prefs with lockFD := some inode}
      if attempt.statFails || w.lockFile ≠ some inode then
        -- if the lock file was unlinked or re-created
        lockByFile (w.closeLock id) id wait faults rest
      else some (locked w id faults.stat)

def scPreferencesLock (w : World) (id : Nat) (wait : Bool) (faults : Faults) : Option (World × Bool) :=
  if (w.sessions id).locked then some (w,false)
  else if !(w.sessions id).isRoot then some (w,false)
  else if (w.sessions id).sessionKeyLock then lockByKey w id wait faults
  else lockByFile w id wait faults faults.attempts

def scPreferencesUnlock (w : World) (id : Nat) : World × Bool :=
  if !(w.sessions id).locked then (w,false)
  else
    let w := w.releaseStore id
    let w := if (w.sessions id).lockFD.isSome then World.closeLock {w with lockFile := none} id else w
    (w.modify id fun prefs => {prefs with locked := false},true)

/-! ## Committing -/

inductive Saving where
  | fails
  | saves (statFails : Bool)
  | removes (unlinkFails : Bool)

structure CommitFaults where
  saving : Saving
  notifyFails : Bool

def save (w : World) (id : Nat) : Saving → World × Bool
  | .fails => (w,false)
  | .saves statFails =>
    let w := {w with file := some w.nextVersion, nextVersion := w.nextVersion + 1}
    if statFails then (w,false)
    else (w.modify id fun prefs => {prefs with signature := w.file},true)
  | .removes unlinkFails =>
    let w := if unlinkFails then w else {w with file := none}
    (w.modify id fun prefs => {prefs with signature := none},true)

def commit (w : World) (id : Nat) (faults : CommitFaults) : World × Bool :=
  let (w,ok) := if (w.sessions id).changed then save w id faults.saving else (w,true)
  if !ok || faults.notifyFails then (w,false)
  else (w.modify id fun prefs => {prefs with changed := false},true)

def scPreferencesCommitChanges (w : World) (id : Nat) (lockFaults : Faults) (faults : CommitFaults) :
    Option (World × Bool) :=
  if (w.sessions id).locked then some (commit w id faults)
  else match scPreferencesLock w id true lockFaults with
    | none => none
    | some (w,false) => some (w,false)
    | some (w,true) =>
      let (w,ok) := commit w id faults
      some ((scPreferencesUnlock w id).1,ok)

/-! ## Accessing, changing and releasing -/

def scPreferencesAccess (w : World) (id : Nat) : World :=
  if (w.sessions id).accessed then w
  else w.modify id fun prefs => {prefs with
    accessed := true
    signature := w.file
    changed := prefs.changed || w.file = none}

def scPreferencesSetValue (w : World) (id : Nat) : World :=
  (scPreferencesAccess w id).modify id fun prefs => {prefs with changed := true}

def scPreferencesDeallocate (w : World) (id : Nat) : World :=
  let w := if (w.sessions id).lockFD.isSome then World.closeLock {w with lockFile := none} id else w
  (w.releaseStore id).modify id fun prefs => {prefs with locked := false, released := true}

inductive Call where
  | access (id : Nat)
  | setValue (id : Nat)
  | lock (id : Nat) (wait : Bool) (faults : Faults)
  | unlock (id : Nat)
  | commit (id : Nat) (lockFaults : Faults) (faults : CommitFaults)
  | release (id : Nat)

def Call.session : Call → Nat
  | .access id | .setValue id | .lock id _ _ | .unlock id | .commit id _ _ | .release id => id

/-- A call that does not return leaves no state between calls, and there are no
calls of a session that was released. -/
def perform (w : World) (call : Call) : World :=
  if (w.sessions call.session).released then w
  else match call with
    | .access id => scPreferencesAccess w id
    | .setValue id => scPreferencesSetValue w id
    | .lock id wait faults => ((scPreferencesLock w id wait faults).map Prod.fst).getD w
    | .unlock id => (scPreferencesUnlock w id).1
    | .commit id lockFaults faults => ((scPreferencesCommitChanges w id lockFaults faults).map Prod.fst).getD w
    | .release id => scPreferencesDeallocate w id

/-- New sessions, some of them root's, on a file and perhaps a lock file that
somebody left. -/
def initial (hasO_EXLOCK : Bool) (file lockFile : Option Nat) (isRoot : Nat → Bool) : World :=
  ⟨hasO_EXLOCK,file,file.elim 0 (· + 1),lockFile,lockFile.elim 0 (· + 1),fun _ => none,none,0,
    fun id => ⟨isRoot id,false,false,false,false,none,none,false,none⟩⟩

end FreebsdLaunchd.PreferencesLock
