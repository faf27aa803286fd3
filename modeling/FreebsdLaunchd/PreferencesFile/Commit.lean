import FreebsdLaunchd.Preferences.Path
import FreebsdLaunchd.Library.Runs
import Mathlib.Logic.Function.Basic

/-! One call of `SCPreferencesCommitChanges`, system call by system call: each step
takes what the next call comes to, so that a call interrupted anywhere is a call
whose schedule ends there. -/
namespace FreebsdLaunchd.PreferencesFile
open Preferences

abbrev Path := List Char
abbrev Bytes := List UInt8

abbrev FileSystem := Path → Option Bytes

inductive Errno where | ENOENT | EINTR | other deriving DecidableEq

/-- What a system call comes to: it does what it should, it writes no more than
`n+1` bytes, or it fails and does nothing. -/
inductive Outcome where
  | done
  | short (n : Nat)
  | fails (errno : Errno)

inductive CFValue where
  | boolean (value : Bool)
  | string (text : CFString)
  | other

/-- A session, and of its options the two that a commit reads. -/
structure PrefsPrivate (α : Type) where
  path : Path
  newPath : Option Path
  /-- The file is looked for in two directories. -/
  apart : newPath ≠ some path
  removeWhenEmpty : Option CFValue
  protectionClass : Option CFValue
  prefs : CFDictionary α
  changed : Bool
  locked : Bool

inductive Point where
  | lock
  | stat
  | openNew
  | createData
  | write (offset : Nat) (left : Bytes)
  | unlinkNew
  | close
  | rename
  | unlinkOld
  | symlink
  | statNew
  | unlinkEmpty
  | notify
  | unlock (ok : Bool)
  | returned (ok : Bool)

structure Call (α : Type) where
  fs : FileSystem
  prefs : PrefsPrivate α
  wasLocked : Bool
  /-- The file at the target path has been replaced or removed. -/
  wrote : Bool
  point : Point

variable {α : Type}

def target (prefs : PrefsPrivate α) : Path := prefs.newPath.getD prefs.path

def thePath (prefs : PrefsPrivate α) : Path := target prefs ++ "-new".toList

/-- The dictionary is empty and the session has been asked to remove empty files. -/
def removesEmpty (prefs : PrefsPrivate α) : Bool :=
  prefs.prefs.isEmpty && match prefs.removeWhenEmpty with
    | some (.boolean value) => value
    | _ => false

def validProtectionClass : Option CFValue → Bool
  | none => true
  | some (.string [c]) => 'A' ≤ c && c ≤ 'F'
  | some _ => false

def overwrite (content : Bytes) (offset : Nat) (chunk : Bytes) : Bytes :=
  content.take offset ++ chunk ++ content.drop (offset + chunk.length)

namespace Call

def goto (call : Call α) (point : Point) : Call α := {call with point := point}

def finish (call : Call α) (ok : Bool) : Call α :=
  call.goto (if call.wasLocked then .returned ok else .unlock ok)

def begin_ (call : Call α) : Call α :=
  if !call.prefs.changed then call.goto .notify
  else if removesEmpty call.prefs then call.goto .unlinkEmpty
  else call.goto .stat

end Call

def writeMore (call : Call α) (offset : Nat) (left : Bytes) : Call α :=
  call.goto (if left = [] then .close else .write offset left)

def wrotePart (call : Call α) (offset n : Nat) (left : Bytes) : Call α :=
  let content := (call.fs (thePath call.prefs)).getD []
  writeMore {call with fs := Function.update call.fs (thePath call.prefs) (some (overwrite content offset (left.take n)))}
    (offset + n) (left.drop n)

/-- The call with the outcome of its next system call. `serialize` stands for
`CFPropertyListCreateData`, which may also fail. -/
def step (serialize : CFDictionary α → Bytes) (call : Call α) (outcome : Outcome) : Call α :=
  match call.point, outcome with
  | .lock, .fails _ => call.goto (.returned false)
  | .lock, _ => Call.begin_ {call with prefs := {call.prefs with locked := true}}
  | .stat, .fails .EINTR => call.finish false
  | .stat, .fails .other => call.finish false
  -- no file yet
  | .stat, _ => if validProtectionClass call.prefs.protectionClass then call.goto .openNew else call.finish false
  | .openNew, .fails _ => call.finish false
  -- O_WRONLY|O_CREAT: a file that is there keeps its bytes
  | .openNew, _ =>
    Call.goto {call with fs := Function.update call.fs (thePath call.prefs) (some ((call.fs (thePath call.prefs)).getD []))}
      .createData
  | .createData, .fails _ => call.finish false
  | .createData, _ => writeMore call 0 (serialize call.prefs.prefs)
  | .write _ _, .fails .EINTR => call
  | .write _ _, .fails _ => call.goto .unlinkNew
  | .write offset left, .short n => wrotePart call offset (min (n+1) left.length) left
  | .write offset left, .done => wrotePart call offset left.length left
  | .unlinkNew, .fails _ => call.finish false
  | .unlinkNew, _ => Call.finish {call with fs := Function.update call.fs (thePath call.prefs) none} false
  | .close, .fails _ => call.goto .unlinkNew
  | .close, _ => call.goto .rename
  | .rename, .fails _ => call.finish false
  | .rename, _ =>
    Call.goto {call with
      fs := Function.update (Function.update call.fs (target call.prefs) (call.fs (thePath call.prefs)))
        (thePath call.prefs) none
      wrote := true}
      -- prefs file saved in "new" directory
      (if call.prefs.newPath.isSome then .unlinkOld else .statNew)
  | .unlinkOld, .fails _ => call.goto .symlink
  | .unlinkOld, _ => Call.goto {call with fs := Function.update call.fs call.prefs.path none} .symlink
  | .symlink, _ =>
    Call.goto {call with prefs := {call.prefs with
      path := target call.prefs
      newPath := none
      apart := by simp}} .statNew
  | .statNew, .fails _ => call.finish false
  | .statNew, _ => call.goto .notify
  -- remove the empty .plist
  | .unlinkEmpty, .fails _ => call.goto .notify
  | .unlinkEmpty, _ =>
    Call.goto {call with fs := Function.update call.fs (target call.prefs) none, wrote := true} .notify
  | .notify, .fails _ => call.finish false
  | .notify, _ => Call.finish {call with prefs := {call.prefs with changed := false}} true
  | .unlock ok, _ => Call.goto {call with prefs := {call.prefs with locked := false}} (.returned ok)
  | .returned _, _ => call

def scPreferencesCommitChanges (prefs : PrefsPrivate α) (fs : FileSystem) : Call α :=
  let call : Call α := ⟨fs,prefs,prefs.locked,false,.lock⟩
  if prefs.locked then call.begin_ else call

end FreebsdLaunchd.PreferencesFile
