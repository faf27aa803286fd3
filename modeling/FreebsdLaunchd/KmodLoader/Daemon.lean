import FreebsdLaunchd.KmodLoader.RadeonPCIIDs
import FreebsdLaunchd.Library.FirstOccurrences
import FreebsdLaunchd.Library.Substrings
import Mathlib.Algebra.Group.Nat.Defs

/-! What kmodloader loads in its one run. Two paths lead to a module: the display
controllers that pciconf lists, and what devmatch suggests for the devices without a driver. -/
namespace FreebsdLaunchd.KmodLoader

abbrev NSString := List Char

/-- A program that is run. It is not launched, or it writes to its two pipes, which hold
so many bytes each, and exits with a status. -/
inductive NSTask
  | notLaunched
  | launched (capacity : Nat) (terminationStatus : Int) (output errors : ByteArray)

/-- `initWithData` in UTF-8; there is no string if the bytes are something else. -/
def decoded (data : ByteArray) : Option NSString := data.utf8Decode?.map Array.toList

/-- What is known of a program when `waitUntilExit` has come back. -/
inductive Ended
  | notLaunched
  | exited (terminationStatus : Int) (output : Option NSString)

/-- The pipes are read only afterwards, so that a program with more to write waits
for ever, and so does the one that waits for it. -/
def NSTask.waitUntilExit : NSTask → Option Ended
  | .notLaunched => some .notLaunched
  | .launched capacity terminationStatus output errors =>
    if output.size ≤ capacity ∧ errors.size ≤ capacity then some (.exited terminationStatus (decoded output)) else none

/-- `componentsSeparatedByString` of a newline; there are none of a string that is nil. -/
def lines (output : Option NSString) : List NSString := output.elim [] (·.splitOn '\n')

def addObject (set : List NSString) (object : NSString) : List NSString := FirstOccurrences.addFirst id set object

/-! ## Display controllers -/

structure Device where
  vendor : NSString
  device : NSString
  deriving DecidableEq

def fourBehind (key line : NSString) : Option NSString :=
  (Substrings.location key line).bind fun location =>
    let maxRange := location + key.length
    if maxRange + 4 ≤ line.length then some (((line.drop maxRange).take 4).map Char.toLower) else none

def gpuDevice (line : NSString) : Option Device :=
  if (Substrings.location "class=0x0300".toList line).isNone then none
  else
    match fourBehind "vendor=0x".toList line,fourBehind "device=0x".toList line with
    | some vendor, some device => some ⟨"0x".toList ++ vendor,"0x".toList ++ device⟩
    | _, _ => none

def devicesOf : Ended → List Device
  | .notLaunched => []
  | .exited terminationStatus output => if terminationStatus ≠ 0 then [] else (lines output).filterMap gpuDevice

/-- `none`: the method does not return, here and below. -/
def gpuDevices (task : NSTask) : Option (List Device) := task.waitUntilExit.map devicesOf

def hexDigit (c : Char) : Option Nat :=
  if 48 ≤ c.toNat ∧ c.toNat ≤ 57 then some (c.toNat - 48)
  else if 97 ≤ c.toNat ∧ c.toNat ≤ 102 then some (c.toNat - 87)
  else if 65 ≤ c.toNat ∧ c.toNat ≤ 70 then some (c.toNat - 55)
  else none

def readHex (value : Nat) : NSString → Nat
  | [] => value
  | c::text =>
    match hexDigit c with
    | some digit => readHex (value * 16 + digit) text
    | none => value

/-- `strtoul` to base 16 of a text without a blank or a sign. -/
def strtoul16 : NSString → Nat
  | '0' :: 'x' :: text => readHex 0 text
  | text => readHex 0 text

def gpuKld (dev : Device) : Option NSString :=
  if dev.vendor = "0x8086".toList then some "i915kms".toList
  else if dev.vendor = "0x1002".toList then
    let devID := strtoul16 dev.device % 2^16
    let isRadeon := radeonKMSDeviceIDs.any (· = devID)
    some (if isRadeon then "radeonkms".toList else "amdgpu".toList)
  else if dev.vendor = "0x10de".toList then some "nvidia-drm".toList
  else none

def gpuKldsForDevices (devices : List Device) : List NSString :=
  devices.foldl (fun r dev => (gpuKld dev).elim r (addObject r)) []

/-! ## The other modules -/

/-- `whitespaceCharacterSet`: the tabulator and the spaces of Unicode, but no newline. -/
def isWhitespace (c : Char) : Bool :=
  c.toNat ∈ [0x9,0x20,0xa0,0x1680,0x202f,0x205f,0x3000] || (0x2000 ≤ c.toNat && c.toNat ≤ 0x200a)

def trim (raw : NSString) : NSString := ((raw.dropWhile isWhitespace).reverse.dropWhile isWhitespace).reverse

/-- What is in front of the last dot in the last component, which may not begin with it. -/
def deletingPathExtension (path : NSString) : NSString :=
  let reversed := path.reverse.dropWhile (· = '/')
  match reversed.dropWhile fun c => c ≠ '.' ∧ c ≠ '/' with
  | '.' :: before => if before = [] ∨ before.head? = some '/' then reversed.reverse else before.reverse
  | _ => if reversed = [] then path else reversed.reverse

def hasSuffixKo (name : NSString) : Bool := ".ko".toList <:+ name

def suggestedKld (raw : NSString) : Option NSString :=
  let line := trim raw
  if line = [] then none
  else some (if hasSuffixKo line then deletingPathExtension line else line)

def suggestedKlds : Ended → List NSString
  | .notLaunched => []
  | .exited terminationStatus output =>
    if terminationStatus ≠ 0 then []
    else (lines output).foldl (fun result raw => (suggestedKld raw).elim result (addObject result)) []

def kldsFromDevmatch (task : NSTask) : Option (List NSString) := task.waitUntilExit.map suggestedKlds

def kldstatFields : Ended → List NSString
  | .notLaunched => []
  | .exited _ output => (lines output).flatMap (·.splitOnP isWhitespace)

def loadedOf (kldstat : Ended) : List NSString :=
  ((kldstatFields kldstat).filter hasSuffixKo).map deletingPathExtension

def loadedKlds (task : NSTask) : Option (List NSString) := task.waitUntilExit.map loadedOf

def runOneShot (pciconf devmatch kldstat : NSTask) : Option (List NSString) := do
  let devices ← gpuDevices pciconf
  let gpuKlds := gpuKldsForDevices devices
  let devmatchKlds ← kldsFromDevmatch devmatch
  -- GPU first
  let plan := devmatchKlds.foldl addObject (gpuKlds.foldl addObject [])
  let loaded ← loadedKlds kldstat
  return plan.filter (· ∉ loaded)

end FreebsdLaunchd.KmodLoader
