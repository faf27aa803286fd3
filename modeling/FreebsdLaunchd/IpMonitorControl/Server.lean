import FreebsdLaunchd.Library.Substrings
import Mathlib.Data.Finmap
import Mathlib.Order.Bounds.Basic

/-! The sessions in which clients assert ranks of interfaces and give advisories for
them, and what the IP monitor copies: the ranks of all sessions merged, and the
interfaces that may have changed since it copied last. -/
namespace FreebsdLaunchd.IpMonitorControl

abbrev CFString := List Char

abbrev CFDictionary := Finmap fun _ : CFString => Int

/-- The order in which `CFDictionaryApplyFunction` goes through a dictionary. -/
structure Enumeration where
  list : CFDictionary → List (CFString × Int)
  lists : ∀ d key value, (key,value) ∈ list d ↔ d.lookup key = some value

abbrev SCNetworkServicePrimaryRank := UInt32

abbrev SCNetworkInterfaceAdvisory := UInt32

def rankDefault : SCNetworkServicePrimaryRank := 0

def rankLast : SCNetworkServicePrimaryRank := 2

def advisoryNone : SCNetworkInterfaceAdvisory := 0

/-- `CFNumberCreate` with `kCFNumberSInt32Type`. -/
def numberCreate (n : UInt32) : Int := n.toInt32.toInt

/-- `ControlSession`; there is no dictionary without entries. -/
structure ControlSession where
  connection : Nat
  assertions : Option CFDictionary
  advisories : Option CFDictionary

structure Server where
  sessions : List ControlSession
  ifChanges : Option (List CFString)
  ifChangesRange : Nat

def Server.start : Server := ⟨[],none,0⟩

/-! ## The interfaces that have changed -/

/-- Only the part of the array within `S_if_changes_range` is searched. -/
def interfaceChangedListAddInterface (ifname : CFString) (s : Server) : Server :=
  match s.ifChanges with
  | none => {s with ifChanges := some [ifname], ifChangesRange := 1}
  | some changes =>
    if ifname ∈ changes.take s.ifChangesRange then s
    else {s with ifChanges := some (changes ++ [ifname]), ifChangesRange := s.ifChangesRange + 1}

def interfaceChangedListCopy (s : Server) : Option (List CFString) × Server := (s.ifChanges,{s with ifChanges := none})

/-! ## Merging -/

/-- What `InterfaceRankAssertionAdd` and `InterfaceAdvisoryAdd` do with a rank. -/
def addRank (assertions : Option CFDictionary) (key : CFString) (rank : Int) : Option CFDictionary :=
  match assertions with
  | none => some ((∅ : CFDictionary).insert key rank)
  | some assertions =>
    match assertions.lookup key with
    | none => some (assertions.insert key rank)
    | some existingRank => if rank > existingRank then some (assertions.insert key rank) else some assertions

def interfaceRankAssertionAdd (assertions : Option CFDictionary) (entry : CFString × Int) : Option CFDictionary :=
  addRank assertions entry.1 entry.2

def interfaceAdvisoryAdd (assertions : Option CFDictionary) (entry : CFString × Int) : Option CFDictionary :=
  addRank assertions entry.1 (numberCreate rankLast)

/-- The entries that `CFDictionaryApplyFunction` goes through, if there is a dictionary. -/
def Enumeration.entries (e : Enumeration) (d : Option CFDictionary) : List (CFString × Int) := (d.map e.list).getD []

def addSession (e : Enumeration) (assertions : Option CFDictionary) (session : ControlSession) : Option CFDictionary :=
  (e.entries session.assertions).foldl interfaceRankAssertionAdd
    ((e.entries session.advisories).foldl interfaceAdvisoryAdd assertions)

def interfaceRankAssertionsCopy (e : Enumeration) (sessions : List ControlSession) : Option CFDictionary :=
  sessions.foldl (addSession e) none

/-! ## The sessions -/

def controlSessionLookup (connection : Nat) (s : Server) : Option ControlSession :=
  s.sessions.find? (·.connection = connection)

/-- A connection that has gone hears of nothing more, so that its number may belong to another one. -/
def controlSessionForConnection (connection : Nat) (s : Server) : ControlSession × Server :=
  match controlSessionLookup connection s with
  | some session => (session,s)
  | none => (⟨connection,none,none⟩,{s with sessions := ⟨connection,none,none⟩::s.sessions})

def Server.put (session : ControlSession) (s : Server) : Server :=
  {s with sessions := s.sessions.map fun other => if other.connection = session.connection then session else other}

/-- How a number is set in a dictionary of the session, where `clear` removes it; `none`
where there is nothing to clear. -/
def assign (clear : UInt32) (entries : Option CFDictionary) (ifname : CFString) (number : UInt32) :
    Option (Option CFDictionary) :=
  match entries with
  | none => if number = clear then none else some (some ((∅ : CFDictionary).insert ifname (numberCreate number)))
  | some entries =>
    if number = clear then
      let entries := entries.erase ifname
      some (if entries.keys.card = 0 then none else some entries)
    else some (some (entries.insert ifname (numberCreate number)))

def controlSessionSetInterfaceRank (connection : Nat) (ifname : CFString) (rank : SCNetworkServicePrimaryRank)
    (s : Server) : Server :=
  let (session,s) := controlSessionForConnection connection s
  match assign rankDefault session.assertions ifname rank with
  | none => s
  | some assertions => interfaceChangedListAddInterface ifname (s.put {session with assertions})

def controlSessionSetInterfaceAdvisory (connection : Nat) (ifname : CFString) (advisory : SCNetworkInterfaceAdvisory)
    (s : Server) : Server :=
  let (session,s) := controlSessionForConnection connection s
  match assign advisoryNone session.advisories ifname advisory with
  | none => s
  | some advisories => interfaceChangedListAddInterface ifname (s.put {session with advisories})

/-- `AddChangedInterface` for each entry. -/
def addChangedInterfaces (entries : List (CFString × Int)) (s : Server) : Server :=
  entries.foldl (fun s entry => interfaceChangedListAddInterface entry.1 s) s

def controlSessionInvalidate (e : Enumeration) (session : ControlSession) (s : Server) : Server :=
  let s := {s with sessions := s.sessions.eraseP (·.connection = session.connection)}
  addChangedInterfaces (e.entries session.assertions) (addChangedInterfaces (e.entries session.advisories) s)

def handleDisconnect (e : Enumeration) (connection : Nat) (s : Server) : Server :=
  match controlSessionLookup connection s with
  | none => s
  | some session => controlSessionInvalidate e session s

/-! ## Runs -/

inductive Step
  | setInterfaceRank (connection : Nat) (ifname : CFString) (rank : SCNetworkServicePrimaryRank)
  | setInterfaceAdvisory (connection : Nat) (ifname : CFString) (advisory : SCNetworkInterfaceAdvisory)
  | disconnect (e : Enumeration) (connection : Nat)
  | copyInterfaceRankInformation (e : Enumeration)

/-- What `IPMonitorControlServerCopyInterfaceRankInformation` hands out. -/
structure Handout where
  info : Option CFDictionary
  changed : Option (List CFString)

def Server.step (s : Server) : Step → Option Handout × Server
  | .setInterfaceRank connection ifname rank => (none,controlSessionSetInterfaceRank connection ifname rank s)
  | .setInterfaceAdvisory connection ifname advisory =>
    (none,controlSessionSetInterfaceAdvisory connection ifname advisory s)
  | .disconnect e connection => (none,handleDisconnect e connection s)
  | .copyInterfaceRankInformation e =>
    let dict := interfaceRankAssertionsCopy e s.sessions
    let (changed,s) := interfaceChangedListCopy s
    (some ⟨dict,changed⟩,s)

/-- What is handed out on the way, and the server in the end. -/
def Server.run (s : Server) : List Step → List Handout × Server
  | [] => ([],s)
  | step::steps =>
    let (handout,s) := s.step step
    let (handouts,s) := s.run steps
    (handout.toList ++ handouts,s)

/-! ## What the sessions assert -/

/-- What each connection asserts for each interface, as it was told last. -/
structure Asserted where
  rank : Nat → CFString → SCNetworkServicePrimaryRank
  advisory : Nat → CFString → SCNetworkInterfaceAdvisory

def Asserted.nothing : Asserted := ⟨fun _ _ => rankDefault,fun _ _ => advisoryNone⟩

def setAt (table : Nat → CFString → UInt32) (connection : Nat) (ifname : CFString) (number : UInt32) :
    Nat → CFString → UInt32 :=
  fun c i => if c = connection ∧ i = ifname then number else table c i

def Asserted.step (a : Asserted) : Step → Asserted
  | .setInterfaceRank connection ifname rank => {a with rank := setAt a.rank connection ifname rank}
  | .setInterfaceAdvisory connection ifname advisory => {a with advisory := setAt a.advisory connection ifname advisory}
  | .disconnect _ connection =>
    ⟨fun c i => if c = connection then rankDefault else a.rank c i,
      fun c i => if c = connection then advisoryNone else a.advisory c i⟩
  | .copyInterfaceRankInformation _ => a

def Asserted.run (a : Asserted) (steps : List Step) : Asserted := steps.foldl Asserted.step a

/-- The ranks asserted for an interface, and the last one if there is an advisory for it. -/
def Asserted.ranks (a : Asserted) (ifname : CFString) : Set Int :=
  {r | (∃ c, a.rank c ifname ≠ rankDefault ∧ r = numberCreate (a.rank c ifname)) ∨
    ∃ c, a.advisory c ifname ≠ advisoryNone ∧ r = numberCreate rankLast}

/-- The value of an interface in a merged dictionary, if there is one. -/
def entry (info : Option CFDictionary) (ifname : CFString) : Option Int := info.bind (·.lookup ifname)

/-- Each interface has the greatest of its ranks, and one without any has no entry. -/
def Tops (info : Option CFDictionary) (ranks : CFString → Set Int) : Prop :=
  ∀ ifname, match entry info ifname with
    | none => ranks ifname = ∅
    | some rank => IsGreatest (ranks ifname) rank

end FreebsdLaunchd.IpMonitorControl
