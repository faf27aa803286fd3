import FreebsdLaunchd.Library.Substrings
import Mathlib.Data.List.Basic
import Mathlib.Logic.Function.Basic

/-! The network information state: one array with the IPv4 entries in its first
half and the IPv6 entries in its second, relative aliases between the two, and a
list of indices that orders the interfaces. -/
namespace FreebsdLaunchd.Nwi

inductive AF where | inet | inet6 deriving DecidableEq

def nwiOtherAf : AF → AF
  | .inet => .inet6
  | .inet6 => .inet

def IFNAMSIZ : Nat := 16

def NWI_IFSTATE_FLAGS_NOT_IN_IFLIST : BitVec 64 := 0x20
def NWI_IFSTATE_FLAGS_MASK : BitVec 64 := 0xff
def NWI_IFSTATE_FLAGS_DIFF_MASK : BitVec 64 := 0xf00
def NWI_IFSTATE_FLAGS_LAST_ITEM : BitVec 64 := 0x1000

abbrev IfName := List Char

/-- The address union of a candidate, to be read by family. -/
structure InAddr where
  iaddr : BitVec 32
  iaddr6 : BitVec 128

structure Sockaddr where
  saLen : Nat
  saFamily : Nat
  bytes : List UInt8

structure NwiIfstate where
  ifname : IfName
  flags : BitVec 64
  afAliasOffset : Int
  rank : Nat
  af : AF
  iaddr : BitVec 32
  iaddr6 : BitVec 128
  ifGenerationCount : Nat
  reachFlags : BitVec 32
  vpnServerAddress : List UInt8

/-- `ifstateList` is the array, of which the first `2 * maxIfCount` elements are the
state's own, and `ifList` is the part in use of the indices behind it. -/
structure NwiState where
  maxIfCount : Nat
  ipv4Count : Nat
  ipv6Count : Nat
  generationCount : Nat
  ifstateList : Nat → NwiIfstate
  ifList : List Nat

def sizeofVpnServerAddress : Nat := 28

def zeroIfstate : NwiIfstate := ⟨[],0,0,0,.inet,0,0,0,0,List.replicate sizeofVpnServerAddress 0⟩

namespace NwiState

def write (state : NwiState) (i : Nat) (ifstate : NwiIfstate) : NwiState :=
  {state with ifstateList := Function.update state.ifstateList i ifstate}

def modify (state : NwiState) (i : Nat) (f : NwiIfstate → NwiIfstate) : NwiState :=
  state.write i (f (state.ifstateList i))

def base (state : NwiState) : AF → Nat
  | .inet => 0
  | .inet6 => state.maxIfCount

def count (state : NwiState) : AF → Nat
  | .inet => state.ipv4Count
  | .inet6 => state.ipv6Count

def setCount (state : NwiState) (af : AF) (n : Nat) : NwiState :=
  match af with
  | .inet => {state with ipv4Count := n}
  | .inet6 => {state with ipv6Count := n}

end NwiState

/-! ## Reading -/

def nwiStateGetIfstateWithIndex (state : NwiState) (af : AF) (idx : Nat) : Option Nat :=
  if idx ≥ state.count af then none else some (state.base af + idx)

def nwiStateGetIfstateWithName (state : Option NwiState) (af : AF) (name : IfName) : Option Nat :=
  match state with
  | none => none
  | some state =>
    ((List.range (state.count af)).find? fun idx => (state.ifstateList (state.base af + idx)).ifname = name).map
      (state.base af + ·)

def nwiIfstateGetAlias (state : NwiState) (i : Nat) (af : AF) : Option Nat :=
  if (state.ifstateList i).af = af then some i
  else if (state.ifstateList i).afAliasOffset = 0 then none
  else some (i + (state.ifstateList i).afAliasOffset).toNat

/-! ## The interface list -/

def nwiStateAddToIfList (state : NwiState) (i : Nat) : NwiState :=
  if (state.ifstateList i).flags &&& NWI_IFSTATE_FLAGS_NOT_IN_IFLIST ≠ 0 then state
  else if state.ifList.length ≥ state.maxIfCount then state
  else if state.ifList.any fun scan => (state.ifstateList scan).ifname = (state.ifstateList i).ifname then state
  else {state with ifList := state.ifList ++ [i]}

def setIfListLoop : Nat → Nat → Nat → NwiState → NwiState
  | 0, _, _, state => state
  | steps+1, v4, v6, state =>
    match nwiStateGetIfstateWithIndex state .inet v4, nwiStateGetIfstateWithIndex state .inet6 v6 with
    | none, none => state
    | some scan4, none => setIfListLoop steps (v4+1) v6 (nwiStateAddToIfList state scan4)
    | none, some scan6 => setIfListLoop steps v4 (v6+1) (nwiStateAddToIfList state scan6)
    | some scan4, some scan6 =>
      if (state.ifstateList scan4).rank ≤ (state.ifstateList scan6).rank then
        setIfListLoop steps (v4+1) v6 (nwiStateAddToIfList state scan4)
      else setIfListLoop steps v4 (v6+1) (nwiStateAddToIfList state scan6)

def nwiStateSetIfList (state : NwiState) : NwiState :=
  setIfListLoop (state.ipv4Count + state.ipv6Count) 0 0 {state with ifList := []}

def nwiStateFinalize (state : Option NwiState) : Option NwiState := state.map nwiStateSetIfList

/-! ## Creating and growing -/

/-- An alias offset moved away from zero by as much as the families moved apart. -/
def fixOffset (offset : Int) (ifstate : NwiIfstate) : NwiIfstate :=
  if ifstate.afAliasOffset ≠ 0 then {ifstate with afAliasOffset := ifstate.afAliasOffset + offset} else ifstate

def nwiStateFixAfAliases (state : NwiState) (oldMaxIfCount : Nat) : NwiState :=
  let offset : Int := state.maxIfCount - oldMaxIfCount
  if offset < 0 then state
  else
    -- IPv6 is higher in memory: its aliases are backward, those of IPv4 forward
    let state := (List.range state.ipv4Count).foldl (fun state i => state.modify (state.base .inet + i) (fixOffset offset)) state
    (List.range state.ipv6Count).foldl (fun state i => state.modify (state.base .inet6 + i) (fixOffset (-offset))) state

def newState (maxIfCount : Nat) : NwiState := ⟨maxIfCount,0,0,0,fun _ => zeroIfstate,[]⟩

def bcopy (source : Nat → NwiIfstate) (start : Nat) (target : Nat → NwiIfstate) (place n : Nat) : Nat → NwiIfstate :=
  fun i => if place ≤ i ∧ i < place + n then source (start + (i - place)) else target i

def nwiStateNew (oldState : Option NwiState) (maxIfCount : Nat) : Option NwiState :=
  match oldState with
  | none => if maxIfCount = 0 then none else some (newState maxIfCount)
  | some old =>
    -- if we're staying the same or shrinking, don't grow
    if old.maxIfCount ≥ maxIfCount then some old
    else
      let state := newState maxIfCount
      let state := {state with
        ipv6Count := old.ipv6Count
        ifstateList := bcopy old.ifstateList old.maxIfCount state.ifstateList maxIfCount old.ipv6Count}
      let state := {state with
        ipv4Count := old.ipv4Count
        ifstateList := bcopy old.ifstateList 0 state.ifstateList 0 old.ipv4Count}
      some (nwiStateSetIfList (nwiStateFixAfAliases state old.maxIfCount))

/-! ## Adding and clearing -/

def nwiStateClear (state : NwiState) (af : AF) : NwiState := state.setCount af 0

def nwiStateAddIfstateAlias (state : NwiState) (i : Nat) : NwiState :=
  let ifstate := state.ifstateList i
  match nwiStateGetIfstateWithName (some state) (nwiOtherAf ifstate.af) ifstate.ifname with
  | none => state
  | some alias_ =>
    let state := state.modify i fun ifstate => {ifstate with afAliasOffset := alias_ - i}
    state.modify alias_ fun ifstate => {ifstate with afAliasOffset := i - alias_}

def nwiIfstateSetVpnServer (ifstate : NwiIfstate) (servAddr : Option Sockaddr) : NwiIfstate :=
  match servAddr with
  | none => {ifstate with vpnServerAddress := List.replicate sizeofVpnServerAddress 0}
  | some servAddr =>
    if servAddr.saLen = 0 ∨ servAddr.saLen > sizeofVpnServerAddress then ifstate
    else {ifstate with vpnServerAddress :=
      servAddr.bytes.take servAddr.saLen ++ ifstate.vpnServerAddress.drop servAddr.saLen}

def strlcpy (source : IfName) (size : Nat) : IfName := source.take (size - 1)

structure Candidate where
  ifname : IfName
  af : AF
  flags : BitVec 64
  rank : Nat
  ifa : Option InAddr
  vpnServerAddr : Option Sockaddr
  reachFlags : BitVec 32

def updateFields (c : Candidate) (ifstate : NwiIfstate) : NwiIfstate :=
  let ifstate := match c.ifa, c.af with
    | none, _ => ifstate
    | some ifa, .inet => {ifstate with iaddr := ifa.iaddr}
    | some ifa, .inet6 => {ifstate with iaddr6 := ifa.iaddr6}
  let ifstate := nwiIfstateSetVpnServer ifstate (c.vpnServerAddr.filter fun addr => addr.saFamily ≠ 0)
  {ifstate with
    reachFlags := c.reachFlags
    rank := c.rank
    flags := (ifstate.flags &&& ~~~NWI_IFSTATE_FLAGS_MASK) ||| (c.flags &&& NWI_IFSTATE_FLAGS_MASK)}

def appendIfstate (state : NwiState) (c : Candidate) : NwiState :=
  let count := state.count c.af
  let i := state.base c.af + count
  let state :=
    -- previous ifstate is no longer last
    if count > 0 then
      state.modify (i-1) fun prev => {prev with flags := prev.flags &&& ~~~NWI_IFSTATE_FLAGS_LAST_ITEM}
    else state
  let state := state.write i {zeroIfstate with
    ifname := strlcpy c.ifname IFNAMSIZ
    af := c.af
    flags := zeroIfstate.flags ||| NWI_IFSTATE_FLAGS_LAST_ITEM}
  nwiStateAddIfstateAlias (state.setCount c.af (count+1)) i

def nwiStateAddIfstate (state : NwiState) (c : Candidate) : NwiState × Option Nat :=
  match nwiStateGetIfstateWithName (some state) c.af c.ifname with
  | some i =>
    if (state.ifstateList i).rank < c.rank then (state,none)
    else (state.modify i (updateFields c),some i)
  | none =>
    -- make sure we aren't already full
    if state.count c.af = state.maxIfCount then (state,none)
    else
      let i := state.base c.af + state.count c.af
      ((appendIfstate state c).modify i (updateFields c),some i)

end FreebsdLaunchd.Nwi
