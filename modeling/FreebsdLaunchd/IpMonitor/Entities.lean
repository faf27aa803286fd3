import FreebsdLaunchd.IpMonitor.Apply
import Mathlib.Data.Nat.Digits.Defs

/-! What the IP monitor reads in the dictionary of an entity: texts, numbers and the
addresses that texts stand for. -/
namespace FreebsdLaunchd.IpMonitor

abbrev CFString := List Char

/-- The keys that are read, in the dictionary or in that of one of its routes. -/
inductive Key
  | interfaceName
  | confirmedInterfaceName
  | addresses
  | subnetMasks
  | prefixLength
  | destAddresses
  | router
  | overridePrimary
  | isNULL
  | additionalRoutes
  | excludedRoutes
  | destinationAddress
  | subnetMask
  | gatewayAddress
  | other (name : CFString)
  deriving DecidableEq

/-- An object of Core Foundation. A number has the value that `CFNumberGetValue` passes
back for an `int`, and it is exact if the function succeeds. -/
inductive CFType
  | string (text : CFString)
  | number (value : Int32) (exact : Bool)
  | boolean (value : Bool)
  | array (items : List CFType)
  | dictionary (entries : List (Key × CFType))
  | other

abbrev CFDictionary := List (Key × CFType)

/-- An address as a number, whose highest byte is the first in memory. -/
abbrev IPv4Addr := BitVec 32

abbrev IPv6Addr := BitVec 128

/-- The names of interfaces as they are during the call, and the C library's reading of addresses. -/
structure Platform where
  ifNameToIndex : CFString → IFIndex
  lo0Ifindex : IFIndex
  inetPton4 : CFString → Option IPv4Addr
  inetPton6 : CFString → Option IPv6Addr

def IFNAMSIZ : Nat := 16

def cString (text : CFString) : CFString := text.takeWhile (·.toNat ≠ 0)

/-- The buffer after `_SC_cfstring_to_cstring` in ASCII, which is empty if that fails. -/
def scCfstringToCstring (bufLen : Nat) (str : CFString) : CFString :=
  if str.all (·.toNat < 128) ∧ str.length < bufLen then cString str else []

section Addresses

variable {Addr : Type} (inetPton : CFString → Option Addr)

/-- The address in the caller's variable is all zeros if there is none. -/
def cfstringToIp : Option CFType → Option Addr
  | some (.string str) => inetPton (scCfstringToCstring 128 str)
  | _ => none

def dictGetIp (dict : CFDictionary) (prop : Key) : Option Addr := cfstringToIp inetPton (dict.lookup prop)

def dictGetFirstIp (dict : CFDictionary) (prop : Key) : Option Addr :=
  match dict.lookup prop with
  | some (.array (first::_)) => cfstringToIp inetPton (some first)
  | _ => none

end Addresses

/-- Whether it succeeds, and what the variable is then. -/
def cfnumberToInt (intVal : Int32) : Option CFType → Bool × Int32
  | some (.number value exact) => (exact,value)
  | _ => (false,intVal)

def dictGetInt (dict : CFDictionary) (prop : Key) (intVal : Int32) : Bool × Int32 :=
  cfnumberToInt intVal (dict.lookup prop)

def dictGetFirstInt (dict : CFDictionary) (prop : Key) (intVal : Int32) : Bool × Int32 :=
  match dict.lookup prop with
  | some (.array (first::_)) => cfnumberToInt intVal (some first)
  | _ => (false,intVal)

/-- The text, if it fits a buffer of that size in UTF-8. -/
def plistGetString (dict : CFDictionary) (propName : Key) (bufSize : Nat) : Option CFString :=
  match dict.lookup propName with
  | some (.string val) => if (val.map Char.utf8Size).sum < bufSize then some val else none
  | _ => none

def isACFArray : Option CFType → Option (List CFType)
  | some (.array items) => some items
  | _ => none

def getOverridePrimary (dict : CFDictionary) : Bool :=
  match dict.lookup .overridePrimary with
  | some (.number val _) => val ≠ 0
  | some (.boolean override) => override
  | _ => false

def dictGetBoolean (dict : CFDictionary) (key : Key) (defValue : Bool) : Bool :=
  match dict.lookup key with
  | some (.boolean val) => val
  | _ => defValue

def confirmInterfaceName (dict : CFDictionary) (ifname : CFString) : Bool :=
  match dict.lookup .confirmedInterfaceName with
  | some (.string confirmed) => confirmed = ifname
  | _ => true

/-! ## Masks and prefixes -/

def subnetAddr (addr mask : IPv4Addr) : IPv4Addr := addr &&& mask

/-- The table `bits`, without its entries that are -1. -/
def prefixBits : Nat → Option Nat
  | 0b0000 => some 0
  | 0b1000 => some 1
  | 0b1100 => some 2
  | 0b1110 => some 3
  | 0b1111 => some 4
  | _ => none

/-- The loop looks at four bits at a time, from the lowest, until no higher one is set. -/
def countPrefixBitsSet (n : BitVec 32) : Option Nat := ((Nat.digits 16 n.toNat).mapM prefixBits).map List.sum

/-- From the order of bytes in memory, on a machine that has the lowest first, and back. -/
def htonl (n : BitVec 32) : BitVec 32 :=
  n.extractLsb' 0 8 ++ n.extractLsb' 8 8 ++ n.extractLsb' 16 8 ++ n.extractLsb' 24 8

/-- `none` is the length -1. -/
def maskGetPrefixLength (mask : IPv4Addr) : Option Nat :=
  (countPrefixBitsSet (htonl mask)).bind fun count => if mask ≠ prefixToMask32 count then none else some count

example : maskGetPrefixLength 0xfffff000 = some 20 ∧ maskGetPrefixLength 0xff00ff00 = none := by decide

def IPV4_ROUTE_ALL_BITS_SET : Int32 := 32

def IPV6_ROUTE_ALL_BITS_SET : Int32 := 128

def ipv6PrefixLengthIsValid (prefixLength : Int32) : Bool :=
  ¬ (prefixLength < 0 ∨ prefixLength > IPV6_ROUTE_ALL_BITS_SET)

def in6Netaddr (addr : IPv6Addr) (len : Nat) : IPv6Addr := addr &&& in6Len2Mask len

/-- `IN6_IS_ADDR_LINKLOCAL`: the first ten bits. -/
def isLinklocal (addr : IPv6Addr) : Bool := addr >>> 118 = 0xfe80 >>> 6

end FreebsdLaunchd.IpMonitor
