import FreebsdLaunchd.Library.Substrings
import Mathlib.Data.Finmap

/-! The dictionaries of resolvers: finite maps from keys to property lists, two of
which are equal if they have the same values under the same keys. -/
namespace FreebsdLaunchd.DnsConfiguration

abbrev CFString := List Char

/-- A value that is no array. A number that is no integer is known by its identity,
as is every other value. -/
inductive Atom
  | string (text : CFString)
  | number (n : Int)
  | real (id : Nat)
  | boolean (b : Bool)
  | other (id : Nat)
  deriving DecidableEq

inductive Value
  | atom (a : Atom)
  | array (elements : List Atom)
  deriving DecidableEq

namespace Value

@[match_pattern] def string (text : CFString) : Value := .atom (.string text)

@[match_pattern] def number (n : Int) : Value := .atom (.number n)

@[match_pattern] def boolean (b : Bool) : Value := .atom (.boolean b)

end Value

/-- The keys that the code names, the last five its own, and every other one. -/
inductive Key
  | interfaceName
  | domainName
  | searchDomains
  | searchOrder
  | serverAddresses
  | serverTimeout
  | serviceIdentifier
  | sortList
  | options
  | supplementalMatchDomains
  | supplementalMatchOrders
  | supplementalMatchDomainsNoSearch
  | flags
  | ifIndex
  | order
  | scopedQuery
  | configurationId
  | other (name : CFString)
  deriving DecidableEq

abbrev CFDictionary := Finmap fun _ : Key => Value

/-- `isA_CFNumber` and `CFNumberGetValue` with `kCFNumberSInt32Type` or
`kCFNumberIntType`: the 32 bits, if the number is in range. -/
def sint32 : Option Value → Option (BitVec 32)
  | some (.number n) => if -2^31 ≤ n ∧ n < 2^31 then some (BitVec.ofInt 32 n) else none
  | _ => none

def DEFAULT_SEARCH_ORDER : BitVec 32 := 200000

def searchOrder (dns : CFDictionary) : BitVec 32 := (sint32 (dns.lookup .searchOrder)).getD DEFAULT_SEARCH_ORDER

def trimDots (domain : CFString) : CFString :=
  ((domain.dropWhile (· = '.')).reverse.dropWhile (· = '.')).reverse

def scTrimDomain : Option Value → Option CFString
  | some (.string domain) => if trimDots domain = [] then none else some (trimDots domain)
  | _ => none

def compareBySearchOrder (dns1 dns2 : CFDictionary) : Ordering :=
  if searchOrder dns1 = searchOrder dns2 then
    -- if same "SearchOrder", retain original orderring for configurations
    match sint32 (dns1.lookup .order),sint32 (dns2.lookup .order) with
    | some order1, some order2 => if order1 = order2 then .eq else if order1 < order2 then .lt else .gt
    | _, _ => .eq
  else if searchOrder dns1 < searchOrder dns2 then .lt
  else .gt

end FreebsdLaunchd.DnsConfiguration
