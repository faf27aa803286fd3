import FreebsdLaunchd.DnsConfiguration.Collection
import Mathlib.Data.List.DropRight
import Mathlib.Logic.Function.Basic

/-! The resolver that is made from a file such as `/etc/resolv.conf`. The words of a line
are taken by `strsep`, which returns an empty one between two separators. -/
namespace FreebsdLaunchd.Dnsinfo
open DnsConfiguration (DNS_RESOLVER_FLAGS_SCOPED DNS_RESOLVER_FLAGS_REQUEST_A_RECORDS
  DNS_RESOLVER_FLAGS_REQUEST_AAAA_RECORDS DNS_RESOLVER_FLAGS_REQUEST_ALL_RECORDS)

/-- A word has no NUL byte. -/
abbrev Word := List Char

inductive Sockaddr
  | inet (address : BitVec 32) (port : BitVec 16)
  | inet6 (address : BitVec 128) (scopeId : BitVec 32) (port : BitVec 16)
  deriving DecidableEq

structure Sortaddr where
  address : BitVec 32
  mask : BitVec 32
  deriving DecidableEq

/-- What is used of the system, and the default flags. -/
structure Environment where
  /-- The address for a numeric host, if it is of one of the two families. -/
  getaddrinfo : Word → Option Sockaddr
  ifNametoindex : Word → BitVec 32
  strtol : Word → Nat → Int
  /-- `INADDR_LOOPBACK` and `IN6_IS_ADDR_LOOPBACK` -/
  isLoopback : Sockaddr → Bool
  /-- The mask of the class of an address, `IN_CLASSA_NET` to `IN_CLASSC_NET`. -/
  classMask : BitVec 32 → Option (BitVec 32)
  maxns : Nat
  maxdnsrch : Nat
  maxresolvsort : Nat
  /-- `_dnsinfo_flatfile_flags` -/
  flatfileFlags : BitVec 32
  maxns_pos : 0 < maxns
  getaddrinfo_nil : getaddrinfo [] = none
  ifNametoindex_nil : ifNametoindex [] = 0
  strtol_nil : ∀ base, strtol [] base = 0

inductive Token
  | domain | flags | interface | nameserver | options | port | search | searchOrder | sortlist | timeout
  deriving DecidableEq

namespace Token

def name : Token → String
  | domain => "domain"
  | flags => "flags"
  | interface => "interface"
  | nameserver => "nameserver"
  | options => "options"
  | port => "port"
  | search => "search"
  | searchOrder => "search_order"
  | sortlist => "sortlist"
  | timeout => "timeout"

def maxCount (env : Environment) : Token → Nat
  | nameserver => env.maxns
  | _ => 1

end Token

def tokens : List Token :=
  [.domain,.flags,.interface,.nameserver,.options,.port,.search,.searchOrder,.sortlist,.timeout]

def strcasecmp (a b : Word) : Bool := a.map Char.toLower = b.map Char.toLower

structure Resolver where
  domain : Option Word := none
  nameservers : List Sockaddr := []
  search : List Word := []
  sortaddrs : List Sortaddr := []
  options : Option Word := none
  port : BitVec 16 := 0
  timeout : BitVec 32 := 0
  order : BitVec 32 := 0
  /-- The index and the name of the interface. -/
  interface : Option (BitVec 32 × Word) := none
  flags : BitVec 32 := 0
  deriving DecidableEq

/-! ## Words -/

/-- The word before the last dot and the one behind it, by `strrchr`. -/
def lastDot (token : Word) : Option (Word × Word) :=
  if '.' ∈ token then
    some (token.rdropWhile (· ≠ '.') |>.dropLast,token.rtakeWhile (· ≠ '.'))
  else none

def Sockaddr.withPort (port : BitVec 16) : Sockaddr → Sockaddr
  | inet address _ => inet address port
  | inet6 address scopeId _ => inet6 address scopeId port

def parseNameserver (env : Environment) (token : Word) : Option Sockaddr :=
  match env.getaddrinfo token with
  | some sa => some sa
  | none =>
    -- attempt to remove an optional trailing port number
    match lastDot token with
    | none => none
    | some (front,back) =>
      let number := env.strtol back 10
      if number < 0 ∨ number > 0xffff then none
      else (env.getaddrinfo front).map (Sockaddr.withPort (BitVec.ofInt 16 number))

def parseSortaddr (env : Environment) (token : Word) : Option Sortaddr :=
  match env.getaddrinfo (token.takeWhile (· ≠ '/')) with
  | some (.inet address _) =>
    if '/' ∈ token then
      match env.getaddrinfo ((token.dropWhile (· ≠ '/')).drop 1) with
      | some (.inet mask _) => some ⟨address,mask⟩
      | _ => none
    else (env.classMask address).map fun mask => ⟨address,mask⟩
  | _ => none

def trimDomain (word : Word) : Word := word.rdropWhile (· = '.')

def searchDomains (env : Environment) (words : List Word) : List Word :=
  ((words.take env.maxdnsrch).map trimDomain).filter (· ≠ [])

/-- The loop over the words of a sort list, up to the first that is no address. -/
def sortlist (env : Environment) : Nat → List Word → List Sortaddr
  | 0, _ => []
  | _, [] => []
  | n+1, word::words =>
    match parseSortaddr env word with
    | none => []
    | some sortaddr => sortaddr::sortlist env n words

def configFlag (word : Word) : BitVec 32 :=
  if strcasecmp word "scoped".toList then DNS_RESOLVER_FLAGS_SCOPED
  else if strcasecmp word "a".toList then DNS_RESOLVER_FLAGS_REQUEST_A_RECORDS
  else if strcasecmp word "aaaa".toList then DNS_RESOLVER_FLAGS_REQUEST_AAAA_RECORDS
  else 0

def addFlags (configFlags : BitVec 32) (words : List Word) : BitVec 32 :=
  words.foldl (fun configFlags word => if word ≠ [] then configFlags ||| configFlag word else configFlags) configFlags

def joinOptions (words : List Word) : Option Word :=
  words.foldl (fun options word =>
    if word ≠ [] then
      match options with
      | none => some word
      | some options => some (options ++ ' ' :: word)
    else options) none

def numberUpTo (env : Environment) (most : Nat) (word : Word) : Option Int :=
  let number := env.strtol word 0
  if number < 0 ∨ number > most then none else some number

/-! ## Lines -/

def isSep (c : Char) : Bool := c = ' ' ∨ c = '\t'

def fileLines (content : List Char) : List (List Char) :=
  let lines := content.splitOn '\n'
  if lines.getLast? = some [] then lines.dropLast else lines

def tokenOf (word : Word) : Option Token := tokens.find? fun token => strcasecmp word token.name.toList

def directive (line : List Char) : Option (Token × List Word) :=
  match line.splitOnP isSep with
  | [] => none
  | word::words =>
    -- if comment
    if word.head? = some ';' ∨ word.head? = some '#' then none
    else (tokenOf word).map fun token => (token,words)

/-- `_dns_resolver_add_nameserver`, which asks a server on this host for all records -/
def addNameserver (env : Environment) (nameserver : Sockaddr) (res : Resolver) : Resolver :=
  { res with
    nameservers := res.nameservers ++ [nameserver]
    flags := if env.isLoopback nameserver then res.flags ||| DNS_RESOLVER_FLAGS_REQUEST_ALL_RECORDS else res.flags }

/-- What a directive does to the resolver; the flags are kept apart. -/
def applyDirective (env : Environment) (token : Token) (word : Word) (words : List Word) (res : Resolver) : Resolver :=
  match token with
  | .domain => if trimDomain word ≠ [] then { res with domain := some (trimDomain word) } else res
  | .flags => res
  | .interface =>
    if env.ifNametoindex word ≠ 0 then { res with interface := some (env.ifNametoindex word,word) } else res
  | .nameserver =>
    match parseNameserver env word with
    | some sa => addNameserver env sa res
    | none => res
  | .options =>
    match joinOptions (word::words) with
    | some options => { res with options := some options }
    | none => res
  | .port =>
    match numberUpTo env 0xffff word with
    | some number => { res with port := BitVec.ofInt 16 number }
    | none => res
  | .search => { res with search := res.search ++ searchDomains env (word::words) }
  | .searchOrder =>
    match numberUpTo env 0xffffffff word with
    | some number => { res with order := BitVec.ofInt 32 number }
    | none => res
  | .sortlist => { res with sortaddrs := res.sortaddrs ++ sortlist env env.maxresolvsort (word::words) }
  | .timeout =>
    match numberUpTo env 0xffffffff word with
    | some number => { res with timeout := BitVec.ofInt 32 number }
    | none => res

/-! ## The file -/

structure Progress where
  tokenCount : Token → Nat
  configFlags : BitVec 32
  res : Option Resolver

def Progress.start : Progress := ⟨fun _ => 0,0,none⟩

def step (env : Environment) (p : Progress) (line : Token × List Word) : Progress :=
  match line.2 with
  -- if no option
  | [] => p
  | word::words =>
    let count := p.tokenCount line.1 + 1
    let tokenCount := Function.update p.tokenCount line.1 count
    -- if too many options
    if count > line.1.maxCount env then { p with tokenCount }
    else {
      tokenCount
      configFlags := if line.1 = .flags then addFlags p.configFlags (word::words) else p.configFlags
      res := some (applyDirective env line.1 word words (p.res.getD {})) }

def basename (path : Word) : Word := path.rtakeWhile (· ≠ '/')

def finish (env : Environment) (path : Word) (p : Progress) : Option Resolver :=
  p.res.map fun res =>
    { res with
      domain := if p.tokenCount .domain = 0 then some (basename path) else res.domain
      flags := if p.configFlags ≠ 0 then p.configFlags else res.flags ||| env.flatfileFlags }

def runDirectives (env : Environment) (directives : List (Token × List Word)) : Progress :=
  directives.foldl (step env) .start

def createResolver (env : Environment) (path : Word) (content : List Char) : Option Resolver :=
  finish env path (runDirectives env ((fileLines content).filterMap directive))

end FreebsdLaunchd.Dnsinfo
