import FreebsdLaunchd.DnsConfiguration.Collection
import FreebsdLaunchd.Library.ByteMemory

/-! The buffer in which a DNS configuration is handed out. It is a header with the
attributes behind it; an attribute is a resolver, which is a header with attributes, too.
Numbers are in network order, and there is room for the pointers of those who read it. -/
namespace FreebsdLaunchd.DnsBuffer
open CData ByteMemory
open DnsConfiguration (DNS_RESOLVER_FLAGS_SCOPED DNS_RESOLVER_FLAGS_SERVICE_SPECIFIC
  DNS_RESOLVER_FLAGS_REQUEST_ALL_RECORDS)

/-! ## What is added -/

/-- The first byte, `sa_len`, is the size. -/
structure Sockaddr where
  bytes : Bytes
  saLen : (bytes.headD 0).toNat = bytes.length
  nonempty : bytes ≠ []
  deriving DecidableEq

/-- `INADDR_LOOPBACK` (127.0.0.1) and `IN6_IS_ADDR_LOOPBACK`; `sa_family` is the second byte. -/
def Sockaddr.isLoopback (sa : Sockaddr) : Bool :=
  let family := sa.bytes.getD 1 0
  if family = 2 then (sa.bytes.drop 4).take 4 = [127,0,0,1]
  else if family = 28 then (sa.bytes.drop 8).take 16 = List.replicate 15 0 ++ [1]
  else false

structure Sortaddr where
  bytes : Bytes
  size : bytes.length = 8
  deriving DecidableEq

/-- The attributes of which a resolver has one at most. -/
inductive TextField
  | domain | options | cid | ifName
  deriving DecidableEq

/-- The attributes of which it has a list. -/
inductive ListField
  | nameserver | search | sortaddr
  deriving DecidableEq

inductive Attribute
  | text (field : TextField) (text : CString)
  | nameserver (nameserver : Sockaddr)
  | search (search : CString)
  | sortaddr (sortaddr : Sortaddr)

/-- `RESOLVER_ATTRIBUTE_DOMAIN` and so on -/
def Attribute.type : Attribute → Nat
  | .text .domain _ => 10
  | .nameserver _ => 11
  | .search _ => 12
  | .sortaddr _ => 13
  | .text .options _ => 14
  | .text .cid _ => 15
  | .text .ifName _ => 16

/-- The name of an interface goes without its terminator. -/
def Attribute.data : Attribute → Bytes
  | .text .ifName name => name.bytes
  | .text _ t => t.bytes ++ [0]
  | .nameserver sa => sa.bytes
  | .search domain => domain.bytes ++ [0]
  | .sortaddr sa => sa.bytes

def roundup (a size : Nat) : Nat := if a &&& (size-1) ≠ 0 then 1 + (a ||| (size-1)) else a

def attributeHeader : Nat := 8

/-- An attribute: its type, its length with the header, and the data, filled up with zeros. -/
def attributeBytes (type : Nat) (data : Bytes) : Bytes :=
  let roundedLength := roundup data.length 4
  bigEndian 4 type ++ bigEndian 4 (attributeHeader + roundedLength) ++
    (data ++ List.replicate (roundedLength - data.length) 0)

/-! ## Resolvers -/

/-- `_dns_resolver_buf_t` while it is made: the numbers, as they are for the host, and the attributes. -/
structure ResolverBuf where
  nNameserver : BitVec 32
  nSearch : BitVec 32
  nSortaddr : BitVec 32
  port : BitVec 16
  timeout : BitVec 32
  searchOrder : BitVec 32
  ifIndex : BitVec 32
  flags : BitVec 32
  reachFlags : BitVec 32
  serviceIdentifier : BitVec 32
  attributes : Bytes

def dnsResolverCreate : ResolverBuf := ⟨0,0,0,0,0,0,0,0,0,0,[]⟩

def dnsResolverAddAttribute (resolver : ResolverBuf) (new : Attribute) : ResolverBuf :=
  {resolver with attributes := resolver.attributes ++ attributeBytes new.type new.data}

inductive ResolverCall
  | addNameserver (nameserver : Sockaddr)
  | addSearch (search : CString)
  | addSortaddr (sortaddr : Sortaddr)
  | setConfigurationIdentifier (cid : CString)
  | setDomain (domain : CString)
  | setFlags (flags : BitVec 32)
  | setIfIndex (ifIndex : BitVec 32) (ifName : Option CString)
  | setOptions (options : CString)
  | setOrder (order : BitVec 32)
  | setPort (port : BitVec 16)
  | setServiceIdentifier (serviceIdentifier : BitVec 32)
  | setTimeout (timeout : BitVec 32)

def dnsResolverAddNameserver (resolver : ResolverBuf) (nameserver : Sockaddr) : ResolverBuf :=
  let newFlags := if nameserver.isLoopback then DNS_RESOLVER_FLAGS_REQUEST_ALL_RECORDS else 0
  let oldFlags := resolver.flags
  let resolver := dnsResolverAddAttribute {resolver with nNameserver := resolver.nNameserver + 1} (.nameserver nameserver)
  if newFlags ≠ 0 then {resolver with flags := oldFlags ||| newFlags} else resolver

def dnsResolverSetIfIndex (resolver : ResolverBuf) (ifIndex : BitVec 32) (ifName : Option CString) : ResolverBuf :=
  let resolver := {resolver with ifIndex}
  ifName.elim resolver fun name => dnsResolverAddAttribute resolver (.text .ifName name)

def ResolverBuf.call (resolver : ResolverBuf) : ResolverCall → ResolverBuf
  | .addNameserver nameserver => dnsResolverAddNameserver resolver nameserver
  | .addSearch search => dnsResolverAddAttribute {resolver with nSearch := resolver.nSearch + 1} (.search search)
  | .addSortaddr sortaddr => dnsResolverAddAttribute {resolver with nSortaddr := resolver.nSortaddr + 1} (.sortaddr sortaddr)
  | .setConfigurationIdentifier cid => dnsResolverAddAttribute resolver (.text .cid cid)
  | .setDomain domain => dnsResolverAddAttribute resolver (.text .domain domain)
  | .setFlags flags => {resolver with flags}
  | .setIfIndex ifIndex ifName => dnsResolverSetIfIndex resolver ifIndex ifName
  | .setOptions options => dnsResolverAddAttribute resolver (.text .options options)
  | .setOrder order => {resolver with searchOrder := order}
  | .setPort port => {resolver with port}
  | .setServiceIdentifier serviceIdentifier => {resolver with serviceIdentifier}
  | .setTimeout timeout => {resolver with timeout}

def ResolverBuf.calls (calls : List ResolverCall) : ResolverBuf := calls.foldl ResolverBuf.call dnsResolverCreate

def zeros (n : Nat) : Bytes := List.replicate n 0

/-- The bytes of the buffer; pointers, and what is between `port` and `n_search`, are 0. -/
def resolverBytes (r : ResolverBuf) : Bytes :=
  zeros 8 ++ (bigEndian 4 r.nNameserver.toNat ++ (zeros 8 ++ (bigEndian 2 r.port.toNat ++ (zeros 2 ++
    (bigEndian 4 r.nSearch.toNat ++ (zeros 8 ++ (bigEndian 4 r.nSortaddr.toNat ++ (zeros 16 ++
    (bigEndian 4 r.timeout.toNat ++ (bigEndian 4 r.searchOrder.toNat ++ (bigEndian 4 r.ifIndex.toNat ++
    (bigEndian 4 r.flags.toNat ++ (bigEndian 4 r.reachFlags.toNat ++ (bigEndian 4 r.serviceIdentifier.toNat ++
    (zeros 16 ++ (bigEndian 4 r.attributes.length ++ r.attributes))))))))))))))))

/-! ## Configurations -/

inductive ResolverKind
  | plain | scoped | serviceSpecific
  deriving DecidableEq

/-- `CONFIG_ATTRIBUTE_RESOLVER` and so on -/
def ResolverKind.type : ResolverKind → Nat
  | .plain => 1
  | .scoped => 2
  | .serviceSpecific => 3

def ResolverBuf.kind (resolver : ResolverBuf) : ResolverKind :=
  if resolver.flags &&& DNS_RESOLVER_FLAGS_SCOPED ≠ 0 then .scoped
  else if resolver.flags &&& DNS_RESOLVER_FLAGS_SERVICE_SPECIFIC ≠ 0 then .serviceSpecific
  else .plain

/-- `_dns_config_buf_t` while it is made; `count` are the numbers of resolvers. -/
structure ConfigBuf where
  count : ResolverKind → BitVec 32
  generation : BitVec 64
  version : BitVec 32
  nPadding : BitVec 32
  attributes : Bytes

def dnsinfoVersion : BitVec 32 := 20170629

def dnsConfigurationCreate (machAbsoluteTime : BitVec 64) : ConfigBuf where
  count _ := 0
  generation := machAbsoluteTime
  version := dnsinfoVersion
  nPadding := 0
  attributes := []

def pointer : Nat := 8

section
-- what the reachability of the name servers comes to
variable (reach : ResolverBuf → BitVec 32)

def dnsResolverSetReachFlags (resolver : ResolverBuf) : ResolverBuf :=
  if resolver.nNameserver ≠ 0 then {resolver with reachFlags := reach resolver} else resolver

def dnsConfigurationAddResolver (config : ConfigBuf) (resolver : ResolverBuf) : ConfigBuf :=
  let resolver := dnsResolverSetReachFlags reach resolver
  let padding := BitVec.ofNat 32 (pointer + resolver.nNameserver.toNat * pointer + resolver.nSearch.toNat * pointer +
    resolver.nSortaddr.toNat * pointer)
  {config with
    count := Function.update config.count resolver.kind (config.count resolver.kind + 1)
    nPadding := config.nPadding + padding
    attributes := config.attributes ++ attributeBytes resolver.kind.type (resolverBytes resolver)}

def built (machAbsoluteTime : BitVec 64) (resolvers : List (List ResolverCall)) : ConfigBuf :=
  resolvers.foldl (fun config calls => dnsConfigurationAddResolver reach config (.calls calls))
    (dnsConfigurationCreate machAbsoluteTime)

end

/-- The bytes of the buffer. The host is little-endian, and `generation` and `version` are in its order. -/
def configBytes (c : ConfigBuf) : Bytes :=
  bigEndian 4 (c.count .plain).toNat ++ (zeros 8 ++ (bigEndian 4 (c.count .scoped).toNat ++ (zeros 8 ++
    (littleEndian 8 c.generation.toNat ++ (bigEndian 4 (c.count .serviceSpecific).toNat ++ (zeros 8 ++
    (littleEndian 4 c.version.toNat ++ (bigEndian 4 c.attributes.length ++ (bigEndian 4 c.nPadding.toNat ++
    c.attributes)))))))))

end FreebsdLaunchd.DnsBuffer
