import FreebsdLaunchd.DnsConfiguration.Resolvers
import FreebsdLaunchd.DnsConfiguration.SearchList

/-! The resolvers of a configuration: those that supplement it, private ones, the
default, those for multicast, and those of an interface or of one service. -/
namespace FreebsdLaunchd.DnsConfiguration
open ArraySorting

def DNS_RESOLVER_FLAGS_REQUEST_A_RECORDS : BitVec 32 := 0x0002

def DNS_RESOLVER_FLAGS_REQUEST_AAAA_RECORDS : BitVec 32 := 0x0004

def DNS_RESOLVER_FLAGS_REQUEST_ALL_RECORDS : BitVec 32 :=
  DNS_RESOLVER_FLAGS_REQUEST_A_RECORDS ||| DNS_RESOLVER_FLAGS_REQUEST_AAAA_RECORDS

def DNS_RESOLVER_FLAGS_SERVICE_SPECIFIC : BitVec 32 := 0x2000

def DNS_RESOLVER_FLAGS_SUPPLEMENTAL : BitVec 32 := 0x4000

/-- A service with its DNS dictionary and, for each of its IP entities, whether that
routes the protocol. -/
structure Service where
  dns : Option CFDictionary
  ipv4 : Option Bool := none
  ipv6 : Option Bool := none
  scopedOnly : Bool := false

abbrev Services := List (CFString × Service)

structure System where
  ifNameToIndex : CFString → BitVec 32
  mdnsTimeout : Option Int := none
  pdnsTimeout : Option Int := none
  sort : ArraySort CFDictionary

/-- The default resolver is a dictionary of its own, or that of one of the services. -/
inductive DefaultResolver
  | own (dns : CFDictionary)
  | ofService (serviceID : CFString)

structure Configuration where
  defaultResolver : Option DefaultResolver := none
  serviceOrder : List CFString := []
  multicastResolvers : List Atom := []
  privateResolvers : List Atom := []

def number (n : BitVec 32) : Value := .number n.toInt

def filledArray : Option Value → Bool
  | some (.array elements) => elements ≠ []
  | _ => false

/-! ## Keys of a resolver -/

/-- `service_contains_protocol` decides which records are requested. -/
def dnsResolverFlagsService (service : Service) (resolverFlags : BitVec 32) : BitVec 32 :=
  resolverFlags ||| (if service.ipv4 = some true then DNS_RESOLVER_FLAGS_REQUEST_A_RECORDS else 0) |||
    (if service.ipv6 = some true then DNS_RESOLVER_FLAGS_REQUEST_AAAA_RECORDS else 0)

def mergeConfigurationFlags (newDNS : CFDictionary) (mergeFlags : BitVec 32) : CFDictionary :=
  newDNS.insert .flags (number ((sint32 (newDNS.lookup .flags)).getD 0 ||| mergeFlags))

def signature (rType : CFString) (cID : Option CFString) (rIndex : Nat) : CFString :=
  rType ++ [':'] ++ (match cID with | some cID => ' '::cID | none => []) ++ [' '] ++ (toString rIndex).toList

def addResolverSignature (resolver : CFDictionary) (rType : CFString) (cID : Option CFString) (rIndex : Nat) :
    CFDictionary :=
  resolver.insert .configurationId (.string (signature rType cID rIndex))

/-- The resolver without its search list and domain, and with the list in their place. -/
def ownSearchList (sort : ArraySort CFDictionary) (newDNS : CFDictionary) : CFDictionary :=
  let extracted := (extractSearchDomains sort newDNS []).get (extractSearchDomains_isSome ..)
  match extracted.1 with
  | some searchDomains => extracted.2.insert .searchDomains (.array (searchDomains.map .string))
  | none => extracted.2

/-! ## Supplemental resolvers -/

def matchOrder : Option Atom → Option Value
  | some (.number n) => some (.number n)
  | some (.real id) => some (.atom (.real id))
  | _ => none

/-- The resolver for one match domain, and the default order for the next one. -/
def matchResolver (serviceID : CFString) (dns : CFDictionary) (isScoped : Bool) (i : Nat) (matchDomain : CFString)
    (order : Option Atom) (defaultOrder : BitVec 32) : CFDictionary × BitVec 32 :=
  let named := if matchDomain ≠ [] then dns.insert .domainName (.string matchDomain) else dns.erase .domainName
  let ordered : CFDictionary × BitVec 32 := match matchOrder order with
    | some order => (named.insert .searchOrder order,defaultOrder)
    | none =>
      if named.lookup .searchOrder = none then (named.insert .searchOrder (number defaultOrder),defaultOrder + 1)
      else (named,defaultOrder)
  -- remove keys we don't want in a supplemental resolver
  let kept := (((ordered.1.erase .supplementalMatchDomains).erase .supplementalMatchOrders).erase .searchDomains).erase
    .sortList
  (addResolverSignature kept (if isScoped then "Supplemental/Scoped".toList else "Supplemental".toList) serviceID i,
    ordered.2)

def matchResolvers (serviceID : CFString) (dns : CFDictionary) (isScoped : Bool) (orders : Option (List Atom)) :
    List Atom → Nat → BitVec 32 → List CFDictionary
  | [], _, _ => []
  | .string matchDomain::domains, i, defaultOrder =>
    let resolver := matchResolver serviceID dns isScoped i matchDomain (orders.bind (·[i]?)) defaultOrder
    resolver.1::matchResolvers serviceID dns isScoped orders domains (i+1) resolver.2
  | _::domains, i, defaultOrder => matchResolvers serviceID dns isScoped orders domains (i+1) defaultOrder

/-- The match domains and their orders, if this is a supplemental configuration. -/
def supplementalDomains (dns : CFDictionary) : Option (List Atom × Option (List Atom)) :=
  match dns.lookup .supplementalMatchDomains with
  | some (.array domains) =>
    if !filledArray (dns.lookup .serverAddresses) then none
    else match dns.lookup .supplementalMatchOrders with
      | none => some (domains,none)
      -- if supplemental match orders... but too many/not enough
      | some (.array orders) => if domains.length = orders.length then some (domains,some orders) else none
      | some _ => none
  | _ => none

def supplementalResolvers (serviceID : CFString) (dns : CFDictionary) (defaultOrder : BitVec 32) (isScoped : Bool) :
    List CFDictionary :=
  match supplementalDomains dns with
  | some (domains,orders) => matchResolvers serviceID dns isScoped orders domains 0 defaultOrder
  | none => []

/-- An interface, and the service whose resolver is scoped to it. -/
structure Scope where
  interface : Value
  service : Service

/-- `newDNS` of a service, for queries in general or for those that are scoped. -/
def supplementalDns (scope : Option Scope) (service : Service) : Option CFDictionary :=
  match service.dns, scope with
  | none, _ => none
  | some dns, some scope =>
    if service.ipv4.isSome ∨ service.ipv6.isSome then none
    else if dns.lookup .interfaceName ≠ some (.string ['*']) ∧ dns.lookup .interfaceName ≠ some scope.interface then none
    else if dnsResolverFlagsService scope.service 0 = 0 then none
    else some (mergeConfigurationFlags (dns.insert .interfaceName scope.interface)
      (DNS_RESOLVER_FLAGS_SUPPLEMENTAL ||| DNS_RESOLVER_FLAGS_SCOPED ||| dnsResolverFlagsService scope.service 0))
  | some dns, none =>
    if dns.lookup .interfaceName = none then some (mergeConfigurationFlags dns DNS_RESOLVER_FLAGS_SUPPLEMENTAL)
    -- leave the [trusted configuration] InterfaceName in place
    else if dns.lookup .scopedQuery = some (.boolean true) then
      some (mergeConfigurationFlags dns (DNS_RESOLVER_FLAGS_SUPPLEMENTAL ||| dnsResolverFlagsService service 0))
    else some (mergeConfigurationFlags (dns.erase .interfaceName) DNS_RESOLVER_FLAGS_SUPPLEMENTAL)

/-- Without an interface, the flag is set in the dictionary of the service itself. -/
def Service.marked (service : Service) : Service :=
  {service with dns := service.dns.map fun dns =>
    if dns.lookup .interfaceName = none then mergeConfigurationFlags dns DNS_RESOLVER_FLAGS_SUPPLEMENTAL else dns}

def supplementalOrder (serviceOrder : List CFString) (count i : Nat) (serviceID : CFString) : BitVec 32 :=
  let defaultOrder := DEFAULT_SEARCH_ORDER - DEFAULT_SEARCH_ORDER / 2 + DEFAULT_SEARCH_ORDER / 1000 * BitVec.ofNat 32 i
  -- push out services not specified in service order
  if serviceOrder ≠ [] ∧ serviceID ∉ serviceOrder then
    defaultOrder + DEFAULT_SEARCH_ORDER / 1000 * BitVec.ofNat 32 count
  else defaultOrder

def serviceSupplementals (scope : Option Scope) (serviceOrder : List CFString) (count : Nat)
    (entry : (CFString × Service) × Nat) : List CFDictionary :=
  match supplementalDns scope entry.1.2 with
  | some newDNS =>
    supplementalResolvers entry.1.1 newDNS (supplementalOrder serviceOrder count entry.2 entry.1.1) scope.isSome
  | none => []

def allSupplementals (scope : Option Scope) (services : Services) (serviceOrder : List CFString) : List CFDictionary :=
  services.zipIdx.flatMap (serviceSupplementals scope serviceOrder services.length)

/-! ## Private and multicast resolvers -/

def optionResolver (rType options : CFString) (order : BitVec 32) (timeout : Option Int) (domain : CFString) (i : Nat) :
    CFDictionary :=
  let resolver := (((∅ : CFDictionary).insert .domainName (.string domain)).insert .options (.string options)).insert
    .searchOrder (number order)
  let resolver := match timeout with | some timeout => resolver.insert .serverTimeout (.number timeout) | none => resolver
  addResolverSignature resolver rType none i

def multicastResolversOf (timeout : Option Int) (multicastResolvers : List Atom) : List CFDictionary :=
  multicastResolvers.zipIdx.filterMap fun entry =>
    (scTrimDomain (some (.atom entry.1))).map fun domain =>
      optionResolver "Multicast DNS".toList "mdns".toList
        (DEFAULT_SEARCH_ORDER + DEFAULT_SEARCH_ORDER / 2 + DEFAULT_SEARCH_ORDER / 1000 * BitVec.ofNat 32 entry.2)
        timeout domain entry.2

def privateResolversOf (timeout : Option Int) (privateResolvers : List Atom) : List CFDictionary :=
  privateResolvers.zipIdx.filterMap fun entry =>
    (scTrimDomain (some (.atom entry.1))).map fun domain =>
      optionResolver "Private DNS".toList "pdns".toList
        (DEFAULT_SEARCH_ORDER - DEFAULT_SEARCH_ORDER / 4 + DEFAULT_SEARCH_ORDER / 1000 * BitVec.ofNat 32 entry.2)
        timeout domain entry.2

/-! ## The default resolver -/

def defaultServers (services : Services) (defaultResolver : Option DefaultResolver) : Option CFDictionary :=
  let dns := match defaultResolver with
    | some (.own dns) => some dns
    | some (.ofService serviceID) => (services.lookup serviceID).bind (·.dns)
    | none => none
  dns.filter fun dns => filledArray (dns.lookup .serverAddresses)

def defaultOrdered (defaultResolver : Option CFDictionary) : Bool :=
  (sint32 ((defaultResolver.getD ∅).lookup .searchOrder)).isSome

def orderedDefault (defaultResolver : Option CFDictionary) : CFDictionary :=
  if defaultOrdered defaultResolver then defaultResolver.getD ∅
  else (defaultResolver.getD ∅).insert .searchOrder (number DEFAULT_SEARCH_ORDER)

def extractedDefault (sort : ArraySort CFDictionary) (resolvers : List CFDictionary)
    (defaultResolver : Option CFDictionary) : Option (List CFString) × CFDictionary :=
  let extracted := (extractSearchDomains sort (orderedDefault defaultResolver) resolvers).get
    (extractSearchDomains_isSome ..)
  (extracted.1,addResolverSignature extracted.2 "Default".toList none 0)

/-! ## Resolvers of an interface -/

def scopedOrder (services : Services) (serviceOrder : List CFString) : List CFString :=
  services.foldl (fun order service => if service.1 ∈ order then order else order ++ [service.1]) serviceOrder

def scopedInterface (service : Service) : Option (CFDictionary × Value) :=
  match service.dns with
  | none => none
  | some dns =>
    if !filledArray (dns.lookup .serverAddresses) then none
    else match dns.lookup .interfaceName with
      | none => none
      | some interface =>
        if interface = .string ['*'] ∨ dns.lookup .serviceIdentifier ≠ none then none else some (dns,interface)

def scopedResolver (sort : ArraySort CFDictionary) (serviceID : CFString) (dns : CFDictionary) (flags : BitVec 32) :
    CFDictionary :=
  let newDNS := mergeConfigurationFlags (ownSearchList sort dns) (DNS_RESOLVER_FLAGS_SCOPED ||| flags)
  addResolverSignature ((newDNS.erase .supplementalMatchDomains).erase .supplementalMatchOrders) "Scoped".toList
    serviceID 0

def scopedGroup (system : System) (services : Services) (serviceOrder : List CFString) (serviceID : CFString)
    (service : Service) (dns : CFDictionary) (interface : Value) : List CFDictionary :=
  -- if interface index not available
  if interfaceIndex system.ifNameToIndex interface = 0 then []
  else if dnsResolverFlagsService service 0 = 0 then []
  else scopedResolver system.sort serviceID dns (dnsResolverFlagsService service 0) ::
    allSupplementals (some ⟨interface,service⟩) services serviceOrder

/-- The resolvers that the loop of `add_scoped_resolvers` adds, with the interfaces it has seen. -/
def scopedResolvers (system : System) (services : Services) (serviceOrder : List CFString) :
    List CFString → List Value → List CFDictionary
  | [], _ => []
  | serviceID::order, seen =>
    match (services.lookup serviceID).bind fun service => (scopedInterface service).map fun found => (service,found) with
    | none => scopedResolvers system services serviceOrder order seen
    | some (service,dns,interface) =>
      -- if we've already processed this [scoped] interface
      if interface ∈ seen then scopedResolvers system services serviceOrder order seen
      else scopedGroup system services serviceOrder serviceID service dns interface ++
        scopedResolvers system services serviceOrder order (interface::seen)

/-! ## Resolvers of a service -/

def serviceIdentifier (service : Service) : Option (CFDictionary × Value) :=
  service.dns.bind fun dns =>
    match dns.lookup .serviceIdentifier with
    | some (.number n) => some (dns,.number n)
    | some (.atom (.real id)) => some (dns,.atom (.real id))
    | _ => none

def serviceResolvers (sort : ArraySort CFDictionary) (serviceID : CFString) (dns : CFDictionary) : List CFDictionary :=
  let listed := ownSearchList sort dns
  let newDNS := (listed.erase .supplementalMatchDomains).erase .supplementalMatchOrders
  if newDNS.lookup .interfaceName = none then
    [addResolverSignature (mergeConfigurationFlags newDNS
      (DNS_RESOLVER_FLAGS_REQUEST_ALL_RECORDS ||| DNS_RESOLVER_FLAGS_SERVICE_SPECIFIC)) "Service".toList serviceID 0]
  else
    -- The dictionary has an interface, so add a interface-scoped resolver
    let newDNS := newDNS.insert .scopedQuery (.boolean true)
    let interfaceScopedDNS := (mergeConfigurationFlags newDNS
      (DNS_RESOLVER_FLAGS_REQUEST_ALL_RECORDS ||| DNS_RESOLVER_FLAGS_SCOPED)).erase .serviceIdentifier
    [addResolverSignature interfaceScopedDNS "Service".toList serviceID 0,
      addResolverSignature (mergeConfigurationFlags newDNS
        (DNS_RESOLVER_FLAGS_REQUEST_ALL_RECORDS ||| DNS_RESOLVER_FLAGS_SERVICE_SPECIFIC)) "Service".toList serviceID 0]

/-- The resolvers that `add_service_specific_resolvers` adds, with the identifiers it has seen. -/
def serviceSpecificResolvers (sort : ArraySort CFDictionary) : Services → List Value → List CFDictionary
  | [], _ => []
  | (serviceID,service)::services, seen =>
    match serviceIdentifier service with
    | none => serviceSpecificResolvers sort services seen
    | some (dns,identifier) =>
      if identifier ∈ seen then serviceSpecificResolvers sort services seen
      else serviceResolvers sort serviceID dns ++ serviceSpecificResolvers sort services (identifier::seen)

/-! ## The list -/

def supplementaryList (system : System) (services : Services) (configuration : Configuration) : List CFDictionary :=
  (allSupplementals none services configuration.serviceOrder ++
    privateResolversOf system.pdnsTimeout configuration.privateResolvers).foldl (addResolver system.ifNameToIndex) []

def collectedDefault (system : System) (services : Services) (configuration : Configuration) :
    Option (List CFString) × CFDictionary :=
  extractedDefault system.sort (supplementaryList system services configuration)
    (defaultServers (services.map fun service => (service.1,service.2.marked)) configuration.defaultResolver)

def laterResolvers (system : System) (services : Services) (configuration : Configuration) : List CFDictionary :=
  let services := services.map fun service => (service.1,service.2.marked)
  multicastResolversOf system.mdnsTimeout configuration.multicastResolvers ++
    scopedResolvers system services configuration.serviceOrder (scopedOrder services configuration.serviceOrder) [] ++
    serviceSpecificResolvers system.sort services []

def collectResolvers (system : System) (services : Services) (configuration : Configuration) : List CFDictionary :=
  ((collectedDefault system services configuration).2 :: laterResolvers system services configuration).foldl
    (addResolver system.ifNameToIndex) (supplementaryList system services configuration)

end FreebsdLaunchd.DnsConfiguration
