import FreebsdLaunchd.DnsConfiguration.Domains

/-! Proxy dictionaries: those that services supplement the configuration with, one for
each match domain, the default one, and their order in the configuration. -/
namespace FreebsdLaunchd.ProxyConfiguration
open ArraySorting
open DnsConfiguration (CFString Atom Value Collation scTrimDomain sint32 compareLabels numbers_compare compareOn_strict flag_compare')

/-- The keys that the code names, and every other one. -/
inductive Key
  | interfaceName
  | supplementalMatchDomain
  | supplementalMatchDomains
  | supplementalMatchOrders
  | serviceSpecific
  /-- `PROXY_MATCH_ORDER_KEY` -/
  | matchOrder
  /-- `ORDER_KEY` -/
  | order
  | supplemental
  | scopedProxies
  | servicesProxies
  | other (name : CFString)
  deriving DecidableEq

abbrev Proxy := Finmap fun _ : Key => Value

def DEFAULT_MATCH_ORDER : BitVec 32 := 200000

def addProxy (proxies : List Proxy) (proxy : Proxy) : List Proxy :=
  -- a real duplicate
  if proxy ∈ proxies then proxies else proxies ++ [proxy.insert .order (.number proxies.length)]

/-! ## Supplemental proxies -/

def isNumber : Option Atom → Option Value
  | some (.number n) => some (.number n)
  | some (.real id) => some (.atom (.real id))
  | _ => none

/-- The proxy for one match domain, and the default order for the next one. -/
def matchProxy (proxy : Proxy) (matchDomain : CFString) (order : Option Atom) (defaultOrder : BitVec 32) :
    Proxy × BitVec 32 :=
  let named : Proxy := match scTrimDomain (some (.string matchDomain)) with
    | some matchDomain => proxy.insert .supplementalMatchDomain (.string matchDomain)
    | none => proxy.erase .supplementalMatchDomain
  let ordered : Proxy × BitVec 32 := match isNumber order with
    | some order => (named.insert .matchOrder order,defaultOrder)
    -- if multiple domains, maintain ordering
    | none => (named.insert .matchOrder (.number defaultOrder.toInt),defaultOrder + 1)
  -- remove keys we don't want in a supplemental proxy
  (((ordered.1.erase .supplementalMatchDomains).erase .supplementalMatchOrders).erase .interfaceName,ordered.2)

/-- The loop over the match domains, from the `i`-th one. -/
def matchProxies (proxy : Proxy) (orders : Option (List Atom)) : List Atom → Nat → BitVec 32 → List Proxy
  | [], _, _ => []
  | .string matchDomain::domains, i, defaultOrder =>
    let matched := matchProxy proxy matchDomain (orders.bind (·[i]?)) defaultOrder
    matched.1::matchProxies proxy orders domains (i+1) matched.2
  | _::domains, i, defaultOrder => matchProxies proxy orders domains (i+1) defaultOrder

/-- The proxies that `add_supplemental` adds one after another. -/
def supplementalProxies (proxy : Proxy) (defaultOrder : BitVec 32) : List Proxy :=
  match proxy.lookup .supplementalMatchDomains with
  | some (.array domains) =>
    match proxy.lookup .supplementalMatchOrders with
    | none => matchProxies proxy none domains 0 defaultOrder
    | some (.array orders) =>
      if domains.length = orders.length then matchProxies proxy (some orders) domains 0 defaultOrder else []
    | some _ => []
  | _ => []

/-- A service with its proxies and the match domains and orders of its DNS dictionary. -/
structure Service where
  proxies : Option Proxy
  dnsMatchDomains : Option Value := none
  dnsMatchOrders : Option Value := none

/-- The services in the order in which the dictionary is enumerated. -/
abbrev Services := List (CFString × Service)

/-- The proxies with the match domains of the DNS dictionary, if they follow it. -/
def proxyWithDNS (follow : Bool) (service : Service) (proxy : Proxy) : Proxy :=
  if follow ∧ proxy.lookup .supplementalMatchDomains = none then
    match service.dnsMatchDomains with
    | some (.array matchDomains) =>
      let named : Proxy := proxy.insert .supplementalMatchDomains (.array matchDomains)
      match service.dnsMatchOrders with
      | some (.array matchOrders) => named.insert .supplementalMatchOrders (.array matchOrders)
      | _ => named.erase .supplementalMatchOrders
    | _ => proxy
  else proxy

def defaultOrder (serviceOrder : List CFString) (count i : Nat) (serviceID : CFString) : BitVec 32 :=
  let defaultOrder := DEFAULT_MATCH_ORDER - DEFAULT_MATCH_ORDER / 2 + DEFAULT_MATCH_ORDER / 1000 * BitVec.ofNat 32 i
  -- push out services not specified in service order
  if serviceOrder ≠ [] ∧ serviceID ∉ serviceOrder then defaultOrder + DEFAULT_MATCH_ORDER / 1000 * BitVec.ofNat 32 count
  else defaultOrder

def serviceProxies (follow : Bool) (serviceOrder : List CFString) (count : Nat) (entry : (CFString × Service) × Nat) :
    List Proxy :=
  match entry.1.2.proxies with
  | some proxy => supplementalProxies (proxyWithDNS follow entry.1.2 proxy) (defaultOrder serviceOrder count entry.2 entry.1.1)
  | none => []

def allSupplementals (follow : Bool) (services : Services) (serviceOrder : List CFString) : List Proxy :=
  services.zipIdx.flatMap (serviceProxies follow serviceOrder services.length)

/-! ## The default proxy -/

/-- `myDefault` as it is added, and `orderAdded`. -/
def defaultEntry (defaultProxy : Option Proxy) : Proxy × Bool :=
  let myDefault : Proxy := match defaultProxy with
    | some proxy => proxy.erase .interfaceName
    | none => ∅
  -- ensure that the default proxy has a search order
  match sint32 (myDefault.lookup .matchOrder) with
  | some _ => (myDefault,false)
  | none => (myDefault.insert .matchOrder (.number DEFAULT_MATCH_ORDER.toInt),true)

/-! ## The order of the proxies -/

def matchOrderOf (proxy : Proxy) : BitVec 32 := (sint32 (proxy.lookup .matchOrder)).getD DEFAULT_MATCH_ORDER

def compareBySearchOrder (proxy1 proxy2 : Proxy) : Ordering :=
  if matchOrderOf proxy1 = matchOrderOf proxy2 then
    -- if same match "order", retain original ordering for configurations
    match sint32 (proxy1.lookup .order),sint32 (proxy2.lookup .order) with
    | some order1, some order2 => if order1 = order2 then .eq else if order1 < order2 then .lt else .gt
    | _, _ => .eq
  else if matchOrderOf proxy1 < matchOrderOf proxy2 then .lt
  else .gt

def domainText (proxy : Proxy) : CFString :=
  match proxy.lookup .supplementalMatchDomain with
  | some (.string domain) => domain
  | _ => []

def isReverse (proxy : Proxy) : Bool := ".arpa".toList <:+ domainText proxy

def reversedLabels (proxy : Proxy) : List CFString := ((domainText proxy).splitOn '.').reverse

def compareNamed (collate : Collation) (proxy1 proxy2 : Proxy) : Ordering :=
  -- forward (A, AAAA) domains sort before reverse (PTR) domains
  if isReverse proxy1 ≠ isReverse proxy2 then
    if isReverse proxy1 then .gt else .lt
  else (compareLabels collate (reversedLabels proxy1) (reversedLabels proxy2)).then (compareBySearchOrder proxy1 proxy2)

def compareDomain (collate : Collation) (proxy1 proxy2 : Proxy) : Ordering :=
  -- "default" domains sort before "supplemental" domains
  if proxy1.lookup .supplementalMatchDomain = none then
    if proxy2.lookup .supplementalMatchDomain = none then .eq else .lt
  else if proxy2.lookup .supplementalMatchDomain = none then .gt
  else compareNamed collate proxy1 proxy2

/-! ## The criteria -/

variable {collate : Collation} {proxy1 proxy2 : Proxy}

/-- The recorded order tells apart only proxies that both have one. -/
theorem compareBySearchOrder_eq (proxy1 proxy2 : Proxy) :
    compareBySearchOrder proxy1 proxy2 = (compareOn (fun proxy => (matchOrderOf proxy).toNat) proxy1 proxy2).then
      (if (sint32 (proxy1.lookup .order)).isSome && (sint32 (proxy2.lookup .order)).isSome then
        compareOn (fun proxy : Proxy => ((sint32 (proxy.lookup .order)).getD 0).toNat) proxy1 proxy2 else .eq) := by
  rw [compareOn,← numbers_compare,compareBySearchOrder]
  by_cases same : matchOrderOf proxy1 = matchOrderOf proxy2
  · rw [if_pos same,if_pos same]
    cases first : sint32 (proxy1.lookup .order) with
    | none => simp
    | some order1 =>
      cases second : sint32 (proxy2.lookup .order) with
      | none => simp
      | some order2 => simp [numbers_compare,compareOn,first,second]
  · rw [if_neg same,if_neg same]
    split <;> rfl

private theorem compareBySearchOrder_strict : Strict compareBySearchOrder := by
  have strict := ((compareOn_strict fun proxy : Proxy => ((sint32 (proxy.lookup .order)).getD 0).toNat).among
    fun proxy => (sint32 (proxy.lookup .order)).isSome).behind (compareOn fun proxy : Proxy => (matchOrderOf proxy).toNat)
  have same : compareBySearchOrder = fun a b => _ := funext fun _ => funext (compareBySearchOrder_eq _)
  rwa [same]

private theorem compareNamed_eq (collate : Collation) (proxy1 proxy2 : Proxy) :
    compareNamed collate proxy1 proxy2 = (compareOn isReverse proxy1 proxy2).then
      ((compareLabels collate (reversedLabels proxy1) (reversedLabels proxy2)).then (compareBySearchOrder proxy1 proxy2)) := by
  rw [compareNamed,flag_compare']
  rfl

private theorem compareNamed_strict [Std.TransCmp collate] : Strict (compareNamed collate) := by
  have labels : Std.TransCmp (compareLabels collate) := inferInstance
  have ofProxies : Std.TransCmp fun proxy1 proxy2 => compareLabels collate (reversedLabels proxy1) (reversedLabels proxy2) :=
    {eq_swap := labels.eq_swap,isLE_trans := labels.isLE_trans}
  have strict := (compareBySearchOrder_strict.behind fun proxy1 proxy2 =>
    compareLabels collate (reversedLabels proxy1) (reversedLabels proxy2)).behind (compareOn isReverse)
  have same : compareNamed collate = fun proxy1 proxy2 => _ := funext fun _ => funext (compareNamed_eq collate _)
  rwa [same]

def hasDomain (proxy : Proxy) : Bool := (proxy.lookup .supplementalMatchDomain).isSome

/-- Proxies are told apart by their orders only if both have a match domain. -/
theorem compareDomain_eq (collate : Collation) (proxy1 proxy2 : Proxy) :
    compareDomain collate proxy1 proxy2 = (compareOn hasDomain proxy1 proxy2).then
      (if hasDomain proxy1 && hasDomain proxy2 then compareNamed collate proxy1 proxy2 else .eq) := by
  unfold compareDomain compareOn hasDomain
  cases proxy1.lookup .supplementalMatchDomain <;> cases proxy2.lookup .supplementalMatchDomain <;> simp <;> rfl

theorem compareDomain_strict [Std.TransCmp collate] : Strict (compareDomain collate) := by
  have named : Strict (compareNamed collate) := compareNamed_strict
  have strict := (named.among hasDomain).behind (compareOn hasDomain)
  have same : compareDomain collate = fun a b => _ := funext fun _ => funext (compareDomain_eq collate _)
  rwa [same]

end FreebsdLaunchd.ProxyConfiguration
