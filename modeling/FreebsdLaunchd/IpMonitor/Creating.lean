import FreebsdLaunchd.IpMonitor.Filling

/-! How the list of a service's routes is made from its entity dictionary. The slots
are counted first, by the same conditions by which the routes are written then. -/
namespace FreebsdLaunchd.IpMonitor

def rankAssertionScoped : Rank := 0x4000000

/-- The variables of the function once the slots have been counted. No array of routes
counts as an empty one. -/
structure ServiceRoutes (Addr : Type) where
  ifindex : IFIndex
  addr : Addr
  router : Addr
  prefixLength : Int32
  flags : RouteFlags
  primaryRank : Rank
  rank : Rank
  scopedOnly : Bool
  excludeFromNWI : Bool
  addDefault : Bool
  additionalRoutes : List CFType
  excludedRoutes : List CFType
  n : Nat

structure IPv4ServiceRoutes extends ServiceRoutes IPv4Addr where
  mask : IPv4Addr
  subnet : IPv4Addr
  addSubnet : Bool
  addRouterSubnet : Bool
  addBroadcastMulticast : Bool

structure IPv6ServiceRoutes extends ServiceRoutes IPv6Addr where
  addPrefix : Bool

/-- The rank of the default route, that of the others, and whether the routes are
scoped: the default route, and all. -/
def rankSwitch (primaryRank : Rank) : Rank × Rank × Bool × Bool :=
  if primaryRank = rankAssertionScoped then (rankAssertionNever,rankAssertionNever,true,true)
  else if primaryRank = rankAssertionNever then (rankAssertionNever,rankAssertionLast,true,false)
  else (primaryRank,primaryRank,false,false)

def demotedRank (primaryRank : Rank) : Rank :=
  if primaryRank = rankAssertionLast ∨ primaryRank = rankAssertionNever ∨ primaryRank = rankAssertionScoped then primaryRank
  else rankAssertionLast

def routeArrays (dict : CFDictionary) (allowed : Bool) : List CFType × List CFType :=
  if allowed then
    ((isACFArray (dict.lookup .additionalRoutes)).getD [],(isACFArray (dict.lookup .excludedRoutes)).getD [])
  else ([],[])

def INADDR_BROADCAST : IPv4Addr := 0xffffffff

def INADDR_UNSPEC_GROUP : IPv4Addr := 0xe0000000

def IN_CLASSD_NET : IPv4Addr := 0xf0000000

def PREFIX_LENGTH_IN_CLASSD : Int32 := 4

section Variables

variable (os : Platform) (dict : CFDictionary) (rankAssertion : Option Rank)

def serviceInterface : Option (CFString × IFIndex) :=
  match plistGetString dict .interfaceName IFNAMSIZ with
  | none => none
  | some ifname =>
    let ifindex := os.ifNameToIndex (cString ifname)
    if ifindex = 0 then none else some (ifname,ifindex)

/-- The variables for an address and its mask; `rankAssertion` is what `CFNumberGetValue`
makes of the number. -/
def ipv4Variables (ifindex : IFIndex) (allowAdditionalRoutes : Bool) (addr : IPv4Addr) (subnetMask : Option IPv4Addr) :
    IPv4ServiceRoutes :=
  let router := ((dictGetIp os.inetPton4 dict .router).or (dictGetFirstIp os.inetPton4 dict .destAddresses)).getD 0
  let mask := subnetMask.getD 0
  let length := subnetMask.bind maskGetPrefixLength
  let addSubnet := length.isSome
  let n := if addSubnet then 1 else 0
  let primaryRank := rankAssertion.getD rankAssertionDefault
  let primaryRank :=
    -- if no router is configured, demote the rank if necessary
    if router = 0 then demotedRank primaryRank
    else if rankAssertion.isNone ∧ getOverridePrimary dict then rankAssertionFirst
    else primaryRank
  let hasGateway := decide (router ≠ 0 ∧ ¬ (addr = router ∧ mask ≠ INADDR_BROADCAST))
  let isNULL := dictGetBoolean dict .isNULL false
  let (primaryRank,rank,isScoped,scopedOnly) := rankSwitch primaryRank
  let n := if hasGateway then n + 1 else n
  let addBroadcastMulticast := decide (ifindex ≠ os.lo0Ifindex)
  let addDefault := addBroadcastMulticast && decide (router ≠ 0)
  let n := if addDefault then n + 1 else n
  let n := if addBroadcastMulticast then n + 2 else n
  let (additionalRoutes,excludedRoutes) := routeArrays dict allowAdditionalRoutes
  { ifindex := ifindex
    addr := addr
    router := router
    prefixLength := (length.map Int32.ofNat).getD (-1)
    flags := {RouteFlags.none with isScoped := isScoped, hasGateway := hasGateway, isNULL := isNULL}
    primaryRank := primaryRank
    rank := rank
    scopedOnly := scopedOnly
    excludeFromNWI := isNULL
    addDefault := addDefault
    additionalRoutes := additionalRoutes
    excludedRoutes := excludedRoutes
    n := n + additionalRoutes.length + excludedRoutes.length
    mask := mask
    subnet := subnetAddr addr mask
    addSubnet := addSubnet
    addRouterSubnet := hasGateway
    addBroadcastMulticast := addBroadcastMulticast }

def ipv4ServiceRoutes : Option IPv4ServiceRoutes :=
  match serviceInterface os dict with
  | none => none
  | some (ifname,ifindex) =>
    match dictGetFirstIp os.inetPton4 dict .addresses with
    | none => none
    | some addr =>
      if addr = 0 then none
      else some (ipv4Variables os dict rankAssertion ifindex (confirmInterfaceName dict ifname) addr
        (dictGetFirstIp os.inetPton4 dict .subnetMasks))

/-- The variables as they are before the slot of the link-local subnet is counted. -/
def ipv6Variables (ifindex : IFIndex) (allowAdditionalRoutes : Bool) (addr : IPv6Addr) : IPv6ServiceRoutes :=
  let router := ((dictGetIp os.inetPton6 dict .router).or (dictGetFirstIp os.inetPton6 dict .destAddresses)).getD 0
  let (read,prefixLength) := dictGetFirstInt dict .prefixLength 0
  let addPrefix := read && !isLinklocal addr && ipv6PrefixLengthIsValid prefixLength
  let n := if addPrefix then 1 else 0
  let prefixLength := if addPrefix then prefixLength else 0
  let primaryRank := rankAssertion.getD rankAssertionDefault
  let addDefault := decide (router ≠ 0 ∧ ifindex ≠ os.lo0Ifindex)
  let n := if addDefault then n + 1 else n
  let hasGateway := decide (router ≠ 0 ∧ ¬ (router = addr ∧ prefixLength ≠ IPV6_ROUTE_ALL_BITS_SET))
  let primaryRank :=
    if router ≠ 0 ∧ rankAssertion.isNone ∧ getOverridePrimary dict then rankAssertionFirst else primaryRank
  let isNULL := dictGetBoolean dict .isNULL false
  let (primaryRank,rank,isScoped,scopedOnly) := rankSwitch primaryRank
  let (additionalRoutes,excludedRoutes) := routeArrays dict allowAdditionalRoutes
  { ifindex := ifindex
    addr := addr
    router := router
    prefixLength := prefixLength
    flags := {RouteFlags.none with isScoped := isScoped, hasGateway := hasGateway, isNULL := isNULL}
    primaryRank := primaryRank
    rank := rank
    scopedOnly := scopedOnly
    excludeFromNWI := isNULL
    addDefault := addDefault
    additionalRoutes := additionalRoutes
    excludedRoutes := excludedRoutes
    n := n + additionalRoutes.length + excludedRoutes.length
    addPrefix := addPrefix }

def ipv6ServiceRoutes : Option IPv6ServiceRoutes :=
  match serviceInterface os dict with
  | none => none
  | some (ifname,ifindex) =>
    match dictGetFirstIp os.inetPton6 dict .addresses with
    | none => none
    | some addr =>
      if addr = 0 then none
      else
        let s := ipv6Variables os dict rankAssertion ifindex (confirmInterfaceName dict ifname) addr
        -- need IPv6LL subnet route
        if s.n = 0 then none else some {s with n := s.n + 1}

end Variables

section Counting

variable {os : Platform} {dict : CFDictionary} {rankAssertion : Option Rank}

private theorem counted (wanted : Bool) (n k : Nat) : (if wanted then n + k else n) = n + k * wanted.toNat := by
  cases wanted <;> simp

private theorem counted_first (wanted : Bool) : (if wanted then 1 else 0) = wanted.toNat := by
  cases wanted <;> rfl

private theorem ipv4ServiceRoutes_n {s : IPv4ServiceRoutes} (found : ipv4ServiceRoutes os dict rankAssertion = some s) :
    s.n = s.addDefault.toNat + (s.addBroadcastMulticast.toNat + (s.addBroadcastMulticast.toNat + (s.addSubnet.toNat +
      (s.addRouterSubnet.toNat + (s.additionalRoutes.length + s.excludedRoutes.length))))) := by
  unfold ipv4ServiceRoutes at found
  split at found
  · cases found
  · split at found
    · cases found
    · split at found
      · cases found
      · obtain rfl := Option.some.inj found
        simp only [ipv4Variables,counted,counted_first]
        omega

private theorem ipv6ServiceRoutes_n {s : IPv6ServiceRoutes} (found : ipv6ServiceRoutes os dict rankAssertion = some s) :
    s.n = s.addDefault.toNat + (1 + (s.addPrefix.toNat + (s.additionalRoutes.length + s.excludedRoutes.length))) := by
  unfold ipv6ServiceRoutes at found
  split at found
  · cases found
  · split at found
    · cases found
    · dsimp only at found
      split at found
      · cases found
      · split at found
        · cases found
        · obtain rfl := Option.some.inj found
          simp only [ipv6Variables,counted,counted_first]
          omega

end Counting

/-! ## Writing the routes -/

def RouteFlags.orNULL (flags service : RouteFlags) : RouteFlags := {flags with isNULL := flags.isNULL || service.isNULL}

def RouteFlags.orKernelManaged (flags : RouteFlags) : RouteFlags := {flags with kernelManaged := true}

section Writing

variable {Addr Mask : Type} (s : ServiceRoutes Addr)

/-- The flags of the list, which keeps those it has when it is used again. -/
def listFlags (flags : RouteListFlags) : RouteListFlags where
  excludeNWI := flags.excludeNWI || s.excludeFromNWI
  hasDefault := flags.hasDefault || s.addDefault
  scopedOnly := flags.scopedOnly || (!s.excludeFromNWI && s.scopedOnly)

def writeDefault (r : Slot Addr Mask) : Slot Addr Mask :=
  {r with
    ifindex := s.ifindex, ifa := s.addr, flags := s.flags
    gateway := if s.flags.hasGateway then s.router else s.addr
    rank := s.primaryRank}

namespace IPv4ServiceRoutes

variable (s : IPv4ServiceRoutes) (r : Slot IPv4Addr IPv4Addr)

def writeBroadcast : Slot IPv4Addr IPv4Addr :=
  {r with
    flags := r.flags.orNULL s.flags
    dest := INADDR_BROADCAST, mask := INADDR_BROADCAST, prefixLength := IPV4_ROUTE_ALL_BITS_SET
    ifindex := s.ifindex, ifa := s.addr, rank := s.rank}

def writeMulticast : Slot IPv4Addr IPv4Addr :=
  {r with
    flags := r.flags.orNULL s.flags
    dest := INADDR_UNSPEC_GROUP, mask := IN_CLASSD_NET, prefixLength := PREFIX_LENGTH_IN_CLASSD
    ifindex := s.ifindex, ifa := s.addr, rank := s.rank}

def writeSubnet : Slot IPv4Addr IPv4Addr :=
  {r with
    flags := r.flags.orNULL s.flags
    ifindex := s.ifindex, gateway := s.addr, dest := s.subnet, mask := s.mask, prefixLength := s.prefixLength
    ifa := s.addr, rank := s.rank}

def writeRouterSubnet : Slot IPv4Addr IPv4Addr :=
  {r with
    flags := r.flags.orNULL s.flags
    ifindex := s.ifindex, gateway := s.addr, dest := s.router, mask := INADDR_BROADCAST
    prefixLength := IPV4_ROUTE_ALL_BITS_SET, ifa := s.addr, rank := s.rank}

end IPv4ServiceRoutes

namespace IPv6ServiceRoutes

variable (s : IPv6ServiceRoutes) (r : Slot IPv6Addr Unit)

def writeDefault : Slot IPv6Addr Unit :=
  let r := IpMonitor.writeDefault s.toServiceRoutes r
  {r with flags := r.flags.orKernelManaged}

/-- Of the destination the first two bytes are written. -/
def writeIPv6LL : Slot IPv6Addr Unit :=
  {r with
    ifindex := s.ifindex, dest := r.dest &&& BitVec.allOnes 128 >>> 16 ||| 0xfe80 <<< 112, prefixLength := 64
    rank := s.rank, flags := r.flags.orKernelManaged}

def writePrefix : Slot IPv6Addr Unit :=
  {r with
    flags := r.flags.orKernelManaged.orNULL s.flags
    ifindex := s.ifindex, gateway := s.addr, dest := in6Netaddr s.addr s.prefixLength.toNatClampNeg
    prefixLength := s.prefixLength, ifa := s.addr, rank := s.rank}

end IPv6ServiceRoutes

end Writing

section Families

variable (os : Platform)

def ipv4Family : RouteFamily IPv4Addr IPv4Addr where
  inetPton := os.inetPton4
  allBitsSet := IPV4_ROUTE_ALL_BITS_SET
  readPrefix dict old :=
    match dictGetIp os.inetPton4 dict .subnetMask with
    | none => (false,old.1,0)
    | some mask =>
      match maskGetPrefixLength mask with
      | none => (false,old.1,mask)
      | some length => (true,Int32.ofNat length,mask)

def ipv6Family : RouteFamily IPv6Addr Unit where
  inetPton := os.inetPton6
  allBitsSet := IPV6_ROUTE_ALL_BITS_SET
  readPrefix dict old :=
    let (read,prefixLength) := dictGetInt dict .prefixLength old.1
    (read && ipv6PrefixLengthIsValid prefixLength,prefixLength,())

def addIPv4Route := addRoute os (ipv4Family os)

def addIPv6Route := addRoute os (ipv6Family os)

def ipv4RouteListCreateWithDictionary (routes : Option (RouteMemory IPv4Addr IPv4Addr)) (dict : Option CFDictionary)
    (rankAssertion : Option Rank) : Except Fault (Option (RouteMemory IPv4Addr IPv4Addr)) :=
  match dict.bind (ipv4ServiceRoutes os · rankAssertion) with
  | none => .ok none
  | some s => do
    let routes := RouteMemory.prepare routes s.n
    -- start at the beginning
    let w ← Filling.addIf s.addDefault (writeDefault s.toServiceRoutes) ⟨s.n,routes.list,0⟩
    let w ← w.addIf s.addBroadcastMulticast s.writeBroadcast
    let w ← w.addIf s.addBroadcastMulticast s.writeMulticast
    let w ← w.addIf s.addSubnet s.writeSubnet
    let w ← w.addIf s.addRouterSubnet s.writeRouterSubnet
    let w ← (s.additionalRoutes.foldlM (addIPv4Route os ⟨s.addr,s.ifindex,0,s.rank⟩) w).bind
      -- exclude this interface
      (s.excludedRoutes.foldlM (addIPv4Route os ⟨s.addr,0,s.ifindex,s.rank⟩))
    return some ⟨w.count,listFlags s.toServiceRoutes routes.flags,w.list⟩

def ipv6RouteListCreateWithDictionary (routes : Option (RouteMemory IPv6Addr Unit)) (dict : Option CFDictionary)
    (rankAssertion : Option Rank) : Except Fault (Option (RouteMemory IPv6Addr Unit)) :=
  match dict.bind (ipv6ServiceRoutes os · rankAssertion) with
  | none => .ok none
  | some s => do
    let routes := RouteMemory.prepare routes s.n
    -- start at the beginning
    let w ← Filling.addIf s.addDefault s.writeDefault ⟨s.n,routes.list,0⟩
    let w ← w.add s.writeIPv6LL
    let w ← w.addIf s.addPrefix s.writePrefix
    let w ← (s.additionalRoutes.foldlM (addIPv6Route os ⟨s.addr,s.ifindex,0,s.rank⟩) w).bind
      -- exclude this interface
      (s.excludedRoutes.foldlM (addIPv6Route os ⟨s.addr,0,s.ifindex,s.rank⟩))
    return some ⟨w.count,listFlags s.toServiceRoutes routes.flags,w.list⟩

end Families

/-! ## The routes of a service -/

section Routes

variable {Addr Mask : Type} [Zero Addr] [Zero Mask] (os : Platform)

def defaultRoute (s : ServiceRoutes Addr) : Slot Addr Mask where
  prefixLength := 0
  ifindex := s.ifindex
  excludeIfindex := 0
  rank := s.primaryRank
  flags := s.flags
  dest := 0
  mask := 0
  gateway := if s.flags.hasGateway then s.router else s.addr
  ifa := s.addr

/-- A route of the service itself. Without a gateway it has that of all zeros. -/
def ownRoute (s : ServiceRoutes Addr) (flags : RouteFlags) (dest : Addr) (mask : Mask) (prefixLength : Int32)
    (gateway ifa : Addr) : Slot Addr Mask where
  prefixLength := prefixLength
  ifindex := s.ifindex
  excludeIfindex := 0
  rank := s.rank
  flags := flags
  dest := dest
  mask := mask
  gateway := gateway
  ifa := ifa

/-- The mask of a route, if it is one. -/
def ipv4Prefix (dict : CFDictionary) : Option (Int32 × IPv4Addr) := do
  let mask ← dictGetIp os.inetPton4 dict .subnetMask
  let length ← maskGetPrefixLength mask
  some (Int32.ofNat length,mask)

def ipv6Prefix (dict : CFDictionary) : Option (Int32 × Unit) :=
  match dict.lookup .prefixLength with
  | some (.number value true) => if ipv6PrefixLengthIsValid value then some (value,()) else none
  | _ => none

/-- A service's IPv4 routes: the default route, broadcast and multicast, the subnet,
the router, and the routes of the two arrays, each by its own entry. -/
def IPv4ServiceRoutes.routes (s : IPv4ServiceRoutes) : List (Slot IPv4Addr IPv4Addr) :=
  let service := s.toServiceRoutes
  let flags := {RouteFlags.none with isNULL := s.flags.isNULL}
  (if s.addDefault then [defaultRoute service] else []) ++
    (if s.addBroadcastMulticast then [ownRoute service flags INADDR_BROADCAST INADDR_BROADCAST 32 0 s.addr] else []) ++
    (if s.addBroadcastMulticast then [ownRoute service flags INADDR_UNSPEC_GROUP IN_CLASSD_NET 4 0 s.addr] else []) ++
    (if s.addSubnet then [ownRoute service flags s.subnet s.mask s.prefixLength s.addr s.addr] else []) ++
    (if s.addRouterSubnet then [ownRoute service flags s.router INADDR_BROADCAST 32 s.addr s.addr] else []) ++
    s.additionalRoutes.filterMap (entryRoute (additionalRoute (ipv4Family os) (ipv4Prefix os) s.addr s.ifindex s.rank)) ++
    s.excludedRoutes.filterMap (entryRoute (excludedRoute os (ipv4Family os) (ipv4Prefix os) s.ifindex s.rank))

/-- A service's IPv6 routes, where the link-local subnet is built in. -/
def IPv6ServiceRoutes.routes (s : IPv6ServiceRoutes) : List (Slot IPv6Addr Unit) :=
  let service := s.toServiceRoutes
  let kernelManaged := {RouteFlags.none with kernelManaged := true}
  let default : Slot IPv6Addr Unit := defaultRoute service
  let subnet := in6Netaddr s.addr s.prefixLength.toNatClampNeg
  (if s.addDefault then [{default with flags := {s.flags with kernelManaged := true}}] else []) ++
    [ownRoute service kernelManaged (0xfe80 <<< 112) () 64 0 0] ++
    (if s.addPrefix then
      [ownRoute service {kernelManaged with isNULL := s.flags.isNULL} subnet () s.prefixLength s.addr s.addr] else []) ++
    s.additionalRoutes.filterMap (entryRoute (additionalRoute (ipv6Family os) ipv6Prefix s.addr s.ifindex s.rank)) ++
    s.excludedRoutes.filterMap (entryRoute (excludedRoute os (ipv6Family os) ipv6Prefix s.ifindex s.rank))

end Routes

section Lists

variable (os : Platform) (dict : Option CFDictionary) (rankAssertion : Option Rank)

private theorem ipv4Family_reads : (ipv4Family os).Reads (ipv4Prefix os) := by
  refine ⟨fun dict new found old => ?_,fun dict missing old => ?_⟩
  · unfold ipv4Prefix at found
    unfold ipv4Family
    cases read : dictGetIp os.inetPton4 dict .subnetMask with
    | none => simp [read] at found
    | some mask =>
      cases length : maskGetPrefixLength mask with
      | none => simp [read,length] at found
      | some length' => simpa [read,length] using found
  · unfold ipv4Prefix at missing
    unfold ipv4Family
    cases read : dictGetIp os.inetPton4 dict .subnetMask with
    | none => simp [read]
    | some mask =>
      cases length : maskGetPrefixLength mask with
      | none => simp [read,length]
      | some length' => simp [read,length] at missing

private theorem ipv6Family_reads : (ipv6Family os).Reads ipv6Prefix := by
  refine ⟨fun dict new found old => ?_,fun dict missing old => ?_⟩
  · unfold ipv6Prefix at found
    split at found
    next value read =>
      split at found
      next valid =>
        obtain rfl := Option.some.inj found
        simp [ipv6Family,dictGetInt,read,cfnumberToInt,valid]
      next => cases found
    next => cases found
  · unfold ipv6Prefix at missing
    simp only [ipv6Family,dictGetInt]
    split at missing
    next value read =>
      split at missing
      next => cases missing
      next invalid => simp [read,cfnumberToInt,invalid]
    next other =>
      unfold cfnumberToInt
      split
      next value exact' read =>
        cases exact' with
        | true => exact absurd read (other value)
        | false => rfl
      next => rfl

variable {os} {dict' : CFDictionary} {rankAssertion' : Option Rank}

private theorem serviceInterface_ne_zero {ifname : CFString} {ifindex : IFIndex}
    (found : serviceInterface os dict' = some (ifname,ifindex)) : ifindex ≠ 0 := by
  unfold serviceInterface at found
  split at found
  · cases found
  · dsimp only at found
    split at found
    · cases found
    next exists' =>
      obtain ⟨rfl,rfl⟩ := Prod.mk.inj (Option.some.inj found)
      exact exists'

private theorem ipv4ServiceRoutes_ifindex
    {s : IPv4ServiceRoutes} (found : ipv4ServiceRoutes os dict' rankAssertion' = some s) :
    s.ifindex ≠ 0 := by
  unfold ipv4ServiceRoutes at found
  split at found
  · cases found
  next interface =>
    split at found
    · cases found
    · split at found
      · cases found
      · obtain rfl := Option.some.inj found
        exact serviceInterface_ne_zero interface

private theorem ipv6ServiceRoutes_ifindex
    {s : IPv6ServiceRoutes} (found : ipv6ServiceRoutes os dict' rankAssertion' = some s) :
    s.ifindex ≠ 0 := by
  unfold ipv6ServiceRoutes at found
  split at found
  · cases found
  next interface =>
    split at found
    · cases found
    · dsimp only at found
      split at found
      · cases found
      · split at found
        · cases found
        · obtain rfl := Option.some.inj found
          exact serviceInterface_ne_zero interface

theorem Slot.unwritten_zero {Addr Mask : Type} [Zero Addr] [Zero Mask] (r : Slot Addr Mask) (zero : r = .zero) :
    r.Unwritten := by
  subst zero
  exact ⟨rfl,rfl,rfl,rfl⟩

/-- The arrays of a service are the last to be written, and they fill the slots that are left. -/
theorem arrays_filled {Addr Mask : Type} [Zero Addr] [Zero Mask] {s : ServiceRoutes Addr} {family : RouteFamily Addr Mask}
    {prefixOf : CFDictionary → Option (Int32 × Mask)} {routes : Option (RouteMemory Addr Mask)} {w : Filling Addr Mask}
    {done : List (Slot Addr Mask)} (reads : family.Reads prefixOf) (interface : s.ifindex ≠ 0) (flags : RouteListFlags)
    (filled : w.At (· = .zero) done (s.additionalRoutes.length + s.excludedRoutes.length) (RouteMemory.behind routes s.n))
    (counted : s.n = done.length + (s.additionalRoutes.length + s.excludedRoutes.length)) (count : w.count = s.n) :
    ∃ w', (s.additionalRoutes.foldlM (addRoute os family ⟨s.addr,s.ifindex,0,s.rank⟩) w).bind
        (s.excludedRoutes.foldlM (addRoute os family ⟨s.addr,0,s.ifindex,s.rank⟩)) = .ok w' ∧
      RouteMemory.Filled routes s.n (done ++
        s.additionalRoutes.filterMap (entryRoute (additionalRoute family prefixOf s.addr s.ifindex s.rank)) ++
        s.excludedRoutes.filterMap (entryRoute (excludedRoute os family prefixOf s.ifindex s.rank))) ⟨w'.count,flags,w'.list⟩ := by
  have adds : Adds os family ⟨s.addr,s.ifindex,0,s.rank⟩ (additionalRoute family prefixOf s.addr s.ifindex s.rank) :=
    adds_additional reads interface rfl
  have adds' : Adds os family ⟨s.addr,0,s.ifindex,s.rank⟩ (excludedRoute os family prefixOf s.ifindex s.rank) :=
    adds_excluded reads rfl
  obtain ⟨w',k',run,count',filled',left⟩ := bothArrays_at adds adds' s.additionalRoutes s.excludedRoutes
    (filled.weaken Slot.unwritten_zero) (by omega)
  refine ⟨w',run,filled'.filled ?_ count' rfl rfl⟩
  simp only [List.length_append]
  omega

private theorem length_wanted {α : Type} (wanted : Bool) (route : α) :
    (if wanted then [route] else []).length = wanted.toNat := by
  cases wanted <;> rfl

theorem ok_bind {ε α β : Type} (a : α) (f : α → Except ε β) : (Except.ok a >>= f) = f a := rfl

theorem ipv4_filled {s : IPv4ServiceRoutes} (found : dict.bind (ipv4ServiceRoutes os · rankAssertion) = some s)
    (routes : Option (RouteMemory IPv4Addr IPv4Addr)) :
    ∃ out, ipv4RouteListCreateWithDictionary os routes dict rankAssertion = .ok (some out) ∧
      RouteMemory.Filled routes s.n (s.routes os) out := by
  obtain ⟨dict',rfl,found'⟩ := Option.bind_eq_some_iff.mp found
  have sized := ipv4ServiceRoutes_n found'
  obtain ⟨w₁,run₁,count₁,filled₁⟩ :=
    addIf_at (f := writeDefault s.toServiceRoutes) rfl s.addDefault (prepare_at routes sized)
  obtain ⟨w₂,run₂,count₂,filled₂⟩ := addIf_at (f := s.writeBroadcast) rfl s.addBroadcastMulticast filled₁
  obtain ⟨w₃,run₃,count₃,filled₃⟩ := addIf_at (f := s.writeMulticast) rfl s.addBroadcastMulticast filled₂
  obtain ⟨w₄,run₄,count₄,filled₄⟩ := addIf_at (f := s.writeSubnet) rfl s.addSubnet filled₃
  obtain ⟨w₅,run₅,count₅,filled₅⟩ := addIf_at (f := s.writeRouterSubnet) rfl s.addRouterSubnet filled₄
  have count : w₅.count = s.n := by rw [count₅,count₄,count₃,count₂,count₁]
  obtain ⟨w,run,filled⟩ := arrays_filled (ipv4Family_reads os) (ipv4ServiceRoutes_ifindex found')
    (listFlags s.toServiceRoutes (RouteMemory.prepare routes s.n).flags) filled₅
    (by simp only [List.length_append,List.length_nil,length_wanted]; omega) count
  refine ⟨_,?_,filled⟩
  simp only [ipv4RouteListCreateWithDictionary,found,run₁,run₂,run₃,run₄,run₅,addIPv4Route,run,ok_bind]
  rfl

theorem ipv6_filled {s : IPv6ServiceRoutes} (found : dict.bind (ipv6ServiceRoutes os · rankAssertion) = some s)
    (routes : Option (RouteMemory IPv6Addr Unit)) :
    ∃ out, ipv6RouteListCreateWithDictionary os routes dict rankAssertion = .ok (some out) ∧
      RouteMemory.Filled routes s.n (s.routes os) out := by
  obtain ⟨dict',rfl,found'⟩ := Option.bind_eq_some_iff.mp found
  have sized := ipv6ServiceRoutes_n found'
  obtain ⟨w₁,run₁,count₁,filled₁⟩ := addIf_at (f := s.writeDefault) rfl s.addDefault (prepare_at routes sized)
  rw [Nat.add_comm 1] at filled₁
  obtain ⟨_,w₂,rfl,run₂,count₂,filled₂⟩ := Filling.add_at filled₁ s.writeIPv6LL
  obtain ⟨w₃,run₃,count₃,filled₃⟩ := addIf_at (f := s.writePrefix) rfl s.addPrefix filled₂
  have count : w₃.count = s.n := by rw [count₃,count₂,count₁]
  obtain ⟨w,run,filled⟩ := arrays_filled (ipv6Family_reads os) (ipv6ServiceRoutes_ifindex found')
    (listFlags s.toServiceRoutes (RouteMemory.prepare routes s.n).flags) filled₃
    (by simp only [List.length_append,List.length_nil,List.length_singleton,length_wanted]; omega) count
  refine ⟨_,?_,filled⟩
  simp only [ipv6RouteListCreateWithDictionary,found,run₁,run₂,run₃,addIPv6Route,run,ok_bind]
  rfl

/-- A service without an interface or an address has no list. Every other one gets a list
that is counted right and filled in order, whatever memory is passed in. -/
theorem serviceRoutes_exact (os : Platform) (dict : Option CFDictionary) (rankAssertion : Option Rank) :
    (∀ routes, match dict.bind (ipv4ServiceRoutes os · rankAssertion) with
      | none => ipv4RouteListCreateWithDictionary os routes dict rankAssertion = .ok none
      | some s => ∃ out, ipv4RouteListCreateWithDictionary os routes dict rankAssertion = .ok (some out) ∧
          RouteMemory.Filled routes s.n (s.routes os) out) ∧
    ∀ routes, match dict.bind (ipv6ServiceRoutes os · rankAssertion) with
      | none => ipv6RouteListCreateWithDictionary os routes dict rankAssertion = .ok none
      | some s => ∃ out, ipv6RouteListCreateWithDictionary os routes dict rankAssertion = .ok (some out) ∧
          RouteMemory.Filled routes s.n (s.routes os) out := by
  refine ⟨fun routes => ?_,fun routes => ?_⟩
  · cases found : dict.bind (ipv4ServiceRoutes os · rankAssertion) with
    | none => simp only [ipv4RouteListCreateWithDictionary,found]
    | some s => exact ipv4_filled dict rankAssertion found routes
  · cases found : dict.bind (ipv6ServiceRoutes os · rankAssertion) with
    | none => simp only [ipv6RouteListCreateWithDictionary,found]
    | some s => exact ipv6_filled dict rankAssertion found routes

end Lists

/-! ## The list that the others are combined with -/

section Lists

variable {Addr Mask : Type} {routes : Option (RouteMemory Addr Mask)} {n : Nat} {list : List (Slot Addr Mask)}
  {out : RouteMemory Addr Mask}

def Slot.route (r : Slot Addr Mask) : Route Addr where
  prefixLength := r.prefixLength.toNatClampNeg
  ifindex := r.ifindex
  excludeIfindex := r.excludeIfindex
  rank := r.rank
  flags := r.flags
  dest := r.dest
  gateway := r.gateway
  ifa := r.ifa

def RouteMemory.routeList (out : RouteMemory Addr Mask) (fits : out.count.toNat ≤ out.size) : RouteList Addr where
  size := out.size
  flags := out.flags
  list := (out.list.take out.count.toNat).map Slot.route
  fits := by simpa using Or.inl fits

theorem RouteMemory.Filled.fits (filled : RouteMemory.Filled routes n list out) : out.count.toNat ≤ out.size := by
  rw [filled.count,Int.toNat_natCast]
  exact filled.within.trans filled.capacity

theorem RouteMemory.Filled.routeList (filled : RouteMemory.Filled routes n list out) :
    (out.routeList filled.fits).list = list.map Slot.route := by
  have front : out.list.take out.count.toNat = list := by rw [filled.count,Int.toNat_natCast,filled.list]
  exact congrArg (List.map Slot.route) front

end Lists

end FreebsdLaunchd.IpMonitor
