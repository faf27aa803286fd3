import FreebsdLaunchd.IpMonitor.Routes
import Mathlib.Data.BitVec

/-! How the combined list of routes goes to the kernel. A list is applied over the
one before it: routes that are gone are removed, the others keep their control
flags, and what has not been processed yet is added, after the route to its gateway. -/
namespace FreebsdLaunchd.IpMonitor

structure ControlFlags where
  processed : Bool
  added : Bool
  deriving DecidableEq, Repr

structure ControlledRoute (Addr : Type) extends Route Addr where
  controlFlags : ControlFlags
  deriving DecidableEq, Repr

inductive RouteMessageType
  | rtmAdd | rtmDelete
  deriving DecidableEq, Repr

/-- What `route_apply` returns: 0, an `errno` or `EROUTENOTAPPLIED`. -/
inductive RouteResult
  | ok | exist | srch | nxio | notApplied
  | other (errno : Nat)
  deriving DecidableEq, Repr

def RouteResult.accepted (r : RouteResult) : Bool := r = .ok ∨ r = .notApplied

/-- What is written to the routing socket. The gateway is an address or the
interface itself, and a host route has no mask. -/
structure RouteMessage (Addr : Type) where
  dest : Addr
  gateway : Addr ⊕ IFIndex
  netmask : Option Nat
  ifp : IFIndex
  ifa : Option Addr
  ifscope : Option IFIndex
  deriving DecidableEq, Repr

variable {Addr : Type}

/-- What the kernel tells its routes apart by. -/
structure RouteKey (Addr : Type) where
  dest : Addr
  prefixLength : Nat
  ifscope : Option IFIndex
  deriving DecidableEq, Repr

def Route.ifscope (r : Route Addr) : Option IFIndex := if r.flags.isScoped then some r.ifindex else none

def Route.routeKey (r : Route Addr) : RouteKey Addr := ⟨r.dest,r.prefixLength,r.ifscope⟩

variable [DecidableEq Addr]

/-- `IPv4RouteIsEqual` and `IPv6RouteIsEqual`: the mask of an IPv4 route is the
one of its prefix length. -/
def routeIsEqual (scan route : Route Addr) : Bool :=
  scan.dest = route.dest ∧ scan.prefixLength = route.prefixLength ∧ scan.ifindex = route.ifindex ∧
    scan.ifa = route.ifa ∧ scan.gateway = route.gateway ∧ scan.flags = route.flags

def Route.message [Zero Addr] (r : Route Addr) : RouteMessage Addr where
  dest := r.dest
  gateway := if r.flags.hasGateway then .inl r.gateway else .inr r.ifindex
  netmask := if r.flags.isHost then none else some r.prefixLength
  ifp := r.ifindex
  ifa := if r.ifa ≠ 0 then some r.ifa else none
  ifscope := r.ifscope

structure RouteListInfo (Addr : Type) [DecidableEq Addr] where
  /-- The routes that `route_apply` leaves alone, apart from the NULL routes. -/
  untouched : Route Addr → Bool
  routeSameSubnet : Route Addr → Addr → Bool
  allBitsSet : Nat
  untouched_equal : ∀ a b, routeIsEqual a b → untouched a = untouched b

/-! ## The two families -/

def prefixToMask32 (prefixLength : Nat) : BitVec 32 :=
  if prefixLength > 32 ∨ prefixLength = 0 then 0 else BitVec.allOnes 32 <<< (32-prefixLength)

def in6Len2Mask (len : Nat) : BitVec 128 := BitVec.allOnes 128 <<< (128-len)

/-- Where the host has booted over the network its default route is not touched. -/
def ipv4RouteListInfo (netboot : Bool) : RouteListInfo (BitVec 32) where
  untouched route := netboot && route.dest = 0
  routeSameSubnet route address := address &&& prefixToMask32 route.prefixLength = route.dest
  allBitsSet := 32
  untouched_equal a b equal := by
    have same : a.dest = b.dest := by
      simp only [routeIsEqual,decide_eq_true_eq] at equal
      exact equal.1
    rw [same]

def ipv6RouteListInfo : RouteListInfo (BitVec 128) where
  untouched route := route.flags.kernelManaged
  routeSameSubnet route addr := addr &&& in6Len2Mask route.prefixLength = route.dest
  allBitsSet := 128
  untouched_equal a b equal := by
    have same : a.flags = b.flags := by
      simp only [routeIsEqual,decide_eq_true_eq] at equal
      exact equal.2.2.2.2.2
    rw [same]

/-! ## Looking up routes -/

def routeListFindRoute (routes : List (ControlledRoute Addr)) (route : Route Addr) : Option (ControlledRoute Addr) :=
  routes.find? fun scan => routeIsEqual scan.toRoute route

inductive RouteLookupFlags
  | none | excludeInterface
  deriving DecidableEq

/-- What the loop of `RouteListLookup` does with one candidate. -/
inductive Candidacy
  | skip | exact | matching
  deriving DecidableEq

def candidacy (info : RouteListInfo Addr) (address : Addr) (nBits : Nat) (ifindex : IFIndex)
    (lookupFlags : RouteLookupFlags) (candidate : Route Addr) : Candidacy :=
  if candidate.ifindex = 0 ∨ candidate.excludeIfindex ≠ 0 then .skip
  else if lookupFlags = .excludeInterface ∧ ifindex = candidate.ifindex then .skip
  else if lookupFlags = .none ∧ ifindex ≠ candidate.ifindex then .skip
  else if candidate.flags.hasGateway ∧ candidate.gateway = address then .skip
  else if candidate.flags.isHost then
    if nBits = info.allBitsSet ∧ candidate.dest = address then .exact else .skip
  else if !info.routeSameSubnet candidate address then .skip
  else if candidate.prefixLength = nBits then .exact
  else if candidate.prefixLength > nBits then .skip
  else .matching

/-- The loop of `RouteListLookup` from the `i`-th route on. The routes are given by their places. -/
def lookupFrom (classify : Route Addr → Candidacy) :
    List (Route Addr) → Nat → Option (Nat × Nat) → Option Nat
  | [], _, bestMatch => bestMatch.map Prod.fst
  | candidate::rest, i, bestMatch =>
    match classify candidate with
    | .skip => lookupFrom classify rest (i+1) bestMatch
    | .exact => some i
    | .matching =>
      let better := bestMatch.all (·.2 < candidate.prefixLength)
      lookupFrom classify rest (i+1) (if better then some (i,candidate.prefixLength) else bestMatch)

def routeListLookup (info : RouteListInfo Addr) (routes : List (Route Addr)) (address : Addr) (nBits : Nat)
    (ifindex : IFIndex) (lookupFlags : RouteLookupFlags) : Option Nat :=
  lookupFrom (candidacy info address nBits ifindex lookupFlags) routes 0 none

def gatewayRoute (info : RouteListInfo Addr) (routes : List (Route Addr)) (route : Route Addr) : Option Nat :=
  if route.flags.hasGateway then routeListLookup info routes route.gateway info.allBitsSet route.ifindex .none
  else none

/-! ## Applying a list -/

structure RoutingSocket (κ Addr : Type) where
  write : RouteMessageType → Route Addr → κ → RouteResult × κ

/-- A call of `route_apply`; the route is given by its place in its list, too. -/
structure RouteCall (Addr : Type) where
  cmd : RouteMessageType
  index : Nat
  route : Route Addr
  result : RouteResult
  deriving DecidableEq, Repr

variable {κ : Type} (info : RouteListInfo Addr) (socket : RoutingSocket κ Addr)

def routeApply (cmd : RouteMessageType) (route : Route Addr) (kernel : κ) : RouteResult × κ :=
  if info.untouched route then (.notApplied,kernel)
  else if route.flags.isNULL then (.notApplied,kernel)
  else if route.ifindex = 0 then (.nxio,kernel)
  else socket.write cmd route kernel

/-- The new list, the kernel, and the calls of `route_apply` so far. -/
structure ApplyState (κ Addr : Type) where
  newRoutes : List (ControlledRoute Addr)
  kernel : κ
  calls : List (RouteCall Addr)

def ApplyState.routes (s : ApplyState κ Addr) : List (Route Addr) := s.newRoutes.map ControlledRoute.toRoute

def ApplyState.apply (cmd : RouteMessageType) (i : Nat) (route : Route Addr) (s : ApplyState κ Addr) :
    RouteResult × ApplyState κ Addr :=
  let applied := routeApply info socket cmd route s.kernel
  (applied.1,{s with kernel := applied.2,calls := s.calls ++ [⟨cmd,i,route,applied.1⟩]})

def ApplyState.setFlags (i : Nat) (controlFlags : ControlFlags) (s : ApplyState κ Addr) : ApplyState κ Addr :=
  {s with newRoutes := s.newRoutes.modify i fun r => {r with controlFlags}}

/-- A route that the kernel has already is deleted and added again. -/
def ApplyState.addOrReplace (i : Nat) (route : Route Addr) (s : ApplyState κ Addr) : RouteResult × ApplyState κ Addr :=
  let first := s.apply info socket .rtmAdd i route
  if first.1 = .exist then
    (first.2.apply info socket .rtmDelete i route).2.apply info socket .rtmAdd i route
  else first

/-- The second part of `RouteProcess` for `kRouteCommandAdd`, after the gateway. -/
def ApplyState.addRoute (i : Nat) (route : Route Addr) (s : ApplyState κ Addr) : ApplyState κ Addr :=
  let applied := s.addOrReplace info socket i route
  if applied.1.accepted then applied.2.setFlags i ⟨true,true⟩ else applied.2

def maxRecurseDepth : Nat := 10

/-- `RouteProcess` for `kRouteCommandAdd` with the depth still `left`. It returns
`TRUE` also where `route_apply` has failed. -/
def routeProcessAdd (left i : Nat) (s : ApplyState κ Addr) : Bool × ApplyState κ Addr :=
  match s.newRoutes[i]? with
  | none => (false,s)
  | some route =>
    if route.controlFlags.processed then (route.controlFlags.added,s)
    else
      let marked := s.setFlags i ⟨true,route.controlFlags.added⟩
      match gatewayRoute info s.routes route.toRoute with
      | none => (true,marked.addRoute info socket i route.toRoute)
      | some gateway =>
        match left with
        -- "routing loop detected, not adding"
        | 0 => (false,marked)
        | left+1 =>
          let (added,after) := routeProcessAdd left gateway marked
          if added then (true,after.addRoute info socket i route.toRoute) else (false,after)

/-- `RouteProcess` for `kRouteCommandRemove`: its result changes nothing. -/
def routeProcessRemove (i : Nat) (route : Route Addr) (s : ApplyState κ Addr) : ApplyState κ Addr :=
  (s.apply info socket .rtmDelete i route).2

/-- A route of the old list goes if it is not in the new one. -/
def removeStale (newRoutes : List (ControlledRoute Addr)) (s : ApplyState κ Addr) (scan : ControlledRoute Addr × Nat) :
    ApplyState κ Addr :=
  if (routeListFindRoute newRoutes scan.1.toRoute).isNone ∧ scan.1.controlFlags.added then
    routeProcessRemove info socket scan.2 scan.1.toRoute s
  else s

def removeOld (oldRoutes newRoutes : List (ControlledRoute Addr)) (s : ApplyState κ Addr) : ApplyState κ Addr :=
  oldRoutes.zipIdx.foldl (removeStale info socket newRoutes) s

def preserveFlags (oldRoutes newRoutes : List (ControlledRoute Addr)) : List (ControlledRoute Addr) :=
  newRoutes.map fun scan =>
    match routeListFindRoute oldRoutes scan.toRoute with
    | some oldRoute => {scan with controlFlags := oldRoute.controlFlags}
    | none => scan

/-- The third loop: `RouteProcess` itself passes what has been processed. -/
def addNew (s : ApplyState κ Addr) : ApplyState κ Addr :=
  (List.range s.newRoutes.length).foldl (fun s i => (routeProcessAdd info socket maxRecurseDepth i s).2) s

/-- A list that is missing is like an empty one here. -/
def routeListApply (oldRoutes newRoutes : List (ControlledRoute Addr)) (kernel : κ) : ApplyState κ Addr :=
  let removed := removeOld info socket oldRoutes newRoutes ⟨[],kernel,[]⟩
  let added := addNew info socket ⟨preserveFlags oldRoutes newRoutes,removed.kernel,[]⟩
  {added with calls := removed.calls ++ added.calls}

end FreebsdLaunchd.IpMonitor
