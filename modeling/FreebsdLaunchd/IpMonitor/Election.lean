import FreebsdLaunchd.IpMonitor.Routes
import Mathlib.Data.List.AList

/-! The election of the primary service for IPv4 and for IPv6: the services that
have routes become candidates, ordered by rank, and the first that may is the
primary. The routing table is built on the way. -/
namespace FreebsdLaunchd.IpMonitor

variable {Addr : Type}

def cfStringHasPrefix (s start : String) : Bool := start.toList.isPrefixOf s.toList

structure Candidate (Addr : Type) where
  serviceID : String
  ifName : String
  rank : Rank
  ipIsCoupled : Bool
  ineligible : Bool
  addr : Option Addr
  signature : Option String
  deriving DecidableEq

inductive AF
  | inet | inet6
  deriving DecidableEq

/-! ## Candidates -/

/-- What an IP entity says of its service. -/
structure ServiceDict where
  interfaceName : Option String
  confirmedInterfaceName : Option String
  networkSignature : Option String

structure IPDict (Addr : Type) where
  routes : Option (RouteList Addr)
  service : Option ServiceDict

/-- The options of a service, as `get_rank_changes` leaves them. A number may be any. -/
structure RankEntity where
  serviceIndex : Option Int
  ipIsCoupled : Bool

structure Entities (Addr : Type) where
  ipv4 : Option (IPDict Addr)
  ipv6 : Option (IPDict Addr)
  service : Option RankEntity

def Entities.ip (e : Entities Addr) : AF → Option (IPDict Addr)
  | .inet => e.ipv4
  | .inet6 => e.ipv6

/-- An index that is an `SInt32`, from 1 on. -/
def serviceRankEntityGetIndex (rankEntity : Option RankEntity) : Option Rank :=
  match rankEntity.bind RankEntity.serviceIndex with
  | some index => if 0 < index ∧ index < 2^31 then some (UInt32.ofNat index.toNat) else none
  | none => none

/-- The entries of the order that are no strings are `none`. -/
def getServiceIndex (rankEntity : Option RankEntity) (order : Option (List (Option String))) (nOrder : Int)
    (serviceID : String) : Rank :=
  match serviceRankEntityGetIndex rankEntity with
  | some index => index + UInt32.ofInt nOrder
  | none =>
    match order with
    | none => rankIndexNone
    | some order =>
      match order.findIdx? (· = some serviceID) with
      | some i => UInt32.ofNat (i+1)
      | none => rankIndexNone

def serviceDictGetSignature (service : ServiceDict) : Option String :=
  match service.interfaceName with
  | none => none
  | some ifname =>
    match service.confirmedInterfaceName with
    | some confirmed => if confirmed = ifname then service.networkSignature else none
    | none => service.networkSignature

/-- `ElectionResults`; `size` is how many candidates there is memory for. -/
structure ElectionResults (Addr : Type) where
  size : Nat
  candidates : List (Candidate Addr)

def electionResultsAddCandidate (results : ElectionResults Addr) (candidate : Candidate Addr) : ElectionResults Addr :=
  if results.candidates.length = results.size then results
  else
    let position := (results.candidates.findIdx? (candidate.rank < ·.rank)).getD results.candidates.length
    {results with candidates := results.candidates.insertIdx position candidate}

structure ElectionInfo (Addr : Type) where
  af : AF
  order : Option (List (Option String))
  nOrder : Int
  pppOverridePrimary : Bool
  results : ElectionResults Addr
  rankDict : AList fun _ : String => Rank

/-- The candidate that a service is, if it is one. Every list but that of the
loopback interface has a route. -/
def electCandidate (af : AF) (order : Option (List (Option String))) (nOrder : Int) (pppOverridePrimary : Bool)
    (serviceID : String) (entities : Entities Addr) : Option (Candidate Addr) := do
  let ipdict ← entities.ip af
  let routelist ← ipdict.routes
  let service ← ipdict.service
  let ifName ← service.interfaceName
  if ifName = "lo0" then none
  else
    let index := getServiceIndex entities.service order nOrder serviceID
    let defaultRank := routelist.list.head?.elim 0 Route.rank
    let primaryRank :=
      if pppOverridePrimary ∧ cfStringHasPrefix ifName "ppp" then rankAssertionFirst
      else rankAssertionMask defaultRank
    some {
      serviceID
      ifName
      rank := rankMake index primaryRank
      ipIsCoupled := entities.service.any RankEntity.ipIsCoupled
      ineligible := !routelist.flags.hasDefault
      addr := routelist.list.head?.map Route.ifa
      signature := serviceDictGetSignature service }

def electIp (info : ElectionInfo Addr) (s : String × Entities Addr) : ElectionInfo Addr :=
  match electCandidate info.af info.order info.nOrder info.pppOverridePrimary s.1 s.2 with
  | none => info
  | some candidate => {info with
      results := electionResultsAddCandidate info.results candidate
      rankDict := info.rankDict.insert s.1 candidate.rank }

/-- The election over the services in the order in which their dictionary is
enumerated. Without a service order `n_order` is not initialised: it is `stale`. -/
def electionResultsCopy (af : AF) (pppOverridePrimary : Bool) (rankDict : AList fun _ : String => Rank) (stale : Int)
    (order : Option (List (Option String))) (services : List (String × Entities Addr)) : ElectionInfo Addr :=
  let nOrder := order.elim stale fun order => order.length
  services.foldl electIp ⟨af,order,nOrder,pppOverridePrimary,⟨services.length,[]⟩,rankDict⟩

/-! ## The primary -/

def electionResultsCandidateNeedsDemotion (otherCandidate : Option (Candidate Addr)) (candidate : Candidate Addr) :
    Bool :=
  match otherCandidate with
  | none => false
  | some other =>
    if other.ineligible then false
    else if rankAssertionMask other.rank = rankAssertionNever then false
    else if !candidate.ipIsCoupled && !other.ipIsCoupled then false
    else if other.ifName = candidate.ifName then false
    else if cfStringHasPrefix other.ifName "stf" then false
    else if candidate.rank < other.rank then false
    else if candidate.ipIsCoupled then !(other.ipIsCoupled && candidate.rank = other.rank)
    else if other.ipIsCoupled then candidate.rank ≠ other.rank
    else false

/-- What a candidate is in the network state, with the flags that it gets there. -/
structure IfState (Addr : Type) where
  candidate : Candidate Addr
  notInList : Bool
  notInIflist : Bool

structure Election (Addr : Type) where
  primary : Option (Candidate Addr)
  primaryIsNull : Bool
  routes : Option (RouteList Addr)
  deferred : List (Candidate Addr)
  nwiState : List (IfState Addr)

def Election.start : Election Addr := ⟨none,false,none,[],[]⟩

def addCandidateToNwiState (candidate : Candidate Addr) (notInList notInIflist : Bool) (nwi : List (IfState Addr)) :
    List (IfState Addr) :=
  nwi ++ [⟨candidate,notInList || rankAssertionMask candidate.rank = rankAssertionNever,notInIflist⟩]

def mayBePrimary (candidate : Candidate Addr) : Bool :=
  !candidate.ineligible && rankAssertionMask candidate.rank ≠ rankAssertionNever

variable [LinearOrder Addr]

def electStep (otherCandidate : Option (Candidate Addr)) (serviceRoutes : String → Option (RouteList Addr))
    (initialSize : Nat) (e : Election Addr) (scan : Candidate Addr) : Except Fault (Election Addr) :=
  let contends := mayBePrimary scan && e.primary.isNone
  let demoted := contends && electionResultsCandidateNeedsDemotion otherCandidate scan
  let isPrimary := contends && !demoted
  let e := {e with
    primary := if isPrimary then some scan else e.primary
    deferred := if demoted then e.deferred ++ [scan] else e.deferred }
  match serviceRoutes scan.serviceID with
  | none => .ok {e with primaryIsNull := e.primaryIsNull || isPrimary}
  | some list =>
    -- a demoted service must not get the default route either
    let rank := if demoted then rankMake scan.rank rankAssertionNever else scan.rank
    (routeListAddRouteList e.routes initialSize list rank).map fun routes =>
      let e := {e with routes}
      if demoted || list.flags.excludeNWI then {e with primaryIsNull := e.primaryIsNull || isPrimary}
      else if scan.ineligible then e
      else {e with nwiState := addCandidateToNwiState scan e.primaryIsNull list.flags.scopedOnly e.nwiState}

def routesNStatic : AF → Nat
  | .inet => 5
  | .inet6 => 3

structure Elected (Addr : Type) where
  primary : Option (Candidate Addr)
  routes : Option (RouteList Addr)
  nwiState : List (IfState Addr)

/-- `results` are the candidates; no results are an empty list. -/
def electionResultsGetPrimary (results : List (Candidate Addr)) (otherCandidate : Option (Candidate Addr)) (af : AF)
    (serviceRoutes : String → Option (RouteList Addr)) : Except Fault (Elected Addr) :=
  let initialSize := results.length * routesNStatic af
  (results.foldlM (electStep otherCandidate serviceRoutes initialSize) .start).map fun e =>
    { primary := if e.primaryIsNull then none else e.primary
      routes := e.routes
      nwiState := e.deferred.foldl (fun nwi c => addCandidateToNwiState c true false nwi) e.nwiState }

/-- The part of `IPMonitorProcessChanges` that elects: IPv4 against the first
candidate for IPv6, then IPv6 against the primary for IPv4. -/
def electPrimaries (ipv4 ipv6 : List (Candidate Addr)) (serviceRoutes : AF → String → Option (RouteList Addr)) :
    Except Fault (Elected Addr × Elected Addr) := do
  let elected4 ← electionResultsGetPrimary ipv4 ipv6.head? .inet (serviceRoutes .inet)
  let elected6 ← electionResultsGetPrimary ipv6 elected4.primary .inet6 (serviceRoutes .inet6)
  return (elected4,elected6)

end FreebsdLaunchd.IpMonitor
