import Mathlib.Algebra.Order.Ring.Int

/-! Routes as the IP monitor of configd keeps them: each service has a list of
its own, and the lists of all services are combined into the one that goes to
the kernel. IPv4 and IPv6 share the code. -/
namespace FreebsdLaunchd.IpMonitor

/-- The rank assertion is in the top 8 bits, the service index in the bottom 24. -/
abbrev Rank := UInt32

def rankAssertionDefault : Rank := 0x1000000

def rankAssertionFirst : Rank := 0

def rankAssertionLast : Rank := 0x2000000

def rankAssertionNever : Rank := 0x3000000

/-- `kRankIndexMask`, which is also the index of a service without a place in the order. -/
def rankIndexNone : Rank := 0xffffff

def rankAssertionMask (r : Rank) : Rank := r &&& 0xff000000

def rankIndexMask (r : Rank) : Rank := r &&& 0xffffff

def rankMake (serviceIndex primaryRank : Rank) : Rank :=
  rankIndexMask serviceIndex ||| rankAssertionMask primaryRank

def rankCompare (a b : Rank) : Int := if a = b then 0 else if a < b then -1 else 1

theorem rankIndexMask_toNat (r : Rank) : (rankIndexMask r).toNat = r.toNat % 2^24 := by
  rw [rankIndexMask,UInt32.toNat_and]
  exact Nat.and_two_pow_sub_one_eq_mod r.toNat 24

theorem rankAssertionMask_toNat (r : Rank) : (rankAssertionMask r).toNat = r.toNat / 2^24 * 2^24 := by
  have small : r.toNat < 2^32 := r.toNat_lt
  rw [rankAssertionMask,UInt32.toNat_and]
  apply Nat.eq_of_testBit_eq
  intro i
  have mask : (0xff000000 : UInt32).toNat = (2^8-1) * 2^24 := by decide
  rw [mask,Nat.testBit_and,Nat.testBit_mul_two_pow,Nat.testBit_mul_two_pow,Nat.testBit_two_pow_sub_one,
    Nat.testBit_div_two_pow]
  by_cases high : 24 ≤ i
  · by_cases inside : i < 32
    · simp [high,Nat.sub_add_cancel high,show i - 24 < 8 by omega]
    · have clear : r.toNat.testBit i = false :=
        Nat.testBit_lt_two_pow (Nat.lt_of_lt_of_le small (Nat.pow_le_pow_right (by decide) (by omega)))
      simp [high,clear,Nat.sub_add_cancel high]
  · simp [high]

@[simp] theorem rankIndexMask_rankMake (i a : Rank) : rankIndexMask (rankMake i a) = rankIndexMask i := by
  have apart : 0xff000000 &&& 0xffffff = 0 := by decide
  apply UInt32.toNat_inj.mp
  simp [rankMake,rankIndexMask,rankAssertionMask,Nat.and_or_distrib_right,Nat.and_assoc,apart]

@[simp] theorem rankAssertionMask_rankMake (i a : Rank) : rankAssertionMask (rankMake i a) = rankAssertionMask a := by
  have apart : 0xffffff &&& 0xff000000 = 0 := by decide
  apply UInt32.toNat_inj.mp
  simp [rankMake,rankIndexMask,rankAssertionMask,Nat.and_or_distrib_right,Nat.and_assoc,apart]

/-- An interface index as the kernel gives them, so that a difference of two is an `int`. -/
abbrev IFIndex := Fin (2^31)

/-- No interface has the index 0. -/
instance ifIndex_neZero : NeZero (2^31) := ⟨by decide⟩

structure RouteFlags where
  isScoped : Bool
  hasGateway : Bool
  isHost : Bool
  isNULL : Bool
  kernelManaged : Bool
  deriving DecidableEq, Repr

structure Route (Addr : Type) where
  prefixLength : Nat
  ifindex : IFIndex
  excludeIfindex : IFIndex
  rank : Rank
  flags : RouteFlags
  dest : Addr
  gateway : Addr
  ifa : Addr
  deriving DecidableEq, Repr

structure RouteListFlags where
  excludeNWI : Bool
  hasDefault : Bool
  scopedOnly : Bool
  deriving DecidableEq, Repr

/-- `RouteListRef`: `size` is how many routes there is memory for. -/
structure RouteList (Addr : Type) where
  size : Nat
  flags : RouteListFlags
  list : List (Route Addr)
  fits : list.length ≤ size

/-- A list has been written beyond its memory. -/
inductive Fault
  | overrun
  deriving DecidableEq

variable {Addr : Type}

def Route.setScoped (r : Route Addr) : Route Addr := {r with flags := {r.flags with isScoped := true}}

variable [LinearOrder Addr]

/-- `memcmp` orders the addresses. -/
def routeAddressCompare (a b : Addr) : Int := if a < b then -1 else if a = b then 0 else 1

/-- The order of two routes, and whether they compete for one destination. -/
def routeCompare (a : Route Addr) (aRank : Rank) (b : Route Addr) (bRank : Rank) : Int × Bool :=
  let cmp := routeAddressCompare a.dest b.dest
  if cmp ≠ 0 then (cmp,false)
  else
    let cmp := (a.prefixLength : Int) - b.prefixLength
    if cmp ≠ 0 then (cmp,false)
    else
      let indexCmp := (a.ifindex.val : Int) - b.ifindex.val
      if indexCmp = 0 then (0,false)
      else if (a.ifindex = 0 ∨ b.ifindex = 0) ∧ !a.flags.isScoped ∧ !b.flags.isScoped then (0,false)
      else
        let cmp := rankCompare aRank bRank
        (if cmp = 0 then indexCmp else cmp,true)

/-! ## Adding a route -/

inductive Scope
  | none | this | next
  deriving DecidableEq

/-- What the loop of `RouteListAddRoute` has found; `position` is `where`. -/
structure Scan (Addr : Type) where
  firstScan : Option (Route Addr)
  scopeWhich : Scope
  position : Option Nat

def Scan.start : Scan Addr := ⟨none,.none,none⟩

def Scan.note (s : Scan Addr) (sameDest : Bool) (scan : Route Addr) : Scan Addr :=
  if sameDest && s.firstScan.isNone then {s with firstScan := some scan} else s

/-- The route goes before `scan`, unless it goes before an earlier one. -/
def Scan.before (s : Scan Addr) (sameDest : Bool) (i : Nat) (scan : Route Addr) : Scan Addr :=
  if s.position.isSome then s
  else
    let scopeWhich :=
      if sameDest && s.firstScan.any (!·.flags.isScoped) then
        if scan.flags.isScoped then .this else .next
      else s.scopeWhich
    {s with scopeWhich,position := some i}

def Scan.after (s : Scan Addr) (sameDest : Bool) : Scan Addr :=
  if sameDest && s.scopeWhich = .none then {s with scopeWhich := .this} else s

/-- How the loop ends: the list stays, a route of it is replaced, or the new one
is added, after a duplicate may have gone. -/
inductive ScanEnd (Addr : Type)
  | keep
  | replace (i : Nat) (r : Route Addr)
  | add (duplicate : Option Nat) (s : Scan Addr)

/-- The route takes the place of `scan`, and its scope. -/
def replacement (thisRoute : Route Addr) (thisRank : Rank) (scan : Route Addr) : Route Addr :=
  let ifindex := if scan.ifindex ≠ 0 then scan.ifindex else thisRoute.ifindex
  let r := {thisRoute with rank := thisRank,ifindex,excludeIfindex := 0}
  if scan.flags.isScoped then r.setScoped else r

/-- The loop of `RouteListAddRoute` over the routes from the `i`-th on. -/
def scanRoutes (thisRoute : Route Addr) (thisRank : Rank) : List (Route Addr) → Nat → Scan Addr → ScanEnd Addr
  | [], _, s => .add none s
  | scan::rest, i, s =>
    let (cmp,sameDest) := routeCompare thisRoute thisRank scan scan.rank
    let s := s.note sameDest scan
    if cmp < 0 then scanRoutes thisRoute thisRank rest (i+1) (s.before sameDest i scan)
    else if cmp = 0 then
      if s.position.isSome ∧ scan.ifindex = thisRoute.ifindex ∧ scan.excludeIfindex = 0 ∧
          thisRoute.excludeIfindex = 0 then
        .add (some i) s
      else if thisRoute.excludeIfindex = 0 ∧ (scan.excludeIfindex ≠ 0 ∨ thisRank < scan.rank) then
        .replace i (replacement thisRoute thisRank scan)
      else .keep
    else scanRoutes thisRoute thisRank rest (i+1) (s.after sameDest)

/-- The end of `RouteListAddRoute`, where there is memory for the route. -/
def addScanned (thisRoute : Route Addr) (thisRank : Rank) (s : Scan Addr) (list : List (Route Addr)) :
    List (Route Addr) :=
  let index := s.position.getD list.length
  let list := list.insertIdx index {thisRoute with rank := thisRank}
  let scopes := rankAssertionMask thisRank = rankAssertionNever ∨ s.scopeWhich ≠ .none
  -- `kCFNotFound` is -1
  let target := if s.scopeWhich = .next then s.position.elim 0 (·+1) else index
  if scopes then list.modify target Route.setScoped else list

omit [LinearOrder Addr] in
private theorem addScanned_length (thisRoute : Route Addr) (thisRank : Rank) (s : Scan Addr) (list : List (Route Addr)) :
    (addScanned thisRoute thisRank s list).length ≤ list.length + 1 := by
  have inserted : (list.insertIdx (s.position.getD list.length) {thisRoute with rank := thisRank}).length ≤ list.length+1 :=
    List.length_insertIdx_le_succ
  simp only [addScanned]
  split
  · simpa only [List.length_modify] using inserted
  · exact inserted

/-- No list is `none`, and `malloc` does not fail. -/
def routeListAddRoute (routes : Option (RouteList Addr)) (initSize : Nat) (thisRoute : Route Addr) (thisRank : Rank) :
    Except Fault (RouteList Addr) :=
  let routes := routes.getD ⟨initSize,⟨false,false,false⟩,[],Nat.zero_le _⟩
  match scanRoutes thisRoute thisRank routes.list 0 .start with
  | .keep => .ok routes
  | .replace i r => .ok {routes with list := routes.list.set i r,fits := by simpa using routes.fits}
  | .add duplicate s =>
    let list := duplicate.elim routes.list routes.list.eraseIdx
    let size := if routes.size = list.length then routes.size*2 else routes.size
    if room : list.length < size then
      .ok ⟨size,routes.flags,addScanned thisRoute thisRank s list,
        Nat.le_trans (addScanned_length thisRoute thisRank s list) room⟩
    else .error .overrun

/-- Each route of a service with the rank it gets in the combined list. Only
the default route, which is first, has the assertion of the service. -/
def contributions (serviceRoutes : RouteList Addr) (rank : Rank) : List (Route Addr × Rank) :=
  serviceRoutes.list.mapIdx fun i scan =>
    (scan,if i = 0 ∧ serviceRoutes.flags.hasDefault then rank else rankMake rank scan.rank)

def routeListAddRouteList (routes : Option (RouteList Addr)) (initSize : Nat) (serviceRoutes : RouteList Addr)
    (rank : Rank) : Except Fault (Option (RouteList Addr)) :=
  (contributions serviceRoutes rank).foldlM
    (fun routes c => some <$> routeListAddRoute routes initSize c.1 c.2) routes

end FreebsdLaunchd.IpMonitor
