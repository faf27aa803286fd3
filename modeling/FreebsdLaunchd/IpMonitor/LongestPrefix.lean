import FreebsdLaunchd.IpMonitor.Creating
import FreebsdLaunchd.IpMonitor.Lookup
import FreebsdLaunchd.IpMonitor.Updating

/-! The lists of routes that come about. In all of them a host route has the prefix of
all bits, and so a lookup finds the longest prefix. -/
namespace FreebsdLaunchd.IpMonitor

variable {Addr : Type}

/-! ## Combining and resolving -/

section Built
variable [LinearOrder Addr] {info : RouteListInfo Addr} {created : List (Route Addr) → Prop}
variable {r : Route Addr} {k : Rank} {routes out : Option (RouteList Addr)} {initSize : Nat} {list : List (Route Addr)}

/-- From lists that have been created: the routes of a service are added to a list, and an
excluded route of a list is resolved. -/
inductive Built (info : RouteListInfo Addr) (created : List (Route Addr) → Prop) : List (Route Addr) → Prop
  | empty : Built info created []
  | created {list : List (Route Addr)} (made : created list) : Built info created list
  | combined {routes out : Option (RouteList Addr)} {initSize : Nat} {serviceRoutes : RouteList Addr} {rank : Rank}
      (before : Built info created (listed routes)) (service : Built info created serviceRoutes.list)
      (added : routeListAddRouteList routes initSize serviceRoutes rank = .ok out) : Built info created (listed out)
  | resolved {list : List (Route Addr)} (before : Built info created list) (i : Nat) :
      Built info created (resolveExcluded info list i)

private theorem addRoute_whole (whole : ∀ x ∈ listed routes, x.HostWhole info) (new : r.HostWhole info)
    {final : RouteList Addr}
    (added : routeListAddRoute routes initSize r k = .ok final) : ∀ x ∈ final.list, x.HostWhole info := by
  have merged : final.list = merge r k (listed routes) := by
    obtain ⟨start,same,list⟩ : ∃ start : RouteList Addr,
        routes.getD ⟨initSize,⟨false,false,false⟩,[],Nat.zero_le _⟩ = start ∧ start.list = listed routes := by
      cases routes <;> exact ⟨_,rfl,rfl⟩
    simp only [routeListAddRoute,same] at added
    rw [merge,← list]
    cases ended : scanRoutes r k start.list 0 .start with
    | keep =>
      rw [ended] at added
      exact congrArg RouteList.list (Except.ok.inj added).symm
    | replace i x =>
      rw [ended] at added
      exact congrArg RouteList.list (Except.ok.inj added).symm
    | add duplicate s =>
      simp only [ended] at added
      by_cases room : (duplicate.elim start.list start.list.eraseIdx).length <
          if start.size = (duplicate.elim start.list start.list.eraseIdx).length then start.size*2 else start.size
      · rw [dif_pos room] at added
        exact congrArg RouteList.list (Except.ok.inj added).symm
      · rw [dif_neg room] at added
        cases added
  rw [merged]
  refine merge_all (P := Route.HostWhole info) (fun x kept => kept) whole new ?_
  intro scan
  cases taken : scan.flags.isScoped <;> simpa [replacement,taken,Route.setScoped,Route.HostWhole] using new

private theorem addRoutes_whole {cs : List (Route Addr × Rank)} (whole : ∀ x ∈ listed routes, x.HostWhole info)
    (new : ∀ c ∈ cs, c.1.HostWhole info)
    (added : cs.foldlM (fun routes c => some <$> routeListAddRoute routes initSize c.1 c.2) routes = .ok out) :
    ∀ x ∈ listed out, x.HostWhole info := by
  induction cs generalizing routes with
  | nil =>
    obtain rfl := Except.ok.inj added
    exact whole
  | cons c cs ih =>
    obtain ⟨first,others⟩ := List.forall_mem_cons.mp new
    rw [List.foldlM_cons] at added
    cases one : routeListAddRoute routes initSize c.1 c.2 with
    | error fault =>
      rw [one] at added
      cases added
    | ok final =>
      rw [one] at added
      exact @ih (some final) (addRoute_whole whole first one) others added

private theorem resolvedTo_whole (scan route : Route Addr) (whole : scan.HostWhole info) :
    (scan.resolvedTo info route).HostWhole info := by
  rw [Route.resolvedTo]
  split
  · intro host
    rcases Bool.or_eq_true_iff.mp host with before | all
    · exact whole before
    · exact of_decide_eq_true all
  · intro host
    cases host

private theorem resolveExcluded_whole (whole : ∀ x ∈ list, x.HostWhole info) (i : Nat) :
    ∀ x ∈ resolveExcluded info list i, x.HostWhole info := by
  unfold resolveExcluded
  split
  · exact whole
  next scan known =>
    split
    · exact whole
    · dsimp only
      split
      · exact whole
      next route found =>
        intro x member
        rcases List.mem_or_eq_of_mem_set member with old | rfl
        · exact whole x old
        · exact resolvedTo_whole scan route (whole scan (List.mem_of_getElem? known))

theorem Built.whole (fresh : ∀ list, created list → ∀ x ∈ list, x.HostWhole info) (built : Built info created list) :
    ∀ x ∈ list, x.HostWhole info := by
  induction built with
  | empty =>
    intro x member
    cases member
  | created made => exact fresh _ made
  | combined _ _ added before service =>
    exact addRoutes_whole before (fun c member => service c.1 (contributions_spec member).1) added
  | resolved _ i before => exact resolveExcluded_whole before i

end Built

/-! ## Creating -/

section Created
variable {Mask : Type} [DecidableEq Addr] [Zero Addr] [Zero Mask] {info : RouteListInfo Addr} {os : Platform}
  {family : RouteFamily Addr Mask}
variable {prefixOf : CFDictionary → Option (Int32 × Mask)} {addr : Addr} {ifindex : IFIndex} {rank : Rank}

omit [Zero Mask] in
private theorem additional_whole (all : family.allBitsSet.toNatClampNeg = info.allBitsSet)
    {items : List CFType} {r : Slot Addr Mask}
    (member : r ∈ items.filterMap (entryRoute (additionalRoute family prefixOf addr ifindex rank))) :
    r.route.HostWhole info := by
  obtain ⟨item,_,made⟩ := List.mem_filterMap.mp member
  cases item with
  | dictionary dict =>
    simp only [entryRoute,additionalRoute,Option.bind_eq_bind,Option.bind_eq_some_iff] at made
    obtain ⟨dest,_,⟨prefixLength,mask⟩,_,made⟩ := made
    obtain rfl := Option.some.inj made
    intro host
    obtain ⟨_,same⟩ := Bool.and_eq_true_iff.mp host
    rw [Slot.route,eq_of_beq same]
    exact all
  | string | number | boolean | array | other => cases made

omit [Zero Mask] in
private theorem excluded_whole {items : List CFType} {r : Slot Addr Mask}
    (member : r ∈ items.filterMap (entryRoute (excludedRoute os family prefixOf ifindex rank))) :
    r.route.HostWhole info := by
  obtain ⟨item,_,made⟩ := List.mem_filterMap.mp member
  cases item with
  | dictionary dict =>
    simp only [entryRoute,excludedRoute,Option.bind_eq_bind,Option.bind_eq_some_iff] at made
    obtain ⟨dest,_,⟨prefixLength,mask⟩,_,made⟩ := made
    split at made
    · cases made
    · obtain rfl := Option.some.inj made
      intro host
      cases host
  | string | number | boolean | array | other => cases made

omit [DecidableEq Addr] [Zero Addr] [Zero Mask] in
private theorem mem_wanted {wanted : Bool} {route r : Slot Addr Mask} (member : r ∈ if wanted then [route] else []) :
    r = route := by
  cases wanted with
  | false => cases member
  | true => exact List.mem_singleton.mp member

end Created

section Families
variable {os : Platform} {dict : CFDictionary} {rankAssertion : Option Rank}

private theorem whole_of_not_host {Addr : Type} [DecidableEq Addr] {info : RouteListInfo Addr} {r : Route Addr}
    (other : r.flags.isHost = false) : r.HostWhole info := by
  intro host
  rw [other] at host
  cases host

private theorem ipv4ServiceRoutes_not_host
    {s : IPv4ServiceRoutes} (found : ipv4ServiceRoutes os dict rankAssertion = some s) :
    s.flags.isHost = false := by
  unfold ipv4ServiceRoutes at found
  split at found
  · cases found
  · split at found
    · cases found
    · split at found
      · cases found
      · obtain rfl := Option.some.inj found
        rfl

private theorem ipv6ServiceRoutes_not_host
    {s : IPv6ServiceRoutes} (found : ipv6ServiceRoutes os dict rankAssertion = some s) :
    s.flags.isHost = false := by
  unfold ipv6ServiceRoutes at found
  split at found
  · cases found
  · split at found
    · cases found
    · dsimp only at found
      split at found
      · cases found
      · split at found
        · cases found
        · obtain rfl := Option.some.inj found
          rfl

def ipv4Created (list : List (Route IPv4Addr)) : Prop :=
  (∃ lo0, list = ipv4RouteListCopyMulticastLoopback lo0) ∨
    ∃ os routes dict rankAssertion out, ∃ fits : out.count.toNat ≤ out.size,
      ipv4RouteListCreateWithDictionary os routes dict rankAssertion = .ok (some out) ∧ list = (out.routeList fits).list

def ipv6Created (list : List (Route IPv6Addr)) : Prop :=
  ∃ os routes dict rankAssertion out, ∃ fits : out.count.toNat ≤ out.size,
    ipv6RouteListCreateWithDictionary os routes dict rankAssertion = .ok (some out) ∧ list = (out.routeList fits).list

private theorem ipv4Created_whole (netboot : Bool) {list : List (Route IPv4Addr)} (created : ipv4Created list) :
    ∀ x ∈ list, x.HostWhole (ipv4RouteListInfo netboot) := by
  rcases created with ⟨lo0,rfl⟩ | ⟨os,routes,dict,rankAssertion,out,fits,made,rfl⟩
  · intro x member
    rw [List.mem_singleton.mp member]
    exact whole_of_not_host rfl
  · cases found : dict.bind (ipv4ServiceRoutes os · rankAssertion) with
    | none =>
      simp only [ipv4RouteListCreateWithDictionary,found] at made
      cases made
    | some s =>
      obtain ⟨out',made',filled⟩ := ipv4_filled dict rankAssertion found routes
      obtain rfl := Option.some.inj (Except.ok.inj (made.symm.trans made'))
      obtain ⟨dict',_,found⟩ := Option.bind_eq_some_iff.mp found
      intro x member
      rw [filled.routeList] at member
      obtain ⟨r,inside,rfl⟩ := List.mem_map.mp member
      simp only [IPv4ServiceRoutes.routes,List.mem_append] at inside
      rcases inside with (((((default | broadcast) | multicast) | subnet) | router) | additional) | excluded
      · rw [mem_wanted default]
        exact whole_of_not_host (ipv4ServiceRoutes_not_host found)
      · rw [mem_wanted broadcast]
        exact whole_of_not_host rfl
      · rw [mem_wanted multicast]
        exact whole_of_not_host rfl
      · rw [mem_wanted subnet]
        exact whole_of_not_host rfl
      · rw [mem_wanted router]
        exact whole_of_not_host rfl
      · exact additional_whole rfl additional
      · exact excluded_whole excluded

private theorem ipv6Created_whole {list : List (Route IPv6Addr)} (created : ipv6Created list) :
    ∀ x ∈ list, x.HostWhole ipv6RouteListInfo := by
  obtain ⟨os,routes,dict,rankAssertion,out,fits,made,rfl⟩ := created
  cases found : dict.bind (ipv6ServiceRoutes os · rankAssertion) with
  | none =>
    simp only [ipv6RouteListCreateWithDictionary,found] at made
    cases made
  | some s =>
    obtain ⟨out',made',filled⟩ := ipv6_filled dict rankAssertion found routes
    obtain rfl := Option.some.inj (Except.ok.inj (made.symm.trans made'))
    obtain ⟨dict',_,found⟩ := Option.bind_eq_some_iff.mp found
    intro x member
    rw [filled.routeList] at member
    obtain ⟨r,inside,rfl⟩ := List.mem_map.mp member
    simp only [IPv6ServiceRoutes.routes,List.mem_append] at inside
    rcases inside with (((default | linkLocal) | prefix_) | additional) | excluded
    · rw [mem_wanted default]
      exact whole_of_not_host (ipv6ServiceRoutes_not_host found)
    · rw [List.mem_singleton.mp linkLocal]
      exact whole_of_not_host rfl
    · rw [mem_wanted prefix_]
      exact whole_of_not_host rfl
    · exact additional_whole rfl additional
    · exact excluded_whole excluded

end Families

/-! ## Looking up -/

local instance addressLinearOrder (width : Nat) : LinearOrder (BitVec width) := addressOrder width

def IPv4Occurs (netboot : Bool) (r : Route IPv4Addr) : Prop :=
  ∃ list, Built (ipv4RouteListInfo netboot) ipv4Created list ∧ r ∈ list

def IPv6Occurs (r : Route IPv6Addr) : Prop := ∃ list, Built ipv6RouteListInfo ipv6Created list ∧ r ∈ list

/-- Of routes that occur, in any order, one with the longest prefix of those that are eligible is found. -/
theorem routeListLookup_longest (nBits : Nat) (ifindex : IFIndex) (lookupFlags : RouteLookupFlags) :
    (∀ netboot (routes : List (Route IPv4Addr)), (∀ r ∈ routes, IPv4Occurs netboot r) → ∀ address,
      LongestPrefix (ipv4RouteListInfo netboot) routes address nBits ifindex lookupFlags
        (routeListLookup (ipv4RouteListInfo netboot) routes address nBits ifindex lookupFlags)) ∧
    ∀ routes : List (Route IPv6Addr), (∀ r ∈ routes, IPv6Occurs r) → ∀ address,
      LongestPrefix ipv6RouteListInfo routes address nBits ifindex lookupFlags
        (routeListLookup ipv6RouteListInfo routes address nBits ifindex lookupFlags) := by
  constructor
  · intro netboot routes occurs address
    refine routeListLookup_whole (ipv4RouteListInfo netboot) ?_ address nBits ifindex lookupFlags
    intro r member
    obtain ⟨list,built,listed⟩ := occurs r member
    exact built.whole (fun list created => ipv4Created_whole netboot created) r listed
  · intro routes occurs address
    refine routeListLookup_whole ipv6RouteListInfo ?_ address nBits ifindex lookupFlags
    intro r member
    obtain ⟨list,built,listed⟩ := occurs r member
    exact built.whole (fun list created => ipv6Created_whole created) r listed

/-- The network interfaces and addresses of one machine. -/
def officeMachine : Platform where
  ifNameToIndex ifname := if ifname = "en0".toList then 4 else 0
  lo0Ifindex := 1
  inetPton4 str :=
    if str = "10.0.0.2".toList then some 0x0a000002
    else if str = "10.0.0.1".toList then some 0x0a000001
    else if str = "10.0.0.9".toList then some 0x0a000009
    else if str = "255.255.255.0".toList then some 0xffffff00
    else if str = "255.255.255.255".toList then some 0xffffffff
    else none
  inetPton6 _ := none

/-- A service with its subnet, and a route to one host in it through a gateway. -/
def officeService : CFDictionary :=
  [(.interfaceName,.string "en0".toList),(.addresses,.array [.string "10.0.0.2".toList]),
    (.subnetMasks,.array [.string "255.255.255.0".toList]),
    (.additionalRoutes,.array [.dictionary [(.destinationAddress,.string "10.0.0.9".toList),
      (.subnetMask,.string "255.255.255.255".toList),(.gatewayAddress,.string "10.0.0.1".toList)]])]

def officeRoutes : List (Route IPv4Addr) :=
  [⟨32,4,0,rankAssertionLast,.none,0xffffffff,0,0x0a000002⟩,⟨4,4,0,rankAssertionLast,.none,0xe0000000,0,0x0a000002⟩,
    ⟨24,4,0,rankAssertionLast,.none,0x0a000000,0x0a000002,0x0a000002⟩,
    ⟨32,4,0,rankAssertionLast,⟨false,true,true,false,false⟩,0x0a000009,0x0a000001,0x0a000002⟩]

private theorem officeRoutes_created : ipv4Created officeRoutes := by
  right
  exact ⟨officeMachine,none,some officeService,none,_,by decide,rfl,by decide⟩

theorem officeRoutes_found : LongestPrefix (ipv4RouteListInfo false) officeRoutes 0x0a000009 32 4 .none (some 3) := by
  have occurs : ∀ r ∈ officeRoutes, IPv4Occurs false r := fun r member => ⟨_,.created officeRoutes_created,member⟩
  have found : routeListLookup (ipv4RouteListInfo false) officeRoutes 0x0a000009 32 4 .none = some 3 := by decide
  rw [← found]
  exact (routeListLookup_longest 32 4 .none).1 false officeRoutes occurs 0x0a000009

end FreebsdLaunchd.IpMonitor
