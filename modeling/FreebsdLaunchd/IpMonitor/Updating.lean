import FreebsdLaunchd.IpMonitor.Coupling
import FreebsdLaunchd.IpMonitor.InStep

/-! From the candidates of an election to the routing table: each update elects,
combines the routes of the candidates and applies them over the list before. -/
namespace FreebsdLaunchd.IpMonitor
open Grouped Runs

variable {Addr : Type}

/-! ## The end of an update -/

section Finalize
variable [DecidableEq Addr] (info : RouteListInfo Addr)

/-- An excluded route takes the interface and the gateway of the route that it has been resolved to. -/
def Route.resolvedTo (scan route : Route Addr) : Route Addr :=
  if route.flags.hasGateway then
    {scan with
      ifindex := route.ifindex
      gateway := route.gateway
      flags := {scan.flags with
        hasGateway := true
        isHost := scan.flags.isHost || scan.prefixLength = info.allBitsSet}}
  else
    {scan with ifindex := route.ifindex,flags := {scan.flags with hasGateway := false,isHost := false}}

/-- One iteration of `RouteListFinalize`. -/
def resolveExcluded (routes : List (Route Addr)) (i : Nat) : List (Route Addr) :=
  match routes[i]? with
  | none => routes
  | some scan =>
    if scan.excludeIfindex = 0 then routes
    else
      let found :=
        if scan.ifindex = 0 then
          routeListLookup info routes scan.dest scan.prefixLength scan.excludeIfindex .excludeInterface
        else routeListLookup info routes scan.dest scan.prefixLength scan.ifindex .none
      match found.bind (routes[·]?) with
      | none => routes
      | some route => routes.set i (scan.resolvedTo info route)

def routeListFinalize (routes : List (Route Addr)) : List (Route Addr) :=
  (List.range routes.length).foldl (resolveExcluded info) routes

private theorem routeListFinalize_plain {routes : List (Route Addr)} (plain : ∀ r ∈ routes, r.excludeIfindex = 0) :
    routeListFinalize info routes = routes := by
  have stays (i : Nat) : resolveExcluded info routes i = routes := by
    rw [resolveExcluded]
    cases found : routes[i]? with
    | none => rfl
    | some scan => simp [plain scan (List.mem_of_getElem? found)]
  have run (is : List Nat) : is.foldl (resolveExcluded info) routes = routes := by
    induction is with
    | nil => rfl
    | cons i is ih => rw [List.foldl_cons,stays,ih]
  exact run _

end Finalize

variable [LinearOrder Addr] [Zero Addr]

/-- What an update goes by: the candidates of the family, the candidate of the other one that the
election looks at, and the routing socket, if it can be opened, with what the kernel refuses. -/
structure Change (Addr : Type) where
  candidates : List (Candidate Addr)
  other : Option (Candidate Addr)
  serviceRoutes : String → Option (RouteList Addr)
  socket : Option (Nat → Option Nat)

/-- `update_ipv4` and `update_ipv6` without what they publish. `substitute` is the list that
is applied where there is none; without a socket the list is stored all the same. -/
def updateRoutes (info : RouteListInfo Addr) (substitute : List (Route Addr)) (w : Monitor Addr)
    (newRoutelist : Option (RouteList Addr)) (socket : Option (Nat → Option Nat)) : Monitor Addr :=
  match socket with
  | none => ⟨(listed newRoutelist).map unprocessed,w.entries⟩
  | some refuses =>
    let routes := newRoutelist.elim substitute fun l => routeListFinalize info l.list
    let applied := routeListApply info (kernelTable refuses) w.routes (routes.map unprocessed) ⟨w.entries,0⟩
    ⟨applied.newRoutes,applied.kernel.entries⟩

/-- The part of `IPMonitorProcessChanges` for one family. -/
def processChange (af : AF) (info : RouteListInfo Addr) (substitute : List (Route Addr)) (w : Except Fault (Monitor Addr))
    (change : Change Addr) : Except Fault (Monitor Addr) := do
  let w ← w
  let elected ← electionResultsGetPrimary change.candidates change.other af change.serviceRoutes
  return updateRoutes info substitute w elected.routes change.socket

/-! ## The keys of a combined list -/

section Keys
variable {cs : List (Route Addr × Rank)} {list g : List (Route Addr)}

omit [LinearOrder Addr] [Zero Addr] in
theorem Ranked.routeKeys (ranked : Ranked g) : g.Pairwise (·.routeKey ≠ ·.routeKey) := by
  have tail : g.Pairwise fun _ b => b.flags.isScoped := by
    cases g with
    | nil => exact .nil
    | cons x g =>
      refine .cons (fun b member => ranked.tail b member) ?_
      exact List.pairwise_of_forall_mem_list fun _ _ b member => ranked.tail b member
  refine (ranked.apart.and tail).imp ?_
  rintro a b ⟨apart,second⟩ same
  have scopes := congrArg RouteKey.ifscope same
  simp only [Route.routeKey,Route.ifscope,second,if_true] at scopes
  split at scopes
  · exact apart (Option.some.inj scopes)
  · cases scopes

omit [Zero Addr] in
/-- Only one route to a destination is without a scope, and the others are over different interfaces. -/
theorem Combines.uniqueKeys (combines : Combines cs list) : UniqueKeys list := by
  refine List.pairwise_map.mpr ((combines.sorted.pairwise fun key => (combines.ranked key).routeKeys).imp ?_)
  rintro a b (before | ⟨_,differ⟩) same
  · refine absurd before (not_lt_of_ge (le_of_eq ?_))
    rw [Route.key,Route.key,show a.dest = b.dest from congrArg RouteKey.dest same,
      show a.prefixLength = b.prefixLength from congrArg RouteKey.prefixLength same]
  · exact differ same

end Keys

/-! ## In step -/

def Change.Ordinary (change : Change Addr) : Prop :=
  ∀ c ∈ change.candidates, ∀ l, change.serviceRoutes c.serviceID = some l → ∀ r ∈ l.list, r.Plain

section Elected
variable {change : Change Addr}

omit [LinearOrder Addr] [Zero Addr] in
private theorem shares_plain {serviceRoutes : String → Option (RouteList Addr)} {other : Option (Candidate Addr)}
    {cs : List (Candidate Addr)} (plain : ∀ c ∈ cs, ∀ l, serviceRoutes c.serviceID = some l → ∀ r ∈ l.list, r.Plain)
    (open_ : Bool) : ∀ c ∈ shares serviceRoutes other open_ cs, c.1.Plain := by
  induction cs generalizing open_ with
  | nil => nofun
  | cons c cs ih =>
    rw [List.forall_mem_cons] at plain
    rw [shares,List.forall_mem_append]
    refine ⟨?_,ih plain.2 _⟩
    intro contributed member
    rw [share] at member
    cases found : serviceRoutes c.serviceID with
    | none => simp [found] at member
    | some l =>
      rw [found] at member
      exact plain.1 l found _ (contributions_spec member).1

omit [Zero Addr] in
/-- The election ends with a list of ordinary routes, each with a key of its own. -/
theorem elected_routes (ordinary : change.Ordinary) (af : AF) :
    ∃ elected, electionResultsGetPrimary change.candidates change.other af change.serviceRoutes = .ok elected ∧
      UniqueKeys (listed elected.routes) ∧ ∀ r ∈ listed elected.routes, r.Plain := by
  obtain ⟨elected,ended,_,routes⟩ := electionResultsGetPrimary_ok change.candidates change.other af change.serviceRoutes
  have combines := combines_all (@shares_plain Addr change.serviceRoutes change.other change.candidates ordinary true)
  rw [← routes] at combines
  refine ⟨elected,ended,combines.uniqueKeys,?_⟩
  intro r member
  exact (combines.ranked r.key).plain r (mem_group.mpr ⟨member,rfl⟩)

end Elected

/-- The table holds exactly the routes of the list that are marked as added and go to the kernel. -/
def InStep (info : RouteListInfo Addr) : Except Fault (Monitor Addr) → Prop
  | .ok w => Holds info w.routes w.entries
  | .error _ => False

def Followed (info : RouteListInfo Addr) : Except Fault (Monitor Addr) → Prop
  | .ok w => w.Sound info
  | .error _ => False

/-- Where the routing socket cannot be opened, the table is empty. -/
def NothingLost (w : Except Fault (Monitor Addr)) (change : Change Addr) : Prop :=
  change.socket = none → ∀ m, w = .ok m → ∀ key, m.entries key = none

variable {info : RouteListInfo Addr} {substitute : List (Route Addr)} {w : Monitor Addr} {change : Change Addr}

private theorem updateRoutes_some {routes : Option (RouteList Addr)} {refuses : Nat → Option Nat}
    (plain : ∀ r ∈ listed routes, r.Plain) (unique : UniqueKeys (listed routes)) (single : UniqueKeys substitute) :
    ∃ u : Update Addr, updateRoutes info substitute w routes (some refuses) = w.update info u ∧
      u.routes = routes.elim substitute RouteList.list := by
  cases routes with
  | none => exact ⟨⟨substitute,single,refuses⟩,rfl,rfl⟩
  | some l =>
    have same : routeListFinalize info l.list = l.list := routeListFinalize_plain info fun r member => (plain r member).exclude
    refine ⟨⟨l.list,unique,refuses⟩,?_,rfl⟩
    simp only [updateRoutes,Option.elim_some,same]
    rfl

omit [LinearOrder Addr] [Zero Addr] in
private theorem unprocessed_idle (routes : List (Route Addr)) :
    ∀ c ∈ routes.map unprocessed, c.controlFlags.added = false := by
  simp [unprocessed]

/-- A list that has only been stored is in step with no other table than the empty one. -/
theorem holds_stored {routes : List (Route Addr)} {entries : RouteKey Addr → Option (RouteMessage Addr)} :
    Holds info (routes.map unprocessed) entries ↔ ∀ key, entries key = none := by
  constructor
  · intro holds key
    cases known : entries key with
    | none => rfl
    | some m =>
      obtain ⟨c,member,added,_⟩ := (holds key m).mp known
      rw [unprocessed_idle routes c member] at added
      cases added
  · intro empty key m
    rw [empty key]
    constructor
    · nofun
    · rintro ⟨c,member,added,_⟩
      rw [unprocessed_idle routes c member] at added
      cases added

private theorem followed_step (af : AF) (single : UniqueKeys substitute) (w : Except Fault (Monitor Addr))
    (change : Change Addr)
    (ordinary : change.Ordinary) (followed : Followed info w) (nothingLost : NothingLost w change) :
    Followed info (processChange af info substitute w change) := by
  cases w with
  | error fault => exact followed.elim
  | ok w =>
    have sound : w.Sound info := followed
    obtain ⟨elected,ended,unique,plain⟩ := elected_routes ordinary af
    have next : processChange af info substitute (.ok w) change =
        .ok (updateRoutes info substitute w elected.routes change.socket) := by
      simp only [processChange,ended,bind,Except.bind]
      rfl
    rw [next]
    cases opened : change.socket with
    | some refuses =>
      obtain ⟨u,same,-⟩ := @updateRoutes_some _ _ _ info substitute w _ refuses plain unique single
      rw [same]
      exact sound.update u
    | none =>
      have idle := unprocessed_idle (listed elected.routes)
      refine ⟨?_,?_,?_,holds_stored.mpr (nothingLost opened w rfl)⟩
      · simpa [updateRoutes,unprocessed,Function.comp_def] using unique
      · intro c member added
        exact absurd added (by simp [idle c member])
      · intro c member added
        exact absurd added (by simp [idle c member])

private theorem nothingLost_of_inStep (af : AF) (w : Except Fault (Monitor Addr)) (change : Change Addr)
    (ordinary : change.Ordinary) (inStep : InStep info (processChange af info substitute w change)) :
    NothingLost w change := by
  rintro closed m rfl key
  obtain ⟨elected,ended,_⟩ := elected_routes ordinary af
  simp only [processChange,ended,bind,Except.bind,updateRoutes,closed] at inStep
  exact holds_stored.mp inStep key

variable {changes : List (Change Addr)}

private theorem followed_initial (info : RouteListInfo Addr) : Followed info (.ok .initial) := initial_sound info

private theorem inStep_of_followed (w : Except Fault (Monitor Addr)) (followed : Followed info w) : InStep info w := by
  cases w with
  | error fault => exact followed.elim
  | ok w => exact Monitor.Sound.holds followed

/-- The election of the change ends, and the list stored last is the one that came out of it. -/
def ListsElected (af : AF) (info : RouteListInfo Addr) (substitute : List (Route Addr)) (w : Except Fault (Monitor Addr))
    (change : Change Addr) : Prop :=
  ∃ elected w', electionResultsGetPrimary change.candidates change.other af change.serviceRoutes = .ok elected ∧
    processChange af info substitute w change = .ok w' ∧
    w'.routes.map ControlledRoute.toRoute = elected.routes.elim substitute RouteList.list

/-- Every update ends, and no route of the list it leaves is added that has not been processed. -/
def Ends : Except Fault (Monitor Addr) → Prop
  | .ok w => SaneFlags w.routes
  | .error _ => False

private theorem ends_step (af : AF) (single : UniqueKeys substitute) (w : Except Fault (Monitor Addr))
    (change : Change Addr)
    (ordinary : change.Ordinary) (ends : Ends w) :
    Ends (processChange af info substitute w change) ∧
      (change.socket.isSome → ListsElected af info substitute w change) := by
  cases w with
  | error fault => exact ends.elim
  | ok w =>
    have sane : SaneFlags w.routes := ends
    obtain ⟨elected,ended,unique,plain⟩ := elected_routes ordinary af
    have next : processChange af info substitute (.ok w) change =
        .ok (updateRoutes info substitute w elected.routes change.socket) := by
      simp only [processChange,ended,bind,Except.bind]
      rfl
    rw [next]
    cases opened : change.socket with
    | none =>
      refine ⟨fun c member added => ?_,nofun⟩
      rw [unprocessed_idle _ c member] at added
      cases added
    | some refuses =>
      obtain ⟨u,same,routes⟩ := @updateRoutes_some _ _ _ info substitute w _ refuses plain unique single
      refine ⟨?_,fun _ => ⟨elected,_,ended,next,?_⟩⟩
      · rw [same]
        exact update_sane info sane u
      · rw [opened,same,← routes]
        exact applied_routes info sane u

/-- From no list and an empty table: after each update the table holds exactly the added routes of the list,
whatever the kernel refuses to add, exactly if the routing socket is only missing while the table is empty. The
list is that of the election after each update through the socket. -/
theorem follows_elections_iff (af : AF) (info : RouteListInfo Addr) (single : UniqueKeys substitute)
    (ordinary : ∀ change ∈ changes, change.Ordinary) :
    (Along (processChange af info substitute) (InStep info) (.ok .initial) changes ↔
      Meets (processChange af info substitute) NothingLost (.ok .initial) changes) ∧
    Meets (processChange af info substitute) (fun w change => change.socket.isSome →
      ListsElected af info substitute w change) (.ok .initial) changes := by
  have admitted : Meets (processChange af info substitute) (fun _ change => change.Ordinary) (.ok .initial) changes :=
    meets_of_mem ordinary _
  constructor
  · exact along_iff_meets_of_admitted (fun w change ordinary followed nothingLost =>
        followed_step af single w change ordinary followed nothingLost)
      (fun w change ordinary _ next => nothingLost_of_inStep af w change ordinary next)
      inStep_of_followed (followed_initial info) admitted
  · have initial : Ends (.ok (.initial : Monitor Addr)) := nofun
    exact meets_of_along (A := fun _ _ => True)
      (fun w change _ ends ordinary => (ends_step af single w change ordinary ends).1)
      (fun w change ends ordinary => (ends_step af single w change ordinary ends).2) initial
      (meets_of_mem (G := fun _ => True) (fun _ _ => trivial) _) admitted

/-! ## IPv4 -/

/-- `memcmp` goes by the bytes as they are sent, the most significant one first. -/
@[reducible] def addressOrder (width : Nat) : LinearOrder (BitVec width) where
  toDecidableEq := instDecidableEqBitVec
  le_refl := fun a => Nat.le_refl a.toNat
  le_trans := fun a b c first second => BitVec.le_trans first second
  le_antisymm := fun a b first second => BitVec.le_antisymm first second
  le_total := fun a b => BitVec.le_total a b
  lt_iff_le_not_ge := fun a b => by simp [BitVec.le_def,BitVec.lt_def]; omega
  toDecidableLE := inferInstance
  toDecidableLT := inferInstance

def ipv4RouteListCopyMulticastLoopback (lo0 : IFIndex) : List (Route (BitVec 32)) :=
  [⟨24,lo0,0,0,⟨false,false,false,false,false⟩,0xe0000000,0,0⟩]

private theorem loopback_single (lo0 : IFIndex) : UniqueKeys (ipv4RouteListCopyMulticastLoopback lo0) :=
  List.nodup_singleton _

section Witness

local instance ipv4Order : LinearOrder (BitVec 32) := addressOrder 32

def serviceUp (socket : Option (Nat → Option Nat)) : Change (BitVec 32) where
  candidates := [⟨"Ethernet","en0",rankMake 1 rankAssertionDefault,false,false,some 0x0a000002,none⟩]
  other := none
  serviceRoutes _ := some ⟨2,⟨false,true,false⟩,
    [⟨0,4,0,rankAssertionDefault,⟨false,true,false,false,false⟩,0,0x0a000001,0x0a000002⟩,
      ⟨24,4,0,rankAssertionDefault,⟨false,false,false,false,false⟩,0x0a000000,0,0x0a000002⟩],by decide⟩
  socket := socket

def serviceDown (socket : Option (Nat → Option Nat)) : Change (BitVec 32) := ⟨[],none,fun _ => none,socket⟩

private theorem up_ordinary (socket : Option (Nat → Option Nat)) : (serviceUp socket).Ordinary := by
  intro c _ l found r member
  obtain rfl := Option.some.inj found
  simp only [List.mem_cons,List.not_mem_nil,or_false] at member
  obtain rfl | rfl := member <;> exact ⟨by decide,rfl⟩

private theorem down_ordinary (socket : Option (Nat → Option Nat)) : (serviceDown socket).Ordinary := nofun

/-- Up and down over a socket. -/
theorem up_and_down_followed :
    Along (processChange .inet (ipv4RouteListInfo false) (ipv4RouteListCopyMulticastLoopback 1))
      (InStep (ipv4RouteListInfo false)) (.ok .initial)
      [serviceUp (some fun _ => none),serviceDown (some fun _ => none)] := by
  have ordinary : ∀ change ∈ [serviceUp (some fun _ => none),serviceDown (some fun _ => none)], change.Ordinary := by
    simp [up_ordinary,down_ordinary]
  exact (follows_elections_iff .inet (ipv4RouteListInfo false) (loopback_single 1) ordinary).1.mpr ⟨nofun,nofun,trivial⟩

end Witness

end FreebsdLaunchd.IpMonitor
