import FreebsdLaunchd.IpMonitor.InStep
import FreebsdLaunchd.Library.Chains

/-! Which routes are added in the end, where the kernel takes every route: those
whose chain of gateway routes comes to an end, as far as the depth of the
recursion allows and as far as the flags from earlier updates do not decide it. -/
namespace FreebsdLaunchd.IpMonitor

variable {Addr : Type} [DecidableEq Addr] {info : RouteListInfo Addr} {routes : List (Route Addr)} {i q left : Nat}

/-! ## Gateway routes -/

omit [DecidableEq Addr] in
private theorem lookupFrom_some {classify : Route Addr → Candidacy} {n : Nat} {best : Option (Nat × Nat)}
    (found : lookupFrom classify routes n best = some q) :
    (∃ p, best = some (q,p)) ∨ ∃ j c, routes[j]? = some c ∧ q = n + j ∧ classify c ≠ .skip := by
  induction routes generalizing n best with
  | nil =>
    obtain ⟨⟨q',p⟩,rfl,rfl⟩ := Option.map_eq_some_iff.mp found
    exact .inl ⟨p,rfl⟩
  | cons c rest ih =>
    have further {best : Option (Nat × Nat)} (found : lookupFrom classify rest (n+1) best = some q) :
        (∃ p, best = some (q,p)) ∨ ∃ j c', (c::rest)[j]? = some c' ∧ q = n + j ∧ classify c' ≠ .skip := by
      refine (ih found).imp_right fun ⟨j,c',listed,place,taken⟩ => ⟨j+1,c',by simpa using listed,by omega,taken⟩
    unfold lookupFrom at found
    cases class_ : classify c with
    | skip =>
      rw [class_] at found
      exact further found
    | exact =>
      rw [class_] at found
      obtain rfl := Option.some.inj found
      exact .inr ⟨0,c,rfl,rfl,by simp [class_]⟩
    | matching =>
      rw [class_] at found
      rcases further found with ⟨p,best'⟩ | later
      · split at best'
        · obtain ⟨rfl,_⟩ := Prod.mk.inj (Option.some.inj best')
          exact .inr ⟨0,c,rfl,rfl,by simp [class_]⟩
        · exact .inl ⟨p,best'⟩
      · exact .inr later

private theorem candidacy_interface {address : Addr} {nBits : Nat} {ifindex : IFIndex} {candidate : Route Addr}
    (taken : candidacy info address nBits ifindex .none candidate ≠ .skip) :
    candidate.ifindex ≠ 0 ∧ ifindex = candidate.ifindex := by
  unfold candidacy at taken
  split_ifs at taken <;> simp_all

/-- A gateway route is in the list, and over the same interface. -/
theorem gatewayRoute_some {r : Route Addr} (gateway : gatewayRoute info routes r = some q) :
    ∃ c, routes[q]? = some c ∧ c.ifindex ≠ 0 ∧ r.ifindex = c.ifindex := by
  unfold gatewayRoute at gateway
  split at gateway
  · rcases lookupFrom_some gateway with ⟨_,absent⟩ | ⟨j,c,listed,rfl,taken⟩
    · cases absent
    · obtain ⟨present,same⟩ := candidacy_interface taken
      exact ⟨c,by simpa using listed,present,same⟩
  · cases gateway

def nextGateway (info : RouteListInfo Addr) (routes : List (Route Addr)) (i : Nat) : Option Nat :=
  routes[i]?.bind (gatewayRoute info routes)

def ableAt (info : RouteListInfo Addr) (routes : List (Route Addr)) (i : Nat) : Bool := routes[i]?.any info.able

private theorem nextGateway_able (info : RouteListInfo Addr) (routes : List (Route Addr)) (i q : Nat)
    (gateway : nextGateway info routes i = some q) : ableAt info routes i ∧ ableAt info routes q := by
  obtain ⟨r,listed,gateway⟩ := Option.bind_eq_some_iff.mp gateway
  obtain ⟨c,listed',present,same⟩ := gatewayRoute_some gateway
  simp [ableAt,listed,listed',RouteListInfo.able,present,same]

private theorem nextGateway_lt (gateway : nextGateway info routes i = some q) : q < routes.length := by
  obtain ⟨r,_,gateway⟩ := Option.bind_eq_some_iff.mp gateway
  obtain ⟨c,listed,_⟩ := gatewayRoute_some gateway
  exact (List.getElem?_eq_some_iff.mp listed).1

/-! ## The recursion is a visit -/

def ControlFlags.mark (flags : ControlFlags) : Option Bool := if flags.processed then some flags.added else none

def marks (list : List (ControlledRoute Addr)) : Chains.Marks Nat := fun i => list[i]?.bind (·.controlFlags.mark)

section Visit
variable {κ : Type} {socket : RoutingSocket κ Addr} {start : List (ControlledRoute Addr)}
variable {s : ApplyState κ Addr} {c : ControlledRoute Addr} {stack : List Nat}

omit [DecidableEq Addr] in
private theorem marks_setFlags (listed : s.newRoutes[i]? = some c) (added : Bool) :
    marks (s.setFlags i ⟨true,added⟩).newRoutes = Chains.mark (marks s.newRoutes) i added := by
  funext j
  by_cases same : j = i
  · subst same
    simp [marks,setFlags_some _ listed,ControlFlags.mark]
  · rw [Chains.mark_other same,marks,marks,setFlags_other _ (Ne.symm same)]

/-- The kernel takes every route that comes to be added, where `J` is known. -/
structure Accepts (info : RouteListInfo Addr) (socket : RoutingSocket κ Addr) (start : List (ControlledRoute Addr))
    (J : List Nat × ApplyState κ Addr → Prop) : Prop where
  keeps : ∀ a b, AddStep info socket a b → Adding info start a → J a → J b
  adds : ∀ i stack s (c : ControlledRoute Addr), Adding info start (i::stack,s) → J (i::stack,s) →
    s.newRoutes[i]? = some c → (s.addRoute info socket i c.toRoute).newRoutes =
      if info.able c.toRoute then (s.setFlags i ⟨true,true⟩).newRoutes else s.newRoutes

variable {J : List Nat × ApplyState κ Addr → Prop}

theorem Accepts.path (accepts : Accepts info socket start J) (sane : SaneFlags start)
    {a b : List Nat × ApplyState κ Addr} (path : AddPath info socket a b) (adding : Adding info start a) (known : J a) :
    Adding info start b ∧ J b := by
  induction path with
  | refl => exact ⟨adding,known⟩
  | tail _ step ih => exact ⟨step.adding sane ih.1,accepts.keeps _ _ step ih.1 ih.2⟩

theorem Adding.fresh (adding : Adding info start (stack,s)) (sane : SaneFlags start) (listed : s.newRoutes[i]? = some c)
    (fresh : ¬ c.controlFlags.processed) : c.controlFlags.added = false := by
  by_contra added
  exact fresh (sane c (List.mem_of_getElem? (adding.untried i c listed fresh).1) (by simpa using added))

omit [DecidableEq Addr] in
private theorem marks_fresh (listed : s.newRoutes[i]? = some c) (fresh : ¬ c.controlFlags.processed) :
    marks s.newRoutes i = none := by
  simp [marks,listed,ControlFlags.mark,fresh]

private theorem nextGateway_at (listed : s.newRoutes[i]? = some c) :
    nextGateway info s.routes i = gatewayRoute info s.routes c.toRoute := by
  simp [nextGateway,routes_at listed]

theorem Adding.pending (adding : Adding info start (i::stack,s)) : marks s.newRoutes i = some false := by
  obtain ⟨c,listed,processed,notAdded,_⟩ := adding.stacked i List.mem_cons_self
  simp [marks,listed,ControlFlags.mark,processed,notAdded]

theorem Accepts.marks_add (accepts : Accepts info socket start J) (adding : Adding info start (i::stack,s))
    (known : J (i::stack,s)) {r : Route Addr} (listed : s.routes[i]? = some r) :
    marks (s.addRoute info socket i r).newRoutes = Chains.mark (marks s.newRoutes) i (ableAt info s.routes i) := by
  obtain ⟨c,here,rfl⟩ := listed_at listed
  rw [accepts.adds i stack s c adding known here,ableAt,listed,Option.any_some]
  cases able : info.able c.toRoute with
  | true => rw [if_pos rfl,marks_setFlags here]
  | false =>
    funext j
    by_cases same : j = i
    · subst same
      simp [adding.pending]
    · simp [Chains.mark_other same]

/-- Where the kernel takes every route, `RouteProcess` marks what a visit marks. -/
theorem routeProcessAdd_visit (accepts : Accepts info socket start J) (sane : SaneFlags start)
    (adding : Adding info start (stack,s)) (known : J (stack,s)) (inside : i < s.newRoutes.length) :
    marks (routeProcessAdd info socket left i s).2.newRoutes =
      Chains.visit (nextGateway info s.routes) (ableAt info s.routes) left i (marks s.newRoutes) ∧
    (ableAt info s.routes i → ((routeProcessAdd info socket left i s).1 ↔
      marks (routeProcessAdd info socket left i s).2.newRoutes i = some true)) := by
  fun_induction routeProcessAdd info socket left i s generalizing stack with
  | case1 _ i s absent =>
    rw [List.getElem?_eq_none_iff] at absent
    omega
  | case2 _ i s c listed processed =>
    have here : marks s.newRoutes i = some c.controlFlags.added := by
      simp [marks,listed,ControlFlags.mark,processed]
    exact ⟨(Chains.visit_visited (by simp [here]) _).symm,fun _ => by simp [here]⟩
  | case3 left i s c listed fresh marked =>
    rename_i last
    have enter : AddStep info socket (stack,s) (i::stack,marked) := .enter listed (by simpa using fresh)
    have marked_eq : marks marked.newRoutes = Chains.mark (marks s.newRoutes) i false :=
      adding.fresh sane listed fresh ▸ marks_setFlags listed _
    have same : marked.routes = s.routes := setFlags_routes _
    have place : marked.routes[i]? = some c.toRoute := by
      rw [same,routes_at listed]
    rw [← nextGateway_at listed] at last
    have added := accepts.marks_add (enter.adding sane adding) (accepts.keeps _ _ enter adding known) place
    rw [same,marked_eq] at added
    refine ⟨added.trans ?_,fun able => ?_⟩
    · rw [Chains.visit_last (marks_fresh listed fresh) last]
    · simp [added,able]
  | case4 i s c listed fresh marked gateway =>
    rename_i leads
    have marked_eq : marks marked.newRoutes = Chains.mark (marks s.newRoutes) i false :=
      adding.fresh sane listed fresh ▸ marks_setFlags listed _
    rw [← nextGateway_at listed] at leads
    refine ⟨marked_eq.trans ?_,fun _ => by simp [marked_eq]⟩
    simp [Chains.visit,marks_fresh listed fresh,leads]
  | case5 i s c listed fresh marked gateway leads left after run =>
    rename_i ih
    have enter : AddStep info socket (stack,s) (i::stack,marked) := .enter listed (by simpa using fresh)
    have marked_eq : marks marked.newRoutes = Chains.mark (marks s.newRoutes) i false :=
      adding.fresh sane listed fresh ▸ marks_setFlags listed _
    have same : marked.routes = s.routes := setFlags_routes _
    rw [← nextGateway_at listed] at leads
    have adding' := enter.adding sane adding
    have known' := accepts.keeps _ _ enter adding known
    have listed' : gateway < marked.routes.length := same ▸ nextGateway_lt leads
    have visited := ih adding' known' (by simpa [ApplyState.routes] using listed')
    have path := (routeProcessAdd_path info socket left gateway marked (i::stack)).1
    rw [run] at visited path
    obtain ⟨adding'',known''⟩ := accepts.path sane path adding' known'
    have same' : after.routes = s.routes := path.routes.trans same
    have place : after.routes[i]? = some c.toRoute := by
      rw [same',routes_at listed]
    have added := accepts.marks_add adding'' known'' place
    rw [same',visited.1,same,marked_eq] at added
    have up := (visited.2 (same ▸ (nextGateway_able info _ i gateway leads).2)).mp rfl
    rw [visited.1,same,marked_eq] at up
    refine ⟨added.trans ?_,fun able => ?_⟩
    · rw [Chains.visit_link (marks_fresh listed fresh) leads,if_pos up]
    · simp [added,able]
  | case6 i s c listed fresh marked gateway leads left added after run failed =>
    rename_i ih
    have enter : AddStep info socket (stack,s) (i::stack,marked) := .enter listed (by simpa using fresh)
    have marked_eq : marks marked.newRoutes = Chains.mark (marks s.newRoutes) i false :=
      adding.fresh sane listed fresh ▸ marks_setFlags listed _
    have same : marked.routes = s.routes := setFlags_routes _
    rw [← nextGateway_at listed] at leads
    have adding' := enter.adding sane adding
    have known' := accepts.keeps _ _ enter adding known
    have listed' : gateway < marked.routes.length := same ▸ nextGateway_lt leads
    have visited := ih adding' known' (by simpa [ApplyState.routes] using listed')
    have path := (routeProcessAdd_path info socket left gateway marked (i::stack)).1
    rw [run] at visited path
    obtain ⟨adding'',known''⟩ := accepts.path sane path adding' known'
    have down : ¬ marks after.newRoutes gateway = some true := fun up =>
      failed ((visited.2 (same ▸ (nextGateway_able info _ i gateway leads).2)).mpr up)
    have after_eq := visited.1
    rw [same,marked_eq] at after_eq
    rw [after_eq] at down
    refine ⟨after_eq.trans ?_,fun _ => by simp [adding''.pending]⟩
    rw [Chains.visit_link (marks_fresh listed fresh) leads,if_neg down]

/-- The third loop visits the routes in the order of the list. -/
theorem addNew_visitAll (accepts : Accepts info socket start J) (sane : SaneFlags start) {kernel : κ}
    (known : J ([],⟨start,kernel,[]⟩)) :
    marks (addNew info socket ⟨start,kernel,[]⟩).newRoutes =
      Chains.visitAll (nextGateway info (start.map ControlledRoute.toRoute))
        (ableAt info (start.map ControlledRoute.toRoute)) maxRecurseDepth (List.range start.length) (marks start) := by
  suffices ∀ (order : List Nat) (s : ApplyState κ Addr), (∀ i ∈ order, i < s.newRoutes.length) →
      Adding info start ([],s) → J ([],s) →
      marks (order.foldl (fun s i => (routeProcessAdd info socket maxRecurseDepth i s).2) s).newRoutes =
        Chains.visitAll (nextGateway info s.routes) (ableAt info s.routes) maxRecurseDepth order (marks s.newRoutes) from
    this _ _ (by simp) (adding_start start kernel) known
  intro order
  induction order with
  | nil => exact fun _ _ _ _ => rfl
  | cons i rest ih =>
    intro s inside adding known
    have path := (routeProcessAdd_path info socket maxRecurseDepth i s []).1
    obtain ⟨adding',known'⟩ := accepts.path sane path adding known
    have same : (routeProcessAdd info socket maxRecurseDepth i s).2.routes = s.routes := path.routes
    have size : (routeProcessAdd info socket maxRecurseDepth i s).2.newRoutes.length = s.newRoutes.length := by
      simpa [ApplyState.routes] using congrArg List.length same
    have visited : marks (routeProcessAdd info socket maxRecurseDepth i s).2.newRoutes = _ :=
      (routeProcessAdd_visit accepts sane adding known (inside i (by simp))).1
    rw [List.foldl_cons,ih _ (fun j member => size ▸ inside j (by simp [member])) adding' known',same,visited]
    rfl

end Visit

/-! ## From an empty table -/

/-- From the route it is a finite way along gateway routes to one without. -/
inductive ChainEnds (info : RouteListInfo Addr) (routes : List (Route Addr)) : Nat → Prop
  | last {i : Nat} (last : nextGateway info routes i = none) : ChainEnds info routes i
  | link {i q : Nat} (gateway : nextGateway info routes i = some q) (ends : ChainEnds info routes q) :
      ChainEnds info routes i

private theorem chainEnds_iff : ChainEnds info routes i ↔ Chains.Rises (nextGateway info routes) Chains.unvisited i := by
  constructor
  · intro ends
    induction ends with
    | last last => exact ⟨0,.free rfl last⟩
    | link gateway _ ih => exact ih.imp' _ fun _ ends => .link rfl gateway ends
  · rintro ⟨n,ends⟩
    induction ends with
    | up up => cases up
    | free _ last => exact .last last
    | link _ gateway _ ih => exact .link gateway ih

/-- Each route whose chain ends is within the depth of the recursion from the
end, or from a route that has been processed or is met on the way from a route
earlier in the list. -/
def DepthSuffices (info : RouteListInfo Addr) (start : List (ControlledRoute Addr)) : Prop :=
  Chains.AllNear (nextGateway info (start.map ControlledRoute.toRoute)) maxRecurseDepth (marks start)
    (List.range start.length)

def ApplyState.Added {κ : Type} (s : ApplyState κ Addr) (i : Nat) : Prop := ∃ c ∈ s.newRoutes[i]?, c.controlFlags.added

section Fresh
variable {κ : Type} {socket : RoutingSocket κ Addr} {start : List (ControlledRoute Addr)} {s : ApplyState κ Addr}

theorem Adding.added_iff (adding : Adding info start ([],s)) (sane : SaneFlags start) :
    s.Added i ↔ marks s.newRoutes i = some true := by
  have known := adding.sane sane
  cases listed : s.newRoutes[i]? with
  | none => simp [ApplyState.Added,marks,listed]
  | some c =>
    have processed := known c (List.mem_of_getElem? listed)
    cases added : c.controlFlags.added with
    | true => simp [ApplyState.Added,marks,listed,ControlFlags.mark,added,processed added]
    | false => simp [ApplyState.Added,marks,listed,ControlFlags.mark,added]

private theorem addRoute_accepting (accepts : ∀ r k, (socket.write .rtmAdd r k).1 = .ok) (i : Nat) (r : Route Addr)
    (s : ApplyState κ Addr) :
    (s.addRoute info socket i r).newRoutes =
      (if info.able r then (s.setFlags i ⟨true,true⟩).newRoutes else s.newRoutes) ∧
    ∃ call, (s.addRoute info socket i r).calls = s.calls ++ [call] ∧ call.cmd = .rtmAdd ∧ call.index = i := by
  have result : (routeApply info socket .rtmAdd r s.kernel).1 =
      if info.sends r then .ok else if info.able r then .notApplied else .nxio := by
    cases sends : info.sends r with
    | true => simp [routeApply_sent sends,accepts]
    | false => simp [routeApply_unsent sends]
  have once : s.addOrReplace info socket i r = s.apply info socket .rtmAdd i r := by
    have new : (s.apply info socket .rtmAdd i r).1 ≠ .exist := by
      simp only [ApplyState.apply,result]
      split_ifs <;> simp
    simp only [ApplyState.addOrReplace,if_neg new]
  have accepted : (s.apply info socket .rtmAdd i r).1.accepted = info.able r := by
    simp only [ApplyState.apply,result]
    cases sends : info.sends r with
    | true => simp [RouteResult.accepted,able_of_sends sends]
    | false => cases able : info.able r <;> simp [RouteResult.accepted]
  rw [ApplyState.addRoute,once,accepted]
  cases info.able r with
  | true => exact ⟨rfl,_,rfl,rfl,rfl⟩
  | false => exact ⟨rfl,_,rfl,rfl,rfl⟩

def Once (stage : List Nat × ApplyState κ Addr) : Prop :=
  (stage.2.calls.map RouteCall.index).Nodup ∧ ∀ call ∈ stage.2.calls, call.cmd = .rtmAdd

private theorem accepts_once (accepts : ∀ r k, (socket.write .rtmAdd r k).1 = .ok) : Accepts info socket start Once where
  keeps a b step adding once := by
    cases step with
    | enter => exact once
    | leave => exact once
    | @add stack s i r listed ready =>
      obtain ⟨call,calls,cmd,index⟩ := (addRoute_accepting accepts i r s).2
      obtain ⟨_,_,_,_,noCall,_⟩ := adding.stacked i List.mem_cons_self
      constructor
      · rw [calls,List.map_append,List.map_singleton,index]
        refine List.Nodup.append once.1 (List.nodup_singleton i) ?_
        intro j member here
        obtain ⟨call',member',rfl⟩ := List.mem_map.mp member
        exact noCall call' member' (List.mem_singleton.mp here)
      · intro call' member
        rcases List.mem_append.mp (calls ▸ member) with earlier | here
        · exact once.2 call' earlier
        · exact List.mem_singleton.mp here ▸ cmd
  adds i stack s c _ _ _ := (addRoute_accepting accepts i c.toRoute s).1

omit [DecidableEq Addr] in
private theorem marks_unprocessed (routes : List (Route Addr)) : marks (routes.map unprocessed) = Chains.unvisited := by
  funext i
  cases listed : routes[i]? <;> simp [marks,listed,unprocessed,ControlFlags.mark,Chains.unvisited]

omit [DecidableEq Addr] in
@[simp] theorem unprocessed_routes (routes : List (Route Addr)) :
    (routes.map unprocessed).map ControlledRoute.toRoute = routes := by
  simp [unprocessed,Function.comp_def]

omit [DecidableEq Addr] in
private theorem unprocessed_sane (routes : List (Route Addr)) : SaneFlags (routes.map unprocessed) := by
  simp [SaneFlags,unprocessed]

private theorem routeListApply_fresh (info : RouteListInfo Addr) (socket : RoutingSocket κ Addr)
    (routes : List (Route Addr))
    (kernel : κ) :
    routeListApply info socket [] (routes.map unprocessed) kernel =
      addNew info socket ⟨routes.map unprocessed,kernel,[]⟩ := by
  have same : preserveFlags [] (routes.map unprocessed) = routes.map unprocessed := List.map_id' _
  simp [routeListApply,removeOld,same]

end Fresh

/-- A list that is applied to a kernel that takes every route, without a list
before it: each route is added at most once, and only where its chain of gateway
routes ends. These are exactly the routes that are added, those without an
interface apart, if and only if the depth suffices. -/
theorem gateways_exact {κ : Type} (info : RouteListInfo Addr) (socket : RoutingSocket κ Addr)
    (accepts : ∀ r k, (socket.write .rtmAdd r k).1 = .ok) (routes : List (Route Addr)) (kernel : κ) :
    (((routeListApply info socket [] (routes.map unprocessed) kernel).calls.map RouteCall.index).Nodup ∧
      ∀ call ∈ (routeListApply info socket [] (routes.map unprocessed) kernel).calls, call.cmd = .rtmAdd) ∧
    (∀ i, (routeListApply info socket [] (routes.map unprocessed) kernel).Added i →
      ChainEnds info routes i ∧ ableAt info routes i) ∧
    ((∀ i < routes.length, (routeListApply info socket [] (routes.map unprocessed) kernel).Added i ↔
      ChainEnds info routes i ∧ ableAt info routes i) ↔ DepthSuffices info (routes.map unprocessed)) := by
  have sane := unprocessed_sane routes
  have once : Accepts info socket (routes.map unprocessed) Once := accepts_once accepts
  have start : Once ([],⟨routes.map unprocessed,kernel,[]⟩) := by simp [Once]
  obtain ⟨adding,known⟩ := once.path sane (addNew_path info socket ⟨routes.map unprocessed,kernel,[]⟩)
    (adding_start _ _) start
  have visited := addNew_visitAll once sane start
  rw [unprocessed_routes,marks_unprocessed,List.length_map] at visited
  have links := nextGateway_able info routes
  rw [routeListApply_fresh]
  simp only [adding.added_iff sane,visited,chainEnds_iff]
  refine ⟨known,fun i up => ⟨?_,?_⟩,?_⟩
  · exact Chains.visitAll_rises (fun a b leans => (links a b leans).2) up
  · simpa [Chains.unvisited] using Chains.visitAll_able up
  · rw [DepthSuffices,marks_unprocessed,unprocessed_routes,List.length_map,← Chains.visitAll_exact links]
    simp [Chains.unvisited]

def takesAll : RoutingSocket Unit (BitVec 32) := ⟨fun _ _ k => (.ok,k)⟩

private theorem gatewayBehind_deep : DepthSuffices (ipv4RouteListInfo false) (gatewayBehind.map unprocessed) :=
  Chains.allNear_of_ends (by decide)

theorem gateways_exact_behind :
    (routeListApply (ipv4RouteListInfo false) takesAll [] (gatewayBehind.map unprocessed) ()).Added 0 ↔
      ChainEnds (ipv4RouteListInfo false) gatewayBehind 0 ∧ ableAt (ipv4RouteListInfo false) gatewayBehind 0 :=
  (gateways_exact (ipv4RouteListInfo false) takesAll (fun _ _ => rfl) gatewayBehind ()).2.2.mpr gatewayBehind_deep
    0 (by decide)

private theorem chainEnds_of_along {n : Nat} (way : Chains.along (nextGateway info routes) n i = some q)
    (last : nextGateway info routes q = none) : ChainEnds info routes i := by
  induction n generalizing i with
  | zero =>
    obtain rfl := Option.some.inj way
    exact .last last
  | succ n ih =>
    obtain ⟨b,gateway,way⟩ := Option.bind_eq_some_iff.mp way
    exact .link gateway (ih way)

def longChain : List (Route (BitVec 32)) :=
  (List.range 11).map (fun k => (networkOver 4 (BitVec.ofNat 32 (k*256)) 24).via (BitVec.ofNat 32 ((k+1)*256+1))) ++
    [networkOver 4 (BitVec.ofNat 32 (11*256)) 24]

def unboundRoute : Route (BitVec 32) := networkOver 0 0x0a000000 8

/-- A chain of eleven links ends, but the recursion does not come that far, and a
route without an interface is not added. -/
theorem long_chain_not_added :
    (ChainEnds (ipv4RouteListInfo false) longChain 0 ∧
      ¬ (routeListApply (ipv4RouteListInfo false) takesAll [] (longChain.map unprocessed) ()).Added 0) ∧
    ChainEnds (ipv4RouteListInfo false) [unboundRoute] 0 ∧
      ¬ (routeListApply (ipv4RouteListInfo false) takesAll [] ([unboundRoute].map unprocessed) ()).Added 0 := by
  have way : Chains.along (nextGateway (ipv4RouteListInfo false) longChain) 11 0 = some 11 := by decide +kernel
  refine ⟨⟨chainEnds_of_along way (by decide +kernel),?_⟩,.last (by decide),?_⟩
  · unfold ApplyState.Added
    decide +kernel
  · unfold ApplyState.Added
    decide +kernel

/-! ## From any list before -/

section History
variable [Zero Addr] {start : List (ControlledRoute Addr)}

/-- A table that refuses nothing takes a route for a key it has no route for. -/
theorem accepts_synced {refuses : Nat → Option Nat} (accepts : ∀ n, refuses n = none) (sane : SaneFlags start) :
    Accepts info (kernelTable refuses) start (Synced info) where
  keeps a b step adding synced := step.synced sane adding synced
  adds i stack s c adding synced listed := by
    obtain ⟨c',listed',_,notAdded,_⟩ := adding.stacked i List.mem_cons_self
    obtain rfl := Option.some.inj (listed.symm.trans listed')
    cases addRoute_table info refuses i (synced.absent listed notAdded) with
    | unsent _ able routes _ => rw [routes,if_pos able]
    | sent sent routes _ => rw [routes,if_pos (able_of_sends sent)]
    | refused refused routes _ =>
      have notAble : ¬ info.able c.toRoute := fun able => by simpa [accepts] using refused able
      rw [routes,if_neg notAble]

/-- The flags that stay from earlier updates say what this list says: a route
that has been processed has been added exactly if its chain ends here. -/
def WouldSettle (info : RouteListInfo Addr) (start : List (ControlledRoute Addr)) : Prop :=
  ∀ i, ∀ c ∈ start[i]?, c.controlFlags.processed →
    (c.controlFlags.added ↔ ChainEnds info (start.map ControlledRoute.toRoute) i ∧ info.able c.toRoute)

omit [DecidableEq Addr] [Zero Addr] in
private theorem marks_eq_some {up : Bool} :
    marks start i = some up ↔ ∃ c ∈ start[i]?, c.controlFlags.processed ∧ c.controlFlags.added = up := by
  cases listed : start[i]? with
  | none => simp [marks,listed]
  | some c => simp [marks,listed,ControlFlags.mark]

omit [Zero Addr] in
private theorem wouldSettle_iff (able : ∀ c ∈ start, c.controlFlags.added → info.able c.toRoute) :
    (∀ i, Chains.Settles (nextGateway info (start.map ControlledRoute.toRoute))
        (ableAt info (start.map ControlledRoute.toRoute)) (marks start) i ↔
      Chains.Settles (nextGateway info (start.map ControlledRoute.toRoute))
        (ableAt info (start.map ControlledRoute.toRoute)) Chains.unvisited i) ↔ WouldSettle info start := by
  have ableAt_eq {i : Nat} {c : ControlledRoute Addr} (listed : start[i]? = some c) :
      ableAt info (start.map ControlledRoute.toRoute) i = info.able c.toRoute := by
    simp [ableAt,listed]
  rw [Chains.settles_iff (nextGateway_able info _)]
  · constructor
    · rintro ⟨up,down⟩ i c listed processed
      rw [chainEnds_iff,← ableAt_eq listed]
      cases added : c.controlFlags.added with
      | true =>
        have known := able c (List.mem_of_getElem? listed) added
        simpa [ableAt_eq listed,known] using up i (marks_eq_some.mpr ⟨c,listed,processed,added⟩)
      | false => simpa using down i (marks_eq_some.mpr ⟨c,listed,processed,added⟩)
    · intro settle
      constructor
      · intro i up
        obtain ⟨c,listed,processed,added⟩ := marks_eq_some.mp up
        exact chainEnds_iff.mp ((settle i c listed processed).mp added).1
      · intro i down
        obtain ⟨c,listed,processed,added⟩ := marks_eq_some.mp down
        rw [← chainEnds_iff,ableAt_eq listed,← settle i c listed processed,added]
        decide
  · intro i up
    obtain ⟨c,listed,_,added⟩ := marks_eq_some.mp up
    rw [ableAt_eq listed]
    exact able c (List.mem_of_getElem? listed) added

variable {w : Monitor Addr} {u : Update Addr}

theorem Monitor.Sound.added_iff (sound : w.Sound info) (accepts : ∀ n, u.refuses n = none)
    (deep : DepthSuffices info (w.preserved u)) (i : Nat) :
    (w.applied info u).Added i ↔
      Chains.Settles (nextGateway info u.routes) (ableAt info u.routes) (marks (w.preserved u)) i := by
  have sane := preserved_sane sound.sane u
  have adding := addNew_adding info sane (kernelTable u.refuses) (w.cleared info u).kernel
  have visited := addNew_visitAll (accepts_synced accepts sane) sane (sound.preserved_synced u)
  have added := adding.added_iff (i := i) sane
  rw [visited,preserved_routes] at added
  rw [DepthSuffices,preserved_routes] at deep
  by_cases inside : i < (w.preserved u).length
  · exact added.trans (Chains.visitAll_settles (nextGateway_able info _) deep (List.mem_range.mpr inside))
  · have absent : (w.preserved u)[i]? = none := List.getElem?_eq_none_iff.mpr (by omega)
    have absent' : u.routes[i]? = none := by
      rw [← preserved_routes (w := w),List.getElem?_map,absent,Option.map_none]
    have gone : (w.applied info u).newRoutes[i]? = none := by
      have same : (w.applied info u).routes[i]? = none := applied_routes info sound.sane u ▸ absent'
      simpa only [ApplyState.routes,List.getElem?_map,Option.map_eq_none_iff] using same
    have notAdded : ¬ (w.applied info u).Added i := by simp [ApplyState.Added,gone]
    simp [notAdded,Chains.Settles,marks,absent,ableAt,absent']

/-- Lists that have been applied agree on the table as soon as they agree on what has been added. -/
theorem entries_unique {a b : List (ControlledRoute Addr)} {entries entries' : RouteKey Addr → Option (RouteMessage Addr)}
    (holds : Holds info a entries) (holds' : Holds info b entries')
    (routes : a.map ControlledRoute.toRoute = b.map ControlledRoute.toRoute)
    (same : ∀ i : Nat, (∃ c ∈ a[i]?, c.controlFlags.added) ↔ ∃ c ∈ b[i]?, c.controlFlags.added) : entries = entries' := by
  have transfer {a b : List (ControlledRoute Addr)} (routes : a.map ControlledRoute.toRoute = b.map ControlledRoute.toRoute)
      (same : ∀ i : Nat, (∃ c ∈ a[i]?, c.controlFlags.added) → ∃ c ∈ b[i]?, c.controlFlags.added)
      {c : ControlledRoute Addr} (member : c ∈ a) (added : c.controlFlags.added) :
      ∃ d ∈ b, d.controlFlags.added ∧ d.toRoute = c.toRoute := by
    obtain ⟨i,listed⟩ := List.mem_iff_getElem?.mp member
    obtain ⟨d,listed',added'⟩ := same i ⟨c,listed,added⟩
    refine ⟨d,List.mem_of_getElem? listed',added',?_⟩
    have equal := congrArg (·[i]?) routes
    simpa [listed,Option.mem_def.mp listed'] using equal.symm
  funext key
  apply Option.ext
  intro m
  rw [holds key m,holds' key m]
  constructor
  · rintro ⟨c,member,added,sends,rfl,rfl⟩
    obtain ⟨d,member',added',equal⟩ := transfer routes (fun i => (same i).mp) member added
    exact ⟨d,member',added',equal ▸ sends,by rw [equal],by rw [equal]⟩
  · rintro ⟨c,member,added,sends,rfl,rfl⟩
    obtain ⟨d,member',added',equal⟩ := transfer routes.symm (fun i => (same i).mpr) member added
    exact ⟨d,member',added',equal ▸ sends,by rw [equal],by rw [equal]⟩

/-- After any updates, one more to a kernel that takes every route adds what it
would add to an empty table if and only if the flags that stay would come out
alike. Then the tables are the same, too. -/
theorem independent_iff (info : RouteListInfo Addr) (updates : List (Update Addr)) (u : Update Addr)
    (accepts : ∀ n, u.refuses n = none) (deep : DepthSuffices info ((Monitor.after info updates).preserved u))
    (deepAlone : DepthSuffices info (u.routes.map unprocessed)) :
    ((∀ i, ((Monitor.after info updates).applied info u).Added i ↔ (Monitor.initial.applied info u).Added i) ↔
      WouldSettle info ((Monitor.after info updates).preserved u)) ∧
    (WouldSettle info ((Monitor.after info updates).preserved u) →
      ((Monitor.after info updates).applied info u).kernel.entries = (Monitor.initial.applied info u).kernel.entries) := by
  have sound := after_sound info updates
  have alone : Monitor.initial.preserved u = u.routes.map unprocessed := List.map_id' _
  have iff : (∀ i, ((Monitor.after info updates).applied info u).Added i ↔ (Monitor.initial.applied info u).Added i) ↔
      WouldSettle info ((Monitor.after info updates).preserved u) := by
    have deepAlone' : DepthSuffices info (Monitor.initial.preserved u) := alone.symm ▸ deepAlone
    simp only [sound.added_iff accepts deep,(initial_sound info).added_iff accepts deepAlone',alone,marks_unprocessed]
    rw [← wouldSettle_iff (sound.preserved_synced u).able,preserved_routes]
  refine ⟨iff,fun settle => ?_⟩
  have routes := (applied_routes info sound.sane u).trans (applied_routes info (initial_sound info).sane u).symm
  exact entries_unique (sound.update u).holds ((initial_sound info).update u).holds routes (iff.mpr settle)

end History

def gatewayUpdate : Update (BitVec 32) where
  routes := gatewayBehind
  unique := gatewayBehind_unique
  refuses _ := none

theorem independent_iff_repeated :
    (∀ i, ((Monitor.after (ipv4RouteListInfo false) [gatewayUpdate]).applied (ipv4RouteListInfo false) gatewayUpdate).Added i ↔
      (Monitor.initial.applied (ipv4RouteListInfo false) gatewayUpdate).Added i) ↔
    WouldSettle (ipv4RouteListInfo false)
      ((Monitor.after (ipv4RouteListInfo false) [gatewayUpdate]).preserved gatewayUpdate) :=
  (independent_iff (ipv4RouteListInfo false) [gatewayUpdate] gatewayUpdate (fun _ => rfl)
    (Chains.allNear_of_ends (by decide +kernel)) gatewayBehind_deep).1

/-- A route that the kernel has refused is not tried again by the next update. -/
theorem refused_route_stays_away :
    ((Monitor.after (ipv4RouteListInfo false) [refusedUpdate]).applied (ipv4RouteListInfo false)
      gatewayUpdate).kernel.entries (networkOver 4 0x0a000000 8).routeKey = none ∧
    (Monitor.initial.applied (ipv4RouteListInfo false) gatewayUpdate).kernel.entries
      (networkOver 4 0x0a000000 8).routeKey = some (networkOver 4 0x0a000000 8).message := by decide +kernel

end FreebsdLaunchd.IpMonitor
