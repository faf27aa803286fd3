import FreebsdLaunchd.IpMonitor.Apply
import Mathlib.Logic.Relation

/-! The third loop of `RouteListApply` taken apart: the recursion keeps a stack
of the routes it is at, and what one step does to the list and the calls holds
of the whole loop. -/
namespace FreebsdLaunchd.IpMonitor

variable {Addr κ : Type}

/-! ## Single operations -/

section Flags
variable {s : ApplyState κ Addr} {i j : Nat} (flags : ControlFlags)

private theorem setFlags_at :
    (s.setFlags i flags).newRoutes[i]? = s.newRoutes[i]?.map fun c => {c with controlFlags := flags} := by
  simp [ApplyState.setFlags]

theorem setFlags_some {c : ControlledRoute Addr} (listed : s.newRoutes[i]? = some c) :
    (s.setFlags i flags).newRoutes[i]? = some {c with controlFlags := flags} := by
  rw [setFlags_at,listed,Option.map_some]

theorem setFlags_other (other : i ≠ j) : (s.setFlags i flags).newRoutes[j]? = s.newRoutes[j]? := by
  simp [ApplyState.setFlags,other]

@[simp] theorem setFlags_routes : (s.setFlags i flags).routes = s.routes := by
  apply List.ext_getElem?
  intro j
  simp only [ApplyState.routes,List.getElem?_map]
  by_cases same : i = j
  · subst same
    rw [setFlags_at,Option.map_map]
    rfl
  · rw [setFlags_other flags same]

@[simp] theorem setFlags_calls : (s.setFlags i flags).calls = s.calls := rfl

@[simp] theorem setFlags_kernel : (s.setFlags i flags).kernel = s.kernel := rfl

end Flags

variable [DecidableEq Addr] {info : RouteListInfo Addr} {socket : RoutingSocket κ Addr}
variable {s : ApplyState κ Addr} {i j q left : Nat} {r : Route Addr} {c c' : ControlledRoute Addr}

/-- What adding a route comes to: the route is marked where its last call has been accepted. -/
inductive AddOutcome (i : Nat) (r : Route Addr) (s : ApplyState κ Addr) : ApplyState κ Addr → Prop
  | accepted {s' : ApplyState κ Addr} (own : List (RouteCall Addr)) (call : RouteCall Addr) (last : call ∈ own)
      (added : call.cmd = .rtmAdd) (accepted : call.result.accepted)
      (whose : ∀ call ∈ own, call.index = i ∧ call.route = r) (routes : s'.newRoutes = s.newRoutes)
      (calls : s'.calls = s.calls ++ own) : AddOutcome i r s (s'.setFlags i ⟨true,true⟩)
  | refused {s' : ApplyState κ Addr} (own : List (RouteCall Addr)) (call : RouteCall Addr) (last : call ∈ own)
      (added : call.cmd = .rtmAdd) (refused : ¬ call.result.accepted)
      (whose : ∀ call ∈ own, call.index = i ∧ call.route = r) (routes : s'.newRoutes = s.newRoutes)
      (calls : s'.calls = s.calls ++ own) : AddOutcome i r s s'

private theorem addOrReplace_calls (info : RouteListInfo Addr) (socket : RoutingSocket κ Addr) (i : Nat) (r : Route Addr)
    (s : ApplyState κ Addr) :
    ∃ own, ⟨.rtmAdd,i,r,(s.addOrReplace info socket i r).1⟩ ∈ own ∧ (∀ call ∈ own, call.index = i ∧ call.route = r) ∧
      (s.addOrReplace info socket i r).2.newRoutes = s.newRoutes ∧
      (s.addOrReplace info socket i r).2.calls = s.calls ++ own := by
  unfold ApplyState.addOrReplace
  dsimp only
  split
  · refine ⟨_,?_,?_,rfl,by simp only [ApplyState.apply,List.append_assoc]; rfl⟩
    · simp [ApplyState.apply]
    · simp
  · exact ⟨_,List.mem_singleton_self _,by simp,rfl,rfl⟩

private theorem addRoute_outcome (info : RouteListInfo Addr) (socket : RoutingSocket κ Addr) (i : Nat) (r : Route Addr)
    (s : ApplyState κ Addr) :
    AddOutcome i r s (s.addRoute info socket i r) := by
  obtain ⟨own,member,whose,routes,calls⟩ := addOrReplace_calls info socket i r s
  unfold ApplyState.addRoute
  dsimp only
  split
  · rename_i accepted
    exact .accepted own _ member rfl accepted whose routes calls
  · rename_i refused
    exact .refused own _ member rfl refused whose routes calls

section Outcome
variable {t : ApplyState κ Addr}

omit [DecidableEq Addr]

theorem AddOutcome.same (outcome : AddOutcome i r s t) : t.routes = s.routes := by
  cases outcome with
  | accepted _ _ _ _ _ _ routes _ => rw [setFlags_routes,ApplyState.routes,routes,ApplyState.routes]
  | refused _ _ _ _ _ _ routes _ => rw [ApplyState.routes,routes,ApplyState.routes]

theorem AddOutcome.other (outcome : AddOutcome i r s t) (other : i ≠ j) : t.newRoutes[j]? = s.newRoutes[j]? := by
  cases outcome with
  | accepted _ _ _ _ _ _ routes _ => rw [setFlags_other _ other,routes]
  | refused _ _ _ _ _ _ routes _ => rw [routes]

end Outcome

@[simp] theorem addRoute_routes (i : Nat) (r : Route Addr) (s : ApplyState κ Addr) :
    (s.addRoute info socket i r).routes = s.routes := (addRoute_outcome info socket i r s).same

omit [DecidableEq Addr] in
theorem routes_at (listed : s.newRoutes[i]? = some c) : s.routes[i]? = some c.toRoute := by
  simp [ApplyState.routes,listed]

omit [DecidableEq Addr] in
theorem listed_at (listed : s.routes[i]? = some r) : ∃ c, s.newRoutes[i]? = some c ∧ c.toRoute = r := by
  simpa [ApplyState.routes] using listed

/-! ## The recursion -/

/-- A route has been added, or at least an add of it has been tried. -/
def ApplyState.Tried (q : Nat) (s : ApplyState κ Addr) : Prop :=
  (∃ c ∈ s.newRoutes[q]?, c.controlFlags.added) ∨ ∃ call ∈ s.calls, call.cmd = .rtmAdd ∧ call.index = q

/-- The loop is at the routes on the stack: it comes to one more, leaves one, or
adds one once its gateway route has been tried. -/
inductive AddStep (info : RouteListInfo Addr) (socket : RoutingSocket κ Addr) :
    List Nat × ApplyState κ Addr → List Nat × ApplyState κ Addr → Prop
  | enter {stack : List Nat} {s : ApplyState κ Addr} {i : Nat} {c : ControlledRoute Addr}
      (listed : s.newRoutes[i]? = some c) (fresh : c.controlFlags.processed = false) :
      AddStep info socket (stack,s) (i::stack,s.setFlags i ⟨true,c.controlFlags.added⟩)
  | leave {stack : List Nat} {s : ApplyState κ Addr} {i : Nat} : AddStep info socket (i::stack,s) (stack,s)
  | add {stack : List Nat} {s : ApplyState κ Addr} {i : Nat} {r : Route Addr} (listed : s.routes[i]? = some r)
      (ready : ∀ q, gatewayRoute info s.routes r = some q → s.Tried q) :
      AddStep info socket (i::stack,s) (stack,s.addRoute info socket i r)

abbrev AddPath (info : RouteListInfo Addr) (socket : RoutingSocket κ Addr) :=
  Relation.ReflTransGen (AddStep info socket)

theorem AddStep.routes {a b : List Nat × ApplyState κ Addr} (step : AddStep info socket a b) :
    b.2.routes = a.2.routes := by
  cases step <;> simp

theorem AddPath.routes {a b : List Nat × ApplyState κ Addr} (path : AddPath info socket a b) :
    b.2.routes = a.2.routes := by
  induction path with
  | refl => rfl
  | tail _ step ih => rw [step.routes,ih]

private theorem tried_addRoute (listed : s.routes[i]? = some r) (info : RouteListInfo Addr)
    (socket : RoutingSocket κ Addr) :
    (s.addRoute info socket i r).Tried i := by
  obtain ⟨c,listed,_⟩ := listed_at listed
  have outcome := addRoute_outcome info socket i r s
  generalize s.addRoute info socket i r = t at outcome ⊢
  cases outcome with
  | accepted _ _ _ _ _ _ routes _ =>
    exact .inl ⟨{c with controlFlags := ⟨true,true⟩},setFlags_some _ (routes ▸ listed),rfl⟩
  | refused _ call last added _ whose _ calls =>
    exact .inr ⟨call,by rw [calls]; exact List.mem_append_right _ last,added,(whose call last).1⟩

/-- `RouteProcess` goes along such steps; where it returns `TRUE` the route has been tried. -/
theorem routeProcessAdd_path (info : RouteListInfo Addr) (socket : RoutingSocket κ Addr) (left i : Nat)
    (s : ApplyState κ Addr) (stack : List Nat) :
    AddPath info socket (stack,s) (stack,(routeProcessAdd info socket left i s).2) ∧
      ((routeProcessAdd info socket left i s).1 → (routeProcessAdd info socket left i s).2.Tried i) := by
  fun_induction routeProcessAdd info socket left i s generalizing stack with
  | case1 => exact ⟨.refl,fun returned => by simp at returned⟩
  | case2 _ i s c listed => exact ⟨.refl,fun added => .inl ⟨c,listed,added⟩⟩
  | case3 _ i s c listed fresh marked gateway =>
    have place : marked.routes[i]? = some c.toRoute := by
      rw [setFlags_routes,routes_at listed]
    have enter : AddStep info socket (stack,s) (i::stack,_) := .enter listed (by simpa using fresh)
    refine ⟨.tail (.single enter) (.add place fun q isGateway => ?_),fun _ => tried_addRoute place ..⟩
    rw [setFlags_routes,gateway] at isGateway
    simp at isGateway
  | case4 i s c listed fresh marked gateway _ =>
    have enter : AddStep info socket (stack,s) (i::stack,_) := .enter listed (by simpa using fresh)
    exact ⟨.tail (.single enter) .leave,fun returned => by simp at returned⟩
  | case5 i s c listed fresh marked gateway leads left after run =>
    rename_i ih
    have enter : AddStep info socket (stack,s) (i::stack,_) := .enter listed (by simpa using fresh)
    obtain ⟨path,tried⟩ := ih (i::stack)
    rw [run] at path tried
    have same : after.routes = s.routes := by
      rw [path.routes,setFlags_routes]
    have place : after.routes[i]? = some c.toRoute := by
      rw [same,routes_at listed]
    refine ⟨.trans (.single enter) (.tail path (.add place fun q isGateway => ?_)),fun _ => tried_addRoute place ..⟩
    rw [same,leads] at isGateway
    exact Option.some.inj isGateway ▸ tried rfl
  | case6 i s c listed fresh marked gateway leads left added after run failed =>
    rename_i ih
    have enter : AddStep info socket (stack,s) (i::stack,_) := .enter listed (by simpa using fresh)
    obtain ⟨path,_⟩ := ih (i::stack)
    rw [run] at path
    exact ⟨.trans (.single enter) (.tail path .leave),fun returned => by simp at returned⟩

theorem addNew_path (info : RouteListInfo Addr) (socket : RoutingSocket κ Addr) (s : ApplyState κ Addr) :
    AddPath info socket ([],s) ([],addNew info socket s) := by
  suffices ∀ order : List Nat, AddPath info socket ([],s)
      ([],order.foldl (fun s i => (routeProcessAdd info socket maxRecurseDepth i s).2) s) from this _
  intro order
  induction order generalizing s with
  | nil => exact .refl
  | cons i rest ih => exact .trans (routeProcessAdd_path info socket maxRecurseDepth i s []).1 (ih _)

/-! ## What holds at every step -/

/-- By these calls the route has been added, or it was at the start. -/
def AddedBy (start : List (ControlledRoute Addr)) (calls : List (RouteCall Addr)) (q : Nat) : Prop :=
  (∃ c ∈ start[q]?, c.controlFlags.added) ∨
    ∃ call ∈ calls, call.cmd = .rtmAdd ∧ call.index = q ∧ call.result.accepted

/-- A call to add a route comes after one to add its gateway route, unless that
was there at the start. -/
def GatewayFirst (info : RouteListInfo Addr) (start : List (ControlledRoute Addr)) (before : List (RouteCall Addr))
    (call : RouteCall Addr) : Prop :=
  call.cmd = .rtmAdd → ∀ q, gatewayRoute info (start.map ControlledRoute.toRoute) call.route = some q →
    (∃ c ∈ start[q]?, c.controlFlags.added) ∨ ∃ call ∈ before, call.cmd = .rtmAdd ∧ call.index = q

/-- Where the loop stands that has begun with the list `start`. -/
structure Adding (info : RouteListInfo Addr) (start : List (ControlledRoute Addr))
    (stage : List Nat × ApplyState κ Addr) :
    Prop where
  routes : stage.2.routes = start.map ControlledRoute.toRoute
  kept : ∀ (i : Nat) (c : ControlledRoute Addr), start[i]? = some c → c.controlFlags.processed → stage.2.newRoutes[i]? = some c
  stacked : ∀ i ∈ stage.1, ∃ c : ControlledRoute Addr, stage.2.newRoutes[i]? = some c ∧ c.controlFlags.processed ∧
    ¬ c.controlFlags.added ∧
    (∀ call ∈ stage.2.calls, call.index ≠ i) ∧ ∀ c₀ : ControlledRoute Addr, start[i]? = some c₀ → ¬ c₀.controlFlags.processed
  distinct : stage.1.Nodup
  untried : ∀ (i : Nat) (c : ControlledRoute Addr), stage.2.newRoutes[i]? = some c → ¬ c.controlFlags.processed →
    start[i]? = some c ∧ ∀ call ∈ stage.2.calls, call.index ≠ i
  added : ∀ (i : Nat) (c : ControlledRoute Addr), stage.2.newRoutes[i]? = some c → c.controlFlags.added →
    AddedBy start stage.2.calls i
  calls : ∀ call ∈ stage.2.calls, ∃ c₀ : ControlledRoute Addr, start[call.index]? = some c₀ ∧ ¬ c₀.controlFlags.processed ∧
    call.route = c₀.toRoute
  ordered : ∀ before call after, stage.2.calls = before ++ call :: after → GatewayFirst info start before call

variable {start : List (ControlledRoute Addr)} {stack : List Nat}

/-- A list in which only what has been processed can have been added. -/
def SaneFlags (routes : List (ControlledRoute Addr)) : Prop :=
  ∀ c ∈ routes, c.controlFlags.added → c.controlFlags.processed

theorem adding_start (start : List (ControlledRoute Addr)) (kernel : κ) :
    Adding info start ([],⟨start,kernel,[]⟩) where
  routes := rfl
  kept _ _ listed _ := listed
  stacked _ member := by simp at member
  distinct := List.nodup_nil
  untried _ _ listed _ := ⟨listed,by simp⟩
  added i c listed added := .inl ⟨c,listed,added⟩
  calls _ member := by simp at member
  ordered before call after split := by simp at split

theorem Adding.enter (adding : Adding info start (stack,s)) (sane : SaneFlags start) (listed : s.newRoutes[i]? = some c)
    (fresh : c.controlFlags.processed = false) :
    Adding info start (i::stack,s.setFlags i ⟨true,c.controlFlags.added⟩) := by
  obtain ⟨atStart,noCall⟩ := adding.untried i c listed (by simp [fresh])
  have notAdded : c.controlFlags.added = false := by
    by_contra added
    have := sane c (List.mem_of_getElem? atStart) (by simpa using added)
    simp [fresh] at this
  have here := setFlags_some ⟨true,c.controlFlags.added⟩ listed
  constructor
  · exact (setFlags_routes _).trans adding.routes
  · intro j c₀ listed₀ processed
    have other : i ≠ j := by
      rintro rfl
      obtain rfl := Option.some.inj (listed₀.symm.trans atStart)
      simp [fresh] at processed
    exact (setFlags_other _ other).trans (adding.kept j c₀ listed₀ processed)
  · intro j member
    by_cases same : i = j
    · subst same
      refine ⟨_,here,rfl,by simp [notAdded],noCall,fun c₀ listed₀ => ?_⟩
      obtain rfl := Option.some.inj (listed₀.symm.trans atStart)
      simp [fresh]
    · obtain ⟨c',listed',rest⟩ := adding.stacked j (List.mem_of_ne_of_mem (Ne.symm same) member)
      exact ⟨c',(setFlags_other _ same).trans listed',rest⟩
  · refine List.nodup_cons.mpr ⟨fun member => ?_,adding.distinct⟩
    obtain ⟨c',listed',processed,_⟩ := adding.stacked i member
    obtain rfl := Option.some.inj (listed.symm.trans listed')
    simp [fresh] at processed
  · intro j c' listed' fresh'
    by_cases same : i = j
    · subst same
      obtain rfl := Option.some.inj (here.symm.trans listed')
      simp at fresh'
    · exact adding.untried j c' ((setFlags_other _ same).symm.trans listed') fresh'
  · intro j c' listed' added
    by_cases same : i = j
    · subst same
      obtain rfl := Option.some.inj (here.symm.trans listed')
      simp [notAdded] at added
    · exact adding.added j c' ((setFlags_other _ same).symm.trans listed') added
  · exact adding.calls
  · exact adding.ordered

theorem Adding.leave (adding : Adding info start (i::stack,s)) : Adding info start (stack,s) where
  routes := adding.routes
  kept := adding.kept
  stacked j member := adding.stacked j (List.mem_cons_of_mem i member)
  distinct := (List.nodup_cons.mp adding.distinct).2
  untried := adding.untried
  added := adding.added
  calls := adding.calls
  ordered := adding.ordered

omit [DecidableEq Addr] in
theorem AddedBy.more {calls : List (RouteCall Addr)} (added : AddedBy start calls q) (own : List (RouteCall Addr)) :
    AddedBy start (calls ++ own) q :=
  added.imp_right fun ⟨call,member,rest⟩ => ⟨call,List.mem_append_left own member,rest⟩

theorem GatewayFirst.more {before : List (RouteCall Addr)} {call : RouteCall Addr}
    (first : GatewayFirst info start before call) (own : List (RouteCall Addr)) :
    GatewayFirst info start (before ++ own) call :=
  fun cmd q gateway => (first cmd q gateway).imp_right fun ⟨call',member,rest⟩ =>
    ⟨call',List.mem_append_left own member,rest⟩

omit [DecidableEq Addr] in
/-- Calls of one route, after some calls that are in order already. -/
theorem ordered_append {P : List (RouteCall Addr) → RouteCall Addr → Prop}
    (more : ∀ {before : List (RouteCall Addr)} own {call}, P before call → P (before ++ own) call) {calls own : List (RouteCall Addr)}
    (ordered : ∀ before call after, calls = before ++ call :: after → P before call) (next : ∀ call ∈ own, P calls call)
    (before : List (RouteCall Addr)) (call : RouteCall Addr) (after : List (RouteCall Addr))
    (split : calls ++ own = before ++ call :: after) : P before call := by
  rcases List.append_eq_append_iff.mp split with ⟨rest,rfl,whole⟩ | ⟨rest,earlier,whole⟩
  · exact more _ (next call (by simp [whole]))
  · cases rest with
    | nil =>
      obtain rfl : calls = before := by simpa using earlier
      rw [List.nil_append] at whole
      exact next call (whole ▸ List.mem_cons_self)
    | cons head rest =>
      obtain ⟨rfl,_⟩ := List.cons_eq_cons.mp whole
      exact ordered before call rest earlier

theorem Adding.add (adding : Adding info start (i::stack,s)) (listed : s.routes[i]? = some r)
    (ready : ∀ q, gatewayRoute info s.routes r = some q → s.Tried q) {t : ApplyState κ Addr}
    (outcome : AddOutcome i r s t) : Adding info start (stack,t) := by
  obtain ⟨c,here,processed,notAdded,noCall,fresh⟩ := adding.stacked i List.mem_cons_self
  obtain ⟨apart,distinct⟩ := List.nodup_cons.mp adding.distinct
  obtain ⟨own,calls,whose⟩ : ∃ own, t.calls = s.calls ++ own ∧ ∀ call ∈ own, call.index = i ∧ call.route = r := by
    cases outcome with
    | accepted own _ _ _ _ whose _ calls => exact ⟨own,calls,whose⟩
    | refused own _ _ _ _ whose _ calls => exact ⟨own,calls,whose⟩
  obtain ⟨c₀,listed₀,same⟩ : ∃ c₀, start[i]? = some c₀ ∧ c₀.toRoute = r := by
    simpa [adding.routes] using listed
  have notOwn {j : Nat} (other : i ≠ j) (noCall : ∀ call ∈ s.calls, call.index ≠ j) :
      ∀ call ∈ t.calls, call.index ≠ j := by
    intro call member
    rcases List.mem_append.mp (calls ▸ member) with old | new
    · exact noCall call old
    · rw [(whose call new).1]
      exact other
  have after : ∃ c', t.newRoutes[i]? = some c' ∧ c'.controlFlags.processed ∧
      (c'.controlFlags.added → AddedBy start t.calls i) := by
    cases outcome with
    | accepted own' call last added accepted whose routes calls' =>
      refine ⟨_,setFlags_some _ (routes ▸ here),rfl,fun _ => .inr ⟨call,?_,added,(whose call last).1,accepted⟩⟩
      rw [setFlags_calls,calls']
      exact List.mem_append_right _ last
    | refused own call last added refused whose routes calls =>
      exact ⟨c,routes ▸ here,processed,fun added => absurd added notAdded⟩
  constructor
  · exact outcome.same.trans adding.routes
  · intro j c' listed' processed'
    have other : i ≠ j := by
      rintro rfl
      exact fresh c' listed' processed'
    exact (outcome.other other).trans (adding.kept j c' listed' processed')
  · intro j member
    have other : i ≠ j := fun equal => apart (equal ▸ member)
    obtain ⟨c',listed',processed',notAdded',noCall',fresh'⟩ := adding.stacked j (List.mem_cons_of_mem i member)
    exact ⟨c',(outcome.other other).trans listed',processed',notAdded',notOwn other noCall',fresh'⟩
  · exact distinct
  · intro j c' listed' fresh'
    by_cases same : i = j
    · subst same
      obtain ⟨c'',listed'',processed',_⟩ := after
      obtain rfl := Option.some.inj (listed'.symm.trans listed'')
      exact absurd processed' fresh'
    · obtain ⟨atStart,noCall'⟩ := adding.untried j c' ((outcome.other same).symm.trans listed') fresh'
      exact ⟨atStart,notOwn same noCall'⟩
  · intro j c' listed' added
    by_cases same : i = j
    · subst same
      obtain ⟨c'',listed'',_,addedBy⟩ := after
      obtain rfl := Option.some.inj (listed'.symm.trans listed'')
      exact addedBy added
    · exact calls ▸ (adding.added j c' ((outcome.other same).symm.trans listed') added).more own
  · intro call member
    rcases List.mem_append.mp (calls ▸ member) with old | new
    · exact adding.calls call old
    · obtain ⟨index,route⟩ := whose call new
      exact ⟨c₀,index ▸ listed₀,fresh c₀ listed₀,route.trans same.symm⟩
  · rw [calls]
    refine ordered_append (fun own _ first => first.more own) adding.ordered fun call member _ q gateway => ?_
    rw [← adding.routes,(whose call member).2] at gateway
    rcases ready q gateway with ⟨c',listed',added⟩ | tried
    · rcases adding.added q c' listed' added with atStart | ⟨call',member',cmd,index,_⟩
      · exact .inl atStart
      · exact .inr ⟨call',member',cmd,index⟩
    · exact .inr tried

theorem AddStep.adding (sane : SaneFlags start) {a b : List Nat × ApplyState κ Addr} (step : AddStep info socket a b)
    (adding : Adding info start a) : Adding info start b := by
  cases step with
  | enter listed fresh => exact adding.enter sane listed fresh
  | leave => exact adding.leave
  | add listed ready => exact adding.add listed ready (addRoute_outcome ..)

theorem addNew_adding (info : RouteListInfo Addr) (sane : SaneFlags start) (socket : RoutingSocket κ Addr) (kernel : κ) :
    Adding info start ([],addNew info socket ⟨start,kernel,[]⟩) := by
  have path := addNew_path info socket ⟨start,kernel,[]⟩
  generalize ([],addNew info socket ⟨start,kernel,[]⟩) = last at path ⊢
  induction path with
  | refl => exact adding_start start kernel
  | tail _ step ih => exact step.adding sane ih

end FreebsdLaunchd.IpMonitor
