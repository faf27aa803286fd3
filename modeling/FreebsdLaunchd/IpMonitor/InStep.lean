import FreebsdLaunchd.IpMonitor.Adding
import FreebsdLaunchd.Library.Runs

/-! The routing table of the kernel follows the lists that are applied one over another. -/
namespace FreebsdLaunchd.IpMonitor

variable {Addr : Type} [DecidableEq Addr]

/-! ## Equal routes -/

private theorem routeIsEqual_iff {a b : Route Addr} :
    routeIsEqual a b ↔ a.dest = b.dest ∧ a.prefixLength = b.prefixLength ∧
    a.ifindex = b.ifindex ∧ a.ifa = b.ifa ∧ a.gateway = b.gateway ∧ a.flags = b.flags := by
  simp [routeIsEqual]

private theorem routeIsEqual_symm {a b : Route Addr} (equal : routeIsEqual a b) : routeIsEqual b a := by
  obtain ⟨dest,prefixes,ifindex,ifa,gateway,flags⟩ := routeIsEqual_iff.mp equal
  exact routeIsEqual_iff.mpr ⟨dest.symm,prefixes.symm,ifindex.symm,ifa.symm,gateway.symm,flags.symm⟩

private theorem routeIsEqual_trans {a b c : Route Addr} (first : routeIsEqual a b) (second : routeIsEqual b c) :
    routeIsEqual a c := by
  obtain ⟨dest,prefixes,ifindex,ifa,gateway,flags⟩ := routeIsEqual_iff.mp first
  obtain ⟨dest',prefixes',ifindex',ifa',gateway',flags'⟩ := routeIsEqual_iff.mp second
  exact routeIsEqual_iff.mpr ⟨dest.trans dest',prefixes.trans prefixes',ifindex.trans ifindex',ifa.trans ifa',
    gateway.trans gateway',flags.trans flags'⟩

private theorem routeKey_of_equal {a b : Route Addr} (equal : routeIsEqual a b) : a.routeKey = b.routeKey := by
  obtain ⟨dest,prefixes,ifindex,_,_,flags⟩ := routeIsEqual_iff.mp equal
  simp [Route.routeKey,Route.ifscope,dest,prefixes,ifindex,flags]

private theorem message_of_equal [Zero Addr] {a b : Route Addr} (equal : routeIsEqual a b) : a.message = b.message := by
  obtain ⟨dest,prefixes,ifindex,ifa,gateway,flags⟩ := routeIsEqual_iff.mp equal
  simp [Route.message,Route.ifscope,dest,prefixes,ifindex,ifa,gateway,flags]

def RouteListInfo.sends (info : RouteListInfo Addr) (r : Route Addr) : Bool :=
  !info.untouched r && !r.flags.isNULL && r.ifindex ≠ 0

/-- The routes that can be marked as added: only one without an interface cannot. -/
def RouteListInfo.able (info : RouteListInfo Addr) (r : Route Addr) : Bool :=
  info.untouched r || r.flags.isNULL || r.ifindex ≠ 0

variable {info : RouteListInfo Addr} {a b r : Route Addr}

private theorem sends_of_equal (equal : routeIsEqual a b) : info.sends a = info.sends b := by
  obtain ⟨_,_,ifindex,_,_,flags⟩ := routeIsEqual_iff.mp equal
  simp [RouteListInfo.sends,info.untouched_equal a b equal,ifindex,flags]

private theorem able_of_equal (equal : routeIsEqual a b) : info.able a = info.able b := by
  obtain ⟨_,_,ifindex,_,_,flags⟩ := routeIsEqual_iff.mp equal
  simp [RouteListInfo.able,info.untouched_equal a b equal,ifindex,flags]

section Socket
variable {κ : Type} {socket : RoutingSocket κ Addr} {cmd : RouteMessageType} {k : κ}

theorem routeApply_sent (sends : info.sends r) : routeApply info socket cmd r k = socket.write cmd r k := by
  obtain ⟨⟨untouched,isNULL⟩,ifindex⟩ : (info.untouched r = false ∧ r.flags.isNULL = false) ∧ r.ifindex ≠ 0 := by
    simpa [RouteListInfo.sends] using sends
  simp [routeApply,untouched,isNULL,ifindex]

theorem routeApply_unsent (unsent : info.sends r = false) :
    routeApply info socket cmd r k = (if info.able r then .notApplied else .nxio,k) := by
  cases untouched : info.untouched r <;> cases isNULL : r.flags.isNULL <;>
    simp_all [routeApply,RouteListInfo.sends,RouteListInfo.able]

theorem able_of_sends (sends : info.sends r) : info.able r := by
  simp_all [RouteListInfo.sends,RouteListInfo.able]

end Socket

/-! ## The table of the kernel -/

variable [Zero Addr]

/-- The entries, and how many messages have come with this update. -/
structure RoutingTable (Addr : Type) where
  entries : RouteKey Addr → Option (RouteMessage Addr)
  messages : Nat

/-- A table takes a route unless it has one for the key, or refuses it for
reasons of its own: `refuses` gives the `errno`, if any, for each message. -/
def kernelTable (refuses : Nat → Option Nat) : RoutingSocket (RoutingTable Addr) Addr where
  write
    | .rtmAdd, r, k =>
      if (k.entries r.routeKey).isSome then (.exist,{k with messages := k.messages + 1})
      else
        match refuses k.messages with
        | some errno => (.other errno,{k with messages := k.messages + 1})
        | none => (.ok,⟨Function.update k.entries r.routeKey (some r.message),k.messages + 1⟩)
    | .rtmDelete, r, k =>
      if (k.entries r.routeKey).isSome then
        (.ok,⟨Function.update k.entries r.routeKey none,k.messages + 1⟩)
      else (.srch,{k with messages := k.messages + 1})

/-- The entries are the routes of the list that have been added, apart from those not sent. -/
def Holds (info : RouteListInfo Addr) (routes : List (ControlledRoute Addr))
    (entries : RouteKey Addr → Option (RouteMessage Addr)) : Prop :=
  ∀ key m, entries key = some m ↔
    ∃ c ∈ routes, c.controlFlags.added ∧ info.sends c.toRoute ∧ c.routeKey = key ∧ c.message = m

def UniqueKeys (routes : List (Route Addr)) : Prop := (routes.map Route.routeKey).Nodup

instance (routes : List (Route Addr)) : Decidable (UniqueKeys routes) := inferInstanceAs (Decidable (List.Nodup _))

omit [DecidableEq Addr] [Zero Addr] in
theorem UniqueKeys.eq {routes : List (ControlledRoute Addr)} (unique : UniqueKeys (routes.map ControlledRoute.toRoute))
    {c c' : ControlledRoute Addr} (member : c ∈ routes) (member' : c' ∈ routes) (same : c.routeKey = c'.routeKey) :
    c = c' :=
  List.inj_on_of_nodup_map (by simpa [UniqueKeys,Function.comp_def] using unique) member member' same

section Middle
variable {front back : List (ControlledRoute Addr)} {c : ControlledRoute Addr}
variable {entries : RouteKey Addr → Option (RouteMessage Addr)}

omit [DecidableEq Addr] [Zero Addr] in
theorem UniqueKeys.middle (unique : UniqueKeys ((front ++ c :: back).map ControlledRoute.toRoute)) :
    ∀ x ∈ front ++ back, x.routeKey ≠ c.routeKey := by
  have apart : c.routeKey ∉ (front ++ back).map fun x => x.routeKey := by
    have nodup : ((front ++ c :: back).map fun x => x.routeKey).Nodup := by
      simpa [UniqueKeys,Function.comp_def] using unique
    rw [List.map_append,List.map_cons,List.nodup_middle,List.nodup_cons] at nodup
    simpa using nodup.1
  exact fun x member same => apart (same ▸ List.mem_map_of_mem member)

/-- A route that has not been added, or is not sent, makes no difference. -/
theorem holds_idle (idle : ¬ (c.controlFlags.added ∧ info.sends c.toRoute)) :
    Holds info (front ++ c :: back) entries ↔ Holds info (front ++ back) entries := by
  simp only [Holds,List.mem_append,List.mem_cons]
  refine forall₂_congr fun key m => iff_congr Iff.rfl ⟨?_,?_⟩
  · rintro ⟨x,member,added,sends,rest⟩
    refine ⟨x,?_,added,sends,rest⟩
    rcases member with first | rfl | last
    · exact .inl first
    · exact absurd ⟨added,sends⟩ idle
    · exact .inr last
  · rintro ⟨x,member,rest⟩
    exact ⟨x,member.imp_right .inr,rest⟩

private theorem holds_insert (apart : ∀ x ∈ front ++ back, x.routeKey ≠ c.routeKey) (added : c.controlFlags.added)
    (sends : info.sends c.toRoute) (holds : Holds info (front ++ back) entries) :
    Holds info (front ++ c :: back) (Function.update entries c.routeKey (some c.message)) := by
  intro key m
  by_cases same : key = c.routeKey
  · subst same
    rw [Function.update_self]
    constructor
    · exact fun equal => ⟨c,by simp,added,sends,rfl,Option.some.inj equal⟩
    · rintro ⟨x,member,_,_,key,rfl⟩
      rcases List.mem_append.mp member with first | rest
      · exact absurd key (apart x (by simp [first]))
      · rcases List.mem_cons.mp rest with rfl | last
        · rfl
        · exact absurd key (apart x (by simp [last]))
  · rw [Function.update_of_ne same,holds key m]
    constructor
    · rintro ⟨x,member,rest⟩
      exact ⟨x,by simpa using (List.mem_append.mp member).imp_right .inr,rest⟩
    · rintro ⟨x,member,added',sends',equal,rest⟩
      refine ⟨x,?_,added',sends',equal,rest⟩
      rcases List.mem_append.mp member with first | rest
      · exact List.mem_append_left _ first
      · rcases List.mem_cons.mp rest with rfl | last
        · exact absurd equal.symm same
        · exact List.mem_append_right _ last

private theorem holds_remove (apart : ∀ x ∈ front ++ back, x.routeKey ≠ c.routeKey)
    (holds : Holds info (front ++ c :: back) entries) :
    Holds info (front ++ back) (Function.update entries c.routeKey none) := by
  intro key m
  by_cases same : key = c.routeKey
  · subst same
    rw [Function.update_self]
    constructor
    · exact fun absent => by simp at absent
    · rintro ⟨x,member,_,_,key,_⟩
      exact absurd key (apart x member)
  · rw [Function.update_of_ne same,holds key m]
    constructor
    · rintro ⟨x,member,added,sends,equal,rest⟩
      refine ⟨x,?_,added,sends,equal,rest⟩
      rcases List.mem_append.mp member with first | rest
      · exact List.mem_append_left _ first
      · rcases List.mem_cons.mp rest with rfl | last
        · exact absurd equal.symm same
        · exact List.mem_append_right _ last
    · rintro ⟨x,member,rest⟩
      exact ⟨x,by simpa using (List.mem_append.mp member).imp_right .inr,rest⟩

theorem Holds.absent (holds : Holds info (front ++ back) entries)
    (apart : ∀ x ∈ front ++ back, x.routeKey ≠ c.routeKey) : entries c.routeKey = none := by
  by_contra present
  obtain ⟨m,present⟩ := Option.ne_none_iff_exists'.mp present
  obtain ⟨x,member,_,_,key,_⟩ := (holds _ m).mp present
  exact apart x member key

end Middle

omit [DecidableEq Addr] [Zero Addr] in
private theorem setFlags_split {κ : Type} {s : ApplyState κ Addr} {i : Nat} {c : ControlledRoute Addr}
    (listed : s.newRoutes[i]? = some c) : ∃ front back, s.newRoutes = front ++ c :: back ∧
      ∀ flags, (s.setFlags i flags).newRoutes = front ++ {c with controlFlags := flags} :: back := by
  obtain ⟨bound,rfl⟩ := List.getElem?_eq_some_iff.mp listed
  refine ⟨s.newRoutes.take i,s.newRoutes.drop (i+1),?_,fun flags => List.modify_eq_take_cons_drop bound⟩
  rw [← List.drop_eq_getElem_cons bound,List.take_append_drop]

/-! ## Adding keeps the table in step -/

variable {refuses : Nat → Option Nat} {start : List (ControlledRoute Addr)}

structure Synced (info : RouteListInfo Addr) (stage : List Nat × ApplyState (RoutingTable Addr) Addr) : Prop where
  unique : UniqueKeys stage.2.routes
  holds : Holds info stage.2.newRoutes stage.2.kernel.entries
  able : ∀ c ∈ stage.2.newRoutes, c.controlFlags.added → info.able c.toRoute

section Add
variable {s : ApplyState (RoutingTable Addr) Addr} {i : Nat} {c : ControlledRoute Addr} {stack : List Nat}

/-- Where the table has no route for the key, one call adds the route or is refused. -/
theorem addOrReplace_once (absent : s.kernel.entries r.routeKey = none) :
    s.addOrReplace info (kernelTable refuses) i r = s.apply info (kernelTable refuses) .rtmAdd i r := by
  have new : (s.apply info (kernelTable refuses) .rtmAdd i r).1 ≠ .exist := by
    cases sends : info.sends r with
    | true =>
      simp only [ApplyState.apply,routeApply_sent sends,kernelTable,absent,Option.isSome_none,Bool.false_eq_true,
        if_false]
      split <;> simp
    | false =>
      simp only [ApplyState.apply,routeApply_unsent sends]
      split <;> simp
  simp only [ApplyState.addOrReplace,if_neg new]

inductive TableOutcome (info : RouteListInfo Addr) (refuses : Nat → Option Nat) (i : Nat) (r : Route Addr)
    (s t : ApplyState (RoutingTable Addr) Addr) : Prop
  | unsent (unsent : info.sends r = false) (able : info.able r)
      (routes : t.newRoutes = (s.setFlags i ⟨true,true⟩).newRoutes) (entries : t.kernel.entries = s.kernel.entries)
  | sent (sent : info.sends r) (routes : t.newRoutes = (s.setFlags i ⟨true,true⟩).newRoutes)
      (entries : t.kernel.entries = Function.update s.kernel.entries r.routeKey (some r.message))
  | refused (refused : info.able r → (refuses s.kernel.messages).isSome) (routes : t.newRoutes = s.newRoutes)
      (entries : t.kernel.entries = s.kernel.entries)

theorem addRoute_table (info : RouteListInfo Addr) (refuses : Nat → Option Nat) (i : Nat)
    (absent : s.kernel.entries r.routeKey = none) :
    TableOutcome info refuses i r s (s.addRoute info (kernelTable refuses) i r) := by
  rw [ApplyState.addRoute,addOrReplace_once absent]
  cases sends : info.sends r with
  | false =>
    simp only [ApplyState.apply,routeApply_unsent sends]
    cases able : info.able r with
    | true => exact .unsent sends able rfl rfl
    | false => exact .refused (by simp [able]) rfl rfl
  | true =>
    simp only [ApplyState.apply,routeApply_sent sends,kernelTable,absent,Option.isSome_none,Bool.false_eq_true,if_false]
    cases refused : refuses s.kernel.messages with
    | some errno => exact .refused (by simp [refused]) rfl rfl
    | none => exact .sent sends rfl rfl

/-- A state is judged by its list and by the table only. -/
theorem Synced.of_eq {t : ApplyState (RoutingTable Addr) Addr} (synced : Synced info (stack,s))
    (routes : t.newRoutes = s.newRoutes) (entries : t.kernel.entries = s.kernel.entries) (stack' : List Nat) :
    Synced info (stack',t) where
  unique := by simpa only [ApplyState.routes,routes] using synced.unique
  holds := by simpa only [routes,entries] using synced.holds
  able := by simpa only [routes] using synced.able

omit [Zero Addr] in
private theorem able_setFlags {s : ApplyState (RoutingTable Addr) Addr}
    (known : ∀ x ∈ s.newRoutes, x.controlFlags.added → info.able x.toRoute) (listed : s.newRoutes[i]? = some c)
    {flags : ControlFlags} (able : flags.added → info.able c.toRoute) :
    ∀ x ∈ (s.setFlags i flags).newRoutes, x.controlFlags.added → info.able x.toRoute := by
  obtain ⟨front,back,split,flagged⟩ := setFlags_split listed
  intro x member added
  rw [split] at known
  rw [flagged] at member
  rcases List.mem_append.mp member with first | rest
  · exact known x (by simp [first]) added
  · rcases List.mem_cons.mp rest with rfl | last
    · exact able added
    · exact known x (by simp [last]) added

theorem Synced.setFlags (synced : Synced info (stack,s)) (listed : s.newRoutes[i]? = some c)
    (notAdded : ¬ c.controlFlags.added) {flags : ControlFlags} (idle : ¬ (flags.added ∧ info.sends c.toRoute))
    (able : flags.added → info.able c.toRoute) (stack' : List Nat) : Synced info (stack',s.setFlags i flags) := by
  obtain ⟨front,back,split,flagged⟩ := setFlags_split listed
  have holds := synced.holds
  rw [split,holds_idle fun sent => notAdded sent.1] at holds
  exact ⟨by simpa using synced.unique,by rwa [flagged,holds_idle idle],able_setFlags synced.able listed able⟩

theorem Synced.absent (synced : Synced info (stack,s)) (listed : s.newRoutes[i]? = some c)
    (notAdded : ¬ c.controlFlags.added) : s.kernel.entries c.routeKey = none := by
  obtain ⟨front,back,split,_⟩ := setFlags_split listed
  have holds := synced.holds
  rw [split,holds_idle fun sent => notAdded sent.1] at holds
  exact holds.absent (UniqueKeys.middle (by simpa only [ApplyState.routes,split] using synced.unique))

theorem Synced.add (synced : Synced info (i::stack,s)) (listed : s.newRoutes[i]? = some c)
    (notAdded : ¬ c.controlFlags.added) : Synced info (stack,s.addRoute info (kernelTable refuses) i c.toRoute) := by
  obtain ⟨front,back,split,flagged⟩ := setFlags_split listed
  have apart := UniqueKeys.middle (by simpa only [ApplyState.routes,split] using synced.unique)
  have holds := synced.holds
  rw [split,holds_idle fun sent => notAdded sent.1] at holds
  cases addRoute_table info refuses i (synced.absent listed notAdded) with
  | unsent unsent able routes entries =>
    exact (synced.setFlags listed notAdded (by simp [unsent]) (fun _ => able) stack).of_eq routes entries stack
  | sent sent routes entries =>
    refine ⟨?_,?_,?_⟩
    · simpa using synced.unique
    · rw [routes,flagged,entries]
      exact holds_insert (c := {c with controlFlags := ⟨true,true⟩}) apart rfl sent holds
    · rw [routes]
      exact able_setFlags synced.able listed fun _ => able_of_sends sent
  | refused _ routes entries => exact synced.of_eq routes entries stack

/-- One step of the loop keeps the table in step with the list. -/
theorem AddStep.synced (sane : SaneFlags start) {a b : List Nat × ApplyState (RoutingTable Addr) Addr}
    (step : AddStep info (kernelTable refuses) a b) (adding : Adding info start a) (synced : Synced info a) :
    Synced info b := by
  cases step with
  | @enter stack s i c listed fresh =>
    have notAdded : ¬ c.controlFlags.added := by
      intro added
      have := sane c (List.mem_of_getElem? (adding.untried i c listed (by simp [fresh])).1) added
      simp [fresh] at this
    exact synced.setFlags listed notAdded (by simp [notAdded]) (by simp [notAdded]) _
  | leave => exact synced.of_eq rfl rfl _
  | @add stack s i r listed ready =>
    obtain ⟨c,here,_,notAdded,_⟩ := adding.stacked i List.mem_cons_self
    obtain rfl := Option.some.inj (listed.symm.trans (routes_at here))
    exact synced.add here notAdded

end Add

private theorem addNew_synced (refuses : Nat → Option Nat) (sane : SaneFlags start) {kernel : RoutingTable Addr}
    (synced : Synced info ([],⟨start,kernel,[]⟩)) :
    Synced info ([],addNew info (kernelTable refuses) ⟨start,kernel,[]⟩) := by
  have path := addNew_path info (kernelTable refuses) ⟨start,kernel,[]⟩
  generalize ([],addNew info (kernelTable refuses) ⟨start,kernel,[]⟩) = last at path ⊢
  suffices Adding info start last ∧ Synced info last from this.2
  induction path with
  | refl => exact ⟨adding_start start kernel,synced⟩
  | tail _ step ih => exact ⟨step.adding sane ih.1,step.synced sane ih.1 ih.2⟩

/-! ## Removing, and the flags that stay -/

section Remove
variable {old new : List (ControlledRoute Addr)} {s : ApplyState (RoutingTable Addr) Addr}

def stays (new : List (ControlledRoute Addr)) (c : ControlledRoute Addr) : Bool :=
  (routeListFindRoute new c.toRoute).isSome

private theorem remove_holds {front back : List (ControlledRoute Addr)}
    {c : ControlledRoute Addr} (refuses : Nat → Option Nat)
    (i : Nat)
       (apart : ∀ x ∈ front ++ back, x.routeKey ≠ c.routeKey) (added : c.controlFlags.added)
    (holds : Holds info (front ++ c :: back) s.kernel.entries) :
    Holds info (front ++ back)
      (routeProcessRemove info (kernelTable refuses) i c.toRoute s).kernel.entries := by
  cases sends : info.sends c.toRoute with
  | false =>
    rw [holds_idle (by simp [sends])] at holds
    simpa only [routeProcessRemove,ApplyState.apply,routeApply_unsent sends] using holds
  | true =>
    have present : (s.kernel.entries c.routeKey).isSome := by
      rw [(holds _ _).mpr ⟨c,by simp,added,sends,rfl,rfl⟩]
      rfl
    simp only [routeProcessRemove,ApplyState.apply,routeApply_sent sends,kernelTable,present,if_true]
    exact holds_remove apart holds

/-- The first loop leaves the routes that the new list has, too. -/
theorem removeOld_holds (unique : UniqueKeys (old.map ControlledRoute.toRoute))
    (holds : Holds info old s.kernel.entries) :
    Holds info (old.filter (stays new)) (removeOld info (kernelTable refuses) old new s).kernel.entries := by
  suffices ∀ (done rest : List (ControlledRoute Addr)) (n : Nat) (s : ApplyState (RoutingTable Addr) Addr),
      UniqueKeys ((done ++ rest).map ControlledRoute.toRoute) → Holds info (done ++ rest) s.kernel.entries →
      Holds info (done ++ rest.filter (stays new))
        ((rest.zipIdx n).foldl (removeStale info (kernelTable refuses) new) s).kernel.entries from this [] old 0 s unique holds
  intro done rest
  induction rest generalizing done with
  | nil => exact fun _ _ _ holds => holds
  | cons c rest ih =>
    intro n s unique holds
    have apart := UniqueKeys.middle unique
    rw [List.zipIdx_cons,List.foldl_cons]
    have unique' : UniqueKeys ((done ++ rest).map ControlledRoute.toRoute) :=
      List.Nodup.sublist (by simp) unique
    cases found : routeListFindRoute new c.toRoute with
    | some d =>
      have kept : stays new c = true := by simp [stays,found]
      have after := ih (done ++ [c]) (n+1) s (by simpa using unique) (by simpa using holds)
      simpa [List.filter_cons,kept,found,removeStale] using after
    | none =>
      have gone : stays new c = false := by simp [stays,found]
      by_cases added : c.controlFlags.added
      · have after := ih done (n+1) _ unique' (remove_holds refuses n apart added holds)
        simpa [List.filter_cons,gone,found,added,removeStale] using after
      · have after := ih done (n+1) s unique' ((holds_idle (by simp [added])).mp holds)
        simpa [List.filter_cons,gone,found,added,removeStale] using after

omit [Zero Addr] in
/-- Every call of the first loop removes a route that the new list does not have. -/
theorem removeOld_calls {κ : Type} {socket : RoutingSocket κ Addr} {s : ApplyState κ Addr} (none : s.calls = []) :
    ∀ call ∈ (removeOld info socket old new s).calls,
      call.cmd = .rtmDelete ∧ routeListFindRoute new call.route = Option.none := by
  suffices ∀ (scans : List (ControlledRoute Addr × Nat)) (s : ApplyState κ Addr),
      (∀ call ∈ s.calls, call.cmd = .rtmDelete ∧ routeListFindRoute new call.route = Option.none) →
      ∀ call ∈ (scans.foldl (removeStale info socket new) s).calls,
        call.cmd = .rtmDelete ∧ routeListFindRoute new call.route = Option.none from this _ _ (by simp [none])
  intro scans
  induction scans with
  | nil => exact fun _ known => known
  | cons scan rest ih =>
    intro s known
    rw [List.foldl_cons]
    apply ih
    unfold removeStale
    split
    · rename_i stale
      intro call member
      rcases List.mem_append.mp member with earlier | here
      · exact known call earlier
      · obtain rfl := List.mem_singleton.mp here
        exact ⟨rfl,by simpa using stale.1⟩
    · exact known

omit [Zero Addr] in
private theorem findRoute_some {routes : List (ControlledRoute Addr)} {r : Route Addr} {c : ControlledRoute Addr}
    (found : routeListFindRoute routes r = some c) : c ∈ routes ∧ routeIsEqual c.toRoute r := by
  unfold routeListFindRoute at found
  exact ⟨List.mem_of_find?_eq_some found,by simpa using List.find?_some found⟩

omit [Zero Addr] in
private theorem findRoute_none {routes : List (ControlledRoute Addr)} {r : Route Addr}
    (absent : routeListFindRoute routes r = none) {c : ControlledRoute Addr} (member : c ∈ routes) :
    ¬ routeIsEqual c.toRoute r := by
  have := List.find?_eq_none.mp absent c member
  simpa using this

omit [Zero Addr] in
/-- In a list without two routes to one key there is no other route to find. -/
theorem findRoute_unique (unique : UniqueKeys (old.map ControlledRoute.toRoute)) {c : ControlledRoute Addr}
    (member : c ∈ old) {r : Route Addr} (equal : routeIsEqual c.toRoute r) : routeListFindRoute old r = some c := by
  cases found : routeListFindRoute old r with
  | none => exact absurd equal (findRoute_none found member)
  | some d =>
    obtain ⟨member',equal'⟩ := findRoute_some found
    rw [unique.eq member' member (routeKey_of_equal (routeIsEqual_trans equal' (routeIsEqual_symm equal)))]

omit [Zero Addr] in
@[simp] theorem preserveFlags_routes :
    (preserveFlags old new).map ControlledRoute.toRoute = new.map ControlledRoute.toRoute := by
  simp only [preserveFlags,List.map_map]
  apply List.map_congr_left
  intro c _
  simp only [Function.comp_apply]
  split <;> rfl

omit [Zero Addr] in
/-- What a route of the new list starts with, where the list is new. -/
theorem mem_preserveFlags (fresh : ∀ c ∈ new, c.controlFlags = ⟨false,false⟩) {c : ControlledRoute Addr}
    (member : c ∈ preserveFlags old new) : (∃ n ∈ new, n.toRoute = c.toRoute) ∧
      ((∃ d, routeListFindRoute old c.toRoute = some d ∧ c.controlFlags = d.controlFlags) ∨
        routeListFindRoute old c.toRoute = none ∧ c.controlFlags = ⟨false,false⟩) := by
  obtain ⟨n,listed,rfl⟩ := List.mem_map.mp member
  cases found : routeListFindRoute old n.toRoute with
  | some d => exact ⟨⟨n,listed,rfl⟩,.inl ⟨d,found,rfl⟩⟩
  | none => exact ⟨⟨n,listed,rfl⟩,.inr ⟨found,fresh n listed⟩⟩

private theorem preserveFlags_holds (unique : UniqueKeys (old.map ControlledRoute.toRoute))
    (fresh : ∀ c ∈ new, c.controlFlags = ⟨false,false⟩) {entries : RouteKey Addr → Option (RouteMessage Addr)}
    (holds : Holds info (old.filter (stays new)) entries) : Holds info (preserveFlags old new) entries := by
  intro key m
  rw [holds key m]
  constructor
  · rintro ⟨c,member,added,sends,rfl,rfl⟩
    obtain ⟨member,kept⟩ := List.mem_filter.mp member
    obtain ⟨n,found⟩ := Option.isSome_iff_exists.mp kept
    obtain ⟨member',equal⟩ := findRoute_some found
    have found' := findRoute_unique unique member (routeIsEqual_symm equal)
    refine ⟨{n with controlFlags := c.controlFlags},List.mem_map.mpr ⟨n,member',by rw [found']⟩,added,?_,?_,?_⟩
    · exact (sends_of_equal equal).trans sends
    · exact routeKey_of_equal equal
    · exact message_of_equal equal
  · rintro ⟨c,member,added,sends,rfl,rfl⟩
    obtain ⟨⟨n,listed,same⟩,origin⟩ := mem_preserveFlags fresh member
    rcases origin with ⟨d,found,flags⟩ | ⟨_,flags⟩
    · obtain ⟨member',equal⟩ := findRoute_some found
      refine ⟨d,List.mem_filter.mpr ⟨member',?_⟩,flags ▸ added,?_,?_,?_⟩
      · exact List.find?_isSome.mpr ⟨n,listed,same ▸ routeIsEqual_symm equal⟩
      · exact (sends_of_equal equal).trans sends
      · exact routeKey_of_equal equal
      · exact message_of_equal equal
    · simp [flags] at added

end Remove

/-! ## One list after another -/

/-- A list from the election; `refuses` is what the kernel does to the messages of this update. -/
structure Update (Addr : Type) where
  routes : List (Route Addr)
  unique : UniqueKeys routes
  refuses : Nat → Option Nat

def unprocessed (r : Route Addr) : ControlledRoute Addr := {r with controlFlags := ⟨false,false⟩}

/-- The list that was applied last and the table of the kernel. -/
structure Monitor (Addr : Type) where
  routes : List (ControlledRoute Addr)
  entries : RouteKey Addr → Option (RouteMessage Addr)

def Monitor.initial : Monitor Addr := ⟨[],fun _ => none⟩

def Monitor.applied (info : RouteListInfo Addr) (w : Monitor Addr) (u : Update Addr) :
    ApplyState (RoutingTable Addr) Addr :=
  routeListApply info (kernelTable u.refuses) w.routes (u.routes.map unprocessed) ⟨w.entries,0⟩

def Monitor.update (info : RouteListInfo Addr) (w : Monitor Addr) (u : Update Addr) : Monitor Addr :=
  ⟨(w.applied info u).newRoutes,(w.applied info u).kernel.entries⟩

structure Monitor.Sound (info : RouteListInfo Addr) (w : Monitor Addr) : Prop where
  unique : UniqueKeys (w.routes.map ControlledRoute.toRoute)
  sane : SaneFlags w.routes
  able : ∀ c ∈ w.routes, c.controlFlags.added → info.able c.toRoute
  holds : Holds info w.routes w.entries

def Monitor.preserved (w : Monitor Addr) (u : Update Addr) : List (ControlledRoute Addr) :=
  preserveFlags w.routes (u.routes.map unprocessed)

section Sound
variable {w : Monitor Addr} {u : Update Addr}

omit [Zero Addr] in
@[simp] theorem preserved_routes : (w.preserved u).map ControlledRoute.toRoute = u.routes := by
  simp [Monitor.preserved,unprocessed,Function.comp_def]

omit [DecidableEq Addr] [Zero Addr] in
private theorem unprocessed_fresh : ∀ c ∈ u.routes.map unprocessed, c.controlFlags = ⟨false,false⟩ := by
  simp [unprocessed]

omit [Zero Addr] in
theorem preserved_sane (sane : SaneFlags w.routes) (u : Update Addr) : SaneFlags (w.preserved u) := by
  intro c member added
  rcases (mem_preserveFlags unprocessed_fresh member).2 with ⟨d,found,flags⟩ | ⟨_,flags⟩
  · rw [flags] at added ⊢
    exact sane d (findRoute_some found).1 added
  · simp [flags] at added

def Monitor.cleared (info : RouteListInfo Addr) (w : Monitor Addr) (u : Update Addr) :
    ApplyState (RoutingTable Addr) Addr :=
  removeOld info (kernelTable u.refuses) w.routes (u.routes.map unprocessed) ⟨[],⟨w.entries,0⟩,[]⟩

private theorem applied_eq (w : Monitor Addr) (u : Update Addr) :
    w.applied info u =
      {addNew info (kernelTable u.refuses) ⟨w.preserved u,(w.cleared info u).kernel,[]⟩ with
        calls := (w.cleared info u).calls ++
          (addNew info (kernelTable u.refuses) ⟨w.preserved u,(w.cleared info u).kernel,[]⟩).calls} := rfl

theorem Monitor.Sound.preserved_synced (sound : w.Sound info) (u : Update Addr) :
    Synced info ([],⟨w.preserved u,(w.cleared info u).kernel,[]⟩) := by
  have cleared : Holds info (w.routes.filter (stays (u.routes.map unprocessed))) (w.cleared info u).kernel.entries :=
    removeOld_holds sound.unique sound.holds
  refine ⟨?_,preserveFlags_holds sound.unique unprocessed_fresh cleared,?_⟩
  · change UniqueKeys ((w.preserved u).map ControlledRoute.toRoute)
    rw [preserved_routes]
    exact u.unique
  · intro c member added
    rcases (mem_preserveFlags unprocessed_fresh member).2 with ⟨d,found,flags⟩ | ⟨_,flags⟩
    · obtain ⟨member',equal⟩ := findRoute_some found
      exact (able_of_equal equal).symm.trans (sound.able d member' (flags ▸ added))
    · simp [flags] at added

omit [Zero Addr] in
theorem Adding.sane {κ : Type} {stage : List Nat × ApplyState κ Addr} {start : List (ControlledRoute Addr)}
    (adding : Adding info start stage) (sane : SaneFlags start) : SaneFlags stage.2.newRoutes := by
  intro c member added
  obtain ⟨i,listed⟩ := List.mem_iff_getElem?.mp member
  by_contra fresh
  exact fresh (sane c (List.mem_of_getElem? (adding.untried i c listed fresh).1) added)

private theorem added_adding (info : RouteListInfo Addr) (sane : SaneFlags w.routes) (u : Update Addr) :
    Adding info (w.preserved u)
    ([],addNew info (kernelTable u.refuses) ⟨w.preserved u,(w.cleared info u).kernel,[]⟩) :=
  addNew_adding info (preserved_sane sane u) (kernelTable u.refuses) (w.cleared info u).kernel

theorem update_sane (info : RouteListInfo Addr) (sane : SaneFlags w.routes) (u : Update Addr) :
    SaneFlags (w.update info u).routes :=
  (added_adding info sane u).sane (preserved_sane sane u)

theorem Monitor.Sound.update (sound : w.Sound info) (u : Update Addr) : (w.update info u).Sound info := by
  have synced := addNew_synced u.refuses (preserved_sane sound.sane u) (sound.preserved_synced u)
  exact ⟨synced.unique,update_sane info sound.sane u,synced.able,synced.holds⟩

theorem initial_sound (info : RouteListInfo Addr) : Monitor.initial.Sound info where
  unique := List.nodup_nil
  sane _ member := by simp [Monitor.initial] at member
  able _ member := by simp [Monitor.initial] at member
  holds key m := by simp [Monitor.initial]

theorem applied_routes (info : RouteListInfo Addr) (sane : SaneFlags w.routes) (u : Update Addr) :
    (w.applied info u).routes = u.routes :=
  (added_adding info sane u).routes.trans preserved_routes

def Monitor.after (info : RouteListInfo Addr) (updates : List (Update Addr)) : Monitor Addr :=
  Runs.run (Monitor.update info) .initial updates

theorem after_sound (info : RouteListInfo Addr) (updates : List (Update Addr)) :
    (Monitor.after info updates).Sound info := by
  have keeps (w : Monitor Addr) (u : Update Addr) (sound : w.Sound info) : (w.update info u).Sound info :=
    sound.update u
  exact Runs.invariant keeps (initial_sound info) updates

def CarriedOver (old : List (ControlledRoute Addr)) (new : List (Route Addr)) (r : Route Addr) : Prop :=
  (∃ c ∈ old, c.controlFlags.processed ∧ routeIsEqual c.toRoute r) ∧ ∃ n ∈ new, routeIsEqual n r

theorem Monitor.Sound.calls_new (sound : w.Sound info) (u : Update Addr) :
    ∀ call ∈ (w.applied info u).calls, ¬ CarriedOver w.routes u.routes call.route := by
  have adding := added_adding info sound.sane u
  rintro call member ⟨⟨c,member',processed,equal⟩,n,listed,equal'⟩
  rw [applied_eq] at member
  rcases List.mem_append.mp member with removed | added
  · have gone := (removeOld_calls rfl call removed).2
    exact findRoute_none gone (List.mem_map_of_mem listed) equal'
  · obtain ⟨d,listed',fresh,route⟩ := adding.calls call added
    rw [route] at equal
    rcases (mem_preserveFlags unprocessed_fresh (List.mem_of_getElem? listed')).2 with ⟨d',found,flags⟩ | ⟨absent,_⟩
    · rw [findRoute_unique sound.unique member' equal] at found
      obtain rfl := Option.some.inj found
      exact fresh (flags ▸ processed)
    · exact findRoute_none absent member' equal

/-- An add comes after that of the gateway route, as long as the kernel has not refused that one. -/
def GatewayAdded (info : RouteListInfo Addr) (start : List (ControlledRoute Addr)) (calls : List (RouteCall Addr)) :
    Prop :=
  ∀ before call after, calls = before ++ call :: after → call.cmd = .rtmAdd →
    ∀ q, gatewayRoute info (start.map ControlledRoute.toRoute) call.route = some q →
      (∀ call ∈ before, call.cmd = .rtmAdd → call.index = q → call.result.accepted) → AddedBy start before q

theorem Monitor.Sound.gateway_first (sound : w.Sound info) (u : Update Addr) :
    GatewayAdded info (w.preserved u) (w.applied info u).calls := by
  have adding := added_adding info sound.sane u
  intro before call after split cmd q gateway accepted
  rw [applied_eq] at split
  -- the calls of the first loop remove routes
  have added {rest : List (RouteCall Addr)} (whole : (addNew info (kernelTable u.refuses)
      ⟨w.preserved u,(w.cleared info u).kernel,[]⟩).calls = rest ++ call :: after)
      (accepted : ∀ call ∈ rest, call.cmd = .rtmAdd → call.index = q → call.result.accepted) :
      AddedBy (w.preserved u) rest q := by
    rcases adding.ordered rest call after whole cmd q gateway with atStart | ⟨call',member,cmd',index⟩
    · exact .inl atStart
    · exact .inr ⟨call',member,cmd',index,accepted call' member cmd' index⟩
  rcases List.append_eq_append_iff.mp split with ⟨rest,rfl,whole⟩ | ⟨rest,earlier,whole⟩
  · refine (added whole fun call member => accepted call (List.mem_append_right _ member)).imp_right ?_
    exact fun ⟨call',member,found⟩ => ⟨call',List.mem_append_right _ member,found⟩
  · cases rest with
    | nil =>
      rw [List.nil_append] at whole
      exact (@added [] whole.symm (by simp)).imp_right fun ⟨_,member,_⟩ => by simp at member
    | cons head rest =>
      obtain ⟨rfl,_⟩ := List.cons_eq_cons.mp whole
      have removed := (removeOld_calls rfl call (show call ∈ (w.cleared info u).calls by simp [earlier])).1
      rw [cmd] at removed
      cases removed

end Sound

/-- After any updates, one more leaves the table with exactly the routes of the
list that are marked as added and go to the kernel at all; it makes no call for
a route that was processed before and stays; and a route is added after its
gateway route, as long as the kernel has taken that one. -/
theorem routes_in_step (info : RouteListInfo Addr) (updates : List (Update Addr)) (u : Update Addr) :
    Holds info ((Monitor.after info updates).applied info u).newRoutes
      ((Monitor.after info updates).applied info u).kernel.entries ∧
    ((Monitor.after info updates).applied info u).routes = u.routes ∧
    (∀ call ∈ ((Monitor.after info updates).applied info u).calls,
      ¬ CarriedOver (Monitor.after info updates).routes u.routes call.route) ∧
    GatewayAdded info ((Monitor.after info updates).preserved u) ((Monitor.after info updates).applied info u).calls := by
  have sound := after_sound info updates
  exact ⟨(sound.update u).holds,applied_routes info sound.sane u,sound.calls_new u,sound.gateway_first u⟩

def networkOver (ifindex : IFIndex) (dest : BitVec 32) (prefixLength : Nat) : Route (BitVec 32) where
  prefixLength := prefixLength
  ifindex := ifindex
  excludeIfindex := 0
  rank := rankAssertionDefault
  flags := ⟨false,false,false,false,false⟩
  dest := dest
  gateway := 0
  ifa := 0

def Route.via (r : Route (BitVec 32)) (gateway : BitVec 32) : Route (BitVec 32) :=
  {r with gateway,flags := {r.flags with hasGateway := true}}

def nullUpdate : Update (BitVec 32) where
  routes := [{networkOver 4 0x0a000000 8 with flags := ⟨false,false,false,true,false⟩}]
  unique := by decide
  refuses _ := none

def gatewayBehind : List (Route (BitVec 32)) :=
  [(networkOver 4 0x0b000000 8).via 0x0a000001,networkOver 4 0x0a000000 8]

theorem gatewayBehind_unique : UniqueKeys gatewayBehind := by decide

def refusedUpdate : Update (BitVec 32) where
  routes := gatewayBehind
  unique := gatewayBehind_unique
  refuses n := if n = 0 then some 50 else none

/-- A NULL route is marked as added and is in no table. And where the kernel
refuses the route to a gateway, what is behind the gateway is added all the same. -/
theorem null_route_not_held :
    (∃ c ∈ (Monitor.initial.applied (ipv4RouteListInfo false) nullUpdate).newRoutes, c.controlFlags.added ∧
      (Monitor.initial.applied (ipv4RouteListInfo false) nullUpdate).kernel.entries c.routeKey = none) ∧
    gatewayRoute (ipv4RouteListInfo false) gatewayBehind ((networkOver 4 0x0b000000 8).via 0x0a000001) = some 1 ∧
    (Monitor.initial.applied (ipv4RouteListInfo false) refusedUpdate).calls.map (fun c => (c.cmd,c.index,c.result)) =
      [(.rtmAdd,1,.other 50),(.rtmAdd,0,.ok)] := by decide

end FreebsdLaunchd.IpMonitor
