import FreebsdLaunchd.IpMonitor.Combined
import FreebsdLaunchd.Library.FirstLeast

/-! Building a combined list from those of the services, whichever order they come in. -/
namespace FreebsdLaunchd.IpMonitor
open Grouped

variable {Addr : Type}

def listed (routes : Option (RouteList Addr)) : List (Route Addr) := routes.elim [] RouteList.list

variable [LinearOrder Addr]

/-- One call of `RouteListAddRouteList` after another, each for a service with its rank. -/
def combineServices (initSize : Nat) (calls : List (RouteList Addr × Rank)) :
    Except Fault (Option (RouteList Addr)) :=
  calls.foldlM (fun routes s => routeListAddRouteList routes initSize s.1 s.2) none

def contributed (calls : List (RouteList Addr × Rank)) : List (Route Addr × Rank) :=
  calls.flatMap fun s => contributions s.1 s.2

def mergeAll (cs : List (Route Addr × Rank)) (list : List (Route Addr)) : List (Route Addr) :=
  cs.foldl (fun list c => merge c.1 c.2 list) list

variable {routes : Option (RouteList Addr)} {initSize : Nat} {cs : List (Route Addr × Rank)}
variable {calls calls' : List (RouteList Addr × Rank)}

/-! ## Memory -/

/-- A list that has memory for a route at first can always get more. -/
theorem routeListAddRoute_ok (room : 1 ≤ initSize) (sized : ∀ l ∈ routes, 1 ≤ l.size) (r : Route Addr) (k : Rank) :
    ∃ l, routeListAddRoute routes initSize r k = .ok l ∧ 1 ≤ l.size ∧ l.list = merge r k (listed routes) := by
  obtain ⟨start,same,size,list⟩ : ∃ start : RouteList Addr,
      routes.getD ⟨initSize,⟨false,false,false⟩,[],Nat.zero_le _⟩ = start ∧ 1 ≤ start.size ∧ start.list = listed routes := by
    cases routes with
    | none => exact ⟨_,rfl,room,rfl⟩
    | some l => exact ⟨l,rfl,sized l rfl,rfl⟩
  simp only [routeListAddRoute,same,merge,← list]
  cases ended : scanRoutes r k start.list 0 .start with
  | keep => exact ⟨start,rfl,size,rfl⟩
  | replace i x => exact ⟨_,rfl,size,rfl⟩
  | add duplicate s =>
    have fits := start.fits
    have fewer : (duplicate.elim start.list start.list.eraseIdx).length ≤ start.list.length := by
      cases duplicate with
      | none => exact le_refl _
      | some i => exact List.length_eraseIdx_le start.list i
    have enough : (duplicate.elim start.list start.list.eraseIdx).length <
        if start.size = (duplicate.elim start.list start.list.eraseIdx).length then start.size*2 else start.size := by
      split <;> omega
    simp only [dif_pos enough]
    refine ⟨_,rfl,?_,rfl⟩
    show 1 ≤ if start.size = _ then start.size*2 else start.size
    split <;> omega

theorem addContributions_ok (room : 1 ≤ initSize) (sized : ∀ l ∈ routes, 1 ≤ l.size) :
    ∃ final, cs.foldlM (fun routes c => some <$> routeListAddRoute routes initSize c.1 c.2) routes = .ok final ∧
      (∀ l ∈ final, 1 ≤ l.size) ∧ listed final = mergeAll cs (listed routes) := by
  induction cs generalizing routes with
  | nil => exact ⟨routes,rfl,sized,rfl⟩
  | cons c cs ih =>
    obtain ⟨l,added,size,list⟩ := routeListAddRoute_ok room sized c.1 c.2
    obtain ⟨final,rest,sized',same⟩ := @ih (some l) (by rintro _ ⟨⟩; exact size)
    refine ⟨final,?_,sized',?_⟩
    · rw [List.foldlM_cons,added]
      exact rest
    · rw [same]
      exact congrArg (mergeAll cs) list

private theorem combineServices_ok (room : 1 ≤ initSize) (calls : List (RouteList Addr × Rank)) :
    ∃ routes, combineServices initSize calls = .ok routes ∧ listed routes = mergeAll (contributed calls) [] := by
  have run (calls : List (RouteList Addr × Rank)) (routes : Option (RouteList Addr)) (sized : ∀ l ∈ routes, 1 ≤ l.size) :
      ∃ final, calls.foldlM (fun routes s => routeListAddRouteList routes initSize s.1 s.2) routes = .ok final ∧
        listed final = mergeAll (contributed calls) (listed routes) := by
    induction calls generalizing routes with
    | nil => exact ⟨routes,rfl,rfl⟩
    | cons s calls ih =>
      obtain ⟨next,added,sized,list⟩ := @addContributions_ok _ _ routes initSize (contributions s.1 s.2) room sized
      obtain ⟨final,rest,same⟩ := ih next sized
      refine ⟨final,?_,?_⟩
      · rw [List.foldlM_cons,routeListAddRouteList,added]
        exact rest
      · rw [same,list,contributed,contributed,List.flatMap_cons,mergeAll,mergeAll,mergeAll,List.foldl_append]
  exact run calls none nofun

theorem combines_all (plain : ∀ c ∈ cs, c.1.Plain) : Combines cs (mergeAll cs []) := by
  induction cs using List.reverseRecOn with
  | nil => exact .nil
  | append_singleton cs c ih =>
    rw [mergeAll,List.foldl_append]
    have before := ih fun b member => plain b (List.mem_append_left _ member)
    exact before.merge (plain c (by simp))

/-- The routes to a destination come from the contributions to it. -/
theorem group_mergeAll {list : List (Route Addr)} (sorted : Sorted Route.key list) (key : Addr ×ₗ Nat) :
    group Route.key key (mergeAll cs list) = mergeAll (cs.filter (·.1.key = key)) (group Route.key key list) := by
  induction cs generalizing list with
  | nil => rfl
  | cons c cs ih =>
    obtain ⟨sorted',here,others⟩ := merge_spec sorted c.1 c.2
    have rest := ih sorted'
    by_cases same : c.1.key = key
    · subst same
      rw [List.filter_cons_of_pos (by simp)]
      exact rest.trans (congrArg _ here)
    · rw [List.filter_cons_of_neg (by simpa using same)]
      exact rest.trans (congrArg _ (others key (Ne.symm same)))

/-! ## Whatever order -/

/-- Services at different places of the service order, whose routes are
ordinary and not yet scoped. -/
structure Services (calls : List (RouteList Addr × Rank)) : Prop where
  indexes : calls.Pairwise fun s t => rankIndexMask s.2 ≠ rankIndexMask t.2
  plain : ∀ s ∈ calls, ∀ r ∈ s.1.list, r.Plain
  unscoped : ∀ s ∈ calls, ∀ r ∈ s.1.list, r.flags.isScoped = false

omit [LinearOrder Addr] in
theorem contributions_spec {serviceRoutes : RouteList Addr} {rank : Rank} {c : Route Addr × Rank}
    (member : c ∈ contributions serviceRoutes rank) :
    c.1 ∈ serviceRoutes.list ∧ rankIndexMask c.2 = rankIndexMask rank := by
  obtain ⟨i,known⟩ := List.mem_iff_getElem?.mp member
  rw [contributions,List.getElem?_mapIdx] at known
  obtain ⟨r,old,rfl⟩ := Option.map_eq_some_iff.mp known
  refine ⟨List.mem_of_getElem? old,?_⟩
  dsimp only
  split
  · rfl
  · exact rankIndexMask_rankMake rank r.rank

private theorem winner_perm (services : Services calls) (perm : calls.Perm calls') (key : Addr ×ₗ Nat) (i : IFIndex) :
    winner (contributed calls) key i = winner (contributed calls') key i := by
  simp only [winner,contributed,List.filter_flatMap]
  apply FirstLeast.argmin_perm perm
  apply services.indexes.imp
  intro s t other a ha b hb equal
  have first := (contributions_spec (List.mem_filter.mp ha).1).2
  have second := (contributions_spec (List.mem_filter.mp hb).1).2
  have same : a.2 = b.2 := UInt32.toNat_inj.mp equal
  exact other (first.symm.trans ((congrArg rankIndexMask same).trans second))

/-- What the list of some services is to be: the best contribution to each
destination over each interface, in order, and scoped unless it comes first to
its destination and is not ranked Never. -/
structure IsCanonical (calls : List (RouteList Addr × Rank)) (list : List (Route Addr)) : Prop where
  one : ∀ key i, (list.filter fun r => r.key = key ∧ r.ifindex = i).map Route.bare =
    (winner (contributed calls) key i).toList.map entry
  sorted : list.Pairwise fun a b => a.key < b.key ∨ a.key = b.key ∧ a.place < b.place
  scope : ∀ lo x hi, list = lo ++ x :: hi → ClearCut (contributed calls) x.key →
    (x.flags.isScoped ↔ isNever x.rank ∨ ∃ y ∈ lo, y.key = x.key)

theorem Combines.canonical {list : List (Route Addr)} (combines : Combines (contributed calls) list)
    (unscoped : ∀ c ∈ contributed calls, c.1.flags.isScoped = false) : IsCanonical calls list where
  one key i := by
    rw [← combines.one key i,overInterface,group,List.filter_filter]
    simp only [Bool.decide_and,Bool.and_comm]
  sorted := combines.sorted.pairwise fun key => (combines.ranked key).ordered
  scope lo x hi split clear := by
    have grouped : group Route.key x.key list = group Route.key x.key lo ++ x :: group Route.key x.key hi := by
      rw [split,group,List.filter_append,List.filter_cons_of_pos (by simp)]
      rfl
    have tail := (combines.ranked x.key).tail
    have head := combines.head x.key (fun c member _ => unscoped c member) clear
    rw [grouped] at tail head
    cases earlier : group Route.key x.key lo with
    | nil =>
      have none : ¬ ∃ y ∈ lo, y.key = x.key := by
        rintro ⟨y,member,key⟩
        have inside : y ∈ group Route.key x.key lo := mem_group.mpr ⟨member,key⟩
        rw [earlier] at inside
        cases inside
      rw [earlier] at head
      rw [head x rfl]
      simp only [none,or_false]
    | cons y rest =>
      have inside : y ∈ group Route.key x.key lo := earlier ▸ List.mem_cons_self
      have before : ∃ y ∈ lo, y.key = x.key := ⟨y,mem_group.mp inside⟩
      rw [earlier] at tail
      simp only [before,or_true,iff_true]
      exact tail x (by simp)

theorem IsCanonical.mem_bare {list : List (Route Addr)} (canonical : IsCanonical calls list) {y : Route Addr} :
    y ∈ list.map Route.bare ↔ y ∈ (winner (contributed calls) y.key y.ifindex).toList.map entry := by
  rw [← canonical.one]
  simp only [List.mem_map,List.mem_filter]
  constructor
  · rintro ⟨x,member,rfl⟩
    exact ⟨x,⟨member,by simp⟩,rfl⟩
  · rintro ⟨x,⟨member,_⟩,equal⟩
    exact ⟨x,member,equal⟩

/-- The routes and their order follow from the best contributions. -/
theorem IsCanonical.bare_unique {list list' : List (Route Addr)} (canonical : IsCanonical calls list)
    (canonical' : IsCanonical calls' list')
    (same : ∀ key i, winner (contributed calls) key i = winner (contributed calls') key i) :
    list.map Route.bare = list'.map Route.bare := by
  have sorted : (list.map Route.bare).Pairwise fun a b => a.key < b.key ∨ a.key = b.key ∧ a.place < b.place :=
    List.pairwise_map.mpr canonical.sorted
  have sorted' : (list'.map Route.bare).Pairwise fun a b => a.key < b.key ∨ a.key = b.key ∧ a.place < b.place :=
    List.pairwise_map.mpr canonical'.sorted
  have irreflexive : Std.Irrefl fun a b : Route Addr => a.key < b.key ∨ a.key = b.key ∧ a.place < b.place :=
    ⟨fun a => by simp⟩
  have asymmetric : Std.Antisymm fun a b : Route Addr => a.key < b.key ∨ a.key = b.key ∧ a.place < b.place :=
    ⟨fun a b first second => by grind⟩
  apply sorted.eq_of_mem_iff sorted'
  intro y
  rw [canonical.mem_bare,canonical'.mem_bare,same]

/-- So do the scopes, where Never is clear-cut. -/
theorem IsCanonical.unique {list list' : List (Route Addr)} (canonical : IsCanonical calls list)
    (canonical' : IsCanonical calls' list')
    (same : ∀ key i, winner (contributed calls) key i = winner (contributed calls') key i)
    (clear : ∀ key, ClearCut (contributed calls) key) (clear' : ∀ key, ClearCut (contributed calls') key) :
    list = list' := by
  have bare := canonical.bare_unique canonical' same
  have length : list.length = list'.length := by
    have := congrArg List.length bare
    rwa [List.length_map,List.length_map] at this
  apply List.ext_getElem length
  intro i inside inside'
  have earlier : (list.take i).map Route.bare = (list'.take i).map Route.bare := by
    rw [List.map_take,List.map_take,bare]
  have here : list[i].bare = list'[i].bare := by
    have := congrArg (·[i]?) bare
    simpa [inside,inside'] using this
  have keys : list[i].key = list'[i].key := by
    have := congrArg Route.key here
    exact this
  have ranks : list[i].rank = list'[i].rank := by
    have := congrArg Route.rank here
    exact this
  have before : (∃ y ∈ list.take i, y.key = list[i].key) ↔ ∃ y ∈ list'.take i, y.key = list'[i].key := by
    have named (l : List (Route Addr)) (key : Addr ×ₗ Nat) :
        (∃ y ∈ l, y.key = key) ↔ ∃ y ∈ l.map Route.bare, y.key = key := by simp
    rw [named (list.take i),named (list'.take i),earlier,keys]
  have split (l : List (Route Addr)) (within : i < l.length) : l = l.take i ++ l[i] :: l.drop (i+1) := by
    rw [List.getElem_cons_drop,List.take_append_drop]
  have scope := canonical.scope _ _ _ (split list inside) (clear _)
  have scope' := canonical'.scope _ _ _ (split list' inside') (clear' _)
  rw [ranks,before] at scope
  exact Route.eq_of_bare here (Bool.eq_iff_iff.mpr (scope.trans scope'.symm))

omit [LinearOrder Addr] in
theorem ClearCut.perm {key : Addr ×ₗ Nat} (clear : ClearCut (contributed calls) key) (perm : calls.Perm calls') :
    ClearCut (contributed calls') key := by
  have same (c : Route Addr × Rank) : c ∈ contributed calls' ↔ c ∈ contributed calls := by
    simp only [contributed,List.mem_flatMap,perm.mem_iff]
  refine ⟨fun c member => clear.never c ((same c).mp member),?_⟩
  intro c member c' member'
  exact clear.alike c ((same c).mp member) c' ((same c').mp member')

omit [LinearOrder Addr] in
theorem Services.perm (services : Services calls) (perm : calls.Perm calls') : Services calls' where
  indexes := (perm.pairwise_iff fun differ => differ.symm).mp services.indexes
  plain s member := services.plain s (perm.mem_iff.mpr member)
  unscoped s member := services.unscoped s (perm.mem_iff.mpr member)

private theorem combineServices_canonical (services : Services calls) (room : 1 ≤ initSize) :
    ∃ routes, combineServices initSize calls = .ok routes ∧ IsCanonical calls (listed routes) := by
  obtain ⟨routes,built,list⟩ := combineServices_ok room calls
  refine ⟨routes,built,?_⟩
  have plain (c : Route Addr × Rank) (member : c ∈ contributed calls) : c.1.Plain := by
    obtain ⟨s,called,here⟩ := List.mem_flatMap.mp member
    exact services.plain s called c.1 (contributions_spec here).1
  have unscoped (c : Route Addr × Rank) (member : c ∈ contributed calls) : c.1.flags.isScoped = false := by
    obtain ⟨s,called,here⟩ := List.mem_flatMap.mp member
    exact services.unscoped s called c.1 (contributions_spec here).1
  rw [list]
  exact (combines_all plain).canonical unscoped

/-- The combined list is canonical, and the order of the services does not matter to it. -/
theorem combined_canonical (services : Services calls) (room : 1 ≤ initSize) :
    ∃ routes, combineServices initSize calls = .ok routes ∧ IsCanonical calls (listed routes) ∧
      ∀ calls', calls.Perm calls' → ∃ routes', combineServices initSize calls' = .ok routes' ∧
        (listed routes').map Route.bare = (listed routes).map Route.bare ∧
        ((∀ key, ClearCut (contributed calls) key) → listed routes' = listed routes) := by
  obtain ⟨routes,built,canonical⟩ := combineServices_canonical services room
  refine ⟨routes,built,canonical,?_⟩
  intro calls' perm
  obtain ⟨routes',built',canonical'⟩ := combineServices_canonical (services.perm perm) room
  have same (key : Addr ×ₗ Nat) (i : IFIndex) := (winner_perm services perm key i).symm
  refine ⟨routes',built',canonical'.bare_unique canonical same,?_⟩
  intro clear
  exact canonical'.unique canonical same (fun key => (clear key).perm perm) clear

def subnetOver (ifindex : IFIndex) (assertion : Rank) : RouteList Nat where
  size := 1
  flags := ⟨false,false,false⟩
  list := [⟨24,ifindex,0,assertion,⟨false,false,false,false,false⟩,10,ifindex.val,ifindex.val⟩]
  fits := by simp

def twoServices : List (RouteList Nat × Rank) :=
  [(subnetOver 5 rankAssertionDefault,rankMake 2 rankAssertionDefault),
    (subnetOver 4 rankAssertionDefault,rankMake 1 rankAssertionDefault)]

theorem two_services_canonical :
    ∃ routes, combineServices 1 twoServices = .ok routes ∧ IsCanonical twoServices (listed routes) ∧
      ∀ calls', twoServices.Perm calls' → ∃ routes', combineServices 1 calls' = .ok routes' ∧
        (listed routes').map Route.bare = (listed routes).map Route.bare ∧
        ((∀ key, ClearCut (contributed twoServices) key) → listed routes' = listed routes) := by
  refine combined_canonical ⟨by decide,?_,by simp [twoServices,subnetOver]⟩ (le_refl 1)
  simp only [twoServices,subnetOver,List.forall_mem_cons]
  exact ⟨⟨⟨by decide,rfl⟩,nofun⟩,⟨⟨by decide,rfl⟩,nofun⟩,nofun⟩

/-- A route that is ranked Never is scoped, even if there is no other. -/
theorem never_is_scoped :
    ¬ ∃ routes, combineServices 1 [(subnetOver 4 rankAssertionNever,rankMake 1 rankAssertionNever)] = .ok routes ∧
      ∀ lo x hi, listed routes = lo ++ x :: hi → (x.flags.isScoped ↔ ∃ y ∈ lo, y.key = x.key) := by
  rintro ⟨routes,built,scope⟩
  obtain rfl := Except.ok.inj built
  obtain ⟨_,none,_⟩ := (scope [] _ [] rfl).mp rfl
  cases none

end FreebsdLaunchd.IpMonitor
