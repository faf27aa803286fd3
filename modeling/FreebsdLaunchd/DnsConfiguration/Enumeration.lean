import FreebsdLaunchd.DnsConfiguration.Configuration
import FreebsdLaunchd.Library.Enumerations

/-! The order in which the services are enumerated, and how far the configuration
depends on it: by the default orders of supplemental resolvers, by the order of the
resolvers of several services, and by the service that comes first. -/
namespace FreebsdLaunchd.DnsConfiguration
open ArraySorting Enumerations

variable {system : System} {services services' : Services} {configuration : Configuration} {dns newDNS : CFDictionary}
  {service : Service} {serviceOrder : List CFString} {scope : Option Scope}

/-! ## Supplemental resolvers -/

/-- Every match domain has an order of its own, or the dictionary has one. -/
def OrdersGiven (dns : CFDictionary) : Prop :=
  dns.lookup .searchOrder ≠ none ∨ ∀ domains orders, supplementalDomains dns = some (domains,orders) →
    ∀ (i : Nat) text, domains[i]? = some (Atom.string text) → matchOrder (orders.bind (·[i]?)) ≠ none

def Service.Supplements (service : Service) : Prop :=
  ∃ dns domains orders text, service.dns = some dns ∧ supplementalDomains dns = some (domains,orders) ∧
    Atom.string text ∈ domains

private theorem matchResolver_ordered {serviceID : CFString} {isScoped : Bool} {i : Nat} {matchDomain : CFString}
    {order : Option Atom} (given : dns.lookup .searchOrder ≠ none ∨ matchOrder order ≠ none)
    (defaultOrder defaultOrder' : BitVec 32) :
    (matchResolver serviceID dns isScoped i matchDomain order defaultOrder).1 =
      (matchResolver serviceID dns isScoped i matchDomain order defaultOrder').1 := by
  have named : (if matchDomain ≠ [] then dns.insert .domainName (.string matchDomain) else dns.erase .domainName).lookup
      .searchOrder = dns.lookup .searchOrder := by
    split
    · rw [Finmap.lookup_insert_of_ne _ (by decide)]
    · rw [Finmap.lookup_erase_ne (by decide)]
  unfold matchResolver
  dsimp only
  rw [named]
  cases there : matchOrder order with
  | some order => rfl
  | none => rw [if_neg (given.resolve_right fun other => other there),if_neg (given.resolve_right fun other => other there)]

private theorem matchResolvers_ordered {serviceID : CFString} {isScoped : Bool} {orders : Option (List Atom)}
    (domains : List Atom)
    (i : Nat) (given : dns.lookup .searchOrder ≠ none ∨
      ∀ (j : Nat) text, domains[j]? = some (Atom.string text) → matchOrder (orders.bind (·[i + j]?)) ≠ none)
    (defaultOrder defaultOrder' : BitVec 32) :
    matchResolvers serviceID dns isScoped orders domains i defaultOrder =
      matchResolvers serviceID dns isScoped orders domains i defaultOrder' := by
  induction domains generalizing i defaultOrder defaultOrder' with
  | nil => rfl
  | cons domain domains ih =>
    have later := ih (i+1) (given.imp_right fun given j text here => by
      have place : i + (j+1) = i + 1 + j := by omega
      exact place ▸ given (j+1) text here)
    cases domain with
    | string matchDomain =>
      have first : dns.lookup .searchOrder ≠ none ∨ matchOrder (orders.bind (·[i]?)) ≠ none :=
        given.imp_right fun given => given 0 matchDomain rfl
      rw [matchResolvers,matchResolvers,matchResolver_ordered first defaultOrder defaultOrder']
      exact congrArg _ (later _ _)
    | number n => exact later _ _
    | real id => exact later _ _
    | boolean b => exact later _ _
    | other id => exact later _ _

private theorem supplementalResolvers_ordered (given : OrdersGiven dns) (serviceID : CFString) (isScoped : Bool)
    (defaultOrder defaultOrder' : BitVec 32) :
    supplementalResolvers serviceID dns defaultOrder isScoped = supplementalResolvers serviceID dns defaultOrder' isScoped := by
  unfold supplementalResolvers
  split
  · rename_i domains orders found
    refine matchResolvers_ordered domains 0 (given.imp_right fun given j text here => ?_) _ _
    rw [Nat.zero_add]
    exact given domains orders found j text here
  · rfl

private theorem matchResolvers_empty {serviceID : CFString} {isScoped : Bool} {orders : Option (List Atom)}
    (domains : List Atom)
    (none_ : ∀ text, Atom.string text ∉ domains) (i : Nat) (defaultOrder : BitVec 32) :
    matchResolvers serviceID dns isScoped orders domains i defaultOrder = [] := by
  induction domains generalizing i with
  | nil => rfl
  | cons domain domains ih =>
    have later := ih (fun text member => none_ text (List.mem_cons_of_mem _ member)) (i+1)
    cases domain with
    | string text => exact absurd List.mem_cons_self (none_ text)
    | number n => exact later
    | real id => exact later
    | boolean b => exact later
    | other id => exact later

/-- The keys that the supplemental resolvers are made from stay as they are. -/
theorem lookup_supplementalDns (made : supplementalDns scope service = some newDNS) (own : service.dns = some dns)
    {key : Key} (other : key ≠ .interfaceName) (other' : key ≠ .flags) : newDNS.lookup key = dns.lookup key := by
  unfold supplementalDns at made
  rw [own] at made
  cases scope with
  | some scope =>
    dsimp only at made
    split_ifs at made
    cases made
    rw [mergeConfigurationFlags,Finmap.lookup_insert_of_ne _ other',Finmap.lookup_insert_of_ne _ other]
  | none =>
    dsimp only at made
    split_ifs at made <;> cases made
    · rw [mergeConfigurationFlags,Finmap.lookup_insert_of_ne _ other']
    · rw [mergeConfigurationFlags,Finmap.lookup_insert_of_ne _ other']
    · rw [mergeConfigurationFlags,Finmap.lookup_insert_of_ne _ other',Finmap.lookup_erase_ne other]

private theorem supplementalDomains_congr
    (domains : newDNS.lookup .supplementalMatchDomains = dns.lookup .supplementalMatchDomains)
    (servers : newDNS.lookup .serverAddresses = dns.lookup .serverAddresses)
    (orders : newDNS.lookup .supplementalMatchOrders = dns.lookup .supplementalMatchOrders) :
    supplementalDomains newDNS = supplementalDomains dns := by
  unfold supplementalDomains
  rw [domains,servers,orders]

private theorem supplementalDomains_supplementalDns (made : supplementalDns scope service = some newDNS)
    (own : service.dns = some dns) : supplementalDomains newDNS = supplementalDomains dns :=
  supplementalDomains_congr (lookup_supplementalDns made own (by decide) (by decide))
    (lookup_supplementalDns made own (by decide) (by decide)) (lookup_supplementalDns made own (by decide) (by decide))

private theorem own_of_supplementalDns (made : supplementalDns scope service = some newDNS) :
    ∃ dns, service.dns = some dns := by
  unfold supplementalDns at made
  split at made
  · cases made
  · exact ⟨_,by assumption⟩
  · exact ⟨_,by assumption⟩

def Service.Ordered (service : Service) : Prop := ∀ dns, service.dns = some dns → OrdersGiven dns

private theorem serviceSupplementals_empty (none_ : ¬ service.Supplements) (count i : Nat) (serviceID : CFString) :
    serviceSupplementals scope serviceOrder count ((serviceID,service),i) = [] := by
  unfold serviceSupplementals
  dsimp only
  cases made : supplementalDns scope service with
  | none => rfl
  | some newDNS =>
    dsimp only
    obtain ⟨dns,own⟩ := own_of_supplementalDns made
    unfold supplementalResolvers
    rw [supplementalDomains_supplementalDns made own]
    split
    · rename_i domains orders found
      exact matchResolvers_empty domains (fun text member => none_ ⟨dns,domains,orders,text,own,found,member⟩) _ _
    · rfl

/-- What a service adds does not depend on its place, if it has orders. -/
theorem serviceSupplementals_ordered (ordered : service.Supplements → service.Ordered) (count i j : Nat)
    (serviceID : CFString) :
    serviceSupplementals scope serviceOrder count ((serviceID,service),i) =
      serviceSupplementals scope serviceOrder count ((serviceID,service),j) := by
  by_cases supplements : service.Supplements
  · unfold serviceSupplementals
    dsimp only
    cases made : supplementalDns scope service with
    | none => rfl
    | some newDNS =>
      dsimp only
      obtain ⟨dns,own⟩ := own_of_supplementalDns made
      have given : OrdersGiven newDNS := by
        unfold OrdersGiven
        rw [supplementalDomains_supplementalDns made own,lookup_supplementalDns made own (by decide) (by decide)]
        exact ordered supplements dns own
      exact supplementalResolvers_ordered given _ _ _ _
  · rw [serviceSupplementals_empty supplements,serviceSupplementals_empty supplements]

private theorem zipIdx_flatMap_const {α β : Type} (list : List α) (f : α × Nat → List β) (k : Nat)
    (fixed : ∀ a ∈ list, ∀ i, f (a,i) = f (a,0)) : (list.zipIdx k).flatMap f = list.flatMap fun a => f (a,0) := by
  induction list generalizing k with
  | nil => rfl
  | cons a list ih =>
    obtain ⟨first,fixed⟩ := List.forall_mem_cons.mp fixed
    rw [List.zipIdx_cons,List.flatMap_cons,List.flatMap_cons,first k,ih (k+1) fixed]

/-- With orders the resolvers of the services follow each other as the services do. -/
theorem allSupplementals_ordered (scope : Option Scope) (serviceOrder : List CFString)
    (ordered : ∀ entry ∈ services, entry.2.Supplements → entry.2.Ordered) :
    allSupplementals scope services serviceOrder =
      services.flatMap fun entry => serviceSupplementals scope serviceOrder services.length (entry,0) :=
  zipIdx_flatMap_const _ _ _ fun entry member i => serviceSupplementals_ordered (ordered entry member) _ i 0 entry.1

/-! ## First come, first served -/

/-- The interface of a service, and what the service adds for it. -/
def scopedOffer (system : System) (services : Services) (serviceOrder : List CFString) (serviceID : CFString) :
    Option (Value × List CFDictionary) :=
  (services.lookup serviceID).bind fun service => (scopedInterface service).map fun found =>
    (found.2,scopedGroup system services serviceOrder serviceID service found.1 found.2)

theorem scopedResolvers_eq (system : System) (services : Services) (serviceOrder order : List CFString)
    (seen : List Value) :
    scopedResolvers system services serviceOrder order seen =
      firstCome (scopedOffer system services serviceOrder) order seen := by
  induction order generalizing seen with
  | nil => rfl
  | cons serviceID order ih =>
    rw [scopedResolvers,firstCome,scopedOffer]
    cases found : services.lookup serviceID with
    | none => exact ih seen
    | some service =>
      cases interface : scopedInterface service with
      | none =>
        simp only [Option.bind_some,interface,Option.map_none]
        exact ih seen
      | some pair =>
        simp only [Option.bind_some,interface,Option.map_some,ih]

/-- The identifier of a service, and what the service adds for it. -/
def specificOffer (sort : ArraySort CFDictionary) (entry : CFString × Service) : Option (Value × List CFDictionary) :=
  (serviceIdentifier entry.2).map fun found => (found.2,serviceResolvers sort entry.1 found.1)

theorem serviceSpecificResolvers_eq (sort : ArraySort CFDictionary) (services : Services) (seen : List Value) :
    serviceSpecificResolvers sort services seen = firstCome (specificOffer sort) services seen := by
  induction services generalizing seen with
  | nil => rfl
  | cons entry services ih =>
    rw [serviceSpecificResolvers,firstCome,specificOffer]
    cases found : serviceIdentifier entry.2 with
    | none => exact ih seen
    | some pair => simp only [Option.map_some,ih]

theorem scopedOrder_eq (distinct : (services.map Prod.fst).Nodup) (serviceOrder : List CFString) :
    scopedOrder services serviceOrder = serviceOrder ++ (services.map Prod.fst).filter (· ∉ serviceOrder) := by
  unfold scopedOrder
  induction services generalizing serviceOrder with
  | nil => exact (List.append_nil _).symm
  | cons entry services ih =>
    obtain ⟨outside,distinct⟩ := List.nodup_cons.mp distinct
    rw [List.foldl_cons,List.map_cons]
    by_cases known : entry.1 ∈ serviceOrder
    · rw [if_pos known,ih distinct,List.filter_cons_of_neg (by simpa using known)]
    · rw [if_neg known,ih distinct,List.filter_cons_of_pos (by simpa using known),List.append_assoc]
      refine congrArg _ (congrArg _ (List.filter_congr fun serviceID member => ?_))
      have other : serviceID ≠ entry.1 := fun same => outside (same ▸ member)
      simp [other]

/-! ## Services that do not depend on their order -/

def interfaceOf (service : Service) : Option Value := (scopedInterface service).map Prod.snd

/-- The interface has been seen before the services that have no order. -/
def orderedInterfaces (services : Services) (serviceOrder : List CFString) : List Value :=
  serviceOrder.filterMap fun serviceID => (services.lookup serviceID).bind interfaceOf

/-- A service without an order for an interface that no service with an order has. -/
def Late (services : Services) (serviceOrder : List CFString) (entry : CFString × Service) (interface : Value) : Prop :=
  entry ∈ services ∧ entry.1 ∉ serviceOrder ∧ interfaceOf entry.2 = some interface ∧
    interface ∉ orderedInterfaces services serviceOrder

def Gives (system : System) (service : Service) (interface : Value) : Prop :=
  interfaceIndex system.ifNameToIndex interface ≠ 0 ∧ dnsResolverFlagsService service 0 ≠ 0

/-- Each pass has at most one service that adds resolvers as the services are enumerated,
with orders of its own, and no service is before another one for the same interface. -/
structure Settled (system : System) (services : Services) (serviceOrder : List CFString) : Prop where
  ordered : ∀ entry ∈ services, entry.2.Supplements → entry.2.Ordered
  supplemental : ∀ entry ∈ services, ∀ entry' ∈ services, entry.2.Supplements → entry'.2.Supplements → entry = entry'
  scoped_ : ∀ entry entry' interface interface', Late services serviceOrder entry interface →
    Late services serviceOrder entry' interface' → entry ≠ entry' → Gives system entry.2 interface →
      ¬ Gives system entry'.2 interface' ∧ interface ≠ interface'
  specific : ∀ entry ∈ services, ∀ entry' ∈ services, serviceIdentifier entry.2 ≠ none →
    serviceIdentifier entry'.2 ≠ none → entry = entry'

private theorem scopedGroup_eq_nil {serviceID : CFString} {interface : Value} (none_ : ¬ Gives system service interface) :
    scopedGroup system services serviceOrder serviceID service dns interface = [] := by
  unfold scopedGroup
  rw [Gives,not_and_or,not_not,not_not] at none_
  rcases none_ with none_ | none_
  · rw [if_pos none_]
  · rw [if_pos none_,ite_self]

theorem scopedOffer_eq_some {serviceID : CFString} {interface : Value} {given : List CFDictionary}
    (distinct : (services.map Prod.fst).Nodup)
    (offers : scopedOffer system services serviceOrder serviceID = some (interface,given)) :
    ∃ service, (serviceID,service) ∈ services ∧ interfaceOf service = some interface ∧
      (given ≠ [] → Gives system service interface) := by
  obtain ⟨service,found,offers⟩ := Option.bind_eq_some_iff.mp offers
  obtain ⟨pair,interfaced,made⟩ := Option.map_eq_some_iff.mp offers
  cases made
  refine ⟨service,(lookup_iff_mem distinct _ _).mp found,by rw [interfaceOf,interfaced]; rfl,fun some_ => ?_⟩
  by_contra none_
  exact some_ (scopedGroup_eq_nil none_)

theorem filterMap_scopedOffer (system : System) (services : Services) (serviceOrder order : List CFString) :
    order.filterMap (fun serviceID => (scopedOffer system services serviceOrder serviceID).map Prod.fst) =
      orderedInterfaces services order := by
  refine List.filterMap_congr fun serviceID _ => ?_
  unfold scopedOffer interfaceOf
  cases services.lookup serviceID with
  | none => rfl
  | some service =>
    simp only [Option.bind_some,Option.map_map]
    rfl

section Permuted

variable (perm : services.Perm services') (distinct : (services.map Prod.fst).Nodup)
include perm distinct

private theorem allSupplementals_perm (settled : Settled system services serviceOrder) (scope : Option Scope) :
    allSupplementals scope services serviceOrder = allSupplementals scope services' serviceOrder := by
  have ordered' : ∀ entry ∈ services', entry.2.Supplements → entry.2.Ordered :=
    fun entry member => settled.ordered entry (perm.mem_iff.mpr member)
  rw [allSupplementals_ordered scope serviceOrder settled.ordered,allSupplementals_ordered scope serviceOrder ordered',
    perm.length_eq]
  refine flatMap_of_single perm distinct.of_map fun entry member entry' member' gives gives' => ?_
  refine settled.supplemental entry member entry' member' ?_ ?_
  · by_contra none_
    exact gives (serviceSupplementals_empty none_ _ _ _)
  · by_contra none_
    exact gives' (serviceSupplementals_empty none_ _ _ _)

private theorem scopedOffer_perm (settled : Settled system services serviceOrder) :
    scopedOffer system services serviceOrder = scopedOffer system services' serviceOrder := by
  funext serviceID
  unfold scopedOffer
  rw [lookup_perm perm distinct]
  refine congrArg _ (funext fun service => congrArg (Option.map · _) (funext fun found => ?_))
  unfold scopedGroup
  rw [allSupplementals_perm perm distinct settled]

private theorem scopedResolvers_perm (settled : Settled system services serviceOrder) :
    scopedResolvers system services serviceOrder (scopedOrder services serviceOrder) [] =
      scopedResolvers system services' serviceOrder (scopedOrder services' serviceOrder) [] := by
  have distinct' := (perm.map Prod.fst).nodup_iff.mp distinct
  rw [scopedResolvers_eq,scopedResolvers_eq,← scopedOffer_perm perm distinct settled,scopedOrder_eq distinct,
    scopedOrder_eq distinct',firstCome_append,firstCome_append]
  refine congrArg _ (firstCome_perm ((perm.map Prod.fst).filter _) (distinct.filter _) ?_)
  intro a member b member' apart interface given interface' given' offers offers' unseen unseen' gives
  rw [List.append_nil,filterMap_scopedOffer] at unseen unseen'
  have outside := of_decide_eq_true (List.mem_filter.mp member).2
  have outside' := of_decide_eq_true (List.mem_filter.mp member').2
  obtain ⟨service,here,interfaced,gives_⟩ := scopedOffer_eq_some distinct offers
  obtain ⟨service',here',interfaced',gives_'⟩ := scopedOffer_eq_some distinct offers'
  have other : (a,service) ≠ (b,service') := fun same => apart (Prod.mk.inj same).1
  obtain ⟨none_,differ⟩ := settled.scoped_ (a,service) (b,service') interface interface'
    ⟨here,outside,interfaced,unseen⟩ ⟨here',outside',interfaced',unseen'⟩ other (gives_ gives)
  exact ⟨by_contra fun some_ => none_ (gives_' some_),differ⟩

private theorem serviceSpecificResolvers_perm (settled : Settled system services serviceOrder) :
    serviceSpecificResolvers system.sort services [] = serviceSpecificResolvers system.sort services' [] := by
  rw [serviceSpecificResolvers_eq,serviceSpecificResolvers_eq]
  refine firstCome_perm perm distinct.of_map fun entry member entry' member' apart key given key' given' offers offers' => ?_
  obtain ⟨found,identified,_⟩ := Option.map_eq_some_iff.mp offers
  obtain ⟨found',identified',_⟩ := Option.map_eq_some_iff.mp offers'
  exact absurd (settled.specific entry member entry' member' (by rw [identified]; simp) (by rw [identified']; simp)) apart

end Permuted

/-! ## The flag in the dictionary of a service -/

def markedServices (services : Services) : Services := services.map fun service => (service.1,service.2.marked)

private theorem lookup_marked (own : service.dns = some dns) :
    ∃ dns', service.marked.dns = some dns' ∧ ∀ key, key ≠ .flags → dns'.lookup key = dns.lookup key := by
  refine ⟨if dns.lookup .interfaceName = none then mergeConfigurationFlags dns DNS_RESOLVER_FLAGS_SUPPLEMENTAL else dns,
    by rw [Service.marked,own]; rfl,fun key other => ?_⟩
  split
  · rw [mergeConfigurationFlags,Finmap.lookup_insert_of_ne _ other]
  · rfl

/-- A service has no DNS dictionary, or one that stays the same in all but its flags. -/
theorem marked_cases (service : Service) :
    service.dns = none ∧ service.marked.dns = none ∨ ∃ dns dns', service.dns = some dns ∧
      service.marked.dns = some dns' ∧ (∀ key, key ≠ .flags → dns'.lookup key = dns.lookup key) ∧
        supplementalDomains dns' = supplementalDomains dns := by
  cases own : service.dns with
  | none => exact .inl ⟨rfl,by rw [Service.marked,own]; rfl⟩
  | some dns =>
    obtain ⟨dns',own',same⟩ := lookup_marked own
    exact .inr ⟨dns,dns',rfl,own',same,supplementalDomains_congr (same _ (by decide)) (same _ (by decide)) (same _ (by decide))⟩

private theorem supplements_marked (service : Service) : service.marked.Supplements → service.Supplements := by
  rintro ⟨dns',domains,orders,text,own',found,member⟩
  rcases marked_cases service with ⟨_,none_⟩ | ⟨dns,dns'',own,own'',_,domains_⟩
  · rw [none_] at own'
    cases own'
  · rw [own''] at own'
    cases own'
    exact ⟨dns,domains,orders,text,own,domains_ ▸ found,member⟩

private theorem ordered_marked (ordered : service.Ordered) : service.marked.Ordered := by
  intro dns' own'
  rcases marked_cases service with ⟨_,none_⟩ | ⟨dns,dns'',own,own'',same,domains⟩
  · rw [none_] at own'
    cases own'
  · rw [own''] at own'
    cases own'
    unfold OrdersGiven
    rw [domains,same _ (by decide)]
    exact ordered dns own

theorem interfaceOf_marked (service : Service) : interfaceOf service.marked = interfaceOf service := by
  unfold interfaceOf scopedInterface
  rcases marked_cases service with ⟨none_,none_'⟩ | ⟨dns,dns',own,own',same,_⟩
  · rw [none_,none_']
  · rw [own,own']
    simp only [same .serverAddresses (by decide),same .interfaceName (by decide),same .serviceIdentifier (by decide)]
    split_ifs
    · rfl
    · cases dns.lookup .interfaceName with
      | none => rfl
      | some interface =>
        dsimp only
        split_ifs <;> rfl

theorem serviceIdentifier_marked (identified : serviceIdentifier service.marked ≠ none) :
    serviceIdentifier service ≠ none := by
  unfold serviceIdentifier at identified ⊢
  rcases marked_cases service with ⟨none_,none_'⟩ | ⟨dns,dns',own,own',same,_⟩
  · rw [none_'] at identified
    exact absurd rfl identified
  · rw [own'] at identified
    rw [own]
    simp only [Option.bind_some,same .serviceIdentifier (by decide)] at identified ⊢
    split at identified <;> simp_all

theorem lookup_markedServices (services : Services) (serviceID : CFString) :
    (markedServices services).lookup serviceID = (services.lookup serviceID).map Service.marked := by
  induction services with
  | nil => rfl
  | cons entry services ih =>
    rw [markedServices,List.map_cons,List.lookup_cons,List.lookup_cons]
    cases serviceID == entry.1 with
    | true => rfl
    | false => exact ih

theorem orderedInterfaces_marked (services : Services) (serviceOrder : List CFString) :
    orderedInterfaces (markedServices services) serviceOrder = orderedInterfaces services serviceOrder := by
  refine List.filterMap_congr fun serviceID _ => ?_
  rw [lookup_markedServices]
  cases services.lookup serviceID with
  | none => rfl
  | some service => exact interfaceOf_marked service

theorem Settled.marked (settled : Settled system services serviceOrder) :
    Settled system (markedServices services) serviceOrder := by
  have late (entry : CFString × Service) (interface : Value)
      (late : Late (markedServices services) serviceOrder entry interface) :
      ∃ service, entry = (entry.1,service.marked) ∧ Late services serviceOrder (entry.1,service) interface := by
    obtain ⟨member,outside,interfaced,unseen⟩ := late
    obtain ⟨entry',member',rfl⟩ := List.mem_map.mp member
    rw [interfaceOf_marked] at interfaced
    rw [orderedInterfaces_marked] at unseen
    exact ⟨entry'.2,rfl,member',outside,interfaced,unseen⟩
  refine ⟨?_,?_,?_,?_⟩
  · intro entry member supplements
    obtain ⟨entry',member',rfl⟩ := List.mem_map.mp member
    exact ordered_marked (settled.ordered entry' member' (supplements_marked _ supplements))
  · intro entry member entry' member' supplements supplements'
    obtain ⟨first,here,rfl⟩ := List.mem_map.mp member
    obtain ⟨second,here',rfl⟩ := List.mem_map.mp member'
    rw [settled.supplemental first here second here' (supplements_marked _ supplements) (supplements_marked _ supplements')]
  · intro entry entry' interface interface' first second apart gives
    obtain ⟨service,same,first⟩ := late entry interface first
    obtain ⟨service',same',second⟩ := late entry' interface' second
    rw [same] at gives
    obtain ⟨none_,differ⟩ := settled.scoped_ _ _ interface interface' first second
      (fun equal => apart (by rw [same,same',(Prod.mk.inj equal).1,(Prod.mk.inj equal).2])) gives
    rw [same']
    exact ⟨none_,differ⟩
  · intro entry member entry' member' identified identified'
    obtain ⟨first,here,rfl⟩ := List.mem_map.mp member
    obtain ⟨second,here',rfl⟩ := List.mem_map.mp member'
    rw [settled.specific first here second here' (serviceIdentifier_marked identified) (serviceIdentifier_marked identified')]

/-! ## The configuration -/

theorem markedServices_keys (services : Services) : (markedServices services).map Prod.fst = services.map Prod.fst := by
  rw [markedServices,List.map_map]
  rfl

theorem defaultServers_perm (perm : services.Perm services') (distinct : (services.map Prod.fst).Nodup)
    (defaultResolver : Option DefaultResolver) :
    defaultServers services defaultResolver = defaultServers services' defaultResolver := by
  unfold defaultServers
  cases defaultResolver with
  | none => rfl
  | some default =>
    cases default with
    | own dns => rfl
    | ofService serviceID =>
      dsimp only
      rw [lookup_perm perm distinct]

private theorem dnsResolverFlagsService_or (service : Service) (flags : BitVec 32) :
    dnsResolverFlagsService service flags = flags ||| dnsResolverFlagsService service 0 := by
  unfold dnsResolverFlagsService
  simp [BitVec.or_assoc]

private theorem defaultResolverFlags_perm (perm : services.Perm services') :
    defaultResolverFlags services = defaultResolverFlags services' := by
  have round (entry : CFString × Service) (flags : BitVec 32) :
      (if entry.2.scopedOnly then flags else dnsResolverFlagsService entry.2 flags) =
        flags ||| (if entry.2.scopedOnly then 0 else dnsResolverFlagsService entry.2 0) := by
    split
    · simp
    · exact dnsResolverFlagsService_or ..
  unfold defaultResolverFlags
  refine List.Perm.foldl_eq' perm ?_ 0
  intro entry _ entry' _ flags
  simp only [round entry (_ ||| _),round entry' (_ ||| _),round _ flags]
  ac_rfl

/-- The lists that are collected are the same, with the numbers of their resolvers. -/
theorem collectResolvers_perm (perm : services.Perm services') (distinct : (services.map Prod.fst).Nodup)
    (settled : Settled system services configuration.serviceOrder) :
    collectResolvers system services configuration = collectResolvers system services' configuration ∧
      collectedDefault system services configuration = collectedDefault system services' configuration := by
  have markedPerm : (markedServices services).Perm (markedServices services') := perm.map _
  have markedDistinct : ((markedServices services).map Prod.fst).Nodup := (markedServices_keys services).symm ▸ distinct
  have supplementary : supplementaryList system services configuration = supplementaryList system services' configuration := by
    unfold supplementaryList
    rw [allSupplementals_perm perm distinct settled]
  have default : collectedDefault system services configuration = collectedDefault system services' configuration := by
    have servers := defaultServers_perm markedPerm markedDistinct configuration.defaultResolver
    unfold markedServices at servers
    unfold collectedDefault
    rw [supplementary,servers]
  have later : laterResolvers system services configuration = laterResolvers system services' configuration := by
    have scoped_ := scopedResolvers_perm markedPerm markedDistinct settled.marked
    have specific := serviceSpecificResolvers_perm markedPerm markedDistinct settled.marked
    unfold markedServices at scoped_ specific
    unfold laterResolvers
    dsimp only
    rw [scoped_,specific]
  refine ⟨?_,default⟩
  unfold collectResolvers
  rw [supplementary,default,later]

theorem mergedResolver_perm (perm : services.Perm services') : mergedResolver services = mergedResolver services' := by
  funext resolver
  unfold mergedResolver
  rw [defaultResolverFlags_perm perm]

theorem dnsConfiguration_settled (perm : services.Perm services') (distinct : (services.map Prod.fst).Nodup)
    (collate : Collation) (settled : Settled system services configuration.serviceOrder) :
    dnsConfiguration system collate services configuration = dnsConfiguration system collate services' configuration := by
  have markedPerm : (markedServices services).Perm (markedServices services') := perm.map _
  have markedDistinct : ((markedServices services).map Prod.fst).Nodup := (markedServices_keys services).symm ▸ distinct
  obtain ⟨collected,default⟩ := collectResolvers_perm perm distinct settled
  have servers := defaultServers_perm markedPerm markedDistinct configuration.defaultResolver
  have merged := mergedResolver_perm markedPerm
  unfold markedServices at servers merged
  unfold dnsConfiguration
  dsimp only
  rw [collected,default,servers,merged]

end FreebsdLaunchd.DnsConfiguration
