import FreebsdLaunchd.DnsConfiguration.Sequence

/-! The configuration is the same in whichever order the services are enumerated, if
their resolvers do not depend on it or the sort makes up for it. -/
namespace FreebsdLaunchd.DnsConfiguration
open ArraySorting Enumerations

variable {system : System} {services services' : Services} {configuration : Configuration} {collate : Collation}
  {ifNameToIndex : CFString → BitVec 32} {a b : CFDictionary}

/-! ## Contents -/

/-- What a resolver is made of: its dictionary without its number in the list. -/
def contents (resolvers : Option (List CFDictionary)) : Option (List CFDictionary) :=
  resolvers.map fun resolvers => resolvers.map fun resolver => resolver.erase .order

def SameContent (a b : CFDictionary) : Prop := a.erase .order = b.erase .order

private theorem sameContent_iff : SameContent a b ↔ ∀ key, key ≠ .order → a.lookup key = b.lookup key := by
  constructor
  · intro same key other
    rw [← Finmap.lookup_erase_ne other,same,Finmap.lookup_erase_ne other]
  · intro same
    refine Finmap.ext_lookup fun key => ?_
    by_cases number_ : key = .order
    · rw [number_,Finmap.lookup_erase,Finmap.lookup_erase]
    · rw [Finmap.lookup_erase_ne number_,Finmap.lookup_erase_ne number_,same key number_]

theorem SameContent.insert (same : SameContent a b) (key : Key) (value : Value) :
    SameContent (a.insert key value) (b.insert key value) := by
  rw [sameContent_iff] at same ⊢
  intro key' other
  by_cases equal : key' = key
  · rw [equal,Finmap.lookup_insert,Finmap.lookup_insert]
  · rw [Finmap.lookup_insert_of_ne _ equal,Finmap.lookup_insert_of_ne _ equal,same key' other]

theorem SameContent.erase (same : SameContent a b) (key : Key) : SameContent (a.erase key) (b.erase key) := by
  rw [sameContent_iff] at same ⊢
  intro key' other
  by_cases equal : key' = key
  · rw [equal,Finmap.lookup_erase,Finmap.lookup_erase]
  · rw [Finmap.lookup_erase_ne equal,Finmap.lookup_erase_ne equal,same key' other]

theorem SameContent.merged (same : SameContent a b) (services : Services) :
    SameContent (mergedResolver services a) (mergedResolver services b) := by
  have flags := sameContent_iff.mp same .flags (by decide)
  unfold mergedResolver needsMergeWithDefaultConfiguration mergeConfigurationFlags
  rw [flags]
  split
  · exact same.insert ..
  · exact same

private theorem sameContent_bookkept (i j : Nat) :
    SameContent (bookkept ifNameToIndex i a) (bookkept ifNameToIndex j a) := by
  have numbered : SameContent (a.insert .order (.number i)) (a.insert .order (.number j)) := by
    rw [sameContent_iff]
    intro key other
    rw [Finmap.lookup_insert_of_ne _ other,Finmap.lookup_insert_of_ne _ other]
  have interface := sameContent_iff.mp numbered .interfaceName (by decide)
  have uses : usesInterface (a.insert .order (.number i)) = usesInterface (a.insert .order (.number j)) := by
    unfold usesInterface
    rw [sameContent_iff.mp numbered .flags (by decide),sameContent_iff.mp numbered .scopedQuery (by decide)]
  unfold bookkept
  dsimp only
  rw [interface,uses]
  split
  · split
    · exact numbered.insert ..
    · exact numbered
  · exact numbered

private theorem sameContent_place (passed passed' : List CFDictionary) (c : CFDictionary) :
    SameContent (place ifNameToIndex passed c) (place ifNameToIndex passed' c) := sameContent_bookkept _ _

/-! ## From the sorted list on -/

private theorem emptyResolver_place (passed : List CFDictionary) (c : CFDictionary) :
    emptyResolver (place ifNameToIndex passed c) = emptyResolver c := by
  unfold emptyResolver
  simp only [lookup_place passed (show Key.domainName ≠ .order by decide) (by decide),
    lookup_place passed (show Key.searchDomains ≠ .order by decide) (by decide),
    lookup_place passed (show Key.serverAddresses ≠ .order by decide) (by decide)]

private theorem cleanedUp_place (passed : List CFDictionary) (first : CFDictionary) (rest : List CFDictionary) :
    cleanedUp ((first::rest).map (place ifNameToIndex passed)) = place ifNameToIndex passed first ::
      (rest.filter fun resolver => !emptyResolver resolver).map (place ifNameToIndex passed) := by
  rw [List.map_cons,cleanedUp,List.filter_map]
  refine congrArg _ (congrArg _ (List.filter_congr fun c _ => ?_))
  rw [Function.comp,emptyResolver_place]

private theorem followed_place (passed passed' rest : List CFDictionary) :
    followed (rest.map (place ifNameToIndex passed)) = followed (rest.map (place ifNameToIndex passed')) := by
  cases rest with
  | nil => rfl
  | cons first rest =>
    unfold followed place
    simp only [List.map_cons,List.head?_cons,Option.any_some,isScopedConfiguration_bookkept,
      lookup_bookkept _ (show Key.domainName ≠ .order by decide) (show Key.domainName ≠ .ifIndex by decide)]

theorem SameContent.updated (same : SameContent a b) (myOrderAdded : Bool) (mySearchDomains : Option (List CFString))
    {rest rest' : List CFDictionary} (follows : followed rest = followed rest') :
    SameContent (updatedDefault myOrderAdded mySearchDomains rest a)
      (updatedDefault myOrderAdded mySearchDomains rest' b) := by
  unfold updatedDefault
  dsimp only
  rw [follows]
  cases mySearchDomains with
  | none =>
    dsimp only
    split
    · exact same.erase _
    · exact same
  | some searchDomains =>
    dsimp only
    split
    · exact (same.insert ..).erase _
    · exact same.insert ..

/-- Lists that are sorted in one order give configurations with the same contents. -/
theorem contents_of_sorted (perm : services.Perm services') (distinct : (services.map Prod.fst).Nodup)
    (searchDomains : (collectedDefault system services configuration).1 = (collectedDefault system services' configuration).1)
    {order passed passed' : List CFDictionary}
    (sorted : sortedResolvers system.sort collate (collectResolvers system services configuration) =
      order.map (place system.ifNameToIndex passed))
    (sorted' : sortedResolvers system.sort collate (collectResolvers system services' configuration) =
      order.map (place system.ifNameToIndex passed')) :
    contents (dnsConfiguration system collate services configuration) =
      contents (dnsConfiguration system collate services' configuration) := by
  have markedPerm : (markedServices services).Perm (markedServices services') := perm.map _
  have markedDistinct : ((markedServices services).map Prod.fst).Nodup := (markedServices_keys services).symm ▸ distinct
  have servers := defaultServers_perm markedPerm markedDistinct configuration.defaultResolver
  have merged := mergedResolver_perm markedPerm
  unfold markedServices at servers merged
  unfold dnsConfiguration
  dsimp only
  rw [sorted,sorted',searchDomains,servers,merged]
  cases order with
  | nil => rfl
  | cons first rest =>
    rw [cleanedUp_place,cleanedUp_place]
    generalize rest.filter (fun resolver => !emptyResolver resolver) = rest
    simp only [List.map_eq_nil_iff]
    split
    · rfl
    · refine congrArg some ?_
      simp only [List.map_cons]
      refine List.cons_eq_cons.mpr ⟨?_,?_⟩
      · exact ((sameContent_place passed passed' first).updated _ _ (followed_place passed passed' rest)).merged _
      · rw [List.map_map,List.map_map,List.map_map,List.map_map]
        exact List.map_congr_left fun c _ => (sameContent_place passed passed' c).merged _

/-! ## What is passed in -/

/-- The resolvers for general queries that are collected before the default one. -/
def generalResolvers (system : System) (services : Services) (configuration : Configuration) : List CFDictionary :=
  allSupplementals none services configuration.serviceOrder ++
    privateResolversOf system.pdnsTimeout configuration.privateResolvers

def plainResolvers (system : System) (services : Services) (configuration : Configuration) : List CFDictionary :=
  generalResolvers system services configuration ++ (collectedDefault system services configuration).2 ::
    multicastResolversOf system.mdnsTimeout configuration.multicastResolvers

private theorem plainResolvers_signed (distinct : (services.map Prod.fst).Nodup) :
    (plainResolvers system services configuration).Pairwise fun a b => identity a ≠ identity b := by
  obtain ⟨supplements,begins⟩ := allSupplementals_signed distinct configuration.serviceOrder
  have privates := privateResolvers_signed system.pdnsTimeout configuration.privateResolvers
  have multicasts := multicastResolvers_signed system.mdnsTimeout configuration.multicastResolvers
  have private_ := privates.begins (show _ = some 'P' by decide)
  have multicast := multicasts.begins (show _ = some 'M' by decide)
  have default : Begins 'D' (collectedDefault system services configuration).2 := ⟨_,lookup_default ..⟩
  have general : ∀ a ∈ generalResolvers system services configuration, Begins 'S' a ∨ Begins 'P' a := by
    intro a member
    exact (List.mem_append.mp member).imp (begins a) (private_ a)
  refine List.pairwise_append.mpr ⟨?_,?_,?_⟩
  · refine List.pairwise_append.mpr ⟨supplements,privates.distinct,fun a member b member' => ?_⟩
    exact (begins a member).apart (private_ b member') (by decide)
  · refine List.pairwise_cons.mpr ⟨fun b member => ?_,multicasts.distinct⟩
    exact default.apart (multicast b member) (by decide)
  · intro a member b member'
    have behind : Begins 'D' b ∨ Begins 'M' b := by
      rcases List.mem_cons.mp member' with rfl | member'
      · exact .inl default
      · exact .inr (multicast b member')
    rcases general a member with first | first <;> rcases behind with second | second <;>
      exact first.apart second (by decide)

private theorem nodup_of_signed {resolvers : List CFDictionary} (signed : resolvers.Pairwise fun a b => identity a ≠ identity b) :
    resolvers.Nodup := signed.imp fun apart same => apart (congrArg identity same)

/-- Resolvers with different signatures are listed in their places. -/
theorem foldl_addResolver_place {resolvers : List CFDictionary}
    (signed : resolvers.Pairwise fun a b => identity a ≠ identity b) :
    resolvers.foldl (addResolver ifNameToIndex) [] = resolvers.map (place ifNameToIndex resolvers) := by
  rw [foldl_addResolver_append resolvers [] signed fun _ member => absurd member List.not_mem_nil,List.nil_append,
    List.length_nil]
  exact zipIdx_map_idxOf (nodup_of_signed signed) _

private theorem supplementaryList_place (distinct : (services.map Prod.fst).Nodup) :
    supplementaryList system services configuration = (generalResolvers system services configuration).map
      (place system.ifNameToIndex (generalResolvers system services configuration)) :=
  foldl_addResolver_place (List.pairwise_append.mp (plainResolvers_signed distinct)).1

private theorem collectResolvers_place (distinct : (services.map Prod.fst).Nodup)
    (plain : laterResolvers system services configuration =
      multicastResolversOf system.mdnsTimeout configuration.multicastResolvers) :
    collectResolvers system services configuration = (plainResolvers system services configuration).map
      (place system.ifNameToIndex (plainResolvers system services configuration)) := by
  rw [← foldl_addResolver_place (plainResolvers_signed distinct),plainResolvers,List.foldl_append,collectResolvers,plain]
  rfl

/-! ## Services whose resolvers can be told apart -/

def contributed (services : Services) (serviceOrder : List CFString) (entry : CFString × Service) : List CFDictionary :=
  serviceSupplementals none serviceOrder services.length (entry,0)

structure Unscoped (system : System) (services : Services) (serviceOrder : List CFString) : Prop where
  first : ∀ before serviceID after service interface, serviceOrder = before ++ serviceID :: after →
    services.lookup serviceID = some service → interfaceOf service = some interface →
      interface ∉ orderedInterfaces services before → ¬ Gives system service interface
  late : ∀ entry interface, Late services serviceOrder entry interface → ¬ Gives system entry.2 interface
  specific : ∀ entry ∈ services, serviceIdentifier entry.2 = none

/-- Only the default resolver has no domain, and no two resolvers of different services
come out equal, in the configuration or in the search list. -/
structure Tidy (system : System) (collate : Collation) (services : Services) (configuration : Configuration) : Prop where
  ordered : ∀ entry ∈ services, entry.2.Supplements → entry.2.Ordered
  unscoped : Unscoped system services configuration.serviceOrder
  named : ∀ resolver ∈ allSupplementals none services configuration.serviceOrder, resolver.lookup .domainName ≠ none
  told : ∀ entry ∈ services, ∀ entry' ∈ services, entry ≠ entry' →
    ∀ a ∈ contributed services configuration.serviceOrder entry, ∀ b ∈ contributed services configuration.serviceOrder entry',
      criteria collate a b ≠ .eq ∧ ¬ (searchOrder a = searchOrder b ∧ Searched a ∧ Searched b)
  few : (collectResolvers system services configuration).length < 2^31

private theorem orderedInterfaces_perm (perm : services.Perm services') (distinct : (services.map Prod.fst).Nodup)
    (serviceOrder : List CFString) : orderedInterfaces services serviceOrder = orderedInterfaces services' serviceOrder := by
  unfold orderedInterfaces
  simp only [lookup_perm perm distinct]

theorem Unscoped.permuted {serviceOrder : List CFString} (unscoped : Unscoped system services serviceOrder)
    (perm : services.Perm services') (distinct : (services.map Prod.fst).Nodup) :
    Unscoped system services' serviceOrder where
  first before serviceID after service interface parts found interfaced new :=
    unscoped.first before serviceID after service interface parts ((lookup_perm perm distinct _).trans found) interfaced
      (by rwa [orderedInterfaces_perm perm distinct])
  late entry interface late :=
    unscoped.late entry interface ⟨perm.mem_iff.mpr late.1,late.2.1,late.2.2.1,
      by rw [orderedInterfaces_perm perm distinct]; exact late.2.2.2⟩
  specific entry member := unscoped.specific entry (perm.mem_iff.mpr member)

theorem Unscoped.marked {serviceOrder : List CFString} (unscoped : Unscoped system services serviceOrder) :
    Unscoped system (markedServices services) serviceOrder where
  first before serviceID after service interface parts found interfaced new := by
    rw [lookup_markedServices,Option.map_eq_some_iff] at found
    obtain ⟨service',found',rfl⟩ := found
    rw [interfaceOf_marked] at interfaced
    rw [orderedInterfaces_marked] at new
    exact unscoped.first before serviceID after service' interface parts found' interfaced new
  late entry interface late := by
    obtain ⟨member,outside,interfaced,unseen⟩ := late
    obtain ⟨entry',member',rfl⟩ := List.mem_map.mp member
    rw [interfaceOf_marked] at interfaced
    rw [orderedInterfaces_marked] at unseen
    exact unscoped.late entry' interface ⟨member',outside,interfaced,unseen⟩
  specific entry member := by
    obtain ⟨entry',member',rfl⟩ := List.mem_map.mp member
    by_contra identified
    exact serviceIdentifier_marked identified (unscoped.specific entry' member')

theorem Unscoped.scopedResolvers {serviceOrder : List CFString} (unscoped : Unscoped system services serviceOrder)
    (distinct : (services.map Prod.fst).Nodup) :
    scopedResolvers system services serviceOrder (scopedOrder services serviceOrder) [] = [] := by
  have nothing (serviceID : CFString) (interface : Value) (given : List CFDictionary)
      (offers : scopedOffer system services serviceOrder serviceID = some (interface,given))
      (none_ : ∀ service, (serviceID,service) ∈ services → interfaceOf service = some interface →
        ¬ Gives system service interface) : given = [] := by
    obtain ⟨service,member,interfaced,gives⟩ := scopedOffer_eq_some distinct offers
    exact by_contra fun some_ => none_ service member interfaced (gives some_)
  rw [scopedResolvers_eq,scopedOrder_eq distinct,firstCome_append,filterMap_scopedOffer,List.append_nil]
  refine List.append_eq_nil_iff.mpr ⟨firstCome_eq_nil _ _ ?_,firstCome_eq_nil _ _ ?_⟩
  · intro before serviceID after parts interface given offers new
    rw [filterMap_scopedOffer,List.append_nil] at new
    exact nothing serviceID interface given offers fun service member interfaced =>
      unscoped.first before serviceID after service interface parts ((lookup_iff_mem distinct _ _).mpr member) interfaced new
  · intro before serviceID after parts interface given offers new
    have inside : serviceID ∈ (services.map Prod.fst).filter (· ∉ serviceOrder) := by
      rw [parts]
      exact List.mem_append_right _ List.mem_cons_self
    exact nothing serviceID interface given offers fun service member interfaced =>
      unscoped.late (serviceID,service) interface ⟨member,of_decide_eq_true (List.mem_filter.mp inside).2,interfaced,
        fun seen => new (List.mem_append_right _ seen)⟩

theorem Unscoped.later (unscoped : Unscoped system services configuration.serviceOrder)
    (distinct : (services.map Prod.fst).Nodup) : laterResolvers system services configuration =
      multicastResolversOf system.mdnsTimeout configuration.multicastResolvers := by
  have none_ := unscoped.marked.scopedResolvers ((markedServices_keys services).symm ▸ distinct)
  have none_' : serviceSpecificResolvers system.sort (markedServices services) [] = [] := by
    rw [serviceSpecificResolvers_eq]
    refine firstCome_eq_nil _ _ fun before entry after parts key given offers _ => ?_
    have member : entry ∈ markedServices services := by
      rw [parts]
      exact List.mem_append_right _ List.mem_cons_self
    rw [specificOffer,unscoped.marked.specific entry member] at offers
    cases offers
  unfold markedServices at none_ none_'
  unfold laterResolvers
  dsimp only
  rw [none_,none_',List.append_nil,List.append_nil]

/-- The default resolver is the only one without a domain. -/
theorem singleDefault_tidy (tidy : Tidy system collate services configuration) :
    SingleDefault (plainResolvers system services configuration) := by
  have named (timeout : Option Int) (rType options domain : CFString) (order : BitVec 32) (i : Nat) :
      (optionResolver rType options order timeout domain i).lookup .domainName ≠ none := by
    unfold optionResolver addResolverSignature
    dsimp only
    cases timeout <;> simp [Finmap.lookup_insert_of_ne]
  have privates : ∀ a ∈ privateResolversOf system.pdnsTimeout configuration.privateResolvers, a.lookup .domainName ≠ none := by
    intro a member
    obtain ⟨entry,_,made⟩ := List.mem_filterMap.mp member
    obtain ⟨domain,_,rfl⟩ := Option.map_eq_some_iff.mp made
    exact named _ _ _ _ _ _
  have multicasts : ∀ a ∈ multicastResolversOf system.mdnsTimeout configuration.multicastResolvers,
      a.lookup .domainName ≠ none := by
    intro a member
    obtain ⟨entry,_,made⟩ := List.mem_filterMap.mp member
    obtain ⟨domain,_,rfl⟩ := Option.map_eq_some_iff.mp made
    exact named _ _ _ _ _ _
  have general : ∀ a ∈ generalResolvers system services configuration, a.lookup .domainName ≠ none :=
    List.forall_mem_append.mpr ⟨tidy.named,privates⟩
  have each {resolvers : List CFDictionary} (all : ∀ a ∈ resolvers, a.lookup .domainName ≠ none) : SingleDefault resolvers :=
    List.Pairwise.imp_of_mem (fun member _ _ both => all _ member both.1) (List.pairwise_of_forall fun _ _ => trivial)
  refine List.pairwise_append.mpr ⟨each general,List.pairwise_cons.mpr ⟨fun b member both => ?_,each multicasts⟩,?_⟩
  · exact multicasts b member both.2
  · exact fun a member b _ both => general a member both.1

/-! ## Two enumerations of such services -/

section Permuted

variable (perm : services.Perm services') (distinct : (services.map Prod.fst).Nodup)
include perm distinct

/-- Resolvers of one service, and those behind, keep their order. -/
theorem rearranged_of_told {serviceOrder : List CFString} {same : CFDictionary → CFDictionary → Prop} (rest : List CFDictionary)
    (ordered : ∀ entry ∈ services, entry.2.Supplements → entry.2.Ordered)
    (nodup : (allSupplementals none services serviceOrder ++ rest).Nodup)
    (few : (allSupplementals none services serviceOrder ++ rest).length < 2^31)
    (told : ∀ entry ∈ services, ∀ entry' ∈ services, entry ≠ entry' → ∀ a ∈ contributed services serviceOrder entry,
      ∀ b ∈ contributed services serviceOrder entry', ¬ same a b) :
    Rearranged same (allSupplementals none services serviceOrder ++ rest)
      (allSupplementals none services' serviceOrder ++ rest) := by
  have ordered' : ∀ entry ∈ services', entry.2.Supplements → entry.2.Ordered :=
    fun entry member => ordered entry (perm.mem_iff.mpr member)
  have flat := allSupplementals_ordered none serviceOrder ordered
  have flat' := allSupplementals_ordered none serviceOrder ordered'
  rw [← perm.length_eq] at flat'
  have perms : (allSupplementals none services serviceOrder ++ rest).Perm
      (allSupplementals none services' serviceOrder ++ rest) := by
    rw [flat,flat']
    exact (perm.flatMap_right _).append_right rest
  refine ⟨perms,nodup,few,fun a member b member' equal before => ?_⟩
  have nodup' := perms.nodup_iff.mp nodup
  rw [flat] at member member' before
  rw [flat'] at nodup' ⊢
  exact idxOf_lt_of_together perm distinct.of_map nodup' member member'
    (fun entry here entry' here' apart inside inside' => told entry here entry' here' apart a inside b inside' equal) before

private theorem collectedDefault_tidy (tidy : Tidy system collate services configuration) :
    collectedDefault system services configuration = collectedDefault system services' configuration := by
  have markedPerm : (markedServices services).Perm (markedServices services') := perm.map _
  have markedDistinct : ((markedServices services).map Prod.fst).Nodup := (markedServices_keys services).symm ▸ distinct
  have servers := defaultServers_perm markedPerm markedDistinct configuration.defaultResolver
  have signed : (plainResolvers system services configuration).Pairwise _ := plainResolvers_signed distinct
  have general := nodup_of_signed (List.pairwise_append.mp signed).1
  have few : (generalResolvers system services configuration).length < 2^31 := by
    have all := tidy.few
    rw [collectResolvers_place distinct (tidy.unscoped.later distinct),List.length_map,plainResolvers,List.length_append] at all
    omega
  have rearranged := rearranged_of_told perm distinct (privateResolversOf system.pdnsTimeout configuration.privateResolvers)
    tidy.ordered general few fun entry member entry' member' apart a inside b inside' =>
      (tidy.told entry member entry' member' apart a inside b inside').2
  have distinct' := (perm.map Prod.fst).nodup_iff.mp distinct
  have extracted (defaultDomain : CFDictionary) :
      extractSearchDomains system.sort defaultDomain (supplementaryList system services configuration) =
        extractSearchDomains system.sort defaultDomain (supplementaryList system services' configuration) := by
    rw [supplementaryList_place distinct,supplementaryList_place distinct']
    exact rearranged.extractSearchDomains system.sort defaultDomain system.ifNameToIndex
  unfold markedServices at servers
  unfold collectedDefault extractedDefault
  simp only [servers,extracted]

private theorem contents_tidy [Std.TransCmp collate] (tidy : Tidy system collate services configuration) :
    contents (dnsConfiguration system collate services configuration) =
      contents (dnsConfiguration system collate services' configuration) := by
  have distinct' := (perm.map Prod.fst).nodup_iff.mp distinct
  have default := collectedDefault_tidy perm distinct tidy
  have collected := collectResolvers_place distinct (tidy.unscoped.later distinct)
  have collected' := collectResolvers_place distinct' ((tidy.unscoped.permuted perm distinct).later distinct')
  have few := tidy.few
  rw [collected,List.length_map] at few
  have nodup : (plainResolvers system services configuration).Nodup := nodup_of_signed (plainResolvers_signed distinct)
  have rearranged : Rearranged (fun a b => criteria collate a b = .eq) (plainResolvers system services configuration)
      (plainResolvers system services' configuration) := by
    unfold plainResolvers generalResolvers at few nodup ⊢
    rw [← default]
    rw [List.append_assoc] at few nodup ⊢
    rw [List.append_assoc]
    exact rearranged_of_told perm distinct _ tidy.ordered nodup few fun entry member entry' member' apart a inside b inside' =>
      (tidy.told entry member entry' member' apart a inside b inside').1
  obtain ⟨order,sorted,sorted'⟩ := rearranged.sortedResolvers (singleDefault_tidy tidy) system.sort
    system.ifNameToIndex
  exact contents_of_sorted perm distinct (congrArg Prod.fst default) ((congrArg _ collected).trans sorted)
    ((congrArg _ collected').trans sorted')

end Permuted

/-- The configuration is the same for all enumerations of the services if there is at most
one, if each pass has one service at most that adds resolvers, or if the resolvers of
different services can be told apart. -/
theorem enumeration_independent [Std.TransCmp collate] (distinct : (services.map Prod.fst).Nodup)
    (free : services.length ≤ 1 ∨ Settled system services configuration.serviceOrder ∨
      Tidy system collate services configuration) (services' : Services) (perm : services'.Perm services) :
    contents (dnsConfiguration system collate services' configuration) =
      contents (dnsConfiguration system collate services configuration) := by
  have perm := perm.symm
  rcases free with one | settled | tidy
  · have same : services = services' := by
      match services with
      | [] => exact perm.nil_eq
      | [_] => exact List.singleton_perm.mp perm
      | _::_::_ => simp at one
    rw [same]
  · rw [dnsConfiguration_settled perm distinct collate settled]
  · exact (contents_tidy perm distinct tidy).symm

def orderedService : Service where
  dns := some ((((∅ : CFDictionary).insert .serverAddresses (.array [.string ['1']])).insert .supplementalMatchDomains
    (.array [.string ['d']])).insert .searchOrder (.number 5))

def idleService : Service where
  dns := none
  ipv4 := some true

private theorem orderedService_settled : Settled oneInterface [(['a'],orderedService),(['b'],idleService)] [] := by
  have cases_ (entry : CFString × Service) (member : entry ∈ [(['a'],orderedService),(['b'],idleService)]) :
      entry = (['a'],orderedService) ∨ entry = (['b'],idleService) := by simpa using member
  have idle : ¬ idleService.Supplements := by
    rintro ⟨dns,_,_,_,own,_⟩
    cases own
  refine ⟨?_,?_,?_,?_⟩
  · intro entry member supplements dns own
    rcases cases_ entry member with rfl | rfl
    · cases own
      exact .inl (by decide)
    · cases own
  · intro entry member entry' member' supplements supplements'
    rcases cases_ entry member with rfl | rfl
    · rcases cases_ entry' member' with rfl | rfl
      · rfl
      · exact absurd supplements' idle
    · exact absurd supplements idle
  · rintro entry entry' interface interface' ⟨member,_,interfaced,_⟩
    have none_ : interfaceOf entry.2 = none := by
      rcases cases_ entry member with rfl | rfl <;> decide
    rw [none_] at interfaced
    cases interfaced
  · intro entry member entry' member' identified
    have none_ : serviceIdentifier entry.2 = none := by
      rcases cases_ entry member with rfl | rfl <;> decide
    exact absurd none_ identified

theorem orderedService_swapped :
    contents (dnsConfiguration oneInterface caseless [(['b'],idleService),(['a'],orderedService)] {}) =
      contents (dnsConfiguration oneInterface caseless [(['a'],orderedService),(['b'],idleService)] {}) :=
  enumeration_independent (by decide) (.inr (.inl orderedService_settled)) _ (.swap ..)

/-- Of two resolvers the one without a domain is sorted to the front. -/
theorem sortedResolvers_pair [Std.TransCmp collate] (sort : ArraySort CFDictionary) (named : a.lookup .domainName ≠ none)
    (default : b.lookup .domainName = none) : sortedResolvers sort collate [a,b] = [b,a] := by
  have consistent : Consistent (compareDomain collate) [a,b] :=
    (consistent_iff _).mpr (List.pairwise_pair.mpr fun both => named both.1)
  have head := sort.head consistent (show b ∈ [a,b] by simp) fun other _ _ => compareDomain_none default other
  have perm := sort.perm (compareDomain collate) [a,b]
  rw [sortedResolvers_eq]
  generalize sort.sortValues (compareDomain collate) [a,b] = sorted at head perm
  cases sorted with
  | nil => cases head
  | cons first rest =>
    cases head
    have swapped : [a,b].Perm [b,a] := .swap ..
    rw [List.perm_singleton.mp ((List.perm_cons b).mp (perm.trans swapped))]

/-- The one service that adds a resolver is enumerated first, or second. -/
theorem splitService_enumerated :
    contents (dnsConfiguration oneInterface caseless [(['a'],splitService),(['b'],idleService)] {}) ≠
      contents (dnsConfiguration oneInterface caseless [(['b'],idleService),(['a'],splitService)] {}) := by
  have sorted (services : Services) (pair : (collectResolvers oneInterface services {}).map (·.lookup .domainName) =
      [some (.string ['d']),none]) : sortedResolvers oneInterface.sort caseless (collectResolvers oneInterface services {}) =
        (collectResolvers oneInterface services {}).reverse := by
    obtain ⟨a,rest,whole,named,behind⟩ := List.map_eq_cons_iff.mp pair
    obtain ⟨b,rest,rfl,default,nothing⟩ := List.map_eq_cons_iff.mp behind
    rw [whole,List.map_eq_nil_iff.mp nothing]
    exact sortedResolvers_pair _ (fun none_ => by rw [none_] at named; cases named) default
  unfold dnsConfiguration
  rw [sorted _ (by decide),sorted _ (by decide)]
  decide

end FreebsdLaunchd.DnsConfiguration
