import FreebsdLaunchd.DnsConfiguration.Collection
import FreebsdLaunchd.DnsConfiguration.Domains

/-! The configuration that is built from the resolvers: they are sorted, the first one
gets the search list, and the rest are passed on with their flags. -/
namespace FreebsdLaunchd.DnsConfiguration
open ArraySorting

def sortedResolvers (sort : ArraySort CFDictionary) (collate : Collation) (resolvers : List CFDictionary) :
    List CFDictionary :=
  if resolvers.length > 1 then sort.sortValues (compareDomain collate) resolvers else resolvers

def emptyResolver (resolver : CFDictionary) : Bool :=
  resolver.lookup .domainName = none ∧ resolver.lookup .searchDomains = none ∧ resolver.lookup .serverAddresses = none

/-- Empty resolvers are removed, the first one excepted. -/
def cleanedUp : List CFDictionary → List CFDictionary
  | [] => []
  | first::rest => first::rest.filter fun resolver => !emptyResolver resolver

/-- Whether the resolver behind the default one is no supplemental "default" resolver. -/
def followed (rest : List CFDictionary) : Bool :=
  rest.head?.any fun resolver => (resolver.lookup .domainName).isSome || isScopedConfiguration resolver

def updatedDefault (myOrderAdded : Bool) (mySearchDomains : Option (List CFString)) (rest : List CFDictionary)
    (first : CFDictionary) : CFDictionary :=
  let myDefault := match mySearchDomains with
    | some searchDomains => first.insert .searchDomains (.array (searchDomains.map .string))
    | none => first
  if myOrderAdded && followed rest then myDefault.erase .searchOrder else myDefault

def needsMergeWithDefaultConfiguration (dns : CFDictionary) : Bool :=
  !(sint32 (dns.lookup .flags)).any fun flags =>
    flags &&& DNS_RESOLVER_FLAGS_REQUEST_ALL_RECORDS = DNS_RESOLVER_FLAGS_REQUEST_ALL_RECORDS ∨
      flags &&& DNS_RESOLVER_FLAGS_SCOPED ≠ 0 ∨ flags &&& DNS_RESOLVER_FLAGS_SERVICE_SPECIFIC ≠ 0

/-- `add_dns_resolver_flags` applied to every service. -/
def defaultResolverFlags (services : Services) : BitVec 32 :=
  services.foldl (fun flags service => if service.2.scopedOnly then flags else dnsResolverFlagsService service.2 flags) 0

def mergedResolver (services : Services) (resolver : CFDictionary) : CFDictionary :=
  if needsMergeWithDefaultConfiguration resolver then mergeConfigurationFlags resolver (defaultResolverFlags services)
  else resolver

def defaultEntry (system : System) (services : Services) (configuration : Configuration) : CFDictionary :=
  bookkept system.ifNameToIndex (supplementaryList system services configuration).length
    (collectedDefault system services configuration).2

/-- The dictionaries that the resolvers of the configuration are made of, if there is
any but an empty default one. -/
def dnsConfiguration (system : System) (collate : Collation) (services : Services) (configuration : Configuration) :
    Option (List CFDictionary) :=
  let marked : Services := services.map fun service => (service.1,service.2.marked)
  let defaultResolver := defaultServers marked configuration.defaultResolver
  match cleanedUp (sortedResolvers system.sort collate (collectResolvers system services configuration)) with
  | [] => none
  | first::rest =>
    if defaultResolver = none ∧ rest = [] then none
    else
      let first := updatedDefault (!defaultOrdered defaultResolver) (collectedDefault system services configuration).1
        rest first
      some ((first::rest).map (mergedResolver marked))

variable {system : System} {services : Services} {configuration : Configuration} {resolvers : List CFDictionary}
  {resolver stored : CFDictionary}

/-! ## The default resolver among the others -/

/-- The resolver has a signature of another kind than the default resolver. -/
def OtherKind (resolver : CFDictionary) : Prop :=
  ∃ c text, resolver.lookup .configurationId = some (.string (c::text)) ∧ c ≠ 'D'

theorem lookup_signature (resolver : CFDictionary) (rType : CFString) (cID : Option CFString) (rIndex : Nat) :
    (addResolverSignature resolver rType cID rIndex).lookup .configurationId = some (.string (signature rType cID rIndex)) :=
  Finmap.lookup_insert ..

private theorem otherKind_signature (resolver : CFDictionary) {rType : CFString} (cID : Option CFString) (rIndex : Nat)
    (first : rType.head?.any (· ≠ 'D')) : OtherKind (addResolverSignature resolver rType cID rIndex) := by
  cases rType with
  | nil => cases first
  | cons c text => exact ⟨c,_,lookup_signature ..,by simpa using first⟩

theorem OtherKind.bookkept (other : OtherKind resolver) (ifNameToIndex : CFString → BitVec 32) (count : Nat) :
    OtherKind (bookkept ifNameToIndex count resolver) := by
  obtain ⟨c,text,named,apart⟩ := other
  exact ⟨c,text,(lookup_bookkept count (by decide) (by decide)).trans named,apart⟩

private theorem otherKind_matchResolvers (serviceID : CFString) (dns : CFDictionary) (isScoped : Bool)
    (orders : Option (List Atom)) (domains : List Atom) (i : Nat) (defaultOrder : BitVec 32) :
    ∀ resolver ∈ matchResolvers serviceID dns isScoped orders domains i defaultOrder, OtherKind resolver := by
  induction domains, i, defaultOrder using matchResolvers.induct serviceID dns isScoped orders with
  | case1 i defaultOrder => exact fun _ member => absurd member List.not_mem_nil
  | case2 matchDomain domains i defaultOrder made ih =>
    rw [matchResolvers,List.forall_mem_cons]
    refine ⟨otherKind_signature _ _ _ ?_,ih⟩
    cases isScoped <;> decide
  | case3 atom domains i defaultOrder other ih =>
    rw [matchResolvers]
    · exact ih
    · exact other

private theorem otherKind_supplementals (scope : Option Scope) (services : Services) (serviceOrder : List CFString) :
    ∀ resolver ∈ allSupplementals scope services serviceOrder, OtherKind resolver := by
  intro resolver member
  obtain ⟨entry,_,added⟩ := List.mem_flatMap.mp member
  unfold serviceSupplementals at added
  split at added
  · unfold supplementalResolvers at added
    split at added
    · exact otherKind_matchResolvers _ _ _ _ _ _ _ resolver added
    · cases added
  · cases added

private theorem otherKind_scoped (system : System) (services : Services) (serviceOrder order : List CFString)
    (seen : List Value) :
    ∀ resolver ∈ scopedResolvers system services serviceOrder order seen, OtherKind resolver := by
  induction order generalizing seen with
  | nil => exact fun _ member => absurd member List.not_mem_nil
  | cons serviceID order ih =>
    rw [scopedResolvers]
    split
    · exact ih seen
    · split
      · exact ih seen
      · rw [List.forall_mem_append]
        refine ⟨?_,ih _⟩
        unfold scopedGroup
        split_ifs
        · exact fun _ member => absurd member List.not_mem_nil
        · exact fun _ member => absurd member List.not_mem_nil
        · rw [List.forall_mem_cons]
          exact ⟨otherKind_signature _ _ _ (by decide),otherKind_supplementals _ _ _⟩

private theorem otherKind_specific (sort : ArraySort CFDictionary) (services : Services) (seen : List Value) :
    ∀ resolver ∈ serviceSpecificResolvers sort services seen, OtherKind resolver := by
  induction services generalizing seen with
  | nil => exact fun _ member => absurd member List.not_mem_nil
  | cons entry services ih =>
    obtain ⟨serviceID,service⟩ := entry
    rw [serviceSpecificResolvers]
    split
    · exact ih seen
    · split_ifs
      · exact ih seen
      · rw [List.forall_mem_append]
        refine ⟨?_,ih _⟩
        unfold serviceResolvers
        dsimp only
        split_ifs
        · rw [List.forall_mem_singleton]
          exact otherKind_signature _ _ _ (by decide)
        · simp only [List.forall_mem_cons]
          exact ⟨otherKind_signature _ _ _ (by decide),otherKind_signature _ _ _ (by decide),
            fun _ member => absurd member List.not_mem_nil⟩

private theorem otherKind_multicast (timeout : Option Int) (multicast : List Atom) :
    ∀ resolver ∈ multicastResolversOf timeout multicast, OtherKind resolver := by
  intro resolver member
  obtain ⟨entry,_,made⟩ := List.mem_filterMap.mp member
  obtain ⟨domain,_,rfl⟩ := Option.map_eq_some_iff.mp made
  exact otherKind_signature _ _ _ (by decide)

private theorem otherKind_private (timeout : Option Int) (private_ : List Atom) :
    ∀ resolver ∈ privateResolversOf timeout private_, OtherKind resolver := by
  intro resolver member
  obtain ⟨entry,_,made⟩ := List.mem_filterMap.mp member
  obtain ⟨domain,_,rfl⟩ := Option.map_eq_some_iff.mp made
  exact otherKind_signature _ _ _ (by decide)

private theorem otherKind_later (system : System) (services : Services) (configuration : Configuration) :
    ∀ resolver ∈ laterResolvers system services configuration, OtherKind resolver := by
  unfold laterResolvers
  dsimp only
  rw [List.forall_mem_append,List.forall_mem_append]
  exact ⟨⟨otherKind_multicast _ _,otherKind_scoped _ _ _ _ _⟩,otherKind_specific _ _ _⟩

/-- What is in the list after a call was there before, or was passed in. -/
theorem mem_addResolver {ifNameToIndex : CFString → BitVec 32}
    (member : stored ∈ addResolver ifNameToIndex resolvers resolver) :
    stored ∈ resolvers ∨ stored = resolver ∨ ∃ count, stored = bookkept ifNameToIndex count resolver := by
  have scanned (resolvers list : List CFDictionary) (found : scanResolvers resolver resolvers = some list) :
      ∀ stored ∈ list, stored ∈ resolvers ∨ stored = resolver := by
    induction resolvers generalizing list with
    | nil => cases found
    | cons first rest ih =>
      rw [scanResolvers] at found
      split_ifs at found
      · cases found
        exact fun _ member => .inl member
      · cases found
        intro stored member
        exact (List.mem_cons.mp member).elim .inr fun behind => .inl (List.mem_cons_of_mem _ behind)
      · cases found
        exact fun _ member => .inl member
      · obtain ⟨list',found',rfl⟩ := Option.map_eq_some_iff.mp found
        intro stored member
        rcases List.mem_cons.mp member with rfl | behind
        · exact .inl List.mem_cons_self
        · exact (ih list' found' stored behind).imp_left (List.mem_cons_of_mem _)
  unfold addResolver at member
  cases found : scanResolvers resolver resolvers with
  | none =>
    rw [found] at member
    rcases List.mem_append.mp member with before | new
    · exact .inl before
    · exact .inr (.inr ⟨_,List.mem_singleton.mp new⟩)
  | some list =>
    rw [found] at member
    exact (scanned resolvers list found stored member).imp_right .inl

/-- An entry stays in the list as long as no resolver meets it. -/
theorem mem_addResolver_of_apart {ifNameToIndex : CFString → BitVec 32} (member : stored ∈ resolvers)
    (apart : ¬ meets resolver stored) : stored ∈ addResolver ifNameToIndex resolvers resolver := by
  have scanned (resolvers list : List CFDictionary) (member : stored ∈ resolvers)
      (found : scanResolvers resolver resolvers = some list) : stored ∈ list := by
    induction resolvers generalizing list with
    | nil => cases member
    | cons first rest ih =>
      rw [scanResolvers] at found
      split_ifs at found with same differs less
      · exact Option.some.inj found ▸ member
      · have other : stored ≠ first := by
          rintro rfl
          exact apart ((Bool.or_eq_true _ _).mpr (.inr differs))
        exact Option.some.inj found ▸ List.mem_cons_of_mem _ ((List.mem_cons.mp member).resolve_left other)
      · exact Option.some.inj found ▸ member
      · obtain ⟨list',found',rfl⟩ := Option.map_eq_some_iff.mp found
        exact List.mem_cons.mpr ((List.mem_cons.mp member).imp_right fun behind => ih list' behind found')
  unfold addResolver
  cases found : scanResolvers resolver resolvers with
  | none => exact List.mem_append_left _ member
  | some list => exact scanned resolvers list member found

private theorem otherKind_foldl {ifNameToIndex : CFString → BitVec 32} (calls : List CFDictionary)
    (others : ∀ resolver ∈ calls, OtherKind resolver) (held : ∀ stored ∈ resolvers, OtherKind stored) :
    ∀ stored ∈ calls.foldl (addResolver ifNameToIndex) resolvers, OtherKind stored := by
  induction calls generalizing resolvers with
  | nil => exact held
  | cons resolver calls ih =>
    obtain ⟨first,others⟩ := List.forall_mem_cons.mp others
    refine ih others fun stored member => ?_
    rcases mem_addResolver member with before | rfl | ⟨count,rfl⟩
    · exact held stored before
    · exact first
    · exact first.bookkept ifNameToIndex count

private theorem otherKind_supplementary (system : System) (services : Services) (configuration : Configuration) :
    ∀ stored ∈ supplementaryList system services configuration, OtherKind stored := by
  refine otherKind_foldl _ ?_ fun _ member => absurd member List.not_mem_nil
  rw [List.forall_mem_append]
  exact ⟨otherKind_supplementals _ _ _,otherKind_private _ _⟩

theorem lookup_default (system : System) (services : Services) (configuration : Configuration) :
    (collectedDefault system services configuration).2.lookup .configurationId =
      some (.string (signature "Default".toList none 0)) := lookup_signature ..

/-- The default resolver meets none of the others. -/
theorem OtherKind.not_meets (other : OtherKind stored) {default : CFDictionary}
    (named : default.lookup .configurationId = some (.string (signature "Default".toList none 0))) :
    ¬ meets default stored ∧ ¬ meets stored default := by
  obtain ⟨c,text,named',apart⟩ := other
  have differs : default.lookup .configurationId ≠ stored.lookup .configurationId := by
    rw [named,named']
    intro same
    injection same with same
    injection same with same
    injection same with same
    exact apart (List.cons.inj same).1.symm
  exact ⟨fun met => differs (lookup_of_meets met (by decide)),fun met => differs (lookup_of_meets met (by decide)).symm⟩

private theorem mem_defaultEntry (system : System) (services : Services) (configuration : Configuration) :
    defaultEntry system services configuration ∈ collectResolvers system services configuration := by
  have supplementary := otherKind_supplementary system services configuration
  have named := lookup_default system services configuration
  have stays (calls : List CFDictionary) (others : ∀ resolver ∈ calls, OtherKind resolver) (resolvers : List CFDictionary)
      (member : defaultEntry system services configuration ∈ resolvers) :
      defaultEntry system services configuration ∈ calls.foldl (addResolver system.ifNameToIndex) resolvers := by
    induction calls generalizing resolvers with
    | nil => exact member
    | cons resolver calls ih =>
      obtain ⟨first,others⟩ := List.forall_mem_cons.mp others
      have named' : (defaultEntry system services configuration).lookup .configurationId = _ :=
        (lookup_bookkept _ (by decide) (by decide)).trans named
      exact ih others _ (mem_addResolver_of_apart member (first.not_meets named').2)
  rw [collectResolvers,List.foldl_cons,
    addResolver_append fun stored member => ((supplementary stored member).not_meets named).1]
  exact stays _ (otherKind_later system services configuration) _ (List.mem_append_right _ (List.mem_singleton_self _))

private theorem defaultEntry_domainName (system : System) (services : Services) (configuration : Configuration) :
    (defaultEntry system services configuration).lookup .domainName = none := by
  have extracted (defaultDomain : CFDictionary) (supplemental : List CFDictionary) :=
    extractSearchDomains_snd (Option.some_get (extractSearchDomains_isSome system.sort defaultDomain supplemental)).symm
  rw [defaultEntry,lookup_bookkept _ (by decide) (by decide),collectedDefault,extractedDefault,addResolverSignature,
    Finmap.lookup_insert_of_ne _ (by decide),extracted,Finmap.lookup_erase_ne (by decide),Finmap.lookup_erase]

/-- Whatever is cleaned up, the first resolver stays in its place. -/
theorem head?_cleanedUp (resolvers : List CFDictionary) : (cleanedUp resolvers).head? = resolvers.head? := by
  cases resolvers <;> rfl

/-- The comparison of resolvers is consistent exactly if none but the default one has
no domain; the default resolver is then sorted to the front, where it is updated. -/
theorem default_first_iff (system : System) (collate : Collation) [Std.TransCmp collate] (services : Services)
    (configuration : Configuration) :
    Consistent (compareDomain collate) (collectResolvers system services configuration) ∧
        (cleanedUp (sortedResolvers system.sort collate (collectResolvers system services configuration))).head? =
          some (defaultEntry system services configuration) ↔
      (collectResolvers system services configuration).Pairwise
        fun a b => ¬ (a.lookup .domainName = none ∧ b.lookup .domainName = none) := by
  rw [consistent_iff,head?_cleanedUp]
  refine ⟨And.left,fun single => ⟨single,?_⟩⟩
  have consistent : Consistent (compareDomain collate) _ := (consistent_iff _).mpr single
  have member := mem_defaultEntry system services configuration
  have unnamed := defaultEntry_domainName system services configuration
  unfold sortedResolvers
  split
  · exact system.sort.head consistent member fun other _ _ => compareDomain_none unnamed other
  · rename_i short
    generalize collectResolvers system services configuration = resolvers at member short
    match resolvers with
    | [] => cases member
    | [only] => rw [List.mem_singleton.mp member]; rfl
    | _::_::_ => simp at short

/-- Labels as they compare without their case, if they have no other letters. -/
def caseless : Collation := compareOn fun label => label.map fun c => c.toLower.toNat

instance : Std.TransCmp caseless := inferInstanceAs (Std.TransCmp (compareOn _))

noncomputable def oneInterface : System := {ifNameToIndex := fun _ => 1,sort := linearized}

def splitService : Service where
  dns := some (((∅ : CFDictionary).insert .serverAddresses (.array [.string ['1']])).insert .supplementalMatchDomains
    (.array [.string ['d']]))

theorem splitService_sorted :
    Consistent (compareDomain caseless) (collectResolvers oneInterface [(['s'],splitService)] {}) ∧
      (cleanedUp (sortedResolvers oneInterface.sort caseless
        (collectResolvers oneInterface [(['s'],splitService)] {}))).head? =
        some (defaultEntry oneInterface [(['s'],splitService)] {}) :=
  (default_first_iff oneInterface caseless [(['s'],splitService)] {}).mpr (by decide)

def ethernetService : Service where
  dns := some (((∅ : CFDictionary).insert .serverAddresses (.array [.string ['1']])).insert .interfaceName
    (.string ['e','n','0']))
  ipv4 := some true

/-- The default resolver and the one of the interface have no domain: each is less than the other. -/
theorem ethernetService_unsorted :
    ¬ Consistent (compareDomain caseless) (collectResolvers oneInterface [(['s'],ethernetService)] {}) := by
  intro consistent
  have single := (consistent_iff _).mp consistent
  revert single
  decide

end FreebsdLaunchd.DnsConfiguration
