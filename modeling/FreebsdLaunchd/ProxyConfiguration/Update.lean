import FreebsdLaunchd.DnsConfiguration.Configuration
import FreebsdLaunchd.Library.FirstOccurrences
import FreebsdLaunchd.ProxyConfiguration.Proxies
import Mathlib.Data.List.MinMax

/-! The proxy configuration that is built from the default proxy and the services. All
proxies without a match domain are equal in the sort, and only the one that comes out first
is kept, whatever their match orders are. -/
namespace FreebsdLaunchd.ProxyConfiguration
open ArraySorting FirstOccurrences
open DnsConfiguration (CFString Collation sint32 caseless)

structure Input where
  /-- `G_supplemental_proxies_follow_dns` -/
  follow : Bool := false
  ifNameToIndex : CFString → BitVec 32
  defaultProxy : Option Proxy
  services : Services
  serviceOrder : List CFString := []
  /-- The information on services is a dictionary. -/
  servicesInfo : Bool := false

/-- The configuration; an entry that is empty is not there. -/
structure NewProxy where
  /-- The dictionary before its three entries are set. -/
  top : Proxy
  supplemental : List Proxy
  scopedProxies : List (CFString × Proxy)
  servicesProxies : List (BitVec 32 × Proxy)

/-! ## Proxies of an interface and of one service -/

def serviceOrderCopyAll (services : Services) (serviceOrder : List CFString) : List CFString :=
  if services.isEmpty then [] else services.foldl (fun order service => appendNew order service.1) serviceOrder

def serviceProxy (services : Services) (serviceID : CFString) : Option Proxy :=
  (services.lookup serviceID).bind Service.proxies

def addScoped (input : Input) (scopedProxies : List (CFString × Proxy)) (serviceID : CFString) :
    List (CFString × Proxy) :=
  match serviceProxy input.services serviceID with
  | none => scopedProxies
  | some proxy =>
    match proxy.lookup .interfaceName with
    | some (.string interface) =>
      -- if we've already processed this [scoped] interface, or interface index not available
      if interface ∈ scopedProxies.map Prod.fst ∨ input.ifNameToIndex interface = 0 then scopedProxies
      else scopedProxies ++
        [(interface,((proxy.erase .supplementalMatchDomains).erase .supplementalMatchOrders).erase .interfaceName)]
    | _ => scopedProxies

def copyScopedProxies (input : Input) (order : List CFString) : List (CFString × Proxy) :=
  order.foldl (addScoped input) []

def addAppLayer (services : Services) (appLayer : List (BitVec 32 × Proxy)) (serviceID : CFString) :
    List (BitVec 32 × Proxy) :=
  match serviceProxy services serviceID with
  | none => appLayer
  | some proxy =>
    match sint32 (proxy.lookup .serviceSpecific) with
    | none => appLayer
    | some serviceIdentifier =>
      if serviceIdentifier = 0 ∨ serviceIdentifier ∈ appLayer.map Prod.fst then appLayer
      else appLayer ++
        [(serviceIdentifier,((proxy.erase .supplementalMatchDomains).erase .supplementalMatchOrders).erase .serviceSpecific)]

def copyAppLayerVpnProxies (input : Input) (order : List CFString) : List (BitVec 32 × Proxy) :=
  if input.servicesInfo then order.foldl (addAppLayer input.services) [] else []

/-! ## The configuration -/

def passed (input : Input) : List Proxy :=
  allSupplementals input.follow input.services input.serviceOrder ++ [(defaultEntry input.defaultProxy).1]

def collectProxies (input : Input) : List Proxy := (passed input).foldl addProxy []

def sortedProxies (sort : ArraySort Proxy) (collate : Collation) (proxies : List Proxy) : List Proxy :=
  if proxies.length > 1 then sort.sortValues (compareDomain collate) proxies else proxies

def withoutOrders (proxy : Proxy) : Proxy := (proxy.erase .matchOrder).erase .order

/-- Non-supplemental proxies are removed, the first one excepted. -/
def cleanedUp : List Proxy → List Proxy
  | [] => []
  | first::rest => withoutOrders first::(rest.filter hasDomain).map withoutOrders

def updatedDefault (orderAdded : Bool) : List Proxy → List Proxy
  | [] => []
  | first::rest => (if orderAdded && rest.head?.any hasDomain then first.erase .matchOrder else first)::rest

def copySupplementalProxies (proxies : List Proxy) : List Proxy := proxies.filter hasDomain

def proxyConfigurationUpdate (sort : ArraySort Proxy) (collate : Collation) (input : Input) : Option NewProxy :=
  let proxies := cleanedUp (sortedProxies sort collate (collectProxies input))
  match updatedDefault (defaultEntry input.defaultProxy).2 proxies with
  | [] => none
  | first::rest =>
    let order := serviceOrderCopyAll input.services input.serviceOrder
    some {
      -- if we have "a" default (non-supplemental) proxy
      top := if hasDomain first then ∅ else (first.erase .supplementalMatchDomains).erase .supplementalMatchOrders
      supplemental := copySupplementalProxies (first::rest)
      scopedProxies := copyScopedProxies input order
      servicesProxies := copyAppLayerVpnProxies input order }

/-! ## The election of the default proxy -/

/-- The keys of the bookkeeping and of the three entries. -/
def notSettings : List Key :=
  [.matchOrder,.order,.supplementalMatchDomains,.supplementalMatchOrders,.supplemental,.scopedProxies,.servicesProxies]

def settings (proxy : Proxy) : Proxy := notSettings.foldl (fun proxy key => proxy.erase key) proxy

/-- The proxies that can be the default one: those for an empty match domain, and the default proxy itself. -/
def candidates (input : Input) : List Proxy :=
  (allSupplementals input.follow input.services input.serviceOrder).filter (fun proxy => !hasDomain proxy) ++
    [(defaultEntry input.defaultProxy).1]

/-- The first candidate with the smallest match order. -/
def winner (input : Input) : Proxy :=
  ((candidates input).argmin fun proxy => (matchOrderOf proxy).toNat).getD (defaultEntry input.defaultProxy).1

variable {collate : Collation} {sort : ArraySort Proxy} {input : Input} {proxy stored : Proxy} {proxies : List Proxy}

@[simp] theorem lookup_erase (proxy : Proxy) (key key' : Key) :
    (proxy.erase key').lookup key = if key = key' then none else proxy.lookup key := by
  by_cases same : key = key'
  · rw [if_pos same,same,Finmap.lookup_erase]
  · rw [if_neg same,Finmap.lookup_erase_ne same]

private theorem lookup_settings (proxy : Proxy) (key : Key) :
    (settings proxy).lookup key = if key ∈ notSettings then none else proxy.lookup key := by
  simp only [settings,notSettings,List.foldl_cons,List.foldl_nil,lookup_erase]
  split_ifs <;> simp_all

private theorem settings_congr (same : ∀ key ∉ notSettings, proxy.lookup key = stored.lookup key) :
    settings proxy = settings stored := by
  refine Finmap.ext_lookup fun key => ?_
  rw [lookup_settings,lookup_settings]
  split_ifs with inside
  · rfl
  · exact same key inside

private theorem settings_withoutOrders (proxy : Proxy) : settings (withoutOrders proxy) = settings proxy := by
  refine settings_congr fun key settingsKey => ?_
  simp only [notSettings,List.mem_cons,not_or] at settingsKey
  simp [withoutOrders,settingsKey]

@[simp] theorem hasDomain_withoutOrders (proxy : Proxy) : hasDomain (withoutOrders proxy) = hasDomain proxy := by
  simp [hasDomain,withoutOrders]

/-- No configuration has a match domain among its settings proper. -/
theorem hasDomain_settings (proxy : Proxy) : hasDomain (settings proxy) = hasDomain proxy := by
  rw [hasDomain,lookup_settings,if_neg (by decide),hasDomain]

/-! ## Proxies that have been added -/

def Stored (proxy stored : Proxy) : Prop := ∀ key ≠ .order, stored.lookup key = proxy.lookup key

theorem Stored.settings (same : Stored proxy stored) : settings stored = settings proxy :=
  settings_congr fun key settingsKey => same key fun order => settingsKey (by rw [order]; decide)

theorem Stored.hasDomain (same : Stored proxy stored) : hasDomain stored = hasDomain proxy := by
  rw [ProxyConfiguration.hasDomain,same _ (by decide),ProxyConfiguration.hasDomain]

theorem Stored.withoutOrders (same : Stored proxy stored) : withoutOrders stored = withoutOrders proxy := by
  refine Finmap.ext_lookup fun key => ?_
  simp only [ProxyConfiguration.withoutOrders,lookup_erase]
  split_ifs with order
  · rfl
  · rfl
  · exact same key order

private theorem mem_addProxy (proxies : List Proxy) (proxy : Proxy) : ∃ stored, Stored proxy stored ∧
    ∀ other, other ∈ addProxy proxies proxy ↔ other ∈ proxies ∨ other = stored := by
  unfold addProxy
  split
  next old =>
    refine ⟨proxy,fun _ _ => rfl,fun other => ⟨.inl,fun member => member.elim id fun same => ?_⟩⟩
    rwa [same]
  next fresh =>
    exact ⟨proxy.insert .order (.number proxies.length),fun key other => Finmap.lookup_insert_of_ne _ other,
      fun other => by simp⟩

/-- The proxies added are those passed, but for their recorded orders. -/
theorem mem_addProxies (list proxies : List Proxy) :
    (∀ stored ∈ list.foldl addProxy proxies, stored ∈ proxies ∨ ∃ proxy ∈ list, Stored proxy stored) ∧
      (∀ proxy ∈ proxies, proxy ∈ list.foldl addProxy proxies) ∧
      ∀ proxy ∈ list, ∃ stored ∈ list.foldl addProxy proxies, Stored proxy stored := by
  induction list generalizing proxies with
  | nil => exact ⟨fun _ => .inl,fun _ => id,fun _ none => nomatch none⟩
  | cons proxy list ih =>
    obtain ⟨stored,same,members⟩ := mem_addProxy proxies proxy
    obtain ⟨back,kept,forth⟩ := ih (addProxy proxies proxy)
    refine ⟨fun other member => ?_,fun other member => kept other ((members other).mpr (.inl member)),fun other member => ?_⟩
    · rcases back other member with there | ⟨origin,inside,same'⟩
      · rcases (members other).mp there with old | rfl
        · exact .inl old
        · exact .inr ⟨proxy,List.mem_cons_self,same⟩
      · exact .inr ⟨origin,List.mem_cons_of_mem proxy inside,same'⟩
    · rcases List.mem_cons.mp member with rfl | later
      · exact ⟨stored,kept stored ((members stored).mpr (.inr rfl)),same⟩
      · exact forth other later

private theorem exists_stored (member : proxy ∈ passed input) : ∃ stored ∈ collectProxies input, Stored proxy stored :=
  (mem_addProxies (passed input) []).2.2 proxy member

private theorem exists_passed (member : stored ∈ collectProxies input) : ∃ proxy ∈ passed input, Stored proxy stored :=
  ((mem_addProxies (passed input) []).1 stored member).resolve_left List.not_mem_nil

/-! ## Sorting -/

private theorem sortedProxies_perm (sort : ArraySort Proxy) (collate : Collation) (proxies : List Proxy) :
    (sortedProxies sort collate proxies).Perm proxies := by
  unfold sortedProxies
  split
  · exact sort.perm ..
  · exact .refl _

private theorem sortedProxies_eq (sort : ArraySort Proxy) (collate : Collation) (proxies : List Proxy) :
    sortedProxies sort collate proxies = sort.sortValues (compareDomain collate) proxies := by
  unfold sortedProxies
  split
  next => rfl
  next short => exact (sort.short _ short).symm

/-- A proxy without a match domain is in front of all that have one. -/
theorem compareDomain_lt (first : hasDomain proxy = false) (second : hasDomain stored = true) :
    compareDomain collate proxy stored = .lt := by
  rw [compareDomain_eq,compareOn,first,second]
  rfl

private theorem compareDomain_not_lt (second : hasDomain stored = false) : compareDomain collate proxy stored ≠ .lt := by
  rw [compareDomain_eq,compareOn,second]
  cases hasDomain proxy <;> simp

/-- With a proxy without a match domain, one of these comes out first. -/
theorem head_hasDomain [Std.TransCmp collate] {first : Proxy} {rest : List Proxy}
    (sorted : sortedProxies sort collate proxies = first::rest) (member : proxy ∈ proxies) (plain : hasDomain proxy = false) :
    hasDomain first = false := by
  have ordered := sort.sorted (compareDomain collate) proxies (compareDomain_strict.consistent proxies)
  rw [← sortedProxies_eq,sorted] at ordered
  have inside : proxy ∈ first::rest := sorted ▸ (sortedProxies_perm sort collate proxies).mem_iff.mpr member
  rcases List.mem_cons.mp inside with rfl | behind
  · exact plain
  · by_contra named
    exact (List.pairwise_cons.mp ordered).1 proxy behind (compareDomain_lt plain (by simpa using named))

/-- The orders have gone before the default proxy is updated. -/
theorem updatedDefault_cleanedUp (orderAdded : Bool) (proxies : List Proxy) :
    updatedDefault orderAdded (cleanedUp proxies) = cleanedUp proxies := by
  cases proxies with
  | nil => rfl
  | cons first rest =>
    have gone : (withoutOrders first).erase .matchOrder = withoutOrders first := by
      refine Finmap.ext_lookup fun key => ?_
      simp only [withoutOrders,lookup_erase]
      split_ifs <;> rfl
    rw [cleanedUp,updatedDefault,gone,ite_self]

private theorem update_sorted {first : Proxy} {rest : List Proxy} (sorted : sortedProxies sort collate (collectProxies input) = first::rest) :
    ∃ result, proxyConfigurationUpdate sort collate input = some result ∧
      settings result.top = (if hasDomain first then ∅ else settings first) ∧
      result.supplemental = ((first::rest).filter hasDomain).map withoutOrders := by
  have proxies : updatedDefault (defaultEntry input.defaultProxy).2 (cleanedUp (sortedProxies sort collate (collectProxies input))) =
      withoutOrders first::(rest.filter hasDomain).map withoutOrders := by
    rw [updatedDefault_cleanedUp,sorted,cleanedUp]
  refine ⟨_,by rw [proxyConfigurationUpdate,proxies],?_,?_⟩
  · rw [hasDomain_withoutOrders]
    split_ifs with named
    · rfl
    · rw [← settings_withoutOrders first]
      refine settings_congr fun key settingsKey => ?_
      simp only [notSettings,List.mem_cons,not_or] at settingsKey
      simp [settingsKey]
  · simp only [copySupplementalProxies,List.filter_cons,hasDomain_withoutOrders,List.filter_map,Function.comp_def]
    split_ifs <;> simp

/-- Every supplemental proxy for a domain is kept. -/
theorem supplemental_kept {result : NewProxy} {first : Proxy} {rest : List Proxy}
    (sorted : sortedProxies sort collate (collectProxies input) = first::rest)
    (kept : result.supplemental = ((first::rest).filter hasDomain).map withoutOrders) (member : proxy ∈ passed input)
    (named : hasDomain proxy) : withoutOrders proxy ∈ result.supplemental := by
  obtain ⟨stored,there,same⟩ := exists_stored member
  rw [kept,← same.withoutOrders,← sorted]
  refine List.mem_map_of_mem (List.mem_filter.mpr ⟨(sortedProxies_perm ..).mem_iff.mpr there,?_⟩)
  rw [same.hasDomain,named]

private theorem sortedProxies_cons (sort : ArraySort Proxy) (collate : Collation) (input : Input) :
    ∃ first rest, sortedProxies sort collate (collectProxies input) = first::rest := by
  have last : _ ∈ passed input := List.mem_append_right _ (List.mem_singleton_self _)
  obtain ⟨stored,there,_⟩ := exists_stored last
  exact List.exists_cons_of_ne_nil (List.ne_nil_of_mem ((sortedProxies_perm sort collate _).mem_iff.mpr there))

/-- Any proxy without a match domain is the first one for some sort. -/
theorem exists_sort (collate : Collation) [Std.TransCmp collate] (member : proxy ∈ passed input)
    (plain : hasDomain proxy = false) :
    ∃ sort : ArraySort Proxy, ∃ first rest, sortedProxies sort collate (collectProxies input) = first::rest ∧
      Stored proxy first := by
  obtain ⟨stored,there,same⟩ := exists_stored member
  have least : ∀ other ∈ collectProxies input, compareDomain collate other stored ≠ .lt := fun other _ =>
    compareDomain_not_lt (same.hasDomain.trans plain)
  have head := linearized.leading_head there least
  rw [← sortedProxies_eq] at head
  obtain ⟨rest,sorted⟩ := List.head?_eq_some_iff.mp head
  exact ⟨_,stored,rest,sorted,same⟩

private theorem candidates_subset : candidates input ⊆ passed input := by
  intro proxy member
  rcases List.mem_append.mp member with inside | default
  · exact List.mem_append_left _ (List.mem_of_mem_filter inside)
  · exact List.mem_append_right _ default

private theorem mem_candidates (member : proxy ∈ passed input) (plain : hasDomain proxy = false) :
    proxy ∈ candidates input := by
  rcases List.mem_append.mp member with inside | default
  · exact List.mem_append_left _ (List.mem_filter.mpr ⟨inside,by simp [plain]⟩)
  · exact List.mem_append_right _ default

private theorem winner_mem (input : Input) : winner input ∈ candidates input := by
  unfold winner
  cases chosen : (candidates input).argmin fun proxy => (matchOrderOf proxy).toNat with
  | none => exact List.mem_append_right _ (List.mem_singleton_self _)
  | some proxy => exact List.argmin_mem chosen

/-- Whatever order equal proxies come out in, the settings at the top are those of the candidate
with the smallest match order, if and only if this one has no match domain and every other
candidate that has none has the same settings. All supplemental proxies are kept in any case. -/
theorem default_proxy_iff (collate : Collation) [Std.TransCmp collate] (input : Input) :
    (∀ sort : ArraySort Proxy, ∃ result, proxyConfigurationUpdate sort collate input = some result ∧
        settings result.top = settings (winner input) ∧
        ∀ proxy ∈ allSupplementals input.follow input.services input.serviceOrder, hasDomain proxy →
          withoutOrders proxy ∈ result.supplemental) ↔
      hasDomain (winner input) = false ∧
        ∀ proxy ∈ candidates input, hasDomain proxy = false → settings proxy = settings (winner input) := by
  constructor
  · intro elected
    constructor
    · obtain ⟨first,rest,sorted⟩ := sortedProxies_cons linearized collate input
      obtain ⟨result,done,top,_⟩ := update_sorted sorted
      obtain ⟨result',done',same,_⟩ := elected linearized
      obtain rfl := Option.some.inj (done.symm.trans done')
      rw [← hasDomain_settings,← same,top]
      split_ifs with named
      · rfl
      · rw [hasDomain_settings]
        simpa using named
    · intro proxy member plain
      obtain ⟨sort,first,rest,sorted,stored⟩ := exists_sort collate (candidates_subset member) plain
      obtain ⟨result,done,top,_⟩ := update_sorted sorted
      obtain ⟨result',done',same,_⟩ := elected sort
      obtain rfl := Option.some.inj (done.symm.trans done')
      rw [← same,top,stored.hasDomain,plain,← stored.settings]
      rfl
  · rintro ⟨plain,alike⟩ sort
    obtain ⟨first,rest,sorted⟩ := sortedProxies_cons sort collate input
    obtain ⟨result,done,top,kept⟩ := update_sorted sorted
    refine ⟨result,done,?_,fun proxy member named => supplemental_kept sorted kept (List.mem_append_left _ member) named⟩
    obtain ⟨stored,there,same⟩ := exists_stored (candidates_subset (winner_mem input))
    have firstPlain := head_hasDomain sorted there (same.hasDomain.trans plain)
    have firstThere : first ∈ collectProxies input :=
      (sortedProxies_perm sort collate _).mem_iff.mp (sorted ▸ List.mem_cons_self)
    obtain ⟨proxy,member,stored'⟩ := exists_passed firstThere
    have proxyPlain : hasDomain proxy = false := stored'.hasDomain.symm.trans firstPlain
    rw [top,firstPlain,← alike proxy (mem_candidates member proxyPlain) proxyPlain,← stored'.settings]
    rfl

/-- A default proxy, and a service with a proxy for one domain. -/
def oneService (matchDomain : CFString) : Input where
  ifNameToIndex := fun _ => 1
  defaultProxy := some ((∅ : Proxy).insert (.other "HTTPEnable".toList) (.number 0))
  services := [(['s'],{proxies := some (((∅ : Proxy).insert (.other "HTTPEnable".toList) (.number 1)).insert
    .supplementalMatchDomains (.array [.string matchDomain]))})]

theorem oneService_elected :
    ∃ result, proxyConfigurationUpdate linearized caseless (oneService ['d']) = some result ∧
      settings result.top = settings (winner (oneService ['d'])) := by
  have elected := (default_proxy_iff caseless (oneService ['d'])).mpr ⟨by decide,by decide⟩
  obtain ⟨result,done,same,_⟩ := elected linearized
  exact ⟨result,done,same⟩

/-- The proxy for the empty domain has the smaller match order, and still the default proxy may come out first. -/
theorem emptyDomain_passedOver :
    ¬ ∀ sort : ArraySort Proxy, ∃ result, proxyConfigurationUpdate sort caseless (oneService []) = some result ∧
      settings result.top = settings (winner (oneService [])) := by
  intro elected
  have member : (defaultEntry (oneService []).defaultProxy).1 ∈ passed (oneService []) :=
    List.mem_append_right _ (List.mem_singleton_self _)
  obtain ⟨sort,first,rest,sorted,stored⟩ := exists_sort caseless member (by decide)
  obtain ⟨result,done,top,_⟩ := update_sorted sorted
  obtain ⟨result',done',same⟩ := elected sort
  obtain rfl := Option.some.inj (done.symm.trans done')
  rw [top,stored.hasDomain,stored.settings] at same
  revert same
  decide

end FreebsdLaunchd.ProxyConfiguration
