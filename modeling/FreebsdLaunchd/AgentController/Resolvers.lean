import FreebsdLaunchd.AgentController.Brought
import FreebsdLaunchd.Library.Runs

/-! The agents for the resolvers of a DNS configuration: after each change they are
brought in step with the configuration that is in force. -/
namespace FreebsdLaunchd.AgentController
open Runs

def isAscii (text : String) : Bool := text.toList.all (·.toNat < 128)

/-- `stringWithCString` with `NSASCIIStringEncoding` of the bytes that a text has in UTF-8.
Of other bytes than those of ASCII it may make anything, and `nil` too. -/
structure AsciiReading where
  read : String → Option String
  plain : ∀ text, isAscii text → read text = some text

inductive Raised
  | invalidArgument
  deriving DecidableEq

/-- `nameserver` has the addresses as texts, and `ifName` what the interface index stands for.
The domain is in UTF-8. -/
structure Resolver where
  domain : Option String
  options : Option String
  search : List String
  nameserver : List String
  ifName : Option String
  serviceIdentifier : UInt32
  deriving DecidableEq

structure DnsConfig where
  resolver : List Resolver
  scopedResolver : List Resolver
  serviceSpecificResolver : List Resolver

def strstr (text pattern : String) : Bool := (Substrings.location pattern.toList text.toList).isSome

def isResolverMulticast (resolver : Resolver) : Bool := resolver.options.any (strstr · "mdns")

def isResolverPrivate (resolver : Resolver) : Bool := resolver.options.any (strstr · "pdns")

variable {Data : Type} [DecidableEq Data]

/-- `serialize` gives the data of a property list, of search domains and of name servers. -/
def dataForResolver (serialize : Option (List String) → Option (List String) → Data) (resolver : Resolver) :
    Option Data :=
  let search := if resolver.search.length > 0 then some resolver.search else none
  let nameservers := if resolver.nameserver.length > 0 then some (resolver.nameserver.filter (· ≠ "")) else none
  if search.isSome || nameservers.isSome then some (serialize search nameservers) else none

section Configuration
variable (serialize : Option (List String) → Option (List String) → Data)

def dnsSource : Source Resolver Data where
  domain := Resolver.domain
  data := dataForResolver serialize
  consulted resolver := !isResolverMulticast resolver
  listed resolver := !isResolverPrivate resolver && !isResolverMulticast resolver
  respawned resolver := !isResolverPrivate resolver && !isResolverMulticast resolver
  respawned_of_listed _ listed := listed
  consulted_of_respawned _ respawned := (Bool.and_eq_true_iff.mp respawned).2

def resolverName (i : Nat) : String :=
  if i = 0 then "_defaultDNS" else "_defaultDNS" ++ multipleEntitySuffix ++ toString (i+1)

def defaultItems (config : DnsConfig) : List (Item Data) :=
  (config.resolver.filter fun r => !isResolverMulticast r && !isResolverPrivate r && r.domain = none &&
    r.nameserver.length > 0).zipIdx.map fun (r,i) => (resolverName i,dataForResolver serialize r)

def multicastItems (config : DnsConfig) : List (Item Data) :=
  (config.resolver.filter isResolverMulticast).filterMap fun r => r.domain.map (·,none)

def privateItems (config : DnsConfig) : List (Item Data) :=
  (config.resolver.filter fun r => !isResolverMulticast r && isResolverPrivate r).filterMap fun r => r.domain.map (·,none)

def prefixForInterfaceName : String := "@"

def scopedItems (config : DnsConfig) : List (Item Data) :=
  config.scopedResolver.filterMap fun r => r.ifName.map fun name =>
    (prefixForInterfaceName ++ name,dataForResolver serialize r)

def serviceItems (config : DnsConfig) : List (Item Data) :=
  config.serviceSpecificResolver.filterMap fun r =>
    if r.serviceIdentifier ≠ 0 then some (prefixForInterfaceName ++ toString r.serviceIdentifier,dataForResolver serialize r)
    else none

def DnsConfig.rest (config : DnsConfig) : Rest Resolver Data :=
  ⟨scopedItems serialize config,config.resolver,serviceItems serialize config⟩

variable (tooLarge : Data → Bool) (around : Surroundings Data)

/-- Without any resolver no list is copied, and the agents there are stay. -/
def processDNSResolvers (agents : Agents Data) (config : DnsConfig) : Agents Data :=
  if config.resolver = [] then agents
  else
    let agents := processItems around (processDefaultResolver tooLarge around) .agentDefault agents
      (defaultItems serialize config)
    let agents := processItems around (processDomainResolver tooLarge around .agentMulticast) .agentMulticast agents
      (multicastItems config)
    processItems around (processDomainResolver tooLarge around .agentPrivate) .agentPrivate agents (privateItems config)

/-- The list of the domains that `processSupplementalDNSResolvers` begins with. It adds
`nil` where a domain cannot be read. -/
def newDomainList (reading : AsciiReading) : List Resolver → Except Raised (List String)
  | [] => return []
  | r::rest =>
    match if !isResolverPrivate r && !isResolverMulticast r then r.domain else none with
    | none => newDomainList reading rest
    | some domain =>
      match reading.read domain with
      | none => throw .invalidArgument
      | some name => return name::(← newDomainList reading rest)

def processDNSChanges (reading : AsciiReading) (agents : Agents Data) (config : Option DnsConfig) :
    Except Raised (Agents Data) :=
  match config with
  | none => return deleteAgentList agents (around.enumerate agents)
  | some config => do
    let domains ← newDomainList reading config.resolver
    return processRest (dnsSource serialize) tooLarge around domains
      (processDNSResolvers serialize tooLarge around agents config) (config.rest serialize)

/-! ## One change -/

def DnsConfig.first (config : DnsConfig) : List (Kind Data) :=
  [(.agentDefault,defaultItems serialize config),(.agentMulticast,multicastItems config),
    (.agentPrivate,privateItems config)]

def DnsConfig.brought (config : DnsConfig) : List (Kind Data) :=
  if config.resolver = [] then [] else config.first serialize

def DnsConfig.domains (config : DnsConfig) : List String := (config.rest serialize).domains (dnsSource serialize)

/-- The agents after a change to a configuration whose domains are listed as they are. -/
def DnsConfig.change (agents : Agents Data) (config : DnsConfig) : Agents Data :=
  processRest (dnsSource serialize) tooLarge around (config.domains serialize)
    (processDNSResolvers serialize tooLarge around agents config) (config.rest serialize)

/-- The names do not meet: neither one another, nor agents of another kind. The domains are in ASCII, without
the suffix of conflicting ones, and the kernel takes what is new. -/
structure Admitted (agents : Agents Data) (config : DnsConfig) : Prop where
  once : (names (config.first serialize) ++ ((scopedItems serialize config).map Prod.fst ++
    (config.domains serialize ++ (serviceItems serialize config).map Prod.fst))).Nodup
  own : ∀ kind ∈ config.first serialize ++ (config.rest serialize).kinds, ∀ item ∈ kind.2, ∀ agent,
    agents.lookup item.1 = some agent → agent.subtype = kind.1
  ownDomains : ∀ name ∈ config.domains serialize, ∀ agent, agents.lookup name = some agent →
    agent.subtype = .agentSupplemental
  plain : ∀ name ∈ config.domains serialize, sanitizeEntity name = name
  ascii : ∀ name ∈ config.domains serialize, isAscii name
  accepted : ∀ name ∈ names (config.first serialize ++ (config.rest serialize).kinds) ++ config.domains serialize,
    around.refuses name = false

instance decidableAdmitted (agents : Agents Data) (config : DnsConfig) :
    Decidable (Admitted serialize around agents config) :=
  decidable_of_iff
    ((names (config.first serialize) ++ ((scopedItems serialize config).map Prod.fst ++
        (config.domains serialize ++ (serviceItems serialize config).map Prod.fst))).Nodup ∧
      (∀ kind ∈ config.first serialize ++ (config.rest serialize).kinds, ∀ item ∈ kind.2,
        ∀ agent ∈ agents.lookup item.1, agent.subtype = kind.1) ∧
      (∀ name ∈ config.domains serialize, ∀ agent ∈ agents.lookup name, agent.subtype = .agentSupplemental) ∧
      (∀ name ∈ config.domains serialize, sanitizeEntity name = name) ∧
      (∀ name ∈ config.domains serialize, isAscii name) ∧
      ∀ name ∈ names (config.first serialize ++ (config.rest serialize).kinds) ++ config.domains serialize,
        around.refuses name = false)
    ⟨fun ⟨once,own,ownDomains,plain,ascii,accepted⟩ => ⟨once,own,ownDomains,plain,ascii,accepted⟩,
      fun ⟨once,own,ownDomains,plain,ascii,accepted⟩ => ⟨once,own,ownDomains,plain,ascii,accepted⟩⟩

structure SoundDns (agents : Agents Data) : Prop extends Sound tooLarge agents where
  kind : ∀ name agent, agents.lookup name = some agent → agent.subtype ≠ .agentGlobal
  bare : ∀ name agent, agents.lookup name = some agent →
    agent.subtype = .agentMulticast ∨ agent.subtype = .agentPrivate → agent.data = none

end Configuration

section Change
variable {serialize : Option (List String) → Option (List String) → Data} {tooLarge : Data → Bool}
variable {around : Surroundings Data} {start : Agents Data} {config : DnsConfig}

omit [DecidableEq Data]

private theorem listed_filterMap_eq {α : Type} {f : α → Option String} {list : List α} (name : String)
    (once : (list.filterMap f).Nodup) {a b : α} (member : a ∈ list) (member' : b ∈ list) (here : f a = some name)
    (there : f b = some name) : a = b := by
  induction list with
  | nil => cases member
  | cons x list ih =>
    rw [List.filterMap_cons] at once
    cases first : f x with
    | none =>
      rw [first] at once
      rcases List.mem_cons.mp member with rfl | later
      · rw [first] at here
        cases here
      · rcases List.mem_cons.mp member' with rfl | later'
        · rw [first] at there
          cases there
        · exact ih once later later'
    | some text =>
      rw [first] at once
      obtain ⟨fresh,once⟩ := List.nodup_cons.mp once
      rcases List.mem_cons.mp member with rfl | later
      · rcases List.mem_cons.mp member' with rfl | later'
        · rfl
        · obtain rfl := Option.some.inj (first.symm.trans here)
          exact absurd (List.mem_filterMap.mpr ⟨b,later',there⟩) fresh
      · rcases List.mem_cons.mp member' with rfl | later'
        · obtain rfl := Option.some.inj (first.symm.trans there)
          exact absurd (List.mem_filterMap.mpr ⟨a,later,here⟩) fresh
        · exact ih once later later'

theorem Admitted.unconflicting (admitted : Admitted serialize around start config) :
    Unconflicting (dnsSource serialize) config.resolver := by
  have once := admitted.once
  simp only [List.nodup_append',List.disjoint_append_right] at once
  obtain ⟨_,⟨_,⟨onceDomains,_⟩,_⟩,_,apart,_⟩ := once
  refine ⟨onceDomains,?_⟩
  intro e member e' member' listed consulted same there
  obtain ⟨name,there⟩ := Option.ne_none_iff_exists'.mp there
  have listedName : name ∈ config.domains serialize := mem_listedDomains.mpr ⟨e,member,listed,there⟩
  have multicast : isResolverMulticast e' = false := by simpa [dnsSource] using consulted
  cases priv : isResolverPrivate e' with
  | true =>
    refine absurd listedName fun listedName => apart ?_ listedName
    refine mem_names.mpr ⟨(.agentPrivate,privateItems config),by simp [DnsConfig.first],(name,none),?_,rfl⟩
    refine List.mem_filterMap.mpr ⟨e',List.mem_filter.mpr ⟨member',by simp [multicast,priv]⟩,?_⟩
    rw [show e'.domain = some name from same.symm.trans there]
    rfl
  | false =>
    have listed' : (dnsSource serialize).listed e' := by simp [dnsSource,multicast,priv]
    refine listed_filterMap_eq name onceDomains member' member ?_ ?_
    · simpa [listed'] using same.symm.trans there
    · simpa [listed] using there

private theorem names_brought : names (config.brought serialize) = names (config.first serialize) := by
  rw [DnsConfig.brought]
  split
  next empty => simp [names,DnsConfig.first,defaultItems,multicastItems,privateItems,empty]
  next => rfl

theorem Admitted.distinct (admitted : Admitted serialize around start config) :
    Distinct (dnsSource serialize) around (config.brought serialize) (config.rest serialize) start where
  once := by
    rw [names_brought]
    exact admitted.once
  unconflicting := admitted.unconflicting
  own kind member := admitted.own kind (List.mem_append_right _ member)
  ownDomains := admitted.ownDomains
  accepted kind member item listed :=
    admitted.accepted _ (List.mem_append_left _ (mem_names.mpr ⟨kind,List.mem_append_right _ member,item,listed,rfl⟩))
  acceptedDomains name member := admitted.accepted name (List.mem_append_right _ member)
  apart := by
    rw [DnsConfig.brought]
    split <;> simp [DnsConfig.first]

theorem Admitted.known (admitted : Admitted serialize around start config) (sound : SoundDns tooLarge start)
    {kind : Kind Data} (member : kind ∈ config.first serialize) {item : Item Data} (listed : item ∈ kind.2)
    {agent : Agent Data} (known : start.lookup item.1 = some agent) : ∃ d, agent = made tooLarge item.1 kind.1 d := by
  have same := admitted.own kind (List.mem_append_left _ member) item listed agent known
  rw [← same]
  refine sound.made known ?_
  rw [same]
  simp only [DnsConfig.first,List.mem_cons,List.not_mem_nil,or_false] at member
  obtain rfl | rfl | rfl := member <;> simp

theorem Admitted.known_bare (admitted : Admitted serialize around start config) (sound : SoundDns tooLarge start)
    {kind : Kind Data} (member : kind ∈ config.first serialize) (bare : kind.1 = .agentMulticast ∨ kind.1 = .agentPrivate)
    {item : Item Data} (listed : item ∈ kind.2) {agent : Agent Data} (known : start.lookup item.1 = some agent) :
    agent = made tooLarge item.1 kind.1 none := by
  obtain ⟨d,rfl⟩ := admitted.known sound member listed known
  obtain rfl : d = none := sound.bare _ _ known bare
  rfl

private theorem multicast_bare {item : Item Data} (listed : item ∈ multicastItems config) : item.2 = none := by
  obtain ⟨r,_,made⟩ := List.mem_filterMap.mp listed
  obtain ⟨_,_,rfl⟩ := Option.map_eq_some_iff.mp made
  rfl

private theorem private_bare {item : Item Data} (listed : item ∈ privateItems config) : item.2 = none := by
  obtain ⟨r,_,made⟩ := List.mem_filterMap.mp listed
  obtain ⟨_,_,rfl⟩ := Option.map_eq_some_iff.mp made
  rfl

private theorem brought_resolvers [DecidableEq Data] (sound : SoundDns tooLarge start)
    (admitted : Admitted serialize around start config) :
    Brought tooLarge (config.brought serialize) start (processDNSResolvers serialize tooLarge around start config) := by
  rw [processDNSResolvers,DnsConfig.brought]
  split
  next => exact brought_start tooLarge start
  next =>
    have once := admitted.once
    simp only [names,DnsConfig.first,List.flatMap_cons,List.flatMap_nil,List.map_append,List.append_nil,List.append_assoc,
      List.nodup_append',List.disjoint_append_right] at once
    obtain ⟨onceDefault,⟨onceMulticast,⟨oncePrivate,_⟩,apartPrivate,_⟩,apartMulticast,apartPrivate',_⟩ := once
    have accepted {kind : Kind Data} (member : kind ∈ config.first serialize) : ∀ item ∈ kind.2, around.refuses item.1 = false :=
      fun item listed => admitted.accepted _ (List.mem_append_left _
        (mem_names.mpr ⟨kind,List.mem_append_left _ member,item,listed,rfl⟩))
    have defaults : (AgentSubType.agentDefault,defaultItems serialize config) ∈ config.first serialize := by simp [DnsConfig.first]
    have multicast : (AgentSubType.agentMulticast,multicastItems config) ∈ config.first serialize := by simp [DnsConfig.first]
    have priv : (AgentSubType.agentPrivate,privateItems config) ∈ config.first serialize := by simp [DnsConfig.first]
    have freshMulticast : ∀ name ∈ names [(AgentSubType.agentDefault,defaultItems serialize config)],
        name ∉ (multicastItems config : List (Item Data)).map Prod.fst := by
      intro name there
      rw [names_single] at there
      exact fun here => apartMulticast there here
    have freshPrivate : ∀ name ∈ names ([(AgentSubType.agentDefault,defaultItems serialize config)] ++
        [(AgentSubType.agentMulticast,multicastItems config)]), name ∉ (privateItems config : List (Item Data)).map Prod.fst := by
      intro name there
      rw [names_append,names_single,names_single,List.mem_append] at there
      exact fun here => there.elim (fun there => apartPrivate' there here) fun there => apartPrivate there here
    have one := (brought_start tooLarge start).step (.agentDefault,defaultItems serialize config)
      (default_replaced onceDefault (accepted defaults) fun item listed agent known => admitted.known sound defaults listed known)
      (by simp [names]) (by simp)
    have two := one.step (.agentMulticast,multicastItems config)
      (domain_replaced onceMulticast (accepted multicast) (fun item listed agent known =>
        admitted.known_bare sound multicast (.inl rfl) listed
          (one.before (fun there => freshMulticast _ there (List.mem_map_of_mem listed)) known)) fun item => multicast_bare)
      freshMulticast (by simp)
    exact two.step (.agentPrivate,privateItems config)
      (domain_replaced oncePrivate (accepted priv) (fun item listed agent known =>
        admitted.known_bare sound priv (.inr rfl) listed
          (two.before (fun there => freshPrivate _ there (List.mem_map_of_mem listed)) known)) fun item => private_bare)
      freshPrivate (by simp)

/-- The agents are those of the configuration in force, or there are none. -/
def InForce (serialize : Option (List String) → Option (List String) → Data) (tooLarge : Data → Bool)
    (agents : Agents Data) :
    Option DnsConfig → Prop
  | none => ∀ name, agents.lookup name = none
  | some config => InStep (dnsSource serialize) tooLarge (config.first serialize) (config.rest serialize) agents

/-- What a change needs to bring the agents in step: with no resolver at all, no default, multicast or private one
before; and a domain whose agent is mapped to another one, and fits what that is to have, still shares it. -/
structure Tracked (serialize : Option (List String) → Option (List String) → Data) (agents : Agents Data)
    (config : DnsConfig) : Prop where
  resolvers : config.resolver = [] → ∀ name agent, agents.lookup name = some agent →
    agent.subtype ∉ [AgentSubType.agentDefault,.agentMulticast,.agentPrivate]
  fresh : ∀ name ∈ config.domains serialize, ∀ mappedAgent d, agents.lookup name = some (mappedTo mappedAgent (some d)) →
    getDataFromCurrentConfig (dnsSource serialize) config.resolver mappedAgent = some d →
    getDataFromCurrentConfig (dnsSource serialize) config.resolver name = some d ∧ mappedAgent ∈ config.domains serialize

instance decidableTracked (agents : Agents Data) (config : DnsConfig) :
    Decidable (Tracked serialize agents config) :=
  decidable_of_iff
    ((config.resolver = [] → ∀ name ∈ agents.keys, ∀ agent ∈ agents.lookup name,
        agent.subtype ∉ [AgentSubType.agentDefault,.agentMulticast,.agentPrivate]) ∧
      ∀ name ∈ config.domains serialize, ∀ agent ∈ agents.lookup name, ∀ mappedAgent ∈ agent.mapping,
        ∀ d ∈ agent.data, agent = mappedTo mappedAgent (some d) →
        getDataFromCurrentConfig (dnsSource serialize) config.resolver mappedAgent = some d →
        getDataFromCurrentConfig (dnsSource serialize) config.resolver name = some d ∧ mappedAgent ∈ config.domains serialize) <| by
    constructor
    · intro both
      refine ⟨fun empty name agent known => both.1 empty name ?_ agent known,?_⟩
      · rw [← AList.mem_keys,← AList.lookup_isSome,known]
        rfl
      · exact fun name listed mappedAgent d known => both.2 name listed _ known mappedAgent rfl d rfl rfl
    · intro tracked
      refine ⟨fun empty name _ agent known => tracked.resolvers empty name agent known,?_⟩
      intro name listed agent known mappedAgent _ d _ form
      exact tracked.fresh name listed mappedAgent d (form ▸ known)

private theorem inStep_brought {agents : Agents Data} :
    InStep (dnsSource serialize) tooLarge (config.first serialize) (config.rest serialize) agents ↔
      InStep (dnsSource serialize) tooLarge (config.brought serialize) (config.rest serialize) agents := by
  by_cases empty : config.resolver = []
  · have none_ : ∀ kind ∈ config.first serialize, kind.2 = [] := by
      simp [DnsConfig.first,defaultItems,multicastItems,privateItems,empty]
    have same : names (config.first serialize ++ (config.rest serialize).kinds) =
        names (config.brought serialize ++ (config.rest serialize).kinds) := by
      rw [names_append,names_append,names_brought]
    have bare : config.brought serialize = [] := if_pos empty
    constructor
    · intro inStep
      refine ⟨fun kind member => inStep.here kind ?_,inStep.provided,same ▸ inStep.others⟩
      rw [bare] at member
      exact List.mem_append_right _ member
    · intro inStep
      refine ⟨fun kind member item listed => ?_,inStep.provided,same ▸ inStep.others⟩
      rcases List.mem_append.mp member with first | last
      · rw [none_ kind first] at listed
        cases listed
      · exact inStep.here kind (List.mem_append_right _ last) item listed
  · rw [DnsConfig.brought,if_neg empty]

/-- Domains in ASCII are listed as they are. -/
theorem newDomainList_ascii (reading : AsciiReading) {resolvers : List Resolver}
    (ascii : ∀ name ∈ listedDomains (dnsSource serialize) resolvers, isAscii name) :
    newDomainList reading resolvers = .ok (listedDomains (dnsSource serialize) resolvers) := by
  induction resolvers with
  | nil => rfl
  | cons r rest ih =>
    rw [newDomainList]
    cases here : if !isResolverPrivate r && !isResolverMulticast r then r.domain else none with
    | none =>
      have list : listedDomains (dnsSource serialize) (r::rest) = listedDomains (dnsSource serialize) rest :=
        List.filterMap_cons_none here
      rw [list] at ascii ⊢
      exact ih ascii
    | some domain =>
      have list : listedDomains (dnsSource serialize) (r::rest) = domain::listedDomains (dnsSource serialize) rest :=
        List.filterMap_cons_some here
      rw [list] at ascii ⊢
      obtain ⟨first,others⟩ := List.forall_mem_cons.mp ascii
      simp only [reading.plain domain first,ih others]
      rfl

private theorem processDNSChanges_ascii [DecidableEq Data] (reading : AsciiReading)
    (admitted : Admitted serialize around start config) :
    processDNSChanges serialize tooLarge around reading start (some config) =
      .ok (DnsConfig.change serialize tooLarge around start config) := by
  have listed : newDomainList reading config.resolver = .ok (config.domains serialize) :=
    newDomainList_ascii reading admitted.ascii
  rw [processDNSChanges,listed]
  rfl

private theorem change_inStep_iff [DecidableEq Data] (sound : SoundDns tooLarge start)
    (admitted : Admitted serialize around start config) :
    InForce serialize tooLarge (DnsConfig.change serialize tooLarge around start config) (some config) ↔
      Tracked serialize start config := by
  have iff := processRest_inStep_iff sound.toSound (brought_resolvers sound admitted) admitted.distinct
  rw [InForce,DnsConfig.change,DnsConfig.domains,inStep_brought,iff]
  have kinds : (∀ name ∉ names (config.brought serialize), ∀ agent, start.lookup name = some agent →
      agent.subtype ∈ (config.brought serialize).map Prod.fst ++
        [AgentSubType.agentScoped,.agentSupplemental,.agentServiceSpecific]) ↔
      (config.resolver = [] → ∀ name agent, start.lookup name = some agent →
        agent.subtype ∉ [AgentSubType.agentDefault,.agentMulticast,.agentPrivate]) := by
    by_cases empty : config.resolver = []
    · have bare : config.brought serialize = [] := if_pos empty
      rw [bare,imp_iff_right empty]
      constructor
      · intro every name agent known
        have kind := every name List.not_mem_nil agent known
        cases subtype : agent.subtype <;> simp [subtype] at kind ⊢
      · intro every name _ agent known
        have kind := every name agent known
        have other := sound.kind name agent known
        cases subtype : agent.subtype <;> simp [subtype] at kind other ⊢
    · have full : config.brought serialize = config.first serialize := if_neg empty
      rw [full]
      constructor
      · exact fun _ none_ => absurd none_ empty
      · intro _ name _ agent known
        have other := sound.kind name agent known
        cases subtype : agent.subtype <;> simp [DnsConfig.first,subtype] at other ⊢
  rw [kinds]
  exact ⟨fun both => ⟨both.1,both.2⟩,fun tracked => ⟨tracked.resolvers,tracked.fresh⟩⟩

private theorem inForce_sound {agents : Agents Data} (inForce : InForce serialize tooLarge agents (some config))
    (plain : ∀ name ∈ config.domains serialize, sanitizeEntity name = name) : SoundDns tooLarge agents := by
  have form (name : String) (agent : Agent Data) (known : agents.lookup name = some agent) :
      (∃ kind ∈ config.first serialize ++ (config.rest serialize).kinds, ∃ item ∈ kind.2,
        agent = made tooLarge name kind.1 item.2) ∨
      name ∈ config.domains serialize ∧ ((∃ d, agent = made tooLarge name .agentSupplemental d) ∨
        ∃ mappedAgent d, agent = mappedTo mappedAgent (some d) ∧
          agents.lookup mappedAgent = some (made tooLarge mappedAgent .agentSupplemental (some d))) := by
    by_cases named : name ∈ names (config.first serialize ++ (config.rest serialize).kinds)
    · obtain ⟨kind,member,item,listed,rfl⟩ := mem_names.mp named
      exact .inl ⟨kind,member,item,listed,Option.some.inj (known.symm.trans (inForce.here kind member item listed))⟩
    · by_cases listed : name ∈ config.domains serialize
      · refine .inr ⟨listed,?_⟩
        obtain own | ⟨mappedAgent,d,_,mapped,there⟩ := inForce.provided name listed
        · exact .inl ⟨_,Option.some.inj (known.symm.trans own)⟩
        · exact .inr ⟨mappedAgent,d,Option.some.inj (known.symm.trans mapped),there⟩
      · have absent := inForce.others name (by simpa [DnsConfig.domains] using ⟨named,listed⟩)
        rw [known] at absent
        cases absent
  have kinds {kind : Kind Data} (member : kind ∈ config.first serialize ++ (config.rest serialize).kinds) :
      kind.1 ≠ .agentSupplemental ∧ kind.1 ≠ .agentGlobal ∧ ∀ item ∈ kind.2,
        kind.1 = .agentMulticast ∨ kind.1 = .agentPrivate → item.2 = none := by
    simp only [DnsConfig.first,Rest.kinds,List.cons_append,List.nil_append,List.mem_cons,List.not_mem_nil,or_false] at member
    obtain rfl | rfl | rfl | rfl | rfl := member
    · simp
    · simpa using fun _ _ => multicast_bare
    · simpa using fun _ _ => private_bare
    · simp
    · simp
  refine ⟨⟨?_,?_⟩,?_,?_⟩
  · intro name agent known
    obtain ⟨kind,_,item,_,rfl⟩ | ⟨_,⟨d,rfl⟩ | mapped⟩ := form name agent known
    · exact .inl ⟨item.2,rfl⟩
    · exact .inl ⟨d,rfl⟩
    · exact .inr mapped
  · intro name agent known subtype
    obtain ⟨kind,member,item,_,rfl⟩ | ⟨listed,_⟩ := form name agent known
    · exact absurd subtype (kinds member).1
    · exact plain name listed
  · intro name agent known
    obtain ⟨kind,member,item,_,rfl⟩ | ⟨_,⟨d,rfl⟩ | ⟨mappedAgent,d,rfl,_⟩⟩ := form name agent known
    · exact (kinds member).2.1
    · simp [made]
    · simp [mappedTo]
  · intro name agent known subtype
    obtain ⟨kind,member,item,listed,rfl⟩ | ⟨_,⟨d,rfl⟩ | ⟨mappedAgent,d,rfl,_⟩⟩ := form name agent known
    · exact (kinds member).2.2 item listed subtype
    · simp [made] at subtype
    · simp [mappedTo] at subtype

private theorem sound_of_none {agents : Agents Data} (empty : ∀ name, agents.lookup name = none) :
    SoundDns tooLarge agents := by
  have never (name : String) (agent : Agent Data) (known : agents.lookup name = some agent) : False := by
    rw [empty name] at known
    cases known
  exact ⟨⟨fun name agent known => (never name agent known).elim,fun name agent known => (never name agent known).elim⟩,
    fun name agent known => (never name agent known).elim,fun name agent known => (never name agent known).elim⟩

private theorem delete_all (around : Surroundings Data) (agents : Agents Data) (name : String) :
    (deleteAgentList agents (around.enumerate agents)).lookup name = none := by
  rw [lookup_delete]
  cases known : agents.lookup name <;> simp [mem_enumerate,known]

end Change

/-! ## Runs -/

section Run
variable (serialize : Option (List String) → Option (List String) → Data) (tooLarge : Data → Bool) (reading : AsciiReading)

structure ConfigurationChange (Data : Type) where
  around : Surroundings Data
  configuration : Option DnsConfig

structure Controller (Data : Type) where
  agents : Agents Data
  configuration : Option DnsConfig

def Controller.initial : Controller Data := ⟨∅,none⟩

def Controller.change (s : Except Raised (Controller Data)) (change : ConfigurationChange Data) :
    Except Raised (Controller Data) := do
  let s ← s
  let agents ← processDNSChanges serialize tooLarge change.around reading s.agents change.configuration
  return ⟨agents,change.configuration⟩

variable {serialize tooLarge reading}

def Agrees (serialize : Option (List String) → Option (List String) → Data) (tooLarge : Data → Bool) :
    Except Raised (Controller Data) → Prop
  | .ok s => InForce serialize tooLarge s.agents s.configuration
  | .error _ => False

def Served (serialize : Option (List String) → Option (List String) → Data) : Except Raised (Controller Data) → Prop
  | .ok s => ∀ config ∈ s.configuration,
    (∀ kind ∈ config.first serialize ++ (config.rest serialize).kinds, kind.1 ≠ .agentServiceSpecific → ∀ item ∈ kind.2,
      obtained s.agents item.1 = item.2) ∧
    ∀ name ∈ config.domains serialize,
      obtained s.agents name = getDataFromCurrentConfig (dnsSource serialize) config.resolver name
  | .error _ => False

def ChangeAdmitted (serialize : Option (List String) → Option (List String) → Data) (s : Except Raised (Controller Data))
    (change : ConfigurationChange Data) : Prop :=
  ∀ now ∈ s.toOption, ∀ config ∈ change.configuration, Admitted serialize change.around now.agents config

def ChangeTracked (serialize : Option (List String) → Option (List String) → Data) (s : Except Raised (Controller Data))
    (change : ConfigurationChange Data) : Prop :=
  ∀ now ∈ s.toOption, ∀ config ∈ change.configuration, Tracked serialize now.agents config

instance (s : Except Raised (Controller Data)) (change : ConfigurationChange Data) :
    Decidable (ChangeAdmitted serialize s change) :=
  inferInstanceAs (Decidable (∀ now ∈ s.toOption, ∀ config ∈ change.configuration, _))

instance (s : Except Raised (Controller Data)) (change : ConfigurationChange Data) :
    Decidable (ChangeTracked serialize s change) :=
  inferInstanceAs (Decidable (∀ now ∈ s.toOption, ∀ config ∈ change.configuration, _))

omit [DecidableEq Data] in
private theorem served_of_agrees (s : Except Raised (Controller Data)) (agrees : Agrees serialize tooLarge s) :
    Served serialize s := by
  cases s with
  | error raised => exact agrees.elim
  | ok s =>
    intro config current
    rw [Agrees,Option.mem_def.mp current] at agrees
    exact InStep.obtained agrees

def Known (serialize : Option (List String) → Option (List String) → Data) (tooLarge : Data → Bool) :
    Except Raised (Controller Data) → Prop
  | .ok s => SoundDns tooLarge s.agents ∧ InForce serialize tooLarge s.agents s.configuration
  | .error _ => False

private theorem change_agrees_iff (s : Except Raised (Controller Data)) (change : ConfigurationChange Data)
    (admitted : ChangeAdmitted serialize s change) (known : Known serialize tooLarge s) :
    (Agrees serialize tooLarge (Controller.change serialize tooLarge reading s change) ↔ ChangeTracked serialize s change) ∧
      (Agrees serialize tooLarge (Controller.change serialize tooLarge reading s change) →
        Known serialize tooLarge (Controller.change serialize tooLarge reading s change)) := by
  cases s with
  | error raised => exact known.elim
  | ok s =>
    obtain ⟨around,configuration⟩ := change
    cases configuration with
    | none =>
      have inForce : InForce serialize tooLarge (deleteAgentList s.agents (around.enumerate s.agents)) none :=
        delete_all around s.agents
      exact ⟨iff_of_true inForce fun _ _ => nofun,fun _ => ⟨sound_of_none inForce,inForce⟩⟩
    | some config =>
      have admitted : Admitted serialize around s.agents config := admitted s rfl config rfl
      have next : Controller.change serialize tooLarge reading (.ok s) ⟨around,some config⟩ =
          .ok ⟨DnsConfig.change serialize tooLarge around s.agents config,some config⟩ := by
        simp only [Controller.change,bind,Except.bind,processDNSChanges_ascii reading admitted]
        rfl
      rw [next]
      refine ⟨(change_inStep_iff known.1 admitted).trans ?_,fun inForce => ⟨inForce_sound inForce admitted.plain,inForce⟩⟩
      constructor
      · rintro tracked now here config' there
        obtain rfl : s = now := Option.some.inj here
        obtain rfl : config = config' := Option.some.inj there
        exact tracked
      · exact fun tracked => tracked s rfl config rfl

omit [DecidableEq Data] in
private theorem known_initial : Known serialize tooLarge (.ok (.initial : Controller Data)) := by
  have empty (name : String) : (Controller.initial : Controller Data).agents.lookup name = none := AList.lookup_empty name
  exact ⟨sound_of_none empty,empty⟩

/-- From no agents: after every change the agents are those of the configuration in force, and clients get its data,
exactly if each change can be tracked. -/
theorem resolvers_inForce_iff {changes : List (ConfigurationChange Data)}
    (admitted : Meets (Controller.change serialize tooLarge reading) (ChangeAdmitted serialize) (.ok .initial) changes) :
    (Along (Controller.change serialize tooLarge reading) (Agrees serialize tooLarge) (.ok .initial) changes ↔
      Meets (Controller.change serialize tooLarge reading) (ChangeTracked serialize) (.ok .initial) changes) ∧
    (Along (Controller.change serialize tooLarge reading) (Agrees serialize tooLarge) (.ok .initial) changes →
      Along (Controller.change serialize tooLarge reading) (Served serialize) (.ok .initial) changes) := by
  refine ⟨along_iff_meets_of_admitted (P := Known serialize tooLarge) ?_ ?_ ?_ known_initial admitted,
    Along.imp served_of_agrees⟩
  · intro s change admitted known tracked
    obtain ⟨iff,next⟩ := change_agrees_iff s change admitted known
    exact next (iff.mpr tracked)
  · intro s change admitted known agrees
    exact (change_agrees_iff s change admitted known).1.mp agrees
  · intro s known
    cases s with
    | error raised => exact known.elim
    | ok s => exact known.2

/-! ## Two domains with one agent -/

def plainData (search nameservers : Option (List String)) : Option (List String) × Option (List String) :=
  (search,nameservers)

def willing : Surroundings (Option (List String) × Option (List String)) where
  refuses _ := false
  enumerate agents := agents.keys
  enumerates agents := .refl agents.keys

/-- A default resolver, multicast DNS, and two domains with name servers of their own. -/
def officeConfig (corp lab : String) : DnsConfig where
  resolver := [⟨none,none,["example.com"],["10.0.0.1"],none,0⟩,⟨some "local",some "mdns",[],[],none,0⟩,
    ⟨some "corp.example.com",none,[],[corp],none,0⟩,⟨some "lab.example.com",none,[],[lab],none,0⟩]
  scopedResolver := [⟨none,none,[],["10.0.0.1"],some "en0",0⟩]
  serviceSpecificResolver := []

def strictAscii : AsciiReading where
  read text := if isAscii text then some text else none
  plain _ ascii := if_pos ascii

/-- The server that both domains have is replaced by another one for both. -/
theorem both_domains_move :
    Along (Controller.change plainData (fun _ => false) strictAscii) (Agrees plainData fun _ => false) (.ok .initial)
      [⟨willing,some (officeConfig "10.0.0.2" "10.0.0.2")⟩,⟨willing,some (officeConfig "10.0.0.3" "10.0.0.3")⟩] := by
  refine (resolvers_inForce_iff ?_).1.mpr ?_
  · exact ⟨by decide +kernel,by decide +kernel,trivial⟩
  · exact ⟨by decide +kernel,by decide +kernel,trivial⟩

end Run

end FreebsdLaunchd.AgentController
