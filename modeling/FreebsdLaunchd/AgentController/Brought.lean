import FreebsdLaunchd.AgentController.Passes
import FreebsdLaunchd.AgentController.Supplemental

/-! Passes for several kinds of agents one after another, each of which leaves the
agents of the other kinds alone. -/
namespace FreebsdLaunchd.AgentController

variable {Data : Type} [DecidableEq Data]

/-- A kind of agents, and which of them a configuration asks for. -/
abbrev Kind (Data : Type) := AgentSubType × List (Item Data)

omit [DecidableEq Data] in
def names (kinds : List (Kind Data)) : List String := (kinds.flatMap Prod.snd).map Prod.fst

omit [DecidableEq Data] in
theorem mem_names {kinds : List (Kind Data)} {name : String} :
    name ∈ names kinds ↔ ∃ kind ∈ kinds, ∃ item ∈ kind.2, item.1 = name := by
  simp only [names,List.mem_map,List.mem_flatMap]
  constructor
  · rintro ⟨item,⟨kind,member,listed⟩,same⟩
    exact ⟨kind,member,item,listed,same⟩
  · rintro ⟨kind,member,item,listed,same⟩
    exact ⟨item,⟨kind,member,listed⟩,same⟩

omit [DecidableEq Data] in
theorem names_append (kinds more : List (Kind Data)) : names (kinds ++ more) = names kinds ++ names more := by
  simp [names]

omit [DecidableEq Data] in
theorem names_single (kind : Kind Data) : names [kind] = kind.2.map Prod.fst := by
  simp [names]

/-- What is known before an update: an agent is one of its own, or it is mapped to another one with its data. -/
structure Sound (tooLarge : Data → Bool) (agents : Agents Data) : Prop where
  kinds : ∀ name agent, agents.lookup name = some agent →
    (∃ d, agent = made tooLarge name agent.subtype d) ∨ ∃ mappedAgent d, agent = mappedTo mappedAgent (some d) ∧
      agents.lookup mappedAgent = some (made tooLarge mappedAgent .agentSupplemental (some d))
  plain : ∀ name agent, agents.lookup name = some agent → agent.subtype = .agentSupplemental → sanitizeEntity name = name

variable {tooLarge : Data → Bool} {around : Surroundings Data} {start now next : Agents Data} {done : List (Kind Data)}

omit [DecidableEq Data] in
theorem Sound.made (sound : Sound tooLarge start)
    {name : String} {agent : Agent Data} (known : start.lookup name = some agent)
    (other : agent.subtype ≠ .agentSupplemental) : ∃ d, agent = made tooLarge name agent.subtype d := by
  obtain own | ⟨mappedAgent,d,rfl,_⟩ := sound.kinds name agent known
  · exact own
  · exact absurd rfl other

structure Brought (tooLarge : Data → Bool) (done : List (Kind Data)) (start now : Agents Data) : Prop where
  here : ∀ kind ∈ done, ∀ item ∈ kind.2, now.lookup item.1 = some (made tooLarge item.1 kind.1 item.2)
  elsewhere : ∀ name ∉ names done,
    now.lookup name = (start.lookup name).filter (·.subtype ∉ done.map Prod.fst)

omit [DecidableEq Data] in
theorem brought_start (tooLarge : Data → Bool) (start : Agents Data) : Brought tooLarge [] start start where
  here kind member := absurd member List.not_mem_nil
  elsewhere name _ := by
    cases start.lookup name <;> rfl

omit [DecidableEq Data] in
theorem Brought.step (brought : Brought tooLarge done start now) (kind : Kind Data)
    (replaced : Replaced tooLarge kind.1 kind.2 now next)
    (apart : ∀ name ∈ names done, name ∉ kind.2.map Prod.fst) (new : kind.1 ∉ done.map Prod.fst) :
    Brought tooLarge (done ++ [kind]) start next := by
  constructor
  · intro other member item listed
    rcases List.mem_append.mp member with earlier | this
    · have elsewhere : item.1 ∉ kind.2.map Prod.fst := apart _ (mem_names.mpr ⟨other,earlier,item,listed,rfl⟩)
      rw [replaced.elsewhere _ elsewhere,brought.here other earlier item listed]
      have differs : other.1 ≠ kind.1 := fun same => new (same ▸ List.mem_map_of_mem earlier)
      simp [made,differs,Option.filter]
    · obtain rfl := List.mem_singleton.mp this
      exact replaced.here item listed
  · intro name absent
    rw [names_append,names_single,List.mem_append,not_or] at absent
    rw [replaced.elsewhere name absent.2,brought.elsewhere name absent.1,Option.filter_filter]
    refine congrArg (Option.filter · _) (funext fun agent => ?_)
    rw [List.map_append,List.map_singleton,← Bool.decide_and]
    exact decide_eq_decide.mpr (by rw [List.mem_append,List.mem_singleton,not_or])

omit [DecidableEq Data] in
/-- What has not been met yet is as it was at the start. -/
theorem Brought.before (brought : Brought tooLarge done start now) {name : String} (absent : name ∉ names done)
    {agent : Agent Data} (known : now.lookup name = some agent) : start.lookup name = some agent := by
  rw [brought.elsewhere name absent] at known
  exact (Option.filter_eq_some_iff.mp known).1

omit [DecidableEq Data] in
theorem Brought.same (brought : Brought tooLarge done start now) {name : String} (absent : name ∉ names done)
    (others : ∀ agent, start.lookup name = some agent → agent.subtype ∉ done.map Prod.fst) :
    now.lookup name = start.lookup name := by
  rw [brought.elsewhere name absent]
  cases known : start.lookup name with
  | none => rfl
  | some agent => rw [Option.filter_some,if_pos (decide_eq_true (others agent known))]

omit [DecidableEq Data] in
theorem Brought.supplemental (brought : Brought tooLarge done start now)
    (apart : .agentSupplemental ∉ done.map Prod.fst) {name : String} {agent : Agent Data}
    (known : now.lookup name = some agent) (kind : agent.subtype = .agentSupplemental) :
    name ∉ names done ∧ start.lookup name = some agent := by
  suffices absent : name ∉ names done from ⟨absent,brought.before absent known⟩
  intro there
  obtain ⟨other,member,item,listed,rfl⟩ := mem_names.mp there
  rw [brought.here other member item listed] at known
  obtain rfl := Option.some.inj known
  exact apart (kind ▸ List.mem_map_of_mem member)

omit [DecidableEq Data] in
theorem Brought.settled (brought : Brought tooLarge done start now) (sound : Sound tooLarge start)
    (apart : .agentSupplemental ∉ done.map Prod.fst) : Settled tooLarge now := by
  constructor
  · intro name agent known kind
    obtain own | ⟨mappedAgent,d,rfl,_⟩ := sound.kinds name agent (brought.supplemental apart known kind).2
    · exact .inl (kind ▸ own)
    · exact .inr ⟨mappedAgent,d,rfl⟩
  · intro name agent known kind
    exact sound.plain name agent (brought.supplemental apart known kind).2 kind

/-! ## The last three passes -/

section Rest
variable {Entry : Type} (source : Source Entry Data)

/-- What a configuration has for the last three passes. -/
structure Rest (Entry Data : Type) where
  scopedItems : List (Item Data)
  supplemental : List Entry
  serviceItems : List (Item Data)

/-- What `processDNSChanges` and `processProxyChanges` do after the default agents. -/
def processRest (tooLarge : Data → Bool) (around : Surroundings Data) (newDomainList : List String) (agents : Agents Data)
    (rest : Rest Entry Data) : Agents Data :=
  let agents := processItems around (processScopedItem tooLarge around .agentScoped) .agentScoped agents rest.scopedItems
  let agents := processSupplemental tooLarge around source newDomainList agents rest.supplemental
  processItems around (processScopedItem tooLarge around .agentServiceSpecific) .agentServiceSpecific agents rest.serviceItems

def Rest.kinds (rest : Rest Entry Data) : List (Kind Data) :=
  [(.agentScoped,rest.scopedItems),(.agentServiceSpecific,rest.serviceItems)]

def Rest.domains (rest : Rest Entry Data) : List String := listedDomains source rest.supplemental

/-- The agents are those that are asked for: each has its data, or is mapped to one that has it. -/
structure InStep (tooLarge : Data → Bool) (done : List (Kind Data)) (rest : Rest Entry Data) (agents : Agents Data) :
    Prop where
  here : ∀ kind ∈ done ++ rest.kinds, ∀ item ∈ kind.2, agents.lookup item.1 = some (made tooLarge item.1 kind.1 item.2)
  provided : ∀ name ∈ rest.domains source,
    Provides tooLarge agents name (getDataFromCurrentConfig source rest.supplemental name)
  others : ∀ name ∉ names (done ++ rest.kinds) ++ rest.domains source, agents.lookup name = none

/-- The names do not meet one another, nor agents of another kind, and the kernel takes what is new. -/
structure Distinct (around : Surroundings Data) (done : List (Kind Data)) (rest : Rest Entry Data) (start : Agents Data) :
    Prop where
  once : (names done ++ (rest.scopedItems.map Prod.fst ++ (rest.domains source ++ rest.serviceItems.map Prod.fst))).Nodup
  unconflicting : Unconflicting source rest.supplemental
  own : ∀ kind ∈ rest.kinds, ∀ item ∈ kind.2, ∀ agent, start.lookup item.1 = some agent → agent.subtype = kind.1
  ownDomains : ∀ name ∈ rest.domains source, ∀ agent, start.lookup name = some agent → agent.subtype = .agentSupplemental
  accepted : ∀ kind ∈ rest.kinds, ∀ item ∈ kind.2, around.refuses item.1 = false
  acceptedDomains : ∀ name ∈ rest.domains source, around.refuses name = false
  apart : .agentScoped ∉ done.map Prod.fst ∧ .agentSupplemental ∉ done.map Prod.fst ∧
    .agentServiceSpecific ∉ done.map Prod.fst

variable {source} {rest : Rest Entry Data}

structure Passed (source : Source Entry Data) (tooLarge : Data → Bool) (done : List (Kind Data))
    (rest : Rest Entry Data) (start a b c : Agents Data) :
    Prop where
  brought : Brought tooLarge (done ++ [(.agentScoped,rest.scopedItems)]) start a
  supplemented : Supplemented tooLarge (getDataFromCurrentConfig source rest.supplemental) (rest.domains source) a b
  replaced : Replaced tooLarge .agentServiceSpecific rest.serviceItems b c

section Apart
variable (distinct : Distinct source around done rest start) {name : String}
include distinct

omit [DecidableEq Data]

theorem Distinct.domain_apart (member : name ∈ rest.domains source) :
    name ∉ names (done ++ [(.agentScoped,rest.scopedItems)]) ∧ name ∉ rest.serviceItems.map Prod.fst := by
  have once := distinct.once
  simp only [List.nodup_append',List.disjoint_append_right] at once
  obtain ⟨_,⟨_,⟨_,_,apartService⟩,apartScoped,_⟩,_,apartDone,_⟩ := once
  rw [names_append,names_single,List.mem_append,not_or]
  exact ⟨⟨fun there => apartDone there member,fun there => apartScoped there member⟩,
    fun there => apartService member there⟩

theorem Distinct.service_apart (member : name ∈ rest.serviceItems.map Prod.fst) :
    name ∉ names (done ++ [(.agentScoped,rest.scopedItems)]) ∧ name ∉ rest.domains source := by
  have once := distinct.once
  simp only [List.nodup_append',List.disjoint_append_right] at once
  obtain ⟨_,⟨_,⟨_,_,apartDomains⟩,_,apartScoped⟩,_,_,apartDone⟩ := once
  rw [names_append,names_single,List.mem_append,not_or]
  exact ⟨⟨fun there => apartDone there member,fun there => apartScoped there member⟩,
    fun there => apartDomains there member⟩

theorem Distinct.scoped_apart (member : name ∈ rest.scopedItems.map Prod.fst) : name ∉ names done := by
  have once := distinct.once
  simp only [List.nodup_append',List.disjoint_append_right] at once
  exact fun there => once.2.2.1 there member

theorem Distinct.supplemental_apart :
    AgentSubType.agentSupplemental ∉ (done ++ [(AgentSubType.agentScoped,rest.scopedItems)]).map Prod.fst := by
  simpa using distinct.apart.2.1

end Apart

private theorem passed (sound : Sound tooLarge start) (brought : Brought tooLarge done start now)
    (distinct : Distinct source around done rest start) :
    ∃ a b, Passed source tooLarge done rest start a b (processRest source tooLarge around (rest.domains source) now rest) := by
  have once := distinct.once
  simp only [List.nodup_append',List.disjoint_append_right] at once
  obtain ⟨_,⟨onceScoped,⟨_,onceService,_⟩,_⟩,_⟩ := once
  have scopedKind : (AgentSubType.agentScoped,rest.scopedItems) ∈ rest.kinds := List.mem_cons_self
  have serviceKind : (AgentSubType.agentServiceSpecific,rest.serviceItems) ∈ rest.kinds := by simp [Rest.kinds]
  have knownScoped : ∀ item ∈ rest.scopedItems, ∀ agent, now.lookup item.1 = some agent →
      ∃ d, agent = made tooLarge item.1 .agentScoped d := by
    intro item member agent known
    have known := brought.before (distinct.scoped_apart (List.mem_map_of_mem member)) known
    have kind : agent.subtype = .agentScoped := distinct.own _ scopedKind item member agent known
    rw [← kind]
    exact sound.made known (by simp [kind])
  have first := brought.step (.agentScoped,rest.scopedItems)
    (scoped_replaced onceScoped (distinct.accepted _ scopedKind) knownScoped)
    (fun name there member => distinct.scoped_apart member there) distinct.apart.1
  have second := processSupplemental_spec (first.settled sound distinct.supplemental_apart)
    distinct.unconflicting
    (fun name member agent known => distinct.ownDomains name member agent (first.before (distinct.domain_apart member).1 known))
    distinct.acceptedDomains
  refine ⟨_,_,first,second,scoped_replaced onceService (distinct.accepted _ serviceKind) ?_⟩
  intro item member agent known
  have apart := distinct.service_apart (List.mem_map_of_mem member)
  rw [second.unlisted _ apart.2] at known
  have known := first.before apart.1 (Option.filter_eq_some_iff.mp known).1
  have kind : agent.subtype = .agentServiceSpecific := distinct.own _ serviceKind item member agent known
  rw [← kind]
  exact sound.made known (by simp [kind])

section Passed
variable {a b c : Agents Data} (passed : Passed source tooLarge done rest start a b c)
variable (distinct : Distinct source around done rest start)
include passed distinct

omit [DecidableEq Data]

theorem Passed.domain_iff {name : String} {agent : Agent Data} (kind : agent.subtype = .agentSupplemental) :
    c.lookup name = some agent ↔ b.lookup name = some agent := by
  by_cases service : name ∈ rest.serviceItems.map Prod.fst
  · obtain ⟨item,member,rfl⟩ := List.mem_map.mp service
    rw [passed.replaced.here item member,passed.supplemented.unlisted _ (distinct.service_apart service).2]
    constructor
    · intro same
      obtain rfl := Option.some.inj same
      cases kind
    · intro known
      exact absurd kind (by simpa using (Option.filter_eq_some_iff.mp known).2)
  · rw [passed.replaced.elsewhere name service,Option.filter_eq_some_iff]
    exact ⟨And.left,fun known => ⟨known,by simp [kind]⟩⟩

theorem Passed.provides_iff {name : String} {data : Option Data} :
    Provides tooLarge c name data ↔ Provides tooLarge b name data := by
  have own (name : String) (data : Option Data) : c.lookup name = some (made tooLarge name .agentSupplemental data) ↔
      b.lookup name = some (made tooLarge name .agentSupplemental data) := passed.domain_iff distinct rfl
  have mapped (mappedAgent : String) (data : Option Data) : c.lookup name = some (mappedTo mappedAgent data) ↔
      b.lookup name = some (mappedTo mappedAgent data) := passed.domain_iff distinct rfl
  simp only [Provides,own,mapped]

theorem Passed.here : ∀ kind ∈ done ++ rest.kinds, ∀ item ∈ kind.2,
    c.lookup item.1 = some (made tooLarge item.1 kind.1 item.2) := by
  intro kind member item listed
  by_cases service : kind = (.agentServiceSpecific,rest.serviceItems)
  · subst service
    exact passed.replaced.here item listed
  have member : kind ∈ done ++ [(AgentSubType.agentScoped,rest.scopedItems)] := by
    simpa [Rest.kinds,service] using member
  have named : item.1 ∈ names (done ++ [(AgentSubType.agentScoped,rest.scopedItems)]) :=
    mem_names.mpr ⟨kind,member,item,listed,rfl⟩
  have kinds : kind.1 ∈ (done ++ [(AgentSubType.agentScoped,rest.scopedItems)]).map Prod.fst := List.mem_map_of_mem member
  have notSupplemental : kind.1 ≠ .agentSupplemental := fun same => distinct.supplemental_apart (same ▸ kinds)
  have notService : kind.1 ≠ .agentServiceSpecific := by
    rw [List.map_append,List.mem_append] at kinds
    rcases kinds with earlier | this
    · exact fun same => distinct.apart.2.2 (same ▸ earlier)
    · rw [List.mem_singleton.mp this]
      simp
  have unlisted : item.1 ∉ rest.domains source := fun there => (distinct.domain_apart there).1 named
  have unserved : item.1 ∉ rest.serviceItems.map Prod.fst := fun there => (distinct.service_apart there).1 named
  rw [passed.replaced.elsewhere _ unserved,passed.supplemented.unlisted _ unlisted,passed.brought.here kind member item listed]
  simp [made,notSupplemental,notService,Option.filter]

/-- Nothing else is left exactly if the passes are for all kinds of agents there have been. -/
theorem Passed.others_iff : (∀ name ∉ names (done ++ rest.kinds) ++ rest.domains source, c.lookup name = none) ↔
    ∀ name ∉ names done, ∀ agent, start.lookup name = some agent →
      agent.subtype ∈ done.map Prod.fst ++ [.agentScoped,.agentSupplemental,.agentServiceSpecific] := by
  have unnamed (name : String) : name ∉ names (done ++ rest.kinds) ++ rest.domains source ↔
      name ∉ names (done ++ [(AgentSubType.agentScoped,rest.scopedItems)]) ∧ name ∉ rest.domains source ∧
        name ∉ rest.serviceItems.map Prod.fst := by
    have split : names rest.kinds = rest.scopedItems.map Prod.fst ++ rest.serviceItems.map Prod.fst := by
      simp [names,Rest.kinds]
    simp only [names_append,names_single,split,List.mem_append,not_or]
    exact ⟨fun absent => ⟨⟨absent.1.1,absent.1.2.1⟩,absent.2,absent.1.2.2⟩,
      fun absent => ⟨⟨absent.1.1,absent.1.2,absent.2.2⟩,absent.2.1⟩⟩
  have end_ (name : String) (absent : name ∉ names (done ++ [(AgentSubType.agentScoped,rest.scopedItems)]))
      (unlisted : name ∉ rest.domains source) (unserved : name ∉ rest.serviceItems.map Prod.fst) :
      c.lookup name = none ↔ ∀ agent, start.lookup name = some agent →
        agent.subtype ∈ done.map Prod.fst ++ [.agentScoped,.agentSupplemental,.agentServiceSpecific] := by
    rw [passed.replaced.elsewhere name unserved,passed.supplemented.unlisted name unlisted,
      passed.brought.elsewhere name absent,Option.filter_filter,Option.filter_filter,Option.filter_eq_none_iff]
    refine forall₂_congr fun agent known => ?_
    simp only [List.map_append,List.map_singleton,List.mem_append,List.mem_cons,List.not_mem_nil,or_false,
      Bool.and_eq_true,decide_eq_true_eq]
    tauto
  constructor
  · intro none_ name absent agent known
    by_cases named : name ∉ names (done ++ rest.kinds) ++ rest.domains source
    · obtain ⟨absent',unlisted,unserved⟩ := (unnamed name).mp named
      exact (end_ name absent' unlisted unserved).mp (none_ name named) agent known
    · rw [not_not,List.mem_append,names_append,List.mem_append] at named
      rw [List.mem_append]
      rcases named with (there | there) | there
      · exact absurd there absent
      · obtain ⟨kind,member,item,listed,rfl⟩ := mem_names.mp there
        have same := distinct.own kind member item listed agent known
        simp only [Rest.kinds,List.mem_cons,List.not_mem_nil,or_false] at member
        obtain rfl | rfl := member <;> simp [same]
      · simp [distinct.ownDomains name there agent known]
  · intro every name named
    obtain ⟨absent,unlisted,unserved⟩ := (unnamed name).mp named
    rw [end_ name absent unlisted unserved]
    refine every name fun there => absent ?_
    rw [names_append,List.mem_append]
    exact .inl there

/-- The domains have what is listed exactly if no agent is kept for another one's data where its own domain
has other data, or where that other one is not listed. -/
theorem Passed.provided_iff (sound : Sound tooLarge start) : (∀ name ∈ rest.domains source,
    Provides tooLarge c name (getDataFromCurrentConfig source rest.supplemental name)) ↔
      ∀ name ∈ rest.domains source, ∀ mappedAgent d, start.lookup name = some (mappedTo mappedAgent (some d)) →
        getDataFromCurrentConfig source rest.supplemental mappedAgent = some d →
        getDataFromCurrentConfig source rest.supplemental name = some d ∧ mappedAgent ∈ rest.domains source := by
  have untouched (name : String) (member : name ∈ rest.domains source) : a.lookup name = start.lookup name :=
    passed.brought.same (distinct.domain_apart member).1 fun agent known =>
      distinct.ownDomains name member agent known ▸ distinct.supplemental_apart
  have targets : ∀ name ∈ rest.domains source, ∀ mappedAgent d, a.lookup name = some (mappedTo mappedAgent (some d)) →
      mappedAgent ∈ rest.domains source →
      a.lookup mappedAgent = some (made tooLarge mappedAgent .agentSupplemental (some d)) := by
    intro name member mappedAgent d known listed
    rw [untouched name member] at known
    rw [untouched mappedAgent listed]
    obtain ⟨data,same⟩ | ⟨other,d',same,there⟩ := sound.kinds name _ known
    · exact absurd same.symm made_ne_mappedTo
    · obtain ⟨rfl,equal⟩ := mappedTo_inj same
      rw [equal]
      exact there
  simp only [passed.provides_iff distinct,passed.supplemented.provides_iff targets]
  refine forall₂_congr fun name member => ?_
  rw [untouched name member]

end Passed

theorem processRest_inStep_iff (sound : Sound tooLarge start) (brought : Brought tooLarge done start now)
    (distinct : Distinct source around done rest start) :
    InStep source tooLarge done rest (processRest source tooLarge around (rest.domains source) now rest) ↔
      (∀ name ∉ names done, ∀ agent, start.lookup name = some agent →
        agent.subtype ∈ done.map Prod.fst ++ [.agentScoped,.agentSupplemental,.agentServiceSpecific]) ∧
      ∀ name ∈ rest.domains source, ∀ mappedAgent d, start.lookup name = some (mappedTo mappedAgent (some d)) →
        getDataFromCurrentConfig source rest.supplemental mappedAgent = some d →
        getDataFromCurrentConfig source rest.supplemental name = some d ∧ mappedAgent ∈ rest.domains source := by
  obtain ⟨a,b,passed⟩ := passed sound brought distinct
  rw [← passed.others_iff distinct,← passed.provided_iff distinct sound]
  exact ⟨fun inStep => ⟨inStep.others,inStep.provided⟩,fun both => ⟨passed.here distinct,both.2,both.1⟩⟩

/-! ## What clients get -/

omit [DecidableEq Data] in
/-- The data that the policies of an agent lead to: it is in the kernel, or the controller is asked for it. -/
def obtained (agents : Agents Data) (name : String) : Option Data :=
  (agents.lookup name).bind fun agent => agent.policy.bind fun uuid => (agents.lookup uuid).bind fun target =>
    if target.registered then
      target.published.bind fun
        | .inBand data => some data
        | .outOfBand agentUUID => copyConfigAgentData agents agentUUID
    else none

omit [DecidableEq Data] in
private theorem obtained_made {agents : Agents Data} {name target : String} {agent : Agent Data} {subtype : AgentSubType}
    {data : Option Data} (known : agents.lookup name = some agent) (policy : agent.policy = some target)
    (there : agents.lookup target = some (made tooLarge target subtype data)) : obtained agents name = data := by
  cases data with
  | none => simp [obtained,known,policy,there,made]
  | some d =>
    cases large : tooLarge d <;>
      simp [obtained,known,policy,there,made,dataLengthSanityCheck,large,copyConfigAgentData]

omit [DecidableEq Data] in
/-- In step, each agent with policies leads its clients to the data that the configuration has for its name. -/
theorem InStep.obtained {agents : Agents Data} (inStep : InStep source tooLarge done rest agents) :
    (∀ kind ∈ done ++ rest.kinds, kind.1 ≠ .agentServiceSpecific → ∀ item ∈ kind.2, obtained agents item.1 = item.2) ∧
      ∀ name ∈ rest.domains source,
        obtained agents name = getDataFromCurrentConfig source rest.supplemental name := by
  constructor
  · intro kind member policies item listed
    have known := inStep.here kind member item listed
    exact obtained_made known (by simp [made,policies]) known
  · intro name listed
    obtain own | ⟨mappedAgent,d,data,mapped,there⟩ := inStep.provided name listed
    · exact obtained_made own rfl own
    · rw [data]
      exact obtained_made mapped rfl there

end Rest

end FreebsdLaunchd.AgentController
