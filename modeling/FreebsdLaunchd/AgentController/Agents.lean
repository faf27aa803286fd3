import Mathlib.Data.List.AList
import FreebsdLaunchd.Library.Keyed
import FreebsdLaunchd.Library.Substrings

/-! The agents through which the IP monitor hands resolvers and proxies to the
network stack: each has a name, is registered with the kernel and has policies
that lead to it. An agent with the data of another one is only mapped to that. -/
namespace FreebsdLaunchd.AgentController

inductive AgentSubType
  | agentScoped | agentSupplemental | agentDefault | agentMulticast | agentPrivate | agentServiceSpecific | agentGlobal
  deriving DecidableEq

/-- What is in the kernel's copy of an agent: the data, or where to ask for it. -/
inductive Publication (Data : Type)
  | inBand (data : Data)
  | outOfBand (agentUUID : String)
  deriving DecidableEq

/-- `ConfigAgent` without the name, which is the key it is found under. A UUID is made from the
name, and `policy` is the one that the policies of the agent lead to. -/
structure Agent (Data : Type) where
  subtype : AgentSubType
  data : Option Data
  mapping : Option String
  registered : Bool
  published : Option (Publication Data)
  policy : Option String
  deriving DecidableEq

/-- `floatingProxyAgentList` or `floatingDNSAgentList`. -/
abbrev Agents (Data : Type) := AList fun _ : String => Agent Data

/-- What one update meets: what the kernel does not take, and in which order a
dictionary is enumerated. -/
structure Surroundings (Data : Type) where
  refuses : String → Bool
  enumerate : Agents Data → List String
  enumerates : ∀ agents, (enumerate agents).Perm agents.keys

variable {Data : Type} [DecidableEq Data]

/-- A message to `nil` gives `NO`. -/
def isEqual (data other : Option Data) : Bool := data.isSome && data == other

theorem isEqual_iff {data other : Option Data} : isEqual data other ↔ ∃ d, data = some d ∧ other = some d := by
  cases data with
  | none => simp [isEqual]
  | some d =>
    have swap : other = some d ↔ some d = other := eq_comm
    simp [isEqual,swap]

def Agent.updateAgentData (agent : Agent Data) (data : Option Data) : Agent Data × Bool :=
  if isEqual data agent.data then (agent,false) else ({agent with data := data},true)

theorem updateAgentData_data (agent : Agent Data) (data : Option Data) :
    (agent.updateAgentData data).1 = {agent with data := data} := by
  rw [Agent.updateAgentData]
  split
  next same =>
    obtain ⟨d,rfl,held⟩ := isEqual_iff.mp same
    rw [← held]
  next => rfl

section Publish
variable (tooLarge : Data → Bool)

def dataLengthSanityCheck (name : String) (data : Data) : Publication Data :=
  if tooLarge data then .outOfBand name else .inBand data

def publishToAgent (name : String) (agent : Agent Data) : Agent Data :=
  if agent.registered then {agent with published := agent.data.map (dataLengthSanityCheck tooLarge name)} else agent

/-- An agent of its own, as it is after its data has been published. -/
def made (name : String) (subtype : AgentSubType) (data : Option Data) : Agent Data where
  subtype := subtype
  data := data
  mapping := none
  registered := true
  published := data.map (dataLengthSanityCheck tooLarge name)
  policy := if subtype = .agentServiceSpecific then none else some name

/-- An agent without a policy of its own is one for a service. -/
def spawnFloatingAgent (around : Surroundings Data) (agents : Agents Data) (entity : String) (subtype : AgentSubType)
    (publishData : Option Data) : Agents Data :=
  if around.refuses entity then agents
  else
    let agent : Agent Data :=
      ⟨subtype,none,none,true,none,if subtype = .agentServiceSpecific then none else some entity⟩
    let agent := if publishData.isSome then publishToAgent tooLarge entity (agent.updateAgentData publishData).1 else agent
    agents.insert entity agent

omit [DecidableEq Data] in
@[simp] theorem publish_made (name : String) (subtype : AgentSubType) (data : Option Data) :
    publishToAgent tooLarge name (made tooLarge name subtype data) = made tooLarge name subtype data := rfl

theorem spawn_eq (around : Surroundings Data) (agents : Agents Data) (entity : String) (subtype : AgentSubType)
    (data : Option Data) : spawnFloatingAgent tooLarge around agents entity subtype data =
      if around.refuses entity then agents else agents.insert entity (made tooLarge entity subtype data) := by
  cases data with
  | none => rfl
  | some d => rfl

end Publish

/-- The agent has the data of `mappedAgent`, and its policies lead there. -/
def mappedTo (mappedAgent : String) (data : Option Data) : Agent Data :=
  ⟨.agentSupplemental,data,some mappedAgent,false,none,some mappedAgent⟩

def spawnMappedFloatingAgent (around : Surroundings Data) (agents : Agents Data) (mappedAgent entity : String)
    (updateData : Option Data) : Agents Data :=
  if around.refuses entity then agents
  else
    let dummyAgent : Agent Data := ⟨.agentSupplemental,none,none,false,none,some mappedAgent⟩
    let dummyAgent := if updateData.isSome then (dummyAgent.updateAgentData updateData).1 else dummyAgent
    agents.insert entity {dummyAgent with mapping := some mappedAgent}

omit [DecidableEq Data] in
theorem made_ne_mappedTo {tooLarge : Data → Bool} {name mappedAgent : String} {subtype : AgentSubType}
    {data other : Option Data} : made tooLarge name subtype data ≠ mappedTo mappedAgent other := by
  intro same
  exact absurd (congrArg Agent.mapping same) (by simp [made,mappedTo])

omit [DecidableEq Data] in
theorem mappedTo_inj {mappedAgent other : String} {data data' : Option Data}
    (same : mappedTo mappedAgent data = mappedTo other data') : mappedAgent = other ∧ data = data' :=
  ⟨Option.some.inj (congrArg Agent.mapping same),congrArg Agent.data same⟩

theorem spawnMapped_eq (around : Surroundings Data) (agents : Agents Data) (mappedAgent entity : String)
    (data : Option Data) : spawnMappedFloatingAgent around agents mappedAgent entity data =
      if around.refuses entity then agents else agents.insert entity (mappedTo mappedAgent data) := by
  cases data with
  | none => rfl
  | some d => rfl

def getAgentWithSameDataAndSubType (around : Surroundings Data) (agents : Agents Data)
    (data : Option Data) (subtype : AgentSubType) : Option String :=
  (around.enumerate agents).find? fun name => (agents.lookup name).any fun agent =>
    isEqual agent.data data && agent.subtype = subtype && agent.registered

omit [DecidableEq Data]

def destroyFloatingAgent (agents : Agents Data) (name : String) : Agents Data := agents.erase name

def deleteAgentList (agents : Agents Data) (list : List String) : Agents Data := list.foldl destroyFloatingAgent agents

def getAgentList (around : Surroundings Data) (agents : Agents Data) (subtype : AgentSubType) : List String :=
  (around.enumerate agents).filter fun name => (agents.lookup name).any (·.subtype = subtype)

/-- What a client gets that has been sent to the controller. -/
def copyConfigAgentData (agents : Agents Data) (requestedUuid : String) : Option Data :=
  (agents.lookup requestedUuid).bind (·.data)

/-! ## Names -/

def multipleEntitySuffix : String := " #"

def sanitizeEntity (entity : String) : String :=
  match Substrings.location multipleEntitySuffix.toList entity.toList with
  | some location => String.ofList (entity.toList.take location)
  | none => entity

/-- The conflicting agents of the configuration before, and those that conflict in the new one. -/
def cleanConflictingAgentsFromList (oldList newList : List String) (agents : Agents Data) : Agents Data :=
  let agents := oldList.foldl (fun agents domain =>
    let sanitizedDomain := sanitizeEntity domain
    if sanitizedDomain ≠ domain then destroyFloatingAgent (destroyFloatingAgent agents sanitizedDomain) domain
    else agents) agents
  oldList.foldl (fun agents domain =>
    if newList.count domain > 1 then destroyFloatingAgent agents domain else agents) agents

/-! ## Looking up -/

variable {agents : Agents Data} {around : Surroundings Data} {name other : String}

theorem lookup_insert {agent : Agent Data} (other : String) :
    (agents.insert name agent).lookup other = if other = name then some agent else agents.lookup other := by
  by_cases same : other = name
  · rw [same,AList.lookup_insert,if_pos rfl]
  · rw [AList.lookup_insert_ne same,if_neg same]

theorem lookup_destroy (agents : Agents Data) (name other : String) :
    (destroyFloatingAgent agents name).lookup other = if other = name then none else agents.lookup other := by
  by_cases same : other = name
  · rw [same,destroyFloatingAgent,AList.lookup_erase,if_pos rfl]
  · rw [destroyFloatingAgent,AList.lookup_erase_ne same,if_neg same]

theorem lookup_delete (agents : Agents Data) (list : List String) (name : String) :
    (deleteAgentList agents list).lookup name = if name ∈ list then none else agents.lookup name := by
  induction list generalizing agents with
  | nil => simp [deleteAgentList]
  | cons first list ih =>
    rw [deleteAgentList,List.foldl_cons]
    refine (ih _).trans ?_
    rw [lookup_destroy]
    by_cases here : name = first
    · simp [here]
    · simp [here]

theorem mem_enumerate (around : Surroundings Data) (agents : Agents Data) (name : String) :
    name ∈ around.enumerate agents ↔ (agents.lookup name).isSome := by
  rw [(around.enumerates agents).mem_iff,← AList.mem_keys,AList.lookup_isSome]

theorem mem_getAgentList (around : Surroundings Data) (agents : Agents Data) (subtype : AgentSubType) (name : String) :
    name ∈ getAgentList around agents subtype ↔ ∃ agent, agents.lookup name = some agent ∧ agent.subtype = subtype := by
  rw [getAgentList,List.mem_filter,mem_enumerate]
  cases agents.lookup name with
  | none => simp
  | some agent => simp

theorem getAgentList_nodup (around : Surroundings Data) (agents : Agents Data) (subtype : AgentSubType) :
    (getAgentList around agents subtype).Nodup :=
  ((around.enumerates agents).nodup_iff.mpr agents.keys_nodup).filter _

end FreebsdLaunchd.AgentController
