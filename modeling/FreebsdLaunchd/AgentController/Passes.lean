import FreebsdLaunchd.AgentController.Agents

/-! The passes that bring the agents of one kind in step with a configuration: they go
through what is wanted, and what is left of the agents before is destroyed. -/
namespace FreebsdLaunchd.AgentController
open Pointwise

variable {Data : Type} [DecidableEq Data] (tooLarge : Data → Bool) (around : Surroundings Data)

structure Pass (Data : Type) where
  agents : Agents Data
  old : List String

abbrev Item (Data : Type) := String × Option Data

def processDefaultResolver (p : Pass Data) (item : Item Data) : Pass Data :=
  match p.agents.lookup item.1 with
  | some agent =>
    let old := p.old.filter (· ≠ item.1)
    if isEqual item.2 agent.data then ⟨p.agents,old⟩
    else ⟨spawnFloatingAgent tooLarge around (destroyFloatingAgent p.agents item.1) item.1 .agentDefault item.2,old⟩
  | none => ⟨spawnFloatingAgent tooLarge around p.agents item.1 .agentDefault item.2,p.old⟩

/-- A multicast or private resolver has an agent without data. -/
def processDomainResolver (subtype : AgentSubType) (p : Pass Data) (item : Item Data) : Pass Data :=
  match p.agents.lookup item.1 with
  | some _ => ⟨p.agents,p.old.filter (· ≠ item.1)⟩
  | none => ⟨spawnFloatingAgent tooLarge around p.agents item.1 subtype none,p.old⟩

/-- What is scoped or for a service has an agent that is updated in place. -/
def processScopedItem (subtype : AgentSubType) (p : Pass Data) (item : Item Data) : Pass Data :=
  if item.1 ∈ p.old then
    let old := p.old.filter (· ≠ item.1)
    match p.agents.lookup item.1 with
    | none => ⟨p.agents,old⟩
    | some agent =>
      let updated := agent.updateAgentData item.2
      ⟨p.agents.insert item.1 (if updated.2 then publishToAgent tooLarge item.1 updated.1 else updated.1),old⟩
  else ⟨spawnFloatingAgent tooLarge around p.agents item.1 subtype item.2,p.old⟩

def processItems (each : Pass Data → Item Data → Pass Data) (subtype : AgentSubType) (agents : Agents Data)
    (items : List (Item Data)) : Agents Data :=
  let p := items.foldl each ⟨agents,getAgentList around agents subtype⟩
  deleteAgentList p.agents p.old

/-! ## What a pass does at one name -/

/-- What the dictionary has for a name, and whether it has been met. -/
abbrev Seen (Data : Type) := Option (Agent Data) × Bool

omit [DecidableEq Data] in
def Pass.seen (p : Pass Data) (name : String) : Seen Data := (p.agents.lookup name,decide (name ∈ p.old))

def spawned (entity : String) (subtype : AgentSubType) (data : Option Data) (before : Option (Agent Data)) :
    Option (Agent Data) :=
  if around.refuses entity then before else some (made tooLarge entity subtype data)

private theorem lookup_spawn (agents : Agents Data) (entity : String) (subtype : AgentSubType) (data : Option Data)
    (name : String) : (spawnFloatingAgent tooLarge around agents entity subtype data).lookup name =
      if name = entity then spawned tooLarge around entity subtype data (agents.lookup name) else agents.lookup name := by
  rw [spawn_eq,spawned]
  cases around.refuses entity with
  | true => simp
  | false => simpa using lookup_insert name

def changeDefault (item : Item Data) (seen : Seen Data) : Seen Data :=
  match seen.1 with
  | some agent =>
    if isEqual item.2 agent.data then (some agent,false)
    else (spawned tooLarge around item.1 .agentDefault item.2 none,false)
  | none => (spawned tooLarge around item.1 .agentDefault item.2 none,seen.2)

def changeDomain (subtype : AgentSubType) (item : Item Data) (seen : Seen Data) : Seen Data :=
  match seen.1 with
  | some agent => (some agent,false)
  | none => (spawned tooLarge around item.1 subtype none none,seen.2)

def changeScoped (subtype : AgentSubType) (item : Item Data) (seen : Seen Data) : Seen Data :=
  if seen.2 then
    (seen.1.map fun agent =>
      let updated := agent.updateAgentData item.2
      if updated.2 then publishToAgent tooLarge item.1 updated.1 else updated.1,false)
  else (spawned tooLarge around item.1 subtype item.2 seen.1,false)

private theorem touches_default : Touches Pass.seen Prod.fst (changeDefault tooLarge around) (processDefaultResolver tooLarge around) := by
  intro p item name
  rw [processDefaultResolver]
  by_cases here : name = item.1
  · subst here
    rw [if_pos rfl,changeDefault,Pass.seen]
    cases known : p.agents.lookup item.1 with
    | none => simp [Pass.seen,lookup_spawn,known]
    | some agent =>
      cases same : isEqual item.2 agent.data <;> simp [Pass.seen,lookup_spawn,lookup_destroy,known,same]
  · rw [if_neg here]
    cases p.agents.lookup item.1 with
    | none => simp [Pass.seen,lookup_spawn,here]
    | some agent =>
      cases same : isEqual item.2 agent.data <;> simp [Pass.seen,lookup_spawn,lookup_destroy,here,same]

private theorem touches_domain (subtype : AgentSubType) :
    Touches Pass.seen Prod.fst (changeDomain tooLarge around subtype) (processDomainResolver tooLarge around subtype) := by
  intro p item name
  rw [processDomainResolver]
  by_cases here : name = item.1
  · subst here
    rw [if_pos rfl,changeDomain,Pass.seen]
    cases known : p.agents.lookup item.1 with
    | none => simp [Pass.seen,lookup_spawn,known]
    | some agent => simp [Pass.seen,known]
  · rw [if_neg here]
    cases p.agents.lookup item.1 with
    | none => simp [Pass.seen,lookup_spawn,here]
    | some agent => simp [Pass.seen,here]

private theorem touches_scoped (subtype : AgentSubType) :
    Touches Pass.seen Prod.fst (changeScoped tooLarge around subtype) (processScopedItem tooLarge around subtype) := by
  intro p item name
  rw [processScopedItem]
  by_cases here : name = item.1
  · subst here
    rw [if_pos rfl,changeScoped,Pass.seen]
    by_cases met : item.1 ∈ p.old
    · cases known : p.agents.lookup item.1 with
      | none => simp [Pass.seen,known,met]
      | some agent => simp [Pass.seen,known,met]
    · simp [Pass.seen,lookup_spawn,met]
  · rw [if_neg here]
    by_cases met : item.1 ∈ p.old
    · cases p.agents.lookup item.1 with
      | none => simp [Pass.seen,met,here]
      | some agent => simp [Pass.seen,met,here]
    · simp [Pass.seen,lookup_spawn,met,here]

/-! ## A whole pass -/

/-- The agents of a kind are those that are wanted, and the others are as before. -/
structure Replaced (subtype : AgentSubType) (items : List (Item Data)) (before after : Agents Data) : Prop where
  here : ∀ item ∈ items, after.lookup item.1 = some (made tooLarge item.1 subtype item.2)
  elsewhere : ∀ name ∉ items.map Prod.fst, after.lookup name = (before.lookup name).filter (·.subtype ≠ subtype)

variable {tooLarge around} {subtype : AgentSubType} {items : List (Item Data)} {agents : Agents Data}
variable {each : Pass Data → Item Data → Pass Data} {change : Item Data → Seen Data → Seen Data}

omit [DecidableEq Data] in
private theorem processItems_replaced (touches : Touches Pass.seen Prod.fst change each)
    (distinct : (items.map Prod.fst).Nodup)
    (fresh : ∀ item ∈ items, agents.lookup item.1 = none →
      change item (none,false) = (some (made tooLarge item.1 subtype item.2),false))
    (known : ∀ item ∈ items, ∀ agent, agents.lookup item.1 = some agent →
      agent.subtype = subtype ∧ change item (some agent,true) = (some (made tooLarge item.1 subtype item.2),false)) :
    Replaced tooLarge subtype items agents (processItems around each subtype agents items) := by
  let start : Pass Data := ⟨agents,getAgentList around agents subtype⟩
  have seen (name : String) (p : Pass Data) (value : Option (Agent Data)) (met : Bool) (same : p.seen name = (value,met)) :
      (deleteAgentList p.agents p.old).lookup name = if met then none else value := by
    obtain ⟨rfl,rfl⟩ := Prod.mk.inj same
    rw [lookup_delete]
    simp
  constructor
  · intro item member
    have end_ := touches.here distinct member start
    refine (seen item.1 _ (some (made tooLarge item.1 subtype item.2)) false ?_).trans (if_neg (by simp))
    rw [end_]
    cases lookup : agents.lookup item.1 with
    | none =>
      have unmet : item.1 ∉ getAgentList around agents subtype := by simp [mem_getAgentList,lookup]
      rw [← fresh item member lookup]
      simp [Pass.seen,start,lookup,unmet]
    | some agent =>
      obtain ⟨kind,brought⟩ := known item member agent lookup
      have met : item.1 ∈ getAgentList around agents subtype := by simp [mem_getAgentList,lookup,kind]
      rw [← brought]
      simp [Pass.seen,start,lookup,met]
  · intro name other
    have end_ := touches.elsewhere other start
    refine (seen name _ (agents.lookup name) (decide (name ∈ getAgentList around agents subtype)) end_).trans ?_
    simp only [decide_eq_true_eq,mem_getAgentList]
    cases agents.lookup name with
    | none => simp
    | some agent => by_cases kind : agent.subtype = subtype <;> simp [kind,Option.filter]

section Kinds
variable (distinct : (items.map Prod.fst).Nodup) (accepted : ∀ item ∈ items, around.refuses item.1 = false)
include distinct accepted

theorem default_replaced
    (known : ∀ item ∈ items, ∀ agent, agents.lookup item.1 = some agent → ∃ d, agent = made tooLarge item.1 .agentDefault d) :
    Replaced tooLarge .agentDefault items agents
      (processItems around (processDefaultResolver tooLarge around) .agentDefault agents items) := by
  refine processItems_replaced (touches_default tooLarge around) distinct ?_ ?_
  · intro item member _
    simp [changeDefault,spawned,accepted item member]
  · intro item member agent lookup
    obtain ⟨d,rfl⟩ := known item member agent lookup
    refine ⟨rfl,?_⟩
    rw [changeDefault]
    dsimp only
    split
    next same =>
      obtain ⟨data,given,held⟩ := isEqual_iff.mp same
      rw [given,show d = some data from held]
    next => simp [spawned,accepted item member]

theorem domain_replaced
    (known : ∀ item ∈ items, ∀ agent, agents.lookup item.1 = some agent → agent = made tooLarge item.1 subtype none)
    (bare : ∀ item ∈ items, item.2 = none) :
    Replaced tooLarge subtype items agents
      (processItems around (processDomainResolver tooLarge around subtype) subtype agents items) := by
  refine processItems_replaced (touches_domain tooLarge around subtype) distinct ?_ ?_
  · intro item member _
    simp [changeDomain,spawned,accepted item member,bare item member]
  · intro item member agent lookup
    obtain rfl := known item member agent lookup
    exact ⟨rfl,by simp [changeDomain,bare item member]⟩

theorem scoped_replaced
    (known : ∀ item ∈ items, ∀ agent, agents.lookup item.1 = some agent → ∃ d, agent = made tooLarge item.1 subtype d) :
    Replaced tooLarge subtype items agents
      (processItems around (processScopedItem tooLarge around subtype) subtype agents items) := by
  refine processItems_replaced (touches_scoped tooLarge around subtype) distinct ?_ ?_
  · intro item member _
    simp [changeScoped,spawned,accepted item member]
  · intro item member agent lookup
    obtain ⟨d,rfl⟩ := known item member agent lookup
    refine ⟨rfl,?_⟩
    rw [changeScoped,if_pos rfl,Option.map_some,Agent.updateAgentData]
    split
    next same =>
      obtain ⟨data,given,held⟩ := isEqual_iff.mp same
      rw [given,show d = some data from held]
      rfl
    next => rfl

end Kinds

end FreebsdLaunchd.AgentController
