import FreebsdLaunchd.AgentController.Agents

/-! The agents of the domains that a configuration lists next to its defaults. Domains with
the same data share one agent of the kernel: the other ones are mapped to it. -/
namespace FreebsdLaunchd.AgentController
open Pointwise

/-- What the two passes for supplemental agents look at in an entry of the configuration. -/
structure Source (Entry Data : Type) where
  domain : Entry → Option String
  data : Entry → Option Data
  /-- The entries that `getDNSDataFromCurrentConfig` and `getProxyDataFromCurrentConfig` go through. -/
  consulted : Entry → Bool
  listed : Entry → Bool
  respawned : Entry → Bool
  respawned_of_listed : ∀ e, listed e → respawned e
  consulted_of_respawned : ∀ e, respawned e → consulted e

variable {Entry Data : Type} [DecidableEq Data] (tooLarge : Data → Bool) (around : Surroundings Data)
variable (source : Source Entry Data)

omit [DecidableEq Data] in
def getDataFromCurrentConfig (entries : List Entry) (domain : String) : Option Data :=
  (entries.find? fun e => source.consulted e && source.domain e = some domain).bind source.data

omit [DecidableEq Data] in
def listedDomains (entries : List Entry) : List String :=
  entries.filterMap fun e => if source.listed e then source.domain e else none

structure Comparison (Data : Type) where
  agents : Agents Data
  deleteList : List String
  updateAgentList : List String
  newDomainList : List String

def compareAgent (current : String → Option Data) (s : Comparison Data) (domain : String) : Comparison Data :=
  match s.agents.lookup domain with
  | none => s
  | some agent =>
    match agent.mapping with
    | some mappedAgent =>
      -- only the data of the other agent is looked at here
      if (current mappedAgent).isNone || !isEqual agent.data (current mappedAgent) then
        {s with deleteList := s.deleteList ++ [domain]}
      else {s with newDomainList := s.newDomainList.filter (· ≠ domain)}
    | none =>
      let newDomainList := s.newDomainList.filter (· ≠ domain)
      if isEqual agent.data (current domain) then {s with newDomainList := newDomainList}
      else
        { agents := s.agents.insert domain (agent.updateAgentData (current domain)).1
          deleteList := s.deleteList
          updateAgentList := s.updateAgentList ++ [domain]
          newDomainList := newDomainList }

omit [DecidableEq Data] in
def publishNamed (agents : Agents Data) (name : String) : Agents Data :=
  match agents.lookup name with
  | none => agents
  | some agent => agents.insert name (publishToAgent tooLarge name agent)

structure Spawning (Data : Type) where
  agents : Agents Data
  newDomainList : List String
  duplicateDomainList : List String

def spawnEntry (s : Spawning Data) (e : Entry) : Spawning Data :=
  match source.domain e with
  | none => s
  | some domain =>
    if source.respawned e ∧ domain ∈ s.newDomainList then
      let data := source.data e
      let domainInstance := s.duplicateDomainList.count domain
      let agents :=
        if domainInstance > 0 then
          spawnFloatingAgent tooLarge around s.agents (domain ++ multipleEntitySuffix ++ toString (domainInstance+1))
            .agentSupplemental data
        else
          match getAgentWithSameDataAndSubType around s.agents data .agentSupplemental with
          | some mappedAgent => spawnMappedFloatingAgent around s.agents mappedAgent domain data
          | none => spawnFloatingAgent tooLarge around s.agents domain .agentSupplemental data
      ⟨agents,s.newDomainList.erase domain,domain::s.duplicateDomainList⟩
    else s

/-- `processSupplementalDNSResolvers` and `processSupplementalProxyChanges`, from the list of the
domains in the configuration on. -/
def processSupplemental (newDomainList : List String) (agents : Agents Data) (entries : List Entry) : Agents Data :=
  let oldDomainList := getAgentList around agents .agentSupplemental
  let agents := cleanConflictingAgentsFromList oldDomainList newDomainList agents
  let agents := deleteAgentList agents (oldDomainList.filter (· ∉ newDomainList))
  let s := oldDomainList.foldl (compareAgent (getDataFromCurrentConfig source entries)) ⟨agents,[],[],newDomainList⟩
  let agents := deleteAgentList s.agents s.deleteList
  let agents := s.updateAgentList.foldl (publishNamed tooLarge) agents
  (entries.foldl (spawnEntry tooLarge around source) ⟨agents,s.newDomainList,[]⟩).agents

/-! ## The agents before -/

section Compare
variable (current : String → Option Data)

/-- An agent, and whether it is to be destroyed, to be published and to be spawned. -/
abbrev Compared (Data : Type) := Option (Agent Data) × Bool × Bool × Bool

omit [DecidableEq Data] in
def Comparison.seen (s : Comparison Data) (name : String) : Compared Data :=
  (s.agents.lookup name,decide (name ∈ s.deleteList),decide (name ∈ s.updateAgentList),decide (name ∈ s.newDomainList))

def changeCompared (name : String) (seen : Compared Data) : Compared Data :=
  match seen.1 with
  | none => seen
  | some agent =>
    match agent.mapping with
    | some mappedAgent =>
      if (current mappedAgent).isNone || !isEqual agent.data (current mappedAgent) then
        (some agent,true,seen.2.2)
      else (some agent,seen.2.1,seen.2.2.1,false)
    | none =>
      if isEqual agent.data (current name) then (some agent,seen.2.1,seen.2.2.1,false)
      else (some (agent.updateAgentData (current name)).1,seen.2.1,true,false)

private theorem touches_compare : Touches Comparison.seen id (changeCompared current) (compareAgent current) := by
  intro s domain name
  rw [compareAgent]
  by_cases here : name = domain
  · subst here
    rw [id,if_pos rfl,changeCompared,Comparison.seen]
    cases known : s.agents.lookup name with
    | none => simp [Comparison.seen,known]
    | some agent =>
      cases mapping : agent.mapping with
      | some mappedAgent =>
        cases gone : (current mappedAgent).isNone || !isEqual agent.data (current mappedAgent) <;>
          simp [Comparison.seen,known,mapping,gone]
      | none =>
        cases same : isEqual agent.data (current name) <;> simp [Comparison.seen,known,mapping,same]
  · rw [id,if_neg here]
    cases s.agents.lookup domain with
    | none => rfl
    | some agent =>
      cases mapping : agent.mapping with
      | some mappedAgent =>
        cases gone : (current mappedAgent).isNone || !isEqual agent.data (current mappedAgent) <;>
          simp [Comparison.seen,mapping,gone,here]
      | none =>
        cases same : isEqual agent.data (current domain) <;>
          simp [Comparison.seen,mapping,same,here]

end Compare

omit [DecidableEq Data] in
private theorem lookup_publish (agents : Agents Data) (list : List String) (name : String) :
    (list.foldl (publishNamed tooLarge) agents).lookup name =
      if name ∈ list then (agents.lookup name).map (publishToAgent tooLarge name) else agents.lookup name := by
  have again (agent : Agent Data) :
      publishToAgent tooLarge name (publishToAgent tooLarge name agent) = publishToAgent tooLarge name agent := by
    cases registered : agent.registered <;> simp [publishToAgent,registered]
  induction list generalizing agents with
  | nil => simp
  | cons first list ih =>
    rw [List.foldl_cons,ih,publishNamed]
    by_cases here : name = first
    · subst here
      cases known : agents.lookup name <;> simp [known,again]
    · cases agents.lookup first <;> simp [here]

omit [DecidableEq Data] in
private theorem clean_plain {oldList newList : List String} (agents : Agents Data)
    (plain : ∀ name ∈ oldList, sanitizeEntity name = name) (distinct : newList.Nodup) :
    cleanConflictingAgentsFromList oldList newList agents = agents := by
  have first (list : List String) (plain : ∀ name ∈ list, sanitizeEntity name = name) :
      list.foldl (fun agents domain => if sanitizeEntity domain ≠ domain then
        destroyFloatingAgent (destroyFloatingAgent agents (sanitizeEntity domain)) domain else agents) agents = agents := by
    induction list with
    | nil => rfl
    | cons name list ih =>
      rw [List.forall_mem_cons] at plain
      rw [List.foldl_cons,if_neg (by simp [plain.1]),ih plain.2]
  have second (list : List String) : list.foldl (fun agents domain =>
      if newList.count domain > 1 then destroyFloatingAgent agents domain else agents) agents = agents := by
    induction list with
    | nil => rfl
    | cons name list ih =>
      rw [List.foldl_cons,if_neg (Nat.not_lt.mpr (List.nodup_iff_count_le_one.mp distinct name)),ih]
  exact (congrArg (fun agents => oldList.foldl (fun agents domain =>
    if newList.count domain > 1 then destroyFloatingAgent agents domain else agents) agents) (first oldList plain)).trans
    (second oldList)

/-- What becomes of an agent before its domain may get a new one. -/
inductive Refreshed (current : String → Option Data) (name : String) : Option (Agent Data) → Option (Agent Data) → Bool → Prop
  | unknown : Refreshed current name none none true
  | own (d : Option Data) : Refreshed current name (some (made tooLarge name .agentSupplemental d))
      (some (made tooLarge name .agentSupplemental (current name))) false
  | kept (mappedAgent : String) (d : Data) (same : current mappedAgent = some d) :
      Refreshed current name (some (mappedTo mappedAgent (some d))) (some (mappedTo mappedAgent (some d))) false
  | released (mappedAgent : String) (d : Data) (differs : current mappedAgent ≠ some d) :
      Refreshed current name (some (mappedTo mappedAgent (some d))) none true

section Refreshed
variable {tooLarge} {current : String → Option Data} {name : String} {before after : Option (Agent Data)} {pending : Bool}
variable (outcome : Refreshed tooLarge current name before after pending)
include outcome

omit [DecidableEq Data]

theorem Refreshed.absent (left : pending = true) : after = none := by
  cases outcome with
  | unknown => rfl
  | released => rfl
  | own => cases left
  | kept => cases left

theorem Refreshed.registered {agent : Agent Data} (there : after = some agent) (registered : agent.registered) :
    agent = made tooLarge name .agentSupplemental agent.data := by
  cases outcome with
  | unknown => cases there
  | released => cases there
  | own d =>
    cases there
    rfl
  | kept mappedAgent d =>
    cases there
    cases registered

theorem Refreshed.stays {mappedAgent : String} {d : Data} (known : before = some (mappedTo mappedAgent (some d)))
    (same : current mappedAgent = some d) : after = before := by
  cases outcome with
  | unknown => rfl
  | kept => rfl
  | own => exact absurd (Option.some.inj known) made_ne_mappedTo
  | released other d' differs =>
    obtain ⟨rfl,data⟩ := mappedTo_inj (Option.some.inj known)
    exact absurd (same.trans data.symm) differs

theorem Refreshed.updated {d : Option Data} (known : before = some (made tooLarge name .agentSupplemental d)) :
    after = some (made tooLarge name .agentSupplemental (current name)) := by
  cases outcome with
  | unknown => cases known
  | own => rfl
  | kept => exact absurd (Option.some.inj known).symm made_ne_mappedTo
  | released => exact absurd (Option.some.inj known).symm made_ne_mappedTo

theorem Refreshed.pending_or
    (differs : ∀ mappedAgent d, before = some (mappedTo mappedAgent (some d)) → current mappedAgent ≠ some d) :
    pending = true ∨ after = some (made tooLarge name .agentSupplemental (current name)) := by
  cases outcome with
  | unknown => exact .inl rfl
  | released => exact .inl rfl
  | own => exact .inr rfl
  | kept mappedAgent d same => exact absurd same (differs mappedAgent d rfl)

end Refreshed

/-- The agents between the two loops, and the domains that are left for the second one. -/
def refresh (current : String → Option Data) (agents : Agents Data) (newDomainList : List String) :
    Agents Data × List String :=
  let oldDomainList := getAgentList around agents .agentSupplemental
  let agents := cleanConflictingAgentsFromList oldDomainList newDomainList agents
  let agents := deleteAgentList agents (oldDomainList.filter (· ∉ newDomainList))
  let s := oldDomainList.foldl (compareAgent current) ⟨agents,[],[],newDomainList⟩
  (s.updateAgentList.foldl (publishNamed tooLarge) (deleteAgentList s.agents s.deleteList),s.newDomainList)

private theorem processSupplemental_eq (newDomainList : List String) (agents : Agents Data) (entries : List Entry) :
    processSupplemental tooLarge around source newDomainList agents entries =
      let refreshed := refresh tooLarge around (getDataFromCurrentConfig source entries) agents newDomainList
      (entries.foldl (spawnEntry tooLarge around source) ⟨refreshed.1,refreshed.2,[]⟩).agents := rfl

/-- The agents before are of two kinds, and no domain has had conflicting ones. -/
structure Settled (agents : Agents Data) : Prop where
  kinds : ∀ name agent, agents.lookup name = some agent → agent.subtype = .agentSupplemental →
    (∃ d, agent = made tooLarge name .agentSupplemental d) ∨ ∃ mappedAgent d, agent = mappedTo mappedAgent (some d)
  plain : ∀ name agent, agents.lookup name = some agent → agent.subtype = .agentSupplemental → sanitizeEntity name = name

section Refresh
variable {tooLarge around} {current : String → Option Data} {agents : Agents Data} {newDomainList : List String}

private theorem refresh_seen (around : Surroundings Data) (current : String → Option Data)
    (settled : Settled tooLarge agents)
    (distinct : newDomainList.Nodup) (name : String) :
    let seen : Compared Data :=
      (if name ∈ getAgentList around agents .agentSupplemental ∧ name ∉ newDomainList then none else agents.lookup name,
        false,false,decide (name ∈ newDomainList))
    let after := if name ∈ getAgentList around agents .agentSupplemental then changeCompared current name seen else seen
    (refresh tooLarge around current agents newDomainList).1.lookup name =
      (if after.2.2.1 then (if after.2.1 then none else after.1).map (publishToAgent tooLarge name)
        else if after.2.1 then none else after.1) ∧
    (decide (name ∈ (refresh tooLarge around current agents newDomainList).2) = after.2.2.2) := by
  have plain : ∀ name ∈ getAgentList around agents .agentSupplemental, sanitizeEntity name = name := by
    intro name member
    obtain ⟨agent,known,kind⟩ := (mem_getAgentList around agents _ name).mp member
    exact settled.plain name agent known kind
  intro seen after
  rw [refresh,clean_plain agents plain distinct]
  let start : Comparison Data :=
    ⟨deleteAgentList agents ((getAgentList around agents .agentSupplemental).filter (· ∉ newDomainList)),[],[],newDomainList⟩
  have begun : start.seen name = seen := by
    simp [start,seen,Comparison.seen,lookup_delete]
  have ended : ((getAgentList around agents .agentSupplemental).foldl (compareAgent current) start).seen name = after := by
    by_cases old : name ∈ getAgentList around agents .agentSupplemental
    · have here := (touches_compare current).here (by simpa using getAgentList_nodup around agents .agentSupplemental) old start
      refine (show _ = changeCompared current name (start.seen name) from here).trans ?_
      rw [begun]
      exact (if_pos old).symm
    · have elsewhere := (touches_compare current).elsewhere (by simpa using old) start
      exact (elsewhere.trans begun).trans (if_neg old).symm
  rw [← ended]
  simp only [lookup_publish,lookup_delete,Comparison.seen,decide_eq_true_eq]
  exact ⟨rfl,rfl⟩

private theorem refresh_unlisted (around : Surroundings Data) (current : String → Option Data)
    (settled : Settled tooLarge agents)
    (distinct : newDomainList.Nodup) {name : String} (unlisted : name ∉ newDomainList) :
    (refresh tooLarge around current agents newDomainList).1.lookup name =
        (agents.lookup name).filter (·.subtype ≠ .agentSupplemental) ∧
      name ∉ (refresh tooLarge around current agents newDomainList).2 := by
  have seen := refresh_seen around current settled distinct name
  simp only [unlisted,not_false_eq_true,and_true,decide_false] at seen
  by_cases old : name ∈ getAgentList around agents .agentSupplemental
  · obtain ⟨agent,known,kind⟩ := (mem_getAgentList around agents _ name).mp old
    simpa [old,changeCompared,known,kind,Option.filter] using seen
  · have other : (agents.lookup name).filter (·.subtype ≠ .agentSupplemental) = agents.lookup name := by
      rw [mem_getAgentList] at old
      cases known : agents.lookup name with
      | none => rfl
      | some agent =>
        have kind : agent.subtype ≠ .agentSupplemental := fun kind => old ⟨agent,known,kind⟩
        simp [kind,Option.filter]
    rw [other]
    simpa [old] using seen

private theorem refresh_listed (around : Surroundings Data) (current : String → Option Data)
    (settled : Settled tooLarge agents)
    (distinct : newDomainList.Nodup) {name : String} (listed : name ∈ newDomainList)
    (own : ∀ agent, agents.lookup name = some agent → agent.subtype = .agentSupplemental) :
    Refreshed tooLarge current name (agents.lookup name)
      ((refresh tooLarge around current agents newDomainList).1.lookup name)
      (decide (name ∈ (refresh tooLarge around current agents newDomainList).2)) := by
  obtain ⟨value,pending⟩ := refresh_seen around current settled distinct name
  rw [value,pending]
  clear value pending
  cases known : agents.lookup name with
  | none =>
    have new : name ∉ getAgentList around agents .agentSupplemental := by simp [mem_getAgentList,known]
    simpa [new,listed] using Refreshed.unknown
  | some agent =>
    have kind := own agent known
    have old : name ∈ getAgentList around agents .agentSupplemental := (mem_getAgentList around agents _ name).mpr ⟨agent,known,kind⟩
    obtain ⟨d,rfl⟩ | ⟨mappedAgent,d,rfl⟩ := settled.kinds name agent known kind
    · cases same : isEqual d (current name) with
      | true =>
        obtain ⟨data,rfl,given⟩ := isEqual_iff.mp same
        have unchanged : Refreshed tooLarge current name _ _ _ := Refreshed.own (some data)
        rw [given] at unchanged
        simpa [old,listed,changeCompared,made,given,isEqual] using unchanged
      | false =>
        have updated : Refreshed tooLarge current name _ _ _ := Refreshed.own d
        simpa [old,listed,changeCompared,updateAgentData_data,made,publishToAgent,same] using updated
    · by_cases same : current mappedAgent = some d
      · simpa [old,listed,changeCompared,mappedTo,same,isEqual] using Refreshed.kept mappedAgent d same
      · have differs : ((current mappedAgent).isNone || !isEqual (some d) (current mappedAgent)) = true := by
          cases there : current mappedAgent with
          | none => rfl
          | some other =>
            have apart : d ≠ other := fun equal => same (by rw [there,equal])
            simp [isEqual,apart]
        have released : Refreshed tooLarge current name _ _ _ := Refreshed.released mappedAgent d same
        simpa [old,listed,changeCompared,mappedTo,differs] using released

end Refresh

/-! ## New agents -/

/-- The domain has an agent of its own, or one that is mapped to the agent of another domain
with the same data. -/
def Provides (agents : Agents Data) (name : String) (data : Option Data) : Prop :=
  agents.lookup name = some (made tooLarge name .agentSupplemental data) ∨
    ∃ mappedAgent d, data = some d ∧ agents.lookup name = some (mappedTo mappedAgent (some d)) ∧
      agents.lookup mappedAgent = some (made tooLarge mappedAgent .agentSupplemental (some d))

section Spawn
variable {tooLarge around source} {s : Spawning Data}

/-- What the loop knows of its state: a domain that is left has no agent, and a registered one is up to date. -/
structure Ready (tooLarge : Data → Bool) (around : Surroundings Data) (s : Spawning Data) : Prop where
  once : s.newDomainList.Nodup
  absent : ∀ name ∈ s.newDomainList, s.agents.lookup name = none
  unmet : ∀ name ∈ s.newDomainList, name ∉ s.duplicateDomainList
  accepted : ∀ name ∈ s.newDomainList, around.refuses name = false
  registered : ∀ name agent, s.agents.lookup name = some agent → agent.subtype = .agentSupplemental → agent.registered →
    agent = made tooLarge name .agentSupplemental agent.data

private theorem found_agent (ready : Ready tooLarge around s) {data : Option Data} {mappedAgent : String}
    (found : getAgentWithSameDataAndSubType around s.agents data .agentSupplemental = some mappedAgent) :
    ∃ d, data = some d ∧ s.agents.lookup mappedAgent = some (made tooLarge mappedAgent .agentSupplemental (some d)) := by
  have holds := List.find?_some found
  cases known : s.agents.lookup mappedAgent with
  | none => simp [known] at holds
  | some agent =>
    simp only [known,Option.any_some,Bool.and_eq_true,decide_eq_true_eq] at holds
    obtain ⟨⟨same,kind⟩,registered⟩ := holds
    obtain ⟨d,held,given⟩ := isEqual_iff.mp same
    have form := ready.registered mappedAgent agent known kind registered
    rw [held] at form
    exact ⟨d,given,by rw [form]⟩

/-- One iteration gives the domain its agent, and leaves the others alone. -/
theorem spawnEntry_spec (ready : Ready tooLarge around s)
    {e : Entry} {domain : String} (there : source.domain e = some domain)
    (respawned : source.respawned e) (listed : domain ∈ s.newDomainList) :
    let next := spawnEntry tooLarge around source s e
    Ready tooLarge around next ∧ next.newDomainList = s.newDomainList.erase domain ∧
      Provides tooLarge next.agents domain (source.data e) ∧
      ∀ name ≠ domain, next.agents.lookup name = s.agents.lookup name := by
  have accepted := ready.accepted domain listed
  have single : s.duplicateDomainList.count domain = 0 := List.count_eq_zero.mpr (ready.unmet domain listed)
  obtain ⟨agent,inserted,form,provides⟩ : ∃ agent,
      (spawnEntry tooLarge around source s e).agents = s.agents.insert domain agent ∧
      (agent.registered → agent = made tooLarge domain .agentSupplemental agent.data) ∧
      Provides tooLarge (s.agents.insert domain agent) domain (source.data e) := by
    cases found : getAgentWithSameDataAndSubType around s.agents (source.data e) .agentSupplemental with
    | none =>
      refine ⟨made tooLarge domain .agentSupplemental (source.data e),?_,fun _ => rfl,.inl (AList.lookup_insert _)⟩
      simp [spawnEntry,there,respawned,listed,single,found,spawn_eq,accepted]
    | some mappedAgent =>
      obtain ⟨d,data,known⟩ := found_agent ready found
      have apart : mappedAgent ≠ domain := by
        intro same
        rw [same,ready.absent domain listed] at known
        cases known
      refine ⟨mappedTo mappedAgent (source.data e),?_,nofun,.inr ⟨mappedAgent,d,data,?_,?_⟩⟩
      · simp [spawnEntry,there,respawned,listed,single,found,spawnMapped_eq,accepted]
      · rw [AList.lookup_insert,data]
      · rw [AList.lookup_insert_ne apart,known]
  have shrunk : (spawnEntry tooLarge around source s e).newDomainList = s.newDomainList.erase domain := by
    simp [spawnEntry,there,respawned,listed]
  have met : (spawnEntry tooLarge around source s e).duplicateDomainList = domain::s.duplicateDomainList := by
    simp [spawnEntry,there,respawned,listed]
  have others (name : String) (other : name ≠ domain) :
      (spawnEntry tooLarge around source s e).agents.lookup name = s.agents.lookup name := by
    rw [inserted,AList.lookup_insert_ne other]
  refine ⟨⟨?_,?_,?_,?_,?_⟩,shrunk,inserted ▸ provides,others⟩
  · exact shrunk ▸ ready.once.erase domain
  · intro name member
    rw [shrunk,ready.once.mem_erase_iff] at member
    rw [others name member.1,ready.absent name member.2]
  · intro name member
    rw [shrunk,ready.once.mem_erase_iff] at member
    rw [met,List.mem_cons,not_or]
    exact ⟨member.1,ready.unmet name member.2⟩
  · intro name member
    rw [shrunk,ready.once.mem_erase_iff] at member
    exact ready.accepted name member.2
  · intro name other known kind registered
    by_cases here : name = domain
    · subst here
      rw [inserted,AList.lookup_insert] at known
      cases known
      exact form registered
    · rw [others name here] at known
      exact ready.registered name other known kind registered

private theorem spawnEntry_skip {e : Entry} (skips : ∀ domain, source.domain e = some domain → source.respawned e →
    domain ∉ s.newDomainList) : spawnEntry tooLarge around source s e = s := by
  rw [spawnEntry]
  cases there : source.domain e with
  | none => rfl
  | some domain => exact if_neg fun both => skips domain there both.1 both.2

omit [DecidableEq Data] in
theorem Provides.mono {before after : Agents Data} {name : String} {data : Option Data}
    (stays : ∀ name agent, before.lookup name = some agent → after.lookup name = some agent)
    (provides : Provides tooLarge before name data) : Provides tooLarge after name data := by
  obtain own | ⟨mappedAgent,d,same,mapped,there⟩ := provides
  · exact .inl (stays _ _ own)
  · exact .inr ⟨mappedAgent,d,same,stays _ _ mapped,stays _ _ there⟩

/-- The whole loop. `wanted` has the data that the entries of a domain agree on. -/
theorem spawnEntries_spec {entries : List Entry} {wanted : String → Option Data} (ready : Ready tooLarge around s)
    (agree : ∀ e ∈ entries, ∀ domain ∈ s.newDomainList, source.domain e = some domain → source.respawned e →
      source.data e = wanted domain) :
    let final := (entries.foldl (spawnEntry tooLarge around source) s).agents
    (∀ name agent, s.agents.lookup name = some agent → final.lookup name = some agent) ∧
      (∀ name ∉ s.newDomainList, final.lookup name = s.agents.lookup name) ∧
      ∀ name ∈ s.newDomainList, (∃ e ∈ entries, source.domain e = some name ∧ source.respawned e) →
        Provides tooLarge final name (wanted name) := by
  induction entries generalizing s with
  | nil => exact ⟨fun _ _ known => known,fun _ _ => rfl,fun _ _ there => by simp at there⟩
  | cons e entries ih =>
    rw [List.forall_mem_cons] at agree
    rw [List.foldl_cons]
    by_cases taken : ∃ domain ∈ s.newDomainList, source.domain e = some domain ∧ source.respawned e
    · obtain ⟨domain,listed,there,respawned⟩ := taken
      obtain ⟨ready',shrunk,provides,others⟩ := spawnEntry_spec ready there respawned listed
      have agree' : ∀ e' ∈ entries, ∀ name ∈ (spawnEntry tooLarge around source s e).newDomainList,
          source.domain e' = some name → source.respawned e' → source.data e' = wanted name := by
        intro e' member name left
        exact agree.2 e' member name (List.mem_of_mem_erase (shrunk ▸ left))
      obtain ⟨stays,unlisted,provided⟩ := ih ready' agree'
      have left (name : String) : name ∈ (spawnEntry tooLarge around source s e).newDomainList ↔
          name ≠ domain ∧ name ∈ s.newDomainList := by rw [shrunk,ready.once.mem_erase_iff]
      refine ⟨?_,?_,?_⟩
      · intro name agent known
        refine stays name agent ?_
        have other : name ≠ domain := by
          intro same
          rw [same,ready.absent domain listed] at known
          cases known
        rw [others name other,known]
      · intro name unlisted'
        have other : name ≠ domain := fun same => unlisted' (same ▸ listed)
        rw [unlisted name fun member => unlisted' ((left name).mp member).2,others name other]
      · intro name listed' there'
        by_cases same : name = domain
        · subst same
          rw [← agree.1 name listed there respawned]
          exact provides.mono stays
        · refine provided name ((left name).mpr ⟨same,listed'⟩) ?_
          obtain ⟨e',member,there',respawned'⟩ := there'
          rcases List.mem_cons.mp member with rfl | later
          · exact absurd (Option.some.inj (there'.symm.trans there)) same
          · exact ⟨e',later,there',respawned'⟩
    · have skips : spawnEntry tooLarge around source s e = s := by
        refine spawnEntry_skip fun domain there respawned listed => taken ⟨domain,listed,there,respawned⟩
      rw [skips]
      obtain ⟨stays,unlisted,provided⟩ := ih ready agree.2
      refine ⟨stays,unlisted,fun name listed there => provided name listed ?_⟩
      obtain ⟨e',member,there',respawned'⟩ := there
      rcases List.mem_cons.mp member with rfl | later
      · exact absurd ⟨name,listed,there',respawned'⟩ taken
      · exact ⟨e',later,there',respawned'⟩

end Spawn

/-! ## The whole pass -/

structure Supplemented (current : String → Option Data) (listed : List String) (before after : Agents Data) : Prop where
  unlisted : ∀ name ∉ listed, after.lookup name = (before.lookup name).filter (·.subtype ≠ .agentSupplemental)
  kept : ∀ name ∈ listed, ∀ mappedAgent d, before.lookup name = some (mappedTo mappedAgent (some d)) →
    current mappedAgent = some d → after.lookup name = some (mappedTo mappedAgent (some d))
  own : ∀ name ∈ listed, ∀ d, before.lookup name = some (made tooLarge name .agentSupplemental d) →
    after.lookup name = some (made tooLarge name .agentSupplemental (current name))
  provided : ∀ name ∈ listed, (∀ mappedAgent d, before.lookup name = some (mappedTo mappedAgent (some d)) →
    current mappedAgent ≠ some d) → Provides tooLarge after name (current name)

/-- No domain is listed twice, and a listed domain is in no other entry that is consulted. -/
structure Unconflicting (entries : List Entry) : Prop where
  once : (listedDomains source entries).Nodup
  alone : ∀ e ∈ entries, ∀ e' ∈ entries, source.listed e → source.consulted e' → source.domain e = source.domain e' →
    source.domain e ≠ none → e' = e

section Whole
variable {tooLarge around source} {entries : List Entry} {agents : Agents Data} {current : String → Option Data}

omit [DecidableEq Data] in
theorem mem_listedDomains {name : String} :
    name ∈ listedDomains source entries ↔ ∃ e ∈ entries, source.listed e ∧ source.domain e = some name := by
  simp [listedDomains,List.mem_filterMap]

omit [DecidableEq Data] in
private theorem current_of_consulted (unconflicting : Unconflicting source entries) {name : String}
    (listed : name ∈ listedDomains source entries) {e : Entry} (member : e ∈ entries) (there : source.domain e = some name)
    (consulted : source.consulted e) : source.data e = getDataFromCurrentConfig source entries name := by
  obtain ⟨e₀,member₀,listed₀,there₀⟩ := mem_listedDomains.mp listed
  have same (e' : Entry) (member' : e' ∈ entries) (there' : source.domain e' = some name) (consulted' : source.consulted e') :
      e' = e₀ :=
    unconflicting.alone e₀ member₀ e' member' listed₀ consulted' (there₀.trans there'.symm) (by simp [there₀])
  rw [getDataFromCurrentConfig]
  cases found : entries.find? fun e => source.consulted e && source.domain e = some name with
  | none =>
    have absent := List.find?_eq_none.mp found e member
    simp [consulted,there] at absent
  | some e' =>
    have holds := List.find?_some found
    simp only [Bool.and_eq_true,decide_eq_true_eq] at holds
    rw [same e member there consulted,Option.bind_some,same e' (List.mem_of_find?_eq_some found) holds.2 holds.1]

private theorem compare_sublist (list : List String) (s : Comparison Data) :
    (list.foldl (compareAgent current) s).newDomainList.Sublist s.newDomainList := by
  induction list generalizing s with
  | nil => exact .refl _
  | cons name list ih =>
    refine (ih _).trans ?_
    rw [compareAgent]
    cases s.agents.lookup name with
    | none => exact .refl _
    | some agent =>
      dsimp only
      cases agent.mapping with
      | none =>
        dsimp only
        split <;> exact List.filter_sublist
      | some mappedAgent =>
        dsimp only
        split
        · exact .refl _
        · exact List.filter_sublist

theorem processSupplemental_spec (settled : Settled tooLarge agents) (unconflicting : Unconflicting source entries)
    (own : ∀ name ∈ listedDomains source entries, ∀ agent, agents.lookup name = some agent →
      agent.subtype = .agentSupplemental)
    (accepted : ∀ name ∈ listedDomains source entries, around.refuses name = false) :
    Supplemented tooLarge (getDataFromCurrentConfig source entries) (listedDomains source entries) agents
      (processSupplemental tooLarge around source (listedDomains source entries) agents entries) := by
  rw [processSupplemental_eq]
  have unlisted {name : String} (absent : name ∉ listedDomains source entries) :=
    refresh_unlisted around (getDataFromCurrentConfig source entries) settled unconflicting.once absent
  have listed {name : String} (member : name ∈ listedDomains source entries) :=
    refresh_listed around (getDataFromCurrentConfig source entries) settled unconflicting.once member
      (own name member)
  have once : (refresh tooLarge around (getDataFromCurrentConfig source entries) agents
      (listedDomains source entries)).2.Nodup :=
    (compare_sublist _ _).nodup unconflicting.once
  generalize refresh tooLarge around (getDataFromCurrentConfig source entries) agents (listedDomains source entries) =
    refreshed at unlisted listed once
  have pending {name : String} (left : name ∈ refreshed.2) : name ∈ listedDomains source entries := by
    by_contra absent
    exact (unlisted absent).2 left
  have ready : Ready tooLarge around ⟨refreshed.1,refreshed.2,[]⟩ := by
    refine ⟨once,?_,fun _ _ => List.not_mem_nil,fun name left => accepted name (pending left),?_⟩
    · exact fun name left => (listed (pending left)).absent (decide_eq_true left)
    · intro name agent known kind registered
      by_cases member : name ∈ listedDomains source entries
      · exact (listed member).registered known registered
      · rw [show refreshed.1.lookup name = _ from (unlisted member).1] at known
        have other := (Option.filter_eq_some_iff.mp known).2
        simp [kind] at other
  have agree : ∀ e ∈ entries, ∀ domain ∈ refreshed.2, source.domain e = some domain → source.respawned e →
      source.data e = getDataFromCurrentConfig source entries domain := fun e member domain left there respawned =>
    current_of_consulted unconflicting (pending left) member there (source.consulted_of_respawned e respawned)
  obtain ⟨stays,elsewhere,provided⟩ := spawnEntries_spec ready agree
  constructor
  · intro name absent
    rw [elsewhere name (unlisted absent).2]
    exact (unlisted absent).1
  · intro name member mappedAgent d known same
    exact stays name _ (((listed member).stays known same).trans known)
  · intro name member d known
    exact stays name _ ((listed member).updated known)
  · intro name member differs
    rcases (listed member).pending_or differs with left | there
    · obtain ⟨e,here,listed',there⟩ := mem_listedDomains.mp member
      exact provided name (of_decide_eq_true left) ⟨e,here,there,source.respawned_of_listed e listed'⟩
    · exact .inl (stays name _ there)

omit [DecidableEq Data] in
/-- The domains have what the configuration lists exactly if no agent is kept for the data of the
agent it is mapped to, while its own domain has other data or that agent is not listed any more. -/
theorem Supplemented.provides_iff {listed : List String} {before after : Agents Data}
    (supplemented : Supplemented tooLarge current listed before after)
    (targets : ∀ name ∈ listed, ∀ mappedAgent d, before.lookup name = some (mappedTo mappedAgent (some d)) →
      mappedAgent ∈ listed → before.lookup mappedAgent = some (made tooLarge mappedAgent .agentSupplemental (some d))) :
    (∀ name ∈ listed, Provides tooLarge after name (current name)) ↔
      ∀ name ∈ listed, ∀ mappedAgent d, before.lookup name = some (mappedTo mappedAgent (some d)) →
        current mappedAgent = some d → current name = some d ∧ mappedAgent ∈ listed := by
  constructor
  · intro provides name member mappedAgent d known same
    have kept := supplemented.kept name member mappedAgent d known same
    obtain own | ⟨other,d',data,mapped,there⟩ := provides name member
    · exact absurd (Option.some.inj (own.symm.trans kept)) made_ne_mappedTo
    · obtain ⟨rfl,equal⟩ := mappedTo_inj (Option.some.inj (mapped.symm.trans kept))
      obtain rfl := Option.some.inj equal
      refine ⟨data,?_⟩
      by_contra absent
      rw [supplemented.unlisted other absent] at there
      exact absurd (Option.filter_eq_some_iff.mp there).2 (by simp [made])
  · intro fresh name member
    by_cases kept : ∃ mappedAgent d, before.lookup name = some (mappedTo mappedAgent (some d)) ∧ current mappedAgent = some d
    · obtain ⟨mappedAgent,d,known,same⟩ := kept
      obtain ⟨data,listed'⟩ := fresh name member mappedAgent d known same
      refine .inr ⟨mappedAgent,d,data,supplemented.kept name member mappedAgent d known same,?_⟩
      rw [supplemented.own mappedAgent listed' (some d) (targets name member mappedAgent d known listed'),same]
    · exact supplemented.provided name member fun mappedAgent d known same => kept ⟨mappedAgent,d,known,same⟩

end Whole

end FreebsdLaunchd.AgentController
