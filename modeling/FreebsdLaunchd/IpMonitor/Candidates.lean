import FreebsdLaunchd.IpMonitor.Election
import Mathlib.Data.List.Sort

/-! The candidates of an election, whichever order their services are enumerated in. -/
namespace FreebsdLaunchd.IpMonitor

variable {Addr : Type} {results : ElectionResults Addr} {candidate : Candidate Addr}

/-! ## One candidate -/

private theorem insertIdx_findIdx? (c : Candidate Addr) (l : List (Candidate Addr)) :
    l.insertIdx ((l.findIdx? (c.rank < ·.rank)).getD l.length) c = l.orderedInsert (·.rank < ·.rank) c := by
  induction l with
  | nil => rfl
  | cons x l ih =>
    rw [List.findIdx?_cons,List.orderedInsert_cons]
    by_cases before : c.rank < x.rank
    · simp [before]
    · simp only [before,decide_false,Bool.false_eq_true,if_false]
      rw [← ih]
      cases l.findIdx? (c.rank < ·.rank) <;> rfl

private theorem electionResultsAddCandidate_room (room : results.candidates.length < results.size) :
    (electionResultsAddCandidate results candidate).candidates =
      results.candidates.orderedInsert (·.rank < ·.rank) candidate := by
  rw [electionResultsAddCandidate,if_neg (Nat.ne_of_lt room),← insertIdx_findIdx?]

private theorem orderedInsert_sorted {l : List (Candidate Addr)} (sorted : l.Pairwise (·.rank ≤ ·.rank))
    (c : Candidate Addr) :
    (l.orderedInsert (·.rank < ·.rank) c).Pairwise (·.rank ≤ ·.rank) := by
  induction l with
  | nil => exact List.pairwise_singleton _ _
  | cons x l ih =>
    obtain ⟨first,rest⟩ := List.pairwise_cons.mp sorted
    rw [List.orderedInsert_cons]
    by_cases before : c.rank < x.rank
    · have le := UInt32.le_of_lt before
      rw [if_pos before]
      refine List.pairwise_cons.mpr ⟨?_,sorted⟩
      rw [List.forall_mem_cons]
      exact ⟨le,fun y member => UInt32.le_trans le (first y member)⟩
    · rw [if_neg before]
      refine List.pairwise_cons.mpr ⟨?_,ih rest⟩
      intro y member
      rcases (List.mem_orderedInsert _).mp member with rfl | old
      · exact UInt32.not_lt.mp before
      · exact first y old

/-! ## All of them -/

def standing (info : ElectionInfo Addr) (s : String × Entities Addr) : Option (Candidate Addr) :=
  electCandidate info.af info.order info.nOrder info.pppOverridePrimary s.1 s.2

variable {info : ElectionInfo Addr} {s : String × Entities Addr}

private theorem electIp_none (stands : standing info s = none) : electIp info s = info := by
  rw [standing] at stands
  rw [electIp,stands]

private theorem electIp_some (stands : standing info s = some candidate) :
    electIp info s = {info with
      results := electionResultsAddCandidate info.results candidate
      rankDict := info.rankDict.insert s.1 candidate.rank } := by
  rw [standing] at stands
  rw [electIp,stands]

private theorem electCandidate_serviceID {af : AF} {order : Option (List (Option String))} {nOrder : Int} {ppp : Bool}
    {serviceID : String} {entities : Entities Addr}
    (stands : electCandidate af order nOrder ppp serviceID entities = some candidate) :
    candidate.serviceID = serviceID := by
  simp only [electCandidate,Option.bind_eq_bind,Option.bind_eq_some_iff] at stands
  obtain ⟨_,_,_,_,_,_,_,_,made⟩ := stands
  split at made
  · cases made
  · obtain rfl := Option.some.inj made
    rfl

/-- What the services in an order leave of the election: the candidates of all
of them, sorted, and their ranks. -/
theorem electIp_run (services : List (String × Entities Addr)) {info : ElectionInfo Addr}
    (sorted : info.results.candidates.Pairwise (·.rank ≤ ·.rank))
    (room : info.results.candidates.length + services.length ≤ info.results.size)
    (keys : (services.map Prod.fst).Nodup) :
    (services.foldl electIp info).results.candidates.Perm
        (services.filterMap (standing info) ++ info.results.candidates) ∧
      (services.foldl electIp info).results.candidates.Pairwise (·.rank ≤ ·.rank) ∧
      ∀ id, (services.foldl electIp info).rankDict.lookup id =
        ((services.filterMap (standing info)).find? (·.serviceID = id)).elim (info.rankDict.lookup id) (some ·.rank) := by
  induction services generalizing info with
  | nil => exact ⟨.refl _,sorted,fun _ => rfl⟩
  | cons s services ih =>
    rw [List.length_cons] at room
    obtain ⟨new,rest⟩ := List.nodup_cons.mp keys
    rw [List.foldl_cons,List.filterMap_cons]
    cases stands : standing info s with
    | none =>
      rw [electIp_none stands]
      exact ih sorted (by omega) rest
    | some c =>
      have roomy : info.results.candidates.length < info.results.size := by omega
      have next := @electionResultsAddCandidate_room _ _ c roomy
      have size : (electionResultsAddCandidate info.results c).size = info.results.size := by
        rw [electionResultsAddCandidate,if_neg (Nat.ne_of_lt roomy)]
      have inserted := List.perm_orderedInsert (·.rank < ·.rank) c info.results.candidates
      rw [electIp_some stands]
      obtain ⟨perm,sorted',ranks⟩ := @ih {info with
        results := electionResultsAddCandidate info.results c
        rankDict := info.rankDict.insert s.1 c.rank } (next ▸ orderedInsert_sorted sorted c) (by
          rw [next,size,List.orderedInsert_length]
          omega) rest
      refine ⟨?_,sorted',?_⟩
      · rw [next] at perm
        exact perm.trans ((inserted.append_left _).trans List.perm_middle)
      · intro id
        rw [ranks]
        have named : c.serviceID = s.1 := electCandidate_serviceID stands
        rw [List.find?_cons]
        by_cases here : s.1 = id
        · subst here
          have later : (services.filterMap (standing info)).find? (·.serviceID = s.1) = none := by
            rw [List.find?_eq_none]
            intro b member same
            obtain ⟨t,listed,made⟩ := List.mem_filterMap.mp member
            have other : b.serviceID = t.1 := electCandidate_serviceID made
            have equal : b.serviceID = s.1 := by simpa using same
            exact new (List.mem_map.mpr ⟨t,listed,other.symm.trans equal⟩)
          have found : decide (c.serviceID = s.1) = true := by simpa using named
          change ((services.filterMap (standing info)).find? _).elim _ _ = _
          rw [later,found]
          exact AList.lookup_insert _
        · have passed : decide (c.serviceID = id) = false := by simpa [named] using here
          rw [passed]
          change ((services.filterMap (standing info)).find? _).elim _ _ = _
          congr 1
          exact AList.lookup_insert_ne (Ne.symm here)

/-! ## Any order of the services -/

def takesPart (af : AF) (entities : Entities Addr) : Bool :=
  (entities.ip af).any fun ipdict =>
    ipdict.routes.isSome && ipdict.service.any fun service => service.interfaceName.any (· ≠ "lo0")

private theorem electCandidate_isSome (af : AF) (order : Option (List (Option String))) (nOrder : Int) (ppp : Bool)
    (serviceID : String) (entities : Entities Addr) :
    (electCandidate af order nOrder ppp serviceID entities).isSome = takesPart af entities := by
  rw [electCandidate,takesPart]
  cases entities.ip af with
  | none => rfl
  | some ipdict =>
    obtain ⟨routes,service⟩ := ipdict
    cases routes with
    | none => rfl
    | some list =>
      cases service with
      | none => rfl
      | some service =>
        cases name : service.interfaceName with
        | none => simp [name]
        | some ifName => by_cases loopback : ifName = "lo0" <;> simp [name,loopback]

/-- The service order is there, or no service has an index of its own. -/
def Indexed (order : Option (List (Option String))) (services : List (String × Entities Addr)) : Prop :=
  order.isSome ∨ ∀ s ∈ services, serviceRankEntityGetIndex s.2.service = none

private theorem electCandidate_stale {order : Option (List (Option String))} {services : List (String × Entities Addr)}
    (indexed : Indexed order services) (af : AF) (ppp : Bool) (stale stale' : Int) (member : s ∈ services) :
    electCandidate af order (order.elim stale fun order => order.length) ppp s.1 s.2 =
      electCandidate af order (order.elim stale' fun order => order.length) ppp s.1 s.2 := by
  cases order with
  | some order => rfl
  | none =>
    rcases indexed with present | without
    · cases present
    · have index (n : Int) : getServiceIndex s.2.service none n s.1 = rankIndexNone := by
        rw [getServiceIndex,without s member]
      simp only [electCandidate,index]

variable {services services' : List (String × Entities Addr)} {order : Option (List (Option String))}

private theorem find_perm {l l' : List (Candidate Addr)} (perm : l.Perm l') (keys : (l.map Candidate.serviceID).Nodup)
    (id : String) : l.find? (·.serviceID = id) = l'.find? (·.serviceID = id) := by
  have known (m : List (Candidate Addr)) (keys : (m.map Candidate.serviceID).Nodup) (c : Candidate Addr) :
      m.find? (·.serviceID = id) = some c ↔ c ∈ m ∧ c.serviceID = id := by
    constructor
    · intro found
      exact ⟨List.mem_of_find?_eq_some found,by simpa using List.find?_some found⟩
    · rintro ⟨member,named⟩
      cases found : m.find? (·.serviceID = id) with
      | none => simpa [named] using List.find?_eq_none.mp found c member
      | some b =>
        have same : b.serviceID = id := by simpa using List.find?_some found
        exact congrArg some (List.inj_on_of_nodup_map keys (List.mem_of_find?_eq_some found) member (same.trans named.symm))
  ext c
  rw [known l keys,known l' ((perm.map _).nodup_iff.mp keys),perm.mem_iff]

/-- One election: who the candidates are, and what is recorded of them. -/
theorem electionResultsCopy_spec (keys : (services.map Prod.fst).Nodup) (af : AF) (ppp : Bool)
    (rankDict : AList fun _ : String => Rank) (stale : Int) (order : Option (List (Option String))) :
    ∃ candidates : List (Candidate Addr),
      candidates = services.filterMap (fun s =>
        electCandidate af order (order.elim stale fun order => order.length) ppp s.1 s.2) ∧
      candidates.map Candidate.serviceID = (services.filter (takesPart af ·.2)).map Prod.fst ∧
      (electionResultsCopy af ppp rankDict stale order services).results.candidates.Perm candidates ∧
      (electionResultsCopy af ppp rankDict stale order services).results.candidates.Pairwise (·.rank ≤ ·.rank) ∧
      ∀ id, (electionResultsCopy af ppp rankDict stale order services).rankDict.lookup id =
        (candidates.find? (·.serviceID = id)).elim (rankDict.lookup id) (some ·.rank) := by
  obtain ⟨perm,sorted,ranks⟩ := @electIp_run _ services
    ⟨af,order,order.elim stale fun order => order.length,ppp,⟨services.length,[]⟩,rankDict⟩ .nil (by simp) keys
  refine ⟨_,rfl,?_,?_,sorted,ranks⟩
  · clear perm sorted ranks keys
    induction services with
    | nil => rfl
    | cons s services ih =>
      have part := electCandidate_isSome af order (order.elim stale fun order => order.length) ppp s.1 s.2
      rw [List.filterMap_cons,List.filter_cons,← part]
      cases stands : electCandidate af order (order.elim stale fun order => order.length) ppp s.1 s.2 with
      | none => simpa using ih
      | some c =>
        have named := electCandidate_serviceID stands
        simpa [named] using ih
  · rw [List.append_nil] at perm
    exact perm

/-- The candidates and their ranks are those of the services, whichever order
these are enumerated in and whatever is on the stack. Only candidates of one
rank may stand in another order. -/
theorem election_from_inputs (keys : (services.map Prod.fst).Nodup) (perm : services.Perm services')
    (indexed : Indexed order services) (af : AF) (ppp : Bool) (rankDict : AList fun _ : String => Rank)
    (stale stale' : Int) :
    let elected := electionResultsCopy af ppp rankDict stale order services
    let elected' := electionResultsCopy af ppp rankDict stale' order services'
    (elected.results.candidates.map Candidate.serviceID).Perm ((services.filter (takesPart af ·.2)).map Prod.fst) ∧
      elected.results.candidates.Pairwise (·.rank ≤ ·.rank) ∧
      elected.results.candidates.Perm elected'.results.candidates ∧
      (∀ id, elected.rankDict.lookup id = elected'.rankDict.lookup id) ∧
      (elected.results.candidates.Pairwise (·.rank ≠ ·.rank) →
        elected.results.candidates = elected'.results.candidates) := by
  intro elected elected'
  obtain ⟨all,made,parts,listed,sorted,ranks⟩ := electionResultsCopy_spec keys af ppp rankDict stale order
  obtain ⟨all',made',_,listed',sorted',ranks'⟩ :=
    electionResultsCopy_spec ((perm.map _).nodup_iff.mp keys) af ppp rankDict stale' order
  have same : all.Perm all' := by
    rw [made,made',List.filterMap_congr fun s member => electCandidate_stale indexed af ppp stale stale' member]
    exact perm.filterMap _
  have both : elected.results.candidates.Perm elected'.results.candidates :=
    listed.trans (same.trans listed'.symm)
  have unique : (all.map Candidate.serviceID).Nodup := by
    rw [parts]
    exact keys.sublist (List.filter_sublist.map _)
  refine ⟨parts ▸ listed.map _,sorted,both,?_,?_⟩
  · intro id
    rw [ranks,ranks',find_perm same unique]
  · intro differ
    apply both.eq_of_pairwise ?_ sorted sorted'
    intro c c' member other le ge
    have ranked : (elected.results.candidates.map Candidate.rank).Nodup := List.pairwise_map.mpr differ
    exact List.inj_on_of_nodup_map ranked member (both.mem_iff.mpr other) (UInt32.le_antisymm le ge)

def serviceOver (ifName : String) (ifindex : IFIndex) : Entities Nat where
  ipv4 := some {
    routes := some ⟨1,⟨false,true,false⟩,
      [⟨0,ifindex,0,rankAssertionDefault,⟨false,true,false,false,false⟩,0,ifindex.val,ifindex.val⟩],Nat.le_refl 1⟩
    service := some ⟨some ifName,none,none⟩ }
  ipv6 := none
  service := none

theorem two_ordered_services :
    let services := [("a",serviceOver "en0" 4),("b",serviceOver "en1" 5)]
    let elected := electionResultsCopy .inet false ∅ 0 (some [some "b",some "a"]) services
    let elected' := electionResultsCopy .inet false ∅ 7 (some [some "b",some "a"]) services.reverse
    (elected.results.candidates.map Candidate.serviceID).Perm ((services.filter (takesPart .inet ·.2)).map Prod.fst) ∧
      elected.results.candidates.Pairwise (·.rank ≤ ·.rank) ∧
      elected.results.candidates.Perm elected'.results.candidates ∧
      (∀ id, elected.rankDict.lookup id = elected'.rankDict.lookup id) ∧
      (elected.results.candidates.Pairwise (·.rank ≠ ·.rank) →
        elected.results.candidates = elected'.results.candidates) :=
  election_from_inputs (by decide) (List.reverse_perm _).symm (.inl rfl) .inet false ∅ 0 7

/-- Without an order the services have one rank, and stand as they are enumerated. -/
theorem unordered_services_differ :
    ¬ ∀ services services' : List (String × Entities Nat), (services.map Prod.fst).Nodup → services.Perm services' →
      (electionResultsCopy .inet false ∅ 0 none services).results.candidates =
        (electionResultsCopy .inet false ∅ 0 none services').results.candidates := by
  intro alike
  have same := alike [("a",serviceOver "en0" 4),("b",serviceOver "en1" 5)]
    [("b",serviceOver "en1" 5),("a",serviceOver "en0" 4)] (by decide) (.swap _ _ _)
  have first := congrArg (fun l => l.head?.map Candidate.serviceID) same
  revert first
  decide

end FreebsdLaunchd.IpMonitor
