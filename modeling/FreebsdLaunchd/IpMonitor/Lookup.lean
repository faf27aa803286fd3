import FreebsdLaunchd.IpMonitor.Apply

/-! What a lookup in a list of routes finds: a route with the longest matching
prefix, whatever the order of the list. -/
namespace FreebsdLaunchd.IpMonitor
variable {Addr : Type}

/-- The place of a route that is not skipped, with none longer; nothing where all are skipped. -/
def Longest (classify : Route Addr → Candidacy) (length : Route Addr → Nat) (routes : List (Route Addr)) :
    Option Nat → Prop
  | none => ∀ c ∈ routes, classify c = .skip
  | some i => ∃ route, routes[i]? = some route ∧ classify route ≠ .skip ∧
      ∀ c ∈ routes, classify c ≠ .skip → length c ≤ length route

structure BestOf (classify : Route Addr → Candidacy) (length : Route Addr → Nat) (front : List (Route Addr))
    (bestMatch : Option (Nat × Nat)) : Prop where
  longest : Longest classify length front (bestMatch.map Prod.fst)
  noted : ∀ i prefixLength, bestMatch = some (i,prefixLength) → front[i]?.map length = some prefixLength

section
variable {classify : Route Addr → Candidacy} {length : Route Addr → Nat} {front : List (Route Addr)}
  {candidate : Route Addr} {bestMatch : Option (Nat × Nat)}

theorem BestOf.skip (best : BestOf classify length front bestMatch) (skipped : classify candidate = .skip) :
    BestOf classify length (front ++ [candidate]) bestMatch := by
  obtain ⟨longest,noted⟩ := best
  cases bestMatch with
  | none =>
    refine ⟨fun c member => ?_,fun i prefixLength none => by cases none⟩
    rcases List.mem_append.mp member with old | last
    · exact longest c old
    · rwa [List.mem_singleton.mp last]
  | some found =>
    obtain ⟨route,here,taken,above⟩ := longest
    have inside := (List.getElem?_eq_some_iff.mp here).1
    refine ⟨⟨route,by rw [List.getElem?_append_left inside,here],taken,fun c member other => ?_⟩,fun i prefixLength same => ?_⟩
    · rcases List.mem_append.mp member with old | last
      · exact above c old other
      · rw [List.mem_singleton.mp last] at other
        exact absurd skipped other
    · obtain rfl := Option.some.inj same
      rw [List.getElem?_append_left inside]
      exact noted i prefixLength rfl

theorem BestOf.matching (best : BestOf classify length front bestMatch) (taken : classify candidate ≠ .skip) :
    BestOf classify length (front ++ [candidate])
      (if bestMatch.all (·.2 < length candidate) then some (front.length,length candidate) else bestMatch) := by
  obtain ⟨longest,noted⟩ := best
  have last : (front ++ [candidate])[front.length]? = some candidate := by simp
  cases bestMatch with
  | none =>
    refine ⟨⟨candidate,last,taken,fun c member other => ?_⟩,fun i prefixLength same => ?_⟩
    · rcases List.mem_append.mp member with old | new
      · exact absurd (longest c old) other
      · rw [List.mem_singleton.mp new]
    · obtain ⟨rfl,rfl⟩ := Prod.mk.inj (Option.some.inj same)
      rw [last]
      rfl
  | some found =>
    obtain ⟨place,prefixLength⟩ := found
    obtain ⟨route,here,kept,above⟩ := longest
    have inside := (List.getElem?_eq_some_iff.mp here).1
    have long : length route = prefixLength := by simpa [here] using noted place prefixLength rfl
    simp only [Option.all_some,decide_eq_true_eq]
    split
    · rename_i longer
      refine ⟨⟨candidate,last,taken,fun c member other => ?_⟩,fun i _ same => ?_⟩
      · rcases List.mem_append.mp member with old | new
        · have := above c old other
          omega
        · rw [List.mem_singleton.mp new]
      · obtain ⟨rfl,rfl⟩ := Prod.mk.inj (Option.some.inj same)
        rw [last]
        rfl
    · rename_i longer
      refine ⟨⟨route,by simpa [List.getElem?_append_left inside] using here,kept,fun c member other => ?_⟩,
        fun i _ same => ?_⟩
      · rcases List.mem_append.mp member with old | new
        · exact above c old other
        · rw [List.mem_singleton.mp new]
          omega
      · obtain ⟨rfl,rfl⟩ := Prod.mk.inj (Option.some.inj same)
        simp [List.getElem?_append_left inside,here,long]

/-- The exits at an exact match lose nothing: no route is longer than what is looked for. -/
theorem lookupFrom_longest {nBits : Nat} (exact_ : ∀ c, classify c = .exact → length c = nBits)
    (matching : ∀ c, classify c = .matching → length c = c.prefixLength)
    (bound : ∀ c, classify c ≠ .skip → length c ≤ nBits)
    (rest : List (Route Addr)) (best : BestOf classify length front bestMatch) :
    Longest classify length (front ++ rest) (lookupFrom classify rest front.length bestMatch) := by
  induction rest generalizing front bestMatch with
  | nil => simpa [lookupFrom] using best.longest
  | cons candidate rest ih =>
    have next {bestMatch : Option (Nat × Nat)} (best : BestOf classify length (front ++ [candidate]) bestMatch) :
        Longest classify length (front ++ candidate::rest) (lookupFrom classify rest (front.length+1) bestMatch) := by
      simpa using ih best
    rw [lookupFrom]
    cases verdict : classify candidate with
    | skip => exact next (best.skip verdict)
    | exact =>
      refine ⟨candidate,by simp,by simp [verdict],fun c _ other => ?_⟩
      rw [exact_ candidate verdict]
      exact bound c other
    | matching =>
      have taken : classify candidate ≠ .skip := by simp [verdict]
      have noted := next (best.matching taken)
      rwa [matching candidate verdict] at noted

end

variable [DecidableEq Addr]

structure Eligible (info : RouteListInfo Addr) (address : Addr) (nBits : Nat) (ifindex : IFIndex)
    (lookupFlags : RouteLookupFlags) (route : Route Addr) : Prop where
  hasInterface : route.ifindex ≠ 0
  notExcluded : route.excludeIfindex = 0
  interface : if lookupFlags = .excludeInterface then route.ifindex ≠ ifindex else route.ifindex = ifindex
  gateway : route.flags.hasGateway → route.gateway ≠ address
  destination : if route.flags.isHost then route.dest = address ∧ nBits = info.allBitsSet
    else info.routeSameSubnet route address ∧ route.prefixLength ≤ nBits

/-- How many bits of the address a route determines. -/
def matchedLength (info : RouteListInfo Addr) (route : Route Addr) : Nat :=
  if route.flags.isHost then info.allBitsSet else route.prefixLength

section
variable (info : RouteListInfo Addr) (address : Addr) (nBits : Nat) (ifindex : IFIndex)
  (lookupFlags : RouteLookupFlags) (route : Route Addr)

omit [DecidableEq Addr] in
private theorem interface_fits : (if lookupFlags = .excludeInterface then route.ifindex ≠ ifindex else route.ifindex = ifindex) ↔
    ¬ (lookupFlags = .excludeInterface ∧ ifindex = route.ifindex) ∧
      ¬ (lookupFlags = .none ∧ ifindex ≠ route.ifindex) := by
  cases lookupFlags with
  | none => simp [eq_comm]
  | excludeInterface => simp [eq_comm]

private theorem candidacy_taken : candidacy info address nBits ifindex lookupFlags route ≠ .skip ↔
    Eligible info address nBits ifindex lookupFlags route := by
  constructor
  · intro taken
    unfold candidacy at taken
    split_ifs at taken with indices excluded apart gateway host hit outside exact_ long
    all_goals first | exact absurd rfl taken | skip
    all_goals
      have interface := (interface_fits ifindex lookupFlags route).mpr ⟨excluded,apart⟩
      obtain ⟨hasInterface,notExcluded⟩ := not_or.mp indices
      refine ⟨hasInterface,not_not.mp notExcluded,interface,fun behind same => gateway ⟨behind,same⟩,?_⟩
    · simpa [host] using hit.symm
    · simpa [host,exact_] using outside
    · simpa [host,Nat.le_of_not_lt long] using outside
  · rintro ⟨hasInterface,notExcluded,interface,gateway,destination⟩
    obtain ⟨excluded,apart⟩ := (interface_fits ifindex lookupFlags route).mp interface
    unfold candidacy
    rw [if_neg (by simp [hasInterface,notExcluded]),if_neg excluded,if_neg apart,if_neg (by simpa using gateway)]
    split_ifs with host hit outside exact_ long
    · simp
    · rw [if_pos host] at destination
      exact absurd destination.symm hit
    · rw [if_neg host] at destination
      simp [destination.1] at outside
    · simp
    · rw [if_neg host] at destination
      omega
    · simp

private theorem matchedLength_exact (found : candidacy info address nBits ifindex lookupFlags route = .exact) :
    matchedLength info route = nBits := by
  unfold candidacy at found
  rw [matchedLength]
  split_ifs at found with indices excluded apart gateway host hit outside exact_ long
  · rw [if_pos host]
    exact hit.1.symm
  · rw [if_neg host]
    exact exact_

private theorem matchedLength_matching (found : candidacy info address nBits ifindex lookupFlags route = .matching) :
    matchedLength info route = route.prefixLength := by
  unfold candidacy at found
  split_ifs at found with indices excluded apart gateway host hit outside exact_ long
  simp [matchedLength,host]

theorem Eligible.bound (eligible : Eligible info address nBits ifindex lookupFlags route) :
    matchedLength info route ≤ nBits := by
  have destination := eligible.destination
  unfold matchedLength
  split
  · rename_i host
    rw [if_pos host] at destination
    exact destination.2.ge
  · rename_i host
    rw [if_neg host] at destination
    exact destination.2

end

/-- The place of an eligible route with the longest prefix, or nothing where none is eligible. -/
structure LongestPrefix (info : RouteListInfo Addr) (routes : List (Route Addr)) (address : Addr) (nBits : Nat)
    (ifindex : IFIndex) (lookupFlags : RouteLookupFlags) (found : Option Nat) : Prop where
  missing : found = none ↔ ∀ c ∈ routes, ¬ Eligible info address nBits ifindex lookupFlags c
  longest : ∀ i, found = some i → ∃ route, routes[i]? = some route ∧ Eligible info address nBits ifindex lookupFlags route ∧
    ∀ c ∈ routes, Eligible info address nBits ifindex lookupFlags c → c.prefixLength ≤ route.prefixLength

/-- A host route has the prefix of all bits. -/
def Route.HostWhole (info : RouteListInfo Addr) (route : Route Addr) : Prop :=
  route.flags.isHost → route.prefixLength = info.allBitsSet

omit [DecidableEq Addr] in
theorem Longest.eq_none_iff {classify : Route Addr → Candidacy} {length : Route Addr → Nat} {routes : List (Route Addr)}
    {found : Option Nat} (longest : Longest classify length routes found) :
    found = none ↔ ∀ c ∈ routes, classify c = .skip := by
  cases found with
  | none => exact iff_of_true rfl longest
  | some i =>
    obtain ⟨route,here,taken,_⟩ := longest
    refine iff_of_false (by simp) ?_
    intro skipped
    exact taken (skipped route (List.mem_of_getElem? here))

/-- In whatever order they are, of routes whose host routes have all bits one with the longest prefix is found. -/
theorem routeListLookup_whole (info : RouteListInfo Addr) {routes : List (Route Addr)}
    (whole : ∀ r ∈ routes, r.HostWhole info) (address : Addr) (nBits : Nat) (ifindex : IFIndex)
    (lookupFlags : RouteLookupFlags) : LongestPrefix info routes address nBits ifindex lookupFlags
      (routeListLookup info routes address nBits ifindex lookupFlags) := by
  have start : BestOf (candidacy info address nBits ifindex lookupFlags) (matchedLength info) [] none := by
    constructor
    · intro c member
      cases member
    · intro i prefixLength none
      cases none
  have found := lookupFrom_longest (matchedLength_exact info address nBits ifindex lookupFlags)
    (matchedLength_matching info address nBits ifindex lookupFlags)
    (fun c taken => Eligible.bound info address nBits ifindex lookupFlags c ((candidacy_taken ..).mp taken))
    routes start
  change Longest _ _ routes (routeListLookup info routes address nBits ifindex lookupFlags) at found
  have own (r : Route Addr) (member : r ∈ routes) : matchedLength info r = r.prefixLength := by
    unfold matchedLength
    split
    · rename_i host
      exact (whole r member host).symm
    · rfl
  constructor
  · refine found.eq_none_iff.trans (forall₂_congr ?_)
    intro c _
    rw [← candidacy_taken,not_not]
  · intro i same
    rw [same] at found
    obtain ⟨route,here,taken,above⟩ := found
    refine ⟨route,here,(candidacy_taken ..).mp taken,?_⟩
    intro c member other
    rw [← own c member,← own route (List.mem_of_getElem? here)]
    exact above c member ((candidacy_taken ..).mpr other)

end FreebsdLaunchd.IpMonitor
