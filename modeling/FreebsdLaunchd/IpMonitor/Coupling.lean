import FreebsdLaunchd.IpMonitor.Build
import FreebsdLaunchd.IpMonitor.Election

/-! Which candidate becomes primary, and whether the primaries for IPv4 and IPv6
are over one interface where one of them is coupled. -/
namespace FreebsdLaunchd.IpMonitor

variable {Addr : Type}

/-! ## The loop of the election -/

def admitted (other : Option (Candidate Addr)) (c : Candidate Addr) : Bool :=
  mayBePrimary c && !electionResultsCandidateNeedsDemotion other c

def shown (serviceRoutes : String → Option (RouteList Addr)) (c : Candidate Addr) : Bool :=
  (serviceRoutes c.serviceID).any (!·.flags.excludeNWI)

/-- The rank with which the routes of a candidate are listed, as long as there
is no primary yet or after there is one. -/
def routeRank (other : Option (Candidate Addr)) (open_ : Bool) (c : Candidate Addr) : Rank :=
  if mayBePrimary c && open_ && electionResultsCandidateNeedsDemotion other c then rankMake c.rank rankAssertionNever
  else c.rank

def share (serviceRoutes : String → Option (RouteList Addr)) (other : Option (Candidate Addr)) (open_ : Bool)
    (c : Candidate Addr) : List (Route Addr × Rank) :=
  (serviceRoutes c.serviceID).elim [] fun list => contributions list (routeRank other open_ c)

section Run
variable [LinearOrder Addr] {other : Option (Candidate Addr)} {serviceRoutes : String → Option (RouteList Addr)}
variable {initialSize : Nat}

private theorem routeListAddRouteList_ok (room : 1 ≤ initialSize) {routes : Option (RouteList Addr)}
    (sized : ∀ l ∈ routes, 1 ≤ l.size) (list : RouteList Addr) (rank : Rank) :
    ∃ routes', routeListAddRouteList routes initialSize list rank = .ok routes' ∧ (∀ l ∈ routes', 1 ≤ l.size) ∧
      listed routes' = mergeAll (contributions list rank) (listed routes) :=
  addContributions_ok room sized

/-- What an iteration does to the primary and to the routes. -/
theorem electStep_ok (room : 1 ≤ initialSize) {e : Election Addr} (sized : ∀ l ∈ e.routes, 1 ≤ l.size)
    (scan : Candidate Addr) :
    ∃ e', electStep other serviceRoutes initialSize e scan = .ok e' ∧ (∀ l ∈ e'.routes, 1 ≤ l.size) ∧
      e'.primary = (if admitted other scan && e.primary.isNone then some scan else e.primary) ∧
      e'.primaryIsNull =
        (e.primaryIsNull || admitted other scan && e.primary.isNone && !shown serviceRoutes scan) ∧
      listed e'.routes = mergeAll (share serviceRoutes other e.primary.isNone scan) (listed e.routes) := by
  have wins : (mayBePrimary scan && e.primary.isNone &&
      !(mayBePrimary scan && e.primary.isNone && electionResultsCandidateNeedsDemotion other scan)) =
        (admitted other scan && e.primary.isNone) := by
    unfold admitted
    cases mayBePrimary scan <;> cases e.primary.isNone <;> simp
  have rank : (if (mayBePrimary scan && e.primary.isNone && electionResultsCandidateNeedsDemotion other scan) = true
      then rankMake scan.rank rankAssertionNever else scan.rank) = routeRank other e.primary.isNone scan := rfl
  simp only [electStep,wins,share,shown]
  cases serviceRoutes scan.serviceID with
  | none =>
    refine ⟨_,rfl,sized,rfl,?_,rfl⟩
    simp
  | some list =>
    obtain ⟨routes',added,sized',same⟩ := routeListAddRouteList_ok room sized list
      (routeRank other e.primary.isNone scan)
    have exclusive : (mayBePrimary scan && e.primary.isNone &&
        electionResultsCandidateNeedsDemotion other scan) = true → (admitted other scan && e.primary.isNone) = false := by
      unfold admitted
      cases electionResultsCandidateNeedsDemotion other scan <;> simp
    simp only [rank,added,Except.map]
    generalize (mayBePrimary scan && e.primary.isNone && electionResultsCandidateNeedsDemotion other scan) = demoted
      at exclusive ⊢
    generalize (admitted other scan && e.primary.isNone) = isPrimary at exclusive ⊢
    refine ⟨_,rfl,?_⟩
    cases demoted with
    | true =>
      rw [exclusive rfl]
      exact ⟨sized',rfl,by simp,same⟩
    | false =>
      cases excluded : list.flags.excludeNWI with
      | true => exact ⟨sized',rfl,by simp [excluded],same⟩
      | false =>
        cases scan.ineligible
        · exact ⟨sized',rfl,by simp [excluded],same⟩
        · exact ⟨sized',rfl,by simp [excluded],same⟩

/-- What candidates contribute in turn. Only until there is a primary are any demoted. -/
def shares (serviceRoutes : String → Option (RouteList Addr)) (other : Option (Candidate Addr)) :
    Bool → List (Candidate Addr) → List (Route Addr × Rank)
  | _, [] => []
  | open_, c::cs => share serviceRoutes other open_ c ++ shares serviceRoutes other (open_ && !admitted other c) cs

private theorem electLoop_ok (room : 1 ≤ initialSize) (results : List (Candidate Addr)) {e : Election Addr}
    (sized : ∀ l ∈ e.routes, 1 ≤ l.size) :
    ∃ e', results.foldlM (electStep other serviceRoutes initialSize) e = .ok e' ∧
      e'.primary = e.primary.or (results.find? (admitted other)) ∧
      e'.primaryIsNull = (e.primaryIsNull ||
        e.primary.isNone && (results.find? (admitted other)).any (!shown serviceRoutes ·)) ∧
      listed e'.routes = mergeAll (shares serviceRoutes other e.primary.isNone results) (listed e.routes) := by
  induction results generalizing e with
  | nil => exact ⟨e,rfl,by simp,by simp,rfl⟩
  | cons c results ih =>
    obtain ⟨next,stepped,sized',primary,null,routes⟩ := @electStep_ok _ _ other serviceRoutes _ room e sized c
    obtain ⟨last,rest,primary',null',routes'⟩ := ih sized'
    refine ⟨last,?_,?_,?_,?_⟩
    · rw [List.foldlM_cons,stepped]
      exact rest
    · rw [primary',primary,List.find?_cons]
      cases admitted other c <;> cases e.primary <;> rfl
    · rw [null',null,primary,List.find?_cons]
      cases admitted other c <;> cases e.primary <;> simp
    · rw [routes',routes,primary,shares,mergeAll,mergeAll,mergeAll,List.foldl_append]
      congr 2
      cases admitted other c <;> cases e.primary <;> rfl

/-- The primary is the first candidate that may be, if the network state shows it. -/
theorem electionResultsGetPrimary_ok (results : List (Candidate Addr)) (other : Option (Candidate Addr)) (af : AF)
    (serviceRoutes : String → Option (RouteList Addr)) :
    ∃ elected, electionResultsGetPrimary results other af serviceRoutes = .ok elected ∧
      elected.primary = (results.find? (admitted other)).filter (shown serviceRoutes) ∧
      listed elected.routes = mergeAll (shares serviceRoutes other true results) [] := by
  cases results with
  | nil => exact ⟨_,rfl,rfl,rfl⟩
  | cons c results =>
    have room : 1 ≤ (c::results).length * routesNStatic af := by
      cases af <;> simp only [routesNStatic,List.length_cons] <;> omega
    obtain ⟨e,run,primary,null,routes⟩ := @electLoop_ok _ _ other serviceRoutes _ room (c::results) .start nofun
    refine ⟨_,by rw [electionResultsGetPrimary,run]; rfl,?_,routes⟩
    simp only [primary,null,Election.start,Option.none_or,Bool.false_or,Option.isNone_none,Bool.true_and]
    cases (c::results).find? (admitted other) with
    | none => rfl
    | some p => cases visible : shown serviceRoutes p <;> simp [Option.filter,visible]

end Run

/-! ## Two elections -/

/-- Two candidates that must not both be primary. -/
def Conflict (c c' : Candidate Addr) : Prop := c.ifName ≠ c'.ifName ∧ (c.ipIsCoupled ∨ c'.ipIsCoupled)

theorem Conflict.symm {c c' : Candidate Addr} (conflict : Conflict c c') : Conflict c' c :=
  ⟨conflict.1.symm,conflict.2.symm⟩

/-- A candidate that may be primary demotes those in conflict with it that rank
behind it, and a coupled one with its own rank unless it is coupled itself. -/
theorem needsDemotion_iff {o c : Candidate Addr} (may : mayBePrimary o) (name : ¬ cfStringHasPrefix o.ifName "stf") :
    electionResultsCandidateNeedsDemotion (some o) c ↔
      Conflict o c ∧ (o.rank < c.rank ∨ o.rank = c.rank ∧ c.ipIsCoupled ∧ ¬ o.ipIsCoupled) := by
  simp only [mayBePrimary,Bool.and_eq_true,Bool.not_eq_true',decide_eq_true_eq] at may
  simp only [electionResultsCandidateNeedsDemotion,may.1,may.2,name,Bool.false_eq_true,if_false,Conflict]
  by_cases interface : o.ifName = c.ifName
  · simp [interface]
  · rcases Nat.lt_trichotomy o.rank.toNat c.rank.toNat with less | equal | more
    · have forth : o.rank < c.rank := UInt32.lt_iff_toNat_lt.mpr less
      have back : ¬ c.rank < o.rank := UInt32.lt_asymm forth
      have apart : c.rank ≠ o.rank := (UInt32.ne_of_lt forth).symm
      cases c.ipIsCoupled <;> cases o.ipIsCoupled <;> simp [interface,forth,back,apart]
    · have same : o.rank = c.rank := UInt32.toNat_inj.mp equal
      cases c.ipIsCoupled <;> cases o.ipIsCoupled <;> simp [interface,same,UInt32.lt_irrefl]
    · have back : c.rank < o.rank := UInt32.lt_iff_toNat_lt.mpr more
      have forth : ¬ o.rank < c.rank := UInt32.lt_asymm back
      have apart : o.rank ≠ c.rank := (UInt32.ne_of_lt back).symm
      cases c.ipIsCoupled <;> cases o.ipIsCoupled <;> simp [interface,forth,back,apart]

private theorem needsDemotion_none {o : Option (Candidate Addr)} (c : Candidate Addr) (none : o.all (!mayBePrimary ·)) :
    electionResultsCandidateNeedsDemotion o c = false := by
  cases o with
  | none => rfl
  | some o =>
    simp only [Option.all_some,mayBePrimary,Bool.not_and,Bool.or_eq_true,Bool.not_not,Bool.not_eq_true',
      decide_eq_false_iff_not,ne_eq,not_not] at none
    rcases none with never | never <;> simp [electionResultsCandidateNeedsDemotion,never]

variable {l : List (Candidate Addr)} {o : Option (Candidate Addr)} {c x : Candidate Addr}

private theorem find_admitted (first : l.find? mayBePrimary = some c)
    (stays : electionResultsCandidateNeedsDemotion o c = false) : l.find? (admitted o) = some c := by
  obtain ⟨may,before,after,split,none⟩ := List.find?_eq_some_iff_append.mp first
  refine List.find?_eq_some_iff_append.mpr ⟨by simp [admitted,may,stays],before,after,split,?_⟩
  intro a member
  have never := none a member
  simp only [Bool.not_eq_true'] at never
  simp [admitted,never]

/-- If it is not the first candidate that is admitted it is one behind that. -/
theorem find_behind (climbs : l.Pairwise (·.rank < ·.rank)) (first : l.find? mayBePrimary = some c)
    (demoted : electionResultsCandidateNeedsDemotion o c) (found : l.find? (admitted o) = some x) :
    mayBePrimary x ∧ electionResultsCandidateNeedsDemotion o x = false ∧ c.rank < x.rank := by
  obtain ⟨may,before,after,split,none⟩ := List.find?_eq_some_iff_append.mp first
  have admits := List.find?_some found
  simp only [admitted,Bool.and_eq_true,Bool.not_eq_true'] at admits
  refine ⟨admits.1,admits.2,?_⟩
  have member := List.mem_of_find?_eq_some found
  rw [split] at member climbs
  rcases List.mem_append.mp member with early | late
  · have never := none x early
    simp [admits.1] at never
  · rcases List.mem_cons.mp late with rfl | later
    · rw [admits.2] at demoted
      cases demoted
    · exact (List.pairwise_cons.mp (List.pairwise_append.mp climbs).2.1).1 x later

/-- The primaries are over one interface if one of them is coupled. -/
def KeptTogether (primary4 primary6 : Option (Candidate Addr)) : Prop :=
  ∀ c ∈ primary4, ∀ c' ∈ primary6, ¬ Conflict c c'

/-- When the election keeps coupled services together. Of each protocol only the
first candidate that may be primary matters, if the network state shows it. The
first candidate for IPv6 can only demote those for IPv4 if it may be primary
itself. -/
def Together (ipv4 ipv6 : List (Candidate Addr)) (serviceRoutes : AF → String → Option (RouteList Addr)) : Prop :=
  ∀ c ∈ ipv4.find? mayBePrimary, ∀ c' ∈ ipv6.find? mayBePrimary,
    shown (serviceRoutes .inet) c → shown (serviceRoutes .inet6) c' → Conflict c c' →
      if ipv6.head?.any mayBePrimary then ¬ (c.rank = c'.rank ∧ c.ipIsCoupled ∧ c'.ipIsCoupled)
      else c.rank < c'.rank ∨ c.rank = c'.rank ∧ ¬ c.ipIsCoupled

theorem mem_filter {a : Option (Candidate Addr)} {p : Candidate Addr → Bool} : x ∈ a.filter p ↔ a = some x ∧ p x := by
  rw [Option.mem_def,Option.filter_eq_some_iff]

private theorem admitted_none (nobody : l.find? mayBePrimary = none) : l.find? (admitted o) = none := by
  rw [List.find?_eq_none] at nobody ⊢
  intro a member
  have never := nobody a member
  simp only [Bool.not_eq_true] at never
  simp [admitted,never]

/-- What the second election makes of the primary of the first. -/
theorem keptTogether_second {c' : Candidate Addr} {ipv6 : List (Candidate Addr)}
    {visible : Candidate Addr → Bool} (climbs : ipv6.Pairwise (·.rank < ·.rank)) (may : mayBePrimary c)
    (name : ¬ cfStringHasPrefix c.ifName "stf") (first : ipv6.find? mayBePrimary = some c') :
    KeptTogether (some c) ((ipv6.find? (admitted (some c))).filter visible) ↔
      (visible c' → Conflict c c' → electionResultsCandidateNeedsDemotion (some c) c') := by
  cases demoted : electionResultsCandidateNeedsDemotion (some c) c' with
  | false =>
    rw [find_admitted first demoted]
    simp only [KeptTogether,Option.mem_some_iff,mem_filter,Option.some.injEq,Bool.false_eq_true,imp_false]
    grind
  | true =>
    simp only [implies_true,iff_true]
    rintro _ ⟨⟩ y member conflict
    obtain ⟨found,_⟩ := mem_filter.mp member
    obtain ⟨_,stays,behind⟩ := find_behind climbs first demoted found
    have less : c.rank < y.rank := by
      rcases ((needsDemotion_iff may name).mp demoted).2 with less | ⟨same,_⟩
      · exact UInt32.lt_trans less behind
      · exact same ▸ behind
    rw [(needsDemotion_iff may name).mpr ⟨conflict,.inl less⟩] at stays
    cases stays

variable {ipv4 ipv6 : List (Candidate Addr)} {serviceRoutes : AF → String → Option (RouteList Addr)}

/-- The first election has gone to the first candidate that may be primary. -/
theorem keptTogether_first {c c' : Candidate Addr} (climbs6 : ipv6.Pairwise (·.rank < ·.rank))
    (name : ¬ cfStringHasPrefix c.ifName "stf") (first4 : ipv4.find? mayBePrimary = some c)
    (first6 : ipv6.find? mayBePrimary = some c')
    (stays : electionResultsCandidateNeedsDemotion ipv6.head? c = false)
    (rule : Conflict c c' → (electionResultsCandidateNeedsDemotion (some c) c' ↔
      if ipv6.head?.any mayBePrimary then ¬ (c.rank = c'.rank ∧ c.ipIsCoupled ∧ c'.ipIsCoupled)
      else c.rank < c'.rank ∨ c.rank = c'.rank ∧ ¬ c.ipIsCoupled)) {primary4 : Option (Candidate Addr)}
    (elected : primary4 = (ipv4.find? (admitted ipv6.head?)).filter (shown (serviceRoutes .inet))) :
    KeptTogether primary4 ((ipv6.find? (admitted primary4)).filter (shown (serviceRoutes .inet6))) ↔
      Together ipv4 ipv6 serviceRoutes := by
  have may := List.find?_some first4
  rw [find_admitted first4 stays] at elected
  simp only [Together,first4,first6,Option.mem_some_iff,forall_eq']
  cases visible : shown (serviceRoutes .inet) c with
  | false =>
    obtain rfl : primary4 = none := by rw [elected]; simp [Option.filter,visible]
    simp [KeptTogether]
  | true =>
    obtain rfl : primary4 = some c := by rw [elected]; simp [Option.filter,visible]
    rw [keptTogether_second climbs6 may name first6]
    simp only [forall_true_left]
    exact forall_congr' fun _ => forall_congr' rule

private theorem keptTogether_iff (climbs4 : ipv4.Pairwise (·.rank < ·.rank)) (climbs6 : ipv6.Pairwise (·.rank < ·.rank))
    (names : ∀ c ∈ ipv4 ++ ipv6, ¬ cfStringHasPrefix c.ifName "stf") {primary4 : Option (Candidate Addr)}
    (elected : primary4 = (ipv4.find? (admitted ipv6.head?)).filter (shown (serviceRoutes .inet))) :
    KeptTogether primary4 ((ipv6.find? (admitted primary4)).filter (shown (serviceRoutes .inet6))) ↔
      Together ipv4 ipv6 serviceRoutes := by
  cases first4 : ipv4.find? mayBePrimary with
  | none =>
    rw [elected,admitted_none first4]
    simp [KeptTogether,Together,first4]
  | some c =>
    cases first6 : ipv6.find? mayBePrimary with
    | none =>
      rw [admitted_none first6]
      simp [KeptTogether,Together,first6]
    | some c' =>
      have name := names c (List.mem_append_left _ (List.mem_of_find?_eq_some first4))
      have name' := names c' (List.mem_append_right _ (List.mem_of_find?_eq_some first6))
      have may := List.find?_some first4
      have may' := List.find?_some first6
      cases lead : ipv6.head?.any mayBePrimary with
      | false =>
        have nobody : ipv6.head?.all (!mayBePrimary ·) := by
          cases head : ipv6.head? with
          | none => rfl
          | some h =>
            rw [head] at lead
            simpa using lead
        have stays := needsDemotion_none c nobody
        refine keptTogether_first climbs6 name first4 first6 stays ?_ elected
        intro conflict
        rw [needsDemotion_iff may name,lead]
        simp only [conflict,true_and,Bool.false_eq_true,if_false]
        have coupled := conflict.2
        grind
      | true =>
        have head : ipv6.head? = some c' := by
          cases ipv6 with
          | nil => cases lead
          | cons h rest =>
            simp only [List.head?_cons,Option.any_some] at lead
            rw [List.find?_cons,lead] at first6
            exact first6
        cases demoted : electionResultsCandidateNeedsDemotion ipv6.head? c with
        | false =>
          refine keptTogether_first climbs6 name first4 first6 demoted ?_ elected
          intro conflict
          rw [head,← Bool.not_eq_true,needsDemotion_iff may' name'] at demoted
          rw [needsDemotion_iff may name,lead]
          simp only [conflict,conflict.symm,true_and,if_true] at demoted ⊢
          have coupled := conflict.2
          have trichotomy := Nat.lt_trichotomy c.rank.toNat c'.rank.toNat
          rw [← UInt32.lt_iff_toNat_lt,← UInt32.lt_iff_toNat_lt,UInt32.toNat_inj] at trichotomy
          grind
        | true =>
          -- the first candidate for IPv6 has its way in both elections
          rw [head] at demoted elected
          obtain ⟨conflict,behind⟩ := (needsDemotion_iff may' name').mp demoted
          have together : Together ipv4 ipv6 serviceRoutes := by
            simp only [Together,first4,first6,Option.mem_some_iff,forall_eq',lead,if_true]
            grind
          simp only [together,iff_true]
          intro x member y member' conflict'
          rw [elected,mem_filter] at member
          obtain ⟨mayX,stays,later⟩ := find_behind climbs4 first4 demoted member.1
          have nameX := names x (List.mem_append_left _ (List.mem_of_find?_eq_some member.1))
          have less : c'.rank < x.rank := by
            rcases behind with less | ⟨same,_⟩
            · exact UInt32.lt_trans less later
            · exact same ▸ later
          have keeps : electionResultsCandidateNeedsDemotion (some x) c' = false := by
            rw [← Bool.not_eq_true,needsDemotion_iff mayX nameX]
            rintro ⟨_,more | ⟨same,_⟩⟩
            · exact UInt32.lt_asymm less more
            · exact UInt32.ne_of_lt less same.symm
          have primary : primary4 = some x := by rw [elected]; exact mem_filter.mpr member
          rw [primary,find_admitted first6 keeps,mem_filter] at member'
          obtain rfl := Option.some.inj member'.1
          rw [(needsDemotion_iff may' name').mpr ⟨conflict'.symm,.inl less⟩] at stays
          cases stays

/-- Coupled services are kept together exactly if the first candidates that may
be primary do not conflict in a way the elections do not see. -/
theorem primaries_together_iff [LinearOrder Addr] (climbs4 : ipv4.Pairwise (·.rank < ·.rank))
    (climbs6 : ipv6.Pairwise (·.rank < ·.rank)) (names : ∀ c ∈ ipv4 ++ ipv6, ¬ cfStringHasPrefix c.ifName "stf") :
    (∃ elected4 elected6, electPrimaries ipv4 ipv6 serviceRoutes = .ok (elected4,elected6) ∧
      KeptTogether elected4.primary elected6.primary) ↔ Together ipv4 ipv6 serviceRoutes := by
  obtain ⟨elected4,first,primary4,_⟩ := electionResultsGetPrimary_ok ipv4 ipv6.head? .inet (serviceRoutes .inet)
  obtain ⟨elected6,second,primary6,_⟩ :=
    electionResultsGetPrimary_ok ipv6 elected4.primary .inet6 (serviceRoutes .inet6)
  have both : electPrimaries ipv4 ipv6 serviceRoutes = .ok (elected4,elected6) := by
    rw [electPrimaries,first]
    show (do
      let elected6 ← electionResultsGetPrimary ipv6 elected4.primary .inet6 (serviceRoutes .inet6)
      return (elected4,elected6)) = _
    rw [second]
    rfl
  rw [← keptTogether_iff climbs4 climbs6 names primary4,← primary6,both]
  constructor
  · rintro ⟨_,_,⟨⟩,kept⟩
    exact kept
  · exact fun kept => ⟨elected4,elected6,rfl,kept⟩

def candidateOver (ifName : String) (index : Rank) (ipIsCoupled ineligible : Bool) : Candidate Nat :=
  ⟨ifName,ifName,rankMake index rankAssertionDefault,ipIsCoupled,ineligible,none,none⟩

/-- The coupled service over en3 has both protocols and comes first. -/
theorem coupled_first_together :
    ∃ elected4 elected6, electPrimaries
        [candidateOver "en3" 1 true false,candidateOver "en0" 2 false false]
        [candidateOver "en3" 1 true false] (fun _ _ => some (subnetOver 4 rankAssertionDefault)) =
          .ok (elected4,elected6) ∧ KeptTogether elected4.primary elected6.primary := by
  refine (primaries_together_iff (by decide) (by decide) (by decide)).mpr ?_
  rintro _ ⟨⟩ _ ⟨⟩ _ _ conflict
  exact absurd rfl conflict.1

/-- A service that may not be primary hides the coupled one behind it. -/
theorem hidden_coupled_is_split :
    ¬ ∃ elected4 elected6, electPrimaries [candidateOver "en0" 3 false false]
        [candidateOver "en5" 1 false true,candidateOver "en3" 2 true false]
        (fun _ _ => some (subnetOver 4 rankAssertionDefault)) = .ok (elected4,elected6) ∧
          KeptTogether elected4.primary elected6.primary := by
  rintro ⟨_,_,⟨⟩,kept⟩
  exact kept _ rfl _ rfl ⟨by decide,.inr rfl⟩

end FreebsdLaunchd.IpMonitor
