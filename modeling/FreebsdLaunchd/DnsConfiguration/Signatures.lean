import FreebsdLaunchd.DnsConfiguration.Configuration

/-! The signatures of the resolvers: by its signature a resolver is told from all others
that supplement the configuration, so that `addResolver` appends it. -/
namespace FreebsdLaunchd.DnsConfiguration

def identity (resolver : CFDictionary) : Option Value := resolver.lookup .configurationId

/-! ## The text of a signature -/

private theorem append_space_inj {a a' d d' : CFString} (outside : ' ' ∉ d) (outside' : ' ' ∉ d')
    (same : a ++ ' ' :: d = a' ++ ' ' :: d') : a = a' ∧ d = d' := by
  rcases List.append_eq_append_iff.mp same with ⟨c,front,back⟩ | ⟨c,front,back⟩
  · cases c with
    | nil => exact ⟨by simpa using front.symm,(List.cons.inj back).2⟩
    | cons first c =>
      rw [List.cons_append] at back
      have inside : ' ' ∈ d := (List.cons.inj back).2 ▸ List.mem_append_right _ List.mem_cons_self
      exact absurd inside outside
  · cases c with
    | nil => exact ⟨by simpa using front,(List.cons.inj back).2.symm⟩
    | cons first c =>
      rw [List.cons_append] at back
      have inside : ' ' ∈ d' := (List.cons.inj back).2 ▸ List.mem_append_right _ List.mem_cons_self
      exact absurd inside outside'

private theorem space_digits (n : Nat) : ' ' ∉ (toString n).toList := by
  intro member
  rw [Nat.toString_eq_repr,Nat.toList_repr] at member
  have digit := Nat.isDigit_of_mem_toDigits (by decide) (by decide) member
  revert digit
  decide

private theorem digits_inj {m n : Nat} (same : (toString m).toList = (toString n).toList) : m = n := by
  rw [Nat.toString_eq_repr,Nat.toString_eq_repr,Nat.toList_repr,Nat.toList_repr] at same
  rw [← Nat.ofDigitChars_ten_toDigits (n := m),same,Nat.ofDigitChars_ten_toDigits]

private theorem signature_index {rType : CFString} {cID cID' : Option CFString} {i j : Nat}
    (same : signature rType cID i = signature rType cID' j) : i = j := by
  unfold signature at same
  rw [List.append_assoc _ [' '],List.append_assoc _ [' ']] at same
  exact digits_inj (append_space_inj (space_digits i) (space_digits j) same).2

private theorem signature_service {rType serviceID serviceID' : CFString} {i j : Nat}
    (same : signature rType (some serviceID) i = signature rType (some serviceID') j) : serviceID = serviceID' := by
  unfold signature at same
  rw [List.append_assoc _ [' '],List.append_assoc _ [' ']] at same
  have front := (append_space_inj (space_digits i) (space_digits j) same).1
  exact (List.cons.inj (List.append_cancel_left front)).2

private theorem string_inj {text text' : CFString} (same : some (Value.string text) = some (Value.string text')) :
    text = text' := by
  injection same with same
  injection same with same
  injection same

/-! ## Resolvers with a signature of a kind -/

/-- The resolvers have signatures of one service, in the order of their indices from `i` on. -/
structure SignedFrom (rType : CFString) (cID : Option CFString) (i : Nat) (resolvers : List CFDictionary) : Prop where
  each : ∀ resolver ∈ resolvers, ∃ j ≥ i, identity resolver = some (.string (signature rType cID j))
  distinct : resolvers.Pairwise fun a b => identity a ≠ identity b

theorem SignedFrom.mono {rType : CFString} {cID : Option CFString} {i : Nat} {resolvers : List CFDictionary}
    (signed : SignedFrom rType cID (i+1) resolvers) : SignedFrom rType cID i resolvers where
  each resolver member := by
    obtain ⟨j,later,named⟩ := signed.each resolver member
    exact ⟨j,by omega,named⟩
  distinct := signed.distinct

theorem SignedFrom.cons {rType : CFString} {cID : Option CFString} {i : Nat} {resolvers : List CFDictionary}
    {resolver : CFDictionary} (signed : SignedFrom rType cID (i+1) resolvers)
    (named : identity resolver = some (.string (signature rType cID i))) :
    SignedFrom rType cID i (resolver::resolvers) where
  each := List.forall_mem_cons.mpr ⟨⟨i,Nat.le_refl i,named⟩,signed.mono.each⟩
  distinct := by
    refine List.pairwise_cons.mpr ⟨fun other member same => ?_,signed.distinct⟩
    obtain ⟨j,later,named'⟩ := signed.each other member
    have equal := signature_index (string_inj (named.symm.trans (same.trans named')))
    omega

theorem SignedFrom.nil (rType : CFString) (cID : Option CFString) (i : Nat) : SignedFrom rType cID i [] where
  each _ member := absurd member List.not_mem_nil
  distinct := .nil

private theorem matchResolvers_signed (serviceID : CFString) (dns : CFDictionary) (orders : Option (List Atom))
    (domains : List Atom)
    (i : Nat) (defaultOrder : BitVec 32) :
    SignedFrom "Supplemental".toList (some serviceID) i (matchResolvers serviceID dns false orders domains i defaultOrder) := by
  induction domains, i, defaultOrder using matchResolvers.induct serviceID dns false orders with
  | case1 i defaultOrder => exact .nil ..
  | case2 matchDomain domains i defaultOrder made ih => exact ih.cons (lookup_signature ..)
  | case3 atom domains i defaultOrder other ih =>
    rw [matchResolvers]
    · exact ih.mono
    · exact other

private theorem serviceSupplementals_signed (serviceOrder : List CFString) (count : Nat)
    (entry : (CFString × Service) × Nat) :
    SignedFrom "Supplemental".toList (some entry.1.1) 0 (serviceSupplementals none serviceOrder count entry) := by
  unfold serviceSupplementals
  split
  · unfold supplementalResolvers
    split
    · exact matchResolvers_signed ..
    · exact .nil ..
  · exact .nil ..

private theorem optionResolvers_signed (rType options : CFString) (order : Nat → BitVec 32) (timeout : Option Int)
    (domains : List Atom) (i : Nat) :
    SignedFrom rType none i ((domains.zipIdx i).filterMap fun entry =>
      (scTrimDomain (some (.atom entry.1))).map fun domain =>
        optionResolver rType options (order entry.2) timeout domain entry.2) := by
  induction domains generalizing i with
  | nil => exact .nil ..
  | cons domain domains ih =>
    rw [List.zipIdx_cons]
    cases trimmed : scTrimDomain (some (.atom domain)) with
    | none =>
      rw [List.filterMap_cons_none (by simp [trimmed])]
      exact (ih (i+1)).mono
    | some text =>
      rw [List.filterMap_cons_some (by simp only [trimmed,Option.map_some]; rfl)]
      exact (ih (i+1)).cons (lookup_signature ..)

theorem privateResolvers_signed (timeout : Option Int) (domains : List Atom) :
    SignedFrom "Private DNS".toList none 0 (privateResolversOf timeout domains) := by
  unfold privateResolversOf
  exact optionResolvers_signed _ _
    (fun i => DEFAULT_SEARCH_ORDER - DEFAULT_SEARCH_ORDER / 4 + DEFAULT_SEARCH_ORDER / 1000 * BitVec.ofNat 32 i) _ _ _

theorem multicastResolvers_signed (timeout : Option Int) (domains : List Atom) :
    SignedFrom "Multicast DNS".toList none 0 (multicastResolversOf timeout domains) := by
  unfold multicastResolversOf
  exact optionResolvers_signed _ _
    (fun i => DEFAULT_SEARCH_ORDER + DEFAULT_SEARCH_ORDER / 2 + DEFAULT_SEARCH_ORDER / 1000 * BitVec.ofNat 32 i) _ _ _

/-! ## All resolvers of general queries -/

def Begins (c : Char) (resolver : CFDictionary) : Prop := ∃ text, identity resolver = some (.string (c::text))

theorem SignedFrom.begins {c : Char} {rType : CFString} {cID : Option CFString} {i : Nat} {resolvers : List CFDictionary}
    (signed : SignedFrom rType cID i resolvers) (first : rType.head? = some c) :
    ∀ resolver ∈ resolvers, Begins c resolver := by
  intro resolver member
  obtain ⟨j,_,named⟩ := signed.each resolver member
  cases rType with
  | nil => cases first
  | cons c' rest =>
    cases first
    exact ⟨_,named⟩

theorem Begins.apart {c c' : Char} {a b : CFDictionary} (first : Begins c a) (second : Begins c' b) (other : c ≠ c') :
    identity a ≠ identity b := by
  obtain ⟨text,named⟩ := first
  obtain ⟨text',named'⟩ := second
  intro same
  exact other (List.cons.inj (string_inj (named.symm.trans (same.trans named')))).1

theorem allSupplementals_signed {services : Services} (distinct : (services.map Prod.fst).Nodup)
    (serviceOrder : List CFString) :
    (allSupplementals none services serviceOrder).Pairwise (fun a b => identity a ≠ identity b) ∧
      ∀ resolver ∈ allSupplementals none services serviceOrder, Begins 'S' resolver := by
  have keys : services.zipIdx.Pairwise fun entry entry' => entry.1.1 ≠ entry'.1.1 := by
    have whole := List.pairwise_map.mp distinct
    rw [← List.zipIdx_map_fst 0 services,List.pairwise_map] at whole
    exact whole
  refine ⟨List.pairwise_flatMap.mpr ⟨fun entry _ => (serviceSupplementals_signed ..).distinct,keys.imp ?_⟩,?_⟩
  · intro entry entry' apart a member b member' same
    obtain ⟨i,_,named⟩ := (serviceSupplementals_signed ..).each a member
    obtain ⟨j,_,named'⟩ := (serviceSupplementals_signed ..).each b member'
    exact apart (signature_service (string_inj (named.symm.trans (same.trans named'))))
  · intro resolver member
    obtain ⟨entry,_,added⟩ := List.mem_flatMap.mp member
    exact (serviceSupplementals_signed serviceOrder services.length entry).begins (by decide) resolver added

/-! ## Appending -/

/-- Resolvers with different signatures are appended, each with its place as its number. -/
theorem foldl_addResolver_append {ifNameToIndex : CFString → BitVec 32} (calls resolvers : List CFDictionary)
    (distinct : calls.Pairwise fun a b => identity a ≠ identity b)
    (new : ∀ stored ∈ resolvers, ∀ resolver ∈ calls, identity stored ≠ identity resolver) :
    calls.foldl (addResolver ifNameToIndex) resolvers =
      resolvers ++ (calls.zipIdx resolvers.length).map fun entry => bookkept ifNameToIndex entry.2 entry.1 := by
  induction calls generalizing resolvers with
  | nil => simp
  | cons resolver calls ih =>
    obtain ⟨first,distinct⟩ := List.pairwise_cons.mp distinct
    have apart : ∀ stored ∈ resolvers, ¬ meets resolver stored := fun stored member met =>
      new stored member resolver List.mem_cons_self (lookup_of_meets met (by decide)).symm
    rw [List.foldl_cons,addResolver_append apart,ih _ distinct,List.zipIdx_cons,List.map_cons,List.length_append,
      List.append_assoc]
    · rfl
    · intro stored member other member'
      rcases List.mem_append.mp member with old | now
      · exact new stored old other (List.mem_cons_of_mem _ member')
      · rw [List.mem_singleton.mp now,identity,lookup_bookkept _ (by decide) (by decide)]
        exact first other member'

end FreebsdLaunchd.DnsConfiguration
