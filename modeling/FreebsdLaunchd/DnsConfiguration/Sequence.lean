import FreebsdLaunchd.DnsConfiguration.Enumeration
import FreebsdLaunchd.DnsConfiguration.Signatures

/-! The sequence of supplemental resolvers of several services: the sort puts them in one
order as long as no two of different services come out equal. -/
namespace FreebsdLaunchd.DnsConfiguration
open ArraySorting Enumerations

variable {system : System} {services services' : Services} {configuration : Configuration} {collate : Collation}
  {ifNameToIndex : CFString → BitVec 32} {a b : CFDictionary}

/-! ## Comparing resolvers that are listed -/

def criteria (collate : Collation) : CFDictionary → CFDictionary → Ordering :=
  compareLex (compareOn isScopedConfiguration) (compareLex (compareOn isReverse)
    (compareLex (fun dns1 dns2 => compareLabels collate (reversedLabels dns1) (reversedLabels dns2))
      (compareOn fun dns => (searchOrder dns).toNat)))

instance [Std.TransCmp collate] : Std.TransCmp (criteria collate) := by
  have labels : Std.TransCmp fun dns1 dns2 => compareLabels collate (reversedLabels dns1) (reversedLabels dns2) :=
    compareLabels_transCmp
  exact inferInstanceAs (Std.TransCmp (compareLex _ _))

private theorem compareNamed_criteria (collate : Collation) (a b : CFDictionary) :
    compareNamed collate a b = (criteria collate a b).then (compareRecorded a b) := by
  rw [compareNamed_eq,compareBySearchOrder_eq]
  simp only [criteria,compareLex,Ordering.then_assoc]

theorem isScopedConfiguration_bookkept (i : Nat) :
    isScopedConfiguration (bookkept ifNameToIndex i a) = isScopedConfiguration a := by
  rw [isScopedConfiguration,isScopedConfiguration,lookup_bookkept _ (by decide) (by decide)]

private theorem domainText_bookkept (i : Nat) : domainText (bookkept ifNameToIndex i a) = domainText a := by
  rw [domainText,domainText,lookup_bookkept _ (by decide) (by decide)]

private theorem searchOrder_bookkept (i : Nat) : searchOrder (bookkept ifNameToIndex i a) = searchOrder a := by
  rw [searchOrder,searchOrder,lookup_bookkept _ (by decide) (by decide)]

private theorem criteria_bookkept (collate : Collation) (i j : Nat) :
    criteria collate (bookkept ifNameToIndex i a) (bookkept ifNameToIndex j b) = criteria collate a b := by
  simp only [criteria,compareLex,compareOn,isReverse,reversedLabels,isScopedConfiguration_bookkept,domainText_bookkept,
    searchOrder_bookkept]

private theorem supplementalDomain_bookkept (i : Nat) :
    supplementalDomain (bookkept ifNameToIndex i a) = supplementalDomain a := by
  have same (key : Key) (other : key ≠ .order) (other' : key ≠ .ifIndex) :
      (bookkept ifNameToIndex i a).lookup key = a.lookup key := lookup_bookkept _ other other'
  unfold supplementalDomain
  simp only [same .options (by decide) (by decide),same .domainName (by decide) (by decide),
    same .supplementalMatchDomainsNoSearch (by decide) (by decide)]

private theorem sint32_number {n : Nat} (small : n < 2^31) : sint32 (some (.number n)) = some (BitVec.ofNat 32 n) := by
  have range : -2^31 ≤ (n : Int) ∧ (n : Int) < 2^31 := by omega
  have read (m : Int) : sint32 (some (.number m)) = if -2^31 ≤ m ∧ m < 2^31 then some (BitVec.ofInt 32 m) else none := rfl
  rw [read,if_pos range,BitVec.ofInt_natCast]

/-- The numbers of the list tell all resolvers apart while there are few of them. -/
theorem compareRecorded_bookkept {i j : Nat} (small : i < 2^31) (small' : j < 2^31) :
    compareRecorded (bookkept ifNameToIndex i a) (bookkept ifNameToIndex j b) = compare i j := by
  unfold compareRecorded
  rw [lookup_order_bookkept,lookup_order_bookkept,sint32_number small,sint32_number small']
  dsimp only
  rw [BitVec.toNat_ofNat,BitVec.toNat_ofNat,Nat.mod_eq_of_lt (by omega),Nat.mod_eq_of_lt (by omega)]

def place (ifNameToIndex : CFString → BitVec 32) (passed : List CFDictionary) (resolver : CFDictionary) : CFDictionary :=
  bookkept ifNameToIndex (passed.idxOf resolver) resolver

/-- Two enumerations of what is passed in, in which resolvers that come out equal have one order. -/
structure Rearranged (same : CFDictionary → CFDictionary → Prop) (passed passed' : List CFDictionary) : Prop where
  perm : passed.Perm passed'
  distinct : passed.Nodup
  few : passed.length < 2^31
  order : ∀ a ∈ passed, ∀ b ∈ passed, same a b → passed.idxOf a < passed.idxOf b → passed'.idxOf a < passed'.idxOf b

section Rearranged

variable {same : CFDictionary → CFDictionary → Prop} {passed passed' : List CFDictionary}
  (rearranged : Rearranged same passed passed')
include rearranged

theorem Rearranged.compareRecorded (member : a ∈ passed) (member' : b ∈ passed) (apart : a ≠ b) (equal : same a b)
    (equal' : same b a) :
    compareRecorded (place ifNameToIndex passed a) (place ifNameToIndex passed b) =
        compareRecorded (place ifNameToIndex passed' a) (place ifNameToIndex passed' b) ∧
      compareRecorded (place ifNameToIndex passed a) (place ifNameToIndex passed b) ≠ .eq := by
  have small (list : List CFDictionary) (length : list.length = passed.length) (c : CFDictionary) (there : c ∈ list) :
      list.idxOf c < 2^31 := (List.idxOf_lt_length_iff.mpr there).trans (length ▸ rearranged.few)
  have perm := rearranged.perm
  rw [place,place,place,place,compareRecorded_bookkept (small _ rfl _ member) (small _ rfl _ member'),
    compareRecorded_bookkept (small _ perm.length_eq.symm _ (perm.mem_iff.mp member))
      (small _ perm.length_eq.symm _ (perm.mem_iff.mp member'))]
  have places : passed.idxOf a ≠ passed.idxOf b := fun equal => apart ((List.idxOf_inj member).mp equal)
  rcases Nat.lt_or_gt_of_ne places with before | after
  · rw [Nat.compare_eq_lt.mpr before,Nat.compare_eq_lt.mpr (rearranged.order a member b member' equal before)]
    exact ⟨rfl,by decide⟩
  · rw [Nat.compare_eq_gt.mpr after,Nat.compare_eq_gt.mpr (rearranged.order b member' a member equal' after)]
    exact ⟨rfl,by decide⟩

end Rearranged

theorem lookup_place (passed : List CFDictionary) {key : Key} (other : key ≠ .order) (other' : key ≠ .ifIndex) :
    (place ifNameToIndex passed a).lookup key = a.lookup key := lookup_bookkept _ other other'

def SingleDefault (resolvers : List CFDictionary) : Prop :=
  resolvers.Pairwise fun a b => ¬ (a.lookup .domainName = none ∧ b.lookup .domainName = none)

theorem SingleDefault.place {resolvers : List CFDictionary} (single : SingleDefault resolvers)
    (passed : List CFDictionary) :
    SingleDefault (resolvers.map (place ifNameToIndex passed)) := by
  refine List.pairwise_map.mpr (single.imp fun {a b} apart => ?_)
  rwa [lookup_place passed (by decide) (by decide),lookup_place passed (by decide) (by decide)]

theorem SingleDefault.apart {resolvers : List CFDictionary} (single : SingleDefault resolvers) (member : a ∈ resolvers)
    (member' : b ∈ resolvers) (other : a ≠ b) : ¬ (a.lookup .domainName = none ∧ b.lookup .domainName = none) := by
  have symm : Std.Symm fun a b : CFDictionary => ¬ (a.lookup .domainName = none ∧ b.lookup .domainName = none) :=
    ⟨fun _ _ apart both => apart both.symm⟩
  exact List.Pairwise.forall single member member' other

theorem sortedResolvers_eq (sort : ArraySort CFDictionary) (resolvers : List CFDictionary) :
    sortedResolvers sort collate resolvers = sort.sortValues (compareDomain collate) resolvers := by
  unfold sortedResolvers
  split
  · rfl
  · rename_i short
    exact (sort.short _ short).symm

/-- A second criterion counts only where the first finds no difference. -/
theorem then_alike {first second second' : Ordering} (tie : first = .eq → second = second' ∧ second ≠ .eq) :
    first.then second = first.then second' ∧ first.then second ≠ .eq := by
  cases first with
  | lt => exact ⟨rfl,nofun⟩
  | gt => exact ⟨rfl,nofun⟩
  | eq => exact tie rfl

private theorem compareDomain_place (passed : List CFDictionary) (named : a.lookup .domainName ≠ none) :
    compareDomain collate (place ifNameToIndex passed a) (place ifNameToIndex passed b) =
      if b.lookup .domainName = none then .gt
      else (criteria collate a b).then (compareRecorded (place ifNameToIndex passed a) (place ifNameToIndex passed b)) := by
  rw [compareDomain,lookup_place passed (by decide) (by decide),lookup_place passed (by decide) (by decide),if_neg named,
    compareNamed_criteria,place,place,criteria_bookkept]

/-- The lists that are made of both enumerations are sorted in one order. -/
theorem Rearranged.sortedResolvers [Std.TransCmp collate] {passed passed' : List CFDictionary}
    (rearranged : Rearranged (fun a b => criteria collate a b = .eq) passed passed') (single : SingleDefault passed)
    (sort : ArraySort CFDictionary) (ifNameToIndex : CFString → BitVec 32) :
    ∃ order : List CFDictionary, sortedResolvers sort collate (passed.map (place ifNameToIndex passed)) =
        order.map (place ifNameToIndex passed) ∧
      sortedResolvers sort collate (passed'.map (place ifNameToIndex passed')) = order.map (place ifNameToIndex passed') := by
  have single' : SingleDefault passed' :=
    (rearranged.perm.pairwise_iff fun apart both => apart both.symm).mp single
  have named (passed : List CFDictionary) (c : CFDictionary) :
      (place ifNameToIndex passed c).lookup .domainName = c.lookup .domainName :=
    lookup_place passed (by decide) (by decide)
  have consistent : Consistent (compareDomain collate) (passed.map (place ifNameToIndex passed)) :=
    (consistent_iff _).mpr (single.place passed)
  obtain ⟨order,_,first,second⟩ := sort.alike (fun _ => true) rearranged.distinct (.refl _) (rearranged.perm.symm.map _)
    consistent ((consistent_iff _).mpr (single'.place passed'))
    (fun _ _ => rfl)
    (fun a member b member' apart => (compareDomain_opposite_iff _ _).mpr (by
      rw [named,named]
      exact single.apart member member' apart))
    (fun a member b member' _ _ apart => by
      by_cases none_ : a.lookup .domainName = none
      · rw [compareDomain_none ((named _ a).trans none_),compareDomain_none ((named _ a).trans none_)]
        exact ⟨rfl,by decide⟩
      · rw [compareDomain_place passed none_,compareDomain_place passed' none_]
        split
        · exact ⟨rfl,by decide⟩
        · exact then_alike fun result =>
            rearranged.compareRecorded member member' apart result (Std.OrientedCmp.eq_symm result))
  rw [List.filter_true] at first second
  exact ⟨order,by rw [sortedResolvers_eq,first],by rw [sortedResolvers_eq,second]⟩

/-! ## The search list -/

def Searched (resolver : CFDictionary) : Prop := supplementalDomain resolver ≠ none

instance : DecidablePred Searched := fun _ => inferInstanceAs (Decidable (_ ≠ _))

private theorem foldlM_searched (defaultOrder : BitVec 32) (resolvers : List CFDictionary) (list : SearchList) :
    resolvers.foldlM (addSupplementalDomain defaultOrder) list =
      (resolvers.filter (Searched ·)).foldlM (addSupplementalDomain defaultOrder) list := by
  induction resolvers generalizing list with
  | nil => rfl
  | cons resolver resolvers ih =>
    by_cases searched : Searched resolver
    · rw [List.filter_cons_of_pos (by simpa using searched),List.foldlM_cons,List.foldlM_cons]
      exact congrArg _ (funext fun list => ih list)
    · have skipped : addSupplementalDomain defaultOrder list resolver = some list := by
        unfold addSupplementalDomain
        rw [not_not.mp searched]
      rw [List.filter_cons_of_neg (by simpa using searched),List.foldlM_cons,skipped]
      exact ih list

private theorem addSupplementalDomain_place (defaultOrder : BitVec 32) (passed passed' : List CFDictionary)
    (list : SearchList)
    (c : CFDictionary) : addSupplementalDomain defaultOrder list (place ifNameToIndex passed c) =
      addSupplementalDomain defaultOrder list (place ifNameToIndex passed' c) := by
  unfold addSupplementalDomain place
  simp only [supplementalDomain_bookkept,searchOrder_bookkept]

private theorem foldlM_place (defaultOrder : BitVec 32) (passed passed' order : List CFDictionary) (list : SearchList) :
    (order.map (place ifNameToIndex passed)).foldlM (addSupplementalDomain defaultOrder) list =
      (order.map (place ifNameToIndex passed')).foldlM (addSupplementalDomain defaultOrder) list := by
  induction order generalizing list with
  | nil => rfl
  | cons c order ih =>
    rw [List.map_cons,List.map_cons,List.foldlM_cons,List.foldlM_cons,addSupplementalDomain_place _ passed passed']
    exact congrArg _ (funext fun list => ih list)

private theorem extractSearchDomains_sorted (sort : ArraySort CFDictionary) (defaultDomain : CFDictionary)
    (supplemental : List CFDictionary) : extractSearchDomains sort defaultDomain supplemental =
      ((sort.sortValues compareBySearchOrder supplemental).foldlM (addSupplementalDomain (searchOrder defaultDomain))
        ⟨defaultSearchDomains defaultDomain,0⟩).map fun list => (if list.domains = [] then none else some list.domains,
          (defaultDomain.erase .domainName).erase .searchDomains) := by
  have sorted : (if supplemental.length > 1 then sort.sortValues compareBySearchOrder supplemental else supplemental) =
      sort.sortValues compareBySearchOrder supplemental := by
    split
    · rfl
    · rename_i short
      exact (sort.short _ short).symm
  unfold extractSearchDomains
  dsimp only
  rw [sorted]
  cases (sort.sortValues compareBySearchOrder supplemental).foldlM (addSupplementalDomain (searchOrder defaultDomain))
    ⟨defaultSearchDomains defaultDomain,0⟩ <;> rfl

theorem Rearranged.extractSearchDomains {passed passed' : List CFDictionary}
    (rearranged : Rearranged (fun a b => searchOrder a = searchOrder b ∧ Searched a ∧ Searched b) passed passed')
    (sort : ArraySort CFDictionary) (defaultDomain : CFDictionary) (ifNameToIndex : CFString → BitVec 32) :
    extractSearchDomains sort defaultDomain (passed.map (place ifNameToIndex passed)) =
      extractSearchDomains sort defaultDomain (passed'.map (place ifNameToIndex passed')) := by
  have searched (passed : List CFDictionary) (c : CFDictionary) :
      Searched (place ifNameToIndex passed c) ↔ Searched c := by
    unfold Searched place
    rw [supplementalDomain_bookkept]
  obtain ⟨order,_,first,second⟩ := sort.alike (fun c => decide (Searched c)) rearranged.distinct (.refl _)
    (rearranged.perm.symm.map _)
    (compareBySearchOrder_strict.consistent (passed.map (place ifNameToIndex passed)))
    (compareBySearchOrder_strict.consistent (passed'.map (place ifNameToIndex passed')))
    (fun a _ => by simp only [searched])
    (fun a _ b _ _ => compareBySearchOrder_strict.swap _ _)
    (fun a member b member' kept kept' apart => by
      rw [decide_eq_true_eq,searched] at kept kept'
      rw [compareBySearchOrder_eq,compareBySearchOrder_eq]
      simp only [compareOn,place,searchOrder_bookkept]
      refine then_alike fun result => ?_
      have equal : searchOrder a = searchOrder b := BitVec.eq_of_toNat_eq (Nat.compare_eq_eq.mp result)
      exact rearranged.compareRecorded member member' apart ⟨equal,kept,kept'⟩ ⟨equal.symm,kept',kept⟩)
  rw [extractSearchDomains_sorted,extractSearchDomains_sorted,foldlM_searched,first,foldlM_searched _ (sort.sortValues _ _),
    second,foldlM_place _ passed passed']

end FreebsdLaunchd.DnsConfiguration
