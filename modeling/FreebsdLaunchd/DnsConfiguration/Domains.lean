import FreebsdLaunchd.DnsConfiguration.Resolvers
import FreebsdLaunchd.Library.ArraySort

/-! The order of the resolvers by their domains. -/
namespace FreebsdLaunchd.DnsConfiguration
open ArraySorting

/-- Labels are compared by `CFStringCompare`, without their case. -/
abbrev Collation := CFString → CFString → Ordering

def isScopedConfiguration (dns : CFDictionary) : Bool :=
  (sint32 (dns.lookup .flags)).any fun flags => flags &&& DNS_RESOLVER_FLAGS_SCOPED ≠ 0

def domainText (dns : CFDictionary) : CFString :=
  match dns.lookup .domainName with
  | some (.string domain) => domain
  | _ => []

def isReverse (dns : CFDictionary) : Bool := ".arpa".toList <:+ domainText dns

/-- The labels, from the last one on; longer names come before shorter ones. -/
def compareLabels (collate : Collation) : List CFString → List CFString → Ordering
  | label1::labels1, label2::labels2 => (collate label1 label2).then (compareLabels collate labels1 labels2)
  | [], [] => .eq
  | _::_, [] => .lt
  | [], _::_ => .gt

def reversedLabels (dns : CFDictionary) : List CFString := ((domainText dns).splitOn '.').reverse

def compareNamed (collate : Collation) (dns1 dns2 : CFDictionary) : Ordering :=
  -- sort non-scoped before scoped
  if isScopedConfiguration dns1 ≠ isScopedConfiguration dns2 then
    if !isScopedConfiguration dns1 then .lt else .gt
  -- forward (A, AAAA) domains sort before reverse (PTR) domains
  else if isReverse dns1 ≠ isReverse dns2 then
    if isReverse dns1 then .gt else .lt
  else (compareLabels collate (reversedLabels dns1) (reversedLabels dns2)).then (compareBySearchOrder dns1 dns2)

def compareDomain (collate : Collation) (dns1 dns2 : CFDictionary) : Ordering :=
  -- "default" domains sort before "supplemental" domains
  if dns1.lookup .domainName = none then .lt
  else if dns2.lookup .domainName = none then .gt
  else compareNamed collate dns1 dns2

/-! ## The criteria -/

variable {collate : Collation}

instance [Std.TransCmp collate] : Std.TransCmp (compareLabels collate) where
  eq_swap {a b} := by
    induction a generalizing b with
    | nil => cases b <;> rfl
    | cons label labels ih =>
      cases b with
      | nil => rfl
      | cons label' labels' => rw [compareLabels,compareLabels,Ordering.swap_then,← ih,← Std.OrientedCmp.eq_swap]
  isLE_trans {a b c} before after := by
    induction c generalizing a b with
    | nil => cases a <;> rfl
    | cons label'' labels'' ih =>
      cases b with
      | nil => simp [compareLabels] at after
      | cons label' labels' =>
        cases a with
        | nil => simp [compareLabels] at before
        | cons label labels =>
          simp only [compareLabels,Ordering.isLE_then_iff_and] at before after ⊢
          refine ⟨Std.TransCmp.isLE_trans before.1 after.1,?_⟩
          rcases before.2 with less | rest
          · exact .inl (Std.TransCmp.lt_of_lt_of_isLE less after.1)
          · rcases after.2 with less | rest'
            · exact .inl (Std.TransCmp.lt_of_isLE_of_lt before.1 less)
            · exact .inr (ih rest rest')

theorem numbers_compare (x y : BitVec 32) :
    (if x = y then Ordering.eq else if x < y then .lt else .gt) = compare x.toNat y.toNat := by
  rw [Nat.compare_eq_ite_lt]
  by_cases same : x = y
  · rw [if_pos same,same,if_neg (Nat.lt_irrefl _),if_neg (Nat.lt_irrefl _)]
  · have apart : x.toNat ≠ y.toNat := mt BitVec.toNat_inj.mp same
    rw [if_neg same]
    simp only [BitVec.lt_def]
    split_ifs <;> first | rfl | omega

/-- The recorded order tells apart only resolvers that both have one. -/
def compareRecorded (dns1 dns2 : CFDictionary) : Ordering :=
  match sint32 (dns1.lookup .order),sint32 (dns2.lookup .order) with
  | some order1, some order2 => compare order1.toNat order2.toNat
  | _, _ => .eq

theorem compareOn_strict {α : Type} (f : α → Nat) : Strict (compareOn f) where
  swap _ _ := Std.OrientedCmp.eq_swap
  transitive _ _ _ before after := Std.TransCmp.lt_trans before after

private theorem compareRecorded_strict : Strict compareRecorded := by
  have strict := (compareOn_strict fun dns : CFDictionary => ((sint32 (dns.lookup .order)).getD 0).toNat).among
    fun dns => (sint32 (dns.lookup .order)).isSome
  convert strict using 3 with dns1 dns2
  unfold compareRecorded compareOn
  dsimp only
  cases sint32 (dns1.lookup .order) with
  | none => rfl
  | some order1 => cases sint32 (dns2.lookup .order) <;> rfl

theorem compareBySearchOrder_eq (dns1 dns2 : CFDictionary) :
    compareBySearchOrder dns1 dns2 =
      (compareOn (fun dns => (searchOrder dns).toNat) dns1 dns2).then (compareRecorded dns1 dns2) := by
  rw [compareOn,← numbers_compare,compareBySearchOrder,compareRecorded]
  by_cases same : searchOrder dns1 = searchOrder dns2
  · rw [if_pos same,if_pos same]
    simp only [numbers_compare]
    rfl
  · rw [if_neg same,if_neg same]
    split <;> rfl

theorem compareBySearchOrder_strict : Strict compareBySearchOrder := by
  have strict := compareRecorded_strict.behind (compareOn fun dns => (searchOrder dns).toNat)
  have same : compareBySearchOrder = fun a b =>
      (compareOn (fun dns => (searchOrder dns).toNat) a b).then (compareRecorded a b) := by
    funext dns1 dns2
    exact compareBySearchOrder_eq dns1 dns2
  rwa [same]

private theorem flag_compare (x y : Bool) (rest : Ordering) :
    (if x ≠ y then (if !x then Ordering.lt else .gt) else rest) = (compare x y).then rest := by
  cases x <;> cases y <;> rfl

theorem flag_compare' (x y : Bool) (rest : Ordering) :
    (if x ≠ y then (if x then Ordering.gt else .lt) else rest) = (compare x y).then rest := by
  cases x <;> cases y <;> rfl

theorem compareNamed_eq (collate : Collation) (dns1 dns2 : CFDictionary) :
    compareNamed collate dns1 dns2 = (compareOn isScopedConfiguration dns1 dns2).then ((compareOn isReverse dns1 dns2).then
      ((compareLabels collate (reversedLabels dns1) (reversedLabels dns2)).then (compareBySearchOrder dns1 dns2))) := by
  rw [compareNamed,flag_compare,flag_compare']
  rfl

theorem compareLabels_transCmp [Std.TransCmp collate] :
    Std.TransCmp fun dns1 dns2 => compareLabels collate (reversedLabels dns1) (reversedLabels dns2) := by
  have labels : Std.TransCmp (compareLabels collate) := inferInstance
  exact {eq_swap := labels.eq_swap,isLE_trans := labels.isLE_trans}

private theorem compareNamed_strict [Std.TransCmp collate] : Strict (compareNamed collate) := by
  have labels : Std.TransCmp fun dns1 dns2 => compareLabels collate (reversedLabels dns1) (reversedLabels dns2) :=
    compareLabels_transCmp
  have strict := ((compareBySearchOrder_strict.behind fun dns1 dns2 =>
    compareLabels collate (reversedLabels dns1) (reversedLabels dns2)).behind
      (compareOn isReverse)).behind (compareOn isScopedConfiguration)
  have same : compareNamed collate = fun dns1 dns2 => _ := funext fun _ => funext (compareNamed_eq collate _)
  rwa [same]

/-! ## Resolvers without a domain -/

/-- A resolver with no domain comes before all others, which includes its equals. -/
theorem compareDomain_none {dns1 : CFDictionary} (default : dns1.lookup .domainName = none) (dns2 : CFDictionary) :
    compareDomain collate dns1 dns2 = .lt := if_pos default

/-- The comparison is transitive with any number of such resolvers. -/
theorem compareDomain_transitive [Std.TransCmp collate] (a b c : CFDictionary)
    (before : compareDomain collate a b = .lt) (after : compareDomain collate b c = .lt) :
    compareDomain collate a c = .lt := by
  by_cases first : a.lookup .domainName = none
  · exact compareDomain_none first c
  · have middle : b.lookup .domainName ≠ none := by
      intro none_
      simp [compareDomain,first,none_] at before
    have last : c.lookup .domainName ≠ none := by
      intro none_
      simp [compareDomain,middle,none_] at after
    rw [compareDomain,if_neg first,if_neg middle] at before
    rw [compareDomain,if_neg middle,if_neg last] at after
    rw [compareDomain,if_neg first,if_neg last]
    exact compareNamed_strict.transitive a b c before after

/-- Two resolvers are in opposite orders unless both have no domain. -/
theorem compareDomain_opposite_iff [Std.TransCmp collate] (a b : CFDictionary) :
    compareDomain collate a b = (compareDomain collate b a).swap ↔
      ¬ (a.lookup .domainName = none ∧ b.lookup .domainName = none) := by
  by_cases first : a.lookup .domainName = none
  · rw [compareDomain_none first]
    by_cases second : b.lookup .domainName = none
    · rw [compareDomain_none second]
      simp [first,second]
    · rw [compareDomain,if_neg second,if_pos first]
      simp [second]
  · by_cases second : b.lookup .domainName = none
    · rw [compareDomain_none second,compareDomain,if_neg first,if_pos second]
      simp [first]
    · rw [compareDomain,if_neg first,if_neg second,compareDomain,if_neg second,if_neg first]
      simp only [first,second,and_self,not_false_iff,iff_true]
      exact compareNamed_strict.swap a b

/-- The comparison is consistent exactly if no two resolvers have no domain. -/
theorem consistent_iff [Std.TransCmp collate] (resolvers : List CFDictionary) :
    Consistent (compareDomain collate) resolvers ↔
      resolvers.Pairwise fun a b => ¬ (a.lookup .domainName = none ∧ b.lookup .domainName = none) := by
  constructor
  · intro consistent
    exact consistent.opposite.imp fun opposite => (compareDomain_opposite_iff _ _).mp opposite
  · intro single
    refine ⟨single.imp fun apart => (compareDomain_opposite_iff _ _).mpr apart,?_⟩
    exact fun a _ b _ c _ before after => compareDomain_transitive a b c before after

end FreebsdLaunchd.DnsConfiguration
