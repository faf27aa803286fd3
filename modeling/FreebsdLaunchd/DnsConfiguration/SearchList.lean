import FreebsdLaunchd.DnsConfiguration.Dictionaries
import FreebsdLaunchd.Library.ArraySort

/-! The search list of a resolver: its own domains, in front of them those of
supplemental resolvers with a lower search order, behind them the others. An index
moves along with the domains that have been put in front. -/
namespace FreebsdLaunchd.DnsConfiguration
open ArraySorting

structure SearchList where
  domains : List CFString
  index : Nat

/-- `CFArrayInsertValueAtIndex`, which has no result behind the end of the array. -/
def insertValueAtIndex (list : List CFString) (index : Nat) (value : CFString) : Option (List CFString) :=
  if index ≤ list.length then some (list.take index ++ value :: list.drop index) else none

def defaultSearchDomains (defaultDomain : CFDictionary) : List CFString :=
  match defaultDomain.lookup .searchDomains with
  | some (.array elements) => elements.filterMap fun search => scTrimDomain (some (.atom search))
  | _ => (scTrimDomain (defaultDomain.lookup .domainName)).toList

/-- The domains of private resolvers are not added to the search list, nor those of
resolvers scoped by an option. -/
def privateOrScoped : Option Value → Bool
  | some (.string options) => options = "pdns".toList ∨ "interface=".toList <:+: options
  | _ => false

def supplementalDomain (dns : CFDictionary) : Option CFString :=
  if privateOrScoped (dns.lookup .options) then none
  else
    match scTrimDomain (dns.lookup .domainName) with
    | none => none
    | some domain =>
      if (sint32 (dns.lookup .supplementalMatchDomainsNoSearch)).any (· ≠ 0) then none
      else if ".in-addr.arpa".toList <:+ domain ∨ ".ip6.arpa".toList <:+ domain then none
      else some domain

/-- One round of the loop; there is no result where the index is outside the array. -/
def addSupplementalDomain (defaultOrder : BitVec 32) (list : SearchList) (dns : CFDictionary) : Option SearchList :=
  match supplementalDomain dns with
  | none => some list
  | some domain =>
    let domainIndex := list.domains.idxOf? domain
    if searchOrder dns < defaultOrder then
      let list : SearchList := match domainIndex with
        -- if supplemental domain is already in the search list
        | some domainIndex =>
          ⟨list.domains.eraseIdx domainIndex,if domainIndex < list.index then list.index - 1 else list.index⟩
        | none => list
      (insertValueAtIndex list.domains list.index domain).map fun domains => ⟨domains,list.index+1⟩
    else
      match domainIndex with
      | none => some {list with domains := list.domains ++ [domain]}
      | some _ => some list

/-- The list, NULL if it is empty, and the resolver without its "domain" name and
"search" list. -/
def extractSearchDomains (sort : ArraySort CFDictionary) (defaultDomain : CFDictionary)
    (supplemental : List CFDictionary) :
    Option (Option (List CFString) × CFDictionary) := do
  let supplemental :=
    if supplemental.length > 1 then sort.sortValues compareBySearchOrder supplemental else supplemental
  let list ← supplemental.foldlM (addSupplementalDomain (searchOrder defaultDomain))
    ⟨defaultSearchDomains defaultDomain,0⟩
  return (if list.domains = [] then none else some list.domains,
    (defaultDomain.erase .domainName).erase .searchDomains)

variable {defaults front back : List CFString} {done : List CFDictionary} {dns : CFDictionary}
  {defaultOrder : BitVec 32} {list : SearchList} {domain : CFString}

/-! ## The index -/

private theorem insertValueAtIndex_length {domains domains' : List CFString} {index : Nat}
    (inserted : insertValueAtIndex domains index domain = some domains') : domains'.length = domains.length + 1 := by
  unfold insertValueAtIndex at inserted
  split at inserted
  · cases inserted
    simp only [List.length_append,List.length_take,List.length_cons,List.length_drop]
    omega
  · cases inserted

/-- An index inside the array stays inside, whichever domain is taken out. -/
theorem addSupplementalDomain_inside (defaultOrder : BitVec 32) (dns : CFDictionary)
    (inside : list.index ≤ list.domains.length) :
    ∃ list', addSupplementalDomain defaultOrder list dns = some list' ∧ list'.index ≤ list'.domains.length := by
  unfold addSupplementalDomain
  cases supplementalDomain dns with
  | none => exact ⟨list,rfl,inside⟩
  | some domain =>
    dsimp only
    split_ifs with order
    · have room (removed : SearchList) (inside : removed.index ≤ removed.domains.length) :
          ∃ list', (insertValueAtIndex removed.domains removed.index domain).map
            (fun domains => (⟨domains,removed.index+1⟩ : SearchList)) = some list' ∧
              list'.index ≤ list'.domains.length := by
        have inserted : insertValueAtIndex removed.domains removed.index domain = some _ := if_pos inside
        refine ⟨_,by rw [inserted]; rfl,?_⟩
        rw [insertValueAtIndex_length inserted]
        exact Nat.succ_le_succ inside
      cases found : list.domains.idxOf? domain with
      | none => exact room list inside
      | some i =>
        refine room ⟨list.domains.eraseIdx i,_⟩ ?_
        have bound : i < list.domains.length := (List.idxOf?_eq_some_iff.mp found).choose
        rw [List.length_eraseIdx_of_lt bound]
        dsimp only
        split <;> omega
    · cases list.domains.idxOf? domain with
      | none =>
        refine ⟨_,rfl,?_⟩
        rw [List.length_append]
        exact Nat.le_add_right_of_le inside
      | some i => exact ⟨list,rfl,inside⟩

private theorem foldlM_inside (defaultOrder : BitVec 32) (resolvers : List CFDictionary)
    (inside : list.index ≤ list.domains.length) :
    ∃ list', resolvers.foldlM (addSupplementalDomain defaultOrder) list = some list' := by
  induction resolvers generalizing list with
  | nil => exact ⟨list,rfl⟩
  | cons dns rest ih =>
    obtain ⟨list',made,inside'⟩ := addSupplementalDomain_inside defaultOrder dns inside
    obtain ⟨list'',made'⟩ := ih inside'
    refine ⟨list'',?_⟩
    rw [List.foldlM_cons,made]
    exact made'

theorem extractSearchDomains_isSome (sort : ArraySort CFDictionary) (defaultDomain : CFDictionary)
    (supplemental : List CFDictionary) : (extractSearchDomains sort defaultDomain supplemental).isSome := by
  have inside : 0 ≤ (defaultSearchDomains defaultDomain).length := Nat.zero_le _
  obtain ⟨list,made⟩ := @foldlM_inside ⟨defaultSearchDomains defaultDomain,0⟩ (searchOrder defaultDomain)
    (if supplemental.length > 1 then sort.sortValues compareBySearchOrder supplemental else supplemental) inside
  rw [extractSearchDomains,made]
  rfl

/-- The "domain" name and the "search" list are removed in any case. -/
theorem extractSearchDomains_snd {sort : ArraySort CFDictionary} {defaultDomain : CFDictionary}
    {supplemental : List CFDictionary} {extracted : Option (List CFString) × CFDictionary}
    (result : extractSearchDomains sort defaultDomain supplemental = some extracted) :
    extracted.2 = (defaultDomain.erase .domainName).erase .searchDomains := by
  obtain ⟨list,_,made⟩ := Option.bind_eq_some_iff.mp result
  cases made
  rfl

/-! ## The parts of the list -/

/-- After the resolvers in `done` the list has three parts: the domains with a low
order up to the index, the remaining default domains, and the other new ones. -/
structure Assembled (defaultOrder : BitVec 32) (defaults : List CFString) (done : List CFDictionary) (list : SearchList)
    (front back : List CFString) : Prop where
  parts : list.domains = front ++ defaults.filter (· ∉ front) ++ back
  index : list.index = front.length
  distinct : list.domains.Nodup
  low : ∀ domain, domain ∈ front ↔
    ∃ dns ∈ done, supplementalDomain dns = some domain ∧ searchOrder dns < defaultOrder
  rest : ∀ domain, domain ∈ back ↔
    domain ∉ front ∧ domain ∉ defaults ∧ ∃ dns ∈ done, supplementalDomain dns = some domain

theorem Assembled.start (defaultOrder : BitVec 32) (distinct : defaults.Nodup) :
    Assembled defaultOrder defaults [] ⟨defaults,0⟩ [] [] := by
  refine ⟨?_,rfl,distinct,fun domain => ?_,fun domain => ?_⟩
  · simp
  · simp
  · simp

/-- What the round has to look for: a domain of the list, or one that is new. -/
theorem Assembled.mem (assembled : Assembled defaultOrder defaults done list front back) (domain : CFString) :
    domain ∈ list.domains ↔ domain ∈ defaults ∨ ∃ dns ∈ done, supplementalDomain dns = some domain := by
  rw [assembled.parts,List.mem_append,List.mem_append,List.mem_filter,assembled.rest,decide_eq_true_eq]
  by_cases here : domain ∈ front
  · obtain ⟨dns,member,named,_⟩ := (assembled.low domain).mp here
    simp only [here,true_or,true_iff]
    exact .inr ⟨dns,member,named⟩
  · by_cases known : domain ∈ defaults <;> simp [here,known]

theorem Assembled.skip (assembled : Assembled defaultOrder defaults done list front back)
    (none_ : supplementalDomain dns = none) : Assembled defaultOrder defaults (done ++ [dns]) list front back := by
  refine ⟨assembled.parts,assembled.index,assembled.distinct,fun domain => ?_,fun domain => ?_⟩
  · rw [assembled.low]
    simp [none_]
  · rw [assembled.rest]
    simp [none_]

/-- One more resolver, in what is said of those that are done. -/
theorem exists_concat (named : supplementalDomain dns = some domain) (domain' : CFString) :
    (∃ dns' ∈ done ++ [dns], supplementalDomain dns' = some domain') ↔
      (∃ dns' ∈ done, supplementalDomain dns' = some domain') ∨ domain = domain' := by
  simp only [List.mem_append,List.mem_singleton,or_and_right,exists_or,exists_eq_left,named,Option.some.injEq]

private theorem exists_low_concat (named : supplementalDomain dns = some domain) (domain' : CFString) :
    (∃ dns' ∈ done ++ [dns], supplementalDomain dns' = some domain' ∧ searchOrder dns' < defaultOrder) ↔
      (∃ dns' ∈ done, supplementalDomain dns' = some domain' ∧ searchOrder dns' < defaultOrder) ∨
        domain = domain' ∧ searchOrder dns < defaultOrder := by
  simp only [List.mem_append,List.mem_singleton,or_and_right,exists_or,exists_eq_left,named,Option.some.injEq]

/-- A domain with a high order is new, or stays where it is. -/
theorem Assembled.high (assembled : Assembled defaultOrder defaults done list front back)
    (named : supplementalDomain dns = some domain) (order : ¬ searchOrder dns < defaultOrder) :
    ∃ list' back', addSupplementalDomain defaultOrder list dns = some list' ∧
      Assembled defaultOrder defaults (done ++ [dns]) list' front back' := by
  have low (domain' : CFString) : domain' ∈ front ↔
      ∃ dns' ∈ done ++ [dns], supplementalDomain dns' = some domain' ∧ searchOrder dns' < defaultOrder := by
    rw [assembled.low,exists_low_concat named]
    simp [order]
  have known := assembled.mem domain
  unfold addSupplementalDomain
  simp only [named,if_neg order]
  by_cases there : domain ∈ list.domains
  · obtain ⟨i,found⟩ := Option.ne_none_iff_exists'.mp (mt List.idxOf?_eq_none_iff.mp (not_not.mpr there))
    rw [found]
    refine ⟨list,back,rfl,assembled.parts,assembled.index,assembled.distinct,low,fun domain' => ?_⟩
    rw [assembled.rest,exists_concat named]
    refine and_congr_right fun _ => and_congr_right fun other => ⟨.inl,fun either => either.elim id ?_⟩
    rintro rfl
    exact (known.mp there).resolve_left other
  · rw [List.idxOf?_eq_none_iff.mpr there]
    have new := mt known.mpr there
    have outside : domain ∉ front := fun member => there (by rw [assembled.parts]; simp [member])
    refine ⟨_,back ++ [domain],rfl,?_,assembled.index,?_,low,fun domain' => ?_⟩
    · simp only [assembled.parts,List.append_assoc]
    · exact List.concat_eq_append ▸ List.Nodup.concat there assembled.distinct
    · rw [List.mem_append,assembled.rest,List.mem_singleton,exists_concat named]
      by_cases same : domain = domain'
      · subst same
        simp only [or_true,true_iff]
        exact ⟨outside,fun member => new (.inl member),trivial⟩
      · simp [same,Ne.symm same]

private theorem erase_filter {domains : List CFString} (distinct : domains.Nodup) (domain : CFString) :
    domains.erase domain = domains.filter (· ≠ domain) := by
  rw [distinct.erase_eq_filter]
  apply List.filter_congr
  intro other _
  rw [bne,decide_not,beq_eq_decide]

/-- The index tells whether a domain that was found is in the first part. -/
theorem found_front {rest : List CFString} {i : Nat} (found : (front ++ rest).idxOf? domain = some i) :
    i < front.length ↔ domain ∈ front := by
  obtain ⟨_,here,before⟩ := List.idxOf?_eq_some_iff.mp found
  constructor
  · intro inside
    rw [List.getElem_append_left inside] at here
    exact here ▸ List.getElem_mem inside
  · intro member
    by_contra outside
    obtain ⟨j,inside,there⟩ := List.mem_iff_getElem.mp member
    refine before j (by omega) ?_
    rw [List.getElem_append_left inside,there]

/-- A round with a low order takes the domain out, and puts it at the end of the first part. -/
theorem Assembled.removed (assembled : Assembled defaultOrder defaults done list front back)
    (named : supplementalDomain dns = some domain) (order : searchOrder dns < defaultOrder) :
    addSupplementalDomain defaultOrder list dns =
      (insertValueAtIndex (list.domains.filter (· ≠ domain)) (front.filter (· ≠ domain)).length domain).map
        fun domains => ⟨domains,(front.filter (· ≠ domain)).length + 1⟩ := by
  have first : front <+: list.domains := ⟨_,by rw [assembled.parts,List.append_assoc]⟩
  have distinct : front.Nodup := first.sublist.nodup assembled.distinct
  have erased := List.erase_eq_eraseIdx list.domains domain
  unfold addSupplementalDomain
  simp only [named,if_pos order,← erase_filter assembled.distinct,← erase_filter distinct]
  cases found : list.domains.idxOf? domain with
  | none =>
    have outside : domain ∉ front := fun member => List.idxOf?_eq_none_iff.mp found (first.subset member)
    rw [found] at erased
    simp only [erased,List.erase_of_not_mem outside,assembled.index]
  | some i =>
    rw [found] at erased
    have place : i < front.length ↔ domain ∈ front := by
      obtain ⟨rest,whole⟩ := first
      exact found_front (whole ▸ found)
    simp only [erased,assembled.index]
    by_cases inside : domain ∈ front
    · rw [if_pos (place.mpr inside),List.length_erase_of_mem inside]
    · rw [if_neg (mt place.mp inside),List.erase_of_not_mem inside]

/-- A domain with a low order goes to the end of the first part, wherever it was. -/
theorem Assembled.lowered (assembled : Assembled defaultOrder defaults done list front back)
    (named : supplementalDomain dns = some domain) (order : searchOrder dns < defaultOrder) :
    ∃ list' front' back', addSupplementalDomain defaultOrder list dns = some list' ∧
      Assembled defaultOrder defaults (done ++ [dns]) list' front' back' := by
  have rest : (defaults.filter (· ∉ front)).filter (· ≠ domain) =
      defaults.filter (· ∉ front.filter (· ≠ domain) ++ [domain]) := by
    rw [List.filter_filter]
    apply List.filter_congr
    intro other _
    by_cases same : other = domain <;> simp [same]
  have whole : list.domains.filter (· ≠ domain) = front.filter (· ≠ domain) ++
      (defaults.filter (· ∉ front.filter (· ≠ domain) ++ [domain]) ++ back.filter (· ≠ domain)) := by
    rw [assembled.parts,List.filter_append,List.filter_append,rest,List.append_assoc]
  have low (domain' : CFString) : domain' ∈ front.filter (· ≠ domain) ++ [domain] ↔
      domain' ∈ front ∨ domain = domain' := by
    by_cases same : domain = domain'
    · simp [same]
    · simp [same,Ne.symm same]
  have inserted : insertValueAtIndex (list.domains.filter (· ≠ domain)) (front.filter (· ≠ domain)).length domain =
      some (front.filter (· ≠ domain) ++ [domain] ++
        defaults.filter (· ∉ front.filter (· ≠ domain) ++ [domain]) ++ back.filter (· ≠ domain)) := by
    rw [whole,insertValueAtIndex,if_pos (by rw [List.length_append]; omega),List.take_left,List.drop_left]
    simp only [List.append_assoc,List.cons_append,List.nil_append]
  rw [assembled.removed named order,inserted]
  refine ⟨_,front.filter (· ≠ domain) ++ [domain],back.filter (· ≠ domain),rfl,rfl,?_,?_,fun domain' => ?_,
    fun domain' => ?_⟩
  · simp
  · have others : (list.domains.filter (· ≠ domain)).Nodup := assembled.distinct.filter _
    have outside : domain ∉ list.domains.filter (· ≠ domain) := by simp
    have perm : (front.filter (· ≠ domain) ++ [domain] ++ defaults.filter (· ∉ front.filter (· ≠ domain) ++ [domain]) ++
        back.filter (· ≠ domain)).Perm (domain :: list.domains.filter (· ≠ domain)) := by
      rw [whole,List.append_assoc,List.append_assoc,List.singleton_append]
      exact List.perm_middle
    exact perm.nodup_iff.mpr (List.nodup_cons.mpr ⟨outside,others⟩)
  · rw [low,assembled.low,exists_low_concat named]
    simp [order]
  · rw [low,List.mem_filter,assembled.rest,exists_concat named]
    by_cases same : domain = domain'
    · simp [same]
    · simp [same,Ne.symm same]

/-! ## The whole list -/

private theorem foldlM_assembled (resolvers : List CFDictionary) (defaultOrder : BitVec 32) (distinct : defaults.Nodup) :
    ∃ list front back, resolvers.foldlM (addSupplementalDomain defaultOrder) ⟨defaults,0⟩ = some list ∧
      Assembled defaultOrder defaults resolvers list front back := by
  induction resolvers using List.reverseRecOn with
  | nil => exact ⟨_,_,_,rfl,.start defaultOrder distinct⟩
  | append_singleton resolvers dns ih =>
    obtain ⟨list,front,back,made,assembled⟩ := ih
    rw [List.foldlM_append,made,Option.bind_eq_bind,Option.bind_some,List.foldlM_cons]
    cases named : supplementalDomain dns with
    | none =>
      have same : addSupplementalDomain defaultOrder list dns = some list := by
        unfold addSupplementalDomain
        rw [named]
      exact ⟨list,front,back,by rw [same]; rfl,assembled.skip named⟩
    | some domain =>
      by_cases order : searchOrder dns < defaultOrder
      · obtain ⟨list',front',back',made',assembled'⟩ := assembled.lowered named order
        exact ⟨list',front',back',by rw [made']; rfl,assembled'⟩
      · obtain ⟨list',back',made',assembled'⟩ := assembled.high named order
        exact ⟨list',front,back',by rw [made']; rfl,assembled'⟩

/-- The search list has the default domains and those of eligible supplemental
resolvers, each once: in front the ones with a lower order than the default, then
the remaining default domains as they were, then the others. The insertion index is
inside the list in every round. -/
theorem search_list (sort : ArraySort CFDictionary) (defaultDomain : CFDictionary) (supplemental : List CFDictionary)
    (distinct : (defaultSearchDomains defaultDomain).Nodup) :
    ∃ result, extractSearchDomains sort defaultDomain supplemental =
        some (result,(defaultDomain.erase .domainName).erase .searchDomains) ∧
      (result.getD []).Nodup ∧
      (∀ domain, domain ∈ result.getD [] ↔ domain ∈ defaultSearchDomains defaultDomain ∨
        ∃ dns ∈ supplemental, supplementalDomain dns = some domain) ∧
      ∃ front back, result.getD [] = front ++ (defaultSearchDomains defaultDomain).filter (· ∉ front) ++ back ∧
        (∀ domain, domain ∈ front ↔ ∃ dns ∈ supplemental, supplementalDomain dns = some domain ∧
          searchOrder dns < searchOrder defaultDomain) ∧
        ∀ domain, domain ∈ back ↔ domain ∉ front ∧ domain ∉ defaultSearchDomains defaultDomain ∧
          ∃ dns ∈ supplemental, supplementalDomain dns = some domain := by
  let sorted := if supplemental.length > 1 then sort.sortValues compareBySearchOrder supplemental else supplemental
  have same (dns : CFDictionary) : dns ∈ sorted ↔ dns ∈ supplemental := by
    show dns ∈ (if _ then _ else _) ↔ _
    split
    · exact (sort.perm _ _).mem_iff
    · exact .rfl
  obtain ⟨list,front,back,made,assembled⟩ := foldlM_assembled sorted (searchOrder defaultDomain) distinct
  have whole : (if list.domains = [] then none else some list.domains).getD [] = list.domains := by
    split
    · rename_i empty
      exact empty.symm
    · rfl
  have low := assembled.low
  have rest := assembled.rest
  have members := assembled.mem
  simp only [same] at low rest members
  refine ⟨if list.domains = [] then none else some list.domains,?_,?_,?_,front,back,?_,low,rest⟩
  · rw [extractSearchDomains,made]
    rfl
  · rw [whole]
    exact assembled.distinct
  · rw [whole]
    exact members
  · rw [whole]
    exact assembled.parts

def twoSearched : CFDictionary :=
  (∅ : CFDictionary).insert .searchDomains (.array [.string ['a'],.string ['b']])

def lowSupplemental : CFDictionary :=
  ((∅ : CFDictionary).insert .domainName (.string ['b'])).insert .searchOrder (.number 1)

theorem lowSupplemental_searched :
    (defaultSearchDomains twoSearched).Nodup ∧
      ∃ result, extractSearchDomains linearized twoSearched [lowSupplemental] =
          some (result,(twoSearched.erase .domainName).erase .searchDomains) ∧
        ∃ front back, result.getD [] = front ++ (defaultSearchDomains twoSearched).filter (· ∉ front) ++ back ∧
          ['b'] ∈ front := by
  have distinct : (defaultSearchDomains twoSearched).Nodup := by decide
  obtain ⟨result,made,_,_,front,back,parts,low,_⟩ :=
    search_list linearized twoSearched [lowSupplemental] distinct
  have first : ['b'] ∈ front := (low ['b']).mpr ⟨_,List.mem_singleton_self _,by decide,by decide⟩
  exact ⟨distinct,result,made,front,back,parts,first⟩

end FreebsdLaunchd.DnsConfiguration
