import FreebsdLaunchd.DnsConfiguration.Resolvers
import FreebsdLaunchd.Library.Runs

/-! Duplicates among the resolvers that are passed in. The list holds dictionaries
with keys of its own, so that the resolver each of them was made of is followed
along the calls. -/
namespace FreebsdLaunchd.DnsConfiguration
open Runs

structure Entry where
  origin : CFDictionary
  stored : CFDictionary

def scanEntries (resolver : CFDictionary) : List Entry → Option (List Entry)
  | [] => none
  | entry::rest =>
    if resolver = entry.stored then some (entry::rest)
    else if sameButOrder resolver entry.stored then
      if orderVal resolver < orderVal entry.stored then some (⟨resolver,resolver⟩::rest) else some (entry::rest)
    else (scanEntries resolver rest).map (entry :: ·)

structure Collected where
  passed : List CFDictionary := []
  entries : List Entry := []

def collect (ifNameToIndex : CFString → BitVec 32) (c : Collected) (resolver : CFDictionary) : Collected where
  passed := c.passed ++ [resolver]
  entries := (scanEntries resolver c.entries).getD
    (c.entries ++ [⟨resolver,bookkept ifNameToIndex c.entries.length resolver⟩])

/-- Equal content except for the search order. -/
def Mates (a b : CFDictionary) : Prop := a.erase .searchOrder = b.erase .searchOrder

/-- An entry is a resolver that was passed in, with the keys of the list. -/
structure Entry.Kept (passed : List CFDictionary) (entry : Entry) : Prop where
  passed : entry.origin ∈ passed
  content : ∀ key, key ≠ .order → key ≠ .ifIndex → entry.stored.lookup key = entry.origin.lookup key

/-- Every group of resolvers that differ only in order has exactly one entry, with the
smallest order of the group. -/
structure Eliminated (c : Collected) : Prop where
  kept : ∀ entry ∈ c.entries, entry.Kept c.passed
  distinct : c.entries.Pairwise fun entry entry' => ¬ Mates entry.origin entry'.origin
  smallest : ∀ resolver ∈ c.passed, ∃ entry ∈ c.entries, Mates entry.origin resolver ∧
    orderVal entry.stored ≤ orderVal resolver

/-- A copy of a resolver that was passed in before leaves the list unchanged. -/
def Repeats (ifNameToIndex : CFString → BitVec 32) (c : Collected) (resolver : CFDictionary) : Prop :=
  resolver ∈ c.passed → (collect ifNameToIndex c resolver).entries = c.entries

/-- The comparison first stops at the entry of the resolver's own group, if there is
one; or else at an entry that it leaves alone, while the one of the group has no
greater order. -/
def Recognized (c : Collected) (resolver : CFDictionary) : Prop :=
  match c.entries.find? fun entry => meets resolver entry.stored with
  | none => ∀ entry ∈ c.entries, ¬ Mates entry.origin resolver
  | some found => Mates found.origin resolver ∨ ¬ orderVal resolver < orderVal found.stored ∧
      ∃ entry ∈ c.entries, Mates entry.origin resolver ∧ orderVal entry.stored ≤ orderVal resolver

variable {ifNameToIndex : CFString → BitVec 32} {resolver : CFDictionary} {entries : List Entry} {c : Collected}

/-! ## The list of the code -/

private theorem scanEntries_stored (resolver : CFDictionary) (entries : List Entry) :
    (scanEntries resolver entries).map (List.map Entry.stored) = scanResolvers resolver (entries.map Entry.stored) := by
  induction entries with
  | nil => rfl
  | cons entry rest ih =>
    rw [scanEntries,List.map_cons,scanResolvers,← ih]
    split_ifs <;> cases scanEntries resolver rest <;> rfl

private theorem collect_stored (c : Collected) (resolver : CFDictionary) :
    (collect ifNameToIndex c resolver).entries.map Entry.stored =
      addResolver ifNameToIndex (c.entries.map Entry.stored) resolver := by
  have same := scanEntries_stored resolver c.entries
  simp only [collect,addResolver,← same,List.length_map]
  cases scanEntries resolver c.entries with
  | none => simp
  | some entries => rfl

private theorem run_stored (c : Collected) (calls : List CFDictionary) :
    (run (collect ifNameToIndex) c calls).entries.map Entry.stored =
      calls.foldl (addResolver ifNameToIndex) (c.entries.map Entry.stored) := by
  induction calls generalizing c with
  | nil => rfl
  | cons resolver rest ih =>
    rw [List.foldl_cons,← collect_stored]
    exact ih _

/-! ## One call -/

private theorem scanEntries_none (missed : entries.find? (fun entry => meets resolver entry.stored) = none) :
    scanEntries resolver entries = none := by
  rw [List.find?_eq_none] at missed
  induction entries with
  | nil => rfl
  | cons entry rest ih =>
    obtain ⟨first,others⟩ := List.forall_mem_cons.mp missed
    rw [meets,Bool.or_eq_true,not_or,decide_eq_true_eq] at first
    rw [scanEntries,if_neg first.1,if_neg first.2,ih others]
    rfl

/-- The entry that was found is replaced if its order is greater. -/
theorem scanEntries_found {before after : List Entry} {found : Entry}
    (apart : ∀ entry ∈ before, ¬ meets resolver entry.stored) (met : meets resolver found.stored) :
    scanEntries resolver (before ++ found :: after) =
      if orderVal resolver < orderVal found.stored then some (before ++ ⟨resolver,resolver⟩ :: after)
      else some (before ++ found :: after) := by
  induction before with
  | nil =>
    rw [List.nil_append,scanEntries]
    by_cases same : resolver = found.stored
    · rw [if_pos same,if_neg (by rw [same]; exact BitVec.lt_irrefl _)]
    · rw [meets,Bool.or_eq_true,decide_eq_true_eq] at met
      rw [if_neg same,if_pos (met.resolve_left same)]
      rfl
  | cons entry rest ih =>
    obtain ⟨first,others⟩ := List.forall_mem_cons.mp apart
    rw [meets,Bool.or_eq_true,not_or,decide_eq_true_eq] at first
    rw [List.cons_append,scanEntries,if_neg first.1,if_neg first.2,ih others]
    split_ifs <;> rfl

private theorem collect_missed (missed : c.entries.find? (fun entry => meets resolver entry.stored) = none) :
    collect ifNameToIndex c resolver =
      ⟨c.passed ++ [resolver],c.entries ++ [⟨resolver,bookkept ifNameToIndex c.entries.length resolver⟩]⟩ := by
  rw [collect,scanEntries_none missed]
  rfl

/-- A call that stops at an entry, and what it does with the entry. -/
theorem collect_found (ifNameToIndex : CFString → BitVec 32) {found : Entry}
    (stops : c.entries.find? (fun entry => meets resolver entry.stored) = some found) :
    ∃ before after, c.entries = before ++ found :: after ∧
      (collect ifNameToIndex c resolver).entries =
        if orderVal resolver < orderVal found.stored then before ++ ⟨resolver,resolver⟩ :: after
        else c.entries := by
  obtain ⟨met,before,after,parts,apart⟩ := List.find?_eq_some_iff_append.mp stops
  refine ⟨before,after,parts,?_⟩
  have apart' : ∀ entry ∈ before, ¬ meets resolver entry.stored := by simpa using apart
  simp only [collect,parts,scanEntries_found apart' met]
  split_ifs <;> rfl

theorem Entry.Kept.mono {passed passed' : List CFDictionary} {entry : Entry} (subset : passed ⊆ passed')
    (kept : entry.Kept passed) : entry.Kept passed' := ⟨subset kept.passed,kept.content⟩

theorem Entry.Kept.orderVal_eq {passed : List CFDictionary} {entry : Entry} (kept : entry.Kept passed) :
    orderVal entry.stored = orderVal entry.origin := by
  rw [orderVal,orderVal,kept.content _ (by decide) (by decide)]

/-- Two entries of one group are the same. -/
theorem Eliminated.unique (eliminated : Eliminated c) {entry entry' : Entry} (member : entry ∈ c.entries)
    (member' : entry' ∈ c.entries) (mates : Mates entry.origin entry'.origin) : entry = entry' := by
  by_contra apart
  have symm : Std.Symm fun entry entry' : Entry => ¬ Mates entry.origin entry'.origin :=
    ⟨fun _ _ apart mates => apart mates.symm⟩
  exact eliminated.distinct.forall member member' apart mates

/-- An entry that is found in the own group is the one with the smallest order. -/
theorem Eliminated.replaced_new (eliminated : Eliminated c) {found : Entry} (member : found ∈ c.entries)
    (mates : Mates found.origin resolver) (again : resolver ∈ c.passed) :
    ¬ orderVal resolver < orderVal found.stored := by
  obtain ⟨entry,member',mates',le⟩ := eliminated.smallest resolver again
  obtain rfl := eliminated.unique member' member (mates'.trans mates.symm)
  exact BitVec.not_lt.mpr le

theorem Eliminated.repeats (eliminated : Eliminated c) (recognized : Recognized c resolver) :
    Repeats ifNameToIndex c resolver := by
  intro again
  unfold Recognized at recognized
  cases stops : c.entries.find? fun entry => meets resolver entry.stored with
  | none =>
    simp only [stops] at recognized
    obtain ⟨entry,member,mates,_⟩ := eliminated.smallest resolver again
    exact absurd mates (recognized entry member)
  | some found =>
    simp only [stops] at recognized
    obtain ⟨before,after,parts,result⟩ := collect_found ifNameToIndex stops
    have member : found ∈ c.entries := List.mem_of_find?_eq_some stops
    have left : ¬ orderVal resolver < orderVal found.stored := by
      rcases recognized with mates | ⟨left,_⟩
      · exact eliminated.replaced_new member mates again
      · exact left
    rw [result,if_neg left]

private theorem kept_bookkept (passed : List CFDictionary) (count : Nat) :
    Entry.Kept (passed ++ [resolver]) ⟨resolver,bookkept ifNameToIndex count resolver⟩ where
  passed := List.mem_append_right _ (List.mem_singleton_self _)
  content _ other other' := lookup_bookkept count other other'

/-- The smallest order in a group, where the new resolver has an entry and no entry
has gone without one that is as small. -/
theorem Eliminated.smallest_concat (eliminated : Eliminated c) {entries : List Entry}
    (new : ∃ entry ∈ entries, Mates entry.origin resolver ∧ orderVal entry.stored ≤ orderVal resolver)
    (old : ∀ entry ∈ c.entries, ∃ entry' ∈ entries, Mates entry'.origin entry.origin ∧
      orderVal entry'.stored ≤ orderVal entry.stored) :
    ∀ resolver' ∈ c.passed ++ [resolver], ∃ entry ∈ entries, Mates entry.origin resolver' ∧
      orderVal entry.stored ≤ orderVal resolver' := by
  intro resolver' member
  rcases List.mem_append.mp member with before | now
  · obtain ⟨entry,there,mates,le⟩ := eliminated.smallest resolver' before
    obtain ⟨entry',there',mates',le'⟩ := old entry there
    exact ⟨entry',there',mates'.trans mates,BitVec.le_trans le' le⟩
  · obtain rfl := List.mem_singleton.mp now
    exact new

theorem Eliminated.appended (eliminated : Eliminated c)
    (missed : c.entries.find? (fun entry => meets resolver entry.stored) = none)
    (alone : ∀ entry ∈ c.entries, ¬ Mates entry.origin resolver) : Eliminated (collect ifNameToIndex c resolver) := by
  rw [collect_missed missed]
  refine ⟨?_,?_,eliminated.smallest_concat ?_ ?_⟩
  · intro entry member
    rcases List.mem_append.mp member with old | new
    · exact (eliminated.kept entry old).mono (List.subset_append_left _ _)
    · obtain rfl := List.mem_singleton.mp new
      exact kept_bookkept ..
  · refine List.pairwise_append.mpr ⟨eliminated.distinct,List.pairwise_singleton ..,fun entry member entry' new => ?_⟩
    obtain rfl := List.mem_singleton.mp new
    exact alone entry member
  · refine ⟨_,List.mem_append_right _ (List.mem_singleton_self _),rfl,?_⟩
    rw [(kept_bookkept c.passed c.entries.length).orderVal_eq]
    exact BitVec.le_refl _
  · exact fun entry member => ⟨entry,List.mem_append_left _ member,rfl,BitVec.le_refl _⟩

/-- An entry among others of which none is in its group. -/
theorem Eliminated.others (eliminated : Eliminated c) {before after : List Entry} {found : Entry}
    (parts : c.entries = before ++ found :: after) :
    (∀ entry ∈ before ++ after, ¬ Mates found.origin entry.origin) ∧
      (before ++ after).Pairwise fun entry entry' => ¬ Mates entry.origin entry'.origin := by
  have distinct := eliminated.distinct
  rw [parts,List.pairwise_middle fun apart mates => apart mates.symm] at distinct
  exact List.pairwise_cons.mp distinct

theorem Eliminated.replaced (eliminated : Eliminated c) {before after : List Entry} {found : Entry}
    (parts : c.entries = before ++ found :: after) (mates : Mates found.origin resolver)
    (less : orderVal resolver < orderVal found.stored) :
    Eliminated ⟨c.passed ++ [resolver],before ++ ⟨resolver,resolver⟩ :: after⟩ := by
  obtain ⟨alone,distinct⟩ := eliminated.others parts
  refine ⟨?_,?_,eliminated.smallest_concat ?_ ?_⟩
  · intro entry member
    rcases List.mem_cons.mp (List.perm_middle.mem_iff.mp member) with rfl | old
    · exact ⟨List.mem_append_right _ (List.mem_singleton_self _),fun _ _ _ => rfl⟩
    · have there : entry ∈ c.entries := by
        rw [parts]
        exact List.perm_middle.mem_iff.mpr (List.mem_cons_of_mem _ old)
      exact (eliminated.kept entry there).mono (List.subset_append_left _ _)
  · rw [List.pairwise_middle fun apart mates => apart mates.symm,List.pairwise_cons]
    exact ⟨fun entry member mates' => alone entry member (mates.trans mates'),distinct⟩
  · exact ⟨⟨resolver,resolver⟩,List.perm_middle.mem_iff.mpr List.mem_cons_self,rfl,BitVec.le_refl _⟩
  · intro entry member
    rw [parts] at member
    rcases List.mem_cons.mp (List.perm_middle.mem_iff.mp member) with rfl | old
    · exact ⟨⟨resolver,resolver⟩,List.perm_middle.mem_iff.mpr List.mem_cons_self,mates.symm,BitVec.le_of_lt less⟩
    · exact ⟨entry,List.perm_middle.mem_iff.mpr (List.mem_cons_of_mem _ old),rfl,BitVec.le_refl _⟩

theorem Eliminated.left (eliminated : Eliminated c)
    (held : ∃ entry ∈ c.entries, Mates entry.origin resolver ∧ orderVal entry.stored ≤ orderVal resolver) :
    Eliminated ⟨c.passed ++ [resolver],c.entries⟩ where
  kept entry member := (eliminated.kept entry member).mono (List.subset_append_left _ _)
  distinct := eliminated.distinct
  smallest := eliminated.smallest_concat held fun entry member => ⟨entry,member,rfl,BitVec.le_refl _⟩

theorem Eliminated.step (eliminated : Eliminated c) (recognized : Recognized c resolver) :
    Eliminated (collect ifNameToIndex c resolver) := by
  unfold Recognized at recognized
  cases stops : c.entries.find? fun entry => meets resolver entry.stored with
  | none =>
    simp only [stops] at recognized
    exact eliminated.appended stops recognized
  | some found =>
    simp only [stops] at recognized
    obtain ⟨before,after,parts,result⟩ := collect_found ifNameToIndex stops
    have whole : collect ifNameToIndex c resolver =
      ⟨c.passed ++ [resolver],(collect ifNameToIndex c resolver).entries⟩ := rfl
    rw [whole,result]
    by_cases less : orderVal resolver < orderVal found.stored
    · rw [if_pos less]
      exact eliminated.replaced parts (recognized.resolve_right fun other => other.1 less) less
    · rw [if_neg less]
      refine eliminated.left ?_
      rcases recognized with mates | ⟨_,held⟩
      · exact ⟨found,List.mem_of_find?_eq_some stops,mates,BitVec.not_lt.mp less⟩
      · exact held

/-- A call that is not recognized leaves two entries for a group, or none. -/
theorem Eliminated.reflects (eliminated : Eliminated c) (next : Eliminated (collect ifNameToIndex c resolver)) :
    Recognized c resolver := by
  unfold Recognized
  have now : resolver ∈ (collect ifNameToIndex c resolver).passed :=
    List.mem_append_right _ (List.mem_singleton_self _)
  cases stops : c.entries.find? fun entry => meets resolver entry.stored with
  | none =>
    have distinct := next.distinct
    rw [collect_missed stops] at distinct
    exact fun entry member =>
      (List.pairwise_append.mp distinct).2.2 entry member _ (List.mem_singleton_self _)
  | some found =>
    obtain ⟨before,after,parts,result⟩ := collect_found ifNameToIndex stops
    by_cases less : orderVal resolver < orderVal found.stored
    · left
      rw [if_pos less] at result
      have passed : found.origin ∈ (collect ifNameToIndex c resolver).passed :=
        List.mem_append_left _ (eliminated.kept found (List.mem_of_find?_eq_some stops)).passed
      obtain ⟨entry,member,mates,_⟩ := next.smallest _ passed
      rw [result] at member
      rcases List.mem_cons.mp (List.perm_middle.mem_iff.mp member) with rfl | old
      · exact mates.symm
      · exact absurd mates.symm ((eliminated.others parts).1 entry old)
    · right
      rw [if_neg less] at result
      have smallest := next.smallest resolver now
      rw [result] at smallest
      exact ⟨less,smallest⟩

/-! ## The calls -/

private theorem eliminated_empty : Eliminated {} where
  kept _ member := absurd member List.not_mem_nil
  distinct := .nil
  smallest _ member := absurd member List.not_mem_nil

/-- Duplicates are eliminated along the calls, and copies change nothing, exactly if
every call recognizes the entry of its group. -/
theorem duplicates_eliminated_iff (ifNameToIndex : CFString → BitVec 32) (calls : List CFDictionary) :
    (run (collect ifNameToIndex) {} calls).entries.map Entry.stored = calls.foldl (addResolver ifNameToIndex) [] ∧
      (Along (collect ifNameToIndex) Eliminated {} calls ∧
          Meets (collect ifNameToIndex) (Repeats ifNameToIndex) {} calls ↔
        Meets (collect ifNameToIndex) Recognized {} calls) := by
  refine ⟨run_stored {} calls,?_⟩
  have along : Along (collect ifNameToIndex) Eliminated {} calls ↔ Meets (collect ifNameToIndex) Recognized {} calls :=
    along_iff_meets (I := fun _ => True) (fun _ _ _ => trivial) (fun _ _ _ eliminated => eliminated.step)
      (fun _ _ _ eliminated => eliminated.reflects) (fun _ _ eliminated => eliminated) trivial eliminated_empty calls
  rw [along]
  refine ⟨And.left,fun recognized => ⟨recognized,?_⟩⟩
  exact meets_of_along (A := fun _ _ => True) (fun _ _ _ eliminated => eliminated.step)
    (fun _ _ eliminated => eliminated.repeats) eliminated_empty (meets_of_forall (fun _ _ => trivial) _ _) recognized

/-- Resolvers are passed in without the key for the order of the list, and entries
have it: they are recognized only as long as no group comes again. -/
theorem recognized_iff_apart (calls : List CFDictionary) (unmarked : ∀ resolver ∈ calls, resolver.lookup .order = none) :
    Meets (collect ifNameToIndex) Recognized {} calls ↔ calls.Pairwise fun a b => ¬ Mates a b := by
  have general (c : Collected) (origins : c.entries.map Entry.origin = c.passed)
      (marked : ∀ entry ∈ c.entries, entry.stored.lookup .order ≠ none) :
      Meets (collect ifNameToIndex) Recognized c calls ↔
        (∀ resolver ∈ calls, ∀ resolver' ∈ c.passed, ¬ Mates resolver' resolver) ∧
          calls.Pairwise fun a b => ¬ Mates a b := by
    induction calls generalizing c with
    | nil => simp [Meets]
    | cons resolver rest ih =>
      obtain ⟨first,others⟩ := List.forall_mem_cons.mp unmarked
      have missed : c.entries.find? (fun entry => meets resolver entry.stored) = none := by
        rw [List.find?_eq_none]
        intro entry member met
        exact marked entry member ((lookup_of_meets met (by decide)).symm.trans first)
      have now : Recognized c resolver ↔ ∀ resolver' ∈ c.passed, ¬ Mates resolver' resolver := by
        unfold Recognized
        simp only [missed,← origins,List.forall_mem_map]
      have later := ih others (collect ifNameToIndex c resolver) (by simp [collect_missed missed,origins])
        (by
          rw [collect_missed missed]
          intro entry member
          rcases List.mem_append.mp member with old | new
          · exact marked entry old
          · obtain rfl := List.mem_singleton.mp new
            simp [lookup_order_bookkept])
      rw [Meets,now,later,List.pairwise_cons,List.forall_mem_cons]
      have passed : (collect ifNameToIndex c resolver).passed = c.passed ++ [resolver] := rfl
      simp only [passed,List.forall_mem_append,List.forall_mem_singleton,forall_and]
      tauto
  rw [general {} rfl (fun _ member => absurd member List.not_mem_nil)]
  simp

def nameserver : CFDictionary := (∅ : CFDictionary).insert .serverAddresses (.array [.string ['1']])

/-- The same resolver is passed in twice: the list has it twice. -/
theorem nameserver_twice :
    ([nameserver,nameserver].foldl (addResolver fun _ => 0) []).length = 2 ∧
      (run (collect fun _ => 0) {} [nameserver,nameserver]).entries.map Entry.origin = [nameserver,nameserver] ∧
      ¬ Eliminated (run (collect fun _ => 0) {} [nameserver,nameserver]) := by
  have origins : (run (collect fun _ => 0) {} [nameserver,nameserver]).entries.map Entry.origin =
    [nameserver,nameserver] := by decide
  refine ⟨by decide,origins,fun eliminated => ?_⟩
  have distinct : ([nameserver,nameserver].Pairwise fun a b => ¬ Mates a b) := by
    rw [← origins,List.pairwise_map]
    exact eliminated.distinct
  exact List.pairwise_pair.mp distinct rfl

end FreebsdLaunchd.DnsConfiguration
