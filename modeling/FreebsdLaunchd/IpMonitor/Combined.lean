import FreebsdLaunchd.IpMonitor.Canonical
import Mathlib.Data.List.MinMax
import Mathlib.Data.List.Sort

/-! The combined list of some services: of the routes to one destination over
one interface it has the one that ranks first. -/
namespace FreebsdLaunchd.IpMonitor
open Grouped

variable {Addr : Type}

def overInterface (i : IFIndex) (g : List (Route Addr)) : List (Route Addr) := g.filter (·.ifindex = i)

variable {r x : Route Addr} {k : Rank} {g g' lo hi : List (Route Addr)} {i : IFIndex}

@[simp] theorem overInterface_append : overInterface i (lo ++ hi) = overInterface i lo ++ overInterface i hi :=
  List.filter_append ..

private theorem overInterface_none (none : ∀ x ∈ g, x.ifindex ≠ i) : overInterface i g = [] := by
  simpa [overInterface,List.filter_eq_nil_iff] using none

private theorem overInterface_bare : overInterface i (g.map Route.bare) = (overInterface i g).map Route.bare := by
  rw [overInterface,List.filter_map]
  rfl

private theorem overInterface_cons_same (rest : List (Route Addr)) :
    overInterface r.ifindex (r::rest) = r :: overInterface r.ifindex rest :=
  List.filter_cons_of_pos (by simp)

private theorem overInterface_cons_other (other : x.ifindex ≠ i) : overInterface i (x::g) = overInterface i g :=
  List.filter_cons_of_neg (by simpa using other)

/-- The one route over an interface, where no two are over the same. -/
theorem overInterface_split (apart : (lo ++ x :: hi).Pairwise (·.ifindex ≠ ·.ifindex)) :
    overInterface x.ifindex (lo ++ x :: hi) = [x] := by
  obtain ⟨_,rest,between⟩ := List.pairwise_append.mp apart
  have before (y : Route Addr) (member : y ∈ lo) : y.ifindex ≠ x.ifindex := between y member x List.mem_cons_self
  have after (y : Route Addr) (member : y ∈ hi) : y.ifindex ≠ x.ifindex :=
    ((List.pairwise_cons.mp rest).1 y member).symm
  rw [overInterface_append,overInterface_cons_same,overInterface_none before,overInterface_none after,List.nil_append]

def better (best : Option (Route Addr × Rank)) (c : Route Addr × Rank) : Option (Route Addr × Rank) :=
  match best with
  | none => some c
  | some b => if c.2 < b.2 then some c else some b

private theorem overInterface_without : overInterface i (g.filter (·.ifindex ≠ i)) = [] :=
  overInterface_none fun x member => by simpa using (List.mem_filter.mp member).2

private theorem overInterface_except {j : IFIndex} (other : i ≠ j) :
    overInterface i (g.filter (·.ifindex ≠ j)) = overInterface i g := by
  rw [overInterface,overInterface,List.filter_filter]
  apply List.filter_congr
  intro x _
  by_cases same : x.ifindex = i
  · simp [same,other]
  · simp [same]

theorem Merged.other (merged : Merged r k g g') (plain : r.Plain) (other : i ≠ r.ifindex) :
    (overInterface i g').map Route.bare = (overInterface i g).map Route.bare := by
  cases merged with
  | kept x member same better => rfl
  | replaced x same worse before =>
    have there : x.ifindex ≠ i := same ▸ other.symm
    have here : (replacement r k x).ifindex ≠ i := by
      have := congrArg Route.ifindex (replacement_bare (k := k) plain same)
      exact fun equal => other (equal.symm.trans this)
    rw [overInterface_append,overInterface_append,overInterface_cons_other there,overInterface_cons_other here]
  | @entered lo hi before behind first =>
    have here : (entry (r,k)).ifindex ≠ i := other.symm
    rw [← overInterface_bare,entering_bare,overInterface_append,overInterface_cons_other here,overInterface_bare,
      overInterface_bare,overInterface_except other,overInterface_append,List.map_append]

/-- A contribution stands for its destination and interface unless there is a better one. -/
theorem Merged.best (merged : Merged r k g g') (plain : r.Plain) (apart : g.Pairwise (·.ifindex ≠ ·.ifindex))
    {best : Option (Route Addr × Rank)}
    (stands : (overInterface r.ifindex g).map Route.bare = best.toList.map entry) :
    (overInterface r.ifindex g').map Route.bare = (better best (r,k)).toList.map entry := by
  have known {x : Route Addr} (via : (overInterface r.ifindex g).map Route.bare = [x.bare]) :
      ∃ b, best = some b ∧ x.rank = b.2 := by
    rw [via] at stands
    cases best with
    | none => cases stands
    | some b => exact ⟨b,rfl,congrArg Route.rank (List.head_eq_of_cons_eq stands)⟩
  cases merged with
  | kept x member same unbeaten =>
    obtain ⟨lo,hi,rfl⟩ := List.append_of_mem member
    have single := overInterface_split apart
    rw [same] at single
    obtain ⟨b,rfl,rank⟩ := known (x := x) (by rw [single,List.map_singleton])
    rw [stands,better,if_neg (rank ▸ unbeaten)]
  | @replaced lo hi x same worse before =>
    have single := overInterface_split apart
    rw [same] at single
    obtain ⟨b,rfl,rank⟩ := known (x := x) (by rw [single,List.map_singleton])
    have bare := replacement_bare (k := k) plain same
    have index : (replacement r k x).ifindex = r.ifindex := by
      have := congrArg Route.ifindex bare
      exact this
    have apart' : (lo ++ replacement r k x :: hi).Pairwise (·.ifindex ≠ ·.ifindex) := by
      simpa only [List.pairwise_append,List.pairwise_cons,List.forall_mem_cons,index,same] using apart
    have single' := overInterface_split apart'
    rw [index] at single'
    rw [single',better,if_pos (rank ▸ worse),List.map_singleton,bare]
    rfl
  | @entered lo hi before behind first =>
    have none : overInterface r.ifindex lo = [] := overInterface_none fun y member => (before y member).2
    have bare : (overInterface r.ifindex (entering r k lo (hi.filter (·.ifindex ≠ r.ifindex)))).map Route.bare =
        [entry (r,k)] := by
      have alone := @overInterface_cons_same _ (entry (r,k)) ((hi.filter (·.ifindex ≠ r.ifindex)).map Route.bare)
      rw [entry_ifindex,overInterface_bare,overInterface_without] at alone
      rw [← overInterface_bare,entering_bare,overInterface_append,alone,overInterface_bare,none]
      rfl
    rw [bare]
    cases best with
    | none => rfl
    | some b =>
      -- the route over the interface is behind the new one
      obtain ⟨x,via⟩ : ∃ x, overInterface r.ifindex (lo ++ hi) = [x] := by
        have length := congrArg List.length stands
        rw [List.length_map] at length
        exact List.length_eq_one_iff.mp length
      have inside : x ∈ overInterface r.ifindex (lo ++ hi) := via ▸ List.mem_singleton_self x
      rw [overInterface_append,none,List.nil_append] at inside
      obtain ⟨member,same⟩ := List.mem_filter.mp inside
      have same : x.ifindex = r.ifindex := by simpa using same
      obtain ⟨_,⟨⟩,rank⟩ := known (x := x) (by rw [via,List.map_singleton])
      have worse : k < b.2 := by
        rcases placed_lt.mp (behind x member) with worse | ⟨_,less⟩
        · exact rank ▸ worse
        · rw [same] at less
          exact absurd less (Nat.lt_irrefl _)
      rw [better,if_pos worse]
      rfl

/-! ## One contribution after another -/

theorem isNever_iff : isNever k ↔ k.toNat / 2^24 = 3 := by
  rw [isNever,decide_eq_true_iff,← UInt32.toNat_inj,rankAssertionMask_toNat]
  have never : rankAssertionNever.toNat = 3 * 2^24 := by decide
  rw [never]
  omega

/-- Never is the last assertion in front of what is not ranked Never. -/
theorem isNever_of_before (before : k.toNat ≤ x.rank.toNat) (bound : rankAssertionMask x.rank ≤ rankAssertionNever)
    (other : isNever x.rank = false) : isNever k = false := by
  have bound : x.rank.toNat / 2^24 * 2^24 ≤ 3 * 2^24 := by
    have le := UInt32.le_iff_toNat_le.mp bound
    rwa [rankAssertionMask_toNat] at le
  have differs : ¬ x.rank.toNat / 2^24 = 3 := fun equal => absurd (isNever_iff.mpr equal) (by rw [other]; decide)
  rw [← Bool.not_eq_true,isNever_iff]
  omega

/-- The first route of a group is scoped exactly if it is ranked Never, as long
as Never routes and others do not meet at one interface. -/
theorem Merged.head (merged : Merged r k g g') (isScoped : r.flags.isScoped = false)
    (head : ∀ x ∈ g.head?, x.flags.isScoped = isNever x.rank)
    (alike : ∀ x ∈ g, x.ifindex = r.ifindex → isNever x.rank = isNever k)
    (bound : ∀ x ∈ g, rankAssertionMask x.rank ≤ rankAssertionNever) :
    ∀ x ∈ g'.head?, x.flags.isScoped = isNever x.rank := by
  cases merged with
  | kept x member same unbeaten => exact head
  | @replaced lo hi x same worse before =>
    cases lo with
    | cons f lo => exact head
    | nil =>
      have scope := head x rfl
      have never := alike x (by simp) same
      rintro _ ⟨⟩
      cases old : x.flags.isScoped <;>
        simp_all [replacement,Route.setScoped]
  | @entered lo hi before behind first =>
    cases lo with
    | cons f lo => exact head
    | nil =>
      cases hi with
      | nil =>
        rintro _ ⟨⟩
        simp [fresh,isScoped]
      | cons h hi =>
        have other : h.ifindex ≠ r.ifindex := first h rfl
        have scope := head h rfl
        rw [List.filter_cons_of_pos (by simpa using other)]
        cases old : h.flags.isScoped with
        | true =>
          simp only [entering,old,if_true]
          rintro _ ⟨⟩
          simp [fresh,isScoped]
        | false =>
          have le : k.toNat ≤ h.rank.toNat := by
            rcases placed_lt.mp (behind h List.mem_cons_self) with less | ⟨equal,_⟩
            · exact Nat.le_of_lt (UInt32.lt_iff_toNat_lt.mp less)
            · exact le_of_eq (congrArg UInt32.toNat equal)
          have never := isNever_of_before le (bound h (by simp)) (scope ▸ old)
          simp only [entering,old,Bool.false_eq_true,if_false]
          rintro _ ⟨⟩
          simp [fresh,isScoped,never]

section Run
variable [LinearOrder Addr]

/-- The contribution to a destination over an interface that ranks first, and the earliest of those. -/
def winner (cs : List (Route Addr × Rank)) (key : Addr ×ₗ Nat) (i : IFIndex) : Option (Route Addr × Rank) :=
  (cs.filter fun c => c.1.key = key ∧ c.1.ifindex = i).argmin (·.2.toNat)

variable {cs : List (Route Addr × Rank)} {c : Route Addr × Rank} {key : Addr ×ₗ Nat} {list : List (Route Addr)}

private theorem winner_same (cs : List (Route Addr × Rank)) (c : Route Addr × Rank) :
    winner (cs ++ [c]) c.1.key c.1.ifindex = better (winner cs c.1.key c.1.ifindex) c := by
  unfold winner
  rw [List.filter_append,List.filter_cons_of_pos (by simp),List.filter_nil,List.argmin_concat]
  generalize cs.filter (fun b => b.1.key = c.1.key ∧ b.1.ifindex = c.1.ifindex) = same
  cases same.argmin (·.2.toNat) with
  | none => rfl
  | some b => simp only [better,UInt32.lt_iff_toNat_lt]

private theorem winner_other (other : ¬ (c.1.key = key ∧ c.1.ifindex = i)) :
    winner (cs ++ [c]) key i = winner cs key i := by
  rw [winner,List.filter_append,List.filter_cons_of_neg (by simpa using other),List.filter_nil,List.append_nil]
  rfl

/-- Nothing at a destination is ranked behind Never, and what is ranked Never
has the interface to itself. -/
structure ClearCut (cs : List (Route Addr × Rank)) (key : Addr ×ₗ Nat) : Prop where
  never : ∀ c ∈ cs, c.1.key = key → rankAssertionMask c.2 ≤ rankAssertionNever
  alike : ∀ c ∈ cs, ∀ c' ∈ cs, c.1.key = key → c'.1.key = key → c.1.ifindex = c'.1.ifindex → isNever c.2 = isNever c'.2

/-- The list when the given routes have been contributed in this order. -/
structure Combines (cs : List (Route Addr × Rank)) (list : List (Route Addr)) : Prop where
  sorted : Sorted Route.key list
  ranked : ∀ key, Ranked (group Route.key key list)
  one : ∀ key i,
    (overInterface i (group Route.key key list)).map Route.bare = (winner cs key i).toList.map entry
  head : ∀ key, (∀ c ∈ cs, c.1.key = key → c.1.flags.isScoped = false) → ClearCut cs key →
    ∀ x ∈ (group Route.key key list).head?, x.flags.isScoped = isNever x.rank

theorem Combines.nil : Combines [] ([] : List (Route Addr)) where
  sorted := List.Pairwise.nil
  ranked _ := ⟨⟨nofun,.nil,.nil⟩,nofun⟩
  one _ _ := rfl
  head _ _ _ := nofun

theorem winner_mem {b : Route Addr × Rank} (wins : winner cs key i = some b) :
    b ∈ cs ∧ b.1.key = key ∧ b.1.ifindex = i := by
  have member := List.argmin_mem (Option.mem_def.mpr wins)
  simpa using List.mem_filter.mp member

/-- Every route of the list is one of the contributions. -/
theorem Combines.known (combines : Combines cs list) (member : x ∈ list) :
    ∃ b ∈ cs, b.1.key = x.key ∧ b.1.ifindex = x.ifindex ∧ x.bare = entry b := by
  have one := combines.one x.key x.ifindex
  have inside : x.bare ∈ (overInterface x.ifindex (group Route.key x.key list)).map Route.bare :=
    List.mem_map_of_mem (List.mem_filter.mpr ⟨mem_group.mpr ⟨member,rfl⟩,by simp⟩)
  rw [one] at inside
  obtain ⟨b,wins,equal⟩ := List.mem_map.mp inside
  obtain ⟨known,key,index⟩ := winner_mem (Option.mem_toList.mp wins)
  exact ⟨b,known,key,index,equal.symm⟩

omit [LinearOrder Addr] in
theorem ClearCut.init (clear : ClearCut (cs ++ [c]) key) : ClearCut cs key where
  never b member := clear.never b (List.mem_append_left _ member)
  alike b member b' member' := clear.alike b (List.mem_append_left _ member) b' (List.mem_append_left _ member')

theorem Combines.merge (combines : Combines cs list) (plain : c.1.Plain) :
    Combines (cs ++ [c]) (merge c.1 c.2 list) := by
  obtain ⟨sorted,here,others⟩ := merge_spec combines.sorted c.1 c.2
  have ranked := combines.ranked c.1.key
  have merged := merge_merged (k := c.2) (fun x member => (mem_group.mp member).2.symm) ranked plain
  refine ⟨sorted,?_,?_,?_⟩
  · intro key
    by_cases same : key = c.1.key
    · rw [same,here]
      exact merged.ranked ranked plain
    · rw [others key same]
      exact combines.ranked key
  · intro key i
    by_cases same : key = c.1.key
    · rw [same,here]
      by_cases index : i = c.1.ifindex
      · rw [index,winner_same]
        exact merged.best plain ranked.apart (combines.one c.1.key c.1.ifindex)
      · rw [merged.other plain index,winner_other fun both => index both.2.symm]
        exact combines.one c.1.key i
    · rw [others key same,winner_other fun both => same both.1.symm]
      exact combines.one key i
  · intro key unscoped clear
    have unscoped' (b : Route Addr × Rank) (member : b ∈ cs) (keyed : b.1.key = key) : b.1.flags.isScoped = false :=
      unscoped b (List.mem_append_left _ member) keyed
    by_cases same : key = c.1.key
    · subst same
      rw [here]
      have known (x : Route Addr) (member : x ∈ group Route.key c.1.key list) :
          ∃ b ∈ cs, b.1.key = c.1.key ∧ b.1.ifindex = x.ifindex ∧ x.rank = b.2 := by
        obtain ⟨inside,key⟩ := mem_group.mp member
        obtain ⟨b,contributed,keyed,index,equal⟩ := combines.known inside
        exact ⟨b,contributed,keyed.trans key,index,congrArg Route.rank equal⟩
      apply merged.head (unscoped c (by simp) rfl) (combines.head _ unscoped' clear.init)
      · intro x member index
        obtain ⟨b,contributed,keyed,via,rank⟩ := known x member
        rw [rank]
        exact clear.alike b (List.mem_append_left _ contributed) c (by simp) keyed rfl (via.trans index)
      · intro x member
        obtain ⟨b,contributed,keyed,_,rank⟩ := known x member
        rw [rank]
        exact clear.never b (List.mem_append_left _ contributed) keyed
    · rw [others key same]
      exact combines.head key unscoped' clear.init

end Run

end FreebsdLaunchd.IpMonitor
