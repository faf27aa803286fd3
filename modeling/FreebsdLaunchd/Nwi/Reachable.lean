import FreebsdLaunchd.Nwi.Growth
import FreebsdLaunchd.Library.Runs

/-! Runs of the operations on one state, as `IPMonitorProcessChanges` makes them:
create or grow, clear both families, add entries, finalize. What is reached keeps
the invariant, and growing it moves the entries and their aliases unchanged. -/
namespace FreebsdLaunchd.Nwi
open NwiState

variable {s g t : NwiState} {af : AF} {i j : Nat}

/-! ## Aliases by name -/

theorem Represented.getAlias_iff (represented : Represented s) (used : i < s.count af)
    (used' : j < s.count (nwiOtherAf af)) :
    nwiIfstateGetAlias s (s.addr af i) (nwiOtherAf af) = some (s.addr (nwiOtherAf af) j) ↔
      (s.entry af i).ifname = (s.entry (nwiOtherAf af) j).ifname := by
  refine ⟨fun found => ?_,represented.getAlias used used'⟩
  by_cases known : ∃ j' < s.count (nwiOtherAf af), (s.entry af i).ifname = (s.entry (nwiOtherAf af) j').ifname
  · obtain ⟨j',used'',same⟩ := known
    rw [represented.getAlias used used'' same] at found
    have places := Option.some.inj found
    rw [addr_inj (represented.inside used'') (represented.inside used')] at places
    exact places.2 ▸ same
  · rw [represented.getAlias_none used fun j' used'' same => known ⟨j',used'',same⟩] at found
    cases found

theorem Represented.getAlias_none_iff (represented : Represented s) (used : i < s.count af) :
    nwiIfstateGetAlias s (s.addr af i) (nwiOtherAf af) = none ↔
      ∀ j < s.count (nwiOtherAf af), (s.entry af i).ifname ≠ (s.entry (nwiOtherAf af) j).ifname := by
  refine ⟨fun nothing j used' same => ?_,represented.getAlias_none used⟩
  rw [represented.getAlias used used' same] at nothing
  cases nothing

/-! ## What growing preserves -/

structure Preserved (s g : NwiState) : Prop where
  count : ∀ af, g.count af = s.count af
  entries : ∀ af, views g af = views s af
  aliases : ∀ af i j, i < s.count af → j < s.count (nwiOtherAf af) →
    (nwiIfstateGetAlias g (g.addr af i) (nwiOtherAf af) = some (g.addr (nwiOtherAf af) j) ↔
      nwiIfstateGetAlias s (s.addr af i) (nwiOtherAf af) = some (s.addr (nwiOtherAf af) j))
  alone : ∀ af i, i < s.count af →
    (nwiIfstateGetAlias g (g.addr af i) (nwiOtherAf af) = none ↔
      nwiIfstateGetAlias s (s.addr af i) (nwiOtherAf af) = none)

theorem Preserved.refl (s : NwiState) : Preserved s s :=
  ⟨fun _ => rfl,fun _ => rfl,fun _ _ _ _ _ => .rfl,fun _ _ _ => .rfl⟩

theorem Moved.preserved (moved : Moved s g) (represented : Represented s) (represented' : Represented g) :
    Preserved s g := by
  have used_ {af : AF} {i : Nat} (used : i < s.count af) : i < g.count af := by rwa [moved.count]
  refine ⟨moved.count,moved.views,fun af i j used used' => ?_,fun af i used => ?_⟩
  · rw [represented'.getAlias_iff (used_ used) (used_ used'),represented.getAlias_iff used used',moved.name used,
      moved.name used']
  · rw [represented'.getAlias_none_iff (used_ used),represented.getAlias_none_iff used,moved.count]
    refine forall₂_congr fun j used' => ?_
    rw [moved.name used,moved.name used']

private theorem listed_within (names : List NwiIfstate) (s : NwiState) (shown : interfaceList s = names)
    (room : s.ifList.length ≤ s.maxIfCount) : names.length ≤ s.maxIfCount := by
  rw [← shown]
  simpa [interfaceList] using room

/-- A call of `nwi_state_new` on a state, whether it grows or not. -/
theorem Represented.new_preserved (represented : Represented s) {max : Nat}
    (grown : nwiStateNew (some s) max = some g) :
    Represented g ∧ Preserved s g ∧
      (s.maxIfCount < max → interfaceList g = (interfaces s).take max) ∧
      (interfaceList s = interfaces s → interfaceList g = interfaceList s) := by
  by_cases more : s.maxIfCount < max
  · obtain ⟨g',result,larger,moved,represented',shown⟩ := grown_moved represented more
    obtain rfl : g' = g := Option.some.inj (result.symm.trans grown)
    refine ⟨represented',moved.preserved represented represented',fun _ => shown,fun finalized => ?_⟩
    have fits := listed_within _ s finalized represented.listRoom
    rw [shown,finalized,List.take_of_length_le (by omega)]
  · have same : nwiStateNew (some s) max = some s := if_pos (Nat.le_of_not_lt more)
    obtain rfl : s = g := Option.some.inj (same.symm.trans grown)
    exact ⟨represented,.refl s,fun more' => absurd more' more,fun _ => rfl⟩

/-! ## Runs -/

inductive Op where
  | new (maxIfCount : Nat)
  | clear
  | add (c : Candidate)
  | finalize

/-- `NULL` is cleared, added to and finalized by nobody. -/
def perform (state : Option NwiState) : Op → Option NwiState
  | .new maxIfCount => nwiStateNew state maxIfCount
  | .clear => state.map fun state => nwiStateClear (nwiStateClear state .inet) .inet6
  | .add c => state.map fun state => (nwiStateAddIfstate state c).1
  | .finalize => nwiStateFinalize state

def Op.short : Op → Prop
  | .add c => c.ifname.length < IFNAMSIZ
  | _ => True

theorem Represented.empty (nothing : ∀ af, s.count af = 0) (listRoom : s.ifList.length ≤ s.maxIfCount) :
    Represented s := by
  have unused {af : AF} {i : Nat} (used : i < s.count af) : False := by
    rw [nothing] at used
    exact Nat.not_lt_zero _ used
  exact ⟨fun af => by rw [nothing]; exact Nat.zero_le _,listRoom,fun _ _ used => (unused used).elim,
    fun _ _ _ used => (unused used).elim,fun _ _ used => (unused used).elim,fun _ _ _ used => (unused used).elim,
    fun _ _ used => (unused used).elim⟩

theorem newState_represented (max : Nat) : Represented (newState max) :=
  .empty (fun af => by cases af <;> rfl) (Nat.zero_le _)

private theorem perform_represented (state : Option NwiState) (op : Op) (short : op.short)
    (represented : ∀ s ∈ state, Represented s) : ∀ s ∈ perform state op, Represented s := by
  intro t there
  cases state with
  | none =>
    cases op with
    | new max =>
      obtain ⟨_,made⟩ := Option.ite_none_left_eq_some.mp there
      exact Option.some.inj made ▸ newState_represented max
    | clear => cases there
    | add c => cases there
    | finalize => cases there
  | some s =>
    have sound := represented s rfl
    cases op with
    | new max => exact (sound.new_preserved there).1
    | clear =>
      obtain rfl := Option.some.inj there
      exact .empty (fun af => by cases af <;> rfl) sound.listRoom
    | add c =>
      obtain rfl := Option.some.inj there
      exact sound.added short
    | finalize =>
      obtain rfl := Option.some.inj there
      obtain ⟨list,same,room⟩ := setIfList_list s
      rw [same]
      exact sound.withList room

private theorem run_represented (state : Option NwiState) (ops : List Op) (short : ∀ op ∈ ops, op.short)
    (represented : ∀ s ∈ state, Represented s) : ∀ s ∈ Runs.run perform state ops, Represented s := by
  induction ops generalizing state with
  | nil => exact represented
  | cons op rest ih =>
    exact ih _ (fun op' member => short op' (.tail _ member))
      (perform_represented state op (short op (.head _)) represented)

/-- Every state reached from nothing keeps the invariant, and growing it preserves
its entries and aliases; the interface list is computed anew from the entries, and
so is the same if it was the list of the entries' interfaces before. -/
theorem reached_represented (ops : List Op) (short : ∀ op ∈ ops, op.short)
    (reached : Runs.run perform none ops = some t) :
    (∀ af, t.count af ≤ t.maxIfCount) ∧
    (∀ af i j, i < t.count af → j < t.count af → (t.entry af i).ifname = (t.entry af j).ifname → i = j) ∧
    (∀ af i, i < t.count af → (isLast (t.entry af i) ↔ i + 1 = t.count af)) ∧
    (∀ af i, i < t.count af → ((t.entry af i).afAliasOffset ≠ 0 ↔
      ∃ j < t.count (nwiOtherAf af), (t.entry af i).ifname = (t.entry (nwiOtherAf af) j).ifname)) ∧
    (∀ af i j, i < t.count af → j < t.count (nwiOtherAf af) →
      (t.entry af i).ifname = (t.entry (nwiOtherAf af) j).ifname →
      nwiIfstateGetAlias t (t.addr af i) (nwiOtherAf af) = some (t.addr (nwiOtherAf af) j) ∧
      nwiIfstateGetAlias t (t.addr (nwiOtherAf af) j) af = some (t.addr af i)) ∧
    (∀ max g, nwiStateNew (some t) max = some g → Preserved t g ∧
      (t.maxIfCount < max → interfaceList g = (interfaces t).take max) ∧
      (interfaceList t = interfaces t → interfaceList g = interfaceList t)) ∧
    interfaceList (nwiStateSetIfList t) = (interfaces t).take t.maxIfCount := by
  have represented := run_represented none ops short (by simp) t reached
  refine ⟨represented.room,represented.unique,represented.last,fun af i used => represented.alias_iff used,
    fun af i j used used' same => ⟨represented.getAlias used used' same,?_⟩,
    fun max g grown => (represented.new_preserved grown).2,setIfList_shown t⟩
  obtain ⟨other,there⟩ : ∃ other, nwiOtherAf af = other := ⟨_,rfl⟩
  have back : af = nwiOtherAf other := by rw [← there,otherAf_otherAf]
  subst back
  rw [otherAf_otherAf] at used' same ⊢
  exact represented.getAlias used' used same.symm

def sampleCandidate (af : AF) : Candidate := ⟨['e','n','0'],af,0,0,none,none,0⟩

theorem sample_represented : ∃ t,
    Runs.run perform none [.new 1,.add (sampleCandidate .inet),.new 3,.add (sampleCandidate .inet6)] = some t ∧
      nwiIfstateGetAlias t 0 .inet6 = some 3 ∧ nwiIfstateGetAlias t 3 .inet = some 0 :=
  ⟨_,rfl,(reached_represented [.new 1,.add (sampleCandidate .inet),.new 3,.add (sampleCandidate .inet6)]
    (by simp [Op.short,sampleCandidate,IFNAMSIZ]) rfl).2.2.2.2.1 .inet 0 0 (by decide) (by decide) (by decide)⟩

/-- Growing need not leave the interface list as it is: a list that was never
computed is computed. -/
theorem growing_changes_interface_list : ¬ ∀ ops : List Op, (∀ op ∈ ops, op.short) → ∀ t,
    Runs.run perform none ops = some t → ∀ max g, nwiStateNew (some t) max = some g →
      interfaceList g = interfaceList t := by
  intro preserved
  have same := preserved [.new 1,.add (sampleCandidate .inet)] (by simp [Op.short,sampleCandidate,IFNAMSIZ]) _ rfl
    2 _ rfl
  exact absurd (congrArg List.length same) (by decide)

end FreebsdLaunchd.Nwi
