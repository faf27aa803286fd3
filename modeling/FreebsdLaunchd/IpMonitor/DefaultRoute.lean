import FreebsdLaunchd.IpMonitor.Coupling

/-! Whose default route is the unscoped one. The routes of demoted candidates
come first, then those of the primary, then those of the others. -/
namespace FreebsdLaunchd.IpMonitor
open Grouped

variable {Addr : Type} {r x : Route Addr} {k : Rank} {g g' : List (Route Addr)} {i : IFIndex} {top : Rank}

/-- A scoped route is not touched by one that is put among the others. -/
theorem entering_keeps {lo hi : List (Route Addr)} (member : x ∈ lo ++ hi) (scope : x.flags.isScoped) :
    x ∈ entering r k lo hi := by
  cases lo with
  | cons f lo =>
    simp only [entering,List.mem_append,List.mem_cons] at member ⊢
    exact member.imp_right .inr
  | nil =>
    cases hi with
    | nil => cases member
    | cons h hi =>
      rcases List.mem_cons.mp member with rfl | later
      · simp [entering,scope]
      · cases first : h.flags.isScoped <;> simp [entering,first,later]

/-! ## Before the primary -/

/-- While all are ranked Never, all are scoped. -/
theorem Merged.scoped (merged : Merged r k g g') (never : isNever k) (all : ∀ x ∈ g, x.flags.isScoped) :
    ∀ x ∈ g', x.flags.isScoped := by
  cases merged with
  | kept x member same unbeaten => exact all
  | replaced x same worse before =>
    simp only [List.forall_mem_append,List.forall_mem_cons] at all ⊢
    exact ⟨all.1,by simp [replacement,all.2.1,Route.setScoped],all.2.2⟩
  | @entered lo hi before behind first =>
    have less : (lo ++ hi.filter (·.ifindex ≠ r.ifindex)).Sublist (lo ++ hi) := List.filter_sublist.append_left lo
    have all' (x : Route Addr) (member : x ∈ lo ++ hi.filter (·.ifindex ≠ r.ifindex)) := all x (less.subset member)
    generalize hi.filter (·.ifindex ≠ r.ifindex) = hi' at all'
    cases lo with
    | nil =>
      cases hi' with
      | nil => simp [entering,fresh,never]
      | cons h hi' =>
        simp only [List.nil_append,List.forall_mem_cons] at all'
        simpa [entering,fresh,never,all'.1] using all'.2
    | cons f lo =>
      simp only [List.cons_append,List.forall_mem_cons,List.forall_mem_append] at all'
      simpa [entering,fresh,or_imp,forall_and] using all'

/-! ## The primary -/

/-- A route over the interface is scoped, and none that ranks behind `top` takes its place. -/
def Trails (i : IFIndex) (top : Rank) (g : List (Route Addr)) : Prop :=
  ∃ x ∈ g, x.ifindex = i ∧ x.flags.isScoped ∧ x.rank.toNat ≤ top.toNat

/-- The first of the routes, which are all scoped, is over another interface. -/
theorem Merged.takesLead (merged : Merged r k g g') (all : ∀ x ∈ g, x.flags.isScoped) (never : isNever k = false)
    (front : ∀ x ∈ g, placed r k < x.place) (other : ∀ x ∈ g.head?, x.ifindex ≠ r.ifindex) :
    g'.head? = some (fresh r k false) := by
  cases merged with
  | kept x member same unbeaten =>
    rcases placed_lt.mp (front x member) with less | ⟨_,less⟩
    · exact absurd less unbeaten
    · rw [same] at less
      exact absurd less (Nat.lt_irrefl _)
  | @replaced lo hi x same worse before =>
    cases lo with
    | nil => exact absurd same (other x rfl)
    | cons f lo => exact absurd (before f (by simp)) (not_lt.mpr (front f (by simp)).le)
  | @entered lo hi before behind first =>
    cases lo with
    | nil =>
      cases hi with
      | nil => simp [entering,never]
      | cons h hi =>
        rw [List.filter_cons_of_pos (by simpa using first h rfl)]
        simp [entering,all h (by simp),never]
    | cons f lo => exact absurd (before f (by simp)).1 (not_lt.mpr (front f (by simp)).le)

/-- The first of them is over the same interface, and leaves its scope. -/
theorem Merged.inheritsScope (merged : Merged r k g g') (front : ∀ x ∈ g, placed r k < x.place)
    (head : g.head? = some x) (same : x.ifindex = r.ifindex) (scope : x.flags.isScoped) : Trails r.ifindex k g' := by
  cases merged with
  | kept y member same' unbeaten =>
    rcases placed_lt.mp (front y member) with less | ⟨_,less⟩
    · exact absurd less unbeaten
    · rw [same'] at less
      exact absurd less (Nat.lt_irrefl _)
  | @replaced lo hi y same' worse before =>
    cases lo with
    | nil =>
      obtain rfl := Option.some.inj head
      have index : (replacement r k y).ifindex = r.ifindex := by
        by_cases present : y.ifindex = 0 <;> simp [replacement,scope,Route.setScoped,same']
      have rank : (replacement r k y).rank = k := by simp [replacement,scope,Route.setScoped]
      exact ⟨_,by simp,index,by simp [replacement,scope,Route.setScoped],by rw [rank]⟩
    | cons f lo => exact absurd (before f (by simp)) (not_lt.mpr (front f (by simp)).le)
  | @entered lo hi before behind first =>
    cases lo with
    | nil => exact absurd same (first x head)
    | cons f lo => exact absurd (before f (by simp)).1 (not_lt.mpr (front f (by simp)).le)

private theorem rank_le_of_place (before : x.place < placed r k) : x.rank.toNat ≤ k.toNat := by
  rcases lt_placed.mp before with less | ⟨same,_⟩
  · exact Nat.le_of_lt (UInt32.lt_iff_toNat_lt.mp less)
  · exact le_of_eq (congrArg UInt32.toNat same)

theorem Merged.outranked (merged : Merged r k g g') (all : ∀ x ∈ g, x.flags.isScoped)
    (before : ∀ x ∈ g, x.place < placed r k) (some : g ≠ []) : Trails r.ifindex k g' := by
  cases merged with
  | kept x member same unbeaten => exact ⟨x,member,same,all x member,rank_le_of_place (before x member)⟩
  | replaced x same worse _ =>
    have le := rank_le_of_place (before x (by simp))
    exact absurd (UInt32.lt_iff_toNat_lt.mp worse) (not_lt.mpr le)
  | @entered lo hi _ behind first =>
    cases hi with
    | cons h hi => exact absurd (behind h (by simp)) (not_lt.mpr (before h (by simp)).le)
    | nil =>
      cases lo with
      | nil => exact absurd rfl some
      | cons f lo => exact ⟨fresh r k true,by simp [entering],rfl,by simp [fresh],le_refl _⟩

/-! ## After the primary -/

theorem Merged.keepsLead (merged : Merged r k g g') (head : g.head? = some x)
    (after : x.place < placed r k ∨ x.ifindex = r.ifindex ∧ ¬ k < x.rank) : g'.head? = some x := by
  cases merged with
  | kept y member same unbeaten => exact head
  | @replaced lo hi y same worse before =>
    cases lo with
    | cons f lo => exact head
    | nil =>
      obtain rfl := Option.some.inj head
      rcases after with less | ⟨_,unbeaten⟩
      · exact absurd (UInt32.lt_iff_toNat_lt.mp worse) (not_lt.mpr (rank_le_of_place less))
      · exact absurd worse unbeaten
  | @entered lo hi before behind first =>
    cases lo with
    | cons f lo => simpa [entering] using head
    | nil =>
      rw [List.nil_append] at head
      rcases after with less | ⟨same,_⟩
      · exact absurd (behind x (List.mem_of_mem_head? head)) (not_lt.mpr less.le)
      · exact absurd same (first x head)

/-- A route of the same rank over an earlier interface takes the lead, and the scope from the other. -/
theorem Merged.overtakes (merged : Merged r k g g') (ranked : Ranked g) (head : g.head? = some x)
    (scope : x.flags.isScoped = false) (same : k = x.rank) (less : r.ifindex < x.ifindex) :
    Trails x.ifindex x.rank g' := by
  have ahead : placed r k < x.place := placed_lt.mpr (.inr ⟨same,less⟩)
  have apart : x.ifindex ≠ r.ifindex := by
    intro equal
    rw [equal] at less
    exact absurd less (Nat.lt_irrefl _)
  obtain ⟨rest,rfl⟩ := List.head?_eq_some_iff.mp head
  have first (y : Route Addr) (member : y ∈ x::rest) : placed r k < y.place := by
    rcases List.mem_cons.mp member with rfl | later
    · exact ahead
    · exact ahead.trans ((List.pairwise_cons.mp ranked.ordered).1 y later)
  generalize x::rest = g at merged first head
  cases merged with
  | kept y member same' unbeaten =>
    rcases placed_lt.mp (first y member) with worse | ⟨_,earlier⟩
    · exact absurd worse unbeaten
    · rw [same'] at earlier
      exact absurd earlier (Nat.lt_irrefl _)
  | @replaced lo hi y same' worse before =>
    cases lo with
    | nil =>
      obtain rfl := Option.some.inj head
      exact absurd same' apart
    | cons f lo => exact absurd (before f (by simp)) (not_lt.mpr (first f (by simp)).le)
  | @entered lo hi before behind _ =>
    cases lo with
    | cons f lo => exact absurd (before f (by simp)).1 (not_lt.mpr (first f (by simp)).le)
    | nil =>
      obtain ⟨rest,rfl⟩ := List.head?_eq_some_iff.mp head
      rw [List.filter_cons_of_pos (by simpa using apart)]
      exact ⟨x.setScoped,by simp [entering,scope],rfl,rfl,le_refl _⟩

theorem Merged.trails (merged : Merged r k g g') (trails : Trails i top g) (later : top.toNat ≤ k.toNat) :
    Trails i top g' := by
  obtain ⟨x,member,via,scope,rank⟩ := trails
  have unbeaten : ¬ k < x.rank := by
    rw [UInt32.lt_iff_toNat_lt]
    omega
  cases merged with
  | kept y member' same unbeaten' => exact ⟨x,member,via,scope,rank⟩
  | @replaced lo hi y same worse before =>
    rcases List.mem_append.mp member with early | late
    · exact ⟨x,List.mem_append_left _ early,via,scope,rank⟩
    · rcases List.mem_cons.mp late with rfl | late
      · exact absurd worse unbeaten
      · exact ⟨x,List.mem_append_right _ (List.mem_cons_of_mem _ late),via,scope,rank⟩
  | @entered lo hi before behind first =>
    have other : x.ifindex ≠ r.ifindex := by
      rcases List.mem_append.mp member with early | late
      · exact (before x early).2
      · intro same
        rcases placed_lt.mp (behind x late) with worse | ⟨_,less⟩
        · exact unbeaten worse
        · rw [same] at less
          exact absurd less (Nat.lt_irrefl _)
    have kept : x ∈ lo ++ hi.filter (·.ifindex ≠ r.ifindex) := by
      rcases List.mem_append.mp member with early | late
      · exact List.mem_append_left _ early
      · exact List.mem_append_right _ (List.mem_filter.mpr ⟨late,by simpa using other⟩)
    have stays := entering_keeps (k := k) (r := r) kept scope
    exact ⟨x,stays,via,scope,rank⟩

/-! ## One group in a run -/

section Run
variable [LinearOrder Addr] {cs : List (Route Addr × Rank)} {key : Addr ×ₗ Nat} {d : Route Addr}

/-- What every step keeps holds in the end, of ordinary routes to one destination. -/
theorem mergeAll_keeps {P : List (Route Addr) → Prop} (plain : ∀ c ∈ cs, c.1.Plain) (keyed : ∀ c ∈ cs, c.1.key = key)
    (ranked : Ranked g) (here : ∀ x ∈ g, x.key = key) (start : P g)
    (step : ∀ c ∈ cs, ∀ g g', Ranked g → P g → Merged c.1 c.2 g g' → P g') :
    Ranked (mergeAll cs g) ∧ (∀ x ∈ mergeAll cs g, x.key = key) ∧ P (mergeAll cs g) := by
  induction cs generalizing g with
  | nil => exact ⟨ranked,here,start⟩
  | cons c cs ih =>
    rw [List.forall_mem_cons] at plain keyed step
    have same (x : Route Addr) (member : x ∈ g) : c.1.key = x.key := keyed.1.trans (here x member).symm
    have merged := merge_merged (k := c.2) same ranked plain.1
    have there := merge_key (k := c.2) fun x member => (same x member).symm
    exact ih plain.2 keyed.2 (merged.ranked ranked plain.1) (fun x member => (there x member).trans keyed.1)
      (step.1 g _ ranked start merged) step.2

/-- Every contribution is covered by a route that ranks no lower. -/
theorem Combines.covered {list : List (Route Addr)} (combines : Combines cs list) {c : Route Addr × Rank}
    (member : c ∈ cs) : ∃ x ∈ list, x.ifindex = c.1.ifindex ∧ x.place ≤ placed c.1 c.2 := by
  have one := combines.one c.1.key c.1.ifindex
  have mine : c ∈ cs.filter fun b => b.1.key = c.1.key ∧ b.1.ifindex = c.1.ifindex :=
    List.mem_filter.mpr ⟨member,by simp⟩
  cases wins : winner cs c.1.key c.1.ifindex with
  | none =>
    rw [List.argmin_eq_none.mp wins] at mine
    cases mine
  | some b =>
    have least := List.le_of_mem_argmin (f := fun b : Route Addr × Rank => b.2.toNat) mine wins
    obtain ⟨_,_,index⟩ := winner_mem wins
    have inside : entry b ∈ (overInterface c.1.ifindex (group Route.key c.1.key list)).map Route.bare := by
      rw [one,wins]
      exact List.mem_singleton_self _
    obtain ⟨x,via,bare⟩ := List.mem_map.mp inside
    obtain ⟨grouped,same⟩ := List.mem_filter.mp via
    have same : x.ifindex = c.1.ifindex := by simpa using same
    have rank : x.rank = b.2 := congrArg Route.rank bare
    refine ⟨x,(mem_group.mp grouped).1,same,?_⟩
    rw [Route.place,placed,placed,Prod.Lex.toLex_le_toLex,rank,same]
    exact (Nat.lt_or_eq_of_le least).imp_right fun equal => ⟨equal,le_refl _⟩

/-- The first of the routes is over another interface exactly if every
contribution over this one is behind one over another. -/
theorem head_over_iff {list : List (Route Addr)} (combines : Combines cs list) (ranked : Ranked list) :
    (∀ x ∈ list.head?, x.ifindex ≠ i) ↔
      ∀ c ∈ cs, c.1.ifindex = i → ∃ b ∈ cs, b.1.ifindex ≠ i ∧ placed b.1 b.2 < placed c.1 c.2 := by
  have known (x : Route Addr) (member : x ∈ list) : ∃ b ∈ cs, b.1.ifindex = x.ifindex ∧ placed b.1 b.2 = x.place := by
    obtain ⟨b,contributed,_,index,bare⟩ := combines.known member
    have rank : x.rank = b.2 := congrArg Route.rank bare
    exact ⟨b,contributed,index,by rw [Route.place,placed,placed,rank,index]⟩
  constructor
  · intro other c member via
    obtain ⟨x,inside,same,le⟩ := combines.covered member
    obtain ⟨h,rest,rfl⟩ := List.exists_cons_of_ne_nil (List.ne_nil_of_mem inside)
    have apart := other h rfl
    have before : h.place < x.place := by
      rcases List.mem_cons.mp inside with rfl | later
      · exact absurd (same.trans via) apart
      · exact (List.pairwise_cons.mp ranked.ordered).1 x later
    obtain ⟨b,contributed,index,place⟩ := known h (by simp)
    exact ⟨b,contributed,index ▸ apart,place ▸ before.trans_le le⟩
  · intro behind h head via
    obtain ⟨rest,rfl⟩ := List.head?_eq_some_iff.mp head
    obtain ⟨c,contributed,index,place⟩ := known h (by simp)
    obtain ⟨b,contributed',_,before⟩ := behind c contributed (index.trans via)
    obtain ⟨x,inside,_,le⟩ := combines.covered contributed'
    have less : x.place < h.place := le.trans_lt (place ▸ before)
    rcases List.mem_cons.mp inside with rfl | later
    · exact lt_irrefl _ less
    · exact lt_asymm less ((List.pairwise_cons.mp ranked.ordered).1 x later)

/-! ## All of one destination -/

/-- Just one of the routes has no scope, and it has the interface and the gateway of `d`. -/
def Owns (d : Route Addr) (g : List (Route Addr)) : Prop :=
  ∃ x, g.filter (!·.flags.isScoped) = [x] ∧ x.ifindex = d.ifindex ∧ x.gateway = d.gateway

omit [LinearOrder Addr] in
theorem Trails.not_owns (trails : Trails d.ifindex top g) (ranked : Ranked g) : ¬ Owns d g := by
  rintro ⟨y,single,same,_⟩
  obtain ⟨x,member,via,scope,_⟩ := trails
  have inside : y ∈ g.filter (!·.flags.isScoped) := by
    rw [single]
    exact List.mem_singleton_self y
  obtain ⟨member',unscoped⟩ := List.mem_filter.mp inside
  have apart : (g.map (·.ifindex)).Nodup := List.pairwise_map.mpr ranked.apart
  have equal : x = y := List.inj_on_of_nodup_map apart member member' (via.trans same.symm)
  rw [← equal,scope] at unscoped
  cases unscoped

omit [LinearOrder Addr] in
private theorem owns_of_head (ranked : Ranked g) (head : g.head? = some x) (scope : x.flags.isScoped = false)
    (index : x.ifindex = d.ifindex) (gateway : x.gateway = d.gateway) : Owns d g := by
  obtain ⟨rest,rfl⟩ := List.head?_eq_some_iff.mp head
  refine ⟨x,?_,index,gateway⟩
  have none : rest.filter (!·.flags.isScoped) = [] := by
    rw [List.filter_eq_nil_iff]
    intro y member
    simp [ranked.tail y member]
  rw [List.filter_cons_of_pos (by simp [scope]),none]

/-- The routes with rank Never that come first are all scoped. -/
theorem mergeAll_scoped (plain : ∀ c ∈ cs, c.1.Plain) (keyed : ∀ c ∈ cs, c.1.key = key) (never : ∀ c ∈ cs, isNever c.2) :
    Ranked (mergeAll cs []) ∧ (∀ x ∈ mergeAll cs [], x.key = key) ∧ ∀ x ∈ mergeAll cs [], x.flags.isScoped := by
  apply mergeAll_keeps (P := fun g => ∀ x ∈ g, x.flags.isScoped) plain keyed ⟨⟨by simp,.nil,.nil⟩,by simp⟩ (by simp)
    (by simp)
  intro c member g g' _ scoped' merged
  exact merged.scoped (never c member) scoped'

def Leads (before : List (Route Addr × Rank)) (d : Route Addr) (k : Rank) : Prop :=
  ∀ c ∈ before, k < c.2 ∧
    (c.1.ifindex = d.ifindex → ∃ b ∈ before, b.1.ifindex ≠ d.ifindex ∧ placed b.1 b.2 < placed c.1 c.2)

private theorem mergeAll_primary {before : List (Route Addr × Rank)} (plain : ∀ c ∈ (d,k)::before, c.1.Plain)
    (keyed : ∀ c ∈ (d,k)::before, c.1.key = key) (never : ∀ c ∈ before, isNever c.2) (may : isNever k = false) :
    let g := merge d k (mergeAll before [])
    Ranked g ∧ (∀ x ∈ g, x.key = key) ∧ (Leads before d k → g.head? = some (fresh d k false)) ∧
      (¬ Leads before d k → Trails d.ifindex k g) := by
  simp only [List.forall_mem_cons] at plain keyed
  obtain ⟨ranked,here,all⟩ := mergeAll_scoped plain.2 keyed.2 never
  have combines := combines_all plain.2
  have one (x : Route Addr) (member : x ∈ mergeAll before []) : d.key = x.key := keyed.1.trans (here x member).symm
  have merged := merge_merged (k := k) one ranked plain.1
  have there := merge_key (k := k) fun x member => (one x member).symm
  have ranks (x : Route Addr) (member : x ∈ mergeAll before []) : ∃ b ∈ before, b.2 = x.rank := by
    obtain ⟨b,contributed,_,_,bare⟩ := combines.known member
    exact ⟨b,contributed,(congrArg Route.rank bare).symm⟩
  have front (less : ∀ b ∈ before, k < b.2) (x : Route Addr) (member : x ∈ mergeAll before []) : placed d k < x.place := by
    obtain ⟨b,contributed,rank⟩ := ranks x member
    exact placed_lt.mpr (.inl (rank ▸ less b contributed))
  refine ⟨merged.ranked ranked plain.1,fun x member => (there x member).trans keyed.1,?_,?_⟩
  · intro leads
    have other := (head_over_iff combines ranked).mpr fun c member => (leads c member).2
    exact merged.takesLead all may (front fun b member => (leads b member).1) other
  · intro fails
    -- the primary ranks in front of all that are ranked Never, or behind all
    have apart : ¬ k.toNat / 2^24 = 3 := fun equal => absurd (isNever_iff.mpr equal) (by rw [may]; decide)
    rcases Nat.lt_or_gt_of_ne apart with less | more
    · have less' (b : Route Addr × Rank) (member : b ∈ before) : k < b.2 := by
        have rank := isNever_iff.mp (never b member)
        rw [UInt32.lt_iff_toNat_lt]
        omega
      have same : ¬ ∀ x ∈ (mergeAll before []).head?, x.ifindex ≠ d.ifindex := fun other =>
        fails fun c member => ⟨less' c member,(head_over_iff combines ranked).mp other c member⟩
      simp only [not_forall,ne_eq,not_not] at same
      obtain ⟨x,head,same⟩ := same
      exact merged.inheritsScope (front less') head same (all x (List.mem_of_mem_head? head))
    · have behind (x : Route Addr) (member : x ∈ mergeAll before []) : x.place < placed d k := by
        obtain ⟨b,contributed,rank⟩ := ranks x member
        have rank' := isNever_iff.mp (never b contributed)
        rw [lt_placed,← rank,UInt32.lt_iff_toNat_lt]
        exact .inl (by omega)
      have some : mergeAll before [] ≠ [] := by
        intro empty
        refine fails fun c member => ?_
        obtain ⟨x,inside,_⟩ := combines.covered member
        rw [empty] at inside
        cases inside
      exact merged.outranked all behind some

/-- The lead is kept or lost to what comes later. -/
theorem mergeAll_later {after : List (Route Addr × Rank)} (plain : ∀ c ∈ after, c.1.Plain)
    (keyed : ∀ c ∈ after, c.1.key = key) (later : ∀ c ∈ after, x.rank.toNat ≤ c.2.toNat) (ranked : Ranked g)
    (here : ∀ x ∈ g, x.key = key) (head : g.head? = some x) (scope : x.flags.isScoped = false) :
    Ranked (mergeAll after g) ∧
      ((∀ c ∈ after, c.2 = x.rank → ¬ c.1.ifindex < x.ifindex) → (mergeAll after g).head? = some x) ∧
      (¬ (∀ c ∈ after, c.2 = x.rank → ¬ c.1.ifindex < x.ifindex) → Trails x.ifindex x.rank (mergeAll after g)) := by
  induction after generalizing g with
  | nil => exact ⟨ranked,fun _ => head,fun fails => absurd nofun fails⟩
  | cons c after ih =>
    rw [List.forall_mem_cons] at plain keyed later
    have same (y : Route Addr) (member : y ∈ g) : c.1.key = y.key := keyed.1.trans (here y member).symm
    have merged := merge_merged (k := c.2) same ranked plain.1
    have ranked' := merged.ranked ranked plain.1
    have there (y : Route Addr) (member : y ∈ merge c.1 c.2 g) : y.key = key :=
      (merge_key (k := c.2) (fun y member => (same y member).symm) y member).trans keyed.1
    by_cases takes : c.2 = x.rank ∧ c.1.ifindex < x.ifindex
    · obtain ⟨ranked'',_,trails⟩ := mergeAll_keeps (P := Trails x.ifindex x.rank) plain.2 keyed.2 ranked' there
        (merged.overtakes ranked head scope takes.1 takes.2) fun b member _ _ _ trails merged =>
          merged.trails trails (later.2 b member)
      exact ⟨ranked'',fun keeps => absurd takes.2 (keeps c (by simp) takes.1),fun _ => trails⟩
    · have behind : x.place < placed c.1 c.2 ∨ x.ifindex = c.1.ifindex ∧ ¬ c.2 < x.rank := by
        rcases Nat.lt_or_eq_of_le later.1 with less | equal
        · exact .inl (lt_placed.mpr (.inl (UInt32.lt_iff_toNat_lt.mpr less)))
        · have equal : x.rank = c.2 := UInt32.toNat_inj.mp equal
          rcases lt_trichotomy x.ifindex c.1.ifindex with less | index | more
          · exact .inl (lt_placed.mpr (.inr ⟨equal,less⟩))
          · exact .inr ⟨index,by rw [equal]; exact UInt32.lt_irrefl _⟩
          · exact absurd ⟨equal.symm,more⟩ takes
      obtain ⟨ranked'',keeps,loses⟩ := ih plain.2 keyed.2 later.2 ranked' there (merged.keepsLead head behind)
      rw [List.forall_mem_cons]
      refine ⟨ranked'',fun all => keeps all.2,fun fails => loses fun all => fails ⟨fun rank less => takes ⟨rank,less⟩,all⟩⟩

/-- The primary owns the default route exactly if its own is not scoped, takes
the lead, and is not overtaken. -/
theorem owns_mergeAll_iff {before after : List (Route Addr × Rank)} (plain : ∀ c ∈ before ++ (d,k)::after, c.1.Plain)
    (keyed : ∀ c ∈ before ++ (d,k)::after, c.1.key = key) (never : ∀ c ∈ before, isNever c.2) (may : isNever k = false)
    (later : ∀ c ∈ after, k.toNat ≤ c.2.toNat) :
    Owns d (mergeAll (before ++ (d,k)::after) []) ↔
      d.flags.isScoped = false ∧ Leads before d k ∧ ∀ c ∈ after, c.2 = k → ¬ c.1.ifindex < d.ifindex := by
  simp only [List.forall_mem_append,List.forall_mem_cons] at plain keyed
  obtain ⟨ranked,here,leads,fails⟩ := mergeAll_primary (List.forall_mem_cons.mpr ⟨plain.2.1,plain.1⟩)
    (List.forall_mem_cons.mpr ⟨keyed.2.1,keyed.1⟩) never may
  have split : mergeAll (before ++ (d,k)::after) [] = mergeAll after (merge d k (mergeAll before [])) :=
    List.foldl_append ..
  rw [split]
  generalize merge d k (mergeAll before []) = g at ranked here leads fails
  have lost (trails : Trails d.ifindex k g) : ¬ Owns d (mergeAll after g) := by
    obtain ⟨ranked',_,trails'⟩ := mergeAll_keeps (P := Trails d.ifindex k) plain.2.2 keyed.2.2 ranked here trails
      fun b member _ _ _ trails merged => merged.trails trails (later b member)
    exact trails'.not_owns ranked'
  by_cases lead : Leads before d k
  · have head := leads lead
    cases scope : d.flags.isScoped with
    | true =>
      have trails : Trails d.ifindex k g :=
        ⟨_,List.mem_of_mem_head? head,rfl,by simp [fresh,scope],le_refl _⟩
      simp [lost trails]
    | false =>
      have scope' : (fresh d k false).flags.isScoped = false := by simp [fresh,scope]
      obtain ⟨ranked',keeps,loses⟩ := mergeAll_later plain.2.2 keyed.2.2 later ranked here head scope'
      simp only [lead,true_and]
      refine ⟨fun owns => ?_,fun all => owns_of_head ranked' (keeps all) scope' rfl rfl⟩
      by_contra fails'
      exact (loses fails').not_owns ranked' owns
  · simp [lost (fails lead),lead]

end Run

/-! ## The candidates -/

def defaultKey (unspecified : Addr) : Addr ×ₗ Nat := toLex (unspecified,0)

/-- What the list of a service is like that has one default route at most: that
is the first of its routes, and a candidate without one is not eligible. -/
structure OneDefault (unspecified : Addr) (c : Candidate Addr) (list : RouteList Addr) : Prop where
  eligible : c.ineligible = !list.flags.hasDefault
  first : list.flags.hasDefault → ∃ r ∈ list.list.head?, r.key = defaultKey unspecified ∧ r.Plain
  only : ∀ r ∈ if list.flags.hasDefault then list.list.tail else list.list, r.key ≠ defaultKey unspecified

def defaultOf (serviceRoutes : String → Option (RouteList Addr)) (c : Candidate Addr) : Option (Route Addr) :=
  (serviceRoutes c.serviceID).bind fun list => if list.flags.hasDefault then list.list.head? else none

def ahead (other : Option (Candidate Addr)) (results : List (Candidate Addr)) : List (Candidate Addr) :=
  results.takeWhile (!admitted other ·)

def behind (other : Option (Candidate Addr)) (results : List (Candidate Addr)) : List (Candidate Addr) :=
  (results.dropWhile (!admitted other ·)).tail

/-- When the primary gets the default route. Those ahead of it that have a
default route are all ranked Never. Where one of them is over the interface of
the primary, another must be in front of it that is not. Those behind it must
not share its rank and be over an earlier interface. -/
structure GetsDefault (serviceRoutes : String → Option (RouteList Addr)) (other : Option (Candidate Addr))
    (results : List (Candidate Addr)) (p : Candidate Addr) (d : Route Addr) : Prop where
  unscoped : d.flags.isScoped = false
  leads : ∀ b ∈ ahead other results, ∀ r ∈ defaultOf serviceRoutes b, p.rank < rankAssertionNever ∧
    (r.ifindex = d.ifindex → ∃ b' ∈ ahead other results, ∃ r' ∈ defaultOf serviceRoutes b', r'.ifindex ≠ d.ifindex ∧
      (rankIndexMask b'.rank < rankIndexMask b.rank ∨
        rankIndexMask b'.rank = rankIndexMask b.rank ∧ r'.ifindex < r.ifindex))
  lasts : ∀ c ∈ behind other results, ∀ r ∈ defaultOf serviceRoutes c, c.rank = p.rank → ¬ r.ifindex < d.ifindex

/-- Just one default route has no scope, and it is that of the candidate. -/
def OwnsDefault [LinearOrder Addr] (unspecified : Addr) (serviceRoutes : String → Option (RouteList Addr))
    (p : Candidate Addr)
    (routes : Option (RouteList Addr)) : Prop :=
  ∃ d ∈ defaultOf serviceRoutes p, Owns d (group Route.key (defaultKey unspecified) (listed routes))

section Election
variable {unspecified : Addr} {serviceRoutes : String → Option (RouteList Addr)}
variable {other : Option (Candidate Addr)} {results before after : List (Candidate Addr)} {c p : Candidate Addr}

/-- The default routes of those ahead of the primary are ranked Never, by their index. -/
theorem routeRank_ahead {b : Candidate Addr} (never : admitted other b = false) (eligible : b.ineligible = false) :
    (routeRank other true b).toNat = 3 * 2^24 + (rankIndexMask b.rank).toNat := by
  have kept : isNever (routeRank other true b) ∧ rankIndexMask (routeRank other true b) = rankIndexMask b.rank := by
    unfold routeRank
    split
    · exact ⟨by simp only [isNever,rankAssertionMask_rankMake]; decide,rankIndexMask_rankMake ..⟩
    · rename_i stays
      simp only [admitted,mayBePrimary,eligible] at never stays
      exact ⟨by rw [isNever]; grind,rfl⟩
  rw [← kept.2,rankIndexMask_toNat]
  have := isNever_iff.mp kept.1
  omega

private theorem routeRank_primary (admits : admitted other p) :
    routeRank other true p = p.rank ∧ isNever p.rank = false := by
  simp only [admitted,mayBePrimary,Bool.and_eq_true,Bool.not_eq_true',decide_eq_true_eq] at admits
  exact ⟨by simp [routeRank,admits.2],by simp [isNever,admits.1.2]⟩

private theorem lt_never_iff {k k' : Rank} (may : isNever k = false) (never : isNever k') :
    k < k' ↔ k < rankAssertionNever := by
  have apart : ¬ k.toNat / 2^24 = 3 := fun equal => absurd (isNever_iff.mpr equal) (by rw [may]; decide)
  have never' := isNever_iff.mp never
  have value : rankAssertionNever.toNat = 3 * 2^24 := by decide
  rw [UInt32.lt_iff_toNat_lt,UInt32.lt_iff_toNat_lt,value]
  omega

private theorem eligible_of_default (one : ∀ l ∈ serviceRoutes c.serviceID, OneDefault unspecified c l) {r : Route Addr}
    (has : r ∈ defaultOf serviceRoutes c) : c.ineligible = false ∧ r.key = defaultKey unspecified ∧ r.Plain := by
  unfold defaultOf at has
  obtain ⟨l,routes,first⟩ := Option.bind_eq_some_iff.mp has
  split at first
  · rename_i flag
    obtain ⟨r',head,key,plain⟩ := (one l routes).first flag
    obtain rfl : r' = r := Option.some.inj (head.symm.trans first)
    exact ⟨by simp [(one l routes).eligible,flag],key,plain⟩
  · cases first

private theorem shares_closed (results : List (Candidate Addr)) :
    shares serviceRoutes other false results = results.flatMap (share serviceRoutes other false) := by
  induction results with
  | nil => rfl
  | cons c results ih => exact congrArg (_ ++ ·) ih

/-- What the candidates in front of the primary contribute, itself, and those behind it. -/
theorem shares_split (nobody : ∀ b ∈ before, ¬ admitted other b) (admits : admitted other p) :
    shares serviceRoutes other true (before ++ p::after) =
      before.flatMap (share serviceRoutes other true) ++
        (share serviceRoutes other true p ++ after.flatMap (share serviceRoutes other false)) := by
  induction before with
  | nil => simp only [List.nil_append,shares,admits,Bool.not_true,Bool.and_false,shares_closed,List.flatMap_nil]
  | cons b before ih =>
    rw [List.forall_mem_cons] at nobody
    have never : admitted other b = false := by simpa using nobody.1
    simp only [List.cons_append,shares,never,Bool.not_false,Bool.and_self,ih nobody.2,List.flatMap_cons,List.append_assoc]

private theorem ahead_split (after : List (Candidate Addr)) (nobody : ∀ b ∈ before, ¬ admitted other b)
    (admits : admitted other p) :
    ahead other (before ++ p::after) = before ∧ behind other (before ++ p::after) = after := by
  have all : ∀ b ∈ before, (!admitted other b) = true := by simpa using nobody
  rw [ahead,behind,List.takeWhile_append_of_pos all,List.dropWhile_append_of_pos all,
    List.takeWhile_cons_of_neg (by simp [admits]),List.dropWhile_cons_of_neg (by simp [admits])]
  exact ⟨List.append_nil _,rfl⟩

def defaults (serviceRoutes : String → Option (RouteList Addr)) (rank : Candidate Addr → Rank)
    (cs : List (Candidate Addr)) : List (Route Addr × Rank) :=
  cs.flatMap fun c => (defaultOf serviceRoutes c).toList.map (·,rank c)

private theorem mem_defaults {rank : Candidate Addr → Rank} {a : Route Addr × Rank} :
    a ∈ defaults serviceRoutes rank results ↔ ∃ c ∈ results, ∃ r ∈ defaultOf serviceRoutes c, (r,rank c) = a := by
  simp only [defaults,List.mem_flatMap,List.mem_map,Option.mem_toList,Option.mem_def]

private theorem forall_defaults {rank : Candidate Addr → Rank} {P : Route Addr × Rank → Prop} :
    (∀ a ∈ defaults serviceRoutes rank results, P a) ↔ ∀ c ∈ results, ∀ r ∈ defaultOf serviceRoutes c, P (r,rank c) := by
  simp only [mem_defaults]
  constructor
  · exact fun all c member r has => all _ ⟨c,member,r,has,rfl⟩
  · rintro all _ ⟨c,member,r,has,rfl⟩
    exact all c member r has

private theorem exists_defaults {rank : Candidate Addr → Rank} {P : Route Addr × Rank → Prop} :
    (∃ a ∈ defaults serviceRoutes rank results, P a) ↔ ∃ c ∈ results, ∃ r ∈ defaultOf serviceRoutes c, P (r,rank c) := by
  simp only [mem_defaults]
  constructor
  · rintro ⟨_,⟨c,member,r,has,rfl⟩,holds⟩
    exact ⟨c,member,r,has,holds⟩
  · exact fun ⟨c,member,r,has,holds⟩ => ⟨_,⟨c,member,r,has,rfl⟩,holds⟩

variable [LinearOrder Addr]

/-- Of what candidates contribute, this is for the default destination. -/
theorem share_default (open_ : Bool) (one : ∀ l ∈ serviceRoutes c.serviceID, OneDefault unspecified c l) :
    (share serviceRoutes other open_ c).filter (·.1.key = defaultKey unspecified) =
      (defaultOf serviceRoutes c).toList.map (·,routeRank other open_ c) := by
  unfold share defaultOf
  cases routes : serviceRoutes c.serviceID with
  | none => rfl
  | some l =>
    obtain ⟨_,first,only⟩ := one l routes
    have others {rest : List (Route Addr)} (differ : ∀ r ∈ rest, r.key ≠ defaultKey unspecified)
        (f : Nat → Route Addr → Rank) :
        (rest.mapIdx fun i r => (r,f i r)).filter (·.1.key = defaultKey unspecified) = [] := by
      rw [List.filter_eq_nil_iff]
      intro a member
      obtain ⟨i,inside,rfl⟩ := List.mem_mapIdx.mp member
      simpa using differ _ (List.getElem_mem inside)
    simp only [Option.elim_some,Option.bind_some,contributions]
    cases has : l.flags.hasDefault with
    | false =>
      rw [has] at only
      exact others only _
    | true =>
      obtain ⟨r,head,key,_⟩ := first has
      obtain ⟨rest,list⟩ := List.head?_eq_some_iff.mp head
      rw [has,list,if_pos rfl,List.tail_cons] at only
      simp only [list,List.mapIdx_cons,List.head?_cons,and_true,if_true]
      rw [List.filter_cons_of_pos (by simpa using key),others only]
      rfl


private theorem shares_default (nobody : ∀ b ∈ before, ¬ admitted other b) (admits : admitted other p)
    (one : ∀ c ∈ before ++ p::after, ∀ l ∈ serviceRoutes c.serviceID, OneDefault unspecified c l) {d : Route Addr}
    (has : d ∈ defaultOf serviceRoutes p) :
    (shares serviceRoutes other true (before ++ p::after)).filter (·.1.key = defaultKey unspecified) =
      defaults serviceRoutes (routeRank other true) before ++
        (d,p.rank) :: defaults serviceRoutes Candidate.rank after := by
  simp only [List.forall_mem_append,List.forall_mem_cons] at one
  have all (open_ : Bool) (cs : List (Candidate Addr))
      (one : ∀ c ∈ cs, ∀ l ∈ serviceRoutes c.serviceID, OneDefault unspecified c l) :
      (cs.flatMap (share serviceRoutes other open_)).filter (·.1.key = defaultKey unspecified) =
        defaults serviceRoutes (routeRank other open_) cs := by
    rw [List.filter_flatMap,defaults]
    exact List.flatMap_congr fun c member => share_default open_ (one c member)
  have closed : routeRank other false = Candidate.rank := by
    funext c
    simp [routeRank]
  rw [shares_split nobody admits,List.filter_append,List.filter_append,all _ _ one.1,all _ _ one.2.2,
    share_default true one.2.1,Option.mem_def.mp has,(routeRank_primary admits).1,closed]
  rfl

/-- The default routes of the candidates around the primary's. -/
theorem owns_defaults_iff (nobody : ∀ b ∈ before, ¬ admitted other b) (admits : admitted other p)
    (later : ∀ c ∈ after, p.rank ≤ c.rank)
    (one : ∀ c ∈ before ++ p::after, ∀ l ∈ serviceRoutes c.serviceID, OneDefault unspecified c l) {d : Route Addr}
    (has : d ∈ defaultOf serviceRoutes p) :
    Owns d (mergeAll (defaults serviceRoutes (routeRank other true) before ++
      (d,p.rank) :: defaults serviceRoutes Candidate.rank after) []) ↔
        GetsDefault serviceRoutes other (before ++ p::after) p d := by
  obtain ⟨first,last⟩ := ahead_split after nobody admits
  have may := (routeRank_primary admits).2
  simp only [List.forall_mem_append,List.forall_mem_cons] at one
  have ofBefore (c : Candidate Addr) (member : c ∈ before) (r : Route Addr) (has : r ∈ defaultOf serviceRoutes c) :=
    eligible_of_default (one.1 c member) has
  have ofAfter (c : Candidate Addr) (member : c ∈ after) (r : Route Addr) (has : r ∈ defaultOf serviceRoutes c) :=
    eligible_of_default (one.2.2 c member) has
  have mine := eligible_of_default one.2.1 has
  have rank (b : Candidate Addr) (member : b ∈ before) (r : Route Addr) (has : r ∈ defaultOf serviceRoutes b) :
      (routeRank other true b).toNat = 3 * 2^24 + (rankIndexMask b.rank).toNat :=
    routeRank_ahead (by simpa using nobody b member) (ofBefore b member r has).1
  have never (b : Candidate Addr) (member : b ∈ before) (r : Route Addr) (has : r ∈ defaultOf serviceRoutes b) :
      isNever (routeRank other true b) := by
    rw [isNever_iff,rank b member r has,rankIndexMask_toNat]
    omega
  have all {P : Route Addr → Prop} (holds : ∀ r, r.key = defaultKey unspecified ∧ r.Plain → P r) :
      ∀ a ∈ defaults serviceRoutes (routeRank other true) before ++
        (d,p.rank) :: defaults serviceRoutes Candidate.rank after, P a.1 := by
    simp only [List.forall_mem_append,List.forall_mem_cons,forall_defaults]
    exact ⟨fun c member r has => holds r (ofBefore c member r has).2,holds d mine.2,
      fun c member r has => holds r (ofAfter c member r has).2⟩
  rw [owns_mergeAll_iff (all fun r one => one.2) (all fun r one => one.1) (forall_defaults.mpr never) may
    (forall_defaults.mpr fun c member r _ => UInt32.le_iff_toNat_le.mp (later c member)),forall_defaults]
  have order (b : Candidate Addr) (member : b ∈ before) (r : Route Addr) (has : r ∈ defaultOf serviceRoutes b)
      (b' : Candidate Addr) (member' : b' ∈ before) (r' : Route Addr) (has' : r' ∈ defaultOf serviceRoutes b') :
      placed r' (routeRank other true b') < placed r (routeRank other true b) ↔
        rankIndexMask b'.rank < rankIndexMask b.rank ∨
          rankIndexMask b'.rank = rankIndexMask b.rank ∧ r'.ifindex < r.ifindex := by
    rw [placed,placed,Prod.Lex.toLex_lt_toLex,rank b member r has,rank b' member' r' has',UInt32.lt_iff_toNat_lt,
      ← UInt32.toNat_inj,Nat.add_lt_add_iff_left,Nat.add_left_cancel_iff]
    rfl
  have leads : Leads (defaults serviceRoutes (routeRank other true) before) d p.rank ↔
      ∀ b ∈ before, ∀ r ∈ defaultOf serviceRoutes b, p.rank < rankAssertionNever ∧
        (r.ifindex = d.ifindex → ∃ b' ∈ before, ∃ r' ∈ defaultOf serviceRoutes b', r'.ifindex ≠ d.ifindex ∧
          (rankIndexMask b'.rank < rankIndexMask b.rank ∨
            rankIndexMask b'.rank = rankIndexMask b.rank ∧ r'.ifindex < r.ifindex)) := by
    simp only [Leads,forall_defaults,exists_defaults]
    refine forall₂_congr fun b member => forall₂_congr fun r has => ?_
    rw [lt_never_iff may (never b member r has)]
    refine and_congr_right fun _ => imp_congr_right fun _ => exists_congr fun b' => and_congr_right fun member' =>
      exists_congr fun r' => and_congr_right fun has' => and_congr_right fun _ => ?_
    exact order b member r has b' member' r' has'
  rw [leads]
  constructor
  · rintro ⟨unscoped,leads,lasts⟩
    exact ⟨unscoped,by rwa [first],by rwa [last]⟩
  · rintro ⟨unscoped,leads,lasts⟩
    rw [first] at leads
    rw [last] at lasts
    exact ⟨unscoped,leads,lasts⟩

/-- The primary owns the default route exactly when it gets it. -/
theorem ownsDefault_iff {af : AF} {elected : Elected Addr} (climbs : results.Pairwise (·.rank ≤ ·.rank))
    (one : ∀ c ∈ results, ∀ l ∈ serviceRoutes c.serviceID, OneDefault unspecified c l)
    (done : electionResultsGetPrimary results other af serviceRoutes = .ok elected)
    (primary : elected.primary = some p) :
    OwnsDefault unspecified serviceRoutes p elected.routes ↔
      ∀ d ∈ defaultOf serviceRoutes p, GetsDefault serviceRoutes other results p d := by
  obtain ⟨_,done',found,routes⟩ := electionResultsGetPrimary_ok results other af serviceRoutes
  obtain rfl := Except.ok.inj (done.symm.trans done')
  rw [primary] at found
  obtain ⟨found,visible⟩ := mem_filter.mp (Option.mem_def.mpr found.symm)
  obtain ⟨admits,before,after,rfl,nobody⟩ := List.find?_eq_some_iff_append.mp found
  have nobody : ∀ b ∈ before, ¬ admitted other b := by simpa using nobody
  -- the primary has a default route
  obtain ⟨d,has⟩ : ∃ d, d ∈ defaultOf serviceRoutes p := by
    cases list : serviceRoutes p.serviceID with
    | none => simp [shown,list] at visible
    | some l =>
      obtain ⟨eligible,head,_⟩ := one p (by simp) l list
      have flag : l.flags.hasDefault := by
        simp only [admitted,mayBePrimary,eligible,Bool.not_not,Bool.and_eq_true] at admits
        exact admits.1.1
      obtain ⟨r,head,_⟩ := head flag
      exact ⟨r,by simpa [defaultOf,list,flag] using head⟩
  simp only [OwnsDefault,Option.mem_def.mp has,Option.mem_some_iff,exists_eq_left',forall_eq']
  have sorted : Sorted Route.key ([] : List (Route Addr)) := .nil
  rw [routes,group_mergeAll sorted,shares_default nobody admits one has]
  exact owns_defaults_iff nobody admits (List.pairwise_cons.mp (List.pairwise_append.mp climbs).2.1).1 one has

end Election

def defaultOver (ifindex : IFIndex) (gateway : Nat) : RouteList Nat where
  size := 1
  flags := ⟨false,true,false⟩
  list := [⟨0,ifindex,0,rankAssertionDefault,⟨false,true,false,false,false⟩,0,gateway,gateway+1⟩]
  fits := by simp

def overTwoInterfaces (id : String) : Option (RouteList Nat) :=
  some (if id = "en0" then defaultOver 4 10 else defaultOver 5 20)

/-- The primary over en0 is in front of another service over en1. -/
theorem first_of_two_owns :
    ∃ elected p, electionResultsGetPrimary [candidateOver "en0" 1 false false,candidateOver "en1" 2 false false] none
        .inet overTwoInterfaces = .ok elected ∧
      elected.primary = some p ∧ OwnsDefault 0 overTwoInterfaces p elected.routes := by
  obtain ⟨elected,done,primary,_⟩ := electionResultsGetPrimary_ok
    [candidateOver "en0" 1 false false,candidateOver "en1" 2 false false] none .inet overTwoInterfaces
  have first : elected.primary = some (candidateOver "en0" 1 false false) := primary
  refine ⟨elected,_,done,first,(ownsDefault_iff (by decide) ?_ done first).mpr ?_⟩
  · simp only [List.forall_mem_cons]
    refine ⟨?_,?_,nofun⟩
    all_goals
      rintro _ ⟨⟩
      exact ⟨rfl,fun _ => ⟨_,rfl,rfl,⟨by decide,rfl⟩⟩,nofun⟩
  · rintro d ⟨⟩
    exact ⟨rfl,nofun,by decide⟩

/-- The two services over en0, of which the coupled one gives way to what is over en9. -/
def overOneInterface (id : String) : Option (RouteList Nat) :=
  some (if id = "A" then defaultOver 4 10 else defaultOver 4 20)

/-- The second is the primary, but its default route takes the place of one that
has been scoped, and there is none without a scope. -/
theorem replaced_keeps_scope :
    ∃ elected p, electionResultsGetPrimary
        [{candidateOver "en0" 2 true false with serviceID := "A"},
          {candidateOver "en0" 3 false false with serviceID := "B"}]
        (some (candidateOver "en9" 1 false false)) .inet overOneInterface = .ok elected ∧
      elected.primary = some p ∧ ¬ OwnsDefault 0 overOneInterface p elected.routes := by
  refine ⟨_,_,rfl,rfl,?_⟩
  rintro ⟨d,⟨⟩,x,single,_⟩
  cases single

end FreebsdLaunchd.IpMonitor
