import FreebsdLaunchd.IpMonitor.Merge

/-! The routes to one destination, where all of them are over interfaces of
their own: they are ordered by rank and interface, and all but the first are
scoped. -/
namespace FreebsdLaunchd.IpMonitor
open Grouped

variable {Addr : Type}

def placed (r : Route Addr) (k : Rank) : ℕ ×ₗ ℕ := toLex (k.toNat,r.ifindex.val)

def Route.place (r : Route Addr) : ℕ ×ₗ ℕ := placed r r.rank

/-- An ordinary route, over an interface and without an excluded one. -/
structure Route.Plain (r : Route Addr) : Prop where
  ifindex : r.ifindex ≠ 0
  exclude : r.excludeIfindex = 0

variable {r x : Route Addr} {k : Rank}

theorem placed_lt : placed r k < x.place ↔ k < x.rank ∨ k = x.rank ∧ r.ifindex < x.ifindex := by
  simp only [placed,Route.place,Prod.Lex.toLex_lt_toLex,UInt32.lt_iff_toNat_lt,← UInt32.toNat_inj,Fin.lt_def]

theorem lt_placed : x.place < placed r k ↔ x.rank < k ∨ x.rank = k ∧ x.ifindex < r.ifindex := by
  simp only [placed,Route.place,Prod.Lex.toLex_lt_toLex,UInt32.lt_iff_toNat_lt,← UInt32.toNat_inj,Fin.lt_def]

section Compare
variable [LinearOrder Addr]

private theorem routeCompare_same (key : r.key = x.key) (same : x.ifindex = r.ifindex) :
    routeCompare r k x x.rank = (0,false) := by
  obtain ⟨dest,prefixes⟩ := Route.key_eq.mp key
  simp [routeCompare,routeAddressCompare,dest,prefixes,same]

private theorem routeCompare_rivals (key : r.key = x.key) (plain : r.Plain) (plain' : x.Plain)
    (other : x.ifindex ≠ r.ifindex) :
    routeCompare r k x x.rank =
      (if k = x.rank then (r.ifindex.val : Int) - x.ifindex.val else if k < x.rank then -1 else 1,true) := by
  obtain ⟨dest,prefixes⟩ := Route.key_eq.mp key
  have apart : (r.ifindex.val : Int) - x.ifindex.val ≠ 0 := by
    have := Fin.val_ne_of_ne other
    omega
  simp only [routeCompare,routeAddressCompare,dest,prefixes,rankCompare,plain.ifindex,plain'.ifindex,
    if_neg apart,lt_irrefl,if_true,if_false,false_or,false_and,Int.sub_self,ne_eq,not_true]
  by_cases equal : k = x.rank
  · simp [equal]
  · by_cases less : k < x.rank <;> simp [equal,less]

private theorem routeCompare_before (key : r.key = x.key) (plain : r.Plain) (plain' : x.Plain)
    (other : x.ifindex ≠ r.ifindex) (before : placed r k < x.place) :
    ∃ cmp, cmp < 0 ∧ routeCompare r k x x.rank = (cmp,true) := by
  refine ⟨_,?_,routeCompare_rivals key plain plain' other⟩
  rcases placed_lt.mp before with less | ⟨rfl,less⟩
  · have apart : k ≠ x.rank := by
      rintro rfl
      exact UInt32.lt_irrefl _ less
    rw [if_neg apart,if_pos less]
    decide
  · rw [if_pos rfl]
    have := Fin.lt_def.mp less
    omega

private theorem routeCompare_behind (key : r.key = x.key) (plain : r.Plain) (plain' : x.Plain)
    (other : x.ifindex ≠ r.ifindex) (behind : x.place < placed r k) :
    ∃ cmp, 0 < cmp ∧ routeCompare r k x x.rank = (cmp,true) := by
  refine ⟨_,?_,routeCompare_rivals key plain plain' other⟩
  rcases lt_placed.mp behind with less | ⟨rfl,less⟩
  · have apart : k ≠ x.rank := by
      rintro rfl
      exact UInt32.lt_irrefl _ less
    rw [if_neg apart,if_neg (UInt32.lt_asymm less)]
    decide
  · rw [if_pos rfl]
    have := Fin.lt_def.mp less
    omega

/-! ## The loop over one group -/

private theorem scanRoutes_lower {lo : List (Route Addr)} (plain : r.Plain)
    (rivals : ∀ x ∈ lo, r.key = x.key ∧ x.Plain ∧ x.ifindex ≠ r.ifindex ∧ x.place < placed r k) (i : Nat)
    (first : Option (Route Addr)) (which : Scope) :
    scanRoutes r k lo i ⟨first,which,none⟩ =
      .add none ⟨first.or lo.head?,if lo ≠ [] ∧ which = .none then .this else which,none⟩ := by
  induction lo generalizing i first which with
  | nil => simp [scanRoutes]
  | cons x lo ih =>
    rw [List.forall_mem_cons] at rivals
    obtain ⟨⟨key,plain',other,behind⟩,rest⟩ := rivals
    obtain ⟨cmp,positive,compare⟩ := routeCompare_behind key plain plain' other behind
    have forth : ¬ cmp < 0 := by omega
    have apart : cmp ≠ 0 := by omega
    have noted : Scan.note ⟨first,which,none⟩ true x = ⟨first.or (some x),which,none⟩ := by
      cases first <;> rfl
    have passed : Scan.after ⟨first.or (some x),which,none⟩ true =
        ⟨first.or (some x),if which = .none then .this else which,none⟩ := by
      cases which <;> rfl
    simp only [scanRoutes,compare,noted,passed,if_neg forth,if_neg apart,ih rest]
    cases first <;> cases which <;> simp

/-- Behind its own position the route only looks for a duplicate. -/
theorem scanRoutes_higher {hi : List (Route Addr)} (plain : r.Plain)
    (rivals : ∀ x ∈ hi, r.key = x.key ∧ x.Plain ∧ placed r k < x.place) (i : Nat) {s : Scan Addr}
    (found : s.position.isSome) (known : s.firstScan.isSome) :
    scanRoutes r k hi i s = .add ((hi.findIdx? (·.ifindex = r.ifindex)).map (i+·)) s := by
  induction hi generalizing i with
  | nil => rfl
  | cons x hi ih =>
    rw [List.forall_mem_cons] at rivals
    obtain ⟨⟨key,plain',before⟩,rest⟩ := rivals
    have noted (sameDest : Bool) : s.note sameDest x = s := by
      obtain ⟨first,which,position⟩ := s
      cases first with
      | none => cases known
      | some first => cases sameDest <;> rfl
    by_cases same : x.ifindex = r.ifindex
    · have compare := @routeCompare_same _ r x k _ key same
      simp only [scanRoutes,compare,noted,lt_irrefl,if_false,if_true,List.findIdx?_cons,same,found,plain'.exclude,
        plain.exclude,and_self,decide_true,Option.map_some,Nat.add_zero]
    · obtain ⟨cmp,negative,compare⟩ := routeCompare_before key plain plain' same before
      have stays : s.before true i x = s := if_pos found
      simp only [scanRoutes,compare,noted,stays,if_pos negative,ih rest,List.findIdx?_cons,same,decide_false,
        Bool.false_eq_true,if_false,Option.map_map]
      congr 2
      funext j
      simp only [Function.comp_apply]
      omega

/-! ## A route among the others -/

def isNever (k : Rank) : Bool := rankAssertionMask k = rankAssertionNever

def fresh (r : Route Addr) (k : Rank) (isScoped : Bool) : Route Addr :=
  {r with rank := k,flags := {r.flags with isScoped := r.flags.isScoped || isScoped}}

omit [LinearOrder Addr] in
private theorem fresh_eq (r : Route Addr) (k : Rank) (isScoped : Bool) :
    fresh r k isScoped = if isScoped then Route.setScoped {r with rank := k} else {r with rank := k} := by
  cases isScoped <;> simp [fresh,Route.setScoped]

omit [LinearOrder Addr] in
private theorem addScanned_here {lo hi : List (Route Addr)} {s : Scan Addr} (which : s.scopeWhich ≠ .next)
    (index : s.position.getD (lo ++ hi).length = lo.length) :
    addScanned r k s (lo ++ hi) = lo ++ fresh r k (isNever k || s.scopeWhich ≠ .none) :: hi := by
  have inserted (x : Route Addr) : (lo ++ hi).insertIdx lo.length x = lo ++ x :: hi :=
    insertIdx_append_right lo hi 0 x
  have modified (x : Route Addr) : (lo ++ x :: hi).modify lo.length Route.setScoped = lo ++ x.setScoped :: hi :=
    modify_append_right lo (x::hi) 0 _
  simp only [addScanned,index,inserted,if_neg which,fresh_eq,isNever,Bool.or_eq_true,decide_eq_true_eq]
  split
  · exact modified _
  · rfl

omit [LinearOrder Addr] in
private theorem addScanned_next {lo hi : List (Route Addr)} {s : Scan Addr} (which : s.scopeWhich = .next)
    (position : s.position = some lo.length) (h : Route Addr) :
    addScanned r k s (lo ++ h :: hi) = lo ++ fresh r k false :: h.setScoped :: hi := by
  have inserted (x : Route Addr) : (lo ++ h :: hi).insertIdx lo.length x = lo ++ x :: h :: hi :=
    insertIdx_append_right lo (h::hi) 0 x
  have modified (x : Route Addr) :
      (lo ++ x :: h :: hi).modify (lo.length+1) Route.setScoped = lo ++ x :: h.setScoped :: hi :=
    modify_append_right lo (x::h::hi) 1 _
  have differs : s.scopeWhich ≠ .none := by
    rw [which]
    decide
  simp only [addScanned,position,Option.getD_some,Option.elim_some,inserted,if_pos which,ne_eq,differs,
    not_false_iff,or_true,if_true,modified,fresh_eq,Bool.false_eq_true,if_false]

/-- A route between those before it and those after it. Only the first of a
group may do without a scope, which a route in front of it takes away. -/
def entering (r : Route Addr) (k : Rank) : List (Route Addr) → List (Route Addr) → List (Route Addr)
  | [], [] => [fresh r k (isNever k)]
  | [], h::hi => if h.flags.isScoped then fresh r k (isNever k) :: h :: hi else fresh r k false :: h.setScoped :: hi
  | lo, hi => lo ++ fresh r k true :: hi

structure Ordered (g : List (Route Addr)) : Prop where
  plain : ∀ x ∈ g, x.Plain
  ordered : g.Pairwise (·.place < ·.place)
  apart : g.Pairwise (·.ifindex ≠ ·.ifindex)

structure Ranked (g : List (Route Addr)) : Prop extends Ordered g where
  tail : ∀ x ∈ g.tail, x.flags.isScoped

/-- What becomes of a group to which an ordinary route is added: a route over
the same interface that ranks no lower is there and nothing happens, or one that
ranks lower stands where the new one belongs and is replaced, or the new one
goes to its place and a lower one is removed. -/
inductive Merged (r : Route Addr) (k : Rank) : List (Route Addr) → List (Route Addr) → Prop
  | kept {g : List (Route Addr)} (x : Route Addr) (member : x ∈ g) (same : x.ifindex = r.ifindex)
      (better : ¬ k < x.rank) : Merged r k g g
  | replaced {lo hi : List (Route Addr)} (x : Route Addr) (same : x.ifindex = r.ifindex) (worse : k < x.rank)
      (before : ∀ y ∈ lo, y.place < placed r k) : Merged r k (lo ++ x :: hi) (lo ++ replacement r k x :: hi)
  | entered {lo hi : List (Route Addr)} (before : ∀ y ∈ lo, y.place < placed r k ∧ y.ifindex ≠ r.ifindex)
      (behind : ∀ y ∈ hi, placed r k < y.place) (first : ∀ y ∈ hi.head?, y.ifindex ≠ r.ifindex) :
      Merged r k (lo ++ hi) (entering r k lo (hi.filter (·.ifindex ≠ r.ifindex)))

private theorem merge_last {lo : List (Route Addr)} (plain : r.Plain)
    (lower : ∀ x ∈ lo, r.key = x.key ∧ x.Plain ∧ x.ifindex ≠ r.ifindex ∧ x.place < placed r k) :
    merge r k lo = entering r k lo [] := by
  have passed := scanRoutes_lower plain lower 0 none .none
  rw [merge,Scan.start,passed]
  cases lo with
  | nil => exact (@addScanned_here _ r k [] [] ⟨none,.none,none⟩ (by simp) rfl).trans (by simp [entering])
  | cons f lo =>
    have here := @addScanned_here _ r k (f::lo) [] ⟨some f,.this,none⟩ (by simp) (by simp)
    rw [List.append_nil] at here
    simpa [entering] using here

def scopesAt (h : Route Addr) (lo : List (Route Addr)) : Scope :=
  if (lo.head?.getD h).flags.isScoped then if lo = [] then .none else .this
  else if h.flags.isScoped then .this else .next

private theorem merge_inside {lo hi : List (Route Addr)} {h : Route Addr} (plain : r.Plain)
    (lower : ∀ x ∈ lo, r.key = x.key ∧ x.Plain ∧ x.ifindex ≠ r.ifindex ∧ x.place < placed r k)
    (higher : ∀ x ∈ h::hi, r.key = x.key ∧ x.Plain ∧ placed r k < x.place) (other : h.ifindex ≠ r.ifindex)
    (apart : hi.Pairwise (·.ifindex ≠ ·.ifindex)) :
    merge r k (lo ++ h :: hi) =
      addScanned r k ⟨some (lo.head?.getD h),scopesAt h lo,some lo.length⟩
        (lo ++ h :: hi.filter (·.ifindex ≠ r.ifindex)) := by
  rw [List.forall_mem_cons] at higher
  obtain ⟨⟨keyed,plain',ahead⟩,higher⟩ := higher
  obtain ⟨cmp,negative,compare⟩ := routeCompare_before keyed plain plain' other ahead
  have passed := scanRoutes_lower plain lower 0 none .none
  have reached : (Scan.note ⟨none.or lo.head?,if lo ≠ [] ∧ Scope.none = .none then .this else .none,none⟩ true h).before
      true lo.length h = ⟨some (lo.head?.getD h),scopesAt h lo,some lo.length⟩ := by
    cases lo with
    | nil => cases scope : h.flags.isScoped <;> simp [Scan.note,Scan.before,scopesAt,scope]
    | cons f lo => cases scope : f.flags.isScoped <;> simp [Scan.note,Scan.before,scopesAt,scope]
  generalize (⟨none.or lo.head?,if lo ≠ [] ∧ Scope.none = .none then .this else .none,none⟩ : Scan Addr) = passing
    at passed reached
  have looked := scanRoutes_higher plain higher (lo.length+1)
    (s := ⟨some (lo.head?.getD h),scopesAt h lo,some lo.length⟩) rfl rfl
  have ended : scanRoutes r k (lo ++ h :: hi) 0 .start =
      .add ((hi.findIdx? (·.ifindex = r.ifindex)).map (lo.length+1+·))
        ⟨some (lo.head?.getD h),scopesAt h lo,some lo.length⟩ := by
    rw [scanRoutes_append,Scan.start,passed]
    simp only [scanRoutes,compare,if_pos negative,Nat.zero_add,reached,looked]
  rw [merge,ended,← eraseIdx_findIdx? apart r.ifindex]
  cases hi.findIdx? (·.ifindex = r.ifindex) with
  | none => rfl
  | some j =>
    simp only [Option.map_some,Option.elim_some]
    rw [List.eraseIdx_append_of_length_le (by omega),show lo.length+1+j - lo.length = j+1 by omega]
    rfl

private theorem merge_entered {lo hi : List (Route Addr)} (key : ∀ x ∈ lo ++ hi, r.key = x.key)
    (ranked : Ranked (lo ++ hi))
    (plain : r.Plain) (before : ∀ y ∈ lo, y.place < placed r k ∧ y.ifindex ≠ r.ifindex)
    (behind : ∀ y ∈ hi, placed r k < y.place) (first : ∀ y ∈ hi.head?, y.ifindex ≠ r.ifindex) :
    merge r k (lo ++ hi) = entering r k lo (hi.filter (·.ifindex ≠ r.ifindex)) := by
  have lower (x : Route Addr) (member : x ∈ lo) :
      r.key = x.key ∧ x.Plain ∧ x.ifindex ≠ r.ifindex ∧ x.place < placed r k := by
    have inside := List.mem_append_left hi member
    exact ⟨key x inside,ranked.plain x inside,(before x member).2,(before x member).1⟩
  have higher (x : Route Addr) (member : x ∈ hi) : r.key = x.key ∧ x.Plain ∧ placed r k < x.place := by
    have inside := List.mem_append_right lo member
    exact ⟨key x inside,ranked.plain x inside,behind x member⟩
  cases hi with
  | nil =>
    rw [List.append_nil,merge_last plain lower]
    rfl
  | cons h hi =>
    have other := first h rfl
    have apart := (List.pairwise_append.mp ranked.apart).2.1.of_cons
    rw [merge_inside plain lower higher other apart,List.filter_cons_of_pos (by simpa using other)]
    cases lo with
    | nil =>
      cases scope : h.flags.isScoped with
      | true =>
        have which : scopesAt h [] = .none := by simp [scopesAt,scope]
        rw [which]
        refine (addScanned_here ?_ rfl).trans ?_
        · nofun
        · simp [entering,scope]
      | false =>
        have which : scopesAt h [] = .next := by simp [scopesAt,scope]
        rw [which]
        refine (addScanned_next rfl rfl h).trans ?_
        simp [entering,scope]
    | cons f lo =>
      have scope : h.flags.isScoped := ranked.tail h (by simp)
      have which : scopesAt h (f::lo) = .this := by simp [scopesAt,scope]
      rw [which]
      refine (addScanned_here ?_ rfl).trans ?_
      · nofun
      · simp [entering]

/-- The loop finds a route over the same interface that is met before the new one has its place. -/
theorem merge_same {lo hi : List (Route Addr)} (plain : r.Plain) (key : r.key = x.key) (plain' : x.Plain)
    (lower : ∀ x ∈ lo, r.key = x.key ∧ x.Plain ∧ x.ifindex ≠ r.ifindex ∧ x.place < placed r k)
    (same : x.ifindex = r.ifindex) :
    merge r k (lo ++ x :: hi) = if k < x.rank then lo ++ replacement r k x :: hi else lo ++ x :: hi := by
  have passed := scanRoutes_lower plain lower 0 none .none
  have compare := @routeCompare_same _ r x k _ key same
  rw [merge,scanRoutes_append,Scan.start,passed]
  simp only [scanRoutes,compare,Scan.note_false,lt_irrefl,if_false,if_true,Option.isSome_none,Bool.false_eq_true,
    false_and,plain.exclude,plain'.exclude,ne_eq,not_true,false_or,true_and,Nat.zero_add]
  by_cases worse : k < x.rank
  · simp [worse]
  · simp [worse]

theorem merge_merged {g : List (Route Addr)} (key : ∀ x ∈ g, r.key = x.key) (ranked : Ranked g) (plain : r.Plain) :
    Merged r k g (merge r k g) := by
  have sorted : Sorted Route.place g := ranked.ordered.imp le_of_lt
  obtain ⟨lo,hi,split,less,more⟩ := sorted.split (placed r k)
  by_cases present : ∃ x ∈ g, x.ifindex = r.ifindex ∧ x.place ≤ placed r k
  · -- the first route over the interface is met before the new one has its place
    obtain ⟨x,member,same,le⟩ := present
    obtain ⟨front,back,rfl⟩ := List.append_of_mem member
    have lower (y : Route Addr) (inside : y ∈ front) :
        r.key = y.key ∧ y.Plain ∧ y.ifindex ≠ r.ifindex ∧ y.place < placed r k := by
      have here := List.mem_append_left (x::back) inside
      have other := (List.pairwise_append.mp ranked.apart).2.2 y inside x List.mem_cons_self
      have before := (List.pairwise_append.mp ranked.ordered).2.2 y inside x List.mem_cons_self
      exact ⟨key y here,ranked.plain y here,same ▸ other,before.trans_le le⟩
    have better : ¬ k < x.rank := fun worse => absurd (placed_lt.mpr (.inl worse)) (not_lt.mpr le)
    rw [merge_same plain (key x member) (ranked.plain x member) lower same,if_neg better]
    exact .kept x member same better
  · have none : group Route.place (placed r k) g = [] := by
      apply List.eq_nil_iff_forall_not_mem.mpr
      intro x member
      obtain ⟨inside,equal⟩ := mem_group.mp member
      have indices := congrArg (fun p => (ofLex p).2) equal
      exact present ⟨x,inside,Fin.ext indices,le_of_eq equal⟩
    rw [none,List.append_nil] at split
    subst split
    have before (y : Route Addr) (member : y ∈ lo) : y.place < placed r k ∧ y.ifindex ≠ r.ifindex :=
      ⟨less y member,fun same => present ⟨y,List.mem_append_left hi member,same,(less y member).le⟩⟩
    by_cases first : ∀ y ∈ hi.head?, y.ifindex ≠ r.ifindex
    · rw [merge_entered key ranked plain before more first]
      exact .entered before more first
    · push Not at first
      obtain ⟨x,head,same⟩ := first
      obtain ⟨rest,rfl⟩ := List.head?_eq_some_iff.mp head
      have member : x ∈ lo ++ x :: rest := by simp
      have lower (y : Route Addr) (inside : y ∈ lo) :
          r.key = y.key ∧ y.Plain ∧ y.ifindex ≠ r.ifindex ∧ y.place < placed r k := by
        have here := List.mem_append_left (x::rest) inside
        exact ⟨key y here,ranked.plain y here,(before y inside).2,(before y inside).1⟩
      have worse : k < x.rank := by
        rcases placed_lt.mp (more x List.mem_cons_self) with worse | ⟨_,less⟩
        · exact worse
        · rw [same] at less
          exact absurd less (Nat.lt_irrefl _)
      rw [merge_same plain (key x member) (ranked.plain x member) lower same,if_pos worse]
      exact .replaced x same worse less

end Compare

/-! ## What stays -/

def Route.bare (r : Route Addr) : Route Addr := {r with flags := {r.flags with isScoped := false}}

@[simp] theorem Route.bare_bare (r : Route Addr) : r.bare.bare = r.bare := rfl

@[simp] theorem Route.bare_setScoped (r : Route Addr) : r.setScoped.bare = r.bare := rfl

@[simp] theorem Route.bare_key (r : Route Addr) : r.bare.key = r.key := rfl

@[simp] theorem Route.bare_place (r : Route Addr) : r.bare.place = r.place := rfl

@[simp] theorem Route.bare_ifindex (r : Route Addr) : r.bare.ifindex = r.ifindex := rfl

theorem Route.bare_plain : r.bare.Plain ↔ r.Plain := ⟨fun p => ⟨p.1,p.2⟩,fun p => ⟨p.1,p.2⟩⟩

theorem Route.eq_of_bare {r r' : Route Addr} (bare : r.bare = r'.bare) (scope : r.flags.isScoped = r'.flags.isScoped) :
    r = r' := by
  have split (r : Route Addr) : r = {r.bare with flags := {r.bare.flags with isScoped := r.flags.isScoped}} := rfl
  rw [split r,split r',bare,scope]

def entry (c : Route Addr × Rank) : Route Addr := {c.1.bare with rank := c.2}

@[simp] theorem entry_ifindex (c : Route Addr × Rank) : (entry c).ifindex = c.1.ifindex := rfl

@[simp] theorem fresh_bare (r : Route Addr) (k : Rank) (isScoped : Bool) :
    (fresh r k isScoped).bare = entry (r,k) := rfl

theorem replacement_bare (plain : r.Plain) (same : x.ifindex = r.ifindex) :
    (replacement r k x).bare = entry (r,k) := by
  have present : x.ifindex ≠ 0 := same ▸ plain.ifindex
  cases scope : x.flags.isScoped <;>
    simp only [replacement,scope,Bool.false_eq_true,if_true,if_false,if_pos present,Route.bare_setScoped] <;>
    simp only [entry,Route.bare,same,← plain.exclude]

theorem entering_bare (r : Route Addr) (k : Rank) (lo hi : List (Route Addr)) :
    (entering r k lo hi).map Route.bare = lo.map Route.bare ++ entry (r,k) :: hi.map Route.bare := by
  cases lo with
  | nil =>
    cases hi with
    | nil => rfl
    | cons h hi => cases scope : h.flags.isScoped <;> simp [entering,scope]
  | cons f lo => simp [entering]

theorem Ordered.of_bare {g h : List (Route Addr)} (ranked : Ordered h) (same : g.map Route.bare = h.map Route.bare) :
    Ordered g where
  plain x member := by
    have there : x.bare ∈ h.map Route.bare := same ▸ List.mem_map_of_mem member
    obtain ⟨y,inside,equal⟩ := List.mem_map.mp there
    exact Route.bare_plain.mp (equal ▸ Route.bare_plain.mpr (ranked.plain y inside))
  ordered := by
    have there : (h.map Route.bare).Pairwise (·.place < ·.place) := List.pairwise_map.mpr ranked.ordered
    simpa only [← same,List.pairwise_map,Route.bare_place] using there
  apart := by
    have there : (h.map Route.bare).Pairwise (·.ifindex ≠ ·.ifindex) := List.pairwise_map.mpr ranked.apart
    simpa only [← same,List.pairwise_map,Route.bare_ifindex] using there

theorem Ranked.replaced {lo hi : List (Route Addr)} (ranked : Ranked (lo ++ x :: hi)) (plain : r.Plain)
    (same : x.ifindex = r.ifindex) (worse : k < x.rank) (before : ∀ y ∈ lo, y.place < placed r k) :
    Ranked (lo ++ replacement r k x :: hi) := by
  obtain ⟨⟨plains,ordered,apart⟩,tail⟩ := ranked
  have bare := @replacement_bare _ r x k plain same
  have index : (replacement r k x).ifindex = x.ifindex := by
    have := congrArg Route.ifindex bare
    exact this.trans same.symm
  have place : (replacement r k x).place = placed r k := congrArg Route.place bare
  have ahead : placed r k < x.place := placed_lt.mpr (.inl worse)
  simp only [List.forall_mem_append,List.forall_mem_cons] at plains
  simp only [List.pairwise_append,List.pairwise_cons,List.forall_mem_cons] at ordered apart
  obtain ⟨plainLo,_,plainHi⟩ := plains
  refine ⟨⟨?_,?_,?_⟩,?_⟩
  · simp only [List.forall_mem_append,List.forall_mem_cons]
    exact ⟨plainLo,Route.bare_plain.mp (bare ▸ ⟨plain.ifindex,plain.exclude⟩),plainHi⟩
  · simp only [List.pairwise_append,List.pairwise_cons,List.forall_mem_cons,place]
    exact ⟨ordered.1,⟨fun y inside => ahead.trans (ordered.2.1.1 y inside),ordered.2.1.2⟩,
      fun y inside => ⟨before y inside,(ordered.2.2 y inside).2⟩⟩
  · simp only [List.pairwise_append,List.pairwise_cons,List.forall_mem_cons,index]
    exact apart
  · cases lo with
    | nil => exact tail
    | cons f lo =>
      simp only [List.cons_append,List.tail_cons,List.forall_mem_append,List.forall_mem_cons] at tail ⊢
      obtain ⟨tailLo,scope,tailHi⟩ := tail
      exact ⟨tailLo,by simp [replacement,scope,Route.setScoped],tailHi⟩

theorem Ordered.insert {lo hi : List (Route Addr)} (ordered : Ordered (lo ++ hi)) (plain : r.Plain)
    (before : ∀ y ∈ lo, y.place < placed r k ∧ y.ifindex ≠ r.ifindex)
    (behind : ∀ y ∈ hi, placed r k < y.place ∧ y.ifindex ≠ r.ifindex) (isScoped : Bool) :
    Ordered (lo ++ fresh r k isScoped :: hi) := by
  obtain ⟨plains,places,apart⟩ := ordered
  have place : (fresh r k isScoped).place = placed r k := rfl
  have index : (fresh r k isScoped).ifindex = r.ifindex := rfl
  rw [List.forall_mem_append] at plains
  rw [List.pairwise_append] at places apart
  refine ⟨?_,?_,?_⟩
  · simp only [List.forall_mem_append,List.forall_mem_cons]
    exact ⟨plains.1,⟨plain.ifindex,plain.exclude⟩,plains.2⟩
  · simp only [List.pairwise_append,List.pairwise_cons,List.forall_mem_cons,place]
    exact ⟨places.1,⟨fun y inside => (behind y inside).1,places.2.1⟩,
      fun y inside => ⟨(before y inside).1,places.2.2 y inside⟩⟩
  · simp only [List.pairwise_append,List.pairwise_cons,List.forall_mem_cons,index]
    exact ⟨apart.1,⟨fun y inside => (behind y inside).2.symm,apart.2.1⟩,
      fun y inside => ⟨(before y inside).2,apart.2.2 y inside⟩⟩

private theorem entering_tail {lo hi : List (Route Addr)} (tail : ∀ x ∈ (lo ++ hi).tail, x.flags.isScoped) :
    ∀ x ∈ (entering r k lo hi).tail, x.flags.isScoped := by
  cases lo with
  | nil =>
    cases hi with
    | nil => nofun
    | cons h hi =>
      rw [List.nil_append,List.tail_cons] at tail
      cases scope : h.flags.isScoped <;>
        simpa [entering,scope,Route.setScoped] using tail
  | cons f lo =>
    simp only [entering,List.cons_append,List.tail_cons,List.forall_mem_append,List.forall_mem_cons] at tail ⊢
    exact ⟨tail.1,by simp [fresh],tail.2⟩

/-- Adding an ordinary route keeps a group in order. -/
theorem Merged.ranked {g g' : List (Route Addr)} (merged : Merged r k g g') (ranked : Ranked g) (plain : r.Plain) :
    Ranked g' := by
  cases merged with
  | kept x member same better => exact ranked
  | replaced x same worse before => exact ranked.replaced plain same worse before
  | @entered lo hi before behind first =>
    have less : (lo ++ hi.filter (·.ifindex ≠ r.ifindex)).Sublist (lo ++ hi) := List.filter_sublist.append_left lo
    have others (y : Route Addr) (member : y ∈ hi.filter (·.ifindex ≠ r.ifindex)) :
        placed r k < y.place ∧ y.ifindex ≠ r.ifindex := by
      obtain ⟨inside,other⟩ := List.mem_filter.mp member
      exact ⟨behind y inside,by simpa using other⟩
    have kept : Ordered (lo ++ hi.filter (·.ifindex ≠ r.ifindex)) :=
      ⟨fun x member => ranked.plain x (less.subset member),ranked.ordered.sublist less,ranked.apart.sublist less⟩
    have bare := entering_bare r k lo (hi.filter (·.ifindex ≠ r.ifindex))
    have inserted := kept.insert plain before others false
    refine ⟨inserted.of_bare ?_,entering_tail fun x member => ranked.tail x (less.tail.subset member)⟩
    rw [bare,List.map_append,List.map_cons,fresh_bare]

end FreebsdLaunchd.IpMonitor
