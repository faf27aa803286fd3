import FreebsdLaunchd.IpMonitor.Routes
import FreebsdLaunchd.Library.Grouped
import Mathlib.Data.List.InsertIdx
import Mathlib.Data.Prod.Lex

/-! A combined list is sorted by destination and prefix length, and adding a
route concerns the routes to its own destination only. -/
namespace FreebsdLaunchd.IpMonitor
open Grouped

variable {Addr : Type}

def Route.key (r : Route Addr) : Addr ×ₗ Nat := toLex (r.dest,r.prefixLength)

@[simp] theorem Route.key_setScoped (r : Route Addr) : r.setScoped.key = r.key := rfl

theorem Route.key_eq {r r' : Route Addr} : r.key = r'.key ↔ r.dest = r'.dest ∧ r.prefixLength = r'.prefixLength := by
  simp [Route.key]

variable {r x : Route Addr} {k : Rank} {s : Scan Addr} {front g back : List (Route Addr)} {i n : Nat}

/-! ## What the loop knows -/

@[simp] theorem Scan.note_false (s : Scan Addr) (x : Route Addr) : s.note false x = s := rfl

@[simp] theorem Scan.after_false (s : Scan Addr) : s.after false = s := rfl

def Scan.shift (n : Nat) (s : Scan Addr) : Scan Addr := {s with position := s.position.map (n+·)}

theorem Scan.shift_note (sameDest : Bool) : (s.shift n).note sameDest x = (s.note sameDest x).shift n := by
  unfold Scan.note Scan.shift
  split <;> rfl

theorem Scan.shift_after (sameDest : Bool) : (s.shift n).after sameDest = (s.after sameDest).shift n := by
  unfold Scan.after Scan.shift
  split <;> rfl

theorem Scan.shift_before (sameDest : Bool) :
    (s.shift n).before sameDest (n+i) x = (s.before sameDest i x).shift n := by
  obtain ⟨first,which,position⟩ := s
  cases position <;> rfl

/-- The positions that the loop remembers are before the `n`-th. -/
structure Scan.Inside (s : Scan Addr) (n : Nat) : Prop where
  position : ∀ p ∈ s.position, p < n
  next : s.scopeWhich = .next → s.position.isSome

theorem Scan.Inside.note (inside : s.Inside i) (sameDest : Bool) : (s.note sameDest x).Inside i := by
  unfold Scan.note
  split
  · exact ⟨inside.position,inside.next⟩
  · exact inside

theorem Scan.Inside.before (inside : s.Inside i) (sameDest : Bool) : (s.before sameDest i x).Inside (i+1) := by
  unfold Scan.before
  split
  · exact ⟨fun p known => Nat.lt_succ_of_lt (inside.position p known),inside.next⟩
  · refine ⟨?_,fun _ => rfl⟩
    rintro p known
    obtain rfl := Option.some.inj known
    exact Nat.lt_succ_self i

theorem Scan.Inside.after (inside : s.Inside i) (sameDest : Bool) : (s.after sameDest).Inside (i+1) := by
  have position (p : Nat) (known : p ∈ s.position) : p < i+1 := Nat.lt_succ_of_lt (inside.position p known)
  unfold Scan.after
  split
  · exact ⟨position,nofun⟩
  · exact ⟨position,inside.next⟩

def ScanEnd.Inside (n : Nat) : ScanEnd Addr → Prop
  | .keep => True
  | .replace i _ => i < n
  | .add none s => s.Inside n
  | .add (some i) s => i < n ∧ s.position.isSome ∧ s.Inside i

variable [LinearOrder Addr]

/-! ## Comparing -/

private theorem routeCompare_less (k k' : Rank) (less : r.key < x.key) :
    ∃ cmp, cmp < 0 ∧ routeCompare r k x k' = (cmp,false) := by
  rcases Prod.Lex.toLex_lt_toLex.mp less with dest | ⟨dest,prefixes⟩
  · exact ⟨-1,by decide,by simp [routeCompare,routeAddressCompare,show r.dest < x.dest from dest]⟩
  · have dest : r.dest = x.dest := dest
    have prefixes : r.prefixLength < x.prefixLength := prefixes
    have other : (r.prefixLength : Int) - x.prefixLength ≠ 0 := by omega
    exact ⟨r.prefixLength - x.prefixLength,by omega,by simp [routeCompare,routeAddressCompare,dest,other]⟩

private theorem routeCompare_more (k k' : Rank) (more : x.key < r.key) :
    ∃ cmp, 0 < cmp ∧ routeCompare r k x k' = (cmp,false) := by
  rcases Prod.Lex.toLex_lt_toLex.mp more with dest | ⟨dest,prefixes⟩
  · have dest : x.dest < r.dest := dest
    exact ⟨1,by decide,by simp [routeCompare,routeAddressCompare,not_lt.mpr dest.le,dest.ne']⟩
  · have dest : x.dest = r.dest := dest
    have prefixes : x.prefixLength < r.prefixLength := prefixes
    have other : (r.prefixLength : Int) - x.prefixLength ≠ 0 := by omega
    exact ⟨r.prefixLength - x.prefixLength,by omega,by simp [routeCompare,routeAddressCompare,dest,other]⟩

/-! ## The loop -/

/-- The combined list after a route has been added, its memory aside. -/
def merge (r : Route Addr) (k : Rank) (list : List (Route Addr)) : List (Route Addr) :=
  match scanRoutes r k list 0 .start with
  | .keep => list
  | .replace i r => list.set i r
  | .add duplicate s => addScanned r k s (duplicate.elim list list.eraseIdx)

theorem scanRoutes_append (r : Route Addr) (k : Rank) (l rest : List (Route Addr)) (i : Nat) (s : Scan Addr) :
    scanRoutes r k (l ++ rest) i s =
      match scanRoutes r k l i s with
      | .add none s => scanRoutes r k rest (i+l.length) s
      | ended => ended := by
  induction l generalizing i s with
  | nil => rfl
  | cons x l ih =>
    rw [List.cons_append,scanRoutes,scanRoutes,List.length_cons]
    simp only [ih,Nat.add_right_comm i 1,Nat.add_assoc]
    split
    · rfl
    · split
      · split
        · rfl
        · split <;> rfl
      · rfl

/-- Routes to earlier destinations are passed over. -/
theorem scanRoutes_front (less : ∀ x ∈ front, x.key < r.key) : scanRoutes r k front i s = .add none s := by
  induction front generalizing i with
  | nil => rfl
  | cons x front ih =>
    rw [List.forall_mem_cons] at less
    obtain ⟨cmp,positive,compare⟩ := routeCompare_more k x.rank less.1
    have forth : ¬ cmp < 0 := by omega
    have other : cmp ≠ 0 := by omega
    simp only [scanRoutes,compare,Scan.note_false,Scan.after_false,if_neg forth,if_neg other]
    exact ih less.2

/-- The first route to a later destination is where the new one goes at the latest. -/
theorem scanRoutes_back (more : ∀ x ∈ back, r.key < x.key) :
    scanRoutes r k back i s =
      .add none (if back = [] then s else {s with position := some (s.position.getD i)}) := by
  induction back generalizing i s with
  | nil => rfl
  | cons x back ih =>
    rw [List.forall_mem_cons] at more
    obtain ⟨cmp,negative,compare⟩ := routeCompare_less k x.rank more.1
    have known : s.before false i x = {s with position := some (s.position.getD i)} := by
      obtain ⟨first,which,position⟩ := s
      cases position <;> rfl
    simp only [scanRoutes,compare,Scan.note_false,if_pos negative,ih more.2,known,List.cons_ne_nil,if_false,
      Option.getD_some]
    simp

/-- What the end of the loop is where other routes stand before. -/
def ScanEnd.shift (n : Nat) : ScanEnd Addr → ScanEnd Addr
  | .keep => .keep
  | .replace i r => .replace (n+i) r
  | .add duplicate s => .add (duplicate.map (n+·)) (s.shift n)

private theorem scanRoutes_shift (r : Route Addr) (k : Rank) (g : List (Route Addr)) (n i : Nat) (s : Scan Addr) :
    scanRoutes r k g (n+i) (s.shift n) = (scanRoutes r k g i s).shift n := by
  induction g generalizing i s with
  | nil => rfl
  | cons x g ih =>
    have some : (((s.note (routeCompare r k x x.rank).2 x).shift n).position.isSome : Prop) ↔
        (s.note (routeCompare r k x x.rank).2 x).position.isSome := by
      simp [Scan.shift]
    simp only [scanRoutes,Scan.shift_note,Scan.shift_before,Scan.shift_after,Nat.add_assoc,ih,some]
    split
    · rfl
    · split
      · split
        · rfl
        · split <;> rfl
      · rfl

private theorem scanRoutes_inside (r : Route Addr) (k : Rank) (g : List (Route Addr)) {i : Nat} {s : Scan Addr}
    (inside : s.Inside i) : (scanRoutes r k g i s).Inside (i+g.length) := by
  induction g generalizing i s with
  | nil => exact inside
  | cons x g ih =>
    have noted := @Scan.Inside.note _ x s i inside (routeCompare r k x x.rank).2
    simp only [scanRoutes,List.length_cons,← Nat.add_right_comm i 1,← Nat.add_assoc] at ih ⊢
    split
    · exact ih (noted.before _)
    · split
      · split
        · next duplicate => exact ⟨by omega,duplicate.1,noted⟩
        · split
          · exact show i < _ by omega
          · trivial
      · exact ih (noted.after _)

/-! ## One group at a time -/

omit [LinearOrder Addr] in
private theorem addScanned_between {s' : Scan Addr} (inside : s.Inside g.length) (which : s'.scopeWhich = s.scopeWhich)
    (index : s'.position.getD (front ++ g ++ back).length = front.length + s.position.getD g.length)
    (next : s.scopeWhich = .next → s'.position = s.position.map (front.length + ·)) :
    addScanned r k s' (front ++ g ++ back) = front ++ addScanned r k s g ++ back := by
  have bound : s.position.getD g.length ≤ g.length := by
    cases known : s.position with
    | none => exact le_refl _
    | some p => exact Nat.le_of_lt (inside.position p known)
  have inserted (x : Route Addr) : (front ++ g ++ back).insertIdx (s'.position.getD (front ++ g ++ back).length) x =
      front ++ g.insertIdx (s.position.getD g.length) x ++ back := by
    rw [index,List.append_assoc,insertIdx_append_right,insertIdx_append_left bound,List.append_assoc]
  have modified {h : List (Route Addr)} {t : Nat} (within : t < h.length) :
      (front ++ h ++ back).modify (front.length+t) Route.setScoped = front ++ h.modify t Route.setScoped ++ back := by
    rw [List.append_assoc,modify_append_right,modify_append_left within,List.append_assoc]
  have longer (x : Route Addr) : (g.insertIdx (s.position.getD g.length) x).length = g.length+1 :=
    List.length_insertIdx_of_le_length bound x
  simp only [addScanned,inserted,which]
  split
  · by_cases ahead : s.scopeWhich = .next
    · obtain ⟨p,known⟩ := Option.isSome_iff_exists.mp (inside.next ahead)
      have place := next ahead
      rw [known,Option.map_some] at place
      have within := inside.position p known
      have within : p+1 < (g.insertIdx (s.position.getD g.length) {r with rank := k}).length := by
        rw [longer]
        omega
      simp only [if_pos ahead,place,known,Option.elim_some,Nat.add_assoc] at within ⊢
      exact modified within
    · simp only [if_neg ahead,index]
      exact modified (by rw [longer]; omega)
  · rfl

/-- Adding a route changes the routes to its destination, as if there were no others. -/
theorem merge_between (less : ∀ x ∈ front, x.key < r.key) (more : ∀ x ∈ back, r.key < x.key) :
    merge r k (front ++ g ++ back) = front ++ merge r k g ++ back := by
  have inside := scanRoutes_inside r k g (i := 0) (s := .start) ⟨nofun,nofun⟩
  have shifted := scanRoutes_shift r k g front.length 0 .start
  have same : scanRoutes r k (front ++ g ++ back) 0 .start =
      match scanRoutes r k g (front.length+0) (Scan.start.shift front.length) with
      | .add none s => scanRoutes r k back (front.length+g.length) s
      | ended => ended := by
    rw [List.append_assoc,scanRoutes_append,scanRoutes_front less]
    simp only [scanRoutes_append,Nat.zero_add,Nat.add_zero]
    rfl
  rw [Nat.zero_add] at inside
  rw [merge,merge,same,shifted]
  cases ended : scanRoutes r k g 0 .start with
  | keep => rfl
  | replace i x =>
    rw [ended] at inside
    have within : i < g.length := inside
    simp only [ScanEnd.shift]
    rw [List.append_assoc,List.set_append_right _ _ (by omega),Nat.add_sub_cancel_left,
      List.set_append_left _ _ within,List.append_assoc]
  | add duplicate s =>
    rw [ended] at inside
    cases duplicate with
    | none =>
      have within : s.Inside g.length := inside
      simp only [ScanEnd.shift,Option.map_none,scanRoutes_back more,Option.elim_none]
      by_cases last : back = []
      · subst last
        rw [if_pos rfl]
        refine addScanned_between within ?_ ?_ ?_
        · rfl
        · cases known : s.position <;> simp [Scan.shift,known]
        · exact fun _ => rfl
      · rw [if_neg last]
        refine addScanned_between within ?_ ?_ ?_
        · rfl
        · cases known : s.position <;> simp [Scan.shift,known]
        · intro next
          obtain ⟨p,known⟩ := Option.isSome_iff_exists.mp (within.next next)
          simp [Scan.shift,known]
    | some i =>
      obtain ⟨before,positioned,within⟩ := inside
      have before : i < g.length := before
      have shorter : (g.eraseIdx i).length = g.length-1 := List.length_eraseIdx_of_lt before
      have erased : (front ++ g ++ back).eraseIdx (front.length+i) = front ++ g.eraseIdx i ++ back := by
        rw [List.append_assoc,List.eraseIdx_append_of_length_le (by omega),Nat.add_sub_cancel_left,
          List.eraseIdx_append_of_lt_length before,List.append_assoc]
      obtain ⟨p,known⟩ := Option.isSome_iff_exists.mp positioned
      have bound := within.position p known
      simp only [ScanEnd.shift,Option.map_some,Option.elim_some,erased]
      refine addScanned_between ⟨?_,within.next⟩ ?_ ?_ ?_
      · intro p known
        have := within.position p known
        omega
      · rfl
      · simp [Scan.shift,known]
      · exact fun _ => rfl

omit [LinearOrder Addr] in
private theorem replacement_key : (replacement r k x).key = r.key := by
  cases taken : x.flags.isScoped <;> simp [replacement,taken,Route.key,Route.setScoped]

private theorem scanRoutes_replace {j : Nat} (ended : scanRoutes r k g i s = .replace j x) :
    ∃ scan, x = replacement r k scan := by
  induction g generalizing i s with
  | nil => cases ended
  | cons y g ih =>
    rw [scanRoutes] at ended
    simp only at ended
    split at ended
    · exact ih ended
    · split at ended
      · split at ended
        · cases ended
        · split at ended
          · obtain ⟨_,rfl⟩ := ScanEnd.replace.inj ended
            exact ⟨y,rfl⟩
          · cases ended
      · exact ih ended

section All
variable {P : Route Addr → Prop}

omit [LinearOrder Addr] in
private theorem addScanned_all (marked : ∀ x, P x → P x.setScoped) (all : ∀ x ∈ g, P x) (new : P {r with rank := k}) :
    ∀ x ∈ addScanned r k s g, P x := by
  have inserted (x : Route Addr) (member : x ∈ g.insertIdx (s.position.getD g.length) {r with rank := k}) : P x := by
    rcases List.eq_or_mem_of_mem_insertIdx member with rfl | old
    · exact new
    · exact all x old
  intro x member
  simp only [addScanned] at member
  split at member
  · obtain ⟨j,known⟩ := List.mem_iff_getElem?.mp member
    rw [List.getElem?_modify] at known
    obtain ⟨y,old,rfl⟩ := Option.map_eq_some_iff.mp known
    have before := inserted y (List.mem_of_getElem? old)
    rw [apply_ite P]
    exact ite_prop_iff_and.mpr ⟨fun _ => marked y before,fun _ => before⟩
  · exact inserted x member

/-- What holds of the routes of a list and of the new one in any place holds of all of them afterwards. -/
theorem merge_all (marked : ∀ x, P x → P x.setScoped) (all : ∀ x ∈ g, P x) (new : P {r with rank := k})
    (replaces : ∀ scan, P (replacement r k scan)) : ∀ x ∈ merge r k g, P x := by
  intro x member
  rw [merge] at member
  cases ended : scanRoutes r k g 0 .start with
  | keep =>
    rw [ended] at member
    exact all x member
  | replace i y =>
    rw [ended] at member
    rcases List.mem_or_eq_of_mem_set member with old | rfl
    · exact all x old
    · obtain ⟨scan,rfl⟩ := scanRoutes_replace ended
      exact replaces scan
  | add duplicate s =>
    rw [ended] at member
    apply addScanned_all marked (fun y old => ?_) new x member
    cases duplicate with
    | none => exact all y old
    | some i => exact all y (List.mem_of_mem_eraseIdx old)

end All

theorem merge_key (same : ∀ x ∈ g, x.key = r.key) : ∀ x ∈ merge r k g, x.key = r.key :=
  merge_all (P := fun x => x.key = r.key) (fun x kept => (Route.key_setScoped x).trans kept) same rfl
    fun _ => replacement_key

/-- A combined list stays sorted, and only the routes to the destination change. -/
theorem merge_spec {list : List (Route Addr)} (sorted : Sorted Route.key list) (r : Route Addr) (k : Rank) :
    Sorted Route.key (merge r k list) ∧
      group Route.key r.key (merge r k list) = merge r k (group Route.key r.key list) ∧
      ∀ c, c ≠ r.key → group Route.key c (merge r k list) = group Route.key c list := by
  obtain ⟨front,back,split,less,more⟩ := sorted.split r.key
  have here (x : Route Addr) (member : x ∈ group Route.key r.key list) : x.key = r.key := (mem_group.mp member).2
  have there := merge_key (k := k) here
  have merged : merge r k list = front ++ merge r k (group Route.key r.key list) ++ back := by
    conv_lhs => rw [split]
    exact merge_between less more
  rw [merged]
  refine ⟨?_,group_replace less there more,?_⟩
  · rw [split] at sorted
    exact sorted.replace less more there
  · intro c other
    rw [group_other here there other,← split]

end FreebsdLaunchd.IpMonitor
