import Mathlib.Data.List.Induction
import Mathlib.Logic.Relation
import Mathlib.Logic.Function.Basic

/-! Items that each lean on at most one other item and are brought up one after
another: an item goes up after the one it leans on, which is visited first, up
to a number of links. What has been visited is not visited again, whether it
came up or not. -/
namespace Chains

variable {α : Type} [DecidableEq α]

/-- An item that has been visited is up or not. -/
abbrev Marks (α : Type) := α → Option Bool

def mark (m : Marks α) (a : α) (up : Bool) : Marks α := Function.update m a (some up)

@[simp] theorem mark_same (m : Marks α) (a : α) (up : Bool) : mark m a up a = some up :=
  Function.update_self ..

theorem mark_other {m : Marks α} {a x : α} {up : Bool} (other : x ≠ a) : mark m a up x = m x :=
  Function.update_of_ne other ..

theorem mark_none {m : Marks α} {a x : α} {up : Bool} : mark m a up x = none ↔ x ≠ a ∧ m x = none := by
  by_cases same : x = a
  · simp [same]
  · simp [same,mark_other same]

variable (next : α → Option α) (able : α → Bool)

def visit (left : Nat) (a : α) (m : Marks α) : Marks α :=
  if (m a).isSome then m
  else
    match next a with
    | none => mark (mark m a false) a (able a)
    | some b =>
      match left with
      | 0 => mark m a false
      | left+1 =>
        let visited := visit left b (mark m a false)
        if visited b = some true then mark visited a (able a) else visited

def visitAll (limit : Nat) (order : List α) (m : Marks α) : Marks α :=
  order.foldl (fun m a => visit next able limit a m) m

/-- From `a` it is `n` links to an item that is up or leans on nothing. -/
inductive Ends (m : Marks α) : Nat → α → Prop
  | up {a : α} (up : m a = some true) : Ends m 0 a
  | free {a : α} (fresh : m a = none) (last : next a = none) : Ends m 0 a
  | link {n : Nat} {a b : α} (fresh : m a = none) (leans : next a = some b) (ends : Ends m n b) : Ends m (n+1) a

def Rises (m : Marks α) (a : α) : Prop := ∃ n, Ends next m n a

/-- `x` is on the way from `a` along items that have not been visited. -/
def Leads (m : Marks α) : α → α → Prop := Relation.ReflTransGen fun a b => m a = none ∧ next a = some b

def along (n : Nat) (a : α) : Option α :=
  match n with
  | 0 => some a
  | n+1 => (next a).bind (along n)

variable {next able} {m : Marks α} {a b x : α} {n k left : Nat}

omit [DecidableEq α] in
theorem Ends.unique (ends : Ends next m n a) (ends' : Ends next m k a) : n = k := by
  induction ends generalizing k with
  | up up =>
    cases ends' with
    | up _ => rfl
    | free fresh _ => simp [up] at fresh
    | link fresh _ _ => simp [up] at fresh
  | free fresh last =>
    cases ends' with
    | up up => simp [up] at fresh
    | free _ _ => rfl
    | link _ leans _ => simp [last] at leans
  | link fresh leans _ ih =>
    cases ends' with
    | up up => simp [up] at fresh
    | free _ last => simp [last] at leans
    | link _ leans' ends' =>
      obtain rfl := Option.some.inj (leans.symm.trans leans')
      rw [ih ends']

omit [DecidableEq α] in
theorem Ends.onward (ends : Ends next m n a) (leads : Leads next m a x) : ∃ k ≤ n, Ends next m k x := by
  induction leads with
  | refl => exact ⟨n,Nat.le_refl n,ends⟩
  | tail _ step ih =>
    obtain ⟨k,bound,ends'⟩ := ih
    cases ends' with
    | up up => simp [up] at step
    | free _ last => simp [last] at step
    | link _ leans ends' =>
      obtain rfl := Option.some.inj (leans.symm.trans step.2)
      exact ⟨_,by omega,ends'⟩

omit [DecidableEq α] in
theorem Rises.onward (rises : Rises next m a) (leads : Leads next m a x) : Rises next m x :=
  rises.elim fun _ ends => (ends.onward leads).imp fun _ found => found.2

omit [DecidableEq α] in
theorem Rises.back (rises : Rises next m x) (leads : Leads next m a x) : Rises next m a := by
  induction leads using Relation.ReflTransGen.head_induction_on with
  | refl => exact rises
  | head step _ ih =>
    obtain ⟨n,ends⟩ := ih
    exact ⟨n+1,.link step.1 step.2 ends⟩

omit [DecidableEq α] in
theorem Ends.not_back (ends : Ends next m n b) (fresh : m a = none) (leans : next a = some b) :
    ¬ Leads next m b a := by
  intro leads
  obtain ⟨k,bound,ends'⟩ := ends.onward leads
  have := ends'.unique (.link fresh leans ends)
  omega

omit [DecidableEq α] in
theorem leads_next (other : x ≠ a) (fresh : m a = none) (leans : next a = some b) :
    Leads next m a x ↔ Leads next m b x := by
  constructor
  · intro leads
    rcases Relation.ReflTransGen.cases_head leads with same | ⟨c,step,rest⟩
    · exact absurd same.symm other
    · obtain rfl := Option.some.inj (leans.symm.trans step.2)
      exact rest
  · exact fun leads => .head ⟨fresh,leans⟩ leads

theorem leads_mark (apart : ¬ Leads next m b a) (up : Bool) :
    Leads next (mark m a up) b x ↔ Leads next m b x := by
  constructor
  · exact Relation.ReflTransGen.mono (fun _ _ step => ⟨(mark_none.mp step.1).2,step.2⟩) b x
  · intro leads
    induction leads with
    | refl => exact .refl
    | tail before step ih =>
      refine ih.tail ⟨mark_none.mpr ⟨?_,step.1⟩,step.2⟩
      rintro rfl
      exact apart before

/-- An item on no chain from `b` may be marked without a change to that chain. -/
theorem Ends.mark (ends : Ends next m n b) (apart : ¬ Leads next m b a) (up : Bool) :
    Ends next (mark m a up) n b := by
  have other : b ≠ a := by
    rintro rfl
    exact apart .refl
  induction ends with
  | up up' => exact .up ((mark_other other).trans up')
  | free fresh last => exact .free ((mark_other other).trans fresh) last
  | link fresh leans _ ih =>
    have apart' : ¬ Leads next m _ a := fun leads => apart (.head ⟨fresh,leans⟩ leads)
    refine .link ((mark_other other).trans fresh) leans (ih apart' ?_)
    rintro rfl
    exact apart' .refl

theorem Ends.of_mark (fresh : m a = none) (ends : Ends next (Chains.mark m a false) n b) : Ends next m n b := by
  induction ends with
  | @up c up =>
    have other : c ≠ a := by
      rintro rfl
      simp at up
    exact .up ((mark_other other).symm.trans up)
  | free fresh' last => exact .free (mark_none.mp fresh').2 last
  | link fresh' leans _ ih => exact .link (mark_none.mp fresh').2 leans ih

/-! ## One visit -/

theorem visit_visited (visited : m a ≠ none) (left : Nat) : visit next able left a m = m := by
  have known := Option.isSome_iff_ne_none.mpr visited
  cases left <;> simp [visit,known]

theorem visit_last (fresh : m a = none) (last : next a = none) (left : Nat) :
    visit next able left a m = mark (mark m a false) a (able a) := by
  rw [visit]
  simp [fresh,last]

theorem visit_link (fresh : m a = none) (leans : next a = some b) (left : Nat) :
    visit next able (left+1) a m =
      if visit next able left b (mark m a false) b = some true then
        mark (visit next able left b (mark m a false)) a (able a)
      else visit next able left b (mark m a false) := by
  rw [visit]
  simp only [fresh,leans,Option.isSome_none,Bool.false_eq_true,if_false]

theorem visit_kept {up : Bool} (visited : m x = some up) (left : Nat) (a : α) :
    visit next able left a m x = some up := by
  have other {a : α} {m : Marks α} (visited : m x = some up) (fresh : ¬ (m a).isSome) : x ≠ a := by
    rintro rfl
    simp [visited] at fresh
  fun_induction visit next able left a m with
  | case1 => exact visited
  | case2 _ _ _ fresh => rw [mark_other (other visited fresh),mark_other (other visited fresh),visited]
  | case3 _ _ fresh => rw [mark_other (other visited fresh),visited]
  | case4 _ _ fresh _ _ _ _ _ ih =>
    rw [mark_other (other visited fresh)]
    exact ih ((mark_other (other visited fresh)).trans visited)
  | case5 _ _ fresh _ _ _ _ _ ih => exact ih ((mark_other (other visited fresh)).trans visited)

/-- What a visit leaves where the chain of `a` ends in time: all that it passes is up. -/
structure Brought (next : α → Option α) (able : α → Bool) (m : Marks α) (a : α) (after : Marks α) : Prop where
  passed : ∀ x, m x = none → Leads next m a x → after x = some (able x)
  others : ∀ x, ¬ (m x = none ∧ Leads next m a x) → after x = m x

omit [DecidableEq α] in
theorem brought_visited (visited : m a ≠ none) : Brought next able m a m := by
  refine ⟨fun x fresh leads => ?_,fun _ _ => rfl⟩
  rcases Relation.ReflTransGen.cases_head leads with rfl | ⟨c,step,_⟩
  · exact absurd fresh visited
  · exact absurd step.1 visited

theorem brought_last (fresh : m a = none) (last : next a = none) :
    Brought next able m a (mark (mark m a false) a (able a)) := by
  refine ⟨fun x _ leads => ?_,fun x apart => ?_⟩
  · rcases Relation.ReflTransGen.cases_head leads with rfl | ⟨c,step,_⟩
    · exact mark_same ..
    · simp [last] at step
  · have other : x ≠ a := by
      rintro rfl
      exact apart ⟨fresh,.refl⟩
    rw [mark_other other,mark_other other]

theorem brought_link (fresh : m a = none) (leans : next a = some b) (apart : ¬ Leads next m b a) {after : Marks α}
    (brought : Brought next able (mark m a false) b after) : Brought next able m a (mark after a (able a)) := by
  constructor
  · intro x fresh' leads
    by_cases same : x = a
    · rw [same,mark_same]
    · rw [mark_other same]
      exact brought.passed x (mark_none.mpr ⟨same,fresh'⟩)
        ((leads_mark apart false).mpr ((leads_next same fresh leans).mp leads))
  · intro x outside
    have other : x ≠ a := by
      rintro rfl
      exact outside ⟨fresh,.refl⟩
    rw [mark_other other,brought.others x,mark_other other]
    rintro ⟨fresh',leads⟩
    exact outside ⟨(mark_none.mp fresh').2,
      (leads_next other fresh leans).mpr ((leads_mark apart false).mp leads)⟩

omit [DecidableEq α] in
theorem Brought.up {after : Marks α} (brought : Brought next able m b after) (ables : able b)
    (ends : Ends next m n b) : after b = some true := by
  by_cases fresh : m b = none
  · rw [brought.passed b fresh .refl,ables]
  · rw [brought.others b fun inside => fresh inside.1]
    cases ends with
    | up up => exact up
    | free fresh' _ => exact absurd fresh' fresh
    | link fresh' _ _ => exact absurd fresh' fresh

theorem visit_brought (ables : ∀ a b, next a = some b → able b) (ends : Ends next m n a) (bound : n ≤ left) :
    Brought next able m a (visit next able left a m) := by
  fun_induction visit next able left a m generalizing n with
  | case1 left a m visited => exact brought_visited (Option.isSome_iff_ne_none.mp visited)
  | case2 left a m fresh last => exact brought_last (Option.not_isSome_iff_eq_none.mp fresh) last
  | case3 a m fresh b leans =>
    cases ends with
    | up up => simp [up] at fresh
    | free _ last => simp [last] at leans
    | link _ _ _ => omega
  | case4 a m fresh b leans left visited up =>
    rename_i ih
    cases ends with
    | up up => simp [up] at fresh
    | free _ last => simp [last] at leans
    | link fresh leans' ends =>
      obtain rfl := Option.some.inj (leans.symm.trans leans')
      have apart := ends.not_back fresh leans
      exact brought_link fresh leans apart (ih (ends.mark apart false) (by omega))
  | case5 a m fresh b leans left visited down =>
    rename_i ih
    cases ends with
    | up up => simp [up] at fresh
    | free _ last => simp [last] at leans
    | link fresh leans' ends =>
      obtain rfl := Option.some.inj (leans.symm.trans leans')
      have marked := ends.mark (ends.not_back fresh leans) false
      exact absurd ((ih marked (by omega)).up (ables _ _ leans) marked) down

/-- What a visit leaves where the chain of `a` does not end in time: all that it passes stays down. -/
structure Stalled (next : α → Option α) (m : Marks α) (a : α) (after : Marks α) : Prop where
  down : m a = none → after a = some false
  passed : ∀ x, after x = m x ∨ m x = none ∧ after x = some false ∧ Leads next m a x

omit [DecidableEq α] in
theorem Stalled.not_up {after : Marks α} (stalled : Stalled next m b after) (down : m b ≠ some true) :
    after b ≠ some true := by
  rcases stalled.passed b with same | ⟨_,marked,_⟩
  · rwa [same]
  · simp [marked]

theorem stalled_link (fresh : m a = none) (leans : next a = some b) {after : Marks α}
    (stalled : Stalled next (mark m a false) b after) : Stalled next m a after := by
  have marked : after a = some false := by
    rcases stalled.passed a with same | ⟨fresh',_⟩
    · rw [same,mark_same]
    · simp at fresh'
  refine ⟨fun _ => marked,fun x => ?_⟩
  by_cases same : x = a
  · subst same
    exact .inr ⟨fresh,marked,.refl⟩
  · rcases stalled.passed x with kept | ⟨fresh',down,leads⟩
    · exact .inl (by rw [kept,mark_other same])
    · refine .inr ⟨(mark_none.mp fresh').2,down,.head ⟨fresh,leans⟩ ?_⟩
      exact Relation.ReflTransGen.mono (fun _ _ step => ⟨(mark_none.mp step.1).2,step.2⟩) b x leads

theorem visit_stalled (short : ∀ n ≤ left, ¬ Ends next m n a) : Stalled next m a (visit next able left a m) := by
  fun_induction visit next able left a m with
  | case1 left a m visited =>
    exact ⟨fun fresh => by simp [fresh] at visited,fun _ => .inl rfl⟩
  | case2 left a m fresh last =>
    exact absurd (.free (Option.not_isSome_iff_eq_none.mp fresh) last) (short 0 (Nat.zero_le _))
  | case3 a m fresh b leans =>
    have fresh := Option.not_isSome_iff_eq_none.mp fresh
    refine ⟨fun _ => mark_same ..,fun x => ?_⟩
    by_cases same : x = a
    · subst same
      exact .inr ⟨fresh,mark_same ..,.refl⟩
    · exact .inl (mark_other same)
  | case4 a m fresh b leans left visited up =>
    rename_i ih
    have fresh := Option.not_isSome_iff_eq_none.mp fresh
    have short' (n : Nat) (bound : n ≤ left) : ¬ Ends next (mark m a false) n b :=
      fun ends => short (n+1) (by omega) (.link fresh leans (ends.of_mark fresh))
    exact absurd up ((ih short').not_up fun up => short' 0 (Nat.zero_le _) (.up up))
  | case5 a m fresh b leans left visited down =>
    rename_i ih
    have fresh := Option.not_isSome_iff_eq_none.mp fresh
    exact stalled_link fresh leans (ih fun n bound ends =>
      short (n+1) (by omega) (.link fresh leans (ends.of_mark fresh)))

/-! ## Visits in turn -/

/-- From `a` it is at most `limit` links to an item that was visited at the
start, that leans on nothing, or that an item of `before` leads to. -/
def Near (next : α → Option α) (limit : Nat) (m : Marks α) (before : List α) (a : α) : Prop :=
  ∃ n ≤ limit, ∃ x, along next n a = some x ∧ (m x ≠ none ∨ next x = none ∨ ∃ b ∈ before, Leads next m b x)

/-- No chain that ends is left because it is too long. -/
def AllNear (next : α → Option α) (limit : Nat) (m : Marks α) (order : List α) : Prop :=
  ∀ before a after, order = before ++ a :: after → m a = none → Rises next m a → Near next limit m before a

/-- How things stand when the items of `before` have been visited, from `start` on. -/
structure Visited (next : α → Option α) (able : α → Bool) (start : Marks α) (before : List α) (m : Marks α) : Prop where
  kept : ∀ x up, start x = some up → m x = some up
  risen : ∀ x, start x = none → Rises next start x → (∃ a ∈ before, Leads next start a x) → m x = some (able x)
  later : ∀ x, start x = none → Rises next start x → (¬ ∃ a ∈ before, Leads next start a x) → m x = none
  fallen : ∀ x, start x = none → ¬ Rises next start x → m x ≠ some true
  seen : ∀ a ∈ before, m a ≠ none

omit [DecidableEq α] in
theorem visited_start {start : Marks α} : Visited next able start [] start where
  kept _ _ up := up
  risen _ _ _ led := by simp at led
  later _ fresh _ _ := fresh
  fallen _ fresh _ := by simp [fresh]
  seen _ member := by simp at member

section Turns
variable {start : Marks α} {before : List α}

omit [DecidableEq α] in
theorem Visited.fresh (visited : Visited next able start before m) (fresh : m x = none) : start x = none := by
  cases up : start x with
  | none => rfl
  | some up' => simp [visited.kept x up' up] at fresh

omit [DecidableEq α] in
/-- What is up now, or will be, would have come up from the start. -/
theorem Visited.rises (visited : Visited next able start before m) (ends : Ends next m n a) : Rises next start a := by
  induction ends with
  | @up a up =>
    cases fresh : start a with
    | some up' =>
      have same := (visited.kept a up' fresh).symm.trans up
      exact ⟨0,.up (fresh.trans same)⟩
    | none =>
      by_contra fallen
      exact visited.fallen a fresh fallen up
  | free fresh last => exact ⟨0,.free (visited.fresh fresh) last⟩
  | link fresh leans _ ih => exact ih.imp' _ fun _ ends => .link (visited.fresh fresh) leans ends

omit [DecidableEq α] in
theorem Visited.led (visited : Visited next able start before m) (rises : Rises next start x) (fresh : start x = none)
    (seen : m x ≠ none) : ∃ a ∈ before, Leads next start a x := by
  by_contra alone
  exact seen (visited.later x fresh rises alone)

omit [DecidableEq α] in
/-- A way that has not been visited yet had not been at the start, and the other way round. -/
theorem Visited.leads_iff (visited : Visited next able start before m) (rises : Rises next start x)
    (fresh : m x = none) : Leads next m a x ↔ Leads next start a x := by
  constructor
  · exact Relation.ReflTransGen.mono (fun _ _ step => ⟨visited.fresh step.1,step.2⟩) a x
  · intro leads
    induction leads using Relation.ReflTransGen.head_induction_on with
    | refl => exact .refl
    | @head c d step rest ih =>
      refine .head ⟨?_,step.2⟩ ih
      by_contra seen
      have way : Leads next start c x := .head step rest
      obtain ⟨b,member,leads⟩ := visited.led (rises.back way) step.1 seen
      rw [visited.risen x (visited.fresh fresh) rises ⟨b,member,leads.trans way⟩] at fresh
      simp at fresh

omit [DecidableEq α] in
theorem Visited.topped (visited : Visited next able start before m) (rises : Rises next start a)
    (ables : start a = none → able a) (seen : m a ≠ none) : m a = some true := by
  cases fresh : start a with
  | none => rw [visited.risen a fresh rises (visited.led rises fresh seen),ables fresh]
  | some up =>
    obtain ⟨_,ends⟩ := rises
    cases ends with
    | up up => exact visited.kept a true up
    | free fresh' _ => simp [fresh] at fresh'
    | link fresh' _ _ => simp [fresh] at fresh'

omit [DecidableEq α] in
/-- A chain that would end from the start ends now, and no later than where it
meets what has been visited. -/
theorem Visited.ends (visited : Visited next able start before m) (links : ∀ a b, next a = some b → able b)
    (rises : Rises next start a) (ables : m a ≠ none → start a = none → able a) (way : along next n a = some x)
    (stop : start x ≠ none ∨ next x = none ∨ ∃ b ∈ before, Leads next start b x) : ∃ k ≤ n, Ends next m k a := by
  induction n generalizing a with
  | zero =>
    obtain rfl := Option.some.inj way
    refine ⟨0,Nat.le_refl 0,?_⟩
    by_cases fresh : m a = none
    · rcases stop with known | last | led
      · exact absurd (visited.fresh fresh) known
      · exact .free fresh last
      · rw [visited.risen a (visited.fresh fresh) rises led] at fresh
        simp at fresh
    · exact .up (visited.topped rises (ables fresh) fresh)
  | succ n ih =>
    by_cases fresh : m a = none
    · obtain ⟨b,leans,way⟩ := Option.bind_eq_some_iff.mp way
      obtain ⟨k,bound,ends⟩ := ih (rises.onward (.single ⟨visited.fresh fresh,leans⟩)) (fun _ _ => links a b leans) way
      exact ⟨k+1,by omega,.link fresh leans ends⟩
    · exact ⟨0,Nat.zero_le _,.up (visited.topped rises (ables fresh) fresh)⟩

omit [DecidableEq α] in
theorem Ends.near (visited : Visited next able start before m) (ends : Ends next m n a) {limit : Nat}
    (bound : n ≤ limit) : Near next limit start before a := by
  suffices ∃ x, along next n a = some x ∧ (start x ≠ none ∨ next x = none ∨ ∃ b ∈ before, Leads next start b x) from
    ⟨n,bound,this⟩
  clear bound
  induction ends with
  | @up a up =>
    refine ⟨a,rfl,?_⟩
    by_cases fresh : start a = none
    · exact .inr (.inr (visited.led (visited.rises (.up up)) fresh (by simp [up])))
    · exact .inl fresh
  | free _ last => exact ⟨_,rfl,.inr (.inl last)⟩
  | link _ leans _ ih => simpa only [along,leans,Option.bind_some] using ih

theorem Visited.brought (visited : Visited next able start before m) (links : ∀ a b, next a = some b → able b)
    (fresh : m a = none) (rises : Rises next start a) (near : Near next left start before a) :
    Visited next able start (before ++ [a]) (visit next able left a m) := by
  obtain ⟨n,bound,x,way,stop⟩ := near
  obtain ⟨k,less,ends⟩ := visited.ends links rises (fun seen _ => absurd fresh seen) way stop
  have brought : Brought next able m a (Chains.visit next able left a m) :=
    visit_brought links ends (Nat.le_trans less bound)
  constructor
  · exact fun x up kept => visit_kept (visited.kept x up kept) left a
  · intro x fresh' rises' led
    by_cases seen : m x = none
    · apply brought.passed x seen
      obtain ⟨b,member,leads⟩ := led
      rcases List.mem_append.mp member with earlier | here
      · rw [visited.risen x fresh' rises' ⟨b,earlier,leads⟩] at seen
        simp at seen
      · obtain rfl := List.mem_singleton.mp here
        exact (visited.leads_iff rises' seen).mpr leads
    · rw [brought.others x fun inside => seen inside.1]
      exact visited.risen x fresh' rises' (visited.led rises' fresh' seen)
  · intro x fresh' rises' alone
    have seen := visited.later x fresh' rises' fun ⟨b,member,leads⟩ => alone ⟨b,List.mem_append_left _ member,leads⟩
    rw [brought.others x,seen]
    exact fun inside => alone ⟨a,by simp,(visited.leads_iff rises' seen).mp inside.2⟩
  · intro x fresh' fallen
    rw [brought.others x]
    · exact visited.fallen x fresh' fallen
    · exact fun inside => fallen (visited.rises ((ends.onward inside.2).choose_spec.2))
  · intro x member
    rcases List.mem_append.mp member with earlier | here
    · obtain ⟨up,seen⟩ := Option.ne_none_iff_exists'.mp (visited.seen x earlier)
      simp [visit_kept seen]
    · obtain rfl := List.mem_singleton.mp here
      simp [brought.passed x fresh .refl]

omit [DecidableEq α] in
theorem Visited.again (visited : Visited next able start before m) (seen : m a ≠ none) :
    Visited next able start (before ++ [a]) m := by
  have led {x : α} (fresh : start x = none) (rises : Rises next start x) :
      (∃ b ∈ before ++ [a], Leads next start b x) ↔ ∃ b ∈ before, Leads next start b x := by
    refine ⟨fun ⟨b,member,leads⟩ => ?_,fun ⟨b,member,leads⟩ => ⟨b,List.mem_append_left _ member,leads⟩⟩
    rcases List.mem_append.mp member with earlier | here
    · exact ⟨b,earlier,leads⟩
    · obtain rfl := List.mem_singleton.mp here
      have fresh' : start b = none := by
        rcases Relation.ReflTransGen.cases_head leads with rfl | ⟨_,step,_⟩
        · exact fresh
        · exact step.1
      obtain ⟨c,member',leads'⟩ := visited.led (rises.back leads) fresh' seen
      exact ⟨c,member',leads'.trans leads⟩
  constructor
  · exact visited.kept
  · exact fun x fresh rises way => visited.risen x fresh rises ((led fresh rises).mp way)
  · exact fun x fresh rises way => visited.later x fresh rises fun way' => way ((led fresh rises).mpr way')
  · exact visited.fallen
  · intro x member
    rcases List.mem_append.mp member with earlier | here
    · exact visited.seen x earlier
    · exact List.mem_singleton.mp here ▸ seen

theorem Visited.stalled (visited : Visited next able start before m) (fresh : m a = none)
    (fallen : ¬ Rises next start a) : Visited next able start (before ++ [a]) (visit next able left a m) := by
  have stalled : Chains.Stalled next m a (Chains.visit next able left a m) :=
    visit_stalled fun n _ ends => fallen (visited.rises ends)
  have same {x : α} (rises : Rises next start x) : visit next able left a m x = m x := by
    rcases stalled.passed x with same | ⟨seen,_,leads⟩
    · exact same
    · exact absurd (rises.back ((visited.leads_iff rises seen).mp leads)) fallen
  have apart {x : α} (rises : Rises next start x) : ¬ Leads next start a x := fun leads => fallen (rises.back leads)
  have led {x : α} (rises : Rises next start x) :
      (∃ b ∈ before ++ [a], Leads next start b x) ↔ ∃ b ∈ before, Leads next start b x := by
    simp [apart rises,or_and_right,exists_or]
  constructor
  · exact fun x up kept => visit_kept (visited.kept x up kept) left a
  · exact fun x fresh' rises way => (same rises).trans (visited.risen x fresh' rises ((led rises).mp way))
  · exact fun x fresh' rises way =>
      (same rises).trans (visited.later x fresh' rises fun way' => way ((led rises).mpr way'))
  · intro x fresh' fallen'
    rcases stalled.passed x with same | ⟨_,down,_⟩
    · exact same ▸ visited.fallen x fresh' fallen'
    · simp [down]
  · intro x member
    rcases List.mem_append.mp member with earlier | here
    · obtain ⟨up,seen⟩ := Option.ne_none_iff_exists'.mp (visited.seen x earlier)
      simp [visit_kept seen]
    · obtain rfl := List.mem_singleton.mp here
      simp [stalled.down fresh]

theorem Visited.visit (visited : Visited next able start before m) (links : ∀ a b, next a = some b → able b)
    (near : start a = none → Rises next start a → Near next left start before a) :
    Visited next able start (before ++ [a]) (visit next able left a m) := by
  by_cases fresh : m a = none
  · by_cases rises : Rises next start a
    · exact visited.brought links fresh rises (near (visited.fresh fresh) rises)
    · exact visited.stalled fresh rises
  · rw [visit_visited fresh]
    exact visited.again fresh

end Turns

variable {limit : Nat} {start : Marks α} {order : List α}

theorem visitAll_snoc (order : List α) (a : α) (m : Marks α) :
    visitAll next able limit (order ++ [a]) m = visit next able limit a (visitAll next able limit order m) := by
  simp [visitAll]

theorem visitAll_kept {up : Bool} (visited : m x = some up) (order : List α) :
    visitAll next able limit order m x = some up := by
  induction order generalizing m with
  | nil => exact visited
  | cons a rest ih => exact ih (visit_kept visited limit a)

omit [DecidableEq α] in
theorem AllNear.init {before after : List α} (near : AllNear next limit start (before ++ after)) :
    AllNear next limit start before := by
  rintro front a back rfl fresh rises
  exact near front a (back ++ after) (by simp) fresh rises

omit [DecidableEq α] in
theorem AllNear.snoc (near : AllNear next limit start order)
    (last : start a = none → Rises next start a → Near next limit start order a) :
    AllNear next limit start (order ++ [a]) := by
  intro before b after split fresh rises
  rcases List.eq_nil_or_concat after with rfl | ⟨init,c,rfl⟩
  · obtain ⟨rfl,same⟩ := List.append_inj' split rfl
    obtain rfl := List.head_eq_of_cons_eq same
    exact last fresh rises
  · have split : order ++ [a] = (before ++ b :: init) ++ [c] := by simpa using split
    exact near before b init (List.append_inj' split rfl).1 fresh rises

theorem visitAll_visited (links : ∀ a b, next a = some b → able b) (near : AllNear next limit start order) :
    Visited next able start order (visitAll next able limit order start) := by
  induction order using List.reverseRecOn with
  | nil => exact visited_start
  | append_singleton before a ih =>
    rw [visitAll_snoc]
    exact (ih near.init).visit links (near before a [] rfl)

/-- Exactly what would come up has come up, where no chain is too long. -/
theorem visitAll_exact (links : ∀ a b, next a = some b → able a ∧ able b) :
    (∀ x ∈ order, start x = none →
      (visitAll next able limit order start x = some true ↔ Rises next start x ∧ able x)) ↔
      AllNear next limit start order := by
  have links' : ∀ a b, next a = some b → able b := fun a b leans => (links a b leans).2
  constructor
  · intro exactly
    suffices ∀ before after, order = before ++ after → AllNear next limit start before from
      this order [] (List.append_nil order).symm
    intro before
    induction before using List.reverseRecOn with
    | nil => exact fun _ _ front a back split => by simp at split
    | append_singleton before a ih =>
      intro after split
      have near := ih (a :: after) (by simpa using split)
      have visited := visitAll_visited links' near
      refine near.snoc fun fresh rises => ?_
      by_contra far
      have ables : able a := by
        cases leans : next a with
        | none => exact absurd ⟨0,Nat.zero_le _,a,rfl,.inr (.inl leans)⟩ far
        | some b => exact (links a b leans).1
      have unseen : visitAll next able limit before start a = none := by
        by_contra seen
        exact far ⟨0,Nat.zero_le _,a,rfl,.inr (.inr (visited.led rises fresh seen))⟩
      have stalled : Stalled next _ a (visit next able limit a _) :=
        visit_stalled fun n bound ends => far (ends.near visited bound)
      have down := stalled.down unseen
      have last : visitAll next able limit order start a = some false := by
        rw [split,visitAll,List.foldl_append]
        exact visitAll_kept ((congrFun (visitAll_snoc before a start) a).trans down) after
      have up := (exactly a (by simp [split]) fresh).mpr ⟨rises,ables⟩
      simp [last] at up
  · intro near x member fresh
    have visited := visitAll_visited links' near
    by_cases rises : Rises next start x
    · simp [visited.risen x fresh rises ⟨x,member,.refl⟩,rises]
    · simp [visited.fallen x fresh rises,rises]

theorem visit_rises (links : ∀ a b, next a = some b → able b) (up : visit next able limit a start x = some true) :
    Rises next start x := by
  by_cases short : ∃ n ≤ limit, Ends next start n a
  · obtain ⟨n,bound,ends⟩ := short
    have brought : Brought next able start a (visit next able limit a start) := visit_brought links ends bound
    by_cases passed : start x = none ∧ Leads next start a x
    · exact (ends.onward passed.2).imp fun _ found => found.2
    · exact ⟨0,.up (brought.others x passed ▸ up)⟩
  · have stalled : Stalled next start a (visit next able limit a start) :=
      visit_stalled fun n bound ends => short ⟨n,bound,ends⟩
    rcases stalled.passed x with same | ⟨_,down,_⟩
    · exact ⟨0,.up (same ▸ up)⟩
    · simp [down] at up

theorem Ends.before_visit (links : ∀ a b, next a = some b → able b)
    (ends : Ends next (visit next able limit a start) n x) : Rises next start x := by
  have fresh {y : α} (later : visit next able limit a start y = none) : start y = none := by
    cases seen : start y with
    | none => rfl
    | some up => simp [visit_kept seen] at later
  induction ends with
  | up up => exact visit_rises links up
  | free later last => exact ⟨0,.free (fresh later) last⟩
  | link later leans _ ih => exact ih.imp' _ fun _ ends => .link (fresh later) leans ends

/-- Whatever the limit, only what would come up has come up. -/
theorem visitAll_rises (links : ∀ a b, next a = some b → able b)
    (up : visitAll next able limit order start x = some true) : Rises next start x := by
  induction order generalizing start with
  | nil => exact ⟨0,.up up⟩
  | cons a rest ih =>
    obtain ⟨n,ends⟩ := ih up
    exact ends.before_visit links

theorem visit_able (up : visit next able limit a m x = some true) : m x = some true ∨ able x := by
  fun_induction visit next able limit a m with
  | case1 => exact .inl up
  | case2 _ a m =>
    by_cases same : x = a
    · subst same
      exact .inr (by simpa using up)
    · exact .inl (by simpa [mark_other same] using up)
  | case3 a m =>
    by_cases same : x = a
    · subst same
      simp at up
    · exact .inl (by simpa [mark_other same] using up)
  | case4 a m _ b _ left visited _ =>
    rename_i ih
    by_cases same : x = a
    · subst same
      exact .inr (by simpa using up)
    · rw [mark_other same] at up
      simpa [mark_other same] using ih up
  | case5 a m _ b _ left visited _ =>
    rename_i ih
    by_cases same : x = a
    · subst same
      exact .inr (by simpa using ih up)
    · simpa [mark_other same] using ih up

theorem visitAll_able (up : visitAll next able limit order start x = some true) : start x = some true ∨ able x := by
  induction order generalizing start with
  | nil => exact .inl up
  | cons a rest ih => exact (ih up).elim visit_able .inr

omit [DecidableEq α] in
/-- The limit is large enough where every item is that near to the end of its chain. -/
theorem allNear_of_ends (short : ∀ a ∈ order, ∃ n ≤ limit, (along next n a).any fun x => (next x).isNone) :
    AllNear next limit start order := by
  intro before a after split _ _
  obtain ⟨n,bound,near⟩ := short a (by simp [split])
  obtain ⟨x,way,last⟩ := Option.any_eq_true _ _ |>.mp near
  exact ⟨n,bound,x,way,.inr (.inl (Option.isNone_iff_eq_none.mp last))⟩

/-! ## Visits from an earlier state -/

/-- An item that was visited at the start stays as it was, the others come up where they can. -/
def Settles (next : α → Option α) (able : α → Bool) (start : Marks α) (x : α) : Prop :=
  start x = some true ∨ start x = none ∧ Rises next start x ∧ able x

theorem visitAll_settles (links : ∀ a b, next a = some b → able a ∧ able b) (near : AllNear next limit start order)
    (member : x ∈ order) : visitAll next able limit order start x = some true ↔ Settles next able start x := by
  cases seen : start x with
  | none => simpa [Settles,seen] using (visitAll_exact links).mpr near x member seen
  | some up => simp [Settles,seen,visitAll_kept seen]

def unvisited : Marks α := fun _ => none

omit [DecidableEq α] in
theorem settles_unvisited : Settles next able unvisited x ↔ Rises next unvisited x ∧ able x := by
  simp [Settles,unvisited]

omit [DecidableEq α] in
theorem Ends.unvisited (up : ∀ x, start x = some true → Rises next unvisited x) (ends : Ends next start n a) :
    Rises next Chains.unvisited a := by
  induction ends with
  | up here => exact up _ here
  | free _ last => exact ⟨0,.free rfl last⟩
  | link _ leans _ ih => exact ih.imp' _ fun _ ends => .link rfl leans ends

omit [DecidableEq α] in
theorem Ends.visited (links : ∀ a b, next a = some b → able a ∧ able b)
    (down : ∀ x, start x = some false → ¬ (Rises next Chains.unvisited x ∧ able x))
    (ends : Ends next Chains.unvisited n a) (ables : start a ≠ none → able a) : Rises next start a := by
  induction ends with
  | up here => simp [Chains.unvisited] at here
  | @free a _ last =>
    match fresh : start a with
    | none => exact ⟨0,.free fresh last⟩
    | some true => exact ⟨0,.up fresh⟩
    | some false => exact absurd ⟨⟨0,.free rfl last⟩,ables (by simp [fresh])⟩ (down a fresh)
  | @link n a b _ leans ends ih =>
    match fresh : start a with
    | none => exact (ih fun _ => (links a b leans).2).imp' _ fun _ ends => .link fresh leans ends
    | some true => exact ⟨0,.up fresh⟩
    | some false => exact absurd ⟨⟨_,.link rfl leans ends⟩,ables (by simp [fresh])⟩ (down a fresh)

omit [DecidableEq α] in
/-- The earlier visits make no difference exactly if what is up would come up
again, and what stayed down would stay down again. -/
theorem settles_iff (links : ∀ a b, next a = some b → able a ∧ able b) (ables : ∀ x, start x = some true → able x) :
    (∀ x, Settles next able start x ↔ Settles next able unvisited x) ↔
      (∀ x, start x = some true → Rises next unvisited x) ∧
        ∀ x, start x = some false → ¬ (Rises next unvisited x ∧ able x) := by
  simp only [settles_unvisited]
  constructor
  · intro same
    refine ⟨fun x up => ((same x).mp (.inl up)).1,fun x down rises => ?_⟩
    have settled := (same x).mpr rises
    simp [Settles,down] at settled
  · rintro ⟨up,down⟩ x
    match fresh : start x with
    | none =>
      simp only [Settles,fresh,reduceCtorEq,true_and,false_or]
      exact and_congr_left fun _ => ⟨fun ⟨_,ends⟩ => ends.unvisited up,
        fun ⟨_,ends⟩ => ends.visited links down fun seen => absurd fresh seen⟩
    | some true => simp [Settles,fresh,up x fresh,ables x fresh]
    | some false => simpa [Settles,fresh] using down x fresh

end Chains
