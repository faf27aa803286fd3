import Mathlib.Data.List.Basic
import Mathlib.Data.List.Nodup
import Mathlib.Data.List.Perm.Subperm
import Mathlib.Data.Option.Basic
import Mathlib.Data.Set.Finite.Lattice

/-! Nested dictionaries: association lists whose values are leaves or further
dictionaries, addressed by sequences of keys. Placing a value at a sequence
creates the dictionaries on the way, pruning removes the ones left empty. -/
namespace Trees

section Entries
variable {κ β : Type} [DecidableEq κ]

def find : List (κ × β) → κ → Option β
  | [], _ => none
  | (k',v)::rest, k => if k' = k then some v else find rest k

/-- The entry keeps its place if the key is there already. -/
def set : List (κ × β) → κ → β → List (κ × β)
  | [], k, v => [(k,v)]
  | (k',w)::rest, k, v => if k' = k then (k',v)::rest else (k',w)::set rest k v

def erase (d : List (κ × β)) (k : κ) : List (κ × β) := d.filter fun e => e.1 ≠ k

@[simp] theorem find_nil (k : κ) : find ([] : List (κ × β)) k = none := rfl

@[simp] theorem find_set (d : List (κ × β)) (k k' : κ) (v : β) :
    find (set d k v) k' = if k = k' then some v else find d k' := by
  induction d with
  | nil => rfl
  | cons e rest ih =>
    obtain ⟨l,w⟩ := e
    by_cases here : l = k
    · subst here
      by_cases asked : l = k' <;> simp [set,find,asked]
    · by_cases asked : l = k'
      · subst asked
        simp [set,find,here,Ne.symm here]
      · simp [set,find,here,asked,ih]

@[simp] theorem find_erase (d : List (κ × β)) (k k' : κ) :
    find (erase d k) k' = if k = k' then none else find d k' := by
  induction d with
  | nil => simp [erase]
  | cons e rest ih =>
    obtain ⟨l,w⟩ := e
    rw [erase] at ih
    by_cases here : l = k
    · subst here
      rw [erase,List.filter_cons_of_neg (by simp),ih]
      by_cases asked : l = k' <;> simp [find,asked]
    · rw [erase,List.filter_cons_of_pos (by simpa using here),find,ih,find]
      by_cases asked : l = k'
      · subst asked
        simp [Ne.symm here]
      · simp [asked]

theorem set_find {d : List (κ × β)} {k : κ} {v : β} (found : find d k = some v) : set d k v = d := by
  induction d with
  | nil => cases found
  | cons e rest ih =>
    obtain ⟨l,w⟩ := e
    by_cases here : l = k
    · rw [find,if_pos here] at found
      simp [set,here,Option.some.inj found]
    · rw [find,if_neg here] at found
      simp [set,here,ih found]

@[simp] theorem set_set (d : List (κ × β)) (k : κ) (v w : β) : set (set d k v) k w = set d k w := by
  induction d with
  | nil => simp [set]
  | cons e rest ih =>
    obtain ⟨l,u⟩ := e
    by_cases here : l = k <;> simp [set,here,ih]

theorem find_isSome {d : List (κ × β)} {k : κ} : find d k ≠ none ↔ k ∈ d.map Prod.fst := by
  induction d with
  | nil => simp
  | cons e rest ih =>
    by_cases here : e.1 = k
    · simp [find,here]
    · rw [find,if_neg here,ih,List.map_cons,List.mem_cons]
      exact ⟨.inr,fun member => member.resolve_left (Ne.symm here)⟩

theorem mem_of_find {d : List (κ × β)} {k : κ} {v : β} (found : find d k = some v) : (k,v) ∈ d := by
  induction d with
  | nil => cases found
  | cons e rest ih =>
    obtain ⟨l,w⟩ := e
    by_cases here : l = k
    · rw [find,if_pos here] at found
      simp [here,Option.some.inj found]
    · rw [find,if_neg here] at found
      exact List.mem_cons_of_mem _ (ih found)

theorem find_of_mem {d : List (κ × β)} {k : κ} {v : β} (distinct : (d.map Prod.fst).Nodup) (member : (k,v) ∈ d) :
    find d k = some v := by
  obtain ⟨w,found⟩ := Option.ne_none_iff_exists'.mp (find_isSome.mpr (List.mem_map_of_mem member))
  obtain rfl : w = v := congrArg Prod.snd (List.inj_on_of_nodup_map distinct (mem_of_find found) member rfl)
  exact found

theorem nodup_set {d : List (κ × β)} (distinct : (d.map Prod.fst).Nodup) (k : κ) (v : β) :
    ((set d k v).map Prod.fst).Nodup := by
  induction d with
  | nil => simp [set]
  | cons e rest ih =>
    obtain ⟨l,w⟩ := e
    obtain ⟨apart,others⟩ := List.nodup_cons.mp distinct
    by_cases here : l = k
    · simpa [set,here] using distinct
    · rw [set,if_neg here,List.map_cons,List.nodup_cons]
      refine ⟨fun member => apart ?_,ih others⟩
      have present := find_isSome.mpr member
      rw [find_set,if_neg (Ne.symm here)] at present
      exact find_isSome.mp present

theorem find_filter_key (d : List (κ × β)) (keep : κ → Bool) (k : κ) :
    find (d.filter fun e => keep e.1) k = if keep k then find d k else none := by
  induction d with
  | nil => simp
  | cons e rest ih =>
    obtain ⟨l,w⟩ := e
    by_cases kept : keep l
    · rw [List.filter_cons_of_pos (by simpa using kept)]
      by_cases here : l = k
      · subst here
        simp [find,kept]
      · simp only [find,here,if_false,ih]
    · rw [List.filter_cons_of_neg (by simpa using kept),ih]
      by_cases here : l = k
      · subst here
        simp [kept]
      · simp [find,here]

theorem foldl_erase (keys : List κ) (d : List (κ × β)) : keys.foldl erase d = d.filter fun e => e.1 ∉ keys := by
  induction keys generalizing d with
  | nil => simp
  | cons k rest ih =>
    rw [List.foldl_cons,ih,erase,List.filter_filter]
    apply List.filter_congr
    intro e _
    simp [Bool.and_comm]

theorem find_foldl_erase (keys : List κ) (d : List (κ × β)) (k : κ) :
    find (keys.foldl erase d) k = if k ∈ keys then none else find d k := by
  rw [foldl_erase,find_filter_key d fun k => decide (k ∉ keys)]
  by_cases gone : k ∈ keys <;> simp [gone]

theorem find_foldl_set {γ : Type} (f : γ → β) {changes : List (κ × γ)} (distinct : (changes.map Prod.fst).Nodup)
    (d : List (κ × β)) (k : κ) :
    find (changes.foldl (fun d e => set d e.1 (f e.2)) d) k = ((find changes k).map f).or (find d k) := by
  induction changes generalizing d with
  | nil => rfl
  | cons e rest ih =>
    obtain ⟨apart,others⟩ := List.nodup_cons.mp distinct
    rw [List.foldl_cons,ih others,find_set]
    by_cases here : e.1 = k
    · subst here
      have absent : find rest e.1 = none := by
        by_contra present
        exact apart (find_isSome.mp present)
      simp [find,absent]
    · simp [find,here]

theorem nodup_foldl_set {γ : Type} (f : γ → β) (changes : List (κ × γ)) {d : List (κ × β)}
    (distinct : (d.map Prod.fst).Nodup) :
    ((changes.foldl (fun d e => set d e.1 (f e.2)) d).map Prod.fst).Nodup := by
  induction changes generalizing d with
  | nil => exact distinct
  | cons e rest ih => exact ih (nodup_set distinct e.1 (f e.2))

end Entries

inductive Tree (κ α : Type) where
  | leaf (value : α)
  | dict (entries : List (κ × Tree κ α))

abbrev Dict (κ α : Type) := List (κ × Tree κ α)

variable {κ α : Type} [DecidableEq κ]

namespace Tree

def entries : Tree κ α → Dict κ α
  | leaf _ => []
  | dict d => d

omit [DecidableEq κ] in
@[simp] theorem entries_dict (d : Dict κ α) : (dict d).entries = d := rfl

def child (t : Tree κ α) (k : κ) : Tree κ α := (find t.entries k).getD (dict [])

def look : Tree κ α → List κ → Option (Tree κ α)
  | t, [] => some t
  | t, k::rest => (find t.entries k).bind fun u => look u rest

/-- The tree with `v` at the sequence, every missing dictionary on the way made. -/
def place : Tree κ α → List κ → Tree κ α → Tree κ α
  | _, [], v => v
  | t, k::rest, v => dict (set t.entries k (place (t.child k) rest v))

/-- The tree without what is at the sequence, and without the dictionaries on the
way that are then empty: nothing at all, if the tree is then empty. -/
def prune : Tree κ α → List κ → Option (Tree κ α)
  | _, [] => none
  | t, k::rest =>
    match prune (t.child k) rest with
    | some u => some (dict (set t.entries k u))
    | none => if erase t.entries k = [] then none else some (dict (erase t.entries k))

@[simp] theorem look_nil (t : Tree κ α) : look t [] = some t := by cases t <;> rfl

theorem look_cons (t : Tree κ α) (k : κ) (rest : List κ) :
    look t (k::rest) = (find t.entries k).bind fun u => look u rest := by cases t <;> rfl

theorem look_child (t : Tree κ α) (k k' : κ) (rest : List κ) :
    look (t.child k) (k'::rest) = look t (k::k'::rest) := by
  rw [look_cons t,child]
  cases find t.entries k <;> rfl

theorem look_append (t : Tree κ α) (p q : List κ) : look t (p ++ q) = (look t p).bind fun u => look u q := by
  induction p generalizing t with
  | nil => simp
  | cons k rest ih =>
    rw [List.cons_append,look_cons,look_cons]
    cases find t.entries k with
    | none => rfl
    | some u => exact ih u

/-! ## Placing -/

theorem place_nil (t v : Tree κ α) : place t [] v = v := by cases t <;> rfl

theorem place_cons (t v : Tree κ α) (k : κ) (rest : List κ) :
    place t (k::rest) v = dict (set t.entries k (place (t.child k) rest v)) := by cases t <;> rfl

theorem child_place (t v : Tree κ α) (k : κ) (rest : List κ) :
    (place t (k::rest) v).child k = place (t.child k) rest v := by simp [place_cons,child]

/-- At the sequence and below it, the tree is the value placed. -/
theorem look_place_below (t v : Tree κ α) (s q : List κ) : look (place t s v) (s ++ q) = look v q := by
  induction s generalizing t with
  | nil => rw [place_nil,List.nil_append]
  | cons k rest ih =>
    rw [List.cons_append,look_cons,place_cons,entries_dict,find_set,if_pos rfl,Option.bind_some]
    exact ih _

/-- Above the sequence, the tree is a dictionary that leads to the value placed. -/
theorem look_place_above (t v : Tree κ α) (p q : List κ) :
    look (place t (p ++ q) v) p = some (place ((look t p).getD (dict [])) q v) := by
  induction p generalizing t with
  | nil => simp
  | cons k rest ih =>
    rw [List.cons_append,look_cons,place_cons,entries_dict,find_set,if_pos rfl,Option.bind_some,ih,look_cons]
    cases rest with
    | nil => simp [child]
    | cons k' rest =>
      rw [look_child,look_cons]

theorem look_place_beside (t v : Tree κ α) {s p : List κ} (notBelow : ¬ s <+: p) (notAbove : ¬ p <+: s) :
    look (place t s v) p = look t p := by
  induction s generalizing t p with
  | nil => exact absurd List.nil_prefix notBelow
  | cons k rest ih =>
    cases p with
    | nil => exact absurd List.nil_prefix notAbove
    | cons k' rest' =>
      rw [place_cons,look_cons,entries_dict,find_set]
      by_cases same : k = k'
      · subst same
        rw [List.cons_prefix_cons] at notBelow notAbove
        rw [if_pos rfl,Option.bind_some,ih _ (fun h => notBelow ⟨rfl,h⟩) (fun h => notAbove ⟨rfl,h⟩)]
        cases rest' with
        | nil => exact absurd ⟨rfl,List.nil_prefix⟩ notAbove
        | cons k' rest' => rw [look_child]
      · rw [if_neg same,look_cons]

theorem place_look {t v : Tree κ α} {s : List κ} (found : look t s = some v) : place t s v = t := by
  induction s generalizing t with
  | nil =>
    rw [look_nil] at found
    rw [place_nil,Option.some.inj found]
  | cons k rest ih =>
    rw [look_cons] at found
    obtain ⟨u,here,further⟩ := Option.bind_eq_some_iff.mp found
    cases t with
    | leaf _ => cases here
    | dict d =>
      rw [place_cons,child,here,Option.getD_some,ih further]
      exact congrArg dict (set_find here)

theorem place_place (t v w : Tree κ α) (s : List κ) : place (place t s v) s w = place t s w := by
  induction s generalizing t with
  | nil => rw [place_nil,place_nil]
  | cons k rest ih =>
    rw [place_cons (place t (k::rest) v),child_place,ih,place_cons,entries_dict,set_set,place_cons]

/-! ## Pruning -/

theorem prune_nil (t : Tree κ α) : prune t [] = none := by cases t <;> rfl

theorem prune_cons (t : Tree κ α) (k : κ) (rest : List κ) :
    prune t (k::rest) = match prune (t.child k) rest with
      | some u => some (dict (set t.entries k u))
      | none => if erase t.entries k = [] then none else some (dict (erase t.entries k)) := by
  cases t <;> rfl

/-- The entries of the pruned tree under one more key. -/
theorem find_prune (t : Tree κ α) (k k' : κ) (rest : List κ) :
    find ((prune t (k::rest)).getD (dict [])).entries k' =
      if k = k' then prune (t.child k) rest else find t.entries k' := by
  rw [prune_cons]
  cases prune (t.child k) rest with
  | some u => simp
  | none =>
    by_cases empty : erase t.entries k = []
    · have nothing := find_erase t.entries k k'
      rw [empty] at nothing
      simpa [empty] using nothing
    · simp [empty]

theorem look_prune_below (t : Tree κ α) (k : κ) (rest q : List κ) :
    look ((prune t (k::rest)).getD (dict [])) (k::rest ++ q) = none := by
  induction rest generalizing t k with
  | nil => rw [List.cons_append,look_cons,find_prune,if_pos rfl,prune_nil]; rfl
  | cons k' rest ih =>
    rw [List.cons_append,look_cons,find_prune,if_pos rfl]
    have inner := ih (t.child k) k'
    cases pruned : prune (t.child k) (k'::rest) with
    | none => rfl
    | some u =>
      rw [pruned] at inner
      exact inner

/-- Above the sequence, what was there is pruned in its turn. -/
theorem look_prune_above (t : Tree κ α) {k : κ} {p : List κ} (q : List κ) :
    look ((prune t (k::p ++ q)).getD (dict [])) (k::p) =
      prune ((look t (k::p)).getD (dict [])) q := by
  induction p generalizing t k with
  | nil =>
    rw [List.singleton_append,look_cons,find_prune,if_pos rfl,look_cons,child]
    cases find t.entries k <;> simp
  | cons k' p ih =>
    have inner := ih (t.child k) (k := k')
    rw [look_child] at inner
    rw [← inner,List.cons_append,look_cons,find_prune,if_pos rfl,List.cons_append]
    cases prune (t.child k) (k'::(p ++ q)) with
    | none => rfl
    | some u => rfl

theorem look_prune_beside (t : Tree κ α) {s p : List κ} (notBelow : ¬ s <+: p) (notAbove : ¬ p <+: s) :
    look ((prune t s).getD (dict [])) p = look t p := by
  induction s generalizing t p with
  | nil => exact absurd List.nil_prefix notBelow
  | cons k rest ih =>
    cases p with
    | nil => exact absurd List.nil_prefix notAbove
    | cons k' rest' =>
      rw [look_cons,find_prune,look_cons]
      by_cases same : k = k'
      · subst same
        rw [List.cons_prefix_cons] at notBelow notAbove
        have inner := ih (t.child k) (fun h => notBelow ⟨rfl,h⟩) (fun h => notAbove ⟨rfl,h⟩)
        cases rest' with
        | nil => exact absurd ⟨rfl,List.nil_prefix⟩ notAbove
        | cons k' rest' =>
          rw [look_child,look_cons t] at inner
          rw [if_pos rfl,← inner]
          cases prune (t.child k) rest <;> rfl
      · rw [if_neg same]

/-! ## Trees that differ in the order of their entries only -/

def label : Tree κ α → Option α
  | leaf v => some v
  | dict _ => none

/-- The same leaves at the same sequences, whatever the order of the entries. -/
def Alike (t u : Tree κ α) : Prop := ∀ p, (look t p).map label = (look u p).map label

theorem Alike.refl (t : Tree κ α) : Alike t t := fun _ => rfl

theorem Alike.symm {t u : Tree κ α} (alike : Alike t u) : Alike u t := fun p => (alike p).symm

theorem Alike.trans {t u v : Tree κ α} (alike : Alike t u) (alike' : Alike u v) : Alike t v :=
  fun p => (alike p).trans (alike' p)

theorem Alike.look {t u : Tree κ α} (alike : Alike t u) (p : List κ) : Option.Rel Alike (look t p) (look u p) := by
  have below : ∀ q, ((Tree.look t p).bind fun v => Tree.look v q).map label =
      ((Tree.look u p).bind fun v => Tree.look v q).map label := by
    intro q
    rw [← look_append,← look_append]
    exact alike (p ++ q)
  have here := alike p
  cases reached : Tree.look t p with
  | none =>
    cases reached' : Tree.look u p with
    | none => exact .none
    | some w => simp [reached,reached'] at here
  | some v =>
    cases reached' : Tree.look u p with
    | none => simp [reached,reached'] at here
    | some w =>
      rw [reached,reached'] at below
      exact .some below

theorem Alike.look_some {t u v : Tree κ α} {p : List κ} (alike : Alike t u) (reached : Tree.look t p = some v) :
    ∃ w, Tree.look u p = some w ∧ Alike v w := by
  have step := alike.look p
  rw [reached] at step
  generalize Tree.look u p = there at step ⊢
  cases step with
  | some alike => exact ⟨_,rfl,alike⟩

theorem Alike.look_none {t u : Tree κ α} {p : List κ} (alike : Alike t u) (absent : Tree.look t p = none) :
    Tree.look u p = none := by
  have step := alike.look p
  rw [absent] at step
  generalize Tree.look u p = there at step ⊢
  cases step
  rfl

theorem look_key (t : Tree κ α) (k : κ) : look t [k] = find t.entries k := by simp [look_cons]

theorem Alike.find_some {t u v : Tree κ α} {k : κ} (alike : Alike t u) (found : find t.entries k = some v) :
    ∃ w, find u.entries k = some w ∧ Alike v w := by
  rw [← look_key] at found ⊢
  exact alike.look_some found

theorem Alike.find_none {t u : Tree κ α} {k : κ} (alike : Alike t u) (absent : find t.entries k = none) :
    find u.entries k = none := by
  rw [← look_key] at absent ⊢
  exact alike.look_none absent

theorem Alike.leaf_left {v : α} {u : Tree κ α} (alike : Alike (leaf v) u) : u = leaf v := by
  have here := alike []
  rw [look_nil,look_nil] at here
  cases u with
  | leaf w => rw [Option.some.inj (Option.some.inj here)]
  | dict d => cases Option.some.inj here

theorem Alike.dict_left {d : Dict κ α} {u : Tree κ α} (alike : Alike (dict d) u) : ∃ e, u = dict e := by
  have here := alike []
  rw [look_nil,look_nil] at here
  cases u with
  | leaf w => cases Option.some.inj here
  | dict e => exact ⟨e,rfl⟩

theorem alike_of_find {d e : Dict κ α} (each : ∀ k, Option.Rel Alike (Trees.find d k) (Trees.find e k)) :
    Alike (dict d) (dict e) := by
  intro p
  cases p with
  | nil => rw [look_nil,look_nil]; rfl
  | cons k rest =>
    rw [look_cons,look_cons,entries_dict,entries_dict]
    have step := each k
    generalize Trees.find d k = here, Trees.find e k = there at step ⊢
    cases step with
    | none => rfl
    | some alike => exact alike rest

/-- No dictionary in the tree has a key twice. -/
def Distinct (t : Tree κ α) : Prop := ∀ p d, look t p = some (dict d) → (d.map Prod.fst).Nodup

theorem Distinct.look {t u : Tree κ α} {p : List κ} (distinct : Distinct t) (reached : look t p = some u) :
    Distinct u := by
  intro q d reached'
  refine distinct (p ++ q) d ?_
  rw [look_append,reached]
  exact reached'

theorem Distinct.keys {d : Dict κ α} (distinct : Distinct (dict d)) : (d.map Prod.fst).Nodup :=
  distinct [] d (look_nil _)

theorem Distinct.entry {d : Dict κ α} {k : κ} {u : Tree κ α} (distinct : Distinct (dict d))
    (found : Trees.find d k = some u) : Distinct u :=
  distinct.look (p := [k]) (by rw [look_cons,entries_dict,found,Option.bind_some,look_nil])

theorem distinct_leaf (v : α) : Distinct (leaf v : Tree κ α) := by
  intro p d reached
  cases p <;> cases reached

theorem distinct_dict {d : Dict κ α} (keys : (d.map Prod.fst).Nodup) (below : ∀ e ∈ d, Distinct e.2) :
    Distinct (dict d) := by
  intro p e reached
  cases p with
  | nil =>
    rw [look_nil] at reached
    exact dict.inj (Option.some.inj reached) ▸ keys
  | cons k rest =>
    rw [look_cons,entries_dict] at reached
    obtain ⟨u,found,further⟩ := Option.bind_eq_some_iff.mp reached
    exact below (k,u) (mem_of_find found) rest e further

mutual
/-- Comparing entry by entry, in any order. -/
def same [DecidableEq α] : Tree κ α → Tree κ α → Bool
  | leaf v, leaf w => v = w
  | dict d, dict e => d.length = e.length && sameEntries d e
  | _, _ => false
def sameEntries [DecidableEq α] : List (κ × Tree κ α) → Dict κ α → Bool
  | [], _ => true
  | (k,v)::rest, e => (match find e k with | some w => same v w | none => false) && sameEntries rest e
end

theorem sameEntries_iff [DecidableEq α] {d e : Dict κ α} :
    sameEntries d e = true ↔ ∀ k v, (k,v) ∈ d → ∃ w, Trees.find e k = some w ∧ same v w = true := by
  induction d with
  | nil => simp [sameEntries]
  | cons entry rest ih =>
    obtain ⟨k,v⟩ := entry
    rw [sameEntries,Bool.and_eq_true,ih]
    constructor
    · rintro ⟨first,others⟩ k' v' member
      rcases List.mem_cons.mp member with here | later
      · obtain ⟨rfl,rfl⟩ := Prod.mk.inj here
        cases found : Trees.find e k' with
        | none => simp [found] at first
        | some w => exact ⟨w,rfl,by simpa [found] using first⟩
      · exact others k' v' later
    · intro all
      refine ⟨?_,fun k' v' member => all k' v' (List.mem_cons_of_mem _ member)⟩
      obtain ⟨w,found,equal⟩ := all k v (by simp)
      simpa [found] using equal

theorem same_length {d e : Dict κ α} (unique : (d.map Prod.fst).Nodup)
    (within : ∀ k, Trees.find d k ≠ none → Trees.find e k ≠ none) : d.length ≤ e.length := by
  have inside : d.map Prod.fst ⊆ e.map Prod.fst := by
    intro k member
    obtain ⟨entry,listed,rfl⟩ := List.mem_map.mp member
    exact find_isSome.mp (within _ (find_isSome.mpr (List.mem_map_of_mem listed)))
  simpa using (List.subperm_of_subset unique inside).length_le

mutual
theorem same_of_alike [DecidableEq α] : ∀ t u : Tree κ α, Distinct t → Distinct u → Alike t u → same t u = true
  | leaf v, u, _, _, alike => by
    obtain rfl := alike.leaf_left
    simp [same]
  | dict d, u, distinct, distinct', alike => by
    obtain ⟨e,rfl⟩ := alike.dict_left
    have long : d.length = e.length := by
      refine Nat.le_antisymm (same_length distinct.keys fun k => ?_) (same_length distinct'.keys fun k => ?_)
      · exact mt alike.symm.find_none
      · exact mt alike.find_none
    rw [same,Bool.and_eq_true,decide_eq_true_eq]
    refine ⟨long,sameEntries_of_alike d e (fun k v member => distinct.entry (find_of_mem distinct.keys member))
      (fun k v => distinct'.entry) fun k v member => ?_⟩
    exact alike.find_some (find_of_mem distinct.keys member)
theorem sameEntries_of_alike [DecidableEq α] : ∀ d e : Dict κ α, (∀ k v, (k,v) ∈ d → Distinct v) →
    (∀ k v, Trees.find e k = some v → Distinct v) →
    (∀ k v, (k,v) ∈ d → ∃ w, Trees.find e k = some w ∧ Alike v w) → sameEntries d e = true
  | [], _, _, _, _ => rfl
  | (k,v)::rest, e, first, second, all => by
    obtain ⟨w,found,alike⟩ := all k v (by simp)
    rw [sameEntries,Bool.and_eq_true,found]
    exact ⟨same_of_alike v w (first k v (by simp)) (second k w found) alike,
      sameEntries_of_alike rest e (fun k v member => first k v (List.mem_cons_of_mem _ member)) second
        fun k v member => all k v (List.mem_cons_of_mem _ member)⟩
end

theorem same_iff [DecidableEq α] {t u : Tree κ α} (distinct : Distinct t) (distinct' : Distinct u) :
    same t u = true ↔ Alike t u := by
  constructor
  · intro equal p
    induction p generalizing t u with
    | nil =>
      rw [look_nil,look_nil]
      cases t <;> cases u <;> simp_all [same,label]
    | cons k rest ih =>
      rw [look_cons,look_cons]
      cases t with
      | leaf v =>
        cases u with
        | leaf w => rfl
        | dict e => simp [same] at equal
      | dict d =>
        cases u with
        | leaf w => simp [same] at equal
        | dict e =>
          rw [same,Bool.and_eq_true,decide_eq_true_eq,sameEntries_iff] at equal
          obtain ⟨long,equal⟩ := equal
          rw [entries_dict,entries_dict]
          have forward {k : κ} {v : Tree κ α} (found : Trees.find d k = some v) := equal k v (mem_of_find found)
          cases found : Trees.find d k with
          | some v =>
            obtain ⟨w,found',equal'⟩ := forward found
            rw [found']
            exact ih (distinct.entry found) (distinct'.entry found') equal'
          | none =>
            cases found' : Trees.find e k with
            | none => rfl
            | some w =>
              -- a key of the second alone would make it longer
              have shorter : ((k,w)::d).length ≤ e.length := by
                refine same_length (List.nodup_cons.mpr ⟨fun member => find_isSome.mpr member found,distinct.keys⟩) ?_
                intro k' present
                by_cases here : k = k'
                · rw [← here,found']
                  exact Option.some_ne_none w
                · rw [Trees.find,if_neg here] at present
                  obtain ⟨v,found⟩ := Option.ne_none_iff_exists'.mp present
                  obtain ⟨w',found',_⟩ := forward found
                  rw [found']
                  exact Option.some_ne_none w'
              rw [List.length_cons] at shorter
              omega
  · exact same_of_alike t u distinct distinct'

/-! ## The dictionaries of a tree -/

inductive Contains : Tree κ α → Dict κ α → Prop
  | whole (d : Dict κ α) : Contains (dict d) d
  | entry {d e : Dict κ α} {k : κ} {u : Tree κ α} (member : (k,u) ∈ d) (below : Contains u e) : Contains (dict d) e

omit [DecidableEq κ] in
theorem Contains.sub {t : Tree κ α} {d e : Dict κ α} {k : κ} (contains : Contains t d) (member : (k,dict e) ∈ d) :
    Contains t e := by
  induction contains with
  | whole d => exact .entry member (.whole e)
  | entry inside _ ih => exact .entry inside (ih member)

theorem contains_of_look {t : Tree κ α} {s : List κ} {d : Dict κ α} (there : look t s = some (dict d)) :
    Contains t d := by
  induction s generalizing t with
  | nil =>
    rw [look_nil] at there
    obtain rfl := Option.some.inj there
    exact .whole d
  | cons k rest ih =>
    cases t with
    | leaf v => rw [look_cons] at there; cases there
    | dict entries =>
      rw [look_cons] at there
      obtain ⟨u,found,below⟩ := Option.bind_eq_some_iff.mp there
      exact .entry (mem_of_find found) (ih below)

omit [DecidableEq κ] in
theorem finite_contains : ∀ t : Tree κ α, {d | Contains t d}.Finite
  | leaf v => by
    refine Set.Finite.subset Set.finite_empty fun d contains => ?_
    cases contains
  | dict entries => by
    have below : (⋃ e ∈ {e | e ∈ entries},{d | Contains e.2 d}).Finite := by
      refine (List.finite_toSet entries).biUnion fun e member => ?_
      have smaller : sizeOf e.2 < 1 + sizeOf entries := by
        have := List.sizeOf_lt_of_mem member
        cases e
        simp only [Prod.mk.sizeOf_spec] at this ⊢
        omega
      exact finite_contains e.2
    refine ((Set.finite_singleton entries).union below).subset fun d contains => ?_
    cases contains with
    | whole => exact .inl rfl
    | entry member inside => exact .inr (Set.mem_biUnion member inside)
termination_by t => sizeOf t

end Tree
end Trees
