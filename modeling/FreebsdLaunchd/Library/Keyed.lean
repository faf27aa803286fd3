import Mathlib.Data.List.Nodup

/-! Linked lists of records found by a key: writing through a pointer to a
record, unlinking one, and what both do to the members, when no two records
have the same key. -/
namespace Keyed

variable {α κ β : Type} [DecidableEq κ] (key : α → κ)

def store (l : List α) (a : α) : List α := l.map fun x => if key x = key a then a else x

def unlink (l : List α) (k : κ) : List α := l.eraseP fun x => key x = k

def find (l : List α) (k : κ) : Option α := l.find? fun x => key x = k

variable {key}

theorem mem_store {l : List α} {a x : α} :
    x ∈ store key l a ↔ (x = a ∧ ∃ y ∈ l, key y = key a) ∨ (x ∈ l ∧ key x ≠ key a) := by
  simp only [store,List.mem_map]
  constructor
  · rintro ⟨y,member,rfl⟩
    by_cases same : key y = key a
    · exact .inl ⟨by simp [same],y,member,same⟩
    · exact .inr ⟨by simpa [same] using member,by simp [same]⟩
  · rintro (⟨rfl,y,member,same⟩ | ⟨member,other⟩)
    · exact ⟨y,member,by simp [same]⟩
    · exact ⟨x,member,by simp [other]⟩

theorem map_store (f : α → β) {l : List α} {a : α} (same : ∀ x ∈ l, key x = key a → f x = f a) :
    (store key l a).map f = l.map f := by
  simp only [store,List.map_map]
  apply List.map_congr_left
  intro x member
  by_cases equal : key x = key a
  · simp [equal,same x member equal]
  · simp [equal]

theorem map_key_store {l : List α} {a : α} : (store key l a).map key = l.map key :=
  map_store key (fun _ _ same => same)

theorem store_self {l : List α} {a : α} (same : ∀ x ∈ l, key x = key a → x = a) : store key l a = l := by
  simpa using map_store id same

theorem store_store {l : List α} {a b : α} (same : key b = key a) : store key (store key l a) b = store key l b := by
  simp only [store,List.map_map]
  apply List.map_congr_left
  intro x _
  by_cases equal : key x = key a <;> simp [equal,same]

omit [DecidableEq κ] in
theorem eq_of_key {l : List α} (distinct : (l.map key).Nodup) {a b : α} (ha : a ∈ l) (hb : b ∈ l)
    (same : key a = key b) : a = b :=
  List.inj_on_of_nodup_map distinct ha hb same

theorem mem_unlink {l : List α} (distinct : (l.map key).Nodup) {k : κ} {x : α} :
    x ∈ unlink key l k ↔ x ∈ l ∧ key x ≠ k := by
  induction l with
  | nil => simp [unlink]
  | cons y rest ih =>
    have apart := List.nodup_cons.mp distinct
    by_cases same : key y = k
    · rw [unlink,List.eraseP_cons_of_pos (by simpa using same)]
      constructor
      · intro member
        refine ⟨List.mem_cons_of_mem _ member,fun other => apart.1 ?_⟩
        rw [same,← other]
        exact List.mem_map_of_mem member
      · rintro ⟨member,other⟩
        rcases List.mem_cons.mp member with rfl | inside
        · exact absurd same other
        · exact inside
    · rw [unlink,List.eraseP_cons_of_neg (by simpa using same),List.mem_cons,List.mem_cons]
      have rest := ih apart.2
      rw [unlink] at rest
      rw [rest]
      constructor
      · rintro (rfl | ⟨member,other⟩)
        · exact ⟨.inl rfl,same⟩
        · exact ⟨.inr member,other⟩
      · rintro ⟨rfl | member,other⟩
        · exact .inl rfl
        · exact .inr ⟨member,other⟩

theorem unlink_sublist (l : List α) (k : κ) : (unlink key l k).Sublist l := List.eraseP_sublist

theorem unlink_store {l : List α} (distinct : (l.map key).Nodup) {a : α} :
    unlink key (store key l a) (key a) = unlink key l (key a) := by
  induction l with
  | nil => rfl
  | cons y rest ih =>
    have apart := List.nodup_cons.mp distinct
    by_cases same : key y = key a
    · have untouched : store key rest a = rest := store_self fun x member equal =>
        absurd (by rw [same,← equal]; exact List.mem_map_of_mem member) apart.1
      have first : store key (y::rest) a = a :: store key rest a := by simp [store,same]
      rw [first,untouched,unlink,unlink,List.eraseP_cons_of_pos (by simp),
        List.eraseP_cons_of_pos (by simpa using same)]
    · have first : store key (y::rest) a = y :: store key rest a := by simp [store,same]
      have later := ih apart.2
      rw [unlink,unlink] at later
      rw [first,unlink,unlink,List.eraseP_cons_of_neg (by simpa using same),
        List.eraseP_cons_of_neg (by simpa using same),later]

theorem find_some {l : List α} {k : κ} {a : α} (found : find key l k = some a) : a ∈ l ∧ key a = k :=
  ⟨List.mem_of_find?_eq_some found,by simpa using List.find?_some found⟩

theorem find_none {l : List α} {k : κ} (absent : find key l k = none) : ∀ x ∈ l, key x ≠ k := by
  simpa [find] using absent

theorem find_mem {l : List α} (distinct : (l.map key).Nodup) {a : α} (member : a ∈ l) :
    find key l (key a) = some a := by
  cases found : find key l (key a) with
  | none => exact absurd rfl (find_none found a member)
  | some b =>
    obtain ⟨inside,same⟩ := find_some found
    rw [eq_of_key distinct inside member same]

/-! Writes and unlinkings under different keys change places. -/

theorem store_comm {a b : α} (other : key a ≠ key b) (l : List α) :
    store key (store key l a) b = store key (store key l b) a := by
  simp only [store,List.map_map]
  apply List.map_congr_left
  intro x _
  by_cases first : key x = key a
  · simp [first,other]
  · by_cases second : key x = key b
    · simp [second,other.symm]
    · simp [first,second]

theorem unlink_comm {k k' : κ} (other : k ≠ k') (l : List α) :
    unlink key (unlink key l k) k' = unlink key (unlink key l k') k := by
  apply List.eraseP_comm
  intro x _
  by_cases same : key x = k
  · exact .inr (by simp [same,other])
  · exact .inl (by simp [same])

theorem store_unlink {a : α} {k : κ} (other : key a ≠ k) (l : List α) :
    store key (unlink key l k) a = unlink key (store key l a) k := by
  induction l with
  | nil => rfl
  | cons x rest ih =>
    rw [unlink,unlink] at ih
    by_cases here : key x = k
    · have still : store key (x::rest) a = x :: store key rest a := by simp [store,here,other.symm]
      rw [still,unlink,unlink,List.eraseP_cons_of_pos (by simpa using here),List.eraseP_cons_of_pos (by simpa using here)]
    · by_cases written : key x = key a
      · have first : store key (x::rest) a = a :: store key rest a := by simp [store,written]
        have again : ∀ l, store key (x::l) a = a :: store key l a := fun l => by simp [store,written]
        rw [first,unlink,unlink,List.eraseP_cons_of_neg (by simpa using here),List.eraseP_cons_of_neg (by simpa using other),
          again,ih]
      · have again : ∀ l, store key (x::l) a = x :: store key l a := fun l => by simp [store,written]
        rw [again,unlink,unlink,List.eraseP_cons_of_neg (by simpa using here),List.eraseP_cons_of_neg (by simpa using here),
          again,ih]

theorem find_store_ne {a : α} {k : κ} (other : key a ≠ k) (l : List α) : find key (store key l a) k = find key l k := by
  induction l with
  | nil => rfl
  | cons x rest ih =>
    rw [find,find] at ih
    by_cases written : key x = key a
    · have differs : key x ≠ k := written ▸ other
      have first : store key (x::rest) a = a :: store key rest a := by simp [store,written]
      rw [first,find,find,List.find?_cons_of_neg (by simpa using other),List.find?_cons_of_neg (by simpa using differs),ih]
    · have first : store key (x::rest) a = x :: store key rest a := by simp [store,written]
      by_cases here : key x = k
      · rw [first,find,find,List.find?_cons_of_pos (by simpa using here),List.find?_cons_of_pos (by simpa using here)]
      · rw [first,find,find,List.find?_cons_of_neg (by simpa using here),List.find?_cons_of_neg (by simpa using here),ih]

theorem find_unlink_ne {k k' : κ} (other : k ≠ k') (l : List α) : find key (unlink key l k) k' = find key l k' := by
  induction l with
  | nil => rfl
  | cons x rest ih =>
    rw [find,find,unlink] at ih
    by_cases here : key x = k
    · have differs : key x ≠ k' := here ▸ other
      rw [unlink,List.eraseP_cons_of_pos (by simpa using here),find,find,List.find?_cons_of_neg (by simpa using differs)]
    · rw [unlink,List.eraseP_cons_of_neg (by simpa using here),find,find]
      by_cases asked : key x = k'
      · rw [List.find?_cons_of_pos (by simpa using asked),List.find?_cons_of_pos (by simpa using asked)]
      · rw [List.find?_cons_of_neg (by simpa using asked),List.find?_cons_of_neg (by simpa using asked),ih]

/-- What is done under a key commutes with a map of the records that keeps it. -/
theorem store_map (f : α → α) (keeps : ∀ x, key (f x) = key x) (l : List α) (a : α) :
    (store key l a).map f = store key (l.map f) (f a) := by
  simp only [store,List.map_map]
  apply List.map_congr_left
  intro x _
  by_cases same : key x = key a <;> simp [keeps,same]

theorem unlink_map (f : α → α) (keeps : ∀ x, key (f x) = key x) (l : List α) (k : κ) :
    (unlink key l k).map f = unlink key (l.map f) k := by
  simp only [unlink,List.eraseP_map,Function.comp_def,keeps]

theorem find_map (f : α → α) (keeps : ∀ x, key (f x) = key x) (l : List α) (k : κ) :
    find key (l.map f) k = (find key l k).map f := by
  simp only [find,List.find?_map,Function.comp_def,keeps]

end Keyed

/-! Passes over a list of items where each item changes the state at its own key
only. With distinct keys, what a pass does at a key is what one item does there. -/
namespace Pointwise

variable {S I κ V : Type} [DecidableEq κ] (view : S → κ → V) (key : I → κ) (change : I → V → V) (step : S → I → S)

/-- An item changes what is seen at its key, by what has been seen there. -/
def Touches : Prop := ∀ s i k, view (step s i) k = if k = key i then change i (view s k) else view s k

variable {view key change step}

theorem Touches.elsewhere (touches : Touches view key change step) {items : List I} {k : κ} (other : k ∉ items.map key)
    (s : S) : view (items.foldl step s) k = view s k := by
  induction items generalizing s with
  | nil => rfl
  | cons i items ih =>
    rw [List.map_cons,List.mem_cons,not_or] at other
    rw [List.foldl_cons,ih other.2,touches,if_neg other.1]

theorem Touches.here (touches : Touches view key change step) {items : List I} (distinct : (items.map key).Nodup) {i : I}
    (member : i ∈ items) (s : S) : view (items.foldl step s) (key i) = change i (view s (key i)) := by
  induction items generalizing s with
  | nil => cases member
  | cons first items ih =>
    rw [List.map_cons,List.nodup_cons] at distinct
    rw [List.foldl_cons]
    rcases List.mem_cons.mp member with rfl | later
    · rw [touches.elsewhere distinct.1,touches,if_pos rfl]
    · have apart : key i ≠ key first := fun same => distinct.1 (same ▸ List.mem_map_of_mem later)
      rw [ih distinct.2 later,touches,if_neg apart]

end Pointwise
