import Mathlib.Data.List.AList

/-! How many values of a finite map have a property, and how that number moves
when one entry is written or erased. -/
namespace Tally

variable {α β : Type} [DecidableEq α]

def tally (p : β → Bool) (m : AList fun _ : α => β) : Nat := m.entries.countP fun e => p e.2

def share (p : β → Bool) (m : AList fun _ : α => β) (a : α) : Nat :=
  match m.lookup a with
  | some b => if p b then 1 else 0
  | none => 0

variable (p : β → Bool) (m : AList fun _ : α => β) (a : α)

omit [DecidableEq α] in
@[simp] theorem tally_empty : tally p (∅ : AList fun _ : α => β) = 0 := rfl

theorem share_of_lookup {b : β} (found : m.lookup a = some b) : share p m a = if p b then 1 else 0 := by
  simp [share,found]

theorem share_of_absent (absent : m.lookup a = none) : share p m a = 0 := by
  simp [share,absent]

theorem tally_erase : tally p (m.erase a) + share p m a = tally p m := by
  cases found : m.lookup a with
  | none =>
    have absent : a ∉ m := AList.lookup_eq_none.mp found
    have same : (m.erase a).entries = m.entries := List.kerase_of_notMem_keys absent
    simp [tally,share,found,same]
  | some b =>
    have member : a ∈ m.entries.keys := AList.mem_keys.mp (AList.lookup_isSome.mp (by simp [found]))
    obtain ⟨c,before,after,first,split,erased⟩ := List.exists_of_kerase member
    have value : c = b := by
      have here : m.entries.dlookup a = some c := by
        apply (List.mem_dlookup_iff m.nodupKeys).mpr
        rw [split]
        simp
      exact Option.some.inj (here.symm.trans found)
    subst value
    have whole : tally p m = (before ++ ⟨a,c⟩ :: after).countP fun e => p e.2 := by rw [tally,split]
    have rest : tally p (m.erase a) = (before ++ after).countP fun e => p e.2 := by
      rw [tally,← erased]
      rfl
    rw [whole,rest,share_of_lookup p m a found]
    simp only [List.countP_append,List.countP_cons]
    omega

theorem tally_insert (b : β) : tally p (m.insert a b) + share p m a = tally p m + if p b then 1 else 0 := by
  have written : tally p (m.insert a b) = tally p (m.erase a) + if p b then 1 else 0 := by
    simp only [tally,AList.entries_insert,List.countP_cons]
    rfl
  have erased := tally_erase p m a
  omega

omit [DecidableEq α] in
theorem tally_add {p q r : β → Bool}
    (parts : ∀ b, ((if p b then 1 else 0) + if q b then 1 else 0) = if r b then 1 else 0) :
    tally p m + tally q m = tally r m := by
  rw [tally,tally,tally]
  induction m.entries with
  | nil => rfl
  | cons e rest ih =>
    have here := parts e.2
    simp only [List.countP_cons]
    omega

theorem tally_eq_zero : tally p m = 0 ↔ ∀ a b, m.lookup a = some b → p b = false := by
  rw [tally,List.countP_eq_zero]
  constructor
  · intro none a b found
    have member : (⟨a,b⟩ : Sigma fun _ : α => β) ∈ m.entries := AList.mem_lookup_iff.mp found
    simpa using none _ member
  · intro none e member
    have found : m.lookup e.1 = some e.2 := AList.mem_lookup_iff.mpr member
    simpa using none e.1 e.2 found

end Tally
