import Mathlib.Data.List.Nodup

/-! Names are entered in a list one after another, until one stands there
already or is refused. A list is replaced by another in two passes: what is no
longer wanted leaves, and then what is new is entered. -/
namespace Enrolment

variable {α : Type} [DecidableEq α]

inductive Outcome
  | entered | present | refused
  deriving DecidableEq

def enter (accepts : α → Bool) : List α → List α → Outcome × List α
  | listed, [] => (.entered,listed)
  | listed, a::rest =>
    if a ∈ listed then (.present,listed)
    else if accepts a then enter accepts (listed ++ [a]) rest
    else (.refused,listed)

def fresh (old wanted : List α) : List α := wanted.filter (· ∉ old)

def retained (old wanted : List α) : List α := old.filter (· ∈ wanted)

def replace (accepts : α → Bool) (old wanted : List α) : Outcome × List α :=
  enter accepts (retained old wanted) (fresh old wanted)

variable {accepts : α → Bool}

/-- The entering stops at the first name that is there already or is refused. -/
structure Halted (accepts : α → Bool) (listed wanted : List α) (taken : List α) : Prop where
  distinct : taken.Nodup
  new : ∀ a ∈ taken, a ∉ listed
  accepted : ∀ a ∈ taken, accepts a = true
  stop : ∃ a rest, wanted = taken ++ a :: rest ∧ (a ∈ listed ∨ a ∈ taken ∨ accepts a = false)

theorem enter_spec (accepts : α → Bool) (listed wanted : List α) :
    ((enter accepts listed wanted).1 = .entered ∧ (enter accepts listed wanted).2 = listed ++ wanted ∧
        wanted.Nodup ∧ (∀ a ∈ wanted, a ∉ listed) ∧ ∀ a ∈ wanted, accepts a = true) ∨
      ((enter accepts listed wanted).1 ≠ .entered ∧
        ∃ taken, (enter accepts listed wanted).2 = listed ++ taken ∧ Halted accepts listed wanted taken) := by
  induction wanted generalizing listed with
  | nil =>
    left
    simp [enter]
  | cons a rest ih =>
    have halt (why : a ∈ listed ∨ accepts a = false) : Halted accepts listed (a::rest) [] :=
      ⟨List.nodup_nil,by simp,by simp,a,rest,rfl,why.imp_right .inr⟩
    unfold enter
    split
    · next there => exact .inr ⟨by simp,[],by simp,halt (.inl there)⟩
    · next new =>
      split
      · next accepted =>
        rcases ih (listed ++ [a]) with ⟨done,list,distinct,others,all⟩ | ⟨stopped,taken,list,halted⟩
        · refine .inl ⟨done,by simp [list],List.nodup_cons.mpr ⟨?_,distinct⟩,?_,by simpa [accepted] using all⟩
          · intro again
            exact others a again (by simp)
          · intro b member
            rcases List.mem_cons.mp member with rfl | later
            · exact new
            · exact fun before => others b later (by simp [before])
        · obtain ⟨distinct,others,all,b,left,split,why⟩ := halted
          refine .inr ⟨stopped,a::taken,by simp [list],List.nodup_cons.mpr ⟨?_,distinct⟩,?_,by simpa [accepted] using all,
            b,left,by simp [split],?_⟩
          · intro again
            exact others a again (by simp)
          · intro c member
            rcases List.mem_cons.mp member with rfl | later
            · exact new
            · exact fun before => others c later (by simp [before])
          · simp only [List.mem_append,List.mem_cons] at why ⊢
            tauto
      · next refused => exact .inr ⟨by simp,[],by simp,halt (.inr (by simpa using refused))⟩

theorem mem_fresh {old wanted : List α} {a : α} : a ∈ fresh old wanted ↔ a ∈ wanted ∧ a ∉ old := by
  simp [fresh]

theorem mem_retained {old wanted : List α} {a : α} : a ∈ retained old wanted ↔ a ∈ old ∧ a ∈ wanted := by
  simp [retained]

theorem fresh_not_retained {old wanted : List α} {a : α} (new : a ∈ fresh old wanted) :
    a ∉ retained old wanted := fun kept => (mem_fresh.mp new).2 (mem_retained.mp kept).1

/-- The replacement is complete exactly if nothing new is wanted twice or refused. -/
theorem replace_entered_iff {old wanted : List α} : (replace accepts old wanted).1 = .entered ↔
    (fresh old wanted).Nodup ∧ ∀ a ∈ fresh old wanted, accepts a = true := by
  unfold replace
  rcases enter_spec accepts (retained old wanted) (fresh old wanted) with
    ⟨done,_,distinct,_,all⟩ | ⟨stopped,taken,_,halted⟩
  · exact ⟨fun _ => ⟨distinct,all⟩,fun _ => done⟩
  · refine ⟨fun done => absurd done stopped,?_⟩
    rintro ⟨distinct,all⟩
    obtain ⟨a,rest,split,why⟩ := halted.stop
    have member : a ∈ fresh old wanted := by simp [split]
    rcases why with there | again | refused
    · exact absurd there (fresh_not_retained member)
    · rw [split] at distinct
      exact absurd rfl ((List.nodup_append.mp distinct).2.2 a again a (by simp))
    · rw [all a member] at refused
      cases refused

/-- And then the list has what was wanted, and nothing else. -/
theorem mem_replace {old wanted : List α} (done : (replace accepts old wanted).1 = .entered) (a : α) :
    a ∈ (replace accepts old wanted).2 ↔ a ∈ wanted := by
  unfold replace at done ⊢
  rcases enter_spec accepts (retained old wanted) (fresh old wanted) with ⟨_,list,_⟩ | ⟨stopped,_⟩
  · rw [list,List.mem_append,mem_retained,mem_fresh]
    tauto
  · exact absurd done stopped

theorem replace_halted {old wanted : List α} (stopped : (replace accepts old wanted).1 ≠ .entered) :
    ∃ taken, (replace accepts old wanted).2 = retained old wanted ++ taken ∧
      Halted accepts (retained old wanted) (fresh old wanted) taken := by
  unfold replace at stopped ⊢
  rcases enter_spec accepts (retained old wanted) (fresh old wanted) with ⟨done,_⟩ | ⟨_,taken,list,halted⟩
  · exact absurd done stopped
  · exact ⟨taken,list,halted⟩

end Enrolment
