import Mathlib.Data.List.Basic

/-! Finite runs of a machine whose events are handled one after another, and
the two run rules used for a property of every state a run passes: a step law
gives the property along the run, and where no step reaches the property
without the law, the law is exact. -/
namespace Runs

variable {S E : Type} (step : S → E → S)

def run (s : S) (events : List E) : S := events.foldl step s

/-- `P` holds in every state of the run, the first and the last included. -/
def Along (P : S → Prop) : S → List E → Prop
  | s, [] => P s
  | s, e::rest => P s ∧ Along P (step s e) rest

/-- Every step of the run is taken under the guard `G`. -/
def Meets (G : S → E → Prop) : S → List E → Prop
  | _, [] => True
  | s, e::rest => G s e ∧ Meets G (step s e) rest

variable {step}

theorem Along.last {P : S → Prop} {s : S} {events : List E}
    (along : Along step P s events) : P (run step s events) := by
  induction events generalizing s with
  | nil => exact along
  | cons e rest ih => exact ih along.2

theorem Along.imp {P Q : S → Prop} (stronger : ∀ s, P s → Q s) {s : S} {events : List E}
    (along : Along step P s events) : Along step Q s events := by
  induction events generalizing s with
  | nil => exact stronger s along
  | cons e rest ih => exact ⟨stronger s along.1,ih along.2⟩

theorem meets_of_forall {G : S → E → Prop} (always : ∀ s e, G s e) (s : S) (events : List E) :
    Meets step G s events := by
  induction events generalizing s with
  | nil => exact trivial
  | cons e rest ih => exact ⟨always s e,ih _⟩

theorem meets_of_mem {G : E → Prop} {events : List E} (always : ∀ e ∈ events, G e) (s : S) :
    Meets step (fun _ e => G e) s events := by
  induction events generalizing s with
  | nil => exact trivial
  | cons e rest ih =>
    rw [List.forall_mem_cons] at always
    exact ⟨always.1,ih always.2 _⟩

theorem Meets.and {G H : S → E → Prop} {s : S} {events : List E} (first : Meets step G s events)
    (second : Meets step H s events) : Meets step (fun s e => G s e ∧ H s e) s events := by
  induction events generalizing s with
  | nil => exact trivial
  | cons e rest ih => exact ⟨⟨first.1,second.1⟩,ih first.2 second.2⟩

theorem meets_append {G : S → E → Prop} {s : S} {events later : List E} :
    Meets step G s (events ++ later) ↔ Meets step G s events ∧ Meets step G (run step s events) later := by
  induction events generalizing s with
  | nil => exact ⟨fun meets => ⟨trivial,meets⟩,And.right⟩
  | cons e rest ih => exact (and_congr_right fun _ => ih).trans and_assoc.symm

theorem along_of_meets {P : S → Prop} {G : S → E → Prop}
    (keeps : ∀ s e, P s → G s e → P (step s e)) {s : S} {events : List E}
    (initial : P s) (meets : Meets step G s events) : Along step P s events := by
  induction events generalizing s with
  | nil => exact initial
  | cons e rest ih => exact ⟨initial,ih (keeps s e initial meets.1) meets.2⟩

theorem invariant {P : S → Prop} (keeps : ∀ s e, P s → P (step s e)) {s : S}
    (initial : P s) (events : List E) : P (run step s events) := by
  induction events generalizing s with
  | nil => exact initial
  | cons e rest ih => exact ih (keeps s e initial)

/-- Among the steps that `A` admits, let a guard `G` keep `P`, and let no step from
`P` reach `Q` without it. The guard is then exact for having `Q` along the run. -/
theorem along_iff_meets_of_admitted {P Q : S → Prop} {A G : S → E → Prop}
    (keeps : ∀ s e, A s e → P s → G s e → P (step s e))
    (reflects : ∀ s e, A s e → P s → Q (step s e) → G s e)
    (enough : ∀ s, P s → Q s) {s : S} (initial : P s) {events : List E} (admitted : Meets step A s events) :
    Along step Q s events ↔ Meets step G s events := by
  induction events generalizing s with
  | nil => exact ⟨fun _ => trivial,fun _ => enough s initial⟩
  | cons e rest ih =>
    have onward (guarded : G s e) := ih (keeps s e admitted.1 initial guarded) admitted.2
    constructor
    · intro along
      have next : Q (step s e) := by
        cases rest with
        | nil => exact along.2
        | cons e' rest' => exact along.2.1
      have guarded := reflects s e admitted.1 initial next
      exact ⟨guarded,(onward guarded).mp along.2⟩
    · intro meets
      exact ⟨enough s initial,(onward meets.1).mpr meets.2⟩

/-- What holds at every state of such a run holds of its steps. -/
theorem meets_of_along {P : S → Prop} {A G H : S → E → Prop}
    (keeps : ∀ s e, A s e → P s → G s e → P (step s e)) (gives : ∀ s e, P s → G s e → H s e) {s : S} (initial : P s)
    {events : List E} (admitted : Meets step A s events) (meets : Meets step G s events) : Meets step H s events := by
  induction events generalizing s with
  | nil => exact trivial
  | cons e rest ih =>
    exact ⟨gives s e initial meets.1,ih (keeps s e admitted.1 initial meets.1) admitted.2 meets.2⟩

/-- A guard that is exact for `Q` under an invariant `I`. -/
theorem along_iff_meets {I P Q : S → Prop} {G : S → E → Prop}
    (stable : ∀ s e, I s → I (step s e))
    (keeps : ∀ s e, I s → P s → G s e → P (step s e))
    (reflects : ∀ s e, I s → P s → Q (step s e) → G s e)
    (enough : ∀ s, I s → P s → Q s)
    {s : S} (sound : I s) (initial : P s) (events : List E) :
    Along step Q s events ↔ Meets step G s events :=
  along_iff_meets_of_admitted (P := fun s => I s ∧ P s) (A := fun _ _ => True)
    (fun s e _ both guarded => ⟨stable s e both.1,keeps s e both.1 both.2 guarded⟩)
    (fun s e _ both next => reflects s e both.1 both.2 next)
    (fun s both => enough s both.1 both.2) ⟨sound,initial⟩ (meets_of_forall (fun _ _ => trivial) s events)

/-- What a step may add to a holding, and a step may clear, is held at the end
of a run exactly if it has been held, or was added, and never cleared since. -/
theorem held_iff {I : S → Prop} {G : S → E → Prop} (held : S → Prop) (gains clears : S → E → Prop)
    (keeps : ∀ s e, I s → G s e → I (step s e))
    (law : ∀ s e, I s → G s e → (held (step s e) ↔ ¬ clears s e ∧ (held s ∨ gains s e)))
    {s : S} (initial : I s) {events : List E} (meets : Meets step G s events) :
    held (run step s events) ↔
      held s ∧ Meets step (fun s e => ¬ clears s e) s events ∨
      ∃ before e after, events = before ++ e :: after ∧ gains (run step s before) e ∧
        Meets step (fun s e => ¬ clears s e) (run step s before) (e :: after) := by
  induction events generalizing s with
  | nil => simp [run,Meets]
  | cons e rest ih =>
    have later := ih (keeps s e initial meets.1) meets.2
    have now := law s e initial meets.1
    constructor
    · intro holds
      rcases later.mp holds with ⟨holds,uncleared⟩ | ⟨before,e',after,rfl,gained,uncleared⟩
      · obtain ⟨kept,old | new⟩ := now.mp holds
        · exact .inl ⟨old,kept,uncleared⟩
        · exact .inr ⟨[],e,rest,rfl,new,kept,uncleared⟩
      · exact .inr ⟨e::before,e',after,rfl,gained,uncleared⟩
    · rintro (⟨old,kept,uncleared⟩ | ⟨before,e',after,split,gained,kept,uncleared⟩)
      · exact later.mpr (.inl ⟨now.mpr ⟨kept,.inl old⟩,uncleared⟩)
      · cases before with
        | nil =>
          obtain ⟨rfl,rfl⟩ := List.cons.inj split
          exact later.mpr (.inl ⟨now.mpr ⟨kept,.inr gained⟩,uncleared⟩)
        | cons first before =>
          obtain ⟨rfl,rfl⟩ := List.cons.inj split
          exact later.mpr (.inr ⟨before,e',after,rfl,gained,kept,uncleared⟩)

end Runs
