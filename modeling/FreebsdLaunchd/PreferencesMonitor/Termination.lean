import FreebsdLaunchd.PreferencesMonitor.Loading
import FreebsdLaunchd.Library.Descents

/-! Whether flattening comes to an end. Nothing in it counts the links that are
followed on the way down, so that it does exactly if no dictionary that it enters
is entered again below itself. -/
namespace FreebsdLaunchd.PreferencesMonitor
open Trees Tree Preferences Descents Relation

variable {α : Type} {prefs : PrefsPrivate α} {base d : CFDictionary α} {newPrefs : NewPrefs α}

/-- `flatten` enters the second dictionary from the first: it is a dictionary in the
first one, or in the one that the first links to. -/
def Enters (prefs : PrefsPrivate α) (d sub : CFDictionary α) : Prop :=
  ∃ subset k, opened prefs d = some subset ∧ (k,Tree.dict sub) ∈ subset

private theorem expands_iff : Expands prefs base ↔ Ends (Enters prefs) base := by
  constructor
  · intro expands
    induction expands with
    | intro _ ih =>
      refine .intro _ fun sub entered => ?_
      obtain ⟨subset,k,opens,member⟩ := entered
      exact ih subset k sub opens member
  · intro ends
    induction ends with
    | intro d _ ih => exact .intro fun subset k sub opens member => ih sub ⟨subset,k,opens,member⟩

/-- All that is entered is in the preferences, or where the descent began. -/
theorem finite_entered (prefs : PrefsPrivate α) (base : CFDictionary α) :
    {d | ReflTransGen (Enters prefs) base d}.Finite := by
  have opened_contained {d subset : CFDictionary α} (opens : opened prefs d = some subset) :
      subset = d ∨ prefs.tree.Contains subset := by
    have follows := (Option.filter_eq_some_iff.mp opens).1
    unfold followed at follows
    split at follows
    · exact .inl (Option.some.inj follows).symm
    · split at follows
      · cases follows
      · next got =>
        obtain ⟨s,there⟩ := pathGetValue_within got
        exact .inr (Option.some.inj follows ▸ contains_of_look there)
  refine ((finite_contains (Tree.dict base)).union (finite_contains prefs.tree)).subset fun d reach => ?_
  induction reach with
  | refl => exact .inl (.whole base)
  | tail _ entered ih =>
    obtain ⟨subset,k,opens,member⟩ := entered
    rcases opened_contained opens with rfl | inside
    · exact ih.imp (fun here => here.sub member) (fun here => here.sub member)
    · exact .inr (inside.sub member)

/-- If the loop over the entries comes to an end, so does each turn. -/
theorem foldlM_each {A E : Type} {step : A → E → Option A} {entries : List E} {a b : A}
    (went : entries.foldlM step a = some b) {e : E} (member : e ∈ entries) : ∃ a', (step a' e).isSome := by
  induction entries generalizing a with
  | nil => cases member
  | cons first rest ih =>
    obtain ⟨middle,here,others⟩ := Option.bind_eq_some_iff.mp went
    rcases List.mem_cons.mp member with rfl | later
    · exact ⟨a,by rw [here]; rfl⟩
    · exact ih others later

private theorem expands_of_flatten {depth : Nat} {key : CFString} (went : (flatten prefs depth key base newPrefs).isSome) :
    Expands prefs base := by
  induction depth generalizing base key newPrefs with
  | zero => cases went
  | succ depth ih =>
    refine .intro fun subset k sub opens member => ?_
    rw [flatten_succ,opens] at went
    simp only [] at went
    cases looped : subset.foldlM (flattenEntry (flatten prefs depth) key)
        ((find newPrefs (setupKey key)).getD [],newPrefs) with
    | none => rw [looped] at went; cases went
    | some state =>
      obtain ⟨state',turned⟩ := foldlM_each looped member
      exact ih (by simpa [flattenEntry] using turned)

/-- The recursion comes to an end whatever has been flattened before. -/
theorem flatten_ends_iff (key : CFString) (newPrefs : NewPrefs α) :
    (∃ depth, (flatten prefs depth key base newPrefs).isSome) ↔ Acyclic (Enters prefs) base := by
  rw [← ends_iff (finite_entered prefs base),← expands_iff]
  constructor
  · rintro ⟨depth,went⟩
    exact expands_of_flatten went
  · intro expands
    obtain ⟨depth,settled⟩ := flatten_settles expands
    obtain ⟨newPrefs',went⟩ := settled key newPrefs
    have now : flatten prefs depth key base newPrefs = some newPrefs' := went depth (Nat.le_refl _)
    exact ⟨depth,by rw [now]; rfl⟩

/-! ## The update -/

/-- The dictionaries that are flattened: the system's and the current set's, but
neither if the system's is no dictionary. -/
def Starts (prefs : PrefsPrivate α) (base : CFDictionary α) : Prop :=
  match scPreferencesGetValue prefs kSCPrefSystem with
  | some (.leaf _) => False
  | _ => system prefs = some base ∨ (currentSet prefs).map Prod.snd = some base

private theorem getSet_isSome {depth : Nat} : (getSet prefs depth newPrefs).isSome ↔
    ∀ theSet, (currentSet prefs).map Prod.snd = some theSet →
      (flatten prefs depth "/".toList theSet newPrefs).isSome := by
  unfold getSet currentSet scPreferencesGetValue
  cases find prefs.prefs kSCPrefCurrentSet with
  | none => simp
  | some u =>
    cases u with
    | dict _ => simp
    | leaf v =>
      cases v with
      | other _ => simp
      | string current =>
        cases got : scPreferencesPathGetValue prefs (.leaf (.string current)) with
        | error _ => simp [got]
        | ok theSet => simp [got]

private theorem system_eq_none (absent : scPreferencesGetValue prefs kSCPrefSystem = none) : system prefs = none := by
  have absent : find prefs.prefs kSCPrefSystem = none := absent
  simp [system,absent]

private theorem system_eq_some {global : CFDictionary α}
    (present : scPreferencesGetValue prefs kSCPrefSystem = some (.dict global)) : system prefs = some global := by
  have present : find prefs.prefs kSCPrefSystem = some (.dict global) := present
  simp [system,present]

/-- From some depth on the current set is flattened over whatever there is. -/
theorem getSet_settles (expands : ∀ theSet, (currentSet prefs).map Prod.snd = some theSet → Expands prefs theSet) :
    ∃ depth, ∀ more, depth ≤ more → ∀ newPrefs, (getSet prefs more newPrefs).isSome := by
  cases there : (currentSet prefs).map Prod.snd with
  | none => exact ⟨0,fun more _ newPrefs => getSet_isSome.mpr fun theSet present => by rw [there] at present; cases present⟩
  | some theSet =>
    obtain ⟨depth,settled⟩ := flatten_settles (expands theSet there)
    refine ⟨depth,fun more enough newPrefs => getSet_isSome.mpr fun theSet' present => ?_⟩
    rw [there] at present
    obtain rfl := Option.some.inj present
    obtain ⟨newPrefs',went⟩ := settled "/".toList newPrefs
    have now : flatten prefs more "/".toList theSet newPrefs = some newPrefs' := went more enough
    rw [now]
    rfl

private theorem loadPreferences_ends_iff : (∃ depth, (loadPreferences prefs depth).isSome) ↔
    ∀ base, Starts prefs base → Expands prefs base := by
  by_cases empty : prefs.prefs = []
  · have absent : scPreferencesGetValue prefs kSCPrefSystem = none := by simp [scPreferencesGetValue,empty]
    have noSet : currentSet prefs = none := by simp [currentSet,empty]
    refine ⟨fun _ base starts => ?_,fun _ => ⟨0,by simp [loadPreferences,empty]⟩⟩
    simp [Starts,absent,system_eq_none absent,noSet] at starts
  · cases there : scPreferencesGetValue prefs kSCPrefSystem with
    | none =>
      simp only [loadPreferences,empty,if_false,there,Starts,system_eq_none there]
      constructor
      · rintro ⟨depth,went⟩ base starts
        exact expands_of_flatten (getSet_isSome.mp went base (starts.resolve_left (by simp)))
      · intro expands
        obtain ⟨depth,went⟩ := getSet_settles fun theSet present => expands theSet (.inr present)
        exact ⟨depth,went depth (Nat.le_refl _) []⟩
    | some u =>
      cases u with
      | leaf v =>
        refine ⟨fun _ base starts => ?_,fun _ => ⟨0,by simp [loadPreferences,empty,there]⟩⟩
        simp [Starts,there] at starts
      | dict global =>
        simp only [loadPreferences,empty,if_false,there,Starts,system_eq_some there,Option.some.injEq]
        constructor
        · rintro ⟨depth,went⟩ base starts
          cases flat : flatten prefs depth "/".toList global [] with
          | none =>
            rw [flat] at went
            cases went
          | some newPrefs =>
            rw [flat] at went
            rcases starts with rfl | present
            · exact expands_of_flatten (by rw [flat]; rfl)
            · exact expands_of_flatten (getSet_isSome.mp went base present)
        · intro expands
          obtain ⟨depth,settled⟩ := flatten_settles (expands global (.inl rfl))
          obtain ⟨depth',went'⟩ := getSet_settles fun theSet present => expands theSet (.inr present)
          obtain ⟨newPrefs,went⟩ := settled "/".toList []
          have now : flatten prefs (max depth depth') "/".toList global [] = some newPrefs := went _ (by omega)
          exact ⟨max depth depth',by rw [now]; exact went' _ (by omega) newPrefs⟩

/-- An update comes to an end exactly if no dictionary entered from the system's or
from the current set's is entered again below itself. -/
theorem update_ends_iff [DecidableEq α] (prefs : PrefsPrivate α) (date : α) (store : Store α) :
    (∃ depth, (updateSCDynamicStore prefs date depth store).isSome) ↔
      ∀ base, Starts prefs base → Acyclic (Enters prefs) base := by
  have same (depth : Nat) : (updateSCDynamicStore prefs date depth store).isSome = (loadPreferences prefs depth).isSome := by
    unfold updateSCDynamicStore
    cases loadPreferences prefs depth <;> rfl
  simp only [same,loadPreferences_ends_iff,expands_iff,ends_iff (finite_entered prefs _)]

/-- The network dictionary of the system links to the system. -/
def chasingItsTail : PrefsPrivate Nat :=
  ⟨[(kSCPrefSystem,.dict [("Network".toList,.dict [(kSCResvLink,.leaf (.string "/System".toList))])])],false⟩

theorem update_never_ends : ¬ ∀ (prefs : PrefsPrivate Nat) (date : Nat) (store : Store Nat),
    ∃ depth, (updateSCDynamicStore prefs date depth store).isSome := by
  intro always
  let network : CFDictionary Nat := [(kSCResvLink,.leaf (.string "/System".toList))]
  let global : CFDictionary Nat := [("Network".toList,.dict network)]
  have acyclic := (update_ends_iff chasingItsTail 0 []).mp (always chasingItsTail 0 []) global (.inl rfl)
  have down : Enters chasingItsTail global network := ⟨global,"Network".toList,rfl,List.mem_singleton.mpr rfl⟩
  have back : Enters chasingItsTail network network := ⟨global,"Network".toList,rfl,List.mem_singleton.mpr rfl⟩
  exact acyclic network (.single down) (.single back)

end FreebsdLaunchd.PreferencesMonitor
