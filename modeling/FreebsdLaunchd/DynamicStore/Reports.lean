import FreebsdLaunchd.DynamicStore.Bookkeeping

/-! What a session is told when it fetches its changes: the keys that were set,
removed or notified while it watched them, since it fetched them last. -/
namespace FreebsdLaunchd.DynamicStore
open State

variable {Regex : Type} {os : Platform Regex} {st : State Regex}

private theorem changesOf_initial (z : CFString) : ({} : State Regex).changesOf z = [] := rfl

private theorem changes_history {requests : List Request} (meets : Runs.Meets (step os) Admissible {} requests)
    (s : Int) (k : CFString) :
    k ∈ (Runs.run (step os) {} requests).changesOf (sessionKey s) ↔
      ∃ before r after, requests = before ++ r :: after ∧
        (Announces os (Runs.run (step os) {} before) r k ∧
          Watching os (Runs.run (step os) {} before) s k) ∧
        Runs.Meets (step os) (fun st r => ¬ Drains st r s) (Runs.run (step os) {} before) (r :: after) := by
  have keeps (st : State Regex) (r : Request) (atRest : AtRest os st) (admissible : Admissible st r) :
      AtRest os (step os st r) := (step_effect atRest admissible).atRest
  have history := Runs.held_iff (fun st => k ∈ st.changesOf (sessionKey s))
    (fun st r => Announces os st r k ∧ Watching os st s k) (fun st r => Drains st r s) keeps
    (fun st r atRest admissible => (step_effect atRest admissible).changes s k) initial_atRest meets
  rw [history,changesOf_initial]
  simp

private theorem notifychanges_reply {server : Int} {store : StorePrivate} (found : st.getSession server = some store) :
    (notifychanges server st).1 = st.changesOf (sessionKey store.server) := by
  simp only [notifychanges,found,copyNotifiedKeys_eq]

/-- Every request after every run: which keys it announces, whose changes these
become, and what a session that fetches its changes is told. -/
theorem changes_told_once {requests : List Request} (meets : Runs.Meets (step os) Admissible {} requests) :
    let st := Runs.run (step os) {} requests
    (∀ r, Admissible st r →
      (∀ k, copyValue k (step os st r) ≠ copyValue k st → Announces os st r k) ∧
      (∀ s k, k ∈ (step os st r).changesOf (sessionKey s) ↔ ¬ Drains st r s ∧
        (k ∈ st.changesOf (sessionKey s) ∨ Announces os st r k ∧ Watching os st s k)) ∧
      (∀ s k, Announces os st r k → Watching os st s k → ¬ Drains st r s →
        s ∈ (step os st r).needsNotification) ∧
      ∀ z, ((step os st r).changesOf z).Nodup) ∧
    ∀ server store, st.getSession server = some store → ∀ k,
      k ∈ (notifychanges server st).1 ↔ ∃ before r after, requests = before ++ r :: after ∧
        (Announces os (Runs.run (step os) {} before) r k ∧
          Watching os (Runs.run (step os) {} before) store.server k) ∧
        Runs.Meets (step os) (fun st r => ¬ Drains st r store.server) (Runs.run (step os) {} before)
          (r :: after) := by
  intro st
  have atRest : AtRest os st := Reachable.atRest ⟨requests,meets,rfl⟩
  refine ⟨?_,?_⟩
  · intro r admissible
    have effect := step_effect atRest admissible
    refine ⟨?_,effect.changes,effect.needs,effect.atRest.consistent.noted.distinct⟩
    intro k changed
    by_contra silent
    rw [copyValue_eq,copyValue_eq] at changed
    exact changed (effect.silent k silent).1
  · intro server store found k
    rw [notifychanges_reply found]
    exact changes_history meets store.server k

theorem changes_told_once_again :
    aKey ∈ (step literal (Runs.run (step literal) {} watchTwice) (.configset 5 aKey [8] true)).changesOf
      (sessionKey 5) := by
  have meets : Runs.Meets (step literal) Admissible {} watchTwice :=
    ⟨⟨by decide,by decide⟩,trivial,trivial,trivial,trivial⟩
  obtain ⟨announced,told,_,_⟩ := (changes_told_once meets).1 (.configset 5 aKey [8] true) trivial
  exact (told 5 aKey).mpr ⟨id,.inr ⟨announced aKey (by decide),.inl (by decide)⟩⟩

def unwatch : List Request :=
  [.configopen 1 ['w'] none 5,.notifyadd 5 aKey false,.configset 5 aKey [7] true,
    .notifyremove 5 aKey false]

/-- It still has the key among its changes when the key changes once more. -/
theorem unwatched_key_stays_changed :
    Runs.Meets (step literal) Admissible {} unwatch ∧
      copyValue aKey (step literal (Runs.run (step literal) {} unwatch) (.configset 5 aKey [8] true)) ≠
        copyValue aKey (Runs.run (step literal) {} unwatch) ∧
      ¬ ∀ s, aKey ∈ (step literal (Runs.run (step literal) {} unwatch) (.configset 5 aKey [8] true)).changesOf
          (sessionKey s) ↔ Watching literal (Runs.run (step literal) {} unwatch) s aKey := by
  refine ⟨⟨⟨by decide,by decide⟩,trivial,trivial,trivial,trivial⟩,by decide,?_⟩
  intro exactly
  have keys : (Runs.run (step literal) {} unwatch).watchedKeys 5 = [] := by decide
  have patterns : (Runs.run (step literal) {} unwatch).watchedPatterns 5 = [] := by decide
  have watching := (exactly 5).mp (by decide)
  simp [Watching,keys,patterns] at watching

end FreebsdLaunchd.DynamicStore
