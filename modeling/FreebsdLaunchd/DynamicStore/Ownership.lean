import FreebsdLaunchd.DynamicStore.Bookkeeping

/-! Temporary keys. A key's entry names its owner exactly when the owner's list
has the key, writing or removing a key by somebody else clears both, and a
session takes its keys with it. -/
namespace FreebsdLaunchd.DynamicStore
open State

variable {Regex : Type} {os : Platform Regex} {st st' : State Regex}

theorem AtRest.sessionKeys_open (atRest : AtRest os st) {s : Int} {k : CFString}
    (member : k ∈ st.sessionKeysOf (sessionKey s)) : Open st s := by
  obtain ⟨_,t,isOpen,same,_⟩ :=
    atRest.consistent.owned.owner k (sessionKey s) (atRest.mem_sessionKeys.mp member)
  rw [sessionKey_injective same]
  exact isOpen

theorem AtRest.cleanup_data (atRest : AtRest os st) (n : Int) (k : CFString) :
    ((cleanupSession os n st).entry k).data =
      if k ∈ st.sessionKeysOf (sessionKey n) then none else (st.entry k).data := by
  by_cases isOpen : Open st n
  · simp only [(cleanupSession_spec atRest isOpen).data,atRest.mem_sessionKeys]
  · rw [cleanupSession_of_closed isOpen,if_neg fun member => isOpen (atRest.sessionKeys_open member)]

/-- The key is not `s`'s once an operation that leaves it to nobody, or to
somebody else, has been performed. -/
theorem Performed.disowned {b : Board} {s : Int} {k : CFString} (performed : Performed os st b st')
    (other : b.owner k ≠ some (sessionKey s)) : k ∉ st'.sessionKeysOf (sessionKey s) := by
  rw [performed.atRest.mem_sessionKeys]
  rw [← performed.board] at other
  exact other

variable {s server : Int} {store : StorePrivate} {k : CFString}

private theorem put_disowns (b : Board) (v : CFData) (permanent : store.useSessionKeys = false)
    (apart : store.server ≠ s) :
    (b.put (sessionKey store.server) store.useSessionKeys k v).owner k ≠ some (sessionKey s) := by
  simp only [NoticeBoard.put,permanent,NoticeBoard.post,Bool.false_eq_true,if_false,
    Function.update_self]
  split
  · intro same
    exact apart (sessionKey_injective (Option.some.inj same))
  · simp

private theorem configset_of_session (found : sessionFor os server st = some store) (data : CFData) :
    (configset os server k data true st).2 = (dynamicStoreSetValue os store k data false st).2 := by
  rw [configset,found]
  rfl

private theorem confignotify_of_session (found : sessionFor os server st = some store) :
    (confignotify os server k true st).2 = (dynamicStoreNotifyValue os store k false st).2 := by
  rw [confignotify,found]
  rfl

private theorem configremove_of_session (found : sessionFor os server st = some store) :
    (configremove os server k true st).2 = (dynamicStoreRemoveValue os k false st).2 := by
  rw [configremove,found]
  rfl

theorem session_key_ownership (reachable : Reachable os st) :
    (∀ k z, (st.entry k).session = some z ↔
      ∃ s, Open st s ∧ z = sessionKey s ∧ k ∈ st.sessionKeysOf (sessionKey s)) ∧
    (∀ k s t, k ∈ st.sessionKeysOf (sessionKey s) → k ∈ st.sessionKeysOf (sessionKey t) → s = t) ∧
    (∀ s k server store, k ∈ st.sessionKeysOf (sessionKey s) → sessionFor os server st = some store →
      k ∉ (configremove os server k true st).2.sessionKeysOf (sessionKey s) ∧
      (store.useSessionKeys = false → store.server ≠ s →
        (∀ data, k ∉ (configset os server k data true st).2.sessionKeysOf (sessionKey s)) ∧
        k ∉ (confignotify os server k true st).2.sessionKeysOf (sessionKey s))) ∧
    ∀ n k, copyValue k (cleanupSession os n st) =
      if k ∈ st.sessionKeysOf (sessionKey n) then none else copyValue k st := by
  have atRest := reachable.atRest
  refine ⟨?_,?_,?_,?_⟩
  · intro k z
    constructor
    · intro owner
      obtain ⟨_,s,isOpen,rfl,member⟩ := atRest.consistent.owned.owner k z owner
      exact ⟨s,isOpen,rfl,member⟩
    · rintro ⟨s,_,rfl,member⟩
      exact atRest.mem_sessionKeys.mp member
  · intro k s t mine yours
    have same := (atRest.mem_sessionKeys.mp mine).symm.trans (atRest.mem_sessionKeys.mp yours)
    exact sessionKey_injective (Option.some.inj same)
  · intro s k server store member found
    have owner : (board os st).owner k = some (sessionKey s) := atRest.mem_sessionKeys.mp member
    have value : ((board os st).value k).isSome :=
      (atRest.consistent.owned.owner k _ owner).1
    refine ⟨?_,?_⟩
    · rw [configremove_of_session found]
      apply (removeValue_performed atRest k).disowned
      simp [NoticeBoard.discard,Option.isSome_iff_ne_none.mp value,NoticeBoard.post]
    · intro permanent apart
      refine ⟨?_,?_⟩
      · intro data
        rw [configset_of_session found]
        apply (setValue_performed atRest (sessionFor_open found) k data).disowned
        exact put_disowns _ data permanent apart
      · rw [confignotify_of_session found]
        apply (notifyValue_performed atRest (sessionFor_open found) k).disowned
        obtain ⟨v,value⟩ := Option.isSome_iff_exists.mp value
        simp only [NoticeBoard.touch,value]
        exact put_disowns _ v permanent apart
  · intro n k
    rw [copyValue_eq,copyValue_eq]
    exact atRest.cleanup_data n k

def ownKey : List Request :=
  [.configopen 1 ['a'] none 5,.configopen 1 ['b'] none 6,.configaddS 5 aKey [7] true]

theorem session_key_ownership_overwritten :
    aKey ∈ (Runs.run (step literal) {} ownKey).sessionKeysOf (sessionKey 5) ∧
      aKey ∉ (configset literal 6 aKey [8] true (Runs.run (step literal) {} ownKey)).2.sessionKeysOf
        (sessionKey 5) := by
  have reachable : Reachable literal (Runs.run (step literal) {} ownKey) :=
    ⟨ownKey,⟨⟨by decide,by decide⟩,⟨by decide,by decide⟩,trivial,trivial⟩,rfl⟩
  have member : aKey ∈ (Runs.run (step literal) {} ownKey).sessionKeysOf (sessionKey 5) := by decide
  have found : sessionFor literal 6 (Runs.run (step literal) {} ownKey) = some { server := 6 } := by decide
  exact ⟨member,((session_key_ownership reachable).2.2.1 5 aKey 6 _ member found).2 rfl (by decide) |>.1 [8]⟩

end FreebsdLaunchd.DynamicStore
