import FreebsdLaunchd.DynamicStore.Bookkeeping

/-! Listing and fetching keys by a pattern. The list that is kept for a pattern
some session watches, and the scan made for one that nobody watches, hold the
same keys, so that what a client is told does not depend on who else watches. -/
namespace FreebsdLaunchd.DynamicStore
open State CData

variable {Regex : Type} {os : Platform Regex} {st st' : State Regex}

variable (os) in
def CacheSound (st : State Regex) : Prop :=
  ∀ pattern pInfo, st.patternData.lookup pattern = some pInfo →
    patternCompile os pattern = some pInfo.regex ∧
      ∀ k, k ∈ pInfo.keys ↔ (st.entry k).data.isSome ∧ matchesPattern os pattern k

theorem AtRest.cacheSound (atRest : AtRest os st) : CacheSound os st := by
  intro pattern pInfo found
  have sound := atRest.consistent.registry.cached.each pattern pInfo found
  refine ⟨sound.compiled,?_⟩
  intro k
  rw [sound.keys,Present,atRest.settled.deferred]
  simp [and_comm]

theorem CacheSound.forget (sound : CacheSound os st) (pattern : CFString) :
    CacheSound os { st with patternData := st.patternData.erase pattern } := by
  intro q pInfo found
  rw [lookup_erase_ite] at found
  split at found
  · cases found
  · exact sound q pInfo found

/-- The list of a pattern, whether it is cached or made on the spot. -/
theorem copyKeyList_spec (sound : CacheSound os st) (pattern : CFString) :
    (dynamicStoreCopyKeyList os pattern true st).1 =
        (if (patternCompile os pattern).isSome then .ok else .failed) ∧
      ∀ k, k ∈ (dynamicStoreCopyKeyList os pattern true st).2 ↔
        (st.entry k).data.isSome ∧ matchesPattern os pattern k := by
  simp only [dynamicStoreCopyKeyList,patternCopyMatches,patternCopy,if_true]
  cases cached : st.patternData.lookup pattern with
  | some pInfo =>
    obtain ⟨compiled,keys⟩ := sound pattern pInfo cached
    simp only [compiled,Option.map_some,Option.isSome_some,if_true]
    exact ⟨trivial,keys⟩
  | none =>
    cases scanned : patternNew os pattern st with
    | some pInfo =>
      obtain ⟨compiled,_,_,keys⟩ := patternNew_keys scanned
      simp only [compiled,Option.map_some,Option.isSome_some,if_true]
      exact ⟨trivial,fun k => (keys k).trans and_comm⟩
    | none =>
      have uncompiled : patternCompile os pattern = none := by
        cases compiled : patternCompile os pattern with
        | none => rfl
        | some pRegex => simp [patternNew,compiled] at scanned
      simp [uncompiled,matchesPattern]

/-! ## Fetching several keys -/

def Fetches (st : State Regex) (selected : CFString → Prop) (dict : AList fun _ : CFString => CFData) : Prop :=
  ∀ k v, dict.lookup k = some v ↔ (st.entry k).data = some v ∧ selected k

variable {dict : AList fun _ : CFString => CFData} {selected : CFString → Prop}

theorem Fetches.congr {selected' : CFString → Prop} (fetches : Fetches st selected dict)
    (same : ∀ k, (st.entry k).data.isSome → (selected' k ↔ selected k)) : Fetches st selected' dict := by
  intro k v
  rw [fetches]
  apply and_congr_right
  intro data
  exact (same k (by rw [data]; rfl)).symm

private theorem addSpecificKey_fetches (fetches : Fetches st selected dict) (item : Plist) :
    Fetches st (fun k => selected k ∨ item = .string k) (addSpecificKey st dict item) := by
  intro k v
  cases item with
  | data _ => simpa [addSpecificKey] using fetches k v
  | other => simpa [addSpecificKey] using fetches k v
  | string key =>
    simp only [addSpecificKey,copyValue_eq,Plist.string.injEq]
    by_cases here : key = k
    · subst here
      simp only [or_true,and_true]
      cases data : (st.entry key).data with
      | none => simp [fetches key v,data]
      | some value =>
        simp only
        split
        · rename_i known
          obtain ⟨u,found⟩ := Option.isSome_iff_exists.mp (AList.lookup_isSome.mpr known)
          have stored := ((fetches key u).mp found).1
          rw [found,← data,stored]
        · rw [lookup_insert_ite,if_pos rfl]
    · simp only [here,or_false]
      rw [← fetches k v]
      split
      · split
        · rfl
        · rw [lookup_insert_ite,if_neg (Ne.symm here)]
      · rfl

private theorem foldl_addSpecificKey (items : List Plist) (fetches : Fetches st selected dict) :
    Fetches st (fun k => selected k ∨ .string k ∈ items) (items.foldl (addSpecificKey st) dict) := by
  induction items generalizing dict selected with
  | nil => simpa using fetches
  | cons item rest ih =>
    apply (ih (addSpecificKey_fetches fetches item)).congr
    intro k _
    rw [List.mem_cons,or_assoc,eq_comm (a := Plist.string k)]

private theorem addSpecificPattern_fetches (sound : CacheSound os st) (fetches : Fetches st selected dict)
    (item : Plist) :
    Fetches st (fun k => selected k ∨ ∃ p, item = .string p ∧ matchesPattern os p k)
      (addSpecificPattern os st dict item) := by
  cases item with
  | data _ => simpa [addSpecificPattern] using fetches
  | other => simpa [addSpecificPattern] using fetches
  | string pattern =>
    obtain ⟨status,listed⟩ := copyKeyList_spec sound pattern
    have same (k : CFString) : (∃ p, Plist.string pattern = .string p ∧ matchesPattern os p k) ↔
        matchesPattern os pattern k := by simp
    cases compiled : patternCompile os pattern with
    | none =>
      simp only [compiled,Option.isSome_none,Bool.false_eq_true,if_false] at status
      have skipped : addSpecificPattern os st dict (.string pattern) = dict := by
        simp only [addSpecificPattern]
        split
        · rename_i ok
          rw [ok] at status
          cases status
        · rfl
      rw [skipped]
      apply fetches.congr
      intro k _
      simp [matchesPattern,compiled]
    | some pRegex =>
      simp only [compiled,Option.isSome_some,if_true] at status
      have added : addSpecificPattern os st dict (.string pattern) =
          ((dynamicStoreCopyKeyList os pattern true st).2.map Plist.string).foldl (addSpecificKey st) dict := by
        simp only [addSpecificPattern,List.foldl_map]
        split
        · rename_i ok
          rw [ok]
        · rename_i other
          exact (other (dynamicStoreCopyKeyList os pattern true st).2 (Prod.ext status rfl)).elim
      rw [added]
      apply (foldl_addSpecificKey _ fetches).congr
      intro k data
      rw [same,List.mem_map]
      simp only [Plist.string.injEq,exists_eq_right,listed,data,true_and]

private theorem foldl_addSpecificPattern (sound : CacheSound os st) (items : List Plist)
    (fetches : Fetches st selected dict) :
    Fetches st (fun k => selected k ∨ ∃ p, .string p ∈ items ∧ matchesPattern os p k)
      (items.foldl (addSpecificPattern os st) dict) := by
  induction items generalizing dict selected with
  | nil => simpa using fetches
  | cons item rest ih =>
    apply (ih (addSpecificPattern_fetches sound fetches item)).congr
    intro k _
    rw [or_assoc]
    apply or_congr_right
    constructor
    · rintro ⟨p,member,hit⟩
      rcases List.mem_cons.mp member with here | later
      · exact .inl ⟨p,here.symm,hit⟩
      · exact .inr ⟨p,later,hit⟩
    · rintro (⟨p,rfl,hit⟩ | ⟨p,later,hit⟩)
      · exact ⟨p,List.mem_cons_self,hit⟩
      · exact ⟨p,List.mem_cons_of_mem _ later,hit⟩

private theorem copyMultiple_spec (sound : CacheSound os st) (keys patterns : List Plist) (k : CFString) (v : CFData) :
    (dynamicStoreCopyMultiple os keys patterns st).lookup k = some v ↔ (st.entry k).data = some v ∧
      (.string k ∈ keys ∨ ∃ p, .string p ∈ patterns ∧ matchesPattern os p k) := by
  have nothing : Fetches st (fun _ => False) ∅ := by
    intro k v
    simp
  have all := foldl_addSpecificPattern sound patterns (foldl_addSpecificKey keys nothing)
  rw [dynamicStoreCopyMultiple,all]
  simp

/-! ## Cached or not -/

structure SameAnswers (os : Platform Regex) (pattern : CFString) (st st' : State Regex) : Prop where
  status : (dynamicStoreCopyKeyList os pattern true st').1 = (dynamicStoreCopyKeyList os pattern true st).1
  keys : ∀ k, k ∈ (dynamicStoreCopyKeyList os pattern true st').2 ↔
    k ∈ (dynamicStoreCopyKeyList os pattern true st).2
  multiple : ∀ wanted patterns k, (dynamicStoreCopyMultiple os wanted patterns st').lookup k =
    (dynamicStoreCopyMultiple os wanted patterns st).lookup k

private theorem sameAnswers (sound : CacheSound os st) (sound' : CacheSound os st')
    (data : ∀ k, (st'.entry k).data = (st.entry k).data) (pattern : CFString) :
    SameAnswers os pattern st st' := by
  refine ⟨?_,?_,?_⟩
  · rw [(copyKeyList_spec sound' pattern).1,(copyKeyList_spec sound pattern).1]
  · intro k
    rw [(copyKeyList_spec sound' pattern).2,(copyKeyList_spec sound pattern).2,data]
  · intro wanted patterns k
    apply Option.ext
    intro v
    rw [copyMultiple_spec sound',copyMultiple_spec sound,data]

/-- What a client is told about a pattern is what a scan finds, with the cached
list thrown away, and with a session more that watches the pattern. -/
theorem cached_pattern_eq_scan (reachable : Reachable os st) (pattern : CFString) (server : Int) :
    (∀ k, k ∈ (dynamicStoreCopyKeyList os pattern true st).2 ↔
      (copyValue k st).isSome ∧ matchesPattern os pattern k) ∧
    (∀ wanted patterns k v, (dynamicStoreCopyMultiple os wanted patterns st).lookup k = some v ↔
      copyValue k st = some v ∧
        (.string k ∈ wanted ∨ ∃ p, .string p ∈ patterns ∧ matchesPattern os p k)) ∧
    SameAnswers os pattern st { st with patternData := st.patternData.erase pattern } ∧
    SameAnswers os pattern st (notifyadd os server pattern true st).2 := by
  have atRest := reachable.atRest
  have sound := atRest.cacheSound
  have added : Effect os st (.notifyadd server pattern true) (notifyadd os server pattern true st).2 :=
    step_effect (r := .notifyadd server pattern true) atRest trivial
  refine ⟨?_,?_,?_,?_⟩
  · intro k
    rw [copyValue_eq]
    exact (copyKeyList_spec sound pattern).2 k
  · intro wanted patterns k v
    rw [copyValue_eq]
    exact copyMultiple_spec sound wanted patterns k v
  · exact sameAnswers sound (sound.forget pattern) (fun _ => rfl) pattern
  · exact sameAnswers sound added.atRest.cacheSound (fun k => (added.silent k id).1) pattern

theorem cached_pattern_eq_scan_watched :
    aKey ∈ (dynamicStoreCopyKeyList literal aKey true (Runs.run (step literal) {} watchTwice)).2 := by
  rw [(cached_pattern_eq_scan watchTwice_reachable aKey 5).1]
  refine ⟨by decide,⟨⟨[94,107,36],by decide⟩,by decide,by decide⟩⟩

end FreebsdLaunchd.DynamicStore
