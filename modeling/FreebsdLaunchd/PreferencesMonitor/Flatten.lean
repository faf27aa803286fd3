import FreebsdLaunchd.PreferencesMonitor.Update
import FreebsdLaunchd.Preferences.Lens

/-! What flattening does: the values found at a path below a dictionary end in the
dictionary of that path's key, over what was there, and nothing else changes. -/
namespace FreebsdLaunchd.PreferencesMonitor
open Trees Tree Preferences

variable {α : Type} {prefs : PrefsPrivate α} {path q : List CFString} {k : CFString}

/-! ## Paths and their keys -/

/-- No element is empty or holds a separator. -/
def Clean (path : List CFString) : Prop := ∀ k ∈ path, k ≠ [] ∧ '/' ∉ k

def pathKey (path : List CFString) : CFString := if path = [] then ['/'] else path.flatMap fun k => '/' :: k

theorem Clean.append (clean : Clean q) (clean' : Clean path) : Clean (q ++ path) := by
  intro k member
  rcases List.mem_append.mp member with first | second
  · exact clean k first
  · exact clean' k second

theorem Clean.cons (single : k ≠ [] ∧ '/' ∉ k) (clean : Clean path) : Clean (k::path) := by
  intro k' member
  rcases List.mem_cons.mp member with rfl | later
  · exact single
  · exact clean k' later

private theorem subKey_pathKey (clean : Clean q) (k : CFString) : subKey (pathKey q) k = pathKey (q ++ [k]) := by
  cases q with
  | nil => simp [subKey,pathKey]
  | cons first rest =>
    have inner : first ≠ [] := (clean first (by simp)).1
    simp [subKey,pathKey,inner]

private theorem split_pathKey (clean : Clean path) : ((pathKey path).splitOn '/').filter (· ≠ []) = path := by
  cases path with
  | nil => rfl
  | cons first rest =>
    have joined : pathKey (first::rest) = ['/'].intercalate ([]::first::rest) := by
      rw [pathKey,if_neg (List.cons_ne_nil _ _)]
      have unroll (rest : List CFString) : ∀ k : CFString, ((k::rest).flatMap fun k => '/' :: k) =
          '/' :: ['/'].intercalate (k::rest) := by
        induction rest with
        | nil => simp
        | cons next rest ih =>
          intro k
          rw [List.flatMap_cons,ih next]
          simp [List.intercalate]
      rw [unroll]
      simp [List.intercalate]
    have separate : ∀ piece ∈ []::first::rest, '/' ∉ piece := by
      intro piece member
      rcases List.mem_cons.mp member with rfl | inside
      · simp
      · exact (clean piece inside).2
    rw [joined,List.splitOn_intercalate _ separate (List.cons_ne_nil _ _),List.filter_cons_of_neg (by simp)]
    exact List.filter_eq_self.mpr fun k member => by simpa using (clean k member).1

private theorem setupKey_inj {p p' : List CFString} (clean : Clean p) (clean' : Clean p')
    (same : setupKey (pathKey p) = setupKey (pathKey p')) : p = p' := by
  have keys := List.append_cancel_left same
  rw [← split_pathKey clean,keys,split_pathKey clean']

/-! ## What is reached below a dictionary -/

/-- The dictionary whose entries count for `base`: itself or the one it links to,
unless that one is inactive. -/
def opened (prefs : PrefsPrivate α) (base : CFDictionary α) : Option (CFDictionary α) :=
  (followed prefs base).filter fun subset => (find subset kSCResvInactive).isNone

def reached (prefs : PrefsPrivate α) : CFDictionary α → List CFString → Option (CFDictionary α)
  | base, [] => opened prefs base
  | base, k::path =>
    match (opened prefs base).bind fun subset => find subset k with
    | some (.dict sub) => reached prefs sub path
    | _ => none

def leafIn (d : CFDictionary α) (k : CFString) : Option (Leaf α) :=
  match find d k with
  | some (.leaf value) => some value
  | _ => none

def leafAt (prefs : PrefsPrivate α) (base : CFDictionary α) (path : List CFString) (k : CFString) : Option (Leaf α) :=
  (reached prefs base path).bind fun d => leafIn d k

def entriesAt (prefs : PrefsPrivate α) (entries : CFDictionary α) : List CFString → CFString → Option (Leaf α)
  | [], k => leafIn entries k
  | k'::path, k =>
    match find entries k' with
    | some (.dict sub) => leafAt prefs sub path k
    | _ => none

private theorem leafAt_opened (prefs : PrefsPrivate α) (base : CFDictionary α) (path : List CFString) (k : CFString) :
    leafAt prefs base path k = (opened prefs base).bind fun subset => entriesAt prefs subset path k := by
  cases path with
  | nil => rfl
  | cons k' path =>
    rw [leafAt,reached]
    cases opened prefs base with
    | none => rfl
    | some subset =>
      simp only [Option.bind_some,entriesAt]
      cases find subset k' with
      | none => rfl
      | some u => cases u <;> rfl

/-! ## The new preferences while they are built -/

def valueOf (newPrefs : NewPrefs α) (key k : CFString) : Option (Leaf α) :=
  (find newPrefs key).bind fun d => leafIn d k

/-- A dictionary of values only, with no key twice. -/
structure Flat (d : CFDictionary α) : Prop where
  keys : (d.map Prod.fst).Nodup
  leaves : ∀ k u, find d k = some u → ∃ v, u = .leaf v

structure Sound (newPrefs : NewPrefs α) : Prop where
  keys : (newPrefs.map Prod.fst).Nodup
  flat : ∀ key d, find newPrefs key = some d → Flat d
  filled : ∀ key d, find newPrefs key = some d → d ≠ []

theorem Flat.nil : Flat ([] : CFDictionary α) := ⟨by simp,fun k u found => by cases found⟩

theorem Sound.nil : Sound ([] : NewPrefs α) where
  keys := by simp
  flat := fun key d found => by cases found
  filled := fun key d found => by cases found

theorem Flat.set {d : CFDictionary α} (flat : Flat d) (k : CFString) (v : Leaf α) : Flat (set d k (.leaf v)) where
  keys := nodup_set flat.keys k _
  leaves := by
    intro k' u found
    rw [find_set] at found
    split at found
    · exact ⟨v,(Option.some.inj found).symm⟩
    · exact flat.leaves k' u found

theorem Sound.set {newPrefs : NewPrefs α} (sound : Sound newPrefs) (key : CFString) {d : CFDictionary α}
    (flat : Flat d) (filled : d ≠ []) : Sound (set newPrefs key d) where
  keys := nodup_set sound.keys key d
  flat := by
    intro key' d' found
    rw [find_set] at found
    split at found
    · exact Option.some.inj found ▸ flat
    · exact sound.flat key' d' found
  filled := by
    intro key' d' found
    rw [find_set] at found
    split at found
    · exact Option.some.inj found ▸ filled
    · exact sound.filled key' d' found

theorem Flat.find {d : CFDictionary α} (flat : Flat d) (k : CFString) : find d k = (leafIn d k).map .leaf := by
  rw [leafIn]
  cases found : Trees.find d k with
  | none => rfl
  | some u =>
    obtain ⟨v,rfl⟩ := flat.leaves k u found
    rfl

theorem Flat.filled {d : CFDictionary α} (flat : Flat d) (filled : d ≠ []) : ∃ k, leafIn d k ≠ none := by
  obtain ⟨⟨k,u⟩,rest,rfl⟩ := List.exists_cons_of_ne_nil filled
  have found : Trees.find ((k,u)::rest) k = some u := by simp [Trees.find]
  obtain ⟨v,rfl⟩ := flat.leaves k u found
  exact ⟨k,by simp [leafIn,found]⟩

theorem leafIn_set (d : CFDictionary α) (k k' : CFString) (v : Leaf α) :
    leafIn (set d k (.leaf v)) k' = if k = k' then some v else leafIn d k' := by
  rw [leafIn,find_set]
  by_cases same : k = k'
  · simp [same]
  · simp [same,leafIn]

theorem valueOf_set (newPrefs : NewPrefs α) (key key' k : CFString) (d : CFDictionary α) :
    valueOf (set newPrefs key d) key' k = if key = key' then leafIn d k else valueOf newPrefs key' k := by
  rw [valueOf,find_set]
  by_cases same : key = key' <;> simp [same,valueOf]

/-- The values below the path `q` are put over what was there, the keys of other
paths are left alone. -/
structure Flattened (q : List CFString) (values : List CFString → CFString → Option (Leaf α))
    (before after : NewPrefs α) : Prop where
  at_ : ∀ path, Clean path → ∀ k, valueOf after (setupKey (pathKey (q ++ path))) k =
    (values path k).or (valueOf before (setupKey (pathKey (q ++ path))) k)
  others : ∀ key, (∀ path, Clean path → key ≠ setupKey (pathKey (q ++ path))) → find after key = find before key
  sound : Sound before → Sound after

theorem Flattened.same {values : List CFString → CFString → Option (Leaf α)}
    (nothing : ∀ path k, values path k = none) (newPrefs : NewPrefs α) : Flattened q values newPrefs newPrefs where
  at_ := by
    intro path _ k
    rw [nothing,Option.none_or]
  others := fun _ _ => rfl
  sound := id

/-! ## The loop over the entries -/

def Flattens (prefs : PrefsPrivate α) (flatten : CFString → CFDictionary α → NewPrefs α → Option (NewPrefs α))
    (sub : CFDictionary α) : Prop :=
  ∀ q, Clean q → ∀ before after, flatten (pathKey q) sub before = some after →
    Flattened q (leafAt prefs sub) before after

/-- The loop has gone over some entries of the dictionary at the path `q`. -/
structure Looped (prefs : PrefsPrivate α) (q : List CFString) (entries : CFDictionary α)
    (before after : CFDictionary α × NewPrefs α) : Prop where
  here : ∀ k, leafIn after.1 k = (leafIn entries k).or (leafIn before.1 k)
  below : ∀ k' path, Clean (k'::path) → ∀ k, valueOf after.2 (setupKey (pathKey (q ++ k'::path))) k =
    (entriesAt prefs entries (k'::path) k).or (valueOf before.2 (setupKey (pathKey (q ++ k'::path))) k)
  others : ∀ key, (∀ k' path, Clean (k'::path) → key ≠ setupKey (pathKey (q ++ k'::path))) →
    find after.2 key = find before.2 key
  flat : Flat before.1 → Flat after.1
  sound : Sound before.2 → Sound after.2

variable {recurse : CFString → CFDictionary α → NewPrefs α → Option (NewPrefs α)}

private theorem find_absent {entries : CFDictionary α} (absent : k ∉ entries.map Prod.fst) : find entries k = none := by
  by_contra present
  exact absent (find_isSome.mp present)

private theorem leafIn_cons {entries : CFDictionary α} {k₁ : CFString} (absent : k₁ ∉ entries.map Prod.fst)
    (u : PropertyList α) (k : CFString) :
    leafIn ((k₁,u)::entries) k = (leafIn entries k).or (leafIn [(k₁,u)] k) := by
  by_cases same : k₁ = k
  · subst same
    simp [leafIn,find,find_absent absent]
  · simp [leafIn,find,same]

private theorem entriesAt_cons {entries : CFDictionary α} {k₁ : CFString} (absent : k₁ ∉ entries.map Prod.fst)
    (u : PropertyList α) (k' : CFString) (path : List CFString) (k : CFString) :
    entriesAt prefs ((k₁,u)::entries) (k'::path) k =
      (entriesAt prefs entries (k'::path) k).or (entriesAt prefs [(k₁,u)] (k'::path) k) := by
  by_cases same : k₁ = k'
  · subst same
    simp [entriesAt,find,find_absent absent]
  · simp [entriesAt,find,same]

private theorem flattenEntry_looped (clean : Clean q) {k₁ : CFString} {u : PropertyList α} (single : k₁ ≠ [] ∧ '/' ∉ k₁)
    (recurses : ∀ sub, u = .dict sub → Flattens prefs recurse sub) {before after : CFDictionary α × NewPrefs α}
    (went : flattenEntry recurse (pathKey q) before (k₁,u) = some after) :
    Looped prefs q [(k₁,u)] before after := by
  cases u with
  | leaf v =>
    obtain rfl := Option.some.inj went
    refine ⟨fun k => ?_,fun k' path _ k => ?_,fun _ _ => rfl,fun flat => flat.set k₁ v,id⟩
    · rw [leafIn_set]
      by_cases same : k₁ = k <;> simp [leafIn,find,same]
    · by_cases same : k₁ = k' <;> simp [entriesAt,find,same]
  | dict sub =>
    simp only [flattenEntry] at went
    rw [subKey_pathKey clean] at went
    obtain ⟨newPrefs,recursed,rfl⟩ := Option.map_eq_some_iff.mp went
    have cleaner : Clean (q ++ [k₁]) := clean.append (Clean.cons single fun _ member => by cases member)
    have flattened := recurses sub rfl _ cleaner _ _ recursed
    have deeper (path : List CFString) : q ++ [k₁] ++ path = q ++ k₁::path := by simp
    refine ⟨fun k => ?_,fun k' path cleanPath k => ?_,fun key other => ?_,id,flattened.sound⟩
    · by_cases same : k₁ = k <;> simp [leafIn,find,same]
    · by_cases same : k₁ = k'
      · subst same
        have inner : Clean path := fun k member => cleanPath k (List.mem_cons_of_mem _ member)
        have values := flattened.at_ path inner k
        rw [deeper] at values
        simpa [entriesAt,find] using values
      · have untouched : find newPrefs (setupKey (pathKey (q ++ k'::path))) =
            find before.2 (setupKey (pathKey (q ++ k'::path))) := by
          refine flattened.others _ fun path' cleanPath' equal => same ?_
          rw [deeper] at equal
          have paths := setupKey_inj (clean.append cleanPath) (clean.append (Clean.cons single cleanPath')) equal
          exact (List.cons.inj (List.append_cancel_left paths)).1.symm
        simp [entriesAt,find,same,valueOf,untouched]
    · refine flattened.others key fun path' cleanPath' => ?_
      rw [deeper]
      exact other k₁ path' (Clean.cons single cleanPath')

private theorem foldlM_looped (clean : Clean q) {entries : CFDictionary α} (keys : (entries.map Prod.fst).Nodup)
    (singles : ∀ k u, (k,u) ∈ entries → k ≠ [] ∧ '/' ∉ k)
    (recurses : ∀ k sub, (k,Tree.dict sub) ∈ entries → Flattens prefs recurse sub)
    {before after : CFDictionary α × NewPrefs α}
    (went : entries.foldlM (flattenEntry recurse (pathKey q)) before = some after) :
    Looped prefs q entries before after := by
  induction entries generalizing before with
  | nil =>
    obtain rfl := Option.some.inj went
    exact ⟨fun k => by simp [leafIn],fun k' path _ k => by simp [entriesAt],fun _ _ => rfl,id,id⟩
  | cons entry rest ih =>
    obtain ⟨k₁,u⟩ := entry
    obtain ⟨absent,keys⟩ := List.nodup_cons.mp keys
    rw [List.foldlM_cons] at went
    obtain ⟨middle,first,went⟩ := Option.bind_eq_some_iff.mp went
    have one := flattenEntry_looped clean (singles k₁ u (by simp))
      (fun sub same => recurses k₁ sub (by simp [same])) first
    have others := ih keys (fun k u member => singles k u (List.mem_cons_of_mem _ member))
      (fun k sub member => recurses k sub (List.mem_cons_of_mem _ member)) went
    refine ⟨fun k => ?_,fun k' path cleanPath k => ?_,fun key other => ?_,others.flat ∘ one.flat,
      others.sound ∘ one.sound⟩
    · rw [others.here,one.here,leafIn_cons absent,Option.or_assoc]
    · rw [others.below k' path cleanPath,one.below k' path cleanPath,entriesAt_cons absent,Option.or_assoc]
    · rw [others.others key other,one.others key other]

/-! ## Flattening a dictionary -/

def Within (prefs : PrefsPrivate α) (d : CFDictionary α) : Prop := ∃ s, prefs.tree.look s = some (.dict d)

/-- Every dictionary has its keys once, and every key is an element of a path. -/
structure PathKeys (prefs : PrefsPrivate α) : Prop where
  distinct : Distinct prefs.tree
  clean : ∀ s, (prefs.tree.look s).isSome → Clean s

theorem Within.entry (pathKeys : PathKeys prefs) {d sub : CFDictionary α} (within : Within prefs d)
    (member : (k,Tree.dict sub) ∈ d) : Within prefs sub := by
  obtain ⟨s,there⟩ := within
  refine ⟨s ++ [k],?_⟩
  rw [look_append,there,Option.bind_some,look_key,entries_dict]
  exact find_of_mem (pathKeys.distinct.look there).keys member

theorem Within.keys (pathKeys : PathKeys prefs) {d : CFDictionary α} (within : Within prefs d) :
    (d.map Prod.fst).Nodup := by
  obtain ⟨s,there⟩ := within
  exact (pathKeys.distinct.look there).keys

theorem Within.single (pathKeys : PathKeys prefs) {d : CFDictionary α} (within : Within prefs d)
    {u : PropertyList α} (member : (k,u) ∈ d) : k ≠ [] ∧ '/' ∉ k := by
  obtain ⟨s,there⟩ := within
  have found : prefs.tree.look (s ++ [k]) = some u := by
    rw [look_append,there,Option.bind_some,look_key,entries_dict]
    exact find_of_mem (pathKeys.distinct.look there).keys member
  exact pathKeys.clean _ (by rw [found]; rfl) k (by simp)

theorem pathGetValue_within {link : PropertyList α} {subset : CFDictionary α}
    (got : scPreferencesPathGetValue prefs link = .ok subset) : Within prefs subset := by
  unfold scPreferencesPathGetValue at got
  split at got
  · cases got
  · rename_i entity first
    split at got
    · obtain ⟨s,_,there⟩ := getPath_ok got
      exact ⟨s,there⟩
    · obtain rfl := Except.ok.inj got
      obtain ⟨s,_,there⟩ := getPath_ok first
      exact ⟨s,there⟩

theorem opened_within {base subset : CFDictionary α} (within : Within prefs base)
    (opens : opened prefs base = some subset) : Within prefs subset := by
  have follows := (Option.filter_eq_some_iff.mp opens).1
  unfold followed at follows
  split at follows
  · exact Option.some.inj follows ▸ within
  · split at follows
    · cases follows
    · rename_i got
      exact Option.some.inj follows ▸ pathGetValue_within got

theorem flatten_succ (prefs : PrefsPrivate α) (depth : Nat) (key : CFString) (base : CFDictionary α)
    (newPrefs : NewPrefs α) : flatten prefs (depth+1) key base newPrefs =
      match opened prefs base with
      | none => some newPrefs
      | some subset =>
        match subset.foldlM (flattenEntry (flatten prefs depth) key)
            ((find newPrefs (setupKey key)).getD [],newPrefs) with
        | none => none
        | some (myDict,newPrefs) =>
          if myDict = [] then some newPrefs else some (set newPrefs (setupKey key) myDict) := by
  rw [flatten,opened]
  cases followed prefs base with
  | none => rfl
  | some subset =>
    cases inactive : find subset kSCResvInactive with
    | none =>
      have live : (some subset).filter (fun d => (find d kSCResvInactive).isNone) = some subset := by simp [inactive]
      rw [live]
      exact if_neg (by simp [inactive])
    | some marker => simp [Option.filter,inactive]

/-- Flattening puts the values at every path below `base` over what was there. -/
theorem flatten_flattened (pathKeys : PathKeys prefs) {depth : Nat} {base : CFDictionary α} (within : Within prefs base) :
    Flattens prefs (flatten prefs depth) base := by
  induction depth generalizing base with
  | zero =>
    intro q clean before after went
    cases went
  | succ depth ih =>
    intro q clean before after went
    rw [flatten_succ] at went
    cases opens : opened prefs base with
    | none =>
      rw [opens] at went
      obtain rfl := Option.some.inj went
      exact .same (fun path k => by rw [leafAt_opened,opens]; rfl) _
    | some subset =>
      rw [opens] at went
      have inside := opened_within within opens
      simp only [] at went
      cases looped : subset.foldlM (flattenEntry (flatten prefs depth) (pathKey q))
          ((find before (setupKey (pathKey q))).getD [],before) with
      | none => rw [looped] at went; cases went
      | some state =>
        obtain ⟨myDict,newPrefs⟩ := state
        rw [looped] at went
        have loop := foldlM_looped clean (inside.keys pathKeys) (fun k u member => inside.single pathKeys member)
          (fun k sub member => ih (inside.entry pathKeys member)) looped
        have own : find newPrefs (setupKey (pathKey q)) = find before (setupKey (pathKey q)) := by
          refine loop.others _ fun k' path cleanPath equal => ?_
          have paths := setupKey_inj clean (clean.append cleanPath) equal
          simpa using congrArg List.length paths
        have old (k : CFString) : leafIn ((find before (setupKey (pathKey q))).getD []) k =
            valueOf before (setupKey (pathKey q)) k := by
          rw [valueOf]
          cases find before (setupKey (pathKey q)) <;> rfl
        have flat (sound : Sound before) : Flat myDict := by
          refine loop.flat ?_
          cases there : find before (setupKey (pathKey q)) with
          | none => exact .nil
          | some d => exact sound.flat _ d there
        have values (path : List CFString) (k : CFString) :
            leafAt prefs base path k = entriesAt prefs subset path k := by rw [leafAt_opened,opens]; rfl
        -- the dictionary of this key is stored after the loop, unless it is empty
        have stored : after = if myDict = [] then newPrefs else set newPrefs (setupKey (pathKey q)) myDict := by
          by_cases empty : myDict = []
          · simp only [empty,if_true] at went ⊢
            exact (Option.some.inj went).symm
          · simp only [empty,if_false] at went ⊢
            exact (Option.some.inj went).symm
        have after_ (key k : CFString) : valueOf after key k =
            if setupKey (pathKey q) = key then leafIn myDict k else valueOf newPrefs key k := by
          rw [stored]
          by_cases empty : myDict = []
          · rw [if_pos empty]
            by_cases here : setupKey (pathKey q) = key
            · have nothing := loop.here k
              rw [old,empty] at nothing
              have absent := (Option.or_eq_none_iff.mp nothing.symm).2
              rw [if_pos here,← here,valueOf,own,← valueOf,absent,empty]
              rfl
            · rw [if_neg here]
          · rw [if_neg empty,valueOf_set]
        refine ⟨fun path cleanPath k => ?_,fun key other => ?_,fun sound => ?_⟩
        · rw [after_,values]
          cases path with
          | nil => rw [List.append_nil,if_pos rfl,loop.here,old]; rfl
          | cons k' path =>
            rw [if_neg]
            · exact loop.below k' path cleanPath k
            · intro equal
              have paths := setupKey_inj clean (clean.append cleanPath) equal
              simpa using congrArg List.length paths
        · have apart : setupKey (pathKey q) ≠ key := by
            intro here
            exact other [] (fun _ member => by cases member) (by rw [List.append_nil,here])
          have untouched := loop.others key fun k' path cleanPath => other (k'::path) cleanPath
          rw [stored]
          split
          · exact untouched
          · rw [find_set,if_neg apart]
            exact untouched
        · rw [stored]
          split
          · exact loop.sound sound
          · rename_i filled
            exact (loop.sound sound).set _ (flat sound) filled

end FreebsdLaunchd.PreferencesMonitor
