import FreebsdLaunchd.PreferencesMonitor.Loading

/-! What is to be mirrored does not depend on the order in which the dictionaries
list their entries: it is the same for trees that differ in this order only. -/
namespace FreebsdLaunchd.PreferencesMonitor
open Trees Tree Preferences

variable {α : Type} {prefs prefs' : PrefsPrivate α} {base base' subset v : CFDictionary α} {link link' : PropertyList α}
  {path : List CFString} {k : CFString}

private theorem getElements_alike (alike : Alike prefs.tree prefs'.tree) (links : Alike link link') :
    getElements prefs link = getElements prefs' link' :=
  followLinks_agree alike (getPass_finds _) (getPass_finds _) links

private theorem getPath_of_elements {s : List CFString} (elements : getElements prefs link = .ok s)
    (there : prefs.tree.look s = some (.dict v)) : getPath prefs link = .ok v := by
  rw [getElements] at elements
  cases went : followLinks (getPass prefs.prefs) link with
  | error status => simp [went,Except.map] at elements
  | ok at_ =>
    obtain ⟨s',r⟩ := at_
    rw [went] at elements
    obtain rfl : s' = s := Except.ok.inj elements
    obtain ⟨_,_,_,_,_,done⟩ := followLinks_resolves (getPass_finds _) went
    rcases getPass_done done with ⟨v',rfl,there'⟩ | ⟨_,absent⟩
    · obtain rfl := Tree.dict.inj (Option.some.inj (there.symm.trans there'))
      simp [getPath,went]
    · exact absurd there (absent v)

private theorem getPath_alike (alike : Alike prefs.tree prefs'.tree) (links : Alike link link')
    (got : getPath prefs link = .ok v) : ∃ v', getPath prefs' link' = .ok v' ∧ Alike (Tree.dict v) (Tree.dict v') := by
  obtain ⟨s,elements,there⟩ := getPath_ok got
  obtain ⟨u,there',same⟩ := alike.look_some there
  obtain ⟨v',rfl⟩ := same.dict_left
  rw [getElements_alike alike links] at elements
  exact ⟨v',getPath_of_elements elements there',same⟩

private theorem pathGetValue_alike (alike : Alike prefs.tree prefs'.tree) (links : Alike link link')
    (got : scPreferencesPathGetValue prefs link = .ok v) :
    ∃ v', scPreferencesPathGetValue prefs' link' = .ok v' ∧ Alike (Tree.dict v) (Tree.dict v') := by
  unfold scPreferencesPathGetValue at got
  split at got
  · cases got
  · rename_i entity first
    obtain ⟨entity',first',same⟩ := getPath_alike alike links first
    unfold scPreferencesPathGetValue
    rw [first']
    simp only []
    cases linked : find entity kSCResvLink with
    | some entityLink =>
      obtain ⟨entityLink',linked',sameLink⟩ := same.find_some linked
      rw [linked] at got
      rw [entries_dict] at linked'
      rw [linked']
      exact getPath_alike alike sameLink got
    | none =>
      have unlinked := same.find_none linked
      rw [linked] at got
      rw [entries_dict] at unlinked
      rw [unlinked]
      obtain rfl := Except.ok.inj got
      exact ⟨entity',rfl,same⟩

private theorem followed_alike (alike : Alike prefs.tree prefs'.tree) (bases : Alike (Tree.dict base) (Tree.dict base'))
    (follows : followed prefs base = some subset) :
    ∃ subset', followed prefs' base' = some subset' ∧ Alike (Tree.dict subset) (Tree.dict subset') := by
  unfold followed at follows ⊢
  cases linked : find base kSCResvLink with
  | none =>
    have unlinked := bases.find_none linked
    rw [linked] at follows
    rw [entries_dict] at unlinked
    rw [unlinked]
    obtain rfl := Option.some.inj follows
    exact ⟨base',rfl,bases⟩
  | some link =>
    obtain ⟨link',linked',same⟩ := bases.find_some linked
    rw [linked] at follows
    rw [entries_dict] at linked'
    rw [linked']
    cases got : scPreferencesPathGetValue prefs link with
    | error status => simp [got] at follows
    | ok v =>
      simp only [got] at follows
      obtain rfl := Option.some.inj follows
      obtain ⟨v',got',same'⟩ := pathGetValue_alike alike same got
      exact ⟨v',by simp only [got'],same'⟩

private theorem opened_alike (alike : Alike prefs.tree prefs'.tree) (bases : Alike (Tree.dict base) (Tree.dict base'))
    (opens : opened prefs base = some subset) :
    ∃ subset', opened prefs' base' = some subset' ∧ Alike (Tree.dict subset) (Tree.dict subset') := by
  obtain ⟨follows,active⟩ := Option.filter_eq_some_iff.mp opens
  obtain ⟨subset',follows',same⟩ := followed_alike alike bases follows
  refine ⟨subset',Option.filter_eq_some_iff.mpr ⟨follows',?_⟩,same⟩
  have active' := same.find_none (Option.isNone_iff_eq_none.mp active)
  rw [entries_dict] at active'
  rw [active']
  rfl

private theorem reached_alike (alike : Alike prefs.tree prefs'.tree) (bases : Alike (Tree.dict base) (Tree.dict base'))
    (there : reached prefs base path = some subset) :
    ∃ subset', reached prefs' base' path = some subset' ∧ Alike (Tree.dict subset) (Tree.dict subset') := by
  induction path generalizing base base' with
  | nil => exact opened_alike alike bases there
  | cons k path ih =>
    unfold reached at there ⊢
    cases opens : opened prefs base with
    | none => simp [opens] at there
    | some d =>
      obtain ⟨d',opens',same⟩ := opened_alike alike bases opens
      rw [opens,Option.bind_some] at there
      rw [opens',Option.bind_some]
      cases found : find d k with
      | none => simp [found] at there
      | some u =>
        obtain ⟨u',found',same'⟩ := same.find_some found
        rw [found] at there
        rw [entries_dict] at found'
        rw [found']
        cases u with
        | leaf value => cases there
        | dict sub =>
          obtain ⟨sub',rfl⟩ := same'.dict_left
          exact ih same' there

private theorem leafAt_some_alike {value : Leaf α} (alike : Alike prefs.tree prefs'.tree)
    (bases : Alike (Tree.dict base) (Tree.dict base')) (there : leafAt prefs base path k = some value) :
    leafAt prefs' base' path k = some value := by
  obtain ⟨d,reaches,found⟩ := Option.bind_eq_some_iff.mp there
  obtain ⟨d',reaches',same⟩ := reached_alike alike bases reaches
  rw [leafAt,reaches',Option.bind_some]
  unfold leafIn at found ⊢
  split at found
  · rename_i here
    obtain ⟨u,here',same'⟩ := same.find_some here
    obtain rfl := same'.leaf_left
    rw [entries_dict] at here'
    rw [here']
    exact found
  · cases found

private theorem leafAt_alike (alike : Alike prefs.tree prefs'.tree) (bases : Alike (Tree.dict base) (Tree.dict base'))
    (path : List CFString) (k : CFString) : leafAt prefs base path k = leafAt prefs' base' path k := by
  ext value
  exact ⟨leafAt_some_alike alike bases,leafAt_some_alike alike.symm bases.symm⟩

/-! ## The whole preferences -/

private theorem system_alike {global : CFDictionary α} (alike : Alike prefs.tree prefs'.tree)
    (there : system prefs = some global) :
    ∃ global', system prefs' = some global' ∧ Alike (Tree.dict global) (Tree.dict global') := by
  unfold system at there ⊢
  split at there
  · rename_i found
    obtain ⟨u,found',same⟩ := alike.find_some found
    obtain ⟨global',rfl⟩ := same.dict_left
    have found' : find prefs'.prefs kSCPrefSystem = some (.dict global') := found'
    rw [found']
    obtain rfl := Option.some.inj there
    exact ⟨global',rfl,same⟩
  · cases there

private theorem currentSet_alike {current : CFString × CFDictionary α} (alike : Alike prefs.tree prefs'.tree)
    (there : currentSet prefs = some current) :
    ∃ theSet, currentSet prefs' = some (current.1,theSet) ∧ Alike (Tree.dict current.2) (Tree.dict theSet) := by
  unfold currentSet at there ⊢
  split at there
  · rename_i found
    obtain ⟨u,found',same⟩ := alike.find_some found
    obtain rfl := same.leaf_left
    have found' : find prefs'.prefs kSCPrefCurrentSet = some _ := found'
    rw [found']
    split at there
    · rename_i got
      obtain rfl := Option.some.inj there
      obtain ⟨theSet,got',same'⟩ := pathGetValue_alike alike (.refl _) got
      exact ⟨theSet,by simp only [got'],same'⟩
    · cases there
  · cases there

private theorem system_none_alike (alike : Alike prefs.tree prefs'.tree) (absent : system prefs = none) :
    system prefs' = none := by
  cases there : system prefs' with
  | none => rfl
  | some global =>
    obtain ⟨_,present,_⟩ := system_alike alike.symm there
    rw [absent] at present
    cases present

private theorem currentSet_none_alike (alike : Alike prefs.tree prefs'.tree) (absent : currentSet prefs = none) :
    currentSet prefs' = none := by
  cases there : currentSet prefs' with
  | none => rfl
  | some current =>
    obtain ⟨_,present,_⟩ := currentSet_alike alike.symm there
    rw [absent] at present
    cases present

theorem currentName_alike (alike : Alike prefs.tree prefs'.tree) :
    (currentSet prefs).map Prod.fst = (currentSet prefs').map Prod.fst := by
  cases there : currentSet prefs with
  | none => rw [currentSet_none_alike alike there]
  | some current =>
    obtain ⟨theSet,there',_⟩ := currentSet_alike alike there
    rw [there',Option.map_some,Option.map_some]

theorem mirrored_alike (alike : Alike prefs.tree prefs'.tree) (path : List CFString) (k : CFString) :
    mirrored prefs path k = mirrored prefs' path k := by
  have ofSet : ((currentSet prefs).bind fun current => leafAt prefs current.2 path k) =
      (currentSet prefs').bind fun current => leafAt prefs' current.2 path k := by
    cases there : currentSet prefs with
    | none => rw [currentSet_none_alike alike there,Option.bind_none,Option.bind_none]
    | some current =>
      obtain ⟨theSet,there',same⟩ := currentSet_alike alike there
      rw [there',Option.bind_some,Option.bind_some]
      exact leafAt_alike alike same path k
  have ofSystem : ((system prefs).bind fun global => leafAt prefs global path k) =
      (system prefs').bind fun global => leafAt prefs' global path k := by
    cases there : system prefs with
    | none => rw [system_none_alike alike there,Option.bind_none,Option.bind_none]
    | some global =>
      obtain ⟨global',there',same⟩ := system_alike alike there
      rw [there',Option.bind_some,Option.bind_some]
      exact leafAt_alike alike same path k
  rw [mirrored,mirrored,ofSet,ofSystem]

theorem Within.distinct (distinct : Distinct prefs.tree) (within : Within prefs base) : Distinct (Tree.dict base) := by
  obtain ⟨s,there⟩ := within
  exact distinct.look there

theorem Expands.alike (alike : Alike prefs.tree prefs'.tree) (distinct : Distinct prefs'.tree)
    (expands : Expands prefs base) {base' : CFDictionary α} (within : Within prefs' base')
    (bases : Alike (Tree.dict base) (Tree.dict base')) : Expands prefs' base' := by
  induction expands generalizing base' with
  | @intro base _ ih =>
    refine .intro fun subset' k sub' opens' member => ?_
    obtain ⟨subset,opens,same⟩ := opened_alike alike.symm bases.symm opens'
    have inside := opened_within within opens'
    have found' := find_of_mem (inside.distinct distinct).keys member
    obtain ⟨u,found,same'⟩ := same.find_some found'
    obtain ⟨sub,rfl⟩ := same'.dict_left
    obtain ⟨s,there⟩ := inside
    have deeper : Within prefs' sub' := by
      refine ⟨s ++ [k],?_⟩
      rw [look_append,there,Option.bind_some,look_key]
      exact found'
    exact ih subset k sub opens (mem_of_find found) deeper same'.symm

/-- Preferences stay fit to be mirrored when their entries are listed in another order. -/
theorem Mirrorable.alike (mirrorable : Mirrorable prefs) (alike : Alike prefs.tree prefs'.tree)
    (distinct : Distinct prefs'.tree) : Mirrorable prefs' where
  pathKeys := by
    refine ⟨distinct,fun s there => mirrorable.pathKeys.clean s ?_⟩
    obtain ⟨u,reached_⟩ := Option.isSome_iff_exists.mp there
    obtain ⟨u',reached',_⟩ := alike.symm.look_some reached_
    rw [reached']
    rfl
  systemDict := by
    intro u found
    obtain ⟨u',found',same⟩ := alike.symm.find_some found
    obtain ⟨global,rfl⟩ := mirrorable.systemDict u' found'
    exact same.symm.dict_left
  systemExpands := by
    intro global there
    obtain ⟨global',there',same⟩ := system_alike alike.symm there
    exact (mirrorable.systemExpands global' there').alike alike distinct (system_within there) same.symm
  currentExpands := by
    intro current there
    obtain ⟨theSet,there',same⟩ := currentSet_alike alike.symm there
    exact (mirrorable.currentExpands _ there').alike alike distinct (currentSet_within there) same.symm

end FreebsdLaunchd.PreferencesMonitor
