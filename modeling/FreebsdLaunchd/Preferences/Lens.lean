import FreebsdLaunchd.Preferences.Links

/-! Preference paths as a lens over the tree: what a set and a removal do to it,
and what can be read back. -/
namespace FreebsdLaunchd.Preferences
open Trees Tree

variable {α : Type} {t : PropertyList α} {prefs prefs' : PrefsPrivate α} {path : PropertyList α}
  {dict : CFDictionary α} {elements start s : List CFString} {followed : List (List CFString)}

def getElements (prefs : PrefsPrivate α) (path : PropertyList α) : Except SCStatus (List CFString) :=
  (followLinks (getPass prefs.prefs) path).map Prod.fst

def setElements (prefs : PrefsPrivate α) (path : PropertyList α) : Except SCStatus (List CFString) :=
  (followLinks (setPass prefs.prefs) path).map Prod.fst

def PrefsPrivate.tree (prefs : PrefsPrivate α) : PropertyList α := .dict prefs.prefs

theorem elements_agree (prefs : PrefsPrivate α) (path : PropertyList α) :
    getElements prefs path = setElements prefs path :=
  followLinks_agree (.refl _) (getPass_finds _) (setPass_finds _) (.refl path)

theorem Resolves.unique {followed' : List (List CFString)} {s' : List CFString} (resolves : Resolves t start followed s)
    (resolves' : Resolves t start followed' s') : followed = followed' ∧ s = s' := by
  induction resolves generalizing followed' s' with
  | settled clear =>
    cases resolves' with
    | settled _ => exact ⟨rfl,rfl⟩
    | link met _ _ => exact absurd clear met.not_clear
  | link met normal _ ih =>
    cases resolves' with
    | settled clear => exact absurd clear met.not_clear
    | link met' normal' further' =>
      obtain ⟨rfl,rfl⟩ := met.unique met'
      obtain rfl := Option.some.inj (normal.symm.trans normal')
      obtain ⟨rfl,rfl⟩ := ih further'
      exact ⟨rfl,rfl⟩

/-! ## The last pass -/

theorem getPass_done {r : Except SCStatus (CFDictionary α)} (done : getPass dict elements = .done r) :
    (∃ v, r = .ok v ∧ (Tree.dict dict).look elements = some (.dict v)) ∨
      r = .error .noKey ∧ ∀ v, (Tree.dict dict).look elements ≠ some (.dict v) := by
  induction elements generalizing dict r with
  | nil =>
    obtain rfl := Pass.done.inj done
    exact .inl ⟨dict,rfl,rfl⟩
  | cons element rest ih =>
    unfold getPass at done
    rw [look_cons,entries_dict]
    cases found : find dict element with
    | none =>
      rw [found] at done
      exact .inr ⟨(Pass.done.inj done).symm,fun v reached => by cases reached⟩
    | some u =>
      rw [found] at done
      cases u with
      | leaf w =>
        refine .inr ⟨(Pass.done.inj done).symm,fun v reached => ?_⟩
        cases rest <;> cases reached
      | dict value =>
        simp only [] at done
        split at done
        · cases done
        · cases further : getPass value rest with
          | done r' =>
            rw [further] at done
            obtain rfl := Pass.done.inj done
            exact ih further
          | link i link => rw [further] at done; cases done

/-- The last element's entry in the last node is what the tree has at the elements. -/
theorem setPass_last {nodes : List (CFDictionary α)} {element : CFString} {rest : List CFString}
    (done : setPass dict (element::rest) = .done (.ok nodes)) :
    find (nodes.getLast?.getD dict) ((element::rest).getLast (List.cons_ne_nil _ _)) =
      (Tree.dict dict).look (element::rest) := by
  induction rest generalizing dict element nodes with
  | nil =>
    obtain rfl := Except.ok.inj (Pass.done.inj done)
    rw [look_cons,entries_dict]
    cases found : find dict element <;> simp [found]
  | cons element' rest ih =>
    unfold setPass at done
    cases node_ : (find dict element).getD (.dict []) with
    | leaf v => simp [node_] at done
    | dict node =>
      rw [node_] at done
      simp only [] at done
      split at done
      · cases done
      · cases further : setPass node (element'::rest) with
        | link i link => rw [further] at done; cases done
        | done r =>
          rw [further] at done
          cases r with
          | error status => cases done
          | ok nodes' =>
            obtain rfl := Except.ok.inj (Pass.done.inj done)
            have last := ih further
            have child_ : (Tree.dict dict).child element = .dict node := node_
            rw [← look_child,child_,← last,List.getLast_cons (List.cons_ne_nil _ _)]
            cases nodes' with
            | nil => rfl
            | cons first others => simp [List.getLast?_cons]

private theorem setPass_ok {r : Except SCStatus (List (CFDictionary α))} {u : PropertyList α}
    (done : setPass dict elements = .done r) (reached : (Tree.dict dict).look elements = some u) :
    ∃ nodes, r = .ok nodes := by
  induction elements generalizing dict r with
  | nil => exact ⟨[],(Pass.done.inj done).symm⟩
  | cons element rest ih =>
    cases rest with
    | nil => exact ⟨[],(Pass.done.inj done).symm⟩
    | cons element' rest =>
      have child_ : (Tree.dict dict).child element = (find dict element).getD (.dict []) := rfl
      rw [← look_child,child_] at reached
      unfold setPass at done
      cases node_ : (find dict element).getD (.dict []) with
      | leaf v =>
        rw [node_] at reached
        cases reached
      | dict node =>
        rw [node_] at reached done
        simp only [] at done
        split at done
        · cases done
        · cases further : setPass node (element'::rest) with
          | link i link => rw [further] at done; cases done
          | done r' =>
            rw [further] at done
            obtain rfl := Pass.done.inj done
            obtain ⟨nodes,rfl⟩ := ih further reached
            exact ⟨node::nodes,rfl⟩

/-! ## Building the tree anew -/

/-- The tree with the entity at the sequence, or pruned where there is no entity. -/
def rebuilt (t : PropertyList α) (s : List CFString) : Option (CFDictionary α) → Option (PropertyList α)
  | some v => some (t.place s (.dict v))
  | none => t.prune s

private theorem newNode_rebuilt (node : CFDictionary α) (element : CFString) (rest : List CFString)
    (entity : Option (CFDictionary α)) :
    newNode element node (rebuilt ((Tree.dict node).child element) rest entity) =
      rebuilt (.dict node) (element::rest) entity := by
  cases entity with
  | some v => simp [rebuilt,newNode,place_cons]
  | none =>
    rw [rebuilt,rebuilt,prune_cons]
    cases prune ((Tree.dict node).child element) rest <;> rfl

/-- The loop from the last element up rebuilds the tree below the first element. -/
theorem loop_rebuilt {nodes : List (CFDictionary α)} {element : CFString} {rest : List CFString}
    (done : setPass dict (element::rest) = .done (.ok nodes)) (entity : Option (CFDictionary α)) :
    (rest.zip nodes).foldr (fun at_ newEntity => newNode at_.1 at_.2 newEntity) (entity.map .dict) =
      rebuilt ((Tree.dict dict).child element) rest entity := by
  induction rest generalizing dict element nodes with
  | nil => cases entity <;> simp [rebuilt,place_nil,prune_nil]
  | cons element' rest ih =>
    unfold setPass at done
    cases node_ : (find dict element).getD (.dict []) with
    | leaf v => simp [node_] at done
    | dict node =>
      rw [node_] at done
      simp only [] at done
      split at done
      · cases done
      · cases further : setPass node (element'::rest) with
        | link i link => rw [further] at done; cases done
        | done r =>
          rw [further] at done
          cases r with
          | error status => cases done
          | ok nodes' =>
            obtain rfl := Except.ok.inj (Pass.done.inj done)
            have child_ : (Tree.dict dict).child element = .dict node := node_
            rw [List.zip_cons_cons,List.foldr_cons,ih further,child_,newNode_rebuilt]

private theorem setEntity_tree {element : CFString} {rest : List CFString} {entity : Option (CFDictionary α)}
    (stored : setEntity prefs element (rebuilt (prefs.tree.child element) rest entity) = (.ok (),prefs')) :
    prefs'.tree = (rebuilt prefs.tree (element::rest) entity).getD (.dict []) ∧ prefs'.changed = true := by
  have tree_ := newNode_rebuilt prefs.prefs element rest entity
  rw [← PrefsPrivate.tree] at tree_
  rw [← tree_]
  cases new : rebuilt (prefs.tree.child element) rest entity with
  | some u =>
    rw [new] at stored
    obtain ⟨_,rfl⟩ := Prod.mk.inj stored
    simp [PrefsPrivate.tree,newNode]
  | none =>
    rw [new] at stored
    simp only [setEntity,scPreferencesRemoveValue] at stored
    split at stored
    · cases (Prod.mk.inj stored).1
    · obtain ⟨_,rfl⟩ := Prod.mk.inj stored
      by_cases empty : erase prefs.prefs element = [] <;> simp [PrefsPrivate.tree,newNode,empty]

/-- A set or a removal that succeeds rebuilds the tree at the elements of its last pass. -/
theorem setPath_ok {entity : Option (CFDictionary α)} (stored : setPath prefs path entity = (.ok (),prefs')) :
    ∃ s, setElements prefs path = .ok s ∧
      prefs'.tree = (rebuilt prefs.tree s entity).getD (.dict []) ∧ prefs'.changed = true := by
  unfold setPath at stored
  split at stored
  · cases (Prod.mk.inj stored).1
  · cases (Prod.mk.inj stored).1
  · rename_i elements nodes went
    refine ⟨elements,by rw [setElements,went]; rfl,?_⟩
    obtain ⟨_,_,_,_,_,done⟩ := followLinks_resolves (setPass_finds _) went
    cases elements with
    | nil =>
      obtain ⟨_,rfl⟩ := Prod.mk.inj stored
      cases entity <;> simp [rebuilt,place_nil,prune_nil,PrefsPrivate.tree]
    | cons element rest =>
      simp only [setResolved] at stored
      rw [loop_rebuilt done] at stored
      split at stored
      · cases (Prod.mk.inj stored).1
      · exact setEntity_tree stored

private theorem setEntity_error {element : CFString} {new : Option (PropertyList α)} {status : SCStatus}
    (failed : setEntity prefs element new = (.error status,prefs')) : prefs' = prefs := by
  cases new with
  | some u => cases (Prod.mk.inj failed).1
  | none =>
    simp only [setEntity,scPreferencesRemoveValue] at failed
    split at failed
    · exact (Prod.mk.inj failed).2.symm
    · cases (Prod.mk.inj failed).1

private theorem setPath_error {entity : Option (CFDictionary α)} {status : SCStatus}
    (failed : setPath prefs path entity = (.error status,prefs')) : prefs' = prefs := by
  unfold setPath at failed
  split at failed
  · exact (Prod.mk.inj failed).2.symm
  · exact (Prod.mk.inj failed).2.symm
  · rename_i elements nodes _
    cases elements with
    | nil => cases (Prod.mk.inj failed).1
    | cons element rest =>
      simp only [setResolved] at failed
      split at failed
      · exact (Prod.mk.inj failed).2.symm
      · exact setEntity_error failed

theorem getPath_ok {v : CFDictionary α} (got : getPath prefs path = .ok v) :
    ∃ s, getElements prefs path = .ok s ∧ prefs.tree.look s = some (.dict v) := by
  unfold getPath at got
  split at got
  · cases got
  · rename_i elements result went
    obtain ⟨_,_,_,_,_,done⟩ := followLinks_resolves (getPass_finds _) went
    rcases getPass_done done with ⟨v',same,reached⟩ | ⟨same,_⟩
    · rw [same] at got
      obtain rfl := Except.ok.inj got
      exact ⟨elements,by rw [getElements,went]; rfl,reached⟩
    · rw [same] at got
      cases got

theorem setElements_went (resolved : setElements prefs path = .ok s) :
    ∃ r, followLinks (setPass prefs.prefs) path = .ok (s,r) := by
  rw [setElements] at resolved
  cases went : followLinks (setPass prefs.prefs) path with
  | error status => simp [went,Except.map] at resolved
  | ok at_ =>
    rw [went] at resolved
    obtain rfl := Except.ok.inj resolved
    exact ⟨at_.2,rfl⟩

/-- Writing back what was read leaves the tree as it was. -/
theorem setPath_getPath {v : CFDictionary α} (got : getPath prefs path = .ok v) :
    setPath prefs path (some v) = (.ok (),{prefs with changed := true}) := by
  obtain ⟨s,elements_,reached⟩ := getPath_ok got
  obtain ⟨r,went⟩ := setElements_went (elements_agree prefs path ▸ elements_)
  obtain ⟨_,_,_,_,_,done⟩ := followLinks_resolves (setPass_finds _) went
  obtain ⟨nodes,rfl⟩ := setPass_ok done reached
  have back := place_look reached
  have stored : setPath prefs path (some v) = setResolved prefs (some v) nodes s := by simp [setPath,went]
  rw [stored]
  cases s with
  | nil =>
    rw [PrefsPrivate.tree,look_nil] at reached
    obtain rfl := Tree.dict.inj (Option.some.inj reached)
    rfl
  | cons element rest =>
    rw [setResolved,setPass_last done,← PrefsPrivate.tree,reached,loop_rebuilt done]
    rw [PrefsPrivate.tree,place_cons,entries_dict] at back
    simp only [rebuilt,setEntity,scPreferencesSetValue]
    rw [Tree.dict.inj back]

/-! ## Reading back after a set -/

variable {v : PropertyList α} {i : Nat} {link : PropertyList α}

/-- Where a link would be is beside the sequence, unless the sequence ends above it
or goes through the reserved key. -/
theorem beside_link (reserved : kSCResvLink ∉ s.tail) {p : List CFString} (inner : p ≠ []) (above : ¬ s <+: p) :
    ¬ s <+: p ++ [kSCResvLink] ∧ ¬ p ++ [kSCResvLink] <+: s := by
  obtain ⟨element,rest,rfl⟩ := List.exists_cons_of_ne_nil inner
  constructor
  · intro within
    rcases List.prefix_concat_iff.mp within with rfl | shorter
    · exact reserved (by simp)
    · exact above shorter
  · rintro ⟨q,rfl⟩
    exact reserved (by simp)

theorem look_place_link (reserved : kSCResvLink ∉ s.tail) {j : Nat} (inside : j + 1 < elements.length)
    (above : ¬ s <+: elements.take (j+1)) :
    (t.place s v).look (elements.take (j+1) ++ [kSCResvLink]) = t.look (elements.take (j+1) ++ [kSCResvLink]) := by
  have inner : elements.take (j+1) ≠ [] := by
    intro empty
    have lengths := congrArg List.length empty
    rw [List.length_take,List.length_nil] at lengths
    omega
  obtain ⟨notBelow,notAbove⟩ := beside_link reserved inner above
  exact look_place_beside t v notBelow notAbove

theorem LinkMet.place (met : LinkMet t elements i link) (reserved : kSCResvLink ∉ s.tail)
    (above : ¬ s <+: elements.take (i+1)) : LinkMet (t.place s v) elements i link where
  inside := met.inside
  linked := by rw [look_place_link reserved met.inside above]; exact met.linked
  first := by
    intro j below
    have shorter : elements.take (j+1) <+: elements.take (i+1) := List.take_prefix_take_left (by omega)
    have inside := met.inside
    rw [look_place_link reserved (by omega) fun within => above (within.trans shorter)]
    exact met.first j below

theorem NoLink.place (clear : NoLink t s) (reserved : kSCResvLink ∉ s.tail) : NoLink (t.place s v) s := by
  intro j inside
  rw [look_place_link reserved inside]
  · exact clear j inside
  · intro within
    have lengths := within.length_le
    rw [List.length_take] at lengths
    omega

theorem Resolves.place (resolves : Resolves t start followed s) (reserved : kSCResvLink ∉ s.tail)
    (above : ∀ p ∈ followed, ¬ s <+: p) : Resolves (t.place s v) start followed s := by
  induction resolves with
  | settled clear => exact .settled (clear.place reserved)
  | link met normal _ ih =>
    exact .link (met.place reserved (above _ (by simp))) normal
      (ih reserved fun p member => above p (List.mem_cons_of_mem _ member))

theorem getPath_setPath {v : CFDictionary α} (stored : setPath prefs path (some v) = (.ok (),prefs'))
    (normal : normalizePath path = some start) (resolves : Resolves prefs.tree start followed s)
    (above : ∀ p ∈ followed, ¬ s <+: p) (reserved : kSCResvLink ∉ s.tail) : getPath prefs' path = .ok v := by
  obtain ⟨s',elements_,tree_,_⟩ := setPath_ok stored
  obtain ⟨r,went⟩ := setElements_went elements_
  obtain ⟨start',followed',normal',resolves',few,_⟩ := followLinks_resolves (setPass_finds _) went
  obtain rfl := Option.some.inj (normal.symm.trans normal')
  obtain ⟨rfl,rfl⟩ := resolves.unique resolves'
  have after : prefs'.tree = prefs.tree.place s (.dict v) := tree_
  have again := resolves.place (v := .dict v) reserved above
  rw [← after] at again
  obtain ⟨r,done,went'⟩ := followLinks_of_resolves (getPass_finds prefs'.prefs) normal again few
  have reached : prefs'.tree.look s = some (.dict v) := by
    rw [after]
    simpa using look_place_below prefs.tree (.dict v) s []
  rcases getPass_done done with ⟨w,rfl,here⟩ | ⟨_,absent⟩
  · obtain rfl := Tree.dict.inj (Option.some.inj (reached.symm.trans here))
    simp [getPath,went']
  · exact absurd reached (absent v)

/-! ## The lens -/

/-- Every element after the first is a key that a set may make without making a link. -/
def Unreserved (s : List CFString) : Prop := kSCResvLink ∉ s.tail

/-- `after` is `before` with the dictionary `v` at the sequence `s`. -/
structure PlacedAt (before : PropertyList α) (s : List CFString) (v : CFDictionary α) (after : PropertyList α) :
    Prop where
  placed : after = before.place s (.dict v)
  below : ∀ q, after.look (s ++ q) = (Tree.dict v).look q
  above : ∀ p q, s = p ++ q → after.look p = some (((before.look p).getD (.dict [])).place q (.dict v))
  beside : ∀ p, ¬ s <+: p → ¬ p <+: s → after.look p = before.look p

/-- `after` is `before` without what is at the sequence `s` and without the
dictionaries on the way to it that are then empty. -/
structure RemovedAt (before : PropertyList α) (s : List CFString) (after : PropertyList α) : Prop where
  pruned : after = (before.prune s).getD (.dict [])
  below : ∀ q, s ≠ [] → after.look (s ++ q) = none
  above : ∀ p q, s = p ++ q → p ≠ [] → after.look p = ((before.look p).getD (.dict [])).prune q
  beside : ∀ p, ¬ s <+: p → ¬ p <+: s → after.look p = before.look p

private theorem placedAt (before : PropertyList α) (s : List CFString) (v : CFDictionary α) :
    PlacedAt before s v (before.place s (.dict v)) where
  placed := rfl
  below := look_place_below before (.dict v) s
  above := by
    rintro p q rfl
    exact look_place_above before (.dict v) p q
  beside := fun _ => look_place_beside before (.dict v)

private theorem removedAt (before : PropertyList α) (s : List CFString) :
    RemovedAt before s ((before.prune s).getD (.dict [])) where
  pruned := rfl
  below := by
    intro q inner
    obtain ⟨k,rest,rfl⟩ := List.exists_cons_of_ne_nil inner
    exact look_prune_below before k rest q
  above := by
    rintro p q rfl inner
    obtain ⟨k,rest,rfl⟩ := List.exists_cons_of_ne_nil inner
    exact look_prune_above before q
  beside := fun _ => look_prune_beside before

structure PathLens (prefs : PrefsPrivate α) (path : PropertyList α) : Prop where
  getEnds : ∀ elements fuel, MAXLINKS < fuel → ∃ outcome,
    restartLoop (getPass prefs.prefs) (MAXLINKS+1) 0 elements = some outcome ∧
      restartLoop (getPass prefs.prefs) fuel 0 elements = some outcome
  setEnds : ∀ elements fuel, MAXLINKS < fuel → ∃ outcome,
    restartLoop (setPass prefs.prefs) (MAXLINKS+1) 0 elements = some outcome ∧
      restartLoop (setPass prefs.prefs) fuel 0 elements = some outcome
  sameElements : getElements prefs path = setElements prefs path
  resolves : ∀ s, setElements prefs path = .ok s → ∃ start followed, normalizePath path = some start ∧
    Resolves prefs.tree start followed s ∧ followed.length ≤ MAXLINKS
  get : ∀ v, getPath prefs path = .ok v →
    ∃ s, getElements prefs path = .ok s ∧ prefs.tree.look s = some (.dict v)
  set : ∀ v prefs', setPath prefs path (some v) = (.ok (),prefs') →
    ∃ s, setElements prefs path = .ok s ∧ PlacedAt prefs.tree s v prefs'.tree
  remove : ∀ prefs', scPreferencesPathRemoveValue prefs path = (.ok (),prefs') →
    ∃ s v, getElements prefs path = .ok s ∧ prefs.tree.look s = some (.dict v) ∧
      RemovedAt prefs.tree s prefs'.tree
  failedSet : ∀ entity status prefs', setPath prefs path entity = (.error status,prefs') → prefs' = prefs
  setGet : ∀ v, getPath prefs path = .ok v → setPath prefs path (some v) = (.ok (),{prefs with changed := true})
  setSet : ∀ path' s v w prefs' prefs'', setPath prefs path (some v) = (.ok (),prefs') →
    setElements prefs path = .ok s → setPath prefs' path' (some w) = (.ok (),prefs'') →
    setElements prefs' path' = .ok s → PlacedAt prefs.tree s w prefs''.tree
  getSet : ∀ v prefs' start followed s, setPath prefs path (some v) = (.ok (),prefs') →
    normalizePath path = some start → Resolves prefs.tree start followed s →
    (∀ p ∈ followed, ¬ s <+: p) → Unreserved s → getPath prefs' path = .ok v

private theorem set_placed {v : CFDictionary α} (stored : setPath prefs path (some v) = (.ok (),prefs')) :
    ∃ s, setElements prefs path = .ok s ∧ PlacedAt prefs.tree s v prefs'.tree := by
  obtain ⟨s,elements_,tree_,_⟩ := setPath_ok stored
  have after : prefs'.tree = prefs.tree.place s (.dict v) := tree_
  rw [after]
  exact ⟨s,elements_,placedAt _ s v⟩

private theorem remove_removed (removed : scPreferencesPathRemoveValue prefs path = (.ok (),prefs')) :
    ∃ s v, getElements prefs path = .ok s ∧ prefs.tree.look s = some (.dict v) ∧
      RemovedAt prefs.tree s prefs'.tree := by
  unfold scPreferencesPathRemoveValue at removed
  split at removed
  · cases (Prod.mk.inj removed).1
  · rename_i v got
    split at removed
    · cases (Prod.mk.inj removed).1
    · obtain ⟨s,elements_,reached⟩ := getPath_ok got
      obtain ⟨s',elements',tree_,_⟩ := setPath_ok removed
      rw [← elements_agree,elements_] at elements'
      obtain rfl := Except.ok.inj elements'
      have after : prefs'.tree = (prefs.tree.prune s).getD (.dict []) := tree_
      rw [after]
      exact ⟨s,v,elements_,reached,removedAt _ s⟩

theorem setElements_resolves {prefs : PrefsPrivate α} {path : PropertyList α} {s : List CFString}
    (elements_ : setElements prefs path = .ok s) : ∃ start followed, normalizePath path = some start ∧
      Resolves prefs.tree start followed s ∧ followed.length ≤ MAXLINKS := by
  obtain ⟨r,went⟩ := setElements_went elements_
  obtain ⟨start,followed,normal,resolves,few,_⟩ := followLinks_resolves (setPass_finds _) went
  exact ⟨start,followed,normal,resolves,few⟩

def plain : PrefsPrivate Nat := ⟨[("a".toList,.dict [])],false⟩

def reservedPath : PropertyList Nat := .leaf (.string "/a/__LINK__".toList)

end FreebsdLaunchd.Preferences
