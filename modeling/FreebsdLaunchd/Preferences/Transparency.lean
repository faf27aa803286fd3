import FreebsdLaunchd.Preferences.Lens

/-! Links seen by readers: a path through a link that was just set, against the
path through what the link leads to. -/
namespace FreebsdLaunchd.Preferences
open Trees Tree

variable {α R : Type} {t v : PropertyList α} {dict : CFDictionary α} {prefs prefs' : PrefsPrivate α}
  {elements start target location s : List CFString} {followed visited : List (List CFString)} {i links : Nat}
  {link : PropertyList α} {q p : CFString}

/-! ## Longer paths -/

def longer (path : CFString) (further : List CFString) : CFString := path ++ further.flatMap ('/' :: ·)

/-- The components of the texts, which are the texts themselves where each is one component. -/
def components (further : List CFString) : List CFString :=
  further.flatMap fun text => (text.splitOn '/').filter (· ≠ [])

private theorem split_longer (path : CFString) (further : List CFString) :
    ((longer path further).splitOn '/').filter (· ≠ []) =
      (path.splitOn '/').filter (· ≠ []) ++ components further := by
  induction further generalizing path with
  | nil => simp [longer,components]
  | cons text further ih =>
    have joined : longer path (text::further) = path ++ '/' :: longer text further := by simp [longer]
    rw [joined,List.splitOn_append_cons_self,List.filter_append,ih]
    simp [components]

private theorem normalize_longer (normal : normalizePath (.leaf (.string q) : PropertyList α) = some start)
    (further : List CFString) :
    normalizePath (.leaf (.string (longer q further)) : PropertyList α) = some (start ++ components further) := by
  simp only [normalizePath] at normal ⊢
  split at normal
  · rename_i rooted
    obtain rfl := Option.some.inj normal
    have rooted' : (longer q further).head? = some '/' := by simp [longer,List.head?_append,rooted]
    rw [if_pos rooted',split_longer]
  · cases normal

/-! ## The way of a path -/

/-- The way of the elements: how many links are followed on it, the last of them
perhaps a bad one, and the locations at which a pass comes to a link or to its end. -/
inductive Way (t : PropertyList α) : List CFString → Nat → List (List CFString) → Prop
  | settled {elements : List CFString} (clear : NoLink t elements) : Way t elements 0 [elements]
  | bad {elements : List CFString} {i : Nat} {link : PropertyList α} (met : LinkMet t elements i link)
      (bad : normalizePath link = none) : Way t elements 1 [elements.take (i+1)]
  | link {elements linkElements : List CFString} {visited : List (List CFString)} {i links : Nat}
      {link : PropertyList α} (met : LinkMet t elements i link) (normal : normalizePath link = some linkElements)
      (further : Way t (linkElements ++ elements.drop (i+1)) links visited) :
      Way t elements (links+1) (elements.take (i+1) :: visited)

structure Apart (location visited : List CFString) : Prop where
  notBelow : ¬ location <+: visited
  notAbove : ¬ visited <+: location

theorem Finds.stops {pass : List CFString → Pass α R} (finds : Finds t pass) (met : LinkMet t elements i link) :
    pass elements = .link i link := by
  cases stopped : pass elements with
  | done r => exact absurd (finds.done stopped) met.not_clear
  | link i' link' =>
    obtain ⟨rfl,rfl⟩ := met.unique (finds.link stopped)
    rfl

def atEnd (t : PropertyList α) (elements : List CFString) : Except SCStatus (CFDictionary α) :=
  match t.look elements with
  | some (.dict value) => .ok value
  | _ => .error .noKey

private theorem getPass_clear (clear : NoLink (.dict dict) elements) :
    getPass dict elements = .done (atEnd (.dict dict) elements) := by
  cases stopped : getPass dict elements with
  | link i link => exact absurd clear ((getPass_finds dict).link stopped).not_clear
  | done r =>
    rcases getPass_done stopped with ⟨value,rfl,reached⟩ | ⟨rfl,absent⟩
    · simp [atEnd,reached]
    · unfold atEnd
      split
      · rename_i value reached
        exact absurd reached (absent value)
      · rfl

/-- A way has one outcome wherever it is short enough for the passes that are left. -/
theorem Way.outcome (way : Way (.dict dict) elements links visited) :
    ∃ outcome, ∀ fuel nLinks, nLinks + links ≤ MAXLINKS → links < fuel →
      restartLoop (getPass dict) fuel nLinks elements = some outcome := by
  generalize tree_ : Tree.dict dict = t at way
  induction way with
  | @settled elements clear =>
    subst tree_
    refine ⟨.ok (elements,atEnd (.dict dict) elements),fun fuel nLinks _ enough => ?_⟩
    obtain ⟨fuel,rfl⟩ := Nat.exists_eq_succ_of_ne_zero (Nat.ne_of_gt enough)
    simp [restartLoop,getPass_clear clear]
  | bad met bad =>
    subst tree_
    refine ⟨.error .noKey,fun fuel nLinks few enough => ?_⟩
    obtain ⟨fuel,rfl⟩ := Nat.exists_eq_succ_of_ne_zero (Nat.ne_of_gt (Nat.zero_lt_of_lt enough))
    simp [restartLoop,(getPass_finds dict).stops met,bad,show ¬ nLinks + 1 > MAXLINKS by omega]
  | @link elements linkElements visited i links link met normal _ ih =>
    subst tree_
    obtain ⟨outcome,same⟩ := ih
    refine ⟨outcome,fun fuel nLinks few enough => ?_⟩
    obtain ⟨fuel,rfl⟩ := Nat.exists_eq_succ_of_ne_zero (Nat.ne_of_gt (Nat.zero_lt_of_lt enough))
    have further := same fuel (nLinks+1) (by omega) (by omega)
    simpa [restartLoop,(getPass_finds dict).stops met,normal,show ¬ nLinks + 1 > MAXLINKS by omega] using further

/-! ## Beside a location that is written -/

theorem Apart.look (apart : Apart location elements) : (t.place location v).look elements = t.look elements :=
  look_place_beside t v apart.notBelow apart.notAbove

theorem Apart.clear (apart : Apart location elements) (unreserved : Unreserved location)
    (clear : NoLink t elements) : NoLink (t.place location v) elements := by
  intro j inside
  rw [look_place_link unreserved inside]
  · exact clear j inside
  · exact fun within => apart.notBelow (within.trans (List.take_prefix _ _))

/-- A write beside all that is visited changes neither the way nor its end. -/
theorem Way.beside {dict' : CFDictionary α} (way : Way (.dict dict) elements links visited)
    (written : Tree.dict dict' = (Tree.dict dict).place location v) (unreserved : Unreserved location)
    (apart : ∀ place ∈ visited, Apart location place) :
    Way (.dict dict') elements links visited ∧ ∀ fuel nLinks,
      restartLoop (getPass dict') fuel nLinks elements = restartLoop (getPass dict) fuel nLinks elements := by
  generalize tree_ : Tree.dict dict = t at way
  induction way with
  | @settled elements clear =>
    subst tree_
    have here := apart elements (by simp)
    have clear' : NoLink (.dict dict') elements := written ▸ here.clear unreserved clear
    refine ⟨.settled clear',fun fuel nLinks => ?_⟩
    have same : atEnd (.dict dict') elements = atEnd (.dict dict) elements := by
      rw [atEnd,written,here.look,atEnd]
    cases fuel with
    | zero => rfl
    | succ fuel => simp [restartLoop,getPass_clear clear,getPass_clear clear',same]
  | @bad elements i link met bad =>
    subst tree_
    have here := apart (elements.take (i+1)) (by simp)
    have met' : LinkMet (.dict dict') elements i link := written ▸ met.place unreserved here.notBelow
    refine ⟨.bad met' bad,fun fuel nLinks => ?_⟩
    cases fuel with
    | zero => rfl
    | succ fuel => simp [restartLoop,(getPass_finds _).stops met,(getPass_finds _).stops met',bad]
  | @link elements linkElements visited i links link met normal _ ih =>
    subst tree_
    obtain ⟨way',same⟩ := ih (fun place member => apart place (List.mem_cons_of_mem _ member))
    have here := apart (elements.take (i+1)) (by simp)
    have met' : LinkMet (.dict dict') elements i link := written ▸ met.place unreserved here.notBelow
    refine ⟨.link met' normal way',fun fuel nLinks => ?_⟩
    cases fuel with
    | zero => rfl
    | succ fuel => simp [restartLoop,(getPass_finds _).stops met,(getPass_finds _).stops met',normal,same]

/-! ## Through the link -/

theorem LinkMet.longer (met : LinkMet t elements i link) (rest : List CFString) :
    LinkMet t (elements ++ rest) i link := by
  have inside := met.inside
  have sameTake : ∀ j ≤ i, (elements ++ rest).take (j+1) = elements.take (j+1) :=
    fun j within => List.take_append_of_le_length (by omega)
  refine ⟨by rw [List.length_append]; omega,by rw [sameTake i (Nat.le_refl i)]; exact met.linked,fun j below => ?_⟩
  rw [sameTake j (Nat.le_of_lt below)]
  exact met.first j below

/-- Longer elements are led the same way, as far as the shorter ones are. -/
theorem Resolves.through {pass : List CFString → Pass α R} (finds : Finds t pass)
    (resolves : Resolves t start followed location) (rest : List CFString) {fuel nLinks : Nat}
    (few : nLinks + followed.length ≤ MAXLINKS) :
    restartLoop pass (fuel + followed.length) nLinks (start ++ rest) =
      restartLoop pass fuel (nLinks + followed.length) (location ++ rest) := by
  induction resolves generalizing nLinks with
  | settled clear => rfl
  | @link elements linkElements resolved followed i link met normal _ ih =>
    rw [List.length_cons] at few ⊢
    have inside := met.inside
    have dropped : (elements ++ rest).drop (i+1) = elements.drop (i+1) ++ rest :=
      List.drop_append_of_le_length (by omega)
    have next := @ih (nLinks+1) (by omega)
    rw [← Nat.add_assoc,restartLoop,finds.stops (met.longer rest)]
    simp only [show ¬ nLinks + 1 > MAXLINKS by omega,if_false,normal,dropped,← List.append_assoc]
    rw [next,Nat.add_assoc,Nat.add_comm 1]

/-- Once a link is written at the end of a way, every longer way meets it. -/
theorem linkMet_written (clear : NoLink t location) (unreserved : Unreserved location) (inner : location ≠ [])
    {rest : List CFString} (further : rest ≠ []) :
    LinkMet (t.place location (.dict [(kSCResvLink,link)])) (location ++ rest) (location.length - 1) link := by
  have positive := List.length_pos_iff.mpr inner
  have positive' := List.length_pos_iff.mpr further
  have whole : location.length - 1 + 1 = location.length := by omega
  refine ⟨by rw [List.length_append]; omega,?_,fun j below => ?_⟩
  · rw [whole,List.take_left',look_place_below,look_key]
    · simp [find]
    · rfl
  · rw [List.take_append_of_le_length (by omega)]
    exact clear.place unreserved j (by omega)

/-! ## What the reader gets -/

private theorem getPath_congr {path path' : PropertyList α} (normal : normalizePath path = some start)
    (normal' : normalizePath path' = some target)
    (same : restartLoop (getPass prefs.prefs) (MAXLINKS+1) 0 start =
      restartLoop (getPass prefs'.prefs) (MAXLINKS+1) 0 target) : getPath prefs path = getPath prefs' path' := by
  rw [followLinks_loop normal,followLinks_loop normal'] at same
  rw [getPath,Option.some.inj same,getPath]

private theorem getPath_bad {path : PropertyList α} (bad : normalizePath path = none) :
    getPath prefs path = .error .noKey := by
  simp [getPath,followLinks,bad]

def EndLink (t : PropertyList α) (elements : List CFString) (link : PropertyList α) : Prop :=
  ∃ followed location, Resolves t elements followed location ∧ followed.length ≤ MAXLINKS ∧
    t.look (location ++ [kSCResvLink]) = some link

def Reached (t : PropertyList α) (path : PropertyList α) : Prop :=
  ∃ start followed location value, normalizePath path = some start ∧ Resolves t start followed location ∧
    followed.length ≤ MAXLINKS ∧ t.look location = some (.dict value)

private theorem getPath_resolves {path : PropertyList α} {value : CFDictionary α} (normal : normalizePath path = some start)
    (resolves : Resolves prefs.tree start followed location) (few : followed.length ≤ MAXLINKS)
    (there : prefs.tree.look location = some (.dict value)) : getPath prefs path = .ok value := by
  obtain ⟨r,done,went⟩ := followLinks_of_resolves (getPass_finds prefs.prefs) normal resolves few
  rcases getPass_done done with ⟨value',rfl,here⟩ | ⟨_,absent⟩
  · obtain rfl := Tree.dict.inj (Option.some.inj (there.symm.trans here))
    rw [getPath,went]
  · exact absurd there (absent value)

private theorem resolves_getPath {path : PropertyList α} {value : CFDictionary α} (got : getPath prefs path = .ok value) :
    ∃ start followed location, normalizePath path = some start ∧ Resolves prefs.tree start followed location ∧
      followed.length ≤ MAXLINKS ∧ prefs.tree.look location = some (.dict value) := by
  obtain ⟨location,elements_,there⟩ := getPath_ok got
  obtain ⟨start,followed,normal,resolves,few⟩ := setElements_resolves (elements_agree prefs path ▸ elements_)
  exact ⟨start,followed,location,normal,resolves,few,there⟩

private theorem reached_iff {path : PropertyList α} :
    Reached prefs.tree path ↔ ∃ value, getPath prefs path = .ok value := by
  constructor
  · rintro ⟨start,followed,location,value,normal,resolves,few,there⟩
    exact ⟨value,getPath_resolves normal resolves few there⟩
  · rintro ⟨value,got⟩
    obtain ⟨start,followed,location,normal,resolves,few,there⟩ := resolves_getPath got
    exact ⟨start,followed,location,value,normal,resolves,few,there⟩

private theorem endLink_iff {path : PropertyList α} (normal : normalizePath path = some elements) :
    EndLink prefs.tree elements link ↔ ∃ entity, getPath prefs path = .ok entity ∧ find entity kSCResvLink = some link := by
  constructor
  · rintro ⟨followed,location,resolves,few,linked⟩
    rw [look_append] at linked
    cases there : prefs.tree.look location with
    | none => simp [there] at linked
    | some entity =>
      rw [there,Option.bind_some,look_key] at linked
      cases entity with
      | leaf value => cases linked
      | dict entity => exact ⟨entity,getPath_resolves normal resolves few there,linked⟩
  · rintro ⟨entity,got,linked⟩
    obtain ⟨start,followed,location,normal',resolves,few,there⟩ := resolves_getPath got
    obtain rfl := Option.some.inj (normal.symm.trans normal')
    exact ⟨followed,location,resolves,few,by rw [look_append,there,Option.bind_some,look_key]; exact linked⟩

/-- All that is visited on the way to the target and further is apart from the location, and so
is all that is visited on the way of a link at its end. Where the way goes on behind the target, so
few links are followed on it that with those taken before they stay below the limit. -/
structure ReadBeside (t : PropertyList α) (location : List CFString) (taken : Nat) (target further : List CFString) :
    Prop where
  way : ∃ links visited, Way t (target ++ further) links visited ∧ (further ≠ [] → taken + links < MAXLINKS) ∧
    ∀ place ∈ visited, Apart location place
  target : ∀ link target', EndLink t (target ++ further) link → normalizePath link = some target' →
    ∃ links visited, Way t target' links visited ∧ ∀ place ∈ visited, Apart location place

/-- A reader gets through the one path after the call what it got through the other before. -/
structure Transparent (prefs prefs' : PrefsPrivate α) (q p : CFString) (further : List CFString) : Prop where
  same : scPreferencesPathGetValue prefs' (.leaf (.string (longer q further))) =
    scPreferencesPathGetValue prefs (.leaf (.string (longer p further)))
  noLink : ∀ value link, scPreferencesPathGetValue prefs' (.leaf (.string (longer q further))) = .ok value →
    find value kSCResvLink = some link → ∀ entity, getPath prefs' link ≠ .ok entity

/-- No two links stand one behind the other at the end: none is behind the link that
is set where nothing follows it, and elsewhere none that leads on is behind the last. -/
structure SingleLink (t after : PropertyList α) (target further : List CFString) : Prop where
  direct : further = [] → ∀ link, ¬ EndLink t target link
  behind : further ≠ [] → ∀ link target' link', EndLink t (target ++ further) link →
    normalizePath link = some target' → EndLink t target' link' → ¬ Reached after link'

private theorem setLink_ok (stored : scPreferencesPathSetLink prefs q (.leaf (.string p)) = (.ok (),prefs')) :
    (∃ entity, getPath prefs (.leaf (.string p)) = .ok entity) ∧
      setPath prefs (.leaf (.string q)) (some [(kSCResvLink,.leaf (.string p))]) = (.ok (),prefs') := by
  unfold scPreferencesPathSetLink at stored
  simp only [] at stored
  split at stored
  · cases (Prod.mk.inj stored).1
  · rename_i entity got
    exact ⟨⟨entity,got⟩,stored⟩

/-- A link was written at the end of a way that the write did not touch. -/
structure LinkWritten (prefs prefs' : PrefsPrivate α) (q p : CFString) (start : List CFString)
    (followed : List (List CFString)) (location : List CFString) : Prop where
  stored : setPath prefs (.leaf (.string q)) (some [(kSCResvLink,.leaf (.string p))]) = (.ok (),prefs')
  startsAt : normalizePath (.leaf (.string q) : PropertyList α) = some start
  resolves : Resolves prefs.tree start followed location
  unreserved : Unreserved location
  above : ∀ place ∈ followed, ¬ location <+: place

theorem LinkWritten.after (written : LinkWritten prefs prefs' q p start followed location) :
    prefs'.tree = prefs.tree.place location (.dict [(kSCResvLink,.leaf (.string p))]) := by
  obtain ⟨location',elements_,tree_,_⟩ := setPath_ok written.stored
  obtain ⟨r,went⟩ := setElements_went elements_
  obtain ⟨start',followed',normal',resolves',_,_⟩ := followLinks_resolves (setPass_finds _) went
  obtain rfl := Option.some.inj (written.startsAt.symm.trans normal')
  obtain ⟨rfl,rfl⟩ := written.resolves.unique resolves'
  exact tree_

theorem LinkWritten.getPath_beside (written : LinkWritten prefs prefs' q p start followed location)
    {path : PropertyList α} (normal : normalizePath path = some elements) (way : Way prefs.tree elements links visited)
    (apart : ∀ place ∈ visited, Apart location place) : getPath prefs' path = getPath prefs path := by
  obtain ⟨_,same⟩ := way.beside written.after written.unreserved apart
  exact getPath_congr normal normal (same _ _)

/-- Through the link, the restarts come to the way of what it leads to. -/
theorem LinkWritten.getPath_longer (written : LinkWritten prefs prefs' q p start followed location)
    (leads : normalizePath (.leaf (.string p) : PropertyList α) = some target)
    (read : ReadBeside prefs.tree location followed.length target (components s)) (further : components s ≠ []) :
    getPath prefs' (.leaf (.string (longer q s))) = getPath prefs (.leaf (.string (longer p s))) := by
  obtain ⟨links,visited,way,few,apart⟩ := read.way
  have few := few further
  obtain ⟨way',same⟩ := way.beside written.after written.unreserved apart
  obtain ⟨outcome,always⟩ := way'.outcome
  have inner : location ≠ [] := by
    rintro rfl
    obtain ⟨place,member⟩ : ∃ place, place ∈ visited := by cases way <;> exact ⟨_,List.mem_cons_self⟩
    exact (apart place member).notBelow List.nil_prefix
  have positive := List.length_pos_iff.mpr inner
  have resolves' : Resolves prefs'.tree start followed location :=
    written.after ▸ written.resolves.place written.unreserved written.above
  have met : LinkMet prefs'.tree (location ++ components s) (location.length - 1) (.leaf (.string p)) :=
    written.after ▸ linkMet_written written.resolves.clear written.unreserved inner further
  have dropped : (location ++ components s).drop (location.length - 1 + 1) = components s := by
    rw [Nat.sub_add_cancel positive,List.drop_left]
  refine getPath_congr (normalize_longer written.startsAt s) (normalize_longer leads s) ?_
  rw [← same,always (MAXLINKS+1) 0 (by omega) (by omega)]
  obtain ⟨left,total⟩ : ∃ left, MAXLINKS + 1 = (left + 1) + followed.length := ⟨MAXLINKS - followed.length,by omega⟩
  rw [total,resolves'.through (getPass_finds _) (components s) (by omega),restartLoop,
    (getPass_finds prefs'.prefs).stops met]
  simp only [show ¬ 0 + followed.length + 1 > MAXLINKS by omega,if_false,leads,dropped]
  exact always left _ (by omega) (by omega)

private theorem getValue_eq {path path' : PropertyList α} (same : getPath prefs' path = getPath prefs path')
    (sameTarget : ∀ entity link, getPath prefs path' = .ok entity → find entity kSCResvLink = some link →
      getPath prefs' link = getPath prefs link) :
    scPreferencesPathGetValue prefs' path = scPreferencesPathGetValue prefs path' := by
  unfold scPreferencesPathGetValue
  rw [same]
  cases got : getPath prefs path' with
  | error status => rfl
  | ok entity =>
    cases linked : find entity kSCResvLink with
    | none => simp [linked]
    | some link => simpa [linked] using sameTarget entity link got linked

/-- What a link at the end leads to is what it led to before. -/
theorem LinkWritten.getPath_target (written : LinkWritten prefs prefs' q p start followed location) {taken : Nat}
    {further : List CFString} (read : ReadBeside prefs.tree location taken target further)
    (linked : EndLink prefs.tree (target ++ further) link) : getPath prefs' link = getPath prefs link := by
  cases normal : normalizePath link with
  | none => rw [getPath_bad normal,getPath_bad normal]
  | some target' =>
    obtain ⟨links,visited,way,apart⟩ := read.target link target' linked normal
    exact written.getPath_beside normal way apart

private theorem getValue_link {path : PropertyList α} {entity : CFDictionary α} (got : getPath prefs path = .ok entity)
    (linked : find entity kSCResvLink = some link) : scPreferencesPathGetValue prefs path = getPath prefs link := by
  simp [scPreferencesPathGetValue,got,linked]

private theorem getValue_plain {path : PropertyList α} {entity : CFDictionary α} (got : getPath prefs path = .ok entity)
    (unlinked : find entity kSCResvLink = none) : scPreferencesPathGetValue prefs path = .ok entity := by
  simp [scPreferencesPathGetValue,got,unlinked]

private theorem transparent_direct (written : LinkWritten prefs prefs' q p start followed location)
    (present : ∃ entity, getPath prefs (.leaf (.string p)) = .ok entity)
    (leads : normalizePath (.leaf (.string p) : PropertyList α) = some target)
    (read : ReadBeside prefs.tree location followed.length target (components s)) (last : components s = []) :
    Transparent prefs prefs' q p s ↔ ∀ link, ¬ EndLink prefs.tree target link := by
  obtain ⟨entity,got⟩ := present
  have startsAt := normalize_longer written.startsAt s
  have leads' := normalize_longer leads s
  rw [last] at read
  rw [last,List.append_nil] at startsAt leads'
  obtain ⟨links,visited,way,-,apart⟩ := read.way
  rw [List.append_nil] at way
  have here : getPath prefs' (.leaf (.string (longer q s))) = .ok [(kSCResvLink,.leaf (.string p))] := by
    rw [getPath_congr startsAt written.startsAt rfl]
    exact getPath_setPath written.stored written.startsAt written.resolves written.above written.unreserved
  have there : getPath prefs (.leaf (.string (longer p s))) = .ok entity := by
    rw [getPath_congr leads' leads rfl,got]
  have after : scPreferencesPathGetValue prefs' (.leaf (.string (longer q s))) = .ok entity := by
    have written_ : find [(kSCResvLink,(.leaf (.string p) : PropertyList α))] kSCResvLink = some (.leaf (.string p)) := by
      simp [find]
    rw [getValue_link here written_,written.getPath_beside leads way apart,got]
  constructor
  · intro transparent link ends
    obtain ⟨entity',got',linked⟩ := (endLink_iff leads).mp ends
    obtain rfl := Except.ok.inj (got.symm.trans got')
    have same := transparent.same
    rw [after,getValue_link there linked,← written.getPath_target read (by rwa [List.append_nil])] at same
    exact transparent.noLink entity link after linked entity same.symm
  · intro direct
    have unlinked : find entity kSCResvLink = none := by
      cases linked : find entity kSCResvLink with
      | none => rfl
      | some link => exact absurd ((endLink_iff leads).mpr ⟨entity,got,linked⟩) (direct link)
    refine ⟨by rw [after,getValue_plain there unlinked],fun value link got' linked => ?_⟩
    obtain rfl := Except.ok.inj (after.symm.trans got')
    rw [unlinked] at linked
    cases linked

private theorem transparent_further (written : LinkWritten prefs prefs' q p start followed location)
    (leads : normalizePath (.leaf (.string p) : PropertyList α) = some target)
    (read : ReadBeside prefs.tree location followed.length target (components s)) (further : components s ≠ []) :
    Transparent prefs prefs' q p s ↔ ∀ link target' link', EndLink prefs.tree (target ++ components s) link →
      normalizePath link = some target' → EndLink prefs.tree target' link' → ¬ Reached prefs'.tree link' := by
  have leads' := normalize_longer leads s
  have same : scPreferencesPathGetValue prefs' (.leaf (.string (longer q s))) =
      scPreferencesPathGetValue prefs (.leaf (.string (longer p s))) := by
    refine getValue_eq (written.getPath_longer leads read further) fun entity link got linked => ?_
    exact written.getPath_target read ((endLink_iff leads').mpr ⟨entity,got,linked⟩)
  constructor
  · intro transparent link target' link' ends normal ends' reached
    obtain ⟨entity,got,linked⟩ := (endLink_iff leads').mp ends
    obtain ⟨value,got',linked'⟩ := (endLink_iff normal).mp ends'
    obtain ⟨entity',got''⟩ := reached_iff.mp reached
    exact transparent.noLink value link' (by rw [same,getValue_link got linked,got']) linked' entity' got''
  · intro behind
    refine ⟨same,fun value link' got' linked' entity' got'' => ?_⟩
    rw [same] at got'
    cases got : getPath prefs (.leaf (.string (longer p s))) with
    | error status => simp [scPreferencesPathGetValue,got] at got'
    | ok entity =>
      cases linked : find entity kSCResvLink with
      | none =>
        rw [getValue_plain got linked] at got'
        obtain rfl := Except.ok.inj got'
        rw [linked] at linked'
        cases linked'
      | some link =>
        rw [getValue_link got linked] at got'
        obtain ⟨target',_,_,normal,_⟩ := resolves_getPath got'
        exact behind link target' link' ((endLink_iff leads').mpr ⟨entity,got,linked⟩) normal
          ((endLink_iff normal).mpr ⟨value,got',linked'⟩) (reached_iff.mpr ⟨entity',got''⟩)

/-- A link is transparent to readers of what lies apart from it unless two links stand
one behind the other where a path ends: the restarts inside a path follow every link,
the reader only one at its end. -/
theorem setLink_transparent_iff
    (stored : scPreferencesPathSetLink prefs q (.leaf (.string p)) = (.ok (),prefs'))
    (startsAt : normalizePath (.leaf (.string q) : PropertyList α) = some start)
    (resolves : Resolves prefs.tree start followed location)
    (leads : normalizePath (.leaf (.string p) : PropertyList α) = some target)
    (read : ReadBeside prefs.tree location followed.length target (components s))
    (unreserved : Unreserved location) (above : ∀ place ∈ followed, ¬ location <+: place) :
    Transparent prefs prefs' q p s ↔ SingleLink prefs.tree
      (prefs.tree.place location (.dict [(kSCResvLink,.leaf (.string p))])) target (components s) := by
  obtain ⟨present,stored⟩ := setLink_ok stored
  have written : LinkWritten prefs prefs' q p start followed location :=
    ⟨stored,startsAt,resolves,unreserved,above⟩
  rw [← written.after]
  by_cases last : components s = []
  · rw [transparent_direct written present leads read last]
    exact ⟨fun direct => ⟨fun _ => direct,fun further => absurd last further⟩,fun single => single.direct last⟩
  · rw [transparent_further written leads read last]
    exact ⟨fun behind => ⟨fun ends => absurd ends last,fun _ => behind⟩,fun single => single.behind last⟩

private theorem endLink_clear (clear : NoLink t elements) :
    EndLink t elements link ↔ t.look (elements ++ [kSCResvLink]) = some link := by
  constructor
  · rintro ⟨followed,location,resolves,_,linked⟩
    obtain ⟨rfl,rfl⟩ := resolves.unique (.settled clear)
    exact linked
  · exact fun linked => ⟨[],elements,.settled clear,Nat.zero_le _,linked⟩

private theorem clear_single (t : PropertyList α) (element : CFString) : NoLink t [element] := noLink_short (by simp)

def linked : PrefsPrivate Nat :=
  ⟨[("a".toList,.dict [("x".toList,.dict [])]),("l".toList,.dict [(kSCResvLink,.leaf (.string "/a".toList))])],false⟩

theorem setLink_transparent_iff_entry :
    ∃ prefs', scPreferencesPathSetLink linked "/c".toList (.leaf (.string "/a".toList)) = (.ok (),prefs') ∧
      (Transparent linked prefs' "/c".toList "/a".toList ["x".toList] ↔ SingleLink linked.tree
        (linked.tree.place ["c".toList] (.dict [(kSCResvLink,.leaf (.string "/a".toList))])) ["a".toList] ["x".toList]) := by
  have clear : NoLink linked.tree ["a".toList,"x".toList] := by
    intro j inside
    obtain rfl : j = 0 := by simp only [List.length_cons,List.length_nil] at inside; omega
    rfl
  have read : ReadBeside linked.tree ["c".toList] 0 ["a".toList] ["x".toList] := by
    refine ⟨⟨0,_,.settled clear,fun _ => by decide,?_⟩,fun link target ends => ?_⟩
    · rintro place member
      obtain rfl := List.mem_singleton.mp member
      exact ⟨by decide,by decide⟩
    · cases (endLink_clear clear).mp ends
  exact ⟨_,rfl,setLink_transparent_iff rfl rfl (.settled (clear_single _ _)) rfl read (by simp [Unreserved]) (by simp)⟩

/-- A link set to a link is followed to that link, not through it. -/
theorem setLink_not_transparent :
    ¬ ∀ (prefs prefs' : PrefsPrivate Nat) (q p : CFString) (start target location : List CFString)
      (followed : List (List CFString)) (s : List CFString),
      scPreferencesPathSetLink prefs q (.leaf (.string p)) = (.ok (),prefs') →
      normalizePath (.leaf (.string q) : PropertyList Nat) = some start →
      Resolves prefs.tree start followed location →
      normalizePath (.leaf (.string p) : PropertyList Nat) = some target →
      ReadBeside prefs.tree location followed.length target (components s) →
      Transparent prefs prefs' q p s := by
  intro always
  have apart : ∀ element ∈ ["a".toList,"l".toList], ∀ place ∈ [[element]], Apart ["c".toList] place := by
    intro element either place member
    obtain rfl := List.mem_singleton.mp member
    rcases List.mem_pair.mp either with rfl | rfl <;> exact ⟨by decide,by decide⟩
  have read : ReadBeside linked.tree ["c".toList] 0 ["l".toList] [] := by
    refine ⟨⟨0,_,.settled (clear_single _ _),fun none => absurd rfl none,apart _ (by simp)⟩,fun link target ends normal => ?_⟩
    obtain rfl := Option.some.inj ((endLink_clear (clear_single _ _)).mp ends)
    obtain rfl := Option.some.inj normal
    exact ⟨0,[["a".toList]],.settled (clear_single _ _),apart "a".toList List.mem_cons_self⟩
  have transparent := always linked _ "/c".toList "/l".toList _ _ ["c".toList] [] [] rfl rfl
    (.settled (clear_single _ _)) rfl read
  cases transparent.same

end FreebsdLaunchd.Preferences
