import FreebsdLaunchd.Preferences.Path

/-! Link nodes inside a path: where a pass stops, how the restarts lead to one
sequence of elements, and that the getter and the setter come to the same one. -/
namespace FreebsdLaunchd.Preferences
open Trees Tree

variable {α R S : Type} {t : PropertyList α} {elements resolved : List CFString} {followed : List (List CFString)}

/-! ## Where a pass meets a link -/

/-- The first link node inside the elements is the dictionary at element `i`. -/
structure LinkMet (t : PropertyList α) (elements : List CFString) (i : Nat) (link : PropertyList α) : Prop where
  inside : i + 1 < elements.length
  linked : t.look (elements.take (i+1) ++ [kSCResvLink]) = some link
  first : ∀ j < i, t.look (elements.take (j+1) ++ [kSCResvLink]) = none

def NoLink (t : PropertyList α) (elements : List CFString) : Prop :=
  ∀ j, j + 1 < elements.length → t.look (elements.take (j+1) ++ [kSCResvLink]) = none

theorem LinkMet.unique {i j : Nat} {link link' : PropertyList α} (met : LinkMet t elements i link)
    (met' : LinkMet t elements j link') : i = j ∧ link = link' := by
  have same : i = j := by
    rcases Nat.lt_trichotomy i j with below | same | above
    · have none_ := met'.first i below
      rw [met.linked] at none_
      cases none_
    · exact same
    · have none_ := met.first j above
      rw [met'.linked] at none_
      cases none_
  subst same
  exact ⟨rfl,Option.some.inj (met.linked.symm.trans met'.linked)⟩

theorem LinkMet.not_clear {i : Nat} {link : PropertyList α} (met : LinkMet t elements i link)
    (clear : NoLink t elements) : False := by
  have none_ := clear i met.inside
  rw [met.linked] at none_
  cases none_

def StopsAt (t : PropertyList α) (elements : List CFString) : Pass α R → Prop
  | .done _ => NoLink t elements
  | .link i link => LinkMet t elements i link

def Finds (t : PropertyList α) (pass : List CFString → Pass α R) : Prop :=
  ∀ elements, StopsAt t elements (pass elements)

private theorem look_into (t : PropertyList α) (element : CFString) (rest : List CFString) (j : Nat) :
    t.look ((element::rest).take (j+1) ++ [kSCResvLink]) =
      (t.child element).look (rest.take j ++ [kSCResvLink]) := by
  rw [List.take_succ_cons,List.cons_append]
  cases split : rest.take j ++ [kSCResvLink] with
  | nil => simp at split
  | cons k q => rw [look_child]

theorem noLink_short (short : elements.length ≤ 1) : NoLink t elements := fun j inside => by omega

private theorem noLink_barren (barren : t.entries = []) : NoLink t elements := by
  intro j inside
  cases elements with
  | nil => simp at inside
  | cons element rest => rw [List.take_succ_cons,List.cons_append,look_cons,barren]; rfl

private theorem noLink_cons {element : CFString} {rest : List CFString}
    (here : rest = [] ∨ find (t.child element).entries kSCResvLink = none)
    (further : NoLink (t.child element) rest) : NoLink t (element::rest) := by
  intro j inside
  rw [look_into]
  cases j with
  | zero =>
    rcases here with rfl | unlinked
    · simp at inside
    · rw [List.take_zero,List.nil_append,look_cons,unlinked]; rfl
  | succ j => exact further j (by simpa using inside)

private theorem linkMet_here {element : CFString} {rest : List CFString} {link : PropertyList α} (inside : rest ≠ [])
    (linked : find (t.child element).entries kSCResvLink = some link) : LinkMet t (element::rest) 0 link where
  inside := by
    have := List.length_pos_iff.mpr inside
    simpa using this
  linked := by
    rw [look_into,List.take_zero,List.nil_append,look_cons,linked,Option.bind_some,look_nil]
  first := fun j below => absurd below (Nat.not_lt_zero j)

theorem LinkMet.later {element : CFString} {rest : List CFString} {i : Nat} {link : PropertyList α}
    (met : LinkMet (t.child element) rest i link)
    (unlinked : find (t.child element).entries kSCResvLink = none) : LinkMet t (element::rest) (i+1) link where
  inside := by simpa using met.inside
  linked := by rw [look_into]; exact met.linked
  first := by
    intro j below
    rw [look_into]
    cases j with
    | zero => rw [List.take_zero,List.nil_append,look_cons,unlinked]; rfl
    | succ j => exact met.first j (by omega)

private theorem child_dict {dict : CFDictionary α} {element : CFString} {u : PropertyList α}
    (found : find dict element = some u) : (Tree.dict dict).child element = u := by simp [child,found]

private theorem finds_later {u : PropertyList α} {element : CFString} {rest : List CFString} {pass : Pass α R} (f : R → S)
    (child_ : t.child element = u) (unlinked : rest = [] ∨ find u.entries kSCResvLink = none)
    (stops : StopsAt u rest pass) : StopsAt t (element::rest) (pass.later f) := by
  subst child_
  cases pass with
  | done r => exact noLink_cons unlinked stops
  | link i link =>
    rcases unlinked with rfl | unlinked
    · have inside := LinkMet.inside stops
      simp at inside
    · exact LinkMet.later stops unlinked

theorem getPass_finds (dict : CFDictionary α) : Finds (.dict dict) (getPass dict) := by
  intro elements
  induction elements generalizing dict with
  | nil => exact noLink_short (by simp)
  | cons element rest ih =>
    unfold getPass
    cases found : find dict element with
    | none => exact noLink_cons (.inr (by simp [child,found])) (noLink_barren (by simp [child,found]))
    | some u =>
      cases u with
      | leaf v =>
        have leaf_ := child_dict found
        exact noLink_cons (.inr (by rw [leaf_]; rfl)) (noLink_barren (by rw [leaf_]; rfl))
      | dict value =>
        by_cases last : rest = []
        · subst last
          simp only [if_true]
          exact finds_later id (child_dict found) (.inl rfl) (ih value)
        · simp only [last,if_false]
          cases linked : find value kSCResvLink with
          | some link => exact linkMet_here last (by rw [child_dict found]; exact linked)
          | none => exact finds_later id (child_dict found) (.inr linked) (ih value)

theorem setPass_finds (dict : CFDictionary α) : Finds (.dict dict) (setPass dict) := by
  intro elements
  induction elements generalizing dict with
  | nil => exact noLink_short (by simp)
  | cons element rest ih =>
    cases rest with
    | nil => exact noLink_short (by simp)
    | cons element' rest =>
      unfold setPass
      have child_ : (Tree.dict dict).child element = (find dict element).getD (.dict []) := rfl
      cases node_ : (find dict element).getD (.dict []) with
      | leaf v =>
        rw [node_] at child_
        exact noLink_cons (.inr (by rw [child_]; rfl)) (noLink_barren (by rw [child_]; rfl))
      | dict node =>
        rw [node_] at child_
        simp only []
        cases linked : find node kSCResvLink with
        | some link => exact linkMet_here (by simp) (by rw [child_]; exact linked)
        | none => exact finds_later _ child_ (.inr linked) (ih node)

/-! ## The restarts -/

/-- From the elements, following the link nodes at the places in turn, to the
sequence in the end. -/
inductive Resolves (t : PropertyList α) : List CFString → List (List CFString) → List CFString → Prop
  | settled {elements : List CFString} (clear : NoLink t elements) : Resolves t elements [] elements
  | link {elements linkElements resolved : List CFString} {followed : List (List CFString)} {i : Nat}
      {link : PropertyList α} (met : LinkMet t elements i link)
      (normal : normalizePath link = some linkElements)
      (further : Resolves t (linkElements ++ elements.drop (i+1)) followed resolved) :
      Resolves t elements (elements.take (i+1) :: followed) resolved

theorem Resolves.clear (resolves : Resolves t elements followed resolved) : NoLink t resolved := by
  induction resolves with
  | settled clear => exact clear
  | link _ _ _ ih => exact ih

variable {pass : List CFString → Pass α R} {pass' : List CFString → Pass α S} {fuel nLinks : Nat}

theorem Finds.link (finds : Finds t pass) {i : Nat} {link : PropertyList α} (met : pass elements = .link i link) :
    LinkMet t elements i link := by
  have found := finds elements
  rw [met] at found
  exact found

theorem Finds.done (finds : Finds t pass) {r : R} (done : pass elements = .done r) : NoLink t elements := by
  have found := finds elements
  rw [done] at found
  exact found

/-- Every pass but the last follows a link, so the passes end. -/
theorem restartLoop_returns (pass : List CFString → Pass α R) (elements : List CFString)
    (enough : MAXLINKS < fuel + nLinks) (within : nLinks ≤ MAXLINKS) :
    (restartLoop pass fuel nLinks elements).isSome := by
  induction fuel generalizing nLinks elements with
  | zero => omega
  | succ fuel ih =>
    unfold restartLoop
    cases pass elements with
    | done r => rfl
    | link i link =>
      by_cases tail : nLinks + 1 > MAXLINKS
      · simp only [tail,if_true]; rfl
      · simp only [tail,if_false]
        cases normalizePath link with
        | none => rfl
        | some linkElements => exact ih _ (by omega) (by omega)

private theorem restartLoop_more {outcome : Except SCStatus (List CFString × R)} (more : Nat)
    (returned : restartLoop pass fuel nLinks elements = some outcome) :
    restartLoop pass (fuel + more) nLinks elements = some outcome := by
  induction fuel generalizing nLinks elements with
  | zero => cases returned
  | succ fuel ih =>
    rw [Nat.succ_add]
    unfold restartLoop at returned ⊢
    cases met : pass elements with
    | done r => rw [met] at returned; exact returned
    | link i link =>
      rw [met] at returned
      by_cases tail : nLinks + 1 > MAXLINKS
      · simp only [tail,if_true] at returned ⊢
        exact returned
      · simp only [tail,if_false] at returned ⊢
        cases normal : normalizePath link with
        | none => rw [normal] at returned; exact returned
        | some linkElements => rw [normal] at returned; exact ih returned

/-- However long they are let go on, the passes end with one outcome. -/
theorem restartLoop_ends (pass : List CFString → Pass α R) (elements : List CFString) (enough : MAXLINKS < fuel) :
    ∃ outcome, restartLoop pass (MAXLINKS+1) 0 elements = some outcome ∧
      restartLoop pass fuel 0 elements = some outcome := by
  have returns : (restartLoop pass (MAXLINKS+1) 0 elements).isSome :=
    restartLoop_returns pass elements (by simp) (Nat.zero_le _)
  obtain ⟨outcome,returned⟩ := Option.isSome_iff_exists.mp returns
  obtain ⟨more,rfl⟩ := Nat.exists_eq_add_of_le enough
  exact ⟨outcome,returned,restartLoop_more more returned⟩

private theorem restartLoop_resolves (finds : Finds t pass) (within : nLinks ≤ MAXLINKS) {r : R}
    (returned : restartLoop pass fuel nLinks elements = some (.ok (resolved,r))) :
    ∃ followed, Resolves t elements followed resolved ∧ nLinks + followed.length ≤ MAXLINKS ∧
      pass resolved = .done r := by
  induction fuel generalizing nLinks elements with
  | zero => cases returned
  | succ fuel ih =>
    unfold restartLoop at returned
    cases met : pass elements with
    | done r' =>
      rw [met] at returned
      obtain ⟨rfl,rfl⟩ := Prod.mk.inj (Except.ok.inj (Option.some.inj returned))
      exact ⟨[],.settled (finds.done met),by simpa using within,met⟩
    | link i link =>
      rw [met] at returned
      by_cases tail : nLinks + 1 > MAXLINKS
      · simp [tail] at returned
      · simp only [tail,if_false] at returned
        cases normal : normalizePath link with
        | none => simp [normal] at returned
        | some linkElements =>
          rw [normal] at returned
          obtain ⟨followed,resolves,few,done⟩ := ih (by omega) returned
          exact ⟨_,.link (finds.link met) normal resolves,by simp only [List.length_cons]; omega,done⟩

private theorem restartLoop_of_resolves (finds : Finds t pass) (resolves : Resolves t elements followed resolved)
    (few : nLinks + followed.length ≤ MAXLINKS) (enough : followed.length < fuel) :
    ∃ r, pass resolved = .done r ∧ restartLoop pass fuel nLinks elements = some (.ok (resolved,r)) := by
  induction resolves generalizing nLinks fuel with
  | @settled elements clear =>
    obtain ⟨fuel,rfl⟩ := Nat.exists_eq_succ_of_ne_zero (Nat.ne_of_gt enough)
    unfold restartLoop
    cases met : pass elements with
    | done r => exact ⟨r,rfl,rfl⟩
    | link i link => exact absurd clear (finds.link met).not_clear
  | @link elements linkElements resolved followed i link met normal further ih =>
    rw [List.length_cons] at few enough
    obtain ⟨fuel,rfl⟩ := Nat.exists_eq_succ_of_ne_zero (Nat.ne_of_gt (Nat.zero_lt_of_lt enough))
    unfold restartLoop
    cases met' : pass elements with
    | done r => exact absurd (finds.done met') met.not_clear
    | link i' link' =>
      obtain ⟨rfl,rfl⟩ := met.unique (finds.link met')
      have further : ∃ r, pass resolved = .done r ∧
          restartLoop pass fuel (nLinks+1) (linkElements ++ elements.drop (i+1)) = some (.ok (resolved,r)) :=
        ih (by omega) (by omega)
      simpa [show ¬ nLinks + 1 > MAXLINKS by omega,normal] using further

theorem LinkMet.alike {t' : PropertyList α} (alike : Alike t t') {i : Nat} {link : PropertyList α}
    (met : LinkMet t elements i link) : ∃ link', LinkMet t' elements i link' ∧ Alike link link' := by
  obtain ⟨link',linked,same⟩ := alike.look_some met.linked
  exact ⟨link',⟨met.inside,linked,fun j below => alike.look_none (met.first j below)⟩,same⟩

theorem NoLink.alike {t' : PropertyList α} (alike : Alike t t') (clear : NoLink t elements) : NoLink t' elements :=
  fun j inside => alike.look_none (clear j inside)

private theorem normalizePath_alike {link link' : PropertyList α} (alike : Alike link link') :
    normalizePath link = normalizePath link' := by
  cases link with
  | leaf v => rw [alike.leaf_left]
  | dict d =>
    obtain ⟨e,rfl⟩ := alike.dict_left
    rfl

/-- Two passes over one tree are led through the same elements, and so are passes
over trees that differ in the order of their entries only. -/
theorem restartLoop_agree {t' : PropertyList α} (alike : Alike t t') (finds : Finds t pass) (finds' : Finds t' pass') :
    (restartLoop pass fuel nLinks elements).map (·.map Prod.fst) =
      (restartLoop pass' fuel nLinks elements).map (·.map Prod.fst) := by
  induction fuel generalizing nLinks elements with
  | zero => rfl
  | succ fuel ih =>
    unfold restartLoop
    cases met : pass elements with
    | done r =>
      cases met' : pass' elements with
      | done r' => rfl
      | link i' link' => exact absurd ((finds.done met).alike alike) (finds'.link met').not_clear
    | link i link =>
      obtain ⟨other,there,same⟩ := (finds.link met).alike alike
      cases met' : pass' elements with
      | done r' => exact absurd (finds'.done met') there.not_clear
      | link i' link' =>
        obtain ⟨rfl,rfl⟩ := there.unique (finds'.link met')
        by_cases tail : nLinks + 1 > MAXLINKS
        · simp [tail,Except.map]
        · simp only [tail,if_false,normalizePath_alike same]
          cases normalizePath other with
          | none => rfl
          | some linkElements => exact ih

/-! ## Following the links of a path -/

theorem followLinks_loop {path : PropertyList α} {start : List CFString} (normal : normalizePath path = some start)
    (pass : List CFString → Pass α R) :
    restartLoop pass (MAXLINKS+1) 0 start = some (followLinks pass path) := by
  obtain ⟨outcome,returned,_⟩ := restartLoop_ends pass start (Nat.lt_succ_self MAXLINKS)
  simp [followLinks,normal,returned]

theorem followLinks_resolves {path : PropertyList α} (finds : Finds t pass) {r : R}
    (went : followLinks pass path = .ok (resolved,r)) :
    ∃ start followed, normalizePath path = some start ∧ Resolves t start followed resolved ∧
      followed.length ≤ MAXLINKS ∧ pass resolved = .done r := by
  cases normal : normalizePath path with
  | none => simp [followLinks,normal] at went
  | some start =>
    have returned := followLinks_loop normal pass
    rw [went] at returned
    obtain ⟨followed,resolves,few,done⟩ := restartLoop_resolves finds (Nat.zero_le _) returned
    exact ⟨start,followed,rfl,resolves,by omega,done⟩

theorem followLinks_of_resolves {path : PropertyList α} {start : List CFString} (finds : Finds t pass)
    (normal : normalizePath path = some start) (resolves : Resolves t start followed resolved)
    (few : followed.length ≤ MAXLINKS) : ∃ r, pass resolved = .done r ∧ followLinks pass path = .ok (resolved,r) := by
  have few' : 0 + followed.length ≤ MAXLINKS := by omega
  obtain ⟨r,done,returned⟩ := restartLoop_of_resolves finds resolves few' (Nat.lt_succ_of_le few)
  rw [followLinks_loop normal pass] at returned
  exact ⟨r,done,Option.some.inj returned⟩

theorem followLinks_agree {t' path path' : PropertyList α} (alike : Alike t t') (finds : Finds t pass)
    (finds' : Finds t' pass') (samePath : Alike path path') :
    (followLinks pass path).map Prod.fst = (followLinks pass' path').map Prod.fst := by
  have normal' := normalizePath_alike samePath
  cases normal : normalizePath path with
  | none => simp [followLinks,← normal',normal,Except.map]
  | some start =>
    have agree : (restartLoop pass (MAXLINKS+1) 0 start).map _ = _ := restartLoop_agree alike finds finds'
    rw [followLinks_loop normal,followLinks_loop (normal' ▸ normal)] at agree
    exact Option.some.inj agree

end FreebsdLaunchd.Preferences
