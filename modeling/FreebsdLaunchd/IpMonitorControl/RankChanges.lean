import FreebsdLaunchd.IpMonitorControl.Server
import Mathlib.Data.List.Chain
import Mathlib.Data.List.Nodup

/-! The merged ranks are the greatest of those asserted, in whatever order they are
merged, and no change of them is missing from the interfaces that are handed out. -/
namespace FreebsdLaunchd.IpMonitorControl

/-! ## The merged ranks -/

section
variable {info : Option CFDictionary} {ranks : CFString → Set Int}

@[simp] theorem entry_none (ifname : CFString) : entry none ifname = none := rfl

@[simp] theorem entry_some (d : CFDictionary) (ifname : CFString) : entry (some d) ifname = d.lookup ifname := rfl

private theorem entry_addRank (info : Option CFDictionary) (key : CFString) (rank : Int) :
    entry (addRank info key rank) key = some (((entry info key).map (max rank)).getD rank) := by
  unfold addRank
  cases info with
  | none => simp
  | some d =>
    cases existing : d.lookup key with
    | none => simp [existing]
    | some existingRank =>
      simp only [existing]
      split_ifs with greater
      · simp [existing,max_eq_left (le_of_lt greater)]
      · simp [existing,max_eq_right (not_lt.mp greater)]

private theorem entry_addRank_of_ne (info : Option CFDictionary) {key ifname : CFString} (apart : ifname ≠ key)
    (rank : Int) :
    entry (addRank info key rank) ifname = entry info ifname := by
  unfold addRank
  cases info with
  | none => simp [Finmap.lookup_insert_of_ne _ apart]
  | some d =>
    dsimp only
    split
    · exact Finmap.lookup_insert_of_ne _ apart
    · split_ifs
      · exact Finmap.lookup_insert_of_ne _ apart
      · rfl

theorem Tops.congr {ranks' : CFString → Set Int} (tops : Tops info ranks)
    (same : ∀ ifname, ranks' ifname = ranks ifname) :
    Tops info ranks' := by
  intro ifname
  rw [same ifname]
  exact tops ifname

private theorem tops_none : Tops none fun _ => ∅ := fun _ => rfl

theorem Tops.addRank (tops : Tops info ranks) (key : CFString) (rank : Int) :
    Tops (addRank info key rank) fun ifname => {r | r ∈ ranks ifname ∨ key = ifname ∧ r = rank} := by
  intro ifname
  rcases eq_or_ne ifname key with rfl | apart
  · have old := tops ifname
    rw [entry_addRank]
    cases existing : entry info ifname with
    | none =>
      rw [existing] at old
      refine ⟨.inr ⟨rfl,rfl⟩,fun r member => ?_⟩
      rcases member with known | ⟨_,same⟩
      · rw [old] at known
        cases known
      · exact same.le
    | some existingRank =>
      rw [existing] at old
      refine ⟨?_,fun r member => ?_⟩
      · rcases max_choice rank existingRank with new | kept
        · exact .inr ⟨rfl,new⟩
        · exact .inl (by simpa [kept] using old.1)
      · rcases member with known | ⟨_,same⟩
        · exact (old.2 known).trans (le_max_right _ _)
        · exact same.le.trans (le_max_left _ _)
  · rw [entry_addRank_of_ne info apart]
    simpa [apart.symm] using tops ifname

/-- Going through a list, each entry adds a rank of its own. -/
theorem Tops.foldl (tops : Tops info ranks) (rank : CFString × Int → Int) (entries : List (CFString × Int)) :
    Tops (entries.foldl (fun info entry => IpMonitorControl.addRank info entry.1 (rank entry)) info)
      fun ifname => {r | r ∈ ranks ifname ∨ ∃ entry ∈ entries, entry.1 = ifname ∧ r = rank entry} := by
  induction entries generalizing info ranks with
  | nil => simpa using tops
  | cons first entries ih =>
    refine (ih (tops.addRank first.1 (rank first))).congr fun ifname => ?_
    ext r
    simp [or_assoc]

end

def ControlSession.ranks (session : ControlSession) (ifname : CFString) : Set Int :=
  {r | entry session.assertions ifname = some r ∨
    r = numberCreate rankLast ∧ ∃ advisory, entry session.advisories ifname = some advisory}

private theorem mem_entries (e : Enumeration) (d : Option CFDictionary) (ifname : CFString) (number : Int) :
    (ifname,number) ∈ e.entries d ↔ entry d ifname = some number := by
  cases d with
  | none => simp [Enumeration.entries]
  | some d => exact e.lists d ifname number

theorem Tops.addSession {info : Option CFDictionary} {ranks : CFString → Set Int} (tops : Tops info ranks)
    (e : Enumeration)
    (session : ControlSession) :
    Tops (addSession e info session) fun ifname => {r | r ∈ ranks ifname ∨ r ∈ session.ranks ifname} := by
  refine ((tops.foldl (fun _ => numberCreate rankLast) (e.entries session.advisories)).foldl Prod.snd
    (e.entries session.assertions)).congr fun ifname => ?_
  ext r
  have advised : (∃ entry ∈ e.entries session.advisories, entry.1 = ifname ∧ r = numberCreate rankLast) ↔
      r = numberCreate rankLast ∧ ∃ advisory, entry session.advisories ifname = some advisory := by
    simp only [← mem_entries e]
    constructor
    · rintro ⟨⟨_,advisory⟩,member,rfl,last⟩
      exact ⟨last,advisory,member⟩
    · rintro ⟨last,advisory,member⟩
      exact ⟨_,member,rfl,last⟩
  have asserted : (∃ entry ∈ e.entries session.assertions, entry.1 = ifname ∧ r = entry.2) ↔
      entry session.assertions ifname = some r := by
    rw [← mem_entries e]
    constructor
    · rintro ⟨⟨_,_⟩,member,rfl,rfl⟩
      exact member
    · intro member
      exact ⟨_,member,rfl,rfl⟩
  simp only [Set.mem_ofPred_eq,advised,asserted,ControlSession.ranks]
  tauto

/-- The merged dictionary has the greatest ranks of all sessions. -/
theorem tops_copy (e : Enumeration) (sessions : List ControlSession) :
    Tops (interfaceRankAssertionsCopy e sessions) fun ifname => {r | ∃ session ∈ sessions, r ∈ session.ranks ifname} := by
  have added {info : Option CFDictionary} {ranks : CFString → Set Int} (tops : Tops info ranks) :
      Tops (sessions.foldl (addSession e) info) fun ifname =>
        {r | r ∈ ranks ifname ∨ ∃ session ∈ sessions, r ∈ session.ranks ifname} := by
    induction sessions generalizing info ranks with
    | nil => simpa using tops
    | cons session sessions ih =>
      refine (ih (tops.addSession e session)).congr fun ifname => ?_
      ext r
      simp [or_assoc]
  refine (added tops_none).congr fun ifname => ?_
  ext r
  simp

/-! ## The changed interfaces -/

def Server.changed (s : Server) : List CFString := s.ifChanges.getD []

/-- The range is that of the whole array, which has no interface twice. -/
structure Server.Listed (s : Server) : Prop where
  range : s.ifChanges ≠ none → s.ifChangesRange = s.changed.length
  once : s.changed.Nodup

section
variable {s : Server}

@[simp] theorem sessions_addInterface (ifname : CFString) (s : Server) :
    (interfaceChangedListAddInterface ifname s).sessions = s.sessions := by
  unfold interfaceChangedListAddInterface
  split
  · rfl
  · split_ifs <;> rfl

theorem Server.Listed.add (listed : s.Listed) (ifname : CFString) :
    (interfaceChangedListAddInterface ifname s).Listed ∧
      ∀ i, i ∈ (interfaceChangedListAddInterface ifname s).changed ↔ i ∈ s.changed ∨ i = ifname := by
  unfold interfaceChangedListAddInterface
  cases changes : s.ifChanges with
  | none => exact ⟨⟨fun _ => rfl,List.nodup_singleton ifname⟩,fun i => by simp [Server.changed,changes]⟩
  | some list =>
    have whole : s.changed = list := by simp [Server.changed,changes]
    have range : s.ifChangesRange = list.length := by rw [listed.range (by simp [changes]),whole]
    have once := listed.once
    rw [whole] at once
    dsimp only
    rw [range,List.take_length,whole]
    split_ifs with known
    · refine ⟨listed,fun i => ?_⟩
      rw [whole]
      constructor
      · exact .inl
      · rintro (member | rfl)
        · exact member
        · exact known
    · refine ⟨⟨fun _ => by simp [Server.changed],?_⟩,fun i => by simp [Server.changed]⟩
      change (list ++ [ifname]).Nodup
      rw [← List.concat_eq_append]
      exact once.concat known

@[simp] theorem sessions_addInterfaces (entries : List (CFString × Int)) (s : Server) :
    (addChangedInterfaces entries s).sessions = s.sessions := by
  induction entries generalizing s with
  | nil => rfl
  | cons first entries ih => exact (ih _).trans (sessions_addInterface first.1 s)

theorem Server.Listed.addAll (listed : s.Listed) (entries : List (CFString × Int)) :
    (addChangedInterfaces entries s).Listed ∧
      ∀ i, i ∈ (addChangedInterfaces entries s).changed ↔ i ∈ s.changed ∨ ∃ number, (i,number) ∈ entries := by
  induction entries generalizing s with
  | nil => exact ⟨listed,fun i => by simp [addChangedInterfaces]⟩
  | cons first entries ih =>
    obtain ⟨listed',added⟩ := listed.add first.1
    obtain ⟨listed'',added'⟩ := ih listed'
    refine ⟨listed'',fun i => (added' i).trans ?_⟩
    rw [added i,or_assoc]
    have head : i = first.1 ↔ ∃ number, (i,number) = first := by
      constructor
      · rintro rfl
        exact ⟨first.2,rfl⟩
      · rintro ⟨number,rfl⟩
        rfl
    simp only [head,List.mem_cons,exists_or]

end

/-! ## The sessions -/

/-- The session of a connection, which has asserted nothing if it has none. -/
def view (s : Server) (connection : Nat) : ControlSession :=
  (controlSessionLookup connection s).getD ⟨connection,none,none⟩

def Server.Distinct (s : Server) : Prop := (s.sessions.map ControlSession.connection).Nodup

section
variable {s : Server} {c connection : Nat} {session : ControlSession}

private theorem lookup_connection (found : controlSessionLookup connection s = some session) :
    session.connection = connection := by
  simpa using List.find?_some found

@[simp] theorem view_connection (s : Server) (connection : Nat) : (view s connection).connection = connection := by
  unfold view
  cases found : controlSessionLookup connection s with
  | none => rfl
  | some session => exact lookup_connection found

private theorem view_congr {s s' : Server} (same : s'.sessions = s.sessions) : view s' c = view s c := by
  rw [view,view,controlSessionLookup,controlSessionLookup,same]

theorem Server.Distinct.lookup (distinct : s.Distinct) (member : session ∈ s.sessions) :
    controlSessionLookup session.connection s = some session := by
  cases found : controlSessionLookup session.connection s with
  | none => exact absurd (List.find?_eq_none.mp found session member) (by simp)
  | some other =>
    have same := List.inj_on_of_nodup_map distinct (List.mem_of_find?_eq_some found) member (lookup_connection found)
    rw [same]

/-- Of the session that is used the connection has one afterwards, and nothing else is different. -/
theorem forConnection (distinct : s.Distinct) (connection : Nat) :
    (controlSessionForConnection connection s).1 = view s connection ∧
    (controlSessionForConnection connection s).2.Distinct ∧
    (controlSessionForConnection connection s).1 ∈ (controlSessionForConnection connection s).2.sessions ∧
    (controlSessionForConnection connection s).2.ifChanges = s.ifChanges ∧
    (controlSessionForConnection connection s).2.ifChangesRange = s.ifChangesRange ∧
    ∀ c, view (controlSessionForConnection connection s).2 c = view s c := by
  unfold controlSessionForConnection
  cases found : controlSessionLookup connection s with
  | some session => exact ⟨by simp [view,found],distinct,List.mem_of_find?_eq_some found,rfl,rfl,fun c => rfl⟩
  | none =>
    refine ⟨by simp [view,found],?_,List.mem_cons_self,rfl,rfl,fun c => ?_⟩
    · refine List.nodup_cons.mpr ⟨fun member => ?_,distinct⟩
      obtain ⟨session,there,same⟩ := List.mem_map.mp member
      exact absurd (List.find?_eq_none.mp found session there) (by simpa using same)
    · rcases eq_or_ne connection c with rfl | apart
      · simp [view,controlSessionLookup,show s.sessions.find? _ = none from found]
      · simp [view,controlSessionLookup,apart]

private theorem map_put (session : ControlSession) (s : Server) :
    (s.put session).sessions.map ControlSession.connection = s.sessions.map ControlSession.connection := by
  rw [Server.put,List.map_map]
  apply List.map_congr_left
  intro other _
  dsimp only [Function.comp_apply]
  split_ifs with same
  · exact same.symm
  · rfl

private theorem view_put (distinct : s.Distinct) (member : session ∈ s.sessions) {session' : ControlSession}
    (same : session'.connection = session.connection) (c : Nat) :
    view (s.put session') c = if c = session.connection then session' else view s c := by
  have distinct' : (s.put session').Distinct := by rwa [Server.Distinct,map_put]
  split_ifs with own
  · subst own
    have there : session' ∈ (s.put session').sessions := List.mem_map.mpr ⟨session,member,if_pos same.symm⟩
    rw [view,← same,distinct'.lookup there,Option.getD_some]
  · have kept : controlSessionLookup c (s.put session') = controlSessionLookup c s := by
      have picks : ((fun x => decide (x.connection = c)) ∘
        fun other => if other.connection = session'.connection then session' else other) =
          fun other : ControlSession => decide (other.connection = c) := by
        funext other
        dsimp only [Function.comp_apply]
        split_ifs with replaced
        · rw [replaced]
        · rfl
      rw [controlSessionLookup,Server.put,List.find?_map,picks]
      change (controlSessionLookup c s).map _ = controlSessionLookup c s
      cases found : controlSessionLookup c s with
      | none => rfl
      | some other =>
        have apart : other.connection ≠ session'.connection := by
          rw [lookup_connection found,same]
          exact own
        rw [Option.map_some,if_neg apart]
    rw [view,view,kept]

end

/-! ## What is stored -/

/-- The dictionary has the numbers of the row, without those that are clear. -/
def Stores (clear : UInt32) (entries : Option CFDictionary) (row : CFString → UInt32) : Prop :=
  ∀ ifname, entry entries ifname = if row ifname = clear then none else some (numberCreate (row ifname))

section
variable {clear number : UInt32} {entries entries' : Option CFDictionary} {row : CFString → UInt32} {ifname : CFString}

private theorem stores_none (clear : UInt32) : Stores clear none fun _ => clear := fun _ => by simp

theorem Stores.row_none (stores : Stores clear none row) (ifname : CFString) : row ifname = clear := by
  have none_ := stores ifname
  by_contra other
  simp [other] at none_

theorem Stores.assign (stores : Stores clear entries row)
    (assigned : assign clear entries ifname number = some entries') :
    Stores clear entries' (Function.update row ifname number) := by
  intro i
  unfold IpMonitorControl.assign at assigned
  have old := stores i
  cases entries with
  | none =>
    dsimp only at assigned
    split_ifs at assigned with cleared
    obtain rfl := Option.some.inj assigned
    rcases eq_or_ne i ifname with rfl | apart
    · simp [cleared]
    · simpa [apart,Finmap.lookup_insert_of_ne _ apart] using old
  | some d =>
    dsimp only at assigned
    split_ifs at assigned with cleared empty
    · obtain rfl := Option.some.inj assigned
      have gone : (d.erase ifname).lookup i = none := by
        rw [Finmap.lookup_eq_none,← Finmap.mem_keys,Finset.card_eq_zero.mp empty]
        exact Finset.notMem_empty i
      rcases eq_or_ne i ifname with rfl | apart
      · simp [cleared]
      · rw [Finmap.lookup_erase_ne apart] at gone
        rw [entry_some,gone] at old
        simpa [apart] using old
    · obtain rfl := Option.some.inj assigned
      rcases eq_or_ne i ifname with rfl | apart
      · simp [cleared]
      · simpa [apart,Finmap.lookup_erase_ne apart] using old
    · obtain rfl := Option.some.inj assigned
      rcases eq_or_ne i ifname with rfl | apart
      · simp [cleared]
      · simpa [apart,Finmap.lookup_insert_of_ne _ apart] using old

theorem Stores.assign_none (stores : Stores clear entries row)
    (nothing : IpMonitorControl.assign clear entries ifname number = none) :
    Function.update row ifname number = row := by
  unfold IpMonitorControl.assign at nothing
  cases entries with
  | none =>
    dsimp only at nothing
    split_ifs at nothing with cleared
    rw [cleared,← stores.row_none ifname]
    exact Function.update_eq_self ifname row
  | some d =>
    dsimp only at nothing
    split_ifs at nothing

end

/-! ## One step -/

/-- What is stored is what has been asserted, and of the interfaces that are not listed as changed
everything is as it was when the information was copied last. -/
structure Server.Tracks (s : Server) (a copied : Asserted) : Prop where
  distinct : s.Distinct
  rank : ∀ c, Stores rankDefault (view s c).assertions (a.rank c)
  advisory : ∀ c, Stores advisoryNone (view s c).advisories (a.advisory c)
  listed : s.Listed
  missing : ∀ ifname ∉ s.changed, ∀ c, a.rank c ifname = copied.rank c ifname ∧ a.advisory c ifname = copied.advisory c ifname

private theorem tracks_start : Server.start.Tracks .nothing .nothing where
  distinct := List.nodup_nil
  rank _ := stores_none rankDefault
  advisory _ := stores_none advisoryNone
  listed := ⟨fun changes => absurd rfl changes,List.nodup_nil⟩
  missing _ _ _ := ⟨rfl,rfl⟩

private theorem setAt_eq (table : Nat → CFString → UInt32) (connection : Nat) (ifname : CFString) (number : UInt32) :
    setAt table connection ifname number = Function.update table connection (Function.update (table connection) ifname number) := by
  funext c i
  unfold setAt
  rcases eq_or_ne c connection with rfl | apart
  · rcases eq_or_ne i ifname with rfl | other
    · simp
    · simp [other]
  · simp [apart]

section
variable {s : Server} {a copied : Asserted}

/-- The server after the session of the connection has been replaced by one with other entries. -/
theorem put_forConnection (distinct : s.Distinct) (listed : s.Listed) (session' : ControlSession) {connection : Nat}
    (same : session'.connection = connection) (ifname : CFString) :
    let s' := interfaceChangedListAddInterface ifname ((controlSessionForConnection connection s).2.put session')
    s'.Distinct ∧ s'.Listed ∧ (∀ i, i ∈ s'.changed ↔ i ∈ s.changed ∨ i = ifname) ∧
      ∀ c, view s' c = if c = connection then session' else view s c := by
  obtain ⟨session,distinct',member,changes,range,views⟩ := forConnection distinct connection
  have own : (controlSessionForConnection connection s).1.connection = connection := by rw [session,view_connection]
  have put := view_put distinct' member (same.trans own.symm)
  have listed' : ((controlSessionForConnection connection s).2.put session').Listed := by
    refine ⟨fun some_ => ?_,?_⟩
    · change (controlSessionForConnection connection s).2.ifChangesRange = _
      rw [range,listed.range (by rwa [← changes])]
      change _ = ((controlSessionForConnection connection s).2.ifChanges.getD []).length
      rw [changes]
      rfl
    · change ((controlSessionForConnection connection s).2.ifChanges.getD []).Nodup
      rw [changes]
      exact listed.once
  obtain ⟨listed'',added⟩ := listed'.add ifname
  refine ⟨?_,listed'',fun i => (added i).trans ?_,fun c => ?_⟩
  · rw [Server.Distinct,sessions_addInterface,map_put]
    exact distinct'
  · change i ∈ (controlSessionForConnection connection s).2.ifChanges.getD [] ∨ _ ↔ _
    rw [changes]
    rfl
  · rw [view_congr (sessions_addInterface _ _),put c,own,views c]

theorem Server.Tracks.forConnection (tracks : s.Tracks a copied) (connection : Nat) :
    (controlSessionForConnection connection s).2.Tracks a copied := by
  obtain ⟨_,distinct,_,changes,range,views⟩ := IpMonitorControl.forConnection tracks.distinct connection
  have changed : (controlSessionForConnection connection s).2.changed = s.changed := by rw [Server.changed,changes]; rfl
  exact {
    distinct
    rank := fun c => by rw [views c]; exact tracks.rank c
    advisory := fun c => by rw [views c]; exact tracks.advisory c
    listed := ⟨by rw [changes,changed,range]; exact tracks.listed.range,by rw [changed]; exact tracks.listed.once⟩
    missing := by rw [changed]; exact tracks.missing }

/-- The session of the connection is replaced by one with another number for one interface. -/
theorem Server.Tracks.put (tracks : s.Tracks a copied) (session' : ControlSession) {connection : Nat}
    (same : session'.connection = connection) (ifname : CFString) {rank advisory : CFString → UInt32}
    (ranks : Stores rankDefault session'.assertions rank) (advisories : Stores advisoryNone session'.advisories advisory)
    (others : ∀ i, i ≠ ifname → rank i = a.rank connection i ∧ advisory i = a.advisory connection i) :
    (interfaceChangedListAddInterface ifname ((controlSessionForConnection connection s).2.put session')).Tracks
      ⟨Function.update a.rank connection rank,Function.update a.advisory connection advisory⟩ copied := by
  obtain ⟨distinct,listed,added,views⟩ := put_forConnection tracks.distinct tracks.listed session' same ifname
  refine ⟨distinct,fun c => ?_,fun c => ?_,listed,fun i absent c => ?_⟩
  · rw [views c]
    dsimp only
    split_ifs with own
    · rw [own,Function.update_self]
      exact ranks
    · rw [Function.update_of_ne own]
      exact tracks.rank c
  · rw [views c]
    dsimp only
    split_ifs with own
    · rw [own,Function.update_self]
      exact advisories
    · rw [Function.update_of_ne own]
      exact tracks.advisory c
  · rw [added i,not_or] at absent
    obtain ⟨before,before'⟩ := tracks.missing i absent.1 c
    dsimp only
    obtain rfl | own := eq_or_ne c connection
    · rw [Function.update_self,Function.update_self]
      exact ⟨(others i absent.2).1.trans before,(others i absent.2).2.trans before'⟩
    · rw [Function.update_of_ne own,Function.update_of_ne own]
      exact ⟨before,before'⟩

theorem Server.Tracks.setInterfaceRank (tracks : s.Tracks a copied) (connection : Nat) (ifname : CFString)
    (rank : SCNetworkServicePrimaryRank) :
    (controlSessionSetInterfaceRank connection ifname rank s).Tracks (a.step (.setInterfaceRank connection ifname rank)) copied := by
  have session := (IpMonitorControl.forConnection tracks.distinct connection).1
  have stores := tracks.rank connection
  rw [controlSessionSetInterfaceRank,Asserted.step,setAt_eq]
  dsimp only
  rw [session]
  cases assigned : assign rankDefault (view s connection).assertions ifname rank with
  | none =>
    rw [stores.assign_none assigned,Function.update_eq_self]
    exact tracks.forConnection connection
  | some assertions =>
    have put := tracks.put {view s connection with assertions} (view_connection s connection) ifname
      (stores.assign assigned) (tracks.advisory connection) fun i other => ⟨Function.update_of_ne other _ _,rfl⟩
    rwa [Function.update_eq_self connection a.advisory] at put

theorem Server.Tracks.setInterfaceAdvisory (tracks : s.Tracks a copied) (connection : Nat) (ifname : CFString)
    (advisory : SCNetworkInterfaceAdvisory) :
    (controlSessionSetInterfaceAdvisory connection ifname advisory s).Tracks
      (a.step (.setInterfaceAdvisory connection ifname advisory)) copied := by
  have session := (IpMonitorControl.forConnection tracks.distinct connection).1
  have stores := tracks.advisory connection
  rw [controlSessionSetInterfaceAdvisory,Asserted.step,setAt_eq]
  dsimp only
  rw [session]
  cases assigned : assign advisoryNone (view s connection).advisories ifname advisory with
  | none =>
    rw [stores.assign_none assigned,Function.update_eq_self]
    exact tracks.forConnection connection
  | some advisories =>
    have put := tracks.put {view s connection with advisories} (view_connection s connection) ifname
      (tracks.rank connection) (stores.assign assigned) fun i other => ⟨rfl,Function.update_of_ne other _ _⟩
    rwa [Function.update_eq_self connection a.rank] at put

/-! ## A connection that goes -/

private theorem find?_eraseP_self {sessions : List ControlSession} (distinct : (sessions.map ControlSession.connection).Nodup)
    (connection : Nat) : (sessions.eraseP (·.connection = connection)).find? (·.connection = connection) = none := by
  induction sessions with
  | nil => rfl
  | cons session sessions ih =>
    rw [List.map_cons,List.nodup_cons] at distinct
    rcases eq_or_ne session.connection connection with rfl | apart
    · rw [List.eraseP_cons_of_pos (by simp),List.find?_eq_none]
      intro other member same
      exact distinct.1 (List.mem_map.mpr ⟨other,member,by simpa using same⟩)
    · rw [List.eraseP_cons_of_neg (by simpa using apart),List.find?_cons_of_neg (by simpa using apart)]
      exact ih distinct.2

private theorem find?_eraseP_other (sessions : List ControlSession) {c connection : Nat} (apart : c ≠ connection) :
    (sessions.eraseP (·.connection = connection)).find? (·.connection = c) = sessions.find? (·.connection = c) := by
  induction sessions with
  | nil => rfl
  | cons session sessions ih =>
    rcases eq_or_ne session.connection connection with rfl | other
    · rw [List.eraseP_cons_of_pos (by simp),List.find?_cons_of_neg (by simpa using apart.symm)]
    · rw [List.eraseP_cons_of_neg (by simpa using other)]
      simp only [List.find?_cons,ih]

theorem Server.Tracks.disconnect (tracks : s.Tracks a copied) (e : Enumeration) (connection : Nat) :
    (handleDisconnect e connection s).Tracks (a.step (.disconnect e connection)) copied := by
  have ranks := tracks.rank connection
  have advisories := tracks.advisory connection
  unfold handleDisconnect
  cases found : controlSessionLookup connection s with
  | none =>
    have nothing : view s connection = ⟨connection,none,none⟩ := by rw [view,found]; rfl
    rw [nothing] at ranks advisories
    have sameRank : (fun c i => if c = connection then rankDefault else a.rank c i) = a.rank := by
      funext c i
      split_ifs with own
      · rw [own,ranks.row_none i]
      · rfl
    have sameAdvisory : (fun c i => if c = connection then advisoryNone else a.advisory c i) = a.advisory := by
      funext c i
      split_ifs with own
      · rw [own,advisories.row_none i]
      · rfl
    rw [Asserted.step,sameRank,sameAdvisory]
    exact tracks
  | some session =>
    have own : view s connection = session := by rw [view,found]; rfl
    rw [own] at ranks advisories
    have left : Server.Listed {s with sessions := s.sessions.eraseP (·.connection = session.connection)} :=
      ⟨tracks.listed.range,tracks.listed.once⟩
    obtain ⟨listed,added⟩ := left.addAll (e.entries session.advisories)
    obtain ⟨listed',added'⟩ := listed.addAll (e.entries session.assertions)
    have changed (i : CFString) : i ∈ (controlSessionInvalidate e session s).changed ↔
        (i ∈ s.changed ∨ ∃ number, entry session.advisories i = some number) ∨
          ∃ number, entry session.assertions i = some number := by
      simp only [← mem_entries e]
      exact (added' i).trans (or_congr_left (added i))
    have sessions : (controlSessionInvalidate e session s).sessions = s.sessions.eraseP (·.connection = connection) := by
      rw [← lookup_connection found]
      exact (sessions_addInterfaces _ _).trans (sessions_addInterfaces _ _)
    have gone : view (controlSessionInvalidate e session s) connection = ⟨connection,none,none⟩ := by
      rw [view,controlSessionLookup,sessions,find?_eraseP_self tracks.distinct]
      rfl
    have others (c : Nat) (apart : c ≠ connection) : view (controlSessionInvalidate e session s) c = view s c := by
      rw [view,controlSessionLookup,sessions,find?_eraseP_other _ apart]
      rfl
    refine ⟨?_,fun c => ?_,fun c => ?_,listed',fun i absent c => ?_⟩
    · rw [Server.Distinct,sessions]
      exact tracks.distinct.sublist (List.eraseP_sublist.map _)
    · rcases eq_or_ne c connection with rfl | apart
      · rw [gone]
        simpa [Asserted.step] using stores_none rankDefault
      · rw [others c apart]
        simpa [Asserted.step,apart] using tracks.rank c
    · rcases eq_or_ne c connection with rfl | apart
      · rw [gone]
        simpa [Asserted.step] using stores_none advisoryNone
      · rw [others c apart]
        simpa [Asserted.step,apart] using tracks.advisory c
    · rw [changed i,not_or,not_or] at absent
      obtain ⟨⟨unlisted,unadvised⟩,unranked⟩ := absent
      obtain ⟨same,same'⟩ := tracks.missing i unlisted c
      rcases eq_or_ne c connection with rfl | apart
      · have rank : a.rank c i = rankDefault := by
          by_contra other
          exact unranked ⟨_,(ranks i).trans (if_neg other)⟩
        have advisory : a.advisory c i = advisoryNone := by
          by_contra other
          exact unadvised ⟨_,(advisories i).trans (if_neg other)⟩
        rw [rank] at same
        rw [advisory] at same'
        simpa [Asserted.step] using ⟨same,same'⟩
      · simpa [Asserted.step,apart] using ⟨same,same'⟩

/-! ## A whole run -/

theorem Server.Tracks.copy (tracks : s.Tracks a copied) : (interfaceChangedListCopy s).2.Tracks a a where
  distinct := tracks.distinct
  rank := tracks.rank
  advisory := tracks.advisory
  listed := ⟨fun changes => absurd rfl changes,List.nodup_nil⟩
  missing _ _ _ := ⟨rfl,rfl⟩

/-- The ranks of the sessions are those that have been asserted. -/
theorem Server.Tracks.ranks (tracks : s.Tracks a copied) (ifname : CFString) :
    {r | ∃ session ∈ s.sessions, r ∈ session.ranks ifname} = a.ranks ifname := by
  have rank (c : Nat) := tracks.rank c ifname
  have advisory (c : Nat) := tracks.advisory c ifname
  ext r
  constructor
  · rintro ⟨session,member,asserted⟩
    have own : view s session.connection = session := by rw [view,tracks.distinct.lookup member]; rfl
    have rank := rank session.connection
    have advisory := advisory session.connection
    rw [own] at rank advisory
    rcases asserted with asserted | ⟨last,_,advised⟩
    · rw [rank] at asserted
      split_ifs at asserted with other
      exact .inl ⟨session.connection,other,(Option.some.inj asserted).symm⟩
    · rw [advisory] at advised
      split_ifs at advised with other
      exact .inr ⟨session.connection,other,last⟩
  · have used {c : Nat} (some_ : (view s c).assertions ≠ none ∨ (view s c).advisories ≠ none) : view s c ∈ s.sessions := by
      unfold view at some_ ⊢
      cases found : controlSessionLookup c s with
      | none => simp [found] at some_
      | some session => exact List.mem_of_find?_eq_some found
    rintro (⟨c,other,rfl⟩ | ⟨c,other,rfl⟩)
    · have asserted := (rank c).trans (if_neg other)
      exact ⟨view s c,used (.inl fun none_ => by rw [none_] at asserted; cases asserted),.inl asserted⟩
    · have advised := (advisory c).trans (if_neg other)
      exact ⟨view s c,used (.inr fun none_ => by rw [none_] at advised; cases advised),.inr ⟨rfl,_,advised⟩⟩

theorem Server.Tracks.tops (tracks : s.Tracks a copied) (e : Enumeration) {sessions : List ControlSession}
    (order : sessions.Perm s.sessions) : Tops (interfaceRankAssertionsCopy e sessions) a.ranks := by
  refine (tops_copy e sessions).congr fun ifname => ?_
  rw [← tracks.ranks ifname]
  ext r
  simp only [order.mem_iff]

end

/-- What the changed interfaces of a copy are for. -/
def Covers (previous next : Handout) : Prop :=
  (next.changed.getD []).Nodup ∧
    ∀ ifname, entry next.info ifname ≠ entry previous.info ifname → ifname ∈ next.changed.getD []

private theorem entry_of_tops {info info' : Option CFDictionary} {ranks ranks' : CFString → Set Int} (tops : Tops info ranks)
    (tops' : Tops info' ranks') {ifname : CFString} (same : ranks ifname = ranks' ifname) :
    entry info ifname = entry info' ifname := by
  have greatest := tops ifname
  have greatest' := tops' ifname
  rw [same] at greatest
  cases first : entry info ifname with
  | none =>
    rw [first] at greatest
    cases second : entry info' ifname with
    | none => rfl
    | some rank =>
      rw [second] at greatest'
      exact absurd greatest'.1 (by simp [greatest])
  | some rank =>
    rw [first] at greatest
    cases second : entry info' ifname with
    | none =>
      rw [second] at greatest'
      exact absurd greatest.1 (by simp [greatest'])
    | some rank' =>
      rw [second] at greatest'
      rw [greatest.unique greatest']

private theorem run_tracks {s : Server} {a copied : Asserted} (tracks : s.Tracks a copied) (previous : Handout)
    (tops : Tops previous.info copied.ranks) (steps : List Step) :
    (∃ copied', (s.run steps).2.Tracks (a.run steps) copied') ∧ (previous::(s.run steps).1).IsChain Covers := by
  induction steps generalizing s a copied previous with
  | nil => exact ⟨⟨copied,tracks⟩,List.isChain_singleton previous⟩
  | cons step steps ih =>
    cases step with
    | setInterfaceRank connection ifname rank => exact ih (tracks.setInterfaceRank connection ifname rank) previous tops
    | setInterfaceAdvisory connection ifname advisory =>
      exact ih (tracks.setInterfaceAdvisory connection ifname advisory) previous tops
    | disconnect e connection => exact ih (tracks.disconnect e connection) previous tops
    | copyInterfaceRankInformation e =>
      have merged := tracks.tops e (List.Perm.refl _)
      obtain ⟨later,chain⟩ := ih tracks.copy ⟨interfaceRankAssertionsCopy e s.sessions,s.ifChanges⟩ merged
      refine ⟨later,List.isChain_cons_cons.mpr ⟨⟨tracks.listed.once,fun ifname differs => ?_⟩,chain⟩⟩
      by_contra absent
      apply differs
      refine entry_of_tops merged tops ?_
      ext r
      simp only [Asserted.ranks,Set.mem_ofPred_eq,tracks.missing ifname absent]

/-- In every state the merged ranks are the greatest asserted, whatever the order of the sessions and
dictionaries, and each copy comes with all interfaces whose ranks differ from those of the copy before. -/
theorem ranks_merged_and_covered (steps : List Step) :
    (∀ e sessions, sessions.Perm (Server.start.run steps).2.sessions →
      Tops (interfaceRankAssertionsCopy e sessions) (Asserted.nothing.run steps).ranks) ∧
    (⟨none,none⟩::(Server.start.run steps).1).IsChain Covers := by
  have empty : Tops none Asserted.nothing.ranks := by
    intro ifname
    ext r
    simp [Asserted.ranks,Asserted.nothing]
  obtain ⟨⟨copied,tracks⟩,chain⟩ := run_tracks tracks_start ⟨none,none⟩ empty steps
  exact ⟨fun e sessions order => tracks.tops e order,chain⟩

private theorem exists_enumeration : Nonempty Enumeration := by
  refine ⟨⟨fun d => d.entries.toList.map fun x => (x.1,x.2),fun d key value => ?_⟩⟩
  rw [← Option.mem_def,Finmap.mem_lookup_iff]
  simp only [List.mem_map,Multiset.mem_toList,Prod.mk.injEq]
  constructor
  · rintro ⟨⟨_,_⟩,member,rfl,rfl⟩
    exact member
  · intro member
    exact ⟨_,member,rfl,rfl⟩

/-- One session asserts the first rank for an interface, and another gives an advisory for it. -/
def rankAndAdvisory : List Step := [.setInterfaceRank 1 "en0".toList 1,.setInterfaceAdvisory 2 "en0".toList 1]

theorem rankAndAdvisory_merged :
    ∃ e, Tops (interfaceRankAssertionsCopy e (Server.start.run rankAndAdvisory).2.sessions.reverse)
      (Asserted.nothing.run rankAndAdvisory).ranks ∧
      numberCreate rankLast ∈ (Asserted.nothing.run rankAndAdvisory).ranks "en0".toList := by
  obtain ⟨e⟩ := exists_enumeration
  exact ⟨e,(ranks_merged_and_covered rankAndAdvisory).1 e _ (List.reverse_perm _),.inr ⟨2,by decide,rfl⟩⟩

end FreebsdLaunchd.IpMonitorControl
