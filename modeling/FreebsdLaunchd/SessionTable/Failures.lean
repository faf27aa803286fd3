import FreebsdLaunchd.SessionTable.Table
import FreebsdLaunchd.DynamicStore.Sessions

/-! The session table when ports cannot be allocated. Behind the server's slot
the array holds the view of the table, a list of slots that are empty or taken,
then slots that were in use before and then memory no one has written. A call
that fails after `lastSession` has moved on leaves the view one slot longer, and
the slot it gained is `NULL` only if it was in use before. -/
namespace FreebsdLaunchd.SessionTable
open DynamicStore (fillSlot filterMap_fillSlot filterMap_rdropWhile)

def slotOf : Option Session → Slot
  | none => .null
  | some s => .session s

structure Represents (t : Table) (main : Session) (view : List (Option Session)) (spare unwritten : Nat) : Prop where
  sessions : t.sessions = .session main :: (view.map slotOf ++
    (List.replicate spare .null ++ List.replicate unwritten .uninitialized))
  last : t.lastSession = view.length
  size : t.nSessions = t.sessions.length

def present (view : List (Option Session)) : List Session := view.filterMap id

variable {t t' : Table} {main : Session} {view : List (Option Session)} {spare unwritten : Nat} {server : Int}

theorem Represents.used (represents : Represents t main view spare unwritten) : t.used = view.map slotOf := by
  rw [Table.used,represents.sessions,represents.last]
  simp

private theorem session?_slotOf (slot : Option Session) : (slotOf slot).session? = slot := by
  cases slot <;> rfl

theorem Represents.live (represents : Represents t main view spare unwritten) : t.live = present view := by
  rw [Table.live,represents.used,List.filterMap_map,present]
  congr 1
  funext slot
  exact session?_slotOf slot

/-! ## The scans -/

private theorem findSession_view (server : Int) (view : List (Option Session)) :
    findSession server (view.map slotOf) = some ((present view).find? (·.serves server)) := by
  induction view with
  | nil => rfl
  | cons slot rest ih =>
    cases slot with
    | none => simpa [findSession,slotOf,present] using ih
    | some s =>
      by_cases here : s.serves server
      · simp [findSession,slotOf,present,here]
      · simpa [findSession,slotOf,present,here] using ih

private theorem scanSlots_known {i : Nat} {n : Option Nat} (known : ∃ s ∈ present view, s.serves server = true) :
    scanSlots server i n (view.map slotOf) = some .known := by
  induction view generalizing i n with
  | nil => simp [present] at known
  | cons slot rest ih =>
    cases slot with
    | none => exact ih (by simpa [present] using known)
    | some s =>
      by_cases here : s.serves server
      · simp [scanSlots,slotOf,here]
      · have later : ∃ s ∈ present rest, s.serves server = true := by simpa [present,here] using known
        simpa [scanSlots,slotOf,here] using ih later

def firstEmpty (view : List (Option Session)) : Option Nat := view.findIdx? Option.isNone

private theorem scanSlots_unknown {i : Nat} {n : Option Nat} (unknown : ∀ s ∈ present view, s.serves server = false) :
    scanSlots server i n (view.map slotOf) = some (.scanned (n <|> (firstEmpty view).map (· + i))) := by
  induction view generalizing i n with
  | nil => simp [scanSlots,firstEmpty]
  | cons slot rest ih =>
    have others : ∀ s ∈ present rest, s.serves server = false := by
      intro s member
      exact unknown s (by cases slot <;> simp_all [present])
    cases slot with
    | none =>
      simp only [List.map_cons,slotOf,scanSlots]
      rw [ih others]
      cases n <;> simp [firstEmpty,List.findIdx?_cons]
    | some s =>
      have other := unknown s (by simp [present])
      simp only [List.map_cons,slotOf,scanSlots,other]
      rw [if_neg (by simp),ih others]
      have shift (j : Nat) : j + (i + 1) = j + 1 + i := by omega
      simp [firstEmpty,List.findIdx?_cons,Function.comp_def,shift]

def keyAt (server : Int) (view : List (Option Session)) : Option Nat :=
  view.findIdx? fun slot => slot.any (·.key = server)

private theorem findKey_view (server : Int) (i : Nat) (view : List (Option Session)) :
    findKey server i (view.map slotOf) = some ((keyAt server view).map (· + i)) := by
  induction view generalizing i with
  | nil => rfl
  | cons slot rest ih =>
    have shift (j : Nat) : j + (i + 1) = j + 1 + i := by omega
    cases slot with
    | none =>
      simp only [List.map_cons,slotOf,findKey]
      rw [ih]
      simp [keyAt,List.findIdx?_cons,Function.comp_def,shift]
    | some s =>
      simp only [List.map_cons,slotOf,findKey]
      by_cases here : s.key = server
      · simp [keyAt,List.findIdx?_cons,here]
      · rw [if_neg here,ih]
        simp [keyAt,List.findIdx?_cons,Function.comp_def,shift,here]

/-! ## What the operations make of the view -/

private theorem set_fillSlot {i : Nat} (first : firstEmpty view = some i) (s : Session) (rest : List Slot) :
    (view.map slotOf ++ rest).set i (.session s) = (fillSlot s view).map slotOf ++ rest := by
  induction view generalizing i with
  | nil => simp [firstEmpty] at first
  | cons slot view ih =>
    cases slot with
    | none =>
      obtain rfl : i = 0 := by simpa [firstEmpty,List.findIdx?_cons,eq_comm] using first
      rfl
    | some other =>
      obtain ⟨j,found,rfl⟩ : ∃ j, firstEmpty view = some j ∧ j + 1 = i := by
        simpa [firstEmpty,List.findIdx?_cons] using first
      simpa [fillSlot] using ih found

private theorem length_fillSlot {i : Nat} (first : firstEmpty view = some i) (s : Session) :
    (fillSlot s view).length = view.length := by
  have lengths := congrArg List.length (set_fillSlot first s [])
  simpa using lengths.symm

theorem Represents.fill (represents : Represents t main view spare unwritten) {i : Nat}
    (first : firstEmpty view = some i) (s : Session) :
    Represents { t with sessions := t.sessions.set (i+1) (.session s) } main (fillSlot s view) spare unwritten where
  sessions := by
    rw [represents.sessions,List.set_cons_succ,set_fillSlot first]
  last := by
    rw [length_fillSlot first]
    exact represents.last
  size := by simpa using represents.size

/-- What slot the table gains when `lastSession` moves on. -/
def gained (spare : Nat) : Slot := if spare = 0 then .uninitialized else .null

structure Extended (t : Table) (main : Session) (view : List (Option Session)) (slot : Slot)
    (spare unwritten : Nat) : Prop where
  sessions : t.sessions = .session main :: (view.map slotOf ++ slot ::
    (List.replicate spare .null ++ List.replicate unwritten .uninitialized))
  last : t.lastSession = view.length + 1
  size : t.nSessions = t.sessions.length

theorem Represents.newSlot (represents : Represents t main view spare unwritten) : ∃ spare' unwritten',
    (newSlot t).1 = view.length + 1 ∧ Extended (newSlot t).2 main view (gained spare) spare' unwritten' := by
  have size := represents.size
  rw [represents.sessions] at size
  simp only [List.length_cons,List.length_append,List.length_map,List.length_replicate] at size
  have last := represents.last
  unfold SessionTable.newSlot
  simp only [last]
  split
  · -- the array is full, and the new half of it has not been written
    next full =>
    have none_spare : spare = 0 ∧ unwritten = 0 := by omega
    obtain ⟨rfl,rfl⟩ := none_spare
    refine ⟨0,t.nSessions.toNat - 1,by simp,?_,rfl,?_⟩
    · have more : t.nSessions.toNat = (t.nSessions.toNat - 1) + 1 := by omega
      simp only [represents.sessions,gained,if_true]
      rw [more,List.replicate_succ]
      simp
    · simp [represents.sessions]
      omega
  · next room =>
    refine ⟨spare - 1,if spare = 0 then unwritten - 1 else unwritten,by simp,?_,rfl,represents.size⟩
    rw [represents.sessions]
    cases spare with
    | succ spare => simp [gained,List.replicate_succ]
    | zero =>
      obtain ⟨more,rfl⟩ : ∃ more, unwritten = more + 1 := ⟨unwritten - 1,by omega⟩
      simp [gained,List.replicate_succ]

theorem Extended.fill {slot : Slot} (extended : Extended t main view slot spare unwritten) (s : Session) :
    Represents { t with sessions := t.sessions.set (view.length + 1) (.session s) } main (view ++ [some s])
      spare unwritten where
  sessions := by
    rw [extended.sessions,List.set_cons_succ,List.set_append_right _ _ (by simp)]
    simp [slotOf]
  last := by simpa using extended.last
  size := by simpa using extended.size

theorem Extended.leave (extended : Extended t main view .null spare unwritten) :
    Represents t main (view ++ [none]) spare unwritten where
  sessions := by simpa [slotOf] using extended.sessions
  last := by simpa using extended.last
  size := extended.size

theorem Extended.slot {slot : Slot} (extended : Extended t main view slot spare unwritten) :
    t.used = view.map slotOf ++ [slot] := by
  have last : t.lastSession.toNat = (view.map slotOf).length + 1 := by
    rw [extended.last,List.length_map]
    omega
  rw [Table.used,extended.sessions,last]
  simp [List.take_append]

/-- A session leaves its slot, and with the last one the empty slots before it go. -/
def clearView (i : Nat) (view : List (Option Session)) : List (Option Session) :=
  if i + 1 = view.length then (view.set i none).rdropWhile Option.isNone else view.set i none

private theorem lastUsed_view (main : Slot) (view : List (Option Session)) (rest : List Slot) :
    lastUsed (main :: (view.map slotOf ++ rest)) (view.length + 1) = (view.rdropWhile Option.isNone).length := by
  induction view using List.reverseRecOn generalizing rest with
  | nil => rfl
  | append_singleton view slot ih =>
    have here : (main :: ((view ++ [slot]).map slotOf ++ rest))[view.length + 1]? = some (slotOf slot) := by simp
    rw [List.length_append,List.length_singleton,lastUsed,here]
    cases slot with
    | none =>
      rw [if_pos (by simp [slotOf]),List.rdropWhile_concat_pos _ _ _ rfl,← ih (.null :: rest)]
      simp [slotOf]
    | some s =>
      rw [if_neg (by simp [slotOf]),List.rdropWhile_concat_neg _ _ _ (by simp)]
      simp

private theorem rdropWhile_isNone (view : List (Option Session)) :
    ∃ dropped, view = view.rdropWhile Option.isNone ++ List.replicate dropped none := by
  induction view using List.reverseRecOn with
  | nil => exact ⟨0,rfl⟩
  | append_singleton view slot ih =>
    cases slot with
    | none =>
      obtain ⟨dropped,split⟩ := ih
      refine ⟨dropped + 1,?_⟩
      rw [List.rdropWhile_concat_pos _ _ _ rfl,List.replicate_succ',← List.append_assoc,← split]
    | some s => exact ⟨0,by rw [List.rdropWhile_concat_neg _ _ _ (by simp)]; simp⟩

theorem Represents.clear (represents : Represents t main view spare unwritten) {i : Nat} (inside : i < view.length) :
    ∃ spare', Represents { t with
      sessions := t.sessions.set (i+1) .null
      lastSession := if ((i+1 : Nat) : Int) = t.lastSession then lastUsed (t.sessions.set (i+1) .null) (i+1)
        else t.lastSession } main (clearView i view) spare' unwritten := by
  have written : t.sessions.set (i+1) .null = .session main :: ((view.set i none).map slotOf ++
      (List.replicate spare .null ++ List.replicate unwritten .uninitialized)) := by
    rw [represents.sessions,List.set_cons_succ,List.set_append_left _ _ (by simpa using inside),List.map_set]
    rfl
  have size : t.nSessions = (t.sessions.set (i+1) .null).length := by simpa using represents.size
  rw [clearView,represents.last]
  by_cases final : i + 1 = view.length
  · obtain ⟨before,slot,rfl⟩ : ∃ before slot, view = before ++ [slot] :=
      ⟨_,_,(List.dropLast_concat_getLast (List.ne_nil_of_length_pos (by omega))).symm⟩
    obtain rfl : i = before.length := by simpa using final
    obtain ⟨dropped,split⟩ := rdropWhile_isNone before
    have cleared : (before ++ [slot]).set before.length none = before ++ [none] := by simp
    rw [cleared] at written ⊢
    rw [if_pos final,if_pos (by simp),List.rdropWhile_concat_pos _ _ _ rfl]
    refine ⟨dropped + 1 + spare,?_,?_,size⟩
    · simp only [written]
      conv => lhs; rw [split]
      simp [slotOf,List.replicate_add]
    · have trimmed := lastUsed_view (.session main) before
        (.null :: (List.replicate spare .null ++ List.replicate unwritten .uninitialized))
      simp only [written]
      rw [← trimmed]
      simp [slotOf]
  · rw [if_neg final,if_neg (by omega)]
    exact ⟨spare,written,by simp,size⟩

/-! ## Names -/

structure Named (view : List (Option Session)) : Prop where
  keys : ((present view).map Session.key).Nodup
  nonzero : ∀ s ∈ present view, s.key ≠ 0
  tasks : ∀ s ∈ present view, ∀ x ∈ present view, x.notifySignalTask ≠ some s.key

theorem Named.of_perm {view' : List (Option Session)} (named : Named view) (perm : (present view').Perm (present view)) :
    Named view' where
  keys := (perm.map _).nodup_iff.mpr named.keys
  nonzero s member := named.nonzero s (perm.mem_iff.mp member)
  tasks s member x other := named.tasks s (perm.mem_iff.mp member) x (perm.mem_iff.mp other)

theorem Named.of_sublist {view' : List (Option Session)} (named : Named view)
    (sub : (present view').Sublist (present view)) : Named view' where
  keys := named.keys.sublist (sub.map _)
  nonzero s member := named.nonzero s (sub.subset member)
  tasks s member x other := named.tasks s (sub.subset member) x (sub.subset other)

/-- A name that no session uses, neither for its port nor for a task. -/
def Unused (mp : Int) (sessions : List Session) : Prop :=
  mp ≠ 0 ∧ ∀ s ∈ sessions, s.key ≠ mp ∧ s.notifySignalTask ≠ some mp

theorem Named.concat (named : Named view) {mp : Int} (unused : Unused mp (present view)) :
    Named (view ++ [some { key := mp }]) := by
  have list : present (view ++ [some { key := mp }]) = present view ++ [{ key := mp }] := by simp [present]
  refine ⟨?_,?_,?_⟩
  · have new : mp ∉ (present view).map Session.key := by
      rw [List.mem_map]
      rintro ⟨s,member,same⟩
      exact (unused.2 s member).1 same
    simpa [list] using named.keys.concat new
  · rw [list]
    intro s member
    rcases List.mem_append.mp member with old | new
    · exact named.nonzero s old
    · obtain rfl := List.mem_singleton.mp new
      exact unused.1
  · rw [list]
    intro s member x other
    rcases List.mem_append.mp other with known | new
    · rcases List.mem_append.mp member with old | fresh
      · exact named.tasks s old x known
      · obtain rfl := List.mem_singleton.mp fresh
        exact (unused.2 x known).2
    · obtain rfl := List.mem_singleton.mp new
      simp

theorem Named.fill (named : Named view) {mp : Int} (unused : Unused mp (present view)) :
    Named (fillSlot { key := mp } view) := by
  apply (named.concat unused).of_perm
  have last : present (view ++ [some { key := mp }]) = present view ++ [{ key := mp }] := by simp [present]
  rw [last]
  exact (filterMap_fillSlot _ view).trans (List.perm_append_singleton _ _).symm

private theorem present_set_none (i : Nat) (view : List (Option Session)) :
    (present (view.set i none)).Sublist (present view) := by
  induction view generalizing i with
  | nil => exact .refl _
  | cons slot rest ih =>
    cases i with
    | zero => cases slot <;> simp [present]
    | succ i => cases slot <;> simpa [present] using ih i

private theorem present_clearView (i : Nat) (view : List (Option Session)) :
    (present (clearView i view)).Sublist (present view) := by
  unfold clearView
  split
  · have kept : present ((view.set i none).rdropWhile Option.isNone) = present (view.set i none) :=
      filterMap_rdropWhile _
    rw [kept]
    exact present_set_none i view
  · exact present_set_none i view

private theorem record_key (server task : Int) (s : Session) : (s.record server task).key = s.key := by
  unfold Session.record
  split <;> rfl

theorem Named.record (named : Named view) {task : Int} (unnamed : ∀ s ∈ present view, s.key ≠ task) (server : Int) :
    Named (view.map (Option.map (Session.record server task))) := by
  have list : present (view.map (Option.map (Session.record server task))) =
      (present view).map (Session.record server task) := by
    simp [present,List.filterMap_map,List.map_filterMap]
  refine ⟨?_,?_,?_⟩
  · rw [list,List.map_map]
    have keys : Session.key ∘ Session.record server task = Session.key := funext (record_key server task)
    rw [keys]
    exact named.keys
  · rw [list]
    intro s member
    obtain ⟨x,inside,rfl⟩ := List.mem_map.mp member
    rw [record_key]
    exact named.nonzero x inside
  · rw [list]
    intro s member x other
    obtain ⟨s,inside,rfl⟩ := List.mem_map.mp member
    obtain ⟨x,known,rfl⟩ := List.mem_map.mp other
    rw [record_key,Session.record]
    split
    · exact fun same => unnamed s inside (Option.some.inj same).symm
    · exact named.tasks s inside x known

theorem Represents.record (represents : Represents t main view spare unwritten) (server task : Int) :
    Represents (setTask server task t) main (view.map (Option.map (Session.record server task))) spare unwritten where
  sessions := by
    have slots (slot : Option Session) :
        (slotOf slot).record server task = slotOf (slot.map (Session.record server task)) := by
      cases slot <;> rfl
    have null : Slot.null.record server task = .null := rfl
    have uninitialized : Slot.uninitialized.record server task = .uninitialized := rfl
    simp [setTask,represents.sessions,slots,null,uninitialized]
  last := by simpa [setTask] using represents.last
  size := by simpa [setTask,represents.sessions] using represents.size

/-! ## A consistent table -/

structure Consistent (t : Table) : Prop where
  slots : ∀ i : Nat, 1 ≤ i → i ≤ t.lastSession → t.sessions[i]? = some .null ∨
    ∃ s ∈ t.live, t.sessions[i]? = some (.session s)
  bounded : t.lastSession < t.nSessions
  keys : (t.live.map Session.key).Nodup
  found : ∀ s ∈ t.live, getSession s.key t = some (some s)
  live : ∀ server s, getSession server t = some (some s) → s ∈ t.live ∧ s.serves server = true

/-- A table that was set up and holds a view whose names differ, or the empty one. -/
def Settled (t : Table) : Prop :=
  t = {} ∨ ∃ main view spare unwritten, Represents t main view spare unwritten ∧ Named view

private theorem find_by_key (named : Named view) {s : Session} (member : s ∈ present view) :
    (present view).find? (·.serves s.key) = some s := by
  rw [List.find?_eq_some_iff_append]
  obtain ⟨before,after,split⟩ := List.append_of_mem member
  refine ⟨by simp [Session.serves],before,after,split,?_⟩
  intro x earlier
  have inside : x ∈ present view := by simp [split,earlier]
  have keys := named.keys
  rw [split,List.map_append,List.nodup_append] at keys
  have apart := keys.2.2 x.key (List.mem_map_of_mem earlier) s.key (by simp)
  have task := named.tasks s member x inside
  simp [Session.serves,apart,task]

theorem Settled.consistent (settled : Settled t) : Consistent t := by
  rcases settled with rfl | ⟨main,view,spare,unwritten,represents,named⟩
  · refine ⟨?_,by decide,by decide,by simp [Table.live,Table.used],?_⟩
    · intro i first last
      have : (i : Int) ≤ -1 := last
      omega
    · intro server s found
      simp [getSession,Table.used,findSession] at found
  · have live := represents.live
    have last := represents.last
    refine ⟨?_,?_,live ▸ named.keys,?_,?_⟩
    · intro i first bound
      obtain ⟨j,rfl⟩ : ∃ j, i = j + 1 := ⟨i - 1,by omega⟩
      have inside : j < view.length := by omega
      have here : t.sessions[j+1]? = some (slotOf view[j]) := by
        rw [represents.sessions,List.getElem?_cons_succ,List.getElem?_append_left (by simpa using inside)]
        simp [inside]
      rw [here,live]
      cases slot : view[j] with
      | none => exact .inl rfl
      | some s => exact .inr ⟨s,List.mem_filterMap.mpr ⟨some s,slot ▸ List.getElem_mem inside,rfl⟩,rfl⟩
    · have size := represents.size
      simp only [represents.sessions,List.length_cons,List.length_append,List.length_map] at size
      omega
    · rw [live]
      intro s member
      rw [getSession,if_neg (named.nonzero s member),represents.used,findSession_view,find_by_key named member]
    · rw [live]
      intro server s found
      unfold getSession at found
      split at found
      · simp at found
      · rw [represents.used,findSession_view] at found
        have hit := Option.some.inj found
        exact ⟨List.mem_of_find?_eq_some hit,by simpa using List.find?_some hit⟩

/-! ## The steps -/

/-- The names the kernel gives are not in use, and tasks are no sessions' ports. -/
def Admissible : Option Table → Event → Prop
  | some t,.addSession _ (.granted mp) => Unused mp t.live
  | some t,.setTask _ task => ∀ s ∈ t.live, s.key ≠ task
  | _,_ => True

/-- A call that gets no port finds its caller known, an empty slot, or behind the
last one a slot that was in use before. -/
def Harmless : Option Table → Event → Prop
  | some t,.addSession server answer =>
    (∃ mp, answer = .granted mp) ∨ t.nSessions = 0 ∨ (∃ s ∈ t.live, s.serves server = true) ∨ .null ∈ t.used ∨
      t.sessions[(t.lastSession + 1).toNat]? = some .null
  | _,_ => True

/-- What `addSession` may leave behind, for a caller it does not know. -/
theorem addSession_unknown (represents : Represents t main view spare unwritten) (answer : PortAnswer)
    (unknown : ∀ s ∈ present view, s.serves server = false) :
    addSession server answer t =
      let (n,t) := match firstEmpty view with
        | some i => (i+1,t)
        | none => newSlot t
      match answer with
      | .failed => some (none,t)
      | .uninserted _ => some (none,t)
      | .granted mp => some (some { key := mp },{ t with sessions := t.sessions.set n (.session { key := mp }) }) := by
  have started : ¬ t.nSessions ≤ 0 := by
    rw [represents.size,represents.sessions,List.length_cons]
    omega
  unfold addSession
  rw [if_neg started,represents.used,scanSlots_unknown unknown]
  cases firstEmpty view <;> rfl

private theorem addSession_known (represents : Represents t main view spare unwritten) (answer : PortAnswer)
    (known : ∃ s ∈ present view, s.serves server = true) : addSession server answer t = some (none,t) := by
  have started : ¬ t.nSessions ≤ 0 := by
    rw [represents.size,represents.sessions,List.length_cons]
    omega
  unfold addSession
  rw [if_neg started,represents.used,scanSlots_known known]

private theorem null_mem_used (represents : Represents t main view spare unwritten) :
    .null ∈ t.used ↔ (firstEmpty view).isSome := by
  rw [represents.used,firstEmpty,List.findIdx?_isSome,List.any_eq_true,List.mem_map]
  apply exists_congr
  intro slot
  cases slot <;> simp [slotOf]

private theorem null_behind (represents : Represents t main view spare unwritten) :
    t.sessions[(t.lastSession + 1).toNat]? = some .null ↔ 0 < spare := by
  have index : (t.lastSession + 1).toNat = view.length + 1 := by
    rw [represents.last]
    omega
  rw [index,represents.sessions,List.getElem?_cons_succ,List.getElem?_append_right (by simp)]
  cases spare with
  | zero => cases unwritten <;> simp [List.replicate_succ]
  | succ spare => simp [List.replicate_succ]

/-- A new session is listed behind or among the others. -/
theorem settled_granted (represents : Represents t main view spare unwritten) (named : Named view) {mp : Int}
    (unused : Unused mp t.live) (unknown : ∀ s ∈ present view, s.serves server = false) :
    ∃ t', addSession server (.granted mp) t = some (some { key := mp },t') ∧ Settled t' := by
  rw [represents.live] at unused
  rw [addSession_unknown represents _ unknown]
  cases first : firstEmpty view with
  | some i =>
    exact ⟨_,rfl,.inr ⟨main,_,spare,unwritten,represents.fill first _,named.fill unused⟩⟩
  | none =>
    obtain ⟨spare',unwritten',index,extended⟩ := represents.newSlot
    have filled := extended.fill { key := mp }
    rw [← index] at filled
    exact ⟨_,rfl,.inr ⟨main,_,spare',unwritten',filled,named.concat unused⟩⟩

/-- A call that fails: the table stays, or it has a slot more at its end. -/
theorem addSession_failed (represents : Represents t main view spare unwritten) {answer : PortAnswer}
    (refused : ∀ mp, answer ≠ .granted mp) (unknown : ∀ s ∈ present view, s.serves server = false) :
    (firstEmpty view).isSome ∧ addSession server answer t = some (none,t) ∨
      firstEmpty view = none ∧ ∃ t' spare' unwritten', addSession server answer t = some (none,t') ∧
        Extended t' main view (gained spare) spare' unwritten' := by
  rw [addSession_unknown represents _ unknown]
  cases first : firstEmpty view with
  | some i =>
    left
    cases answer with
    | granted mp => exact absurd rfl (refused mp)
    | failed => exact ⟨rfl,rfl⟩
    | uninserted mp => exact ⟨rfl,rfl⟩
  | none =>
    right
    obtain ⟨spare',unwritten',_,extended⟩ := represents.newSlot
    refine ⟨rfl,(newSlot t).2,spare',unwritten',?_,extended⟩
    cases answer with
    | granted mp => exact absurd rfl (refused mp)
    | failed => rfl
    | uninserted mp => rfl

/-- Nobody leaves or joins when a call fails. -/
theorem Extended.live {slot : Slot} (extended : Extended t main view slot spare unwritten)
    (vacant : slot.session? = none) : t.live = present view := by
  rw [Table.live,extended.slot,List.filterMap_append,List.filterMap_map,present]
  simp [session?_slotOf,vacant]

private theorem gained_vacant (spare : Nat) : (gained spare).session? = none := by
  unfold gained
  split <;> rfl

private theorem settled_cleanup (represents : Represents t main view spare unwritten) (named : Named view)
    (server : Int) :
    ∃ t', cleanupSession server t = some t' ∧ Settled t' := by
  unfold cleanupSession
  rw [represents.used,findKey_view]
  cases place : keyAt server view with
  | none => exact ⟨t,rfl,.inr ⟨main,view,spare,unwritten,represents,named⟩⟩
  | some i =>
    obtain ⟨inside,_⟩ := List.findIdx?_eq_some_iff_getElem.mp place
    obtain ⟨spare',cleared⟩ := represents.clear inside
    exact ⟨_,rfl,.inr ⟨main,_,spare',unwritten,cleared,named.of_sublist (present_clearView i view)⟩⟩

private theorem settled_first (server : Int) (answer : PortAnswer) :
    ∃ s t', addSession server answer {} = some (some s,t') ∧ Settled t' := by
  refine ⟨{ key := server },_,rfl,.inr ⟨{ key := server },[],0,63,⟨rfl,rfl,rfl⟩,?_⟩⟩
  exact ⟨by simp [present],by simp [present],by simp [present]⟩

/-! ## Runs with failures -/

def Sound (t : Option Table) : Prop := ∃ t', t = some t' ∧ Consistent t'

/-- A call that fails changes nothing about who has a session. -/
def KeepsLive : Option Table → Event → Prop
  | some t,.addSession server answer => ∀ t', addSession server answer t = some (none,t') → t'.live = t.live
  | _,_ => True

private theorem step_settled {e : Event} (settled : Settled t) (admissible : Admissible (some t) e)
    (harmless : Harmless (some t) e) : ∃ t', step (some t) e = some t' ∧ Settled t' := by
  rcases settled with rfl | ⟨main,view,spare,unwritten,represents,named⟩
  · cases e with
    | addSession server answer =>
      obtain ⟨s,t',added,settled⟩ := settled_first server answer
      exact ⟨t',by simp [step,added],settled⟩
    | cleanupSession server => exact ⟨{},rfl,.inl rfl⟩
    | setTask server task => exact ⟨{},rfl,.inl rfl⟩
  · have still : Settled t := .inr ⟨main,view,spare,unwritten,represents,named⟩
    cases e with
    | cleanupSession server => exact settled_cleanup represents named server
    | setTask server task =>
      rw [Admissible,represents.live] at admissible
      exact ⟨_,rfl,.inr ⟨main,_,spare,unwritten,represents.record server task,named.record admissible server⟩⟩
    | addSession server answer =>
      by_cases known : ∃ s ∈ present view, s.serves server = true
      · exact ⟨t,by simp [step,addSession_known represents answer known],still⟩
      · have unknown : ∀ s ∈ present view, s.serves server = false := by simpa using known
        by_cases granted : ∃ mp, answer = .granted mp
        · obtain ⟨mp,rfl⟩ := granted
          obtain ⟨t',added,settled⟩ := settled_granted represents named admissible unknown
          exact ⟨t',by simp [step,added],settled⟩
        · have refused : ∀ mp, answer ≠ .granted mp := fun mp same => granted ⟨mp,same⟩
          rcases addSession_failed represents refused unknown with ⟨_,left⟩ | ⟨full,t',spare',unwritten',left,extended⟩
          · exact ⟨t,by simp [step,left],still⟩
          · -- the slot that the table gains was in use before
            have behind : 0 < spare := by
              simp only [Harmless,represents.live,known,granted,false_or,null_mem_used represents,full,
                null_behind represents] at harmless
              rcases harmless with unset | empty | behind
              · have size := represents.size
                simp only [represents.sessions,List.length_cons] at size
                omega
              · simp at empty
              · exact behind
            have null : gained spare = .null := if_neg (by omega)
            rw [null] at extended
            have named' : Named (view ++ [none]) := named.of_perm (by simp [present])
            exact ⟨t',by simp [step,left],.inr ⟨main,_,spare',unwritten',extended.leave,named'⟩⟩

/-- Else `lastSession` stands on memory that no one has written. -/
theorem step_reflects {e : Event} (settled : Settled t) (sound : Sound (step (some t) e)) : Harmless (some t) e := by
  cases e with
  | cleanupSession server => trivial
  | setTask server task => trivial
  | addSession server answer =>
    rcases settled with rfl | ⟨main,view,spare,unwritten,represents,named⟩
    · exact .inr (.inl rfl)
    · by_contra harmful
      simp only [Harmless,not_or,represents.live,null_mem_used represents,null_behind represents] at harmful
      obtain ⟨granted,_,unknown,full,behind⟩ := harmful
      rcases addSession_failed represents (fun mp same => granted ⟨mp,same⟩) (by simpa using unknown) with
        ⟨empty,_⟩ | ⟨_,t',spare',unwritten',left,extended⟩
      · exact full empty
      · obtain ⟨after,same,consistent⟩ := sound
        simp only [step,left,Option.bind_some,Option.map_some,Option.some.injEq] at same
        subst same
        have garbage : gained spare = .uninitialized := if_pos (by omega)
        have slot : t'.sessions[view.length + 1]? = some .uninitialized := by
          rw [extended.sessions,garbage,List.getElem?_cons_succ,List.getElem?_append_right (by simp)]
          simp
        have bound : ((view.length + 1 : Nat) : Int) ≤ t'.lastSession := by
          rw [extended.last]
          omega
        rcases consistent.slots (view.length + 1) (by omega) bound with null | ⟨s,_,taken⟩
        · simp [slot] at null
        · simp [slot] at taken

private theorem step_keepsLive (settled : Settled t) (e : Event) : KeepsLive (some t) e := by
  cases e with
  | cleanupSession server => trivial
  | setTask server task => trivial
  | addSession server answer =>
    intro t' failed
    rcases settled with rfl | ⟨main,view,spare,unwritten,represents,named⟩
    · obtain ⟨s,after,added,_⟩ := settled_first server answer
      simp [added] at failed
    · by_cases known : ∃ s ∈ present view, s.serves server = true
      · rw [addSession_known represents answer known] at failed
        cases failed
        rfl
      · have unknown : ∀ s ∈ present view, s.serves server = false := by simpa using known
        have refused (mp : Int) : answer ≠ .granted mp := by
          rintro rfl
          rw [addSession_unknown represents _ unknown] at failed
          simp at failed
        rcases addSession_failed represents refused unknown with ⟨_,left⟩ | ⟨_,after,spare',unwritten',left,extended⟩
        · rw [left] at failed
          cases failed
          rfl
        · rw [left] at failed
          cases failed
          rw [extended.live (gained_vacant spare),represents.live]

/-- The table stays consistent along a run, and failing calls change no one's session,
exactly if no call fails where the table has nothing but unwritten memory to move on to. -/
theorem table_consistent_iff (events : List Event) (admissible : Runs.Meets step Admissible (some {}) events) :
    Runs.Along step Sound (some {}) events ∧ Runs.Meets step KeepsLive (some {}) events ↔
      Runs.Meets step Harmless (some {}) events := by
  let settled (t : Option Table) : Prop := ∃ t', t = some t' ∧ Settled t'
  have keeps (t : Option Table) (e : Event) (admissible : Admissible t e) :
      settled t → Harmless t e → settled (step t e) := by
    rintro ⟨t,rfl,here⟩ harmless
    exact step_settled here admissible harmless
  have reflects (t : Option Table) (e : Event) (_ : Admissible t e) :
      settled t → Sound (step t e) → Harmless t e := by
    rintro ⟨t,rfl,here⟩ sound
    exact step_reflects here sound
  have enough (t : Option Table) : settled t → Sound t := by
    rintro ⟨t,rfl,here⟩
    exact ⟨t,rfl,here.consistent⟩
  have initial : settled (some {}) := ⟨{},rfl,.inl rfl⟩
  rw [Runs.along_iff_meets_of_admitted keeps reflects enough initial admissible]
  refine ⟨And.left,fun harmless => ⟨harmless,?_⟩⟩
  have live (t : Option Table) (e : Event) : settled t → Harmless t e → KeepsLive t e := by
    rintro ⟨t,rfl,here⟩ _
    exact step_keepsLive here e
  exact Runs.meets_of_along keeps live initial admissible harmless

/-- A session opens and closes, and then a call fails: slot 1 is `NULL`. -/
def failsBehind : List Event :=
  [.addSession 1 .failed,.addSession 100 (.granted 5),.cleanupSession 5,.addSession 101 .failed]

theorem table_consistent_behind : Runs.Along step Sound (some {}) failsBehind := by
  have admissible : Runs.Meets step Admissible (some {}) failsBehind :=
    ⟨trivial,⟨by decide,by decide⟩,trivial,trivial,trivial⟩
  have harmless : Runs.Meets step Harmless (some {}) failsBehind :=
    ⟨.inr (.inl rfl),.inl ⟨5,rfl⟩,trivial,.inr (.inr (.inr (.inr (by decide)))),trivial⟩
  exact ((table_consistent_iff failsBehind admissible).mpr harmless).1

def failsFirst : List Event := [.addSession 1 .failed,.addSession 100 .failed]

theorem table_garbage : ¬ ∀ events, Runs.Meets step Admissible (some {}) events →
    Runs.Along step Sound (some {}) events ∧ Runs.Meets step KeepsLive (some {}) events := by
  intro always
  obtain ⟨t,same,consistent⟩ := (always failsFirst ⟨trivial,trivial,trivial⟩).1.last
  obtain rfl := Option.some.inj same
  have slot := consistent.slots 1 (by decide) (by decide)
  rcases slot with null | ⟨s,_,taken⟩
  · exact absurd null (by decide)
  · have taken : some Slot.uninitialized = some (.session s) := taken
    cases taken

end FreebsdLaunchd.SessionTable
