import FreebsdLaunchd.Library.Matching
import FreebsdLaunchd.PreferencesRace.Steps

/-! One session has the lock file locked while it is the lock file, and what it
replaces it has seen: a session that holds an inode which is the lock file's is the
only one to unlink it, and nobody creates another until it has. -/
namespace FreebsdLaunchd.PreferencesRace
open PreferencesLock (Signature)
open Matching (Matched)

variable {granted : Prop} {disk : Disk} {prefs : PrefsPrivate} {id : Nat} {w : World}

/-! ## What holds of a session -/

/-- The inode the session has locked is still the lock file's. -/
def holds (prefs : PrefsPrivate) : Bool :=
  match prefs.point with
  | .idle => prefs.locked
  | .checking | .stale | .saving | .replacing | .signing | .removing | .notifying | .unlinking => true
  | _ => false

/-- The version is the one the session read, or the one it last committed. -/
def Seen (prefs : PrefsPrivate) (version : Signature) : Prop :=
  version = prefs.read ∨ prefs.lastCommitted = some version

def Shaped (prefs : PrefsPrivate) : Prop :=
  match prefs.point with
  | .idle => prefs.locked = false → prefs.lockFD = none
  | .opening | .acquiring _ => prefs.locked = false ∧ prefs.lockFD = none
  | .comparing => prefs.locked = false ∧ prefs.lockFD ≠ none
  | .retrying | .checking | .stale | .closing => prefs.locked = false
  | .saving | .replacing | .removing => prefs.locked = true ∧ prefs.changed = true
  | .signing | .notifying | .unlinking | .unlockClosing => prefs.locked = true
  | .clearing => prefs.lockFD = none

/-- The signature is that of a version the session has seen, except before it has
grabbed the new one, as long as what a commit is `granted` does not fail it. -/
structure Fine (granted : Prop) (disk : Disk) (prefs : PrefsPrivate) : Prop where
  shaped : Shaped prefs
  held : holds prefs = true → ∃ inode, prefs.lockFD = some inode ∧ disk.lockFile = some inode
  changed : prefs.changed = true → prefs.accessed = true
  knows : granted → prefs.accessed = true → prefs.point ≠ .signing → Seen prefs prefs.signature
  current : granted → holds prefs = true → prefs.locked = true → prefs.accessed = true → Seen prefs disk.file

/-- A descriptor and the lock on its inode come and go together. -/
inductive Passed (id : Nat) (flock : Nat → Option Nat) (lockFD : Option Nat) :
    (Nat → Option Nat) → Option Nat → Prop where
  | same : Passed id flock lockFD flock lockFD
  | taken (inode : Nat) (single : lockFD = none) (free : flock inode = none) :
    Passed id flock lockFD (Function.update flock inode (some id)) (some inode)
  | closed (inode : Nat) (own : lockFD = some inode) :
    Passed id flock lockFD (Function.update flock inode none) none

/-- What a step of a session keeps: its own state, what the others rely on, and the
two sides of a lock. -/
structure Keeps (granted : Prop) (disk : Disk) (id : Nat) (prefs : PrefsPrivate) (after : Disk × PrefsPrivate) :
    Prop where
  fine : Fine granted after.1 after.2
  others : holds prefs = true ∨
    after.1.file = disk.file ∧ ∀ inode, disk.lockFile = some inode → after.1.lockFile = some inode
  passed : Passed id disk.flock prefs.lockFD after.1.flock after.2.lockFD

theorem Keeps.stays {prefs' : PrefsPrivate} (fine : Fine granted disk prefs') (same : prefs'.lockFD = prefs.lockFD) :
    Keeps granted disk id prefs (disk,prefs') := by
  refine ⟨fine,.inr ⟨rfl,fun _ there => there⟩,?_⟩
  show Passed id disk.flock prefs.lockFD disk.flock prefs'.lockFD
  rw [same]
  exact .same

/-! ## The session that goes on -/

theorem Fine.move (fine : Fine granted disk prefs) (settled : granted → prefs.point ≠ .signing) (p : Point)
    (shaped : Shaped {prefs with point := p}) (holding : holds {prefs with point := p} = true → holds prefs = true) :
    Fine granted disk {prefs with point := p} :=
  ⟨shaped,fun held => fine.held (holding held),fine.changed,
    fun grant accessed _ => fine.knows grant accessed (settled grant),
    fun grant held => fine.current grant (holding held)⟩

theorem Fine.inCommit (fine : Fine granted disk prefs) (wasLocked : Option Bool) :
    Fine granted disk {prefs with wasLocked := wasLocked} :=
  ⟨fine.shaped,fine.held,fine.changed,fine.knows,fine.current⟩

/-- A session that is locked, within `SCPreferencesCommitChanges` or not. -/
theorem Fine.locked (fine : Fine granted disk prefs) (settled : prefs.point ≠ .signing) (holding : holds prefs = true)
    (seen : granted → prefs.accessed = true → Seen prefs disk.file) (p : Point)
    (shaped : Shaped {prefs with locked := true, point := p}) :
    Fine granted disk {prefs with locked := true, point := p} :=
  ⟨shaped,fun _ => fine.held holding,fine.changed,fun grant accessed _ => fine.knows grant accessed settled,
    fun grant _ _ => seen grant⟩

private theorem apply_shaped (prefs : PrefsPrivate) (locked : prefs.locked = true) : Shaped (apply prefs) := by
  unfold apply Shaped
  by_cases changed : prefs.changed = true <;> simp [changed,locked]

theorem Fine.enter (fine : Fine granted disk prefs) (settled : prefs.point ≠ .signing) (holding : holds prefs = true)
    (seen : granted → prefs.accessed = true → Seen prefs disk.file) : Fine granted disk (enter prefs) := by
  unfold PreferencesRace.enter
  split
  · exact fine.locked settled holding seen _ (apply_shaped {prefs with locked := true} rfl)
  · exact (fine.locked settled holding seen .idle (fun unlocked => nomatch unlocked)).inCommit none

theorem Fine.done (fine : Fine granted disk prefs) (settled : granted → prefs.point ≠ .signing)
    (holding : holds prefs = true) (locked : prefs.locked = true) : Fine granted disk (done prefs) := by
  unfold PreferencesRace.done
  split
  · exact fine.move settled .unlinking locked fun _ => holding
  · refine (fine.move settled .idle (fun unlocked => ?_) fun _ => holding).inCommit none
    rw [locked] at unlocked
    cases unlocked

private theorem enter_lockFD (prefs : PrefsPrivate) : (enter prefs).lockFD = prefs.lockFD := by
  unfold enter
  split <;> rfl

private theorem done_lockFD (prefs : PrefsPrivate) : (done prefs).lockFD = prefs.lockFD := by
  unfold done
  split <;> rfl

/-! ## What it does to the lock file -/

theorem Fine.apart (fine : Fine granted disk prefs) (disk' : Disk) (off : holds prefs = false) :
    Fine granted disk' prefs :=
  ⟨fine.shaped,fun held => absurd held (by simp [off]),fine.changed,fine.knows,
    fun _ held => absurd held (by simp [off])⟩

theorem Keeps.leaves (fine : Fine granted disk prefs) (settled : prefs.point ≠ .signing) (p : Point)
    (shaped : Shaped {prefs with point := p}) (off : holds {prefs with point := p} = false) :
    Keeps granted disk id prefs (disk,{prefs with point := p}) :=
  .stays (fine.move (fun _ => settled) p shaped fun held => absurd held (by simp [off])) rfl

theorem Keeps.closes (fine : Fine granted disk prefs) (settled : prefs.point ≠ .signing) (p : Point)
    (shaped : Shaped {prefs with lockFD := none, point := p}) (off : holds {prefs with point := p} = false) :
    Keeps granted disk id prefs (disk.close prefs.lockFD,{prefs with lockFD := none, point := p}) := by
  have off' : holds {prefs with lockFD := none, point := p} = false := off
  have fine' (disk' : Disk) : Fine granted disk' {prefs with lockFD := none, point := p} :=
    ⟨shaped,fun held => absurd held (by simp [off']),fine.changed,
      fun grant accessed _ => fine.knows grant accessed settled,fun _ held => absurd held (by simp [off'])⟩
  cases own : prefs.lockFD with
  | none =>
    refine ⟨fine' disk,.inr ⟨rfl,fun _ there => there⟩,?_⟩
    rw [own]
    exact .same
  | some inode => exact ⟨fine' _,.inr ⟨rfl,fun _ there => there⟩,.closed inode own⟩

theorem Keeps.unlinks (fine : Fine granted disk prefs) (settled : prefs.point ≠ .signing) (outcome : Outcome) (p : Point)
    (holding : holds prefs = true) (shaped : Shaped {prefs with point := p})
    (off : holds {prefs with point := p} = false) :
    Keeps granted disk id prefs (disk.unlinkLock outcome,{prefs with point := p}) := by
  have fine' : Fine granted disk {prefs with point := p} :=
    fine.move (fun _ => settled) p shaped fun held => absurd held (by simp [off])
  refine ⟨fine'.apart _ off,.inl holding,?_⟩
  have same : (disk.unlinkLock outcome).flock = disk.flock := by
    unfold Disk.unlinkLock
    split <;> rfl
  rw [same]
  exact .same

private theorem opening_keeps (fine : Fine granted disk prefs) (here : prefs.point = .opening) (outcome : Outcome) :
    Keeps granted disk id prefs (proceed disk id prefs outcome) := by
  have shaped := fine.shaped
  have settled : prefs.point ≠ .signing := by simp [here]
  simp only [Shaped,here] at shaped
  simp only [proceed,here]
  split
  · exact .leaves fine settled .closing shaped.1 rfl
  · cases there : disk.lockFile with
    | some inode => exact .leaves fine settled (.acquiring inode) shaped rfl
    | none =>
      have fine' := fine.move (fun _ => settled) (.acquiring disk.nextInode) shaped (fun held => nomatch held)
      -- there is no lock file that somebody could have locked
      exact ⟨fine'.apart _ rfl,.inr ⟨rfl,fun _ other => by rw [there] at other; cases other⟩,.same⟩

private theorem acquiring_keeps (fine : Fine granted disk prefs) {inode : Nat} (here : prefs.point = .acquiring inode)
    (outcome : Outcome) : Keeps granted disk id prefs (proceed disk id prefs outcome) := by
  have shaped := fine.shaped
  have settled : prefs.point ≠ .signing := by simp [here]
  simp only [Shaped,here] at shaped
  simp only [proceed,here]
  split
  · exact .leaves fine settled .closing shaped.1 rfl
  · split
    next free =>
      refine ⟨?_,.inr ⟨rfl,fun _ there => there⟩,.taken inode shaped.2 free⟩
      exact ⟨⟨shaped.1,fun none_ => nomatch none_⟩,fun held => (nomatch held),fine.changed,
        fun grant accessed _ => fine.knows grant accessed settled,fun _ held => (nomatch held)⟩
    next busy =>
      split
      · exact .stays fine rfl
      · exact .leaves fine settled .closing shaped.1 rfl

private theorem comparing_keeps (fine : Fine granted disk prefs) (here : prefs.point = .comparing) (outcome : Outcome) :
    Keeps granted disk id prefs (proceed disk id prefs outcome) := by
  have shaped := fine.shaped
  have settled : prefs.point ≠ .signing := by simp [here]
  simp only [Shaped,here] at shaped
  simp only [proceed,here]
  split
  · exact .leaves fine settled .retrying shaped.1 rfl
  · next same =>
    obtain ⟨inode,own⟩ := Option.ne_none_iff_exists'.mp shaped.2
    have there : disk.lockFile = some inode := by
      by_contra other
      exact same (.inr (own ▸ other))
    refine .stays ⟨shaped.1,fun _ => ⟨inode,own,there⟩,fine.changed,
      fun grant accessed _ => fine.knows grant accessed settled,fun _ _ locked => ?_⟩ rfl
    rw [shaped.1] at locked
    cases locked

private theorem checking_keeps (fine : Fine granted disk prefs) (here : prefs.point = .checking) (outcome : Outcome) :
    Keeps granted disk id prefs (proceed disk id prefs outcome) := by
  have shaped := fine.shaped
  have settled : prefs.point ≠ .signing := by simp [here]
  have holding : holds prefs = true := by simp [holds,here]
  simp only [Shaped,here] at shaped
  simp only [proceed,here]
  split
  · exact .stays (fine.move (fun _ => settled) .stale shaped fun _ => holding) rfl
  · next fresh =>
    refine .stays (fine.enter settled holding fun grant accessed => ?_) (enter_lockFD prefs)
    have same : prefs.signature = disk.file := by
      by_contra other
      exact fresh ⟨accessed,.inr other⟩
    exact same ▸ fine.knows grant accessed settled

/-! ## Committing -/

private theorem replacing_keeps (fine : Fine granted disk prefs) (here : prefs.point = .replacing) (outcome : Outcome) :
    Keeps granted disk id prefs (proceed disk id prefs outcome) := by
  have shaped := fine.shaped
  have settled : prefs.point ≠ .signing := by simp [here]
  have holding : holds prefs = true := by simp [holds,here]
  simp only [Shaped,here] at shaped
  simp only [proceed,here]
  split
  · exact .stays (fine.done (fun _ => settled) holding shaped.1) (done_lockFD prefs)
  · exact ⟨⟨shaped.1,fun _ => fine.held holding,fine.changed,fun _ _ moved => absurd rfl moved,fun _ _ _ _ => .inr rfl⟩,
      .inl holding,.same⟩

private theorem signing_keeps (fine : Fine granted disk prefs) (here : prefs.point = .signing) (outcome : Outcome)
    (grants : granted → outcome ≠ .fails) : Keeps granted disk id prefs (proceed disk id prefs outcome) := by
  have shaped := fine.shaped
  have holding : holds prefs = true := by simp [holds,here]
  simp only [Shaped,here] at shaped
  simp only [proceed,here]
  split
  · next fails =>
    exact .stays (fine.done (fun grant => absurd fails (grants grant)) holding shaped) (done_lockFD prefs)
  · exact .stays ⟨shaped,fun _ => fine.held holding,fine.changed,
      fun grant accessed _ => fine.current grant holding shaped accessed,
      fun grant _ => fine.current grant holding⟩ rfl

private theorem removing_keeps (fine : Fine granted disk prefs) (here : prefs.point = .removing) (outcome : Outcome)
    (grants : granted → outcome ≠ .fails) : Keeps granted disk id prefs (proceed disk id prefs outcome) := by
  have shaped := fine.shaped
  have holding : holds prefs = true := by simp [holds,here]
  simp only [Shaped,here] at shaped
  simp only [proceed,here]
  split
  · next fails =>
    exact .stays ⟨shaped.1,fun _ => fine.held holding,fine.changed,fun grant => absurd fails (grants grant),
      fun grant _ => fine.current grant holding⟩ rfl
  · exact ⟨⟨shaped.1,fun _ => fine.held holding,fine.changed,fun _ _ _ => .inr rfl,fun _ _ _ _ => .inr rfl⟩,
      .inl holding,.same⟩

private theorem notifying_keeps (fine : Fine granted disk prefs) (here : prefs.point = .notifying) (outcome : Outcome) :
    Keeps granted disk id prefs (proceed disk id prefs outcome) := by
  have shaped := fine.shaped
  have settled : prefs.point ≠ .signing := by simp [here]
  have holding : holds prefs = true := by simp [holds,here]
  simp only [Shaped,here] at shaped
  simp only [proceed,here]
  split
  · exact .stays (fine.done (fun _ => settled) holding shaped) (done_lockFD prefs)
  · have shaped' : Shaped {prefs with changed := false} := by simpa only [Shaped,here] using shaped
    have fine' : Fine granted disk {prefs with changed := false} :=
      ⟨shaped',fine.held,fun changed => (nomatch changed),fine.knows,fine.current⟩
    exact .stays (fine'.done (fun _ => settled) holding shaped) (done_lockFD _)

private theorem saving_keeps (fine : Fine granted disk prefs) (here : prefs.point = .saving) (outcome : Outcome) :
    Keeps granted disk id prefs (proceed disk id prefs outcome) := by
  have shaped := fine.shaped
  have settled : granted → prefs.point ≠ .signing := fun _ => by simp [here]
  have holding : holds prefs = true := by simp [holds,here]
  simp only [Shaped,here] at shaped
  simp only [proceed,here]
  cases outcome with
  | fails => exact .stays (fine.done settled holding shaped.1) (done_lockFD prefs)
  | removes => exact .stays (fine.move settled .removing shaped fun _ => holding) rfl
  | done => exact .stays (fine.move settled .replacing shaped fun _ => holding) rfl

/-! ## Every step -/

private theorem proceed_keeps (fine : Fine granted disk prefs) (outcome : Outcome)
    (grants : granted → prefs.point = .signing ∨ prefs.point = .removing → outcome ≠ .fails) :
    Keeps granted disk id prefs (proceed disk id prefs outcome) := by
  have shaped := fine.shaped
  cases here : prefs.point with
  | idle =>
    simp only [proceed,here]
    exact .stays fine rfl
  | opening => exact opening_keeps fine here outcome
  | acquiring inode => exact acquiring_keeps fine here outcome
  | comparing => exact comparing_keeps fine here outcome
  | checking => exact checking_keeps fine here outcome
  | saving => exact saving_keeps fine here outcome
  | replacing => exact replacing_keeps fine here outcome
  | signing => exact signing_keeps fine here outcome fun grant => grants grant (.inl here)
  | removing => exact removing_keeps fine here outcome fun grant => grants grant (.inr here)
  | notifying => exact notifying_keeps fine here outcome
  | retrying =>
    simp only [Shaped,here] at shaped
    simp only [proceed,here]
    exact .closes fine (by simp [here]) .opening ⟨shaped,rfl⟩ rfl
  | stale =>
    simp only [Shaped,here] at shaped
    simp only [proceed,here]
    exact .unlinks fine (by simp [here]) outcome .closing (by simp [holds,here]) shaped rfl
  | closing =>
    simp only [Shaped,here] at shaped
    simp only [proceed,here]
    have closes : Keeps granted disk id prefs (disk.close prefs.lockFD,{prefs with lockFD := none, point := .idle}) :=
      .closes fine (by simp [here]) .idle (fun _ => rfl) (by simpa [holds] using shaped)
    obtain ⟨fine',others,passed⟩ := closes
    exact ⟨fine'.inCommit none,others,passed⟩
  | unlinking =>
    simp only [Shaped,here] at shaped
    simp only [proceed,here]
    exact .unlinks fine (by simp [here]) outcome .unlockClosing (by simp [holds,here]) shaped rfl
  | unlockClosing =>
    simp only [proceed,here]
    exact .closes fine (by simp [here]) .clearing rfl rfl
  | clearing =>
    simp only [Shaped,here] at shaped
    simp only [proceed,here]
    refine .stays ⟨fun _ => shaped,fun held => (nomatch held),fine.changed,fun grant accessed _ => ?_,
      fun _ held => (nomatch held)⟩ rfl
    exact fine.knows grant accessed (by simp [here])

private theorem access_accessed (disk : Disk) (prefs : PrefsPrivate) (dictionary : Bool) :
    (scPreferencesAccess disk prefs dictionary).accessed = true := by
  unfold scPreferencesAccess
  split
  · assumption
  · rfl

private theorem access_lockFD (disk : Disk) (prefs : PrefsPrivate) (dictionary : Bool) :
    (scPreferencesAccess disk prefs dictionary).lockFD = prefs.lockFD := by
  unfold scPreferencesAccess
  split <;> rfl

private theorem access_point (disk : Disk) (prefs : PrefsPrivate) (dictionary : Bool) :
    (scPreferencesAccess disk prefs dictionary).point = prefs.point := by
  unfold scPreferencesAccess
  split <;> rfl

private theorem access_fine (fine : Fine granted disk prefs) (here : prefs.point = .idle) (dictionary : Bool) :
    Fine granted disk (scPreferencesAccess disk prefs dictionary) := by
  have shaped := fine.shaped
  simp only [Shaped,here] at shaped
  unfold scPreferencesAccess
  split
  · exact fine
  · refine ⟨?_,fine.held,fun _ => rfl,fun _ _ _ => .inl rfl,fun _ _ _ _ => .inl rfl⟩
    simpa only [Shaped,here] using shaped

private theorem setValue_fine (fine : Fine granted disk prefs) (here : prefs.point = .idle) (dictionary : Bool) :
    Fine granted disk (scPreferencesSetValue disk prefs dictionary) := by
  have here' := (access_point disk prefs dictionary).trans here
  obtain ⟨shaped,held,_,knows,current⟩ := access_fine fine here dictionary
  refine ⟨?_,held,fun _ => access_accessed disk prefs dictionary,knows,current⟩
  simpa only [Shaped,scPreferencesSetValue,here'] using shaped

private theorem lock_fine (fine : Fine granted disk prefs) (here : prefs.point = .idle) (wait : Bool) :
    Fine granted disk (scPreferencesLock prefs wait) := by
  have shaped := fine.shaped
  simp only [Shaped,here] at shaped
  unfold scPreferencesLock
  split
  · exact fine
  · next unlocked =>
    have unlocked' : prefs.locked = false := by simpa using unlocked
    have opening := fine.move (fun _ => by simp [here]) .opening ⟨unlocked',shaped unlocked'⟩ (fun held => nomatch held)
    exact ⟨opening.shaped,opening.held,opening.changed,opening.knows,opening.current⟩

private theorem call_keeps (fine : Fine granted disk prefs) (here : prefs.point = .idle) (action : Action) :
    Keeps granted disk id prefs (disk,call disk prefs action) := by
  have settled : granted → prefs.point ≠ .signing := fun _ => by simp [here]
  cases action with
  | access dictionary => exact .stays (access_fine fine here dictionary) (access_lockFD disk prefs dictionary)
  | setValue dictionary => exact .stays (setValue_fine fine here dictionary) (access_lockFD disk prefs dictionary)
  | lock wait =>
    refine .stays (lock_fine fine here wait) ?_
    simp only [call,scPreferencesLock]
    split <;> rfl
  | unlock =>
    simp only [call,scPreferencesUnlock]
    split
    · next locked => exact .stays (fine.move settled .unlinking locked fun _ => by simpa [holds,here] using locked) rfl
    · exact .stays fine rfl
  | commit =>
    simp only [call,scPreferencesCommitChanges]
    split
    · next locked =>
      have held : holds prefs = true := by simpa [holds,here] using locked
      exact .stays ((fine.inCommit (some true)).move settled _ (apply_shaped {prefs with wasLocked := _} locked)
        fun _ => held) rfl
    · next unlocked =>
      refine .stays (lock_fine (fine.inCommit (some false)) here true) ?_
      simp only [scPreferencesLock]
      split <;> rfl
  | go outcome => exact .stays fine rfl

/-- Reads of a file that is there succeed, and so does removing it: the `stat` of the
file put in place, and the `unlink` of the empty one. -/
def Granted (w : World) (event : Event) : Prop :=
  (w.sessions event.session).point = .signing ∨ (w.sessions event.session).point = .removing →
    event.action ≠ .go .fails

private theorem act_keeps (fine : Fine granted disk prefs) (action : Action)
    (grants : granted → prefs.point = .signing ∨ prefs.point = .removing → action ≠ .go .fails) :
    Keeps granted disk id prefs (act disk id prefs action) := by
  have calls : Keeps granted disk id prefs (disk,if prefs.point = .idle then call disk prefs action else prefs) := by
    split
    · next here => exact call_keeps fine here action
    · exact .stays fine rfl
  cases action with
  | go outcome => exact proceed_keeps fine outcome fun grant here fails => grants grant here (by rw [fails])
  | _ => exact calls

/-! ## Every run -/

structure Sound (granted : Prop) (w : World) : Prop where
  matched : Matched (PrefsPrivate.lockFD ∘ w.sessions) w.disk.flock
  fine : ∀ id, Fine granted w.disk (w.sessions id)

theorem Sound.one (sound : Sound granted w) {id id' : Nat} (held : holds (w.sessions id) = true)
    (held' : holds (w.sessions id') = true) : id = id' := by
  obtain ⟨inode,own,there⟩ := (sound.fine id).held held
  obtain ⟨inode',own',there'⟩ := (sound.fine id').held held'
  obtain rfl := Option.some.inj (there.symm.trans there')
  exact sound.matched.one own own'

theorem Passed.matched {fds : Nat → Option Nat} {flock flock' : Nat → Option Nat} {fd : Option Nat}
    (passed : Passed id flock (fds id) flock' fd) (matched : Matched fds flock) :
    Matched (Function.update fds id fd) flock' := by
  generalize old : fds id = lockFD at passed
  cases passed with
  | same => rwa [← old,Function.update_eq_self]
  | taken inode single free => exact matched.join (old.trans single) free
  | closed inode own => exact matched.part (old.trans own)

private theorem step_sessions (w : World) (event : Event) :
    (step w event).sessions = Function.update w.sessions event.session
    (act w.disk event.session (w.sessions event.session) event.action).2 := rfl

private theorem step_sound (sound : Sound granted w) (event : Event) (grants : granted → Granted w event) :
    Sound granted (step w event) := by
  have keeps : Keeps granted w.disk event.session (w.sessions event.session)
      (act w.disk event.session (w.sessions event.session) event.action) :=
    act_keeps (sound.fine event.session) event.action grants
  obtain ⟨fine,others,passed⟩ := keeps
  refine ⟨?_,fun other => ?_⟩
  · rw [step_sessions,Function.comp_update]
    exact Passed.matched passed sound.matched
  · by_cases same : other = event.session
    · subst same
      rw [step_sessions,Function.update_self]
      exact fine
    · rw [step_sessions,Function.update_of_ne same]
      have fine' := sound.fine other
      by_cases held : holds (w.sessions other) = true
      · -- the one session that holds the lock is not the one that goes on
        have unheld : holds (w.sessions event.session) ≠ true := fun held' => same (sound.one held held')
        obtain ⟨file,lockFile⟩ := others.resolve_left unheld
        refine ⟨fine'.shaped,fun _ => ?_,fine'.changed,fine'.knows,fun grant _ => ?_⟩
        · obtain ⟨inode,own,there⟩ := fine'.held held
          exact ⟨inode,own,lockFile inode there⟩
        · show _ → _ → Seen _ (act w.disk event.session (w.sessions event.session) event.action).1.file
          rw [file]
          exact fine'.current grant held
      · exact fine'.apart _ (by simpa using held)

private theorem initial_sound (granted : Prop) (file lockFile : Option Nat) : Sound granted (initial file lockFile) :=
  ⟨fun _ _ => iff_of_false (fun own => nomatch own) (fun own => nomatch own),
    fun _ => ⟨fun _ => rfl,fun held => (nomatch held),fun changed => (nomatch changed),
      fun _ accessed => (nomatch accessed),fun _ held => (nomatch held)⟩⟩

/-- The session is inside `SCPreferencesUnlock`, and has unlinked the lock file there. -/
def Unlocks (prefs : PrefsPrivate) : Prop := prefs.point = .unlockClosing ∨ prefs.point = .clearing

theorem Fine.holds_locked (fine : Fine granted disk prefs) (locked : prefs.locked = true) (inside : ¬ Unlocks prefs) :
    holds prefs = true := by
  have shaped := fine.shaped
  unfold holds
  cases here : prefs.point with
  | idle => exact locked
  | unlockClosing => exact absurd (.inl here) inside
  | clearing => exact absurd (.inr here) inside
  | _ => simp_all [Shaped]

/-- The session is about to replace the file, or to remove it. -/
def Replaces (prefs : PrefsPrivate) : Prop := prefs.point = .replacing ∨ prefs.point = .removing

private theorem close_file (disk : Disk) (lockFD : Option Nat) : (disk.close lockFD).file = disk.file := by
  cases lockFD <;> rfl

private theorem unlinkLock_file (disk : Disk) (outcome : Outcome) : (disk.unlinkLock outcome).file = disk.file := by
  unfold Disk.unlinkLock
  split <;> rfl

private theorem proceed_file (outcome : Outcome) (keeps : ¬ Replaces prefs) :
    (proceed disk id prefs outcome).1.file = disk.file := by
  unfold proceed
  cases here : prefs.point with
  | idle | notifying | clearing => rfl
  | replacing => exact absurd (.inl here) keeps
  | removing => exact absurd (.inr here) keeps
  | retrying | closing | unlockClosing => exact close_file ..
  | stale | unlinking => exact unlinkLock_file ..
  | comparing | checking | signing => simp only []; split <;> rfl
  | saving => cases outcome <;> rfl
  | opening =>
    simp only []
    split
    · rfl
    · split <;> rfl
  | acquiring inode =>
    simp only []
    split
    · rfl
    · split
      · rfl
      · split <;> rfl

private theorem step_file (w : World) (event : Event) (keeps : ¬ Replaces (w.sessions event.session)) :
    (step w event).disk.file = w.disk.file := by
  obtain ⟨id,action⟩ := event
  cases action with
  | go outcome => exact proceed_file outcome keeps
  | _ => rfl

theorem Fine.replaces (fine : Fine granted disk prefs) (grant : granted) (replaces : Replaces prefs) :
    prefs.accessed = true ∧ Seen prefs disk.file := by
  have shaped := fine.shaped
  have holding : holds prefs = true := by
    rcases replaces with here | here <;> simp [holds,here]
  obtain ⟨locked,changed⟩ : prefs.locked = true ∧ prefs.changed = true := by
    rcases replaces with here | here <;> simpa only [Shaped,here] using shaped
  exact ⟨fine.changed changed,fine.current grant holding locked (fine.changed changed)⟩

/-- At most one session is locked, those aside that `SCPreferencesUnlock` has yet to
mark unlocked after it has unlinked the lock file; and the file is replaced or removed
only by a session that has read the version there, or last committed it. -/
theorem no_lost_updates (file lockFile : Option Nat) (events : List Event) :
    let w := Runs.run step (initial file lockFile) events
    (∀ id id', (w.sessions id).locked = true → (w.sessions id').locked = true →
      ¬ Unlocks (w.sessions id) → ¬ Unlocks (w.sessions id') → id = id') ∧
    (∀ event, (step w event).disk.file ≠ w.disk.file → Replaces (w.sessions event.session)) ∧
    (Runs.Meets step Granted (initial file lockFile) events →
      ∀ id, Replaces (w.sessions id) → (w.sessions id).accessed = true ∧ Seen (w.sessions id) w.disk.file) := by
  refine ⟨fun id id' locked locked' inside inside' => ?_,fun event replaced => ?_,fun grants id replaces => ?_⟩
  · have sound : Sound False (Runs.run step (initial file lockFile) events) :=
      Runs.invariant (P := Sound False) (fun _ event sound => step_sound sound event fun impossible => impossible.elim)
        (initial_sound False file lockFile) events
    exact sound.one ((sound.fine id).holds_locked locked inside) ((sound.fine id').holds_locked locked' inside')
  · by_contra keeps
    exact replaced (step_file _ event keeps)
  · have sound : Sound True (Runs.run step (initial file lockFile) events) :=
      (Runs.along_of_meets (P := Sound True) (fun _ event sound grant => step_sound sound event fun _ => grant)
        (initial_sound True file lockFile) grants).last
    exact (sound.fine id).replaces trivial replaces

private theorem meets_granted {events : List Event} (never : ∀ event ∈ events, event.action ≠ .go .fails) (w : World) :
    Runs.Meets step Granted w events := by
  induction events generalizing w with
  | nil => trivial
  | cons event rest ih =>
    obtain ⟨now,later⟩ := List.forall_mem_cons.mp never
    exact ⟨fun _ => now,ih later _⟩

/-- Of a session, one call that goes on for some steps in which nothing fails. -/
def calling (id : Nat) (action : Action) (steps : Nat) : List Event :=
  ⟨id,action⟩ :: List.replicate steps ⟨id,.go .done⟩

/-- Session 0 has changed a value and is about to replace the file, as session 1 is to
wait for the lock. -/
def sampleEvents : List Event :=
  calling 0 (.setValue true) 0 ++ calling 0 .commit 5 ++ calling 1 (.lock true) 2

theorem sample_sees :
    let w := Runs.run step (initial (some 0) none) sampleEvents
    Replaces (w.sessions 0) ∧ (w.sessions 0).accessed = true ∧ Seen (w.sessions 0) w.disk.file :=
  ⟨.inl (by decide),(no_lost_updates (some 0) none sampleEvents).2.2 (meets_granted (by decide) _) 0 (.inl (by decide))⟩

/-- Session 0 locks, and unlocks as far as having unlinked the lock file, and session 1
locks the next one. -/
def unlockingEvents : List Event :=
  calling 0 (.lock true) 4 ++ calling 0 .unlock 1 ++ calling 1 (.lock true) 4

theorem unlocking_still_locked : ¬ ∀ (file lockFile : Option Nat) (events : List Event),
    Runs.Meets step Granted (initial file lockFile) events →
      ∀ id id', ((Runs.run step (initial file lockFile) events).sessions id).locked = true →
        ((Runs.run step (initial file lockFile) events).sessions id').locked = true → id = id' := by
  intro always
  have same := always none none unlockingEvents (meets_granted (by decide) _) 0 1 (by decide) (by decide)
  cases same

end FreebsdLaunchd.PreferencesRace
