import FreebsdLaunchd.PreferencesFile.Commit

/-! What the target path holds at every point of a commit: the bytes it held, or
what the scratch file has become by then. The scratch file is opened without being
emptied, so that this is the serialization exactly if no longer one was left there. -/
namespace FreebsdLaunchd.PreferencesFile
open Preferences

variable {α : Type} {serialize : CFDictionary α → Bytes} {prefs : PrefsPrivate α} {fs : FileSystem}
  {call : Call α} {content left : Bytes} {offset n : Nat}

private theorem thePath_ne (prefs : PrefsPrivate α) : thePath prefs ≠ target prefs := by
  intro same
  have lengths := congrArg List.length same
  simp [thePath] at lengths

/-! ## Writing -/

/-- What a file that held `content` holds once `data` has been written from its start. -/
def overlay (data content : Bytes) : Bytes := data ++ content.drop data.length

private theorem overlay_fits {data : Bytes} (fits : content.length ≤ data.length) : overlay data content = data := by
  rw [overlay,List.drop_eq_nil_of_le fits,List.append_nil]

private theorem overlay_longer {data : Bytes} (longer : data.length < content.length) : overlay data content ≠ data := by
  intro same
  have lengths := congrArg List.length same
  simp [overlay] at lengths
  omega

/-- One more chunk of the data continues the overlay. -/
theorem overwrite_overlay (data content chunk : Bytes) :
    overwrite (overlay data content) data.length chunk = overlay (data ++ chunk) content := by
  simp [overwrite,overlay,List.drop_append]

/-! ## What a commit is to do -/

def removes (prefs : PrefsPrivate α) : Prop := prefs.changed = true ∧ removesEmpty prefs = true

def saves (prefs : PrefsPrivate α) : Prop :=
  prefs.changed = true ∧ removesEmpty prefs = false ∧ validProtectionClass prefs.protectionClass = true

def leftover (prefs : PrefsPrivate α) (fs : FileSystem) : Bytes := (fs (thePath prefs)).getD []

/-- No longer file than the serialization was left at the scratch path. -/
def Fits (serialize : CFDictionary α → Bytes) (prefs : PrefsPrivate α) (fs : FileSystem) : Prop :=
  (leftover prefs fs).length ≤ (serialize prefs.prefs).length

/-! ## The invariant of a call -/

def Untouched (prefs : PrefsPrivate α) (fs : FileSystem) (call : Call α) : Prop :=
  call.fs (target prefs) = fs (target prefs) ∧ call.wrote = false

def Saving (prefs : PrefsPrivate α) (fs : FileSystem) (call : Call α) (scratch : Option Bytes) : Prop :=
  saves prefs ∧ Untouched prefs fs call ∧ call.fs (thePath prefs) = scratch

def Replaced (serialize : CFDictionary α → Bytes) (prefs : PrefsPrivate α) (fs : FileSystem) (call : Call α) : Prop :=
  saves prefs ∧ call.wrote = true ∧
    call.fs (target prefs) = some (overlay (serialize prefs.prefs) (leftover prefs fs))

def Removed (prefs : PrefsPrivate α) (call : Call α) : Prop :=
  removes prefs ∧ call.wrote = true ∧ call.fs (target prefs) = none

def Ended (serialize : CFDictionary α → Bytes) (prefs : PrefsPrivate α) (fs : FileSystem) (call : Call α) (ok : Bool) :
    Prop :=
  Untouched prefs fs call ∧ (ok = true → prefs.changed = true → removes prefs) ∨
    Replaced serialize prefs fs call ∨ Removed prefs call

def Stands (serialize : CFDictionary α → Bytes) (prefs : PrefsPrivate α) (fs : FileSystem) (call : Call α) : Prop :=
  match call.point with
  | .lock => call.fs = fs ∧ call.wrote = false ∧ call.prefs.changed = prefs.changed
  | .stat => call.fs = fs ∧ call.wrote = false ∧ prefs.changed = true ∧ removesEmpty prefs = false
  | .openNew => Saving prefs fs call (fs (thePath prefs))
  | .createData => Saving prefs fs call (some (leftover prefs fs))
  | .write offset left => ∃ written, serialize prefs.prefs = written ++ left ∧ offset = written.length ∧
      Saving prefs fs call (some (overlay written (leftover prefs fs)))
  | .unlinkNew => Untouched prefs fs call
  | .close | .rename => Saving prefs fs call (some (overlay (serialize prefs.prefs) (leftover prefs fs)))
  | .unlinkOld => Replaced serialize prefs fs call ∧ call.prefs.newPath = some (target prefs)
  | .symlink | .statNew => Replaced serialize prefs fs call
  | .unlinkEmpty => removes prefs ∧ Untouched prefs fs call
  | .notify => Ended serialize prefs fs call true
  | .unlock ok | .returned ok => Ended serialize prefs fs call ok

/-- The session still is what it was, but for where it keeps the target path, its
lock and whether it has changes. -/
structure Same (prefs : PrefsPrivate α) (call : Call α) : Prop where
  dictionary : call.prefs.prefs = prefs.prefs
  place : target call.prefs = target prefs
  protection : call.prefs.protectionClass = prefs.protectionClass
  removal : call.prefs.removeWhenEmpty = prefs.removeWhenEmpty

theorem Same.scratch (same : Same prefs call) : thePath call.prefs = thePath prefs := congrArg (· ++ _) same.place

theorem Same.removesEmpty (same : Same prefs call) : removesEmpty call.prefs = removesEmpty prefs := by
  rw [PreferencesFile.removesEmpty,same.dictionary,same.removal]
  rfl

theorem Untouched.failed (untouched : Untouched prefs fs call) : Ended serialize prefs fs call false :=
  .inl ⟨untouched,fun ok => nomatch ok⟩

private theorem finish_stands (serialize : CFDictionary α → Bytes)
    {ok : Bool} (ended : Ended serialize prefs fs call ok) :
    Stands serialize prefs fs (call.finish ok) := by
  cases was : call.wasLocked <;> simp only [Call.finish,was] <;> exact ended

private theorem begin_stands (same : Same prefs call) (files : call.fs = fs) (unwritten : call.wrote = false)
    (changed : call.prefs.changed = prefs.changed) : Stands serialize prefs fs call.begin_ := by
  have untouched : Untouched prefs fs call := ⟨by rw [files],unwritten⟩
  unfold Call.begin_
  rw [changed,same.removesEmpty]
  cases changes : prefs.changed with
  | false => exact .inl ⟨untouched,fun _ changed => by rw [changes] at changed; cases changed⟩
  | true =>
    cases empty : PreferencesFile.removesEmpty prefs with
    | true => exact ⟨⟨changes,empty⟩,untouched⟩
    | false => exact ⟨files,unwritten,changes,empty⟩

/-- Writing goes on with what is left, or has come to its end. -/
theorem writeMore_stands {written : Bytes} (split : serialize prefs.prefs = written ++ left)
    (saving : Saving prefs fs call (some (overlay written (leftover prefs fs)))) :
    Stands serialize prefs fs (writeMore call written.length left) := by
  unfold writeMore
  split
  · rename_i ended
    rw [ended,List.append_nil] at split
    rw [← split] at saving
    exact saving
  · exact ⟨written,split,rfl,saving⟩

theorem Saving.update {scratch content : Option Bytes} (saving : Saving prefs fs call scratch) :
    Saving prefs fs {call with fs := Function.update call.fs (thePath prefs) content} content :=
  ⟨saving.1,⟨(Function.update_of_ne (thePath_ne prefs).symm ..).trans saving.2.1.1,saving.2.1.2⟩,
    Function.update_self ..⟩

private theorem wrotePart_stands (same : Same prefs call)
    {written : Bytes} (split : serialize prefs.prefs = written ++ left)
    (fewer : n ≤ left.length) (saving : Saving prefs fs call (some (overlay written (leftover prefs fs)))) :
    Stands serialize prefs fs (wrotePart call written.length n left) := by
  have onward : serialize prefs.prefs = (written ++ left.take n) ++ left.drop n := by
    rw [List.append_assoc,List.take_append_drop,split]
  have longer : written.length + n = (written ++ left.take n).length := by
    rw [List.length_append,List.length_take,Nat.min_eq_left fewer]
  simp only [wrotePart]
  rw [same.scratch,saving.2.2,Option.getD_some,overwrite_overlay,longer]
  exact writeMore_stands onward saving.update

private theorem rename_replaced (serialize : CFDictionary α → Bytes)
    (saving : Saving prefs fs call (some (overlay (serialize prefs.prefs) (leftover prefs fs)))) :
    Replaced serialize prefs fs {call with
      fs := Function.update (Function.update call.fs (target prefs) (call.fs (thePath prefs))) (thePath prefs) none
      wrote := true} :=
  ⟨saving.1,rfl,(Function.update_of_ne (thePath_ne prefs).symm ..).trans
    ((Function.update_self ..).trans saving.2.2)⟩

/-- Whatever a system call comes to, the next one finds what it should. -/
theorem step_stands (same : Same prefs call) (stands : Stands serialize prefs fs call) (outcome : Outcome) :
    Same prefs (step serialize call outcome) ∧ Stands serialize prefs fs (step serialize call outcome) := by
  have kept {next : Call α} (unchanged : next.prefs = call.prefs) : Same prefs next := by
    obtain ⟨dictionary,place,protection,removal⟩ := same
    exact ⟨unchanged ▸ dictionary,unchanged ▸ place,unchanged ▸ protection,unchanged ▸ removal⟩
  obtain ⟨files,session,wasLocked,wrote,point⟩ := call
  cases point with
  | lock =>
    obtain ⟨files_,unwritten,changed⟩ := stands
    have began : Stands serialize prefs fs
        (Call.begin_ ⟨files,{session with locked := true},wasLocked,wrote,.lock⟩) :=
      begin_stands ⟨same.dictionary,same.place,same.protection,same.removal⟩ files_ unwritten changed
    have went : Same prefs (Call.begin_ ⟨files,{session with locked := true},wasLocked,wrote,.lock⟩) := by
      unfold Call.begin_
      split
      · exact ⟨same.dictionary,same.place,same.protection,same.removal⟩
      · split <;> exact ⟨same.dictionary,same.place,same.protection,same.removal⟩
    cases outcome with
    | fails _ => exact ⟨kept rfl,.inl ⟨⟨congrFun files_ _,unwritten⟩,fun ok => nomatch ok⟩⟩
    | done => exact ⟨went,began⟩
    | short _ => exact ⟨went,began⟩
  | stat =>
    obtain ⟨files_,unwritten,changed,nonempty⟩ := stands
    have untouched : Untouched prefs fs ⟨files,session,wasLocked,wrote,.stat⟩ := ⟨congrFun files_ _,unwritten⟩
    have failed := finish_stands serialize untouched.failed
    have checked : Stands serialize prefs fs (step serialize ⟨files,session,wasLocked,wrote,.stat⟩ .done) := by
      show Stands serialize prefs fs (if _ then _ else _)
      split
      · rename_i valid
        rw [same.protection] at valid
        exact ⟨⟨changed,nonempty,valid⟩,untouched,congrFun files_ _⟩
      · exact failed
    have session_ : (step serialize ⟨files,session,wasLocked,wrote,.stat⟩ .done).prefs = session := by
      show Call.prefs (if _ then _ else _) = session
      split <;> rfl
    cases outcome with
    | fails errno =>
      cases errno with
      | ENOENT => exact ⟨kept session_,checked⟩
      | EINTR => exact ⟨kept rfl,failed⟩
      | other => exact ⟨kept rfl,failed⟩
    | done => exact ⟨kept session_,checked⟩
    | short _ => exact ⟨kept session_,checked⟩
  | openNew =>
    have opened : Stands serialize prefs fs (step serialize ⟨files,session,wasLocked,wrote,.openNew⟩ .done) := by
      have scratch : files (thePath prefs) = fs (thePath prefs) := stands.2.2
      simp only [step,same.scratch,scratch]
      exact Saving.update stands
    cases outcome with
    | fails _ => exact ⟨kept rfl,finish_stands serialize stands.2.1.failed⟩
    | done => exact ⟨kept rfl,opened⟩
    | short _ => exact ⟨kept rfl,opened⟩
  | createData =>
    have created : Stands serialize prefs fs (step serialize ⟨files,session,wasLocked,wrote,.createData⟩ .done) := by
      have dictionary : session.prefs = prefs.prefs := same.dictionary
      simp only [step,dictionary]
      exact writeMore_stands (List.nil_append _).symm stands
    cases outcome with
    | fails _ => exact ⟨kept rfl,finish_stands serialize stands.2.1.failed⟩
    | done => exact ⟨kept rfl,created⟩
    | short _ => exact ⟨kept rfl,created⟩
  | write offset left =>
    obtain ⟨written,split,rfl,saving⟩ := stands
    cases outcome with
    | fails errno =>
      cases errno with
      | EINTR => exact ⟨same,written,split,rfl,saving⟩
      | ENOENT => exact ⟨kept rfl,saving.2.1⟩
      | other => exact ⟨kept rfl,saving.2.1⟩
    | done => exact ⟨kept rfl,wrotePart_stands same split (Nat.le_refl _) saving⟩
    | short n => exact ⟨kept rfl,wrotePart_stands same split (Nat.min_le_right ..) saving⟩
  | unlinkNew =>
    have unlinked : Untouched prefs fs ⟨Function.update files (thePath session) none,session,wasLocked,wrote,.unlinkNew⟩ := by
      rw [same.scratch]
      exact ⟨(Function.update_of_ne (thePath_ne prefs).symm ..).trans stands.1,stands.2⟩
    cases outcome with
    | fails _ => exact ⟨kept rfl,finish_stands serialize (Untouched.failed stands)⟩
    | done => exact ⟨kept rfl,finish_stands serialize unlinked.failed⟩
    | short _ => exact ⟨kept rfl,finish_stands serialize unlinked.failed⟩
  | close =>
    cases outcome with
    | fails _ => exact ⟨kept rfl,stands.2.1⟩
    | done => exact ⟨kept rfl,stands⟩
    | short _ => exact ⟨kept rfl,stands⟩
  | rename =>
    have renamed : Stands serialize prefs fs (step serialize ⟨files,session,wasLocked,wrote,.rename⟩ .done) := by
      have replaced := rename_replaced serialize stands
      simp only [step,same.scratch,same.place]
      cases other : session.newPath with
      | none => exact replaced
      | some place =>
        have place_ : session.newPath.getD session.path = target prefs := same.place
        rw [other] at place_
        exact ⟨replaced,other.trans (congrArg some place_)⟩
    cases outcome with
    | fails _ => exact ⟨kept rfl,finish_stands serialize stands.2.1.failed⟩
    | done => exact ⟨kept rfl,renamed⟩
    | short _ => exact ⟨kept rfl,renamed⟩
  | unlinkOld =>
    obtain ⟨⟨saved,wrote_,content⟩,there⟩ := stands
    have apart : target prefs ≠ session.path := fun here => session.apart (there.trans (congrArg some here))
    have unlinked : Replaced serialize prefs fs
        ⟨Function.update files session.path none,session,wasLocked,wrote,.unlinkOld⟩ :=
      ⟨saved,wrote_,(Function.update_of_ne apart ..).trans content⟩
    cases outcome with
    | fails _ => exact ⟨kept rfl,saved,wrote_,content⟩
    | done => exact ⟨kept rfl,unlinked⟩
    | short _ => exact ⟨kept rfl,unlinked⟩
  | symlink => cases outcome <;> exact ⟨⟨same.dictionary,same.place,same.protection,same.removal⟩,stands⟩
  | statNew =>
    cases outcome with
    | fails _ => exact ⟨kept rfl,finish_stands serialize (.inr (.inl stands))⟩
    | done => exact ⟨kept rfl,.inr (.inl stands)⟩
    | short _ => exact ⟨kept rfl,.inr (.inl stands)⟩
  | unlinkEmpty =>
    obtain ⟨removes_,untouched⟩ := stands
    have unlinked : Removed prefs ⟨Function.update files (target session) none,session,wasLocked,true,.unlinkEmpty⟩ := by
      rw [same.place]
      exact ⟨removes_,rfl,Function.update_self ..⟩
    cases outcome with
    | fails _ => exact ⟨kept rfl,.inl ⟨untouched,fun _ _ => removes_⟩⟩
    | done => exact ⟨kept rfl,.inr (.inr unlinked)⟩
    | short _ => exact ⟨kept rfl,.inr (.inr unlinked)⟩
  | notify =>
    have failed : Ended serialize prefs fs ⟨files,session,wasLocked,wrote,.notify⟩ false := by
      rcases stands with ⟨untouched,_⟩ | replaced | removed
      · exact untouched.failed
      · exact .inr (.inl replaced)
      · exact .inr (.inr removed)
    have went : Same prefs (step serialize ⟨files,session,wasLocked,wrote,.notify⟩ .done) :=
      ⟨same.dictionary,same.place,same.protection,same.removal⟩
    cases outcome with
    | fails _ => exact ⟨kept rfl,finish_stands serialize failed⟩
    | done => exact ⟨went,finish_stands serialize stands⟩
    | short _ => exact ⟨went,finish_stands serialize stands⟩
  | unlock ok => cases outcome <;> exact ⟨⟨same.dictionary,same.place,same.protection,same.removal⟩,stands⟩
  | returned ok => cases outcome <;> exact ⟨same,stands⟩

private theorem start_stands (serialize : CFDictionary α → Bytes) (prefs : PrefsPrivate α) (fs : FileSystem) :
    Same prefs (scPreferencesCommitChanges prefs fs) ∧
      Stands serialize prefs fs (scPreferencesCommitChanges prefs fs) := by
  have same : Same prefs ⟨fs,prefs,prefs.locked,false,.lock⟩ := ⟨rfl,rfl,rfl,rfl⟩
  unfold scPreferencesCommitChanges
  cases locked : prefs.locked with
  | false => exact ⟨⟨rfl,rfl,rfl,rfl⟩,rfl,rfl,rfl⟩
  | true =>
    refine ⟨?_,begin_stands ⟨rfl,rfl,rfl,rfl⟩ rfl rfl rfl⟩
    unfold Call.begin_
    simp only [if_true]
    split
    · exact ⟨rfl,rfl,rfl,rfl⟩
    · split <;> exact ⟨rfl,rfl,rfl,rfl⟩

private theorem run_stands (serialize : CFDictionary α → Bytes) (prefs : PrefsPrivate α) (fs : FileSystem)
    (schedule : List Outcome) :
    Same prefs (Runs.run (step serialize) (scPreferencesCommitChanges prefs fs) schedule) ∧
      Stands serialize prefs fs (Runs.run (step serialize) (scPreferencesCommitChanges prefs fs) schedule) :=
  Runs.invariant (P := fun call => Same prefs call ∧ Stands serialize prefs fs call)
    (fun _ outcome sound => step_stands sound.1 sound.2 outcome) (start_stands serialize prefs fs) schedule

/-! ## The file at the target path -/

def isNew (serialize : CFDictionary α → Bytes) (prefs : PrefsPrivate α) (file : Option Bytes) : Prop :=
  removes prefs ∧ file = none ∨ ¬ removes prefs ∧ file = some (serialize prefs.prefs)

theorem removes.not_saves (removes_ : removes prefs) : ¬ saves prefs := fun saved => by
  have empty := removes_.2
  rw [saved.2.1] at empty
  cases empty

/-- At every point the target is as it was, or has been replaced by what the
scratch file was, or has been removed. -/
theorem Stands.target (stands : Stands serialize prefs fs call) :
    Untouched prefs fs call ∨ Replaced serialize prefs fs call ∨ Removed prefs call := by
  obtain ⟨files,session,wasLocked,wrote,point⟩ := call
  have ended {ok : Bool} (ended : Ended serialize prefs fs ⟨files,session,wasLocked,wrote,point⟩ ok) :
      Untouched prefs fs ⟨files,session,wasLocked,wrote,point⟩ ∨
        Replaced serialize prefs fs ⟨files,session,wasLocked,wrote,point⟩ ∨
          Removed prefs ⟨files,session,wasLocked,wrote,point⟩ := ended.imp And.left id
  cases point with
  | lock => exact .inl ⟨congrFun stands.1 _,stands.2.1⟩
  | stat => exact .inl ⟨congrFun stands.1 _,stands.2.1⟩
  | openNew => exact .inl stands.2.1
  | createData => exact .inl stands.2.1
  | write offset left =>
    obtain ⟨_,_,_,saving⟩ := stands
    exact .inl saving.2.1
  | unlinkNew => exact .inl stands
  | close => exact .inl stands.2.1
  | rename => exact .inl stands.2.1
  | unlinkOld => exact .inr (.inl stands.1)
  | symlink => exact .inr (.inl stands)
  | statNew => exact .inr (.inl stands)
  | unlinkEmpty => exact .inl stands.2
  | notify => exact ended stands
  | unlock ok => exact ended stands
  | returned ok => exact ended stands

/-! ## A call in which nothing fails -/

def Point.rank : Point → Nat
  | .lock => 13
  | .stat => 12
  | .openNew => 11
  | .createData => 10
  | .write _ _ => 9
  | .unlinkNew => 0
  | .close => 8
  | .rename => 7
  | .unlinkOld => 6
  | .symlink => 5
  | .statNew => 4
  | .unlinkEmpty => 4
  | .notify => 3
  | .unlock _ => 2
  | .returned _ => 1

def Point.well : Point → Bool
  | .unlinkNew => false
  | .unlock ok | .returned ok => ok
  | _ => true

private theorem finish_well (call : Call α) :
    (call.finish true).point.well = true ∧ (call.finish true).point.rank ≤ 2 := by
  cases was : call.wasLocked <;> simp [Call.finish,Call.goto,was,Point.well,Point.rank]

private theorem begin_well (call : Call α) : call.begin_.point.well = true ∧ call.begin_.point.rank ≤ 12 := by
  unfold Call.begin_
  split
  · simp [Call.goto,Point.well,Point.rank]
  · split <;> simp [Call.goto,Point.well,Point.rank]

private theorem writeMore_well (call : Call α) (offset : Nat) (left : Bytes) :
    (writeMore call offset left).point.well = true ∧ (writeMore call offset left).point.rank ≤ 9 := by
  unfold writeMore
  split <;> simp [Call.goto,Point.well,Point.rank]

private theorem step_well (serialize : CFDictionary α → Bytes) (saved : saves prefs) (same : Same prefs call)
    (well : call.point.well = true) :
    (step serialize call .done).point.well = true ∧
      ((step serialize call .done).point.rank < call.point.rank ∨ call.point = .returned true) := by
  obtain ⟨files,session,wasLocked,wrote,point⟩ := call
  cases point with
  | lock => exact (begin_well _).imp_right fun less => .inl (Nat.lt_succ_of_le less)
  | stat =>
    have valid : validProtectionClass session.protectionClass = true := by
      rw [show session.protectionClass = prefs.protectionClass from same.protection]
      exact saved.2.2
    simp [step,valid,Call.goto,Point.well,Point.rank]
  | createData => exact (writeMore_well _ _ _).imp_right fun less => .inl (Nat.lt_succ_of_le less)
  | write offset left =>
    have whole : step serialize ⟨files,session,wasLocked,wrote,.write offset left⟩ .done =
      wrotePart ⟨files,session,wasLocked,wrote,.write offset left⟩ offset left.length left := rfl
    simp [whole,wrotePart,writeMore,Call.goto,Point.well,Point.rank]
  | rename =>
    cases other : session.newPath <;> simp [step,other,Call.goto,Point.well,Point.rank]
  | notify => exact (finish_well _).imp_right fun less => .inl (Nat.lt_succ_of_le less)
  | unlock ok =>
    obtain rfl : ok = true := well
    simp [step,Call.goto,Point.well,Point.rank]
  | returned ok =>
    obtain rfl : ok = true := well
    simp [step,Point.well]
  | unlinkNew => cases well
  | openNew => simp [step,Call.goto,Point.well,Point.rank]
  | close => simp [step,Call.goto,Point.well,Point.rank]
  | unlinkOld => simp [step,Call.goto,Point.well,Point.rank]
  | symlink => simp [step,Call.goto,Point.well,Point.rank]
  | statNew => simp [step,Call.goto,Point.well,Point.rank]
  | unlinkEmpty => simp [step,Call.goto,Point.well,Point.rank]

/-- A call in which nothing fails returns `TRUE`. -/
theorem run_done (saved : saves prefs) (steps : Nat) (call : Call α) (same : Same prefs call)
    (stands : Stands serialize prefs fs call) (well : call.point.well = true) (enough : call.point.rank ≤ steps + 1) :
    (Runs.run (step serialize) call (List.replicate steps .done)).point = .returned true := by
  induction steps generalizing call with
  | zero =>
    rcases (step_well serialize saved same well).2 with less | returned
    · obtain ⟨files,session,wasLocked,wrote,point⟩ := call
      cases point <;> simp [Point.rank] at enough
      · cases well
      · rename_i ok
        obtain rfl : ok = true := well
        rfl
    · exact returned
  | succ steps ih =>
    obtain ⟨well',less⟩ := step_well serialize saved same well
    obtain ⟨same',stands'⟩ := step_stands same stands .done
    refine ih _ same' stands' well' ?_
    rcases less with less | returned
    · omega
    · have stays : step serialize call .done = call := by
        obtain ⟨files,session,wasLocked,wrote,point⟩ := call
        obtain rfl : point = .returned true := returned
        rfl
      rw [stays,returned]
      simp [Point.rank]

/-! ## When the file is replaced atomically -/

def commitRun (serialize : CFDictionary α → Bytes) (prefs : PrefsPrivate α) (fs : FileSystem)
    (schedule : List Outcome) : Call α :=
  Runs.run (step serialize) (scPreferencesCommitChanges prefs fs) schedule

/-- The target holds its previous bytes, or the new version of the file. -/
def Atomic (serialize : CFDictionary α → Bytes) (prefs : PrefsPrivate α) (fs : FileSystem) (call : Call α) : Prop :=
  call.fs (target prefs) = fs (target prefs) ∨ isNew serialize prefs (call.fs (target prefs))

theorem Replaced.isNew (replaced : Replaced serialize prefs fs call) (fits : Fits serialize prefs fs) :
    isNew serialize prefs (call.fs (target prefs)) := by
  obtain ⟨saved,_,content⟩ := replaced
  rw [overlay_fits fits] at content
  exact .inr ⟨fun removes_ => removes_.not_saves saved,content⟩

theorem Replaced.not_new (replaced : Replaced serialize prefs fs call) (longer : ¬ Fits serialize prefs fs) :
    ¬ PreferencesFile.isNew serialize prefs (call.fs (target prefs)) := by
  obtain ⟨saved,_,content⟩ := replaced
  rintro (⟨removes_,_⟩ | ⟨_,new⟩)
  · exact removes_.not_saves saved
  · rw [content] at new
    exact overlay_longer (Nat.lt_of_not_le longer) (Option.some.inj new)

private theorem run_atomic (fits : saves prefs → Fits serialize prefs fs) (schedule : List Outcome) :
    Atomic serialize prefs fs (commitRun serialize prefs fs schedule) := by
  rcases (run_stands serialize prefs fs schedule).2.target with untouched | replaced | removed
  · exact .inl untouched.1
  · exact .inr (replaced.isNew (fits replaced.1))
  · exact .inr (.inl ⟨removed.1,removed.2.2⟩)

/-- Where nothing fails, what is to be saved replaces the file. -/
theorem run_replaced (serialize : CFDictionary α → Bytes) (fs : FileSystem) (saved : saves prefs) : ∃ schedule,
    (commitRun serialize prefs fs schedule).point = .returned true ∧
      Replaced serialize prefs fs (commitRun serialize prefs fs schedule) := by
  have well : (scPreferencesCommitChanges prefs fs).point.well = true ∧
      (scPreferencesCommitChanges prefs fs).point.rank ≤ 13 := by
    unfold scPreferencesCommitChanges
    split
    · exact (begin_well _).imp_right fun less => Nat.le_succ_of_le less
    · exact ⟨rfl,Nat.le_refl _⟩
  obtain ⟨same,stands⟩ := start_stands serialize prefs fs
  have returned := run_done saved 13 _ same stands well.1 (Nat.le_succ_of_le well.2)
  refine ⟨List.replicate 13 .done,returned,?_⟩
  have ended := (run_stands serialize prefs fs (List.replicate 13 .done)).2
  rw [Stands,returned] at ended
  rcases ended with ⟨_,only⟩ | replaced | removed
  · exact absurd saved (only rfl saved.1).not_saves
  · exact replaced
  · exact absurd saved removed.1.not_saves

private theorem begin_removes (changed : call.prefs.changed = true) (empty : removesEmpty call.prefs = true) :
    call.begin_ = call.goto .unlinkEmpty := by
  simp [Call.begin_,changed,empty]

/-- A file that cannot be unlinked is left, and the call returns `TRUE`. -/
theorem run_not_removed (serialize : CFDictionary α → Bytes) (fs : FileSystem) (removes_ : removes prefs) : ∃ schedule,
    (commitRun serialize prefs fs schedule).point = .returned true ∧
      (commitRun serialize prefs fs schedule).fs = fs := by
  obtain ⟨changed,empty⟩ := removes_
  cases locked : prefs.locked with
  | true =>
    have began : scPreferencesCommitChanges prefs fs = Call.goto ⟨fs,prefs,true,false,.lock⟩ .unlinkEmpty := by
      rw [scPreferencesCommitChanges,locked]
      exact begin_removes changed empty
    refine ⟨[.fails .other,.done],?_,?_⟩ <;> rw [commitRun,began] <;> rfl
  | false =>
    have starts : scPreferencesCommitChanges prefs fs = ⟨fs,prefs,false,false,.lock⟩ := by
      rw [scPreferencesCommitChanges,locked]
      rfl
    have began : step serialize ⟨fs,prefs,false,false,.lock⟩ .done =
      Call.goto ⟨fs,{prefs with locked := true},false,false,.lock⟩ .unlinkEmpty := begin_removes changed empty
    have run_ (rest : List Outcome) : commitRun serialize prefs fs (.done :: rest) =
        Runs.run (step serialize) (Call.goto ⟨fs,{prefs with locked := true},false,false,.lock⟩ .unlinkEmpty) rest := by
      rw [commitRun,starts,← began]
      rfl
    refine ⟨[.done,.fails .other,.done,.done],?_,?_⟩ <;> rw [run_] <;> rfl

/-- At every point of a call the target holds its previous bytes or the new
version, and a call that wrote and returns `TRUE` has left the new version, exactly
if what there is to save is no shorter than the file left at the scratch path. That a
call that had changes and returns `TRUE` has left the new version takes, besides,
that no file is to be removed: whether it could be is not looked at. -/
theorem replaced_atomically_iff (serialize : CFDictionary α → Bytes) (prefs : PrefsPrivate α) (fs : FileSystem) :
    ((∀ schedule, Atomic serialize prefs fs (commitRun serialize prefs fs schedule) ∧
        ((commitRun serialize prefs fs schedule).point = .returned true →
          (commitRun serialize prefs fs schedule).wrote = true →
          isNew serialize prefs ((commitRun serialize prefs fs schedule).fs (target prefs)))) ↔
      (saves prefs → Fits serialize prefs fs)) ∧
    ((∀ schedule, Atomic serialize prefs fs (commitRun serialize prefs fs schedule) ∧
        ((commitRun serialize prefs fs schedule).point = .returned true → prefs.changed = true →
          isNew serialize prefs ((commitRun serialize prefs fs schedule).fs (target prefs)))) ↔
      (saves prefs → Fits serialize prefs fs) ∧ (removes prefs → fs (target prefs) = none)) := by
  refine ⟨⟨fun always saved => ?_,fun fits schedule => ⟨run_atomic fits schedule,fun _ wrote => ?_⟩⟩,
    ⟨fun always => ⟨fun saved => ?_,fun removes_ => ?_⟩,
      fun ⟨fits,nothing⟩ schedule => ⟨run_atomic fits schedule,fun returned changed => ?_⟩⟩⟩
  · obtain ⟨schedule,returned,replaced⟩ := run_replaced serialize fs saved
    by_contra longer
    exact replaced.not_new longer ((always schedule).2 returned replaced.2.1)
  · rcases (run_stands serialize prefs fs schedule).2.target with untouched | replaced | removed
    · have unwritten := untouched.2
      rw [show (commitRun serialize prefs fs schedule).wrote = false from unwritten] at wrote
      cases wrote
    · exact replaced.isNew (fits replaced.1)
    · exact .inl ⟨removed.1,removed.2.2⟩
  · obtain ⟨schedule,returned,replaced⟩ := run_replaced serialize fs saved
    by_contra longer
    exact replaced.not_new longer ((always schedule).2 returned saved.1)
  · obtain ⟨schedule,returned,unchanged⟩ := run_not_removed serialize fs removes_
    rcases (always schedule).2 returned removes_.1 with ⟨_,absent⟩ | ⟨kept,_⟩
    · rw [unchanged] at absent
      exact absent
    · exact absurd removes_ kept
  · have ended := (run_stands serialize prefs fs schedule).2
    rw [Stands,show (Runs.run _ _ _ : Call α).point = _ from returned] at ended
    rcases ended with ⟨untouched,only⟩ | replaced | removed
    · have removes_ := only rfl changed
      exact .inl ⟨removes_,untouched.1.trans (nothing removes_)⟩
    · exact replaced.isNew (fits replaced.1)
    · exact .inl ⟨removed.1,removed.2.2⟩

def emptyPlist : Bytes := "<plist version=\"1.0\">\n<dict/>\n</plist>\n".toList.map fun c => c.toNat.toUInt8

def sampleSession : PrefsPrivate Unit := ⟨['p'],none,by simp,none,none,[],true,true⟩

/-- The longer file of an interrupted commit shows through. -/
theorem leftover_shows_through : ¬ ∀ (serialize : CFDictionary Unit → Bytes) (prefs : PrefsPrivate Unit)
    (fs : FileSystem) (schedule : List Outcome),
    Atomic serialize prefs fs (commitRun serialize prefs fs schedule) := by
  intro always
  let fs : FileSystem := fun path => if path = thePath sampleSession then some (emptyPlist ++ [10]) else none
  have saved : saves sampleSession := ⟨rfl,rfl,rfl⟩
  have longer : ¬ Fits (fun _ => emptyPlist) sampleSession fs := by simp [Fits,leftover,fs]
  have absent : fs (target sampleSession) = none := if_neg (thePath_ne sampleSession).symm
  obtain ⟨schedule,_,replaced⟩ := run_replaced (fun _ => emptyPlist) fs saved
  rcases always (fun _ => emptyPlist) sampleSession fs schedule with previous | new
  · rw [absent,replaced.2.2] at previous
    cases previous
  · exact replaced.not_new longer new

end FreebsdLaunchd.PreferencesFile
