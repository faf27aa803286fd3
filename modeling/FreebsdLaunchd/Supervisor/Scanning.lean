import FreebsdLaunchd.Supervisor.Refinement
import Mathlib.Data.List.ReduceOption

/-! A directory scan: which entries come into the table and which of them run,
told by the entries alone, and what entries beside them can do to that. -/
namespace FreebsdLaunchd.Supervisor
open CData

variable {s s' : State} {dir : CString} {entry : DirEntry} {entries : List DirEntry} {label path : CString}

/-! ## The entries a scan takes -/

/-- A visible name with at least one character before the suffix. -/
def IsPlistName (name : CString) : Prop :=
  ∃ stem, stem ≠ [] ∧ stem.head? ≠ some 46 ∧ name.bytes = stem ++ plistSuffix

def joined (dir name : CString) : CString where
  bytes := dir.bytes ++ 47 :: name.bytes
  noNul := by
    intro member
    rcases List.mem_append.mp member with inside | inside
    · exact dir.noNul inside
    · rcases List.mem_cons.mp inside with absurdity | inside
      · cases absurdity
      · exact name.noNul inside

private theorem ofBuffer_bytes (text : CString) : CString.ofBuffer text.bytes = text := by
  obtain ⟨bytes,noNul⟩ := text
  have whole : bytes.takeWhile (· != 0) = bytes := List.takeWhile_eq_self_iff.mpr fun b member => by
    simp only [bne_iff_ne,ne_eq]
    rintro rfl
    exact noNul member
  simp [CString.ofBuffer,whole]

private theorem isPlistName_iff (name : CString) : IsPlistName name ↔
    name.bytes.head? ≠ some 46 ∧ ¬ (name.bytes.length < 7 ∨ name.bytes.drop (name.bytes.length - 6) ≠ plistSuffix) := by
  have six : plistSuffix.length = 6 := rfl
  constructor
  · rintro ⟨stem,inner,visible,split⟩
    have positive := List.length_pos_iff.mpr inner
    obtain ⟨b,rest,rfl⟩ := List.exists_cons_of_ne_nil inner
    rw [split]
    refine ⟨by simpa using visible,?_⟩
    rintro (short | other)
    · rw [List.length_append] at short
      omega
    · rw [List.length_append,six,Nat.add_sub_cancel,List.drop_left] at other
      exact other rfl
  · rintro ⟨visible,shape⟩
    obtain ⟨long,suffix⟩ := not_or.mp shape
    refine ⟨name.bytes.take (name.bytes.length - 6),?_,?_,?_⟩
    · rw [← List.length_pos_iff,List.length_take]
      omega
    · rwa [List.head?_take,if_neg (by omega)]
    · rw [← not_not.mp suffix,List.take_append_drop]

private theorem scanPath_iff {name : CString} : scanPath dir name = some path ↔
    IsPlistName name ∧ (joined dir name).bytes.length < pathBuffer ∧ path = joined dir name := by
  rw [isPlistName_iff]
  have buffer : CString.ofBuffer (dir.bytes ++ 47 :: name.bytes) = joined dir name := ofBuffer_bytes (joined dir name)
  unfold scanPath
  simp only [buffer]
  split
  · rename_i hidden
    simp [hidden]
  · rename_i visible
    split
    · rename_i other
      simp [other]
    · rename_i plist
      split
      · rename_i long
        have long : ¬ (joined dir name).bytes.length < pathBuffer := not_lt.mpr long
        simp [long]
      · rename_i fits
        have fits : (joined dir name).bytes.length < pathBuffer := not_le.mp fits
        simp only [Option.some.injEq]
        exact ⟨fun same => ⟨⟨visible,plist⟩,fits,same.symm⟩,fun taken => taken.2.2.symm⟩

/-- The property list of a job with the label: a dictionary with that `Label`, and
with a `Program` or with `ProgramArguments` that are strings and at least one. -/
def IsJobPlist (file : FileContent) (label : CString) : Prop :=
  ∃ d, file = .object (.dict d) ∧
    (∃ utf8, nsdictGet d "Label" = some (.string (some utf8)) ∧ label = CString.ofBuffer utf8) ∧
    ((∃ utf8, nsdictGet d "Program" = some (.string (some utf8))) ∨
      ∃ items, nsdictGet d "ProgramArguments" = some (.array items) ∧ items ≠ [] ∧
        ∀ item ∈ items, ∃ utf8, item = .string utf8)

private theorem nsdictGetString_some {d : List (String × Plist)} {key : String} {text : CString} :
    nsdictGetString d key = some text ↔ ∃ utf8, nsdictGet d key = some (.string (some utf8)) ∧ text = CString.ofBuffer utf8 := by
  unfold nsdictGetString
  cases nsdictGet d key with
  | none => simp
  | some value =>
    cases value with
    | string utf8 => cases utf8 <;> simp [nsStringToUtf8,eq_comm]
    | number _ | array _ | dict _ | other => simp

private theorem argvOf_some (items : List Plist) :
    (∃ argv, argvOf items = some argv ∧ argv.length = items.length) ↔ ∀ item ∈ items, ∃ utf8, item = .string utf8 := by
  induction items with
  | nil => simp [argvOf]
  | cons item rest ih =>
    cases item with
    | string utf8 =>
      rw [List.forall_mem_cons,← ih]
      cases tail : argvOf rest with
      | none => simp [argvOf,tail]
      | some argv => simp [argvOf,tail]
    | number _ | array _ | dict _ | other => simp [argvOf]

private theorem argvOf_length {items : List Plist} {argv : List (Option CString)} (all : argvOf items = some argv) :
    argv.length = items.length := by
  induction items generalizing argv with
  | nil => cases all; rfl
  | cons item rest ih =>
    cases item with
    | string utf8 =>
      obtain ⟨tail,further,rfl⟩ := Option.map_eq_some_iff.mp all
      simp [ih further]
    | number _ | array _ | dict _ | other => cases all

private theorem nsdictGetArgv_some {d : List (String × Plist)} {key : String} :
    ¬ (nsdictGetArgv d key = none ∨ nsdictGetArgv d key = some []) ↔
      ∃ items, nsdictGet d key = some (.array items) ∧ items ≠ [] ∧ ∀ item ∈ items, ∃ utf8, item = .string utf8 := by
  unfold nsdictGetArgv
  cases nsdictGet d key with
  | none => simp
  | some value =>
    cases value with
    | array items =>
      simp only [Option.some.injEq,Plist.array.injEq,exists_eq_left',← argvOf_some]
      cases all : argvOf items with
      | none => simp
      | some argv => simp [argvOf_length all,← List.length_pos_iff]
    | string _ | number _ | dict _ | other => simp

/-- What `jobmgr_load_plist_file` makes a Job of. -/
theorem jobmgrLoadPlistFile_iff (id : JobId) (path : CString) (file : FileContent) (label : CString) :
    (∃ j, jobmgrLoadPlistFile id path file = some j ∧ j.label = label) ↔ IsJobPlist file label := by
  unfold jobmgrLoadPlistFile
  split
  · rename_i d
    simp only [IsJobPlist,FileContent.object.injEq,Plist.dict.injEq,exists_eq_left',← nsdictGetArgv_some,
      ← nsdictGetString_some]
    have program : (∃ utf8, nsdictGet d "Program" = some (.string (some utf8))) ↔ nsdictGetString d "Program" ≠ none := by
      rw [Option.ne_none_iff_exists']
      constructor
      · rintro ⟨utf8,got⟩
        exact ⟨_,nsdictGetString_some.mpr ⟨utf8,got,rfl⟩⟩
      · rintro ⟨text,got⟩
        obtain ⟨utf8,got,_⟩ := nsdictGetString_some.mp got
        exact ⟨utf8,got⟩
    rw [program]
    cases nsdictGetString d "Label" with
    | none => simp
    | some text =>
      simp only []
      by_cases missing : nsdictGetString d "Program" = none ∧
          (nsdictGetArgv d "ProgramArguments" = none ∨ nsdictGetArgv d "ProgramArguments" = some [])
      · rw [if_pos missing]
        constructor
        · rintro ⟨j,absurdity,_⟩
          cases absurdity
        · rintro ⟨_,present⟩
          exact absurd missing (not_and_or.mpr present)
      · rw [if_neg missing]
        simp only [Option.some.injEq,exists_eq_left']
        exact ⟨fun same => ⟨same,not_and_or.mp missing⟩,And.left⟩
  · rename_i other
    constructor
    · rintro ⟨j,loaded,_⟩
      cases loaded
    · rintro ⟨d,rfl,_⟩
      exact absurd rfl (other d)

/-- `RunAtLoad` is true and `Disabled` is false. -/
def StartsAtLoad (file : FileContent) : Prop :=
  ∃ d, file = .object (.dict d) ∧ nsdictGetBool d "RunAtLoad" true = true ∧ nsdictGetBool d "Disabled" false = false

private theorem startsAtLoad_iff {id : JobId} {file : FileContent} {j : Job}
    (loaded : jobmgrLoadPlistFile id path file = some j) :
    StartsAtLoad file ↔ j.runAtLoad = true ∧ j.disabled = false := by
  unfold jobmgrLoadPlistFile at loaded
  split at loaded
  · split at loaded
    · cases loaded
    · simp only at loaded
      split at loaded
      · cases loaded
      · cases loaded
        simp [StartsAtLoad]
  · cases loaded

/-- The entry is a plist the scan can load: its name, its full path and its content are right. -/
structure Loadable (dir : CString) (entry : DirEntry) (label : CString) : Prop where
  name : IsPlistName entry.name
  fits : (joined dir entry.name).bytes.length < pathBuffer
  content : IsJobPlist entry.file label

def Taken (s : State) (label : CString) : Prop := ∃ x ∈ s.jobs, x.label = label

/-- The addresses still to be given out are new to the table and to the children. -/
structure Fresh (s : State) : Prop where
  jobs : ∀ x ∈ s.jobs, x.id < s.nextJob
  children : ∀ c ∈ s.kernel.children, c.job < s.nextJob

theorem Ok.fresh (ok : Ok s) : Fresh s := ⟨ok.allocated,ok.names.children⟩

/-! ## One entry -/

/-- What one iteration of the scan comes to: nothing, or a Job in front of the table,
started or not. -/
inductive Scanned (dir : CString) (s : State) (entry : DirEntry) : Option Job → State → Prop
  | skipped (refused : ∀ label, Loadable dir entry label → Taken s label) : Scanned dir s entry none s
  | idle {j : Job} (seconds : Nat) (loadable : Loadable dir entry j.label) (new : ¬ Taken s j.label)
      (loaded : jobmgrLoadPlistFile s.nextJob (joined dir entry.name) entry.file = some j)
      (still : StartsAtLoad entry.file → s.kernel.grant entry.spawn = none) :
      Scanned dir s entry (some j)
        {s with jobs := j::s.jobs,nextJob := s.nextJob+1,kernel := s.kernel.tick seconds}
  | running {j : Job} {pid : Pid} (loadable : Loadable dir entry j.label) (new : ¬ Taken s j.label)
      (loaded : jobmgrLoadPlistFile s.nextJob (joined dir entry.name) entry.file = some j)
      (starts : StartsAtLoad entry.file) (granted : s.kernel.grant entry.spawn = some pid) :
      Scanned dir s entry (some (j.spawned pid (s.kernel.clock+entry.spawn.elapsed)))
        {s with
          jobs := j.spawned pid (s.kernel.clock+entry.spawn.elapsed) :: s.jobs
          nextJob := s.nextJob+1
          kernel := s.kernel.spawned j .runAtLoad entry.spawn pid}

private theorem put_front (fresh : Fresh s) {j j' : Job} (new : j.id = s.nextJob) (same : j'.id = j.id) (k : Kernel) :
    State.put {s with jobs := j::s.jobs,nextJob := s.nextJob+1} k j' =
      {s with jobs := j'::s.jobs,nextJob := s.nextJob+1,kernel := k} := by
  have untouched : Keyed.store Job.id s.jobs j' = s.jobs := Keyed.store_self fun x inside equal =>
    absurd (fresh.jobs x inside) (not_lt.mpr (by rw [equal,same,new]))
  have front : Keyed.store Job.id (j::s.jobs) j' = j' :: Keyed.store Job.id s.jobs j' := by
    simp [Keyed.store,same]
  simp only [State.put,front,untouched]

private theorem insertAndSpawn_scanned (fresh : Fresh s) {j : Job} (loadable : Loadable dir entry j.label)
    (loaded : jobmgrLoadPlistFile s.nextJob (joined dir entry.name) entry.file = some j) :
    (∃ rc, rc ≠ 0 ∧ insertAndSpawn s j entry.spawn = (rc,0,s) ∧ Taken s j.label) ∨
      ∃ j' rc s', insertAndSpawn s j entry.spawn = (0,rc,s') ∧ Scanned dir s entry (some j') s' := by
  obtain ⟨new_,idle⟩ := jobmgrLoadPlistFile_idle loaded
  have starts := startsAtLoad_iff loaded
  rcases jobmgrInsert_cases s j with ⟨taken,refused⟩ | ⟨new,inserted⟩
  · exact .inl ⟨-1,by decide,by simp [insertAndSpawn,refused],taken⟩
  have new : ¬ Taken s j.label := by
    rintro ⟨x,inside,same⟩
    exact new x inside same
  refine .inr ?_
  by_cases now : j.runAtLoad = true ∧ j.disabled = false
  · rcases jobSpawn_cases s.kernel j .runAtLoad entry.spawn with ⟨moot,_⟩ | ⟨_,_,⟨denied,same⟩ | ⟨pid,granted,same⟩⟩
    · exact absurd moot (by simp [now.2,idle.state])
    · refine ⟨j,-1,_,?_,.idle entry.spawn.elapsed loadable new loaded fun _ => denied⟩
      simp only [insertAndSpawn,inserted,now,same]
      simp [put_front fresh new_ rfl]
    · refine ⟨_,0,_,?_,.running loadable new loaded (starts.mpr now) granted⟩
      have sameId : (j.spawned pid (s.kernel.clock+entry.spawn.elapsed)).id = j.id := rfl
      simp only [insertAndSpawn,inserted,now,same]
      simp [put_front fresh new_ sameId]
  · have later : (j.runAtLoad && !j.disabled) = false := by simpa using now
    refine ⟨j,0,_,?_,.idle 0 loadable new loaded fun starts_ => absurd (starts.mp starts_) now⟩
    simp [insertAndSpawn,inserted,later,Kernel.tick]

private theorem scanEntry_scanned (fresh : Fresh s) (dir : CString) (n : Nat) (entry : DirEntry) :
    ∃ found s', scanEntry dir (n,s) entry = (n + found.toList.length,s') ∧ Scanned dir s entry found s' := by
  unfold scanEntry
  cases path_ : scanPath dir entry.name with
  | none =>
    refine ⟨none,s,rfl,.skipped fun label loadable => ?_⟩
    rw [scanPath_iff.mpr ⟨loadable.name,loadable.fits,rfl⟩] at path_
    cases path_
  | some path =>
    obtain ⟨name,fits,rfl⟩ := scanPath_iff.mp path_
    cases loaded : jobmgrLoadPlistFile s.nextJob (joined dir entry.name) entry.file with
    | none =>
      refine ⟨none,s,by simp [loaded],.skipped fun label loadable => ?_⟩
      obtain ⟨j,loaded',_⟩ := (jobmgrLoadPlistFile_iff s.nextJob (joined dir entry.name) entry.file label).mpr loadable.content
      rw [loaded] at loaded'
      cases loaded'
    | some j =>
      have content := (jobmgrLoadPlistFile_iff s.nextJob (joined dir entry.name) entry.file j.label).mp ⟨j,loaded,rfl⟩
      rcases insertAndSpawn_scanned fresh ⟨name,fits,content⟩ loaded with ⟨rc,failed,went,taken⟩ | ⟨j',rc,s',went,scanned⟩
      · refine ⟨none,s,?_,.skipped fun label loadable => ?_⟩
        · simp only [loaded,went]
          rfl
        · obtain ⟨j',loaded',rfl⟩ := (jobmgrLoadPlistFile_iff s.nextJob (joined dir entry.name) entry.file label).mpr
            loadable.content
          rw [loaded] at loaded'
          obtain rfl := Option.some.inj loaded'
          exact taken
      · exact ⟨some j',s',by simp [loaded,went],scanned⟩

/-! ## The whole scan -/

/-- What each entry added to the table, in the order of the scan. -/
def scanTrace (dir : CString) : Nat × State → List DirEntry → List (Option Job)
  | _, [] => []
  | acc, entry::rest =>
    let next := scanEntry dir acc entry
    (if next.1 = acc.1 then none else next.2.jobs.head?) :: scanTrace dir next rest

inductive ScanRun (dir : CString) : State → List DirEntry → List (Option Job) → State → Prop
  | done (s : State) : ScanRun dir s [] [] s
  | entry {s s' s'' : State} {entry : DirEntry} {rest : List DirEntry} {found : Option Job} {later : List (Option Job)}
      (scanned : Scanned dir s entry found s') (further : ScanRun dir s' rest later s'') :
      ScanRun dir s (entry::rest) (found::later) s''

theorem Scanned.head {found : Option Job} (scanned : Scanned dir s entry found s') :
    s'.jobs = found.toList ++ s.jobs := by
  cases scanned <;> rfl

theorem Scanned.fresh {found : Option Job} (scanned : Scanned dir s entry found s') (fresh : Fresh s) : Fresh s' := by
  cases scanned with
  | skipped _ => exact fresh
  | idle seconds _ _ loaded _ =>
    obtain ⟨new,_⟩ := jobmgrLoadPlistFile_idle loaded
    refine ⟨fun x member => ?_,fun c member => Nat.lt_succ_of_lt (fresh.children c member)⟩
    rcases List.mem_cons.mp member with rfl | inside
    · exact new ▸ Nat.lt_succ_self _
    · exact Nat.lt_succ_of_lt (fresh.jobs x inside)
  | @running j pid _ _ loaded _ _ =>
    obtain ⟨new,_⟩ := jobmgrLoadPlistFile_idle loaded
    refine ⟨fun x member => ?_,fun c member => ?_⟩
    · rcases List.mem_cons.mp member with rfl | inside
      · exact new ▸ Nat.lt_succ_self _
      · exact Nat.lt_succ_of_lt (fresh.jobs x inside)
    · rcases List.mem_cons.mp member with rfl | inside
      · exact new ▸ Nat.lt_succ_self _
      · exact Nat.lt_succ_of_lt (fresh.children c inside)

private theorem scan_run (fresh : Fresh s) (dir : CString) (entries : List DirEntry) (n : Nat) :
    ∃ s', ScanRun dir s entries (scanTrace dir (n,s) entries) s' ∧
      entries.foldl (scanEntry dir) (n,s) = (n + (scanTrace dir (n,s) entries).reduceOption.length,s') := by
  induction entries generalizing n s with
  | nil => exact ⟨s,.done s,rfl⟩
  | cons entry rest ih =>
    obtain ⟨found,s₁,went,scanned⟩ := scanEntry_scanned fresh dir n entry
    obtain ⟨s',run,folded⟩ := ih (scanned.fresh fresh) (n + found.toList.length)
    have first : (if n + found.toList.length = n then none else s₁.jobs.head?) = found := by
      cases found with
      | none => simp
      | some j => simp [scanned.head]
    have trace : scanTrace dir (n,s) (entry::rest) = found :: scanTrace dir (n + found.toList.length,s₁) rest := by
      rw [scanTrace,went]
      simp only [first]
    refine ⟨s',trace ▸ .entry scanned run,?_⟩
    rw [List.foldl_cons,went,folded,trace]
    cases found with
    | none => simp [List.reduceOption_cons_of_none]
    | some j => simp [List.reduceOption_cons_of_some,Nat.add_assoc,Nat.add_comm 1]

variable {found : List (Option Job)}

theorem ScanRun.jobs (run : ScanRun dir s entries found s') : s'.jobs = found.reduceOption.reverse ++ s.jobs := by
  induction run with
  | done s => rfl
  | @entry _ _ _ _ _ found later scanned _ ih =>
    rw [ih,scanned.head]
    cases found with
    | none => simp [List.reduceOption_cons_of_none]
    | some j => simp [List.reduceOption_cons_of_some]

/-- A child of a Job that has an address stays, and no new one appears for it. -/
theorem Scanned.children {found : Option Job} (scanned : Scanned dir s entry found s') {id : JobId}
    (allocated : id < s.nextJob) : s.nextJob ≤ s'.nextJob ∧
      ∀ c, c.job = id → (c ∈ s'.kernel.children ↔ c ∈ s.kernel.children) := by
  cases scanned with
  | skipped _ => exact ⟨Nat.le_refl _,fun _ _ => Iff.rfl⟩
  | idle _ _ _ _ _ => exact ⟨Nat.le_succ _,fun _ _ => Iff.rfl⟩
  | running _ _ loaded _ _ =>
    obtain ⟨new,_⟩ := jobmgrLoadPlistFile_idle loaded
    refine ⟨Nat.le_succ _,fun c mine => ⟨fun member => ?_,List.mem_cons_of_mem _⟩⟩
    rcases List.mem_cons.mp member with rfl | inside
    · exact absurd (new.symm.trans mine) (Nat.ne_of_gt allocated)
    · exact inside

theorem ScanRun.children (run : ScanRun dir s entries found s') {id : JobId} (allocated : id < s.nextJob) :
    ∀ c, c.job = id → (c ∈ s'.kernel.children ↔ c ∈ s.kernel.children) := by
  induction run with
  | done s => exact fun _ _ => Iff.rfl
  | entry scanned _ ih =>
    obtain ⟨later,same⟩ := scanned.children allocated
    exact fun c mine => (ih (Nat.lt_of_lt_of_le allocated later) c mine).trans (same c mine)

/-! ## What becomes of an entry -/

theorem Loadable.unique {label' : CString} (loadable : Loadable dir entry label) (loadable' : Loadable dir entry label') :
    label = label' := by
  obtain ⟨d,file_,⟨utf8,got,rfl⟩,_⟩ := loadable.content
  obtain ⟨d',file_',⟨utf8',got',rfl⟩,_⟩ := loadable'.content
  obtain rfl := Plist.dict.inj (FileContent.object.inj (file_.symm.trans file_'))
  obtain rfl := Option.some.inj (Plist.string.inj (Option.some.inj (got.symm.trans got')))
  rfl

/-- The entry is loaded behind those in front of it. -/
structure Loads (s : State) (dir : CString) (before : List DirEntry) (entry : DirEntry) (label : CString) : Prop where
  loadable : Loadable dir entry label
  new : ¬ Taken s label
  first : ∀ earlier ∈ before, ¬ Loadable dir earlier label

/-- `posix_spawn` succeeds: it returns a pid, which no unreaped child has. -/
def PidGranted (taken : List Pid) (io : SpawnIO) (pid : Pid) : Prop := io.newpid = some pid ∧ pid ≠ 0 ∧ pid ∉ taken

private theorem grant_iff {k : Kernel} {io : SpawnIO} {pid : Pid} :
    k.grant io = some pid ↔ PidGranted (k.children.map Child.pid) io pid := by
  simp [Kernel.grant,PidGranted,Option.filter_eq_some_iff]

theorem PidGranted.congr {taken taken' : List Pid} (same : ∀ pid, pid ≠ 0 → (pid ∈ taken ↔ pid ∈ taken')) {io : SpawnIO}
    {pid : Pid} : PidGranted taken io pid ↔ PidGranted taken' io pid := by
  constructor
  · rintro ⟨got,positive,free⟩
    exact ⟨got,positive,fun member => free ((same pid positive).mpr member)⟩
  · rintro ⟨got,positive,free⟩
    exact ⟨got,positive,fun member => free ((same pid positive).mp member)⟩

/-- What the scan made of an entry, given the entries in front of it, the pids in use
when its turn came and the kernel at the end. -/
structure FoundAt (s : State) (dir : CString) (before : List DirEntry) (taken : List Pid) (entry : DirEntry) (k : Kernel)
    (found : Option Job) : Prop where
  loaded : found.isSome ↔ ∃ label, Loads s dir before entry label
  job : ∀ j, found = some j → ∃ j₀, jobmgrLoadPlistFile j.id (joined dir entry.name) entry.file = some j₀ ∧
    (j = j₀ ∨ ∃ pid now, j = j₀.spawned pid now ∧ ⟨pid,j.id,j.label⟩ ∈ k.children)
  live : ∀ j, found = some j →
    ((∃ c ∈ k.children, c.job = j.id) ↔ StartsAtLoad entry.file ∧ ∃ pid, PidGranted taken entry.spawn pid)

theorem Scanned.taken {found : Option Job} (scanned : Scanned dir s entry found s') (label : CString) :
    Taken s' label ↔ Taken s label ∨ Loadable dir entry label := by
  cases scanned with
  | skipped refused =>
    exact ⟨.inl,fun either => either.elim id (refused label)⟩
  | idle _ loadable _ _ _ | running loadable _ _ _ _ =>
    constructor
    · rintro ⟨x,member,rfl⟩
      rcases List.mem_cons.mp member with rfl | inside
      · exact .inr loadable
      · exact .inl ⟨x,inside,rfl⟩
    · rintro (⟨x,inside,same⟩ | loadable')
      · exact ⟨x,List.mem_cons_of_mem _ inside,same⟩
      · exact ⟨_,List.mem_cons_self,loadable.unique loadable'⟩

theorem Scanned.pids {found : Option Job} (scanned : Scanned dir s entry found s') {pid : Pid} (positive : pid ≠ 0) :
    pid ∈ s'.kernel.children.map Child.pid ↔
      pid ∈ s.kernel.children.map Child.pid ∨ pid ∈ found.toList.map Job.p := by
  cases scanned with
  | skipped _ => simp
  | idle _ _ _ loaded _ =>
    obtain ⟨_,idle⟩ := jobmgrLoadPlistFile_idle loaded
    simp [idle.p,positive,Kernel.tick]
  | running _ _ _ _ _ =>
    simp only [Kernel.spawned,Job.spawned,List.map_cons,List.mem_cons,Option.toList_some,List.map_nil,List.not_mem_nil,
      or_false]
    exact or_comm

theorem Scanned.loads {found : Option Job} (scanned : Scanned dir s entry found s') {before : List DirEntry}
    {later : DirEntry} : Loads s' dir before later label ↔ Loads s dir (entry::before) later label := by
  have taken := scanned.taken label
  constructor
  · rintro ⟨loadable,new,first⟩
    obtain ⟨new,other⟩ := not_or.mp (taken.not.mp new)
    exact ⟨loadable,new,List.forall_mem_cons.mpr ⟨other,first⟩⟩
  · rintro ⟨loadable,new,first⟩
    obtain ⟨other,first⟩ := List.forall_mem_cons.mp first
    exact ⟨loadable,taken.not.mpr (not_or.mpr ⟨new,other⟩),first⟩

theorem Scanned.foundAt {found : Option Job} (scanned : Scanned dir s entry found s') (fresh : Fresh s) :
    FoundAt s dir [] (s.kernel.children.map Child.pid) entry s'.kernel found := by
  have addressed : ∀ c ∈ s.kernel.children, c.job ≠ s.nextJob := fun c member => Nat.ne_of_lt (fresh.children c member)
  cases scanned with
  | skipped refused =>
    refine ⟨⟨fun absurdity => (nomatch absurdity),fun ⟨label,loads⟩ => ?_⟩,nofun,nofun⟩
    exact absurd (refused label loads.loadable) loads.new
  | @idle j seconds loadable new loaded still =>
    obtain ⟨new_,_⟩ := jobmgrLoadPlistFile_idle loaded
    refine ⟨⟨fun _ => ⟨_,loadable,new,by simp⟩,fun _ => rfl⟩,?_,?_⟩
    · rintro _ ⟨⟩
      exact ⟨j,new_ ▸ loaded,.inl rfl⟩
    · rintro _ ⟨⟩
      constructor
      · rintro ⟨c,member,mine⟩
        exact absurd (mine.trans new_) (addressed c member)
      · rintro ⟨starts,pid,granted⟩
        rw [grant_iff.mpr granted] at still
        cases still starts
  | @running j pid loadable new loaded starts granted =>
    obtain ⟨new_,_⟩ := jobmgrLoadPlistFile_idle loaded
    refine ⟨⟨fun _ => ⟨_,loadable,new,by simp⟩,fun _ => rfl⟩,?_,?_⟩
    · rintro _ ⟨⟩
      exact ⟨j,new_ ▸ loaded,.inr ⟨pid,_,rfl,List.mem_cons_self⟩⟩
    · rintro _ ⟨⟩
      exact ⟨fun _ => ⟨starts,pid,grant_iff.mp granted⟩,fun _ => ⟨_,List.mem_cons_self,rfl⟩⟩

theorem FoundAt.later {before : List DirEntry} {taken : List Pid} {k k' : Kernel} {found : Option Job}
    (at_ : FoundAt s dir before taken entry k found)
    (same : ∀ j, found = some j → ∀ c, c.job = j.id → (c ∈ k'.children ↔ c ∈ k.children)) :
    FoundAt s dir before taken entry k' found where
  loaded := at_.loaded
  job := by
    intro j found_
    obtain ⟨j₀,loaded,plain | ⟨pid,now,started,member⟩⟩ := at_.job j found_
    · exact ⟨j₀,loaded,.inl plain⟩
    · exact ⟨j₀,loaded,.inr ⟨pid,now,started,(same j found_ _ rfl).mpr member⟩⟩
  live := by
    intro j found_
    rw [← at_.live j found_]
    exact exists_congr fun c => and_congr_left fun mine => same j found_ c mine

/-- Every entry is dealt with by what stands in front of it alone. -/
theorem ScanRun.foundAt (run : ScanRun dir s entries found s') (fresh : Fresh s) (i : Nat) (entry : DirEntry)
    (there : entries[i]? = some entry) : ∃ fate, found[i]? = some fate ∧
      FoundAt s dir (entries.take i) (s.kernel.children.map Child.pid ++ (found.take i).reduceOption.map Job.p) entry
        s'.kernel fate := by
  induction run generalizing i with
  | done s => cases there
  | @entry s s₁ s' first rest found later scanned further ih =>
    have fresh' := scanned.fresh fresh
    cases i with
    | zero =>
      obtain rfl := Option.some.inj there
      refine ⟨found,rfl,?_⟩
      have here : FoundAt s dir [] (s.kernel.children.map Child.pid) first s'.kernel found :=
        (scanned.foundAt fresh).later fun j found_ => by
          refine further.children (fresh'.jobs j ?_)
          rw [scanned.head,found_]
          exact List.mem_cons_self
      simpa [List.reduceOption_nil] using here
    | succ i =>
      obtain ⟨fate,at_,loaded,job,live⟩ := ih fresh' i there
      refine ⟨fate,at_,loaded.trans (exists_congr fun _ => scanned.loads),job,fun j fate_ => ?_⟩
      rw [live j fate_]
      refine and_congr_right fun _ => exists_congr fun pid => PidGranted.congr fun pid positive => ?_
      rw [List.mem_append,List.mem_append,scanned.pids positive,or_assoc]
      cases found with
      | none => simp [List.reduceOption_cons_of_none]
      | some j => simp [List.reduceOption_cons_of_some]

/-! ## Entries beside those of interest -/

def kept {β : Type} (tagged : List (β × Bool)) : List β := (tagged.filter Prod.snd).map Prod.fst

/-- The Job but for its address and the time it was started. -/
def Job.unplaced (j : Job) : Job := {j with id := 0,lastSpawnAt := 0}

/-- An entry that takes nothing from those behind it: the scan cannot load it, or its
label is in use already, or it does not start and no later one has its label. -/
def Harmless (s : State) (dir : CString) (before : List DirEntry) (entry : DirEntry) (later : List DirEntry) : Prop :=
  ∀ label, Loadable dir entry label →
    Taken s label ∨ (∃ earlier ∈ before, Loadable dir earlier label) ∨
      (entry.spawn.newpid = none ∨ ¬ StartsAtLoad entry.file) ∧ ∀ other ∈ later, ¬ Loadable dir other label

/-- Two states in which the entries to come fare alike. -/
structure Agree (dir : CString) (later : List DirEntry) (s t : State) : Prop where
  pids : s.kernel.children.map Child.pid = t.kernel.children.map Child.pid
  labels : ∀ entry ∈ later, ∀ label, Loadable dir entry label → (Taken s label ↔ Taken t label)

private theorem jobmgrLoadPlistFile_unplaced {id id' : JobId} {file : FileContent} {j j' : Job}
    (loaded : jobmgrLoadPlistFile id path file = some j) (loaded' : jobmgrLoadPlistFile id' path file = some j') :
    j' = {j with id := id'} := by
  unfold jobmgrLoadPlistFile at loaded loaded'
  split at loaded
  · split at loaded
    · cases loaded
    · rename_i label label_
      simp only [label_] at loaded loaded'
      split at loaded
      · cases loaded
      · rename_i present
        rw [if_neg present] at loaded'
        cases loaded
        cases loaded'
        rfl
  · cases loaded

theorem Agree.grant {later : List DirEntry} {t : State} (agree : Agree dir later s t) (io : SpawnIO) :
    s.kernel.grant io = t.kernel.grant io := by rw [Kernel.grant,Kernel.grant,agree.pids]

variable {t t' : State} {later before : List DirEntry} {fate fate' : Option Job}

theorem Scanned.labels (scanned : Scanned dir s entry fate s') (scanned' : Scanned dir t entry fate' t')
    (agree : Agree dir (entry::later) s t) : ∀ other ∈ later, ∀ label, Loadable dir other label →
      (Taken s' label ↔ Taken t' label) := by
  intro other member label loadable
  rw [scanned.taken,scanned'.taken]
  exact or_congr_left (agree.labels other (List.mem_cons_of_mem _ member) label loadable)

theorem Scanned.agree (scanned : Scanned dir s entry fate s') (scanned' : Scanned dir t entry fate' t')
    (agree : Agree dir (entry::later) s t) :
    fate.map Job.unplaced = fate'.map Job.unplaced ∧ Agree dir later s' t' := by
  have labels := scanned.labels scanned' agree
  have here := agree.labels entry List.mem_cons_self
  have grant := agree.grant entry.spawn
  have pids := agree.pids
  cases scanned with
  | skipped refused =>
    cases scanned' with
    | skipped _ => exact ⟨rfl,pids,labels⟩
    | idle _ loadable new _ _ | running loadable new _ _ _ =>
      exact absurd ((here _ loadable).mp (refused _ loadable)) new
  | idle _ loadable new loaded still =>
    cases scanned' with
    | skipped refused => exact absurd ((here _ loadable).mpr (refused _ loadable)) new
    | idle _ _ _ loaded' _ =>
      obtain rfl := jobmgrLoadPlistFile_unplaced loaded loaded'
      exact ⟨rfl,pids,labels⟩
    | running _ _ _ starts granted =>
      rw [← grant,still starts] at granted
      cases granted
  | running loadable new loaded starts granted =>
    cases scanned' with
    | skipped refused => exact absurd ((here _ loadable).mpr (refused _ loadable)) new
    | idle _ _ _ _ still =>
      rw [grant,still starts] at granted
      cases granted
    | running _ _ loaded' _ granted' =>
      obtain rfl := jobmgrLoadPlistFile_unplaced loaded loaded'
      obtain rfl := Option.some.inj (granted.symm.trans (grant.trans granted'))
      exact ⟨rfl,by simp [Kernel.spawned,pids],labels⟩

/-- A harmless entry changes nothing for those behind it. -/
theorem Scanned.harmless (scanned : Scanned dir t entry fate t') (harmless : Harmless t dir [] entry later)
    (agree : Agree dir later s t) : Agree dir later s t' := by
  have labels : ∀ other ∈ later, ∀ label, Loadable dir other label → (Taken s label ↔ Taken t' label) := by
    intro other member label loadable
    rw [agree.labels other member label loadable,scanned.taken]
    refine ⟨.inl,fun either => either.elim id fun mine => ?_⟩
    rcases harmless label mine with taken | ⟨_,none_,_⟩ | ⟨_,alone⟩
    · exact taken
    · cases none_
    · exact absurd loadable (alone other member)
  cases scanned with
  | skipped _ => exact agree
  | idle _ _ _ _ _ => exact ⟨agree.pids,labels⟩
  | @running j pid loadable new _ starts granted =>
    rcases harmless _ loadable with taken | ⟨_,none_,_⟩ | ⟨failed | idle,_⟩
    · exact absurd taken new
    · cases none_
    · rw [(grant_iff.mp granted).1] at failed
      cases failed
    · exact absurd starts idle

theorem Scanned.harmless_iff (scanned : Scanned dir s entry fate s') {other : DirEntry} :
    Harmless s' dir before other later ↔ Harmless s dir (entry::before) other later := by
  refine forall_congr' fun label => imp_congr_right fun _ => ?_
  rw [scanned.taken,List.exists_mem_cons_iff,or_assoc,or_assoc]

/-- Whatever harmless entries stand among them, the others fare as without them. -/
theorem ScanRun.isolated {tagged : List (DirEntry × Bool)} {found found' : List (Option Job)}
    (run : ScanRun dir s (kept tagged) found s') (run' : ScanRun dir t (tagged.map Prod.fst) found' t')
    (agree : Agree dir (kept tagged) s t)
    (harmless : ∀ before added after, tagged = before ++ (added,false)::after →
      Harmless t dir (before.map Prod.fst) added (kept after)) :
    (kept (found'.zip (tagged.map Prod.snd))).map (Option.map Job.unplaced) = found.map (Option.map Job.unplaced) := by
  induction tagged generalizing s t found found' with
  | nil =>
    cases run
    cases run'
    rfl
  | cons first rest ih =>
    obtain ⟨entry,own⟩ := first
    cases run' with
    | @entry _ t₁ _ _ _ fate' later' scanned' further' =>
      have after : ∀ before added after, rest = before ++ (added,false)::after →
          Harmless t₁ dir (before.map Prod.fst) added (kept after) := by
        rintro before added after rfl
        exact scanned'.harmless_iff.mpr (harmless ((entry,own)::before) added after rfl)
      cases own with
      | false =>
        have agree' := scanned'.harmless (harmless [] entry rest rfl) agree
        exact ih run further' agree' after
      | true =>
        cases run with
        | entry scanned further =>
          obtain ⟨same,agree'⟩ := scanned.agree scanned' agree
          have tail := ih further further' agree' after
          simp only [kept] at tail
          simp [kept,same,tail]

theorem ScanRun.length (run : ScanRun dir s entries found s') : found.length = entries.length := by
  induction run with
  | done s => rfl
  | entry _ _ ih => rw [List.length_cons,ih,List.length_cons]

structure DirScan (s : State) (dir : CString) (entries : List DirEntry) : Prop where
  one : (scanTrace dir (0,s) entries).length = entries.length
  table : (jobmgrLoadPlistDir s dir entries).2.jobs = (scanTrace dir (0,s) entries).reduceOption.reverse ++ s.jobs
  count : (jobmgrLoadPlistDir s dir entries).1 = (scanTrace dir (0,s) entries).reduceOption.length
  each : ∀ i entry, entries[i]? = some entry → ∃ fate, (scanTrace dir (0,s) entries)[i]? = some fate ∧
    FoundAt s dir (entries.take i)
      (s.kernel.children.map Child.pid ++ ((scanTrace dir (0,s) entries).take i).reduceOption.map Job.p) entry
      (jobmgrLoadPlistDir s dir entries).2.kernel fate
  isolated : ∀ tagged, tagged.map Prod.fst = entries →
    (∀ before added after, tagged = before ++ (added,false)::after →
      Harmless s dir (before.map Prod.fst) added (kept after)) →
    (kept ((scanTrace dir (0,s) entries).zip (tagged.map Prod.snd))).map (Option.map Job.unplaced) =
      (scanTrace dir (0,s) (kept tagged)).map (Option.map Job.unplaced)

/-- A scan puts the Jobs of the entries it can load in front of the table, whatever
else the directory holds, and an entry is kept from its place by its label alone. -/
theorem jobmgrLoadPlistDir_scans (fresh : Fresh s) (dir : CString) (entries : List DirEntry) : DirScan s dir entries := by
  obtain ⟨s',run,folded⟩ := scan_run fresh dir entries 0
  have scanned : jobmgrLoadPlistDir s dir entries = ((scanTrace dir (0,s) entries).reduceOption.length,s') := by
    rw [jobmgrLoadPlistDir,folded,Nat.zero_add]
  refine ⟨run.length,by rw [scanned,run.jobs],by rw [scanned],?_,?_⟩
  · rw [scanned]
    exact run.foundAt fresh
  · rintro tagged rfl harmless
    obtain ⟨_,alone,_⟩ := scan_run fresh dir (kept tagged) 0
    exact alone.isolated run ⟨rfl,fun _ _ _ _ => Iff.rfl⟩ harmless

def emptyTable : State where
  jobs := []
  singleton := none
  singletonDone := false
  exitWhenDone := false
  listening := false
  shuttingDown := false
  nextJob := 0
  interval := throttleDefault
  kernel := ⟨0,[],[],0,[],[]⟩

/-- The same job under any name, with the pid of its process. -/
def jobEntry (name : String) (newpid : Option Pid) : DirEntry where
  name := CString.lit name
  file := .object (.dict [("Label",.string (some [106])),("Program",.string (some [47,106]))])
  spawn := ⟨0,newpid⟩

private theorem emptyTable_fresh : Fresh emptyTable := ⟨by simp [emptyTable],by simp [emptyTable]⟩

theorem jobmgrLoadPlistDir_scans_twice :
    DirScan emptyTable (CString.lit "/d") [jobEntry "a.plist" none,jobEntry "b.plist" (some 7)] :=
  jobmgrLoadPlistDir_scans emptyTable_fresh _ _

/-- A plist whose process cannot be created keeps its label, and with it another plist
out of the table. -/
theorem failing_entry_not_isolated :
    ¬ ∀ (s : State) (dir : CString) (tagged : List (DirEntry × Bool)), Fresh s →
      (∀ added, (added,false) ∈ tagged → (∀ label, ¬ Loadable dir added label) ∨ added.spawn.newpid = none) →
      (kept ((scanTrace dir (0,s) (tagged.map Prod.fst)).zip (tagged.map Prod.snd))).map (Option.map Job.unplaced) =
        (scanTrace dir (0,s) (kept tagged)).map (Option.map Job.unplaced) := by
  intro always
  have same := always emptyTable (CString.lit "/d") [(jobEntry "a.plist" none,false),(jobEntry "b.plist" (some 7),true)]
    emptyTable_fresh (by simp [jobEntry])
  exact absurd same (by decide)

end FreebsdLaunchd.Supervisor
