import FreebsdLaunchd.Supervisor.Table
import Mathlib.Data.List.Lemmas

/-! The reply to LIST, read back by splitting it into lines and the lines into
fields. A row that does not fit in the line buffer loses its end to bytes that
`snprintf` never wrote, and a refused allocation loses rows; with neither, the
reply is the job table. -/
namespace FreebsdLaunchd.Supervisor
open CData Ipc Runs

def decodeListing (payload : Bytes) : List (List Bytes) := (payload.splitOn 10).map (List.splitOn 9)

def exitCode (j : Job) : Int := if wifexited j.lastExitStatus then wexitstatus j.lastExitStatus else -1

def rowFields (j : Job) : List Bytes := [j.label.bytes,decimal j.p,decimal (exitCode j)]

def headerLine (jobs : List Job) : Bytes :=
  decimal 0 ++ [32] ++ decimal jobs.length ++ (CString.lit " jobs").bytes

/-- The header, one row for each Job, and nothing after the last newline. -/
def listingFields (jobs : List Job) : List (List Bytes) :=
  [headerLine jobs] :: jobs.map rowFields ++ [[[]]]

def rendering (jobs : List Job) : Bytes := headerLine jobs ++ [10] ++ jobs.flatMap listLine

def PlainLabels (jobs : List Job) : Prop := ∀ j ∈ jobs, 9 ∉ j.label.bytes ∧ 10 ∉ j.label.bytes

/-- How many bytes of the line buffer `list_append` copies: none when its
`realloc` is refused. -/
def copyCount (io : ListIO) (c : ListCtx) (j : Job) : Nat :=
  let n := (snprintf lineSize (listLine j)).2
  if c.cap < c.buf.length + n + 1 ∧ io.realloc c.reallocs = false then 0 else n

/-- Along the table, no byte behind the NUL that `snprintf` wrote is copied. -/
def CleanCopies (io : ListIO) : ListCtx → List Job → Prop
  | _, [] => True
  | c, j::rest =>
    (∀ i < copyCount io c j, i < (snprintf lineSize (listLine j)).1.length + 1) ∧
      CleanCopies io (listAppend io c j) rest

/-- The reply is sent, it reads back as the table, and it was copied from
written memory. -/
def Snapshot (s : State) (io : RequestIO) : Prop :=
  (∃ payload, (handleList s io).2 = .listing payload ∧
    ipcSend Cmd.reply.word payload = .header (sendHdr Cmd.reply.word payload).bytes ∧
    decodeListing payload = listingFields s.jobs) ∧
  CleanCopies io.list ⟨[],0,0⟩ s.jobs

/-- How often the text buffer has to grow for rows of the given lengths. -/
def growths (cap len : Nat) : List Nat → Nat
  | [] => 0
  | n::rows =>
    let need := len + n + 1
    if cap < need then growths (doubleCap need need (if cap = 0 then 1024 else cap*2)) (len+n) rows + 1
    else growths cap (len+n) rows

def rowLengths (jobs : List Job) : List Nat := jobs.map fun j => (listLine j).length

/-- Every allocation a reply for this table needs is granted. -/
def Granted (jobs : List Job) (io : ListIO) : Prop :=
  (∀ i < growths 0 0 (rowLengths jobs), io.realloc i = true) ∧ io.malloc = true

/-! ## Reading it back -/

private theorem decodeListing_injective : Function.Injective decodeListing := by
  intro p q same
  have joined (text : Bytes) : [10].intercalate ((decodeListing text).map ([9].intercalate ·)) = text := by
    rw [decodeListing,List.map_map]
    have back : ([9].intercalate ·) ∘ List.splitOn (9 : UInt8) = id := by
      funext line
      exact List.intercalate_splitOn 9
    rw [back,List.map_id]
    exact List.intercalate_splitOn 10
  rw [← joined p,same,joined]

private theorem mem_decimal {x : Int} {b : UInt8} (member : b ∈ decimal x) : b = 45 ∨ isDigit b = true := by
  have digit {n : Nat} (member : b ∈ (Nat.toDigits 10 n).map fun c => UInt8.ofNat c.toNat) :
      isDigit b = true := by
    obtain ⟨c,inside,rfl⟩ := List.mem_map.mp member
    have range := Nat.isDigit_of_mem_toDigits (by decide) (by decide) inside
    simp only [Char.isDigit,Bool.and_eq_true,decide_eq_true_eq] at range
    obtain ⟨low,high⟩ := range
    have low : 48 ≤ c.toNat := low
    have high : c.toNat ≤ 57 := high
    simp only [isDigit,Bool.and_eq_true,decide_eq_true_eq]
    constructor <;> apply UInt8.le_iff_toNat_le.mpr <;> simp <;> omega
  cases x with
  | ofNat n => exact .inr (digit member)
  | negSucc n =>
    rcases List.mem_cons.mp member with rfl | later
    · exact .inl rfl
    · exact .inr (digit later)

/-- A number holds neither a separator nor a NUL. -/
theorem decimal_plain (x : Int) {b : UInt8} (small : b ≤ 13) : b ∉ decimal x := by
  intro member
  rcases mem_decimal member with rfl | digit
  · exact absurd small (by decide)
  · simp only [isDigit,Bool.and_eq_true,decide_eq_true_eq] at digit
    exact absurd (UInt8.le_trans digit.1 small) (by decide)

private theorem headerLine_plain (jobs : List Job) {b : UInt8} (small : b ≤ 13) : b ∉ headerLine jobs := by
  have apart : b ≠ 32 := by
    rintro rfl
    exact absurd small (by decide)
  have word : ((CString.lit " jobs").bytes.all fun x => 32 ≤ x) = true := by decide
  simp only [headerLine,List.mem_append,List.mem_singleton]
  rintro (((zero | space) | count) | rest)
  · exact decimal_plain 0 small zero
  · exact apart space
  · exact decimal_plain _ small count
  · have printed := List.all_eq_true.mp word b rest
    simp only [decide_eq_true_eq] at printed
    exact absurd (UInt8.le_trans printed small) (by decide)

private theorem listLine_eq (j : Job) : listLine j = [9].intercalate (rowFields j) ++ [10] := by
  simp [listLine,rowFields,exitCode,List.intercalate,List.intersperse]

private theorem listLine_noNul (j : Job) : 0 ∉ listLine j := by
  simp only [listLine,List.mem_append,List.mem_singleton]
  have number (x : Int) : 0 ∉ decimal x := decimal_plain x (by decide)
  rintro (((((label | tab) | pid) | tab) | code) | newline)
  · exact j.label.noNul label
  · exact absurd tab (by decide)
  · exact number _ pid
  · exact absurd tab (by decide)
  · exact number _ code
  · exact absurd newline (by decide)

private theorem rowFields_plain {j : Job} (plain : 9 ∉ j.label.bytes ∧ 10 ∉ j.label.bytes) {field : Bytes}
    (member : field ∈ rowFields j) : 9 ∉ field ∧ 10 ∉ field := by
  simp only [rowFields,List.mem_cons,List.not_mem_nil,or_false] at member
  rcases member with rfl | rfl | rfl
  · exact plain
  · exact ⟨decimal_plain _ (by decide),decimal_plain _ (by decide)⟩
  · exact ⟨decimal_plain _ (by decide),decimal_plain _ (by decide)⟩

private theorem row_plain {j : Job} (plain : 9 ∉ j.label.bytes ∧ 10 ∉ j.label.bytes) :
    10 ∉ [9].intercalate (rowFields j) := by
  have field {f : Bytes} (member : f ∈ rowFields j) := (rowFields_plain plain member).2
  simp only [rowFields,List.intercalate,List.intersperse,List.flatten_cons,List.flatten_nil,
    List.mem_append,List.append_nil,List.mem_singleton]
  rintro (label | tab | pid | tab | code)
  · exact field (by simp [rowFields]) label
  · exact absurd tab (by decide)
  · exact field (by simp [rowFields]) pid
  · exact absurd tab (by decide)
  · exact field (by simp [rowFields]) code

private theorem intercalate_newlines (head : Bytes) (rows : List Bytes) :
    head ++ [10] ++ rows.flatMap (· ++ [10]) = [10].intercalate (head :: rows ++ [[]]) := by
  induction rows generalizing head with
  | nil => simp [List.intercalate,List.intersperse]
  | cons row rows ih =>
    simp only [List.cons_append] at ih
    rw [List.flatMap_cons,List.cons_append,List.cons_append,List.intercalate_cons_cons,← ih row]

private theorem rendering_eq (jobs : List Job) :
    rendering jobs =
      [10].intercalate (headerLine jobs :: jobs.map (fun j => [9].intercalate (rowFields j)) ++ [[]]) := by
  rw [← intercalate_newlines,rendering,List.flatMap_map]
  congr 1
  exact List.flatMap_congr fun j _ => listLine_eq j

private theorem decode_rendering {jobs : List Job} (plain : PlainLabels jobs) :
    decodeListing (rendering jobs) = listingFields jobs := by
  have lines : (rendering jobs).splitOn 10 =
      headerLine jobs :: jobs.map (fun j => [9].intercalate (rowFields j)) ++ [[]] := by
    rw [rendering_eq]
    apply List.splitOn_intercalate
    · intro line member
      simp only [List.cons_append,List.mem_cons,List.mem_append,List.mem_map,List.not_mem_nil,or_false] at member
      rcases member with rfl | ⟨j,inside,rfl⟩ | rfl
      · exact headerLine_plain jobs (by decide)
      · exact row_plain (plain j inside)
      · simp
    · simp
  have row : ∀ j ∈ jobs, ([9].intercalate (rowFields j)).splitOn 9 = rowFields j := by
    intro j inside
    apply List.splitOn_intercalate
    · intro field member
      exact (rowFields_plain (plain j inside) member).1
    · simp [rowFields]
  have header : (headerLine jobs).splitOn 9 = [headerLine jobs] :=
    List.splitOn_eq_singleton (headerLine_plain jobs (by decide))
  rw [decodeListing,lines,listingFields,List.map_append,List.map_cons,List.map_map,header]
  congr 1
  congr 1
  exact List.map_congr_left row

/-! ## Building the text -/

/-- What `memcpy` takes for a row of `n` bytes. -/
def copiedRow (io : ListIO) (j : Job) : Bytes :=
  (List.range (listLine j).length).map fun i => ((listLine j).take (lineSize-1) ++ [0]).getD i (io.stack i)

@[simp] theorem copiedRow_length (io : ListIO) (j : Job) : (copiedRow io j).length = (listLine j).length := by
  simp [copiedRow]

/-- A row is copied as it is exactly when it fits in the line buffer: a longer
one gets the NUL in the middle. -/
theorem copiedRow_eq_iff (io : ListIO) (j : Job) :
    copiedRow io j = listLine j ↔ (listLine j).length < lineSize := by
  constructor
  · intro same
    by_contra long
    have inside : lineSize-1 < (copiedRow io j).length := by
      rw [copiedRow_length]
      simp only [lineSize] at long ⊢
      omega
    have nul : (copiedRow io j)[lineSize-1] = 0 := by
      have cut : ((listLine j).take (lineSize-1)).length = lineSize-1 := by
        simp only [List.length_take]
        simp only [lineSize] at long ⊢
        omega
      simp only [copiedRow,List.getElem_map,List.getElem_range,List.getD_eq_getElem?_getD]
      rw [List.getElem?_append_right (by omega),cut]
      simp
    have member : (0 : UInt8) ∈ copiedRow io j := by
      rw [← nul]
      exact List.getElem_mem inside
    rw [same] at member
    exact listLine_noNul j member
  · intro short
    have whole : (listLine j).take (lineSize-1) = listLine j := by
      apply List.take_of_length_le
      omega
    apply List.ext_getElem
    · simp
    · intro i left right
      simp only [copiedRow,List.getElem_map,List.getElem_range,List.getD_eq_getElem?_getD]
      rw [whole,List.getElem?_append_left right]
      simp [right]

def Short (c : ListCtx) (j : Job) : Prop := c.cap < c.buf.length + (listLine j).length + 1

def grown (c : ListCtx) (j : Job) : Nat :=
  let need := c.buf.length + (listLine j).length + 1
  doubleCap need need (if c.cap = 0 then 1024 else c.cap*2)

/-- A row is appended where there is room or the buffer grows, and is lost to a
refused `realloc`. -/
theorem listAppend_cases (io : ListIO) (c : ListCtx) (j : Job) :
    (¬ Short c j ∧ listAppend io c j = ⟨c.buf ++ copiedRow io j,c.cap,c.reallocs⟩) ∨
    (Short c j ∧ io.realloc c.reallocs = true ∧
      listAppend io c j = ⟨c.buf ++ copiedRow io j,grown c j,c.reallocs+1⟩) ∨
    (Short c j ∧ io.realloc c.reallocs = false ∧ listAppend io c j = ⟨c.buf,c.cap,c.reallocs+1⟩) := by
  by_cases short : Short c j
  · cases granted : io.realloc c.reallocs with
    | true =>
      refine .inr (.inl ⟨short,rfl,?_⟩)
      simp only [Short] at short
      simp [listAppend,snprintf,short,granted,copiedRow,grown]
    | false =>
      refine .inr (.inr ⟨short,rfl,?_⟩)
      simp only [Short] at short
      simp [listAppend,snprintf,short,granted]
  · refine .inl ⟨short,?_⟩
    simp only [Short] at short
    simp [listAppend,snprintf,short,copiedRow]

private theorem growths_room {c : ListCtx} {j : Job} (room : ¬ Short c j) (rest : List Job) :
    growths c.cap c.buf.length (rowLengths (j::rest)) =
      growths c.cap (c.buf.length + (listLine j).length) (rowLengths rest) := if_neg room

private theorem growths_short {c : ListCtx} {j : Job} (short : Short c j) (rest : List Job) :
    growths c.cap c.buf.length (rowLengths (j::rest)) =
      growths (grown c j) (c.buf.length + (listLine j).length) (rowLengths rest) + 1 := if_pos short

private theorem listLine_pos (j : Job) : 0 < (listLine j).length := by
  rw [listLine,List.length_append,List.length_singleton]
  omega

private theorem listed_length_le (io : ListIO) (jobs : List Job) (c : ListCtx) :
    (jobs.foldl (listAppend io) c).buf.length ≤ c.buf.length + (jobs.flatMap listLine).length := by
  induction jobs generalizing c with
  | nil => simp
  | cons j rest ih =>
    have later := ih (listAppend io c j)
    have row : (listAppend io c j).buf.length ≤ c.buf.length + (listLine j).length := by
      rcases listAppend_cases io c j with ⟨_,same⟩ | ⟨_,_,same⟩ | ⟨_,_,same⟩
      · simp [same]
      · simp [same]
      · simp [same]
    simp only [List.foldl_cons,List.flatMap_cons,List.length_append]
    omega

private theorem listed_prefix (io : ListIO) (jobs : List Job) (c : ListCtx) :
    c.buf <+: (jobs.foldl (listAppend io) c).buf := by
  induction jobs generalizing c with
  | nil => exact List.prefix_rfl
  | cons j rest ih =>
    refine List.IsPrefix.trans ?_ (ih (listAppend io c j))
    rcases listAppend_cases io c j with ⟨_,same⟩ | ⟨_,_,same⟩ | ⟨_,_,same⟩
    · simp [same]
    · simp [same]
    · simp [same]

private theorem copied_of_listed {io : ListIO} {j : Job} {rest : List Job} {c next : ListCtx}
    (appended : next.buf = c.buf ++ copiedRow io j)
    (whole : (rest.foldl (listAppend io) next).buf = c.buf ++ (listLine j ++ rest.flatMap listLine)) :
    copiedRow io j = listLine j := by
  have start := listed_prefix io rest next
  rw [whole,appended,List.prefix_append_right_inj,List.prefix_iff_eq_take,copiedRow_length,List.take_left] at start
  exact start

private theorem not_listed_of_lost {io : ListIO} {j : Job} {rest : List Job} {c next : ListCtx}
    (lost : next.buf = c.buf) :
    (rest.foldl (listAppend io) next).buf ≠ c.buf ++ (listLine j ++ rest.flatMap listLine) := by
  intro whole
  have short := listed_length_le io rest next
  have some' := listLine_pos j
  rw [whole,lost] at short
  simp only [List.length_append] at short
  omega

/-- The text is the whole rendering exactly when every row fits in the line
buffer and every growth is granted. -/
theorem listed_eq_iff (io : ListIO) (jobs : List Job) (c : ListCtx) :
    (jobs.foldl (listAppend io) c).buf = c.buf ++ jobs.flatMap listLine ↔
      (∀ j ∈ jobs, (listLine j).length < lineSize) ∧
        ∀ i < growths c.cap c.buf.length (rowLengths jobs), io.realloc (c.reallocs+i) = true := by
  induction jobs generalizing c with
  | nil => simp [growths,rowLengths]
  | cons j rest ih =>
    rw [List.foldl_cons,List.flatMap_cons,List.forall_mem_cons]
    -- with the first row in place the induction hypothesis speaks of the rest
    have appended {cap reallocs : Nat} (same : listAppend io c j = ⟨c.buf ++ copiedRow io j,cap,reallocs⟩) :
        (rest.foldl (listAppend io) (listAppend io c j)).buf = c.buf ++ (listLine j ++ rest.flatMap listLine) ↔
          (listLine j).length < lineSize ∧ (∀ j ∈ rest, (listLine j).length < lineSize) ∧
            ∀ i < growths cap (c.buf.length + (listLine j).length) (rowLengths rest),
              io.realloc (reallocs+i) = true := by
      have later := ih (listAppend io c j)
      rw [same] at later ⊢
      simp only [List.length_append,copiedRow_length] at later
      rw [← later,← copiedRow_eq_iff io j]
      constructor
      · intro whole
        have row := copied_of_listed rfl whole
        refine ⟨row,?_⟩
        rw [whole,row,List.append_assoc]
      · intro ⟨row,whole⟩
        rw [whole,row,List.append_assoc]
    rcases listAppend_cases io c j with ⟨room,same⟩ | ⟨short,granted,same⟩ | ⟨short,refused,same⟩
    · rw [growths_room room,appended same,and_assoc]
    · rw [growths_short short,appended same,and_assoc]
      have shifted (n : Nat) : (∀ i < n, io.realloc (c.reallocs+1+i) = true) ↔
          ∀ i < n+1, io.realloc (c.reallocs+i) = true := by
        constructor
        · intro all i inside
          cases i with
          | zero => exact granted
          | succ i => simpa [Nat.add_assoc,Nat.add_comm 1 i] using all i (by omega)
        · intro all i inside
          simpa [Nat.add_assoc,Nat.add_comm 1 i] using all (i+1) (by omega)
      rw [shifted]
    · rw [growths_short short]
      have lost : (listAppend io c j).buf = c.buf := by rw [same]
      constructor
      · intro whole
        exact absurd whole (not_listed_of_lost lost)
      · intro ⟨_,all⟩
        have granted := all 0 (Nat.succ_pos _)
        rw [Nat.add_zero,refused] at granted
        cases granted

/-! ## The reply -/

private theorem cleanCopies_of_short {io : ListIO} {jobs : List Job}
    (short : ∀ j ∈ jobs, (listLine j).length < lineSize) (c : ListCtx) : CleanCopies io c jobs := by
  induction jobs generalizing c with
  | nil => exact trivial
  | cons j rest ih =>
    rw [List.forall_mem_cons] at short
    refine ⟨?_,ih short.2 _⟩
    intro i inside
    have count : copyCount io c j ≤ (listLine j).length := by
      unfold copyCount
      dsimp only [snprintf]
      split
      · exact Nat.zero_le _
      · exact Nat.le_refl _
    have row := short.1
    simp only [snprintf,List.length_take]
    omega

private theorem fits_of_snapshot {s : State} {io : RequestIO} (plain : PlainLabels s.jobs) (snapshot : Snapshot s io) :
    (∀ j ∈ s.jobs, (listLine j).length < lineSize) ∧ Granted s.jobs io.list := by
  obtain ⟨⟨payload,sent,_,decoded⟩,_⟩ := snapshot
  rw [← decode_rendering plain] at decoded
  have whole := decodeListing_injective decoded
  subst whole
  simp only [handleList] at sent
  split at sent
  · rename_i memory
    have body : (s.jobs.foldl (listAppend io.list) ⟨[],0,0⟩).buf = s.jobs.flatMap listLine :=
      List.append_cancel_left (Reply.listing.inj sent)
    have text := listed_eq_iff io.list s.jobs ⟨[],0,0⟩
    simp only [List.nil_append,List.length_nil,Nat.zero_add] at text
    obtain ⟨rows,grows⟩ := text.mp body
    exact ⟨rows,grows,memory⟩
  · cases sent

private theorem snapshot_of_fits {s : State} {io : RequestIO} (plain : PlainLabels s.jobs)
    (small : (rendering s.jobs).length ≤ ipcMaxPayload)
    (rows : ∀ j ∈ s.jobs, (listLine j).length < lineSize) (granted : Granted s.jobs io.list) : Snapshot s io := by
  have text := listed_eq_iff io.list s.jobs ⟨[],0,0⟩
  simp only [List.nil_append,List.length_nil,Nat.zero_add] at text
  have body := text.mpr ⟨rows,granted.1⟩
  refine ⟨⟨rendering s.jobs,?_,?_,decode_rendering plain⟩,cleanCopies_of_short rows _⟩
  · simp only [handleList,if_pos granted.2,body]
    rfl
  · rw [ipcSend,if_neg (Nat.not_lt.mpr small)]

/-- LIST answers with the job table exactly when every row fits in the line
buffer with its NUL and no allocation is refused. -/
theorem list_snapshot_iff (s : State) (io : RequestIO) (plain : PlainLabels s.jobs)
    (small : (rendering s.jobs).length ≤ ipcMaxPayload) :
    Snapshot s io ↔ (∀ j ∈ s.jobs, (listLine j).length < lineSize) ∧ Granted s.jobs io.list := by
  constructor
  · exact fits_of_snapshot plain
  · intro ⟨rows,granted⟩
    exact snapshot_of_fits plain small rows granted

open Sample

theorem list_snapshot_loaded :
    let s := run step booted [load (service "svc" true false true) (some 100),
      load (service "cron" true false false) (some 101),exited 101 1 none]
    s.jobs.length = 2 ∧ Snapshot s (world .unreadable none) :=
  ⟨by decide,(list_snapshot_iff _ _ (by unfold PlainLabels; decide) (by decide)).mpr
    ⟨by decide,fun _ _ => rfl,rfl⟩⟩

/-- A label of 600 bytes, which the property list may well have. -/
def longLabel : CString := ⟨List.replicate 600 97,fun member => absurd (List.eq_of_mem_replicate member) (by decide)⟩

private theorem longLabel_length : longLabel.bytes.length = 600 := List.length_replicate

def longJob : Job where
  id := 0
  label := longLabel
  plistPath := .lit "/etc/svc.plist"
  program := some (.lit "/bin/svc")
  argv := none
  runAtLoad := false
  disabled := false
  keepAlive := false
  state := .loaded
  p := 0
  lastExitStatus := 0
  lastSpawnAt := 0
  pendingUnload := false
  restartTimer := none

private theorem longJob_line : (listLine longJob).length = 605 := by
  have pid : (decimal 0).length = 1 := by decide
  simp [listLine,longJob,longLabel_length,wifexited,wexitstatus,pid]

theorem long_label_not_listed :
    let s := {booted with jobs := [longJob]}
    PlainLabels s.jobs ∧ (rendering s.jobs).length ≤ ipcMaxPayload ∧ ¬ Snapshot s (world .unreadable none) := by
  have plain : PlainLabels [longJob] := by
    intro j member
    rw [List.mem_singleton.mp member]
    have letter (b : UInt8) (member : b ∈ longLabel.bytes) : b = 97 := List.eq_of_mem_replicate member
    exact ⟨fun tab => absurd (letter 9 tab) (by decide),fun newline => absurd (letter 10 newline) (by decide)⟩
  refine ⟨plain,?_,?_⟩
  · have header : (headerLine [longJob]).length = 8 := by decide
    simp [rendering,header,longJob_line,ipcMaxPayload]
  · intro snapshot
    have rows := (fits_of_snapshot plain snapshot).1 longJob (List.mem_singleton_self _)
    rw [longJob_line] at rows
    exact absurd rows (by decide)

end FreebsdLaunchd.Supervisor
