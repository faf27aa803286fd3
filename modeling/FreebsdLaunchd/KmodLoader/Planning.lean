import FreebsdLaunchd.KmodLoader.Daemon
import Mathlib.Tactic.IntervalCases

/-! Which modules are planned for the display controllers of a machine. Each has a line
in the output of pciconf, whose fields are told apart by their equals signs. -/
namespace FreebsdLaunchd.KmodLoader
open FirstOccurrences Substrings

/-! ## Digits -/

private theorem toNat_toLower (c : Char) :
    c.toLower.toNat = if 65 ≤ c.toNat ∧ c.toNat ≤ 90 then c.toNat + 32 else c.toNat := by
  unfold Char.toLower
  split
  next upper =>
    have range : 65 ≤ c.toNat ∧ c.toNat ≤ 90 := by simpa [UInt32.le_iff_toNat_le] using upper
    rw [if_pos range]
    change (c.val + 32).toNat = c.val.toNat + 32
    have bound : c.val.toNat ≤ 90 := range.2
    rw [UInt32.toNat_add]
    exact Nat.mod_eq_of_lt (by simp; omega)
  next other =>
    have range : ¬ (65 ≤ c.toNat ∧ c.toNat ≤ 90) := by simpa [UInt32.le_iff_toNat_le] using other
    rw [if_neg range]

private theorem hexDigit_iff_toLower (c : Char) {v : Nat} (small : v < 16) :
    hexDigit c = some v ↔ c.toLower = Nat.digitChar v := by
  rw [← Char.toNat_inj,toNat_toLower]
  unfold hexDigit
  interval_cases v <;> simp [Nat.digitChar] <;> grind

private theorem hexDigit_iff (c : Char) {v : Nat} (small : v < 10) : hexDigit c = some v ↔ c = Nat.digitChar v := by
  rw [← Char.toNat_inj]
  unfold hexDigit
  interval_cases v <;> simp [Nat.digitChar] <;> grind

private theorem hexDigit_lt {c : Char} {v : Nat} (digit : hexDigit c = some v) : v < 16 := by
  unfold hexDigit at digit
  split_ifs at digit <;> simp at digit <;> omega

private theorem hexDigit_toLower (c : Char) : hexDigit c.toLower = hexDigit c := by
  unfold hexDigit
  rw [toNat_toLower]
  grind

private theorem readHex_toLower (value : Nat) (text : NSString) :
    readHex value (text.map Char.toLower) = readHex value text := by
  induction text generalizing value with
  | nil => rfl
  | cons c text ih =>
    simp only [List.map_cons,readHex,hexDigit_toLower]
    cases hexDigit c with
    | none => rfl
    | some digit => exact ih _

section Numbers

variable {text : NSString} {canon : Char → Char} {ds : List Nat}

/-- Of two numbers with as many digits those are equal whose digits are. -/
theorem readHex_eq_iff (hex : ∀ c ∈ text, (hexDigit c).isSome) (length : text.length = ds.length)
    (known : ∀ c, ∀ d ∈ ds, d < 16 ∧ (hexDigit c = some d ↔ canon c = Nat.digitChar d)) (v w : Nat) :
    readHex v text = ds.foldl (fun v d => v * 16 + d) w ↔ v = w ∧ text.map canon = ds.map Nat.digitChar := by
  induction text generalizing ds v w with
  | nil =>
    obtain rfl : ds = [] := by simpa using length.symm
    simp [readHex]
  | cons c text ih =>
    cases ds with
    | nil => simp at length
    | cons d ds =>
      obtain ⟨first,others⟩ := List.forall_mem_cons.mp hex
      obtain ⟨x,digit⟩ := Option.isSome_iff_exists.mp first
      obtain ⟨small,same⟩ := known c d List.mem_cons_self
      have below := hexDigit_lt digit
      rw [digit,Option.some_inj] at same
      rw [readHex,digit,List.foldl_cons,
        ih others (by simpa using length) fun c d member => known c d (List.mem_cons_of_mem _ member)]
      rw [List.map_cons,List.map_cons,List.cons_eq_cons,← same]
      constructor
      · rintro ⟨front,rest⟩
        exact ⟨by omega,by omega,rest⟩
      · rintro ⟨rfl,rfl,rest⟩
        exact ⟨rfl,rest⟩

private theorem readHex_append {text' : NSString} (hex : ∀ c ∈ text, (hexDigit c).isSome) (v : Nat) :
    readHex v (text ++ text') = readHex (readHex v text) text' := by
  induction text generalizing v with
  | nil => rfl
  | cons c text ih =>
    obtain ⟨first,others⟩ := List.forall_mem_cons.mp hex
    obtain ⟨x,digit⟩ := Option.isSome_iff_exists.mp first
    simp only [List.cons_append,readHex,digit]
    exact ih others _

/-- The digits behind a number are a remainder. -/
theorem readHex_div (hex : ∀ c ∈ text, (hexDigit c).isSome) (v : Nat) :
    v * 16^text.length ≤ readHex v text ∧ readHex v text < (v + 1) * 16^text.length := by
  induction text generalizing v with
  | nil => simp [readHex]
  | cons c text ih =>
    obtain ⟨first,others⟩ := List.forall_mem_cons.mp hex
    obtain ⟨x,digit⟩ := Option.isSome_iff_exists.mp first
    have below := hexDigit_lt digit
    obtain ⟨low,high⟩ := ih others (v * 16 + x)
    rw [readHex,digit,List.length_cons,pow_succ']
    have front : v * (16 * 16^text.length) ≤ (v * 16 + x) * 16^text.length := by
      rw [← Nat.mul_assoc]
      exact Nat.mul_le_mul_right _ (by omega)
    have back : (v * 16 + x + 1) * 16^text.length ≤ (v + 1) * (16 * 16^text.length) := by
      rw [← Nat.mul_assoc]
      exact Nat.mul_le_mul_right _ (by omega)
    exact ⟨front.trans low,high.trans_le back⟩

end Numbers

/-- As many digits, each in any case. -/
structure Hex (n : Nat) where
  digits : NSString
  length : digits.length = n
  hex : ∀ c ∈ digits, (hexDigit c).isSome

def Hex.value {n : Nat} (number : Hex n) : Nat := readHex 0 number.digits

/-! ## The lines of pciconf -/

/-- A line of `pciconf -l`; the selector is the device's name and place, with the blank behind it. -/
structure PciLine where
  selector : NSString
  classCode : Hex 6
  rev : Hex 2
  hdr : Hex 2
  vendor : Hex 4
  device : Hex 4
  subvendor : Hex 4
  subdevice : Hex 4
  plain : ∀ c ∈ selector, c ≠ '=' ∧ c ≠ '\n'

def PciLine.text (line : PciLine) : NSString :=
  line.selector ++ "class=0x".toList ++ line.classCode.digits ++ " rev=0x".toList ++ line.rev.digits ++
    " hdr=0x".toList ++ line.hdr.digits ++ " vendor=0x".toList ++ line.vendor.digits ++
    " device=0x".toList ++ line.device.digits ++ " subvendor=0x".toList ++ line.subvendor.digits ++
    " subdevice=0x".toList ++ line.subdevice.digits

def outputOf (lines : List PciLine) : NSString := lines.flatMap fun line => line.text ++ ['\n']

/-- `pciconf -l`, with the size of its pipes and what it writes to the second of them. -/
def pciconf (capacity : Nat) (lines : List PciLine) (errors : ByteArray) : NSTask :=
  .launched capacity 0 (String.ofList (outputOf lines)).toByteArray errors

def displayClasses : List Nat := [0x030000,0x030001,0x030010,0x030200]

def PciLine.isDisplay (line : PciLine) : Bool := line.classCode.value ∈ displayClasses

def PciLine.isVGA (line : PciLine) : Bool := line.classCode.value / 0x100 = 0x0300

def PciLine.kld (line : PciLine) : Option NSString :=
  if line.vendor.value = 0x8086 then some "i915kms".toList
  else if line.vendor.value = 0x1002 then
    some (if line.device.value ∈ radeonKMSDeviceIDs then "radeonkms".toList else "amdgpu".toList)
  else if line.vendor.value = 0x10de then some "nvidia-drm".toList
  else none

/-- The modules of the lines that are selected, each once, in the order in which they are called for. -/
def planned (selects : PciLine → Bool) (lines : List PciLine) : List NSString :=
  firsts id ((lines.filter selects).filterMap PciLine.kld)

/-! ## Finding the fields -/

section Fields

variable {n : Nat} (number : Hex n)

def between (key : String) : NSString := "0x".toList ++ number.digits ++ key.toList

theorem Hex.plain {c : Char} (other : hexDigit c = none) : c ∉ number.digits := by
  intro member
  have digit := number.hex c member
  rw [other] at digit
  cases digit

private theorem between_plain {key : String} (plain : '=' ∉ key.toList) : '=' ∉ between number key := by
  have digits := number.plain (c := '=') (by decide)
  simp [between,plain,digits]

private theorem suffix_between {key : NSString} {next : String} :
    key <:+ between number next ↔ key.reverse <+: next.toList.reverse ++ (number.digits.reverse ++ ['x','0']) := by
  rw [← List.reverse_prefix,between]
  simp

variable {key value rest : NSString} {next : String}

private theorem following_skip (key_ : '=' ∉ key) (next_ : '=' ∉ next.toList)
    (other : ¬ key.reverse <+: next.toList.reverse ++ (number.digits.reverse ++ ['x','0'])) :
    following (key ++ '='::value) (between number next ++ '='::rest) = following (key ++ '='::value) rest := by
  rw [following_block key_ (between_plain number next_),if_neg]
  rw [suffix_between]
  exact fun both => other both.1

private theorem following_here (key_ : '=' ∉ key) (next_ : '=' ∉ next.toList) (same : key <:+ next.toList)
    (begins : value <+: rest) :
    following (key ++ '='::value) (between number next ++ '='::rest) = some (rest.drop value.length) := by
  have here : key <:+ between number next := same.trans (List.suffix_append ..)
  rw [following_block key_ (between_plain number next_),if_pos ⟨here,begins⟩]

end Fields

namespace PciLine

variable (line : PciLine)

private theorem text_eq : line.text =
    (line.selector ++ "class".toList) ++ '='::(between line.classCode " rev" ++ '='::(between line.rev " hdr" ++
      '='::(between line.hdr " vendor" ++ '='::(between line.vendor " device" ++ '='::(between line.device " subvendor" ++
        '='::(between line.subvendor " subdevice" ++ '='::("0x".toList ++ line.subdevice.digits))))))) := by
  simp [text,between]

private theorem selector_plain : '=' ∉ line.selector ++ "class".toList := by
  have selector : '=' ∉ line.selector := fun member => (line.plain '=' member).1 rfl
  simp [selector]

/-- The class has two more digits than are looked at. -/
theorem begins_class (rest : NSString) : "0300".toList <+: line.classCode.digits ++ rest ↔ line.isVGA := by
  have hex (c : Char) (member : c ∈ line.classCode.digits.take 4) := line.classCode.hex c (List.mem_of_mem_take member)
  have hex' (c : Char) (member : c ∈ line.classCode.digits.drop 4) := line.classCode.hex c (List.mem_of_mem_drop member)
  have length : (line.classCode.digits.take 4).length = [0,3,0,0].length := by simp [line.classCode.length]
  have length' : (line.classCode.digits.drop 4).length = 2 := by simp [line.classCode.length]
  have whole : line.classCode.value = readHex (readHex 0 (line.classCode.digits.take 4)) (line.classCode.digits.drop 4) := by
    rw [← readHex_append hex,List.take_append_drop]
    rfl
  obtain ⟨low,high⟩ := readHex_div hex' (readHex 0 (line.classCode.digits.take 4))
  rw [length',← whole] at low high
  have known (c : Char) (d : Nat) (member : d ∈ [0,3,0,0]) : d < 16 ∧ (hexDigit c = some d ↔ id c = Nat.digitChar d) := by
    have small : d < 10 := by simp at member; omega
    exact ⟨by omega,hexDigit_iff c small⟩
  have front := readHex_eq_iff hex length known 0 0
  have begins : "0300".toList <+: line.classCode.digits ++ rest ↔ line.classCode.digits.take 4 = "0300".toList := by
    rw [List.prefix_iff_eq_take,List.take_append_of_le_length (by rw [line.classCode.length]; decide),eq_comm]
    rfl
  rw [List.map_id,and_iff_right rfl] at front
  rw [begins,isVGA,decide_eq_true_eq]
  refine front.symm.trans ⟨fun value => ?_,fun value => ?_⟩
  · change readHex 0 (line.classCode.digits.take 4) = 0x0300 at value
    omega
  · change readHex 0 (line.classCode.digits.take 4) = 0x0300
    omega

private theorem following_class : (following "class=0x0300".toList line.text).isSome ↔ line.isVGA := by
  have pattern : "class=0x0300".toList = "class".toList ++ '='::("0x".toList ++ "0300".toList) := by decide
  have subdevice := line.subdevice.plain (c := '=') (by decide)
  have noEquals : '=' ∈ "class".toList ++ '='::("0x".toList ++ "0300".toList) := by decide
  rw [pattern,text_eq,following_block (by decide) line.selector_plain,
    following_skip _ (by decide) (by decide) (by simp),following_skip _ (by decide) (by decide) (by simp),
    following_skip _ (by decide) (by decide) (by simp),following_skip _ (by decide) (by decide) (by simp),
    following_skip _ (by decide) (by decide) (by simp),following_skip _ (by decide) (by decide) (by simp),
    following_eq_none noEquals (by simpa using subdevice),Option.isSome_ite,
    and_iff_right (List.suffix_append ..)]
  rw [between,List.append_assoc,List.append_assoc,List.prefix_append_right_inj,begins_class]

private theorem following_vendor : following "vendor=0x".toList line.text =
    some (line.vendor.digits ++ (" device=0x".toList ++ line.device.digits ++
      " subvendor=0x".toList ++ line.subvendor.digits ++ " subdevice=0x".toList ++ line.subdevice.digits)) := by
  have pattern : "vendor=0x".toList = "vendor".toList ++ '='::"0x".toList := by decide
  rw [pattern,text_eq,following_block (by decide) line.selector_plain,if_neg,
    following_skip _ (by decide) (by decide) (by simp),following_skip _ (by decide) (by decide) (by simp),
    following_here _ (by decide) (by decide) (by decide) (by simp [between])]
  · simp [between]
  · rw [← List.reverse_prefix]
    simp

private theorem following_device : following "device=0x".toList line.text =
    some (line.device.digits ++ (" subvendor=0x".toList ++ line.subvendor.digits ++
      " subdevice=0x".toList ++ line.subdevice.digits)) := by
  have pattern : "device=0x".toList = "device".toList ++ '='::"0x".toList := by decide
  rw [pattern,text_eq,following_block (by decide) line.selector_plain,if_neg,
    following_skip _ (by decide) (by decide) (by simp),following_skip _ (by decide) (by decide) (by simp),
    following_skip _ (by decide) (by decide) (by simp),
    following_here _ (by decide) (by decide) (by decide) (by simp [between])]
  · simp [between]
  · rw [← List.reverse_prefix]
    simp

end PciLine

private theorem fourBehind_following {key text digits rest : NSString} (found : following key text = some (digits ++ rest))
    (length : digits.length = 4) : fourBehind key text = some (digits.map Char.toLower) := by
  obtain ⟨place,located,behind⟩ := Option.map_eq_some_iff.mp found
  have room : place + key.length + 4 ≤ text.length := by
    have lengths := congrArg List.length behind
    rw [List.length_drop,List.length_append,length] at lengths
    omega
  have four : (digits ++ rest).take 4 = digits := by rw [← length,List.take_left]
  rw [fourBehind,located,Option.bind_some]
  dsimp only
  rw [if_pos room,behind,four]

private theorem gpuDevice_text (line : PciLine) :
    gpuDevice line.text = if line.isVGA then
      some ⟨"0x".toList ++ line.vendor.digits.map Char.toLower,"0x".toList ++ line.device.digits.map Char.toLower⟩ else none := by
  have selected := line.following_class
  rw [following,Option.isSome_map] at selected
  rw [gpuDevice,fourBehind_following line.following_vendor line.vendor.length,
    fourBehind_following line.following_device line.device.length]
  by_cases vga : line.isVGA
  · have found := selected.mpr vga
    rw [if_pos vga,if_neg (by rw [← Option.not_isSome,found]; decide)]
  · have missed := mt selected.mp vga
    rw [if_neg vga,if_pos (by rw [← Option.not_isSome,Bool.eq_false_iff.mpr missed]; rfl)]

/-! ## The modules of the devices -/

/-- An ID is told from others by its text in lower case. -/
theorem spelled_iff (number : Hex 4) {id : NSString} {value : Nat} (ds : List Nat) (length : ds.length = 4)
    (small : ∀ d ∈ ds, d < 16) (text : id = "0x".toList ++ ds.map Nat.digitChar)
    (stands : ds.foldl (fun v d => v * 16 + d) 0 = value) :
    "0x".toList ++ number.digits.map Char.toLower = id ↔ number.value = value := by
  have known (c : Char) (d : Nat) (member : d ∈ ds) : d < 16 ∧ (hexDigit c = some d ↔ c.toLower = Nat.digitChar d) :=
    ⟨small d member,hexDigit_iff_toLower c (small d member)⟩
  have whole := readHex_eq_iff number.hex (number.length.trans length.symm) known 0 0
  rw [and_iff_right rfl,stands] at whole
  rw [text,List.append_right_inj]
  exact whole.symm

private theorem gpuKld_line (line : PciLine) :
    gpuKld ⟨"0x".toList ++ line.vendor.digits.map Char.toLower,"0x".toList ++ line.device.digits.map Char.toLower⟩ =
      line.kld := by
  have intel : _ = "0x8086".toList ↔ line.vendor.value = 0x8086 := spelled_iff line.vendor [8,0,8,6] rfl (by decide) rfl rfl
  have amd : _ = "0x1002".toList ↔ line.vendor.value = 0x1002 := spelled_iff line.vendor [1,0,0,2] rfl (by decide) rfl rfl
  have nvidia : _ = "0x10de".toList ↔ line.vendor.value = 0x10de :=
    spelled_iff line.vendor [1,0,13,14] rfl (by decide) rfl rfl
  have devID : strtoul16 ("0x".toList ++ line.device.digits.map Char.toLower) % 2^16 = line.device.value := by
    have bound := (readHex_div line.device.hex 0).2
    rw [line.device.length] at bound
    change readHex 0 (line.device.digits.map Char.toLower) % 2^16 = line.device.value
    rw [readHex_toLower]
    exact Nat.mod_eq_of_lt bound
  have isRadeon : radeonKMSDeviceIDs.any (fun id => id = line.device.value) = true ↔
      line.device.value ∈ radeonKMSDeviceIDs := by
    rw [List.any_eq_true]
    simp only [decide_eq_true_eq,exists_eq_right]
  simp only [gpuKld,PciLine.kld,intel,amd,nvidia,devID,isRadeon]

theorem PciLine.oneLine (line : PciLine) : '\n' ∉ line.text := by
  have selector : '\n' ∉ line.selector := fun member => (line.plain '\n' member).2 rfl
  have digits {n : Nat} (number : Hex n) : '\n' ∉ number.digits := number.plain (by decide)
  simp [PciLine.text,selector,digits]

/-- Every line is looked at by itself, and there is no device in what follows the last. -/
theorem gpuDevice_lines (list : List PciLine) :
    ((outputOf list).splitOn '\n').filterMap gpuDevice = list.filterMap fun line => gpuDevice line.text := by
  induction list with
  | nil => decide
  | cons line list ih =>
    rw [outputOf,List.flatMap_cons,List.append_assoc,List.singleton_append,
      List.splitOn_append_cons_self_of_not_mem line.oneLine,List.filterMap_cons,List.filterMap_cons,← ih,outputOf]

private theorem foldl_addObject {α : Type} (f : α → Option NSString) (list : List α) (set : List NSString) :
    list.foldl (fun set a => (f a).elim set (addObject set)) set = (list.filterMap f).foldl (addFirst id) set := by
  induction list generalizing set with
  | nil => rfl
  | cons a list ih =>
    rw [List.foldl_cons,List.filterMap_cons,ih]
    cases f a <;> rfl

private theorem gpuKldsForDevices_eq (devices : List Device) :
    gpuKldsForDevices devices = firsts id (devices.filterMap gpuKld) :=
  foldl_addObject gpuKld devices []

private theorem suggestedKlds_nodup (devmatch : Ended) : (suggestedKlds devmatch).Nodup := by
  cases devmatch with
  | notLaunched => exact List.nodup_nil
  | exited terminationStatus output =>
    rw [suggestedKlds]
    split
    · exact List.nodup_nil
    · rw [foldl_addObject]
      exact firsts_id_nodup _

/-! ## Programs that end -/

def NSTask.ended : NSTask → Ended
  | .notLaunched => .notLaunched
  | .launched _ terminationStatus output _ => .exited terminationStatus (decoded output)

/-- The program has no more to write than its pipes hold. -/
def NSTask.Fits : NSTask → Prop
  | .notLaunched => True
  | .launched capacity _ output errors => output.size ≤ capacity ∧ errors.size ≤ capacity

private theorem waitUntilExit_eq_some_iff {task : NSTask} {ended : Ended} :
    task.waitUntilExit = some ended ↔ task.Fits ∧ task.ended = ended := by
  cases task with
  | notLaunched => simp [NSTask.waitUntilExit,NSTask.Fits,NSTask.ended]
  | launched capacity terminationStatus output errors => simp [NSTask.waitUntilExit,NSTask.Fits,NSTask.ended]

private theorem decoded_ofList (text : NSString) : decoded (String.ofList text).toByteArray = some text := by
  rw [decoded,String.toByteArray_ofList,List.utf8Decode?_utf8Encode]
  rfl

/-- What is planned are the modules of the lines of class 0x0300xx. -/
theorem gpuKlds_planned (capacity : Nat) (list : List PciLine) (errors : ByteArray) :
    gpuKldsForDevices (devicesOf (pciconf capacity list errors).ended) = planned PciLine.isVGA list := by
  have called (line : PciLine) : (gpuDevice line.text).bind gpuKld = if line.isVGA then line.kld else none := by
    rw [gpuDevice_text]
    split
    · exact gpuKld_line line
    · rfl
  have devices : devicesOf (pciconf capacity list errors).ended = list.filterMap fun line => gpuDevice line.text := by
    rw [pciconf,NSTask.ended,decoded_ofList]
    exact gpuDevice_lines list
  rw [gpuKldsForDevices_eq,devices,List.filterMap_filterMap,planned,List.filterMap_filter]
  exact congrArg (firsts id) (List.filterMap_congr fun line _ => called line)

/-! ## What is loaded -/

/-- A name in one component loses the extension that it has been given. -/
theorem deletingPathExtension_ko {kld : NSString} (named : kld ≠ []) (inOne : '/' ∉ kld) :
    deletingPathExtension (kld ++ ".ko".toList) = kld := by
  have reversed : (kld ++ ".ko".toList).reverse = 'o' :: 'k' :: '.' :: kld.reverse := by simp
  have last : kld.getLast? ≠ some '/' := fun last => inOne (List.mem_of_getLast? last)
  rw [deletingPathExtension,reversed]
  simp [named,last]

private theorem mem_loadedOf {kld : NSString} {kldstat : Ended} (named : kld ≠ []) (inOne : '/' ∉ kld)
    (field : kld ++ ".ko".toList ∈ kldstatFields kldstat) : kld ∈ loadedOf kldstat :=
  List.mem_map.mpr ⟨_,List.mem_filter.mpr ⟨field,decide_eq_true (List.suffix_append ..)⟩,
    deletingPathExtension_ko named inOne⟩

/-- The modules for the display controllers come first, and then what else is suggested.
None is there twice, and none whose file is listed as loaded. -/
structure Attempts (gpu suggested : List NSString) (kldstat : Ended) (attempts : List NSString) : Prop where
  order : attempts = (gpu ++ suggested.filter (· ∉ gpu)).filter (· ∉ loadedOf kldstat)
  once : attempts.Nodup
  fresh : ∀ kld ∈ attempts, kld ≠ [] → '/' ∉ kld → kld ++ ".ko".toList ∉ kldstatFields kldstat

private theorem attempts_plan {gpu suggested : List NSString} (once : gpu.Nodup) (once' : suggested.Nodup)
    (kldstat : Ended) :
    Attempts gpu suggested kldstat
      ((suggested.foldl addObject (gpu.foldl addObject [])).filter (· ∉ loadedOf kldstat)) := by
  have first : gpu.foldl addObject [] = gpu := (foldl_addFirst once []).trans (by simp)
  have remaining : suggested.foldl addObject gpu = gpu ++ suggested.filter (· ∉ gpu) :=
    (foldl_addFirst once' _).trans (congrArg _ (List.filter_congr fun _ _ => decide_eq_decide.mpr .rfl))
  rw [first,remaining]
  refine ⟨rfl,?_,fun kld attempted named inOne field => ?_⟩
  · refine (List.Nodup.append once (once'.filter _) fun kld member member' => ?_).filter _
    exact of_decide_eq_true (List.mem_filter.mp member').2 member
  · exact of_decide_eq_true (List.mem_filter.mp attempted).2 (mem_loadedOf named inOne field)

/-- The run comes to its end if each of the three programs does. -/
theorem runOneShot_eq_some_iff {pciconf devmatch kldstat : NSTask} {attempts : List NSString} :
    runOneShot pciconf devmatch kldstat = some attempts ↔
      (pciconf.Fits ∧ devmatch.Fits ∧ kldstat.Fits) ∧
        ((suggestedKlds devmatch.ended).foldl addObject
          ((gpuKldsForDevices (devicesOf pciconf.ended)).foldl addObject [])).filter (· ∉ loadedOf kldstat.ended) =
            attempts := by
  simp only [runOneShot,gpuDevices,kldsFromDevmatch,loadedKlds,Option.bind_eq_bind,Option.pure_def,
    Option.bind_eq_some_iff,Option.map_eq_some_iff,waitUntilExit_eq_some_iff,Option.some_inj]
  constructor
  · rintro ⟨_,⟨_,⟨fits,rfl⟩,rfl⟩,_,⟨_,⟨fits',rfl⟩,rfl⟩,_,⟨_,⟨fits'',rfl⟩,rfl⟩,planned⟩
    exact ⟨⟨fits,fits',fits''⟩,planned⟩
  · rintro ⟨⟨fits,fits',fits''⟩,planned⟩
    exact ⟨_,⟨_,⟨fits,rfl⟩,rfl⟩,_,⟨_,⟨fits',rfl⟩,rfl⟩,_,⟨_,⟨fits'',rfl⟩,rfl⟩,planned⟩

/-- The modules of the display controllers are planned, and the run attempts them and
what else is suggested. -/
structure Plans (list : List PciLine) (pciconf devmatch kldstat : NSTask) : Prop where
  gpu : (gpuDevices pciconf).map gpuKldsForDevices = some (planned PciLine.isDisplay list)
  attempts : ∃ attempts, runOneShot pciconf devmatch kldstat = some attempts ∧
    Attempts (planned PciLine.isDisplay list) (suggestedKlds devmatch.ended) kldstat.ended attempts

/-- Of two modules, the one that the selected lines call for first. -/
def firstCalled (selects : PciLine → Bool) (list : List PciLine) (kld kld' : NSString) : Option NSString :=
  ((list.filter selects).filterMap PciLine.kld).find? fun called => called = kld ∨ called = kld'

theorem planning_iff (capacity : Nat) (list : List PciLine) (errors : ByteArray) (devmatch kldstat : NSTask) :
    Plans list (pciconf capacity list errors) devmatch kldstat ↔
      ((pciconf capacity list errors).Fits ∧ devmatch.Fits ∧ kldstat.Fits) ∧
        ∀ kld kld', firstCalled PciLine.isVGA list kld kld' = firstCalled PciLine.isDisplay list kld kld' := by
  have once : (planned PciLine.isDisplay list).Nodup := firsts_id_nodup _
  have called : planned PciLine.isVGA list = planned PciLine.isDisplay list ↔
      ∀ kld kld', firstCalled PciLine.isVGA list kld kld' = firstCalled PciLine.isDisplay list kld kld' := firsts_eq_iff _ _
  rw [← called,← gpuKlds_planned capacity list errors]
  constructor
  · rintro ⟨gpu,attempts,ran,-⟩
    refine ⟨(runOneShot_eq_some_iff.mp ran).1,?_⟩
    obtain ⟨devices,found,klds⟩ := Option.map_eq_some_iff.mp gpu
    obtain ⟨ended,waited,rfl⟩ := Option.map_eq_some_iff.mp found
    rw [← (waitUntilExit_eq_some_iff.mp waited).2] at klds
    exact klds
  · rintro ⟨fits,klds⟩
    have waited : (pciconf capacity list errors).waitUntilExit = some _ := waitUntilExit_eq_some_iff.mpr ⟨fits.1,rfl⟩
    refine ⟨?_,_,runOneShot_eq_some_iff.mpr ⟨fits,rfl⟩,?_⟩
    · rw [gpuDevices,waited]
      exact congrArg some klds
    · rw [klds]
      exact attempts_plan once (suggestedKlds_nodup _) _

def controller3D : PciLine where
  selector := "none0@pci0:1:0:0:\t".toList
  classCode := ⟨"030200".toList,rfl,List.all_eq_true.mp (by decide)⟩
  rev := ⟨"a1".toList,rfl,List.all_eq_true.mp (by decide)⟩
  hdr := ⟨"00".toList,rfl,List.all_eq_true.mp (by decide)⟩
  vendor := ⟨"10de".toList,rfl,List.all_eq_true.mp (by decide)⟩
  device := ⟨"1c8d".toList,rfl,List.all_eq_true.mp (by decide)⟩
  subvendor := ⟨"1028".toList,rfl,List.all_eq_true.mp (by decide)⟩
  subdevice := ⟨"07be".toList,rfl,List.all_eq_true.mp (by decide)⟩
  plain := by simp

theorem controller3D_missed :
    ¬ Plans [controller3D] (pciconf 65536 [controller3D] .empty) .notLaunched .notLaunched := by
  rintro ⟨gpu,-⟩
  obtain ⟨devices,found,klds⟩ := Option.map_eq_some_iff.mp gpu
  obtain ⟨ended,waited,rfl⟩ := Option.map_eq_some_iff.mp found
  rw [← (waitUntilExit_eq_some_iff.mp waited).2,gpuKlds_planned] at klds
  have called : planned PciLine.isVGA [controller3D] ≠ planned PciLine.isDisplay [controller3D] := by decide
  exact called klds

end FreebsdLaunchd.KmodLoader
