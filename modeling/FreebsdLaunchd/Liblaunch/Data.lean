import FreebsdLaunchd.Library.CData

/-! `liblaunch.c`: launch_data objects, their wire form and the accessors that
are used on what was received. Packing writes into the caller's buffer and
leaves what it does not write as it was. Unpacking works in place: the node it
returns, its element pointers and its strings lie in the buffer it reads. -/
namespace FreebsdLaunchd.Liblaunch
open CData

/-- The node types whose value is one word of the union. -/
inductive Scalar
  | fd | integer | real | bool | errno | machport
  deriving DecidableEq, Repr

inductive Aggregate
  | dictionary | array
  deriving DecidableEq, Repr

inductive DataType
  | aggregate (type : Aggregate)
  | scalar (type : Scalar)
  | string
  | opaqueData
  deriving DecidableEq, Repr

def DataType.word : DataType → UInt64
  | aggregate .dictionary => 1
  | aggregate .array => 2
  | scalar .fd => 3
  | scalar .integer => 4
  | scalar .real => 5
  | scalar .bool => 6
  | string => 7
  | opaqueData => 8
  | scalar .errno => 9
  | scalar .machport => 10

def DataType.ofWord (w : UInt64) : Option DataType :=
  if w = 1 then some (aggregate .dictionary)
  else if w = 2 then some (aggregate .array)
  else if w = 3 then some (scalar .fd)
  else if w = 4 then some (scalar .integer)
  else if w = 5 then some (scalar .real)
  else if w = 6 then some (scalar .bool)
  else if w = 7 then some string
  else if w = 8 then some opaqueData
  else if w = 9 then some (scalar .errno)
  else if w = 10 then some (scalar .machport)
  else none

@[simp] theorem DataType.ofWord_word (type : DataType) : DataType.ofWord type.word = some type := by
  rcases type with (_ | _) | (_ | _ | _ | _ | _ | _) | _ | _ <;> decide

/-- A `launch_data_t`. The memory of a string is what lies at its pointer, as
far as the `string_len + 1` bytes that belong to it are there; that of opaque
data is the same for its `opaque_size` bytes. -/
inductive LaunchData
  | null
  | scalar (type : Scalar) (word : UInt64)
  | string (len : UInt64) (memory : Bytes)
  | opaqueData (size : UInt64) (memory : Bytes)
  | aggregate (type : Aggregate) (array : List LaunchData)

/-- `LaunchData` is nested, so that its own recursor speaks of lists as well. -/
theorem LaunchData.induction {motive : LaunchData → Prop} (null : motive .null)
    (scalar : ∀ type word, motive (.scalar type word)) (string : ∀ len memory, motive (.string len memory))
    (opaqueData : ∀ size memory, motive (.opaqueData size memory))
    (aggregate : ∀ type array, (∀ d ∈ array, motive d) → motive (.aggregate type array)) (d : LaunchData) :
    motive d := by
  apply @LaunchData.rec motive (fun array => ∀ d ∈ array, motive d)
  · exact null
  · exact scalar
  · exact string
  · exact opaqueData
  · exact aggregate
  · intro d member
    cases member
  · intro first rest head tail d member
    rcases List.mem_cons.mp member with rfl | later
    · exact head
    · exact tail d later

def sizeT (n : Nat) : Nat := n % 2^64

theorem sizeT_eq {n : Nat} (small : n < 2^64) : sizeT n = n := Nat.mod_eq_of_lt small

/-- `sizeof(struct _launch_data)`: the type, the pointer or value, the length. -/
def nodeSize : Nat := 24

def roundToWord (x : Nat) : Nat := sizeT (x+7) / 8 * 8

/-- No object in memory is longer than `PTRDIFF_MAX` bytes. -/
def objectMax : Nat := 2^63

/-- The word of a descriptor that is -1. -/
def noFd : UInt64 := 0xffffffffffffffff

/-! ## Packing -/

def overwrite (memory : Bytes) (offset : Nat) (bytes : Bytes) : Bytes :=
  memory.take offset ++ bytes ++ memory.drop (offset + bytes.length)

theorem overwrite_length {memory bytes : Bytes} {offset : Nat} (room : offset + bytes.length ≤ memory.length) :
    (overwrite memory offset bytes).length = memory.length := by
  simp only [overwrite,List.length_append,List.length_take,List.length_drop]
  omega

theorem overwrite_drop {memory bytes : Bytes} {offset o : Nat} (room : offset + bytes.length ≤ memory.length)
    (behind : offset + bytes.length ≤ o) : (overwrite memory offset bytes).drop o = memory.drop o := by
  have front : (memory.take offset ++ bytes).length = offset + bytes.length := by
    rw [List.length_append,List.length_take]
    omega
  rw [overwrite,List.drop_append,front,List.drop_eq_nil_of_le (by omega),List.nil_append,List.drop_drop]
  congr 1
  omega

structure Packed where
  size : Nat
  memory : Bytes
  fds : List Int32

mutual
/-- `launch_data_pack`; `memory` is the `len` bytes at `where`, and `collect`
says that `fd_where` is not NULL. There is no result where the code follows a
NULL pointer. -/
def launchDataPack (collect : Bool) (d : LaunchData) (memory : Bytes) (fds : List Int32) : Option Packed :=
  match d with
  | .null => none
  | .scalar type word =>
    if memory.length < nodeSize then some ⟨0,memory,fds⟩
    else
      let memory := overwrite memory 0 (longBytes (DataType.scalar type).word)
      match type with
      -- a Mach port has no case of its own in the switch
      | .machport => some ⟨nodeSize,memory,fds⟩
      | .fd =>
        let fds := if collect && word != noFd then fds ++ [word.toInt64.toInt32] else fds
        some ⟨nodeSize,overwrite memory 8 (longBytes word),fds⟩
      | _ => some ⟨nodeSize,overwrite memory 8 (longBytes word),fds⟩
  | .string len content =>
    if memory.length < nodeSize then some ⟨0,memory,fds⟩
    else
      let memory := overwrite memory 0 (longBytes DataType.string.word)
      let memory := overwrite memory 16 (longBytes len)
      let nodeDataLen := sizeT (nodeSize + roundToWord (sizeT (len.toNat+1)))
      if memory.length < nodeDataLen then some ⟨0,memory,fds⟩
      else
        let padLen := roundToWord (sizeT (len.toNat+1)) - sizeT (len.toNat+1)
        let memory := overwrite memory nodeSize content
        some ⟨nodeDataLen,overwrite memory (nodeSize + len.toNat + 1) (List.replicate padLen 0),fds⟩
  | .opaqueData size content =>
    if memory.length < nodeSize then some ⟨0,memory,fds⟩
    else
      let memory := overwrite memory 0 (longBytes DataType.opaqueData.word)
      let memory := overwrite memory 16 (longBytes size)
      let nodeDataLen := sizeT (nodeSize + roundToWord size.toNat)
      if memory.length < nodeDataLen then some ⟨0,memory,fds⟩
      else
        let padLen := roundToWord size.toNat - size.toNat
        let memory := overwrite memory nodeSize content
        some ⟨nodeDataLen,overwrite memory (nodeSize + size.toNat) (List.replicate padLen 0),fds⟩
  | .aggregate type array =>
    if memory.length < nodeSize then some ⟨0,memory,fds⟩
    else
      let memory := overwrite memory 0 (longBytes (DataType.aggregate type).word)
      let memory := overwrite memory 16 (longBytes (UInt64.ofNat array.length))
      let nodeDataLen := sizeT (nodeSize + sizeT (array.length*8))
      if memory.length < nodeDataLen then some ⟨0,memory,fds⟩
      else packElements collect array nodeDataLen memory fds
def packElements (collect : Bool) (array : List LaunchData) (nodeDataLen : Nat) (memory : Bytes)
    (fds : List Int32) : Option Packed :=
  match array with
  | [] => some ⟨nodeDataLen,memory,fds⟩
  | d::rest =>
    match launchDataPack collect d (memory.drop nodeDataLen) fds with
    | none => none
    | some packed =>
      let memory := memory.take nodeDataLen ++ packed.memory
      if packed.size = 0 then some ⟨0,memory,packed.fds⟩
      else packElements collect rest (sizeT (nodeDataLen + packed.size)) memory packed.fds
end

/-! ## Unpacking -/

/-- What `launch_data_unpack` changes: the buffer, `*data_offset`, `*fdoffset`
and `errno`. -/
structure Decoder where
  data : Bytes
  dataOffset : Nat
  fdoffset : Nat
  errno : Option Errno

namespace Decoder

def remaining (s : Decoder) : Nat := sizeT (2^64 + s.data.length - s.dataOffset)

def advance (s : Decoder) (n : Nat) : Decoder := {s with dataOffset := sizeT (s.dataOffset + n)}

def poke (s : Decoder) (offset : Nat) (w : UInt64) : Decoder := {s with data := overwrite s.data offset (longBytes w)}

end Decoder

/-- How a call ends: NULL, or a value. A fault is an access outside the buffer;
`deep` is a call that the bound on the recursion kept from being made. -/
inductive Run (α : Type)
  | deep
  | fault
  | null (s : Decoder)
  | value (a : α) (s : Decoder)

def Run.map {α β : Type} (f : α → β) : Run α → Run β
  | deep => .deep
  | fault => .fault
  | null s => .null s
  | value a s => .value (f a) s

/-- `r->_array[i] = ...`, where the slot may lie outside the buffer. -/
def store {α : Type} (s : Decoder) (slot : Nat) (w : UInt64) (next : Decoder → Run α) : Run α :=
  if s.data.length < slot + 8 then .fault else next (s.poke slot w)

def unpackElements (unpack : Decoder → Run LaunchData) (base : UInt64) (array : Nat) :
    Nat → Nat → Decoder → Run (List LaunchData)
  | 0, _, s => .value [] s
  | todo+1, i, s =>
    match unpack s with
    | .deep => .deep
    | .fault => .fault
    | .null next => store next (array + i*8) 0 .null
    | .value element next =>
      store next (array + i*8) (base + UInt64.ofNat s.dataOffset) fun next =>
        (unpackElements unpack base array todo (i+1) next).map (element :: ·)

/-- The switch of `launch_data_unpack` on the type of the node at `r`, whose
other two words are `word` and `count`. The host is little-endian, so the swaps
change nothing and the words they rewrite stay. -/
def unpackSwitch (fds : List Int32) (base : UInt64) (unpack : Decoder → Run LaunchData) (r : Nat)
    (word count : UInt64) (s : Decoder) : Option DataType → Run LaunchData
  | some (.aggregate type) =>
    let tmpcnt := count.toNat
    if s.remaining < sizeT (tmpcnt*8) then .null {s with errno := some .EAGAIN}
    else
      let array := s.dataOffset
      let s := (s.poke (r+8) (base + UInt64.ofNat array)).advance (sizeT (tmpcnt*8))
      (unpackElements unpack base array tmpcnt 0 s).map (.aggregate type)
  | some .string =>
    let tmpcnt := count.toNat
    if s.remaining < sizeT (tmpcnt+1) then .null {s with errno := some .EAGAIN}
    else
      let string := s.dataOffset
      let s := s.poke (r+8) (base + UInt64.ofNat string)
      .value (.string count ((s.data.drop string).take (tmpcnt+1))) (s.advance (roundToWord (sizeT (tmpcnt+1))))
  | some .opaqueData =>
    let tmpcnt := count.toNat
    if s.remaining < tmpcnt then .null {s with errno := some .EAGAIN}
    else
      let bytes := s.dataOffset
      let s := s.poke (r+8) (base + UInt64.ofNat bytes)
      .value (.opaqueData count ((s.data.drop bytes).take tmpcnt)) (s.advance (roundToWord tmpcnt))
  | some (.scalar .fd) =>
    if word != noFd && s.fdoffset < fds.length then
      let received := (fds.getD s.fdoffset 0).toInt64.toUInt64
      .value (.scalar .fd received) {s.poke (r+8) received with fdoffset := s.fdoffset+1}
    else .value (.scalar .fd word) s
  | some (.scalar type) => .value (.scalar type word) s
  | none => .null {s with errno := some .EINVAL}

/-- `launch_data_unpack` with `data` at address `base`, for a recursion that is
not deeper than the bound. -/
def launchDataUnpack (fds : List Int32) (base : UInt64) : Nat → Decoder → Run LaunchData
  | 0, _ => .deep
  | depth+1, s =>
    let r := s.dataOffset
    if s.remaining < nodeSize then .null s
    else if s.data.length < r + nodeSize then .fault
    else unpackSwitch fds base (launchDataUnpack fds base depth) r (longAt s.data (r+8)) (longAt s.data (r+16))
      (s.advance nodeSize) (DataType.ofWord (longAt s.data r))

/-! ## Accessors

An accessor has no result where it follows NULL, indexes past an element array,
takes an element that is not a string for a key, or runs off a string. -/

def toLower (b : UInt8) : UInt8 := if 65 ≤ b && b ≤ 90 then b + 32 else b

/-- `strcasecmp` of a key with the string in `memory`: are they equal? -/
def strcasecmp : Bytes → Bytes → Option Bool
  | _, [] => none
  | [], b::_ => some (b == 0)
  | a::key, b::memory => if toLower a = toLower b then strcasecmp key memory else some false

def keyMatches (key : CString) : LaunchData → Option Bool
  | .string _ memory => strcasecmp key.bytes memory
  | _ => none

def lookupPairs (key : CString) : List LaunchData → Option LaunchData
  | [] => some .null
  | [k] =>
    match keyMatches key k with
    | some false => some .null
    | _ => none
  | k::what::rest =>
    match keyMatches key k with
    | none => none
    | some true => some what
    | some false => lookupPairs key rest

def launchDataDictLookup (key : CString) : LaunchData → Option LaunchData
  | .null => none
  | .aggregate .dictionary array => lookupPairs key array
  | _ => some .null

def iteratePairs : List LaunchData → Option (List (LaunchData × Bytes))
  | [] => some []
  | .string _ memory::what::rest => (iteratePairs rest).map ((what,memory) :: ·)
  | _ => none

def launchDataDictIterate : LaunchData → Option (List (LaunchData × Bytes))
  | .null => none
  | .aggregate .dictionary array => iteratePairs array
  | _ => some []

mutual
def launchDataCopy (o : LaunchData) : Option LaunchData :=
  match o with
  | .null => none
  | .scalar type word => some (.scalar type word)
  | .string len memory =>
    -- `strdup` reads up to the NUL, wherever it is
    if memory.contains 0 then some (.string len (memory.takeWhile (· != 0) ++ [0])) else none
  | .opaqueData size memory =>
    if memory.length < size.toNat then none else some (.opaqueData size (memory.take size.toNat))
  | .aggregate type array => (copyElements array).map (.aggregate type)
def copyElements (array : List LaunchData) : Option (List LaunchData) :=
  match array with
  | [] => some []
  | .null::rest => (copyElements rest).map (.null :: ·)
  | d::rest =>
    match launchDataCopy d with
    | none => none
    | some copied => (copyElements rest).map (copied :: ·)
end

end FreebsdLaunchd.Liblaunch
