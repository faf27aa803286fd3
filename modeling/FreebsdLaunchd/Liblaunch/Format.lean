import FreebsdLaunchd.Liblaunch.Layout

/-! The wire form of a tree, as a property of a string of bytes: what packing
writes, with every byte it leaves alone left open. -/
namespace FreebsdLaunchd.Liblaunch
open CData

/-- The trees that may be packed: no NULL, no Mach port, and the bytes that
belong to a string or to opaque data are there. -/
inductive Packable : LaunchData → Prop
  | scalar {type : Scalar} (word : UInt64) (plain : type ≠ .machport) : Packable (.scalar type word)
  | string {len : UInt64} {memory : Bytes} (whole : memory.length = len.toNat+1) (small : memory.length < objectMax) :
      Packable (.string len memory)
  | opaqueData {size : UInt64} {memory : Bytes} (whole : memory.length = size.toNat)
      (small : memory.length < objectMax) : Packable (.opaqueData size memory)
  | aggregate (type : Aggregate) {array : List LaunchData} (small : array.length*8 < objectMax)
      (elements : ∀ d ∈ array, Packable d) : Packable (.aggregate type array)

def padded (memory : Bytes) : Bytes :=
  memory ++ List.replicate (roundToWord memory.length - memory.length) 0

mutual
def Encodes (d : LaunchData) (wire : Bytes) : Prop :=
  match d with
  | .null => False
  | .scalar type word => ∃ unused, unused.length = 8 ∧
      wire = longBytes (DataType.scalar type).word ++ (longBytes word ++ unused)
  | .string len memory => memory.length = len.toNat+1 ∧ ∃ pointer, pointer.length = 8 ∧
      wire = longBytes DataType.string.word ++ (pointer ++ (longBytes len ++ padded memory))
  | .opaqueData size memory => memory.length = size.toNat ∧ ∃ pointer, pointer.length = 8 ∧
      wire = longBytes DataType.opaqueData.word ++ (pointer ++ (longBytes size ++ padded memory))
  | .aggregate type array => ∃ pointer slots body, pointer.length = 8 ∧ slots.length = array.length*8 ∧
      EncodesAll array body ∧
      wire = longBytes (DataType.aggregate type).word ++
        (pointer ++ (longBytes (UInt64.ofNat array.length) ++ (slots ++ body)))
def EncodesAll (array : List LaunchData) (wire : Bytes) : Prop :=
  match array with
  | [] => wire = []
  | d::rest => ∃ first later, wire = first ++ later ∧ Encodes d first ∧ EncodesAll rest later
end

mutual
def wireSize (d : LaunchData) : Nat :=
  match d with
  | .null => 0
  | .scalar _ _ => nodeSize
  | .string _ memory => nodeSize + roundToWord memory.length
  | .opaqueData _ memory => nodeSize + roundToWord memory.length
  | .aggregate _ array => nodeSize + array.length*8 + wireSizes array
def wireSizes (array : List LaunchData) : Nat :=
  match array with
  | [] => 0
  | d::rest => wireSize d + wireSizes rest
end

mutual
def descriptors (collect : Bool) (d : LaunchData) : List Int32 :=
  match d with
  | .scalar .fd word => if collect && word != noFd then [word.toInt64.toInt32] else []
  | .aggregate _ array => descriptorsAll collect array
  | _ => []
def descriptorsAll (collect : Bool) (array : List LaunchData) : List Int32 :=
  match array with
  | [] => []
  | d::rest => descriptors collect d ++ descriptorsAll collect rest
end

variable {data memory : Bytes} {d : LaunchData} {array : List LaunchData} {fds : List Int32} {collect : Bool}

/-! ## Writing into the buffer -/

private theorem overwrite_append {front old bytes rest : Bytes} {offset : Nat} (start : front.length = offset)
    (same : old.length = bytes.length) :
    overwrite (front ++ (old ++ rest)) offset bytes = front ++ (bytes ++ rest) := by
  have skipped : (front ++ (old ++ rest)).drop (offset + bytes.length) = rest := by
    rw [← start,← same,← List.append_assoc,← List.length_append,List.drop_left]
  have kept : (front ++ (old ++ rest)).take offset = front := by
    rw [← start,List.take_left]
  rw [overwrite,skipped,kept,List.append_assoc]

private theorem exists_node (room : nodeSize ≤ memory.length) :
    ∃ type value count rest : Bytes, type.length = 8 ∧ value.length = 8 ∧ count.length = 8 ∧
      memory = type ++ (value ++ (count ++ rest)) := by
  simp only [nodeSize] at room
  refine ⟨memory.take 8,(memory.drop 8).take 8,(memory.drop 16).take 8,memory.drop 24,?_,?_,?_,?_⟩
  · rw [List.length_take]
    omega
  · rw [List.length_take,List.length_drop]
    omega
  · rw [List.length_take,List.length_drop]
    omega
  · have third : (memory.drop 16).take 8 ++ memory.drop 24 = memory.drop 16 := by
      have split := List.take_append_drop 8 (memory.drop 16)
      rwa [List.drop_drop] at split
    have second : (memory.drop 8).take 8 ++ memory.drop 16 = memory.drop 8 := by
      have split := List.take_append_drop 8 (memory.drop 8)
      rwa [List.drop_drop] at split
    rw [third,second,List.take_append_drop]

private theorem roundToWord_eq {n : Nat} (small : n < objectMax) : n ≤ roundToWord n ∧ roundToWord n < n + 8 := by
  simp only [objectMax,roundToWord,sizeT] at small ⊢
  omega

private theorem padded_length {memory : Bytes} (small : memory.length < objectMax) :
    (padded memory).length = roundToWord memory.length := by
  have rounded := roundToWord_eq small
  simp only [padded,List.length_append,List.length_replicate]
  omega

/-- The type and the last word of a node are written; the word between them and
what follows stay. -/
theorem node_written (room : nodeSize ≤ memory.length) (t w : UInt64) :
    ∃ value : Bytes, value.length = 8 ∧
      overwrite (overwrite memory 0 (longBytes t)) 16 (longBytes w) =
        longBytes t ++ (value ++ (longBytes w ++ memory.drop nodeSize)) := by
  obtain ⟨type,value,count,rest,typeSize,valueSize,countSize,rfl⟩ := exists_node room
  refine ⟨value,valueSize,?_⟩
  have tail : (type ++ (value ++ (count ++ rest))).drop nodeSize = rest := by
    have front : (type ++ (value ++ count)).length = nodeSize := by simp [typeSize,valueSize,countSize,nodeSize]
    rw [← List.append_assoc value,← List.append_assoc type,← front,List.drop_left]
  have first := @overwrite_append [] type (longBytes t) (value ++ (count ++ rest)) 0 rfl (by simp [typeSize])
  have second := @overwrite_append (longBytes t ++ value) count (longBytes w) rest 16 (by simp [valueSize])
    (by simp [countSize])
  simp only [List.nil_append,List.append_assoc] at first second
  rw [tail,first,second]

/-- The content behind a node and its padding are written. -/
theorem content_written {head rest content : Bytes} {pad offset : Nat} (start : head.length = offset)
    (room : content.length + pad ≤ rest.length) :
    overwrite (overwrite (head ++ rest) offset content) (offset + content.length) (List.replicate pad 0) =
      head ++ ((content ++ List.replicate pad 0) ++ rest.drop (content.length + pad)) := by
  have first := @overwrite_append head (rest.take content.length) content (rest.drop content.length) offset start
    (by rw [List.length_take]; omega)
  have second := @overwrite_append (head ++ content) ((rest.drop content.length).take pad) (List.replicate pad 0)
    (rest.drop (content.length + pad)) (offset + content.length) (by rw [List.length_append,start])
    (by rw [List.length_take,List.length_drop,List.length_replicate]; omega)
  have split : (rest.drop content.length).take pad ++ rest.drop (content.length + pad) = rest.drop content.length := by
    rw [← List.drop_drop,List.take_append_drop]
  rw [List.take_append_drop] at first
  rw [split] at second
  rw [first,← List.append_assoc,second]
  simp only [List.append_assoc]

theorem wireSize_pos {wire : Bytes} (encodes : Encodes d wire) : 0 < wireSize d := by
  cases d with
  | null => exact absurd encodes id
  | _ =>
    simp only [wireSize,nodeSize]
    omega

/-! ## Packing produces the wire form -/

/-- With room for the tree, packing writes its wire form at the front of the
buffer and nothing behind it. -/
def Packs (collect : Bool) (d : LaunchData) : Prop :=
  ∀ {memory : Bytes} {fds : List Int32}, wireSize d ≤ memory.length → memory.length < objectMax →
    ∃ wire, launchDataPack collect d memory fds =
        some ⟨wireSize d,wire ++ memory.drop (wireSize d),fds ++ descriptors collect d⟩ ∧
      wire.length = wireSize d ∧ Encodes d wire

private theorem pack_scalar {type : Scalar} (word : UInt64) (plain : type ≠ .machport) :
    Packs collect (.scalar type word) := by
  intro memory fds room _
  have room : nodeSize ≤ memory.length := room
  obtain ⟨first,value,count,rest,firstSize,valueSize,countSize,rfl⟩ := exists_node room
  have tail : (first ++ (value ++ (count ++ rest))).drop nodeSize = rest := by
    have front : (first ++ (value ++ count)).length = nodeSize := by simp [firstSize,valueSize,countSize,nodeSize]
    rw [← List.append_assoc value,← List.append_assoc first,← front,List.drop_left]
  have typed := @overwrite_append [] first (longBytes (DataType.scalar type).word) (value ++ (count ++ rest)) 0 rfl
    (by simp [firstSize])
  have written := @overwrite_append (longBytes (DataType.scalar type).word) value (longBytes word) (count ++ rest) 8
    (by simp) (by simp [valueSize])
  simp only [List.nil_append] at typed
  refine ⟨longBytes (DataType.scalar type).word ++ (longBytes word ++ count),?_,?_,count,countSize,rfl⟩
  · rw [launchDataPack]
    simp only [wireSize]
    rw [if_neg (Nat.not_lt.mpr room),tail,typed]
    cases type with
    | machport => exact absurd rfl plain
    | fd =>
      simp only [written,descriptors,List.append_assoc]
      split
      · rfl
      · simp
    | _ => simp only [written,descriptors,List.append_assoc,List.append_nil]
  · simp [countSize,wireSize,nodeSize]

/-- What a string and opaque data have in common: a node whose last word is a
length, then the content and its padding. -/
theorem bytes_written {content : Bytes} (t w : UInt64) (small : content.length < objectMax)
    (room : nodeSize + roundToWord content.length ≤ memory.length) :
    ∃ pointer : Bytes, pointer.length = 8 ∧
      overwrite (overwrite (overwrite (overwrite memory 0 (longBytes t)) 16 (longBytes w)) nodeSize content)
          (nodeSize + content.length) (List.replicate (roundToWord content.length - content.length) 0) =
        longBytes t ++ (pointer ++ (longBytes w ++ padded content)) ++
          memory.drop (nodeSize + roundToWord content.length) := by
  have rounded := roundToWord_eq small
  obtain ⟨pointer,size,written⟩ := @node_written memory (by omega) t w
  refine ⟨pointer,size,?_⟩
  have front : (longBytes t ++ (pointer ++ longBytes w)).length = nodeSize := by simp [size,nodeSize]
  have rest := @content_written (longBytes t ++ (pointer ++ longBytes w)) (memory.drop nodeSize) content
    (roundToWord content.length - content.length) nodeSize front (by rw [List.length_drop]; omega)
  have behind : nodeSize + (content.length + (roundToWord content.length - content.length)) =
      nodeSize + roundToWord content.length := by omega
  rw [List.drop_drop,behind] at rest
  rw [written,padded]
  simpa only [List.append_assoc] using rest

theorem bytes_wire_length {content pointer : Bytes} (t w : UInt64) (size : pointer.length = 8)
    (small : content.length < objectMax) :
    (longBytes t ++ (pointer ++ (longBytes w ++ padded content))).length = nodeSize + roundToWord content.length := by
  simp only [List.length_append,longBytes_length,size,padded_length small,nodeSize]
  omega

/-- Writing the words of the node keeps the length of the buffer. -/
theorem headed_length (room : nodeSize ≤ memory.length) (t w : UInt64) :
    (overwrite (overwrite memory 0 (longBytes t)) 16 (longBytes w)).length = memory.length := by
  simp only [nodeSize] at room
  have first : (overwrite memory 0 (longBytes t)).length = memory.length :=
    overwrite_length (by rw [longBytes_length]; omega)
  rw [← first]
  exact overwrite_length (by rw [longBytes_length,first]; omega)

private theorem pack_string {len : UInt64} {content : Bytes} (whole : content.length = len.toNat+1)
    (small : content.length < objectMax) : Packs collect (.string len content) := by
  intro memory fds room fits
  have room : nodeSize + roundToWord content.length ≤ memory.length := room
  obtain ⟨pointer,size,written⟩ := bytes_written DataType.string.word len small room
  refine ⟨_,?_,bytes_wire_length _ _ size small,whole,pointer,size,rfl⟩
  have rounded := roundToWord_eq small
  have count : sizeT (len.toNat+1) = content.length := by
    rw [← whole]
    exact sizeT_eq (Nat.lt_trans small (by decide))
  have total : sizeT (nodeSize + roundToWord content.length) = nodeSize + roundToWord content.length :=
    sizeT_eq (Nat.lt_of_le_of_lt room (Nat.lt_trans fits (by decide)))
  rw [launchDataPack]
  simp only [wireSize,descriptors,List.append_nil]
  rw [if_neg (by omega),count,total,headed_length (by omega),if_neg (by omega),Nat.add_assoc nodeSize,← whole,written]

private theorem pack_opaqueData {size : UInt64} {content : Bytes} (whole : content.length = size.toNat)
    (small : content.length < objectMax) : Packs collect (.opaqueData size content) := by
  intro memory fds room fits
  have room : nodeSize + roundToWord content.length ≤ memory.length := room
  obtain ⟨pointer,length,written⟩ := bytes_written DataType.opaqueData.word size small room
  refine ⟨_,?_,bytes_wire_length _ _ length small,whole,pointer,length,rfl⟩
  have total : sizeT (nodeSize + roundToWord content.length) = nodeSize + roundToWord content.length :=
    sizeT_eq (Nat.lt_of_le_of_lt room (Nat.lt_trans fits (by decide)))
  rw [launchDataPack]
  simp only [wireSize,descriptors,List.append_nil]
  rw [if_neg (by omega),← whole,total,headed_length (by omega),if_neg (by omega),written]

theorem packElements_wire (packs : ∀ d ∈ array, Packs collect d) {front room : Bytes} {fds : List Int32}
    (enough : wireSizes array ≤ room.length) (small : (front ++ room).length < objectMax) :
    ∃ wire, packElements collect array front.length (front ++ room) fds =
        some ⟨front.length + wireSizes array,front ++ (wire ++ room.drop (wireSizes array)),
          fds ++ descriptorsAll collect array⟩ ∧
      wire.length = wireSizes array ∧ EncodesAll array wire := by
  induction array generalizing front room fds with
  | nil => exact ⟨[],by simp [packElements,wireSizes,descriptorsAll],rfl,rfl⟩
  | cons d rest ih =>
    simp only [wireSizes] at enough
    have total : front.length + room.length < objectMax := by simpa using small
    obtain ⟨first,packed,size,encodes⟩ :=
      @packs d List.mem_cons_self room fds (by omega) (by omega)
    have positive := wireSize_pos encodes
    -- the next element is packed behind what has been written
    have moved : sizeT (front.length + wireSize d) = (front ++ first).length := by
      rw [List.length_append,size]
      exact sizeT_eq (Nat.lt_trans (by omega : _ < objectMax) (by decide))
    have refit : (front ++ first ++ room.drop (wireSize d)).length < objectMax := by
      rw [List.length_append,List.length_append,List.length_drop,size]
      omega
    obtain ⟨later,packedRest,sizes,encodesRest⟩ := @ih (fun d member => packs d (List.mem_cons_of_mem _ member))
      (front ++ first) (room.drop (wireSize d)) (fds ++ descriptors collect d) (by rw [List.length_drop]; omega) refit
    refine ⟨first ++ later,?_,?_,first,later,rfl,encodes,encodesRest⟩
    · rw [packElements,List.drop_left,packed]
      simp only
      rw [if_neg (by omega),List.take_left,moved,← List.append_assoc,packedRest]
      simp only [wireSizes,descriptorsAll,List.length_append,size,List.append_assoc,List.drop_drop,Nat.add_assoc]
    · rw [List.length_append,size,sizes,wireSizes]

private theorem pack_aggregate (type : Aggregate) (count : array.length*8 < objectMax)
    (packs : ∀ d ∈ array, Packs collect d) : Packs collect (.aggregate type array) := by
  intro memory fds room fits
  have room : nodeSize + array.length*8 + wireSizes array ≤ memory.length := room
  obtain ⟨pointer,size,written⟩ := @node_written memory (by omega) (DataType.aggregate type).word
    (UInt64.ofNat array.length)
  -- the element pointers keep what was in the buffer
  have split : memory.drop nodeSize =
      (memory.drop nodeSize).take (array.length*8) ++ memory.drop (nodeSize + array.length*8) := by
    rw [← List.drop_drop,List.take_append_drop]
  have slots : ((memory.drop nodeSize).take (array.length*8)).length = array.length*8 := by
    rw [List.length_take,List.length_drop]
    omega
  generalize (memory.drop nodeSize).take (array.length*8) = slot at split slots
  rw [split] at written
  have head : (longBytes (DataType.aggregate type).word ++
      (pointer ++ (longBytes (UInt64.ofNat array.length) ++ slot))).length = nodeSize + array.length*8 := by
    simp only [List.length_append,longBytes_length,size,slots,nodeSize]
    omega
  have refit : (longBytes (DataType.aggregate type).word ++ (pointer ++ (longBytes (UInt64.ofNat array.length) ++ slot))
      ++ memory.drop (nodeSize + array.length*8)).length < objectMax := by
    rw [List.length_append,head,List.length_drop]
    omega
  obtain ⟨body,packed,sizes,encodes⟩ := @packElements_wire array collect packs _ _ fds
    (show wireSizes array ≤ (memory.drop (nodeSize + array.length*8)).length by rw [List.length_drop]; omega) refit
  refine ⟨longBytes (DataType.aggregate type).word ++
    (pointer ++ (longBytes (UInt64.ofNat array.length) ++ (slot ++ body))),?_,?_,pointer,slot,body,size,slots,encodes,rfl⟩
  · have exact8 : sizeT (array.length*8) = array.length*8 := sizeT_eq (Nat.lt_trans count (by decide))
    have total : sizeT (nodeSize + array.length*8) = nodeSize + array.length*8 :=
      sizeT_eq (Nat.lt_trans (by omega : _ < objectMax) (by decide))
    rw [head] at packed
    rw [launchDataPack]
    simp only [wireSize,descriptors]
    rw [if_neg (by omega),exact8,total,headed_length (by omega),if_neg (by omega),written]
    simp only [List.append_assoc] at packed ⊢
    rw [packed]
    simp only [List.drop_drop]
  · simp only [List.length_append,longBytes_length,size,slots,sizes,wireSize,nodeSize]
    omega

theorem Packable.packs (packable : Packable d) : Packs collect d := by
  induction packable with
  | scalar word plain => exact pack_scalar word plain
  | string whole small => exact pack_string whole small
  | opaqueData whole small => exact pack_opaqueData whole small
  | aggregate type small _ ih => exact pack_aggregate type small ih

/-! ## Packing into too little room -/

def PacksShort (collect : Bool) (d : LaunchData) : Prop :=
  ∀ {memory : Bytes} {fds : List Int32}, memory.length < wireSize d → memory.length < objectMax →
    ∃ packed, launchDataPack collect d memory fds = some packed ∧ packed.size = 0

private theorem packElements_short (packs : ∀ d ∈ array, Packs collect d) (short : ∀ d ∈ array, PacksShort collect d)
    {front room : Bytes} {fds : List Int32} (little : room.length < wireSizes array)
    (small : (front ++ room).length < objectMax) :
    ∃ packed, packElements collect array front.length (front ++ room) fds = some packed ∧ packed.size = 0 := by
  induction array generalizing front room fds with
  | nil => simp [wireSizes] at little
  | cons d rest ih =>
    simp only [wireSizes] at little
    have total : front.length + room.length < objectMax := by simpa using small
    rw [packElements,List.drop_left]
    by_cases fits : wireSize d ≤ room.length
    · obtain ⟨first,packed,size,encodes⟩ := @packs d List.mem_cons_self room fds fits (by omega)
      have positive := wireSize_pos encodes
      have moved : sizeT (front.length + wireSize d) = (front ++ first).length := by
        rw [List.length_append,size]
        exact sizeT_eq (Nat.lt_trans (by omega : _ < objectMax) (by decide))
      rw [packed]
      simp only
      rw [if_neg (by omega),List.take_left,moved,← List.append_assoc]
      apply ih (fun d member => packs d (List.mem_cons_of_mem _ member))
        (fun d member => short d (List.mem_cons_of_mem _ member))
      · rw [List.length_drop]
        omega
      · rw [List.length_append,List.length_append,List.length_drop,size]
        omega
    · obtain ⟨packed,done,none⟩ := @short d List.mem_cons_self room fds (by omega) (by omega)
      rw [done]
      simp only
      rw [if_pos none]
      exact ⟨_,rfl,rfl⟩

/-- Behind a node with its words written there is no room for `n` more bytes. -/
theorem node_overfull {t w : UInt64} {n : Nat} (room : nodeSize ≤ memory.length) (little : memory.length < nodeSize + n)
    (fits : nodeSize + n < 2^64) :
    (overwrite (overwrite memory 0 (longBytes t)) 16 (longBytes w)).length < sizeT (nodeSize + n) := by
  rw [headed_length room,sizeT_eq fits]
  exact little

theorem Packable.packsShort (packable : Packable d) : PacksShort collect d := by
  induction packable with
  | scalar word plain =>
    intro memory fds little _
    have little : memory.length < nodeSize := little
    rw [launchDataPack,if_pos little]
    exact ⟨_,rfl,rfl⟩
  | @string len content whole small =>
    intro memory fds little fits
    have little : memory.length < nodeSize + roundToWord content.length := little
    have rounded := roundToWord_eq small
    have count : sizeT (len.toNat+1) = content.length := by
      rw [← whole]
      exact sizeT_eq (Nat.lt_trans small (by decide))
    rw [launchDataPack]
    by_cases node : memory.length < nodeSize
    · rw [if_pos node]
      exact ⟨_,rfl,rfl⟩
    · simp only [if_neg node,count]
      rw [if_pos (node_overfull (by omega) little (by simp only [objectMax,nodeSize] at *; omega))]
      exact ⟨_,rfl,rfl⟩
  | @opaqueData size content whole small =>
    intro memory fds little fits
    have little : memory.length < nodeSize + roundToWord content.length := little
    have rounded := roundToWord_eq small
    rw [launchDataPack]
    by_cases node : memory.length < nodeSize
    · rw [if_pos node]
      exact ⟨_,rfl,rfl⟩
    · simp only [if_neg node,← whole]
      rw [if_pos (node_overfull (by omega) little (by simp only [objectMax,nodeSize] at *; omega))]
      exact ⟨_,rfl,rfl⟩
  | @aggregate type array small elements ih =>
    intro memory fds little fits
    have little : memory.length < nodeSize + array.length*8 + wireSizes array := little
    have exact8 : sizeT (array.length*8) = array.length*8 := sizeT_eq (Nat.lt_trans small (by decide))
    have total : nodeSize + array.length*8 < 2^64 := by
      simp only [objectMax,nodeSize] at *
      omega
    rw [launchDataPack]
    by_cases node : memory.length < nodeSize
    · rw [if_pos node]
      exact ⟨_,rfl,rfl⟩
    · simp only [if_neg node,exact8]
      by_cases slots : memory.length < nodeSize + array.length*8
      · rw [if_pos (node_overfull (by omega) slots total)]
        exact ⟨_,rfl,rfl⟩
      · have written : (overwrite (overwrite memory 0 (longBytes (DataType.aggregate type).word)) 16
            (longBytes (UInt64.ofNat array.length))).length = memory.length := headed_length (by omega) _ _
        rw [sizeT_eq total,written,if_neg slots]
        generalize overwrite (overwrite memory 0 (longBytes (DataType.aggregate type).word)) 16
          (longBytes (UInt64.ofNat array.length)) = buffer at written
        have front : (buffer.take (nodeSize + array.length*8)).length = nodeSize + array.length*8 := by
          rw [List.length_take]
          omega
        have packed := @packElements_short array collect (fun d member => (elements d member).packs) ih
          (buffer.take (nodeSize + array.length*8)) (buffer.drop (nodeSize + array.length*8)) fds
          (by rw [List.length_drop]; omega) (by rw [List.take_append_drop]; omega)
        rwa [List.take_append_drop,front] at packed

end FreebsdLaunchd.Liblaunch
