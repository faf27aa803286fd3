import FreebsdLaunchd.Liblaunch.Decode
import FreebsdLaunchd.Liblaunch.Format

/-! Packing and unpacking are inverse: the wire form of a tree, anywhere in a
buffer, is laid out as that tree, and so it is decoded to it. -/
namespace FreebsdLaunchd.Liblaunch
open CData

variable {data wire : Bytes} {d : LaunchData} {array : List LaunchData} {fds : List Int32} {collect : Bool}

/-! ## The wire form lays out the tree -/

private theorem node_words {front value rest : Bytes} {t w : UInt64} (size : value.length = 8)
    (same : data = front ++ (longBytes t ++ (value ++ (longBytes w ++ rest)))) :
    longAt data front.length = t ∧ countAt data front.length = w ∧
      front.length + nodeSize + rest.length = data.length ∧ data.drop (front.length + nodeSize) = rest := by
  have third : (front ++ (longBytes t ++ value)).length = front.length + 16 := by
    simp only [List.length_append,longBytes_length,size]
  have fourth : (front ++ (longBytes t ++ (value ++ longBytes w))).length = front.length + nodeSize := by
    simp only [List.length_append,longBytes_length,size,nodeSize]
  subst same
  refine ⟨longAt_longBytes front t _,?_,?_,?_⟩
  · have word := longAt_longBytes (front ++ (longBytes t ++ value)) w rest
    rw [third] at word
    simpa only [countAt,List.append_assoc] using word
  · simp only [List.length_append,longBytes_length,size,nodeSize]
    omega
  · have tail := @List.drop_left _ (front ++ (longBytes t ++ (value ++ longBytes w))) rest
    rw [fourth] at tail
    simpa only [List.append_assoc] using tail

private theorem lays_scalar {type : Scalar} {word : UInt64} {front rest : Bytes} (encodes : Encodes (.scalar type word) wire)
    (same : data = front ++ (wire ++ rest)) :
    Lays data (.scalar type word) front.length (front.length + wire.length) := by
  obtain ⟨unused,size,rfl⟩ := encodes
  have value : valueAt data front.length = word := by
    have read := longAt_longBytes (front ++ longBytes (DataType.scalar type).word) word (unused ++ rest)
    have second : (front ++ longBytes (DataType.scalar type).word).length = front.length + 8 := by simp
    rw [second] at read
    subst same
    simpa only [valueAt,List.append_assoc] using read
  refine ⟨⟨?_,?_⟩,value,?_⟩
  · rw [same]
    simp only [List.length_append,longBytes_length,size,nodeSize]
    omega
  · rw [same,List.append_assoc,longAt_longBytes,DataType.ofWord_word]
  · simp only [List.length_append,longBytes_length,size,nodeSize]

/-- The content behind a node, and where its padding ends. -/
theorem bytes_read {content pointer front rest : Bytes} {t w : UInt64} (size : pointer.length = 8)
    (small : data.length < objectMax)
    (same : data = front ++ (longBytes t ++ (pointer ++ (longBytes w ++ padded content)) ++ rest)) :
    content.length < objectMax ∧ front.length + nodeSize + content.length ≤ data.length ∧
      content = (data.drop (front.length + nodeSize)).take content.length ∧
      front.length + (longBytes t ++ (pointer ++ (longBytes w ++ padded content))).length =
        front.length + nodeSize + roundToWord content.length := by
  have flat : data = front ++ (longBytes t ++ (pointer ++ (longBytes w ++ (padded content ++ rest)))) := by
    rw [same]
    simp only [List.append_assoc]
  obtain ⟨_,_,length,tail⟩ := node_words size flat
  have within : content.length ≤ (padded content).length := by simp [padded]
  have short : content.length < objectMax := by
    rw [List.length_append] at length
    omega
  refine ⟨short,?_,?_,?_⟩
  · rw [List.length_append] at length
    omega
  · rw [tail,padded,List.append_assoc,List.take_left]
  · rw [bytes_wire_length t w size short]
    omega

private theorem lays_string {len : UInt64} {content front rest : Bytes} (small : data.length < objectMax)
    (encodes : Encodes (.string len content) wire) (same : data = front ++ (wire ++ rest)) :
    Lays data (.string len content) front.length (front.length + wire.length) := by
  obtain ⟨whole,pointer,size,rfl⟩ := encodes
  obtain ⟨short,room,read,ends⟩ := bytes_read size small same
  simp only [List.append_assoc] at same
  obtain ⟨typed,count,length,_⟩ := node_words size same
  have total : sizeT (len.toNat+1) = content.length := by
    rw [← whole]
    exact sizeT_eq (Nat.lt_trans short (by decide))
  refine ⟨⟨by omega,?_⟩,count,?_,?_,?_⟩
  · rw [typed,DataType.ofWord_word]
  · rw [total]
    exact room
  · rw [← whole]
    exact read
  · rw [total]
    exact ends

private theorem lays_opaqueData {size : UInt64} {content front rest : Bytes} (small : data.length < objectMax)
    (encodes : Encodes (.opaqueData size content) wire) (same : data = front ++ (wire ++ rest)) :
    Lays data (.opaqueData size content) front.length (front.length + wire.length) := by
  obtain ⟨whole,pointer,length,rfl⟩ := encodes
  obtain ⟨short,room,read,ends⟩ := bytes_read length small same
  simp only [List.append_assoc] at same
  obtain ⟨typed,count,_,_⟩ := node_words length same
  rw [whole] at room read ends
  refine ⟨⟨by omega,?_⟩,count,room,read,ends⟩
  rw [typed,DataType.ofWord_word]

def WireLays (d : LaunchData) : Prop :=
  ∀ {data front wire rest : Bytes}, data.length < objectMax → Encodes d wire → data = front ++ (wire ++ rest) →
    Lays data d front.length (front.length + wire.length)

private theorem laysAll_wire (lays : ∀ d ∈ array, WireLays d) {front rest : Bytes} (small : data.length < objectMax)
    (encodes : EncodesAll array wire) (same : data = front ++ (wire ++ rest)) :
    LaysAll data array front.length (front.length + wire.length) := by
  induction array generalizing front wire with
  | nil =>
    obtain rfl := encodes
    rfl
  | cons d later ih =>
    obtain ⟨first,others,rfl,head,tail⟩ := encodes
    have here : data = front ++ (first ++ (others ++ rest)) := by rw [same,List.append_assoc]
    have there : data = (front ++ first) ++ (others ++ rest) := by rw [here,List.append_assoc]
    have laid := ih (fun d member => lays d (List.mem_cons_of_mem _ member)) tail there
    rw [List.length_append,Nat.add_assoc] at laid
    refine ⟨_,lays d List.mem_cons_self small head here,?_⟩
    rw [List.length_append]
    exact laid

theorem wire_lays (d : LaunchData) : WireLays d := by
  intro data front wire rest small encodes same
  induction d using LaunchData.induction generalizing data front wire rest with
  | null => exact absurd encodes id
  | scalar type word => exact lays_scalar encodes same
  | string len memory => exact lays_string small encodes same
  | opaqueData size memory => exact lays_opaqueData small encodes same
  | aggregate type array ih =>
    obtain ⟨pointer,slots,body,size,slotted,elements,rfl⟩ := encodes
    have flat : data = front ++ (longBytes (DataType.aggregate type).word ++
        (pointer ++ (longBytes (UInt64.ofNat array.length) ++ (slots ++ (body ++ rest))))) := by
      rw [same]
      simp only [List.append_assoc]
    obtain ⟨typed,count,length,_⟩ := node_words size flat
    simp only [List.length_append,slotted] at length
    have counted : (UInt64.ofNat array.length).toNat = array.length := by
      apply UInt64.toNat_ofNat_of_lt'
      change array.length < 2^64
      simp only [objectMax] at small
      omega
    have start : firstElement front.length array.length =
        (front ++ (longBytes (DataType.aggregate type).word ++
          (pointer ++ (longBytes (UInt64.ofNat array.length) ++ slots)))).length := by
      have exact8 : sizeT (array.length*8) = array.length*8 := by
        apply sizeT_eq
        simp only [objectMax] at small
        omega
      simp only [firstElement,exact8,List.length_append,longBytes_length,size,slotted,nodeSize]
      omega
    have laid := laysAll_wire (fun d member => ih d member) small elements
      (show data = (front ++ (longBytes (DataType.aggregate type).word ++
        (pointer ++ (longBytes (UInt64.ofNat array.length) ++ slots)))) ++ (body ++ rest) by
          rw [flat]; simp only [List.append_assoc])
    rw [← start] at laid
    refine ⟨⟨by omega,?_⟩,?_,?_,?_⟩
    · rw [typed,DataType.ofWord_word]
    · rw [count,counted]
    · rw [start]
      simp only [List.length_append,longBytes_length,size,slotted]
      simp only [nodeSize] at length
      omega
    · have ends : front.length + (longBytes (DataType.aggregate type).word ++
          (pointer ++ (longBytes (UInt64.ofNat array.length) ++ (slots ++ body)))).length =
            firstElement front.length array.length + body.length := by
        rw [start]
        simp only [List.length_append]
        omega
      rw [ends]
      exact laid

/-! ## The descriptors -/

private theorem renumberAll_count {k : Nat}
    (count : ∀ d ∈ array, ∀ k, k + (descriptors true d).length ≤ fds.length →
      (renumber fds d k).2 = k + (descriptors true d).length)
    (enough : k + (descriptorsAll true array).length ≤ fds.length) :
    (renumberAll fds array k).2 = k + (descriptorsAll true array).length := by
  induction array generalizing k with
  | nil => rfl
  | cons d rest ih =>
    simp only [descriptorsAll,List.length_append] at enough ⊢
    have here := count d List.mem_cons_self k (by omega)
    have there := @ih (k + (descriptors true d).length) (fun d member => count d (List.mem_cons_of_mem _ member))
      (by omega)
    simp only [renumberAll,here,there]
    omega

/-- Unpacking takes as many descriptors as packing has handed over. -/
theorem renumber_count {k : Nat} (enough : k + (descriptors true d).length ≤ fds.length) :
    (renumber fds d k).2 = k + (descriptors true d).length := by
  induction d using LaunchData.induction generalizing k with
  | null => rfl
  | scalar type word =>
    cases type with
    | fd =>
      simp only [descriptors,Bool.true_and] at enough ⊢
      by_cases real : word != noFd
      · rw [if_pos real,List.length_singleton] at enough
        have more : (word != noFd && decide (k < fds.length)) = true := by
          simp only [real,Bool.true_and,decide_eq_true_eq]
          omega
        simp only [renumber,if_pos more,if_pos real,List.length_singleton]
      · simp [renumber,real]
    | _ => rfl
  | string len memory => rfl
  | opaqueData size memory => rfl
  | aggregate type array ih => exact renumberAll_count (fun d member k => ih d member) enough

private theorem renumberAll_none (none' : ∀ d ∈ array, ∀ k, (renumber [] d k).2 = k) (k : Nat) :
    (renumberAll [] array k).2 = k := by
  induction array generalizing k with
  | nil => rfl
  | cons d rest ih =>
    simp only [renumberAll]
    rw [none' d List.mem_cons_self k]
    exact ih (fun d member => none' d (List.mem_cons_of_mem _ member)) k

private theorem renumber_none (k : Nat) : (renumber [] d k).2 = k := by
  induction d using LaunchData.induction generalizing k with
  | scalar type word =>
    cases type with
    | fd => simp [renumber]
    | _ => rfl
  | aggregate type array ih => exact renumberAll_none ih k
  | _ => rfl

mutual
private theorem descriptors_uncollected (d : LaunchData) : descriptors false d = [] := by
  cases d with
  | scalar type word => cases type <;> rfl
  | aggregate type array => exact descriptorsAll_uncollected array
  | _ => rfl
theorem descriptorsAll_uncollected (array : List LaunchData) : descriptorsAll false array = [] := by
  cases array with
  | nil => rfl
  | cons d rest => rw [descriptorsAll,descriptors_uncollected d,descriptorsAll_uncollected rest,List.nil_append]
end

/-- All the descriptors received are used, whether packing collected them or not. -/
theorem renumber_all {received : List Int32} (same : received.length = (descriptors collect d).length) :
    (renumber received d 0).2 = received.length := by
  cases collect with
  | true => rw [renumber_count (by omega),same,Nat.zero_add]
  | false =>
    rw [descriptors_uncollected,List.length_nil] at same
    obtain rfl := List.eq_nil_of_length_eq_zero same
    exact renumber_none 0

/-! ## There and back -/

/-- Trees packed one after another: each call gets the rest of the buffer, as
the calls for the elements of an aggregate do. -/
def packSequence (collect : Bool) (trees : List LaunchData) (memory : Bytes) : Option Packed :=
  packElements collect trees 0 memory []

def unpackSequence (fds : List Int32) (base : UInt64) (depth : Nat) : Nat → Decoder → Run (List LaunchData)
  | 0, s => .value [] s
  | n+1, s =>
    match launchDataUnpack fds base depth s with
    | .deep => .deep
    | .fault => .fault
    | .null next => .null next
    | .value d next => (unpackSequence fds base depth n next).map (d :: ·)

/-- What was packed, alone in a buffer, is unpacked to the same tree with the
received descriptors in place of those sent, and nothing is left over. -/
def RoundTrips (collect : Bool) (d : LaunchData) (memory : Bytes) : Prop :=
  ∃ packed, launchDataPack collect d memory [] = some packed ∧ packed.size = wireSize d ∧
    ∀ (received : List Int32) (base : UInt64) (errno : Option Errno) (depth : Nat),
      received.length = packed.fds.length → packed.size < depth →
      ∃ s, launchDataUnpack received base depth ⟨packed.memory.take packed.size,0,0,errno⟩ =
          .value (renumber received d 0).1 s ∧
        s.dataOffset = packed.size ∧ s.fdoffset = received.length

def SequenceRoundTrips (collect : Bool) (trees : List LaunchData) (memory : Bytes) : Prop :=
  ∃ packed, packSequence collect trees memory = some packed ∧ packed.size = wireSizes trees ∧
    ∀ (received : List Int32) (base : UInt64) (errno : Option Errno) (depth : Nat),
      received.length = packed.fds.length → packed.size < depth →
      ∃ s, unpackSequence received base depth trees.length ⟨packed.memory.take packed.size,0,0,errno⟩ =
          .value (renumberAll received trees 0).1 s ∧
        s.dataOffset = packed.size ∧ s.fdoffset = received.length

private theorem unpackSequence_complete {o e k depth : Nat} {s : Decoder} (base : UInt64)
    (small : data.length < objectMax)
    (enough : data.length < o + depth) (lays : LaysAll data array o e) (stands : StandsAt data s o k) :
    ∃ next, unpackSequence fds base depth array.length s = .value (renumberAll fds array k).1 next ∧
      StandsAt data next e (renumberAll fds array k).2 := by
  induction array generalizing o s k with
  | nil =>
    obtain rfl := lays
    exact ⟨s,rfl,stands⟩
  | cons d rest ih =>
    obtain ⟨o',first,later⟩ := lays
    obtain ⟨next,decoded,there⟩ := @unpack_complete data s o o' k depth fds base d small enough first stands
    have extent := first.extent
    obtain ⟨last,decodedRest,ends⟩ := ih (by omega) later there
    refine ⟨last,?_,ends⟩
    rw [List.length_cons,unpackSequence,decoded]
    simp only
    rw [decodedRest]
    rfl

theorem Packable.roundTrips (packable : Packable d) {memory : Bytes} (room : wireSize d ≤ memory.length)
    (small : memory.length < objectMax) : RoundTrips collect d memory := by
  obtain ⟨wire,packed,size,encodes⟩ := @Packable.packs _ collect packable memory [] room small
  refine ⟨_,packed,rfl,?_⟩
  intro received base errno depth same enough
  have enough : wireSize d < depth := enough
  have alone : (wire ++ memory.drop (wireSize d)).take (wireSize d) = wire := by rw [← size,List.take_left]
  rw [List.nil_append] at same
  simp only [alone]
  have fits : wire.length < objectMax := by omega
  have lays : Lays wire d 0 (0 + wire.length) :=
    @wire_lays d wire [] wire [] fits encodes (by simp)
  obtain ⟨s,decoded,stands⟩ := @unpack_complete wire _ 0 _ 0 depth received base d fits (by omega) lays
    (.start wire 0 0 errno)
  refine ⟨s,decoded,?_,?_⟩
  · rw [stands.offset,size,Nat.zero_add]
  · rw [stands.fd,renumber_all same]

private theorem sequence_roundTrips {trees : List LaunchData} (packable : ∀ d ∈ trees, Packable d) {memory : Bytes}
    (room : wireSizes trees ≤ memory.length) (small : memory.length < objectMax) :
    SequenceRoundTrips collect trees memory := by
  obtain ⟨wire,packed,size,encodes⟩ := @packElements_wire trees collect
    (fun d member => (packable d member).packs) [] memory [] room small
  simp only [List.nil_append,List.length_nil,Nat.zero_add] at packed
  refine ⟨_,packed,rfl,?_⟩
  intro received base errno depth same enough
  have enough : wireSizes trees < depth := enough
  have alone : (wire ++ memory.drop (wireSizes trees)).take (wireSizes trees) = wire := by rw [← size,List.take_left]
  simp only [alone]
  have fits : wire.length < objectMax := by omega
  have lays : LaysAll wire trees 0 (0 + wire.length) :=
    @laysAll_wire wire wire trees (fun d _ => wire_lays d) [] [] fits encodes (by simp)
  obtain ⟨s,decoded,stands⟩ := @unpackSequence_complete wire trees received 0 _ 0 depth _ base fits (by omega) lays
    (.start wire 0 0 errno)
  refine ⟨s,decoded,?_,?_⟩
  · rw [stands.offset,size,Nat.zero_add]
  · rw [stands.fd]
    exact @renumber_all (.aggregate .array trees) collect received same

/-- The wire round trip of one tree, and of trees packed one after another. -/
theorem pack_unpack_round_trip (collect : Bool) (memory : Bytes) (small : memory.length < objectMax) :
    (∀ d, Packable d → wireSize d ≤ memory.length → RoundTrips collect d memory) ∧
    ∀ trees : List LaunchData, (∀ d ∈ trees, Packable d) → wireSizes trees ≤ memory.length →
      SequenceRoundTrips collect trees memory := by
  constructor
  · intro d packable room
    exact packable.roundTrips room small
  · intro trees packable room
    exact sequence_roundTrips packable room small

/-- `{"k": [5, 7]}`, where 5 is a descriptor. -/
def keyed : LaunchData :=
  .aggregate .dictionary [.string 1 [107,0],.aggregate .array [.scalar .fd 5,.scalar .integer 7]]

private theorem keyed_packable : Packable keyed := by
  have items : ∀ d ∈ [LaunchData.scalar .fd 5,.scalar .integer 7], Packable d := by
    simp only [List.forall_mem_cons]
    exact ⟨.scalar _ (by decide),.scalar _ (by decide),by simp⟩
  refine .aggregate _ (by decide) ?_
  simp only [List.forall_mem_cons]
  exact ⟨.string (by decide) (by decide),.aggregate _ (by decide) items,by simp⟩

theorem keyed_round_trip :
    RoundTrips true keyed (List.replicate 160 0) ∧
      SequenceRoundTrips true [keyed,keyed] (List.replicate 330 0) :=
  ⟨(pack_unpack_round_trip true _ (by rw [List.length_replicate]; decide)).1 keyed keyed_packable
      (by rw [List.length_replicate]; decide),
    (pack_unpack_round_trip true _ (by rw [List.length_replicate]; decide)).2 [keyed,keyed]
      (by simp [keyed_packable]) (by rw [List.length_replicate]; decide)⟩

end FreebsdLaunchd.Liblaunch
