import FreebsdLaunchd.Liblaunch.Layout

/-! The decoder and the layout of the bytes it was given. What a call writes
lies behind the offset it returns with, so the bytes ahead are always those of
the original buffer. -/
namespace FreebsdLaunchd.Liblaunch
open CData

/-! ## The decoder's position -/

/-- The decoder stands at `o` with the descriptor `k` next, and has changed
nothing ahead. -/
structure StandsAt (data : Bytes) (s : Decoder) (o k : Nat) : Prop where
  offset : s.dataOffset = o
  fd : s.fdoffset = k
  length : s.data.length = data.length
  ahead : s.data.drop o = data.drop o

variable {data : Bytes} {s next : Decoder} {o o' e i k n depth : Nat} {fds : List Int32} {base : UInt64}
variable {d : LaunchData} {array : List LaunchData} {type : Aggregate}

namespace StandsAt

theorem start (data : Bytes) (o k : Nat) (errno : Option Errno) : StandsAt data ⟨data,o,k,errno⟩ o k :=
  ⟨rfl,rfl,rfl,rfl⟩

private theorem longAt_eq (stands : StandsAt data s o k) (i : Nat) : longAt s.data (o+i) = longAt data (o+i) := by
  rw [← longAt_drop,stands.ahead,longAt_drop]

private theorem remaining_eq (stands : StandsAt data s o k) (small : data.length < objectMax) (inside : o ≤ data.length) :
    s.remaining = data.length - o := by
  simp only [objectMax] at small
  rw [Decoder.remaining,stands.length,stands.offset,sizeT]
  omega

/-- Past the end the difference wraps around and is enormous. -/
theorem remaining_past (stands : StandsAt data s o k) (past : data.length < o) (near : o ≤ data.length + 8) :
    nodeSize ≤ s.remaining := by
  rw [Decoder.remaining,stands.length,stands.offset,sizeT,nodeSize]
  omega

private theorem advance (stands : StandsAt data s o k) (fits : o + n < 2^64) : StandsAt data (s.advance n) (o+n) k where
  offset := by rw [Decoder.advance,stands.offset,sizeT_eq fits]
  fd := stands.fd
  length := stands.length
  ahead := by
    change s.data.drop (o+n) = _
    rw [← List.drop_drop,stands.ahead,List.drop_drop]

theorem poke (stands : StandsAt data s o k) (slot : Nat) (w : UInt64) (room : slot + 8 ≤ data.length)
    (behind : slot + 8 ≤ o) : StandsAt data (s.poke slot w) o k where
  offset := stands.offset
  fd := stands.fd
  length := by
    rw [← stands.length]
    exact overwrite_length (by rw [longBytes_length,stands.length]; exact room)
  ahead := by
    rw [← stands.ahead]
    apply overwrite_drop
    · rw [longBytes_length,stands.length]
      exact room
    · rw [longBytes_length]
      exact behind

private theorem withErrno (stands : StandsAt data s o k) (errno : Option Errno) :
    StandsAt data {s with errno := errno} o k :=
  ⟨stands.offset,stands.fd,stands.length,stands.ahead⟩

end StandsAt

/-! ## One call -/

section Call
variable (stands : StandsAt data s o k) (small : data.length < objectMax)
include stands small

theorem unpack_short (inside : o ≤ data.length) (short : data.length < o + nodeSize) :
    launchDataUnpack fds base (depth+1) s = .null s := by
  have less := stands.remaining_eq small inside
  simp only [launchDataUnpack]
  rw [if_pos (by omega)]

omit small in
theorem unpack_past (past : data.length < o) (near : o ≤ data.length + 8) :
    launchDataUnpack fds base (depth+1) s = .fault := by
  have wrapped := stands.remaining_past past near
  simp only [launchDataUnpack]
  rw [if_neg (by omega),if_pos (by rw [stands.length,stands.offset]; omega)]

private theorem unpack_enter (inside : o + nodeSize ≤ data.length) :
    launchDataUnpack fds base (depth+1) s =
      unpackSwitch fds base (launchDataUnpack fds base depth) o (valueAt data o) (countAt data o)
        (s.advance nodeSize) (DataType.ofWord (longAt data o)) := by
  have room := stands.remaining_eq small (by omega)
  have here := stands.longAt_eq 0
  simp only [Nat.add_zero] at here
  simp only [launchDataUnpack]
  rw [if_neg (by omega),if_neg (by rw [stands.length,stands.offset]; omega),stands.offset,here,stands.longAt_eq,
    stands.longAt_eq]
  rfl

private theorem enter_stands (inside : o + nodeSize ≤ data.length) :
    StandsAt data (s.advance nodeSize) (o+nodeSize) k := by
  apply stands.advance
  simp only [objectMax] at small
  omega

private theorem unpack_unknown (inside : o + nodeSize ≤ data.length) (unknown : DataType.ofWord (longAt data o) = none) :
    ∃ next, launchDataUnpack fds base (depth+1) s = .null next ∧ StandsAt data next (o+nodeSize) k := by
  rw [unpack_enter stands small inside,unknown]
  exact ⟨_,rfl,(enter_stands stands small inside).withErrno _⟩

private theorem unpack_scalar {type : Scalar} (node : NodeAt data o (.scalar type)) :
    ∃ next, launchDataUnpack fds base (depth+1) s =
        .value (renumber fds (.scalar type (valueAt data o)) k).1 next ∧
      StandsAt data next (o+nodeSize) (renumber fds (.scalar type (valueAt data o)) k).2 := by
  have entered := enter_stands stands small node.inside
  rw [unpack_enter stands small node.inside,node.typed]
  cases type with
  | fd =>
    simp only [unpackSwitch,renumber,entered.fd]
    split
    · have poked := entered.poke (o+8) (fds.getD k 0).toInt64.toUInt64 (Nat.le_trans (by simp [nodeSize]) node.inside)
        (show o + 8 + 8 ≤ o + nodeSize by simp [nodeSize])
      exact ⟨_,rfl,poked.offset,rfl,poked.length,poked.ahead⟩
    · exact ⟨_,rfl,entered⟩
  | _ => exact ⟨_,rfl,entered⟩

/-- The pointer word of the node at `o` may be overwritten: it lies behind. -/
theorem pointer_stands (inside : o + nodeSize ≤ data.length) (w : UInt64) :
    StandsAt data ((s.advance nodeSize).poke (o+8) w) (o+nodeSize) k := by
  apply (enter_stands stands small inside).poke
  · simp only [nodeSize] at inside
    omega
  · simp [nodeSize]

private theorem unpack_unfit {type : DataType} (node : NodeAt data o type)
    (unfit : data.length < o + nodeSize + compared type (countAt data o)) :
    ∃ next, launchDataUnpack fds base (depth+1) s = .null next ∧ StandsAt data next (o+nodeSize) k := by
  have entered := enter_stands stands small node.inside
  have room := entered.remaining_eq small node.inside
  have inside := node.inside
  rw [unpack_enter stands small node.inside,node.typed]
  cases type with
  | scalar type => exact absurd unfit (by simpa [compared] using inside)
  | _ =>
    simp only [compared] at unfit
    simp only [unpackSwitch]
    rw [if_pos (by omega)]
    exact ⟨_,rfl,entered.withErrno _⟩

theorem unpack_string (node : NodeAt data o .string)
    (fits : o + nodeSize + sizeT ((countAt data o).toNat+1) ≤ data.length) :
    ∃ next, launchDataUnpack fds base (depth+1) s =
        .value (.string (countAt data o) ((data.drop (o+nodeSize)).take ((countAt data o).toNat+1))) next ∧
      StandsAt data next (o + nodeSize + roundToWord (sizeT ((countAt data o).toNat+1))) k := by
  have entered := enter_stands stands small node.inside
  have room := entered.remaining_eq small node.inside
  have poked := pointer_stands stands small node.inside (base + UInt64.ofNat (o+nodeSize))
  rw [unpack_enter stands small node.inside,node.typed]
  simp only [unpackSwitch]
  rw [if_neg (by omega),entered.offset,poked.ahead]
  refine ⟨_,rfl,poked.advance ?_⟩
  simp only [objectMax,roundToWord,sizeT,nodeSize] at small fits ⊢
  omega

theorem unpack_opaqueData (node : NodeAt data o .opaqueData)
    (fits : o + nodeSize + (countAt data o).toNat ≤ data.length) :
    ∃ next, launchDataUnpack fds base (depth+1) s =
        .value (.opaqueData (countAt data o) ((data.drop (o+nodeSize)).take (countAt data o).toNat)) next ∧
      StandsAt data next (o + nodeSize + roundToWord (countAt data o).toNat) k := by
  have entered := enter_stands stands small node.inside
  have room := entered.remaining_eq small node.inside
  have poked := pointer_stands stands small node.inside (base + UInt64.ofNat (o+nodeSize))
  rw [unpack_enter stands small node.inside,node.typed]
  simp only [unpackSwitch]
  rw [if_neg (by omega),entered.offset,poked.ahead]
  refine ⟨_,rfl,poked.advance ?_⟩
  simp only [objectMax,roundToWord,sizeT,nodeSize] at small fits ⊢
  omega

theorem unpack_aggregate (node : NodeAt data o (.aggregate type))
    (fits : firstElement o (countAt data o).toNat ≤ data.length) :
    ∃ next, launchDataUnpack fds base (depth+1) s =
        (unpackElements (launchDataUnpack fds base depth) base (o+nodeSize) (countAt data o).toNat 0 next).map
          (.aggregate type) ∧
      StandsAt data next (firstElement o (countAt data o).toNat) k := by
  have entered := enter_stands stands small node.inside
  have room := entered.remaining_eq small node.inside
  have poked := pointer_stands stands small node.inside (base + UInt64.ofNat (o+nodeSize))
  simp only [firstElement] at fits
  rw [unpack_enter stands small node.inside,node.typed]
  simp only [unpackSwitch]
  rw [if_neg (by omega),entered.offset]
  refine ⟨_,rfl,poked.advance ?_⟩
  simp only [objectMax] at small
  omega

end Call

/-! ## What is laid out is decoded -/

theorem store_eq {α : Type} {slot : Nat} (stands : StandsAt data s o k) (room : slot + 8 ≤ data.length)
    (w : UInt64) (then' : Decoder → Run α) : store s slot w then' = then' (s.poke slot w) := by
  rw [store,if_neg (by rw [stands.length]; omega)]

/-- The call decodes `d` wherever it is laid out from `low` on. -/
def Decodes (data : Bytes) (fds : List Int32) (unpack : Decoder → Run LaunchData) (low : Nat) (d : LaunchData) : Prop :=
  ∀ {s o e k}, low ≤ o → Lays data d o e → StandsAt data s o k →
    ∃ next, unpack s = .value (renumber fds d k).1 next ∧ StandsAt data next e (renumber fds d k).2

private theorem unpackElements_complete (base : UInt64) {unpack : Decoder → Run LaunchData} {low slots : Nat}
    (decodes : ∀ d ∈ array, Decodes data fds unpack low d) (behind : slots + i*8 ≤ o) (above : low ≤ o)
    (lays : LaysAll data array o e) (stands : StandsAt data s o k) :
    ∃ next, unpackElements unpack base slots array.length i s = .value (renumberAll fds array k).1 next ∧
      StandsAt data next e (renumberAll fds array k).2 := by
  induction array generalizing o s k i with
  | nil =>
    obtain rfl := lays
    exact ⟨s,rfl,stands⟩
  | cons d rest ih =>
    obtain ⟨o',first,later⟩ := lays
    obtain ⟨next,decoded,there⟩ := decodes d List.mem_cons_self above first stands
    obtain ⟨_,node⟩ := first.node
    have inside := node.inside
    have extent := first.extent
    simp only [nodeSize] at inside extent
    have poked := there.poke (slots + i*8) (base + UInt64.ofNat s.dataOffset) (by omega) (by omega)
    obtain ⟨last,decodedRest,ends⟩ := ih (i := i+1) (fun d member => decodes d (List.mem_cons_of_mem _ member))
      (by omega) (by omega) later poked
    refine ⟨last,?_,ends⟩
    rw [List.length_cons,unpackElements,decoded]
    simp only
    rw [store_eq there (by omega),decodedRest]
    rfl

theorem deep_enough {type : DataType} (node : NodeAt data o type) (enough : data.length < o + depth) :
    ∃ less, depth = less+1 := by
  have inside := node.inside
  exact Nat.exists_eq_succ_of_ne_zero (by omega)

theorem unpack_complete (small : data.length < objectMax) (enough : data.length < o + depth)
    (lays : Lays data d o e) (stands : StandsAt data s o k) :
    ∃ next, launchDataUnpack fds base depth s = .value (renumber fds d k).1 next ∧
      StandsAt data next e (renumber fds d k).2 := by
  induction d using LaunchData.induction generalizing o e s k depth with
  | null => exact absurd lays id
  | scalar type word =>
    obtain ⟨node,rfl,rfl⟩ := lays
    obtain ⟨depth,rfl⟩ := deep_enough node enough
    exact unpack_scalar stands small node
  | string len memory =>
    obtain ⟨node,rfl,fits,rfl,rfl⟩ := lays
    obtain ⟨depth,rfl⟩ := deep_enough node enough
    exact unpack_string stands small node fits
  | opaqueData size memory =>
    obtain ⟨node,rfl,fits,rfl,rfl⟩ := lays
    obtain ⟨depth,rfl⟩ := deep_enough node enough
    exact unpack_opaqueData stands small node fits
  | aggregate type array ih =>
    obtain ⟨node,count,fits,elements⟩ := lays
    obtain ⟨depth,rfl⟩ := deep_enough node enough
    rw [← count] at fits
    obtain ⟨first,entered,there⟩ := @unpack_aggregate data s o k depth fds base type stands small node fits
    rw [count] at entered there
    -- the elements lie further on, where one call less suffices
    have decodes : ∀ d ∈ array, Decodes data fds (launchDataUnpack fds base depth) (o+1) d := by
      intro d member s o' e k above lays stands
      exact ih d member (by omega) lays stands
    have behind : o + nodeSize + 0*8 ≤ firstElement o array.length := by
      simp only [firstElement]
      omega
    have above : o + 1 ≤ firstElement o array.length := by
      simp only [firstElement,nodeSize]
      omega
    obtain ⟨next,decoded,ends⟩ := unpackElements_complete base decodes behind above elements there
    refine ⟨next,?_,ends⟩
    rw [entered,decoded]
    rfl

/-! ## What is decoded is laid out -/

/-- Past the end of the buffer only by the padding of a node that overruns. -/
structure EndsAt (data : Bytes) (o e : Nat) : Prop where
  near : e ≤ data.length + 8
  overrun : data.length < e → Hazard data o

theorem EndsAt.of_le (inside : e ≤ data.length) : EndsAt data o e :=
  ⟨by omega,fun beyond => absurd inside (Nat.not_le.mpr beyond)⟩

structure StopsIn (data : Bytes) (fds : List Int32) (s : Decoder) : Prop where
  offset : s.dataOffset ≤ data.length
  fd : s.fdoffset ≤ fds.length
  length : s.data.length = data.length

/-- What a call that begins at `o` with the descriptor `k` may end in. -/
def Describes (data : Bytes) (fds : List Int32) (o k : Nat) : Run LaunchData → Prop
  | .deep => False
  | .fault => Hazard data o
  | .null next => StopsIn data fds next
  | .value d next => ∃ sent e, Lays data sent o e ∧ d = (renumber fds sent k).1 ∧
      StandsAt data next e (renumber fds sent k).2 ∧ EndsAt data o e

/-- The same for the loop over the elements of the aggregate at `o`. -/
def DescribesAll (data : Bytes) (fds : List Int32) (o first todo k : Nat) : Run (List LaunchData) → Prop
  | .deep => False
  | .fault => Hazard data o
  | .null next => StopsIn data fds next
  | .value array next => ∃ sent e, sent.length = todo ∧ LaysAll data sent first e ∧
      array = (renumberAll fds sent k).1 ∧ StandsAt data next e (renumberAll fds sent k).2 ∧ EndsAt data o e

private theorem renumberAll_le (le : ∀ d ∈ array, ∀ k ≤ fds.length, (renumber fds d k).2 ≤ fds.length)
    (fd : k ≤ fds.length) : (renumberAll fds array k).2 ≤ fds.length := by
  induction array generalizing k with
  | nil => exact fd
  | cons d rest ih =>
    exact ih (fun d member => le d (List.mem_cons_of_mem _ member)) (le d List.mem_cons_self k fd)

theorem renumber_le (fd : k ≤ fds.length) : (renumber fds d k).2 ≤ fds.length := by
  induction d using LaunchData.induction generalizing k with
  | null => exact fd
  | scalar type word =>
    cases type with
    | fd =>
      simp only [renumber]
      split
      · rename_i more
        simp only [Bool.and_eq_true,decide_eq_true_eq] at more
        exact more.2
      · exact fd
    | _ => exact fd
  | string len memory => exact fd
  | opaqueData size memory => exact fd
  | aggregate type array ih => exact renumberAll_le (fun d member k => ih d member) fd

theorem StandsAt.stopsIn (stands : StandsAt data s o k) (inside : o ≤ data.length) (fd : k ≤ fds.length) :
    StopsIn data fds s where
  offset := stands.offset ▸ inside
  fd := stands.fd ▸ fd
  length := stands.length

/-- Where the first element pointer has no place, nothing else has: the count
wrapped to nothing. -/
theorem overruns_of_slot {before : List LaunchData} (node : NodeAt data o (.aggregate type))
    (more : before.length < (countAt data o).toNat)
    (laid : LaysAll data before (firstElement o (countAt data o).toNat) o') (inside : o' ≤ data.length)
    (outside : data.length < o + nodeSize + before.length*8 + 8) : Overruns data o := by
  have extent := laid.extent
  simp only [firstElement,nodeSize,sizeT] at extent outside
  refine .inr ⟨type,node,?_,?_,?_⟩
  · intro zero
    rw [zero] at more
    exact absurd more (Nat.not_lt_zero _)
  · simp only [compared,sizeT]
    omega
  · simp only [nodeSize]
    omega

theorem DescribesAll.cons {todo : Nat} {rest : Run (List LaunchData)} (lays : Lays data d o' e)
    (described : DescribesAll data fds o e todo (renumber fds d k).2 rest) :
    DescribesAll data fds o o' (todo+1) k (rest.map ((renumber fds d k).1 :: ·)) := by
  cases rest with
  | deep => exact described
  | fault => exact described
  | null next => exact described
  | value array next =>
    obtain ⟨sent,e',length,laid,rfl,stands,ends⟩ := described
    exact ⟨d::sent,e',congrArg (·+1) length,⟨e,lays,laid⟩,rfl,stands,ends⟩

private theorem unpackElements_sound (base : UInt64) {unpack : Decoder → Run LaunchData} {before : List LaunchData}
    {todo : Nat} (node : NodeAt data o (.aggregate type))
    (room : firstElement o (countAt data o).toNat ≤ data.length)
    (sound : ∀ {s m k}, o < m → m ≤ data.length → k ≤ fds.length → StandsAt data s m k →
      Describes data fds m k (unpack s))
    (past : ∀ {s m k}, data.length < m → m ≤ data.length + 8 → StandsAt data s m k → unpack s = .fault)
    (count : before.length + todo = (countAt data o).toNat)
    (laid : LaysAll data before (firstElement o (countAt data o).toNat) o')
    (stands : StandsAt data s o' k) (fd : k ≤ fds.length) (ends : EndsAt data o o') :
    DescribesAll data fds o o' todo k (unpackElements unpack base (o+nodeSize) todo before.length s) := by
  induction todo generalizing before o' s k with
  | zero => exact ⟨[],o',rfl,rfl,rfl,stands,ends⟩
  | succ todo ih =>
    rw [unpackElements]
    by_cases inside : o' ≤ data.length
    · have element : ElementAt data o before.length o' :=
        ⟨type,node,room,by omega,before,rfl,laid⟩
      have extent := laid.extent
      have above : o < o' := by
        simp only [firstElement,nodeSize] at extent
        omega
      have described := sound above inside fd stands
      cases result : unpack s with
      | deep =>
        rw [result] at described
        exact described
      | fault =>
        rw [result] at described
        exact .of_element element described
      | null next =>
        rw [result] at described
        simp only [store]
        split
        · rename_i outside
          rw [described.length] at outside
          exact .here (overruns_of_slot node (by omega) laid inside outside)
        · rename_i slot
          rw [described.length] at slot
          refine ⟨described.offset,described.fd,?_⟩
          rw [← described.length]
          apply overwrite_length
          rw [longBytes_length,described.length]
          omega
      | value d next =>
        rw [result] at described
        obtain ⟨sent,e,lays,rfl,there,far⟩ := described
        obtain ⟨_,here⟩ := lays.node
        have whole := here.inside
        have long := lays.extent
        simp only [firstElement,nodeSize] at extent whole long
        have slot : o + nodeSize + before.length*8 + 8 ≤ data.length := by
          simp only [nodeSize]
          omega
        have behind : o + nodeSize + before.length*8 + 8 ≤ e := by
          simp only [nodeSize]
          omega
        simp only
        rw [store_eq there slot]
        have poked := there.poke _ (base + UInt64.ofNat s.dataOffset) slot behind
        have laid' : LaysAll data (before ++ [sent]) (firstElement o (countAt data o).toNat) e :=
          laysAll_append.mpr ⟨o',laid,e,lays,rfl⟩
        have count' : (before ++ [sent]).length + todo = (countAt data o).toNat := by
          rw [List.length_append,List.length_singleton]
          omega
        have rest := ih count' laid' poked (renumber_le fd)
          ⟨far.near,fun beyond => .of_element element (far.overrun beyond)⟩
        rw [List.length_append,List.length_singleton] at rest
        exact rest.cons lays
    · have fault := past (by omega) ends.near stands
      simp only [fault]
      exact ends.overrun (by omega)

theorem DescribesAll.aggregate {rest : Run (List LaunchData)} (node : NodeAt data o (.aggregate type))
    (room : firstElement o (countAt data o).toNat ≤ data.length)
    (described : DescribesAll data fds o (firstElement o (countAt data o).toNat) (countAt data o).toNat k rest) :
    Describes data fds o k (rest.map (.aggregate type)) := by
  cases rest with
  | deep => exact described
  | fault => exact described
  | null next => exact described
  | value array next =>
    obtain ⟨sent,e,length,laid,rfl,stands,ends⟩ := described
    rw [← length] at laid room
    exact ⟨.aggregate type sent,e,⟨node,length.symm,room,laid⟩,rfl,stands,ends⟩

/-- A length that fits is padded by less than a word. -/
theorem padded_near {type : DataType} (small : data.length < objectMax)
    (fits : o + nodeSize + compared type (countAt data o) ≤ data.length) :
    o + nodeSize + roundToWord (compared type (countAt data o)) ≤ data.length + 8 := by
  simp only [objectMax,roundToWord,sizeT] at small ⊢
  omega

/-- Every call on a buffer that memory can hold, from an offset within it. -/
theorem unpack_sound (small : data.length < objectMax) (enough : data.length < o + depth) (inside : o ≤ data.length)
    (fd : k ≤ fds.length) (stands : StandsAt data s o k) :
    Describes data fds o k (launchDataUnpack fds base depth s) := by
  induction depth generalizing s o k with
  | zero => omega
  | succ depth ih =>
    by_cases short : data.length < o + nodeSize
    · rw [unpack_short stands small inside short]
      exact stands.stopsIn inside fd
    · have whole : o + nodeSize ≤ data.length := by omega
      cases typed : DataType.ofWord (longAt data o) with
      | none =>
        obtain ⟨next,result,there⟩ := @unpack_unknown data s o k depth fds base stands small whole typed
        rw [result]
        exact there.stopsIn whole fd
      | some type =>
        have node : NodeAt data o type := ⟨whole,typed⟩
        by_cases fits : o + nodeSize + compared type (countAt data o) ≤ data.length
        · have padding : EndsAt data o (o + nodeSize + roundToWord (compared type (countAt data o))) :=
            ⟨padded_near small fits,fun beyond => .here (.inl ⟨type,node,fits,beyond⟩)⟩
          cases type with
          | scalar type =>
            obtain ⟨next,result,there⟩ := @unpack_scalar data s o k depth fds base stands small type node
            rw [result]
            have ends : EndsAt data o (o+nodeSize) := .of_le whole
            exact ⟨.scalar type (valueAt data o),_,⟨node,rfl,rfl⟩,rfl,there,ends⟩
          | string =>
            obtain ⟨next,result,there⟩ := @unpack_string data s o k depth fds base stands small node fits
            rw [result]
            exact ⟨.string (countAt data o) _,_,⟨node,rfl,fits,rfl,rfl⟩,rfl,there,padding⟩
          | opaqueData =>
            obtain ⟨next,result,there⟩ := @unpack_opaqueData data s o k depth fds base stands small node fits
            rw [result]
            exact ⟨.opaqueData (countAt data o) _,_,⟨node,rfl,fits,rfl,rfl⟩,rfl,there,padding⟩
          | aggregate type =>
            obtain ⟨first,result,there⟩ := @unpack_aggregate data s o k depth fds base type stands small node fits
            rw [result]
            apply DescribesAll.aggregate node fits
            obtain ⟨less,rfl⟩ := Nat.exists_eq_succ_of_ne_zero (show depth ≠ 0 by simp only [nodeSize] at whole; omega)
            have laid : LaysAll data [] (firstElement o (countAt data o).toNat) _ := rfl
            apply unpackElements_sound base node fits _ _ (Nat.zero_add _) laid there fd (.of_le fits)
            · intro s m k above inside fd stands
              exact ih (by omega) inside fd stands
            · intro s m k past near stands
              exact unpack_past stands past near
        · obtain ⟨next,result,there⟩ := @unpack_unfit data s o k depth fds base stands small type node (by omega)
          rw [result]
          exact there.stopsIn whole fd

end FreebsdLaunchd.Liblaunch
