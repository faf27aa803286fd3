import FreebsdLaunchd.Liblaunch.Duplex

/-! What goes over a connection. As long as no message has been put off, what
has not been read yet is made of messages. A message that was put off comes
without its header, and whoever reads that far is told so. -/
namespace FreebsdLaunchd.Liblaunch
open CData

variable {malloc : Malloc} {lh lh' : Launch} {errno : Option MsgErrno} {w : Wire} {d : LaunchData}

/-! ## Sending -/

/-- Bytes that a packed tree begins, where a header is looked for. -/
def Headless (bytes : Bytes) : Prop :=
  ∃ (type : DataType) (rest : Bytes), bytes = longBytes type.word ++ rest ∧ 8 ≤ rest.length

theorem Headless.append {bytes : Bytes} (headless : Headless bytes) (more : Bytes) : Headless (bytes ++ more) := by
  obtain ⟨type,rest,rfl,enough⟩ := headless
  refine ⟨type,rest ++ more,List.append_assoc ..,?_⟩
  rw [List.length_append]
  omega

theorem Headless.length {bytes : Bytes} (headless : Headless bytes) : headerSize ≤ bytes.length := by
  obtain ⟨type,rest,rfl,enough⟩ := headless
  rw [List.length_append,longBytes_length]
  exact Nat.add_le_add_left enough 8

theorem Headless.magic {bytes front rest : Bytes} (headless : Headless bytes) (ahead : bytes = front ++ rest)
    (enough : headerSize ≤ front.length) : longAt front 0 ≠ headerMagic := by
  obtain ⟨type,later,rfl,_⟩ := headless
  have long : 8 ≤ front.length := Nat.le_trans (by decide) enough
  have begins : front = longBytes type.word ++ front.drop 8 := by
    have first := congrArg (List.take 8) ahead
    rw [List.take_left' (longBytes_length _),List.take_append_of_le_length long] at first
    rw [first,List.take_append_drop]
  have word := longAt_longBytes [] type.word (front.drop 8)
  rw [List.nil_append,← begins,List.length_nil] at word
  rw [word]
  rcases type with (_ | _) | (_ | _ | _ | _ | _ | _) | _ | _ <;> decide

theorem Encodes.headless {body : Bytes} (encodes : Encodes d body) : Headless body := by
  cases d with
  | null => exact encodes.elim
  | scalar type word =>
    obtain ⟨unused,_,rfl⟩ := encodes
    exact ⟨_,_,rfl,by simp⟩
  | string len memory =>
    obtain ⟨_,pointer,_,rfl⟩ := encodes
    exact ⟨_,_,rfl,by simp; omega⟩
  | opaqueData size memory =>
    obtain ⟨_,pointer,_,rfl⟩ := encodes
    exact ⟨_,_,rfl,by simp; omega⟩
  | aggregate type array =>
    obtain ⟨pointer,slots,body,_,_,_,rfl⟩ := encodes
    exact ⟨_,_,rfl,by simp; omega⟩

/-- A process goes on after such a call. -/
def Benign (errno : Option MsgErrno) : Prop := errno = none ∨ errno = some .EAGAIN

theorem Benign.not_fails (benign : Benign errno) : ¬ (Ended.returned errno lh).Fails := by
  rcases benign with rfl | rfl
  · exact id
  · exact fun fails => fails rfl

/-- What a call leaves in the buffer and on the wire when it goes well. -/
structure Moved (header : Bytes) (lh lh' : Launch) (w : Wire) : Prop where
  first : w.bytes ≠ []
  bytes : w.bytes ++ lh'.pending.bytes = header ++ lh.pending.bytes
  rights : w.rights = lh.pending.rights
  rest : lh'.sendlen > 0 → lh'.Ready
  fds : lh'.sendfdcnt = 0

private theorem transmit_goes_on {header : Bytes} {result : SendResult} (ready : lh.Ready)
    (ended : transmit lh header result = (.returned errno lh',w)) (benign : Benign errno) :
    result = .error .EAGAIN ∧ w = .empty ∧ lh' = lh ∨ result ≠ .error .EAGAIN ∧ Moved header lh lh' w := by
  have inside := ready.inside
  have left := ready.left
  have offered : (header ++ lh.sendbuf.take lh.sendlen).length = header.length + lh.sendlen := by simp [inside]
  cases taken : result.taken (header ++ lh.sendbuf.take lh.sendlen).length with
  | zero =>
    cases result with
    | error errno' =>
      cases ended
      rcases benign with none | again
      · cases none
      · exact .inl ⟨congrArg SendResult.error (Option.some.inj again),rfl,rfl⟩
    | _ =>
      simp only [transmit,taken,if_true] at ended
      cases ended
      rcases benign with none | again
      · cases none
      · cases again
  | succ r =>
    right
    have within : r+1 ≤ header.length + lh.sendlen := by
      rw [← taken,← offered]
      cases result with
      | error => exact Nat.zero_le _
      | count n => exact Nat.min_le_right ..
      | all => exact Nat.le_refl _
    have some : result ≠ .error .EAGAIN := by
      rintro rfl
      cases taken
    by_cases past : header.length ≤ r+1
    · obtain ⟨next,called,onward,pending,_,fds⟩ := transmit_taken ready taken (Nat.succ_pos r) past within
      rw [called] at ended
      cases ended
      refine ⟨some,?_,?_,rfl,onward,fds⟩
      · intro nothing
        have length := congrArg List.length nothing
        have pends : lh.pending.bytes.length = lh.sendlen := by simp [Launch.pending,inside]
        simp only [List.length_append,List.length_take,pends,List.length_nil] at length
        omega
      · rw [pending,List.append_assoc,List.take_append_drop]
    · rw [transmit_eq taken (Nat.succ_pos r)] at ended
      simp only [if_pos (Nat.lt_of_not_le past)] at ended
      cases ended

private theorem packed_headless (packable : Packable d) {block : Bytes} {packed : Packed}
    (packs : launchDataPack true d block [] = some packed) (fits : wireSize d ≤ block.length)
    (small : block.length < objectMax) : Headless (packed.memory.take packed.size) := by
  obtain ⟨body,same,length,encodes⟩ := @Packable.packs d true packable block [] fits small
  obtain rfl := Option.some.inj (packs.symm.trans same)
  rw [List.take_left' length]
  exact encodes.headless

/-- What a first call has done that has not failed: it has put the message off
without its header, or has begun it. -/
inductive Begun (malloc : Malloc) (d : LaunchData) (result : SendResult) (lh' : Launch) (w : Wire) : Prop
  | putOff (lost : result = .error .EAGAIN) (nothing : w = .empty) (ready : lh'.Ready)
      (headless : Headless lh'.pending.bytes)
  | begun (taken : result ≠ .error .EAGAIN) (block : Bytes) (packed : Packed)
      (granted : malloc.block goodEnoughSize = some block) (packs : launchDataPack true d block [] = some packed)
      (positive : packed.size ≠ 0) (first : w.bytes ≠ [])
      (bytes : w.bytes ++ lh'.pending.bytes =
        headerBytes (UInt64.ofNat (headerSize + packed.size)) ++ packed.memory.take packed.size)
      (rights : w.rights.flatten = packed.fds) (rest : lh'.sendlen > 0 → lh'.Ready) (fds : lh'.sendfdcnt = 0)

theorem launchdMsgSend_begun (packable : Packable d) (idle : lh.sendlen = 0) {result : SendResult}
    (ended : launchdMsgSend malloc lh (some d) result = (.returned errno lh',w)) (benign : Benign errno) :
    Begun malloc d result lh' w := by
  have sendable := sendable_of_works packable idle (by rw [ended]; exact benign.not_fails)
  obtain ⟨block,packed,next,granted,packs,called,ready,size,pending⟩ :=
    launchdMsgSend_first packable idle sendable result
  have sized := malloc.sized _ _ granted
  rw [called] at ended
  rcases transmit_goes_on ready ended benign with ⟨lost,nothing,rfl⟩ | ⟨taken,moved⟩
  · refine .putOff lost nothing ready ?_
    rw [pending]
    exact packed_headless packable packs (by rw [sized]; exact sendable.fits) (by rw [sized]; decide)
  · have left := ready.left
    refine .begun taken block packed granted packs (by omega) moved.first ?_ ?_ moved.rest moved.fds
    · rw [moved.bytes,pending]
      rfl
    · rw [moved.rights,pending]
      cases packed.fds <;> simp

theorem launchdMsgSend_goes_on {result : SendResult} (ready : lh.Ready)
    (ended : launchdMsgSend malloc lh none result = (.returned errno lh',w)) (benign : Benign errno) :
    w = .empty ∧ lh' = lh ∨ Moved [] lh lh' w := by
  rw [launchdMsgSend_retry malloc ready] at ended
  rcases transmit_goes_on ready ended benign with ⟨_,nothing,same⟩ | ⟨_,moved⟩
  · exact .inl ⟨nothing,same⟩
  · exact .inr moved

/-! ## Receiving -/

variable {messages : List Message} {left rest tail c : Carried} {base : UInt64}

/-- Less is held than the next message has, or than a header where none is to come. -/
def Short (left : Carried) (messages : List Message) : Prop :=
  left.length < (messages.head?.map fun m => m.carried.length).getD headerSize

/-- What is held when the loop has ended: less than the next message of those
on their way, which the tail follows. -/
structure Launch.Waits (lh : Launch) (left rest : Carried) (messages : List Message) (tail : Carried) : Prop
    extends lh.Holds left where
  stream : left ++ rest = messages.flatMap Message.carried ++ tail
  short : Short left messages

/-- What is sent behind the tail makes it longer. -/
theorem Launch.Waits.more (waits : lh.Waits left rest messages tail) (c : Carried) :
    lh.Waits left (rest ++ c) messages (tail ++ c) := by
  refine ⟨waits.toHolds,?_,waits.short⟩
  rw [← List.append_assoc,waits.stream,List.append_assoc]

/-- Where the header is looked for in the tail, there is none. -/
def Strange (tail : Carried) : Prop :=
  ∀ front : Carried, front <+: tail → headerSize ≤ front.length → longAt front.bytes 0 ≠ headerMagic

/-- A round that has nothing but the tail in front of it. -/
theorem receiveRound_tail (holds : lh.Holds left) (inTail : left <+: tail) (strange : Strange tail) :
    (∃ errno, Benign errno ∧ receiveRound base lh = .ends (.returned errno lh) [] ∧ left.length < headerSize) ∨
      receiveRound base lh = .ends (.returned (some .EBADRPC) lh) [] ∧ tail ≠ [] := by
  have length : lh.recvbuf.length = left.length := by rw [holds.bytes,Carried.bytes_length]
  by_cases empty : lh.recvbuf.length = 0
  · refine .inl ⟨none,.inl rfl,?_,?_⟩
    · rw [receiveRound,if_pos empty]
    · rw [← length,empty]
      decide
  · by_cases short : lh.recvbuf.length < headerSize
    · refine .inl ⟨some .EAGAIN,.inr rfl,?_,by omega⟩
      rw [receiveRound,if_neg empty,if_pos short]
    · right
      have odd := strange left inTail (by omega)
      rw [← holds.bytes] at odd
      refine ⟨?_,?_⟩
      · simp only [receiveRound,if_neg empty,if_neg short,if_pos (Or.inl odd)]
      · rintro rfl
        rw [List.prefix_nil.mp inTail] at length
        exact empty length

/-- The loop gives the callback every message that is there as a whole, and
fails only when it gets to the tail. -/
theorem deliver_waits {given : List LaunchData} {bound : Nat} {held : Carried} (holds : lh.Holds held)
    (stream : held ++ rest = messages.flatMap Message.carried ++ tail) (strange : Strange tail)
    (small : held.length < objectMax) (enough : held.length ≤ bound) :
    ∃ done later lh' errno, messages = done ++ later ∧
      deliver base bound lh given = (.returned errno lh',given ++ done.map Message.arrives) ∧
      ((Benign errno ∧ ∃ left, lh'.Waits left rest later tail) ∨
        errno = some .EBADRPC ∧ later = [] ∧ tail ≠ []) := by
  induction messages generalizing held lh given bound with
  | nil =>
    rw [List.flatMap_nil,List.nil_append] at stream
    have inTail : held <+: tail := ⟨rest,stream⟩
    cases bound with
    | zero =>
      obtain rfl := List.length_eq_zero_iff.mp (Nat.le_zero.mp enough)
      exact ⟨[],[],lh,none,rfl,by simp [deliver],.inl ⟨.inl rfl,[],holds,stream,Nat.zero_lt_succ _⟩⟩
    | succ bound =>
      rcases @receiveRound_tail lh held tail base holds inTail strange with ⟨errno,benign,round,little⟩ | ⟨round,some⟩
      · exact ⟨[],[],lh,errno,rfl,by simp [deliver,round],.inl ⟨benign,held,holds,stream,little⟩⟩
      · exact ⟨[],[],lh,_,rfl,by simp [deliver,round],.inr ⟨rfl,rfl,some⟩⟩
  | cons m later ih =>
    rw [List.flatMap_cons,List.append_assoc] at stream
    by_cases part : held.length < m.carried.length
    · have waits : lh.Waits held rest (m::later) tail := by
        refine ⟨holds,?_,part⟩
        rw [List.flatMap_cons,List.append_assoc]
        exact stream
      cases bound with
      | zero => exact ⟨[],m::later,lh,none,rfl,by simp [deliver],.inl ⟨.inl rfl,held,waits⟩⟩
      | succ bound =>
        obtain ⟨errno,benign,round⟩ := receiveRound_part holds stream part base
        exact ⟨[],m::later,lh,errno,rfl,by simp [deliver,round],.inl ⟨benign,held,waits⟩⟩
    · have positive := m.length_pos
      obtain ⟨left,rfl⟩ : ∃ left, held = m.carried ++ left := by
        have front := congrArg (List.take m.carried.length) stream
        rw [List.take_append_of_le_length (by omega),List.take_left] at front
        refine ⟨held.drop m.carried.length,?_⟩
        rw [← front,List.length_take,min_eq_left (by omega),List.take_append_drop]
      obtain ⟨next,round,holds⟩ := receiveRound_whole holds small base
      rw [List.append_assoc] at stream
      rw [List.length_append] at small enough
      obtain ⟨bound,rfl⟩ : ∃ less, bound = less+1 := ⟨bound-1,by omega⟩
      obtain ⟨done,later,lh',errno,rfl,delivered,outcome⟩ :=
        @ih next (given ++ [m.arrives]) bound left holds (List.append_cancel_left stream) (by omega) (by omega)
      refine ⟨m::done,later,lh',errno,rfl,?_,outcome⟩
      rw [deliver,round]
      simp only
      rw [delivered,List.map_cons,List.append_assoc,List.singleton_append]

/-- A call adds what it reads to what is held, and gives the callback what is whole then. -/
theorem Launch.Waits.reads (waits : lh.Waits left (c ++ rest) messages tail) (strange : Strange tail)
    (nonempty : c ≠ []) (little : c.length ≤ readSize) :
    ∃ done later lh' errno, messages = done ++ later ∧
      launchdMsgRecv base lh c.result = (.returned errno lh',done.map Message.arrives) ∧
      ((Benign errno ∧ ∃ left, lh'.Waits left rest later tail) ∨
        errno = some .EBADRPC ∧ later = [] ∧ tail ≠ []) := by
  have stream := waits.stream
  rw [← List.append_assoc] at stream
  have small : (left ++ c).length < objectMax := by
    have short := waits.short
    rw [List.length_append]
    cases messages with
    | nil =>
      have few : left.length < headerSize := short
      have bound : headerSize + readSize < objectMax := by decide
      omega
    | cons m later =>
      have part : left.length < m.carried.length := short
      have room := m.length_small
      omega
  let held : Launch := {lh with recvbuf := lh.recvbuf ++ c.bytes,recvfds := lh.recvfds ++ c.rights}
  have holds : held.Holds (left ++ c) := by
    refine ⟨?_,?_,waits.connected⟩
    · rw [Carried.bytes_append,← waits.bytes]
    · rw [Carried.rights_append,← waits.rights]
  have enough : (left ++ c).length ≤ (lh.recvbuf ++ c.bytes).length := by
    rw [waits.bytes,← Carried.bytes_append,Carried.bytes_length]
  obtain ⟨done,later,lh',errno,split,delivered,outcome⟩ :=
    @deliver_waits held messages rest tail base [] _ _ holds stream strange small enough
  refine ⟨done,later,lh',errno,split,?_,outcome⟩
  rw [launchdMsgRecv_result base waits.connected nonempty]
  exact delivered

end FreebsdLaunchd.Liblaunch
