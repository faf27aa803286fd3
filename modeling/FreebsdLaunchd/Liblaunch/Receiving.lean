import FreebsdLaunchd.Liblaunch.Messages
import FreebsdLaunchd.Liblaunch.RoundTrip

/-! Messages on their way in. Whatever pieces the stream comes in, the buffer
holds the bytes of it that follow the last whole message, and the descriptors
that came with them. -/
namespace FreebsdLaunchd.Liblaunch
open CData

variable {d : LaunchData} {array : List LaunchData} {fds later : List Int32}

/-! ## Descriptors that are not the tree's -/

private theorem renumberAll_append {k : Nat}
    (append : ∀ d ∈ array, ∀ k, k + (descriptors true d).length ≤ fds.length →
      renumber (fds ++ later) d k = renumber fds d k)
    (enough : k + (descriptorsAll true array).length ≤ fds.length) :
    renumberAll (fds ++ later) array k = renumberAll fds array k := by
  induction array generalizing k with
  | nil => rfl
  | cons d rest ih =>
    simp only [descriptorsAll,List.length_append] at enough
    have here := append d List.mem_cons_self k (by omega)
    have count := @renumber_count d fds k (by omega)
    have there := @ih (k + (descriptors true d).length) (fun d member => append d (List.mem_cons_of_mem _ member))
      (by omega)
    simp only [renumberAll,here,count,there]

/-- Descriptors behind those of the tree do not matter to it. -/
theorem renumber_append {k : Nat} (enough : k + (descriptors true d).length ≤ fds.length) :
    renumber (fds ++ later) d k = renumber fds d k := by
  induction d using LaunchData.induction generalizing k with
  | scalar type word =>
    cases type with
    | fd =>
      by_cases real : word != noFd
      · simp only [descriptors,Bool.true_and,if_pos real,List.length_singleton] at enough
        have inside : k < fds.length := by omega
        have within : k < (fds ++ later).length := by
          rw [List.length_append]
          omega
        simp only [renumber,real,inside,within,Bool.true_and,decide_true,if_true]
        rw [List.getD_eq_getElem?_getD,List.getElem?_append_left inside,← List.getD_eq_getElem?_getD]
      · simp [renumber,real]
    | _ => rfl
  | aggregate type array ih =>
    have all := @renumberAll_append array fds later k (fun d member k => ih d member) enough
    simp only [renumber,all]
  | _ => rfl

/-! ## The stream -/

/-- The bytes of a stream, each with the descriptors that are carried with it. -/
abbrev Carried := List (UInt8 × List Int32)

def Carried.bytes (c : Carried) : Bytes := c.map Prod.fst

def Carried.rights (c : Carried) : List Int32 := c.flatMap Prod.snd

@[simp] theorem Carried.bytes_append (c c' : Carried) : (c ++ c' : Carried).bytes = c.bytes ++ c'.bytes :=
  List.map_append

@[simp] theorem Carried.rights_append (c c' : Carried) : (c ++ c' : Carried).rights = c.rights ++ c'.rights :=
  List.flatMap_append

@[simp] theorem Carried.bytes_length (c : Carried) : c.bytes.length = c.length := List.length_map _

def Carried.result (c : Carried) : RecvResult := .data c.bytes c.rights false

/-- A message as it is carried: a header, a body that `launch_data_pack` has
made, and as many descriptors as it has handed over. The receiver can hold it
and what it reads at a time. -/
structure Message where
  tree : LaunchData
  packable : Packable tree
  memory : Bytes
  packed : Packed
  packs : launchDataPack true tree memory [] = some packed
  whole : packed.size ≠ 0
  carried : Carried
  received : List Int32
  bytes : carried.bytes =
    headerBytes (UInt64.ofNat (headerSize + packed.size)) ++ packed.memory.take packed.size
  fds : carried.rights = received
  counted : received.length = packed.fds.length
  small : headerSize + memory.length + readSize < objectMax

def Message.arrives (m : Message) : LaunchData := (renumber m.received m.tree 0).1

theorem Message.room (m : Message) : wireSize m.tree ≤ m.memory.length := by
  by_contra little
  have small := m.small
  obtain ⟨packed,packs,none⟩ := @Packable.packsShort _ true m.packable m.memory [] (by omega) (by omega)
  rw [m.packs] at packs
  exact m.whole (Option.some.inj packs ▸ none)

theorem Message.frame (m : Message) :
    ∃ body, m.carried.bytes = headerBytes (UInt64.ofNat (headerSize + wireSize m.tree)) ++ body ∧
      body.length = wireSize m.tree ∧ Encodes m.tree body ∧ m.received.length = (descriptors true m.tree).length := by
  have small := m.small
  obtain ⟨body,packs,size,encodes⟩ := @Packable.packs _ true m.packable m.memory [] m.room (by omega)
  rw [m.packs] at packs
  have same := Option.some.inj packs
  refine ⟨body,?_,size,encodes,?_⟩
  · rw [m.bytes,same]
    simp only
    rw [← size,List.take_left]
  · rw [m.counted,same,List.nil_append]

theorem Message.length_eq (m : Message) : m.carried.length = headerSize + wireSize m.tree := by
  obtain ⟨body,bytes,size,_⟩ := m.frame
  have length := congrArg List.length bytes
  rwa [Carried.bytes,List.length_map,List.length_append,headerBytes_length,size] at length

theorem Message.length_pos (m : Message) : headerSize < m.carried.length := by
  obtain ⟨body,_,_,encodes,_⟩ := m.frame
  have positive := wireSize_pos encodes
  rw [m.length_eq]
  omega

theorem Message.length_small (m : Message) : m.carried.length + readSize < objectMax := by
  have room := m.room
  have small := m.small
  rw [m.length_eq]
  omega

/-! ## The loop -/

/-- The header is read as it was written as soon as it is there. -/
theorem header_read {buffer : Bytes} {n : Nat} (front : buffer.take headerSize = headerBytes (UInt64.ofNat n))
    (small : n < objectMax) : longAt buffer 0 = headerMagic ∧ (longAt buffer 8).toNat = n := by
  obtain ⟨rest,split⟩ : ∃ rest, buffer = longBytes headerMagic ++ (longBytes (UInt64.ofNat n) ++ rest) := by
    refine ⟨buffer.drop headerSize,?_⟩
    rw [← List.append_assoc,← headerBytes,← front,List.take_append_drop]
  have first := longAt_longBytes [] headerMagic (longBytes (UInt64.ofNat n) ++ rest)
  have second := longAt_longBytes (longBytes headerMagic) (UInt64.ofNat n) rest
  rw [List.nil_append,List.length_nil,← split] at first
  rw [longBytes_length,← split] at second
  refine ⟨first,?_⟩
  rw [second]
  exact UInt64.toNat_ofNat_of_lt' (Nat.lt_trans small (by decide))

theorem Message.header (m : Message) {buffer rest : Bytes} (ahead : buffer ++ rest = m.carried.bytes ++ rest')
    (enough : headerSize ≤ buffer.length) :
    longAt buffer 0 = headerMagic ∧ (longAt buffer 8).toNat = m.carried.length := by
  obtain ⟨body,bytes,_⟩ := m.frame
  have small := m.length_small
  rw [m.length_eq] at small ⊢
  apply header_read _ (by omega)
  have front := congrArg (List.take headerSize) ahead
  rw [List.take_append_of_le_length enough,bytes,List.append_assoc] at front
  rw [front]
  exact List.take_left' (headerBytes_length _)

/-- What a connection holds of the stream: some of the bytes, and what came with them. -/
structure Launch.Holds (lh : Launch) (left : Carried) : Prop where
  bytes : lh.recvbuf = left.bytes
  rights : lh.recvfds = left.rights
  connected : launchdGetfd lh ≠ -1

theorem receiveRound_part {m : Message} {left rest rest' : Carried} {lh : Launch} (holds : lh.Holds left)
    (ahead : left ++ rest = m.carried ++ rest') (part : left.length < m.carried.length) (base : UInt64) :
    ∃ errno, (errno = none ∨ errno = some MsgErrno.EAGAIN) ∧
      receiveRound base lh = .ends (.returned errno lh) [] := by
  have length : lh.recvbuf.length = left.length := by rw [holds.bytes,Carried.bytes,List.length_map]
  unfold receiveRound
  by_cases empty : lh.recvbuf.length = 0
  · rw [if_pos empty]
    exact ⟨none,.inl rfl,rfl⟩
  · rw [if_neg empty]
    refine ⟨some .EAGAIN,.inr rfl,?_⟩
    by_cases short : lh.recvbuf.length < headerSize
    · rw [if_pos short]
    · have bytes : lh.recvbuf ++ rest.bytes = m.carried.bytes ++ rest'.bytes := by
        rw [holds.bytes,← Carried.bytes_append,ahead,Carried.bytes_append]
      obtain ⟨magic,tmplen⟩ := m.header bytes (by omega)
      have longer := m.length_pos
      have valid : ¬ (longAt lh.recvbuf 0 ≠ headerMagic ∨ (longAt lh.recvbuf 8).toNat ≤ headerSize) := by
        rintro (other | less)
        · exact other magic
        · omega
      have missing : lh.recvbuf.length < (longAt lh.recvbuf 8).toNat := by omega
      simp only [if_neg short,if_neg valid,if_pos missing]

/-- The tree of a whole message is unpacked from behind its header, up to what follows it. -/
theorem unpackBuffered_whole {m : Message} {left : Carried} {lh : Launch} (holds : lh.Holds (m.carried ++ left))
    (small : (m.carried ++ left).length < objectMax) (base : UInt64) :
    ∃ s, unpackBuffered base lh = .value m.arrives s ∧ s.dataOffset = m.carried.length ∧
      s.fdoffset = m.received.length ∧ s.data.length = lh.recvbuf.length ∧
      s.data.drop m.carried.length = left.bytes := by
  obtain ⟨body,bytes,size,encodes,counted⟩ := m.frame
  have length : lh.recvbuf.length = (m.carried ++ left).length := by rw [holds.bytes,Carried.bytes_length]
  have laid : lh.recvbuf = headerBytes (UInt64.ofNat (headerSize + wireSize m.tree)) ++ (body ++ left.bytes) := by
    rw [holds.bytes,Carried.bytes_append,bytes,List.append_assoc]
  have short : lh.recvbuf.length < objectMax := by omega
  have lays : Lays lh.recvbuf m.tree headerSize (headerSize + body.length) := by
    have lays := wire_lays m.tree short encodes laid
    rwa [headerBytes_length] at lays
  have ends : headerSize + body.length = m.carried.length := by rw [size,m.length_eq]
  obtain ⟨s,unpacked,stands⟩ := @unpack_complete lh.recvbuf _ headerSize _ 0 (lh.recvbuf.length + 1) lh.recvfds base
    m.tree short (by omega) lays (.start lh.recvbuf headerSize 0 none)
  have fds : lh.recvfds = m.received ++ left.rights := by rw [holds.rights,Carried.rights_append,m.fds]
  have enough : 0 + (descriptors true m.tree).length ≤ m.received.length := by omega
  have count : (renumber lh.recvfds m.tree 0).2 = m.received.length := by
    rw [fds,renumber_append enough,renumber_count enough,counted,Nat.zero_add]
  refine ⟨s,?_,?_,?_,stands.length,?_⟩
  · rw [unpackBuffered,unpacked,fds,renumber_append enough]
    rfl
  · rw [stands.offset,ends]
  · rw [stands.fd,count]
  · have ahead := stands.ahead
    rw [ends,holds.bytes,Carried.bytes_append] at ahead
    rw [ahead,← Carried.bytes_length,List.drop_left]

/-- The tree of a whole message is given to the callback, and what follows it stays. -/
theorem receiveRound_whole {m : Message} {left : Carried} {lh : Launch} (holds : lh.Holds (m.carried ++ left))
    (small : (m.carried ++ left).length < objectMax) (base : UInt64) :
    ∃ lh', receiveRound base lh = .goesOn lh' [m.arrives] ∧ lh'.Holds left := by
  obtain ⟨s,unpacked,offset,fdoffset,size,rest⟩ := unpackBuffered_whole holds small base
  have length : lh.recvbuf.length = m.carried.length + left.length := by
    rw [holds.bytes,Carried.bytes_length,List.length_append]
  have fds : lh.recvfds = m.received ++ left.rights := by rw [holds.rights,Carried.rights_append,m.fds]
  have longer := m.length_pos
  have bytes : lh.recvbuf ++ [] = m.carried.bytes ++ left.bytes := by
    rw [List.append_nil,holds.bytes,Carried.bytes_append]
  obtain ⟨magic,tmplen⟩ := m.header bytes (by omega)
  have valid : ¬ (longAt lh.recvbuf 0 ≠ headerMagic ∨ (longAt lh.recvbuf 8).toNat ≤ headerSize) := by
    rintro (other | less)
    · exact other magic
    · omega
  have present : ¬ lh.recvbuf.length < (longAt lh.recvbuf 8).toNat := by omega
  have inside : ¬ (s.dataOffset > s.data.length ∨ s.fdoffset > lh.recvfds.length) := by
    have := congrArg List.length fds
    rw [List.length_append] at this
    omega
  let next : Launch := {lh with
    recvbuf := s.data.drop s.dataOffset
    recvfds := lh.recvfds.drop s.fdoffset }
  refine ⟨next,?_,?_,?_,holds.connected⟩
  · have some : ¬ lh.recvbuf.length = 0 := by omega
    have headed : ¬ lh.recvbuf.length < headerSize := by omega
    unfold receiveRound
    simp only [if_neg some,if_neg headed,if_neg valid,if_neg present,unpacked,if_neg inside]
    rfl
  · show s.data.drop s.dataOffset = left.bytes
    rw [offset,rest]
  · show lh.recvfds.drop s.fdoffset = left.rights
    rw [fdoffset,fds,List.drop_left]

/-- What is held when the loop has ended: less than the next message. -/
structure Launch.Awaits (lh : Launch) (left rest : Carried) (messages : List Message) : Prop
    extends lh.Holds left where
  stream : left ++ rest = messages.flatMap Message.carried
  part : ∀ m ∈ messages.head?, left.length < m.carried.length

private theorem deliver_awaits {messages : List Message} {held rest : Carried} {lh : Launch} {given : List LaunchData}
    {bound : Nat} (base : UInt64) (holds : lh.Holds held) (stream : held ++ rest = messages.flatMap Message.carried)
    (small : held.length < objectMax) (enough : held.length ≤ bound) :
    ∃ done later left lh' errno, messages = done ++ later ∧ (errno = none ∨ errno = some MsgErrno.EAGAIN) ∧
      deliver base bound lh given = (.returned errno lh',given ++ done.map Message.arrives) ∧
      lh'.Awaits left rest later := by
  induction messages generalizing held lh given bound with
  | nil =>
    obtain ⟨rfl,rfl⟩ := List.append_eq_nil_iff.mp stream
    have empty : lh.recvbuf.length = 0 := by rw [holds.bytes,Carried.bytes_length,List.length_nil]
    refine ⟨[],[],[],lh,none,rfl,.inl rfl,?_,holds,rfl,nofun⟩
    cases bound with
    | zero => simp [deliver]
    | succ bound => simp [deliver,receiveRound,empty]
  | cons m later ih =>
    rw [List.flatMap_cons] at stream
    by_cases part : held.length < m.carried.length
    · have awaits : lh.Awaits held rest (m::later) := by
        refine ⟨holds,stream,?_⟩
        rintro _ ⟨⟩
        exact part
      cases bound with
      | zero => exact ⟨[],m::later,held,lh,none,rfl,.inl rfl,by simp [deliver],awaits⟩
      | succ bound =>
        obtain ⟨errno,benign,round⟩ := receiveRound_part holds stream part base
        exact ⟨[],m::later,held,lh,errno,rfl,benign,by simp [deliver,round],awaits⟩
    · have positive := m.length_pos
      obtain ⟨left,rfl⟩ : ∃ left, held = m.carried ++ left := by
        have front := congrArg (List.take m.carried.length) stream
        rw [List.take_append_of_le_length (by omega),List.take_left] at front
        refine ⟨held.drop m.carried.length,?_⟩
        rw [← front,List.length_take,min_eq_left (by omega),List.take_append_drop]
      obtain ⟨lh',round,holds⟩ := receiveRound_whole holds small base
      rw [List.append_assoc] at stream
      rw [List.length_append] at small enough
      obtain ⟨bound,rfl⟩ : ∃ less, bound = less+1 := ⟨bound-1,by omega⟩
      obtain ⟨done,later,left,lh',errno,rfl,benign,delivered,awaits⟩ :=
        @ih left lh' (given ++ [m.arrives]) bound holds (List.append_cancel_left stream) (by omega) (by omega)
      refine ⟨m::done,later,left,lh',errno,rfl,benign,?_,awaits⟩
      rw [deliver,round]
      simp only
      rw [delivered,List.map_cons,List.append_assoc,List.singleton_append]

/-! ## The calls -/

/-- The control message is as long as its descriptors, whose number is got from that. -/
theorem control_count (fds : List Int32) :
    fds.take ((cmsgSpace (fds.length*4) - cmsghdrSize) / 4) = fds := by
  apply List.take_of_length_le
  simp only [cmsgSpace,align32,cmsghdrSize]
  omega

theorem launchdMsgRecv_result {lh : Launch} {c : Carried} (base : UInt64) (connected : launchdGetfd lh ≠ -1)
    (nonempty : c ≠ []) :
    launchdMsgRecv base lh c.result =
      deliver base (lh.recvbuf ++ c.bytes).length
        {lh with recvbuf := lh.recvbuf ++ c.bytes,recvfds := lh.recvfds ++ c.rights} [] := by
  have read : ¬ c.bytes.length = 0 := by rwa [Carried.bytes_length,List.length_eq_zero_iff]
  have counted := control_count c.rights
  simp only [launchdMsgRecv,Carried.result,if_neg connected,if_neg read,Bool.false_eq_true,if_false]
  by_cases without : c.rights = []
  · simp only [without,if_true,Nat.lt_irrefl,gt_iff_lt,if_false,List.append_nil]
  · have sent : cmsgSpace (c.rights.length*4) > 0 := by
      simp only [cmsgSpace,align32,cmsghdrSize]
      omega
    simp only [if_neg without,if_pos sent,counted]

/-- A call adds what it reads to what is held, and gives the callback what is whole then. -/
theorem Launch.Awaits.reads {messages : List Message} {left c rest : Carried} {lh : Launch} (base : UInt64)
    (awaits : lh.Awaits left (c ++ rest) messages) (nonempty : c ≠ []) (little : c.length ≤ readSize) :
    ∃ done later left' lh' errno, messages = done ++ later ∧ (errno = none ∨ errno = some MsgErrno.EAGAIN) ∧
      launchdMsgRecv base lh c.result = (.returned errno lh',done.map Message.arrives) ∧
      lh'.Awaits left' rest later := by
  have stream := awaits.stream
  rw [← List.append_assoc] at stream
  have small : (left ++ c).length < objectMax := by
    cases messages with
    | nil =>
      obtain ⟨held,_⟩ := List.append_eq_nil_iff.mp stream
      exact absurd (List.append_eq_nil_iff.mp held).2 nonempty
    | cons m later =>
      have part := awaits.part m rfl
      have small := m.length_small
      rw [List.length_append]
      omega
  let held : Launch := {lh with recvbuf := lh.recvbuf ++ c.bytes,recvfds := lh.recvfds ++ c.rights}
  have holds : held.Holds (left ++ c) := by
    refine ⟨?_,?_,awaits.connected⟩
    · rw [Carried.bytes_append,← awaits.bytes]
    · rw [Carried.rights_append,← awaits.rights]
  have enough : (left ++ c).length ≤ (lh.recvbuf ++ c.bytes).length := by
    rw [awaits.bytes,← Carried.bytes_append,Carried.bytes_length]
  obtain ⟨done,later,left',lh',errno,split,benign,delivered,awaits'⟩ :=
    @deliver_awaits messages _ rest held [] _ base holds stream small enough
  refine ⟨done,later,left',lh',errno,split,benign,?_,awaits'⟩
  rw [launchdMsgRecv_result base awaits.connected nonempty]
  exact delivered

/-- A way to read the stream of some messages: pieces of it in turn, each for
one `recvmsg`, with the address that the buffer has got by then. -/
structure Fragments (messages : List Message) where
  pieces : List (UInt64 × Carried)
  nonempty : ∀ c ∈ pieces, c.2 ≠ []
  little : ∀ c ∈ pieces, c.2.length ≤ readSize
  stream : pieces.flatMap Prod.snd = messages.flatMap Message.carried

def Fragments.reads {messages : List Message} (f : Fragments messages) : List (UInt64 × RecvResult) :=
  f.pieces.map fun c => (c.1,c.2.result)

private theorem receiveAll_pieces {pieces : List (UInt64 × Carried)} {messages : List Message} {left : Carried}
    {lh : Launch} {given : List LaunchData} (awaits : lh.Awaits left (pieces.flatMap Prod.snd) messages)
    (nonempty : ∀ c ∈ pieces, c.2 ≠ []) (little : ∀ c ∈ pieces, c.2.length ≤ readSize) :
    ∃ lh', receiveAll lh given (pieces.map fun c => (c.1,c.2.result)) =
      some (lh',given ++ messages.map Message.arrives) ∧ lh'.Holds [] := by
  induction pieces generalizing messages left lh given with
  | nil =>
    have stream := awaits.stream
    rw [List.flatMap_nil,List.append_nil] at stream
    cases messages with
    | nil =>
      obtain rfl := stream
      exact ⟨lh,by simp [receiveAll],awaits.toHolds⟩
    | cons m later =>
      -- the stream cannot end inside a message
      have part := awaits.part m rfl
      rw [stream,List.flatMap_cons,List.length_append] at part
      omega
  | cons c rest ih =>
    obtain ⟨base,c⟩ := c
    rw [List.forall_mem_cons] at nonempty little
    rw [List.flatMap_cons] at awaits
    obtain ⟨done,later,left',lh',errno,rfl,benign,received,awaits⟩ := awaits.reads base nonempty.1 little.1
    obtain ⟨last,all,holds⟩ := @ih later left' lh' (given ++ done.map Message.arrives) awaits nonempty.2 little.2
    refine ⟨last,?_,holds⟩
    rw [List.map_append,← List.append_assoc,← all]
    simp only [List.map_cons,receiveAll,received]
    rcases benign with rfl | rfl <;> rfl

/-- However the stream is split, each message is given to the callback once,
in order, and nothing is left of it. -/
theorem receives_once {lh : Launch} {messages : List Message} (f : Fragments messages)
    (connected : launchdGetfd lh ≠ -1) (idle : lh.recvbuf = [] ∧ lh.recvfds = []) :
    ∃ lh', receiveAll lh [] f.reads = some (lh',messages.map Message.arrives) ∧
      lh'.recvbuf = [] ∧ lh'.recvfds = [] := by
  have awaits : lh.Awaits [] (f.pieces.flatMap Prod.snd) messages := by
    refine ⟨⟨idle.1,idle.2,connected⟩,f.stream,?_⟩
    intro m _
    exact Nat.zero_lt_of_lt m.length_pos
  obtain ⟨lh',all,holds⟩ := @receiveAll_pieces _ _ _ _ [] awaits f.nonempty f.little
  exact ⟨lh',all,holds.bytes,holds.rights⟩

def fiveBytes : Bytes :=
  headerBytes 40 ++ (longBytes (DataType.scalar .fd).word ++ (longBytes 5 ++ List.replicate 8 0))

/-- The descriptor 5 on its way; its number where it arrives comes with the first byte. -/
def fiveSent (received : Int32) : Message where
  tree := .scalar .fd 5
  packable := .scalar 5 (by decide)
  memory := List.replicate 24 0
  packed := ⟨24,fiveBytes.drop headerSize,[5]⟩
  packs := by rfl
  whole := by decide
  carried := fiveBytes.zip ([received] :: List.replicate 39 [])
  received := [received]
  bytes := by rfl
  fds := by rfl
  counted := rfl
  small := by decide

/-- Two messages, the first header of them in two pieces and the second one with the first body. -/
def threePieces : Fragments [fiveSent 7,fiveSent 8] where
  pieces :=
    let stream := (fiveSent 7).carried ++ (fiveSent 8).carried
    [(0,stream.take 10),(64,(stream.drop 10).take 50),(0,stream.drop 60)]
  nonempty := by decide
  little := by decide
  stream := by rfl

theorem two_received : ∃ lh', receiveAll ⟨[],0,[],0,[],[],.otherFd,-1,3⟩ [] threePieces.reads =
    some (lh',[.scalar .fd 7,.scalar .fd 8]) ∧ lh'.recvbuf = [] ∧ lh'.recvfds = [] :=
  receives_once threePieces (by decide) ⟨rfl,rfl⟩

end FreebsdLaunchd.Liblaunch
