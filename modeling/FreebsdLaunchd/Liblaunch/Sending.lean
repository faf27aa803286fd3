import FreebsdLaunchd.Liblaunch.Messages

/-! A message on its way out. Once the header has gone, however much of the body
went with it, the retries put the rest on the wire, once and in order. The
header itself is kept nowhere, so nothing makes up for a first call that leaves
some of it behind. -/
namespace FreebsdLaunchd.Liblaunch
open CData

variable {d : LaunchData}

/-! ## The retries -/

/-- Between two calls: some of the message is left in the buffer. -/
structure Launch.Ready (lh : Launch) : Prop where
  connected : launchdGetfd lh ≠ -1
  left : 0 < lh.sendlen
  inside : lh.sendlen ≤ lh.sendbuf.length

def Launch.pending (lh : Launch) : Wire :=
  ⟨lh.sendbuf.take lh.sendlen,if lh.sendfdcnt > 0 then [lh.sendfds.take lh.sendfdcnt] else []⟩

/-- A result that a caller is to go on after: `EAGAIN`, or a positive count. -/
def SendResult.Partial (result : SendResult) : Prop := result = .error .EAGAIN ∨ ∃ n, 0 < n ∧ result = .count n

theorem transmit_eq {lh : Launch} {header : Bytes} {result : SendResult} {r : Nat}
    (taken : result.taken (header ++ lh.sendbuf.take lh.sendlen).length = r) (some : 0 < r) :
    transmit lh header result =
      let wire : Wire := ⟨(header ++ lh.sendbuf.take lh.sendlen).take r,lh.pending.rights⟩
      if r < header.length then (.fault,wire)
      else
        let sendlen := lh.sendlen - (r - header.length)
        (.returned (if sendlen > 0 then Option.some .EAGAIN else none) {lh with
          sendbuf := if sendlen > 0 then
            overwrite lh.sendbuf 0 ((lh.sendbuf.drop (r - header.length)).take sendlen) else []
          sendlen
          sendfds := []
          sendfdcnt := 0 },wire) := by
  cases result with
  | error errno =>
    subst taken
    exact absurd some (Nat.lt_irrefl 0)
  | _ =>
    simp only [transmit,taken,Nat.ne_of_gt some,if_false]
    rfl

private theorem overwrite_front {buffer bytes : Bytes} : (overwrite buffer 0 bytes).take bytes.length = bytes := by
  rw [overwrite,List.take_zero,List.nil_append,List.take_left]

/-- `sendmsg` has taken the header and some of the body, or all of it. -/
theorem transmit_taken {lh : Launch} {header : Bytes} {result : SendResult} {r : Nat} (ready : lh.Ready)
    (taken : result.taken (header ++ lh.sendbuf.take lh.sendlen).length = r) (some : 0 < r) (past : header.length ≤ r)
    (within : r ≤ header.length + lh.sendlen) :
    ∃ lh', transmit lh header result =
        (.returned (if lh'.sendlen > 0 then Option.some .EAGAIN else none) lh',
          ⟨header ++ lh.pending.bytes.take (r - header.length),lh.pending.rights⟩) ∧
      (lh'.sendlen > 0 → lh'.Ready) ∧ lh'.pending = ⟨lh.pending.bytes.drop (r - header.length),[]⟩ ∧
      lh'.sendlen = lh.sendlen - (r - header.length) ∧ lh'.sendfdcnt = 0 := by
  obtain ⟨connected,left,inside⟩ := ready
  have split : (header ++ lh.sendbuf.take lh.sendlen).take r =
      header ++ lh.pending.bytes.take (r - header.length) := by
    rw [List.take_append,List.take_of_length_le past]
    rfl
  have moved : ((lh.sendbuf.drop (r - header.length)).take (lh.sendlen - (r - header.length))).length =
      lh.sendlen - (r - header.length) := by
    rw [List.length_take,List.length_drop]
    omega
  have rest : lh.pending.bytes.drop (r - header.length) =
      (lh.sendbuf.drop (r - header.length)).take (lh.sendlen - (r - header.length)) := List.drop_take ..
  rw [transmit_eq taken some,split]
  simp only [if_neg (Nat.not_lt.mpr past)]
  let next : Launch := {lh with
    sendbuf := if lh.sendlen - (r - header.length) > 0 then
      overwrite lh.sendbuf 0 ((lh.sendbuf.drop (r - header.length)).take (lh.sendlen - (r - header.length))) else []
    sendlen := lh.sendlen - (r - header.length)
    sendfds := []
    sendfdcnt := 0 }
  refine ⟨next,rfl,?_,?_,rfl,rfl⟩
  · intro more
    have more : lh.sendlen - (r - header.length) > 0 := more
    refine ⟨connected,more,?_⟩
    simp only [next,if_pos more]
    have room := congrArg List.length (@overwrite_front lh.sendbuf
      ((lh.sendbuf.drop (r - header.length)).take (lh.sendlen - (r - header.length))))
    rw [List.length_take,moved] at room
    omega
  · rw [rest]
    simp only [next,Launch.pending,Nat.lt_irrefl,gt_iff_lt,if_false,Wire.mk.injEq,and_true]
    split
    · have front := @overwrite_front lh.sendbuf
        ((lh.sendbuf.drop (r - header.length)).take (lh.sendlen - (r - header.length)))
      rwa [moved] at front
    · have none : lh.sendlen - (r - header.length) = 0 := by omega
      simp [none]

theorem launchdMsgSend_retry (malloc : Malloc) {lh : Launch} (ready : lh.Ready) (result : SendResult) :
    launchdMsgSend malloc lh none result = transmit lh [] result := by
  simp only [launchdMsgSend,if_neg ready.connected,if_neg (Nat.ne_of_gt ready.left)]

private theorem sendLoop_done (malloc : Malloc) (wire w : Wire) (lh : Launch) (results : List SendResult) :
    sendLoop malloc wire (.returned none lh,w) results = .sent lh (wire.append w) := by
  cases results <;> rfl

/-- The loop ends with everything on the wire, and nothing is left to send. -/
def Completes (drive : Drive) (wire : Wire) : Prop :=
  ∃ lh, drive = .sent lh wire ∧ lh.sendlen = 0 ∧ lh.sendfdcnt = 0

/-- A call that takes the header and some of the body, where the retries with
the later results complete whatever is pending. -/
theorem completes_transmit (malloc : Malloc) {results : List SendResult}
    (retries : ∀ {lh : Launch}, lh.Ready → ∀ wire w : Wire,
      Completes (sendLoop malloc wire (.returned (some .EAGAIN) lh,w) results) ((wire.append w).append lh.pending))
    {lh : Launch} {header : Bytes} {result : SendResult} {r : Nat} (ready : lh.Ready)
    (taken : result.taken (header ++ lh.sendbuf.take lh.sendlen).length = r) (some : 0 < r) (past : header.length ≤ r)
    (within : r ≤ header.length + lh.sendlen) (wire : Wire) :
    Completes (sendLoop malloc wire (transmit lh header result) results)
      (wire.append ⟨header ++ lh.pending.bytes,lh.pending.rights⟩) := by
  obtain ⟨lh',sent,onward,pending,_,fds⟩ := transmit_taken ready taken some past within
  rw [sent]
  by_cases more : lh'.sendlen > 0
  · rw [if_pos more]
    have rest := retries (onward more) wire ⟨header ++ lh.pending.bytes.take (r - header.length),lh.pending.rights⟩
    rw [pending] at rest
    simpa [Wire.append] using rest
  · have done : lh'.sendlen = 0 := by omega
    rw [if_neg more,sendLoop_done]
    refine ⟨lh',?_,done,fds⟩
    have nothing := congrArg Wire.bytes pending
    simp only [Launch.pending,done,List.take_zero] at nothing
    have whole := List.take_append_drop (r - header.length) lh.pending.bytes
    rw [Launch.pending,← nothing,List.append_nil] at whole
    rw [Launch.pending,whole]

private theorem completes_all (malloc : Malloc) {lh : Launch} (ready : lh.Ready) (header : Bytes)
    (results : List SendResult)
    (wire : Wire) : Completes (sendLoop malloc wire (transmit lh header .all) results)
      (wire.append ⟨header ++ lh.pending.bytes,lh.pending.rights⟩) := by
  have left := ready.left
  have inside := ready.inside
  have offered : SendResult.all.taken (header ++ lh.sendbuf.take lh.sendlen).length = header.length + lh.sendlen := by
    simp [SendResult.taken,inside]
  obtain ⟨lh',sent,_,_,left,fds⟩ := transmit_taken ready offered (by omega) (by omega) (by omega)
  have done : lh'.sendlen = 0 := by omega
  refine ⟨lh',?_,done,fds⟩
  simp [sent,done,sendLoop_done,Launch.pending,List.take_take]

/-- The retries put on the wire what is pending, whatever `sendmsg` takes at a time. -/
theorem completes_retries (malloc : Malloc) {results : List SendResult} (partials : ∀ r ∈ results, r.Partial)
    {lh : Launch} (ready : lh.Ready) (wire w : Wire) :
    Completes (sendLoop malloc wire (.returned (some .EAGAIN) lh,w) (results ++ [.all]))
      ((wire.append w).append lh.pending) := by
  have inside := ready.inside
  induction results generalizing lh wire w with
  | nil =>
    rw [List.nil_append,sendLoop,launchdMsgSend_retry malloc ready]
    exact completes_all malloc ready [] [] (wire.append w)
  | cons result rest ih =>
    have later {lh : Launch} (ready : lh.Ready) (wire w : Wire) :=
      ih (fun r member => partials r (List.mem_cons_of_mem _ member)) ready wire w ready.inside
    rw [List.cons_append,sendLoop,launchdMsgSend_retry malloc ready]
    rcases partials result List.mem_cons_self with rfl | ⟨n,some,rfl⟩
    · -- nothing was taken, and nothing has changed
      have again : transmit lh [] (.error .EAGAIN) = (.returned (some .EAGAIN) lh,.empty) := rfl
      rw [again]
      simpa [Wire.append,Wire.empty] using later ready (wire.append w) .empty
    · have offered : (SendResult.count n).taken ([] ++ lh.sendbuf.take lh.sendlen).length = min n lh.sendlen := by
        simp [SendResult.taken,inside]
      have left := ready.left
      exact completes_transmit malloc later ready offered (by omega) (Nat.zero_le _) (by simp) (wire.append w)

/-! ## The message -/

/-- The message has gone out exactly once: its header, with the length of both
parts, then the packed tree, with its descriptors beside them. -/
def TransmitsOnce (malloc : Malloc) (d : LaunchData) (drive : Drive) : Prop :=
  ∃ block packed, malloc.block goodEnoughSize = some block ∧ launchDataPack true d block [] = some packed ∧
    Completes drive ⟨headerBytes (UInt64.ofNat (16 + packed.size)) ++ packed.memory.take packed.size,
      if packed.fds = [] then [] else [packed.fds]⟩

/-- What the first call finds: memory for the packed tree and its descriptors. -/
structure Sendable (malloc : Malloc) (lh : Launch) (d : LaunchData) : Prop where
  connected : launchdGetfd lh ≠ -1
  buffer : (malloc.block goodEnoughSize).isSome
  slots : (malloc.block (4 * 1024)).isSome
  fits : wireSize d ≤ goodEnoughSize
  fds : (descriptors true d).length ≤ 1024

def TakesHeader (results : List SendResult) : Prop := ∀ r ∈ results.head?, ∃ n, headerSize ≤ n ∧ r = .count n

theorem Completes.unique {drive : Drive} {w w' : Wire} (one : Completes drive w) (other : Completes drive w') :
    w = w' := by
  obtain ⟨lh,rfl,_⟩ := one
  obtain ⟨_,same,_⟩ := other
  exact (Drive.sent.inj same).2

def Ended.Fails : Ended → Prop
  | .fault => True
  | .returned none _ => False
  | .returned (some errno) _ => errno ≠ .EAGAIN

private theorem not_completes (malloc : Malloc) {ended : Ended × Wire} {wire w : Wire} {results : List SendResult}
    (failed : ended.1.Fails) : ¬ Completes (sendLoop malloc wire ended results) w := by
  obtain ⟨ended,sent⟩ := ended
  rintro ⟨lh,same,_⟩
  cases ended with
  | fault => cases results <;> cases same
  | returned errno lh' =>
    cases errno with
    | none => exact failed
    | some errno =>
      cases errno with
      | EAGAIN => exact failed rfl
      | _ => cases results <;> cases same

variable {lh : Launch}

/-- The first call comes to `sendmsg` with the packed tree in the buffer. -/
theorem launchdMsgSend_first {malloc : Malloc} (packable : Packable d) (idle : lh.sendlen = 0)
    (sendable : Sendable malloc lh d) (result : SendResult) :
    ∃ block packed lh', malloc.block goodEnoughSize = some block ∧ launchDataPack true d block [] = some packed ∧
      launchdMsgSend malloc lh (some d) result =
        transmit lh' (headerBytes (UInt64.ofNat (16 + packed.size))) result ∧
      lh'.Ready ∧ lh'.sendlen = packed.size ∧
      lh'.pending = ⟨packed.memory.take packed.size,if packed.fds = [] then [] else [packed.fds]⟩ := by
  obtain ⟨connected,buffer,slots,fits,few⟩ := sendable
  obtain ⟨block,granted⟩ := Option.isSome_iff_exists.mp buffer
  obtain ⟨room,given⟩ := Option.isSome_iff_exists.mp slots
  have size := malloc.sized _ _ granted
  have size' := malloc.sized _ _ given
  obtain ⟨body,packed,length,encodes⟩ := @Packable.packs d true packable block [] (by omega)
    (by rw [size]; decide)
  have positive := wireSize_pos encodes
  refine ⟨block,_,{lh with
      sendbuf := body ++ block.drop (wireSize d)
      sendlen := wireSize d
      sendfds := descriptors true d
      sendfdcnt := (descriptors true d).length },granted,packed,?_,⟨connected,positive,?_⟩,rfl,?_⟩
  · have enough : ¬ (descriptors true d).length * 4 > room.length := by
      rw [size']
      omega
    simp only [launchdMsgSend,if_neg connected,idle,granted,given,packed,if_neg enough,Nat.ne_of_gt positive,
      if_false,ne_eq,not_true_eq_false,List.nil_append,Nat.add_comm (wireSize d),headerSize]
  · simp only [List.length_append,length]
    omega
  · simp only [Launch.pending,List.nil_append,List.take_length]
    congr 1
    cases descriptors true d with
    | nil => rfl
    | cons fd rest => simp

/-- A first call that has not failed had what it needed. -/
theorem sendable_of_works {malloc : Malloc} (packable : Packable d) (idle : lh.sendlen = 0) {result : SendResult}
    (working : ¬ (launchdMsgSend malloc lh (some d) result).1.Fails) : Sendable malloc lh d := by
  have connected : launchdGetfd lh ≠ -1 := by
    intro closed
    apply working
    simp [launchdMsgSend,closed,Ended.Fails]
  cases granted : malloc.block goodEnoughSize with
  | none =>
    apply absurd _ working
    simp [launchdMsgSend,connected,idle,granted,Ended.Fails]
  | some block =>
    cases given : malloc.block (4 * 1024) with
    | none =>
      apply absurd _ working
      simp [launchdMsgSend,connected,idle,granted,given,Ended.Fails]
    | some room =>
      have size := malloc.sized _ _ granted
      have size' := malloc.sized _ _ given
      have small : block.length < objectMax := by
        rw [size]
        decide
      by_cases fits : wireSize d ≤ goodEnoughSize
      · refine ⟨connected,by simp [granted],by simp [given],fits,?_⟩
        by_contra many
        obtain ⟨body,packed,_⟩ := @Packable.packs d true packable block [] (by omega) small
        have tooMany : (descriptors true d).length * 4 > room.length := by omega
        apply working
        simp only [launchdMsgSend,if_neg connected,idle,granted,given,packed,List.nil_append,if_pos tooMany,ne_eq,
          not_true_eq_false,if_false,Ended.Fails]
      · obtain ⟨packed,short,none⟩ := @Packable.packsShort d true packable block [] (by omega) small
        apply absurd _ working
        by_cases many : packed.fds.length * 4 > room.length
        · simp only [launchdMsgSend,if_neg connected,idle,granted,given,short,if_pos many,ne_eq,
            not_true_eq_false,if_false,Ended.Fails]
        · simp [launchdMsgSend,connected,idle,granted,given,short,many,none,Ended.Fails]

/-- A message that has gone out exactly once had its whole header taken at first. -/
theorem takesHeader_of_transmits {malloc : Malloc} (packable : Packable d) (idle : lh.sendlen = 0)
    {results : List SendResult} (partials : ∀ r ∈ results, r.Partial)
    (once : TransmitsOnce malloc d (launchMsgInternal malloc lh d (results ++ [.all]))) :
    Sendable malloc lh d ∧ TakesHeader results := by
  obtain ⟨block,packed,granted,fits,completes⟩ := once
  have sendable : Sendable malloc lh d := by
    cases results with
    | nil => exact sendable_of_works packable idle fun fails => not_completes malloc fails completes
    | cons result rest => exact sendable_of_works packable idle fun fails => not_completes malloc fails completes
  refine ⟨sendable,?_⟩
  intro result first
  obtain ⟨rest,rfl⟩ : ∃ rest, results = result :: rest := by
    cases results with
    | nil => cases first
    | cons r rest => exact ⟨rest,by rw [Option.some.inj first]⟩
  obtain ⟨block',packed',lh',granted',fits',called,ready,size,pending⟩ :=
    launchdMsgSend_first packable idle sendable result
  obtain rfl := Option.some.inj (granted.symm.trans granted')
  obtain rfl := Option.some.inj (fits.symm.trans fits')
  rw [List.cons_append,launchMsgInternal,called] at completes
  have later (r : SendResult) (member : r ∈ rest) : r.Partial := partials r (List.mem_cons_of_mem _ member)
  rcases partials result List.mem_cons_self with rfl | ⟨n,some,rfl⟩
  · -- the body alone goes out: the header is missing from the wire
    have again : transmit lh' (headerBytes (UInt64.ofNat (16 + packed.size))) (.error .EAGAIN) =
      (.returned (some .EAGAIN) lh',.empty) := rfl
    rw [again] at completes
    have alone := completes.unique (completes_retries malloc later ready .empty .empty)
    have lengths := congrArg (fun w : Wire => w.bytes.length) alone
    simp [pending,Wire.append,Wire.empty,headerSize] at lengths
  · refine ⟨n,?_,rfl⟩
    by_contra few
    have short : n < headerSize := Nat.lt_of_not_le few
    have offered : (SendResult.count n).taken
        (headerBytes (UInt64.ofNat (16 + packed.size)) ++ lh'.sendbuf.take lh'.sendlen).length = n := by
      simp only [SendResult.taken,List.length_append,headerBytes_length]
      omega
    apply not_completes malloc ?_ completes
    rw [transmit_eq offered some]
    simp only [headerBytes_length,if_pos short,Ended.Fails]

private theorem transmits_of_takesHeader {malloc : Malloc} (packable : Packable d) (idle : lh.sendlen = 0)
    {results : List SendResult} (partials : ∀ r ∈ results, r.Partial) (sendable : Sendable malloc lh d)
    (takes : TakesHeader results) :
    TransmitsOnce malloc d (launchMsgInternal malloc lh d (results ++ [.all])) := by
  obtain ⟨block,packed,lh',granted,fits,called,ready,size,pending⟩ :=
    launchdMsgSend_first packable idle sendable (results.head?.getD .all)
  refine ⟨block,packed,granted,fits,?_⟩
  cases results with
  | nil =>
    rw [List.head?_nil,Option.getD_none] at called
    rw [List.nil_append,launchMsgInternal,called]
    have done := completes_all malloc ready (headerBytes (UInt64.ofNat (16 + packed.size))) [] .empty
    rwa [pending] at done
  | cons result rest =>
    obtain ⟨n,whole,rfl⟩ := takes result rfl
    have later (r : SendResult) (member : r ∈ rest) : r.Partial := partials r (List.mem_cons_of_mem _ member)
    rw [List.head?_cons,Option.getD_some] at called
    rw [List.cons_append,launchMsgInternal,called]
    have inside := ready.inside
    have offered : (SendResult.count n).taken
        (headerBytes (UInt64.ofNat (16 + packed.size)) ++ lh'.sendbuf.take lh'.sendlen).length =
          min n (headerSize + lh'.sendlen) := by
      simp [SendResult.taken,inside]
    have positive : 0 < headerSize := by decide
    have done := completes_transmit malloc (completes_retries malloc later) ready offered (by omega)
      (by rw [headerBytes_length]; omega) (by rw [headerBytes_length]; omega) .empty
    rwa [pending] at done

/-- A message goes out exactly once, whatever `sendmsg` takes at a time, exactly
if it can be sent at all and the first `sendmsg` takes the whole header. -/
theorem transmits_once_iff (malloc : Malloc) (packable : Packable d) (idle : lh.sendlen = 0)
    {results : List SendResult} (partials : ∀ r ∈ results, r.Partial) :
    TransmitsOnce malloc d (launchMsgInternal malloc lh d (results ++ [.all])) ↔
      Sendable malloc lh d ∧ TakesHeader results :=
  ⟨takesHeader_of_transmits packable idle partials,
    fun both => transmits_of_takesHeader packable idle partials both.1 both.2⟩

def zeroed : Malloc where
  block n := some (List.replicate n 0)
  sized := by
    intro n b same
    rw [← Option.some.inj same,List.length_replicate]

def idleLaunch : Launch := ⟨[],0,[],0,[],[],.otherFd,-1,3⟩

/-- The header and one word at first, nothing next time, and then a few bytes. -/
theorem five_transmits_once :
    TransmitsOnce zeroed (.scalar .fd 5)
      (launchMsgInternal zeroed idleLaunch (.scalar .fd 5) ([.count 24,.error .EAGAIN,.count 3] ++ [.all])) := by
  apply (transmits_once_iff zeroed (.scalar 5 (by decide)) rfl ?_).mpr
  · refine ⟨⟨by decide,rfl,rfl,by decide,by decide⟩,?_⟩
    rintro r first
    obtain rfl := Option.some.inj first
    exact ⟨24,by decide,rfl⟩
  · simp [SendResult.Partial]

/-- The socket is full at first: the descriptor's node goes out without its header. -/
theorem full_socket_loses_header :
    ¬ TransmitsOnce zeroed (.scalar .fd 5)
      (launchMsgInternal zeroed idleLaunch (.scalar .fd 5) ([.error .EAGAIN] ++ [.all])) := by
  intro once
  have takes := (takesHeader_of_transmits (.scalar 5 (by decide)) rfl (by simp [SendResult.Partial]) once).2
  obtain ⟨n,_,same⟩ := takes (.error .EAGAIN) rfl
  cases same

end FreebsdLaunchd.Liblaunch
