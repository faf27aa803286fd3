import FreebsdLaunchd.Ipc.Protocol
import FreebsdLaunchd.Library.Fairness

/-! `ipc_recv` on a finite byte stream. What the call ends with is a function
of the bytes alone: every return of `read` with a nonempty piece of the stream
leaves that function where it was, whatever the piece. The wire format of
`ipc.h` is stated here on its own and compared with that function. -/
namespace FreebsdLaunchd.Ipc
open CData Fairness

@[simp] theorem MsgHdr.bytes_length (h : MsgHdr) : h.bytes.length = hdrSize := rfl

@[simp] theorem MsgHdr.ofBytes_bytes (h : MsgHdr) : MsgHdr.ofBytes h.bytes = h := by
  have magic := wordAt_wordBytes [] h.magic
    (wordBytes h.version ++ wordBytes h.cmd ++ wordBytes h.payloadLen)
  have version := wordAt_wordBytes (wordBytes h.magic) h.version
    (wordBytes h.cmd ++ wordBytes h.payloadLen)
  have cmd := wordAt_wordBytes (wordBytes h.magic ++ wordBytes h.version) h.cmd
    (wordBytes h.payloadLen)
  have len := wordAt_wordBytes (wordBytes h.magic ++ wordBytes h.version ++ wordBytes h.cmd)
    h.payloadLen []
  simp only [List.append_assoc,List.nil_append,List.append_nil,List.length_nil,List.length_append,
    wordBytes_length] at magic version cmd len
  simp only [MsgHdr.ofBytes,MsgHdr.bytes,List.append_assoc,magic,version,cmd,len]

theorem MsgHdr.bytes_ofBytes (memory : Bytes) (full : memory.length = hdrSize) :
    (MsgHdr.ofBytes memory).bytes = memory := by
  match memory,full with
  | [a0,a1,a2,a3,b0,b1,b2,b3,c0,c1,c2,c3,d0,d1,d2,d3],_ =>
    have magic := wordBytes_wordAt [] a0 a1 a2 a3 [b0,b1,b2,b3,c0,c1,c2,c3,d0,d1,d2,d3]
    have version := wordBytes_wordAt [a0,a1,a2,a3] b0 b1 b2 b3 [c0,c1,c2,c3,d0,d1,d2,d3]
    have cmd := wordBytes_wordAt [a0,a1,a2,a3,b0,b1,b2,b3] c0 c1 c2 c3 [d0,d1,d2,d3]
    have len := wordBytes_wordAt [a0,a1,a2,a3,b0,b1,b2,b3,c0,c1,c2,c3] d0 d1 d2 d3 []
    simp only [List.append_nil,List.nil_append,List.cons_append,List.length_cons,List.length_nil,
      Nat.zero_add,Nat.reduceAdd] at magic version cmd len
    simp only [MsgHdr.bytes,MsgHdr.ofBytes,magic,version,cmd,len,List.cons_append,List.nil_append]

/-- The call is inside a loop whose condition holds, or has returned. -/
def Recv.Waiting (r : Recv) : Prop :=
  match r.phase with
  | .header got => got.length < hdrSize ∧ r.payloadOut = none ∧ r.live = 0
  | .payload got => got.length < r.hdrOut.payloadLen.toNat ∧ r.live = 1
  | .returned _ _ => True

def finishPayload (r : Recv) (got pending : Bytes) : Recv × Bytes :=
  let missing := r.hdrOut.payloadLen.toNat - got.length
  if pending.length < missing then
    ({r with phase := .returned (-1) none,payloadOut := none,live := r.live-1},[])
  else ({r with phase := .returned 0 none,payloadOut := some (got ++ pending.take missing ++ [0])},
    pending.drop missing)

def finishChecked (r : Recv) (pending : Bytes) : Recv × Bytes :=
  match r.phase with
  | .payload got => finishPayload r got pending
  | _ => (r,pending)

/-- What `ipc_recv` ends with when the rest of the stream is `pending`. -/
def finish (malloc : Bool) (r : Recv) (pending : Bytes) : Recv × Bytes :=
  match r.phase with
  | .header got =>
    let missing := hdrSize - got.length
    if pending.length < missing then
      (r.fail (if (got ++ pending).length = 0 then -2 else -1) none,[])
    else finishChecked (checkHeader malloc (MsgHdr.ofBytes (got ++ pending.take missing))) (pending.drop missing)
  | .payload got => finishPayload r got pending
  | .returned _ _ => (r,pending)

def MsgHdr.Valid (h : MsgHdr) : Prop :=
  h.magic = ipcMagic ∧ h.version = ipcVersion ∧ h.payloadLen.toNat ≤ ipcMaxPayload

theorem checkHeader_cases (malloc : Bool) (hdr : MsgHdr) :
    (¬ hdr.Valid ∧ ∃ errno, checkHeader malloc hdr = ⟨.returned (-1) (some errno),hdr,none,0⟩) ∨
    (hdr.Valid ∧ hdr.payloadLen.toNat = 0 ∧ checkHeader malloc hdr = ⟨.returned 0 none,hdr,none,0⟩) ∨
    (hdr.Valid ∧ 0 < hdr.payloadLen.toNat ∧ malloc = true ∧
      checkHeader malloc hdr = ⟨.payload [],hdr,some [],1⟩) ∨
    (hdr.Valid ∧ 0 < hdr.payloadLen.toNat ∧ malloc = false ∧
      checkHeader malloc hdr = ⟨.returned (-1) (some .ENOMEM),hdr,none,0⟩) := by
  have empty : hdr.payloadLen = 0 ↔ hdr.payloadLen.toNat = 0 := by
    rw [← UInt32.toNat_inj]
    rfl
  unfold checkHeader MsgHdr.Valid
  dsimp only
  split_ifs with magic version size zero granted
  · exact .inl ⟨fun valid => magic valid.1,_,rfl⟩
  · exact .inl ⟨fun valid => version valid.2.1,_,rfl⟩
  · exact .inl ⟨fun valid => Nat.not_lt.mpr valid.2.2 size,_,rfl⟩
  all_goals
    have valid : hdr.magic = ipcMagic ∧ hdr.version = ipcVersion ∧
      hdr.payloadLen.toNat ≤ ipcMaxPayload := ⟨not_not.mp magic,not_not.mp version,Nat.not_lt.mp size⟩
  · exact .inr (.inl ⟨valid,empty.mp zero,rfl⟩)
  · exact .inr (.inr (.inl ⟨valid,Nat.pos_of_ne_zero (zero ∘ empty.mpr),granted,rfl⟩))
  · exact .inr (.inr (.inr ⟨valid,Nat.pos_of_ne_zero (zero ∘ empty.mpr),by simpa using granted,rfl⟩))

private theorem checkHeader_waiting (malloc : Bool) (hdr : MsgHdr) : (checkHeader malloc hdr).Waiting := by
  rcases checkHeader_cases malloc hdr with ⟨_,_,h⟩ | ⟨_,_,h⟩ | ⟨_,nonempty,_,h⟩ | ⟨_,_,_,h⟩ <;>
    rw [h]
  case inr.inr.inl => exact ⟨nonempty,rfl⟩
  all_goals trivial

private theorem finish_checkHeader (malloc : Bool) (hdr : MsgHdr) (pending : Bytes) :
    finish malloc (checkHeader malloc hdr) pending = finishChecked (checkHeader malloc hdr) pending := by
  rcases checkHeader_cases malloc hdr with ⟨_,_,h⟩ | ⟨_,_,h⟩ | ⟨_,_,_,h⟩ | ⟨_,_,_,h⟩ <;>
    rw [h] <;> rfl

private theorem readAll_data (got new : Bytes) (nonempty : new ≠ []) : readAll got (.data new) = .again (got ++ new) := by
  cases new with
  | nil => exact absurd rfl nonempty
  | cons b new => rfl

theorem ipcRecvStep_eintr (malloc : Bool) (r : Recv) (waiting : r.Waiting) :
    ipcRecvStep malloc r (.error .EINTR) = r := by
  obtain ⟨phase,hdr,out,live⟩ := r
  cases phase with
  | header got => simp [ipcRecvStep,readAll,waiting.1]
  | payload got => simp [ipcRecvStep,readAll,show got.length < hdr.payloadLen.toNat from waiting.1]
  | returned rc errno => rfl

/-- A piece of the stream read now or left to later makes no difference. -/
theorem finish_data (malloc : Bool) (r : Recv) (n : Nat) (new rest : Bytes) (wants : r.wants = some n)
    (nonempty : new ≠ []) (fits : new.length ≤ n) :
    finish malloc (ipcRecvStep malloc r (.data new)) rest = finish malloc r (new ++ rest) := by
  obtain ⟨phase,hdr,out,live⟩ := r
  cases phase with
  | header got =>
    obtain rfl : hdrSize - got.length = n := Option.some.inj wants
    simp only [ipcRecvStep,readAll_data got new nonempty]
    split_ifs with short
    · have missing : hdrSize - got.length = new.length + (hdrSize - (got ++ new).length) := by
        simp only [List.length_append] at short ⊢
        omega
      simp only [finish,Recv.fail,missing,List.length_append,List.append_assoc,
        Nat.add_lt_add_iff_left,List.take_length_add_append,List.drop_length_add_append]
    · have whole : hdrSize - got.length = new.length := by
        simp only [List.length_append] at short
        omega
      rw [finish_checkHeader]
      simp only [finish,whole,List.length_append,List.take_left,List.drop_left,
        if_neg (show ¬ new.length + rest.length < new.length by omega)]
  | payload got =>
    obtain rfl : hdr.payloadLen.toNat - got.length = n := Option.some.inj wants
    simp only [ipcRecvStep,readAll_data got new nonempty]
    split_ifs with short
    · have missing : hdr.payloadLen.toNat - got.length =
          new.length + (hdr.payloadLen.toNat - (got ++ new).length) := by
        simp only [List.length_append] at short ⊢
        omega
      simp only [finish,finishPayload,missing,List.length_append,List.append_assoc,
        Nat.add_lt_add_iff_left,List.take_length_add_append,List.drop_length_add_append]
    · have whole : hdr.payloadLen.toNat - got.length = new.length := by
        simp only [List.length_append] at short
        omega
      simp only [finish,finishPayload,whole,List.length_append,List.take_left,List.drop_left,
        if_neg (show ¬ new.length + rest.length < new.length by omega)]
  | returned rc errno => cases wants

private theorem finish_eof (malloc : Bool) (r : Recv) (n : Nat) (waiting : r.Waiting) (wants : r.wants = some n) :
    finish malloc (ipcRecvStep malloc r (.data [])) [] = finish malloc r [] := by
  obtain ⟨phase,hdr,out,live⟩ := r
  cases phase with
  | header got =>
    have lacking : 0 < hdrSize - got.length := Nat.sub_pos_of_lt waiting.1
    simp [ipcRecvStep,readAll,finish,Recv.fail,lacking]
  | payload got =>
    have lacking : 0 < hdr.payloadLen.toNat - got.length := Nat.sub_pos_of_lt waiting.1
    simp [ipcRecvStep,readAll,finish,finishPayload,lacking]
  | returned rc errno => cases wants

theorem ipcRecvStep_waiting (malloc : Bool) (r : Recv) (ret : ReadRet) (waiting : r.Waiting) :
    (ipcRecvStep malloc r ret).Waiting := by
  obtain ⟨phase,hdr,out,live⟩ := r
  cases phase with
  | header got =>
    simp only [ipcRecvStep]
    split
    · split_ifs with short
      · exact ⟨short,waiting.2⟩
      · exact checkHeader_waiting malloc _
    · trivial
  | payload got =>
    simp only [ipcRecvStep]
    split
    · split_ifs with short
      · exact ⟨short,waiting.2⟩
      · trivial
    · trivial
  | returned rc errno => trivial

theorem wants_pos (r : Recv) (n : Nat) (waiting : r.Waiting) (wants : r.wants = some n) : 0 < n := by
  obtain ⟨phase,hdr,out,live⟩ := r
  cases phase with
  | header got => exact Option.some.inj wants ▸ Nat.sub_pos_of_lt waiting.1
  | payload got => exact Option.some.inj wants ▸ Nat.sub_pos_of_lt waiting.1
  | returned rc errno => cases wants

def Recv.rc (r : Recv) : Option Int :=
  match r.phase with
  | .returned rc _ => some rc
  | _ => none

theorem finish_returned (malloc : Bool) (r : Recv) (pending : Bytes) (returned : r.wants = none) :
    finish malloc r pending = (r,pending) := by
  obtain ⟨phase,hdr,out,live⟩ := r
  cases phase with
  | header got => cases returned
  | payload got => cases returned
  | returned rc errno => rfl

inductive Choice
  | intr
  | short (k : Nat)

def Choice.interrupts : Choice → Bool
  | intr => true
  | short _ => false

structure Reader where
  recv : Recv
  pending : Bytes

def Reader.step (malloc : Bool) (s : Reader) (c : Choice) : Reader :=
  match s.recv.wants with
  | none => s
  | some n =>
    match c with
    | .intr => {s with recv := ipcRecvStep malloc s.recv (.error .EINTR)}
    | .short k =>
      let m := min (max k 1) n
      ⟨ipcRecvStep malloc s.recv (.data (s.pending.take m)),s.pending.drop m⟩

def Reader.finish (malloc : Bool) (s : Reader) : Reader :=
  let out := Ipc.finish malloc s.recv s.pending
  ⟨out.1,out.2⟩

def Reader.rank (s : Reader) : Nat :=
  match s.recv.wants with
  | none => 0
  | some _ => s.pending.length + 1

theorem Reader.step_waiting (malloc : Bool) (s : Reader) (c : Choice) (waiting : s.recv.Waiting) :
    (s.step malloc c).recv.Waiting := by
  unfold Reader.step
  split
  · exact waiting
  · cases c <;> exact ipcRecvStep_waiting malloc s.recv _ waiting

theorem Reader.step_finish (malloc : Bool) (s : Reader) (c : Choice) (waiting : s.recv.Waiting) :
    (s.step malloc c).finish malloc = s.finish malloc := by
  obtain ⟨recv,pending⟩ := s
  unfold Reader.step
  split
  · rfl
  · rename_i n wants
    cases c with
    | intr => simp only [Reader.finish,ipcRecvStep_eintr malloc recv waiting]
    | short k =>
      have lacking := wants_pos recv n waiting wants
      simp only [Reader.finish]
      cases pending with
      | nil =>
        simp only [List.take_nil,List.drop_nil,finish_eof malloc recv n waiting wants]
      | cons b rest =>
        have piece : (b::rest).take (min (max k 1) n) ≠ [] := by
          simp only [ne_eq,List.take_eq_nil_iff,reduceCtorEq,or_false]
          omega
        rw [finish_data malloc recv n _ _ wants piece (by simp only [List.length_take]; omega),
          List.take_append_drop]

theorem Reader.step_rank (malloc : Bool) (s : Reader) (c : Choice) (waiting : s.recv.Waiting)
    (running : s.recv.wants ≠ none) :
    (s.step malloc c).rank < s.rank ∨ ((s.step malloc c).rank = s.rank ∧ c.interrupts = true) := by
  obtain ⟨recv,pending⟩ := s
  obtain ⟨n,wants⟩ := Option.ne_none_iff_exists'.mp running
  cases c with
  | intr =>
    refine .inr ⟨?_,rfl⟩
    simp only [Reader.step,wants,ipcRecvStep_eintr malloc recv waiting]
  | short k =>
    refine .inl ?_
    have lacking := wants_pos recv n waiting wants
    simp only [Reader.step,wants,Reader.rank]
    cases pending with
    | nil =>
      have ended : (ipcRecvStep malloc recv (.data [])).wants = none := by
        obtain ⟨phase,hdr,out,live⟩ := recv
        cases phase with
        | header got => rfl
        | payload got => rfl
        | returned rc errno => cases wants
      simp only [List.take_nil,ended]
      omega
    | cons b rest =>
      split
      · omega
      · simp only [List.length_drop,List.length_cons]
        omega

/-- However the stream is cut into reads, `ipc_recv` returns, with what the
bytes alone determine. -/
theorem Reader.settles (malloc : Bool) (stream : Bytes) (schedule : ℕ → Choice)
    (progress : Offers Choice.interrupts schedule false) :
    ∃ n, ∀ m, n ≤ m →
      trace (Reader.step malloc) ⟨ipcRecv,stream⟩ schedule m = Reader.finish malloc ⟨ipcRecv,stream⟩ := by
  have waiting := trace_invariant (Reader.step malloc) ⟨ipcRecv,stream⟩ schedule
    (P := fun s => s.recv.Waiting) (show Recv.Waiting ipcRecv from ⟨by decide,rfl,rfl⟩)
    (fun n before => Reader.step_waiting malloc _ _ before)
  have same := trace_invariant (Reader.step malloc) ⟨ipcRecv,stream⟩ schedule
    (P := fun s => s.finish malloc = Reader.finish malloc ⟨ipcRecv,stream⟩) rfl
    (fun n before => (Reader.step_finish malloc _ _ (waiting n)).trans before)
  obtain ⟨n,returned⟩ := reaches_goal (Reader.step malloc) ⟨ipcRecv,stream⟩ schedule
    (fun s => s.recv.wants = none) Reader.rank (fun _ => false) (fun _ => progress) (fun n running => by
      rcases Reader.step_rank malloc _ (schedule n) (waiting n) running with less | ⟨equal,other⟩
      · exact .inl less
      · exact .inr ⟨equal,by simp [other],rfl⟩)
  refine ⟨n,fun m later => ?_⟩
  rw [trace_settled (fun c => by simp only [Reader.step,returned]) later,← same n]
  simp only [Reader.finish,finish_returned malloc _ _ returned]

/-- The wire format of `ipc.h`: the stream starts with a header of the right
magic and version, and at least the announced number of bytes follows it. -/
def Frame (stream : Bytes) (cmd : UInt32) (payload : Bytes) : Prop :=
  ∃ hdr : MsgHdr, ∃ rest, stream = hdr.bytes ++ payload ++ rest ∧ hdr.Valid ∧ hdr.cmd = cmd ∧
    hdr.payloadLen.toNat = payload.length

/-- The buffer behind `*payload_out` for a received payload; none is allocated
for an empty one. -/
def payloadBuffer (payload : Bytes) : Option Bytes :=
  if payload = [] then none else some (payload ++ [0])

def Recv.Accepts (r : Recv) (cmd : UInt32) (payload : Bytes) : Prop :=
  r.rc = some 0 ∧ r.hdrOut.cmd = cmd ∧ r.payloadOut = payloadBuffer payload

private theorem payloadBuffer_injective (a b : Bytes) (same : payloadBuffer a = payloadBuffer b) : a = b := by
  unfold payloadBuffer at same
  split_ifs at same with ha hb hb
  · exact ha.trans hb.symm
  · exact List.append_cancel_right (Option.some.inj same)

def streamHdr (stream : Bytes) : MsgHdr := MsgHdr.ofBytes (stream.take hdrSize)

private theorem frame_iff (stream : Bytes) (cmd : UInt32) (payload : Bytes) :
    Frame stream cmd payload ↔ hdrSize ≤ stream.length ∧ (streamHdr stream).Valid ∧
      (streamHdr stream).cmd = cmd ∧
      (streamHdr stream).payloadLen.toNat ≤ (stream.drop hdrSize).length ∧
      payload = (stream.drop hdrSize).take (streamHdr stream).payloadLen.toNat := by
  constructor
  · rintro ⟨hdr,rest,rfl,valid,rfl,size⟩
    have front : (hdr.bytes ++ payload ++ rest).take hdrSize = hdr.bytes := by
      rw [List.append_assoc,List.take_left' hdr.bytes_length]
    have back : (hdr.bytes ++ payload ++ rest).drop hdrSize = payload ++ rest := by
      rw [List.append_assoc,List.drop_left' hdr.bytes_length]
    have same : streamHdr (hdr.bytes ++ payload ++ rest) = hdr := by
      rw [streamHdr,front,MsgHdr.ofBytes_bytes]
    rw [same,back,size]
    refine ⟨?_,valid,rfl,by simp,by simp⟩
    simp only [List.length_append,MsgHdr.bytes_length]
    omega
  · rintro ⟨long,valid,rfl,enough,rfl⟩
    refine ⟨streamHdr stream,(stream.drop hdrSize).drop (streamHdr stream).payloadLen.toNat,
      ?_,valid,rfl,by rw [List.length_take]; omega⟩
    have front : (streamHdr stream).bytes = stream.take hdrSize :=
      MsgHdr.bytes_ofBytes _ (by rw [List.length_take]; omega)
    rw [front,List.append_assoc,List.take_append_drop,List.take_append_drop]

/-- The six ways in which `ipc_recv` ends, by the bytes of the stream. -/
inductive Ending (stream : Bytes) : Recv → Bytes → Prop
  | empty (none' : stream = []) (hdr) : Ending stream ⟨.returned (-2) none,hdr,none,0⟩ []
  | truncated (some' : stream ≠ []) (short : stream.length < hdrSize) (hdr) :
      Ending stream ⟨.returned (-1) none,hdr,none,0⟩ []
  | refused (long : hdrSize ≤ stream.length) (bad : ¬ (streamHdr stream).Valid) (errno) :
      Ending stream ⟨.returned (-1) (some errno),streamHdr stream,none,0⟩ (stream.drop hdrSize)
  | bare (long : hdrSize ≤ stream.length) (valid : (streamHdr stream).Valid)
      (zero : (streamHdr stream).payloadLen.toNat = 0) :
      Ending stream ⟨.returned 0 none,streamHdr stream,none,0⟩ (stream.drop hdrSize)
  | cut (long : hdrSize ≤ stream.length) (valid : (streamHdr stream).Valid)
      (few : (stream.drop hdrSize).length < (streamHdr stream).payloadLen.toNat) :
      Ending stream ⟨.returned (-1) none,streamHdr stream,none,0⟩ []
  | full (long : hdrSize ≤ stream.length) (valid : (streamHdr stream).Valid)
      (some' : 0 < (streamHdr stream).payloadLen.toNat)
      (enough : (streamHdr stream).payloadLen.toNat ≤ (stream.drop hdrSize).length) :
      Ending stream
        ⟨.returned 0 none,streamHdr stream,
          some ((stream.drop hdrSize).take (streamHdr stream).payloadLen.toNat ++ [0]),1⟩
        ((stream.drop hdrSize).drop (streamHdr stream).payloadLen.toNat)

theorem finishPayload_nil (r : Recv) (pending : Bytes) :
    finishPayload r [] pending = if pending.length < r.hdrOut.payloadLen.toNat then
        ({r with phase := .returned (-1) none,payloadOut := none,live := r.live-1},[])
      else ({r with
          phase := .returned 0 none
          payloadOut := some (pending.take r.hdrOut.payloadLen.toNat ++ [0])},
        pending.drop r.hdrOut.payloadLen.toNat) := by
  simp only [finishPayload,List.length_nil,Nat.sub_zero,List.nil_append]

private theorem checkHeader_ending (stream : Bytes) (long : hdrSize ≤ stream.length) :
    Ending stream (finishChecked (checkHeader true (streamHdr stream)) (stream.drop hdrSize)).1
      (finishChecked (checkHeader true (streamHdr stream)) (stream.drop hdrSize)).2 := by
  rcases checkHeader_cases true (streamHdr stream) with
    ⟨bad,errno,h⟩ | ⟨valid,zero,h⟩ | ⟨valid,some',_,h⟩ | ⟨_,_,granted,_⟩
  · rw [h]
    exact .refused long bad errno
  · rw [h]
    exact .bare long valid zero
  · rw [h]
    simp only [finishChecked,finishPayload_nil]
    split_ifs with few
    · exact .cut long valid few
    · exact .full long valid some' (Nat.not_lt.mp few)
  · cases granted

private theorem finish_ending (stream : Bytes) :
    Ending stream (finish true ipcRecv stream).1 (finish true ipcRecv stream).2 := by
  simp only [finish,ipcRecv,List.length_nil,Nat.sub_zero,List.nil_append]
  split_ifs with short empty
  · exact .empty (List.length_eq_zero_iff.mp empty) _
  · exact .truncated (fun none' => empty (by simp [none'])) short _
  · exact checkHeader_ending stream (Nat.not_lt.mp short)

theorem Ending.accepts_iff {stream : Bytes} {r : Recv} {rest : Bytes} (ending : Ending stream r rest)
    (cmd : UInt32) (payload : Bytes) : r.Accepts cmd payload ↔ Frame stream cmd payload := by
  rw [frame_iff]
  cases ending with
  | empty none' hdr => simp [Recv.Accepts,Recv.rc,none',hdrSize]
  | truncated some' short hdr => simp [Recv.Accepts,Recv.rc,Nat.not_le.mpr short]
  | refused long bad errno => simp [Recv.Accepts,Recv.rc,bad]
  | cut long valid few => simp only [Recv.Accepts,Recv.rc,Nat.not_le.mpr few]; simp
  | bare long valid zero =>
    have buffer : none = payloadBuffer payload ↔ payload = [] := by
      simp [payloadBuffer]
    simp [Recv.Accepts,Recv.rc,long,valid,zero,buffer]
  | full long valid some' enough =>
    have nonempty : (stream.drop hdrSize).take (streamHdr stream).payloadLen.toNat ≠ [] := by
      rw [← List.length_pos_iff,List.length_take]
      omega
    have buffer : some ((stream.drop hdrSize).take (streamHdr stream).payloadLen.toNat ++ [0]) =
        payloadBuffer ((stream.drop hdrSize).take (streamHdr stream).payloadLen.toNat) := by
      rw [payloadBuffer,if_neg nonempty]
    simp only [Recv.Accepts,Recv.rc,long,valid,enough,buffer,true_and]
    exact and_congr_right fun _ =>
      ⟨fun same => (payloadBuffer_injective _ _ same).symm,fun same => by rw [same]⟩

theorem Ending.consumes {stream : Bytes} {r : Recv} {rest : Bytes} (ending : Ending stream r rest)
    (cmd : UInt32) (payload : Bytes) (accepted : r.Accepts cmd payload) :
    rest = stream.drop (hdrSize + payload.length) := by
  obtain ⟨_,_,_,enough,rfl⟩ := (frame_iff stream cmd payload).mp
    ((ending.accepts_iff cmd payload).mp accepted)
  have size : ((stream.drop hdrSize).take (streamHdr stream).payloadLen.toNat).length =
      (streamHdr stream).payloadLen.toNat := by
    rw [List.length_take]
    omega
  rw [size]
  cases ending with
  | bare long valid zero => rw [zero]; rfl
  | full => rw [List.drop_drop]
  | _ => simp [Recv.Accepts,Recv.rc] at accepted

theorem Ending.rc_cases {stream : Bytes} {r : Recv} {rest : Bytes} (ending : Ending stream r rest) :
    (r.rc = some 0 ∧ stream ≠ [] ∧ ∃ cmd payload, r.Accepts cmd payload) ∨
    (r.rc = some (-2) ∧ stream = [] ∧ r.payloadOut = none ∧ r.live = 0) ∨
    (r.rc = some (-1) ∧ stream ≠ [] ∧ r.payloadOut = none ∧ r.live = 0) := by
  have present (long : hdrSize ≤ stream.length) : stream ≠ [] := by
    rintro rfl
    simp [hdrSize] at long
  cases ending with
  | empty none' => exact .inr (.inl ⟨rfl,none',rfl,rfl⟩)
  | truncated some' => exact .inr (.inr ⟨rfl,some',rfl,rfl⟩)
  | refused long => exact .inr (.inr ⟨rfl,present long,rfl,rfl⟩)
  | cut long => exact .inr (.inr ⟨rfl,present long,rfl,rfl⟩)
  | bare long => exact .inl ⟨rfl,present long,_,[],rfl,rfl,rfl⟩
  | full long valid some' enough =>
    refine .inl ⟨rfl,present long,_,(stream.drop hdrSize).take (streamHdr stream).payloadLen.toNat,
      rfl,rfl,?_⟩
    have nonempty : (stream.drop hdrSize).take (streamHdr stream).payloadLen.toNat ≠ [] := by
      rw [← List.length_pos_iff,List.length_take]
      omega
    rw [payloadBuffer,if_neg nonempty]

/-- `ipc_recv` accepts exactly the frames of the wire format: for every stream
there is one result that every schedule of short and interrupted reads ends
with. Clean EOF is reported on the empty stream only, a frame is consumed to its
last byte, and a failure leaves no payload behind. -/
theorem ipcRecv_grammar (stream : Bytes) :
    ∃ out : Reader,
      (∀ schedule, Offers Choice.interrupts schedule false →
        ∃ n, ∀ m, n ≤ m → trace (Reader.step true) ⟨ipcRecv,stream⟩ schedule m = out) ∧
      (∀ cmd payload, out.recv.Accepts cmd payload ↔ Frame stream cmd payload) ∧
      (out.recv.rc = some (-2) ↔ stream = []) ∧
      (out.recv.rc = some (-1) ↔ stream ≠ [] ∧ ∀ cmd payload, ¬ Frame stream cmd payload) ∧
      (∀ cmd payload, out.recv.Accepts cmd payload →
        out.pending = stream.drop (hdrSize + payload.length)) ∧
      (out.recv.rc ≠ some 0 → out.recv.payloadOut = none ∧ out.recv.live = 0) := by
  have ending := finish_ending stream
  refine ⟨Reader.finish true ⟨ipcRecv,stream⟩,fun schedule => Reader.settles true stream schedule,
    ending.accepts_iff,?_,?_,ending.consumes,?_⟩
  · rcases ending.rc_cases with ⟨rc,present,_⟩ | ⟨rc,absent,_⟩ | ⟨rc,present,_⟩
    · simp [Reader.finish,rc,present]
    · exact ⟨fun _ => absent,fun _ => rc⟩
    · simp [Reader.finish,rc,present]
  · constructor
    · intro failed
      rcases ending.rc_cases with ⟨rc,_⟩ | ⟨rc,_⟩ | ⟨rc,present,_⟩
      · simp [Reader.finish,rc] at failed
      · simp [Reader.finish,rc] at failed
      · refine ⟨present,fun cmd payload frame => ?_⟩
        have accepted := ((ending.accepts_iff cmd payload).mpr frame).1
        simp [rc] at accepted
    · rintro ⟨present,noFrame⟩
      rcases ending.rc_cases with ⟨_,_,cmd,payload,accepted⟩ | ⟨_,absent,_⟩ | ⟨rc,_⟩
      · exact absurd ((ending.accepts_iff cmd payload).mp accepted) (noFrame cmd payload)
      · exact absurd absent present
      · exact rc
  · intro failed
    rcases ending.rc_cases with ⟨rc,_⟩ | ⟨_,_,free⟩ | ⟨_,_,free⟩
    · exact absurd rc failed
    · exact free
    · exact free

end FreebsdLaunchd.Ipc
