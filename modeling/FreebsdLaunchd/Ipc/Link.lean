import FreebsdLaunchd.Ipc.Framing

/-! One `ipc_send` and one `ipc_recv` on the two ends of a connected stream.
The kernel holds a bounded buffer between them and cuts every transfer as it
likes; a call that cannot transfer anything waits, or reports EAGAIN when its
descriptor is non-blocking. On FreeBSD a descriptor returned by `accept` is
non-blocking here, because `ipc_server_init` sets O_NONBLOCK on the listening
socket. -/
namespace FreebsdLaunchd.Ipc
open CData Fairness

structure Conn where
  capacity : Nat
  sendNonblock : Bool
  recvNonblock : Bool
  malloc : Bool

structure Link where
  send : Send
  buffer : Bytes
  recv : Recv

inductive Action
  | write (k : Nat)
  | writeIntr
  | read (k : Nat)
  | readIntr

inductive Action.Kind
  | write | read | intr
  deriving DecidableEq

def Action.kind : Action → Action.Kind
  | write _ => .write
  | read _ => .read
  | writeIntr => .intr
  | readIntr => .intr

def Link.step (c : Conn) (payload : Bytes) (s : Link) : Action → Link
  | .write k =>
    match s.send.offer with
    | none => s
    | some p =>
      let room := c.capacity - s.buffer.length
      if room = 0 then
        if c.sendNonblock then {s with send := ipcSendStep payload s.send (.error .EAGAIN)} else s
      else
        let n := min (max k 1) (min p.length room)
        {s with send := ipcSendStep payload s.send (.wrote n),buffer := s.buffer ++ p.take n}
  | .writeIntr => {s with send := ipcSendStep payload s.send (.error .EINTR)}
  | .read k =>
    match s.recv.wants with
    | none => s
    | some n =>
      if s.buffer = [] then
        if c.recvNonblock then {s with recv := ipcRecvStep c.malloc s.recv (.error .EAGAIN)} else s
      else
        let m := min (max k 1) n
        {s with
          recv := ipcRecvStep c.malloc s.recv (.data (s.buffer.take m))
          buffer := s.buffer.drop m}
  | .readIntr => {s with recv := ipcRecvStep c.malloc s.recv (.error .EINTR)}

def Link.initial (cmd : UInt32) (payload : Bytes) : Link := ⟨ipcSend cmd payload,[],ipcRecv⟩

/-- The action runs a call into a full or an empty buffer on a descriptor that
does not wait. -/
def WouldBlock (c : Conn) (s : Link) : Action → Prop
  | .write _ => s.send.offer ≠ none ∧ c.sendNonblock = true ∧ c.capacity ≤ s.buffer.length
  | .read _ => s.recv.wants ≠ none ∧ c.recvNonblock = true ∧ s.buffer = []
  | _ => False

/-- Both calls succeeded, and the receiver holds the command and this buffer. -/
def Link.Delivered (s : Link) (cmd : UInt32) (out : Option Bytes) : Prop :=
  s.send = .returned 0 none ∧ s.recv.rc = some 0 ∧ s.recv.hdrOut.cmd = cmd ∧ s.recv.payloadOut = out

def Send.unsent (payload : Bytes) : Send → Bytes
  | .header rest => rest ++ payload
  | .payload rest => rest
  | .returned _ _ => []

def Send.Going : Send → Prop
  | header rest => rest ≠ []
  | payload rest => rest ≠ []
  | returned rc errno => rc = 0 ∧ errno = none

private theorem ipcSendStep_eintr (payload : Bytes) (s : Send) (going : s.Going) :
    ipcSendStep payload s (.error .EINTR) = s := by
  cases s with
  | header rest =>
    cases rest with
    | nil => exact absurd rfl going
    | cons b rest => rfl
  | payload rest =>
    cases rest with
    | nil => exact absurd rfl going
    | cons b rest => rfl
  | returned rc errno => rfl

private theorem writeAll_wrote (p : Bytes) (n : Nat) (positive : 0 < n) :
    writeAll p (.wrote n) = .again (p.drop n) := by
  cases n with
  | zero => cases positive
  | succ n => rfl

private theorem ipcSendStep_going (payload : Bytes) (s : Send) (p : Bytes) (n : Nat)
    (offer : s.offer = some p) (positive : 0 < n) : (ipcSendStep payload s (.wrote n)).Going := by
  cases s with
  | header rest =>
    simp only [ipcSendStep,writeAll_wrote rest n positive]
    cases left : rest.drop n with
    | nil =>
      by_cases bare : payload = []
      · simp [bare,Send.Going]
      · simp [bare,Send.Going]
    | cons b rest => simp [Send.Going]
  | payload rest =>
    simp only [ipcSendStep,writeAll_wrote rest n positive]
    cases left : rest.drop n with
    | nil => exact ⟨rfl,rfl⟩
    | cons b rest => simp [Send.Going]
  | returned rc errno => cases offer

private theorem ipcSendStep_unsent (payload : Bytes) (s : Send) (p : Bytes) (n : Nat)
    (offer : s.offer = some p) (positive : 0 < n) (fits : n ≤ p.length) :
    s.unsent payload = p.take n ++ (ipcSendStep payload s (.wrote n)).unsent payload := by
  cases s with
  | header rest =>
    obtain rfl : rest = p := Option.some.inj offer
    have cutting := List.take_append_drop n rest
    simp only [ipcSendStep,writeAll_wrote rest n positive]
    cases left : rest.drop n with
    | nil =>
      rw [left,List.append_nil] at cutting
      by_cases bare : payload = []
      · simp [Send.unsent,bare,cutting]
      · simp [Send.unsent,bare,cutting]
    | cons b later =>
      rw [left] at cutting
      rw [Send.unsent,Send.unsent,← List.append_assoc,cutting]
  | payload rest =>
    obtain rfl : rest = p := Option.some.inj offer
    have cutting := List.take_append_drop n rest
    simp only [ipcSendStep,writeAll_wrote rest n positive]
    cases left : rest.drop n with
    | nil =>
      rw [left] at cutting
      simpa [Send.unsent] using cutting.symm
    | cons b later =>
      rw [left] at cutting
      simpa [Send.unsent] using cutting.symm
  | returned rc errno => cases offer

/-- Neither call has failed, and what the receiver ends with once it has the
bytes in flight and those not yet sent is what it ends with on the frame. -/
structure Link.Sound (c : Conn) (payload frame : Bytes) (s : Link) : Prop where
  going : s.send.Going
  waiting : s.recv.Waiting
  stream : finish c.malloc s.recv (s.buffer ++ s.send.unsent payload) = finish c.malloc ipcRecv frame

/-- Each unsent byte still has two transfers to make, each buffered one has one. -/
def Link.rank (payload : Bytes) (s : Link) : Nat :=
  2 * (s.send.unsent payload).length + s.buffer.length

/-- The receiver drains a nonempty buffer, the sender fills an empty one. -/
def Link.helpful (s : Link) : Action.Kind :=
  if s.buffer = [] then .write else .read

theorem Link.step_unblocked_write (c : Conn) (payload frame : Bytes) (s : Link) (k : Nat)
    (sound : s.Sound c payload frame) (free : ¬ WouldBlock c s (.write k)) :
    s.step c payload (.write k) = s ∧ (s.send.offer = none ∨ c.capacity ≤ s.buffer.length) ∨
    ((s.step c payload (.write k)).Sound c payload frame ∧
      (s.step c payload (.write k)).rank payload < s.rank payload) := by
  obtain ⟨send,buffer,recv⟩ := s
  obtain ⟨going,waiting,stream⟩ := sound
  simp only [Link.step]
  split
  · rename_i idle
    exact .inl ⟨rfl,.inl idle⟩
  · rename_i p offer
    split_ifs with noRoom nonblock
    · exact absurd ⟨by simp [offer],nonblock,by simpa using Nat.sub_eq_zero_iff_le.mp noRoom⟩ free
    · exact .inl ⟨rfl,.inr (Nat.sub_eq_zero_iff_le.mp noRoom)⟩
    · refine .inr ?_
      have some' : 0 < p.length := by
        rw [List.length_pos_iff]
        cases send with
        | header rest => exact Option.some.inj offer ▸ going
        | payload rest => exact Option.some.inj offer ▸ going
        | returned rc errno => cases offer
      generalize cut : min (max k 1) (min p.length (c.capacity - buffer.length)) = n
      have positive : 0 < n := by omega
      have fits : n ≤ p.length := by omega
      have unsent := ipcSendStep_unsent payload send p n offer positive fits
      refine ⟨⟨ipcSendStep_going payload send p n offer positive,waiting,?_⟩,?_⟩
      · rw [List.append_assoc,← unsent]
        exact stream
      · have sizes := congrArg List.length unsent
        simp only [Link.rank,List.length_append,List.length_take] at sizes ⊢
        omega

theorem Link.step_unblocked_read (c : Conn) (payload frame : Bytes) (s : Link) (k : Nat)
    (sound : s.Sound c payload frame) (free : ¬ WouldBlock c s (.read k)) :
    s.step c payload (.read k) = s ∧ (s.recv.wants = none ∨ s.buffer = []) ∨
    ((s.step c payload (.read k)).Sound c payload frame ∧
      (s.step c payload (.read k)).rank payload < s.rank payload) := by
  obtain ⟨send,buffer,recv⟩ := s
  obtain ⟨going,waiting,stream⟩ := sound
  simp only [Link.step]
  split
  · rename_i idle
    exact .inl ⟨rfl,.inl idle⟩
  · rename_i n wants
    split_ifs with drained nonblock
    · exact absurd ⟨by simp [wants],nonblock,drained⟩ free
    · exact .inl ⟨rfl,.inr drained⟩
    · refine .inr ?_
      have lacking := wants_pos recv n waiting wants
      generalize cut : min (max k 1) n = m
      have piece : buffer.take m ≠ [] := by
        simp only [ne_eq,List.take_eq_nil_iff,drained,or_false]
        omega
      refine ⟨⟨going,ipcRecvStep_waiting c.malloc recv _ waiting,?_⟩,?_⟩
      · rw [finish_data c.malloc recv n _ _ wants piece (by simp only [List.length_take]; omega),
          ← List.append_assoc,List.take_append_drop]
        exact stream
      · have present := List.length_pos_iff.mpr drained
        simp only [Link.rank,List.length_drop]
        omega

/-- Away from EAGAIN every step keeps the stream whole; it moves bytes on, or
it changes nothing and was not the helpful one. -/
theorem Link.step_unblocked (c : Conn) (payload frame : Bytes) (s : Link) (a : Action)
    (sound : s.Sound c payload frame) (free : ¬ WouldBlock c s a) :
    (s.step c payload a).Sound c payload frame ∧
      ((s.step c payload a).rank payload < s.rank payload ∨ s.step c payload a = s) := by
  cases a with
  | write k =>
    rcases s.step_unblocked_write c payload frame k sound free with ⟨same,_⟩ | ⟨next,less⟩
    · exact ⟨same.symm ▸ sound,.inr same⟩
    · exact ⟨next,.inl less⟩
  | read k =>
    rcases s.step_unblocked_read c payload frame k sound free with ⟨same,_⟩ | ⟨next,less⟩
    · exact ⟨same.symm ▸ sound,.inr same⟩
    · exact ⟨next,.inl less⟩
  | writeIntr =>
    have same : s.step c payload .writeIntr = s := by
      simp only [Link.step,ipcSendStep_eintr payload s.send sound.going]
    exact ⟨same.symm ▸ sound,.inr same⟩
  | readIntr =>
    have same : s.step c payload .readIntr = s := by
      simp only [Link.step,ipcRecvStep_eintr c.malloc s.recv sound.waiting]
    exact ⟨same.symm ▸ sound,.inr same⟩

private theorem sendHdr_payloadLen (cmd : UInt32) (payload : Bytes) (fits : payload.length ≤ ipcMaxPayload) :
    (sendHdr cmd payload).payloadLen.toNat = payload.length := by
  have small : payload.length < 2^32 := Nat.lt_of_le_of_lt fits (by decide)
  simp only [sendHdr,UInt32.toNat_ofNat']
  exact Nat.mod_eq_of_lt small

private theorem sendHdr_valid (cmd : UInt32) (payload : Bytes) (fits : payload.length ≤ ipcMaxPayload) :
    (sendHdr cmd payload).Valid :=
  ⟨rfl,rfl,by rw [sendHdr_payloadLen cmd payload fits]; exact fits⟩

def frameBytes (cmd : UInt32) (payload : Bytes) : Bytes := (sendHdr cmd payload).bytes ++ payload

private theorem finish_frame (malloc : Bool) (cmd : UInt32) (payload : Bytes) :
    finish malloc ipcRecv (frameBytes cmd payload) =
      finishChecked (checkHeader malloc (sendHdr cmd payload)) payload := by
  have size : (sendHdr cmd payload).bytes.length = hdrSize := MsgHdr.bytes_length _
  have long : ¬ (frameBytes cmd payload).length < hdrSize := by
    rw [frameBytes,List.length_append,size]
    omega
  simp only [finish,ipcRecv,List.length_nil,Nat.sub_zero,List.nil_append,if_neg long]
  rw [frameBytes,List.take_left' size,List.drop_left' size,MsgHdr.ofBytes_bytes]

private theorem finish_frame_cases (malloc : Bool) (cmd : UInt32) (payload : Bytes)
    (fits : payload.length ≤ ipcMaxPayload) :
    (∃ live, (payload = [] ∨ malloc = true) ∧ finish malloc ipcRecv (frameBytes cmd payload) =
      (⟨.returned 0 none,sendHdr cmd payload,payloadBuffer payload,live⟩,[])) ∨
    (payload ≠ [] ∧ malloc = false ∧ (finish malloc ipcRecv (frameBytes cmd payload)).1.rc = some (-1)) := by
  have len := sendHdr_payloadLen cmd payload fits
  have valid := sendHdr_valid cmd payload fits
  rw [finish_frame]
  rcases checkHeader_cases malloc (sendHdr cmd payload) with
    ⟨bad,_⟩ | ⟨_,zero,h⟩ | ⟨_,some',granted,h⟩ | ⟨_,some',refused,h⟩
  · exact absurd valid bad
  · have bare : payload = [] := List.length_eq_zero_iff.mp (len ▸ zero)
    refine .inl ⟨0,.inl bare,?_⟩
    rw [h,bare]
    rfl
  · have nonempty : payload ≠ [] := List.length_pos_iff.mp (len ▸ some')
    refine .inl ⟨1,.inr granted,?_⟩
    rw [h,payloadBuffer,if_neg nonempty]
    simp only [finishChecked,finishPayload_nil,len,Nat.lt_irrefl,if_false,List.take_length,
      List.drop_length]
  · refine .inr ⟨List.length_pos_iff.mp (len ▸ some'),refused,?_⟩
    rw [h]
    rfl

private theorem finish_nil_rc (malloc : Bool) (r : Recv) (waiting : r.Waiting) (running : r.wants ≠ none) :
    (finish malloc r []).1.rc ≠ some 0 := by
  obtain ⟨phase,hdr,out,live⟩ := r
  cases phase with
  | header got =>
    have lacking : 0 < hdrSize - got.length := Nat.sub_pos_of_lt waiting.1
    simp only [finish,List.length_nil,lacking,if_true,Recv.fail,Recv.rc]
    split_ifs <;> simp
  | payload got =>
    have lacking : 0 < hdr.payloadLen.toNat - got.length := Nat.sub_pos_of_lt waiting.1
    simp only [finish,finishPayload,List.length_nil,lacking,if_true,Recv.rc]
    simp
  | returned rc errno => exact absurd rfl running

theorem Send.unsent_nil (payload : Bytes) (s : Send) (going : s.Going) (done : s.unsent payload = []) :
    s = .returned 0 none := by
  cases s with
  | header rest => exact absurd (List.append_eq_nil_iff.mp done).1 going
  | payload rest => exact absurd done going
  | returned rc errno => rw [going.1,going.2]

theorem Send.offer_isSome (payload : Bytes) (s : Send) (left : s.unsent payload ≠ []) : s.offer ≠ none := by
  cases s with
  | header rest => simp [Send.offer]
  | payload rest => simp [Send.offer]
  | returned rc errno => exact absurd rfl left

def Link.Done (s : Link) : Prop := s.send.offer = none ∧ s.recv.wants = none

theorem Link.helpful_able (c : Conn) (payload frame : Bytes) (s : Link) (room : 0 < c.capacity)
    (sound : s.Sound c payload frame) (whole : (finish c.malloc ipcRecv frame).2 = [])
    (success : (finish c.malloc ipcRecv frame).1.rc = some 0) (running : ¬ s.Done) :
    (s.helpful = .read ∧ s.recv.wants ≠ none ∧ s.buffer ≠ []) ∨
    (s.helpful = .write ∧ s.send.offer ≠ none ∧ s.buffer.length < c.capacity) := by
  by_cases drained : s.buffer = []
  · refine .inr ⟨by simp [Link.helpful,drained],?_,by simpa [drained] using room⟩
    apply Send.offer_isSome payload
    intro sent
    have stream := sound.stream
    rw [drained,sent,List.append_nil] at stream
    apply running
    refine ⟨by rw [Send.unsent_nil payload s.send sound.going sent]; rfl,?_⟩
    by_contra waits
    exact finish_nil_rc c.malloc s.recv sound.waiting waits (by rw [stream]; exact success)
  · refine .inl ⟨by simp [Link.helpful,drained],?_,drained⟩
    intro returned
    have stream := sound.stream
    rw [finish_returned c.malloc s.recv _ returned] at stream
    have none' : s.buffer ++ s.send.unsent payload = [] := (congrArg Prod.snd stream).trans whole
    exact drained (List.append_eq_nil_iff.mp none').1

theorem Link.step_helpful (c : Conn) (payload frame : Bytes) (s : Link) (a : Action)
    (room : 0 < c.capacity) (sound : s.Sound c payload frame) (free : ¬ WouldBlock c s a)
    (whole : (finish c.malloc ipcRecv frame).2 = [])
    (success : (finish c.malloc ipcRecv frame).1.rc = some 0) (running : ¬ s.Done) :
    (s.step c payload a).rank payload < s.rank payload ∨
      ((s.step c payload a).rank payload = s.rank payload ∧ a.kind ≠ s.helpful ∧
        (s.step c payload a).helpful = s.helpful) := by
  have able := s.helpful_able c payload frame room sound whole success running
  rcases (s.step_unblocked c payload frame a sound free).2 with less | same
  · exact .inl less
  -- a helpful action cannot have left the state as it was
  refine or_iff_not_imp_left.mpr fun stuck => ⟨by rw [same],?_,by rw [same]⟩
  intro kind
  cases a with
  | write k =>
    rcases s.step_unblocked_write c payload frame k sound free with ⟨_,idle | full⟩ | ⟨_,less⟩
    · rcases able with ⟨read,_⟩ | ⟨_,offers,_⟩
      · simp [Action.kind,read] at kind
      · exact offers idle
    · rcases able with ⟨read,_⟩ | ⟨_,_,space⟩
      · simp [Action.kind,read] at kind
      · omega
    · exact stuck less
  | read k =>
    rcases s.step_unblocked_read c payload frame k sound free with ⟨_,idle | drained⟩ | ⟨_,less⟩
    · rcases able with ⟨_,waits,_⟩ | ⟨write,_⟩
      · exact waits idle
      · simp [Action.kind,write] at kind
    · rcases able with ⟨_,_,present⟩ | ⟨write,_⟩
      · exact present drained
      · simp [Action.kind,write] at kind
    · exact stuck less
  | writeIntr => rcases able with ⟨read,_⟩ | ⟨write,_⟩ <;> simp_all [Action.kind]
  | readIntr => rcases able with ⟨read,_⟩ | ⟨write,_⟩ <;> simp_all [Action.kind]

theorem Link.initial_sound (c : Conn) (cmd : UInt32) (payload : Bytes)
    (fits : payload.length ≤ ipcMaxPayload) :
    (Link.initial cmd payload).Sound c payload (frameBytes cmd payload) := by
  have begun : ipcSend cmd payload = .header (sendHdr cmd payload).bytes := by
    rw [ipcSend,if_neg (Nat.not_lt.mpr fits)]
  refine ⟨?_,⟨by decide,rfl,rfl⟩,?_⟩
  · rw [Link.initial,begun]
    exact List.length_pos_iff.mp (by rw [MsgHdr.bytes_length]; decide)
  · simp only [Link.initial,begun,Send.unsent,List.nil_append,frameBytes]

theorem Link.step_send_returned (c : Conn) (payload : Bytes) (s : Link) (a : Action) (rc : Int)
    (errno : Option Errno) (returned : s.send = .returned rc errno) :
    (s.step c payload a).send = .returned rc errno := by
  cases a with
  | write k => simp only [Link.step,returned,Send.offer]
  | writeIntr => simp only [Link.step,returned,ipcSendStep]
  | read k =>
    simp only [Link.step]
    split
    · exact returned
    · split_ifs <;> exact returned
  | readIntr => exact returned

theorem Link.step_recv_returned (c : Conn) (payload : Bytes) (s : Link) (a : Action)
    (returned : s.recv.wants = none) : (s.step c payload a).recv = s.recv := by
  have kept (ret : ReadRet) : ipcRecvStep c.malloc s.recv ret = s.recv := by
    obtain ⟨send,buffer,phase,hdr,out,live⟩ := s
    cases phase with
    | header got => cases returned
    | payload got => cases returned
    | returned rc errno => rfl
  cases a with
  | write k =>
    simp only [Link.step]
    split
    · rfl
    · split_ifs <;> rfl
  | writeIntr => rfl
  | read k => simp only [Link.step,returned]
  | readIntr => simp only [Link.step,kept]

theorem Recv.wants_of_rc (r : Recv) (rc : Int) (returned : r.rc = some rc) : r.wants = none := by
  obtain ⟨phase,hdr,out,live⟩ := r
  cases phase with
  | header got => cases returned
  | payload got => cases returned
  | returned rc errno => rfl

theorem Link.step_blocked (c : Conn) (payload : Bytes) (s : Link) (a : Action) (blocked : WouldBlock c s a) :
    (s.step c payload a).send = .returned (-1) (some .EAGAIN) ∨
      (s.step c payload a).recv.rc = some (-1) := by
  obtain ⟨send,buffer,⟨phase,hdr,out,live⟩⟩ := s
  cases a with
  | write k =>
    obtain ⟨offers,nonblock,full⟩ := blocked
    have noRoom : c.capacity - buffer.length = 0 := Nat.sub_eq_zero_of_le full
    cases send with
    | header rest =>
      left
      simp [Link.step,Send.offer,noRoom,nonblock,ipcSendStep,writeAll]
    | payload rest =>
      left
      simp [Link.step,Send.offer,noRoom,nonblock,ipcSendStep,writeAll]
    | returned rc errno => exact absurd rfl offers
  | read k =>
    obtain ⟨waits,nonblock,drained⟩ := blocked
    dsimp only at drained
    subst buffer
    cases phase with
    | header got =>
      right
      simp [Link.step,Recv.wants,nonblock,ipcRecvStep,readAll,Recv.fail,Recv.rc]
    | payload got =>
      right
      simp [Link.step,Recv.wants,nonblock,ipcRecvStep,readAll,Recv.rc]
    | returned rc errno => exact absurd rfl waits
  | writeIntr => cases blocked
  | readIntr => cases blocked

section Schedule
variable (c : Conn) (cmd : UInt32) (payload : Bytes) (schedule : ℕ → Action)

def Link.after (n : ℕ) : Link := trace (Link.step c payload) (Link.initial cmd payload) schedule n

def Unblocked : Prop := ∀ n, ¬ WouldBlock c (Link.after c cmd payload schedule n) (schedule n)

theorem Link.after_sound (fits : payload.length ≤ ipcMaxPayload)
    (free : Unblocked c cmd payload schedule) (n : ℕ) :
    (Link.after c cmd payload schedule n).Sound c payload (frameBytes cmd payload) :=
  trace_invariant (Link.step c payload) (Link.initial cmd payload) schedule
    (P := fun s => s.Sound c payload (frameBytes cmd payload))
    (Link.initial_sound c cmd payload fits)
    (fun n sound => (Link.step_unblocked c payload _ _ (schedule n) sound (free n)).1) n

theorem Link.after_send_returned (n : ℕ) (rc : Int) (errno : Option Errno)
    (returned : (Link.after c cmd payload schedule n).send = .returned rc errno) {m : ℕ} (later : n ≤ m) :
    (Link.after c cmd payload schedule m).send = .returned rc errno := by
  induction m, later using Nat.le_induction with
  | base => exact returned
  | succ m _ ih => exact Link.step_send_returned c payload _ (schedule m) rc errno ih

theorem Link.after_recv_returned (n : ℕ) (rc : Int)
    (returned : (Link.after c cmd payload schedule n).recv.rc = some rc) {m : ℕ} (later : n ≤ m) :
    (Link.after c cmd payload schedule m).recv.rc = some rc := by
  induction m, later using Nat.le_induction with
  | base => exact returned
  | succ m _ ih =>
    have kept := Link.step_recv_returned c payload (Link.after c cmd payload schedule m) (schedule m)
      (Recv.wants_of_rc _ _ ih)
    exact (congrArg Recv.rc kept).trans ih

/-- A delivery at any time shows that EAGAIN was never reported: before it, it
would have failed a call, and after it no call is left to block. -/
theorem Link.unblocked_of_delivered (n : ℕ) (out : Option Bytes)
    (delivered : (Link.after c cmd payload schedule n).Delivered cmd out) :
    Unblocked c cmd payload schedule := by
  obtain ⟨sent,received,_⟩ := delivered
  intro m blocked
  rcases Nat.lt_or_ge m n with before | after
  · rcases Link.step_blocked c payload _ (schedule m) blocked with failed | failed
    · have later := Link.after_send_returned c cmd payload schedule (m+1) _ _ failed before
      rw [sent] at later
      cases later
    · have later := Link.after_recv_returned c cmd payload schedule (m+1) _ failed before
      rw [received] at later
      cases later
  · have sent := Link.after_send_returned c cmd payload schedule n _ _ sent after
    have waits := Recv.wants_of_rc _ _ (Link.after_recv_returned c cmd payload schedule n _ received after)
    cases action : schedule m with
    | write k => rw [action] at blocked; exact blocked.1 (by rw [sent]; rfl)
    | read k => rw [action] at blocked; exact blocked.1 waits
    | writeIntr => rw [action] at blocked; exact blocked
    | readIntr => rw [action] at blocked; exact blocked

theorem Link.delivered_buffer (fits : payload.length ≤ ipcMaxPayload) (n : ℕ) (out : Option Bytes)
    (delivered : (Link.after c cmd payload schedule n).Delivered cmd out) :
    (payload = [] ∨ c.malloc = true) ∧ out = payloadBuffer payload := by
  have free := Link.unblocked_of_delivered c cmd payload schedule n out delivered
  have stream := (Link.after_sound c cmd payload schedule fits free n).stream
  obtain ⟨sent,received,_,rfl⟩ := delivered
  rw [finish_returned _ _ _ (Recv.wants_of_rc _ _ received)] at stream
  have same := congrArg Prod.fst stream
  dsimp only at same
  rcases finish_frame_cases c.malloc cmd payload fits with ⟨live,granted,whole⟩ | ⟨_,_,failed⟩
  · rw [whole] at same
    exact ⟨granted,by rw [same]⟩
  · rw [← same,received] at failed
    cases failed

theorem Link.delivered_of_unblocked (room : 0 < c.capacity) (fits : payload.length ≤ ipcMaxPayload)
    (granted : payload = [] ∨ c.malloc = true)
    (writes : Offers Action.kind schedule .write) (reads : Offers Action.kind schedule .read)
    (free : Unblocked c cmd payload schedule) :
    ∃ n, (Link.after c cmd payload schedule n).Delivered cmd (payloadBuffer payload) := by
  obtain ⟨live,whole⟩ : ∃ live, finish c.malloc ipcRecv (frameBytes cmd payload) =
      (⟨.returned 0 none,sendHdr cmd payload,payloadBuffer payload,live⟩,[]) := by
    rcases finish_frame_cases c.malloc cmd payload fits with ⟨live,_,whole⟩ | ⟨some',refused,_⟩
    · exact ⟨live,whole⟩
    · rcases granted with bare | granted
      · exact absurd bare some'
      · rw [granted] at refused
        cases refused
  have sound := Link.after_sound c cmd payload schedule fits free
  obtain ⟨n,done⟩ := reaches_goal (Link.step c payload) (Link.initial cmd payload) schedule
    Link.Done (Link.rank payload) Link.helpful
    (fun n => by
      unfold Link.helpful
      split
      · exact writes
      · exact reads)
    (fun n running => Link.step_helpful c payload _ _ (schedule n) room (sound n) (free n)
      (by rw [whole]) (by rw [whole]; rfl) running)
  obtain ⟨sent,received⟩ : (Link.after c cmd payload schedule n).Done := done
  have stream := (sound n).stream
  rw [finish_returned _ _ _ received,whole] at stream
  have same := congrArg Prod.fst stream
  dsimp only at same
  refine ⟨n,?_,by rw [same]; rfl,by rw [same]; rfl,by rw [same]⟩
  have going := (sound n).going
  generalize (Link.after c cmd payload schedule n).send = send at sent going
  cases send with
  | header rest => cases sent
  | payload rest => cases sent
  | returned rc errno => rw [going.1,going.2]

/-- Under a schedule that keeps running both ends, the frame arrives with its
payload NUL-terminated exactly when the payload is not empty, its buffer is
granted and no call ever runs into EAGAIN. An empty payload arrives as NULL
under the same condition on the schedule. -/
theorem ipcSend_ipcRecv_iff (room : 0 < c.capacity) (fits : payload.length ≤ ipcMaxPayload)
    (writes : Offers Action.kind schedule .write) (reads : Offers Action.kind schedule .read) :
    ((∃ n, (Link.after c cmd payload schedule n).Delivered cmd (some (payload ++ [0]))) ↔
      payload ≠ [] ∧ c.malloc = true ∧ Unblocked c cmd payload schedule) ∧
    (payload = [] → ((∃ n, (Link.after c cmd payload schedule n).Delivered cmd none) ↔
      Unblocked c cmd payload schedule)) := by
  refine ⟨⟨?_,?_⟩,fun bare => ⟨?_,?_⟩⟩
  · rintro ⟨n,delivered⟩
    obtain ⟨granted,same⟩ := Link.delivered_buffer c cmd payload schedule fits n _ delivered
    have some' : payload ≠ [] := by
      rintro rfl
      cases same
    exact ⟨some',granted.resolve_left some',
      Link.unblocked_of_delivered c cmd payload schedule n _ delivered⟩
  · rintro ⟨some',granted,free⟩
    have delivered := Link.delivered_of_unblocked c cmd payload schedule room fits (.inr granted)
      writes reads free
    rwa [payloadBuffer,if_neg some'] at delivered
  · rintro ⟨n,delivered⟩
    exact Link.unblocked_of_delivered c cmd payload schedule n _ delivered
  · intro free
    have delivered := Link.delivered_of_unblocked c cmd payload schedule room fits (.inl bare)
      writes reads free
    rwa [payloadBuffer,if_pos bare] at delivered

end Schedule

def inTurn (n : ℕ) : Action := if n % 2 = 0 then .read 64 else .write 64

private theorem inTurn_reads : Offers Action.kind inTurn .read :=
  fun n => ⟨2*n,by omega,by simp [inTurn,Action.kind]⟩

private theorem inTurn_writes : Offers Action.kind inTurn .write := by
  intro n
  have odd : ¬ (2*n+1) % 2 = 0 := by omega
  exact ⟨2*n+1,by omega,by rw [inTurn,if_neg odd]; rfl⟩

theorem ipcSend_ipcRecv_blocking :
    ∃ n, (Link.after ⟨8192,false,false,true⟩ Cmd.start.word [97] inTurn n).Delivered
      Cmd.start.word (some [97,0]) :=
  (ipcSend_ipcRecv_iff ⟨8192,false,false,true⟩ Cmd.start.word [97] inTurn (by decide)
    (by decide) inTurn_writes inTurn_reads).1.mpr
    ⟨by decide,rfl,fun n blocked => by
      cases action : inTurn n <;> rw [action] at blocked <;> simp [WouldBlock] at blocked⟩

/-- A server that reads before the client has written fails the request, though
both ends keep running and the connection is intact. -/
theorem ipcRecv_eagain_fails :
    Offers Action.kind inTurn .write ∧ Offers Action.kind inTurn .read ∧
    (Link.after ⟨8192,false,true,true⟩ Cmd.start.word [97] inTurn 1).recv.rc = some (-1) ∧
    ¬ ∃ n, (Link.after ⟨8192,false,true,true⟩ Cmd.start.word [97] inTurn n).Delivered
      Cmd.start.word (some [97,0]) := by
  refine ⟨inTurn_writes,inTurn_reads,
    by decide,?_⟩
  rintro ⟨n,delivered⟩
  exact Link.unblocked_of_delivered _ _ _ _ n _ delivered 0 ⟨by decide,rfl,rfl⟩

end FreebsdLaunchd.Ipc
