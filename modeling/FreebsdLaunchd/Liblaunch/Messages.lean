import FreebsdLaunchd.Liblaunch.Format

/-! `liblaunch.c`: a connection to launchd, and the two functions that send and
receive messages over it. A system call is given by what it returns; what the
kernel has taken is the wire. -/
namespace FreebsdLaunchd.Liblaunch
open CData

def headerSize : Nat := 16

def headerMagic : UInt64 := 0xD2FEA02366B39A41

def headerBytes (len : UInt64) : Bytes := longBytes headerMagic ++ longBytes len

@[simp] theorem headerBytes_length (len : UInt64) : (headerBytes len).length = headerSize := by
  simp [headerBytes,headerSize]

/-- What the message functions leave in `errno`; `system` is any other number
that a system call has set. -/
inductive MsgErrno
  | EPERM | ENOMEM | ECONNRESET | ECONNABORTED | EBADRPC | EAGAIN
  | system (code : Nat)
  deriving DecidableEq, Repr

inductive Which
  | checkinFd | otherFd
  deriving DecidableEq, Repr

/-- `struct _launch`. The receive buffers are as long as what has been received. -/
structure Launch where
  sendbuf : Bytes
  sendlen : Nat
  sendfds : List Int32
  sendfdcnt : Nat
  recvbuf : Bytes
  recvfds : List Int32
  which : Which
  cifd : Int32
  fd : Int32

def launchdGetfd (l : Launch) : Int32 := if l.which = .checkinFd then l.cifd else l.fd

/-- How a call ends: it returns 0, or -1 with an error number, or it has
failed an assertion or gone outside of an object. -/
inductive Ended
  | fault
  | returned (errno : Option MsgErrno) (lh : Launch)

/-! ## Sending -/

/-- `malloc`, with what a new block happens to hold. -/
structure Malloc where
  block : Nat → Option Bytes
  sized : ∀ n b, block n = some b → b.length = n

def goodEnoughSize : Nat := 10 * 1024 * 1024

/-- The bytes that the kernel has taken, and the descriptors of each control
message that went with them. -/
structure Wire where
  bytes : Bytes
  rights : List (List Int32)
  deriving DecidableEq

def Wire.empty : Wire := ⟨[],[]⟩

def Wire.append (w w' : Wire) : Wire := ⟨w.bytes ++ w'.bytes,w.rights ++ w'.rights⟩

/-- What `sendmsg` returns: an error, how many of the offered bytes it takes at
most, or that it takes them all. -/
inductive SendResult
  | error (errno : MsgErrno)
  | count (n : Nat)
  | all
  deriving DecidableEq

def SendResult.taken (offered : Nat) : SendResult → Nat
  | error _ => 0
  | count n => min n offered
  | all => offered

/-- `launchd_msg_send` from `sendmsg` on, with the header that goes first. The
call leaves `msg_controllen` as it is. -/
def transmit (lh : Launch) (header : Bytes) (result : SendResult) : Ended × Wire :=
  let offered := header ++ lh.sendbuf.take lh.sendlen
  match result with
  | .error errno => (.returned (some errno) lh,.empty)
  | result =>
    let r := result.taken offered.length
    if r = 0 then (.returned (some .ECONNRESET) lh,.empty)
    else
      let wire : Wire := ⟨offered.take r,if lh.sendfdcnt > 0 then [lh.sendfds.take lh.sendfdcnt] else []⟩
      -- the bytes of the header do not count, so that the rest may begin in front of the buffer
      if r < header.length then (.fault,wire)
      else
        let r := r - header.length
        let sendlen := lh.sendlen - r
        let sendbuf := if sendlen > 0 then overwrite lh.sendbuf 0 ((lh.sendbuf.drop r).take sendlen) else []
        let lh := {lh with sendbuf,sendlen,sendfds := [],sendfdcnt := 0}
        (.returned (if sendlen > 0 then some .EAGAIN else none) lh,wire)

def launchdMsgSend (malloc : Malloc) (lh : Launch) (d : Option LaunchData) (result : SendResult) : Ended × Wire :=
  if launchdGetfd lh = -1 then (.returned (some .EPERM) lh,.empty)
  else
    match d with
    | none => if lh.sendlen = 0 then (.fault,.empty) else transmit lh [] result
    | some d =>
      if lh.sendlen ≠ 0 then (.fault,.empty)
      else
        match malloc.block goodEnoughSize with
        | none => (.returned (some .ENOMEM) {lh with sendbuf := []},.empty)
        | some block =>
          match malloc.block (4 * 1024) with
          | none => (.returned (some .ENOMEM) {lh with sendbuf := [],sendfds := []},.empty)
          | some slots =>
            match launchDataPack true d block [] with
            | none => (.fault,.empty)
            | some packed =>
              if packed.fds.length * 4 > slots.length then (.fault,.empty)
              else
                let lh := {lh with sendbuf := packed.memory,sendlen := packed.size,sendfds := packed.fds}
                if packed.size = 0 then (.returned (some .ENOMEM) lh,.empty)
                else
                  let msglen := UInt64.ofNat (packed.size + headerSize)
                  transmit {lh with sendfdcnt := packed.fds.length} (headerBytes msglen) result

/-- Where `launch_msg_internal` stands with a message it sends. -/
inductive Drive
  | fault (wire : Wire)
  | gaveUp (errno : MsgErrno) (lh : Launch) (wire : Wire)
  | waiting (lh : Launch) (wire : Wire)
  | sent (lh : Launch) (wire : Wire)

/-- Where the loop is after a call, when it is not to go round again. -/
def afterSend (wire : Wire) : Ended × Wire → Drive
  | (.fault,w) => .fault (wire.append w)
  | (.returned none lh,w) => .sent lh (wire.append w)
  | (.returned (some .EAGAIN) lh,w) => .waiting lh (wire.append w)
  | (.returned (some errno) lh,w) => .gaveUp errno lh (wire.append w)

def sendLoop (malloc : Malloc) (wire : Wire) (ended : Ended × Wire) : List SendResult → Drive
  | [] => afterSend wire ended
  | result::rest =>
    match ended with
    | (.returned (some .EAGAIN) lh,w) =>
      sendLoop malloc (wire.append w) (launchdMsgSend malloc lh none result) rest
    | ended => afterSend wire ended

def launchMsgInternal (malloc : Malloc) (lh : Launch) (d : LaunchData) : List SendResult → Drive
  | [] => .waiting lh .empty
  | result::rest => sendLoop malloc .empty (launchdMsgSend malloc lh (some d) result) rest

/-! ## Receiving -/

/-- `iov.iov_len`, the most that is read at a time. -/
def readSize : Nat := 8 * 1024

def cmsghdrSize : Nat := 12

def align32 (n : Nat) : Nat := (n+3) / 4 * 4

/-- `CMSG_SPACE`, as the file defines it for itself. -/
def cmsgSpace (n : Nat) : Nat := align32 cmsghdrSize + align32 n

/-- What `recvmsg` returns: an error, or bytes with the descriptors of the
control message and whether that was truncated. -/
inductive RecvResult
  | error (errno : MsgErrno)
  | data (bytes : Bytes) (fds : List Int32) (ctrunc : Bool)

/-- What a round of the loop of `launchd_msg_recv` comes to: the call ends, or
goes on after a message. Either way the callback has been given some trees. -/
inductive Round
  | ends (ended : Ended) (given : List LaunchData)
  | goesOn (lh : Launch) (given : List LaunchData)

def unpackBuffered (base : UInt64) (lh : Launch) : Run LaunchData :=
  launchDataUnpack lh.recvfds base (lh.recvbuf.length + 1) ⟨lh.recvbuf,headerSize,0,none⟩

def receiveRound (base : UInt64) (lh : Launch) : Round :=
  if lh.recvbuf.length = 0 then .ends (.returned none lh) []
  else if lh.recvbuf.length < headerSize then .ends (.returned (some .EAGAIN) lh) []
  else
    let tmplen := (longAt lh.recvbuf 8).toNat
    if longAt lh.recvbuf 0 ≠ headerMagic ∨ tmplen ≤ headerSize then .ends (.returned (some .EBADRPC) lh) []
    else if lh.recvbuf.length < tmplen then .ends (.returned (some .EAGAIN) lh) []
    else
      match unpackBuffered base lh with
      | .deep => .ends .fault []
      | .fault => .ends .fault []
      | .null s => .ends (.returned (some .EBADRPC) {lh with recvbuf := s.data}) []
      | .value rmsg s =>
        if s.dataOffset > s.data.length ∨ s.fdoffset > lh.recvfds.length then .ends .fault [rmsg]
        else .goesOn {lh with
          recvbuf := s.data.drop s.dataOffset
          recvfds := lh.recvfds.drop s.fdoffset } [rmsg]

/-- The loop of `launchd_msg_recv`. Each round takes a header at least, so a
bound on what is buffered is never met. -/
def deliver (base : UInt64) : Nat → Launch → List LaunchData → Ended × List LaunchData
  | 0, lh, given => (.returned none lh,given)
  | bound+1, lh, given =>
    match receiveRound base lh with
    | .ends ended more => (ended,given ++ more)
    | .goesOn lh more => deliver base bound lh (given ++ more)

def launchdMsgRecv (base : UInt64) (lh : Launch) (result : RecvResult) : Ended × List LaunchData :=
  if launchdGetfd lh = -1 then (.returned (some .EPERM) lh,[])
  else
    match result with
    | .error errno => (.returned (some errno) lh,[])
    | .data bytes fds ctrunc =>
      if bytes.length = 0 then (.returned (some .ECONNRESET) lh,[])
      else if ctrunc then (.returned (some .ECONNABORTED) lh,[])
      else
        let controllen := if fds = [] then 0 else cmsgSpace (fds.length*4)
        let recvfds :=
          if controllen > 0 then lh.recvfds ++ fds.take ((controllen - cmsghdrSize) / 4) else lh.recvfds
        let recvbuf := lh.recvbuf ++ bytes
        deliver base recvbuf.length {lh with recvbuf,recvfds} []

/-- One call of `launchd_msg_recv` for each result, the buffer being where
`reallocf` has put it; there is none after a call that fails otherwise than
with `EAGAIN`. -/
def receiveAll (lh : Launch) (given : List LaunchData) :
    List (UInt64 × RecvResult) → Option (Launch × List LaunchData)
  | [] => some (lh,given)
  | (base,result)::rest =>
    match launchdMsgRecv base lh result with
    | (.returned none lh,more) => receiveAll lh (given ++ more) rest
    | (.returned (some .EAGAIN) lh,more) => receiveAll lh (given ++ more) rest
    | _ => none

end FreebsdLaunchd.Liblaunch
