import FreebsdLaunchd.Library.CData

/-! The framed message I/O of `ipc_proto.c`. A call that is waiting for the
kernel is a state, and each return of `read` or `write` takes it one loop
iteration further, so that the two ends of a connection can be interleaved in
every way. -/
namespace FreebsdLaunchd.Ipc
open CData

def ipcMagic : UInt32 := 0x584E5354
def ipcVersion : UInt32 := 1
def ipcMaxPayload : Nat := 16 * 1024 * 1024

/-- `enum ipc_cmd`. A command word outside it is carried as it is. -/
inductive Cmd
  | reply | load | unload | list | start | stop | shutdown
  deriving DecidableEq, Repr

def Cmd.word : Cmd → UInt32
  | reply => 0
  | load => 1
  | unload => 2
  | list => 3
  | start => 4
  | stop => 5
  | shutdown => 6

structure MsgHdr where
  magic : UInt32
  version : UInt32
  cmd : UInt32
  payloadLen : UInt32
  deriving DecidableEq, Repr

def hdrSize : Nat := 16

/-- The header as it lies in memory: four words and no padding. -/
def MsgHdr.bytes (h : MsgHdr) : Bytes :=
  wordBytes h.magic ++ wordBytes h.version ++ wordBytes h.cmd ++ wordBytes h.payloadLen

def MsgHdr.ofBytes (memory : Bytes) : MsgHdr where
  magic := wordAt memory 0
  version := wordAt memory 4
  cmd := wordAt memory 8
  payloadLen := wordAt memory 12

/-- The return of `read`: at most the bytes asked for, none at end of file. -/
inductive ReadRet
  | data (bytes : Bytes)
  | error (errno : Errno)

inductive WriteRet
  | wrote (n : Nat)
  | error (errno : Errno)

inductive Iter
  | again (rest : Bytes)
  | ret (rc : Int) (errno : Option Errno)

/-- The body of `write_all`'s loop on the bytes still to be written. -/
def writeAll (p : Bytes) : WriteRet → Iter
  | .error errno => if errno = .EINTR then .again p else .ret (-1) (some errno)
  | .wrote 0 => .ret (-1) (some .EPIPE)
  | .wrote n => .again (p.drop n)

def readAll (got : Bytes) : ReadRet → Iter
  | .error errno => if errno = .EINTR then .again got else .ret (-1) (some errno)
  | .data [] => .ret (if got.length = 0 then -2 else -1) none
  | .data bytes => .again (got ++ bytes)

/-- `ipc_send` between two writes: which `write_all` it is in, with the bytes
that call has not written, or what it returned. -/
inductive Send
  | header (rest : Bytes)
  | payload (rest : Bytes)
  | returned (rc : Int) (errno : Option Errno)
  deriving DecidableEq

def sendHdr (cmd : UInt32) (payload : Bytes) : MsgHdr where
  magic := ipcMagic
  version := ipcVersion
  cmd := cmd
  payloadLen := UInt32.ofNat payload.length

/-- `ipc_send` up to its first `write`. -/
def ipcSend (cmd : UInt32) (payload : Bytes) : Send :=
  if ipcMaxPayload < payload.length then .returned (-1) (some .E2BIG)
  else .header (sendHdr cmd payload).bytes

def Send.offer : Send → Option Bytes
  | header rest => some rest
  | payload rest => some rest
  | returned _ _ => none

def ipcSendStep (payload : Bytes) (s : Send) (r : WriteRet) : Send :=
  match s with
  | .header rest =>
    match writeAll rest r with
    | .again (b::rest) => .header (b::rest)
    | .again [] => if payload = [] then .returned 0 none else .payload payload
    | .ret _ errno => .returned (-1) errno
  | .payload rest =>
    match writeAll rest r with
    | .again (b::rest) => .payload (b::rest)
    | .again [] => .returned 0 none
    | .ret _ errno => .returned (-1) errno
  | .returned rc errno => .returned rc errno

inductive RecvPhase
  | header (got : Bytes)
  | payload (got : Bytes)
  | returned (rc : Int) (errno : Option Errno)
  deriving DecidableEq

/-- `ipc_recv` between two reads, with `*hdr_out`, `*payload_out` (NULL on
entry, as both callers set it) and the number of its buffers not freed. -/
structure Recv where
  phase : RecvPhase
  hdrOut : MsgHdr
  payloadOut : Option Bytes
  live : Nat
  deriving DecidableEq

/-- `ipc_recv` up to its first `read`. -/
def ipcRecv : Recv := ⟨.header [],⟨0,0,0,0⟩,none,0⟩

def Recv.wants (r : Recv) : Option Nat :=
  match r.phase with
  | .header got => some (hdrSize - got.length)
  | .payload got => some (r.hdrOut.payloadLen.toNat - got.length)
  | .returned _ _ => none

def Recv.fail (r : Recv) (rc : Int) (errno : Option Errno) : Recv :=
  {r with phase := .returned rc errno}

/-- `ipc_recv` from the complete header up to the first `read` of the payload. -/
def checkHeader (malloc : Bool) (hdr : MsgHdr) : Recv :=
  let r : Recv := ⟨.header [],hdr,none,0⟩
  if hdr.magic ≠ ipcMagic then r.fail (-1) (some .EPROTO)
  else if hdr.version ≠ ipcVersion then r.fail (-1) (some .EPROTO)
  else if ipcMaxPayload < hdr.payloadLen.toNat then r.fail (-1) (some .E2BIG)
  else if hdr.payloadLen = 0 then {r with phase := .returned 0 none}
  else if malloc then {r with phase := .payload [],payloadOut := some [],live := 1}
  else r.fail (-1) (some .ENOMEM)

/-- `ipc_recv` on one return of `read`; `malloc` says whether the payload
buffer is granted. -/
def ipcRecvStep (malloc : Bool) (r : Recv) (ret : ReadRet) : Recv :=
  match r.phase with
  | .header got =>
    match readAll got ret with
    | .again got => if got.length < hdrSize then {r with phase := .header got}
        else checkHeader malloc (MsgHdr.ofBytes got)
    | .ret rc errno => r.fail rc errno
  | .payload got =>
    match readAll got ret with
    | .again got => if got.length < r.hdrOut.payloadLen.toNat then {r with phase := .payload got}
        else {r with phase := .returned 0 none,payloadOut := some (got ++ [0])}
    -- the buffer is freed and NULL is stored before the return
    | .ret _ errno => {r with phase := .returned (-1) errno,payloadOut := none,live := r.live-1}
  | .returned _ _ => r

end FreebsdLaunchd.Ipc
