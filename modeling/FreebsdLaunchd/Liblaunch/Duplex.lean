import FreebsdLaunchd.Liblaunch.Receiving
import FreebsdLaunchd.Liblaunch.Sending

/-! Two processes with a connection to each other. Either of them sends and
receives when it likes, and the kernel takes and hands over as much as it likes. -/
namespace FreebsdLaunchd.Liblaunch
open CData

inductive Side
  | client | server
  deriving DecidableEq

def Side.other : Side → Side
  | client => server
  | server => client

@[simp] theorem Side.other_other (e : Side) : e.other.other = e := by cases e <;> rfl

@[simp] theorem Side.other_ne (e : Side) : e.other ≠ e := by cases e <;> decide

theorem Side.eq_other {e e' : Side} (ne : e' ≠ e) : e' = e.other := by cases e <;> cases e' <;> simp_all [Side.other]

/-- A tree that was sent, with the numbers its descriptors have at the other
end, and whether the first `sendmsg` put it off. -/
structure Sending where
  tree : LaunchData
  received : List Int32
  putOff : Bool

def Sending.arrives (x : Sending) : LaunchData := (renumber x.received x.tree 0).1

/-- A process with its connection: what it has sent, what of that the other
process has not read, and what its own callback has been given. It receives no
more once that has failed otherwise than with `EAGAIN`. -/
structure Endpoint where
  launch : Launch
  sent : List Sending
  unread : Carried
  given : List LaunchData
  failed : Option MsgErrno

/-- What a process does next, with what the system call returns that it makes:
`launchd_msg_send` with a tree or with NULL, or `launchd_msg_recv`. -/
inductive Act
  | send (d : LaunchData) (packable : Packable d) (result : SendResult) (received : List Int32)
  | retry (result : SendResult) (received : List Int32)
  | recv (base : UInt64) (most : Nat)

/-- The kernel hands a control message over with the first byte it was sent with. -/
def Wire.carried (w : Wire) (received : List Int32) : Carried :=
  match w.bytes with
  | [] => []
  | b::rest => (b,received)::rest.map fun b => (b,[])

def Endpoint.sends (p : Endpoint) (sent : List Sending) (received : List Int32) : Ended × Wire → Option Endpoint
  | (.fault,_) => none
  | (.returned errno lh,w) =>
    if (errno = none ∨ errno = some .EAGAIN) ∧ received.length = w.rights.flatten.length then
      some {p with launch := lh,sent := p.sent ++ sent,unread := p.unread ++ w.carried received}
    else none

def Endpoint.receives (p : Endpoint) : Ended × List LaunchData → Option Endpoint
  | (.fault,_) => none
  | (.returned errno lh,more) =>
    some {p with launch := lh,given := p.given ++ more,failed := if errno = some .EAGAIN then none else errno}

abbrev Pair := Side → Endpoint

variable (malloc : Malloc)

def step (s : Pair) (e : Side) : Act → Option Pair
  | .send d _ result received =>
    ((s e).sends [⟨d,received,decide (result = .error .EAGAIN)⟩] received
      (launchdMsgSend malloc (s e).launch (some d) result)).map (Function.update s e)
  | .retry result received =>
    ((s e).sends [] received (launchdMsgSend malloc (s e).launch none result)).map (Function.update s e)
  | .recv base most =>
    if (s e).failed.isSome then none
    else
      let n := min most readSize
      let read := (s e.other).unread.take n
      let result := if read = [] then .error .EAGAIN else Carried.result read
      ((s e).receives (launchdMsgRecv base (s e).launch result)).map fun p =>
        Function.update (Function.update s e p) e.other
          {s e.other with unread := (s e.other).unread.drop n}

def run (s : Pair) (acts : List (Side × Act)) : Option Pair := acts.foldlM (fun s act => step malloc s act.1 act.2) s

def launchdFdopen (fd cifd : Int32) : Launch where
  sendbuf := []
  sendlen := 0
  sendfds := []
  sendfdcnt := 0
  recvbuf := []
  recvfds := []
  which := if fd = -1 ∨ fd ≠ -1 ∧ cifd ≠ -1 then .checkinFd else .otherFd
  cifd
  fd

def Endpoint.fresh (lh : Launch) : Endpoint := ⟨lh,[],[],[],none⟩

/-! ## What a call leaves alone -/

variable {malloc} {lh lh' : Launch} {errno : Option MsgErrno} {w : Wire}

structure Launch.SameReceiving (lh lh' : Launch) : Prop where
  recvbuf : lh'.recvbuf = lh.recvbuf
  recvfds : lh'.recvfds = lh.recvfds
  fd : launchdGetfd lh' = launchdGetfd lh

structure Launch.SameSending (lh lh' : Launch) : Prop where
  sendbuf : lh'.sendbuf = lh.sendbuf
  sendlen : lh'.sendlen = lh.sendlen
  sendfds : lh'.sendfds = lh.sendfds
  sendfdcnt : lh'.sendfdcnt = lh.sendfdcnt
  fd : launchdGetfd lh' = launchdGetfd lh

private theorem transmit_sameReceiving {header : Bytes} {result : SendResult}
    (ended : transmit lh header result = (.returned errno lh',w)) : lh.SameReceiving lh' := by
  unfold transmit at ended
  dsimp only at ended
  repeat' split at ended
  all_goals cases ended
  all_goals exact ⟨rfl,rfl,rfl⟩

theorem launchdMsgSend_sameReceiving {d : Option LaunchData} {result : SendResult}
    (ended : launchdMsgSend malloc lh d result = (.returned errno lh',w)) : lh.SameReceiving lh' := by
  unfold launchdMsgSend at ended
  dsimp only at ended
  repeat' split at ended
  all_goals first
    | (cases ended
       done)
    | (cases ended
       exact ⟨rfl,rfl,rfl⟩)
    | (have same := transmit_sameReceiving ended
       exact ⟨same.recvbuf,same.recvfds,same.fd⟩)

def Round.launch? : Round → Option Launch
  | .ends (.returned _ lh) _ => some lh
  | .ends .fault _ => none
  | .goesOn lh _ => some lh

private theorem receiveRound_sameSending {base : UInt64} (left : (receiveRound base lh).launch? = some lh') :
    lh.SameSending lh' := by
  unfold receiveRound at left
  dsimp only at left
  repeat' split at left
  all_goals cases left
  all_goals exact ⟨rfl,rfl,rfl,rfl,rfl⟩

private theorem deliver_sameSending {base : UInt64} {bound : Nat} {given given' : List LaunchData}
    (ended : deliver base bound lh given = (.returned errno lh',given')) : lh.SameSending lh' := by
  induction bound generalizing lh given with
  | zero =>
    cases ended
    exact ⟨rfl,rfl,rfl,rfl,rfl⟩
  | succ bound ih =>
    rw [deliver] at ended
    cases round : receiveRound base lh with
    | ends result more =>
      rw [round] at ended
      cases ended
      exact receiveRound_sameSending (by rw [round]; rfl)
    | goesOn next more =>
      rw [round] at ended
      obtain ⟨buf,len,fds,cnt,fd⟩ := receiveRound_sameSending (congrArg Round.launch? round)
      obtain ⟨buf',len',fds',cnt',fd'⟩ := ih ended
      exact ⟨buf'.trans buf,len'.trans len,fds'.trans fds,cnt'.trans cnt,fd'.trans fd⟩

theorem launchdMsgRecv_sameSending {base : UInt64} {result : RecvResult} {more : List LaunchData}
    (ended : launchdMsgRecv base lh result = (.returned errno lh',more)) : lh.SameSending lh' := by
  unfold launchdMsgRecv at ended
  dsimp only at ended
  repeat' split at ended
  all_goals first
    | (cases ended
       exact ⟨rfl,rfl,rfl,rfl,rfl⟩)
    | (have same := deliver_sameSending ended
       exact ⟨same.sendbuf,same.sendlen,same.sendfds,same.sendfdcnt,same.fd⟩)

end FreebsdLaunchd.Liblaunch
