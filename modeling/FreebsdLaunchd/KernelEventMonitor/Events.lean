import Mathlib.Tactic.Common
import Mathlib.Algebra.Order.Ring.Nat

/-! What the kernel event monitor reads of the messages in its buffer. How far a
message reaches is what the message itself says. -/
namespace FreebsdLaunchd.KernelEventMonitor

/-! ## The headers of the system -/

/-- The cases of the switch over `KEV_INET_SUBCLASS`. -/
inductive InetCode
  | newAddr | changedAddr | addrDeleted | sifDstAddr | sifBrdAddr | sifNetmask
  | arpCollision | portInUse | arpRtrFailure | arpRtrAlive
  | other
  deriving DecidableEq

inductive Inet6Code
  | newUserAddr | changedAddr | addrDeleted | newLlAddr | newRtadvAddr | requestNat64Prefix
  | other
  deriving DecidableEq

inductive DlCode
  | ifAttached | ifDetached | ifDetaching | protoAttached | protoDetached | ifIdleRouteRefcnt
  | linkOff | linkOn | linkQualityMetricChanged | issues
  | other
  deriving DecidableEq

inductive Nd6Code
  | addrDetached | addrDeprecated | addrExpired | rtrExpired
  | other
  deriving DecidableEq

inductive Subclass
  | inet | inet6 | dl | nd6
  | other
  deriving DecidableEq

/-- The numbers of the cases, the sizes of the event structures and where some of their fields are. -/
structure Headers where
  vendorApple : Nat
  networkClass : Nat
  subclass : Nat → Subclass
  inetCode : Nat → InetCode
  inet6Code : Nat → Inet6Code
  dlCode : Nat → DlCode
  nd6Code : Nat → Nd6Code
  netEventData : Nat
  kevInData : Nat
  kevInCollision : Nat
  kevInPortinuse : Nat
  kevInArpfailure : Nat
  kevInArpalive : Nat
  kevIn6Data : Nat
  kevDlProtoData : Nat
  kevDlLinkQualityMetricData : Nat
  kevDlIssues : Nat
  kevNd6Event : Nat
  ifName : Nat
  hwLen : Nat
  hwAddr : Nat
  hwLen_inside : hwLen < kevInCollision
  hwAddr_inside : hwAddr ≤ kevInCollision

/-! ## Reading -/

def headerSize : Nat := 24

/-- What is read of a message: some bytes, or a text up to its end, both from a place in the message on. -/
inductive Access
  | bytes (start size : Nat)
  | text (start : Nat)

/-- The buffer, and whatever is in the memory behind it. -/
abbrev Memory := Nat → UInt8

def u32 (memory : Memory) (p : Nat) : Nat :=
  (memory p).toNat + 2^8 * (memory (p+1)).toNat + 2^16 * (memory (p+2)).toNat + 2^24 * (memory (p+3)).toNat

section
variable (memory : Memory) (offset : Nat)

def totalSize : Nat := u32 memory offset

def vendorCode : Nat := u32 memory (offset+4)

def kevClass : Nat := u32 memory (offset+8)

def kevSubclass : Nat := u32 memory (offset+12)

def eventCode : Nat := u32 memory (offset+20)

def dataLen : Nat := (totalSize memory offset + 2^64 - headerSize) % 2^64

variable (h : Headers)

/-- An event is left alone if it is shorter than `checked`; else a structure of the size `read` is read. -/
def readEvent (checked read : Nat) : Bool × List Access :=
  if dataLen memory offset < checked then (false,[]) else (true,[.bytes headerSize read])

/-- The same for a structure that begins with `link_data`, whose name is copied. -/
def readLinkEvent (checked read : Nat) : Bool × List Access :=
  if dataLen memory offset < checked then (false,[])
  else (true,[.bytes headerSize read,.text (headerSize + h.ifName)])

def collisionHwLen : Nat := (memory (offset + headerSize + h.hwLen)).toNat

def readCollision : Bool × List Access :=
  if dataLen memory offset < h.kevInCollision then (false,[])
  else
    let hwLen := collisionHwLen memory offset h
    if dataLen memory offset < h.kevInCollision + hwLen then (false,[.bytes headerSize h.kevInCollision])
    else (true,[.bytes headerSize h.kevInCollision,.text (headerSize + h.ifName),.bytes (headerSize + h.hwAddr) hwLen])

def readInet : InetCode → Bool × List Access
  | .newAddr | .changedAddr | .addrDeleted | .sifDstAddr | .sifBrdAddr | .sifNetmask =>
    readLinkEvent memory offset h h.kevInData h.kevInData
  | .arpCollision => readCollision memory offset h
  | .portInUse => readEvent memory offset h.kevInPortinuse h.kevInPortinuse
  | .arpRtrFailure => readLinkEvent memory offset h h.kevInArpfailure h.kevInArpfailure
  | .arpRtrAlive => readLinkEvent memory offset h h.kevInArpalive h.kevInArpalive
  | .other => (true,[])

def readInet6 : Inet6Code → Bool × List Access
  | .newUserAddr | .changedAddr | .addrDeleted | .newLlAddr | .newRtadvAddr =>
    readLinkEvent memory offset h h.kevIn6Data h.kevIn6Data
  | .requestNat64Prefix => readLinkEvent memory offset h h.kevIn6Data h.kevIn6Data
  | .other => (true,[])

/-- The events with a metric or issues are compared with `struct net_event_data`, too. -/
def readDl : DlCode → Bool × List Access
  | .ifAttached => readLinkEvent memory offset h h.netEventData h.netEventData
  | .ifDetached => readLinkEvent memory offset h h.netEventData h.netEventData
  | .ifDetaching => readLinkEvent memory offset h h.netEventData h.netEventData
  | .protoAttached | .protoDetached => readLinkEvent memory offset h h.kevDlProtoData h.kevDlProtoData
  | .ifIdleRouteRefcnt => readLinkEvent memory offset h h.netEventData h.netEventData
  | .linkOff | .linkOn => readLinkEvent memory offset h h.netEventData h.netEventData
  | .linkQualityMetricChanged => readLinkEvent memory offset h h.netEventData h.kevDlLinkQualityMetricData
  | .issues => readLinkEvent memory offset h h.netEventData h.kevDlIssues
  | .other => (true,[])

def readNd6 : Nd6Code → Bool × List Access
  | .addrDetached | .addrDeprecated | .addrExpired => readLinkEvent memory offset h h.kevNd6Event h.kevNd6Event
  | .rtrExpired => readLinkEvent memory offset h h.kevNd6Event h.kevNd6Event
  | .other => (true,[])

/-- The subclasses whose events are told apart by `event_code`. -/
def withCode (read : Bool × List Access) : Bool × List Access := (read.1,.bytes 20 4::read.2)

def readSubclass : Subclass → Bool × List Access
  | .inet => withCode (readInet memory offset h (h.inetCode (eventCode memory offset)))
  | .inet6 => withCode (readInet6 memory offset h (h.inet6Code (eventCode memory offset)))
  | .dl => withCode (readDl memory offset h (h.dlCode (eventCode memory offset)))
  | .nd6 => withCode (readNd6 memory offset h (h.nd6Code (eventCode memory offset)))
  | .other => (true,[])

/-- Whether the event has been handled, and what has been read of it. -/
def processEventAppleNetwork : Bool × List Access :=
  let (handled,reads) := readSubclass memory offset h (h.subclass (kevSubclass memory offset))
  (handled,.bytes 0 4::.bytes 12 4::reads)

end

/-! ## The loop -/

section
variable (h : Headers) (memory : Memory) (status offset : Nat)

def truncated : Bool := status < offset + totalSize memory offset

def processed : Bool :=
  !truncated memory status offset && vendorCode memory offset == h.vendorApple && kevClass memory offset == h.networkClass

/-- One round of the loop: where the next one begins, if there is one. -/
def nextOffset : Option Nat :=
  if offset < status then
    if truncated memory status offset then none else some (offset + totalSize memory offset)
  else none

def roundReads : List Access :=
  .bytes 0 4 ::
    if truncated memory status offset then []
    else .bytes 4 4 ::
      if vendorCode memory offset = h.vendorApple then
        .bytes 8 4 ::
          if kevClass memory offset = h.networkClass then (processEventAppleNetwork memory offset h).2 else []
      else []

def rounds : Nat → Nat → Option Nat
  | 0, offset => some offset
  | n+1, offset => (nextOffset memory status offset).bind (rounds n)

/-! ## What is safe -/

/-- The bytes that have been received for the message are `n` from the offset on. -/
def Access.Inside (memory : Memory) (offset n : Nat) : Access → Prop
  | .bytes start size => start + size ≤ n
  | .text start => ∃ p, start ≤ p ∧ p < n ∧ memory (offset+p) = 0

def received : Nat := min (totalSize memory offset) (status - offset)

/-- The loop ends, and what it reads of a message has been received for it; no length wraps. -/
structure Safe : Prop where
  ends : ∃ n, rounds memory status n offset = none
  inside : ∀ n o, rounds memory status n offset = some o → o < status →
    ∀ access ∈ roundReads h memory status o, access.Inside memory o (received memory status o)
  positive : ∀ n o, rounds memory status n offset = some o → o < status → processed h memory status o →
    headerSize ≤ totalSize memory o

end

/-! ## Messages that are long enough -/

section
variable (h : Headers) (memory : Memory) (offset : Nat)

/-- The size from which on the event is handled, for those with the name of an interface. -/
def linkEventSize : Option Nat :=
  match h.subclass (kevSubclass memory offset) with
  | .inet =>
    match h.inetCode (eventCode memory offset) with
    | .newAddr | .changedAddr | .addrDeleted | .sifDstAddr | .sifBrdAddr | .sifNetmask => some h.kevInData
    | .arpCollision => some (h.kevInCollision + collisionHwLen memory offset h)
    | .arpRtrFailure => some h.kevInArpfailure
    | .arpRtrAlive => some h.kevInArpalive
    | .portInUse | .other => none
  | .inet6 => if h.inet6Code (eventCode memory offset) = .other then none else some h.kevIn6Data
  | .dl =>
    match h.dlCode (eventCode memory offset) with
    | .protoAttached | .protoDetached => some h.kevDlProtoData
    | .other => none
    | _ => some h.netEventData
  | .nd6 => if h.nd6Code (eventCode memory offset) = .other then none else some h.kevNd6Event
  | .other => none

def NameEnds : Prop := ∃ p, headerSize + h.ifName ≤ p ∧ p < totalSize memory offset ∧ memory (offset+p) = 0

/-- What a handled event must have besides the bytes it is compared with: a name that ends, and the
whole structure where only its front has been compared. -/
structure EventFits : Prop where
  name : ∀ size, linkEventSize h memory offset = some size → headerSize + size ≤ totalSize memory offset →
    NameEnds h memory offset
  metric : h.subclass (kevSubclass memory offset) = .dl →
    h.dlCode (eventCode memory offset) = .linkQualityMetricChanged →
    headerSize + h.netEventData ≤ totalSize memory offset →
    headerSize + h.kevDlLinkQualityMetricData ≤ totalSize memory offset
  issues : h.subclass (kevSubclass memory offset) = .dl → h.dlCode (eventCode memory offset) = .issues →
    headerSize + h.netEventData ≤ totalSize memory offset → headerSize + h.kevDlIssues ≤ totalSize memory offset

/-- The message reaches as far as its header is read, and its event fits. -/
structure MessageFits : Prop where
  vendor : 8 ≤ totalSize memory offset
  kevClass : vendorCode memory offset = h.vendorApple → 12 ≤ totalSize memory offset
  header : vendorCode memory offset = h.vendorApple → KernelEventMonitor.kevClass memory offset = h.networkClass →
    headerSize ≤ totalSize memory offset
  event : vendorCode memory offset = h.vendorApple → KernelEventMonitor.kevClass memory offset = h.networkClass →
    EventFits h memory offset

/-- From the offset on there are messages that fit, and in the end perhaps the front of one whose
size has been received. -/
inductive Messages (status : Nat) : Nat → Prop
  | ended (offset : Nat) (behind : status ≤ offset) : Messages status offset
  | cut (offset : Nat) (size : offset + 4 ≤ status) (more : status < offset + totalSize memory offset) : Messages status offset
  | message (offset : Nat) (whole : offset + totalSize memory offset ≤ status) (fits : MessageFits h memory offset)
      (rest : Messages status (offset + totalSize memory offset)) : Messages status offset

end

section
variable {h : Headers} {memory : Memory} {offset : Nat}

private theorem u32_lt (memory : Memory) (p : Nat) : u32 memory p < 2^32 := by
  have bytes (i : Nat) : (memory i).toNat < 2^8 := (memory i).toNat_lt
  have b0 := bytes p
  have b1 := bytes (p+1)
  have b2 := bytes (p+2)
  have b3 := bytes (p+3)
  unfold u32
  omega

private theorem dataLen_eq (header : headerSize ≤ totalSize memory offset) :
    dataLen memory offset = totalSize memory offset - headerSize := by
  have small : totalSize memory offset < 2^32 := u32_lt memory offset
  unfold dataLen
  rw [headerSize] at header ⊢
  omega

def ReadsWithin (memory : Memory) (offset : Nat) (reads : List Access) : Prop :=
  ∀ access ∈ reads, access.Inside memory offset (totalSize memory offset)

@[simp] theorem readsWithin_nil : ReadsWithin memory offset [] := by simp [ReadsWithin]

@[simp] theorem readsWithin_cons {access : Access} {reads : List Access} :
    ReadsWithin memory offset (access::reads) ↔ access.Inside memory offset (totalSize memory offset) ∧
    ReadsWithin memory offset reads := by
  simp [ReadsWithin]

private theorem readLinkEvent_within (header : headerSize ≤ totalSize memory offset) (checked read : Nat) :
    ReadsWithin memory offset (readLinkEvent memory offset h checked read).2 ↔
      (headerSize + checked ≤ totalSize memory offset →
        headerSize + read ≤ totalSize memory offset ∧ NameEnds h memory offset) := by
  unfold readLinkEvent
  rw [dataLen_eq header]
  split
  · rename_i short
    simp only [readsWithin_nil,true_iff]
    omega
  · rename_i long
    have long : headerSize + checked ≤ totalSize memory offset := by omega
    simp [Access.Inside,NameEnds,long]

/-- Nothing is read but what has been compared. -/
theorem readLinkEvent_same (header : headerSize ≤ totalSize memory offset) (size : Nat) :
    ReadsWithin memory offset (readLinkEvent memory offset h size size).2 ↔
      (headerSize + size ≤ totalSize memory offset → NameEnds h memory offset) := by
  rw [readLinkEvent_within header]
  exact forall_congr' fun long => and_iff_right long

private theorem readCollision_within (header : headerSize ≤ totalSize memory offset) :
    ReadsWithin memory offset (readCollision memory offset h).2 ↔
      (headerSize + (h.kevInCollision + collisionHwLen memory offset h) ≤ totalSize memory offset → NameEnds h memory offset) := by
  have addr := h.hwAddr_inside
  unfold readCollision
  rw [dataLen_eq header]
  split
  · rename_i short
    simp only [readsWithin_nil,true_iff]
    omega
  · rename_i long
    dsimp only
    split
    · rename_i short
      have whole : headerSize + h.kevInCollision ≤ totalSize memory offset := by omega
      have unhandled : ¬ headerSize + (h.kevInCollision + collisionHwLen memory offset h) ≤ totalSize memory offset := by omega
      simp [Access.Inside,whole,unhandled]
    · rename_i payload
      have whole : headerSize + h.kevInCollision ≤ totalSize memory offset := by omega
      have inside : headerSize + h.hwAddr + collisionHwLen memory offset h ≤ totalSize memory offset := by omega
      have handled : headerSize + (h.kevInCollision + collisionHwLen memory offset h) ≤ totalSize memory offset := by omega
      simp [Access.Inside,NameEnds,whole,inside,handled]

private theorem readEvent_within (header : headerSize ≤ totalSize memory offset) (size : Nat) :
    ReadsWithin memory offset (readEvent memory offset size size).2 := by
  unfold readEvent
  rw [dataLen_eq header]
  split
  · exact readsWithin_nil
  · have whole : headerSize + size ≤ totalSize memory offset := by omega
    simp [Access.Inside,whole]

/-- The event fits if and only if everything read of it lies within the message. -/
theorem readSubclass_within (header : headerSize ≤ totalSize memory offset) :
    ReadsWithin memory offset (readSubclass memory offset h (h.subclass (kevSubclass memory offset))).2 ↔
      EventFits h memory offset := by
  have code : (Access.bytes 20 4).Inside memory offset (totalSize memory offset) := header
  have fits : EventFits h memory offset ↔
      (∀ size, linkEventSize h memory offset = some size → headerSize + size ≤ totalSize memory offset →
        NameEnds h memory offset) ∧
      (h.subclass (kevSubclass memory offset) = .dl → h.dlCode (eventCode memory offset) = .linkQualityMetricChanged →
        headerSize + h.netEventData ≤ totalSize memory offset →
        headerSize + h.kevDlLinkQualityMetricData ≤ totalSize memory offset) ∧
      (h.subclass (kevSubclass memory offset) = .dl → h.dlCode (eventCode memory offset) = .issues →
        headerSize + h.netEventData ≤ totalSize memory offset → headerSize + h.kevDlIssues ≤ totalSize memory offset) :=
    ⟨fun fits => ⟨fits.name,fits.metric,fits.issues⟩,fun ⟨name,metric,issues⟩ => ⟨name,metric,issues⟩⟩
  rw [fits,linkEventSize]
  cases subclass : h.subclass (kevSubclass memory offset) with
  | inet =>
    rw [readSubclass,withCode,readsWithin_cons]
    cases event : h.inetCode (eventCode memory offset) <;>
      simp [readInet,readLinkEvent_same header,readCollision_within header,readEvent_within header,code]
  | inet6 =>
    rw [readSubclass,withCode,readsWithin_cons]
    cases event : h.inet6Code (eventCode memory offset) <;> simp [readInet6,readLinkEvent_same header,code]
  | dl =>
    rw [readSubclass,withCode,readsWithin_cons]
    cases event : h.dlCode (eventCode memory offset) with
    | linkQualityMetricChanged | issues =>
      simp only [readDl,readLinkEvent_within header,code]
      simp
      tauto
    | _ => simp [readDl,readLinkEvent_same header,code]
  | nd6 =>
    rw [readSubclass,withCode,readsWithin_cons]
    cases event : h.nd6Code (eventCode memory offset) <;> simp [readNd6,readLinkEvent_same header,code]
  | other => simp [readSubclass]

private theorem process_within (header : headerSize ≤ totalSize memory offset) :
    ReadsWithin memory offset (processEventAppleNetwork memory offset h).2 ↔ EventFits h memory offset := by
  have size : (Access.bytes 0 4).Inside memory offset (totalSize memory offset) := (show 0 + 4 ≤ headerSize by decide).trans header
  have subclass : (Access.bytes 12 4).Inside memory offset (totalSize memory offset) :=
    (show 12 + 4 ≤ headerSize by decide).trans header
  rw [processEventAppleNetwork,readsWithin_cons,readsWithin_cons,and_iff_right size,and_iff_right subclass]
  exact readSubclass_within header

/-! ## One round -/

variable {status : Nat}

/-- What a round does with the bytes that have been received for its message. -/
def RoundSafe (h : Headers) (memory : Memory) (status offset : Nat) : Prop :=
  (∀ access ∈ roundReads h memory status offset, access.Inside memory offset (received memory status offset)) ∧
    (processed h memory status offset → headerSize ≤ totalSize memory offset)

private theorem roundSafe_cut (more : status < offset + totalSize memory offset) :
    RoundSafe h memory status offset ↔ offset + 4 ≤ status := by
  have cut : truncated memory status offset = true := decide_eq_true more
  have rest : received memory status offset = status - offset := by
    unfold received
    omega
  simp only [RoundSafe,roundReads,processed,cut,rest]
  simp only [if_true,List.mem_singleton,forall_eq,Access.Inside,Bool.not_true,Bool.false_and,Bool.false_eq_true,false_imp_iff,and_true]
  omega

private theorem roundSafe_whole (whole : offset + totalSize memory offset ≤ status) :
    RoundSafe h memory status offset ↔ MessageFits h memory offset := by
  have uncut : truncated memory status offset = false := decide_eq_false (by omega)
  have all : received memory status offset = totalSize memory offset := by
    unfold received
    omega
  have safe : RoundSafe h memory status offset ↔ ReadsWithin memory offset (roundReads h memory status offset) ∧
      (processed h memory status offset → headerSize ≤ totalSize memory offset) := by
    rw [RoundSafe,all]
    rfl
  rw [safe]
  simp only [roundReads,processed,uncut,Bool.false_eq_true,if_false,Bool.not_false,Bool.true_and,Bool.and_eq_true,beq_iff_eq,
    readsWithin_cons]
  by_cases vendor : vendorCode memory offset = h.vendorApple
  · rw [if_pos vendor,readsWithin_cons]
    by_cases network : kevClass memory offset = h.networkClass
    · rw [if_pos network]
      constructor
      · rintro ⟨⟨-,vendorRead,classRead,event⟩,header⟩
        have header := header ⟨vendor,network⟩
        exact ⟨vendorRead,fun _ => classRead,fun _ _ => header,fun _ _ => (process_within header).mp event⟩
      · intro fits
        have header := fits.header vendor network
        have size : 0 + 4 ≤ totalSize memory offset := by
          have := fits.vendor
          omega
        exact ⟨⟨size,fits.vendor,fits.kevClass vendor,(process_within header).mpr (fits.event vendor network)⟩,fun _ => header⟩
    · rw [if_neg network]
      constructor
      · rintro ⟨⟨-,vendorRead,classRead,-⟩,-⟩
        exact ⟨vendorRead,fun _ => classRead,fun _ other => absurd other network,fun _ other => absurd other network⟩
      · intro fits
        have size : 0 + 4 ≤ totalSize memory offset := by
          have := fits.vendor
          omega
        exact ⟨⟨size,fits.vendor,fits.kevClass vendor,readsWithin_nil⟩,fun both => absurd both.2 network⟩
  · rw [if_neg vendor]
    constructor
    · rintro ⟨⟨-,vendorRead,-⟩,-⟩
      exact ⟨vendorRead,fun other => absurd other vendor,fun other => absurd other vendor,fun other => absurd other vendor⟩
    · intro fits
      have size : 0 + 4 ≤ totalSize memory offset := by
        have := fits.vendor
        omega
      exact ⟨⟨size,fits.vendor,readsWithin_nil⟩,fun both => absurd both.1 vendor⟩

/-! ## The whole buffer -/

theorem Safe.round (safe : Safe h memory status offset) (inside : offset < status) : RoundSafe h memory status offset :=
  ⟨safe.inside 0 offset rfl inside,safe.positive 0 offset rfl inside⟩

theorem Safe.next (safe : Safe h memory status offset) (inside : offset < status)
    (whole : offset + totalSize memory offset ≤ status) : Safe h memory status (offset + totalSize memory offset) := by
  have next : nextOffset memory status offset = some (offset + totalSize memory offset) := by
    simp [nextOffset,truncated,inside,whole]
  have later (n : Nat) : rounds memory status (n+1) offset = rounds memory status n (offset + totalSize memory offset) := by
    rw [rounds,next,Option.bind_some]
  refine ⟨?_,fun n o reached => ?_,fun n o reached => ?_⟩
  · obtain ⟨n,ended⟩ := safe.ends
    cases n with
    | zero => cases ended
    | succ n => exact ⟨n,by rw [← later,ended]⟩
  · exact safe.inside (n+1) o (by rw [later,reached])
  · exact safe.positive (n+1) o (by rw [later,reached])

private theorem messages_of_safe (n : Nat) (ended : rounds memory status n offset = none)
    (safe : Safe h memory status offset) :
    Messages h memory status offset := by
  induction n generalizing offset with
  | zero => cases ended
  | succ n ih =>
    rcases Nat.lt_or_ge offset status with inside | behind
    · have round := safe.round inside
      rcases Nat.lt_or_ge status (offset + totalSize memory offset) with more | whole
      · exact .cut offset ((roundSafe_cut more).mp round) more
      · refine .message offset whole ((roundSafe_whole whole).mp round) (ih ?_ (safe.next inside whole))
        rw [rounds,nextOffset,if_pos inside,truncated,if_neg (by simpa using whole),Option.bind_some] at ended
        exact ended
    · exact .ended offset behind

theorem Messages.safe (messages : Messages h memory status offset) : Safe h memory status offset := by
  induction messages with
  | ended offset behind =>
    have next : nextOffset memory status offset = none := if_neg (by omega)
    refine ⟨⟨1,by rw [rounds,next]; rfl⟩,fun n o reached inside => ?_,fun n o reached inside => ?_⟩
    all_goals
      cases n with
      | zero =>
        obtain rfl := Option.some.inj reached
        omega
      | succ n =>
        rw [rounds,next] at reached
        cases reached
  | cut offset size more =>
    have round := (roundSafe_cut (h := h) more).mpr size
    have next : nextOffset memory status offset = none := by simp [nextOffset,truncated,more]
    refine ⟨⟨1,by rw [rounds,next]; rfl⟩,fun n o reached inside => ?_,fun n o reached inside => ?_⟩
    all_goals
      cases n with
      | zero =>
        obtain rfl := Option.some.inj reached
        first | exact round.1 | exact round.2
      | succ n =>
        rw [rounds,next] at reached
        cases reached
  | message offset whole fits rest safe =>
    have round := (roundSafe_whole whole).mpr fits
    have positive := fits.vendor
    have next : nextOffset memory status offset = some (offset + totalSize memory offset) := by
      simp [nextOffset,truncated,whole,show offset < status by omega]
    have later (n : Nat) : rounds memory status (n+1) offset = rounds memory status n (offset + totalSize memory offset) := by
      rw [rounds,next,Option.bind_some]
    refine ⟨?_,fun n o reached inside => ?_,fun n o reached inside => ?_⟩
    · obtain ⟨n,ended⟩ := safe.ends
      exact ⟨n+1,by rw [later,ended]⟩
    · cases n with
      | zero =>
        obtain rfl := Option.some.inj reached
        exact round.1
      | succ n => exact safe.inside n o (by rw [← later,reached]) inside
    · cases n with
      | zero =>
        obtain rfl := Option.some.inj reached
        exact round.2
      | succ n => exact safe.positive n o (by rw [← later,reached]) inside

end

/-- The loop ends and stays within what has been received if and only if that is messages each of which
reaches as far as its header, its event structure and the name in it. -/
theorem eventCallback_safe_iff (h : Headers) (memory : Memory) (status : Nat) :
    Safe h memory status 0 ↔ Messages h memory status 0 := by
  constructor
  · intro safe
    obtain ⟨n,ended⟩ := safe.ends
    exact messages_of_safe n ended safe
  · exact Messages.safe

def inetHeaders : Headers where
  vendorApple := 1
  networkClass := 1
  subclass n := if n = 1 then .inet else .other
  inetCode n := [.other,.newAddr,.changedAddr,.addrDeleted,.sifDstAddr,.sifBrdAddr,.sifNetmask,.arpCollision,
    .portInUse,.arpRtrFailure,.arpRtrAlive].getD n .other
  inet6Code _ := .other
  dlCode _ := .other
  nd6Code _ := .other
  netEventData := 24
  kevInData := 52
  kevInCollision := 32
  kevInPortinuse := 16
  kevInArpfailure := 24
  kevInArpalive := 24
  kevIn6Data := 176
  kevDlProtoData := 32
  kevDlLinkQualityMetricData := 28
  kevDlIssues := 72
  kevNd6Event := 64
  ifName := 8
  hwLen := 28
  hwAddr := 29
  hwLen_inside := by decide
  hwAddr_inside := by decide

/-- A message of no size keeps the loop where it is. -/
theorem zeroMessage_stuck : ¬ Safe inetHeaders (fun _ => 0) 24 0 := by
  intro safe
  have stays (n : Nat) : rounds (fun _ => 0) 24 n 0 = some 0 := by
    induction n with
    | zero => rfl
    | succ n ih => exact ih
  obtain ⟨n,ended⟩ := safe.ends
  rw [stays n] at ended
  cases ended

end FreebsdLaunchd.KernelEventMonitor
