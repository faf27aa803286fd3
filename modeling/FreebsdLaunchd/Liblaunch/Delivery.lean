import FreebsdLaunchd.Liblaunch.Transport

/-! What is delivered. In whatever order the two processes send and receive,
each of them is given what the other one has sent, up to the first message
that was put off, once and in order, and nothing else. -/
namespace FreebsdLaunchd.Liblaunch
open CData

variable {malloc : Malloc} {lh lh' sender : Launch} {errno : Option MsgErrno} {w : Wire} {d : LaunchData}
variable {sent more : List Sending} {x : Sending} {unread rest tail : Carried} {p p' q q' : Endpoint} {s s' : Pair}

/-! ## What was sent before -/

def intact (sent : List Sending) : List Sending := sent.takeWhile fun x => !x.putOff

def AnyPutOff (sent : List Sending) : Prop := ∃ x ∈ sent, x.putOff = true

private theorem anyPutOff_append : AnyPutOff (sent ++ more) ↔ AnyPutOff sent ∨ AnyPutOff more := by
  simp only [AnyPutOff,List.mem_append,or_and_right,exists_or]

private theorem intact_all (all : ¬ AnyPutOff sent) : intact sent = sent := by
  apply List.takeWhile_eq_self_iff.mpr
  intro x member
  by_contra off
  exact all ⟨x,member,by simpa using off⟩

private theorem intact_stays (lost : AnyPutOff sent) : intact (sent ++ more) = intact sent := by
  have stops : ((intact sent).length = sent.length) = False := by
    apply eq_false
    intro same
    obtain ⟨x,member,off⟩ := lost
    have all := (List.takeWhile_prefix fun x : Sending => !x.putOff).eq_of_length same
    have kept := List.takeWhile_eq_self_iff.mp all x member
    simp [off] at kept
  rw [intact,List.takeWhile_append,← intact]
  simp only [stops,if_false]

private theorem intact_extends (all : ¬ AnyPutOff sent) : intact (sent ++ more) = sent ++ intact more := by
  apply List.takeWhile_append_of_pos
  intro x member
  by_contra off
  exact all ⟨x,member,by simpa using off⟩

private theorem intact_putOff (off : x.putOff = true) : intact (sent ++ [x]) = intact sent := by
  by_cases lost : AnyPutOff sent
  · exact intact_stays lost
  · rw [intact_extends lost,intact_all lost,intact,List.takeWhile_cons_of_neg (by simp [off]),List.append_nil]

/-! ## The two directions -/

def bare (bytes : Bytes) : Carried := bytes.map fun b => (b,[])

@[simp] theorem bare_append (a b : Bytes) : bare (a ++ b) = bare a ++ bare b := List.map_append

@[simp] theorem bare_nil : bare [] = [] := rfl

@[simp] theorem bare_bytes (a : Bytes) : (bare a).bytes = a := by simp [bare,Carried.bytes,Function.comp_def]

@[simp] theorem bare_rights (a : Bytes) : (bare a).rights = [] := by simp [bare,Carried.rights]

@[simp] theorem Wire.carried_bytes (w : Wire) (received : List Int32) : (w.carried received).bytes = w.bytes := by
  unfold Wire.carried
  split
  · rename_i nothing
    exact nothing.symm
  · rename_i b rest begins
    rw [begins]
    exact congrArg (b :: ·) (bare_bytes rest)

theorem Wire.carried_rights {w : Wire} {received : List Int32} (some : w.bytes ≠ []) :
    (w.carried received).rights = received := by
  unfold Wire.carried
  split
  · rename_i nothing
    exact absurd nothing some
  · rename_i b rest _
    have none := bare_rights rest
    rw [Carried.rights,List.flatMap_cons]
    exact (congrArg (received ++ ·) none).trans (List.append_nil _)

theorem Wire.carried_nil (w : Wire) : w.carried [] = bare w.bytes := by
  unfold Wire.carried
  split
  · rename_i nothing
    rw [nothing]
    rfl
  · rename_i b rest begins
    rw [begins]
    rfl

/-- What is to come from a sender: the rest of what is made of messages, and
behind that, when a header has been lost, the tail as far as it has been sent. -/
inductive Comes (sender : Launch) (unread : Carried) (sent : List Sending) : Carried → Carried → Prop
  | whole (all : ¬ AnyPutOff sent) (fds : sender.sendfdcnt = 0) :
      Comes sender unread sent (unread ++ bare sender.pending.bytes) []
  | lost {tail : Carried} (lost : AnyPutOff sent) (headless : Headless (tail.bytes ++ sender.pending.bytes)) :
      Comes sender unread sent unread tail

theorem Comes.split (comes : Comes sender unread sent rest tail) :
    ∃ pending, rest = unread ++ pending ∧ ∀ unread', Comes sender unread' sent (unread' ++ pending) tail := by
  cases comes with
  | whole all fds => exact ⟨_,rfl,fun unread' => .whole all fds⟩
  | lost lost headless =>
    refine ⟨[],(List.append_nil _).symm,?_⟩
    intro unread'
    rw [List.append_nil]
    exact .lost lost headless

theorem Comes.strange (comes : Comes sender unread sent rest tail) : Strange tail := by
  cases comes with
  | whole all fds =>
    intro front inside enough
    rw [List.prefix_nil.mp inside] at enough
    exact absurd enough (by decide)
  | lost lost headless =>
    rintro front ⟨later,rfl⟩ enough
    rw [Carried.bytes_append,List.append_assoc] at headless
    exact headless.magic rfl (by rwa [Carried.bytes_length])

theorem Comes.anyPutOff (comes : Comes sender unread sent rest tail) (some : tail ≠ []) : AnyPutOff sent := by
  cases comes with
  | whole => exact absurd rfl some
  | lost lost _ => exact lost

def Message.sending (m : Message) : Sending := ⟨m.tree,m.received,false⟩

/-- From one process to the other: what has been delivered, and what is on its way. -/
structure Flow (p q : Endpoint) (done later : List Message) (rest tail : Carried) : Prop where
  sends : p.launch.sendlen > 0 → p.launch.Ready
  comes : Comes p.launch p.unread p.sent rest tail
  messages : (done ++ later).map Message.sending = intact p.sent
  given : q.given = done.map Message.arrives
  waits : (q.failed = none ∧ ∃ left, q.launch.Waits left rest later tail) ∨
    q.failed = some .EBADRPC ∧ later = [] ∧ AnyPutOff p.sent

def Flows (p q : Endpoint) : Prop := ∃ done later rest tail, Flow p q done later rest tail

/-! ## Sending -/

private theorem pending_idle (idle : lh.sendlen = 0) : lh.pending.bytes = [] := by
  rw [Launch.pending,idle,List.take_zero]

/-- A message that has been begun, with what follows of it. -/
theorem exists_message (packable : Packable d) {block : Bytes} {packed : Packed} {received : List Int32}
    (granted : malloc.block goodEnoughSize = some block) (packs : launchDataPack true d block [] = some packed)
    (positive : packed.size ≠ 0) (first : w.bytes ≠ [])
    (bytes : w.bytes ++ lh.pending.bytes =
      headerBytes (UInt64.ofNat (headerSize + packed.size)) ++ packed.memory.take packed.size)
    (rights : received.length = packed.fds.length) :
    ∃ m : Message, m.carried = w.carried received ++ bare lh.pending.bytes ∧ m.sending = ⟨d,received,false⟩ := by
  have sized := malloc.sized _ _ granted
  refine ⟨⟨d,packable,block,packed,packs,positive,w.carried received ++ bare lh.pending.bytes,received,?_,?_,rights,?_⟩,
    rfl,rfl⟩
  · rw [Carried.bytes_append,Wire.carried_bytes,bare_bytes,bytes]
  · rw [Carried.rights_append,Wire.carried_rights first,bare_rights,List.append_nil]
  · rw [sized]
    decide

def Endpoint.sentOn (p : Endpoint) (lh : Launch) (sent : List Sending) (c : Carried) : Endpoint :=
  {p with launch := lh,sent := p.sent ++ sent,unread := p.unread ++ c}

variable {done later : List Message} {result : SendResult} {received : List Int32}

theorem Flow.putOff (flow : Flow p q done later rest tail) (idle : p.launch.sendlen = 0) (ready : lh'.Ready)
    (headless : Headless lh'.pending.bytes) :
    Flows (p.sentOn lh' [⟨d,received,true⟩] []) q := by
  have lost : AnyPutOff (p.sent ++ [⟨d,received,true⟩]) := anyPutOff_append.mpr (.inr ⟨_,List.mem_singleton_self _,rfl⟩)
  have messages := flow.messages.trans (@intact_putOff p.sent ⟨d,received,true⟩ rfl).symm
  have nothing := pending_idle idle
  have unchanged : (p.sentOn lh' [⟨d,received,true⟩] []).unread = p.unread := List.append_nil _
  refine ⟨done,later,rest,tail,fun _ => ready,?_,messages,flow.given,?_⟩
  · rw [unchanged]
    cases flow.comes with
    | whole all fds =>
      rw [nothing,bare_nil,List.append_nil]
      exact .lost lost headless
    | lost _ before =>
      rw [nothing,List.append_nil] at before
      exact .lost lost (before.append _)
  · exact flow.waits.imp_right fun failed => ⟨failed.1,failed.2.1,lost⟩

theorem Flow.begun (flow : Flow p q done later rest tail) (idle : p.launch.sendlen = 0) (packable : Packable d)
    {block : Bytes} {packed : Packed} (granted : malloc.block goodEnoughSize = some block)
    (packs : launchDataPack true d block [] = some packed) (positive : packed.size ≠ 0) (first : w.bytes ≠ [])
    (bytes : w.bytes ++ lh'.pending.bytes =
      headerBytes (UInt64.ofNat (headerSize + packed.size)) ++ packed.memory.take packed.size)
    (rights : received.length = packed.fds.length) (onward : lh'.sendlen > 0 → lh'.Ready) (fds : lh'.sendfdcnt = 0) :
    Flows (p.sentOn lh' [⟨d,received,false⟩] (w.carried received)) q := by
  have nothing := pending_idle idle
  have same : AnyPutOff (p.sent ++ [⟨d,received,false⟩]) ↔ AnyPutOff p.sent := by
    rw [anyPutOff_append]
    simp [AnyPutOff]
  obtain ⟨sends,comes,messages,given,waits⟩ := flow
  cases comes with
  | whole all none =>
    obtain ⟨m,carried,sending⟩ := exists_message packable granted packs positive first bytes rights
    rw [nothing,bare_nil,List.append_nil] at waits
    refine ⟨done,later ++ [m],_,[],onward,.whole (same.not.mpr all) fds,?_,given,?_⟩
    · rw [← List.append_assoc,List.map_append,messages,List.map_singleton,sending,intact_all all]
      exact (intact_all (same.not.mpr all)).symm
    · rcases waits with ⟨well,left,waits⟩ | ⟨_,_,lost⟩
      · refine .inl ⟨well,left,waits.toHolds,?_,?_⟩
        · rw [List.flatMap_append,List.flatMap_singleton,carried,List.append_nil]
          have stream := waits.stream
          rw [List.append_nil] at stream
          rw [← stream]
          simp [Endpoint.sentOn]
        · cases later with
          | nil =>
            have stream := waits.stream
            rw [List.flatMap_nil,List.append_nil] at stream
            obtain ⟨rfl,_⟩ := List.append_eq_nil_iff.mp stream
            exact Nat.zero_lt_of_lt m.length_pos
          | cons => exact waits.short
      · exact absurd lost all
  | lost lost headless =>
    rw [nothing,List.append_nil] at headless
    refine ⟨done,later,_,tail ++ w.carried received,onward,.lost (same.mpr lost) ?_,?_,given,?_⟩
    · rw [Carried.bytes_append,List.append_assoc]
      exact headless.append _
    · exact messages.trans (intact_stays lost).symm
    · refine waits.imp ?_ ?_
      · rintro ⟨well,left,waits⟩
        exact ⟨well,left,waits.more _⟩
      · exact fun failed => ⟨failed.1,failed.2.1,same.mpr lost⟩

/-- The retries send what is left, and no more than the header has been lost. -/
theorem Flow.retried (flow : Flow p q done later rest tail) (moved : Moved [] p.launch lh' w)
    (counted : received.length = w.rights.flatten.length) :
    Flows (p.sentOn lh' [] (w.carried received)) q := by
  obtain ⟨sends,comes,messages,given,waits⟩ := flow
  have bytes := moved.bytes
  rw [List.nil_append] at bytes
  have sent : (p.sentOn lh' [] (w.carried received)).sent = p.sent := List.append_nil _
  cases comes with
  | whole all fds =>
    have rights : p.launch.pending.rights = [] := by simp [Launch.pending,fds]
    rw [moved.rights,rights] at counted
    obtain rfl := List.length_eq_zero_iff.mp counted
    refine ⟨done,later,p.unread ++ bare p.launch.pending.bytes,[],moved.rest,?_,?_,given,?_⟩
    · rw [← bytes,bare_append,← Wire.carried_nil,← List.append_assoc]
      exact .whole (sent.symm ▸ all) moved.fds
    · rw [sent,messages]
    · rw [sent]
      exact waits
  | lost lost headless =>
    refine ⟨done,later,_,tail ++ w.carried received,moved.rest,.lost (sent.symm ▸ lost) ?_,?_,given,?_⟩
    · rw [Carried.bytes_append,Wire.carried_bytes,List.append_assoc]
      rw [← bytes] at headless
      exact headless
    · rw [sent,messages]
    · rw [sent]
      refine waits.imp_left ?_
      rintro ⟨well,left,waits⟩
      exact ⟨well,left,waits.more _⟩

/-! ## Receiving -/

def Endpoint.receivedOn (q : Endpoint) (lh : Launch) (more : List LaunchData) (errno : Option MsgErrno) : Endpoint :=
  {q with launch := lh,given := q.given ++ more,failed := if errno = some .EAGAIN then none else errno}

theorem Benign.well (benign : Benign errno) : (if errno = some MsgErrno.EAGAIN then none else errno) = none := by
  rcases benign with rfl | rfl <;> rfl

/-- A call that reads what is in front of the sender's bytes ends one way or the other. -/
theorem Flow.read {c onward : Carried} {base : UInt64} (flow : Flow p q done later rest tail)
    (well : q.failed = none) (split : p.unread = c ++ onward) (nonempty : c ≠ []) (little : c.length ≤ readSize) :
    ∃ lh' more errno, launchdMsgRecv base q.launch c.result = (.returned errno lh',more) ∧
      Flows {p with unread := onward} (q.receivedOn lh' more errno) := by
  obtain ⟨sends,comes,messages,given,waits⟩ := flow
  obtain ⟨pending,rfl,comesOn⟩ := comes.split
  have strange := comes.strange
  have lost := comes.anyPutOff
  rcases waits with ⟨_,left,waits⟩ | ⟨failed,_⟩
  · rw [split,List.append_assoc] at waits
    obtain ⟨more,later,lh',errno,rfl,called,outcome⟩ := @Launch.Waits.reads _ _ _ _ _ _ base waits strange nonempty little
    refine ⟨lh',_,errno,called,done ++ more,later,onward ++ pending,tail,sends,comesOn onward,?_,?_,?_⟩
    · rw [List.append_assoc]
      exact messages
    · rw [List.map_append,← given]
      rfl
    · rcases outcome with ⟨benign,left,waits⟩ | ⟨rfl,last,some⟩
      · exact .inl ⟨benign.well,left,waits⟩
      · exact .inr ⟨rfl,last,lost some⟩
  · rw [well] at failed
    cases failed

private theorem launchdMsgRecv_again {base : UInt64} (connected : launchdGetfd lh ≠ -1) :
    launchdMsgRecv base lh (.error .EAGAIN) = (.returned (some .EAGAIN) lh,[]) := by
  rw [launchdMsgRecv,if_neg connected]

/-! ## What the other direction does not notice -/

theorem Launch.Ready.of_same (ready : lh.Ready) (same : lh.SameSending lh') : lh'.Ready := by
  obtain ⟨buf,len,_,_,fd⟩ := same
  exact ⟨fd ▸ ready.connected,len ▸ ready.left,len ▸ buf ▸ ready.inside⟩

theorem Launch.SameSending.pending (same : lh.SameSending lh') : lh'.pending = lh.pending := by
  simp only [Launch.pending,same.sendbuf,same.sendlen,same.sendfds,same.sendfdcnt]

/-- A sender that has only received goes on sending. -/
theorem Flows.ofSender (flows : Flows p q) (same : p.launch.SameSending p'.launch) (sent : p'.sent = p.sent)
    (unread : p'.unread = p.unread) : Flows p' q := by
  obtain ⟨done,later,rest,tail,sends,comes,messages,given,waits⟩ := flows
  refine ⟨done,later,rest,tail,?_,?_,sent ▸ messages,given,sent ▸ waits⟩
  · rw [same.sendlen]
    exact fun some => (sends some).of_same same
  · rw [sent,unread]
    cases comes with
    | whole all fds =>
      rw [← same.pending]
      exact .whole all (same.sendfdcnt.trans fds)
    | lost lost headless => exact .lost lost (by rw [same.pending]; exact headless)

/-- A receiver that has only sent goes on receiving. -/
theorem Flows.ofReceiver (flows : Flows p q) (same : q.launch.SameReceiving q'.launch) (given : q'.given = q.given)
    (failed : q'.failed = q.failed) : Flows p q' := by
  obtain ⟨done,later,rest,tail,sends,comes,messages,delivered,waits⟩ := flows
  refine ⟨done,later,rest,tail,sends,comes,messages,given.trans delivered,?_⟩
  rw [failed]
  refine waits.imp_left ?_
  rintro ⟨well,left,waits⟩
  refine ⟨well,left,⟨same.recvbuf.trans waits.bytes,same.recvfds.trans waits.rights,?_⟩,waits.stream,waits.short⟩
  rw [same.fd]
  exact waits.connected

/-! ## The steps -/

private theorem sends_some {ended : Ended × Wire} {sent : List Sending} (sends : p.sends sent received ended = some p') :
    ∃ errno lh w, ended = (.returned errno lh,w) ∧ Benign errno ∧ received.length = w.rights.flatten.length ∧
      p' = p.sentOn lh sent (w.carried received) := by
  obtain ⟨ended,w⟩ := ended
  cases ended with
  | fault => cases sends
  | returned errno lh =>
    simp only [Endpoint.sends] at sends
    split at sends
    · rename_i both
      exact ⟨errno,lh,w,rfl,both.1,both.2,(Option.some.inj sends).symm⟩
    · cases sends

def Flowing (s : Pair) : Prop := ∀ e : Side, Flows (s e) (s e.other)

private theorem flowing_sent {e : Side} (flowing : Flowing s) (direct : Flows p (s e.other))
    (same : (s e).launch.SameReceiving p.launch) (given : p.given = (s e).given) (failed : p.failed = (s e).failed) :
    Flowing (Function.update s e p) := by
  intro e'
  have back := flowing e.other
  rw [Side.other_other] at back
  by_cases here : e' = e
  · subst here
    rwa [Function.update_self,Function.update_of_ne (Side.other_ne _)]
  · obtain rfl := Side.eq_other here
    rw [Function.update_of_ne (Side.other_ne _),Side.other_other,Function.update_self]
    exact back.ofReceiver same given failed

theorem Flowing.step {e : Side} {act : Act} (flowing : Flowing s) (stepped : step malloc s e act = some s') :
    Flowing s' := by
  obtain ⟨done,later,rest,tail,flow⟩ := flowing e
  cases act with
  | send d packable result received =>
    obtain ⟨p,sends,rfl⟩ := Option.map_eq_some_iff.mp stepped
    obtain ⟨errno,lh,w,ended,benign,counted,rfl⟩ := sends_some sends
    have idle : (s e).launch.sendlen = 0 := by
      by_contra left
      have connected : launchdGetfd (s e).launch ≠ -1 := (flow.sends (Nat.pos_of_ne_zero left)).connected
      simp only [launchdMsgSend,if_neg connected,if_pos left] at ended
      cases ended
    refine flowing_sent flowing ?_ (launchdMsgSend_sameReceiving ended) rfl rfl
    cases launchdMsgSend_begun packable idle ended benign with
    | putOff lost nothing ready headless =>
      subst lost nothing
      exact flow.putOff idle ready headless
    | begun taken block packed granted packs positive first bytes rights onward fds =>
      rw [decide_eq_false taken]
      exact flow.begun idle packable granted packs positive first bytes (rights ▸ counted) onward fds
  | retry result received =>
    obtain ⟨p,sends,rfl⟩ := Option.map_eq_some_iff.mp stepped
    obtain ⟨errno,lh,w,ended,benign,counted,rfl⟩ := sends_some sends
    have some : (s e).launch.sendlen > 0 := by
      by_contra none
      have idle : (s e).launch.sendlen = 0 := by omega
      by_cases closed : launchdGetfd (s e).launch = -1
      · simp only [launchdMsgSend,if_pos closed] at ended
        cases ended
        rcases benign with bad | bad <;> cases bad
      · simp only [launchdMsgSend,if_neg closed,if_pos idle] at ended
        cases ended
    refine flowing_sent flowing ?_ (launchdMsgSend_sameReceiving ended) rfl rfl
    rcases launchdMsgSend_goes_on (flow.sends some) ended benign with ⟨rfl,rfl⟩ | moved
    · have same : (s e).sentOn (s e).launch [] (Wire.empty.carried received) = s e := by
        simp [Endpoint.sentOn,Wire.carried,Wire.empty]
      rw [same]
      exact flowing e
    · exact flow.retried moved counted
  | recv base most =>
    simp only [Liblaunch.step] at stepped
    split at stepped
    · cases stepped
    · rename_i healthy
      have well : (s e).failed = none := by simpa using healthy
      have back := flowing e.other
      rw [Side.other_other] at back
      obtain ⟨done',later',rest',tail',arriving⟩ := back
      -- what is read leaves the other end, which goes on sending as before
      obtain ⟨p,receives,rfl⟩ := Option.map_eq_some_iff.mp stepped
      suffices delivered : Flows {s e.other with unread := (s e.other).unread.drop (min most readSize)} p ∧
          (s e).launch.SameSending p.launch ∧ p.sent = (s e).sent ∧ p.unread = (s e).unread by
        obtain ⟨delivered,same,sent,unread⟩ := delivered
        intro e'
        by_cases here : e' = e
        · subst here
          rw [Function.update_of_ne (Side.other_ne _).symm,Function.update_self,Function.update_self]
          exact ((flowing e').ofSender same sent unread).ofReceiver ⟨rfl,rfl,rfl⟩ rfl rfl
        · obtain rfl := Side.eq_other here
          rw [Function.update_self,Side.other_other,Function.update_of_ne (Side.other_ne _).symm,Function.update_self]
          exact delivered
      by_cases empty : (s e.other).unread.take (min most readSize) = []
      · have kept : (s e.other).unread.drop (min most readSize) = (s e.other).unread := by
          have whole := List.take_append_drop (min most readSize) (s e.other).unread
          rwa [empty,List.nil_append] at whole
        have connected : launchdGetfd (s e).launch ≠ -1 := by
          rcases arriving.waits with ⟨_,left,waits⟩ | ⟨failed,_⟩
          · exact waits.connected
          · rw [well] at failed
            cases failed
        rw [if_pos empty,launchdMsgRecv_again connected] at receives
        have same : p = s e := by
          rw [← Option.some.inj receives,List.append_nil,if_pos rfl,← well]
        rw [kept,same]
        exact ⟨⟨done',later',rest',tail',arriving⟩,⟨rfl,rfl,rfl,rfl,rfl⟩,rfl,rfl⟩
      · have little : ((s e.other).unread.take (min most readSize)).length ≤ readSize := by
          rw [List.length_take]
          omega
        obtain ⟨lh',more,errno,called,flows⟩ := @Flow.read _ _ _ _ _ _ _ _ base arriving well
          (List.take_append_drop (min most readSize) _).symm empty little
        rw [if_neg empty,called] at receives
        obtain rfl := Option.some.inj receives
        exact ⟨flows,launchdMsgRecv_sameSending called,rfl,rfl⟩

theorem Flowing.run {acts : List (Side × Act)} (flowing : Flowing s) (ran : run malloc s acts = some s') :
    Flowing s' := by
  induction acts generalizing s with
  | nil =>
    obtain rfl := Option.some.inj ran
    exact flowing
  | cons act rest ih =>
    simp only [Liblaunch.run,List.foldlM_cons,Option.bind_eq_bind] at ran
    obtain ⟨next,stepped,ran⟩ := Option.bind_eq_some_iff.mp ran
    exact ih (flowing.step stepped) ran

def opened (fds : Side → Int32 × Int32) : Pair := fun e => .fresh (launchdFdopen (fds e).1 (fds e).2)

private theorem flowing_opened {fds : Side → Int32 × Int32} (connected : ∀ e, launchdGetfd (opened fds e).launch ≠ -1) :
    Flowing (opened fds) := by
  intro e
  have nothing : ¬ AnyPutOff (opened fds e).sent := by
    rintro ⟨x,member,_⟩
    cases member
  refine ⟨[],[],_,[],fun left => absurd left (Nat.lt_irrefl 0),.whole nothing rfl,rfl,rfl,.inl ⟨rfl,[],?_⟩⟩
  exact ⟨⟨rfl,rfl,connected e.other⟩,rfl,Nat.zero_lt_succ _⟩

/-- Nothing is left to be sent, and nothing to be read by a receiver that goes on. -/
structure Settled (p q : Endpoint) : Prop where
  sent : p.launch.sendlen = 0
  read : q.failed = none → p.unread = []

theorem Message.arrives_sending : Sending.arrives ∘ Message.sending = Message.arrives := rfl

/-- The messages of a direction are delivered in order. -/
theorem Flow.delivers (flow : Flow p q done later rest tail) : q.given <+: (intact p.sent).map Sending.arrives := by
  rw [← flow.messages,List.map_map,Message.arrives_sending,List.map_append,flow.given]
  exact List.prefix_append ..

theorem Flow.settled (flow : Flow p q done later rest tail) (settled : Settled p q) :
    q.given = (intact p.sent).map Sending.arrives ∧ (q.failed ≠ none ↔ AnyPutOff p.sent) := by
  have all (last : later = []) : q.given = (intact p.sent).map Sending.arrives := by
    rw [← flow.messages,List.map_map,Message.arrives_sending,last,List.append_nil,flow.given]
  rcases flow.waits with ⟨well,left,waits⟩ | ⟨failed,last,lost⟩
  · have read := settled.read well
    have last : later = [] := by
      cases later with
      | nil => rfl
      | cons m later =>
        have nothing : rest = [] := by
          cases flow.comes with
          | whole => rw [read,pending_idle settled.sent,bare_nil,List.append_nil]
          | lost => exact read
        have stream := congrArg List.length waits.stream
        have short : left.length < m.carried.length := waits.short
        rw [nothing,List.append_nil,List.flatMap_cons,List.append_assoc,List.length_append] at stream
        omega
    refine ⟨all last,fun failed => absurd well failed,?_⟩
    intro lost
    cases flow.comes with
    | whole none => exact absurd lost none
    | lost _ headless =>
      -- the whole tail has been read, and a header's length of it is enough to fail
      have stream := waits.stream
      have short : left.length < headerSize := by
        have short := waits.short
        rwa [last] at short
      have long := headless.length
      rw [pending_idle settled.sent,List.append_nil,Carried.bytes_length] at long
      rw [read,List.append_nil,last,List.flatMap_nil,List.nil_append] at stream
      rw [stream] at short
      omega
  · refine ⟨all last,fun _ => lost,?_⟩
    rw [failed]
    exact fun _ well => by cases well

/-! ## Coming to an end -/

private theorem run_append {acts more : List (Side × Act)} (ran : Liblaunch.run malloc s acts = some s') :
    Liblaunch.run malloc s (acts ++ more) = Liblaunch.run malloc s' more := by
  rw [Liblaunch.run,List.foldlM_append,← Liblaunch.run,ran]
  rfl

/-- One call sends all that is left, when the kernel takes it. -/
theorem exists_flushed (malloc : Malloc) (ready : lh.Ready) :
    ∃ lh' w, launchdMsgSend malloc lh none .all = (.returned none lh',w) ∧ lh'.sendlen = 0 := by
  have inside := ready.inside
  have left := ready.left
  have offered : SendResult.all.taken ([] ++ lh.sendbuf.take lh.sendlen).length = lh.sendlen := by
    simp [SendResult.taken,inside]
  obtain ⟨lh',sent,_,_,length,_⟩ := transmit_taken ready offered left (Nat.zero_le _) (by simp)
  have done : lh'.sendlen = 0 := by
    rw [length]
    exact Nat.sub_self _
  rw [if_neg (by omega)] at sent
  exact ⟨lh',_,(launchdMsgSend_retry malloc ready _).trans sent,done⟩

/-- The other process reads until nothing is there, or it has been told that a header is missing. -/
theorem Flowing.drained {n : Nat} {e : Side} (flowing : Flowing s) (idle : (s e).launch.sendlen = 0)
    (bound : (s e).unread.length ≤ n) :
    ∃ acts s', Liblaunch.run malloc s acts = some s' ∧ Settled (s' e) (s' e.other) ∧ ∀ x, (s' x).sent = (s x).sent := by
  induction n generalizing s with
  | zero =>
    have nothing := List.length_eq_zero_iff.mp (Nat.le_zero.mp bound)
    exact ⟨[],s,rfl,⟨idle,fun _ => nothing⟩,fun _ => rfl⟩
  | succ n ih =>
    by_cases settled : (s e.other).failed = none → (s e).unread = []
    · exact ⟨[],s,rfl,⟨idle,settled⟩,fun _ => rfl⟩
    · obtain ⟨well,some⟩ := Classical.not_imp.mp settled
      obtain ⟨done,later,rest,tail,flow⟩ := flowing e
      have nonempty : (s e).unread.take readSize ≠ [] := by
        intro empty
        rcases List.take_eq_nil_iff.mp empty with none | none
        · cases none
        · exact some none
      have little : ((s e).unread.take readSize).length ≤ readSize := by
        rw [List.length_take]
        omega
      obtain ⟨lh',more,errno,called,flows⟩ := @Flow.read _ _ _ _ _ _ _ _ 0 flow well
        (List.take_append_drop readSize _).symm nonempty little
      let next : Pair := Function.update (Function.update s e.other ((s e.other).receivedOn lh' more errno)) e
        {s e with unread := (s e).unread.drop readSize}
      have stepped : Liblaunch.step malloc s e.other (.recv 0 readSize) = Option.some next := by
        simp only [Liblaunch.step,well,Side.other_other,Nat.min_self,if_neg nonempty,called,Endpoint.receives,
          Option.isSome_none,Bool.false_eq_true,if_false]
        rfl
      have here : next e = {s e with unread := (s e).unread.drop readSize} := Function.update_self ..
      have shorter : (next e).unread.length ≤ n := by
        have positive := List.length_pos_iff.mpr some
        rw [here,List.length_drop]
        have size : 0 < readSize := by decide
        omega
      obtain ⟨acts,s',ran,settled,sent⟩ := ih (flowing.step stepped) (by rw [here]; exact idle) shorter
      refine ⟨(e.other,.recv 0 readSize)::acts,s',?_,settled,?_⟩
      · simp only [Liblaunch.run,List.foldlM_cons,stepped]
        exact ran
      · intro x
        rw [sent x]
        by_cases mine : x = e
        · subst mine
          rw [here]
        · obtain rfl := Side.eq_other mine
          have there : next e.other = (s e.other).receivedOn lh' more errno := by
            simp only [next]
            rw [Function.update_of_ne (Side.other_ne _),Function.update_self]
          rw [there]
          rfl

/-- Whatever has happened, what was sent can still be brought to the other process. -/
theorem Flowing.settles (flowing : Flowing s) (e : Side) :
    ∃ acts s', Liblaunch.run malloc s acts = some s' ∧ Settled (s' e) (s' e.other) ∧ ∀ x, (s' x).sent = (s x).sent := by
  by_cases idle : (s e).launch.sendlen = 0
  · exact flowing.drained idle (Nat.le_refl _)
  · obtain ⟨done,later,rest,tail,flow⟩ := flowing e
    obtain ⟨lh',w,flushed,done⟩ := exists_flushed malloc (flow.sends (Nat.pos_of_ne_zero idle))
    let received : List Int32 := List.replicate w.rights.flatten.length 0
    let next : Pair := Function.update s e ((s e).sentOn lh' [] (w.carried received))
    have stepped : Liblaunch.step malloc s e (.retry .all received) = some next := by
      simp only [Liblaunch.step,flushed,Endpoint.sends,received,List.length_replicate,true_or,and_self,if_true]
      rfl
    have here : next e = (s e).sentOn lh' [] (w.carried received) := Function.update_self ..
    obtain ⟨acts,s',ran,settled,sent⟩ :=
      @Flowing.drained malloc _ _ _ (flowing.step stepped) (by rw [here]; exact done) (Nat.le_refl _)
    refine ⟨(e,.retry .all received)::acts,s',?_,settled,?_⟩
    · simp only [Liblaunch.run,List.foldlM_cons,stepped]
      exact ran
    · intro x
      rw [sent x]
      by_cases mine : x = e
      · subst mine
        rw [here]
        exact List.append_nil _
      · have there : next x = s x := Function.update_of_ne mine ..
        rw [there]

/-- Whatever the two processes do in whatever order as long as no call fails otherwise
than with `EAGAIN`, and however little the kernel takes and hands over at a time, each callback has been given what the other
process has sent, in order and with the descriptors received, up to the first
message that was put off. When nothing is on its way that is all of it, and the
receiver has been told exactly if a header is missing. It can always come to that. -/
theorem delivered_before_putOff (malloc : Malloc) {fds : Side → Int32 × Int32}
    (connected : ∀ e, launchdGetfd (opened fds e).launch ≠ -1) {acts : List (Side × Act)}
    (ran : run malloc (opened fds) acts = some s) (e : Side) :
    (s e.other).given <+: (intact (s e).sent).map Sending.arrives ∧
      (Settled (s e) (s e.other) →
        (s e.other).given = (intact (s e).sent).map Sending.arrives ∧
          (s e.other).failed = if (s e).sent.any Sending.putOff then some .EBADRPC else none) ∧
      ∃ more s', run malloc s more = some s' ∧ Settled (s' e) (s' e.other) ∧ ∀ x, (s' x).sent = (s x).sent := by
  have flowing := (flowing_opened connected).run ran
  obtain ⟨done,later,rest,tail,flow⟩ := flowing e
  refine ⟨flow.delivers,?_,flowing.settles e⟩
  intro settled
  obtain ⟨all,told⟩ := flow.settled settled
  refine ⟨all,?_⟩
  have any : (s e).sent.any Sending.putOff = true ↔ AnyPutOff (s e).sent := List.any_eq_true
  by_cases lost : AnyPutOff (s e).sent
  · rw [if_pos (any.mpr lost)]
    rcases flow.waits with ⟨well,_⟩ | ⟨failed,_⟩
    · exact absurd well (told.mpr lost)
    · exact failed
  · rw [if_neg (any.not.mpr lost)]
    by_contra failed
    exact lost (told.mp failed)

/-- A message that can be sent is, if the first `sendmsg` takes its header. -/
theorem exists_sent {e : Side} {n : Nat} (packable : Packable d) (idle : (s e).launch.sendlen = 0)
    (sendable : Sendable malloc (s e).launch d) (whole : headerSize ≤ n)
    (counted : received.length = (descriptors true d).length) :
    ∃ s', step malloc s e (.send d packable (.count n) received) = some s' ∧
      (s' e).sent = (s e).sent ++ [⟨d,received,false⟩] := by
  obtain ⟨block,packed,lh,granted,packs,called,ready,size,pending⟩ :=
    launchdMsgSend_first packable idle sendable (.count n)
  have sized := malloc.sized _ _ granted
  obtain ⟨body,same,_⟩ := @Packable.packs d true packable block [] (by rw [sized]; exact sendable.fits)
    (by rw [sized]; decide)
  have fds : packed.fds = descriptors true d := by rw [Option.some.inj (packs.symm.trans same),List.nil_append]
  have inside := ready.inside
  have positive : 0 < headerSize := by decide
  have offered : (SendResult.count n).taken
      (headerBytes (UInt64.ofNat (16 + packed.size)) ++ lh.sendbuf.take lh.sendlen).length =
        min n (headerSize + lh.sendlen) := by
    simp [SendResult.taken,inside]
  obtain ⟨lh',transmitted,_⟩ := transmit_taken ready offered (by omega) (by rw [headerBytes_length]; omega)
    (by rw [headerBytes_length]; omega)
  obtain ⟨w,sent,sharing⟩ : ∃ w, transmit lh (headerBytes (UInt64.ofNat (16 + packed.size))) (.count n) =
      (.returned (if lh'.sendlen > 0 then some .EAGAIN else none) lh',w) ∧ w.rights = lh.pending.rights :=
    ⟨_,transmitted,rfl⟩
  have rights : received.length = w.rights.flatten.length := by
    rw [sharing,pending,counted,← fds]
    cases packed.fds <;> simp
  have benign : (if lh'.sendlen > 0 then some MsgErrno.EAGAIN else none) = none ∨
      (if lh'.sendlen > 0 then some MsgErrno.EAGAIN else none) = some MsgErrno.EAGAIN := by
    split
    · exact .inr rfl
    · exact .inl rfl
  refine ⟨Function.update s e ((s e).sentOn lh' [⟨d,received,false⟩] (w.carried received)),?_,?_⟩
  · simp only [step,called,sent,Endpoint.sends,if_pos (And.intro benign rights),Option.map_some]
    rfl
  · rw [Function.update_self]
    rfl

def sockets : Side → Int32 × Int32 := fun _ => (3,-1)

/-- The descriptor 5 arrives as 7, although the client sends one time only. -/
theorem five_delivered : ∃ s acts s',
    run zeroed (opened sockets) [(.client,.send (.scalar .fd 5) (.scalar 5 (by decide)) (.count 24) [7])] = some s ∧
      run zeroed s acts = some s' ∧ (s' .server).given = [.scalar .fd 7] ∧ (s' .server).failed = none := by
  obtain ⟨s,stepped,sent⟩ := @exists_sent zeroed (.scalar .fd 5) (opened sockets) [7] .client 24
    (.scalar 5 (by decide)) rfl ⟨by decide,rfl,rfl,by decide,by decide⟩ (by decide) rfl
  have ran : run zeroed (opened sockets)
      [(.client,.send (.scalar .fd 5) (.scalar 5 (by decide)) (.count 24) [7])] = some s := by
    simp only [run,List.foldlM_cons,stepped]
    rfl
  have connected : ∀ e, launchdGetfd (opened sockets e).launch ≠ -1 := by
    intro e
    cases e <;> decide
  obtain ⟨_,_,acts,s',more,settled,kept⟩ := delivered_before_putOff zeroed connected ran .client
  have both := (run_append ran).trans more
  obtain ⟨_,arrived,_⟩ := delivered_before_putOff zeroed connected both .client
  obtain ⟨given,failed⟩ := arrived settled
  have once : (s' .client).sent = [⟨.scalar .fd 5,[7],false⟩] := (kept .client).trans sent
  rw [once] at given failed
  exact ⟨s,acts,s',ran,more,given,failed⟩

end FreebsdLaunchd.Liblaunch
