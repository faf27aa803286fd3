import FreebsdLaunchd.IpMonitor.Entities
import Mathlib.Data.List.Infix

/-! The order of the DNS servers of a service. Where its servers are a block of one
family and a block of the other, a comparison of destinations tells which block goes first. -/
namespace FreebsdLaunchd.IpMonitor

inductive Proto
  | ipv4 | ipv6
  deriving DecidableEq, Repr

structure ProtocolFlags where
  ipv4 : Bool
  ipv6 : Bool
  deriving DecidableEq, Repr

inductive ServerAddr
  | v4 (ia : IPv4Addr)
  | v6 (ia6 : IPv6Addr)
  deriving DecidableEq

def ServerAddr.proto : ServerAddr → Proto
  | .v4 _ => .ipv4
  | .v6 _ => .ipv6

def serverAddr (os : Platform) (server : CFString) : Option ServerAddr :=
  match cfstringToIp os.inetPton4 (some (.string server)) with
  | some ia => some (.v4 ia)
  | none => (cfstringToIp os.inetPton6 (some (.string server))).map .v6

def serverProto (os : Platform) (server : CFString) : Option Proto := (serverAddr os server).map ServerAddr.proto

structure DnsOrder where
  favorV4 : Bool
  orderedServers : List CFString
  protoLast : Proto
  v4Dns1 : IPv4Addr
  v4N : Nat
  v6Dns1 : IPv6Addr
  v6N : Nat

def DnsOrder.start : DnsOrder := ⟨false,[],.ipv4,0,0,0,0⟩

def DnsOrder.note (s : DnsOrder) : ServerAddr → DnsOrder
  | .v4 ia => {s with v4Dns1 := if s.v4N = 0 then ia else s.v4Dns1, v4N := s.v4N+1}
  | .v6 ia6 => {s with v6Dns1 := if s.v6N = 0 then ia6 else s.v6Dns1, v6N := s.v6N+1}

def DnsOrder.count (s : DnsOrder) : Proto → Nat
  | .ipv4 => s.v4N
  | .ipv6 => s.v6N

/-- Where the family changes the comparison is made for the first server of the other
family, and any later change gives the whole order up. -/
def DnsOrder.turn (compare : IPv4Addr → IPv6Addr → Int) (i : Nat) (proto : Proto) (s : DnsOrder) : Option DnsOrder :=
  if 0 < i ∧ proto ≠ s.protoLast then
    if s.count proto = 1 then some {s with favorV4 := compare s.v4Dns1 s.v6Dns1 ≥ 0} else none
  else some s

def DnsOrder.place (proto : Proto) (server : CFString) (s : DnsOrder) : DnsOrder :=
  let s := {s with protoLast := proto}
  if proto = .ipv4 ∧ s.favorV4 then {s with orderedServers := s.orderedServers.insertIdx (s.v4N-1) server}
  else if proto = .ipv6 ∧ !s.favorV4 then {s with orderedServers := s.orderedServers.insertIdx (s.v6N-1) server}
  else {s with orderedServers := s.orderedServers ++ [server]}

section
variable (os : Platform) (compare : IPv4Addr → IPv6Addr → Int)

/-- One round; `none` where the servers are left as they were. -/
def orderServer (i : Nat) (server : CFString) (s : DnsOrder) : Option DnsOrder := do
  let addr ← serverAddr os server
  let s ← (s.note addr).turn compare i addr.proto
  some (s.place addr.proto server)

def orderServers : List CFString → Nat → DnsOrder → Option (List CFString)
  | [], _, s => some s.orderedServers
  | server::servers, i, s => (orderServer os compare i server s).bind (orderServers servers (i+1))

/-- `compare` is the comparison of destinations, which looks at nothing but the two addresses. -/
def orderDnsServers (servers : List CFString) (activeProtos : ProtocolFlags) : List CFString :=
  if !activeProtos.ipv4 || !activeProtos.ipv6 then servers
  else (orderServers os compare servers 0 .start).getD servers

end

/-! ## One round -/

/-- The next server of the family is inserted, rather than appended. -/
def DnsOrder.inserts (s : DnsOrder) : Proto → Bool
  | .ipv4 => s.favorV4
  | .ipv6 => !s.favorV4

/-- In a block of the family: what has been placed is `before` and `after` the place of its next server. -/
structure InBlock (s : DnsOrder) (proto : Proto) (before after : List CFString) : Prop where
  ordered : s.orderedServers = before ++ after
  last : s.protoLast = proto
  begun : 0 < s.count proto
  inserts : s.inserts proto → before.length = s.count proto
  appends : s.inserts proto = false → after = []

/-- The first addresses and the preference are those of before. -/
structure Settled (s s' : DnsOrder) : Prop where
  favorV4 : s'.favorV4 = s.favorV4
  v4Dns1 : s'.v4Dns1 = s.v4Dns1
  v6Dns1 : s'.v6Dns1 = s.v6Dns1

theorem Settled.trans {s s' s'' : DnsOrder} (first : Settled s s') (later : Settled s' s'') : Settled s s'' :=
  ⟨later.favorV4.trans first.favorV4,later.v4Dns1.trans first.v4Dns1,later.v6Dns1.trans first.v6Dns1⟩

variable {os : Platform} {compare : IPv4Addr → IPv6Addr → Int} {s : DnsOrder} {proto : Proto} {server : CFString}
  {addr : ServerAddr} {before after : List CFString} {i : Nat}

@[simp] theorem count_note (s : DnsOrder) (addr : ServerAddr) (proto : Proto) :
    (s.note addr).count proto = s.count proto + if addr.proto = proto then 1 else 0 := by
  cases addr <;> cases proto <;> rfl

@[simp] theorem inserts_note (s : DnsOrder) (addr : ServerAddr) (proto : Proto) :
    (s.note addr).inserts proto = s.inserts proto := by
  cases addr <;> cases proto <;> rfl

@[simp] theorem count_place (s : DnsOrder) (proto proto' : Proto) (server : CFString) :
    (s.place proto server).count proto' = s.count proto' := by
  unfold DnsOrder.place
  cases proto' <;> dsimp only [DnsOrder.count] <;> split_ifs <;> rfl

private theorem settled_place (s : DnsOrder) (proto : Proto) (server : CFString) : Settled s (s.place proto server) := by
  unfold DnsOrder.place
  dsimp only
  split_ifs <;> exact ⟨rfl,rfl,rfl⟩

@[simp] theorem inserts_place (s : DnsOrder) (proto proto' : Proto) (server : CFString) :
    (s.place proto server).inserts proto' = s.inserts proto' := by
  cases proto' <;> simp [DnsOrder.inserts,(settled_place s proto server).favorV4]

private theorem place_eq (s : DnsOrder) (proto : Proto) (server : CFString) :
    (s.place proto server).orderedServers =
      if s.inserts proto then s.orderedServers.insertIdx (s.count proto - 1) server else s.orderedServers ++ [server] := by
  cases proto <;> cases favor : s.favorV4 <;> simp [DnsOrder.place,DnsOrder.inserts,DnsOrder.count,favor]

private theorem place_protoLast (s : DnsOrder) (proto : Proto) (server : CFString) :
    (s.place proto server).protoLast = proto := by
  unfold DnsOrder.place
  dsimp only
  split_ifs <;> rfl

private theorem insertIdx_between (before after : List CFString) (server : CFString) :
    (before ++ after).insertIdx before.length server = before ++ [server] ++ after := by
  induction before with
  | nil => rfl
  | cons first before ih => simp only [List.cons_append,List.length_cons,List.insertIdx_succ_cons,ih]

/-- A server is placed between what is before and after its place. -/
theorem inBlock_place (before after : List CFString) (ordered : s.orderedServers = before ++ after)
    (inserts : s.inserts proto → s.count proto = before.length + 1)
    (appends : s.inserts proto = false → after = []) (begun : 0 < s.count proto) :
    InBlock (s.place proto server) proto (before ++ [server]) after where
  ordered := by
    rw [place_eq]
    split
    · rename_i front
      rw [inserts front,ordered]
      exact insertIdx_between before after server
    · rename_i back
      rw [ordered,appends (by simpa using back)]
      simp
  last := place_protoLast s proto server
  begun := by simpa using begun
  inserts := by
    intro front
    rw [count_place,inserts (by simpa using front)]
    simp
  appends := by
    intro back
    exact appends (by simpa using back)

/-! ## A block -/

variable (compare)

private theorem settled_note (begun : 0 < s.count addr.proto) : Settled s (s.note addr) := by
  cases addr with
  | v4 ia => exact ⟨rfl,by simp [DnsOrder.note,Nat.ne_of_gt (show 0 < s.v4N from begun)],rfl⟩
  | v6 ia6 => exact ⟨rfl,rfl,by simp [DnsOrder.note,Nat.ne_of_gt (show 0 < s.v6N from begun)]⟩

private theorem note_orderedServers (s : DnsOrder) (addr : ServerAddr) :
    (s.note addr).orderedServers = s.orderedServers := by
  cases addr <;> rfl

private theorem note_protoLast (s : DnsOrder) (addr : ServerAddr) : (s.note addr).protoLast = s.protoLast := by
  cases addr <;> rfl

private theorem orderServer_same (block : InBlock s addr.proto before after)
    (known : serverAddr os server = some addr) (i : Nat) :
    ∃ s', orderServer os compare i server s = some s' ∧ InBlock s' addr.proto (before ++ [server]) after ∧
      Settled s s' ∧ ∀ other ≠ addr.proto, s'.count other = s.count other := by
  refine ⟨(s.note addr).place addr.proto server,?_,?_,?_,?_⟩
  · simp [orderServer,known,DnsOrder.turn,note_protoLast,block.last]
  · apply inBlock_place before after
    · rw [note_orderedServers,block.ordered]
    · intro front
      rw [count_note,if_pos rfl,block.inserts (by simpa using front)]
    · intro back
      exact block.appends (by simpa using back)
    · simp
  · exact (settled_note block.begun).trans (settled_place _ _ _)
  · intro other apart
    simp [apart.symm]

private theorem orderServers_same {servers : List CFString} (block : InBlock s proto before after)
    (known : ∀ server ∈ servers, serverProto os server = some proto) (i : Nat) (rest : List CFString) :
    ∃ s', orderServers os compare (servers ++ rest) i s = orderServers os compare rest (i + servers.length) s' ∧
      InBlock s' proto (before ++ servers) after ∧ Settled s s' ∧ ∀ other ≠ proto, s'.count other = s.count other := by
  induction servers generalizing s before i with
  | nil => exact ⟨s,rfl,by simpa using block,⟨rfl,rfl,rfl⟩,fun other _ => rfl⟩
  | cons server servers ih =>
    obtain ⟨first,later⟩ := List.forall_mem_cons.mp known
    rw [serverProto,Option.map_eq_some_iff] at first
    obtain ⟨addr,parsed,rfl⟩ := first
    obtain ⟨s',step,block',settled,others⟩ := orderServer_same compare block parsed i
    obtain ⟨s'',run,block'',settled',others'⟩ := ih block' later (i+1)
    refine ⟨s'',?_,by simpa using block'',settled.trans settled',fun other apart => ?_⟩
    · rw [List.cons_append,orderServers,step,Option.bind_some,run,List.length_cons]
      congr 1
      omega
    · rw [others' other apart,others other apart]

private theorem orderServer_first (known : serverAddr os server = some addr) :
    ∃ s', orderServer os compare 0 server .start = some s' ∧ InBlock s' addr.proto [server] [] ∧
      Settled (DnsOrder.start.note addr) s' ∧ ∀ other ≠ addr.proto, s'.count other = 0 := by
  refine ⟨(DnsOrder.start.note addr).place addr.proto server,?_,?_,settled_place _ _ _,?_⟩
  · simp [orderServer,known,DnsOrder.turn]
  · apply inBlock_place [] []
    · exact note_orderedServers _ _
    · intro _
      cases addr <;> rfl
    · intro _
      rfl
    · cases addr <;> exact Nat.one_pos
  · intro other apart
    rw [count_place,count_note,if_neg apart.symm]
    cases other <;> rfl

/-! ## The change of the family -/

/-- Whether servers of the family go before the others, once both are known. -/
def Favored (v4Dns1 : IPv4Addr) (v6Dns1 : IPv6Addr) : Proto → Bool
  | .ipv4 => compare v4Dns1 v6Dns1 ≥ 0
  | .ipv6 => !decide (compare v4Dns1 v6Dns1 ≥ 0)

private theorem orderServer_turn (block : InBlock s proto before []) (known : serverAddr os server = some addr)
    (other : addr.proto ≠ proto) (new : s.count addr.proto = 0) (later : 0 < i) :
    ∃ s', orderServer os compare i server s = some s' ∧ s'.count proto = s.count proto ∧
      let favored := Favored compare (s.note addr).v4Dns1 (s.note addr).v6Dns1 addr.proto
      InBlock s' addr.proto (if favored then [server] else before ++ [server]) (if favored then before else []) := by
  have turned : (s.note addr).turn compare i addr.proto =
      some {s.note addr with favorV4 := compare (s.note addr).v4Dns1 (s.note addr).v6Dns1 ≥ 0} := by
    rw [DnsOrder.turn,if_pos ⟨later,by rwa [note_protoLast,block.last]⟩,count_note,if_pos rfl,new]
    rfl
  refine ⟨DnsOrder.place addr.proto server {s.note addr with favorV4 := compare (s.note addr).v4Dns1 (s.note addr).v6Dns1 ≥ 0},
    ?_,?_,?_⟩
  · rw [orderServer,known]
    simp only [bind,Option.bind_some,turned]
  · rw [count_place]
    change (s.note addr).count proto = s.count proto
    rw [count_note,if_neg other]
    rfl
  · have inserts : DnsOrder.inserts {s.note addr with favorV4 := compare (s.note addr).v4Dns1 (s.note addr).v6Dns1 ≥ 0} addr.proto =
        Favored compare (s.note addr).v4Dns1 (s.note addr).v6Dns1 addr.proto := by
      cases addr <;> rfl
    have counted : DnsOrder.count
        {s.note addr with favorV4 := compare (s.note addr).v4Dns1 (s.note addr).v6Dns1 ≥ 0} addr.proto = 1 := by
      change (s.note addr).count addr.proto = 1
      rw [count_note,if_pos rfl,new]
    have ordered : (s.note addr).orderedServers = before := by
      rw [note_orderedServers,block.ordered,List.append_nil]
    cases favored : Favored compare (s.note addr).v4Dns1 (s.note addr).v6Dns1 addr.proto with
    | true =>
      apply inBlock_place []
      · exact ordered
      · intro _
        exact counted
      · intro back
        rw [inserts,favored] at back
        cases back
      · rw [counted]
        decide
    | false =>
      apply inBlock_place before []
      · simpa using ordered
      · intro front
        rw [inserts,favored] at front
        cases front
      · intro _
        rfl
      · rw [counted]
        decide

private theorem orderServer_mixed (block : InBlock s proto before after) (known : serverAddr os server = some addr)
    (other : addr.proto ≠ proto) (old : 0 < s.count addr.proto) (later : 0 < i) :
    orderServer os compare i server s = none := by
  have turned : (s.note addr).turn compare i addr.proto = none := by
    rw [DnsOrder.turn,if_pos ⟨later,by rwa [note_protoLast,block.last]⟩,count_note,if_pos rfl,if_neg (by omega)]
  rw [orderServer,known]
  simp only [bind,Option.bind_some,turned,Option.bind_none]

/-! ## The whole list -/

def AllOf (os : Platform) (proto : Proto) (servers : List CFString) : Prop :=
  ∀ server ∈ servers, serverProto os server = some proto

private theorem orderServers_unknown {servers : List CFString} (unknown : ∃ server ∈ servers, serverAddr os server = none)
    (i : Nat) (s : DnsOrder) : orderServers os compare servers i s = none := by
  induction servers generalizing i s with
  | nil => simp at unknown
  | cons server servers ih =>
    rw [orderServers]
    cases step : orderServer os compare i server s with
    | none => rfl
    | some s' =>
      apply ih
      obtain ⟨bad,member,none⟩ := unknown
      rcases List.mem_cons.mp member with rfl | later
      · simp [orderServer,none] at step
      · exact ⟨bad,later,none⟩

private theorem orderServers_block {servers : List CFString} (known : serverAddr os server = some addr)
    (same : AllOf os addr.proto servers) (rest : List CFString) :
    ∃ s', orderServers os compare (server::servers ++ rest) 0 .start =
        orderServers os compare rest (servers.length + 1) s' ∧
      InBlock s' addr.proto (server::servers) [] ∧ Settled (DnsOrder.start.note addr) s' ∧
      ∀ other ≠ addr.proto, s'.count other = 0 := by
  obtain ⟨s',step,block,settled,others⟩ := orderServer_first compare known
  obtain ⟨s'',run,block',settled',others'⟩ := orderServers_same compare block same 1 rest
  refine ⟨s'',?_,by simpa using block',settled.trans settled',fun other apart => ?_⟩
  · rw [List.cons_append,orderServers,step,Option.bind_some,run,Nat.add_comm]
  · rw [others' other apart,others other apart]

/-- What the two blocks begin with, whichever is the first. -/
structure Begins (v4 : IPv4Addr) (v6 : IPv6Addr) (first second : ServerAddr) : Prop where
  eq : first = .v4 v4 ∧ second = .v6 v6 ∨ first = .v6 v6 ∧ second = .v4 v4

theorem Begins.apart {v4 : IPv4Addr} {v6 : IPv6Addr} {first second : ServerAddr} (begins : Begins v4 v6 first second) :
    second.proto ≠ first.proto := by
  obtain ⟨⟨rfl,rfl⟩ | ⟨rfl,rfl⟩⟩ := begins
  · simp [ServerAddr.proto]
  · simp [ServerAddr.proto]

theorem Begins.noted {v4 : IPv4Addr} {v6 : IPv6Addr} {first second : ServerAddr} (begins : Begins v4 v6 first second)
    (settled : Settled (DnsOrder.start.note first) s) (new : s.count second.proto = 0) :
    (s.note second).v4Dns1 = v4 ∧ (s.note second).v6Dns1 = v6 := by
  obtain ⟨⟨rfl,rfl⟩ | ⟨rfl,rfl⟩⟩ := begins
  · exact ⟨settled.v4Dns1,if_pos new⟩
  · exact ⟨if_pos new,settled.v6Dns1⟩

private theorem exists_begins {first second : ServerAddr} (apart : second.proto ≠ first.proto) :
    ∃ v4 v6, Begins v4 v6 first second := by
  cases first with
  | v4 ia =>
    cases second with
    | v4 _ => exact absurd rfl apart
    | v6 ia6 => exact ⟨ia,ia6,⟨.inl ⟨rfl,rfl⟩⟩⟩
  | v6 ia6 =>
    cases second with
    | v4 ia => exact ⟨ia,ia6,⟨.inr ⟨rfl,rfl⟩⟩⟩
    | v6 _ => exact absurd rfl apart

section
variable {first second : ServerAddr} {x y : CFString} {xs ys : List CFString} {v4 : IPv4Addr} {v6 : IPv6Addr}

private theorem orderServers_blocks (begins : Begins v4 v6 first second) (knownX : serverAddr os x = some first)
    (sameX : AllOf os first.proto xs) (knownY : serverAddr os y = some second) (sameY : AllOf os second.proto ys)
    (rest : List CFString) :
    ∃ s' before after, orderServers os compare (x::xs ++ (y::ys ++ rest)) 0 .start =
        orderServers os compare rest (xs.length + 1 + 1 + ys.length) s' ∧
      InBlock s' second.proto before after ∧ 0 < s'.count first.proto ∧
      before ++ after = if Favored compare v4 v6 second.proto then y::ys ++ x::xs else x::xs ++ y::ys := by
  obtain ⟨s,run,block,settled,others⟩ := orderServers_block compare knownX sameX (y::ys ++ rest)
  have new := others second.proto begins.apart
  obtain ⟨s',step,counted,block'⟩ := orderServer_turn compare (i := xs.length+1) block knownY begins.apart new (by omega)
  obtain ⟨eq4,eq6⟩ := begins.noted settled new
  rw [eq4,eq6] at block'
  obtain ⟨s'',run',block'',-,others'⟩ := orderServers_same compare block' sameY (xs.length+1+1) rest
  refine ⟨s'',_,_,?_,block'',?_,?_⟩
  · rw [run,List.cons_append,orderServers,step,Option.bind_some,run']
  · rw [others' first.proto begins.apart.symm,counted]
    exact block.begun
  · split <;> simp

end

/-- A front of one family, up to a server of the other one. -/
theorem exists_block (proto : Proto) {servers : List CFString} (known : ∀ server ∈ servers, serverAddr os server ≠ none) :
    ∃ block rest, servers = block ++ rest ∧ AllOf os proto block ∧
      (rest = [] ∨ ∃ server addr rest', rest = server::rest' ∧ serverAddr os server = some addr ∧ addr.proto ≠ proto) := by
  induction servers with
  | nil => exact ⟨[],[],rfl,fun server member => absurd member List.not_mem_nil,.inl rfl⟩
  | cons server servers ih =>
    obtain ⟨first,later⟩ := List.forall_mem_cons.mp known
    obtain ⟨addr,parsed⟩ := Option.ne_none_iff_exists'.mp first
    rcases eq_or_ne addr.proto proto with same | other
    · obtain ⟨block,rest,rfl,all,rest_⟩ := ih later
      exact ⟨server::block,rest,rfl,List.forall_mem_cons.mpr ⟨by simp [serverProto,parsed,same],all⟩,rest_⟩
    · exact ⟨[],server::servers,rfl,fun server member => absurd member List.not_mem_nil,
        .inr ⟨server,addr,servers,rfl,parsed,other⟩⟩

inductive Arranged (os : Platform) (servers : List CFString) : Option (List CFString) → Prop
  | unknown (bad : ∃ server ∈ servers, serverAddr os server = none) : Arranged os servers none
  | single (proto : Proto) (all : AllOf os proto servers) : Arranged os servers (some servers)
  | double (x y : CFString) (xs ys : List CFString) (first second : ServerAddr) (v4 : IPv4Addr) (v6 : IPv6Addr)
      (split : servers = x::xs ++ y::ys) (begins : Begins v4 v6 first second) (knownX : serverAddr os x = some first)
      (sameX : AllOf os first.proto xs) (knownY : serverAddr os y = some second) (sameY : AllOf os second.proto ys) :
      Arranged os servers (some (if Favored compare v4 v6 second.proto then y::ys ++ x::xs else x::xs ++ y::ys))
  | mixed (x y z : CFString) (xs ys zs : List CFString) (proto : Proto) (split : servers = x::xs ++ (y::ys ++ z::zs))
      (knownX : AllOf os proto [x,z]) (knownY : (serverAddr os y).any (·.proto ≠ proto)) : Arranged os servers none

private theorem orderServers_arranged (servers : List CFString) :
    Arranged compare os servers (orderServers os compare servers 0 .start) := by
  by_cases bad : ∃ server ∈ servers, serverAddr os server = none
  · rw [orderServers_unknown compare bad]
    exact .unknown bad
  · have known : ∀ server ∈ servers, serverAddr os server ≠ none := fun server member none => bad ⟨server,member,none⟩
    cases servers with
    | nil => exact .single .ipv4 fun server member => absurd member List.not_mem_nil
    | cons x servers =>
      obtain ⟨first,knownX⟩ := Option.ne_none_iff_exists'.mp (known x List.mem_cons_self)
      obtain ⟨xs,rest,rfl,sameX,rest_⟩ := exists_block first.proto (List.forall_mem_cons.mp known).2
      rcases rest_ with rfl | ⟨y,second,rest,rfl,knownY,apart⟩
      · obtain ⟨s,run,block,-,-⟩ := orderServers_block compare knownX sameX []
        rw [← List.cons_append,run,orderServers,block.ordered]
        rw [List.append_nil]
        exact .single first.proto (List.forall_mem_cons.mpr ⟨by simp [serverProto,knownX],sameX⟩)
      · obtain ⟨v4,v6,begins⟩ := exists_begins apart
        have later : ∀ server ∈ rest, serverAddr os server ≠ none := fun server member => known server (by simp [member])
        obtain ⟨ys,rest,rfl,sameY,rest_⟩ := exists_block second.proto later
        obtain ⟨s,before,after,run,block,begun,ordered⟩ :=
          orderServers_blocks compare begins knownX sameX knownY sameY rest
        rw [← List.cons_append,← List.cons_append,run]
        rcases rest_ with rfl | ⟨z,third,rest,rfl,knownZ,apart'⟩
        · rw [orderServers,block.ordered,ordered,List.append_nil]
          exact .double x y xs ys first second v4 v6 rfl begins knownX sameX knownY sameY
        · have back : third.proto = first.proto := by
            cases third <;> cases second <;> cases first <;> simp_all [ServerAddr.proto]
          rw [orderServers,orderServer_mixed compare block knownZ apart' (by rwa [back]) (by omega)]
          refine .mixed x y z xs ys rest first.proto rfl ?_ (by simpa [knownY] using apart)
          exact List.forall_mem_cons.mpr ⟨by simp [serverProto,knownX],List.forall_mem_singleton.mpr (by simp [serverProto,knownZ,back])⟩

/-! ## What the caller gets -/

private theorem filter_same {servers : List CFString} (all : AllOf os proto servers) (other : Proto) :
    servers.filter (serverProto os · = some other) = if proto = other then servers else [] := by
  split
  · rename_i same
    rw [List.filter_eq_self]
    intro server member
    simp [all server member,same]
  · rename_i apart
    rw [List.filter_eq_nil_iff]
    intro server member
    simp [all server member,apart]

private theorem filter_swap {xs ys : List CFString} {proto' : Proto} (allX : AllOf os proto xs)
    (allY : AllOf os proto' ys)
    (apart : proto' ≠ proto) (other : Proto) :
    (ys ++ xs).filter (serverProto os · = some other) = (xs ++ ys).filter (serverProto os · = some other) := by
  rw [List.filter_append,List.filter_append,filter_same allX,filter_same allY]
  split
  · rename_i same
    rw [if_neg (same ▸ apart.symm)]
    simp
  · simp

/-- A server of one family is not between two of the other one. -/
theorem not_between {xs ys : List CFString} {proto' : Proto} (allX : AllOf os proto xs) (allY : AllOf os proto' ys)
    {a b c : CFString} (within : [a,b,c].Sublist (xs ++ ys)) :
    serverProto os a = serverProto os b ∨ serverProto os b = serverProto os c := by
  obtain ⟨front,back,split,inX,inY⟩ := List.sublist_append_iff.mp within
  cases front with
  | nil =>
    obtain rfl : [a,b,c] = back := split
    exact .inl ((allY a (inY.subset (by simp))).trans (allY b (inY.subset (by simp))).symm)
  | cons a' front =>
    rw [List.cons_append,List.cons.injEq] at split
    obtain ⟨rfl,split⟩ := split
    cases front with
    | nil =>
      obtain rfl : [b,c] = back := split
      exact .inr ((allY b (inY.subset (by simp))).trans (allY c (inY.subset (by simp))).symm)
    | cons b' front =>
      rw [List.cons_append,List.cons.injEq] at split
      obtain ⟨rfl,-⟩ := split
      exact .inl ((allX a (inX.subset (by simp))).trans (allX b (inX.subset (by simp))).symm)

section
variable {first second : ServerAddr} {x y : CFString} {xs ys : List CFString} {v4 : IPv4Addr} {v6 : IPv6Addr}

theorem AllOf.cons (known : serverAddr os x = some first) (same : AllOf os first.proto xs) :
    AllOf os first.proto (x::xs) :=
  List.forall_mem_cons.mpr ⟨by simp [serverProto,known],same⟩

private theorem orderServers_double (begins : Begins v4 v6 first second) (knownX : serverAddr os x = some first)
    (sameX : AllOf os first.proto xs) (knownY : serverAddr os y = some second) (sameY : AllOf os second.proto ys) :
    orderServers os compare (x::xs ++ y::ys) 0 .start =
      some (if Favored compare v4 v6 second.proto then y::ys ++ x::xs else x::xs ++ y::ys) := by
  obtain ⟨s,before,after,run,block,-,ordered⟩ := orderServers_blocks compare begins knownX sameX knownY sameY []
  rw [List.append_nil] at run
  rw [run,orderServers,block.ordered,ordered]

end

variable {compare} in
theorem Arranged.kept {servers : List CFString} {result : Option (List CFString)}
    (arranged : Arranged compare os servers result) :
    (result.getD servers).Perm servers ∧
      ∀ proto, (result.getD servers).filter (serverProto os · = some proto) = servers.filter (serverProto os · = some proto) := by
  cases arranged with
  | unknown bad => exact ⟨.refl _,fun proto => rfl⟩
  | single proto all => exact ⟨.refl _,fun proto => rfl⟩
  | mixed x y z xs ys zs proto split knownX knownY => exact ⟨.refl _,fun proto => rfl⟩
  | double x y xs ys first second v4 v6 split begins knownX sameX knownY sameY =>
    rw [Option.getD_some,split]
    split_ifs
    · exact ⟨List.perm_append_comm,filter_swap (.cons knownX sameX) (.cons knownY sameY) begins.apart⟩
    · exact ⟨.refl _,fun proto => rfl⟩

variable {compare} in
theorem Arranged.interleaved {servers : List CFString} {result : Option (List CFString)}
    (arranged : Arranged compare os servers result) {a b c : CFString} (within : [a,b,c].Sublist servers)
    (first : serverProto os a ≠ serverProto os b) (second : serverProto os b ≠ serverProto os c) :
    result.getD servers = servers := by
  cases arranged with
  | unknown bad => rfl
  | single proto all => rfl
  | mixed x y z xs ys zs proto split knownX knownY => rfl
  | double x y xs ys _ _ v4 v6 split begins knownX sameX knownY sameY =>
    rw [split] at within
    rcases not_between (.cons knownX sameX) (.cons knownY sameY) within with same | same
    · exact absurd same first
    · exact absurd same second

/-- With both protocols active the servers keep their order within each family, the favoured of two
blocks comes first, and a list of any other form stays as it is. -/
theorem orderDnsServers_ordered (os : Platform) (compare : IPv4Addr → IPv6Addr → Int) (servers : List CFString) :
    let ordered := orderDnsServers os compare servers ⟨true,true⟩
    (ordered.Perm servers ∧
      ∀ proto, ordered.filter (serverProto os · = some proto) = servers.filter (serverProto os · = some proto)) ∧
    (∀ x xs y ys v4 v6, serverAddr os x = some (.v4 v4) → AllOf os .ipv4 xs → serverAddr os y = some (.v6 v6) →
      AllOf os .ipv6 ys → servers = x::xs ++ y::ys ∨ servers = y::ys ++ x::xs →
      ordered = if compare v4 v6 ≥ 0 then x::xs ++ y::ys else y::ys ++ x::xs) ∧
    ((∃ server ∈ servers, serverAddr os server = none) → ordered = servers) ∧
    ((∃ a b c, [a,b,c].Sublist servers ∧ serverProto os a ≠ serverProto os b ∧ serverProto os b ≠ serverProto os c) →
      ordered = servers) ∧
    ∀ activeProtos, (activeProtos.ipv4 && activeProtos.ipv6) = false →
      orderDnsServers os compare servers activeProtos = servers := by
  have both : orderDnsServers os compare servers ⟨true,true⟩ = (orderServers os compare servers 0 .start).getD servers := rfl
  dsimp only
  rw [both]
  have arranged : Arranged compare os servers (orderServers os compare servers 0 .start) := orderServers_arranged compare servers
  refine ⟨arranged.kept,?_,?_,?_,?_⟩
  · intro x xs y ys v4 v6 knownX sameX knownY sameY split
    rcases split with rfl | rfl
    · rw [orderServers_double compare ⟨.inl ⟨rfl,rfl⟩⟩ knownX sameX knownY sameY]
      by_cases favored : compare v4 v6 ≥ 0 <;> simp [Favored,ServerAddr.proto,favored]
    · rw [orderServers_double compare ⟨.inr ⟨rfl,rfl⟩⟩ knownY sameY knownX sameX]
      by_cases favored : compare v4 v6 ≥ 0 <;> simp [Favored,ServerAddr.proto,favored]
  · intro unknown
    rw [orderServers_unknown compare unknown]
    rfl
  · rintro ⟨a,b,c,within,first,second⟩
    exact arranged.interleaved within first second
  · intro activeProtos inactive
    rw [orderDnsServers,if_pos]
    cases active : activeProtos.ipv4 <;> simp_all

def threeServers : Platform where
  ifNameToIndex _ := 0
  lo0Ifindex := 1
  inetPton4 text :=
    if text = "10.0.0.1".toList then some 0xa000001 else if text = "10.0.0.2".toList then some 0xa000002 else none
  inetPton6 text := if text = "fd00::1".toList then some (0xfd <<< 120 ||| 1) else none

theorem threeServers_ordered :
    orderDnsServers threeServers (fun _ _ => -1) ["10.0.0.1".toList,"10.0.0.2".toList,"fd00::1".toList] ⟨true,true⟩ =
      ["fd00::1".toList,"10.0.0.1".toList,"10.0.0.2".toList] := by
  have known1 : serverAddr threeServers "10.0.0.1".toList = some (.v4 0xa000001) := by decide
  have known2 : AllOf threeServers .ipv4 ["10.0.0.2".toList] := List.forall_mem_singleton.mpr (by decide)
  have known3 : serverAddr threeServers "fd00::1".toList = some (.v6 (0xfd <<< 120 ||| 1)) := by decide
  exact (orderDnsServers_ordered threeServers (fun _ _ => -1)
    ["10.0.0.1".toList,"10.0.0.2".toList,"fd00::1".toList]).2.1 _ _ _ [] _ _ known1 known2 known3
    (fun _ none => absurd none List.not_mem_nil) (.inl rfl)

end FreebsdLaunchd.IpMonitor
