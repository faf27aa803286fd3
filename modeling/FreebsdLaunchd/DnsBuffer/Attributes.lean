import FreebsdLaunchd.DnsBuffer.Expand

/-! The attributes that the calls put into a resolver, and where their data are. -/
namespace FreebsdLaunchd.DnsBuffer
open CData ByteMemory
open DnsConfiguration (DNS_RESOLVER_FLAGS_REQUEST_ALL_RECORDS)

/-! ## One attribute -/

theorem roundup_four (n : Nat) : roundup n 4 = (n+3)/4*4 := by
  have low : n &&& 3 = n % 4 := Nat.and_two_pow_sub_one_eq_mod n 2
  have high : n ||| 3 = n/4*4 + 3 := by
    apply Nat.eq_of_testBit_eq
    intro i
    have three : (3 : Nat) = 2^2-1 := rfl
    rw [Nat.testBit_or,show n/4*4+3 = 2^2*(n/4) + 3 by omega,Nat.testBit_two_pow_mul_add _ (by decide),three,
      Nat.testBit_two_pow_sub_one]
    by_cases small : i < 2
    · simp [small]
    · rw [if_neg small,show (4 : Nat) = 2^2 from rfl,Nat.testBit_div_two_pow,Nat.sub_add_cancel (by omega)]
      simp [small]
  simp only [roundup,show 4-1 = 3 from rfl,low,high]
  split <;> omega

def Attribute.field : Attribute → TextField ⊕ ListField
  | .text field _ => .inl field
  | .nameserver _ => .inr .nameserver
  | .search _ => .inr .search
  | .sortaddr _ => .inr .sortaddr

theorem fieldOf_type (a : Attribute) : fieldOf a.type = some a.field := by
  cases a with
  | text field t => cases field <;> rfl
  | nameserver sa => rfl
  | search t => rfl
  | sortaddr sa => rfl

theorem Attribute.type_lt (a : Attribute) : a.type < 256^4 := by
  unfold Attribute.type
  split <;> decide

def Attribute.bytes (a : Attribute) : Bytes := attributeBytes a.type a.data

@[simp] theorem attributeBytes_length (type : Nat) (data : Bytes) :
    (attributeBytes type data).length = attributeHeader + roundup data.length 4 := by
  have rounded := roundup_four data.length
  simp only [attributeBytes,List.length_append,bigEndian_length,List.length_replicate,attributeHeader]
  omega

theorem holds_attributeBytes {m : Memory} {p type : Nat} {data : Bytes} (holds : Holds m p (attributeBytes type data))
    (small : type < 256^4) (short : attributeHeader + roundup data.length 4 < 256^4) :
    loadBE m p 4 = type ∧ loadBE m (p+4) 4 = attributeHeader + roundup data.length 4 ∧ Holds m (p + attributeHeader) data := by
  rw [attributeBytes,holds_append,holds_append,holds_append] at holds
  obtain ⟨⟨first,second⟩,body,_⟩ := holds
  rw [List.length_append,bigEndian_length,bigEndian_length] at body
  rw [bigEndian_length] at second
  refine ⟨?_,?_,body⟩
  · rw [first.loadBE,Nat.mod_eq_of_lt small]
  · rw [second.loadBE,Nat.mod_eq_of_lt short]

/-! ## The attributes of a resolver -/

/-- Each attribute with the place of its data, from the place of the first attribute on. -/
def placed : Nat → List Attribute → List (Attribute × Nat)
  | _, [] => []
  | p, a::as => (a,p + attributeHeader)::placed (p + a.bytes.length) as

def attributesBytes (as : List Attribute) : Bytes := as.flatMap Attribute.bytes

@[simp] theorem attributesBytes_nil : attributesBytes [] = [] := rfl

@[simp] theorem attributesBytes_cons (a : Attribute) (as : List Attribute) :
    attributesBytes (a::as) = a.bytes ++ attributesBytes as := rfl

theorem attributesBytes_append (as bs : List Attribute) :
    attributesBytes (as ++ bs) = attributesBytes as ++ attributesBytes bs := List.flatMap_append

theorem placed_append (p : Nat) (as bs : List Attribute) :
    placed p (as ++ bs) = placed p as ++ placed (p + (attributesBytes as).length) bs := by
  induction as generalizing p with
  | nil => rfl
  | cons a as ih =>
    rw [List.cons_append,placed,placed,ih,attributesBytes_cons,List.length_append,List.cons_append,Nat.add_assoc]

theorem placed_fst (p : Nat) (as : List Attribute) : (placed p as).map Prod.fst = as := by
  induction as generalizing p with
  | nil => rfl
  | cons a as ih => rw [placed,List.map_cons,ih]

theorem placed_holds {m : Memory} {p : Nat} {as : List Attribute} (holds : Holds m p (attributesBytes as))
    (short : (attributesBytes as).length < 256^4) : ∀ b ∈ placed p as,
      p + attributeHeader ≤ b.2 ∧ b.2 + b.1.data.length ≤ p + (attributesBytes as).length ∧ Holds m b.2 b.1.data := by
  induction as generalizing p with
  | nil => nofun
  | cons a as ih =>
    rw [attributesBytes_cons,List.length_append] at short
    rw [attributesBytes_cons,holds_append] at holds
    obtain ⟨here,behind⟩ := holds
    have size : a.bytes.length = attributeHeader + roundup a.data.length 4 := attributeBytes_length a.type a.data
    have rounded := roundup_four a.data.length
    obtain ⟨_,_,body⟩ := holds_attributeBytes here a.type_lt (by omega)
    rw [placed,List.forall_mem_cons,attributesBytes_cons,List.length_append]
    refine ⟨⟨le_refl _,by dsimp only; omega,body⟩,?_⟩
    intro b member
    obtain ⟨first,last,there⟩ := ih behind (by omega) b member
    exact ⟨by omega,by omega,there⟩

def listBodies (f : ListField) (bs : List (Attribute × Nat)) : List Nat :=
  (bs.filter (·.1.field = .inr f)).map Prod.snd

def textBody (f : TextField) (bs : List (Attribute × Nat)) : Nat :=
  ((bs.filter (·.1.field = .inl f)).getLast?.map Prod.snd).getD 0

def countOf (f : ListField) (as : List Attribute) : Nat := (as.filter (·.field = .inr f)).length

theorem listBodies_length (f : ListField) (p : Nat) (as : List Attribute) :
    (listBodies f (placed p as)).length = countOf f as := by
  induction as generalizing p with
  | nil => rfl
  | cons a as ih =>
    simp only [listBodies,countOf,placed,List.length_map] at ih ⊢
    by_cases same : a.field = .inr f
    · simp [same,ih]
    · simp [same,ih]

/-! ## What the calls add -/

def ResolverCall.attribute : ResolverCall → Option Attribute
  | .addNameserver nameserver => some (.nameserver nameserver)
  | .addSearch search => some (.search search)
  | .addSortaddr sortaddr => some (.sortaddr sortaddr)
  | .setConfigurationIdentifier cid => some (.text .cid cid)
  | .setDomain domain => some (.text .domain domain)
  | .setIfIndex _ ifName => ifName.map (.text .ifName)
  | .setOptions options => some (.text .options options)
  | .setFlags _ | .setOrder _ | .setPort _ | .setServiceIdentifier _ | .setTimeout _ => none

def attributesOf (calls : List ResolverCall) : List Attribute := calls.filterMap ResolverCall.attribute

def ResolverBuf.count (r : ResolverBuf) : ListField → BitVec 32
  | .nameserver => r.nNameserver
  | .search => r.nSearch
  | .sortaddr => r.nSortaddr

/-- A loopback address sets the flags in any case. -/
theorem dnsResolverAddNameserver_eq (r : ResolverBuf) (sa : Sockaddr) :
    dnsResolverAddNameserver r sa =
      {dnsResolverAddAttribute {r with nNameserver := r.nNameserver + 1} (.nameserver sa) with
        flags := if sa.isLoopback then r.flags ||| DNS_RESOLVER_FLAGS_REQUEST_ALL_RECORDS else r.flags} := by
  have nonzero : DNS_RESOLVER_FLAGS_REQUEST_ALL_RECORDS ≠ 0#32 := by decide
  cases loopback : sa.isLoopback <;> simp [dnsResolverAddNameserver,dnsResolverAddAttribute,loopback,nonzero]

private theorem call_attributes (r : ResolverBuf) (c : ResolverCall) :
    (r.call c).attributes = r.attributes ++ attributesBytes c.attribute.toList := by
  cases c with
  | addNameserver sa =>
    simp [ResolverBuf.call,dnsResolverAddNameserver_eq,dnsResolverAddAttribute,ResolverCall.attribute,Attribute.bytes]
  | setIfIndex i name => cases name <;> simp [ResolverBuf.call,dnsResolverSetIfIndex,dnsResolverAddAttribute,ResolverCall.attribute,Attribute.bytes]
  | _ => simp [ResolverBuf.call,dnsResolverAddAttribute,ResolverCall.attribute,Attribute.bytes]

private theorem call_count (r : ResolverBuf) (c : ResolverCall) (f : ListField) :
    (r.call c).count f = r.count f + BitVec.ofNat 32 (countOf f c.attribute.toList) := by
  cases c with
  | addNameserver sa =>
    cases f <;>
      simp [ResolverBuf.call,dnsResolverAddNameserver_eq,dnsResolverAddAttribute,ResolverBuf.count,countOf,
        ResolverCall.attribute,Attribute.field]
  | setIfIndex i name =>
    cases name <;> cases f <;>
      simp [ResolverBuf.call,dnsResolverSetIfIndex,dnsResolverAddAttribute,ResolverBuf.count,countOf,ResolverCall.attribute,
        Attribute.field]
  | _ => cases f <;> simp [ResolverBuf.call,dnsResolverAddAttribute,ResolverBuf.count,countOf,ResolverCall.attribute,Attribute.field]

theorem countOf_append (f : ListField) (as bs : List Attribute) : countOf f (as ++ bs) = countOf f as + countOf f bs := by
  simp [countOf]

theorem attributesOf_snoc (calls : List ResolverCall) (c : ResolverCall) :
    attributesOf (calls ++ [c]) = attributesOf calls ++ c.attribute.toList := by
  cases given : c.attribute <;> simp [attributesOf,given]

theorem calls_snoc (calls : List ResolverCall) (c : ResolverCall) :
    ResolverBuf.calls (calls ++ [c]) = (ResolverBuf.calls calls).call c := by
  simp [ResolverBuf.calls]

/-- The buffer of a resolver has the attributes one behind the other, and the numbers of them. -/
theorem calls_buffer (calls : List ResolverCall) :
    (ResolverBuf.calls calls).attributes = attributesBytes (attributesOf calls) ∧
      ∀ f, (ResolverBuf.calls calls).count f = BitVec.ofNat 32 (countOf f (attributesOf calls)) := by
  induction calls using List.reverseRecOn with
  | nil => exact ⟨rfl,fun f => by cases f <;> rfl⟩
  | append_singleton calls c ih =>
    obtain ⟨attributes,count⟩ := ih
    rw [calls_snoc,attributesOf_snoc]
    refine ⟨?_,fun f => ?_⟩
    · rw [call_attributes,attributes,attributesBytes_append]
    · rw [call_count,count,countOf_append,BitVec.ofNat_add]

/-- Every element has an attribute of at least 8 bytes. -/
theorem countOf_le (as : List Attribute) :
    8 * (countOf .nameserver as + countOf .search as + countOf .sortaddr as) ≤ (attributesBytes as).length := by
  induction as with
  | nil => simp [countOf]
  | cons a as ih =>
    have size : a.bytes.length = attributeHeader + roundup a.data.length 4 := attributeBytes_length a.type a.data
    rw [attributeHeader] at size
    rw [attributesBytes_cons,List.length_append]
    cases a <;> simp [countOf,Attribute.field] at ih ⊢ <;> omega

end FreebsdLaunchd.DnsBuffer
