import FreebsdLaunchd.DnsBuffer.Resolvers

/-! What has been added to a resolver, and what is read of it in an expanded buffer. -/
namespace FreebsdLaunchd.DnsBuffer
open CData ByteMemory
open DnsConfiguration (DNS_RESOLVER_FLAGS_REQUEST_ALL_RECORDS)

/-! ## What is meant -/

structure Resolver where
  text : TextField → Option Bytes
  list : ListField → List Bytes
  port : BitVec 16
  timeout : BitVec 32
  searchOrder : BitVec 32
  ifIndex : BitVec 32
  flags : BitVec 32
  reachFlags : BitVec 32
  serviceIdentifier : BitVec 32

namespace Resolver

def created : Resolver := ⟨fun _ => none,fun _ => [],0,0,0,0,0,0,0⟩

def setText (r : Resolver) (f : TextField) (t : CString) : Resolver :=
  {r with text := Function.update r.text f (some t.bytes)}

def add (r : Resolver) (f : ListField) (bytes : Bytes) : Resolver :=
  {r with list := Function.update r.list f (r.list f ++ [bytes])}

def call (r : Resolver) : ResolverCall → Resolver
  | .addNameserver sa =>
    {r.add .nameserver sa.bytes with flags := if sa.isLoopback then r.flags ||| DNS_RESOLVER_FLAGS_REQUEST_ALL_RECORDS else r.flags}
  | .addSearch search => r.add .search search.bytes
  | .addSortaddr sortaddr => r.add .sortaddr sortaddr.bytes
  | .setConfigurationIdentifier cid => r.setText .cid cid
  | .setDomain domain => r.setText .domain domain
  | .setFlags flags => {r with flags}
  | .setIfIndex ifIndex ifName => {ifName.elim r (r.setText .ifName) with ifIndex}
  | .setOptions options => r.setText .options options
  | .setOrder order => {r with searchOrder := order}
  | .setPort port => {r with port}
  | .setServiceIdentifier serviceIdentifier => {r with serviceIdentifier}
  | .setTimeout timeout => {r with timeout}

def calls (calls : List ResolverCall) : Resolver := calls.foldl call created

end Resolver

def meant (reach : ResolverBuf → BitVec 32) (calls : List ResolverCall) : Resolver :=
  let r := Resolver.calls calls
  if r.list .nameserver = [] then r else {r with reachFlags := reach (.calls calls)}

def Attribute.value : Attribute → Bytes
  | .text _ t => t.bytes
  | .nameserver sa => sa.bytes
  | .search domain => domain.bytes
  | .sortaddr sa => sa.bytes

def textOf (f : TextField) (as : List Attribute) : Option Bytes :=
  (as.filter (·.field = .inl f)).getLast?.map Attribute.value

def listOf (f : ListField) (as : List Attribute) : List Bytes := (as.filter (·.field = .inr f)).map Attribute.value

/-- The resolver that a buffer with these attributes stands for. -/
structure Meant (r : ResolverBuf) (as : List Attribute) (R : Resolver) : Prop where
  text : ∀ f, R.text f = textOf f as
  list : ∀ f, R.list f = listOf f as
  port : R.port = r.port
  timeout : R.timeout = r.timeout
  searchOrder : R.searchOrder = r.searchOrder
  ifIndex : R.ifIndex = r.ifIndex
  flags : R.flags = r.flags
  reachFlags : R.reachFlags = r.reachFlags
  serviceIdentifier : R.serviceIdentifier = r.serviceIdentifier

variable {m m' : Memory} {o p padding limit : Nat} {r : ResolverBuf} {R : Resolver} {as : List Attribute}
variable {calls : List ResolverCall} {reach : ResolverBuf → BitVec 32}

@[simp] theorem textOf_snoc (f : TextField) (as : List Attribute) (a : Attribute) :
    textOf f (as ++ [a]) = if a.field = .inl f then some a.value else textOf f as := by
  by_cases same : a.field = .inl f
  · simp [textOf,same]
  · simp [textOf,same]

@[simp] theorem listOf_snoc (f : ListField) (as : List Attribute) (a : Attribute) :
    listOf f (as ++ [a]) = if a.field = .inr f then listOf f as ++ [a.value] else listOf f as := by
  by_cases same : a.field = .inr f
  · simp [listOf,same]
  · simp [listOf,same]

private theorem listOf_length (f : ListField) (as : List Attribute) : (listOf f as).length = countOf f as := by
  simp [listOf,countOf]

theorem Meant.setText (means : Meant r as R) (f : TextField) (t : CString) :
    Meant (dnsResolverAddAttribute r (.text f t)) (as ++ [.text f t]) (R.setText f t) := by
  obtain ⟨text,list,port,timeout,searchOrder,ifIndex,flags,reachFlags,serviceIdentifier⟩ := means
  refine ⟨?_,?_,port,timeout,searchOrder,ifIndex,flags,reachFlags,serviceIdentifier⟩
  · intro g
    rw [Resolver.setText,textOf_snoc]
    by_cases same : g = f
    · subst same
      simp [Attribute.field,Attribute.value]
    · simp [Attribute.field,same,Ne.symm same,text]
  · intro g
    rw [listOf_snoc]
    simp [Resolver.setText,Attribute.field,list]

theorem Meant.add (means : Meant r as R) {f : ListField} {a : Attribute} (field : a.field = .inr f) :
    Meant (dnsResolverAddAttribute r a) (as ++ [a]) (R.add f a.value) := by
  obtain ⟨text,list,port,timeout,searchOrder,ifIndex,flags,reachFlags,serviceIdentifier⟩ := means
  refine ⟨?_,?_,port,timeout,searchOrder,ifIndex,flags,reachFlags,serviceIdentifier⟩
  · intro g
    rw [textOf_snoc]
    simp [Resolver.add,field,text]
  · intro g
    rw [Resolver.add,listOf_snoc,field]
    by_cases same : g = f
    · subst same
      simp [list]
    · simp [same,Ne.symm same,list]

/-- The numbers of elements do not matter to what is meant. -/
theorem Meant.call (means : Meant r as R) (c : ResolverCall) :
    Meant (r.call c) (as ++ c.attribute.toList) (R.call c) := by
  cases c with
  | addNameserver sa =>
    have added := means.add (a := .nameserver sa) rfl
    rw [ResolverBuf.call,dnsResolverAddNameserver_eq]
    exact {added with
      flags := by
        show (if sa.isLoopback then R.flags ||| _ else R.flags) = _
        rw [means.flags] }
  | addSearch t => exact {means.add (a := .search t) rfl with }
  | addSortaddr sa => exact {means.add (a := .sortaddr sa) rfl with }
  | setConfigurationIdentifier t => exact means.setText .cid t
  | setDomain t => exact means.setText .domain t
  | setOptions t => exact means.setText .options t
  | setIfIndex i name =>
    cases name with
    | none =>
      simp only [ResolverCall.attribute,Option.map_none,Option.toList_none,List.append_nil]
      exact {means with ifIndex := rfl}
    | some t => exact {means.setText .ifName t with ifIndex := rfl}
  | setFlags flags =>
    simp only [ResolverCall.attribute,Option.toList_none,List.append_nil]
    exact {means with flags := rfl}
  | setOrder order =>
    simp only [ResolverCall.attribute,Option.toList_none,List.append_nil]
    exact {means with searchOrder := rfl}
  | setPort port =>
    simp only [ResolverCall.attribute,Option.toList_none,List.append_nil]
    exact {means with port := rfl}
  | setServiceIdentifier identifier =>
    simp only [ResolverCall.attribute,Option.toList_none,List.append_nil]
    exact {means with serviceIdentifier := rfl}
  | setTimeout timeout =>
    simp only [ResolverCall.attribute,Option.toList_none,List.append_nil]
    exact {means with timeout := rfl}

/-- The buffer that the calls fill stands for what they mean. -/
theorem calls_meant (calls : List ResolverCall) : Meant (.calls calls) (attributesOf calls) (.calls calls) := by
  induction calls using List.reverseRecOn with
  | nil => exact ⟨fun _ => rfl,fun _ => rfl,rfl,rfl,rfl,rfl,rfl,rfl,rfl⟩
  | append_singleton calls c ih =>
    rw [calls_snoc,attributesOf_snoc,Resolver.calls,List.foldl_append]
    exact ih.call c

theorem ready_meant (describes : Describes (dnsResolverSetReachFlags reach (.calls calls)) (attributesOf calls)) :
    Meant (dnsResolverSetReachFlags reach (.calls calls)) (attributesOf calls) (meant reach calls) := by
  have means := calls_meant calls
  have none : (Resolver.calls calls).list .nameserver = [] ↔ (ResolverBuf.calls calls).nNameserver = 0 := by
    have same : (dnsResolverSetReachFlags reach (.calls calls)).nNameserver = (ResolverBuf.calls calls).nNameserver := by
      unfold dnsResolverSetReachFlags
      split <;> rfl
    have counted : (ResolverBuf.calls calls).nNameserver.toNat = countOf .nameserver (attributesOf calls) := by
      rw [← same]
      exact describes.count .nameserver
    rw [means.list,← List.length_eq_zero_iff,listOf_length,← counted,BitVec.toNat_eq]
    rfl
  unfold meant dnsResolverSetReachFlags
  by_cases empty : (Resolver.calls calls).list .nameserver = []
  · rw [if_neg (not_not.mpr (none.mp empty))]
    simp only [if_pos empty]
    exact means
  · rw [if_pos (fun zero => empty (none.mpr zero))]
    simp only [if_neg empty]
    exact {means with reachFlags := rfl}

/-! ## What is read -/

/-- The text behind a pointer, if there is one; the outer option is whether it ends in the buffer. -/
def readText (m : Memory) (limit resolver : Nat) (f : TextField) : Option (Option Bytes) :=
  let p := loadLE m (resolver + f.offset) pointer
  if p = 0 then some none else (textAt m limit p).map some

def readElement (m : Memory) (limit : Nat) (f : ListField) (p : Nat) : Option Bytes :=
  match f with
  | .nameserver => some (read m p (m p).toNat)
  | .search => textAt m limit p
  | .sortaddr => some (read m p 8)

/-- Who reads the expanded resolver gets `R`. -/
structure Shows (m : Memory) (limit resolver : Nat) (R : Resolver) : Prop where
  text : ∀ f, readText m limit resolver f = some (R.text f)
  count : ∀ f : ListField, loadLE m (resolver + f.count) 4 = (R.list f).length
  element : ∀ (f : ListField) i bytes, (R.list f)[i]? = some bytes →
    readElement m limit f (loadLE m (loadLE m (resolver + f.list) pointer + pointer * i) pointer) = some bytes
  port : loadLE m (resolver + ResolverAt.port) 2 = R.port.toNat
  timeout : loadLE m (resolver + ResolverAt.timeout) 4 = R.timeout.toNat
  searchOrder : loadLE m (resolver + ResolverAt.searchOrder) 4 = R.searchOrder.toNat
  ifIndex : loadLE m (resolver + ResolverAt.ifIndex) 4 = R.ifIndex.toNat
  flags : loadLE m (resolver + ResolverAt.flags) 4 = R.flags.toNat
  reachFlags : loadLE m (resolver + ResolverAt.reachFlags) 4 = R.reachFlags.toNat
  serviceIdentifier : loadLE m (resolver + ResolverAt.serviceIdentifier) 4 = R.serviceIdentifier.toNat

/-- The attributes end with the name of an interface that fills its bytes, without a terminator. -/
def EndsBare (as : List Attribute) : Prop :=
  ∃ name, as.getLast? = some (.text .ifName name) ∧ name.bytes.length % 4 = 0

/-! ## Terminators -/

theorem attributeBytes_head {m : Memory} {type : Nat} {data : Bytes} (small : type < 256)
    (holds : Holds m p (attributeBytes type data)) :
    m p = 0 := by
  have bound : 0 < (attributeBytes type data).length := by
    rw [attributeBytes_length,attributeHeader]
    omega
  have byte := holds_iff.mp holds 0 bound
  have first : (attributeBytes type data)[0] = 0 := by
    have zero : type / 256 / 256 / 256 = 0 := by omega
    simp [attributeBytes,bigEndian,littleEndian,zero]
  exact byte.trans first

/-- Behind the data there is a zero byte, unless they end where the attributes end. -/
theorem placed_terminated (holds : Holds m p (attributesBytes as)) : ∀ b ∈ placed p as,
    m (b.2 + b.1.data.length) = 0 ∨ b.2 + b.1.data.length = p + (attributesBytes as).length ∧
      as.getLast? = some b.1 ∧ b.1.data.length % 4 = 0 := by
  induction as generalizing p with
  | nil => nofun
  | cons a as ih =>
    rw [attributesBytes_cons,holds_append] at holds
    obtain ⟨here,behind⟩ := holds
    have size : a.bytes.length = attributeHeader + roundup a.data.length 4 := attributeBytes_length a.type a.data
    have rounded := roundup_four a.data.length
    rw [placed,List.forall_mem_cons,attributesBytes_cons,List.length_append]
    refine ⟨?_,?_⟩
    · dsimp only
      by_cases full : a.data.length % 4 = 0
      · have next : p + attributeHeader + a.data.length = p + a.bytes.length := by omega
        cases as with
        | nil =>
          right
          exact ⟨by simpa using next,rfl,full⟩
        | cons a' as =>
          left
          rw [next]
          have small : a'.type < 256 := by
            unfold Attribute.type
            split <;> decide
          rw [attributesBytes_cons,holds_append] at behind
          exact attributeBytes_head small behind.1
      · left
        rw [Attribute.bytes,attributeBytes,holds_append,holds_append] at here
        have filled := (holds_append.mp here.2).2
        have some : 0 < (List.replicate (roundup a.data.length 4 - a.data.length) (0 : UInt8)).length := by
          rw [List.length_replicate]
          omega
        have byte := holds_iff.mp filled 0 some
        simpa [attributeHeader] using byte
    · intro b member
      rcases ih behind b member with zero | ⟨last,final,full⟩
      · exact .inl zero
      · refine .inr ⟨by omega,?_,full⟩
        cases as with
        | nil => cases member
        | cons a' as => rwa [List.getLast?_cons_cons]

/-- The texts and the elements where their attributes are. -/
theorem filter_placed (P : Attribute → Bool) (p : Nat) (as : List Attribute) :
    ((placed p as).filter fun b => P b.1).map Prod.fst = as.filter P := by
  conv_rhs => rw [← placed_fst p as]
  rw [List.filter_map]
  rfl

private theorem textAt_of_terminated {bytes : Bytes} (holds : Holds m p bytes) (zero : m (p + bytes.length) = 0)
    (noNul : 0 ∉ bytes) (inside : p + bytes.length < limit) : textAt m limit p = some bytes := by
  refine textAt_of_holds (holds_append.mpr ⟨holds,?_⟩) noNul inside
  rw [holds_iff]
  intro i one
  obtain rfl : i = 0 := by simpa using one
  simpa using zero

/-- The last text of its kind is read, unless it is a name of an interface at the end of the resolver
that goes on into what is behind it. -/
theorem expanded_text (expanded : Expanded m o padding r as) (holds : Holds m (o + resolverHeader) (attributesBytes as))
    (short : (attributesBytes as).length < 2^31) (inside : o + resolverHeader + (attributesBytes as).length < limit)
    (f : TextField) (ended : EndsBare as → f = .ifName → m (o + resolverHeader + (attributesBytes as).length) = 0) :
    readText m limit o f = some (textOf f as) := by
  have known := filter_placed (fun a => a.field = .inl f) (o + resolverHeader) as
  rw [readText,expanded.text f,textBody,textOf,← known,List.getLast?_map]
  cases last : ((placed (o + resolverHeader) as).filter fun b => b.1.field = .inl f).getLast? with
  | none => simp
  | some b =>
    obtain ⟨member,field⟩ := List.mem_filter.mp (List.mem_of_getLast? last)
    have field : b.1.field = .inl f := by simpa using field
    obtain ⟨low,high,there⟩ := placed_holds holds (by omega) b member
    have nonzero : b.2 ≠ 0 := by
      rw [attributeHeader] at low
      omega
    have terminated := placed_terminated holds b member
    simp only [Option.map_some,Option.getD_some,if_neg nonzero]
    obtain ⟨a,body⟩ := b
    cases a with
    | nameserver sa => cases field
    | search t => cases field
    | sortaddr sa => cases field
    | text g t =>
      obtain rfl := Sum.inl.inj field
      have read : textAt m limit body = some t.bytes := by
        cases g with
        | ifName =>
          refine textAt_of_terminated there ?_ t.noNul (Nat.lt_of_le_of_lt high inside)
          rcases terminated with zero | ⟨final,latest,full⟩
          · exact zero
          · have zero := ended ⟨t,latest,full⟩ rfl
            rw [← final] at zero
            exact zero
        | domain => exact textAt_of_holds there t.noNul (by simp [Attribute.data] at high; omega)
        | options => exact textAt_of_holds there t.noNul (by simp [Attribute.data] at high; omega)
        | cid => exact textAt_of_holds there t.noNul (by simp [Attribute.data] at high; omega)
      rw [read]
      rfl

private theorem expanded_element (expanded : Expanded m o padding r as)
    (holds : Holds m (o + resolverHeader) (attributesBytes as))
    (short : (attributesBytes as).length < 2^31) (inside : o + resolverHeader + (attributesBytes as).length < limit)
    {f : ListField} {i : Nat} {bytes : Bytes} (known : (listOf f as)[i]? = some bytes) :
    readElement m limit f (loadLE m (loadLE m (o + f.list) pointer + pointer * i) pointer) = some bytes := by
  have counted := (List.getElem?_eq_some_iff.mp known).1
  rw [listOf_length] at counted
  rw [expanded.list f (by omega)]
  rw [listOf,← filter_placed (fun a => a.field = .inr f) (o + resolverHeader) as,List.getElem?_map,List.getElem?_map] at known
  obtain ⟨a,paired,rfl⟩ := Option.map_eq_some_iff.mp known
  obtain ⟨b,found,rfl⟩ := Option.map_eq_some_iff.mp paired
  obtain ⟨member,field⟩ := List.mem_filter.mp (List.mem_of_getElem? found)
  have field : b.1.field = .inr f := by simpa using field
  have slot : (listBodies f (placed (o + resolverHeader) as))[i]? = some b.2 := by
    rw [listBodies,List.getElem?_map,found]
    rfl
  obtain ⟨_,high,there⟩ := placed_holds holds (by omega) b member
  rw [expanded.slot f i b.2 slot]
  obtain ⟨a,body⟩ := b
  cases a with
  | text g t => cases field
  | nameserver sa =>
    obtain rfl := Sum.inr.inj field
    have some : 0 < sa.bytes.length := List.length_pos_of_ne_nil sa.nonempty
    have first : m body = sa.bytes.headD 0 := by
      have byte := holds_iff.mp there 0 some
      rw [Nat.add_zero] at byte
      rw [byte]
      simp only [Attribute.data,List.headD_eq_head?_getD,List.head?_eq_getElem?,List.getElem?_eq_getElem some,Option.getD_some]
    simp only [readElement,first,sa.saLen]
    exact congrArg _ there
  | search t =>
    obtain rfl := Sum.inr.inj field
    have ends : body + t.bytes.length < limit := by
      simp only [Attribute.data,List.length_append] at high
      omega
    exact textAt_of_holds there t.noNul ends
  | sortaddr sa =>
    obtain rfl := Sum.inr.inj field
    simp only [Holds,Attribute.data,sa.size] at there
    exact congrArg _ there

/-- A resolver that has been expanded shows what it stands for. -/
theorem Expanded.shows (expanded : Expanded m o padding r as) (means : Meant r as R)
    (holds : Holds m (o + resolverHeader) (attributesBytes as)) (short : (attributesBytes as).length < 2^31)
    (inside : o + resolverHeader + (attributesBytes as).length < limit)
    (ended : EndsBare as → m (o + resolverHeader + (attributesBytes as).length) = 0) : Shows m limit o R where
  text f := by
    rw [means.text]
    exact expanded_text expanded holds short inside f fun bare _ => ended bare
  count f := by
    rw [means.list,listOf_length]
    exact expanded.count f
  element f i bytes known := by
    rw [means.list] at known
    exact expanded_element expanded holds short inside known
  port := by rw [means.port,expanded.port]
  timeout := by rw [means.timeout,expanded.timeout]
  searchOrder := by rw [means.searchOrder,expanded.searchOrder]
  ifIndex := by rw [means.ifIndex,expanded.ifIndex]
  flags := by rw [means.flags,expanded.flags]
  reachFlags := by rw [means.reachFlags,expanded.reachFlags]
  serviceIdentifier := by rw [means.serviceIdentifier,expanded.serviceIdentifier]

/-- Else the name is not read, but something longer if anything. -/
theorem Expanded.not_shows (expanded : Expanded m o padding r as) (means : Meant r as R)
    (holds : Holds m (o + resolverHeader) (attributesBytes as)) (short : (attributesBytes as).length < 2^31)
    (bare : EndsBare as) (nonzero : m (o + resolverHeader + (attributesBytes as).length) ≠ 0) : ¬ Shows m limit o R := by
  intro shows
  obtain ⟨name,latest,full⟩ := bare
  obtain ⟨init,rfl⟩ := List.getLast?_eq_some_iff.mp latest
  have pointed := expanded.text .ifName
  have read := shows.text .ifName
  have size : (Attribute.text .ifName name).bytes.length = attributeHeader + roundup name.bytes.length 4 :=
    attributeBytes_length _ _
  have rounded := roundup_four name.bytes.length
  have field : (Attribute.text .ifName name).field = .inl .ifName := rfl
  rw [placed_snoc,textBody_snoc,if_pos field] at pointed
  rw [means.text,textOf_snoc,if_pos field,readText,pointed] at read
  rw [attributesBytes_append,List.length_append,attributesBytes_cons,attributesBytes_nil,List.append_nil] at nonzero
  rw [if_neg (by rw [attributeHeader]; omega),Option.map_eq_some_iff] at read
  obtain ⟨bytes,found,same⟩ := read
  obtain rfl := Option.some.inj same
  have zero := textAt_terminated found
  simp only [Attribute.value] at zero
  refine nonzero ?_
  rw [← zero]
  exact congrArg m (by omega)

end FreebsdLaunchd.DnsBuffer
