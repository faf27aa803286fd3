import FreebsdLaunchd.DnsBuffer.Gathering

/-! A whole configuration: what the calls have built is accepted and expanded. -/
namespace FreebsdLaunchd.DnsBuffer
open CData ByteMemory

variable {m : Memory} {config n fuel : Nat} {c : ConfigBuf} {es : List Entry}

/-! ## The header -/

structure ConfigHeader (m : Memory) (config : Nat) (c : ConfigBuf) : Prop where
  count : ∀ k : ResolverKind, loadBE m (config + k.count) 4 = (c.count k).toNat
  generation : loadLE m (config + ConfigAt.generation) 8 = c.generation.toNat
  version : loadLE m (config + ConfigAt.version) 4 = c.version.toNat
  nAttribute : loadBE m (config + ConfigAt.nAttribute) 4 = c.attributes.length % 2^32
  nPadding : loadBE m (config + ConfigAt.nPadding) 4 = c.nPadding.toNat
  attributes : Holds m (config + configHeader) c.attributes

theorem configHeader_of_holds (holds : Holds m config (configBytes c)) : ConfigHeader m config c := by
  have two (w : Nat) : (zeros w).length = w := List.length_replicate
  have host {a w : Nat} {x : BitVec (8*w)} (holds : Holds m a (littleEndian w x.toNat)) : loadLE m a w = x.toNat := by
    have bound : x.toNat < 256^w := by
      have := x.isLt
      rwa [Nat.pow_mul] at this
    rw [holds.loadLE,Nat.mod_eq_of_lt bound]
  simp only [configBytes,holds_append,bigEndian_length,littleEndian_length,two,Nat.add_assoc,Nat.reduceAdd] at holds
  obtain ⟨first,_,second,_,generation,third,_,version,nAttribute,nPadding,attributes⟩ := holds
  refine ⟨?_,host (w := 8) generation,host (w := 4) version,nAttribute.loadBE,holds_number (w := 4) nPadding,attributes⟩
  intro k
  cases k
  · exact holds_number (w := 4) first
  · exact holds_number (w := 4) second
  · exact holds_number (w := 4) third

def configInitialized (config : Nat) (lists : ResolverKind → Nat) (m : Memory) : Memory :=
  let m := storeLE (convert m (config + ResolverKind.plain.count) 4) (config + ResolverKind.plain.list) pointer (lists .plain)
  let m := storeLE (convert m (config + ResolverKind.scoped.count) 4) (config + ResolverKind.scoped.list) pointer (lists .scoped)
  storeLE (convert m (config + ResolverKind.serviceSpecific.count) 4) (config + ResolverKind.serviceSpecific.list) pointer
    (lists .serviceSpecific)

/-- The header is in the order of the host, with the pointers to the lists. -/
structure ConfigInitialized (m : Memory) (config : Nat) (lists : ResolverKind → Nat) (c : ConfigBuf) : Prop where
  count : ∀ k : ResolverKind, loadLE m (config + k.count) 4 = (c.count k).toNat
  list : ∀ k : ResolverKind, loadLE m (config + k.list) pointer = lists k
  generation : loadLE m (config + ConfigAt.generation) 8 = c.generation.toNat
  version : loadLE m (config + ConfigAt.version) 4 = c.version.toNat

private theorem configInitialized_spec (header : ConfigHeader m config c)
    {lists : ResolverKind → Nat} (fits : ∀ k, lists k < 2^64) :
    ConfigInitialized (configInitialized config lists m) config lists c := by
  have small (k : ResolverKind) : lists k % 256^8 = lists k := Nat.mod_eq_of_lt (fits k)
  have first := header.count .plain
  have second := header.count .scoped
  have third := header.count .serviceSpecific
  have generation := header.generation
  have version := header.version
  simp only [ResolverKind.count,ConfigAt.generation,ConfigAt.version] at first second third generation version
  refine ⟨?_,?_,?_,?_⟩
  · intro k
    cases k <;>
      simp (disch := omega) only [configInitialized,ResolverKind.count,ResolverKind.list,pointer,loadLE_convert,
        loadLE_convert_apart,loadBE_convert_apart,loadLE_storeLE_apart,loadBE_storeLE_apart,first,second,third]
  · intro k
    cases k <;>
      simp (disch := omega) only [configInitialized,ResolverKind.count,ResolverKind.list,pointer,loadLE_storeLE,
        loadLE_convert_apart,loadLE_storeLE_apart,small]
  · simp (disch := omega) only [configInitialized,ResolverKind.count,ResolverKind.list,ConfigAt.generation,pointer,
      loadLE_convert_apart,loadLE_storeLE_apart,generation]
  · simp (disch := omega) only [configInitialized,ResolverKind.count,ResolverKind.list,ConfigAt.version,pointer,
      loadLE_convert_apart,loadLE_storeLE_apart,version]

private theorem configInitialized_agree (config : Nat) (lists : ResolverKind → Nat) (m : Memory) {lo hi : Nat}
    (apart : config + 48 ≤ lo) : Agree m (configInitialized config lists m) lo hi := by
  have stored {m' : Memory} (before : Agree m m' lo hi) {a w n : Nat} (inside : a + w ≤ config + 48) :
      Agree m (storeLE m' a w n) lo hi := before.trans (agree_storeLE (by omega))
  simp only [configInitialized,convert,ResolverKind.count,ResolverKind.list,pointer]
  repeat' first
    | exact Agree.refl m lo hi
    | refine stored ?_ (by omega)

/-! ## The configuration -/

/-- The buffer of a configuration, with its entries and the numbers of them. -/
structure ConfigDescribes (c : ConfigBuf) (es : List Entry) : Prop where
  attributes : c.attributes = entriesBytes es
  count : ∀ k, (c.count k).toNat = kindCount k es
  nPadding : c.nPadding.toNat = pointer * es.length + pointer * entriesElements es
  short : (entriesBytes es).length < 2^29

/-- The list is NULL if it is to have no elements. -/
def kindListAt (config : Nat) (es : List Entry) (k : ResolverKind) : Nat :=
  if kindCount k es = 0 then 0 else kindStart (listsOf config es) es k

private theorem bufferExpand_eq (describes : ConfigDescribes c es) (header : ConfigHeader m config c) :
    bufferExpand fuel config m =
      (gatherResolvers fuel config ⟨⟨configInitialized config (kindListAt config es) m,roomOf config es,
        pointer * entriesElements es⟩,config + configHeader,(entriesBytes es).length,fun _ => 0⟩).bind fun s =>
      if s.found .plain ≠ loadLE s.memory (config + ResolverKind.plain.count) 4 then .null
      else if s.found .scoped ≠ loadLE s.memory (config + ResolverKind.scoped.count) 4 then .null
      else if s.found .serviceSpecific ≠ loadLE s.memory (config + ResolverKind.serviceSpecific.count) 4 then .null
      else .done s.toExpansion := by
  have short := describes.short
  have few := length_le_fuel es
  have all := kindCount_le es
  have counts (k : ResolverKind) := (header.count k).trans (describes.count k)
  have nAttribute : loadBE m (config + ConfigAt.nAttribute) 4 = (entriesBytes es).length := by
    rw [header.nAttribute,describes.attributes]
    omega
  have nPadding := header.nPadding.trans describes.nPadding
  have first := counts .plain
  rw [bufferExpand]
  simp only [nAttribute,nPadding]
  rw [initList_done first (by simp only [pointer]; omega) (by simp only [pointer]; omega),Outcome.bind_done]
  generalize listed : storeLE (convert m (config + ResolverKind.plain.count) 4) (config + ResolverKind.plain.list) pointer
    (if kindCount .plain es = 0 then 0 else config + configHeader + (entriesBytes es).length) = m₁
  have second : loadBE m₁ (config + ResolverKind.scoped.count) 4 = kindCount .scoped es := by
    subst listed
    simp (disch := omega) only [ResolverKind.count,ResolverKind.list,pointer,loadBE_convert_apart,loadBE_storeLE_apart]
    exact counts .scoped
  rw [initList_done second (by simp only [pointer]; omega) (by simp only [pointer]; omega),Outcome.bind_done]
  generalize listed' : storeLE (convert m₁ (config + ResolverKind.scoped.count) 4) (config + ResolverKind.scoped.list) pointer
    (if kindCount .scoped es = 0 then 0
      else config + configHeader + (entriesBytes es).length + pointer * kindCount .plain es) = m₂
  have third : loadBE m₂ (config + ResolverKind.serviceSpecific.count) 4 = kindCount .serviceSpecific es := by
    subst listed' listed
    simp (disch := omega) only [ResolverKind.count,ResolverKind.list,pointer,loadBE_convert_apart,loadBE_storeLE_apart]
    exact counts .serviceSpecific
  rw [initList_done third (by simp only [pointer]; omega) (by simp only [pointer]; omega),Outcome.bind_done]
  have same : storeLE (convert m₂ (config + ResolverKind.serviceSpecific.count) 4) (config + ResolverKind.serviceSpecific.list)
      pointer (if kindCount .serviceSpecific es = 0 then 0 else config + configHeader + (entriesBytes es).length +
        pointer * kindCount .plain es + pointer * kindCount .scoped es) =
      configInitialized config (kindListAt config es) m := by
    subst listed' listed
    simp only [configInitialized,kindListAt,kindStart,listsOf,Nat.mul_add,Nat.add_assoc]
  have padding : config + configHeader + (entriesBytes es).length + pointer * kindCount .plain es + pointer * kindCount .scoped es +
      pointer * kindCount .serviceSpecific es = roomOf config es := by
    simp only [roomOf,listsOf,pointer]
    omega
  have left : pointer * es.length + pointer * entriesElements es - pointer * kindCount .plain es - pointer * kindCount .scoped es -
      pointer * kindCount .serviceSpecific es = pointer * entriesElements es := by
    simp only [pointer]
    omega
  simp only [same,padding,left]

/-- A configuration after it has been expanded: its header, its lists and its resolvers; the
other bytes of the attributes are as they were. -/
structure ConfigExpanded (m m' : Memory) (config : Nat) (c : ConfigBuf) (es : List Entry) : Prop where
  count : ∀ k : ResolverKind, loadLE m' (config + k.count) 4 = kindCount k es
  list : ∀ k : ResolverKind, kindCount k es ≠ 0 →
    loadLE m' (config + k.list) pointer = kindStart (listsOf config es) es k
  generation : loadLE m' (config + ConfigAt.generation) 8 = c.generation.toNat
  version : loadLE m' (config + ConfigAt.version) 4 = c.version.toNat
  slot : ∀ k i address, (addresses k (located (config + configHeader) (roomOf config es) es))[i]? = some address →
    loadLE m' (kindStart (listsOf config es) es k + pointer * i) pointer = address
  expanded : ∀ l ∈ located (config + configHeader) (roomOf config es) es,
    Expanded m' l.address l.padding l.entry.resolver l.entry.attributes
  same : ∀ x, config + configHeader ≤ x → x < listsOf config es →
    (∀ l ∈ located (config + configHeader) (roomOf config es) es, x < l.address ∨ l.address + 96 ≤ x) → m' x = m x

/-- The configuration is expanded, and the padding is used up. -/
theorem bufferExpand_expanded (describes : ConfigDescribes c es) (holds : Holds m config (configBytes c))
    (top : roomOf config es + pointer * entriesElements es < 2^64)
    (enough : ∀ e ∈ es, e.attributes.length < fuel) (enough' : es.length < fuel) :
    ∃ e, bufferExpand fuel config m = .done e ∧ e.nPadding = 0 ∧ ConfigExpanded m e.memory config c es := by
  have header := configHeader_of_holds holds
  have few := length_le_fuel es
  have all := kindCount_le es
  have fits (k : ResolverKind) : kindListAt config es k < 2^64 := by
    simp only [roomOf] at top
    cases k <;> simp only [kindListAt,kindStart,pointer] at top ⊢ <;> split <;> omega
  have init := configInitialized_spec header fits
  have outside {lo hi : Nat} (apart : config + 48 ≤ lo) : Agree m (configInitialized config (kindListAt config es) m) lo hi :=
    configInitialized_agree config _ m apart
  have layout : ConfigLayout (configInitialized config (kindListAt config es) m) config es := by
    have attributes := header.attributes
    rw [describes.attributes] at attributes
    refine ⟨attributes.agree (outside (by simp only [configHeader]; omega)) (le_refl _) (le_refl _),?_,top,?_⟩
    · intro k some
      rw [init.list,kindListAt,if_neg some]
    · have := describes.short
      omega
  obtain ⟨s,looped,gathered⟩ := gatherResolvers_gathered layout enough enough'
  have low : Agree (configInitialized config (kindListAt config es) m) s.memory config (config+48) := by
    intro x above below
    refine gathered.same x above (by simp only [listsOf,configHeader]; omega) fun l member => .inl ?_
    obtain ⟨first,_⟩ := located_spec member
    simp only [configHeader] at first
    omega
  have count (k : ResolverKind) : loadLE s.memory (config + k.count) 4 = kindCount k es := by
    have place : k.count + 4 ≤ 48 := by cases k <;> decide
    rw [low.loadLE (by omega) (by omega),init.count,describes.count]
  refine ⟨s.toExpansion,?_,?_,count,?_,?_,?_,gathered.slot,gathered.expanded,?_⟩
  · rw [bufferExpand_eq describes header,looped,Outcome.bind_done]
    simp only [gathered.found,count,ne_eq,not_true,if_false]
  · rw [gathered.nPadding,entriesElements_nil,Nat.mul_zero]
  · intro k some
    have place := k.list_spec
    rw [pointer,low.loadLE (by omega) (by omega),← pointer,init.list,kindListAt,if_neg some]
  · rw [← init.generation,ConfigAt.generation,low.loadLE (by omega) (by omega)]
  · rw [← init.version,ConfigAt.version,low.loadLE (by omega) (by omega)]
  · intro x above below apart
    simp only [configHeader] at above
    rw [gathered.same x (by omega) below apart]
    exact Agree.here (outside (by omega))

/-! ## What the calls build -/

def ready (reach : ResolverBuf → BitVec 32) (calls : List ResolverCall) : ResolverBuf :=
  dnsResolverSetReachFlags reach (.calls calls)

def addReady (config : ConfigBuf) (resolver : ResolverBuf) : ConfigBuf :=
  {config with
    count := Function.update config.count resolver.kind (config.count resolver.kind + 1)
    nPadding := config.nPadding + BitVec.ofNat 32 (pointer + resolver.nNameserver.toNat * pointer +
      resolver.nSearch.toNat * pointer + resolver.nSortaddr.toNat * pointer)
    attributes := config.attributes ++ attributeBytes resolver.kind.type (resolverBytes resolver)}

variable {reach : ResolverBuf → BitVec 32} {machAbsoluteTime : BitVec 64} {resolvers : List (List ResolverCall)}

private theorem built_eq (reach : ResolverBuf → BitVec 32) (machAbsoluteTime : BitVec 64)
    (resolvers : List (List ResolverCall)) :
    built reach machAbsoluteTime resolvers = (resolvers.map (ready reach)).foldl addReady
      (dnsConfigurationCreate machAbsoluteTime) := by
  rw [List.foldl_map]
  rfl

private theorem ready_describes {calls : List ResolverCall} (short : (attributesBytes (attributesOf calls)).length < 2^31) :
    Describes (ready reach calls) (attributesOf calls) := by
  obtain ⟨attributes,count⟩ := calls_buffer calls
  have le := countOf_le (attributesOf calls)
  have same : (ready reach calls).attributes = (ResolverBuf.calls calls).attributes ∧
      ∀ f, (ready reach calls).count f = (ResolverBuf.calls calls).count f := by
    unfold ready dnsResolverSetReachFlags
    split
    · exact ⟨rfl,fun f => by cases f <;> rfl⟩
    · exact ⟨rfl,fun _ => rfl⟩
  refine ⟨same.1.trans attributes,?_,short⟩
  intro f
  rw [same.2 f,count f,BitVec.toNat_ofNat]
  apply Nat.mod_eq_of_lt
  cases f <;> omega

private theorem entries_of_calls (short : ∀ calls ∈ resolvers, (attributesBytes (attributesOf calls)).length < 2^31) :
    ∃ es : List Entry, es.map Entry.resolver = resolvers.map (ready reach) ∧
      es.map Entry.attributes = resolvers.map attributesOf := by
  induction resolvers with
  | nil => exact ⟨[],rfl,rfl⟩
  | cons calls resolvers ih =>
    rw [List.forall_mem_cons] at short
    obtain ⟨es,made,filled⟩ := ih short.2
    exact ⟨⟨ready reach calls,attributesOf calls,ready_describes short.1⟩::es,by simp [made],by simp [filled]⟩

/-- The numbers in the buffer, as long as they are small. -/
theorem foldl_addReady (es : List Entry) (machAbsoluteTime : BitVec 64) :
    let c := (es.map Entry.resolver).foldl addReady (dnsConfigurationCreate machAbsoluteTime)
    c.attributes = entriesBytes es ∧ (∀ k, c.count k = BitVec.ofNat 32 (kindCount k es)) ∧
      c.nPadding = BitVec.ofNat 32 (pointer * es.length + pointer * entriesElements es) ∧
      c.generation = machAbsoluteTime ∧ c.version = dnsinfoVersion := by
  induction es using List.reverseRecOn with
  | nil => exact ⟨rfl,fun _ => rfl,rfl,rfl,rfl⟩
  | append_singleton es e ih =>
    obtain ⟨attributes,count,nPadding,generation,version⟩ := ih
    have counts := e.describes.count
    rw [List.map_append,List.foldl_append]
    refine ⟨?_,?_,?_,generation,version⟩
    · rw [entriesBytes_append,← attributes]
      simp [addReady,Entry.bytes,Entry.kind]
    · intro k
      show Function.update _ e.kind (_ + 1) k = _
      rw [kindCount_snoc]
      by_cases same : k = e.kind
      · subst same
        simp [count,Entry.kind,BitVec.ofNat_add]
      · simp [same,Ne.symm same,count]
    · have elements : e.elements = e.resolver.nNameserver.toNat + e.resolver.nSearch.toNat + e.resolver.nSortaddr.toNat := by
        rw [Entry.elements,DnsBuffer.elements,← counts .nameserver,← counts .search,← counts .sortaddr]
        rfl
      show _ + BitVec.ofNat 32 _ = _
      rw [nPadding,← BitVec.ofNat_add,entriesElements_append,entriesElements_cons,entriesElements_nil,elements,List.length_append]
      congr 1
      simp only [List.length_singleton,pointer]
      omega

private theorem entriesElements_le (es : List Entry) :
    pointer * es.length + pointer * entriesElements es ≤ (entriesBytes es).length := by
  induction es with
  | nil => exact le_refl _
  | cons e es ih =>
    have size := e.size.2
    have le := countOf_le e.attributes
    rw [e.describes.attributes] at size
    rw [entriesBytes_cons,entriesElements_cons,List.length_append,List.length_cons]
    simp only [Entry.elements,DnsBuffer.elements,pointer,attributeHeader,resolverHeader] at ih size ⊢
    omega

private theorem attributes_le_built {calls : List ResolverCall} (member : calls ∈ resolvers) :
    (attributesBytes (attributesOf calls)).length ≤ (built reach machAbsoluteTime resolvers).attributes.length := by
  have grown (rs : List ResolverBuf) (c : ConfigBuf) : c.attributes.length ≤ (rs.foldl addReady c).attributes.length ∧
      ∀ r ∈ rs, r.attributes.length ≤ (rs.foldl addReady c).attributes.length := by
    induction rs generalizing c with
    | nil => exact ⟨le_refl _,nofun⟩
    | cons r rs ih =>
      obtain ⟨more,each⟩ := ih (addReady c r)
      have rounded := roundup_four (resolverBytes r).length
      have bytes := resolverBytes_length r
      have added : (addReady c r).attributes.length =
        c.attributes.length + (attributeHeader + roundup (resolverBytes r).length 4) := by
        rw [addReady,List.length_append,attributeBytes_length]
      rw [List.foldl_cons]
      refine ⟨by omega,?_⟩
      intro r' inside
      rcases List.mem_cons.mp inside with rfl | inside
      · omega
      · exact each r' inside
  have here := (grown (resolvers.map (ready reach)) (dnsConfigurationCreate machAbsoluteTime)).2 _ (List.mem_map_of_mem member)
  have same : (ready reach calls).attributes = (ResolverBuf.calls calls).attributes := by
    unfold ready dnsResolverSetReachFlags
    split <;> rfl
  rwa [same,(calls_buffer calls).1,← built_eq] at here

/-- What is built has its entries, one behind the other. -/
theorem built_describes (short : (built reach machAbsoluteTime resolvers).attributes.length < 2^29) :
    ∃ es : List Entry, es.map Entry.resolver = resolvers.map (ready reach) ∧ es.map Entry.attributes = resolvers.map attributesOf ∧
      ConfigDescribes (built reach machAbsoluteTime resolvers) es ∧
      (built reach machAbsoluteTime resolvers).generation = machAbsoluteTime ∧
      (built reach machAbsoluteTime resolvers).version = dnsinfoVersion := by
  obtain ⟨es,made,filled⟩ := @entries_of_calls reach resolvers fun calls member => by
    have le := @attributes_le_built reach machAbsoluteTime resolvers calls member
    omega
  obtain ⟨attributes,count,nPadding,generation,version⟩ := foldl_addReady es machAbsoluteTime
  rw [made,← built_eq] at attributes count nPadding generation version
  rw [attributes] at short
  have few := length_le_fuel es
  have all := kindCount_le es
  have room := entriesElements_le es
  refine ⟨es,made,filled,⟨attributes,?_,?_,short⟩,generation,version⟩
  · intro k
    rw [count k,BitVec.toNat_ofNat]
    apply Nat.mod_eq_of_lt
    cases k <;> omega
  · rw [nPadding,BitVec.toNat_ofNat]
    exact Nat.mod_eq_of_lt (by omega)

theorem configBytes_length (c : ConfigBuf) : (configBytes c).length = configHeader + c.attributes.length := by
  simp only [configBytes,List.length_append,bigEndian_length,littleEndian_length,zeros,List.length_replicate,configHeader]
  omega

def WithinLimit (c : ConfigBuf) : Prop := (configBytes c).length + c.nPadding.toNat ≤ dnsConfigBufMax

theorem bufferCreate_accepts (limit : WithinLimit c) :
    bufferCreate (configBytes c) = some (configBytes c ++ zeros c.nPadding.toNat) := by
  have holds : Holds (fun a => (configBytes c).getD a 0) 0 (configBytes c) := by
    rw [holds_iff]
    intro i inside
    simp [inside]
  have header := configHeader_of_holds holds
  have nAttribute := header.nAttribute
  have nPadding := header.nPadding
  have length := configBytes_length c
  rw [WithinLimit,dnsConfigBufMax,length,configHeader] at limit
  rw [Nat.zero_add] at nAttribute nPadding
  rw [Nat.mod_eq_of_lt (by omega)] at nAttribute
  simp only [bufferCreate,nAttribute,nPadding,length,dnsConfigBufMax,configHeader,ne_eq,not_true,if_false]
  rw [if_neg (by omega),if_neg (by omega)]

end FreebsdLaunchd.DnsBuffer
