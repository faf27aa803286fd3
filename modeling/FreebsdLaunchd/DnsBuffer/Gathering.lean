import FreebsdLaunchd.DnsBuffer.Resolvers

/-! The loop over the resolvers of a configuration: each is expanded where it is, and its
address goes to the list of its kind. -/
namespace FreebsdLaunchd.DnsBuffer
open CData ByteMemory

structure Entry where
  resolver : ResolverBuf
  attributes : List Attribute
  describes : Describes resolver attributes

def Entry.kind (e : Entry) : ResolverKind := e.resolver.kind

def Entry.elements (e : Entry) : Nat := DnsBuffer.elements e.attributes

def Entry.bytes (e : Entry) : Bytes := attributeBytes e.kind.type (resolverBytes e.resolver)

def entriesBytes (es : List Entry) : Bytes := es.flatMap Entry.bytes

def entriesElements (es : List Entry) : Nat := (es.map Entry.elements).sum

def kindCount (k : ResolverKind) (es : List Entry) : Nat := (es.filter (·.kind = k)).length

/-- An entry with the address of the resolver and that of its lists. -/
structure Located where
  entry : Entry
  address : Nat
  padding : Nat

/-- Where the entries are, the first of them and its lists at the given places. -/
def located : Nat → Nat → List Entry → List Located
  | _, _, [] => []
  | p, padding, e::es =>
    ⟨e,p + attributeHeader,padding⟩::located (p + e.bytes.length) (padding + pointer * e.elements) es

def addresses (k : ResolverKind) (ls : List Located) : List Nat := (ls.filter (·.entry.kind = k)).map Located.address

variable {m : Memory} {config p padding lists fuel : Nat} {es taken left : List Entry} {e : Entry} {s : Gathering}

/-! ## The places -/

@[simp] theorem entriesBytes_nil : entriesBytes [] = [] := rfl

@[simp] theorem entriesBytes_cons (e : Entry) (es : List Entry) : entriesBytes (e::es) = e.bytes ++ entriesBytes es := rfl

theorem entriesBytes_append (es fs : List Entry) : entriesBytes (es ++ fs) = entriesBytes es ++ entriesBytes fs :=
  List.flatMap_append

@[simp] theorem entriesElements_nil : entriesElements [] = 0 := rfl

@[simp] theorem entriesElements_cons (e : Entry) (es : List Entry) :
    entriesElements (e::es) = e.elements + entriesElements es := by
  simp [entriesElements]

theorem entriesElements_append (es fs : List Entry) :
    entriesElements (es ++ fs) = entriesElements es + entriesElements fs := by
  simp [entriesElements]

private theorem kindCount_append (k : ResolverKind) (es fs : List Entry) :
    kindCount k (es ++ fs) = kindCount k es + kindCount k fs := by
  simp [kindCount]

private theorem attributesBytes_aligned (as : List Attribute) : (attributesBytes as).length % 4 = 0 := by
  induction as with
  | nil => rfl
  | cons a as ih =>
    have size : a.bytes.length = attributeHeader + roundup a.data.length 4 := attributeBytes_length a.type a.data
    rw [roundup_four,attributeHeader] at size
    rw [attributesBytes_cons,List.length_append]
    omega

theorem resolverBytes_length (r : ResolverBuf) : (resolverBytes r).length = resolverHeader + r.attributes.length := by
  simp only [resolverBytes,List.length_append,bigEndian_length,zeros,List.length_replicate,resolverHeader]
  omega

/-- The bytes of a resolver need not be filled up. -/
theorem Entry.size (e : Entry) :
    roundup (resolverBytes e.resolver).length 4 = resolverHeader + e.resolver.attributes.length ∧
      e.bytes.length = attributeHeader + (resolverHeader + e.resolver.attributes.length) := by
  have aligned := attributesBytes_aligned e.attributes
  have rounded : roundup (resolverBytes e.resolver).length 4 = resolverHeader + e.resolver.attributes.length := by
    rw [roundup_four,resolverBytes_length,e.describes.attributes]
    simp only [resolverHeader]
    omega
  exact ⟨rounded,by rw [Entry.bytes,attributeBytes_length,rounded]⟩

private theorem located_append (p padding : Nat) (es fs : List Entry) : located p padding (es ++ fs) =
    located p padding es ++ located (p + (entriesBytes es).length) (padding + pointer * entriesElements es) fs := by
  induction es generalizing p padding with
  | nil => rfl
  | cons e es ih =>
    rw [List.cons_append,located,located,ih,entriesBytes_cons,entriesElements_cons,List.length_append,List.cons_append,
      Nat.mul_add,Nat.add_assoc,Nat.add_assoc]

theorem located_snoc (p padding : Nat) (es : List Entry) (e : Entry) : located p padding (es ++ [e]) =
    located p padding es ++ [⟨e,p + (entriesBytes es).length + attributeHeader,padding + pointer * entriesElements es⟩] := by
  rw [located_append]
  rfl

/-- The resolvers are in the bytes of the entries, and their lists in the padding. -/
theorem located_spec {l : Located} (member : l ∈ located p padding es) :
    p + attributeHeader ≤ l.address ∧
      l.address + resolverHeader + l.entry.resolver.attributes.length ≤ p + (entriesBytes es).length ∧
      padding ≤ l.padding ∧ l.padding + pointer * l.entry.elements ≤ padding + pointer * entriesElements es := by
  induction es generalizing p padding with
  | nil => cases member
  | cons e es ih =>
    have size := e.size.2
    rw [entriesBytes_cons,entriesElements_cons,List.length_append,Nat.mul_add]
    rcases List.mem_cons.mp member with rfl | behind
    · exact ⟨le_refl _,by dsimp only; omega,le_refl _,by dsimp only; omega⟩
    · obtain ⟨first,last,above,below⟩ := ih behind
      exact ⟨by omega,by omega,by omega,by omega⟩

private theorem addresses_snoc (k : ResolverKind) (ls : List Located) (l : Located) :
    addresses k (ls ++ [l]) = if l.entry.kind = k then addresses k ls ++ [l.address] else addresses k ls := by
  by_cases same : l.entry.kind = k
  · simp [addresses,same]
  · simp [addresses,same]

theorem addresses_length (k : ResolverKind) (p padding : Nat) (es : List Entry) :
    (addresses k (located p padding es)).length = kindCount k es := by
  induction es generalizing p padding with
  | nil => rfl
  | cons e es ih =>
    simp only [addresses,kindCount,located,List.length_map] at ih ⊢
    by_cases same : e.kind = k
    · simp [same,ih]
    · simp [same,ih]

theorem kindCount_le (es : List Entry) :
    kindCount .plain es + kindCount .scoped es + kindCount .serviceSpecific es = es.length := by
  induction es with
  | nil => rfl
  | cons e es ih =>
    simp only [kindCount] at ih ⊢
    cases kind : e.kind <;> simp [kind] <;> omega

/-! ## The lists of the configuration -/

def kindStart (lists : Nat) (es : List Entry) : ResolverKind → Nat
  | .plain => lists
  | .scoped => lists + pointer * kindCount .plain es
  | .serviceSpecific => lists + pointer * (kindCount .plain es + kindCount .scoped es)

private theorem kindSlot_spec (lists : Nat) (es : List Entry) (k : ResolverKind) {i : Nat} (inside : i < kindCount k es) :
    lists ≤ kindStart lists es k + pointer * i ∧ kindStart lists es k + pointer * i + 8 ≤ lists + pointer * es.length := by
  have all := kindCount_le es
  cases k <;> simp only [kindStart,pointer] <;> omega

private theorem kindSlot_apart (lists : Nat) (es : List Entry)
    {k k' : ResolverKind} {i j : Nat} (inside : i < kindCount k es)
    (inside' : j < kindCount k' es) (other : k ≠ k' ∨ i ≠ j) :
    kindStart lists es k + pointer * i + 8 ≤ kindStart lists es k' + pointer * j ∨
      kindStart lists es k' + pointer * j + 8 ≤ kindStart lists es k + pointer * i := by
  cases k <;> cases k' <;>
    simp only [kindStart,pointer,ne_eq,not_true,reduceCtorEq,not_false_iff,true_or,false_or] at other ⊢ <;>
    omega

theorem ResolverKind.list_spec (k : ResolverKind) : 4 ≤ k.list ∧ k.list + 8 ≤ 44 := by
  cases k <;> decide

private theorem kindOf_type (k : ResolverKind) : kindOf k.type = some k := by
  cases k <;> rfl

theorem ResolverKind.type_lt (k : ResolverKind) : k.type < 256^4 := by
  cases k <;> decide

def listsOf (config : Nat) (es : List Entry) : Nat := config + configHeader + (entriesBytes es).length

def roomOf (config : Nat) (es : List Entry) : Nat := listsOf config es + pointer * es.length

structure ConfigLayout (m : Memory) (config : Nat) (es : List Entry) : Prop where
  holds : Holds m (config + configHeader) (entriesBytes es)
  lists : ∀ k, kindCount k es ≠ 0 → loadLE m (config + k.list) pointer = kindStart (listsOf config es) es k
  top : roomOf config es + pointer * entriesElements es < 2^64
  short : (entriesBytes es).length < 2^31

/-- The invariant of the loop, with the entries taken so far and those left. -/
structure Gathered (m : Memory) (config : Nat) (es taken left : List Entry) (s : Gathering) : Prop where
  all : es = taken ++ left
  position : s.position = config + configHeader + (entriesBytes taken).length
  size : s.nAttribute = (entriesBytes left).length
  padding : s.padding = roomOf config es + pointer * entriesElements taken
  nPadding : s.nPadding = pointer * entriesElements left
  found : ∀ k, s.found k = kindCount k taken
  expanded : ∀ l ∈ located (config + configHeader) (roomOf config es) taken,
    Expanded s.memory l.address l.padding l.entry.resolver l.entry.attributes
  slot : ∀ k i address, (addresses k (located (config + configHeader) (roomOf config es) taken))[i]? = some address →
    loadLE s.memory (kindStart (listsOf config es) es k + pointer * i) pointer = address
  same : ∀ x, config ≤ x → x < listsOf config es →
    (∀ l ∈ located (config + configHeader) (roomOf config es) taken, x < l.address ∨ l.address + 96 ≤ x) → s.memory x = m x

theorem Gathered.reads (gathered : Gathered m config es taken (e::left) s) (layout : ConfigLayout m config es) :
    loadBE s.memory s.position 4 = e.kind.type ∧ loadBE s.memory (s.position + 4) 4 = e.bytes.length ∧
      Holds s.memory (s.position + attributeHeader) (resolverBytes e.resolver) ∧
      s.position + e.bytes.length ≤ listsOf config es := by
  have holds := layout.holds
  have short := layout.short
  have bound : s.position + e.bytes.length ≤ listsOf config es := by
    rw [listsOf,gathered.all,entriesBytes_append,entriesBytes_cons,List.length_append,List.length_append,gathered.position]
    omega
  rw [gathered.all,entriesBytes_append,entriesBytes_cons,List.length_append,List.length_append] at short
  rw [gathered.all,entriesBytes_append,entriesBytes_cons,holds_append,holds_append,← gathered.position] at holds
  have agree : Agree m s.memory s.position (s.position + e.bytes.length) := by
    intro x above below
    have position := gathered.position
    refine gathered.same x (by omega) (by omega) fun l member => .inr ?_
    obtain ⟨_,last,_,_⟩ := located_spec member
    simp only [resolverHeader] at last
    omega
  have here := holds.2.1.agree agree (le_refl _) (le_refl _)
  obtain ⟨rounded,size⟩ := e.size
  obtain ⟨type,length,body⟩ := holds_attributeBytes here e.kind.type_lt (by rw [rounded,← size]; omega)
  exact ⟨type,length.trans (by rw [rounded,size]),body,bound⟩

theorem kindCount_snoc (k : ResolverKind) (es : List Entry) (e : Entry) :
    kindCount k (es ++ [e]) = if e.kind = k then kindCount k es + 1 else kindCount k es := by
  by_cases same : e.kind = k
  · simp [kindCount,same]
  · simp [kindCount,same]

theorem length_le_fuel (es : List Entry) : es.length ≤ (entriesBytes es).length := by
  induction es with
  | nil => exact le_refl _
  | cons e es ih =>
    have size := e.size.2
    rw [attributeHeader] at size
    rw [entriesBytes_cons,List.length_append,List.length_cons]
    omega

/-- The memory after a resolver has been expanded and its address has been put down. -/
structure Stored (m m' : Memory) (o padding slot : Nat) (e : Entry) : Prop where
  expanded : Expanded m' o padding e.resolver e.attributes
  address : loadLE m' slot pointer = o
  same : ∀ x, (x < o ∨ o + 96 ≤ x) → (x < padding ∨ padding + pointer * e.elements ≤ x) →
    (x < slot ∨ slot + 8 ≤ x) → m' x = m x

private theorem stored_of_expanded {m₁ : Memory} {o slot : Nat} (expanded : Expanded m₁ o padding e.resolver e.attributes)
    (same : ∀ x, (x < o ∨ o + 96 ≤ x) → (x < padding ∨ padding + pointer * e.elements ≤ x) → m₁ x = m x)
    (fits : o < 2^64) (behind : o + 96 ≤ slot) (apart : slot + 8 ≤ padding) :
    Stored m (storeLE m₁ slot pointer o) o padding slot e := by
  refine ⟨?_,?_,?_⟩
  · exact expanded.agree (agree_storeLE (by omega)) (agree_storeLE (by simp only [pointer]; omega))
  · rw [pointer,loadLE_storeLE,Nat.mod_eq_of_lt (show o < 256^8 from fits)]
  · intro x header lists outside
    rw [← same x header lists]
    exact storeLE_outside (by simp only [pointer]; omega)

private theorem resolverStep_done (layout : ConfigLayout m config es) (gathered : Gathered m config es taken (e::left) s)
    (enough : e.attributes.length < fuel) :
    ∃ m', resolverStep fuel config s = .done (Gathering.advance
        {s with
          memory := m'
          padding := s.padding + pointer * e.elements
          nPadding := s.nPadding - pointer * e.elements
          found := Function.update s.found e.kind (s.found e.kind + 1)} e.bytes.length) ∧
      Stored s.memory m' (s.position + attributeHeader) s.padding
        (kindStart (listsOf config es) es e.kind + pointer * s.found e.kind) e := by
  obtain ⟨type,length,holds,bound⟩ := gathered.reads layout
  have top := layout.top
  have short := layout.short
  have size := e.size.2
  have room : pointer * e.elements ≤ s.nPadding := by
    rw [gathered.nPadding,entriesElements_cons,Nat.mul_add]
    omega
  have padded : s.padding + pointer * e.elements ≤ roomOf config es + pointer * entriesElements es := by
    rw [gathered.padding,gathered.all,entriesElements_append,entriesElements_cons,Nat.mul_add,Nat.mul_add]
    omega
  have next : s.found e.kind < kindCount e.kind es := by
    have here : 0 < kindCount e.kind (e::left) := by simp [kindCount]
    rw [gathered.found,gathered.all,kindCount_append]
    omega
  obtain ⟨above,inside⟩ := kindSlot_spec (listsOf config es) es e.kind next
  have behind : roomOf config es ≤ s.padding := by
    rw [gathered.padding]
    omega
  have nBuf : (e.bytes.length + 2^32 - attributeHeader) % 2^32 = resolverHeader + e.resolver.attributes.length := by
    have within : e.bytes.length ≤ (entriesBytes es).length := by
      rw [gathered.all,entriesBytes_append,entriesBytes_cons,List.length_append,List.length_append]
      omega
    omega
  simp only [attributeHeader,resolverHeader,roomOf] at size behind bound inside
  obtain ⟨m₁,expands,expanded,same⟩ := expandResolver_expanded e.describes holds room
    (by simp only [attributeHeader,resolverHeader]; omega) (show s.padding + pointer * elements e.attributes < 2^64 from
      Nat.lt_of_le_of_lt padded top) enough
  have list : loadLE m₁ (config + e.kind.list) pointer = kindStart (listsOf config es) es e.kind := by
    rw [← layout.lists e.kind (by omega)]
    have place := e.kind.list_spec
    have position := gathered.position
    simp only [configHeader] at position
    refine Agree.loads fun x from' to' => ?_
    simp only [pointer] at to'
    rw [same x (by simp only [attributeHeader]; omega) (by omega)]
    refine gathered.same x (by omega) (by omega) fun l member => .inl ?_
    obtain ⟨first,_⟩ := located_spec member
    simp only [configHeader] at first
    omega
  have nonzero : kindStart (listsOf config es) es e.kind ≠ 0 := by
    cases e.kind <;> simp only [kindStart,listsOf,configHeader] <;> omega
  refine ⟨_,?_,stored_of_expanded expanded same (by simp only [attributeHeader]; omega)
    (by simp only [attributeHeader]; omega) (by omega)⟩
  simp only [resolverStep,type,length,kindOf_type,nBuf,expands,Outcome.bind_done,list,if_neg nonzero]
  rfl

private theorem resolverStep_gathered (layout : ConfigLayout m config es)
    (gathered : Gathered m config es taken (e::left) s)
    (enough : e.attributes.length < fuel) :
    ∃ s', resolverStep fuel config s = .done s' ∧ Gathered m config es (taken ++ [e]) left s' := by
  obtain ⟨_,_,_,bound⟩ := gathered.reads layout
  have short := layout.short
  have size := e.size.2
  have next : s.found e.kind < kindCount e.kind es := by
    have here : 0 < kindCount e.kind (e::left) := by simp [kindCount]
    rw [gathered.found,gathered.all,kindCount_append]
    omega
  obtain ⟨above,inside⟩ := kindSlot_spec (listsOf config es) es e.kind next
  have behind : roomOf config es ≤ s.padding := by
    rw [gathered.padding]
    omega
  have bytes := gathered.size
  rw [gathered.all,entriesBytes_append,List.length_append] at short
  rw [entriesBytes_cons,List.length_append] at bytes short
  obtain ⟨m',stepped,stored⟩ := resolverStep_done layout gathered enough
  have position := gathered.position
  have padding := gathered.padding
  simp only [attributeHeader,resolverHeader,roomOf] at size behind
  have before (l : Located) (member : l ∈ located (config + configHeader) (roomOf config es) taken) :
      l.address + 96 ≤ s.position ∧ roomOf config es ≤ l.padding ∧ l.padding + pointer * l.entry.elements ≤ s.padding ∧
        l.address + 96 ≤ listsOf config es := by
    obtain ⟨_,last,low,high⟩ := located_spec member
    simp only [resolverHeader] at last
    omega
  have new : located (config + configHeader) (roomOf config es) (taken ++ [e]) =
      located (config + configHeader) (roomOf config es) taken ++ [⟨e,s.position + attributeHeader,s.padding⟩] := by
    rw [located_snoc,position,padding]
  refine ⟨_,stepped,?_,?_,?_,?_,?_,?_,?_,?_,?_⟩
  · rw [gathered.all,List.append_assoc]
    rfl
  · show s.position + e.bytes.length = _
    rw [position,entriesBytes_append,List.length_append,entriesBytes_cons,entriesBytes_nil,List.append_nil,Nat.add_assoc]
  · show (s.nAttribute + 2^32 - e.bytes.length) % 2^32 = _
    omega
  · show s.padding + pointer * e.elements = _
    rw [padding,entriesElements_append,entriesElements_cons,entriesElements_nil,Nat.add_zero,Nat.mul_add,Nat.add_assoc]
  · show s.nPadding - pointer * e.elements = _
    rw [gathered.nPadding,entriesElements_cons,Nat.mul_add,Nat.add_sub_cancel_left]
  · intro k
    show Function.update s.found e.kind (s.found e.kind + 1) k = _
    rw [kindCount_snoc]
    by_cases same : k = e.kind
    · subst same
      simp [gathered.found]
    · simp [same,Ne.symm same,gathered.found]
  · intro l member
    show Expanded m' l.address l.padding l.entry.resolver l.entry.attributes
    rw [new,List.mem_append,List.mem_singleton] at member
    rcases member with old | rfl
    · obtain ⟨header,low,high,_⟩ := before l old
      simp only [roomOf] at low
      refine (gathered.expanded l old).agree (fun x from' to' => ?_) (fun x from' to' => ?_)
      · exact stored.same x (.inl (by simp only [attributeHeader]; omega)) (.inl (by omega)) (.inl (by omega))
      · have within : x < s.padding := Nat.lt_of_lt_of_le to' high
        exact stored.same x (.inr (by simp only [attributeHeader]; omega)) (.inl within) (.inr (by omega))
    · exact stored.expanded
  · intro k i address known
    show loadLE m' (kindStart (listsOf config es) es k + pointer * i) pointer = address
    rw [new,addresses_snoc] at known
    have kept (old : (addresses k (located (config + configHeader) (roomOf config es) taken))[i]? = some address)
        (other : k ≠ e.kind ∨ i ≠ s.found e.kind) :
        loadLE m' (kindStart (listsOf config es) es k + pointer * i) pointer = address := by
      have counted := (List.getElem?_eq_some_iff.mp old).1
      rw [addresses_length] at counted
      have within : i < kindCount k es := by
        rw [gathered.all,kindCount_append]
        omega
      obtain ⟨above',inside'⟩ := kindSlot_spec (listsOf config es) es k within
      have apart := kindSlot_apart (listsOf config es) es within next other
      rw [← gathered.slot k i address old]
      refine Agree.loads fun x from' to' => ?_
      have to'' : x < kindStart (listsOf config es) es k + pointer * i + 8 := to'
      exact stored.same x (.inr (by simp only [attributeHeader]; omega)) (.inl (by omega)) (by omega)
    by_cases same : e.kind = k
    · subst same
      rw [if_pos rfl] at known
      by_cases last : i < s.found e.kind
      · rw [List.getElem?_append_left (by rwa [addresses_length,← gathered.found])] at known
        exact kept known (.inr (by omega))
      · have counted := (List.getElem?_eq_some_iff.mp known).1
        rw [List.length_append,addresses_length,← gathered.found,List.length_singleton] at counted
        obtain rfl : i = s.found e.kind := by omega
        rw [List.getElem?_append_right (by rw [addresses_length,gathered.found]),addresses_length,← gathered.found,
          Nat.sub_self] at known
        obtain rfl := Option.some.inj known
        exact stored.address
    · rw [if_neg same] at known
      exact kept known (.inl (Ne.symm same))
  · intro x from' to' outside
    rw [new] at outside
    have own := outside _ (List.mem_append_right _ (List.mem_singleton_self _))
    rw [← gathered.same x from' to' fun l member => outside l (List.mem_append_left _ member)]
    exact stored.same x own (.inl (by omega)) (.inl (by omega))

/-- The loop ends, with every resolver expanded and in its list. -/
theorem gatherResolvers_gathered (layout : ConfigLayout m config es)
    (enough : ∀ e ∈ es, e.attributes.length < fuel) (enough' : es.length < fuel) :
    ∃ s', gatherResolvers fuel config ⟨⟨m,roomOf config es,pointer * entriesElements es⟩,config + configHeader,
        (entriesBytes es).length,fun _ => 0⟩ = .done s' ∧ Gathered m config es es [] s' := by
  have start : Gathered m config es [] es ⟨⟨m,roomOf config es,pointer * entriesElements es⟩,config + configHeader,
      (entriesBytes es).length,fun _ => 0⟩ :=
    ⟨rfl,rfl,rfl,rfl,rfl,fun _ => rfl,nofun,nofun,fun _ _ _ _ => rfl⟩
  refine Outcome.loop_items (Gathered m config es) ?_ ?_ start enough'
  · intro taken s gathered
    simp [gathered.size,attributeHeader]
  · intro taken e left s gathered
    refine ⟨?_,resolverStep_gathered layout gathered (enough e ?_)⟩
    · have size := e.size.2
      rw [decide_eq_true_iff,gathered.size,entriesBytes_cons,List.length_append]
      omega
    · rw [gathered.all]
      simp

end FreebsdLaunchd.DnsBuffer
