import FreebsdLaunchd.DnsBuffer.Configurations
import FreebsdLaunchd.DnsBuffer.Described
import Mathlib.Data.List.Forall2

/-! What has been put into a DNS configuration is what is read of it after it has been
expanded, unless the name of an interface is the last thing in the buffer. -/
namespace FreebsdLaunchd.DnsBuffer
open CData ByteMemory
open DnsConfiguration (DNS_RESOLVER_FLAGS_SCOPED DNS_RESOLVER_FLAGS_SERVICE_SPECIFIC)

variable {m m' : Memory} {config p padding limit x : Nat} {c : ConfigBuf} {es : List Entry} {l l' : Located}

/-! ## The bytes around a resolver -/

def Located.ending (l : Located) : Nat := l.address + resolverHeader + l.entry.resolver.attributes.length

/-- Behind a resolver there is a zero byte of the next attribute, if there is one. -/
theorem located_holds (holds : Holds m p (entriesBytes es)) (short : (entriesBytes es).length < 2^31) :
    ∀ l ∈ located p padding es, Holds m l.address (resolverBytes l.entry.resolver) ∧
      (m l.ending = 0 ∧ l.ending < p + (entriesBytes es).length ∨
        l.ending = p + (entriesBytes es).length ∧ es.getLast? = some l.entry) := by
  induction es generalizing p padding with
  | nil => nofun
  | cons e es ih =>
    rw [entriesBytes_cons,holds_append] at holds
    rw [entriesBytes_cons,List.length_append] at short
    obtain ⟨here,behind⟩ := holds
    obtain ⟨rounded,size⟩ := e.size
    obtain ⟨_,_,body⟩ := holds_attributeBytes here e.kind.type_lt (by rw [rounded,← size]; omega)
    rw [located,List.forall_mem_cons,entriesBytes_cons,List.length_append]
    refine ⟨⟨body,?_⟩,?_⟩
    · have ending : (⟨e,p + attributeHeader,padding⟩ : Located).ending = p + e.bytes.length := by
        simp only [Located.ending,size]
        omega
      rw [ending]
      cases es with
      | nil => exact .inr ⟨by simp,rfl⟩
      | cons e' es =>
        have small : e'.kind.type < 256 := by cases e'.kind <;> decide
        rw [entriesBytes_cons,holds_append] at behind
        refine .inl ⟨attributeBytes_head small behind.1,?_⟩
        have some := e'.size.2
        rw [attributeHeader] at some
        rw [entriesBytes_cons,List.length_append]
        omega
    · intro l member
      obtain ⟨there,ends⟩ := ih behind (by omega) l member
      refine ⟨there,?_⟩
      rcases ends with ⟨zero,before⟩ | ⟨last,final⟩
      · exact .inl ⟨zero,by omega⟩
      · refine .inr ⟨by omega,?_⟩
        cases es with
        | nil => cases member
        | cons e' es => rwa [List.getLast?_cons_cons]

/-- The bytes of a resolver behind its header belong to no other header. -/
theorem located_apart (member : l ∈ located p padding es) (above : l.address + 96 ≤ x) (below : x ≤ l.ending)
    (member' : l' ∈ located p padding es) : x < l'.address ∨ l'.address + 96 ≤ x := by
  induction es generalizing p padding with
  | nil => cases member
  | cons e es ih =>
    have size := e.size.2
    rw [located] at member member'
    rcases List.mem_cons.mp member with rfl | inside <;> rcases List.mem_cons.mp member' with rfl | inside'
    · exact .inr above
    · obtain ⟨first,_⟩ := located_spec inside'
      left
      simp only [Located.ending,attributeHeader] at below first size
      omega
    · obtain ⟨first,_⟩ := located_spec inside
      right
      simp only [attributeHeader,resolverHeader] at first size ⊢
      omega
    · exact ih inside inside'

/-- An expanded resolver has its attributes as before. -/
theorem ConfigExpanded.attributes (expanded : ConfigExpanded m m' config c es) (describes : ConfigDescribes c es)
    (holds : Holds m config (configBytes c)) (member : l ∈ located (config + configHeader) (roomOf config es) es) :
    Holds m' (l.address + resolverHeader) (attributesBytes l.entry.attributes) ∧
      (m' l.ending = 0 ∨ l.ending = listsOf config es ∧ es.getLast? = some l.entry) := by
  have entries := (configHeader_of_holds holds).attributes
  have short := describes.short
  rw [describes.attributes] at entries
  obtain ⟨there,ends⟩ := located_holds entries (by omega) l member
  obtain ⟨first,last,_⟩ := located_spec member
  have attributes := (header_of_holds there).attributes
  rw [l.entry.describes.attributes] at attributes last
  have same {x : Nat} (above : l.address + 96 ≤ x) (below : x ≤ l.ending) (before : x < listsOf config es) : m' x = m x :=
    expanded.same x (by omega) before fun l' member' => located_apart member above below member'
  refine ⟨?_,?_⟩
  · refine attributes.agree (fun x above below => same (by omega) ?_ ?_) (le_refl _) (le_refl _)
    · simp only [Located.ending,resolverHeader,l.entry.describes.attributes]
      omega
    · simp only [listsOf,resolverHeader] at last ⊢
      omega
  · rcases ends with ⟨zero,before⟩ | ⟨final,latest⟩
    · left
      rw [same (by simp only [Located.ending,resolverHeader]; omega) (le_refl _) before,zero]
    · exact .inr ⟨final,latest⟩

/-! ## What is meant and what is shown -/

structure Config where
  resolvers : ResolverKind → List Resolver
  generation : BitVec 64
  version : BitVec 32

def Resolver.kind (r : Resolver) : ResolverKind :=
  if r.flags &&& DNS_RESOLVER_FLAGS_SCOPED ≠ 0 then .scoped
  else if r.flags &&& DNS_RESOLVER_FLAGS_SERVICE_SPECIFIC ≠ 0 then .serviceSpecific
  else .plain

def meantConfig (reach : ResolverBuf → BitVec 32) (machAbsoluteTime : BitVec 64)
    (resolvers : List (List ResolverCall)) : Config where
  resolvers kind := (resolvers.map (meant reach)).filter (·.kind = kind)
  generation := machAbsoluteTime
  version := dnsinfoVersion

/-- Who reads the expanded configuration gets `C`. -/
structure ShowsConfig (m : Memory) (limit config : Nat) (C : Config) : Prop where
  count : ∀ k : ResolverKind, loadLE m (config + k.count) 4 = (C.resolvers k).length
  resolver : ∀ (k : ResolverKind) i R, (C.resolvers k)[i]? = some R →
    Shows m limit (loadLE m (loadLE m (config + k.list) pointer + pointer * i) pointer) R
  generation : loadLE m (config + ConfigAt.generation) 8 = C.generation.toNat
  version : loadLE m (config + ConfigAt.version) 4 = C.version.toNat

/-- Wherever the buffer is allocated, it is expanded, the padding is used up, and what has
been added is read. -/
def RoundTrips (reach : ResolverBuf → BitVec 32) (machAbsoluteTime : BitVec 64)
    (resolvers : List (List ResolverCall)) : Prop :=
  ∃ contents enough, bufferCreate (configBytes (built reach machAbsoluteTime resolvers)) = some contents ∧
    ∀ fuel > enough, ∀ m config, config % 16 = 0 → config + contents.length < 2^64 → Holds m config contents →
      ∃ e, bufferExpand fuel config m = .done e ∧ e.nPadding = 0 ∧
        ShowsConfig e.memory (config + contents.length) config (meantConfig reach machAbsoluteTime resolvers)

/-- The last thing in the buffer is the name of an interface that fills its bytes. -/
def LastEndsBare (resolvers : List (List ResolverCall)) : Prop :=
  ∃ calls, resolvers.getLast? = some calls ∧ EndsBare (attributesOf calls)

variable {reach : ResolverBuf → BitVec 32} {machAbsoluteTime : BitVec 64} {resolvers : List (List ResolverCall)}

theorem Meant.kind {r : ResolverBuf} {as : List Attribute} {R : Resolver} (means : Meant r as R) : R.kind = r.kind := by
  rw [Resolver.kind,ResolverBuf.kind,means.flags]

/-- The entries stand for the resolvers that are meant, one by one. -/
theorem entries_meant (made : es.map Entry.resolver = resolvers.map (ready reach))
    (filled : es.map Entry.attributes = resolvers.map attributesOf) (p padding : Nat) :
    List.Forall₂ (fun l R => Meant l.entry.resolver l.entry.attributes R) (located p padding es) (resolvers.map (meant reach)) := by
  induction es generalizing resolvers p padding with
  | nil =>
    have none : resolvers = [] := by simpa using made
    subst none
    exact .nil
  | cons e es ih =>
    cases resolvers with
    | nil => cases made
    | cons calls resolvers =>
      rw [List.map_cons,List.map_cons] at made filled
      obtain ⟨same,made⟩ := List.cons.inj made
      obtain ⟨same',filled⟩ := List.cons.inj filled
      refine .cons ?_ (ih made filled _ _)
      have describes := e.describes
      show Meant e.resolver e.attributes _
      rw [same,same'] at describes ⊢
      exact ready_meant describes

/-- The resolvers of one kind are at the addresses of its list. -/
theorem kinds_meant (means : List.Forall₂ (fun l R => Meant l.entry.resolver l.entry.attributes R) (located p padding es)
      (resolvers.map (meant reach))) (k : ResolverKind) :
    List.Forall₂ (fun l R => Meant l.entry.resolver l.entry.attributes R)
      ((located p padding es).filter (·.entry.kind = k)) ((meantConfig reach machAbsoluteTime resolvers).resolvers k) := by
  refine List.rel_filter ?_ means
  intro l R meant
  show decide (l.entry.resolver.kind = k) = true ↔ decide (R.kind = k) = true
  rw [meant.kind]

/-- The address in a slot, and the resolver there. -/
theorem kind_element (means : List.Forall₂ (fun l R => Meant l.entry.resolver l.entry.attributes R) (located p padding es)
      (resolvers.map (meant reach))) {k : ResolverKind} {i : Nat} {R : Resolver}
    (known : ((meantConfig reach machAbsoluteTime resolvers).resolvers k)[i]? = some R) :
    ∃ l ∈ located p padding es, (addresses k (located p padding es))[i]? = some l.address ∧
      Meant l.entry.resolver l.entry.attributes R := by
  have kinds := @kinds_meant _ _ _ reach machAbsoluteTime resolvers means k
  obtain ⟨length,pairs⟩ := List.forall₂_iff_get.mp kinds
  obtain ⟨inside,rfl⟩ := List.getElem?_eq_some_iff.mp known
  have inside' : i < ((located p padding es).filter (·.entry.kind = k)).length := by rwa [length]
  refine ⟨_,List.mem_of_mem_filter (List.getElem_mem inside'),?_,pairs i inside' inside⟩
  simp [addresses,inside']

private theorem roomOf_length (describes : ConfigDescribes c es) :
    config + (configBytes c ++ zeros c.nPadding.toNat).length = roomOf config es + pointer * entriesElements es := by
  simp only [List.length_append,configBytes_length,describes.attributes,zeros,List.length_replicate,describes.nPadding,roomOf,
    listsOf]
  omega

/-- An expanded configuration shows what is meant, if no name of an interface goes on into the padding. -/
theorem ConfigExpanded.shows (expanded : ConfigExpanded m m' config c es) (describes : ConfigDescribes c es)
    (holds : Holds m config (configBytes c)) (generation : c.generation = machAbsoluteTime) (version : c.version = dnsinfoVersion)
    (means : List.Forall₂ (fun l R => Meant l.entry.resolver l.entry.attributes R)
      (located (config + configHeader) (roomOf config es) es) (resolvers.map (meant reach)))
    (terminated : ∀ e, es.getLast? = some e → ¬ EndsBare e.attributes) :
    ShowsConfig m' (roomOf config es + pointer * entriesElements es) config (meantConfig reach machAbsoluteTime resolvers) where
  count k := by
    have kinds := @kinds_meant _ _ _ reach machAbsoluteTime resolvers means k
    have length := kinds.length_eq
    rw [expanded.count,← length,← addresses_length k (config + configHeader) (roomOf config es) es,addresses,List.length_map]
  resolver k i R known := by
    obtain ⟨l,member,address,meant⟩ := kind_element means known
    have counted := (List.getElem?_eq_some_iff.mp address).1
    rw [addresses_length] at counted
    rw [expanded.list k (by omega),expanded.slot k i _ address]
    obtain ⟨attributes,ends⟩ := expanded.attributes describes holds member
    obtain ⟨_,last,_⟩ := located_spec member
    rw [l.entry.describes.attributes] at last
    have some : 0 < es.length := by
      cases es with
      | nil => cases member
      | cons e es => exact Nat.succ_pos _
    refine (expanded.expanded l member).shows meant attributes l.entry.describes.short ?_ ?_
    · simp only [roomOf,listsOf,pointer]
      omega
    · intro bare
      rcases ends with zero | ⟨_,latest⟩
      · rwa [Located.ending,l.entry.describes.attributes] at zero
      · exact absurd bare (terminated l.entry latest)
  generation := by rw [expanded.generation,generation]; rfl
  version := by rw [expanded.version,version]; rfl

/-! ## The first pointer -/

private theorem addresses_shift (k : ResolverKind) (p padding n padding' : Nat) (es : List Entry) :
    addresses k (located (p+n) padding' es) = (addresses k (located p padding es)).map (·+n) := by
  induction es generalizing p padding padding' with
  | nil => rfl
  | cons e es ih =>
    have next : p + n + e.bytes.length = p + e.bytes.length + n := by omega
    have here : p + n + attributeHeader = p + attributeHeader + n := by omega
    have tail := ih (p + e.bytes.length) (padding + pointer * e.elements) (padding' + pointer * e.elements)
    simp only [addresses] at tail
    by_cases same : e.kind = k
    · simp [addresses,located,same,next,here,tail]
    · simp [addresses,located,same,next,tail]

/-- The first list that is not empty, where the padding begins. -/
def firstKind (es : List Entry) : ResolverKind :=
  if kindCount .plain es ≠ 0 then .plain else if kindCount .scoped es ≠ 0 then .scoped else .serviceSpecific

private theorem firstKind_spec (lists : Nat) (nonempty : es ≠ []) :
    kindCount (firstKind es) es ≠ 0 ∧ kindStart lists es (firstKind es) = lists := by
  have all := kindCount_le es
  have more := List.length_pos_of_ne_nil nonempty
  by_cases plain : kindCount .plain es = 0
  · by_cases next : kindCount .scoped es = 0
    · have last : kindCount .serviceSpecific es ≠ 0 := by omega
      simp [firstKind,plain,next,last,kindStart]
    · simp [firstKind,plain,next,kindStart]
  · simp [firstKind,plain,kindStart]

private theorem loadLE_byte (m : Memory) (a w : Nat) : (m a).toNat = loadLE m a (w+1) % 256 := by
  have byte : (m a).toNat < 256 := (m a).toNat_lt
  rw [loadLE,read_succ,ofLittleEndian]
  omega

/-- The first byte of the padding is that of the first pointer, which depends on where the buffer is. -/
theorem first_pointer (es : List Entry) (nonempty : es ≠ []) : ∃ d, ∀ m m' config c, ConfigExpanded m m' config c es →
    (m' (listsOf config es)).toNat = (config + d) % 256 := by
  obtain ⟨counted,_⟩ := firstKind_spec 0 nonempty
  have addressed : (addresses (firstKind es) (located 0 0 es)).length ≠ 0 := by rwa [addresses_length]
  obtain ⟨d,rest,known⟩ := List.exists_cons_of_length_pos (Nat.pos_of_ne_zero addressed)
  refine ⟨configHeader + d,?_⟩
  intro m m' config c expanded
  have shift := addresses_shift (firstKind es) 0 0 (config + configHeader) (roomOf config es) es
  rw [Nat.zero_add,known,List.map_cons] at shift
  have slot := expanded.slot (firstKind es) 0 (d + (config + configHeader)) (by rw [shift]; rfl)
  rw [(firstKind_spec (listsOf config es) nonempty).2,Nat.mul_zero,Nat.add_zero,pointer] at slot
  rw [loadLE_byte m' (listsOf config es) 7,slot]
  congr 1
  omega

/-! ## The round trip -/

/-- The buffer, its entries, and the configuration that is expanded from it. -/
theorem built_expands (limit : WithinLimit (built reach machAbsoluteTime resolvers)) :
    ∃ (es : List Entry) (enough : Nat), es.map Entry.attributes = resolvers.map attributesOf ∧
      ConfigDescribes (built reach machAbsoluteTime resolvers) es ∧
      (built reach machAbsoluteTime resolvers).generation = machAbsoluteTime ∧
      (built reach machAbsoluteTime resolvers).version = dnsinfoVersion ∧
      (∀ p padding, List.Forall₂ (fun l R => Meant l.entry.resolver l.entry.attributes R) (located p padding es)
        (resolvers.map (meant reach))) ∧
      ∀ fuel > enough, ∀ m config, roomOf config es + pointer * entriesElements es < 2^64 →
        Holds m config (configBytes (built reach machAbsoluteTime resolvers)) → ∃ e, bufferExpand fuel config m = .done e ∧
          e.nPadding = 0 ∧ ConfigExpanded m e.memory config (built reach machAbsoluteTime resolvers) es := by
  rw [WithinLimit,configBytes_length,dnsConfigBufMax,configHeader] at limit
  obtain ⟨es,made,filled,describes,generation,version⟩ := @built_describes reach machAbsoluteTime resolvers (by omega)
  refine ⟨es,(es.flatMap Entry.attributes).length + es.length,filled,describes,generation,version,entries_meant made filled,?_⟩
  intro fuel enough m config top holds
  refine bufferExpand_expanded describes holds top ?_ (by omega)
  intro e member
  have le := (List.sublist_flatten_of_mem (List.mem_map_of_mem (f := Entry.attributes) member)).length_le
  rw [← List.flatMap_def] at le
  omega

private theorem lastEndsBare_iff (filled : es.map Entry.attributes = resolvers.map attributesOf) :
    LastEndsBare resolvers ↔ ∃ e, es.getLast? = some e ∧ EndsBare e.attributes := by
  have last : es.getLast?.map Entry.attributes = resolvers.getLast?.map attributesOf := by
    rw [← List.getLast?_map,filled,List.getLast?_map]
  constructor
  · rintro ⟨calls,final,bare⟩
    rw [final,Option.map_some,Option.map_eq_some_iff] at last
    obtain ⟨e,latest,same⟩ := last
    exact ⟨e,latest,same ▸ bare⟩
  · rintro ⟨e,latest,bare⟩
    rw [latest,Option.map_some,eq_comm,Option.map_eq_some_iff] at last
    obtain ⟨calls,final,same⟩ := last
    exact ⟨calls,final,same ▸ bare⟩

/-- The last resolver ends where the entries end. -/
theorem located_last (p padding : Nat) {e : Entry} (last : es.getLast? = some e) :
    ∃ l ∈ located p padding es, l.entry = e ∧ l.ending = p + (entriesBytes es).length := by
  obtain ⟨es,rfl⟩ := List.getLast?_eq_some_iff.mp last
  have size := e.size.2
  rw [located_snoc]
  refine ⟨_,List.mem_append_right _ (List.mem_singleton_self _),rfl,?_⟩
  rw [entriesBytes_append,entriesBytes_cons,entriesBytes_nil,List.append_nil,List.length_append,size,Located.ending]
  dsimp only
  omega

/-- If the last name goes on into the first pointer, it is not shown. -/
theorem ConfigExpanded.not_shows (expanded : ConfigExpanded m m' config c es) (describes : ConfigDescribes c es)
    (holds : Holds m config (configBytes c))
    (means : List.Forall₂ (fun l R => Meant l.entry.resolver l.entry.attributes R)
      (located (config + configHeader) (roomOf config es) es) (resolvers.map (meant reach)))
    {e : Entry} (last : es.getLast? = some e) (bare : EndsBare e.attributes) (nonzero : m' (listsOf config es) ≠ 0) :
    ¬ ShowsConfig m' limit config (meantConfig reach machAbsoluteTime resolvers) := by
  intro shows
  obtain ⟨l,member,rfl,ending⟩ := located_last (config + configHeader) (roomOf config es) last
  have inside : l ∈ (located (config + configHeader) (roomOf config es) es).filter (·.entry.kind = l.entry.kind) := by
    simpa using member
  obtain ⟨i,inside,found⟩ := List.getElem_of_mem inside
  obtain ⟨length,pairs⟩ := List.forall₂_iff_get.mp (@kinds_meant _ _ _ reach machAbsoluteTime resolvers means l.entry.kind)
  have meant := pairs i inside (by rwa [← length])
  have shown := shows.resolver l.entry.kind i _ (List.getElem?_eq_getElem (by rwa [← length]))
  have counted : i < kindCount l.entry.kind es := by
    rwa [← addresses_length l.entry.kind (config + configHeader) (roomOf config es) es,addresses,List.length_map]
  have address : (addresses l.entry.kind (located (config + configHeader) (roomOf config es) es))[i]? = some l.address := by
    rw [addresses,List.getElem?_map,List.getElem?_eq_getElem inside,found]
    rfl
  simp only [List.get_eq_getElem,found] at meant
  rw [expanded.list l.entry.kind (by omega),expanded.slot l.entry.kind i _ address] at shown
  rw [Located.ending,l.entry.describes.attributes] at ending
  refine (expanded.expanded l member).not_shows meant (expanded.attributes describes holds member).1 l.entry.describes.short
    bare ?_ shown
  rwa [ending]

/-- A name that goes on into the padding is not read everywhere. -/
theorem not_roundTrips (limit : WithinLimit (built reach machAbsoluteTime resolvers)) (ends : LastEndsBare resolvers) :
    ¬ RoundTrips reach machAbsoluteTime resolvers := by
  have accepted := bufferCreate_accepts limit
  obtain ⟨es,enough,filled,describes,generation,version,means,expands⟩ := built_expands limit
  have length (config : Nat) := @roomOf_length config _ es describes
  obtain ⟨e,last,bare⟩ := (lastEndsBare_iff filled).mp ends
  rintro ⟨contents,enough',created,reads⟩
  have same := Option.some.inj (accepted.symm.trans created)
  subst same
  have nonempty : es ≠ [] := by
    rintro rfl
    cases last
  obtain ⟨d,first⟩ := first_pointer es nonempty
  -- one of two neighbouring places gives a pointer that does not begin with a zero
  obtain ⟨config,aligned,low,nonzero⟩ : ∃ config, config % 16 = 0 ∧ config < 8192 ∧ (config + d) % 256 ≠ 0 := by
    by_cases zero : (4096 + d) % 256 = 0
    · exact ⟨4112,by decide,by decide,by omega⟩
    · exact ⟨4096,by decide,by decide,zero⟩
  have small := limit
  rw [WithinLimit,dnsConfigBufMax] at small
  have top : config + (configBytes (built reach machAbsoluteTime resolvers) ++
      zeros (built reach machAbsoluteTime resolvers).nPadding.toNat).length < 2^64 := by
    simp only [List.length_append,zeros,List.length_replicate]
    omega
  have holds : Holds _ config _ := read_write (fun _ => 0) config (configBytes (built reach machAbsoluteTime resolvers) ++
    zeros (built reach machAbsoluteTime resolvers).nPadding.toNat)
  have header := (holds_append.mp holds).1
  obtain ⟨e',done,_,shows⟩ := reads (enough + enough' + 1) (by omega) _ config aligned top holds
  obtain ⟨e'',done',_,expanded⟩ := expands (enough + enough' + 1) (by omega) _ config (by rwa [← length]) header
  obtain rfl : e' = e'' := by simpa [done] using done'
  refine expanded.not_shows describes header (means _ _) last bare ?_ shows
  intro zero
  have byte := first _ _ config _ expanded
  rw [zero] at byte
  exact nonzero byte.symm

private theorem roundTrips_of_terminated (limit : WithinLimit (built reach machAbsoluteTime resolvers))
    (terminated : ¬ LastEndsBare resolvers) : RoundTrips reach machAbsoluteTime resolvers := by
  obtain ⟨es,enough,filled,describes,generation,version,means,expands⟩ := built_expands limit
  rw [lastEndsBare_iff filled] at terminated
  refine ⟨_,enough,bufferCreate_accepts limit,?_⟩
  intro fuel more m config _ top holds
  have length := @roomOf_length config _ es describes
  rw [length] at top
  have header := (holds_append.mp holds).1
  obtain ⟨e,done,used,expanded⟩ := expands fuel more m config top header
  refine ⟨e,done,used,?_⟩
  rw [length]
  exact expanded.shows describes header generation version (means _ _) fun e last bare => terminated ⟨e,last,bare⟩

/-- A configuration is read as it is meant, wherever its buffer is, exactly if its last resolver does not end
with the name of an interface that fills its bytes: no terminator is put behind such a name. -/
theorem roundTrips_iff (limit : WithinLimit (built reach machAbsoluteTime resolvers)) :
    RoundTrips reach machAbsoluteTime resolvers ↔ ¬ LastEndsBare resolvers :=
  ⟨fun trips ends => not_roundTrips limit ends trips,roundTrips_of_terminated limit⟩

/-- A name of four bytes is lost at the end, not in front of a domain. -/
theorem roundTrips_igb0 :
    ¬ RoundTrips (fun _ => 0) 7 [[.setIfIndex 2 (some ⟨[105,103,98,48],by decide⟩)]] ∧
      RoundTrips (fun _ => 0) 7 [[.setIfIndex 2 (some ⟨[105,103,98,48],by decide⟩),.setDomain ⟨[97],by decide⟩]] := by
  constructor
  · rw [roundTrips_iff (by unfold WithinLimit; decide +kernel),not_not]
    exact ⟨_,rfl,_,rfl,by decide⟩
  · rw [roundTrips_iff (by unfold WithinLimit; decide +kernel)]
    rintro ⟨calls,last,name,bare,_⟩
    cases last
    cases bare

/-- Wherever the buffer is allocated, it is expanded and the padding is used up. -/
def Expands (reach : ResolverBuf → BitVec 32) (machAbsoluteTime : BitVec 64) (resolvers : List (List ResolverCall)) :
    Prop :=
  ∃ contents enough, bufferCreate (configBytes (built reach machAbsoluteTime resolvers)) = some contents ∧
    ∀ fuel > enough, ∀ m config, config % 16 = 0 → config + contents.length < 2^64 → Holds m config contents →
      ∃ e, bufferExpand fuel config m = .done e ∧ e.nPadding = 0

/-- The buffer of any configuration is accepted and expanded. Only the name at its end can be read as another one. -/
theorem expands_and_roundTrips_iff (limit : WithinLimit (built reach machAbsoluteTime resolvers)) :
    Expands reach machAbsoluteTime resolvers ∧
      (RoundTrips reach machAbsoluteTime resolvers ↔ ¬ LastEndsBare resolvers) := by
  refine ⟨?_,fun trips ends => not_roundTrips limit ends trips,roundTrips_of_terminated limit⟩
  obtain ⟨es,enough,_,describes,_,_,_,expands⟩ := built_expands limit
  refine ⟨_,enough,bufferCreate_accepts limit,?_⟩
  intro fuel more m config _ top holds
  rw [roomOf_length describes] at top
  obtain ⟨e,done,used,_⟩ := expands fuel more m config top (holds_append.mp holds).1
  exact ⟨e,done,used⟩

/-- A name of three bytes has its terminator. -/
theorem em0_read : RoundTrips (fun _ => 0) 7 [[.setIfIndex 1 (some ⟨[101,109,48],by decide⟩)]] := by
  refine (expands_and_roundTrips_iff (by unfold WithinLimit; decide +kernel)).2.mpr ?_
  rintro ⟨calls,last,name,bare,whole⟩
  cases last
  cases bare
  exact absurd whole (by decide)

theorem igb1_not_read :
    let resolvers : List (List ResolverCall) := [[.setDomain ⟨[97],by decide⟩,.setIfIndex 2 (some ⟨[105,103,98,49],by decide⟩)]]
    WithinLimit (built (fun _ => 0) 7 resolvers) ∧ ¬ RoundTrips (fun _ => 0) 7 resolvers := by
  have limit : WithinLimit (built (fun _ => 0) 7
      [[.setDomain ⟨[97],by decide⟩,.setIfIndex 2 (some ⟨[105,103,98,49],by decide⟩)]]) := by
    unfold WithinLimit
    decide +kernel
  exact ⟨limit,not_roundTrips limit ⟨_,rfl,_,rfl,by decide⟩⟩

end FreebsdLaunchd.DnsBuffer
