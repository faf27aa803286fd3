import FreebsdLaunchd.DnsBuffer.Filling

/-! One resolver of a buffer expanded: its numbers, its lists and its texts. -/
namespace FreebsdLaunchd.DnsBuffer
open CData ByteMemory

variable {m m' : Memory} {a b w k o padding n fuel : Nat} {r : ResolverBuf} {as : List Attribute}

/-! ## Fields in the order of the host -/

theorem loadLE_convert (m : Memory) (a w : Nat) : loadLE (convert m a w) a w = loadBE m a w := by
  rw [convert,loadLE_storeLE,Nat.mod_eq_of_lt (loadBE_lt m a w)]

theorem loadLE_convert_apart (apart : b + k ≤ a ∨ a + w ≤ b) : loadLE (convert m a w) b k = loadLE m b k :=
  loadLE_storeLE_apart apart

theorem loadBE_convert_apart (apart : b + k ≤ a ∨ a + w ≤ b) : loadBE (convert m a w) b k = loadBE m b k :=
  loadBE_storeLE_apart apart

theorem initList_done {count list k : Nat} (known : loadBE m count 4 = n) (room : pointer * n ≤ k)
    (small : pointer * n < 2^32) :
    initList count list ⟨m,padding,k⟩ =
      .done ⟨storeLE (convert m count 4) list pointer (if n = 0 then 0 else padding),padding + pointer * n,k - pointer * n⟩ := by
  have need : n * pointer % 2^32 = pointer * n := by
    rw [Nat.mul_comm]
    exact Nat.mod_eq_of_lt small
  have none : pointer * n = 0 ↔ n = 0 := by
    simp [pointer]
  simp only [initList,expandAddList,loadLE_convert,known,need,if_neg (Nat.not_lt.mpr room),Outcome.bind_done,none]

/-! ## The header -/

structure Header (m : Memory) (o : Nat) (r : ResolverBuf) : Prop where
  nNameserver : loadBE m (o+8) 4 = r.nNameserver.toNat
  port : loadBE m (o+20) 2 = r.port.toNat
  nSearch : loadBE m (o+24) 4 = r.nSearch.toNat
  nSortaddr : loadBE m (o+36) 4 = r.nSortaddr.toNat
  timeout : loadBE m (o+56) 4 = r.timeout.toNat
  searchOrder : loadBE m (o+60) 4 = r.searchOrder.toNat
  ifIndex : loadBE m (o+64) 4 = r.ifIndex.toNat
  flags : loadBE m (o+68) 4 = r.flags.toNat
  reachFlags : loadBE m (o+72) 4 = r.reachFlags.toNat
  serviceIdentifier : loadBE m (o+76) 4 = r.serviceIdentifier.toNat
  cid : loadLE m (o+80) 8 = 0
  ifName : loadLE m (o+88) 8 = 0
  nAttribute : loadBE m (o+96) 4 = r.attributes.length % 2^32
  attributes : Holds m (o+100) r.attributes

theorem holds_number {w : Nat} {x : BitVec (8*w)} (holds : Holds m a (bigEndian w x.toNat)) : loadBE m a w = x.toNat := by
  have bound : x.toNat < 256^w := by
    have := x.isLt
    rwa [Nat.pow_mul] at this
  rw [holds.loadBE,Nat.mod_eq_of_lt bound]

private theorem holds_zeros (holds : Holds m a (zeros 8)) : loadLE m a 8 = 0 := by
  have same : zeros 8 = littleEndian 8 0 := by decide
  rw [same] at holds
  exact holds.loadLE

theorem header_of_holds (holds : Holds m o (resolverBytes r)) : Header m o r := by
  have sixteen : zeros 16 = zeros 8 ++ zeros 8 := rfl
  have two (w : Nat) : (zeros w).length = w := List.length_replicate
  simp only [resolverBytes,sixteen,holds_append,List.append_assoc,bigEndian_length,two,Nat.add_assoc,Nat.reduceAdd] at holds
  obtain ⟨_,nNameserver,_,port,_,nSearch,_,nSortaddr,_,_,timeout,searchOrder,ifIndex,flags,reachFlags,serviceIdentifier,cid,
    ifName,nAttribute,attributes⟩ := holds
  exact {
    nNameserver := holds_number (w := 4) nNameserver
    port := holds_number (w := 2) port
    nSearch := holds_number (w := 4) nSearch
    nSortaddr := holds_number (w := 4) nSortaddr
    timeout := holds_number (w := 4) timeout
    searchOrder := holds_number (w := 4) searchOrder
    ifIndex := holds_number (w := 4) ifIndex
    flags := holds_number (w := 4) flags
    reachFlags := holds_number (w := 4) reachFlags
    serviceIdentifier := holds_number (w := 4) serviceIdentifier
    cid := holds_zeros cid
    ifName := holds_zeros ifName
    nAttribute := nAttribute.loadBE
    attributes := attributes }

structure Expanded (m : Memory) (o padding : Nat) (r : ResolverBuf) (as : List Attribute) : Prop where
  count : ∀ f : ListField, loadLE m (o + f.count) 4 = countOf f as
  list : ∀ f : ListField, countOf f as ≠ 0 → loadLE m (o + f.list) pointer = slotStart padding as f
  port : loadLE m (o + ResolverAt.port) 2 = r.port.toNat
  timeout : loadLE m (o + ResolverAt.timeout) 4 = r.timeout.toNat
  searchOrder : loadLE m (o + ResolverAt.searchOrder) 4 = r.searchOrder.toNat
  ifIndex : loadLE m (o + ResolverAt.ifIndex) 4 = r.ifIndex.toNat
  flags : loadLE m (o + ResolverAt.flags) 4 = r.flags.toNat
  reachFlags : loadLE m (o + ResolverAt.reachFlags) 4 = r.reachFlags.toNat
  serviceIdentifier : loadLE m (o + ResolverAt.serviceIdentifier) 4 = r.serviceIdentifier.toNat
  text : ∀ f : TextField, loadLE m (o + f.offset) pointer = textBody f (placed (o + resolverHeader) as)
  slot : ∀ f i body, (listBodies f (placed (o + resolverHeader) as))[i]? = some body →
    loadLE m (slotStart padding as f + pointer * i) pointer = body

/-- The numbers of a resolver are all in front of its attributes. -/
theorem ListField.count_spec (f : ListField) : 8 ≤ f.count ∧ f.count + 4 ≤ 48 := by
  cases f <;> decide

theorem Expanded.agree (expanded : Expanded m o padding r as) (header : Agree m m' o (o+96))
    (slots : Agree m m' padding (padding + pointer * elements as)) : Expanded m' o padding r as := by
  have field {a w : Nat} (above : o ≤ a) (below : a + w ≤ o + 96) : loadLE m' a w = loadLE m a w :=
    header.loadLE above below
  obtain ⟨count,list,port,timeout,searchOrder,ifIndex,flags,reachFlags,serviceIdentifier,text,slot⟩ := expanded
  refine ⟨?_,?_,?_,?_,?_,?_,?_,?_,?_,?_,?_⟩
  · intro f
    have := f.count_spec
    rw [← count f,field (by omega) (by omega)]
  · intro f some
    have := f.list_spec
    rw [← list f some,pointer,field (by omega) (by omega)]
  · rw [← port,ResolverAt.port,field (by omega) (by omega)]
  · rw [← timeout,ResolverAt.timeout,field (by omega) (by omega)]
  · rw [← searchOrder,ResolverAt.searchOrder,field (by omega) (by omega)]
  · rw [← ifIndex,ResolverAt.ifIndex,field (by omega) (by omega)]
  · rw [← flags,ResolverAt.flags,field (by omega) (by omega)]
  · rw [← reachFlags,ResolverAt.reachFlags,field (by omega) (by omega)]
  · rw [← serviceIdentifier,ResolverAt.serviceIdentifier,field (by omega) (by omega)]
  · intro f
    have := f.offset_spec
    rw [← text f,pointer,field (by omega) (by omega)]
  · intro f i body known
    have inside := (List.getElem?_eq_some_iff.mp known).1
    rw [listBodies_length] at inside
    obtain ⟨above,below⟩ := slot_spec padding as f inside
    rw [← slot f i body known]
    exact slots.loadLE above (by simpa only [pointer] using below)

/-! ## The numbers and the lists -/

def initialized (o : Nat) (lists : ListField → Nat) (m : Memory) : Memory :=
  let m := storeLE m (o + TextField.domain.offset) pointer 0
  let m := storeLE (convert m (o + ListField.nameserver.count) 4) (o + ListField.nameserver.list) pointer (lists .nameserver)
  let m := convert m (o + ResolverAt.port) 2
  let m := storeLE (convert m (o + ListField.search.count) 4) (o + ListField.search.list) pointer (lists .search)
  let m := storeLE (convert m (o + ListField.sortaddr.count) 4) (o + ListField.sortaddr.list) pointer (lists .sortaddr)
  initScalars o m

private theorem initialized_agree (o : Nat) (lists : ListField → Nat) (m : Memory)
    {lo hi : Nat} (apart : hi ≤ o ∨ o + 96 ≤ lo) :
    Agree m (initialized o lists m) lo hi := by
  have stored {m' : Memory} (before : Agree m m' lo hi) {a w n : Nat} (inside : o ≤ a ∧ a + w ≤ o + 96) :
      Agree m (storeLE m' a w n) lo hi := before.trans (agree_storeLE (by omega))
  simp only [initialized,initScalars,convert,ListField.count,ListField.list,TextField.offset,ResolverAt.port,ResolverAt.timeout,
    ResolverAt.searchOrder,ResolverAt.ifIndex,ResolverAt.flags,ResolverAt.reachFlags,ResolverAt.serviceIdentifier,pointer]
  repeat' first
    | exact Agree.refl m lo hi
    | refine stored ?_ (by omega)

/-- The header is in the order of the host, with the pointers to the lists. -/
structure Initialized (m : Memory) (o : Nat) (lists : ListField → Nat) (r : ResolverBuf) : Prop where
  count : ∀ f : ListField, loadLE m (o + f.count) 4 = (r.count f).toNat
  list : ∀ f : ListField, loadLE m (o + f.list) pointer = lists f
  texts : ∀ f : TextField, loadLE m (o + f.offset) pointer = 0
  nAttribute : loadBE m (o + ResolverAt.nAttribute) 4 = r.attributes.length % 2^32
  port : loadLE m (o + ResolverAt.port) 2 = r.port.toNat
  timeout : loadLE m (o + ResolverAt.timeout) 4 = r.timeout.toNat
  searchOrder : loadLE m (o + ResolverAt.searchOrder) 4 = r.searchOrder.toNat
  ifIndex : loadLE m (o + ResolverAt.ifIndex) 4 = r.ifIndex.toNat
  flags : loadLE m (o + ResolverAt.flags) 4 = r.flags.toNat
  reachFlags : loadLE m (o + ResolverAt.reachFlags) 4 = r.reachFlags.toNat
  serviceIdentifier : loadLE m (o + ResolverAt.serviceIdentifier) 4 = r.serviceIdentifier.toNat

/-- The stores one after another, with the places written out. -/
theorem initialized_eq (o : Nat) (lists : ListField → Nat) (m : Memory) : initialized o lists m =
    convert (convert (convert (convert (convert (convert (storeLE (storeLE (convert (storeLE (convert (convert
      (storeLE (convert (storeLE m o 8 0) (o+8) 4) (o+12) 8 (lists .nameserver))
      (o+20) 2) (o+24) 4) (o+28) 8 (lists .search)) (o+36) 4) (o+40) 8 (lists .sortaddr))
      (o+48) 8 0) (o+56) 4) (o+60) 4) (o+64) 4) (o+76) 4) (o+68) 4) (o+72) 4 := rfl

private theorem initialized_spec (header : Header m o r) {lists : ListField → Nat} (fits : ∀ f, lists f < 2^64) :
    Initialized (initialized o lists m) o lists r := by
  have small (f : ListField) : lists f % 256^8 = lists f := Nat.mod_eq_of_lt (fits f)
  obtain ⟨nNameserver,port,nSearch,nSortaddr,timeout,searchOrder,ifIndex,flags,reachFlags,serviceIdentifier,cid,ifName,
    nAttribute,_⟩ := header
  rw [initialized_eq]
  refine ⟨?_,?_,?_,?_,?_,?_,?_,?_,?_,?_,?_⟩
  · intro f
    cases f <;>
      simp (disch := omega) only [ListField.count,loadLE_convert,loadLE_convert_apart,loadBE_convert_apart,
        loadLE_storeLE_apart,loadBE_storeLE_apart,ResolverBuf.count,nNameserver,nSearch,nSortaddr]
  · intro f
    cases f <;>
      simp (disch := omega) only [ListField.list,pointer,loadLE_storeLE,loadLE_convert_apart,loadLE_storeLE_apart,small]
  · intro f
    cases f <;>
      simp (disch := omega) only [TextField.offset,pointer,Nat.add_zero,loadLE_storeLE,loadLE_convert_apart,
        loadLE_storeLE_apart,cid,ifName,Nat.zero_mod]
  · simp (disch := omega) only [ResolverAt.nAttribute,loadBE_convert_apart,loadBE_storeLE_apart,nAttribute]
  all_goals
    simp (disch := omega) only [ResolverAt.port,ResolverAt.timeout,ResolverAt.searchOrder,ResolverAt.ifIndex,
      ResolverAt.flags,ResolverAt.reachFlags,ResolverAt.serviceIdentifier,loadLE_convert,loadLE_convert_apart,
      loadLE_storeLE_apart,loadBE_convert_apart,loadBE_storeLE_apart,port,timeout,searchOrder,ifIndex,flags,reachFlags,
      serviceIdentifier]

/-! ## The resolver -/

def listAt (padding : Nat) (as : List Attribute) (f : ListField) : Nat :=
  if countOf f as = 0 then 0 else slotStart padding as f

/-- The buffer of a resolver, with the attributes and the numbers of them. -/
structure Describes (r : ResolverBuf) (as : List Attribute) : Prop where
  attributes : r.attributes = attributesBytes as
  count : ∀ f, (r.count f).toNat = countOf f as
  short : (attributesBytes as).length < 2^31

private theorem elements_small (short : (attributesBytes as).length < 2^31) : pointer * elements as < 2^31 := by
  have le := countOf_le as
  simp only [elements,pointer]
  omega

private theorem expandResolver_eq (describes : Describes r as) (header : Header m o r) (room : pointer * elements as ≤ n)
    (top : padding + pointer * elements as < 2^64) :
    expandResolver fuel o (resolverHeader + r.attributes.length) ⟨m,padding,n⟩ =
      (fillResolver fuel o ⟨initialized o (listAt padding as) m,o + resolverHeader,r.attributes.length,fun _ => 0⟩).bind fun s =>
      if s.filled .nameserver ≠ loadLE s.memory (o + ListField.nameserver.count) 4 ∨
          s.filled .search ≠ loadLE s.memory (o + ListField.search.count) 4 ∨
          s.filled .sortaddr ≠ loadLE s.memory (o + ListField.sortaddr.count) 4 then .null
      else .done ⟨s.memory,padding + pointer * elements as,n - pointer * elements as⟩ := by
  have small := elements_small describes.short
  have counts (f : ListField) := describes.count f
  simp only [elements,pointer] at small room top
  have first : loadBE (storeLE m (o + TextField.domain.offset) pointer 0) (o + ListField.nameserver.count) 4 =
      countOf .nameserver as := by
    rw [loadBE_storeLE_apart (by simp only [TextField.offset,ListField.count,pointer]; omega),← counts .nameserver]
    exact header.nNameserver
  rw [expandResolver,if_neg (by omega)]
  simp only
  rw [initList_done first (by simp only [pointer]; omega) (by simp only [pointer]; omega),Outcome.bind_done]
  generalize listed : storeLE (convert (storeLE m (o + TextField.domain.offset) pointer 0) (o + ListField.nameserver.count) 4)
    (o + ListField.nameserver.list) pointer (if countOf .nameserver as = 0 then 0 else padding) = m₁
  have second : loadBE (convert m₁ (o + ResolverAt.port) 2) (o + ListField.search.count) 4 = countOf .search as := by
    subst listed
    simp (disch := omega) only [TextField.offset,ListField.count,ListField.list,ResolverAt.port,pointer,loadBE_convert_apart,
      loadBE_storeLE_apart,header.nSearch,← counts .search]
    rfl
  rw [initList_done second (by simp only [pointer]; omega) (by simp only [pointer]; omega),Outcome.bind_done]
  generalize searched : storeLE (convert (convert m₁ (o + ResolverAt.port) 2) (o + ListField.search.count) 4)
    (o + ListField.search.list) pointer (if countOf .search as = 0 then 0 else padding + pointer * countOf .nameserver as) = m₂
  have third : loadBE m₂ (o + ListField.sortaddr.count) 4 = countOf .sortaddr as := by
    subst searched listed
    simp (disch := omega) only [TextField.offset,ListField.count,ListField.list,ResolverAt.port,pointer,loadBE_convert_apart,
      loadBE_storeLE_apart,header.nSortaddr,← counts .sortaddr]
    rfl
  rw [initList_done third (by simp only [pointer]; omega) (by simp only [pointer]; omega),Outcome.bind_done]
  have same : initScalars o (storeLE (convert m₂ (o + ListField.sortaddr.count) 4) (o + ListField.sortaddr.list) pointer
      (if countOf .sortaddr as = 0 then 0 else padding + pointer * countOf .nameserver as + pointer * countOf .search as)) =
      initialized o (listAt padding as) m := by
    subst searched listed
    simp only [initialized,listAt,slotStart,Nat.mul_add,Nat.add_assoc]
  have fits (f : ListField) : listAt padding as f < 2^64 := by
    cases f <;> simp only [listAt,slotStart,pointer] <;> split <;> omega
  have nAttribute := (initialized_spec header fits).nAttribute
  have short := describes.short
  rw [← describes.attributes] at short
  simp only [same,nAttribute,Nat.add_sub_cancel_left,Nat.mod_eq_of_lt (show r.attributes.length < 2^32 by omega),
    ne_eq,not_true,if_false]
  simp only [elements,Nat.mul_add,Nat.sub_sub,Nat.add_assoc]

/-- A resolver is expanded, and takes the room for its lists from the padding. -/
theorem expandResolver_expanded (describes : Describes r as) (holds : Holds m o (resolverBytes r))
    (room : pointer * elements as ≤ n) (below : o + resolverHeader + r.attributes.length ≤ padding)
    (top : padding + pointer * elements as < 2^64) (enough : as.length < fuel) :
    ∃ m', expandResolver fuel o (resolverHeader + r.attributes.length) ⟨m,padding,n⟩ =
        .done ⟨m',padding + pointer * elements as,n - pointer * elements as⟩ ∧
      Expanded m' o padding r as ∧
      ∀ x, (x < o ∨ o + 96 ≤ x) → (x < padding ∨ padding + pointer * elements as ≤ x) → m' x = m x := by
  have header := header_of_holds holds
  have short := describes.short
  have fits (f : ListField) : listAt padding as f < 2^64 := by
    have small := elements_small short
    cases f <;> simp only [listAt,slotStart,elements,pointer] at top ⊢ <;> split <;> omega
  have init := initialized_spec header fits
  have outside {lo hi : Nat} (apart : hi ≤ o ∨ o + 96 ≤ lo) := initialized_agree o (listAt padding as) m apart
  have layout : Layout (initialized o (listAt padding as) m) o padding as := by
    have attributes := header.attributes
    rw [describes.attributes] at attributes below
    refine ⟨?_,below,?_,init.texts,top,by omega⟩
    · exact attributes.agree (outside (.inr (by omega))) (le_refl _) (le_refl _)
    · intro f some
      rw [init.list f,listAt,if_neg some]
  obtain ⟨s,looped,filled⟩ := fillResolver_filled layout enough
  have untouched {x : Nat} (inside : o + 8 ≤ x ∧ x < o + 48 ∨ o + 56 ≤ x ∧ x < o + 80) :
      s.memory x = initialized o (listAt padding as) m x := by
    simp only [resolverHeader] at below
    exact filled.same x ⟨by omega,by omega⟩
  have low : Agree (initialized o (listAt padding as) m) s.memory (o+8) (o+48) := fun x above below => untouched (.inl ⟨above,below⟩)
  have high : Agree (initialized o (listAt padding as) m) s.memory (o+56) (o+80) :=
    fun x above below => untouched (.inr ⟨above,below⟩)
  have count (f : ListField) : loadLE s.memory (o + f.count) 4 = countOf f as := by
    have place := f.count_spec
    rw [low.loadLE (by omega) (by omega),init.count,describes.count]
  refine ⟨s.memory,?_,?_,?_⟩
  · rw [expandResolver_eq describes header room top,describes.attributes,looped,Outcome.bind_done]
    simp only [filled.filled,count,ne_eq,not_true,or_false,if_false]
  · refine ⟨count,?_,?_,?_,?_,?_,?_,?_,?_,filled.text,filled.slot⟩
    · intro f some
      have place := f.list_spec
      rw [pointer,low.loadLE (by omega) (by omega),← pointer,init.list,listAt,if_neg some]
    · rw [← init.port,ResolverAt.port,low.loadLE (by omega) (by omega)]
    · rw [← init.timeout,ResolverAt.timeout,high.loadLE (by omega) (by omega)]
    · rw [← init.searchOrder,ResolverAt.searchOrder,high.loadLE (by omega) (by omega)]
    · rw [← init.ifIndex,ResolverAt.ifIndex,high.loadLE (by omega) (by omega)]
    · rw [← init.flags,ResolverAt.flags,high.loadLE (by omega) (by omega)]
    · rw [← init.reachFlags,ResolverAt.reachFlags,high.loadLE (by omega) (by omega)]
    · rw [← init.serviceIdentifier,ResolverAt.serviceIdentifier,high.loadLE (by omega) (by omega)]
  · intro x header padding
    rw [filled.same x ⟨by omega,padding⟩]
    exact Agree.here (outside (by omega))

end FreebsdLaunchd.DnsBuffer
