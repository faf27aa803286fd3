import FreebsdLaunchd.DnsBuffer.Attributes

/-! The loop over the attributes of a resolver: it leaves a pointer to the last text of
each kind, and the pointers to the elements of the lists in the order of the attributes. -/
namespace FreebsdLaunchd.DnsBuffer
open CData ByteMemory

variable {m : Memory} {resolver padding : Nat} {as taken left : List Attribute} {a : Attribute} {s : Filling}

def elements (as : List Attribute) : Nat := countOf .nameserver as + countOf .search as + countOf .sortaddr as

def slotStart (padding : Nat) (as : List Attribute) : ListField → Nat
  | .nameserver => padding
  | .search => padding + pointer * countOf .nameserver as
  | .sortaddr => padding + pointer * (countOf .nameserver as + countOf .search as)

def Untouched (resolver padding : Nat) (as : List Attribute) (x : Nat) : Prop :=
  (x < resolver ∨ resolver + 8 ≤ x ∧ x < resolver + 48 ∨ resolver + 56 ≤ x ∧ x < resolver + 80 ∨ resolver + 96 ≤ x) ∧
    (x < padding ∨ padding + pointer * elements as ≤ x)

/-- The resolver at the start of the loop, with room for its lists. -/
structure Layout (m : Memory) (resolver padding : Nat) (as : List Attribute) : Prop where
  holds : Holds m (resolver + resolverHeader) (attributesBytes as)
  below : resolver + resolverHeader + (attributesBytes as).length ≤ padding
  lists : ∀ f, countOf f as ≠ 0 → loadLE m (resolver + f.list) pointer = slotStart padding as f
  texts : ∀ f : TextField, loadLE m (resolver + f.offset) pointer = 0
  top : padding + pointer * elements as < 2^64
  short : (attributesBytes as).length < 2^32

/-- The invariant of the loop, with the attributes taken so far and those left. -/
structure Filled (m : Memory) (resolver padding : Nat) (as taken left : List Attribute) (s : Filling) : Prop where
  all : as = taken ++ left
  position : s.position = resolver + resolverHeader + (attributesBytes taken).length
  size : s.nAttribute = (attributesBytes left).length
  filled : ∀ f, s.filled f = countOf f taken
  text : ∀ f : TextField,
    loadLE s.memory (resolver + f.offset) pointer = textBody f (placed (resolver + resolverHeader) taken)
  slot : ∀ f i body, (listBodies f (placed (resolver + resolverHeader) taken))[i]? = some body →
    loadLE s.memory (slotStart padding as f + pointer * i) pointer = body
  same : ∀ x, Untouched resolver padding as x → s.memory x = m x

theorem TextField.offset_apart {f g : TextField} (other : f ≠ g) : f.offset + 8 ≤ g.offset ∨ g.offset + 8 ≤ f.offset := by
  cases f <;> cases g <;> first | exact absurd rfl other | decide

theorem TextField.offset_spec (f : TextField) : f.offset + 8 ≤ 8 ∨ 48 ≤ f.offset ∧ f.offset + 8 ≤ 56 ∨ 80 ≤ f.offset ∧
    f.offset + 8 ≤ 96 := by
  cases f <;> decide

theorem ListField.list_spec (f : ListField) : 8 ≤ f.list ∧ f.list + 8 ≤ 48 := by
  cases f <;> decide

/-- The slots of the lists are in the padding, each at a place of its own. -/
theorem slot_spec (padding : Nat) (as : List Attribute) (f : ListField) {i : Nat} (inside : i < countOf f as) :
    padding ≤ slotStart padding as f + pointer * i ∧
      slotStart padding as f + pointer * i + 8 ≤ padding + pointer * elements as := by
  cases f <;> simp only [slotStart,elements,pointer] <;> omega

private theorem slot_apart (padding : Nat) (as : List Attribute) {f g : ListField} {i j : Nat} (inside : i < countOf f as)
    (inside' : j < countOf g as) (other : f ≠ g ∨ i ≠ j) :
    slotStart padding as f + pointer * i + 8 ≤ slotStart padding as g + pointer * j ∨
      slotStart padding as g + pointer * j + 8 ≤ slotStart padding as f + pointer * i := by
  cases f <;> cases g <;>
    simp only [slotStart,pointer,ne_eq,not_true,reduceCtorEq,not_false_iff,true_or,false_or] at other ⊢ <;>
    omega

section
variable {f : TextField} {g : ListField} {bs : List (Attribute × Nat)} {body : Nat}

theorem textBody_snoc (f : TextField) (bs : List (Attribute × Nat)) (a : Attribute) (body : Nat) :
    textBody f (bs ++ [(a,body)]) = if a.field = .inl f then body else textBody f bs := by
  by_cases same : a.field = .inl f
  · simp [textBody,same]
  · simp [textBody,same]

private theorem listBodies_snoc (g : ListField) (bs : List (Attribute × Nat)) (a : Attribute) (body : Nat) :
    listBodies g (bs ++ [(a,body)]) = if a.field = .inr g then listBodies g bs ++ [body] else listBodies g bs := by
  by_cases same : a.field = .inr g
  · simp [listBodies,same]
  · simp [listBodies,same]

end

theorem Filled.reads (filled : Filled m resolver padding as taken (a::left) s) (layout : Layout m resolver padding as) :
    loadBE s.memory s.position 4 = a.type ∧ loadBE s.memory (s.position + 4) 4 = a.bytes.length ∧
      s.position + a.bytes.length ≤ padding := by
  obtain ⟨all,position,_,_,_,_,same⟩ := filled
  have holds := layout.holds
  have below := layout.below
  have short := layout.short
  rw [all,attributesBytes_append,attributesBytes_cons,List.length_append,List.length_append] at below short
  rw [all,attributesBytes_append,attributesBytes_cons,holds_append,holds_append,← position] at holds
  have agree : Agree m s.memory s.position (s.position + a.bytes.length) := by
    intro x above before
    refine same x ⟨?_,?_⟩
    · simp only [resolverHeader] at position
      omega
    · omega
  have here := holds.2.1.agree agree (le_refl _) (le_refl _)
  have size : a.bytes.length = attributeHeader + roundup a.data.length 4 := attributeBytes_length a.type a.data
  obtain ⟨type,length,_⟩ := holds_attributeBytes here a.type_lt (by rw [← size]; omega)
  exact ⟨type,length.trans size.symm,by omega⟩

private theorem countOf_snoc (f : ListField) (as : List Attribute) (a : Attribute) :
    countOf f (as ++ [a]) = if a.field = .inr f then countOf f as + 1 else countOf f as := by
  by_cases same : a.field = .inr f
  · simp [countOf,same]
  · simp [countOf,same]

theorem placed_snoc (p : Nat) (as : List Attribute) (a : Attribute) :
    placed p (as ++ [a]) = placed p as ++ [(a,p + (attributesBytes as).length + attributeHeader)] := by
  rw [placed_append]
  rfl

/-- The parts of the invariant that do not depend on what has been stored. -/
theorem Filled.next (filled : Filled m resolver padding as taken (a::left) s) (layout : Layout m resolver padding as)
    (s' : Filling) (count : ∀ f, s'.filled f = countOf f (taken ++ [a])) (position : s'.position = s.position)
    (size : s'.nAttribute = s.nAttribute)
    (text : ∀ f : TextField, loadLE s'.memory (resolver + f.offset) pointer =
      textBody f (placed (resolver + resolverHeader) (taken ++ [a])))
    (slot : ∀ f i body, (listBodies f (placed (resolver + resolverHeader) (taken ++ [a])))[i]? = some body →
      loadLE s'.memory (slotStart padding as f + pointer * i) pointer = body)
    (same : ∀ x, Untouched resolver padding as x → s'.memory x = m x) :
    Filled m resolver padding as (taken ++ [a]) left (s'.advance a.bytes.length) := by
  have short := layout.short
  have bytes := filled.size
  rw [filled.all,attributesBytes_append,List.length_append] at short
  rw [attributesBytes_cons,List.length_append] at bytes short
  refine ⟨?_,?_,?_,count,text,slot,same⟩
  · rw [filled.all,List.append_assoc]
    rfl
  · show s'.position + a.bytes.length = _
    rw [position,filled.position,attributesBytes_append,List.length_append,attributesBytes_cons,attributesBytes_nil,
      List.append_nil,Nat.add_assoc]
  · show (s'.nAttribute + 2^32 - a.bytes.length) % 2^32 = _
    rw [size,bytes]
    omega

/-- A round for a text, whose pointer replaces an earlier one. -/
theorem attributeStep_text (layout : Layout m resolver padding as)
    (filled : Filled m resolver padding as taken (a::left) s) {f : TextField} (field : a.field = .inl f) :
    ∃ s', attributeStep resolver s = .done s' ∧ Filled m resolver padding as (taken ++ [a]) left s' := by
  obtain ⟨type,length,below⟩ := filled.reads layout
  have own := f.offset_spec
  have header : a.bytes.length = attributeHeader + roundup a.data.length 4 := attributeBytes_length a.type a.data
  have top := layout.top
  have low := layout.below
  have position := filled.position
  simp only [resolverHeader,attributeHeader] at header low position
  have fits : s.position + 8 < 256^8 := by omega
  refine ⟨_,?_,filled.next layout
    {s with memory := storeLE s.memory (resolver + f.offset) pointer (s.position + attributeHeader)} ?_ rfl rfl ?_ ?_ ?_⟩
  · simp only [attributeStep,type,length,fieldOf_type,field]
  · intro g
    simp only [filled.filled g,countOf_snoc,field,reduceCtorEq,if_false]
  · intro g
    rw [placed_snoc,textBody_snoc,field]
    by_cases same : g = f
    · subst same
      rw [if_pos rfl,pointer,attributeHeader,loadLE_storeLE,Nat.mod_eq_of_lt fits,position]
      rfl
    · have apart := TextField.offset_apart same
      rw [if_neg (by simpa using Ne.symm same),← filled.text g]
      exact loadLE_storeLE_apart (by simp only [pointer]; omega)
  · intro g i body known
    rw [placed_snoc,listBodies_snoc,field,if_neg (by simp)] at known
    have inside := (List.getElem?_eq_some_iff.mp known).1
    rw [listBodies_length] at inside
    have within : i < countOf g as := by
      rw [filled.all,countOf_append]
      omega
    obtain ⟨above,_⟩ := slot_spec padding as g within
    rw [← filled.slot g i body known]
    exact loadLE_storeLE_apart (by simp only [pointer] at above ⊢; omega)
  · intro x untouched
    rw [← filled.same x untouched]
    obtain ⟨apart,_⟩ := untouched
    exact storeLE_outside (by simp only [pointer]; omega)

/-- A round for an element of a list, whose pointer goes to the next slot. -/
theorem attributeStep_list (layout : Layout m resolver padding as)
    (filled : Filled m resolver padding as taken (a::left) s) {f : ListField} (field : a.field = .inr f) :
    ∃ s', attributeStep resolver s = .done s' ∧ Filled m resolver padding as (taken ++ [a]) left s' := by
  obtain ⟨type,length,below⟩ := filled.reads layout
  have header : a.bytes.length = attributeHeader + roundup a.data.length 4 := attributeBytes_length a.type a.data
  have top := layout.top
  have low := layout.below
  have position := filled.position
  simp only [resolverHeader,attributeHeader] at header low position
  have fits : s.position + 8 < 256^8 := by omega
  have next : countOf f taken < countOf f as := by
    rw [filled.all,countOf_append]
    have here : 0 < countOf f (a::left) := by simp [countOf,field]
    omega
  obtain ⟨above,inside⟩ := slot_spec padding as f next
  have list : loadLE s.memory (resolver + f.list) pointer = slotStart padding as f := by
    rw [← layout.lists f (by omega)]
    have within := f.list_spec
    refine Agree.loads fun x from' to' => filled.same x ⟨?_,?_⟩
    · simp only [pointer] at to'
      omega
    · simp only [pointer] at to'
      omega
  have nonzero : slotStart padding as f ≠ 0 := by
    cases f <;> simp only [slotStart] <;> omega
  refine ⟨_,?_,filled.next layout
    {s with
      memory := storeLE s.memory (slotStart padding as f + pointer * countOf f taken) pointer (s.position + attributeHeader)
      filled := Function.update s.filled f (countOf f taken + 1)} ?_ rfl rfl ?_ ?_ ?_⟩
  · simp only [attributeStep,type,length,fieldOf_type,field,list,if_neg nonzero,filled.filled f]
  · intro g
    rw [countOf_snoc,field]
    by_cases same : g = f
    · subst same
      simp
    · simp [same,Ne.symm same,filled.filled g]
  · intro g
    rw [placed_snoc,textBody_snoc,field,if_neg (by simp),← filled.text g]
    have own := g.offset_spec
    exact loadLE_storeLE_apart (by simp only [pointer] at above ⊢; omega)
  · intro g i body known
    rw [placed_snoc,listBodies_snoc,field] at known
    by_cases same : f = g
    · subst same
      rw [if_pos rfl] at known
      by_cases last : i < countOf f taken
      · rw [List.getElem?_append_left (by rwa [listBodies_length])] at known
        rw [← filled.slot f i body known]
        have apart := slot_apart padding as (i := i) (j := countOf f taken) (f := f) (g := f) (by omega) next (.inr (by omega))
        exact loadLE_storeLE_apart (by simp only [pointer] at apart ⊢; omega)
      · have inside := (List.getElem?_eq_some_iff.mp known).1
        rw [List.length_append,listBodies_length,List.length_singleton] at inside
        obtain rfl : i = countOf f taken := by omega
        rw [List.getElem?_append_right (by rw [listBodies_length]),listBodies_length,Nat.sub_self] at known
        obtain rfl := Option.some.inj known
        rw [pointer,attributeHeader,loadLE_storeLE,Nat.mod_eq_of_lt fits,position]
        rfl
    · rw [if_neg (by simpa using same)] at known
      have inside := (List.getElem?_eq_some_iff.mp known).1
      rw [listBodies_length] at inside
      have within : i < countOf g as := by
        rw [filled.all,countOf_append]
        omega
      rw [← filled.slot g i body known]
      have apart := slot_apart padding as within next (.inl (Ne.symm same))
      exact loadLE_storeLE_apart (by simp only [pointer] at apart ⊢; omega)
  · intro x untouched
    rw [← filled.same x untouched]
    obtain ⟨_,apart⟩ := untouched
    exact storeLE_outside (by simp only [pointer] at above inside apart ⊢; omega)

/-- The loop ends, with every attribute in its place. -/
theorem fillResolver_filled {fuel : Nat} (layout : Layout m resolver padding as)
    (enough : as.length < fuel) :
    ∃ s', fillResolver fuel resolver ⟨m,resolver + resolverHeader,(attributesBytes as).length,fun _ => 0⟩ = .done s' ∧
      Filled m resolver padding as as [] s' := by
  have start : Filled m resolver padding as [] as ⟨m,resolver + resolverHeader,(attributesBytes as).length,fun _ => 0⟩ :=
    ⟨rfl,rfl,rfl,fun _ => rfl,layout.texts,nofun,fun _ _ => rfl⟩
  refine Outcome.loop_items (Filled m resolver padding as) ?_ ?_ start enough
  · intro taken s filled
    simp [filled.size,attributeHeader]
  · intro taken a left s filled
    refine ⟨?_,?_⟩
    · have header : a.bytes.length = attributeHeader + roundup a.data.length 4 := attributeBytes_length a.type a.data
      rw [decide_eq_true_iff,filled.size,attributesBytes_cons,List.length_append]
      omega
    · cases field : a.field with
      | inl f => exact attributeStep_text layout filled field
      | inr f => exact attributeStep_list layout filled field

end FreebsdLaunchd.DnsBuffer
