import FreebsdLaunchd.Liblaunch.Data
import Mathlib.Logic.Relation

/-! The trees a buffer lays out, apart from the decoder: which bytes are a node,
where its elements begin and where it ends. Lengths are taken as the decoder
takes them, in `size_t`, so that the layout also speaks of hostile bytes. -/
namespace FreebsdLaunchd.Liblaunch
open CData

def valueAt (data : Bytes) (o : Nat) : UInt64 := longAt data (o+8)

def countAt (data : Bytes) (o : Nat) : UInt64 := longAt data (o+16)

/-- A whole node of the given type begins at `o`. -/
structure NodeAt (data : Bytes) (o : Nat) (type : DataType) : Prop where
  inside : o + nodeSize ≤ data.length
  typed : DataType.ofWord (longAt data o) = some type

def firstElement (o count : Nat) : Nat := o + nodeSize + sizeT (count*8)

mutual
/-- The bytes from `o` to `e` are `d`, with the descriptor numbers of the sender. -/
def Lays (data : Bytes) (d : LaunchData) (o e : Nat) : Prop :=
  match d with
  | .null => False
  | .scalar type word => NodeAt data o (.scalar type) ∧ valueAt data o = word ∧ e = o + nodeSize
  | .string len memory =>
    NodeAt data o .string ∧ countAt data o = len ∧ o + nodeSize + sizeT (len.toNat+1) ≤ data.length ∧
      memory = (data.drop (o + nodeSize)).take (len.toNat+1) ∧
      e = o + nodeSize + roundToWord (sizeT (len.toNat+1))
  | .opaqueData size memory =>
    NodeAt data o .opaqueData ∧ countAt data o = size ∧ o + nodeSize + size.toNat ≤ data.length ∧
      memory = (data.drop (o + nodeSize)).take size.toNat ∧ e = o + nodeSize + roundToWord size.toNat
  | .aggregate type array =>
    NodeAt data o (.aggregate type) ∧ (countAt data o).toNat = array.length ∧
      firstElement o array.length ≤ data.length ∧ LaysAll data array (firstElement o array.length) e
def LaysAll (data : Bytes) (array : List LaunchData) (o e : Nat) : Prop :=
  match array with
  | [] => o = e
  | d::rest => ∃ next, Lays data d o next ∧ LaysAll data rest next e
end

def ElementAt (data : Bytes) (o i o' : Nat) : Prop :=
  ∃ type, NodeAt data o (.aggregate type) ∧ firstElement o (countAt data o).toNat ≤ data.length ∧
    i < (countAt data o).toNat ∧
    ∃ before, before.length = i ∧ LaysAll data before (firstElement o (countAt data o).toNat) o'

/-- Decoding at the first offset comes to the second. -/
def Reaches (data : Bytes) : Nat → Nat → Prop := Relation.ReflTransGen fun o o' => ∃ i, ElementAt data o i o'

/-- What the decoder compares with the bytes that remain behind a node. -/
def compared (type : DataType) (count : UInt64) : Nat :=
  match type with
  | .aggregate _ => sizeT (count.toNat*8)
  | .string => sizeT (count.toNat+1)
  | .opaqueData => count.toNat
  | .scalar _ => 0

/-- The node at `o` takes the decoder out of the buffer: its length fits and
its padding does not, or its count wraps to nothing and there is no room for
the first element pointer. -/
def Overruns (data : Bytes) (o : Nat) : Prop :=
  (∃ type, NodeAt data o type ∧ o + nodeSize + compared type (countAt data o) ≤ data.length ∧
    data.length < o + nodeSize + roundToWord (compared type (countAt data o))) ∨
  ∃ type, NodeAt data o (.aggregate type) ∧ countAt data o ≠ 0 ∧ compared (.aggregate type) (countAt data o) = 0 ∧
    data.length < o + nodeSize + 8

/-- Decoding at `o` comes to a node that overruns. -/
def Hazard (data : Bytes) (o : Nat) : Prop := ∃ o', Reaches data o o' ∧ Overruns data o'

mutual
/-- The tree with its descriptors replaced, in order, by those received from
number `k` on, and the number of the next one. -/
def renumber (fds : List Int32) (d : LaunchData) (k : Nat) : LaunchData × Nat :=
  match d with
  | .scalar .fd word =>
    if word != noFd && k < fds.length then (.scalar .fd (fds.getD k 0).toInt64.toUInt64,k+1)
    else (.scalar .fd word,k)
  | .aggregate type array => (.aggregate type (renumberAll fds array k).1,(renumberAll fds array k).2)
  | d => (d,k)
def renumberAll (fds : List Int32) (array : List LaunchData) (k : Nat) : List LaunchData × Nat :=
  match array with
  | [] => ([],k)
  | d::rest =>
    ((renumber fds d k).1 :: (renumberAll fds rest (renumber fds d k).2).1,
      (renumberAll fds rest (renumber fds d k).2).2)
end

variable {data : Bytes} {o e o' e' i k : Nat} {d d' : LaunchData} {array : List LaunchData}

/-! ## The layout is a function of the bytes -/

theorem NodeAt.type_unique {type type' : DataType} (node : NodeAt data o type) (node' : NodeAt data o type') :
    type = type' :=
  Option.some.inj (node.typed.symm.trans node'.typed)

theorem laysAll_append {before after : List LaunchData} :
    LaysAll data (before ++ after) o e ↔ ∃ m, LaysAll data before o m ∧ LaysAll data after m e := by
  induction before generalizing o with
  | nil => simp [LaysAll]
  | cons d rest ih =>
    simp only [List.cons_append,LaysAll,ih]
    constructor
    · rintro ⟨next,first,m,left,right⟩
      exact ⟨m,⟨next,first,left⟩,right⟩
    · rintro ⟨m,⟨next,first,left⟩,right⟩
      exact ⟨next,first,m,left,right⟩

private theorem laysAll_unique {array' : List LaunchData}
    (unique : ∀ d ∈ array, ∀ d' o e e', Lays data d o e → Lays data d' o e' → d = d' ∧ e = e')
    (same : array.length = array'.length) (left : LaysAll data array o e) (right : LaysAll data array' o e') :
    array = array' ∧ e = e' := by
  induction array generalizing o array' with
  | nil =>
    obtain rfl := List.eq_nil_of_length_eq_zero same.symm
    exact ⟨rfl,left.symm.trans right⟩
  | cons d rest ih =>
    cases array' with
    | nil => cases same
    | cons d' rest' =>
      obtain ⟨next,first,later⟩ := left
      obtain ⟨next',first',later'⟩ := right
      obtain ⟨rfl,rfl⟩ := unique d (List.mem_cons_self) d' o next next' first first'
      obtain ⟨rfl,rfl⟩ := ih (fun d member => unique d (List.mem_cons_of_mem _ member))
        (Nat.succ.inj same) later later'
      exact ⟨rfl,rfl⟩

theorem Lays.node (lays : Lays data d o e) : ∃ type, NodeAt data o type := by
  cases d with
  | null => exact absurd lays id
  | scalar type word => exact ⟨_,lays.1⟩
  | string len memory => exact ⟨_,lays.1⟩
  | opaqueData size memory => exact ⟨_,lays.1⟩
  | aggregate type array => exact ⟨_,lays.1⟩

theorem Lays.unique (left : Lays data d o e) (right : Lays data d' o e') : d = d' ∧ e = e' := by
  induction d using LaunchData.induction generalizing o e d' e' with
  | null => exact absurd left id
  | scalar type word =>
    obtain ⟨node,rfl,rfl⟩ := left
    cases d' with
    | null => exact absurd right id
    | scalar type' word' =>
      obtain ⟨node',rfl,rfl⟩ := right
      obtain ⟨⟩ := node.type_unique node'
      exact ⟨rfl,rfl⟩
    | string => exact absurd (node.type_unique right.1) (by simp)
    | opaqueData => exact absurd (node.type_unique right.1) (by simp)
    | aggregate => exact absurd (node.type_unique right.1) (by simp)
  | string len memory =>
    obtain ⟨node,rfl,_,rfl,rfl⟩ := left
    cases d' with
    | null => exact absurd right id
    | scalar => exact absurd (node.type_unique right.1) (by simp)
    | string len' memory' =>
      obtain ⟨_,rfl,_,rfl,rfl⟩ := right
      exact ⟨rfl,rfl⟩
    | opaqueData => exact absurd (node.type_unique right.1) (by simp)
    | aggregate => exact absurd (node.type_unique right.1) (by simp)
  | opaqueData size memory =>
    obtain ⟨node,rfl,_,rfl,rfl⟩ := left
    cases d' with
    | null => exact absurd right id
    | scalar => exact absurd (node.type_unique right.1) (by simp)
    | string => exact absurd (node.type_unique right.1) (by simp)
    | opaqueData size' memory' =>
      obtain ⟨_,rfl,_,rfl,rfl⟩ := right
      exact ⟨rfl,rfl⟩
    | aggregate => exact absurd (node.type_unique right.1) (by simp)
  | aggregate type array ih =>
    obtain ⟨node,count,_,elements⟩ := left
    cases d' with
    | null => exact absurd right id
    | scalar => exact absurd (node.type_unique right.1) (by simp)
    | string => exact absurd (node.type_unique right.1) (by simp)
    | opaqueData => exact absurd (node.type_unique right.1) (by simp)
    | aggregate type' array' =>
      obtain ⟨node',count',_,elements'⟩ := right
      obtain ⟨⟩ := node.type_unique node'
      have same : array.length = array'.length := count.symm.trans count'
      rw [← same] at elements'
      obtain ⟨rfl,rfl⟩ := laysAll_unique (fun d member d' o e e' => ih d member) same elements elements'
      exact ⟨rfl,rfl⟩

/-! ## What a layout occupies -/

private theorem laysAll_extent (extent : ∀ d ∈ array, ∀ o e, Lays data d o e → o + nodeSize ≤ e)
    (lays : LaysAll data array o e) : o + nodeSize * array.length ≤ e := by
  induction array generalizing o with
  | nil =>
    obtain rfl := lays
    simp
  | cons d rest ih =>
    obtain ⟨next,first,later⟩ := lays
    have here := extent d List.mem_cons_self o next first
    have there := ih (fun d member => extent d (List.mem_cons_of_mem _ member)) later
    rw [List.length_cons,Nat.mul_succ]
    omega

theorem Lays.extent (lays : Lays data d o e) : o + nodeSize ≤ e := by
  induction d using LaunchData.induction generalizing o e with
  | null => exact absurd lays id
  | scalar type word =>
    obtain ⟨_,_,rfl⟩ := lays
    exact Nat.le_refl _
  | string len memory =>
    obtain ⟨_,_,_,_,rfl⟩ := lays
    exact Nat.le_add_right _ _
  | opaqueData size memory =>
    obtain ⟨_,_,_,_,rfl⟩ := lays
    exact Nat.le_add_right _ _
  | aggregate type array ih =>
    obtain ⟨_,_,_,elements⟩ := lays
    have all := laysAll_extent (fun d member o e => ih d member) elements
    simp only [firstElement] at all
    omega

theorem LaysAll.extent (lays : LaysAll data array o e) : o + nodeSize * array.length ≤ e :=
  laysAll_extent (fun _ _ _ _ => Lays.extent) lays

/-- Every element begins inside the buffer with a whole node. -/
theorem LaysAll.inside (lays : LaysAll data array o e) (some' : array ≠ []) :
    o + nodeSize * array.length ≤ data.length := by
  have split := List.dropLast_concat_getLast some'
  rw [← split,laysAll_append] at lays
  obtain ⟨m,before,last⟩ := lays
  obtain ⟨_,last,_⟩ := last
  obtain ⟨_,node⟩ := last.node
  have all := before.extent
  have count : array.length = array.dropLast.length + 1 := by
    rw [List.length_dropLast]
    have some' := List.length_pos_iff.mpr some'
    omega
  have inside := node.inside
  rw [count,Nat.mul_succ]
  omega

/-- In a buffer that memory can hold, the elements that are there can be counted. -/
theorem LaysAll.countable (small : data.length < objectMax) (lays : LaysAll data array o e) :
    array.length*8 < 2^64 := by
  rcases array with _ | ⟨d,rest⟩
  · simp
  · have inside := lays.inside (by simp)
    simp only [objectMax,nodeSize] at small inside
    omega

/-! ## The nodes of a layout -/

/-- The elements are exactly what the tree has at their positions. -/
theorem elementAt_of_lays {type : Aggregate} (lays : Lays data (.aggregate type array) o e) :
    ElementAt data o i o' ↔ ∃ before d after e', array = before ++ d::after ∧ before.length = i ∧
      LaysAll data before (firstElement o array.length) o' ∧ Lays data d o' e' := by
  obtain ⟨node,count,room,elements⟩ := lays
  constructor
  · rintro ⟨_,_,_,inside,before,rfl,there⟩
    rw [count] at there inside
    have split : array = array.take before.length ++ array[before.length] :: array.drop (before.length+1) := by
      rw [List.getElem_cons_drop,List.take_append_drop]
    have length : (array.take before.length).length = before.length := by
      rw [List.length_take]
      omega
    rw [split,laysAll_append,← split] at elements
    obtain ⟨m,left,next,here,_⟩ := elements
    obtain ⟨same,rfl⟩ := laysAll_unique (fun _ _ _ _ _ _ => Lays.unique) length left there
    exact ⟨_,_,_,next,split,length,left,here⟩
  · rintro ⟨before,d,after,e',rfl,rfl,there,_⟩
    refine ⟨type,node,?_,?_,before,rfl,?_⟩
    · rw [count]
      exact room
    · rw [count]
      simp
    · rw [count]
      exact there

/-- Nothing else is reached from a node that has no elements. -/
theorem reaches_leaf {type : DataType} (node : NodeAt data o type) (leaf : ∀ kind, type ≠ .aggregate kind)
    (reached : Reaches data o o') : o' = o := by
  rcases Relation.ReflTransGen.cases_head reached with same | ⟨_,⟨_,kind,node',_⟩,_⟩
  · exact same.symm
  · exact absurd (node.type_unique node') (leaf kind)

theorem Hazard.here (overruns : Overruns data o) : Hazard data o := ⟨o,.refl,overruns⟩

theorem Hazard.of_element (element : ElementAt data o i o') (hazard : Hazard data o') : Hazard data o := by
  obtain ⟨place,reached,overruns⟩ := hazard
  exact ⟨place,.head ⟨i,element⟩ reached,overruns⟩

theorem Lays.element {type : Aggregate} (lays : Lays data d o e) (node : NodeAt data o (.aggregate type)) :
    ∃ array, d = .aggregate type array := by
  cases d with
  | null => exact absurd lays id
  | scalar => exact absurd (node.type_unique lays.1) (by simp)
  | string => exact absurd (node.type_unique lays.1) (by simp)
  | opaqueData => exact absurd (node.type_unique lays.1) (by simp)
  | aggregate type' array =>
    obtain ⟨⟩ := node.type_unique lays.1
    exact ⟨array,rfl⟩

/-- What is reached inside a layout is laid out as well. -/
theorem Lays.reached (lays : Lays data d o e) (reached : Reaches data o o') : ∃ d' e', Lays data d' o' e' := by
  induction reached with
  | refl => exact ⟨d,e,lays⟩
  | tail _ step ih =>
    obtain ⟨d',e',here⟩ := ih
    obtain ⟨i,element⟩ := step
    obtain ⟨type,node,_⟩ := id element
    obtain ⟨array,rfl⟩ := here.element node
    obtain ⟨_,d'',_,e'',_,_,_,there⟩ := (elementAt_of_lays here).mp element
    exact ⟨d'',e'',there⟩

end FreebsdLaunchd.Liblaunch
