import FreebsdLaunchd.Liblaunch.Hostile
import Mathlib.Data.List.Forall2

/-! What the accessors take for granted of a tree, and what the decoder makes
sure of. It looks at types and lengths only, so that the shape of a received
tree is the shape of the bytes. -/
namespace FreebsdLaunchd.Liblaunch
open CData

def LaunchData.elements : LaunchData → List LaunchData
  | .aggregate _ array => array
  | _ => []

def LaunchData.IsString : LaunchData → Prop
  | .string _ _ => True
  | _ => False

/-- One node: not NULL; a string has its NUL, opaque data its bytes; the
elements of a dictionary come in pairs with a string first. -/
def Shaped : LaunchData → Prop
  | .null => False
  | .scalar _ _ => True
  | .string _ memory => 0 ∈ memory
  | .opaqueData size memory => size.toNat ≤ memory.length
  | .aggregate .dictionary array =>
    array.length % 2 = 0 ∧ ∀ (i : Nat) d, i % 2 = 0 → array[i]? = some d → d.IsString
  | .aggregate .array _ => True

inductive WellFormed : LaunchData → Prop
  | node {d : LaunchData} (shaped : Shaped d) (elements : ∀ x ∈ d.elements, WellFormed x) : WellFormed d

def Within : LaunchData → LaunchData → Prop := Relation.ReflTransGen fun d x => x ∈ d.elements

/-- The tree is well formed and no accessor goes wrong on any node of it. -/
def Sound (d : LaunchData) : Prop :=
  WellFormed d ∧ ∀ x, Within d x → (∀ key, launchDataDictLookup key x ≠ none) ∧
    launchDataDictIterate x ≠ none ∧ launchDataCopy x ≠ none

def ShapedAt (data : Bytes) (o : Nat) : Prop :=
  (NodeAt data o .string → 0 ∈ (data.drop (o+nodeSize)).take ((countAt data o).toNat+1)) ∧
  (NodeAt data o (.aggregate .dictionary) → (countAt data o).toNat % 2 = 0 ∧
    ∀ i o', i % 2 = 0 → ElementAt data o i o' → NodeAt data o' .string)

variable {data : Bytes} {o e k depth : Nat} {fds : List Int32} {base : UInt64}
variable {d x : LaunchData} {array : List LaunchData}

theorem WellFormed.shaped (wellFormed : WellFormed d) : Shaped d := by
  obtain ⟨shaped,_⟩ := wellFormed
  exact shaped

theorem WellFormed.element (wellFormed : WellFormed d) (member : x ∈ d.elements) : WellFormed x := by
  obtain ⟨_,elements⟩ := wellFormed
  exact elements x member

theorem WellFormed.within (wellFormed : WellFormed d) (within : Within d x) : WellFormed x := by
  induction within with
  | refl => exact wellFormed
  | tail _ step ih => exact ih.element step

/-! ## The accessors on well-formed trees -/

theorem toLower_nul {a : UInt8} (same : toLower a = toLower 0) : a = 0 := by
  have nul : toLower 0 = 0 := by decide
  rw [nul,toLower] at same
  split at same
  · rename_i letter
    simp only [Bool.and_eq_true,decide_eq_true_eq] at letter
    have low : 65 ≤ a.toNat := UInt8.le_iff_toNat_le.mp letter.1
    have high : a.toNat ≤ 90 := UInt8.le_iff_toNat_le.mp letter.2
    have sum := congrArg UInt8.toNat same
    simp only [UInt8.toNat_add] at sum
    change (a.toNat + 32) % 256 = 0 at sum
    omega
  · exact same

private theorem strcasecmp_total {key memory : Bytes} (plain : 0 ∉ key) (nul : 0 ∈ memory) :
    strcasecmp key memory ≠ none := by
  induction key generalizing memory with
  | nil =>
    cases memory with
    | nil => cases nul
    | cons b rest => simp [strcasecmp]
  | cons a key ih =>
    cases memory with
    | nil => cases nul
    | cons b rest =>
      rw [strcasecmp]
      split
      · rename_i same
        apply ih (fun later => plain (List.mem_cons_of_mem _ later))
        rcases List.mem_cons.mp nul with rfl | later
        · exact absurd (toLower_nul same) (fun zero => plain (zero ▸ List.mem_cons_self))
        · exact later
      · simp

def Paired : List LaunchData → Prop
  | [] => True
  | [_] => False
  | key::_::rest => (∃ len memory, key = .string len memory ∧ 0 ∈ memory) ∧ Paired rest

private theorem paired_of_shaped (even : array.length % 2 = 0)
    (keys : ∀ (i : Nat) d, i % 2 = 0 → array[i]? = some d → d.IsString) (elements : ∀ d ∈ array, WellFormed d) :
    Paired array := by
  induction array using Paired.induct with
  | case1 => exact trivial
  | case2 d => exact absurd even (by simp)
  | case3 key what rest ih =>
    have first := keys 0 key rfl rfl
    cases key with
    | string len memory =>
      refine ⟨⟨len,memory,rfl,(elements _ List.mem_cons_self).shaped⟩,ih ?_ ?_ ?_⟩
      · simp only [List.length_cons] at even
        omega
      · intro i d evenly found
        exact keys (i+2) d (by omega) found
      · intro d member
        exact elements d (List.mem_cons_of_mem _ (List.mem_cons_of_mem _ member))
    | _ => exact absurd first id

private theorem lookupPairs_total (key : CString) (paired : Paired array) : lookupPairs key array ≠ none := by
  induction array using Paired.induct with
  | case1 => simp [lookupPairs]
  | case2 d => exact absurd paired id
  | case3 k what rest ih =>
    obtain ⟨⟨len,memory,rfl,nul⟩,later⟩ := paired
    simp only [lookupPairs,keyMatches]
    cases compared : strcasecmp key.bytes memory with
    | none => exact absurd compared (strcasecmp_total key.noNul nul)
    | some same =>
      cases same with
      | true => simp
      | false => exact ih later

private theorem iteratePairs_total (paired : Paired array) : iteratePairs array ≠ none := by
  induction array using Paired.induct with
  | case1 => simp [iteratePairs]
  | case2 d => exact absurd paired id
  | case3 k what rest ih =>
    obtain ⟨⟨len,memory,rfl,_⟩,later⟩ := paired
    simpa [iteratePairs] using ih later

private theorem copyElements_total (total : ∀ d ∈ array, launchDataCopy d ≠ none) : copyElements array ≠ none := by
  induction array with
  | nil => simp [copyElements]
  | cons d rest ih =>
    have later := ih fun d member => total d (List.mem_cons_of_mem _ member)
    have first := total d List.mem_cons_self
    cases d with
    | null => exact absurd rfl first
    | _ =>
      simp only [copyElements]
      split
      · rename_i failed
        exact absurd failed first
      · simpa using later

theorem WellFormed.copy (wellFormed : WellFormed d) : launchDataCopy d ≠ none := by
  induction wellFormed with
  | @node d shaped elements ih =>
    cases d with
    | null => exact absurd shaped id
    | scalar type word => simp [launchDataCopy]
    | string len memory =>
      have nul : memory.contains 0 = true := List.contains_iff_mem.mpr shaped
      rw [launchDataCopy,if_pos nul]
      simp
    | opaqueData size memory =>
      have whole : size.toNat ≤ memory.length := shaped
      rw [launchDataCopy,if_neg (Nat.not_lt.mpr whole)]
      simp
    | aggregate type array =>
      have copied : copyElements array ≠ none := copyElements_total ih
      simpa [launchDataCopy] using copied

theorem WellFormed.sound (wellFormed : WellFormed d) : Sound d := by
  refine ⟨wellFormed,fun x within => ?_⟩
  have here := wellFormed.within within
  refine ⟨?_,?_,here.copy⟩
  · intro key
    cases x with
    | null => exact absurd here.shaped id
    | aggregate type array =>
      cases type with
      | dictionary =>
        obtain ⟨even,keys⟩ := here.shaped
        exact lookupPairs_total key (paired_of_shaped even keys fun d member => here.element member)
      | array => simp [launchDataDictLookup]
    | _ => simp [launchDataDictLookup]
  · cases x with
    | null => exact absurd here.shaped id
    | aggregate type array =>
      cases type with
      | dictionary =>
        obtain ⟨even,keys⟩ := here.shaped
        exact iteratePairs_total (paired_of_shaped even keys fun d member => here.element member)
      | array => simp [launchDataDictIterate]
    | _ => simp [launchDataDictIterate]

/-! ## The shape of the bytes -/

private theorem isString_iff_node (lays : Lays data d o e) : d.IsString ↔ NodeAt data o .string := by
  cases d with
  | null => exact absurd lays id
  | string len memory => exact ⟨fun _ => lays.1,fun _ => trivial⟩
  | scalar => exact ⟨False.elim,fun node => absurd (node.type_unique lays.1) (by simp)⟩
  | opaqueData => exact ⟨False.elim,fun node => absurd (node.type_unique lays.1) (by simp)⟩
  | aggregate => exact ⟨False.elim,fun node => absurd (node.type_unique lays.1) (by simp)⟩

/-- Every element of the bytes is the one of the tree with its number. -/
theorem element_found {type : Aggregate} {i o' : Nat} (lays : Lays data (.aggregate type array) o e)
    (element : ElementAt data o i o') : ∃ x e', array[i]? = some x ∧ Lays data x o' e' := by
  obtain ⟨before,x,after,e',rfl,rfl,_,there⟩ := (elementAt_of_lays lays).mp element
  exact ⟨x,e',by simp,there⟩

/-- Every element of the tree lies somewhere in the bytes. -/
theorem element_exists {type : Aggregate} {i : Nat} (lays : Lays data (.aggregate type array) o e)
    (found : array[i]? = some x) : ∃ o' e', ElementAt data o i o' ∧ Lays data x o' e' := by
  obtain ⟨inside,rfl⟩ := List.getElem?_eq_some_iff.mp found
  have split : array = array.take i ++ array[i] :: array.drop (i+1) := by
    rw [List.getElem_cons_drop,List.take_append_drop]
  have length : (array.take i).length = i := by
    rw [List.length_take]
    omega
  have elements := lays.2.2.2
  rw [split,laysAll_append,← split] at elements
  obtain ⟨m,left,next,here,_⟩ := elements
  exact ⟨m,next,(elementAt_of_lays lays).mpr ⟨_,_,_,next,split,length,left,here⟩,here⟩

private theorem shaped_iff (lays : Lays data d o e) : Shaped d ↔ ShapedAt data o := by
  cases d with
  | null => exact absurd lays id
  | scalar type word =>
    exact ⟨fun _ => ⟨fun node => absurd (node.type_unique lays.1) (by simp),
      fun node => absurd (node.type_unique lays.1) (by simp)⟩,fun _ => trivial⟩
  | string len memory =>
    obtain ⟨node,rfl,_,rfl,_⟩ := lays
    constructor
    · intro shaped
      exact ⟨fun _ => shaped,fun node' => absurd (node.type_unique node') (by simp)⟩
    · intro shaped
      exact shaped.1 node
  | opaqueData size memory =>
    obtain ⟨node,rfl,room,rfl,_⟩ := lays
    constructor
    · intro _
      exact ⟨fun node' => absurd (node.type_unique node') (by simp),
        fun node' => absurd (node.type_unique node') (by simp)⟩
    · intro _
      simp only [Shaped,List.length_take,List.length_drop]
      omega
  | aggregate type array =>
    have node := lays.1
    have count := lays.2.1
    cases type with
    | array =>
      exact ⟨fun _ => ⟨fun node' => absurd (node.type_unique node') (by simp),
        fun node' => absurd (node.type_unique node') (by simp)⟩,fun _ => trivial⟩
    | dictionary =>
      constructor
      · rintro ⟨even,keys⟩
        refine ⟨fun node' => absurd (node.type_unique node') (by simp),fun _ => ⟨by rw [count]; exact even,?_⟩⟩
        intro i o' evenly element
        obtain ⟨x,e',found,there⟩ := element_found lays element
        exact (isString_iff_node there).mp (keys i x evenly found)
      · intro shaped
        obtain ⟨even,keys⟩ := shaped.2 node
        refine ⟨by rw [← count]; exact even,?_⟩
        intro i x evenly found
        obtain ⟨o',e',element,there⟩ := element_exists lays found
        exact (isString_iff_node there).mpr (keys i o' evenly element)

private theorem wellFormed_leaf (lays : Lays data d o e) (leaf : ∀ type array, d ≠ .aggregate type array) :
    WellFormed d ↔ ∀ o', Reaches data o o' → ShapedAt data o' := by
  have none' : d.elements = [] := by
    cases d with
    | aggregate type array => exact absurd rfl (leaf type array)
    | _ => rfl
  obtain ⟨type,node⟩ := lays.node
  constructor
  · intro wellFormed o' reached
    have only : o' = o := by
      apply reaches_leaf node _ reached
      rintro kind rfl
      obtain ⟨array,same⟩ := lays.element node
      exact leaf kind array same
    rw [only]
    exact (shaped_iff lays).mp wellFormed.shaped
  · intro all
    refine .node ((shaped_iff lays).mpr (all o .refl)) fun x member => ?_
    rw [none'] at member
    cases member

private theorem wellFormed_iff (lays : Lays data d o e) : WellFormed d ↔ ∀ o', Reaches data o o' → ShapedAt data o' := by
  induction d using LaunchData.induction generalizing o e with
  | aggregate type array ih =>
    constructor
    · intro wellFormed o' reached
      rcases Relation.ReflTransGen.cases_head reached with rfl | ⟨m,⟨i,element⟩,later⟩
      · exact (shaped_iff lays).mp wellFormed.shaped
      · obtain ⟨x,e',found,there⟩ := element_found lays element
        have member := List.mem_of_getElem? found
        exact (ih x member there).mp (wellFormed.element member) o' later
    · intro all
      refine .node ((shaped_iff lays).mpr (all o .refl)) fun x member => ?_
      obtain ⟨i,found⟩ := List.mem_iff_getElem?.mp member
      obtain ⟨o',e',element,there⟩ := element_exists lays found
      exact (ih x member there).mpr fun place later => all place (.head ⟨i,element⟩ later)
  | _ => exact wellFormed_leaf lays (by simp)

/-! ## What was received -/

private theorem renumberAll_forall (fds : List Int32) (array : List LaunchData) (k : Nat) :
    List.Forall₂ (fun d x => ∃ k, x = (renumber fds d k).1) array (renumberAll fds array k).1 := by
  induction array generalizing k with
  | nil => exact .nil
  | cons d rest ih => exact .cons ⟨k,rfl⟩ (ih _)

private theorem renumber_isString : (renumber fds d k).1.IsString ↔ d.IsString := by
  cases d with
  | scalar type word =>
    cases type with
    | fd =>
      simp only [renumber]
      split
      · exact Iff.rfl
      · exact Iff.rfl
    | _ => exact Iff.rfl
  | _ => exact Iff.rfl

private theorem forall_found {α β : Type} {R : α → β → Prop} {left : List α} {right : List β} (all : List.Forall₂ R left right)
    {i : Nat} {y : β} (found : right[i]? = some y) : ∃ x, left[i]? = some x ∧ R x y := by
  induction all generalizing i with
  | nil => cases found
  | @cons a b left right here _ ih =>
    cases i with
    | zero =>
      obtain rfl := Option.some.inj found
      exact ⟨a,rfl,here⟩
    | succ i => exact ih found

private theorem renumber_shaped : Shaped (renumber fds d k).1 ↔ Shaped d := by
  cases d with
  | scalar type word =>
    cases type with
    | fd =>
      simp only [renumber]
      split
      · exact Iff.rfl
      · exact Iff.rfl
    | _ => exact Iff.rfl
  | aggregate type array =>
    cases type with
    | array => exact Iff.rfl
    | dictionary =>
      have all := renumberAll_forall fds array k
      have length := all.length_eq
      constructor
      · rintro ⟨even,keys⟩
        refine ⟨by rw [length]; exact even,fun i x evenly found => ?_⟩
        obtain ⟨y,found',k',rfl⟩ := forall_found all.flip found
        exact renumber_isString.mp (keys i _ evenly found')
      · rintro ⟨even,keys⟩
        refine ⟨by rw [← length]; exact even,fun i y evenly found => ?_⟩
        obtain ⟨x,found',k',rfl⟩ := forall_found all found
        exact renumber_isString.mpr (keys i x evenly found')
  | _ => exact Iff.rfl

private theorem renumber_wellFormed (fds : List Int32) (d : LaunchData) (k : Nat) :
    WellFormed (renumber fds d k).1 ↔ WellFormed d := by
  induction d using LaunchData.induction generalizing k with
  | aggregate type array ih =>
    have all := renumberAll_forall fds array k
    constructor
    · intro wellFormed
      refine .node (renumber_shaped.mp wellFormed.shaped) fun x member => ?_
      obtain ⟨i,found⟩ := List.mem_iff_getElem?.mp member
      obtain ⟨y,found',k',rfl⟩ := forall_found all.flip found
      exact (ih x member k').mp (wellFormed.element (List.mem_of_getElem? found'))
    · intro wellFormed
      refine .node (renumber_shaped.mpr wellFormed.shaped) fun y member => ?_
      obtain ⟨i,found⟩ := List.mem_iff_getElem?.mp member
      obtain ⟨x,found',k',rfl⟩ := forall_found all found
      have inside := List.mem_of_getElem? found'
      exact (ih x inside k').mpr (wellFormed.element inside)
  | scalar type word =>
    have leaf (type : Scalar) (word : UInt64) : WellFormed (.scalar type word) := .node trivial (by simp [LaunchData.elements])
    cases type with
    | fd =>
      simp only [renumber]
      split
      · exact ⟨fun _ => leaf _ _,fun _ => leaf _ _⟩
      · exact Iff.rfl
    | _ => exact Iff.rfl
  | _ => exact Iff.rfl

/-- A received tree is what the accessors take it for exactly when the bytes
have the shape that nothing checks. -/
theorem received_sound_iff (data : Bytes) (small : data.length < objectMax) (fds : List Int32) (base : UInt64)
    (errno : Option Errno) (o k depth : Nat) (inside : o ≤ data.length) (fd : k ≤ fds.length) (d : LaunchData)
    (next : Decoder) (returned : launchDataUnpack fds base depth ⟨data,o,k,errno⟩ = .value d next) :
    Sound d ↔ ∀ o', Reaches data o o' → ShapedAt data o' := by
  have stands : StandsAt data ⟨data,o,k,errno⟩ o k := .start data o k errno
  -- the bound that let the call return can be taken as large as one likes
  have deeper : launchDataUnpack fds base (depth + data.length + 1) ⟨data,o,k,errno⟩ = .value d next := by
    rw [← returned]
    apply unpack_stable
    · rw [returned]
      simp
    · omega
  have described := @unpack_sound data _ o k (depth + data.length + 1) fds base small (by omega) inside fd stands
  rw [deeper] at described
  obtain ⟨sent,e,lays,rfl,_⟩ := described
  rw [← wellFormed_iff lays,← renumber_wellFormed fds sent k]
  exact ⟨And.left,WellFormed.sound⟩

def keyedFive : Bytes :=
  longBytes 0xD2FEA02366B39A41 ++ longBytes 112 ++
    (longBytes 1 ++ longBytes 0 ++ longBytes 2 ++ longBytes 0 ++ longBytes 0) ++
    (longBytes 7 ++ longBytes 0 ++ longBytes 0 ++ longBytes 0) ++ (longBytes 4 ++ longBytes 5 ++ longBytes 0)

theorem keyedFive_received : ∃ d next, launchDataUnpack [] 0 113 ⟨keyedFive,16,0,none⟩ = .value d next ∧
    launchDataDictLookup (.lit "") d = some (.scalar .integer 5) ∧ Sound d ∧
    ∀ o', Reaches keyedFive 16 o' → ShapedAt keyedFive o' := by
  have key : WellFormed (.string 0 [0]) := .node (List.mem_singleton_self 0) (by simp [LaunchData.elements])
  have value : WellFormed (.scalar .integer 5) := .node trivial (by simp [LaunchData.elements])
  have pairs : Shaped (.aggregate .dictionary [.string 0 [0],.scalar .integer 5]) := by
    refine ⟨rfl,fun i d evenly found => ?_⟩
    match i with
    | 0 =>
      obtain rfl := Option.some.inj found
      trivial
    | 1 => cases evenly
    | i + 2 => cases found
  have sound := (WellFormed.node pairs (by simp [LaunchData.elements,key,value])).sound
  exact ⟨_,_,rfl,rfl,sound,(received_sound_iff keyedFive (by decide) [] 0 none 16 0 113 (by decide) (by decide) _ _
    rfl).mp sound⟩

/-- A message whose one node is a dictionary with a single element, a number. -/
def oddDictionary : Bytes :=
  longBytes 0xD2FEA02366B39A41 ++ longBytes 72 ++ (longBytes 1 ++ longBytes 0 ++ longBytes 1 ++ longBytes 0) ++
    (longBytes 4 ++ longBytes 5 ++ longBytes 0)

theorem oddDictionary_received :
    ∃ d next, launchDataUnpack [] 0 73 ⟨oddDictionary,16,0,none⟩ = .value d next ∧ next.dataOffset = 72 ∧
      launchDataDictLookup (.lit "Label") d = none ∧ ¬ Sound d := by
  refine ⟨.aggregate .dictionary [.scalar .integer 5],_,rfl,rfl,rfl,?_⟩
  intro sound
  exact (sound.2 _ .refl).1 (.lit "Label") rfl

end FreebsdLaunchd.Liblaunch
