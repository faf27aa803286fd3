import FreebsdLaunchd.Liblaunch.Decode

/-! `launch_data_unpack` on hostile bytes. It compares the length that a node
declares, and not the padding it then skips, with what remains, and it lets the
length wrap around before it compares. What goes wrong is told by the nodes that
decoding comes to. -/
namespace FreebsdLaunchd.Liblaunch
open CData

variable {data : Bytes} {s next : Decoder} {o o' e i k n depth : Nat} {fds : List Int32} {base : UInt64}
variable {d : LaunchData} {array : List LaunchData} {type : Aggregate}

/-- The bytes that a node declares behind it, before any arithmetic wraps. -/
def declared (type : DataType) (count : UInt64) : Nat :=
  match type with
  | .aggregate _ => count.toNat*8
  | .string => count.toNat+1
  | .opaqueData => count.toNat
  | .scalar _ => 0

/-- What the node at `o` declares is there. -/
def Fits (data : Bytes) (o : Nat) : Prop :=
  ∀ type, NodeAt data o type → o + nodeSize + declared type (countAt data o) ≤ data.length

/-- A string whose length with its NUL wraps to nothing. -/
def Endless (data : Bytes) (o : Nat) : Prop := NodeAt data o .string ∧ (countAt data o).toNat = 2^64-1

def Run.state {α : Type} : Run α → Option Decoder
  | deep => none
  | fault => none
  | null s => some s
  | value _ s => some s

/-- The call returns whatever the bound on the recursion, accesses nothing
outside the buffer, leaves both offsets within their bounds, and returns NULL
if a node that decoding comes to does not fit. -/
def Safe (data : Bytes) (fds : List Int32) (base : UInt64) (s : Decoder) : Prop :=
  ∃ r, (∀ depth, data.length < depth → launchDataUnpack fds base depth s = r) ∧ r ≠ .deep ∧ r ≠ .fault ∧
    (∀ next, r.state = some next → next.dataOffset ≤ data.length ∧ next.fdoffset ≤ fds.length) ∧
    ((∃ o, Reaches data s.dataOffset o ∧ ¬ Fits data o) → ∃ next, r = .null next)

/-! ## A deeper bound changes nothing -/

private theorem unpackElements_deeper {unpack deeper : Decoder → Run LaunchData} {slots todo : Nat}
    (same : ∀ s, unpack s ≠ .deep → deeper s = unpack s)
    (shallow : unpackElements unpack base slots todo i s ≠ .deep) :
    unpackElements deeper base slots todo i s = unpackElements unpack base slots todo i s := by
  induction todo generalizing i s with
  | zero => rfl
  | succ todo ih =>
    rw [unpackElements] at shallow ⊢
    rw [unpackElements]
    cases result : unpack s with
    | deep =>
      rw [result] at shallow
      exact absurd rfl shallow
    | fault => rw [same s (by simp [result]),result]
    | null next => rw [same s (by simp [result]),result]
    | value d next =>
      rw [same s (by simp [result]),result]
      rw [result] at shallow
      simp only [store] at shallow ⊢
      split
      · rfl
      · rename_i room
        rw [if_neg room] at shallow
        rw [ih]
        intro deep
        rw [deep] at shallow
        exact shallow rfl

private theorem unpackSwitch_deeper {unpack deeper : Decoder → Run LaunchData} {word count : UInt64} {type : Option DataType}
    (same : ∀ s, unpack s ≠ .deep → deeper s = unpack s)
    (shallow : unpackSwitch fds base unpack o word count s type ≠ .deep) :
    unpackSwitch fds base deeper o word count s type = unpackSwitch fds base unpack o word count s type := by
  rcases type with _ | (type | type | _ | _)
  · rfl
  · simp only [unpackSwitch] at shallow ⊢
    split
    · rfl
    · rename_i room
      rw [if_neg room] at shallow
      rw [unpackElements_deeper same]
      intro deep
      rw [deep] at shallow
      exact shallow rfl
  · cases type <;> rfl
  · rfl
  · rfl

private theorem unpack_succ (fds : List Int32) (base : UInt64) (depth : Nat) (s : Decoder) :
    launchDataUnpack fds base (depth+1) s =
      if s.remaining < nodeSize then .null s
      else if s.data.length < s.dataOffset + nodeSize then .fault
      else unpackSwitch fds base (launchDataUnpack fds base depth) s.dataOffset (longAt s.data (s.dataOffset+8))
        (longAt s.data (s.dataOffset+16)) (s.advance nodeSize) (DataType.ofWord (longAt s.data s.dataOffset)) := rfl

private theorem unpack_deeper (shallow : launchDataUnpack fds base depth s ≠ .deep) :
    launchDataUnpack fds base (depth+1) s = launchDataUnpack fds base depth s := by
  induction depth generalizing s with
  | zero => exact absurd rfl shallow
  | succ depth ih =>
    rw [unpack_succ] at shallow
    rw [unpack_succ fds base (depth+1) s,unpack_succ fds base depth s]
    split
    · rfl
    · rename_i room
      rw [if_neg room] at shallow
      split
      · rfl
      · rename_i inside
        rw [if_neg inside] at shallow
        exact unpackSwitch_deeper (fun s => ih) shallow

theorem unpack_stable (shallow : launchDataUnpack fds base depth s ≠ .deep) (more : depth ≤ n) :
    launchDataUnpack fds base n s = launchDataUnpack fds base depth s := by
  induction more with
  | refl => rfl
  | step _ ih =>
    rw [unpack_deeper,ih]
    rw [ih]
    exact shallow

/-! ## A node that overruns is not survived -/

/-- The run faults, or returns a value past the end of the buffer. -/
def Breaks {α : Type} (data : Bytes) (r : Run α) : Prop :=
  r = .fault ∨ ∃ a next e k, r = .value a next ∧ StandsAt data next e k ∧ data.length < e ∧ e ≤ data.length + 8

theorem Breaks.map {α β : Type} {r : Run α} (f : α → β) (breaks : Breaks data r) : Breaks data (r.map f) := by
  rcases breaks with rfl | ⟨a,next,e,k,rfl,stands,past,near⟩
  · exact .inl rfl
  · exact .inr ⟨f a,next,e,k,rfl,stands,past,near⟩

private theorem unpack_overruns (small : data.length < objectMax) (stands : StandsAt data s o k)
    (enough : data.length < o + depth) (overruns : Overruns data o) :
    Breaks data (launchDataUnpack fds base depth s) := by
  rcases overruns with ⟨type,node,fits,beyond⟩ | ⟨type,node,some',wraps,beyond⟩
  · obtain ⟨depth,rfl⟩ := deep_enough node enough
    have near := padded_near small fits
    have inside := node.inside
    cases type with
    | scalar type =>
      simp only [compared,roundToWord,sizeT] at beyond
      omega
    | string =>
      obtain ⟨next,result,there⟩ := @unpack_string data s o k depth fds base stands small node fits
      exact .inr ⟨_,next,_,_,result,there,beyond,near⟩
    | opaqueData =>
      obtain ⟨next,result,there⟩ := @unpack_opaqueData data s o k depth fds base stands small node fits
      exact .inr ⟨_,next,_,_,result,there,beyond,near⟩
    | aggregate type =>
      -- a count times eight needs no padding
      simp only [compared,roundToWord,sizeT,objectMax] at beyond fits small
      omega
  · obtain ⟨depth,rfl⟩ := deep_enough node enough
    have inside := node.inside
    have first : firstElement o (countAt data o).toNat = o + nodeSize := by
      simp only [compared] at wraps
      rw [firstElement,wraps,Nat.add_zero]
    obtain ⟨next,result,there⟩ := @unpack_aggregate data s o k depth fds base type stands small node (by omega)
    rw [first] at there
    have positive : (countAt data o).toNat ≠ 0 := fun zero => some' (UInt64.toNat_inj.mp zero)
    obtain ⟨todo,count⟩ := Nat.exists_eq_succ_of_ne_zero positive
    obtain ⟨less,rfl⟩ := Nat.exists_eq_succ_of_ne_zero (show depth ≠ 0 by simp only [nodeSize] at inside; omega)
    have short := @unpack_short data next (o+nodeSize) k less fds base there small inside
      (by simp only [nodeSize] at beyond ⊢; omega)
    refine .inl ?_
    rw [result,count,unpackElements,short]
    simp only [store]
    rw [if_pos (by rw [there.length]; omega)]
    rfl

private theorem unpackElements_breaks (base : UInt64) {unpack : Decoder → Run LaunchData} {low slots todo : Nat}
    {before : List LaunchData} (decodes : ∀ d, Decodes data fds unpack low d)
    (past : ∀ {s m k}, data.length < m → m ≤ data.length + 8 → StandsAt data s m k → unpack s = .fault)
    (breaks : ∀ {s k}, StandsAt data s o' k → Breaks data (unpack s))
    (more : before.length < todo) (behind : slots + i*8 ≤ o) (above : low ≤ o)
    (laid : LaysAll data before o o') (stands : StandsAt data s o k) :
    Breaks data (unpackElements unpack base slots todo i s) := by
  induction before generalizing o s k i todo with
  | nil =>
    obtain rfl := laid
    obtain ⟨todo,rfl⟩ := Nat.exists_eq_succ_of_ne_zero (Nat.ne_of_gt more)
    rw [unpackElements]
    rcases breaks stands with result | ⟨d,next,e,k',result,there,beyond,near⟩
    · rw [result]
      exact .inl rfl
    · rw [result]
      simp only [store]
      split
      · exact .inl rfl
      · rename_i slot
        rw [there.length] at slot
        have poked := there.poke (slots + i*8) (base + UInt64.ofNat s.dataOffset) (by omega) (by omega)
        apply Breaks.map
        cases todo with
        | zero => exact .inr ⟨[],_,e,k',rfl,poked,beyond,near⟩
        | succ todo =>
          rw [unpackElements,past beyond near poked]
          exact .inl rfl
  | cons d rest ih =>
    obtain ⟨todo,rfl⟩ := Nat.exists_eq_succ_of_ne_zero (Nat.ne_of_gt (Nat.lt_of_le_of_lt (Nat.zero_le _) more))
    obtain ⟨m,first,later⟩ := laid
    obtain ⟨next,result,there⟩ := decodes d above first stands
    obtain ⟨_,node⟩ := first.node
    have inside := node.inside
    have extent := first.extent
    simp only [nodeSize] at inside extent
    have poked := there.poke (slots + i*8) (base + UInt64.ofNat s.dataOffset) (by omega) (by omega)
    rw [unpackElements,result]
    simp only
    rw [store_eq there (by omega)]
    exact (ih (by simpa using more) (by omega) (by omega) later poked).map _

private theorem unpack_hazard (small : data.length < objectMax) (hazard : Hazard data o) (stands : StandsAt data s o k)
    (enough : data.length < o + depth) : Breaks data (launchDataUnpack fds base depth s) := by
  obtain ⟨o',reached,overruns⟩ := hazard
  induction reached using Relation.ReflTransGen.head_induction_on generalizing s k depth with
  | refl => exact unpack_overruns small stands enough overruns
  | @head o m step _ ih =>
    obtain ⟨i,type,node,room,inside,before,rfl,laid⟩ := step
    obtain ⟨depth,rfl⟩ := deep_enough node enough
    obtain ⟨first,result,there⟩ := @unpack_aggregate data s o k depth fds base type stands small node room
    have whole := node.inside
    have extent := laid.extent
    rw [result]
    apply Breaks.map
    have behind : o + nodeSize + 0*8 ≤ firstElement o (countAt data o).toNat := by
      simp only [firstElement]
      omega
    have above : o + 1 ≤ firstElement o (countAt data o).toNat := by
      simp only [firstElement,nodeSize]
      omega
    have decodes : ∀ d, Decodes data fds (launchDataUnpack fds base depth) (o+1) d := by
      intro d s o' e k above lays stands
      exact unpack_complete small (by omega) lays stands
    refine unpackElements_breaks base decodes ?_ ?_ inside behind above laid there
    · intro s m k past near stands
      obtain ⟨less,rfl⟩ := Nat.exists_eq_succ_of_ne_zero (show depth ≠ 0 by simp only [nodeSize] at whole; omega)
      exact unpack_past stands past near
    · intro s k stands
      exact ih stands (by omega)

/-! ## When decoding is safe -/

theorem Endless.not_fits (endless : Endless data o) (small : data.length < objectMax) : ¬ Fits data o := by
  intro fits
  have room := fits .string endless.1
  simp only [declared,endless.2] at room
  simp only [objectMax] at small
  omega

/-- What is laid out fits, or is an endless string: the elements of an
aggregate whose count wrapped cannot all be there. -/
theorem Lays.fits_or_endless (small : data.length < objectMax) (lays : Lays data d o e) :
    Fits data o ∨ Endless data o := by
  cases d with
  | null => exact absurd lays id
  | scalar type word =>
    obtain ⟨node,_,_⟩ := lays
    refine .inl fun type' node' => ?_
    obtain rfl := node.type_unique node'
    exact node.inside
  | string len memory =>
    obtain ⟨node,rfl,room,_,_⟩ := lays
    by_cases last : (countAt data o).toNat = 2^64-1
    · exact .inr ⟨node,last⟩
    · refine .inl fun type node' => ?_
      obtain rfl := node.type_unique node'
      have bound := (countAt data o).toNat_lt
      simp only [declared,sizeT] at room ⊢
      omega
  | opaqueData size memory =>
    obtain ⟨node,rfl,room,_,_⟩ := lays
    refine .inl fun type node' => ?_
    obtain rfl := node.type_unique node'
    exact room
  | aggregate type array =>
    obtain ⟨node,count,room,elements⟩ := lays
    refine .inl fun type' node' => ?_
    obtain rfl := node.type_unique node'
    have countable := elements.countable small
    simp only [declared,count]
    rw [firstElement,sizeT_eq countable] at room
    exact room

/-- Decoding is safe exactly when it comes to no node that overruns and the
bytes are not a whole tree with an endless string in it. -/
theorem unpack_safe_iff (data : Bytes) (small : data.length < objectMax) (fds : List Int32) (base : UInt64)
    (errno : Option Errno) (o k : Nat) (inside : o ≤ data.length) (fd : k ≤ fds.length) :
    Safe data fds base ⟨data,o,k,errno⟩ ↔
      ¬ Hazard data o ∧ ¬ ∃ d e, Lays data d o e ∧ ∃ o', Reaches data o o' ∧ Endless data o' := by
  have stands : StandsAt data ⟨data,o,k,errno⟩ o k := .start data o k errno
  constructor
  · rintro ⟨r,result,_,fault,offsets,rejects⟩
    have result := result (data.length+1) (Nat.lt_succ_self _)
    refine ⟨?_,?_⟩
    · intro hazard
      rcases @unpack_hazard data _ o k (data.length+1) fds base small hazard stands
        (by omega) with broken | ⟨d,next,e,_,value,there,past,_⟩
      · exact fault (result.symm.trans broken)
      · have within := (offsets next (by rw [← result,value]; rfl)).1
        rw [there.offset] at within
        omega
    · rintro ⟨d,e,lays,o',reached,endless⟩
      obtain ⟨next,value,_⟩ := @unpack_complete data _ o e k (data.length+1) fds base d small (by omega) lays stands
      obtain ⟨_,null⟩ := rejects ⟨o',reached,endless.not_fits small⟩
      rw [← result,value] at null
      cases null
  · rintro ⟨calm,bounded⟩
    have described := @unpack_sound data _ o k (data.length+1) fds base small (by omega) inside fd stands
    have stable : launchDataUnpack fds base (data.length+1) ⟨data,o,k,errno⟩ ≠ .deep := by
      intro deep
      rw [deep] at described
      exact described
    refine ⟨_,fun depth more => unpack_stable stable more,stable,?_,?_,?_⟩
    · intro fault
      rw [fault] at described
      exact calm described
    · intro next ended
      cases result : launchDataUnpack fds base (data.length+1) ⟨data,o,k,errno⟩ with
      | deep => exact absurd result stable
      | fault =>
        rw [result] at ended
        cases ended
      | null last =>
        rw [result] at ended described
        obtain rfl := Option.some.inj ended
        exact ⟨described.offset,described.fd⟩
      | value d last =>
        rw [result] at ended described
        obtain rfl := Option.some.inj ended
        obtain ⟨sent,e,_,_,there,ends⟩ := described
        refine ⟨?_,?_⟩
        · rw [there.offset]
          exact Nat.not_lt.mp fun beyond => calm (ends.overrun beyond)
        · rw [there.fd]
          exact renumber_le fd
    · rintro ⟨o',reached,unfit⟩
      cases result : launchDataUnpack fds base (data.length+1) ⟨data,o,k,errno⟩ with
      | deep => exact absurd result stable
      | fault =>
        rw [result] at described
        exact absurd described calm
      | null last => exact ⟨last,rfl⟩
      | value d last =>
        rw [result] at described
        obtain ⟨sent,e,lays,_⟩ := described
        obtain ⟨d',e',there⟩ := lays.reached reached
        rcases there.fits_or_endless small with fits | endless
        · exact absurd fits unfit
        · exact absurd ⟨sent,e,lays,o',reached,endless⟩ bounded

/-- A message, header first, whose one node is the empty string: its NUL, and
as much padding as is sent. -/
def emptyString (padding : Nat) : Bytes :=
  longBytes 0xD2FEA02366B39A41 ++ longBytes (UInt64.ofNat (41 + padding)) ++
    (longBytes 7 ++ longBytes 0 ++ longBytes 0 ++ [0] ++ List.replicate padding 0)

theorem padded_safe : Safe (emptyString 7) [] 0 ⟨emptyString 7,16,0,none⟩ := by
  have node : NodeAt (emptyString 7) 16 .string := ⟨by decide,by decide⟩
  have only {o : Nat} (reached : Reaches (emptyString 7) 16 o) : o = 16 := reaches_leaf node (by simp) reached
  refine (unpack_safe_iff (emptyString 7) (by decide) [] 0 none 16 0 (by decide) (by decide)).mpr ⟨?_,?_⟩
  · rintro ⟨o,reached,overruns⟩
    obtain rfl := only reached
    rcases overruns with ⟨type,node',_,beyond⟩ | ⟨type,node',_⟩
    · obtain rfl := node.type_unique node'
      exact absurd beyond (by decide)
    · exact absurd (node.type_unique node') (by simp)
  · rintro ⟨_,_,_,o,reached,endless⟩
    obtain rfl := only reached
    exact absurd endless.2 (by decide)

theorem unpadded_not_safe : ¬ Safe (emptyString 0) [] 0 ⟨emptyString 0,16,0,none⟩ := by
  rintro ⟨r,result,_,_,offsets,_⟩
  have result := result 42 (by decide)
  have beyond : (launchDataUnpack [] 0 42 ⟨emptyString 0,16,0,none⟩).state.map Decoder.dataOffset = some 48 := by decide
  rw [result] at beyond
  cases ended : r.state with
  | none =>
    rw [ended] at beyond
    cases beyond
  | some next =>
    rw [ended] at beyond
    have within := (offsets next ended).1
    have offset : next.dataOffset = 48 := Option.some.inj beyond
    rw [offset] at within
    exact absurd within (by decide)

end FreebsdLaunchd.Liblaunch
