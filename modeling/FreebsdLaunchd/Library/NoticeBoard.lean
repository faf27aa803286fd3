import FreebsdLaunchd.Library.Runs
import Mathlib.Data.Set.Insert
import Mathlib.Logic.Function.Basic
import Mathlib.Data.List.Perm.Basic
import Mathlib.Data.List.Nodup

/-! A board of values under keys, some of them temporary and owned by whoever
put them up, that tells its readers which of the keys they watch have changed.
A reader's notices pile up until it takes them. -/

@[ext]
structure NoticeBoard (Key Value Owner Reader : Type) where
  value : Key → Option Value
  owner : Key → Option Owner
  watches : Reader → Set Key
  unread : Reader → Set Key
  due : Set Reader

namespace NoticeBoard

variable {Key Value Owner Reader : Type} [DecidableEq Key] [DecidableEq Owner]

/-- A key gets a value and an owner, or loses them, and its readers are told. -/
def post (b : NoticeBoard Key Value Owner Reader) (k : Key) (v : Option Value) (o : Option Owner) :
    NoticeBoard Key Value Owner Reader where
  value := Function.update b.value k v
  owner := Function.update b.owner k o
  watches := b.watches
  unread r := {x | x ∈ b.unread r ∨ x = k ∧ k ∈ b.watches r}
  due := {r | r ∈ b.due ∨ k ∈ b.watches r}

/-- `me` writes a value. A temporary one is refused where the key has a value
that is not `me`'s; any other leaves a key temporary only if it is `me`'s. -/
def put (me : Owner) (temporary : Bool) (b : NoticeBoard Key Value Owner Reader) (k : Key) (v : Value) :
    NoticeBoard Key Value Owner Reader :=
  if temporary then
    if (b.value k).isNone ∨ b.owner k = some me then b.post k (some v) (some me) else b
  else b.post k (some v) (if b.owner k = some me then some me else none)

def discard (b : NoticeBoard Key Value Owner Reader) (k : Key) : NoticeBoard Key Value Owner Reader :=
  if (b.value k).isNone then b else b.post k none none

/-- A change without a change: the value is written again, or `blank` is put up
and taken down. -/
def touch (me : Owner) (temporary : Bool) (blank : Value) (b : NoticeBoard Key Value Owner Reader)
    (k : Key) : NoticeBoard Key Value Owner Reader :=
  match b.value k with
  | some v => b.put me temporary k v
  | none => (b.put me temporary k blank).discard k

variable {b : NoticeBoard Key Value Owner Reader} {me : Owner} {temporary : Bool} {k l : Key} {v w : Value}

omit [DecidableEq Owner] in
theorem post_post (b : NoticeBoard Key Value Owner Reader) (k : Key) (v v' : Option Value)
    (o o' : Option Owner) : (b.post k v o).post k v' o' = b.post k v' o' := by
  apply NoticeBoard.ext
  · simp [post]
  · simp [post]
  · rfl
  · funext r
    ext x
    simp only [post,Set.mem_ofPred_eq]
    tauto
  · ext r
    simp only [post,Set.mem_ofPred_eq]
    tauto

omit [DecidableEq Owner] in
theorem post_comm (b : NoticeBoard Key Value Owner Reader) (apart : k ≠ l) (v v' : Option Value)
    (o o' : Option Owner) : (b.post k v o).post l v' o' = (b.post l v' o').post k v o := by
  apply NoticeBoard.ext
  · exact Function.update_comm apart v v' b.value
  · exact Function.update_comm apart o o' b.owner
  · rfl
  · funext r
    ext x
    simp only [post,Set.mem_ofPred_eq]
    tauto
  · ext r
    simp only [post,Set.mem_ofPred_eq]
    tauto

/-- What `put` decides depends on the one key it writes. -/
theorem put_eq (me : Owner) (temporary : Bool) (b : NoticeBoard Key Value Owner Reader) (k : Key)
    (v : Value) :
    b.put me temporary k v = b ∨ ∃ o, b.put me temporary k v = b.post k (some v) o := by
  unfold put
  split
  · split
    · exact .inr ⟨_,rfl⟩
    · exact .inl rfl
  · exact .inr ⟨_,rfl⟩

omit [DecidableEq Owner] in
@[simp] theorem post_value_of_ne (apart : l ≠ k) (v : Option Value) (o : Option Owner) :
    (b.post k v o).value l = b.value l := by simp [post,apart]

omit [DecidableEq Owner] in
@[simp] theorem post_owner_of_ne (apart : l ≠ k) (v : Option Value) (o : Option Owner) :
    (b.post k v o).owner l = b.owner l := by simp [post,apart]

theorem put_post_of_ne (apart : l ≠ k) (v : Option Value) (o : Option Owner) (w : Value) :
    (b.post k v o).put me temporary l w = (b.put me temporary l w).post k v o := by
  unfold put
  rw [post_value_of_ne apart,post_owner_of_ne apart]
  split
  · split
    · exact post_comm b apart.symm _ _ _ _
    · rfl
  · exact post_comm b apart.symm _ _ _ _

theorem put_comm (b : NoticeBoard Key Value Owner Reader) (apart : k ≠ l) (v w : Value) :
    (b.put me temporary k v).put me temporary l w = (b.put me temporary l w).put me temporary k v := by
  rcases put_eq me temporary b k v with same | ⟨o,same⟩
  · rw [same]
    rcases put_eq me temporary b l w with still | ⟨o',still⟩
    · rw [still,same]
    · rw [still,put_post_of_ne apart,same]
  · rw [same,put_post_of_ne apart.symm]
    rcases put_eq me temporary b l w with still | ⟨o',still⟩
    · rw [still,same]
    · rw [still,put_post_of_ne apart,same]
      exact post_comm b apart.symm _ _ _ _

theorem touch_of_absent {blank : Value} (absent : b.value k = none) :
    b.touch me temporary blank k = b.post k none none := by
  have up : ∃ o, b.put me temporary k blank = b.post k (some blank) o := by
    unfold put
    split
    · rw [if_pos (.inl (by simp [absent]))]
      exact ⟨_,rfl⟩
    · exact ⟨_,rfl⟩
  obtain ⟨o,up⟩ := up
  simp only [touch,absent,up,discard]
  rw [if_neg]
  · exact post_post b k _ _ _ _
  · simp [post]

/-! ## What the readers are told -/

/-- From `b` to `b'` the keys in `told`, and no others, have been posted. -/
structure Tells (told : Set Key) (b b' : NoticeBoard Key Value Owner Reader) : Prop where
  watches : b'.watches = b.watches
  unread : ∀ r k, k ∈ b'.unread r ↔ k ∈ b.unread r ∨ k ∈ told ∧ k ∈ b.watches r
  due : ∀ r, r ∈ b'.due ↔ r ∈ b.due ∨ ∃ k ∈ told, k ∈ b.watches r
  value : ∀ k ∉ told, b'.value k = b.value k
  owner : ∀ k ∉ told, b'.owner k = b.owner k

omit [DecidableEq Key] [DecidableEq Owner] in
theorem Tells.refl (b : NoticeBoard Key Value Owner Reader) : Tells ∅ b b :=
  ⟨rfl,by simp,by simp,fun _ _ => rfl,fun _ _ => rfl⟩

omit [DecidableEq Key] [DecidableEq Owner] in
theorem Tells.trans {told told' : Set Key} {a b c : NoticeBoard Key Value Owner Reader}
    (first : Tells told a b) (second : Tells told' b c) : Tells (told ∪ told') a c := by
  refine ⟨second.watches.trans first.watches,?_,?_,?_,?_⟩
  · intro r k
    rw [second.unread,first.unread,first.watches,Set.mem_union]
    tauto
  · intro r
    rw [second.due,first.due,first.watches]
    constructor
    · rintro ((old | ⟨k,member,watched⟩) | ⟨k,member,watched⟩)
      · exact .inl old
      · exact .inr ⟨k,.inl member,watched⟩
      · exact .inr ⟨k,.inr member,watched⟩
    · rintro (old | ⟨k,member | member,watched⟩)
      · exact .inl (.inl old)
      · exact .inl (.inr ⟨k,member,watched⟩)
      · exact .inr ⟨k,member,watched⟩
  · intro k silent
    rw [second.value k fun member => silent (.inr member),first.value k fun member => silent (.inl member)]
  · intro k silent
    rw [second.owner k fun member => silent (.inr member),first.owner k fun member => silent (.inl member)]

omit [DecidableEq Key] [DecidableEq Owner] in
theorem Tells.congr {told told' : Set Key} {b b' : NoticeBoard Key Value Owner Reader}
    (tells : Tells told b b') (same : ∀ k, k ∈ told' ↔ k ∈ told) : Tells told' b b' := by
  rw [Set.ext same]
  exact tells

omit [DecidableEq Owner] in
theorem tells_post (b : NoticeBoard Key Value Owner Reader) (k : Key) (v : Option Value)
    (o : Option Owner) : Tells {k} b (b.post k v o) := by
  refine ⟨rfl,?_,?_,?_,?_⟩
  · intro r x
    simp only [post,Set.mem_ofPred_eq,Set.mem_singleton_iff]
    constructor
    · rintro (old | ⟨rfl,watched⟩)
      · exact .inl old
      · exact .inr ⟨rfl,watched⟩
    · rintro (old | ⟨rfl,watched⟩)
      · exact .inl old
      · exact .inr ⟨rfl,watched⟩
  · intro r
    simp [post]
  · exact fun x apart => post_value_of_ne apart v o
  · exact fun x apart => post_owner_of_ne apart v o

/-- A temporary value of `me`'s is refused by a key that is not `me`'s. -/
def Refused (me : Owner) (temporary : Bool) (b : NoticeBoard Key Value Owner Reader) (k : Key) : Prop :=
  temporary = true ∧ (b.value k).isSome ∧ b.owner k ≠ some me

omit [DecidableEq Key] [DecidableEq Owner] in
theorem Tells.refused {told : Set Key} {b b' : NoticeBoard Key Value Owner Reader}
    (tells : Tells told b b') (silent : k ∉ told) :
    Refused me temporary b' k ↔ Refused me temporary b k := by
  rw [Refused,Refused,tells.value k silent,tells.owner k silent]

theorem put_of_refused (refused : Refused me temporary b k) (v : Value) : b.put me temporary k v = b := by
  obtain ⟨yes,some,apart⟩ := refused
  rw [put,if_pos yes,if_neg]
  rintro (none | mine)
  · simp [Option.isNone_iff_eq_none.mp none] at some
  · exact apart mine

theorem put_of_not_refused (fine : ¬ Refused me temporary b k) (v : Value) :
    ∃ o, b.put me temporary k v = b.post k (some v) o := by
  unfold put
  by_cases yes : temporary = true
  · rw [if_pos yes,if_pos]
    · exact ⟨_,rfl⟩
    · by_contra neither
      rw [not_or] at neither
      exact fine ⟨yes,Option.isSome_iff_ne_none.mpr (by simpa using neither.1),neither.2⟩
  · rw [if_neg yes]
    exact ⟨_,rfl⟩

theorem tells_put (b : NoticeBoard Key Value Owner Reader) (k : Key) (v : Value) :
    Tells {x | x = k ∧ ¬ Refused me temporary b x} b (b.put me temporary k v) := by
  by_cases refused : Refused me temporary b k
  · have nobody : {x | x = k ∧ ¬ Refused me temporary b x} = ∅ := by
      ext x
      simp only [Set.mem_ofPred_eq,Set.mem_empty_iff_false,iff_false,not_and,not_not]
      rintro rfl
      exact refused
    rw [nobody,put_of_refused refused]
    exact .refl b
  · have one : {x | x = k ∧ ¬ Refused me temporary b x} = {k} := by
      ext x
      simp only [Set.mem_ofPred_eq,Set.mem_singleton_iff,and_iff_left_iff_imp]
      rintro rfl
      exact refused
    obtain ⟨o,same⟩ := put_of_not_refused refused v
    rw [one,same]
    exact tells_post b k _ o

omit [DecidableEq Owner] in
theorem tells_discard (b : NoticeBoard Key Value Owner Reader) (k : Key) :
    Tells {x | x = k ∧ (b.value x).isSome} b (b.discard k) := by
  unfold discard
  split
  · rename_i none
    have nobody : {x | x = k ∧ (b.value x).isSome} = ∅ := by
      ext x
      simp only [Set.mem_ofPred_eq,Set.mem_empty_iff_false,iff_false,not_and]
      rintro rfl
      simpa using none
    rw [nobody]
    exact .refl b
  · rename_i some
    have one : {x | x = k ∧ (b.value x).isSome} = {k} := by
      ext x
      simp only [Set.mem_ofPred_eq,Set.mem_singleton_iff,and_iff_left_iff_imp]
      rintro rfl
      exact Option.isSome_iff_ne_none.mpr (by simpa using some)
    rw [one]
    exact tells_post b k _ _

theorem tells_touch (blank : Value) (b : NoticeBoard Key Value Owner Reader) (k : Key) :
    Tells {x | x = k ∧ ¬ Refused me temporary b x} b (b.touch me temporary blank k) := by
  cases value : b.value k with
  | some v =>
    have again : b.touch me temporary blank k = b.put me temporary k v := by simp [touch,value]
    rw [again]
    exact tells_put b k v
  | none =>
    have one : {x | x = k ∧ ¬ Refused me temporary b x} = {k} := by
      ext x
      simp only [Set.mem_ofPred_eq,Set.mem_singleton_iff,and_iff_left_iff_imp]
      rintro rfl ⟨_,some,_⟩
      simp [value] at some
    rw [one,touch_of_absent value]
    exact tells_post b k _ _

omit [DecidableEq Key] [DecidableEq Owner] in
/-- Steps that each tell of one key, where it is `ready`, which other keys do
not influence, together tell of the keys that are ready at the start. -/
theorem tells_foldl {α : Type} {f : NoticeBoard Key Value Owner Reader → α → NoticeBoard Key Value Owner Reader}
    {key : α → Option Key} {ready : NoticeBoard Key Value Owner Reader → Key → Prop}
    (each : ∀ b a, Tells {k | key a = some k ∧ ready b k} b (f b a))
    (stable : ∀ {told b b'}, Tells told b b' → ∀ k ∉ told, (ready b' k ↔ ready b k))
    (l : List α) (b : NoticeBoard Key Value Owner Reader) :
    Tells {k | (∃ a ∈ l, key a = some k) ∧ ready b k} b (l.foldl f b) := by
  induction l generalizing b with
  | nil => simpa using Tells.refl b
  | cons a rest ih =>
    have first := each b a
    have all : {k | (∃ x ∈ a::rest, key x = some k) ∧ ready b k} =
        {k | key a = some k ∧ ready b k} ∪ {k | (∃ x ∈ rest, key x = some k) ∧ ready (f b a) k} := by
      ext k
      by_cases now : key a = some k ∧ ready b k
      · exact ⟨fun _ => .inl now,fun _ => ⟨⟨a,List.mem_cons_self,now.1⟩,now.2⟩⟩
      · have same := stable first k now
        constructor
        · rintro ⟨⟨x,member,here⟩,fine⟩
          rcases List.mem_cons.mp member with rfl | later
          · exact absurd ⟨here,fine⟩ now
          · exact .inr ⟨⟨x,later,here⟩,same.mpr fine⟩
        · rintro (here | ⟨⟨x,later,here⟩,fine⟩)
          · exact absurd here now
          · exact ⟨⟨x,List.mem_cons_of_mem _ later,here⟩,same.mp fine⟩
    rw [all,List.foldl_cons]
    exact first.trans (ih (f b a))

/-! ## Taking down what one has put up -/

def withdraw (me : Owner) (b : NoticeBoard Key Value Owner Reader) (k : Key) :
    NoticeBoard Key Value Owner Reader :=
  if b.owner k = some me then b.discard k else b

theorem foldl_withdraw (keys : List Key) (owned : ∀ k, b.owner k = some me → (b.value k).isSome) :
    Tells {k | k ∈ keys ∧ b.owner k = some me} b (keys.foldl (withdraw me) b) ∧
      ∀ k ∈ keys, b.owner k = some me →
        (keys.foldl (withdraw me) b).value k = none ∧ (keys.foldl (withdraw me) b).owner k = none := by
  induction keys generalizing b with
  | nil => exact ⟨by simpa using Tells.refl b,by simp⟩
  | cons key rest ih =>
    rw [List.foldl_cons]
    by_cases mine : b.owner key = some me
    · have first : b.withdraw me key = b.post key none none := by
        simp [withdraw,mine,discard,Option.isSome_iff_ne_none.mp (owned key mine)]
      have kept (k : Key) : (b.post key none none).owner k = some me ↔ k ≠ key ∧ b.owner k = some me := by
        by_cases here : k = key
        · simp [here,post]
        · simp [here]
      rw [first]
      obtain ⟨told,gone⟩ := ih (b := b.post key none none) (by
        intro k still
        obtain ⟨apart,before⟩ := (kept k).mp still
        rw [post_value_of_ne apart]
        exact owned k before)
      have all : {k | k ∈ key::rest ∧ b.owner k = some me} =
          {key} ∪ {k | k ∈ rest ∧ (b.post key none none).owner k = some me} := by
        ext k
        by_cases here : k = key
        · simp [here,mine]
        · simp [here]
      refine ⟨all ▸ (tells_post b key none none).trans told,?_⟩
      intro k member before
      by_cases here : k = key
      · have silent : k ∉ {k | k ∈ rest ∧ (b.post key none none).owner k = some me} := by
          rintro ⟨_,still⟩
          exact ((kept k).mp still).1 here
        rw [told.value k silent,told.owner k silent,here]
        simp [post]
      · exact gone k ((List.mem_cons.mp member).resolve_left here) ((kept k).mpr ⟨here,before⟩)
    · have first : b.withdraw me key = b := by simp [withdraw,mine]
      rw [first]
      obtain ⟨told,gone⟩ := ih owned
      have all : {k | k ∈ key::rest ∧ b.owner k = some me} = {k | k ∈ rest ∧ b.owner k = some me} := by
        ext k
        by_cases here : k = key
        · simp [here,mine]
        · simp [here]
      refine ⟨all ▸ told,?_⟩
      intro k member before
      rcases List.mem_cons.mp member with rfl | later
      · exact absurd before mine
      · exact gone k later before

end NoticeBoard
