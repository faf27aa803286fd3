import FreebsdLaunchd.Library.KeyedHistory
import FreebsdLaunchd.Liblaunch.Shape

/-! `liblaunch.c`: building a dictionary. Keys and values alternate in one block
of slots, which grows by one slot at a time and shrinks by moving memory. It holds
what the history of insertions and removals says. -/
namespace FreebsdLaunchd.Liblaunch
open CData KeyedHistory

/-- What the setters change of a dictionary: the block at `_array`, and
`_array_cnt`. Behind the count the block may end in what removals left there. -/
structure Dictionary where
  array : List LaunchData
  arrayCnt : Nat

namespace Dictionary

def alloc : Dictionary := ⟨[],0⟩

def object (dict : Dictionary) : LaunchData := .aggregate .dictionary (dict.array.take dict.arrayCnt)

end Dictionary

def keyString (key : CString) : LaunchData := .string (UInt64.ofNat key.bytes.length) (key.bytes ++ [0])

def reallocf (fresh : Nat → LaunchData) (array : List LaunchData) (n : Nat) : List LaunchData :=
  array.take n ++ (List.range' array.length (n - array.length)).map fresh

def clearSlots (array : List LaunchData) (start n : Nat) : List LaunchData :=
  array.take start ++ List.replicate n .null ++ array.drop (start+n)

def moveSlots (array : List LaunchData) (dst src n : Nat) : List LaunchData :=
  array.take dst ++ (array.drop src).take n ++ array.drop (dst+n)

/-- `launch_data_free` reads the type of its object, so it cannot be given NULL. -/
def launchDataFree : LaunchData → Option Unit
  | .null => none
  | _ => some ()

/-- There is no result where the slot lies outside the block. -/
def launchDataArraySetIndex (fresh : Nat → LaunchData) (dict : Dictionary) (what : LaunchData) (ind : Nat) :
    Option Dictionary :=
  let dict : Dictionary :=
    if ind + 1 ≥ dict.arrayCnt then
      ⟨clearSlots (reallocf fresh dict.array (ind+1)) dict.arrayCnt (ind + 1 - dict.arrayCnt),ind+1⟩
    else dict
  -- an element that is there is freed
  if ind < dict.array.length then some {dict with array := dict.array.set ind what} else none

def keyIndex (key : CString) : List LaunchData → Option Nat
  | [] => some 0
  | [k] => (keyMatches key k).map fun found => if found then 0 else 2
  | k::_::rest =>
    match keyMatches key k with
    | none => none
    | some true => some 0
    | some false => (keyIndex key rest).map (·+2)

/-- Both returns set the same two slots. -/
def launchDataDictInsert (fresh : Nat → LaunchData) (dict : Dictionary) (what : LaunchData) (key : CString) :
    Option Dictionary := do
  let i ← keyIndex key (dict.array.take dict.arrayCnt)
  let dict ← launchDataArraySetIndex fresh dict (keyString key) i
  launchDataArraySetIndex fresh dict what (i+1)

def launchDataDictRemove (dict : Dictionary) (key : CString) : Option (Dictionary × Bool) := do
  let i ← keyIndex key (dict.array.take dict.arrayCnt)
  if i = dict.arrayCnt then return (dict,false)
  let thekey ← dict.array[i]?
  launchDataFree thekey
  let what ← dict.array[i+1]?
  launchDataFree what
  return (⟨moveSlots dict.array i (i+2) (dict.arrayCnt - (i+2)),dict.arrayCnt-2⟩,true)

def launchDataDictGetCount (dict : Dictionary) : Nat := dict.arrayCnt / 2

/-! ## Keys -/

/-- A key but for the case of its letters. -/
def foldKey (key : CString) : Bytes := key.bytes.map toLower

private theorem strcasecmp_eq {a b : Bytes} (plain : 0 ∉ a) (plain' : 0 ∉ b) :
    strcasecmp a (b ++ [0]) = some (decide (a.map toLower = b.map toLower)) := by
  induction a generalizing b with
  | nil =>
    cases b with
    | nil => rfl
    | cons d b => simp [strcasecmp,Ne.symm (List.ne_of_not_mem_cons plain')]
  | cons c a ih =>
    have nonzero := Ne.symm (List.ne_of_not_mem_cons plain)
    cases b with
    | nil => simp [strcasecmp,mt toLower_nul nonzero]
    | cons d b =>
      rw [List.cons_append,strcasecmp,ih (List.not_mem_of_not_mem_cons plain) (List.not_mem_of_not_mem_cons plain')]
      by_cases same : toLower c = toLower d
      · simp [same]
      · simp [same]

/-! ## The slots of the entries -/

structure Entry where
  key : CString
  what : LaunchData
  there : what ≠ .null

def Entry.folded (entry : Entry) : Bytes := foldKey entry.key

def slots (entries : List Entry) : List LaunchData := entries.flatMap fun entry => [keyString entry.key,entry.what]

variable {entries before after : List Entry} {entry : Entry} {key : CString} {live : List LaunchData} {ind : Nat}

private theorem keyMatches_entry (key : CString) (entry : Entry) :
    keyMatches key (keyString entry.key) = some (decide (entry.folded = foldKey key)) := by
  refine (strcasecmp_eq key.noNul entry.key.noNul).trans ?_
  exact congrArg some (decide_eq_decide.mpr eq_comm)

private theorem slots_append (before after : List Entry) : slots (before ++ after) = slots before ++ slots after :=
  List.flatMap_append

private theorem slots_cons (entry : Entry) (after : List Entry) :
    slots (entry::after) = keyString entry.key :: entry.what :: slots after := rfl

private theorem slots_length (entries : List Entry) : (slots entries).length = 2*entries.length := by
  induction entries with
  | nil => rfl
  | cons entry rest ih =>
    rw [slots_cons,List.length_cons,List.length_cons,List.length_cons,ih]
    omega

private theorem slots_there (entries : List Entry) : ∀ d ∈ slots entries, d ≠ .null := by
  intro d member
  obtain ⟨entry,_,slot⟩ := List.mem_flatMap.mp member
  rcases List.mem_cons.mp slot with rfl | last
  · exact fun null => nomatch null
  · rw [List.mem_singleton.mp last]
    exact entry.there

/-- The loop over the keys goes past entries with other keys. -/
theorem keyIndex_past (others : ∀ entry ∈ before, entry.folded ≠ foldKey key) (rest : List LaunchData) :
    keyIndex key (slots before ++ rest) = (keyIndex key rest).map (· + (slots before).length) := by
  induction before with
  | nil => simp [slots]
  | cons entry before ih =>
    have other : keyMatches key (keyString entry.key) = some false := by
      rw [keyMatches_entry,decide_eq_false (others entry List.mem_cons_self)]
    rw [slots_cons,List.cons_append,List.cons_append,keyIndex,other]
    dsimp only
    rw [ih fun entry member => others entry (List.mem_cons_of_mem _ member),Option.map_map]
    rfl

private theorem keyIndex_absent (others : ∀ entry ∈ entries, entry.folded ≠ foldKey key) :
    keyIndex key (slots entries) = some (slots entries).length := by
  have past := keyIndex_past others []
  rw [List.append_nil] at past
  rw [past]
  exact congrArg some (Nat.zero_add _)

private theorem keyIndex_found (others : ∀ entry ∈ before, entry.folded ≠ foldKey key)
    (same : entry.folded = foldKey key) :
    keyIndex key (slots (before ++ entry::after)) = some (slots before).length := by
  have here : keyMatches key (keyString entry.key) = some true := by
    rw [keyMatches_entry,decide_eq_true same]
  rw [slots_append,keyIndex_past others,slots_cons,keyIndex,here]
  exact congrArg some (Nat.zero_add _)

/-! ## Setting a slot -/

/-- The slots after one of them, or one more at the end, has been set. -/
def place (live : List LaunchData) (ind : Nat) (what : LaunchData) : List LaunchData :=
  if ind < live.length then live.set ind what else live ++ [what]

def Holds (dict : Dictionary) (live : List LaunchData) : Prop :=
  live <+: dict.array ∧ dict.arrayCnt = live.length

theorem Holds.take {dict : Dictionary} (holds : Holds dict live) : dict.array.take dict.arrayCnt = live := by
  obtain ⟨stale,block⟩ := holds.1
  rw [holds.2,← block,List.take_left]

private theorem reallocf_length (fresh : Nat → LaunchData) (array : List LaunchData) (n : Nat) :
    (reallocf fresh array n).length = n := by
  simp only [reallocf,List.length_append,List.length_take,List.length_map,List.length_range']
  omega

private theorem reallocf_take (fresh : Nat → LaunchData) (live stale : List LaunchData)
    {n : Nat} (fits : live.length ≤ n) :
    (reallocf fresh (live ++ stale) n).take live.length = live := by
  have front : (live ++ stale).take n = live ++ stale.take (n - live.length) := by
    rw [List.take_append,List.take_of_length_le fits]
  rw [reallocf,front,List.append_assoc,List.take_left]

/-- The slots that are new are NULL, whatever was in the memory. -/
theorem grown (fresh : Nat → LaunchData) (live stale : List LaunchData) {n : Nat} (fits : live.length ≤ n) :
    clearSlots (reallocf fresh (live ++ stale) n) live.length (n - live.length) =
      live ++ List.replicate (n - live.length) .null := by
  have ended : (reallocf fresh (live ++ stale) n).drop (live.length + (n - live.length)) = [] :=
    List.drop_eq_nil_of_le (by rw [reallocf_length]; omega)
  rw [clearSlots,reallocf_take fresh live stale fits,ended,List.append_nil]

private theorem setIndex_place {dict : Dictionary} (holds : Holds dict live) (fresh : Nat → LaunchData)
    (what : LaunchData)
    (reach : ind ≤ live.length) :
    ∃ dict', launchDataArraySetIndex fresh dict what ind = some dict' ∧ Holds dict' (place live ind what) := by
  obtain ⟨array,arrayCnt⟩ := dict
  obtain ⟨⟨stale,rfl⟩,rfl⟩ := holds
  unfold launchDataArraySetIndex place
  by_cases last : ind + 1 ≥ live.length
  · simp only [if_pos last,grown fresh live stale last]
    rcases Nat.lt_or_eq_of_le reach with inside | rfl
    · have size : ind + 1 = live.length := by omega
      rw [size,Nat.sub_self,List.replicate_zero,List.append_nil,if_pos inside,if_pos inside]
      exact ⟨_,rfl,List.prefix_rfl,(List.length_set ..).symm⟩
    · rw [Nat.add_sub_cancel_left,if_pos (by simp),if_neg (Nat.lt_irrefl _)]
      exact ⟨_,rfl,by simp,by simp⟩
  · have inside : ind < live.length := by omega
    simp only [if_neg last,if_pos inside]
    rw [if_pos (by rw [List.length_append]; omega)]
    refine ⟨_,rfl,?_,(List.length_set ..).symm⟩
    rw [List.set_append_left _ _ inside]
    exact List.prefix_append ..

/-! ## Insertion and removal -/

private theorem split_known (known : foldKey key ∈ entries.map Entry.folded) :
    ∃ before entry after, entries = before ++ entry::after ∧ entry.folded = foldKey key ∧
      ∀ entry ∈ before, entry.folded ≠ foldKey key := by
  have found : (entries.find? fun entry => entry.folded = foldKey key).isSome = true := by
    rw [List.find?_isSome]
    obtain ⟨entry,member,same⟩ := List.mem_map.mp known
    exact ⟨entry,member,decide_eq_true same⟩
  obtain ⟨entry,found⟩ := Option.isSome_iff_exists.mp found
  obtain ⟨same,before,after,rfl,others⟩ := List.find?_eq_some_iff_append.mp found
  exact ⟨before,entry,after,rfl,of_decide_eq_true same,fun entry member => by simpa using others entry member⟩

private theorem not_known (absent : foldKey key ∉ entries.map Entry.folded) :
    ∀ entry ∈ entries, entry.folded ≠ foldKey key :=
  fun entry member same => absent (List.mem_map.mpr ⟨entry,member,same⟩)

private theorem store_others (others : ∀ e ∈ entries, e.folded ≠ entry.folded) :
    entries.map (fun e => if e.folded = entry.folded then entry else e) = entries := by
  have same : entries.map (fun e => if e.folded = entry.folded then entry else e) = entries.map id :=
    List.map_congr_left fun e member => if_neg (others e member)
  rw [same,List.map_id]

private theorem store_split {old : Entry} (distinct : ((before ++ old::after).map Entry.folded).Nodup)
    (others : ∀ e ∈ before, e.folded ≠ entry.folded) (same : old.folded = entry.folded) :
    Keyed.store Entry.folded (before ++ old::after) entry = before ++ entry::after := by
  rw [List.map_append,List.map_cons] at distinct
  have later := (List.nodup_cons.mp (List.nodup_append.mp distinct).2.1).1
  have others' : ∀ e ∈ after, e.folded ≠ entry.folded := fun e member equal =>
    later (List.mem_map.mpr ⟨e,member,equal.trans same.symm⟩)
  rw [Keyed.store,List.map_append,List.map_cons,store_others others,store_others others',if_pos same]

private theorem unlink_split {old : Entry} (others : ∀ e ∈ before, e.folded ≠ foldKey key)
    (same : old.folded = foldKey key) :
    Keyed.unlink Entry.folded (before ++ old::after) (foldKey key) = before ++ after := by
  rw [Keyed.unlink,List.eraseP_append_right _ (by simpa using others),List.eraseP_cons_of_pos (by simpa using same)]

/-- An insertion sets the two slots of the entry that has its key, or two more. -/
theorem insert_holds {dict : Dictionary} (holds : Holds dict (slots entries))
    (distinct : (entries.map Entry.folded).Nodup) (fresh : Nat → LaunchData) (entry : Entry) :
    ∃ dict', launchDataDictInsert fresh dict entry.what entry.key = some dict' ∧
      Holds dict' (slots (put Entry.folded entries entry)) := by
  -- both slots are set one after the other, wherever they are
  have both {i : Nat} (index : keyIndex entry.key (slots entries) = some i) (reach : i ≤ (slots entries).length)
      (next : i + 1 ≤ (place (slots entries) i (keyString entry.key)).length) :
      ∃ dict', launchDataDictInsert fresh dict entry.what entry.key = some dict' ∧
        Holds dict' (place (place (slots entries) i (keyString entry.key)) (i+1) entry.what) := by
    obtain ⟨first,made,held⟩ := setIndex_place holds fresh (keyString entry.key) reach
    obtain ⟨second,made',held'⟩ := setIndex_place held fresh entry.what next
    refine ⟨second,?_,held'⟩
    rw [launchDataDictInsert,holds.take,index,Option.bind_eq_bind,Option.bind_some,made]
    exact made'
  unfold put
  by_cases known : entry.folded ∈ entries.map Entry.folded
  · obtain ⟨before,old,after,rfl,same,others⟩ := split_known known
    have index : keyIndex entry.key (slots (before ++ old::after)) = some (slots before).length :=
      keyIndex_found others same
    have set_ : place (place (slots (before ++ old::after)) (slots before).length (keyString entry.key))
        ((slots before).length + 1) entry.what = slots (before ++ entry::after) := by
      simp [place,slots_append,slots_cons,List.set_append_right]
    rw [if_pos known,store_split distinct others same,← set_]
    refine both index ?_ ?_
    · rw [slots_append,List.length_append]
      omega
    · simp [place,slots_append,slots_cons]
  · have set_ : place (place (slots entries) (slots entries).length (keyString entry.key))
        ((slots entries).length + 1) entry.what = slots (entries ++ [entry]) := by
      simp [place,slots]
    rw [if_neg known,← set_]
    refine both (keyIndex_absent (not_known known)) (Nat.le_refl _) ?_
    simp [place]

private theorem free_there {d : LaunchData} (there : d ≠ .null) : launchDataFree d = some () := by
  cases d with
  | null => exact absurd rfl there
  | _ => rfl

private theorem moveSlots_gap (front after stale : List LaunchData) (thekey what : LaunchData) :
    front ++ after <+: moveSlots (front ++ thekey::what::(after ++ stale)) front.length (front.length + 2) after.length := by
  rw [moveSlots,List.take_left,List.drop_length_add_append]
  show front ++ after <+: front ++ (after ++ stale).take after.length ++ _
  rw [List.take_left]
  exact List.prefix_append ..

/-- A removal closes the gap of the two slots it frees. -/
theorem remove_holds {dict : Dictionary} (holds : Holds dict (slots entries)) (key : CString) :
    ∃ dict' removed, launchDataDictRemove dict key = some (dict',removed) ∧
      Holds dict' (slots (Keyed.unlink Entry.folded entries (foldKey key))) := by
  unfold launchDataDictRemove
  rw [holds.take]
  by_cases known : foldKey key ∈ entries.map Entry.folded
  · obtain ⟨before,old,after,rfl,same,others⟩ := split_known known
    obtain ⟨array,arrayCnt⟩ := dict
    obtain ⟨⟨stale,rfl⟩,rfl⟩ := holds
    have block : slots (before ++ old::after) ++ stale =
        slots before ++ (keyString old.key :: old.what :: (slots after ++ stale)) := by
      simp [slots_append,slots_cons]
    have count : (slots (before ++ old::after)).length = (slots before).length + 2 + (slots after).length := by
      simp [slots_append,slots_cons]
      omega
    have left_ : (slots before).length + 2 + (slots after).length - 2 = (slots (before ++ after)).length := by
      rw [slots_append,List.length_append]
      omega
    rw [keyIndex_found others same,unlink_split others same,block,count]
    refine ⟨⟨moveSlots (slots before ++ keyString old.key::old.what::(slots after ++ stale)) (slots before).length
      ((slots before).length + 2) (slots after).length,(slots (before ++ after)).length⟩,true,?_,?_,rfl⟩
    · have freed : launchDataFree (keyString old.key) = some () := free_there fun null => nomatch null
      simp [freed,free_there old.there,left_]
      omega
    · rw [slots_append]
      exact moveSlots_gap ..
  · rw [keyIndex_absent (not_known known),Keyed.unlink,List.eraseP_of_forall_not (by simpa using not_known known)]
    refine ⟨dict,false,?_,holds⟩
    rw [← holds.2]
    exact if_pos rfl

/-! ## Histories -/

/-- A call on the dictionary; `fresh` is in the memory that an insertion adds. -/
inductive DictCall
  | insert (entry : Entry) (fresh : Nat → LaunchData)
  | remove (key : CString)

def perform (dict : Dictionary) : DictCall → Option Dictionary
  | .insert entry fresh => launchDataDictInsert fresh dict entry.what entry.key
  | .remove key => (launchDataDictRemove dict key).map Prod.fst

/-- What the call means to a map from folded keys. -/
def DictCall.meaning : DictCall → Op Entry Bytes
  | .insert entry _ => .insert entry
  | .remove key => .remove (foldKey key)

/-- The entry of the last insertion of a key equal to this one, if no removal of
such a key followed. -/
def lastEntry (calls : List DictCall) (key : CString) : Option Entry :=
  latest Entry.folded (calls.map DictCall.meaning) (foldKey key)

/-- The entries of the keys that are there, in the order of their first surviving insertions. -/
def survivors (calls : List DictCall) : List Entry :=
  (firstSurviving Entry.folded [] (calls.map DictCall.meaning)).filterMap
    (latest Entry.folded (calls.map DictCall.meaning))

private theorem run_holds (calls : List DictCall) : ∃ dict, calls.foldlM perform Dictionary.alloc = some dict ∧
    Holds dict (slots (contents Entry.folded (calls.map DictCall.meaning))) := by
  induction calls using List.reverseRecOn with
  | nil => exact ⟨Dictionary.alloc,rfl,List.prefix_rfl,rfl⟩
  | append_singleton calls call ih =>
    obtain ⟨dict,made,holds⟩ := ih
    have recorded : Recorded Entry.folded (calls.map DictCall.meaning) _ := contents_recorded _
    have distinct := recorded.distinct
    rw [List.foldlM_append,made,Option.bind_eq_bind,Option.bind_some,List.foldlM_cons,List.map_append,contents,
      List.foldl_append]
    cases call with
    | insert entry fresh =>
      obtain ⟨dict',result,holds'⟩ := insert_holds holds distinct fresh entry
      rw [perform,result]
      exact ⟨dict',rfl,holds'⟩
    | remove key =>
      obtain ⟨dict',removed,result,holds'⟩ := remove_holds holds key
      rw [perform,result]
      exact ⟨dict',rfl,holds'⟩

private theorem lookupPairs_slots (key : CString) (entries : List Entry) : lookupPairs key (slots entries) =
    some ((Keyed.find Entry.folded entries (foldKey key)).elim .null Entry.what) := by
  induction entries with
  | nil => rfl
  | cons entry entries ih =>
    rw [slots_cons,lookupPairs,keyMatches_entry,Keyed.find,List.find?_cons]
    by_cases same : entry.folded = foldKey key
    · simp [same]
    · rw [decide_eq_false same]
      exact ih

private theorem iteratePairs_slots (entries : List Entry) : iteratePairs (slots entries) =
    some (entries.map fun entry => (entry.what,entry.key.bytes ++ [0])) := by
  induction entries with
  | nil => rfl
  | cons entry entries ih =>
    rw [slots_cons,keyString,iteratePairs,ih]
    rfl

/-- A dictionary is a finite map on keys but for the case of their letters, and is
iterated in the order in which its entries began; no call on it fails. -/
theorem dictionary_finite_map (calls : List DictCall) :
    ∃ dict, calls.foldlM perform Dictionary.alloc = some dict ∧
      (∀ key, launchDataDictLookup key dict.object = some ((lastEntry calls key).elim .null Entry.what)) ∧
      launchDataDictGetCount dict = ((calls.map fun call => call.meaning.named Entry.folded).dedup.filter
        fun k => (latest Entry.folded (calls.map DictCall.meaning) k).isSome).length ∧
      launchDataDictIterate dict.object =
        some ((survivors calls).map fun entry => (entry.what,entry.key.bytes ++ [0])) ∧
      ((survivors calls).map Entry.folded).Nodup ∧
      (∀ key entry, lastEntry calls key = some entry ↔ entry ∈ survivors calls ∧ entry.folded = foldKey key) ∧
      dict.arrayCnt ≤ dict.array.length ∧ ∀ d ∈ dict.array.take dict.arrayCnt, d ≠ .null := by
  obtain ⟨dict,made,holds⟩ := run_holds calls
  have recorded : Recorded Entry.folded (calls.map DictCall.meaning) _ := contents_recorded _
  have whole : survivors calls = contents Entry.folded (calls.map DictCall.meaning) := (contents_eq _).symm
  refine ⟨dict,made,fun key => ?_,?_,?_,?_,fun key entry => ?_,?_,?_⟩
  · rw [lastEntry,← recorded.latest,Dictionary.object,holds.take]
    exact lookupPairs_slots key _
  · rw [launchDataDictGetCount,holds.2,slots_length,Nat.mul_div_cancel_left _ (by decide),contents_length,List.map_map]
    rfl
  · rw [Dictionary.object,holds.take,whole]
    exact iteratePairs_slots _
  · rw [whole]
    exact recorded.distinct
  · rw [lastEntry,← recorded.latest,whole]
    refine ⟨Keyed.find_some,fun ⟨member,same⟩ => ?_⟩
    rw [← same]
    exact Keyed.find_mem recorded.distinct member
  · rw [holds.2]
    exact holds.1.length_le
  · rw [holds.take]
    exact slots_there _

end FreebsdLaunchd.Liblaunch
