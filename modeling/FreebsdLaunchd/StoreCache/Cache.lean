import FreebsdLaunchd.Library.FirstOccurrences
import Mathlib.Data.Finmap

/-! The cache between a plug-in of configd and the dynamic store: what the plug-in
sets, removes and notifies is kept back and written at once. -/
namespace FreebsdLaunchd.StoreCache
open FirstOccurrences
variable {κ ν : Type} [DecidableEq κ]

abbrev CFDictionary (κ ν : Type) := Finmap fun _ : κ => ν

/-- The keys of the dynamic store with their values, and the notifications it has been asked for. -/
structure Store (κ ν : Type) where
  values : CFDictionary κ ν
  notified : List κ

namespace Store

def setValue (store : Store κ ν) (key : κ) (value : ν) : Store κ ν := {store with values := store.values.insert key value}

def removeValue (store : Store κ ν) (key : κ) : Store κ ν := {store with values := store.values.erase key}

def notifyValue (store : Store κ ν) (key : κ) : Store κ ν := {store with notified := store.notified ++ [key]}

/-- `SCDynamicStoreSetMultiple`. The keys to set are apart, so that their order does not matter. -/
def setMultiple (store : Store κ ν) (keysToSet : CFDictionary κ ν) (keysToRemove keysToNotify : List κ) : Store κ ν :=
  keysToNotify.foldl notifyValue (keysToRemove.foldl removeValue {store with values := keysToSet ∪ store.values})

end Store

structure Cache (κ ν : Type) where
  cachedKeys : CFDictionary κ ν
  cachedSet : CFDictionary κ ν
  cachedRemovals : List κ
  cachedNotifys : List κ

def cacheOpen : Cache κ ν := ⟨∅,∅,[],[]⟩

namespace Cache

def copyValue (store : Store κ ν) (key : κ) (cache : Cache κ ν) : Option ν × Cache κ ν :=
  match cache.cachedSet.lookup key with
  | some value => (some value,cache)
  | none =>
    if key ∈ cache.cachedRemovals then (none,cache)
    else
      match cache.cachedKeys.lookup key with
      | some value => (some value,cache)
      | none =>
        match store.values.lookup key with
        | some value => (some value,{cache with cachedKeys := cache.cachedKeys.insert key value})
        | none => (none,cache)

def setValue (key : κ) (value : ν) (cache : Cache κ ν) : Cache κ ν :=
  {cache with
    cachedRemovals := cache.cachedRemovals.erase key
    cachedSet := cache.cachedSet.insert key value}

def removeValue (key : κ) (cache : Cache κ ν) : Cache κ ν :=
  {cache with
    cachedSet := cache.cachedSet.erase key
    cachedRemovals := appendNew cache.cachedRemovals key}

def notifyValue (key : κ) (cache : Cache κ ν) : Cache κ ν :=
  {cache with cachedNotifys := appendNew cache.cachedNotifys key}

/-- `cache_write`, where the store takes what it is given. -/
def write (store : Store κ ν) (cache : Cache κ ν) : Store κ ν :=
  if cache.cachedSet.keys.card > 0 ∨ cache.cachedRemovals.length > 0 ∨ cache.cachedNotifys.length > 0 then
    store.setMultiple cache.cachedSet cache.cachedRemovals cache.cachedNotifys
  else store

end Cache

/-! ## Runs -/

inductive Call (κ ν : Type)
  | copyValue (key : κ)
  | setValue (key : κ) (value : ν)
  | removeValue (key : κ)
  | notifyValue (key : κ)

/-- The values that are read, and the cache after the calls. -/
def runCached (store : Store κ ν) : List (Call κ ν) → Cache κ ν → List (Option ν) × Cache κ ν
  | [], cache => ([],cache)
  | .copyValue key::calls, cache =>
    let (value,cache) := cache.copyValue store key
    let (values,cache) := runCached store calls cache
    (value::values,cache)
  | .setValue key value::calls, cache => runCached store calls (cache.setValue key value)
  | .removeValue key::calls, cache => runCached store calls (cache.removeValue key)
  | .notifyValue key::calls, cache => runCached store calls (cache.notifyValue key)

/-- The same calls, made on the store itself. -/
def runDirect : List (Call κ ν) → Store κ ν → List (Option ν) × Store κ ν
  | [], store => ([],store)
  | .copyValue key::calls, store =>
    let (values,after) := runDirect calls store
    (store.values.lookup key::values,after)
  | .setValue key value::calls, store => runDirect calls (store.setValue key value)
  | .removeValue key::calls, store => runDirect calls (store.removeValue key)
  | .notifyValue key::calls, store => runDirect calls (store.notifyValue key)

/-! ## What the cache stands for -/

/-- The value of a key once what is pending has been written. -/
def Cache.pending (store : Store κ ν) (cache : Cache κ ν) (key : κ) : Option ν :=
  if key ∈ cache.cachedRemovals then none else (cache.cachedSet.lookup key).or (store.values.lookup key)

structure Cache.Sound (store : Store κ ν) (cache : Cache κ ν) : Prop where
  keys : ∀ key value, cache.cachedKeys.lookup key = some value → store.values.lookup key = some value
  apart : ∀ key ∈ cache.cachedRemovals, cache.cachedSet.lookup key = none
  removals : cache.cachedRemovals.Nodup
  notifys : cache.cachedNotifys.Nodup

/-- The store would be `now` if the calls so far had been made on it. -/
structure Mirrors (start : Store κ ν) (cache : Cache κ ν) (now : Store κ ν) : Prop where
  sound : cache.Sound start
  values : ∀ key, now.values.lookup key = cache.pending start key

section
variable {start now : Store κ ν} {cache : Cache κ ν}

private theorem mirrors_open (store : Store κ ν) : Mirrors store cacheOpen store where
  sound := ⟨fun key value => by simp [cacheOpen],fun key => by simp [cacheOpen],List.nodup_nil,List.nodup_nil⟩
  values key := by simp [cacheOpen,Cache.pending]

theorem Mirrors.copyValue_eq (mirrors : Mirrors start cache now) (key : κ) :
    (cache.copyValue start key).1 = now.values.lookup key := by
  rw [mirrors.values,Cache.copyValue,Cache.pending]
  cases set : cache.cachedSet.lookup key with
  | some value =>
    have kept : key ∉ cache.cachedRemovals := fun removed => by
      rw [mirrors.sound.apart key removed] at set
      cases set
    simp [kept]
  | none =>
    dsimp only
    split_ifs with removed
    · rfl
    · cases known : cache.cachedKeys.lookup key with
      | some value => simp [mirrors.sound.keys key value known]
      | none => cases start.values.lookup key <;> rfl

theorem Mirrors.copyValue (mirrors : Mirrors start cache now) (key : κ) :
    Mirrors start (cache.copyValue start key).2 now := by
  unfold Cache.copyValue
  split
  · exact mirrors
  · split_ifs
    · exact mirrors
    · split
      · exact mirrors
      · split
        · rename_i read
          refine ⟨⟨fun other value known => ?_,mirrors.sound.apart,mirrors.sound.removals,mirrors.sound.notifys⟩,
            mirrors.values⟩
          rcases eq_or_ne other key with rfl | apart
          · rw [Finmap.lookup_insert] at known
            rw [read,known]
          · exact mirrors.sound.keys other value (by rwa [Finmap.lookup_insert_of_ne _ apart] at known)
        · exact mirrors

theorem Mirrors.setValue (mirrors : Mirrors start cache now) (key : κ) (value : ν) :
    Mirrors start (cache.setValue key value) (now.setValue key value) := by
  have gone : key ∉ cache.cachedRemovals.erase key := mirrors.sound.removals.not_mem_erase
  have others (other : κ) (apart : other ≠ key) : other ∈ cache.cachedRemovals.erase key ↔ other ∈ cache.cachedRemovals :=
    List.mem_erase_of_ne apart
  refine ⟨⟨mirrors.sound.keys,fun other removed => ?_,mirrors.sound.removals.erase key,mirrors.sound.notifys⟩,fun other => ?_⟩
  · have apart : other ≠ key := fun same => gone (same ▸ removed)
    rw [Cache.setValue,Finmap.lookup_insert_of_ne _ apart]
    exact mirrors.sound.apart other ((others other apart).mp removed)
  · rcases eq_or_ne other key with rfl | apart
    · simp [Store.setValue,Cache.pending,Cache.setValue,gone]
    · simp only [Store.setValue,Cache.pending,Cache.setValue,Finmap.lookup_insert_of_ne _ apart,others other apart]
      exact mirrors.values other

theorem Mirrors.removeValue (mirrors : Mirrors start cache now) (key : κ) :
    Mirrors start (cache.removeValue key) (now.removeValue key) := by
  have removed (other : κ) : other ∈ (cache.removeValue key).cachedRemovals ↔ other ∈ cache.cachedRemovals ∨ other = key :=
    mem_appendNew
  refine ⟨⟨mirrors.sound.keys,fun other member => ?_,nodup_appendNew mirrors.sound.removals key,mirrors.sound.notifys⟩,
    fun other => ?_⟩
  · rcases eq_or_ne other key with rfl | apart
    · exact Finmap.lookup_erase _ _
    · rw [Cache.removeValue,Finmap.lookup_erase_ne apart]
      exact mirrors.sound.apart other (((removed other).mp member).resolve_right apart)
  · rcases eq_or_ne other key with rfl | apart
    · rw [Cache.pending,if_pos ((removed other).mpr (.inr rfl))]
      exact Finmap.lookup_erase _ _
    · have same : other ∈ (cache.removeValue key).cachedRemovals ↔ other ∈ cache.cachedRemovals := by
        rw [removed other,or_iff_left apart]
      rw [Cache.pending,Store.removeValue,Finmap.lookup_erase_ne apart,mirrors.values,Cache.pending]
      simp only [same]
      rw [Cache.removeValue,Finmap.lookup_erase_ne apart]

theorem Mirrors.notifyValue (mirrors : Mirrors start cache now) (key : κ) :
    Mirrors start (cache.notifyValue key) (now.notifyValue key) :=
  ⟨⟨mirrors.sound.keys,mirrors.sound.apart,mirrors.sound.removals,nodup_appendNew mirrors.sound.notifys key⟩,mirrors.values⟩

/-! ## Writing -/

private theorem foldl_removeValue (store : Store κ ν) (keys : List κ) (key : κ) :
    (keys.foldl Store.removeValue store).values.lookup key = if key ∈ keys then none else store.values.lookup key := by
  induction keys generalizing store with
  | nil => simp
  | cons first keys ih =>
    rw [List.foldl_cons,ih]
    rcases eq_or_ne key first with rfl | apart
    · simp [Store.removeValue]
    · simp [Store.removeValue,apart]

private theorem foldl_removeValue_notified (store : Store κ ν) (keys : List κ) :
    (keys.foldl Store.removeValue store).notified = store.notified := by
  induction keys generalizing store with
  | nil => rfl
  | cons first keys ih => exact ih _

omit [DecidableEq κ] in
private theorem foldl_notifyValue (store : Store κ ν) (keys : List κ) :
    keys.foldl Store.notifyValue store = {store with notified := store.notified ++ keys} := by
  induction keys generalizing store with
  | nil => simp
  | cons first keys ih => simp [ih,Store.notifyValue]

private theorem lookup_write (store : Store κ ν) (cache : Cache κ ν) (key : κ) :
    (cache.write store).values.lookup key = cache.pending store key := by
  unfold Cache.write Cache.pending
  split_ifs with filled removed removed
  · rw [Store.setMultiple,foldl_notifyValue,foldl_removeValue,if_pos removed]
  · rw [Store.setMultiple,foldl_notifyValue,foldl_removeValue,if_neg removed]
    cases set : cache.cachedSet.lookup key with
    | some value => exact (Finmap.lookup_union_left (Finmap.mem_iff.mpr ⟨value,set⟩)).trans set
    | none => exact Finmap.lookup_union_right (Finmap.lookup_eq_none.mp set)
  · simp only [not_or,Nat.not_lt,Nat.le_zero,List.length_eq_zero_iff] at filled
    rw [filled.2.1] at removed
    cases removed
  · simp only [not_or,Nat.not_lt,Nat.le_zero,Finset.card_eq_zero] at filled
    have none : cache.cachedSet.lookup key = none := by
      rw [Finmap.lookup_eq_none,← Finmap.mem_keys,filled.1]
      exact Finset.notMem_empty key
    rw [none,Option.none_or]

private theorem write_notified (store : Store κ ν) (cache : Cache κ ν) :
    (cache.write store).notified = store.notified ++ cache.cachedNotifys := by
  unfold Cache.write
  split_ifs with filled
  · rw [Store.setMultiple,foldl_notifyValue]
    simp [foldl_removeValue_notified]
  · simp only [not_or,Nat.not_lt,Nat.le_zero,List.length_eq_zero_iff] at filled
    rw [filled.2.2,List.append_nil]

private theorem run_mirrors (mirrors : Mirrors start cache now) (calls : List (Call κ ν)) :
    (runCached start calls cache).1 = (runDirect calls now).1 ∧
      Mirrors start (runCached start calls cache).2 (runDirect calls now).2 := by
  induction calls generalizing cache now with
  | nil => exact ⟨rfl,mirrors⟩
  | cons call calls ih =>
    cases call with
    | copyValue key =>
      obtain ⟨read,mirrors'⟩ := ih (mirrors.copyValue key)
      exact ⟨congrArg₂ List.cons (mirrors.copyValue_eq key) read,mirrors'⟩
    | setValue key value => exact ih (mirrors.setValue key value)
    | removeValue key => exact ih (mirrors.removeValue key)
    | notifyValue key => exact ih (mirrors.notifyValue key)

private theorem mem_notifys (store : Store κ ν) (calls : List (Call κ ν)) (cache : Cache κ ν) (key : κ) :
    key ∈ (runCached store calls cache).2.cachedNotifys ↔ key ∈ cache.cachedNotifys ∨ .notifyValue key ∈ calls := by
  induction calls generalizing cache with
  | nil => simp [runCached]
  | cons call calls ih =>
    cases call with
    | copyValue other =>
      have kept : (cache.copyValue store other).2.cachedNotifys = cache.cachedNotifys := by
        unfold Cache.copyValue
        repeat' split
        all_goals rfl
      simp [runCached,ih,kept]
    | setValue other value => simp [runCached,ih,Cache.setValue]
    | removeValue other => simp [runCached,ih,Cache.removeValue]
    | notifyValue other => simp [runCached,ih,Cache.notifyValue,or_assoc]

/-- Whatever the calls, the values read and the store in the end are those of the same calls on the store
itself, but that each notification is made once. -/
theorem cache_invisible (store : Store κ ν) (calls : List (Call κ ν)) :
    let cached := runCached store calls cacheOpen
    let direct := runDirect calls store
    cached.1 = direct.1 ∧
    ((∀ key ∈ cached.2.cachedRemovals, key ∉ cached.2.cachedSet) ∧ cached.2.cachedRemovals.Nodup ∧
      cached.2.cachedNotifys.Nodup) ∧
    (cached.2.write store).values = direct.2.values ∧
    ∃ keys, (cached.2.write store).notified = store.notified ++ keys ∧ keys.Nodup ∧
      ∀ key, key ∈ keys ↔ .notifyValue key ∈ calls := by
  obtain ⟨read,mirrors⟩ := run_mirrors (mirrors_open store) calls
  refine ⟨read,⟨fun key removed => Finmap.lookup_eq_none.mp (mirrors.sound.apart key removed),mirrors.sound.removals,
    mirrors.sound.notifys⟩,?_,_,write_notified store _,mirrors.sound.notifys,fun key => ?_⟩
  · apply Finmap.ext_lookup
    intro key
    rw [lookup_write,mirrors.values]
  · simp [mem_notifys,cacheOpen]

end

end FreebsdLaunchd.StoreCache
