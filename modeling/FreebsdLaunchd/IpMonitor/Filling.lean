import FreebsdLaunchd.IpMonitor.Entities
import Mathlib.Algebra.Group.PUnit

/-! The memory of a service's list as it is filled: a pointer goes from one slot to
the next, and a route that is left out may leave something in the slot where it would
have been. -/
namespace FreebsdLaunchd.IpMonitor

/-- Memory for a route; `mask` is what only IPv4 has. -/
structure Slot (Addr Mask : Type) where
  prefixLength : Int32
  ifindex : IFIndex
  excludeIfindex : IFIndex
  rank : Rank
  flags : RouteFlags
  dest : Addr
  mask : Mask
  gateway : Addr
  ifa : Addr
  deriving DecidableEq

def RouteFlags.none : RouteFlags := ⟨false,false,false,false,false⟩

/-- `IPv4RouteList` or `IPv6RouteList`, with all the memory there is. -/
structure RouteMemory (Addr Mask : Type) where
  count : Int
  flags : RouteListFlags
  list : List (Slot Addr Mask)

variable {Addr Mask : Type}

def RouteMemory.size (routes : RouteMemory Addr Mask) : Nat := routes.list.length

/-- The pointers `route_p` and `count_p`, and what they point into. -/
structure Filling (Addr Mask : Type) where
  count : Int
  list : List (Slot Addr Mask)
  r : Nat

namespace Filling

/-- A route is written through the pointer, which then is at the next slot. -/
def add (f : Slot Addr Mask → Slot Addr Mask) (w : Filling Addr Mask) : Except Fault (Filling Addr Mask) :=
  match w.list[w.r]? with
  | none => .error .overrun
  | some r => .ok {w with list := w.list.set w.r (f r), r := w.r + 1}

def addIf (wanted : Bool) (f : Slot Addr Mask → Slot Addr Mask) (w : Filling Addr Mask) :
    Except Fault (Filling Addr Mask) :=
  if wanted then w.add f else .ok w

/-- The routes in `done` have been written and `k` slots of the capacity are left,
which all are as `clean` says. What is behind the capacity is `rest`. -/
structure At (clean : Slot Addr Mask → Prop) (done : List (Slot Addr Mask)) (k : Nat) (rest : List (Slot Addr Mask))
    (w : Filling Addr Mask) : Prop where
  pointer : w.r = done.length
  memory : ∃ pending, pending.length = k ∧ (∀ r ∈ pending, clean r) ∧ w.list = done ++ (pending ++ rest)

variable {clean clean' : Slot Addr Mask → Prop} {done rest : List (Slot Addr Mask)} {k : Nat} {w : Filling Addr Mask}

theorem At.weaken (filled : w.At clean done k rest) (weaker : ∀ r, clean r → clean' r) : w.At clean' done k rest := by
  obtain ⟨pointer,pending,length,all,memory⟩ := filled
  exact ⟨pointer,pending,length,fun r member => weaker r (all r member),memory⟩

/-- Where slots are left the pointer is at one of them, and may be at the one behind it next. -/
theorem At.next (filled : w.At clean done (k + 1) rest) : ∃ r, clean r ∧ w.list[w.r]? = some r ∧
    (∀ r' count, At clean (done ++ [r']) k rest ⟨count,w.list.set w.r r',w.r + 1⟩) ∧
    ∀ r' count, clean r' → At clean done (k + 1) rest ⟨count,w.list.set w.r r',w.r⟩ := by
  obtain ⟨pointer,pending,length,all,memory⟩ := filled
  cases pending with
  | nil => simp at length
  | cons r pending =>
    obtain ⟨first,others⟩ := List.forall_mem_cons.mp all
    refine ⟨r,first,by simp [memory,pointer],fun r' count => ?_,fun r' count clean' => ?_⟩
    · refine ⟨by simp [pointer],pending,by simpa using length,others,?_⟩
      simp [memory,pointer]
    · refine ⟨pointer,r'::pending,by simpa using length,List.forall_mem_cons.mpr ⟨clean',others⟩,?_⟩
      simp [memory,pointer]

theorem add_at (filled : w.At clean done (k + 1) rest) (f : Slot Addr Mask → Slot Addr Mask) :
    ∃ r w', clean r ∧ w.add f = .ok w' ∧ w'.count = w.count ∧ w'.At clean (done ++ [f r]) k rest := by
  obtain ⟨r,first,here,added,_⟩ := filled.next
  exact ⟨r,⟨w.count,w.list.set w.r (f r),w.r + 1⟩,first,by rw [add,here],rfl,added _ _⟩

end Filling

variable [Zero Addr]

/-- A slot after `bzero`. -/
def Slot.zero [Zero Mask] : Slot Addr Mask := ⟨0,0,0,0,.none,0,0,0,0⟩

/-- A slot without any of what is only written into it for some of the routes. -/
structure Slot.Unwritten (r : Slot Addr Mask) : Prop where
  ifindex : r.ifindex = 0
  flags : r.flags = .none
  gateway : r.gateway = 0
  ifa : r.ifa = 0

/-- The list that has room for `n` routes, either the one that was passed in or a new one. -/
def RouteMemory.prepare [Zero Mask] (routes : Option (RouteMemory Addr Mask)) (n : Nat) : RouteMemory Addr Mask :=
  let fresh := ⟨n,⟨false,false,false⟩,List.replicate n Slot.zero⟩
  match routes with
  | none => fresh
  | some routes =>
    if routes.size < n then fresh
    else {routes with count := n, list := List.replicate n Slot.zero ++ routes.list.drop n}

/-! ## An additional or excluded route -/

structure AddRouteContext (Addr : Type) where
  addr : Addr
  ifindex : IFIndex
  excludeIfindex : IFIndex
  rank : Rank

/-- What the two families of addresses have of their own: how the prefix of a route
is read into the slot. -/
structure RouteFamily (Addr Mask : Type) where
  inetPton : CFString → Option Addr
  allBitsSet : Int32
  readPrefix : CFDictionary → Int32 × Mask → Bool × Int32 × Mask

/-- The slot after the entry has been looked at, and whether the route is there to stay. -/
def readRoute (os : Platform) (family : RouteFamily Addr Mask) (ctx : AddRouteContext Addr) (dict : CFDictionary)
    (r : Slot Addr Mask) : Bool × Slot Addr Mask :=
  let dest := dictGetIp family.inetPton dict .destinationAddress
  let r := {r with dest := dest.getD 0}
  if dest.isNone then (false,r)
  else
    let (valid,prefixLength,mask) := family.readPrefix dict (r.prefixLength,r.mask)
    let r := {r with prefixLength := prefixLength, mask := mask}
    if !valid then (false,r)
    else
      let r := {r with rank := ctx.rank, excludeIfindex := ctx.excludeIfindex}
      if ctx.ifindex ≠ 0 then
        let r := {r with ifindex := ctx.ifindex, ifa := ctx.addr}
        if ctx.excludeIfindex = 0 then
          let gateway := dictGetIp family.inetPton dict .gatewayAddress
          let r := {r with gateway := gateway.getD 0}
          if gateway.isSome then
            let isHost := r.flags.isHost || r.prefixLength == family.allBitsSet
            (true,{r with flags := {r.flags with hasGateway := true, isHost := isHost}})
          else (true,r)
        else (true,r)
      else
        match plistGetString dict .interfaceName IFNAMSIZ with
        | some ifname =>
          let ifindex := os.ifNameToIndex (cString ifname)
          if ifindex = 0 ∨ ifindex = ctx.ifindex then (false,r) else (true,{r with ifindex := ifindex})
        | none => (true,r)

def addRoute (os : Platform) (family : RouteFamily Addr Mask) (ctx : AddRouteContext Addr) (w : Filling Addr Mask)
    (value : CFType) : Except Fault (Filling Addr Mask) :=
  match value with
  | .dictionary dict =>
    match w.list[w.r]? with
    | none => .error .overrun
    | some r =>
      let (added,r) := readRoute os family ctx dict r
      let list := w.list.set w.r r
      .ok (if added then {w with list := list, r := w.r + 1} else {w with list := list, count := w.count - 1})
  | _ => .ok {w with count := w.count - 1}

/-! ## What an entry stands for -/

/-- Of every entry that has one there is a prefix, whatever the slot had before. -/
structure RouteFamily.Reads (family : RouteFamily Addr Mask) (prefixOf : CFDictionary → Option (Int32 × Mask)) :
    Prop where
  some : ∀ dict new, prefixOf dict = some new → ∀ old, family.readPrefix dict old = (true,new)
  none : ∀ dict, prefixOf dict = none → ∀ old, (family.readPrefix dict old).1 = false

def additionalRoute (family : RouteFamily Addr Mask) (prefixOf : CFDictionary → Option (Int32 × Mask)) (addr : Addr)
    (ifindex : IFIndex) (rank : Rank) (dict : CFDictionary) : Option (Slot Addr Mask) := do
  let dest ← dictGetIp family.inetPton dict .destinationAddress
  let (prefixLength,mask) ← prefixOf dict
  let gateway := dictGetIp family.inetPton dict .gatewayAddress
  some {
    prefixLength := prefixLength
    ifindex := ifindex
    excludeIfindex := 0
    rank := rank
    flags := {RouteFlags.none with
      hasGateway := gateway.isSome, isHost := gateway.isSome && prefixLength == family.allBitsSet}
    dest := dest
    mask := mask
    gateway := gateway.getD 0
    ifa := addr }

/-- An excluded route goes over the interface that it names, which must exist, or
has none. -/
def excludedRoute (os : Platform) (family : RouteFamily Addr Mask) (prefixOf : CFDictionary → Option (Int32 × Mask))
    (ifindex : IFIndex) (rank : Rank) (dict : CFDictionary) : Option (Slot Addr Mask) := do
  let dest ← dictGetIp family.inetPton dict .destinationAddress
  let (prefixLength,mask) ← prefixOf dict
  let named := (plistGetString dict .interfaceName IFNAMSIZ).map fun ifname => os.ifNameToIndex (cString ifname)
  if named = some 0 then none
  else some {
    prefixLength := prefixLength
    ifindex := named.getD 0
    excludeIfindex := ifindex
    rank := rank
    flags := .none
    dest := dest
    mask := mask
    gateway := 0
    ifa := 0 }

def entryRoute (routeOf : CFDictionary → Option (Slot Addr Mask)) : CFType → Option (Slot Addr Mask)
  | .dictionary dict => routeOf dict
  | _ => none

/-- The entry alone decides on the route, and one that is rejected leaves nothing that
the next one would keep. -/
def Adds (os : Platform) (family : RouteFamily Addr Mask) (ctx : AddRouteContext Addr)
    (routeOf : CFDictionary → Option (Slot Addr Mask)) : Prop :=
  ∀ dict (r : Slot Addr Mask), r.Unwritten → match routeOf dict with
    | some route => readRoute os family ctx dict r = (true,route)
    | none => (readRoute os family ctx dict r).1 = false ∧ (readRoute os family ctx dict r).2.Unwritten

variable {os : Platform} {family : RouteFamily Addr Mask} {prefixOf : CFDictionary → Option (Int32 × Mask)}
  {ctx : AddRouteContext Addr} {routeOf : CFDictionary → Option (Slot Addr Mask)} {dict : CFDictionary}
  {r : Slot Addr Mask}

/-- Without a destination or a prefix the slot has other garbage there at most. -/
theorem readRoute_rejected (reads : family.Reads prefixOf) (unwritten : r.Unwritten)
    (bad : dictGetIp family.inetPton dict .destinationAddress = none ∨ prefixOf dict = none) :
    (readRoute os family ctx dict r).1 = false ∧ (readRoute os family ctx dict r).2.Unwritten := by
  obtain ⟨ifindex,flags,gateway,ifa⟩ := unwritten
  unfold readRoute
  cases destination : dictGetIp family.inetPton dict .destinationAddress with
  | none => exact ⟨rfl,ifindex,flags,gateway,ifa⟩
  | some dest =>
    have missing : prefixOf dict = none := bad.resolve_left (by simp [destination])
    have invalid := reads.none dict missing (r.prefixLength,r.mask)
    dsimp only
    rw [invalid]
    exact ⟨rfl,ifindex,flags,gateway,ifa⟩

theorem adds_additional (reads : family.Reads prefixOf) (interface : ctx.ifindex ≠ 0)
    (included : ctx.excludeIfindex = 0) :
    Adds os family ctx (additionalRoute family prefixOf ctx.addr ctx.ifindex ctx.rank) := by
  intro dict r unwritten
  unfold additionalRoute
  cases destination : dictGetIp family.inetPton dict .destinationAddress with
  | none => exact readRoute_rejected reads unwritten (.inl destination)
  | some dest =>
    cases found : prefixOf dict with
    | none => exact readRoute_rejected reads unwritten (.inr found)
    | some new =>
      have valid := reads.some dict new found (r.prefixLength,r.mask)
      unfold readRoute
      cases gateway : dictGetIp family.inetPton dict .gatewayAddress with
      | none => simp [destination,valid,interface,included,unwritten.flags,RouteFlags.none]
      | some gateway' => simp [destination,valid,interface,included,unwritten.flags,RouteFlags.none]

theorem adds_excluded (reads : family.Reads prefixOf) (noInterface : ctx.ifindex = 0) :
    Adds os family ctx (excludedRoute os family prefixOf ctx.excludeIfindex ctx.rank) := by
  intro dict r unwritten
  unfold excludedRoute
  cases destination : dictGetIp family.inetPton dict .destinationAddress with
  | none => exact readRoute_rejected reads unwritten (.inl destination)
  | some dest =>
    cases found : prefixOf dict with
    | none => exact readRoute_rejected reads unwritten (.inr found)
    | some new =>
      have valid := reads.some dict new found (r.prefixLength,r.mask)
      obtain ⟨ifindex,flags,gateway,ifa⟩ := unwritten
      unfold readRoute
      cases named : plistGetString dict .interfaceName IFNAMSIZ with
      | none => simp [destination,valid,noInterface,ifindex,flags,gateway,ifa]
      | some ifname =>
        by_cases absent : os.ifNameToIndex (cString ifname) = 0
        · simp only [destination,valid,noInterface,absent,Option.map_some,Option.bind_eq_bind,Option.bind_some]
          exact ⟨rfl,ifindex,flags,gateway,ifa⟩
        · simp [destination,valid,noInterface,absent,flags,gateway,ifa]

/-! ## The arrays of routes -/

variable {done rest : List (Slot Addr Mask)} {k : Nat} {w : Filling Addr Mask}

/-- One entry: its route is the next one, or there is one route less than was counted. -/
theorem addRoute_at (adds : Adds os family ctx routeOf) (filled : w.At Slot.Unwritten done (k + 1) rest)
    (value : CFType) :
    ∃ w', addRoute os family ctx w value = .ok w' ∧ match entryRoute routeOf value with
      | some route => w'.count = w.count ∧ w'.At Slot.Unwritten (done ++ [route]) k rest
      | none => w'.count = w.count - 1 ∧ w'.At Slot.Unwritten done (k + 1) rest := by
  cases value with
  | dictionary dict =>
    obtain ⟨r,unwritten,here,added,skipped⟩ := filled.next
    have decided := adds dict r unwritten
    simp only [addRoute,here,entryRoute]
    cases read : readRoute os family ctx dict r with
    | mk stays r' =>
      rw [read] at decided
      cases route : routeOf dict with
      | some route' =>
        rw [route] at decided
        obtain ⟨rfl,rfl⟩ := Prod.mk.inj decided
        exact ⟨_,rfl,rfl,added r' w.count⟩
      | none =>
        rw [route] at decided
        obtain ⟨rejected,unwritten'⟩ := decided
        change stays = false at rejected
        subst rejected
        exact ⟨_,rfl,rfl,skipped r' (w.count - 1) unwritten'⟩
  | string | number | boolean | array | other => exact ⟨_,rfl,rfl,filled.pointer,filled.memory⟩

/-- All entries of an array, where room has been counted for every one. -/
theorem addRoutes_at (adds : Adds os family ctx routeOf) (values : List CFType) (room : values.length ≤ k)
    (filled : w.At Slot.Unwritten done k rest) :
    ∃ w', values.foldlM (addRoute os family ctx) w = .ok w' ∧
      w'.count = w.count - values.length + (values.filterMap (entryRoute routeOf)).length ∧
      w'.At Slot.Unwritten (done ++ values.filterMap (entryRoute routeOf))
        (k - (values.filterMap (entryRoute routeOf)).length) rest := by
  induction values generalizing w done k with
  | nil => exact ⟨w,rfl,by simp,by simpa using filled⟩
  | cons value values ih =>
    obtain ⟨k,rfl⟩ : ∃ k', k = k' + 1 := ⟨k - 1,by simp at room; omega⟩
    have room' : values.length ≤ k := by simpa using room
    obtain ⟨w',step,decided⟩ := addRoute_at adds filled value
    simp only [List.foldlM_cons,step,List.filterMap_cons]
    cases route : entryRoute routeOf value with
    | some route' =>
      rw [route] at decided
      obtain ⟨count,filled'⟩ := decided
      obtain ⟨w'',run,count',filled''⟩ := ih room' filled'
      refine ⟨w'',run,?_,?_⟩
      · simp only [count',count,List.length_cons]
        omega
      · simpa using filled''
    | none =>
      rw [route] at decided
      obtain ⟨count,filled'⟩ := decided
      obtain ⟨w'',run,count',filled''⟩ := ih (Nat.le_succ_of_le room') filled'
      refine ⟨w'',run,?_,filled''⟩
      simp only [count',count,List.length_cons]
      omega

/-- The additional routes and behind them the excluded ones, where there is room for all of both. -/
theorem bothArrays_at {ctx' : AddRouteContext Addr} {routeOf' : CFDictionary → Option (Slot Addr Mask)}
    (adds : Adds os family ctx routeOf) (adds' : Adds os family ctx' routeOf') (additional excluded : List CFType)
    (filled : w.At Slot.Unwritten done (additional.length + excluded.length) rest)
    (count : w.count = done.length + additional.length + excluded.length) :
    ∃ w' k', (additional.foldlM (addRoute os family ctx) w).bind (excluded.foldlM (addRoute os family ctx')) = .ok w' ∧
      w'.count = (done ++ additional.filterMap (entryRoute routeOf) ++ excluded.filterMap (entryRoute routeOf')).length ∧
      w'.At Slot.Unwritten
        (done ++ additional.filterMap (entryRoute routeOf) ++ excluded.filterMap (entryRoute routeOf')) k' rest ∧
      (additional.filterMap (entryRoute routeOf)).length + (excluded.filterMap (entryRoute routeOf')).length + k' =
        additional.length + excluded.length := by
  have fewer := List.length_filterMap_le (entryRoute routeOf) additional
  have fewer' := List.length_filterMap_le (entryRoute routeOf') excluded
  obtain ⟨w₁,run,count₁,filled₁⟩ := addRoutes_at adds additional (by omega) filled
  obtain ⟨w₂,run',count₂,filled₂⟩ := addRoutes_at adds' excluded (by omega) filled₁
  refine ⟨w₂,_,by rw [run]; exact run',?_,filled₂,by omega⟩
  simp only [count₂,count₁,count,List.length_append]
  omega

/-! ## The routes before them -/

theorem addIf_at [Zero Mask] {f : Slot Addr Mask → Slot Addr Mask} {route : Slot Addr Mask} (written : f .zero = route)
    (wanted : Bool) (filled : w.At (· = .zero) done (wanted.toNat + k) rest) :
    ∃ w', w.addIf wanted f = .ok w' ∧ w'.count = w.count ∧
      w'.At (· = .zero) (done ++ if wanted then [route] else []) k rest := by
  cases wanted with
  | false => exact ⟨w,rfl,rfl,by simpa using filled⟩
  | true =>
    rw [Bool.toNat_true,Nat.add_comm] at filled
    obtain ⟨r,w',rfl,step,count,filled'⟩ := Filling.add_at filled f
    exact ⟨w',step,count,by simpa [written] using filled'⟩

def RouteMemory.behind (routes : Option (RouteMemory Addr Mask)) (n : Nat) : List (Slot Addr Mask) :=
  (routes.elim [] (·.list)).drop n

theorem prepare_at [Zero Mask] (routes : Option (RouteMemory Addr Mask)) {n : Nat} (counted : n = k) :
    Filling.At (· = .zero) [] k (RouteMemory.behind routes n) ⟨n,(RouteMemory.prepare routes n).list,0⟩ := by
  refine ⟨rfl,List.replicate n .zero,by simpa using counted,by simp,?_⟩
  unfold RouteMemory.prepare RouteMemory.behind
  cases routes with
  | none => simp
  | some routes =>
    by_cases small : routes.size < n
    · have nothing : routes.list.drop n = [] := List.drop_eq_nil_of_le (Nat.le_of_lt small)
      simp [small,nothing]
    · simp [small]

/-- The list that is returned has the routes in front and its count is their number.
All of them are in the `n` slots there was room for, behind which nothing is written. -/
structure RouteMemory.Filled (routes : Option (RouteMemory Addr Mask)) (n : Nat) (list : List (Slot Addr Mask))
    (out : RouteMemory Addr Mask) : Prop where
  capacity : n ≤ out.size
  within : list.length ≤ n
  count : out.count = list.length
  list : out.list.take list.length = list
  behind : out.list.drop n = RouteMemory.behind routes n

omit [Zero Addr] in
theorem Filling.At.filled {clean : Slot Addr Mask → Prop} {routes : Option (RouteMemory Addr Mask)} {n : Nat}
    {out : RouteMemory Addr Mask} (filled : Filling.At clean done k (RouteMemory.behind routes n) w)
    (room : done.length + k = n) (count : w.count = done.length) (same : out.count = w.count) (same' : out.list = w.list) :
    RouteMemory.Filled routes n done out := by
  obtain ⟨_,pending,length,_,memory⟩ := filled
  refine ⟨?_,by omega,same.trans count,?_,?_⟩
  · simp only [RouteMemory.size,same',memory,List.length_append]
    omega
  · simp [same',memory]
  · have front : (done ++ pending).length = n := by simp [length,room]
    rw [same',memory,← List.append_assoc,List.drop_left' front]

end FreebsdLaunchd.IpMonitor
