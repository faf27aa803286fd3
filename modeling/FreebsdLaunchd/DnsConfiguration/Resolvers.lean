import FreebsdLaunchd.DnsConfiguration.Dictionaries

/-! The list of resolvers as it is collected: a resolver is compared with those in
the list, and one that is added gets keys of its own. -/
namespace FreebsdLaunchd.DnsConfiguration

def DNS_RESOLVER_FLAGS_SCOPED : BitVec 32 := 0x1000

def IF_NAMESIZE : Nat := 16

/-- The order that decides between two resolvers, 0 if there is none. -/
def orderVal (dns : CFDictionary) : BitVec 32 := (sint32 (dns.lookup .searchOrder)).getD 0

/-- Whether the resolvers are equal once they have the search order of the first. -/
def sameButOrder (resolver matchResolver : CFDictionary) : Bool :=
  match resolver.lookup .searchOrder with
  | some order => (sint32 (some order)).isSome && decide (resolver = matchResolver.insert .searchOrder order)
  | none => false

/-- The loop over the list: what becomes of it if the resolver does not have to be added. -/
def scanResolvers (resolver : CFDictionary) : List CFDictionary → Option (List CFDictionary)
  | [] => none
  | matchResolver::rest =>
    -- a real duplicate
    if resolver = matchResolver then some (matchResolver::rest)
    -- if only the search order's are different
    else if sameButOrder resolver matchResolver then
      if orderVal resolver < orderVal matchResolver then some (resolver::rest) else some (matchResolver::rest)
    else (scanResolvers resolver rest).map (matchResolver :: ·)

/-- `my_if_nametoindex` of a name that has a C string of the right size. -/
def interfaceIndex (ifNameToIndex : CFString → BitVec 32) : Value → BitVec 32
  | .string name => if name.length < IF_NAMESIZE ∧ name.all (·.toNat < 128) then ifNameToIndex name else 0
  | _ => 0

def usesInterface (resolver : CFDictionary) : Bool :=
  (sint32 (resolver.lookup .flags)).any (fun flags => flags &&& DNS_RESOLVER_FLAGS_SCOPED ≠ 0) ||
    resolver.lookup .scopedQuery = some (.boolean true)

/-- The resolver with the number of those before it, and the index of its interface. -/
def bookkept (ifNameToIndex : CFString → BitVec 32) (count : Nat) (resolver : CFDictionary) : CFDictionary :=
  let numbered := resolver.insert .order (.number count)
  match numbered.lookup .interfaceName with
  | some interface =>
    if interface ≠ .string ['*'] ∧ interfaceIndex ifNameToIndex interface ≠ 0 ∧ usesInterface numbered then
      numbered.insert .ifIndex (.number (interfaceIndex ifNameToIndex interface).toInt)
    else numbered
  | none => numbered

def addResolver (ifNameToIndex : CFString → BitVec 32) (resolvers : List CFDictionary) (resolver : CFDictionary) :
    List CFDictionary :=
  (scanResolvers resolver resolvers).getD (resolvers ++ [bookkept ifNameToIndex resolvers.length resolver])

variable {ifNameToIndex : CFString → BitVec 32} {resolver stored : CFDictionary} {resolvers : List CFDictionary}

def meets (resolver stored : CFDictionary) : Bool := resolver = stored || sameButOrder resolver stored

private theorem sameButOrder_iff (resolver stored : CFDictionary) :
    sameButOrder resolver stored ↔ ∃ order, resolver.lookup .searchOrder = some order ∧
      (sint32 (some order)).isSome ∧ resolver = stored.insert .searchOrder order := by
  unfold sameButOrder
  cases resolver.lookup .searchOrder <;> simp

/-- A key other than the search order has one value in both. -/
theorem lookup_of_meets (met : meets resolver stored) {key : Key} (other : key ≠ .searchOrder) :
    resolver.lookup key = stored.lookup key := by
  rcases (Bool.or_eq_true _ _).mp met with same | same
  · rw [of_decide_eq_true same]
  · obtain ⟨order,_,_,whole⟩ := (sameButOrder_iff resolver stored).mp same
    rw [whole,Finmap.lookup_insert_of_ne _ other]

private theorem scanResolvers_eq_none (apart : ∀ stored ∈ resolvers, ¬ meets resolver stored) :
    scanResolvers resolver resolvers = none := by
  induction resolvers with
  | nil => rfl
  | cons stored rest ih =>
    obtain ⟨first,others⟩ := List.forall_mem_cons.mp apart
    rw [meets,Bool.or_eq_true,not_or,decide_eq_true_eq] at first
    rw [scanResolvers,if_neg first.1,if_neg first.2,ih others]
    rfl

theorem addResolver_append (apart : ∀ stored ∈ resolvers, ¬ meets resolver stored) :
    addResolver ifNameToIndex resolvers resolver = resolvers ++ [bookkept ifNameToIndex resolvers.length resolver] := by
  rw [addResolver,scanResolvers_eq_none apart]
  rfl

theorem lookup_bookkept (count : Nat) {key : Key} (other : key ≠ .order) (other' : key ≠ .ifIndex) :
    (bookkept ifNameToIndex count resolver).lookup key = resolver.lookup key := by
  unfold bookkept
  dsimp only
  split
  · split
    · rw [Finmap.lookup_insert_of_ne _ other',Finmap.lookup_insert_of_ne _ other]
    · rw [Finmap.lookup_insert_of_ne _ other]
  · rw [Finmap.lookup_insert_of_ne _ other]

theorem lookup_order_bookkept (count : Nat) :
    (bookkept ifNameToIndex count resolver).lookup .order = some (.number count) := by
  unfold bookkept
  dsimp only
  split
  · split
    · rw [Finmap.lookup_insert_of_ne _ (by decide),Finmap.lookup_insert]
    · rw [Finmap.lookup_insert]
  · rw [Finmap.lookup_insert]

end FreebsdLaunchd.DnsConfiguration
