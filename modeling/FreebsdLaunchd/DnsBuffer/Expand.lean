import FreebsdLaunchd.DnsBuffer.Create
import FreebsdLaunchd.Library.Outcomes

/-! How a buffer that has been received is expanded: in place, with the numbers in the
order of the host and lists of pointers in the padding behind the attributes. -/
namespace FreebsdLaunchd.DnsBuffer
open CData ByteMemory

/-! ## Where the fields are -/

/-- `sizeof(_dns_resolver_buf_t)` and `sizeof(_dns_config_buf_t)`, all of it packed to 4 bytes -/
def resolverHeader : Nat := 100

def configHeader : Nat := 56

namespace ResolverAt

def port : Nat := 20
def timeout : Nat := 56
def searchOrder : Nat := 60
def ifIndex : Nat := 64
def flags : Nat := 68
def reachFlags : Nat := 72
def serviceIdentifier : Nat := 76
def nAttribute : Nat := 96

end ResolverAt

def TextField.offset : TextField → Nat
  | .domain => 0
  | .options => 48
  | .cid => 80
  | .ifName => 88

/-- `n_nameserver` and so on -/
def ListField.count : ListField → Nat
  | .nameserver => 8
  | .search => 24
  | .sortaddr => 36

def ListField.list : ListField → Nat
  | .nameserver => 12
  | .search => 28
  | .sortaddr => 40

namespace ConfigAt

def generation : Nat := 24
def version : Nat := 44
def nAttribute : Nat := 48
def nPadding : Nat := 52

end ConfigAt

def ResolverKind.count : ResolverKind → Nat
  | .plain => 0
  | .scoped => 12
  | .serviceSpecific => 32

def ResolverKind.list : ResolverKind → Nat
  | .plain => 4
  | .scoped => 16
  | .serviceSpecific => 36

/-! ## Lists -/

structure Expansion where
  memory : Memory
  padding : Nat
  nPadding : Nat

def expandAddList (e : Expansion) (count size : Nat) : Outcome (Nat × Expansion) :=
  let need := count * size % 2^32
  if e.nPadding < need then .null
  else .done (if need = 0 then 0 else e.padding,{e with padding := e.padding + need,nPadding := e.nPadding - need})

/-- `ntohl` and `ntohs` of a field, in place. -/
def convert (m : Memory) (a w : Nat) : Memory := storeLE m a w (loadBE m a w)

def initList (count list : Nat) (e : Expansion) : Outcome Expansion :=
  let memory := convert e.memory count 4
  (expandAddList {e with memory} (loadLE memory count 4) pointer).bind fun added =>
    .done {added.2 with memory := storeLE added.2.memory list pointer added.1}

/-! ## A resolver -/

def fieldOf : Nat → Option (TextField ⊕ ListField)
  | 10 => some (.inl .domain)
  | 11 => some (.inr .nameserver)
  | 12 => some (.inr .search)
  | 13 => some (.inr .sortaddr)
  | 14 => some (.inl .options)
  | 15 => some (.inl .cid)
  | 16 => some (.inl .ifName)
  | _ => none

/-- The variables of the loop over the attributes of a resolver; `filled` are `n_nameserver` and so on. -/
structure Filling where
  memory : Memory
  position : Nat
  nAttribute : Nat
  filled : ListField → Nat

def Filling.advance (s : Filling) (length : Nat) : Filling :=
  {s with position := s.position + length,nAttribute := (s.nAttribute + 2^32 - length) % 2^32}

def attributeStep (resolver : Nat) (s : Filling) : Outcome Filling :=
  let attributeLength := loadBE s.memory (s.position + 4) 4
  let body := s.position + attributeHeader
  match fieldOf (loadBE s.memory s.position 4) with
  | some (.inl field) =>
    .done (Filling.advance {s with memory := storeLE s.memory (resolver + field.offset) pointer body} attributeLength)
  | some (.inr field) =>
    let list := loadLE s.memory (resolver + field.list) pointer
    if list = 0 then .null
    else
      .done (Filling.advance
        {s with
          memory := storeLE s.memory (list + pointer * s.filled field) pointer body
          filled := Function.update s.filled field (s.filled field + 1)} attributeLength)
  | none => .done (s.advance attributeLength)

def fillResolver (fuel resolver : Nat) (s : Filling) : Outcome Filling :=
  Outcome.loop (fun s => attributeHeader ≤ s.nAttribute) (attributeStep resolver) fuel s

def initScalars (resolver : Nat) (m : Memory) : Memory :=
  let m := storeLE m (resolver + TextField.options.offset) pointer 0
  let m := convert m (resolver + ResolverAt.timeout) 4
  let m := convert m (resolver + ResolverAt.searchOrder) 4
  let m := convert m (resolver + ResolverAt.ifIndex) 4
  let m := convert m (resolver + ResolverAt.serviceIdentifier) 4
  let m := convert m (resolver + ResolverAt.flags) 4
  convert m (resolver + ResolverAt.reachFlags) 4

/-- `_dns_configuration_expand_resolver`. The resolver is where the buffer is. -/
def expandResolver (fuel resolver nBuf : Nat) (e : Expansion) : Outcome Expansion :=
  if nBuf < resolverHeader then .null
  else
    let domainless := {e with memory := storeLE e.memory (resolver + TextField.domain.offset) pointer 0}
    (initList (resolver + ListField.nameserver.count) (resolver + ListField.nameserver.list) domainless).bind fun e =>
    (initList (resolver + ListField.search.count) (resolver + ListField.search.list)
      {e with memory := convert e.memory (resolver + ResolverAt.port) 2}).bind fun e =>
    (initList (resolver + ListField.sortaddr.count) (resolver + ListField.sortaddr.list) e).bind fun e =>
    let m := initScalars resolver e.memory
    let nAttribute := nBuf - resolverHeader
    if nAttribute ≠ loadBE m (resolver + ResolverAt.nAttribute) 4 then .null
    else
      (fillResolver fuel resolver ⟨m,resolver + resolverHeader,nAttribute,fun _ => 0⟩).bind fun s =>
      if s.filled .nameserver ≠ loadLE s.memory (resolver + ListField.nameserver.count) 4 ∨
          s.filled .search ≠ loadLE s.memory (resolver + ListField.search.count) 4 ∨
          s.filled .sortaddr ≠ loadLE s.memory (resolver + ListField.sortaddr.count) 4 then .null
      else .done {e with memory := s.memory}

/-! ## A configuration -/

def dnsConfigBufMax : Nat := 1024*1024

/-- The bytes of the buffer that is allocated: the data, and zeros for the padding. -/
def bufferCreate (data : Bytes) : Option Bytes :=
  let m : Memory := fun a => data.getD a 0
  let nAttribute := loadBE m ConfigAt.nAttribute 4
  let nPadding := loadBE m ConfigAt.nPadding 4
  let configLen := configHeader + nAttribute
  if configLen ≠ data.length then none
  else if (dnsConfigBufMax + 2^64 - data.length) % 2^64 < nPadding then none
  else
    let bufLen := data.length + nPadding
    if dnsConfigBufMax < bufLen then none else some (data ++ zeros nPadding)

def kindOf : Nat → Option ResolverKind
  | 1 => some .plain
  | 2 => some .scoped
  | 3 => some .serviceSpecific
  | _ => none

/-- The variables of the loop over the attributes of a configuration; `found` are `n_resolver` and so on. -/
structure Gathering extends Expansion where
  position : Nat
  nAttribute : Nat
  found : ResolverKind → Nat

def Gathering.advance (s : Gathering) (length : Nat) : Gathering :=
  {s with position := s.position + length,nAttribute := (s.nAttribute + 2^32 - length) % 2^32}

def resolverStep (fuel config : Nat) (s : Gathering) : Outcome Gathering :=
  let attributeLength := loadBE s.memory (s.position + 4) 4
  match kindOf (loadBE s.memory s.position 4) with
  | some kind =>
    let resolver := s.position + attributeHeader
    (expandResolver fuel resolver ((attributeLength + 2^32 - attributeHeader) % 2^32) s.toExpansion).bind fun e =>
    let list := loadLE e.memory (config + kind.list) pointer
    if list = 0 then .null
    else
      .done (Gathering.advance
        {s with
          toExpansion := {e with memory := storeLE e.memory (list + pointer * s.found kind) pointer resolver}
          found := Function.update s.found kind (s.found kind + 1)} attributeLength)
  | none => .done (s.advance attributeLength)

def gatherResolvers (fuel config : Nat) (s : Gathering) : Outcome Gathering :=
  Outcome.loop (fun s => attributeHeader ≤ s.nAttribute) (resolverStep fuel config) fuel s

/-- `_dns_configuration_buffer_expand`. The configuration is where the buffer is. -/
def bufferExpand (fuel config : Nat) (m : Memory) : Outcome Expansion :=
  let nAttribute := loadBE m (config + ConfigAt.nAttribute) 4
  let nPadding := loadBE m (config + ConfigAt.nPadding) 4
  let padding := config + configHeader + nAttribute
  (initList (config + ResolverKind.plain.count) (config + ResolverKind.plain.list) ⟨m,padding,nPadding⟩).bind fun e =>
  (initList (config + ResolverKind.scoped.count) (config + ResolverKind.scoped.list) e).bind fun e =>
  (initList (config + ResolverKind.serviceSpecific.count) (config + ResolverKind.serviceSpecific.list) e).bind fun e =>
  (gatherResolvers fuel config ⟨e,config + configHeader,nAttribute,fun _ => 0⟩).bind fun s =>
  if s.found .plain ≠ loadLE s.memory (config + ResolverKind.plain.count) 4 then .null
  else if s.found .scoped ≠ loadLE s.memory (config + ResolverKind.scoped.count) 4 then .null
  else if s.found .serviceSpecific ≠ loadLE s.memory (config + ResolverKind.serviceSpecific.count) 4 then .null
  else .done s.toExpansion

end FreebsdLaunchd.DnsBuffer
