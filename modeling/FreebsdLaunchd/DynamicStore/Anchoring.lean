import FreebsdLaunchd.DynamicStore.Scans
import FreebsdLaunchd.Library.Readings

/-! What the anchors that configd puts around a pattern make of it. They hold the first
top-level branch at the start of a key and the last one at its end, so that a pattern
of several branches may match a key in part; and so it is with write access that a
process has by its patterns. -/
namespace FreebsdLaunchd.DynamicStore
open CData Expressions

/-! ## Write access -/

/-- An object of Core Foundation, as an entitlement may hold one. -/
inductive CFType
  | null
  | boolean (value : Bool)
  | string (s : CFString)
  | array (items : List CFType)
  | dictionary (entries : List (CFString × CFType))
  | other

structure ServerSession where
  callerEUID : Nat
  callerRootAccess : Option Bool := none
  callerWriteEntitlement : Option CFType := some .null

def hasRootAccess (session : ServerSession) : Bool × ServerSession :=
  let session := {session with callerRootAccess := some (session.callerRootAccess.getD (session.callerEUID = 0))}
  (session.callerRootAccess = some true,session)

def CFType.isString (s : CFString) : CFType → Bool
  | .string s' => s' = s
  | _ => false

def isArray : Option CFType → List CFType
  | some (.array items) => items
  | _ => []

variable {Regex : Type} (os : Platform Regex)

/-- The entitlement is asked for once; `entitlement` is what `copyEntitlement` answers. -/
def writeEntitlement (entitlement : Option CFType) (session : ServerSession) : Option CFType :=
  match session.callerWriteEntitlement with
  | some .null => entitlement
  | known => known

def hasWriteAccess (entitlement : Option CFType) (session : ServerSession) (key : CFString) (st : State Regex) :
    Bool × ServerSession :=
  let (root,session) := hasRootAccess session
  if root then (true,session)
  else
    let session := {session with callerWriteEntitlement := writeEntitlement entitlement session}
    match session.callerWriteEntitlement with
    | some (.boolean value) => (value,session)
    | some (.dictionary entries) =>
      if (isArray (entries.lookup "keys".toList)).any (·.isString key) then (true,session)
      else ((isArray (entries.lookup "patterns".toList)).any fun pattern =>
        match pattern with
        | .string pattern => patternKeyMatches os pattern key st
        | _ => false,session)
    | _ => (false,session)

/-! ## The text that is compiled -/

def bounded (pattern : CFString) : CFString :=
  (if !List.isPrefixOf ['^'] pattern then ['^'] else []) ++ pattern ++
    (if !List.isSuffixOf ['$'] pattern || List.isSuffixOf ['\\','$'] pattern then ['$'] else [])

private theorem patternCompile_eq (pattern : CFString) :
    patternCompile os pattern = (toCString (bounded pattern)).bind os.regcomp := by
  simp only [patternCompile,bounded]
  cases toCString _ <;> rfl

/-- Text before a pattern makes no backslash at its end. -/
theorem unquoted_front {body : CFString} (unquoted : List.isSuffixOf ['\\','$'] (body ++ ['$']) = false) (anchor : Bool) :
    ¬ ∃ before, (if anchor then ['^'] else []) ++ body = before ++ ['\\'] := by
  rintro ⟨before,same⟩
  rcases List.eq_nil_or_concat body with rfl | ⟨front,c,rfl⟩
  · have last := congrArg List.getLast? same
    cases anchor <;> simp at last
  · rw [List.concat_eq_append,← List.append_assoc] at same
    obtain ⟨_,quoted⟩ := List.append_inj' same rfl
    cases quoted
    have suffix_ : List.isSuffixOf ['\\','$'] (front.concat '\\' ++ ['$']) = true :=
      List.isSuffixOf_iff_suffix.mpr ⟨front,by simp⟩
    rw [suffix_] at unquoted
    cases unquoted

private theorem read_front {pattern : CFString} {bs : List Branch} (reads : read pattern = some bs) :
    ∃ middle, read ((if !List.isPrefixOf ['^'] pattern then ['^'] else []) ++ pattern) = some middle ∧
      (middle = led bs ∨ middle = bs ∧ Leads bs) := by
  cases first : List.isPrefixOf ['^'] pattern with
  | false => exact ⟨led bs,read_led reads,.inl rfl⟩
  | true =>
    obtain ⟨rest,rfl⟩ := List.isPrefixOf_iff_prefix.mp first
    exact ⟨bs,reads,.inr ⟨rfl,read_leads reads⟩⟩

/-- What is compiled is the pattern with an anchor at both ends. -/
theorem read_bounded {pattern : CFString} {bs : List Branch} (reads : read pattern = some bs) :
    ∃ bs', read (bounded pattern) = some bs' ∧ Anchored bs bs' := by
  obtain ⟨middle,front,anchored⟩ := read_front reads
  cases append : !List.isSuffixOf ['$'] pattern || List.isSuffixOf ['\\','$'] pattern with
  | true =>
    refine ⟨trailed middle,?_,middle,anchored,.inl rfl⟩
    rw [bounded,append]
    exact read_trailed front
  | false =>
    obtain ⟨ends,unquoted⟩ := Bool.or_eq_false_iff.mp append
    rw [Bool.not_eq_false'] at ends
    obtain ⟨body,rfl⟩ := List.isSuffixOf_iff_suffix.mp ends
    have same : bounded (body ++ ['$']) =
        ((if !List.isPrefixOf ['^'] (body ++ ['$']) then ['^'] else []) ++ body) ++ ['$'] := by
      rw [bounded,append]
      simp
    rw [← List.append_assoc] at front
    refine ⟨middle,by rw [same]; exact front,middle,anchored,.inr ⟨rfl,read_trails front (unquoted_front unquoted _)⟩⟩

/-! ## Keys -/

def ascii (s : CFString) : Bool := s.all (·.toNat < 128)

/-- The part of a key that stands in a C string. -/
def clipped (s : CFString) : CFString := s.takeWhile (· ≠ nul)

def chars (s : CString) : List Char := s.bytes.map fun b => Char.ofNat b.toNat

private theorem clipped_clean {s : CFString} (clean : nul ∉ s) : clipped s = s := by
  refine List.takeWhile_eq_self_iff.mpr fun c member => ?_
  simpa using fun same : c = nul => clean (same ▸ member)

private theorem chars_takeWhile {s : CFString} (narrow : ascii s = true) :
    ((s.map fun c => UInt8.ofNat c.toNat).takeWhile (· != 0)).map (fun b => Char.ofNat b.toNat) = clipped s := by
  induction s with
  | nil => rfl
  | cons c rest ih =>
    rw [ascii,List.all_cons,Bool.and_eq_true,decide_eq_true_eq] at narrow
    obtain ⟨small,narrow⟩ := narrow
    have back : (UInt8.ofNat c.toNat).toNat = c.toNat := by
      simp [Nat.mod_eq_of_lt (by omega : c.toNat < 256)]
    have char : Char.ofNat (UInt8.ofNat c.toNat).toNat = c := by rw [back,Char.ofNat_toNat]
    by_cases zero : c = nul
    · subst zero
      rfl
    · have some_ : UInt8.ofNat c.toNat ≠ 0 := by
        intro none_
        apply zero
        rw [← char,none_]
        rfl
      have kept : clipped (c::rest) = c::clipped rest := by simp [clipped,zero]
      rw [List.map_cons,List.takeWhile_cons_of_pos (by simpa using some_),List.map_cons,char,ih narrow,kept]

private theorem toCString_chars {s : CFString} {str : CString} (converted : toCString s = some str) :
    chars str = clipped s := by
  obtain ⟨narrow,same⟩ := Option.ite_none_right_eq_some.mp converted
  cases same
  exact chars_takeWhile narrow

private theorem bounded_clean {pattern : CFString} (clean : nul ∉ pattern) : nul ∉ bounded pattern := by
  have caret : nul ≠ '^' := by decide
  have dollar : nul ≠ '$' := by decide
  simp only [bounded,List.mem_append,not_or]
  refine ⟨⟨?_,clean⟩,?_⟩
  · split
    · simpa using caret
    · exact List.not_mem_nil
  · split
    · simpa using dollar
    · exact List.not_mem_nil

/-! ## What is reported -/

/-- The regular expression library does what POSIX says of extended regular expressions. -/
structure PosixRegex (locale : CharLocale) : Prop where
  found : ∀ text pRegex bs str, os.regcomp text = some pRegex → read (chars text) = some bs →
    (os.regexec pRegex str = true ↔ Found locale (chars str) bs)

variable {os} {locale : CharLocale} {st : State Regex} {pattern key : CFString} {bs : List Branch} {pRegex : Regex}

private theorem keyMatchesPattern_iff (posix : PosixRegex os locale) (reads : read pattern = some bs)
    (compiled : patternCompile os pattern = some pRegex) :
    keyMatchesPattern os key pRegex = true ↔ ascii key = true ∧ Bounded locale (clipped key) bs := by
  obtain ⟨bs',bounds,anchored⟩ := read_bounded reads
  rw [patternCompile_eq] at compiled
  obtain ⟨text,converted,compiled⟩ := Option.bind_eq_some_iff.mp compiled
  have same : chars text = bounded pattern :=
    (toCString_chars converted).trans (clipped_clean (bounded_clean (read_clean reads)))
  unfold keyMatchesPattern
  cases key_ : toCString key with
  | none =>
    have wide : ¬ ascii key = true := by
      intro narrow
      have some_ : toCString key = some _ := if_pos narrow
      cases key_.symm.trans some_
    simp [wide]
  | some str =>
    have narrow : ascii key = true := (Option.ite_none_right_eq_some.mp key_).1
    simp only [narrow,true_and]
    rw [posix.found text pRegex bs' str compiled (by rw [same]; exact bounds),toCString_chars key_,anchored.found]

private theorem patternKeyMatches_iff (sound : CacheSound os st) (compiled : patternCompile os pattern = some pRegex) :
    patternKeyMatches os pattern key st = true ↔ keyMatchesPattern os key pRegex = true := by
  unfold patternKeyMatches
  cases cached : st.patternData.lookup pattern with
  | none => simp [patternNew,compiled]
  | some pInfo =>
    obtain ⟨same,keys⟩ := sound pattern pInfo cached
    obtain rfl := Option.some.inj (compiled.symm.trans same)
    simp only [Bool.or_eq_true,List.contains_iff_mem,keys,matchesPattern_iff os compiled]
    constructor
    · rintro (⟨_,hit⟩ | hit)
      · exact hit
      · exact hit
    · exact .inr

private theorem patternKeyMatches_compiles (hit : patternKeyMatches os pattern key st = true) (sound : CacheSound os st) :
    ∃ pRegex, patternCompile os pattern = some pRegex := by
  unfold patternKeyMatches at hit
  cases cached : st.patternData.lookup pattern with
  | some pInfo => exact ⟨_,(sound pattern pInfo cached).1⟩
  | none =>
    cases compiled : patternCompile os pattern with
    | some pRegex => exact ⟨pRegex,rfl⟩
    | none => simp [cached,patternNew,compiled] at hit

/-- The keys of which a pattern is told right. -/
def Faithful (locale : CharLocale) (bs : List Branch) (key : CFString) : Prop :=
  if ascii key then bs.length = 1 ∧ nul ∉ key ∨ Whole locale key bs ∨ ¬ Bounded locale (clipped key) bs
  else ¬ Whole locale key bs

private theorem faithful_iff : ((ascii key = true ∧ Bounded locale (clipped key) bs) ↔ Whole locale key bs) ↔
    Faithful locale bs key := by
  unfold Faithful
  cases narrow : ascii key with
  | false => simp
  | true =>
    have kept (whole : Whole locale key bs) : Bounded locale (clipped key) bs := by
      rw [clipped_clean whole.clean]
      exact whole.bounded
    simp only [true_and,if_true]
    constructor
    · intro same
      by_cases whole : Whole locale key bs
      · exact .inr (.inl whole)
      · exact .inr (.inr fun bounded_ => whole (same.mp bounded_))
    · rintro (⟨one,clean⟩ | whole | outside)
      · obtain ⟨b,rfl⟩ := List.length_eq_one_iff.mp one
        rw [clipped_clean clean]
        exact bounded_one
      · exact iff_of_true (kept whole) whole
      · exact iff_of_false outside fun whole => outside (kept whole)

/-! ## Write access by patterns -/

def patternsOf : Option CFType → List CFString
  | some (.dictionary entries) => (isArray (entries.lookup "patterns".toList)).filterMap fun
    | .string pattern => some pattern
    | _ => none
  | _ => []

/-- Access for another reason than a pattern. -/
def Privileged (entitlement : Option CFType) (session : ServerSession) (key : CFString) : Prop :=
  (hasRootAccess session).1 = true ∨ match writeEntitlement entitlement session with
    | some (.boolean value) => value = true
    | some (.dictionary entries) => (isArray (entries.lookup "keys".toList)).any (·.isString key) = true
    | _ => False

private theorem mem_patternsOf {entries : List (CFString × CFType)} {p : CFString} :
    p ∈ patternsOf (some (.dictionary entries)) ↔ .string p ∈ isArray (entries.lookup "patterns".toList) := by
  simp only [patternsOf,List.mem_filterMap]
  constructor
  · rintro ⟨item,member,same⟩
    cases item with
    | string s =>
      cases same
      exact member
    | null | boolean _ | array _ | dictionary _ | other => cases same
  · intro member
    exact ⟨_,member,rfl⟩

private theorem hasWriteAccess_iff {entitlement : Option CFType} {session : ServerSession}
    (other : ¬ Privileged entitlement session key) :
    (hasWriteAccess os entitlement session key st).1 = true ↔
      ∃ p ∈ patternsOf (writeEntitlement entitlement session), patternKeyMatches os p key st = true := by
  rw [Privileged,not_or] at other
  obtain ⟨root,other⟩ := other
  have known : writeEntitlement entitlement (hasRootAccess session).2 = writeEntitlement entitlement session := rfl
  unfold hasWriteAccess
  rw [show hasRootAccess session = ((hasRootAccess session).1,(hasRootAccess session).2) from rfl]
  simp only [root,known]
  cases rests : writeEntitlement entitlement session with
  | none => simp [patternsOf]
  | some value =>
    rw [rests] at other
    cases value with
    | boolean value =>
      simp only [patternsOf]
      simpa using other
    | dictionary entries =>
      have unlisted : ¬ (isArray (entries.lookup "keys".toList)).any (·.isString key) = true := other
      simp only [Bool.false_eq_true,if_false,if_neg unlisted]
      simp only [List.any_eq_true,mem_patternsOf]
      constructor
      · rintro ⟨item,member,hit⟩
        cases item with
        | string p => exact ⟨p,member,hit⟩
        | null | boolean _ | array _ | dictionary _ | other => cases hit
      · rintro ⟨p,member,hit⟩
        exact ⟨.string p,member,hit⟩
    | null | string _ | array _ | other => simp [patternsOf]

/-! ## The keys that are told right -/

/-- The key as a whole is in the language of the pattern. -/
def InLanguage (locale : CharLocale) (pattern key : CFString) : Prop := ∃ bs, read pattern = some bs ∧ Whole locale key bs

variable (os locale st) in
structure TellsWhole : Prop where
  pattern : ∀ pattern bs pRegex key, read pattern = some bs → patternCompile os pattern = some pRegex →
    ((keyMatchesPattern os key pRegex = true ↔ Whole locale key bs) ↔ Faithful locale bs key) ∧
    ((patternKeyMatches os pattern key st = true ↔ Whole locale key bs) ↔ Faithful locale bs key)
  /-- Access that is had by patterns, all of them extended regular expressions. -/
  access : ∀ entitlement session key, ¬ Privileged entitlement session key →
    (∀ p ∈ patternsOf (writeEntitlement entitlement session), (patternCompile os p).isSome → (read p).isSome) →
    (((hasWriteAccess os entitlement session key st).1 = true →
        ∃ p ∈ patternsOf (writeEntitlement entitlement session), InLanguage locale p key) ↔
      (∃ p ∈ patternsOf (writeEntitlement entitlement session), InLanguage locale p key) ∨
        ∀ p ∈ patternsOf (writeEntitlement entitlement session), (patternCompile os p).isSome →
          ∀ bs, read p = some bs → ¬ (ascii key = true ∧ Bounded locale (clipped key) bs))

theorem CacheSound.tellsWhole (posix : PosixRegex os locale) (sound : CacheSound os st) : TellsWhole os locale st where
  pattern := by
    intro pattern bs pRegex key reads compiled
    rw [patternKeyMatches_iff sound compiled,keyMatchesPattern_iff posix reads compiled]
    exact ⟨faithful_iff,faithful_iff⟩
  access := by
    intro entitlement session key other readable
    rw [hasWriteAccess_iff other]
    constructor
    · intro right
      by_cases granted : ∃ p ∈ patternsOf (writeEntitlement entitlement session), InLanguage locale p key
      · exact .inl granted
      · refine .inr fun p member compiles bs reads reported => granted (right ⟨p,member,?_⟩)
        obtain ⟨pRegex,compiled⟩ := Option.isSome_iff_exists.mp compiles
        rw [patternKeyMatches_iff sound compiled,keyMatchesPattern_iff posix reads compiled]
        exact reported
    · rintro (granted | none_) ⟨p,member,hit⟩
      · exact granted
      · obtain ⟨pRegex,compiled⟩ := patternKeyMatches_compiles hit sound
        have compiles : (patternCompile os p).isSome := by rw [compiled]; rfl
        obtain ⟨bs,reads⟩ := Option.isSome_iff_exists.mp (readable p member compiles)
        rw [patternKeyMatches_iff sound compiled,keyMatchesPattern_iff posix reads compiled] at hit
        exact absurd hit (none_ p member compiles bs reads)

theorem patterns_tell_whole_iff (posix : PosixRegex os locale) (reachable : Reachable os st) : TellsWhole os locale st :=
  reachable.atRest.cacheSound.tellsWhole posix

def listed : CharLocale := ⟨fun inside c => c ∈ inside⟩

open Classical in
/-- A platform whose regular expressions are read and matched as the language says. -/
noncomputable def reading : Platform (List Branch) where
  servicePort := 1
  regcomp text := read (chars text)
  regexec bs str := decide (Found listed (chars str) bs)
  order _ l := l
  order_perm _ l := .refl l
  serializedTrue := [1]

private theorem reading_posix : PosixRegex reading listed where
  found := by
    intro text pRegex bs str compiled reads
    obtain rfl := Option.some.inj (compiled.symm.trans reads)
    simp [reading]

private theorem reading_reads : read ['a','|','b'] = some [[.char 'a'],[.char 'b']] := by decide

private theorem reading_compiles : patternCompile reading ['a','|','b'] =
    some [[.caret,.char 'a'],[.char 'b',.dollar]] := by
  decide

theorem patterns_tell_whole_iff_branch :
    patternKeyMatches reading ['a','|','b'] ['b'] {} = true ↔ Whole listed ['b'] [[.char 'a'],[.char 'b']] := by
  have reachable : Reachable reading {} := ⟨[],trivial,rfl⟩
  have whole : Whole listed ['b'] [[.char 'a'],[.char 'b']] :=
    alternation_spans.mpr ⟨[.char 'b'],by decide,1,⟨rfl,by decide,rfl⟩,rfl,by decide⟩
  have tells := (patterns_tell_whole_iff reading_posix reachable).pattern _ _ _ ['b'] reading_reads reading_compiles
  exact tells.2.mpr (.inr (.inl whole))

/-- Of two branches the first one takes any key that it begins. -/
theorem pattern_tells_part :
    ¬ ∀ st pattern key bs pRegex, Reachable reading st → read pattern = some bs →
      patternCompile reading pattern = some pRegex →
      (patternKeyMatches reading pattern key st = true ↔ Whole listed key bs) := by
  intro claim
  have reachable : Reachable reading {} := ⟨[],trivial,rfl⟩
  have same := claim {} _ ['a','x'] _ _ reachable reading_reads reading_compiles
  rw [patternKeyMatches_iff reachable.atRest.cacheSound reading_compiles,
    keyMatchesPattern_iff reading_posix reading_reads reading_compiles] at same
  have part : Bounded listed (clipped ['a','x']) [[.char 'a'],[.char 'b']] :=
    ⟨0,[.char 'a'],0,1,rfl,⟨1,⟨rfl,by decide,rfl⟩,rfl,by decide⟩,fun _ => rfl,fun last => (by cases last)⟩
  obtain ⟨b,member,spans⟩ := alternation_spans.mp (same.mp ⟨by decide,part⟩)
  simp only [List.mem_cons,List.not_mem_nil,or_false] at member
  rcases member with rfl | rfl
  all_goals
    obtain ⟨m,⟨_,_,rfl⟩,last,_⟩ := spans
    exact absurd last (by decide)

end FreebsdLaunchd.DynamicStore
