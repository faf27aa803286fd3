import FreebsdLaunchd.Library.FirstOccurrences
import FreebsdLaunchd.Library.Keyed
import FreebsdLaunchd.Library.NamedBits

/-! Media words of an interface and the dictionaries that name them. A word that has been
made from a dictionary of the media list reads as that dictionary. -/
namespace FreebsdLaunchd.LinkConfiguration
open NamedBits FirstOccurrences

abbrev CFString := List Char

def cfstringToCstring (cfstr : CFString) : Option (List Char) :=
  if cfstr.all fun c => c.toNat < 128 then some (cfstr.takeWhile (· ≠ '\x00')) else none

def strcasecmp (a b : List Char) : Bool := a.map Char.toLower = b.map Char.toLower

/-- The -1 of a function that returns a media word. -/
def failure : BitVec 32 := -1#32

structure Description where
  word : BitVec 32
  string : List Char
  plain : cfstringToCstring string = some string
  deriving DecidableEq

/-- No two descriptions of the table have the same name and all of their words are within the mask. -/
structure Within (mask : BitVec 32) (table : List Description) : Prop where
  distinct : (table.map fun d => d.string.map Char.toLower).Nodup
  within : ∀ d ∈ table, d.word &&& mask = d.word

structure IfMedia where
  nmask : BitVec 32
  tmask : BitVec 32
  omask : BitVec 32
  gmask : BitVec 32
  ether : BitVec 32
  ieee80211 : BitVec 32
  subtypeShared : List Description
  subtypeEthernet : List Description
  subtypeIeee80211 : List Description
  sharedOption : List Description
  ethernetOption : List Description
  ieee80211Option : List Description
  typeSubtype : nmask &&& tmask = 0#32
  typeOptions : nmask &&& (omask ||| gmask) = 0#32
  subtypeOptions : tmask &&& (omask ||| gmask) = 0#32
  /-- The instance has bits of its own. -/
  spare : nmask ||| tmask ||| (omask ||| gmask) ≠ failure
  ethernetSubtypes : Within tmask (subtypeShared ++ subtypeEthernet)
  ieee80211Subtypes : Within tmask (subtypeShared ++ subtypeIeee80211)
  ethernetOptions : Within (omask ||| gmask) (sharedOption ++ ethernetOption)
  ieee80211Options : Within (omask ||| gmask) (sharedOption ++ ieee80211Option)
  ethernetSeparate : Separate Description.word (sharedOption ++ ethernetOption)
  ieee80211Separate : Separate Description.word (sharedOption ++ ieee80211Option)

namespace IfMedia

variable (h : IfMedia)

def type (media : BitVec 32) : BitVec 32 := media &&& h.nmask

def subtype (media : BitVec 32) : BitVec 32 := media &&& h.tmask

def options (media : BitVec 32) : BitVec 32 := media &&& (h.omask ||| h.gmask)

def mask : BitVec 32 := h.nmask ||| h.tmask ||| (h.omask ||| h.gmask)

/-- The descriptions of the subtypes and the options of a type, the shared ones first. -/
def descriptions (type : BitVec 32) : Option (List Description × List Description) :=
  if type = h.ether then some (h.subtypeShared ++ h.subtypeEthernet,h.sharedOption ++ h.ethernetOption)
  else if type = h.ieee80211 then some (h.subtypeShared ++ h.subtypeIeee80211,h.sharedOption ++ h.ieee80211Option)
  else none

end IfMedia

/-- What an array of options holds; the objects that are no strings are told apart by a number. -/
inductive Element
  | string (text : CFString)
  | other (object : Nat)
  deriving DecidableEq

structure MediaDictionary where
  subType : Option CFString
  options : List Element
  deriving DecidableEq

def optionStrings (h : IfMedia) : List Description → BitVec 32 → List CFString
  | [], _ => []
  | d::rest, media =>
    if h.options media = 0#32 then []
    else if media &&& d.word ≠ 0#32 then d.string::optionStrings h rest (media &&& ~~~d.word)
    else optionStrings h rest media

def createMediaDictionary (h : IfMedia) (media : BitVec 32) : Option MediaDictionary :=
  match h.descriptions (h.type media) with
  | none => none
  | some (subtypes,options) => some {
      subType := (subtypes.find? fun d => h.subtype media = d.word).map Description.string
      options := (optionStrings h options media).map .string }

def addOptions (descriptions : List Description) : List Element → BitVec 32 → BitVec 32
  | [], ifmNew => ifmNew
  | .string val::options, ifmNew =>
    match cfstringToCstring val with
    | none => failure
    | some str =>
      match descriptions.find? fun d => strcasecmp str d.string with
      | none => failure
      | some d => addOptions descriptions options (ifmNew ||| d.word)
  | _::_, _ => failure

/-- `__SCNetworkInterfaceCreateMediaOptions`, which fails where there is no such media. An unknown
type leaves the shared descriptions. -/
def createMediaOptions (h : IfMedia) (ulist : List (BitVec 32)) (mediaOptions : MediaDictionary) : BitVec 32 :=
  match ulist with
  | [] => failure
  | first::_ =>
    let ifmNew := h.type first
    if ifmNew = failure then failure
    else
      let (subtypes,options) := (h.descriptions ifmNew).getD (h.subtypeShared,h.sharedOption)
      match mediaOptions.subType.bind cfstringToCstring with
      | none => failure
      | some str =>
        match subtypes.find? fun d => strcasecmp str d.string with
        | none => failure
        | some d => addOptions options mediaOptions.options (ifmNew ||| d.word)

/-- The `available` of `SCNetworkInterfaceCopyMediaOptions` -/
def availableOptions (h : IfMedia) (ulist : List (BitVec 32)) : List MediaDictionary :=
  (ulist.filterMap (createMediaDictionary h)).foldl appendNew []

variable {h : IfMedia} {table : List Description} {a b media mask : BitVec 32} {ulist : List (BitVec 32)} {first : BitVec 32}

theorem mem_availableOptions {dictionary : MediaDictionary} :
    dictionary ∈ availableOptions h ulist ↔ ∃ media ∈ ulist, createMediaDictionary h media = some dictionary := by
  rw [availableOptions,mem_foldl_appendNew,List.mem_filterMap]
  simp

/-! ## Words within masks -/

private theorem and_eq_zero_of_within {x m n : BitVec 32} (within : x &&& m = x) (apart : m &&& n = 0#32) :
    x &&& n = 0#32 := by
  rw [← within,BitVec.and_assoc,apart,BitVec.and_zero]

private theorem optionStrings_eq (separate : Separate Description.word table)
    (within : Within (h.omask ||| h.gmask) table)
    (media : BitVec 32) :
    optionStrings h table media = (present Description.word table media).map Description.string := by
  induction table generalizing media with
  | nil => rfl
  | cons d rest ih =>
    obtain ⟨nonzero,apart⟩ := separate
    obtain ⟨first,apart⟩ := List.pairwise_cons.mp apart
    have ih := ih ⟨fun e member => nonzero e (List.mem_cons_of_mem d member),apart⟩
      ⟨(List.nodup_cons.mp within.distinct).2,fun e member => within.within e (List.mem_cons_of_mem d member)⟩
    rw [optionStrings,present_cons]
    by_cases none : h.options media = 0#32
    · have absent : present Description.word (d::rest) media = [] := by
        refine List.filter_eq_nil_iff.mpr fun e member => ?_
        rw [← within.within e member,BitVec.and_comm e.word,← BitVec.and_assoc,show media &&& (h.omask ||| h.gmask) = _ from none]
        simp
      rw [if_pos none,← present_cons,absent]
      rfl
    · rw [if_neg none]
      by_cases touched : media &&& d.word = 0#32
      · simp [touched,ih]
      · simp [touched,ih,present_clear first]

private theorem find?_string (within : Within mask table) {d : Description} (member : d ∈ table) :
    (table.find? fun e => strcasecmp d.string e.string) = some d := by
  rw [← Keyed.find_mem within.distinct member,Keyed.find]
  exact congrArg (table.find? ·) (funext fun e => decide_eq_decide.mpr eq_comm)

/-- The names of descriptions put their words together again. -/
theorem addOptions_strings (within : Within mask table) {chosen : List Description} (there : chosen ⊆ table)
    (ifmNew : BitVec 32) :
    addOptions table (chosen.map fun d => .string d.string) ifmNew = ifmNew ||| together Description.word chosen := by
  induction chosen generalizing ifmNew with
  | nil => simp [addOptions]
  | cons d chosen ih =>
    obtain ⟨member,there⟩ := List.cons_subset.mp there
    rw [List.map_cons,addOptions,d.plain]
    simp only [find?_string within member,ih there,together_cons,BitVec.or_assoc]


private theorem descriptions_lawful {type : BitVec 32} {subtypes options : List Description}
    (known : h.descriptions type = some (subtypes,options)) :
    Within h.tmask subtypes ∧ Within (h.omask ||| h.gmask) options ∧ Separate Description.word options := by
  unfold IfMedia.descriptions at known
  split at known
  · cases known
    exact ⟨h.ethernetSubtypes,h.ethernetOptions,h.ethernetSeparate⟩
  · split at known
    · cases known
      exact ⟨h.ieee80211Subtypes,h.ieee80211Options,h.ieee80211Separate⟩
    · cases known

private theorem nmask_within : h.nmask &&& h.mask = h.nmask := by
  ext i inside
  simp +contextual [IfMedia.mask]

private theorem tmask_within : h.tmask &&& h.mask = h.tmask := by
  ext i inside
  simp +contextual [IfMedia.mask]

private theorem omask_within : (h.omask ||| h.gmask) &&& h.mask = h.omask ||| h.gmask := by
  ext i inside
  simp +contextual [IfMedia.mask]

private theorem within_trans {x m n : BitVec 32} (within : x &&& m = x) (further : m &&& n = m) : x &&& n = x := by
  rw [← within,BitVec.and_assoc,further]

/-- No word within the masks is mistaken for a failure. -/
theorem ne_failure {x : BitVec 32} (within : x &&& h.mask = x) : x ≠ failure := by
  rintro rfl
  rw [failure,BitVec.neg_one_eq_allOnes,BitVec.allOnes_and] at within
  exact h.spare within

private theorem clear_and {n : BitVec 32} (within : n &&& mask = n) (current : BitVec 32) :
    current &&& ~~~mask &&& n = 0#32 := by
  rw [← within,BitVec.and_comm n,← BitVec.and_assoc,BitVec.and_assoc current,BitVec.and_comm (~~~mask),BitVec.and_not_self]
  simp

/-- A word taken apart that has been put together from a type, a subtype and options, beside
what no dictionary says. -/
theorem parts {type subtype options : BitVec 32} (typed : type &&& h.nmask = type)
    (subtyped : subtype &&& h.tmask = subtype)
    (optioned : options &&& (h.omask ||| h.gmask) = options) (current : BitVec 32) :
    let word := current &&& ~~~h.mask ||| (type ||| subtype ||| options)
    h.type word = type ∧ h.subtype word = subtype ∧ h.options word = options := by
  refine ⟨?_,?_,?_⟩
  · rw [IfMedia.type,or_and,or_and,or_and,clear_and nmask_within,typed,
      and_eq_zero_of_within subtyped (BitVec.and_comm _ _ ▸ h.typeSubtype),
      and_eq_zero_of_within optioned (BitVec.and_comm _ _ ▸ h.typeOptions)]
    simp
  · rw [IfMedia.subtype,or_and,or_and,or_and,clear_and tmask_within,and_eq_zero_of_within typed h.typeSubtype,subtyped,
      and_eq_zero_of_within optioned (BitVec.and_comm _ _ ▸ h.subtypeOptions)]
    simp
  · rw [IfMedia.options,or_and,or_and,or_and,clear_and omask_within,and_eq_zero_of_within typed h.typeOptions,
      and_eq_zero_of_within subtyped h.subtypeOptions,optioned]
    simp

private theorem together_within (within : Within mask table) {chosen : List Description} (there : chosen ⊆ table) :
    together Description.word chosen &&& mask = together Description.word chosen := by
  induction chosen with
  | nil => simp
  | cons d chosen ih =>
    obtain ⟨member,there⟩ := List.cons_subset.mp there
    rw [together_cons,or_and,within.within d member,ih there]

private theorem createMediaDictionary_known {subtypes options : List Description}
    (known : h.descriptions (h.type media) = some (subtypes,options)) :
    createMediaDictionary h media = some {
      subType := (subtypes.find? fun d => h.subtype media = d.word).map Description.string
      options := (present Description.word options media).map fun d => .string d.string } := by
  obtain ⟨_,within,separate⟩ := descriptions_lawful known
  simp [createMediaDictionary,known,optionStrings_eq separate within]

/-- The options that have been put together are the options of the word. -/
theorem present_options (separate : Separate Description.word table) (within : Within (h.omask ||| h.gmask) table)
    {word : BitVec 32}
    (options : h.options word = together Description.word (present Description.word table media)) :
    present Description.word table word = present Description.word table media := by
  have again : present Description.word table (0#32 ||| together Description.word (present Description.word table media)) =
      present Description.word table media := present_together separate fun _ _ => BitVec.zero_and
  rw [BitVec.zero_or,← options] at again
  rw [← again]
  apply present_congr
  intro e member
  rw [IfMedia.options,BitVec.and_assoc,BitVec.and_comm (h.omask ||| h.gmask) e.word,within.within e member]

/-- A word made for a dictionary of the media list reads as that dictionary. -/
theorem createMediaDictionary_set {dictionary : MediaDictionary} (one : h.type media = h.type first)
    (read : createMediaDictionary h media = some dictionary) (named : dictionary.subType ≠ none) (rest : List (BitVec 32))
    (current : BitVec 32) :
    let newOptions := createMediaOptions h (first::rest) dictionary
    newOptions &&& h.mask = newOptions ∧
      createMediaDictionary h (current &&& ~~~h.mask ||| newOptions) = some dictionary := by
  intro newOptions
  cases known : h.descriptions (h.type media) with
  | none => simp [createMediaDictionary,known] at read
  | some tables =>
    obtain ⟨subtypes,options⟩ := tables
    obtain ⟨subtypesWithin,optionsWithin,separate⟩ := descriptions_lawful known
    rw [createMediaDictionary_known known] at read
    obtain rfl := Option.some.inj read
    cases found : subtypes.find? fun d => h.subtype media = d.word with
    | none => simp [found] at named
    | some d =>
      have member := List.mem_of_find?_eq_some found
      have subtype : h.subtype media = d.word := by simpa using List.find?_some found
      have typed : h.type media &&& h.nmask = h.type media := by simp [IfMedia.type,BitVec.and_assoc]
      have chosen : present Description.word options media ⊆ options := List.filter_sublist.subset
      have word : newOptions = h.type media ||| d.word ||| together Description.word (present Description.word options media) := by
        have typeThere : h.type media ≠ failure := ne_failure (within_trans typed nmask_within)
        have added := addOptions_strings optionsWithin chosen (h.type media ||| d.word)
        simpa [newOptions,createMediaOptions,← one,typeThere,known,found,d.plain,find?_string subtypesWithin member] using added
      have optioned := together_within optionsWithin chosen
      obtain ⟨sameType,sameSubtype,sameOptions⟩ := parts typed (subtypesWithin.within d member) optioned current
      rw [word]
      constructor
      · rw [or_and,or_and,within_trans typed nmask_within,within_trans (subtypesWithin.within d member) tmask_within,
          within_trans optioned omask_within]
      · rw [← sameType] at known
        rw [createMediaDictionary_known known,sameSubtype,present_options separate optionsWithin sameOptions,← found,subtype]

end FreebsdLaunchd.LinkConfiguration
