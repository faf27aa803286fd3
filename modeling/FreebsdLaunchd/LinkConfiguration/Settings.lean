import FreebsdLaunchd.LinkConfiguration.Media

/-! The configuration of one interface's link. The settings found by the first call with
options are kept as the base, which fills in what later options do not say, and are put
back by a call without options. The MTU is left to a process that is not waited for. -/
namespace FreebsdLaunchd.LinkConfiguration

inductive Capability
  | RXCSUM | TXCSUM | VLAN_MTU | VLAN_HWTAGGING | JUMBO_MTU | TSO | TSO4 | TSO6 | LRO | AV
  deriving DecidableEq

inductive Key
  | mediaSubType | mediaOptions | mtu
  /-- `CAPABILITIES_KEY`, of the base only -/
  | capabilities
  | capability (capability : Capability)
  | other (name : CFString)
  deriving DecidableEq

inductive Value
  | string (text : CFString)
  | number (int : Int)
  | array (values : List Element)
  | other
  deriving DecidableEq

abbrev Dictionary := Key → Option Value

/-- An interface that is no bridge, with its driver. -/
structure Interface (h : IfMedia) where
  /-- An object for the interface can be made. -/
  made : Bool
  mediaReads : Bool
  ulist : List (BitVec 32)
  /-- The media of an interface are of one type. -/
  oneType : ∀ media ∈ ulist, ∀ first ∈ ulist.head?, h.type media = h.type first
  mtuReads : Bool
  /-- The limits of the device, where it has any. -/
  deviceMtu : Option (Int × Int)
  /-- `IPV6_MMTU` or `IP_MSS` -/
  leastMtu : Int
  /-- `__SCNetworkInterfaceCreateCapabilities` for capabilities other than -1 -/
  createCapabilities : Int → Dictionary → Int
  createCapabilities_base : ∀ base options, (∀ c, options (.capability c) = none) → createCapabilities base options = base
  acceptsCapabilities : Int → Bool
  acceptsMedia : BitVec 32 → Bool
  acceptsMtu : Int → Bool

/-- What is in force at the interface, and what is remembered of it. -/
structure State where
  /-- -1 where the capabilities cannot be read. -/
  capabilities : Int
  /-- `ifm_current` -/
  media : BitVec 32
  mtu : Int
  /-- The entry of the interface in `baseSettings`. -/
  base : Option Dictionary
  /-- The MTUs of the `ifconfig` processes that have not set them yet. -/
  children : List Int

variable {h : IfMedia}

/-! ## Capabilities -/

def requestedCapabilities (i : Interface h) (options : Dictionary) (s : State) : Int :=
  let capBase := match s.base.bind (· .capabilities) with
    | some (.number num) => num
    | _ => s.capabilities
  i.createCapabilities capBase options

def setCapabilities (i : Interface h) (options : Dictionary) (s : State) : State :=
  if s.capabilities = -1 then s
  else
    let capRequested := requestedCapabilities i options s
    if capRequested = s.capabilities then s
    else if i.acceptsCapabilities capRequested then { s with capabilities := capRequested }
    else s

/-! ## Media options -/

def MediaDictionary.dictionary (media : MediaDictionary) : Dictionary
  | .mediaSubType => media.subType.map .string
  | .mediaOptions => some (.array media.options)
  | _ => none

def copyMediaOptions (options : Dictionary) : Option MediaDictionary :=
  match options .mediaSubType with
  | some (.string subType) =>
    match options .mediaOptions with
    | some (.array values) => some ⟨some subType,values⟩
    | _ => none
  | _ => none

def requestedMedia (h : IfMedia) (options : Dictionary) (s : State) : Option MediaDictionary :=
  copyMediaOptions options <|> s.base.bind copyMediaOptions <|>
    (createMediaDictionary h s.media).bind fun current => copyMediaOptions current.dictionary

def mediaWord (h : IfMedia) (current newOptions : BitVec 32) : BitVec 32 := current &&& ~~~h.mask ||| newOptions

private theorem mediaWord_rest {newOptions : BitVec 32} (within : newOptions &&& h.mask = newOptions)
    (current : BitVec 32) :
    mediaWord h current newOptions &&& ~~~h.mask = current &&& ~~~h.mask := by
  rw [mediaWord,NamedBits.or_and,← within,BitVec.and_assoc newOptions,BitVec.and_not_self,BitVec.and_assoc]
  simp

theorem mediaWord_self (media : BitVec 32) : mediaWord h media (media &&& h.mask) = media := by
  ext i inside
  simp only [mediaWord,BitVec.getElem_or,BitVec.getElem_and,BitVec.getElem_not]
  cases media[i] <;> simp

def setMediaOptions (i : Interface h) (options : Dictionary) (s : State) : State :=
  if i.mediaReads then
    match requestedMedia h options s with
    | none => s
    | some requested =>
      if createMediaDictionary h s.media = some requested then s
      else if requested ∈ availableOptions h i.ulist then
        let newOptions := createMediaOptions h i.ulist requested
        if newOptions = failure then s
        else if i.acceptsMedia (mediaWord h s.media newOptions) then { s with media := mediaWord h s.media newOptions }
        else s
      else s
  else s

/-! ## MTU -/

def mtuLimits (i : Interface h) (mtuCur : Int) : Int × Int :=
  let (mtuMin,mtuMax) := i.deviceMtu.getD (mtuCur,mtuCur)
  (min (min (max mtuMin i.leastMtu) mtuCur) mtuMax,mtuMax)

def InRange (i : Interface h) (mtuCur requested : Int) : Prop :=
  ¬(0 ≤ (mtuLimits i mtuCur).1 ∧ requested < (mtuLimits i mtuCur).1 ∨
    0 ≤ (mtuLimits i mtuCur).2 ∧ (mtuLimits i mtuCur).2 < requested)

instance (i : Interface h) (mtuCur requested : Int) : Decidable (InRange i mtuCur requested) :=
  inferInstanceAs (Decidable (¬_))

def mtuNumber (options : Dictionary) : Option Int :=
  match options .mtu with
  | some (.number val) => some val
  | _ => none

def requestedMtu (options : Dictionary) (s : State) : Int :=
  (mtuNumber options <|> s.base.bind mtuNumber).getD s.mtu

/-- `_SCNetworkInterfaceSetMTU`; `forks` says whether there comes to be a process. -/
def setMtu (i : Interface h) (forks : Bool) (options : Dictionary) (s : State) : State :=
  if i.mtuReads then
    let requested := requestedMtu options s
    if requested = s.mtu then s
    else if InRange i s.mtu requested then
      if forks then { s with children := s.children ++ [requested] } else s
    else s
  else s

def ifconfig (i : Interface h) (s : State) (mtu : Int) : State := if i.acceptsMtu mtu then { s with mtu } else s

/-! ## Updating the link -/

def preserved (i : Interface h) (s : State) : Option Dictionary :=
  let curMedia := if i.mediaReads then createMediaDictionary h s.media else none
  let curMtu := if i.mtuReads ∧ s.mtu ≠ -1 then some s.mtu else none
  let curCap := if s.capabilities ≠ -1 then some s.capabilities else none
  if curMedia = none ∧ curMtu = none ∧ curCap = none then none
  else some fun
    | .mtu => curMtu.map .number
    | .capabilities => curCap.map .number
    | key => curMedia.bind fun media => media.dictionary key

def establish (i : Interface h) (forks : Bool) (options : Dictionary) (s : State) : State :=
  setMtu i forks options (setMediaOptions i options (setCapabilities i options s))

def recordBase (i : Interface h) (s : State) : State :=
  if s.base.isSome then s else { s with base := preserved i s }

def updateLink (i : Interface h) (forks : Bool) (s : State) (options : Option Dictionary) : State :=
  if i.made then
    match options with
    | some options => establish i forks options (recordBase i s)
    | none =>
      match s.base with
      | some base => { establish i forks base s with base := none }
      | none => s
  else s

/-! ## The settings as they are read -/

structure Settings where
  capabilities : Int
  media : Option MediaDictionary
  mtu : Int
  deriving DecidableEq

def settings (h : IfMedia) (s : State) : Settings := ⟨s.capabilities,createMediaDictionary h s.media,s.mtu⟩

def requestedSettings (i : Interface h) (original : Settings) (options : Dictionary) : Settings where
  capabilities := i.createCapabilities original.capabilities options
  media := copyMediaOptions options <|> original.media
  mtu := (mtuNumber options).getD original.mtu

/-- The media word for the options, where the dictionary of the original one says all of it. -/
def requestedWord (i : Interface h) (original : BitVec 32) (options : Dictionary) : BitVec 32 :=
  match copyMediaOptions options with
  | some requested => mediaWord h original (createMediaOptions h i.ulist requested)
  | none => original

/-- The media's dictionary says all of the word that a dictionary can say. -/
def FullyNamed (i : Interface h) (media : BitVec 32) : Prop :=
  ∃ dictionary, createMediaDictionary h media = some dictionary ∧
    media &&& h.mask = createMediaOptions h i.ulist dictionary

structure Readable (i : Interface h) (s : State) : Prop where
  made : i.made
  mediaReads : i.mediaReads
  named : (createMediaDictionary h s.media).bind MediaDictionary.subType ≠ none
  mtuReads : i.mtuReads
  mtu : s.mtu ≠ -1
  capabilities : s.capabilities ≠ -1

structure Accepting (i : Interface h) (options : Dictionary) (s : State) : Prop where
  capabilities : requestedCapabilities i options s ≠ s.capabilities → i.acceptsCapabilities (requestedCapabilities i options s)
  media : ∀ requested ∈ requestedMedia h options s, requested ∈ availableOptions h i.ulist →
    i.acceptsMedia (mediaWord h s.media (createMediaOptions h i.ulist requested))
  mtu : requestedMtu options s ≠ s.mtu → InRange i s.mtu (requestedMtu options s) → i.acceptsMtu (requestedMtu options s)

def Obtainable (i : Interface h) (s : State) (requested : MediaDictionary) : Prop :=
  createMediaDictionary h s.media = some requested ∨ requested ∈ availableOptions h i.ulist

instance (i : Interface h) (s : State) (requested : MediaDictionary) : Decidable (Obtainable i s requested) :=
  inferInstanceAs (Decidable (_ ∨ _))

/-- What the options themselves ask for is in force, or available and in range. -/
structure Possible (i : Interface h) (s : State) (options : Dictionary) : Prop where
  media : ∀ requested ∈ copyMediaOptions options, Obtainable i s requested
  mtu : ∀ requested ∈ mtuNumber options, requested = s.mtu ∨ InRange i s.mtu requested

variable {i : Interface h} {forks : Bool} {options : Dictionary} {s original : State} {requested : MediaDictionary}

theorem named_read {media : BitVec 32} (named : (createMediaDictionary h media).bind MediaDictionary.subType ≠ none) :
    ∃ dictionary, createMediaDictionary h media = some dictionary ∧ dictionary.subType ≠ none := by
  obtain ⟨subType,there⟩ := Option.ne_none_iff_exists'.mp named
  obtain ⟨dictionary,read,named⟩ := Option.bind_eq_some_iff.mp there
  exact ⟨dictionary,read,by simp [named]⟩

/-! ## What the setters do -/

private theorem setCapabilities_accepted
    (accepts : requestedCapabilities i options s ≠ s.capabilities → i.acceptsCapabilities (requestedCapabilities i options s))
    (readable : s.capabilities ≠ -1) :
    setCapabilities i options s = { s with capabilities := requestedCapabilities i options s } := by
  rw [setCapabilities,if_neg readable]
  by_cases same : requestedCapabilities i options s = s.capabilities
  · simp [same]
  · simp [same,accepts same]

def leftBehind (i : Interface h) (forks : Bool) (options : Dictionary) (s : State) : List Int :=
  if requestedMtu options s ≠ s.mtu ∧ InRange i s.mtu (requestedMtu options s) ∧ forks then [requestedMtu options s] else []

private theorem setMtu_eq (reads : i.mtuReads) :
    setMtu i forks options s = { s with children := s.children ++ leftBehind i forks options s } := by
  rw [setMtu,if_pos reads,leftBehind]
  by_cases same : requestedMtu options s = s.mtu <;> by_cases inRange : InRange i s.mtu (requestedMtu options s) <;>
    cases forks <;> simp [same,inRange]

private theorem setMediaOptions_obtainable (obtainable : Obtainable i s requested)
    (accepts : requested ∈ availableOptions h i.ulist →
      i.acceptsMedia (mediaWord h s.media (createMediaOptions h i.ulist requested)))
    (reads : i.mediaReads) (request : requestedMedia h options s = some requested) (named : requested.subType ≠ none) :
    ∃ word, setMediaOptions i options s = { s with media := word } ∧ createMediaDictionary h word = some requested ∧
      (word = s.media ∨ word = mediaWord h s.media (createMediaOptions h i.ulist requested)) ∧
        word &&& ~~~h.mask = s.media &&& ~~~h.mask := by
  rw [setMediaOptions,if_pos reads,request]
  by_cases same : createMediaDictionary h s.media = some requested
  · exact ⟨s.media,by simp [same],same,.inl rfl,rfl⟩
  · have available := obtainable.resolve_left same
    obtain ⟨media,member,read⟩ := mem_availableOptions.mp available
    obtain ⟨first,rest,list⟩ := List.exists_cons_of_ne_nil (List.ne_nil_of_mem member)
    have one := i.oneType media member first (by simp [list])
    obtain ⟨within,reads⟩ := createMediaDictionary_set one read named rest s.media
    rw [← list] at within reads
    refine ⟨mediaWord h s.media (createMediaOptions h i.ulist requested),?_,reads,.inr rfl,mediaWord_rest within s.media⟩
    simp [same,available,ne_failure within,accepts available]

private theorem setMediaOptions_unobtainable (unobtainable : ¬ Obtainable i s requested)
    (request : requestedMedia h options s = some requested) : setMediaOptions i options s = s := by
  obtain ⟨other,missing⟩ := not_or.mp unobtainable
  rw [setMediaOptions,request]
  simp [other,missing]

/-- The media word is new or the old one, and it reads as requested exactly if that can be had. -/
theorem establish_eq (accepting : Accepting i options s) (readable : Readable i s)
    (request : requestedMedia h options s = some requested) (named : requested.subType ≠ none) :
    ∃ word, establish i forks options s = { s with
        capabilities := requestedCapabilities i options s
        media := word
        children := s.children ++ leftBehind i forks options s } ∧
      (createMediaDictionary h word = some requested ↔ Obtainable i s requested) ∧
      (word = s.media ∨ createMediaDictionary h word = some requested ∧
        word = mediaWord h s.media (createMediaOptions h i.ulist requested)) ∧
      word &&& ~~~h.mask = s.media &&& ~~~h.mask := by
  let s₁ := { s with capabilities := requestedCapabilities i options s }
  have first : setCapabilities i options s = s₁ := setCapabilities_accepted accepting.capabilities readable.capabilities
  have request₁ : requestedMedia h options s₁ = some requested := request
  have third (word : BitVec 32) : setMtu i forks options { s₁ with media := word } = { s₁ with
      media := word
      children := s.children ++ leftBehind i forks options s } := setMtu_eq readable.mtuReads
  rw [establish,first]
  by_cases obtainable : Obtainable i s requested
  · have accepts := accepting.media requested request
    obtain ⟨word,second,reads,made,rest⟩ :=
      setMediaOptions_obtainable (s := s₁) obtainable accepts readable.mediaReads request₁ named
    rw [second,third]
    exact ⟨word,rfl,iff_of_true reads obtainable,made.imp_right fun made => ⟨reads,made⟩,rest⟩
  · have second := setMediaOptions_unobtainable (s := s₁) obtainable request₁
    rw [second]
    exact ⟨s.media,third s.media,iff_of_false (fun reads => obtainable (.inl reads)) obtainable,.inl rfl,rfl⟩

/-! ## The base -/

def Settings.base (original : Settings) : Dictionary
  | .mtu => some (.number original.mtu)
  | .capabilities => some (.number original.capabilities)
  | key => original.media.bind fun media => media.dictionary key

theorem preserved_readable (readable : Readable i s) : preserved i s = some (settings h s).base := by
  obtain ⟨dictionary,read,_⟩ := named_read readable.named
  obtain ⟨_,media,_,mtuReads,mtu,capabilities⟩ := readable
  simp only [preserved,media,mtuReads,read,mtu,capabilities,ne_eq,not_false_eq_true,and_true,if_true,reduceCtorEq]
  refine congrArg some (funext fun key => ?_)
  cases key <;> simp [Settings.base,settings,read]

variable {dictionary : MediaDictionary}

private theorem copyMediaOptions_dictionary (named : dictionary.subType ≠ none) :
    copyMediaOptions dictionary.dictionary = some dictionary := by
  obtain ⟨subType,options⟩ := dictionary
  obtain ⟨text,rfl⟩ := Option.ne_none_iff_exists'.mp named
  rfl

theorem copyMediaOptions_base (original : Settings) (read : original.media = some dictionary)
    (named : dictionary.subType ≠ none) :
    copyMediaOptions original.base = some dictionary := by
  rw [← copyMediaOptions_dictionary named]
  simp [copyMediaOptions,Settings.base,read]

theorem subType_of_copyMediaOptions (copied : copyMediaOptions options = some dictionary) :
    dictionary.subType ≠ none := by
  unfold copyMediaOptions at copied
  split at copied
  · split at copied
    · cases copied
      simp
    · cases copied
  · cases copied

theorem requestedSettings_base (original : Settings) (read : original.media = some dictionary)
    (named : dictionary.subType ≠ none) :
    requestedSettings i original original.base = original := by
  have plain : ∀ c, original.base (.capability c) = none := fun c => by simp [Settings.base,read,MediaDictionary.dictionary]
  rw [requestedSettings,i.createCapabilities_base _ _ plain,copyMediaOptions_base original read named,← read]
  cases original
  simp [mtuNumber,Settings.base]

end FreebsdLaunchd.LinkConfiguration
