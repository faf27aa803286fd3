import FreebsdLaunchd.Library.Runs
import FreebsdLaunchd.LinkConfiguration.Settings

/-! Sequences of calls for one interface. The processes that they leave behind set the MTU
at any time and in any order. -/
namespace FreebsdLaunchd.LinkConfiguration
open Runs

inductive Event
  | call (options : Option Dictionary) (forks : Bool)
  /-- One of the processes that are left has its turn. -/
  | child (place : Nat)

variable {h : IfMedia}

def child (i : Interface h) (s : State) (place : Nat) : State :=
  match s.children[place]? with
  | some mtu => { ifconfig i s mtu with children := s.children.eraseIdx place }
  | none => s

/-- The state, beside what its settings are to be compared with. -/
structure Trace where
  state : State
  /-- The state before the first call with options since the last call without. -/
  original : State
  /-- The last call. -/
  options : Option Dictionary

def Trace.start (s : State) : Trace := ⟨s,s,none⟩

def Trace.step (i : Interface h) (t : Trace) : Event → Trace
  | .call options forks =>
    { state := updateLink i forks t.state options
      original := if t.options.isNone ∧ options.isSome then t.state else t.original
      options }
  | .child place => { t with state := child i t.state place }

/-- The settings after the call, by those that were in force without any. -/
def settingsAfter (i : Interface h) (original : Settings) : Option Dictionary → Settings
  | some options => requestedSettings i original options
  | none => original

def wordAfter (i : Interface h) (original : BitVec 32) : Option Dictionary → BitVec 32
  | some options => requestedWord i original options
  | none => original

/-- In whatever order the processes that are left have their turns, the settings are then what the
last options make of the original ones, or the original ones again. The word is the same as far
as its dictionary says it. -/
def Settles (i : Interface h) (t : Trace) : Prop :=
  ∀ order : List Int, order.Perm t.state.children →
    let after := order.foldl (ifconfig i) t.state
    settings h after = settingsAfter i (settings h t.original) t.options ∧
      (FullyNamed i t.original.media → after.media = wordAfter i t.original.media t.options)

/-- The settings can be read, those that are asked for can be had and the driver takes what is put to it. -/
def Admitted (i : Interface h) (t : Trace) : Event → Prop
  | .call options _ => Readable i t.state ∧ (∀ own ∈ options, Possible i t.state own) ∧
      ∀ request ∈ options <|> t.state.base, Accepting i request (recordBase i t.state)
  | .child _ => True

/-- The processes that are left set the MTU that is asked for. If there are none it is in force, or
it is in range and there comes to be one. The media that are left to the base can be had. -/
structure Carried (i : Interface h) (forks : Bool) (request : Dictionary) (s : State) : Prop where
  left : ∀ mtu ∈ s.children, mtu = requestedMtu request s
  mtu : s.children = [] → requestedMtu request s = s.mtu ∨ InRange i s.mtu (requestedMtu request s) ∧ forks
  media : ∀ requested ∈ requestedMedia h request s, Obtainable i s requested

/-- A call without options asks for the base. -/
def Undisturbed (i : Interface h) (t : Trace) : Event → Prop
  | .call options forks => ∀ request ∈ options <|> t.state.base, Carried i forks request (recordBase i t.state)
  | .child _ => True

variable {i : Interface h} {forks : Bool} {options : Dictionary} {s original : State} {dictionary : MediaDictionary} {t : Trace}

/-! ## The media word -/

/-- What the media word can have become since the original one. -/
structure WordSince (i : Interface h) (original word : BitVec 32) : Prop where
  rest : word &&& ~~~h.mask = original &&& ~~~h.mask
  made : word = original ∨ ∃ dictionary, createMediaDictionary h word = some dictionary ∧
    word = mediaWord h original (createMediaOptions h i.ulist dictionary)

theorem WordSince.rfl {word : BitVec 32} : WordSince i word word := ⟨Eq.refl _,.inl (Eq.refl _)⟩

/-- Where the original dictionary says all of the word, the word is the one for the dictionary in force. -/
theorem WordSince.eq {word : BitVec 32} (since : WordSince i original.media word) (full : FullyNamed i original.media)
    (read : createMediaDictionary h word = some dictionary) :
    word = mediaWord h original.media (createMediaOptions h i.ulist dictionary) := by
  rcases since.made with same | ⟨dictionary',read',made⟩
  · obtain ⟨dictionary',read',all⟩ := full
    rw [same] at read ⊢
    obtain rfl := Option.some.inj (read.symm.trans read')
    rw [← all]
    exact (mediaWord_self original.media).symm
  · obtain rfl := Option.some.inj (read.symm.trans read')
    exact made

private theorem wordAfter_eq {word : BitVec 32} (since : WordSince i original.media word)
    (full : FullyNamed i original.media)
    {call : Option Dictionary} (read : createMediaDictionary h word = (settingsAfter i (settings h original) call).media) :
    word = wordAfter i original.media call := by
  obtain ⟨dictionary,there,all⟩ := full
  have kept : createMediaDictionary h word = some dictionary → word = original.media := fun read => by
    rw [since.eq ⟨dictionary,there,all⟩ read,← all,mediaWord_self]
  cases call with
  | none => exact kept (read.trans there)
  | some options =>
    rw [settingsAfter,requestedSettings,settings,there] at read
    rw [wordAfter,requestedWord]
    cases copied : copyMediaOptions options with
    | none => exact kept (by simpa [copied] using read)
    | some requested => exact since.eq ⟨dictionary,there,all⟩ (by simpa [copied] using read)

/-! ## One call -/

/-- The settings come to these when the processes that are left have had their turns. -/
structure Comes (h : IfMedia) (expected : Settings) (s : State) : Prop where
  capabilities : s.capabilities = expected.capabilities
  media : createMediaDictionary h s.media = expected.media
  mtu : s.children = [] → s.mtu = expected.mtu
  left : ∀ mtu ∈ s.children, mtu = expected.mtu

private theorem comes_base {expected : Settings} {base : Option Dictionary} :
    Comes h expected { s with base } ↔ Comes h expected s :=
  ⟨fun comes => ⟨comes.capabilities,comes.media,comes.mtu,comes.left⟩,
    fun comes => ⟨comes.capabilities,comes.media,comes.mtu,comes.left⟩⟩

private theorem leftBehind_eq {mtu : Int} (member : mtu ∈ leftBehind i forks options s) :
    mtu = requestedMtu options s ∧ requestedMtu options s ≠ s.mtu ∧ InRange i s.mtu (requestedMtu options s) := by
  unfold leftBehind at member
  split at member
  next left => exact ⟨List.mem_singleton.mp member,left.1,left.2.1⟩
  next => cases member

private theorem leftBehind_eq_nil_iff : leftBehind i forks options s = [] ↔
    (requestedMtu options s ≠ s.mtu → ¬ (InRange i s.mtu (requestedMtu options s) ∧ forks)) := by
  simp [leftBehind]

/-- What the setters make of options while the base is that of the original settings. -/
theorem establish_based (based : s.base = some (settings h original).base) (since : WordSince i original.media s.media)
    (readable : Readable i s) (accepting : Accepting i options s) (read : createMediaDictionary h original.media = some dictionary)
    (named : dictionary.subType ≠ none) :
    (Comes h (requestedSettings i (settings h original) options) (establish i forks options s) ↔ Carried i forks options s) ∧
      WordSince i original.media (establish i forks options s).media ∧
      (establish i forks options s).base = s.base ∧
      (establish i forks options s).children = s.children ++ leftBehind i forks options s := by
  have copied := copyMediaOptions_base (settings h original) read named
  have media : requestedMedia h options s = (requestedSettings i (settings h original) options).media := by
    rw [requestedMedia,based,Option.bind_some,copied,requestedSettings,settings,read]
    cases copyMediaOptions options <;> rfl
  have request : ∃ requested, requestedMedia h options s = some requested ∧ requested.subType ≠ none := by
    rw [media,requestedSettings,settings,read]
    cases found : copyMediaOptions options with
    | none => exact ⟨dictionary,rfl,named⟩
    | some requested => exact ⟨requested,rfl,subType_of_copyMediaOptions found⟩
  obtain ⟨requested,request,subType⟩ := request
  obtain ⟨word,done,reads,made,rest⟩ := establish_eq accepting readable request subType
  have capabilities : requestedCapabilities i options s = (requestedSettings i (settings h original) options).capabilities := by
    simp [requestedCapabilities,based,Settings.base,settings,requestedSettings]
  have mtu : requestedMtu options s = (requestedSettings i (settings h original) options).mtu := by
    rw [requestedMtu,based,requestedSettings]
    cases mtuNumber options <;> rfl
  rw [done]
  refine ⟨⟨fun comes => ?_,fun carried => ?_⟩,⟨rest.trans since.rest,?_⟩,rfl,rfl⟩
  · have left := comes.left
    rw [← mtu] at left
    refine ⟨fun mtu member => left mtu (List.mem_append_left _ member),fun none => ?_,fun requested' member => ?_⟩
    · by_cases stays : leftBehind i forks options s = []
      · have inForce := comes.mtu (by simp [none,stays])
        exact .inl (mtu.trans inForce.symm)
      · by_contra neither
        obtain ⟨_,unforked⟩ := not_or.mp neither
        exact stays (leftBehind_eq_nil_iff.mpr fun _ => unforked)
    · obtain rfl : requested' = requested := Option.some.inj (member.symm.trans request)
      exact reads.mp (comes.media.trans (media.symm.trans request))
  · refine ⟨capabilities,?_,fun none => ?_,fun v member => ?_⟩
    · exact (reads.mpr (carried.media requested request)).trans (request.symm.trans media)
    · obtain ⟨none,unforked⟩ := List.append_eq_nil_iff.mp none
      by_contra other
      have other' : requestedMtu options s ≠ s.mtu := fun same => other (same.symm.trans mtu)
      exact leftBehind_eq_nil_iff.mp unforked other' ((carried.mtu none).resolve_left other')
    · rw [← mtu]
      rcases List.mem_append.mp member with member | member
      · exact carried.left v member
      · exact (leftBehind_eq member).1
  · rcases made with same | ⟨reads,made⟩
    · rw [same]
      exact since.made
    · exact .inr ⟨requested,reads,by rw [made,mediaWord,since.rest,← mediaWord]⟩

/-! ## Runs -/

private theorem foldl_ifconfig {order : List Int} (accepted : ∀ mtu ∈ order, i.acceptsMtu mtu) (s : State) :
    order.foldl (ifconfig i) s = { s with mtu := order.getLast?.getD s.mtu } := by
  induction order generalizing s with
  | nil => rfl
  | cons mtu order ih =>
    obtain ⟨first,others⟩ := List.forall_mem_cons.mp accepted
    rw [List.foldl_cons,ifconfig,if_pos first,ih others,List.getLast?_cons]
    rfl

def Trace.expected (i : Interface h) (t : Trace) : Settings := settingsAfter i (settings h t.original) t.options

private theorem settles_iff (accepted : ∀ mtu ∈ t.state.children, i.acceptsMtu mtu)
    (since : WordSince i t.original.media t.state.media) :
    Settles i t ↔ Comes h (t.expected i) t.state := by
  have after {order : List Int} (perm : order.Perm t.state.children) :=
    foldl_ifconfig (fun mtu member => accepted mtu (perm.mem_iff.mp member)) t.state
  constructor
  · intro settles
    have same := (settles _ (.refl _)).1
    rw [after (.refl _)] at same
    refine ⟨congrArg Settings.capabilities same,congrArg Settings.media same,fun none => ?_,fun mtu member => ?_⟩
    · rw [none] at same
      exact congrArg Settings.mtu same
    · -- the process that sets this MTU may be the last
      have perm : (t.state.children.erase mtu ++ [mtu]).Perm t.state.children :=
        (List.perm_append_singleton mtu _).trans (List.perm_cons_erase member).symm
      have same := congrArg Settings.mtu (settles _ perm).1
      rw [after perm,List.getLast?_concat] at same
      exact same
  · rintro ⟨capabilities,media,mtu,left⟩ order perm
    rw [after perm]
    have last : order.getLast?.getD t.state.mtu = (t.expected i).mtu := by
      cases found : order.getLast? with
      | none =>
        obtain rfl := List.getLast?_eq_none_iff.mp found
        exact mtu perm.nil_eq.symm
      | some v => exact left v (perm.mem_iff.mp (List.mem_of_getLast? found))
    refine ⟨?_,fun full => wordAfter_eq since full media⟩
    rw [settings,capabilities,media,last]
    rfl

structure Sound (i : Interface h) (t : Trace) : Prop where
  base : t.state.base = t.options.map fun _ => (settings h t.original).base
  named : t.options ≠ none → (createMediaDictionary h t.original.media).bind MediaDictionary.subType ≠ none
  since : WordSince i t.original.media t.state.media
  accepted : ∀ mtu ∈ t.state.children, i.acceptsMtu mtu

theorem Sound.start (fresh : s.base = none) (quiet : s.children = []) : Sound i (.start s) :=
  ⟨fresh,fun other => absurd rfl other,.rfl,by simp [Trace.start,quiet]⟩

def Trace.begins (t : Trace) : State := if t.options.isNone then t.state else t.original

/-- What the setters find while a call is carried out. -/
theorem Sound.recorded (sound : Sound i t) (readable : Readable i t.state) :
    recordBase i t.state = { t.state with base := some (settings h t.begins).base } ∧
      WordSince i t.begins.media t.state.media ∧
      (createMediaDictionary h t.begins.media).bind MediaDictionary.subType ≠ none := by
  have base := sound.base
  rw [Trace.begins]
  cases options : t.options with
  | none =>
    rw [options] at base
    have none : t.state.base = none := base
    refine ⟨?_,.rfl,readable.named⟩
    simp [recordBase,none,preserved_readable readable]
  | some last =>
    rw [options] at base
    have some : t.state.base = some (settings h t.original).base := base
    refine ⟨?_,sound.since,sound.named (by simp [options])⟩
    rw [recordBase,if_pos (by simp [some])]
    simp [← some]

private theorem child_sound (sound : Sound i t) (place : Nat) :
    Sound i (t.step i (.child place)) ∧
      (Comes h (t.expected i) t.state → Comes h (t.expected i) (child i t.state place)) := by
  rw [Trace.step]
  cases here : t.state.children[place]? with
  | none =>
    have stays : child i t.state place = t.state := by rw [child,here]
    rw [stays]
    exact ⟨sound,id⟩
  | some mtu =>
    have member := List.mem_of_getElem? here
    have done : child i t.state place = { t.state with mtu, children := t.state.children.eraseIdx place } := by
      rw [child,here]
      simp only [ifconfig,if_pos (sound.accepted mtu member)]
    rw [done]
    refine ⟨⟨sound.base,sound.named,sound.since,fun v member => sound.accepted v (List.mem_of_mem_eraseIdx member)⟩,
      fun comes => ⟨comes.capabilities,comes.media,fun _ => comes.left mtu member,
        fun v member => comes.left v (List.mem_of_mem_eraseIdx member)⟩⟩

private theorem request_sound (sound : Sound i t) (readable : Readable i t.state) {request : Dictionary}
    (accepting : Accepting i request (recordBase i t.state)) :
    let after := establish i forks request (recordBase i t.state)
    (Comes h (requestedSettings i (settings h t.begins) request) after ↔ Carried i forks request (recordBase i t.state)) ∧
      WordSince i t.begins.media after.media ∧ after.base = some (settings h t.begins).base ∧
      ∀ mtu ∈ after.children, i.acceptsMtu mtu := by
  intro after
  obtain ⟨recorded,since,named⟩ := sound.recorded readable
  obtain ⟨dictionary,read,named⟩ := named_read named
  have readable' : Readable i (recordBase i t.state) := by
    rw [recorded]
    exact { readable with }
  obtain ⟨comes,since',base,children⟩ := establish_based (by rw [recorded]) (by rw [recorded]; exact since)
    readable' accepting read named
  refine ⟨comes,since',base.trans (by rw [recorded]),fun mtu member => ?_⟩
  rw [children] at member
  rcases List.mem_append.mp member with member | member
  · rw [recorded] at member
    exact sound.accepted mtu member
  · obtain ⟨rfl,other,inRange⟩ := leftBehind_eq member
    exact accepting.mtu other inRange

/-- A call keeps what is kept, and the settings come to what they should exactly if it is undisturbed. -/
theorem call_sound (sound : Sound i t) {options : Option Dictionary} (admitted : Admitted i t (.call options forks)) :
    Sound i (t.step i (.call options forks)) ∧
      (Comes h (t.expected i) t.state →
        (Comes h ((t.step i (.call options forks)).expected i) (t.step i (.call options forks)).state ↔
          Undisturbed i t (.call options forks))) := by
  obtain ⟨readable,-,accepting⟩ := admitted
  obtain ⟨recorded,since,named⟩ := sound.recorded readable
  cases options with
  | some own =>
    obtain ⟨comes,since',base,accepted⟩ := request_sound sound readable (accepting own rfl)
    have step : t.step i (.call (some own) forks) = ⟨establish i forks own (recordBase i t.state),t.begins,some own⟩ := by
      rw [Trace.step,updateLink,if_pos readable.made]
      simp [Trace.begins]
    rw [step]
    refine ⟨⟨base,fun _ => named,since',accepted⟩,fun _ => comes.trans ?_⟩
    exact ⟨fun carried request member => Option.some.inj member ▸ carried,fun undisturbed => undisturbed own rfl⟩
  | none =>
    have base := sound.base
    cases last : t.options with
    | none =>
      rw [last] at base
      have step : t.step i (.call none forks) = t := by
        rw [Trace.step,updateLink,if_pos readable.made,base]
        cases t
        simp_all
      rw [step]
      refine ⟨sound,fun comes => iff_of_true comes fun request member => ?_⟩
      rw [base] at member
      cases member
    | some own =>
      rw [last] at base
      have recorded' : recordBase i t.state = t.state := by rw [recordBase,if_pos (by simp [base])]
      have begins : t.begins = t.original := by simp [Trace.begins,last]
      have request : (settings h t.original).base ∈ ((none : Option Dictionary) <|> t.state.base) := base
      obtain ⟨comes,since',-,accepted⟩ := request_sound sound readable (accepting _ request)
      rw [begins] at comes since' named
      obtain ⟨dictionary,read,named⟩ := named_read named
      rw [requestedSettings_base (settings h t.original) read named] at comes
      have step : t.step i (.call none forks) =
          ⟨{ establish i forks (settings h t.original).base (recordBase i t.state) with base := none },t.original,none⟩ := by
        rw [Trace.step,updateLink,if_pos readable.made,recorded',base]
        simp
      rw [step]
      refine ⟨⟨rfl,fun other => absurd rfl other,since',accepted⟩,fun _ => ?_⟩
      refine (comes_base.trans comes).trans ⟨fun carried request' member => ?_,fun undisturbed => undisturbed _ request⟩
      exact Option.some.inj (request.symm.trans member) ▸ carried

private theorem step_sound (sound : Sound i t) {event : Event} (admitted : Admitted i t event) :
    Sound i (t.step i event) ∧ (Comes h (t.expected i) t.state →
      (Comes h ((t.step i event).expected i) (t.step i event).state ↔ Undisturbed i t event)) := by
  cases event with
  | call options forks => exact call_sound sound admitted
  | child place =>
    obtain ⟨sound,comes⟩ := child_sound sound place
    exact ⟨sound,fun before => iff_of_true (comes before) trivial⟩

/-- After calls with options the settings come to what the last options make of the ones in force
before, whatever the others were, and after a call without options to the ones in force before,
exactly if no call is disturbed by a process that an earlier one has left behind. -/
theorem settings_independent_iff {h : IfMedia} {i : Interface h} {start : State} (fresh : start.base = none)
    (quiet : start.children = []) {events : List Event} (admitted : Meets (Trace.step i) (Admitted i) (.start start) events) :
    Along (Trace.step i) (Settles i) (.start start) events ↔
      Meets (Trace.step i) (Undisturbed i) (.start start) events := by
  refine along_iff_meets_of_admitted (P := fun t => Sound i t ∧ Comes h (t.expected i) t.state)
    (fun t event admitted both undisturbed => ?_) (fun t event admitted both settles => ?_)
    (fun t both => (settles_iff both.1.accepted both.1.since).mpr both.2) ?_ admitted
  · obtain ⟨sound,comes⟩ := step_sound both.1 admitted
    exact ⟨sound,(comes both.2).mpr undisturbed⟩
  · obtain ⟨sound,comes⟩ := step_sound both.1 admitted
    exact (comes both.2).mp ((settles_iff sound.accepted sound.since).mp settles)
  · exact ⟨.start fresh quiet,⟨rfl,rfl,fun _ => rfl,by simp [Trace.start,quiet]⟩⟩

def ethernetMedia : IfMedia where
  nmask := 0xe0#32
  tmask := 0x1f#32
  omask := 0xff00#32
  gmask := 0xff00000#32
  ether := 0x20#32
  ieee80211 := 0x80#32
  subtypeShared := [⟨0#32,"autoselect".toList,by decide⟩]
  subtypeEthernet := [⟨3#32,"10baseT/UTP".toList,by decide⟩,⟨6#32,"100baseTX".toList,by decide⟩]
  subtypeIeee80211 := []
  sharedOption := [⟨0x100000#32,"full-duplex".toList,by decide⟩,⟨0x200000#32,"half-duplex".toList,by decide⟩]
  ethernetOption := []
  ieee80211Option := []
  typeSubtype := by decide
  typeOptions := by decide
  subtypeOptions := by decide
  spare := by decide
  ethernetSubtypes := ⟨by decide,by decide⟩
  ieee80211Subtypes := ⟨by decide,by decide⟩
  ethernetOptions := ⟨by decide,by decide⟩
  ieee80211Options := ⟨by decide,by decide⟩
  ethernetSeparate := ⟨by decide,by decide⟩
  ieee80211Separate := ⟨by decide,by decide⟩

def em0 : Interface ethernetMedia where
  made := true
  mediaReads := true
  ulist := [0x20#32,0x100026#32]
  oneType := by simp [ethernetMedia,IfMedia.type]
  mtuReads := true
  deviceMtu := some (72,9000)
  leastMtu := 1280
  createCapabilities base options :=
    match options (.capability .RXCSUM) with
    | some (.number 0) => base - base % 2
    | some (.number _) => base - base % 2 + 1
    | _ => base
  createCapabilities_base base options plain := by simp [plain]
  acceptsCapabilities _ := true
  acceptsMedia _ := true
  acceptsMtu _ := true

def em0Start : State := ⟨2,0x20#32,1500,none,[]⟩

def fastOptions : Dictionary
  | .mediaSubType => some (.string "100baseTX".toList)
  | .mediaOptions => some (.array [.string "full-duplex".toList])
  | .mtu => some (.number 9000)
  | .capability .RXCSUM => some (.number 1)
  | _ => none

private theorem em0_admitted {t : Trace} (readable : Readable em0 t.state) {options : Option Dictionary}
    (possible : ∀ own ∈ options, Possible em0 t.state own) : Admitted em0 t (.call options true) :=
  ⟨readable,possible,fun _ _ => ⟨fun _ => rfl,fun _ _ _ => rfl,fun _ _ => rfl⟩⟩

/-- Each process has its turn before the next call. -/
theorem em0_settles : Along (Trace.step em0) (Settles em0) (.start em0Start)
    [.call (some fastOptions) true,.child 0,.call none true,.child 0] := by
  refine (settings_independent_iff rfl rfl ?_).mpr ?_
  · refine ⟨em0_admitted ⟨rfl,rfl,by decide,rfl,by decide,by decide⟩ fun own member => ?_,trivial,
      em0_admitted ⟨rfl,rfl,by decide,rfl,by decide,by decide⟩ (by simp),trivial,trivial⟩
    obtain rfl := Option.some.inj member
    exact ⟨by decide,by decide⟩
  · refine ⟨fun request member => ?_,trivial,fun request member => ?_,trivial,trivial⟩
    · obtain rfl := Option.some.inj member
      exact ⟨by decide,fun _ => .inr (by decide),by decide⟩
    · obtain rfl := Option.some.inj member
      exact ⟨by decide,fun _ => .inr (by decide),by decide⟩

def mtuOptions : Dictionary
  | .mtu => some (.number 9000)
  | _ => none

/-- The options are withdrawn before the process has had its turn. -/
theorem em0_overtaken :
    let events : List Event := [.call (some mtuOptions) true,.call none true]
    Meets (Trace.step em0) (Admitted em0) (.start em0Start) events ∧
      ¬ Along (Trace.step em0) (Settles em0) (.start em0Start) events ∧
      (run (Trace.step em0) (.start em0Start) (events ++ [.child 0])).state.mtu = 9000 ∧ em0Start.mtu = 1500 := by
  refine ⟨⟨em0_admitted ⟨rfl,rfl,by decide,rfl,by decide,by decide⟩ fun own member => ?_,
    em0_admitted ⟨rfl,rfl,by decide,rfl,by decide,by decide⟩ (by simp),trivial⟩,fun along => ?_,by decide,rfl⟩
  · obtain rfl := Option.some.inj member
    exact ⟨by decide,by decide⟩
  · have last := along.2.2
    have same := congrArg Settings.mtu (last [9000] (by decide)).1
    exact absurd same (by decide)

end FreebsdLaunchd.LinkConfiguration
