import FreebsdLaunchd.DynamicStore.Closing

/-! What each request tells the sessions. A request announces the keys it sets,
removes or notifies, also where the value stays what it was; the sessions that
watch an announced key find it among their changes until they fetch these. -/
namespace FreebsdLaunchd.DynamicStore
open State NoticeBoard

variable {Regex : Type} (os : Platform Regex)

/-- A session whose keys are temporary may not write a key that is another's. -/
def Refuses (store : StorePrivate) (st : State Regex) (key : CFString) : Prop :=
  store.useSessionKeys = true ∧ (st.entry key).data.isSome ∧
    (st.entry key).session ≠ some (sessionKey store.server)

def keyToSet : Plist × Plist → Option CFString
  | (.string k,.data _) => some k
  | _ => none

/-- The request, once granted, sets, removes or notifies the key. -/
def Announces (st : State Regex) : Request → CFString → Prop
  | .configset server key _ access, k | .confignotify server key access, k =>
    access = true ∧ ∃ store, sessionFor os server st = some store ∧ k = key ∧ ¬ Refuses store st k
  | .configadd server key _ access, k =>
    access = true ∧ ∃ store, sessionFor os server st = some store ∧ k = key ∧ (st.entry k).data = none
  | .configaddS server key _ access, k =>
    access = true ∧ ∃ store, st.getSession server = some store ∧ k = key ∧ (st.entry k).data = none
  | .configremove server key access, k =>
    access = true ∧ ∃ store, sessionFor os server st = some store ∧ k = key ∧ (st.entry k).data.isSome
  | .configsetM server dict remove notify access, k =>
    access = true ∧ ∃ store, sessionFor os server st = some store ∧
      ((∃ item ∈ dict, keyToSet item = some k) ∧ ¬ Refuses store st k ∨
        .string k ∈ remove ∧ (st.entry k).data.isSome ∨ .string k ∈ notify ∧ ¬ Refuses store st k)
  | .cleanupSession server, k => (st.entry k).session = some (sessionKey server)
  | _, _ => False

def Drains (st : State Regex) : Request → Int → Prop
  | .notifychanges server, s => ∃ store, st.getSession server = some store ∧ store.server = s
  | .cleanupSession server, s => s = server
  | _, _ => False

variable {os} {st st' : State Regex}

/-- What a request does to the values and to the sessions' changes. -/
structure Effect (os : Platform Regex) (st : State Regex) (r : Request) (st' : State Regex) : Prop where
  atRest : AtRest os st'
  changes : ∀ s k, k ∈ st'.changesOf (sessionKey s) ↔ ¬ Drains st r s ∧
    (k ∈ st.changesOf (sessionKey s) ∨ Announces os st r k ∧ Watching os st s k)
  needs : ∀ s k, Announces os st r k → Watching os st s k → ¬ Drains st r s → s ∈ st'.needsNotification
  silent : ∀ k, ¬ Announces os st r k →
    (st'.entry k).data = (st.entry k).data ∧ (st'.entry k).session = (st.entry k).session

/-! ## Requests that change values -/

theorem Performed.effect {b : Board} {told : Set CFString} {r : Request} (performed : Performed os st b st')
    (tells : Tells told (DynamicStore.board os st) b) (atRest : AtRest os st)
    (announced : ∀ k, k ∈ told ↔ Announces os st r k) (undrained : ∀ s, ¬ Drains st r s) :
    Effect os st r st' := by
  rw [← performed.board] at tells
  refine ⟨performed.atRest,?_,?_,?_⟩
  · intro s k
    rw [← performed.atRest.mem_unread,tells.unread,atRest.mem_unread,announced]
    exact (and_iff_right (undrained s)).symm
  · intro s k announces watching _
    rw [← performed.atRest.mem_due,tells.due]
    exact .inr ⟨k,(announced k).mpr announces,watching⟩
  · intro k silent
    have silent := mt (announced k).mp silent
    exact ⟨tells.value k silent,tells.owner k silent⟩

private theorem effect_of_unchanged {r : Request} (atRest : AtRest os st) (silent : ∀ k, ¬ Announces os st r k)
    (undrained : ∀ s, ¬ Drains st r s) : Effect os st r st := by
  refine ⟨atRest,?_,?_,fun _ _ => ⟨rfl,rfl⟩⟩
  · intro s k
    simp [undrained s,silent k]
  · intro s k announces
    exact absurd announces (silent k)

/-- A request that needs a session and access to its keys. -/
theorem withAccess_effect {r : Request} {session : Option StorePrivate} {access : Bool}
    {operation : StorePrivate → State Regex → Status × State Regex} (atRest : AtRest os st)
    (needed : ∀ k, Announces os st r k → access = true ∧ ∃ store, session = some store)
    (undrained : ∀ s, ¬ Drains st r s)
    (granted : ∀ store, session = some store → access = true → Effect os st r (operation store st).2) :
    Effect os st r (withAccess session access operation st).2 := by
  cases session with
  | none =>
    apply effect_of_unchanged atRest _ undrained
    intro k announces
    obtain ⟨_,store,found⟩ := needed k announces
    cases found
  | some store =>
    cases access with
    | false =>
      apply effect_of_unchanged atRest _ undrained
      intro k announces
      exact Bool.noConfusion (needed k announces).1
    | true => exact granted store rfl rfl

private theorem getSession_mem {server : Int} {store : StorePrivate} (found : st.getSession server = some store) :
    store ∈ st.live := by
  unfold State.getSession at found
  split at found
  · cases found
  · exact List.mem_of_find?_eq_some found

theorem getSession_open {server : Int} {store : StorePrivate} (found : st.getSession server = some store) :
    Open st store.server := ⟨store,getSession_mem found,rfl⟩

/-- Only a session that is open can have temporary keys. -/
theorem sessionFor_open {server : Int} {store : StorePrivate} (found : sessionFor os server st = some store)
    (temporary : store.useSessionKeys = true) : Open st store.server := by
  unfold sessionFor at found
  cases looked : st.getSession server with
  | some other =>
    rw [looked] at found
    obtain rfl := Option.some.inj found
    exact getSession_open looked
  | none =>
    simp only [looked,tempSession] at found
    split at found
    · obtain rfl := Option.some.inj found
      cases temporary
    · cases found

private theorem configset_effect (atRest : AtRest os st) (server : Int) (key : CFString) (data : CFData)
    (access : Bool) :
    Effect os st (.configset server key data access) (configset os server key data access st).2 := by
  refine withAccess_effect atRest ?_ (fun _ => id) ?_
  · rintro k ⟨granted,store,found,_⟩
    exact ⟨granted,store,found⟩
  intro store found granted
  apply (setValue_performed atRest (sessionFor_open found) key data).effect
    (tells_put (board os st) key data) atRest
  · intro k
    simp [Announces,found,granted,Refused,Refuses,board]
  · exact fun _ => id

private theorem confignotify_effect (atRest : AtRest os st) (server : Int) (key : CFString) (access : Bool) :
    Effect os st (.confignotify server key access) (confignotify os server key access st).2 := by
  refine withAccess_effect atRest ?_ (fun _ => id) ?_
  · rintro k ⟨granted,store,found,_⟩
    exact ⟨granted,store,found⟩
  intro store found granted
  apply (notifyValue_performed atRest (sessionFor_open found) key).effect
    (tells_touch os.serializedTrue (board os st) key) atRest
  · intro k
    simp [Announces,found,granted,Refused,Refuses,board]
  · exact fun _ => id

private theorem configremove_effect (atRest : AtRest os st) (server : Int) (key : CFString) (access : Bool) :
    Effect os st (.configremove server key access) (configremove os server key access st).2 := by
  refine withAccess_effect atRest ?_ (fun _ => id) ?_
  · rintro k ⟨granted,store,found,_⟩
    exact ⟨granted,store,found⟩
  intro store found granted
  apply (removeValue_performed atRest key).effect (tells_discard (board os st) key) atRest
  · intro k
    simp [Announces,found,granted,board]
  · exact fun _ => id

private theorem tells_add (store : StorePrivate) (st : State Regex) (key : CFString) (data : CFData) :
    Tells {k | k = key ∧ (st.entry k).data = none} (board os st)
      (if (st.entry key).data.isSome then board os st
        else (board os st).put (sessionKey store.server) store.useSessionKeys key data) := by
  split
  · rename_i some
    have nobody : {k | k = key ∧ (st.entry k).data = none} = ∅ := by
      ext k
      simp only [Set.mem_ofPred_eq,Set.mem_empty_iff_false,iff_false,not_and]
      rintro rfl
      exact Option.isSome_iff_ne_none.mp some
    rw [nobody]
    exact .refl _
  · rename_i absent
    have absent : (st.entry key).data = none := by simpa using absent
    have same : {k | k = key ∧ (st.entry k).data = none} =
        {k | k = key ∧ ¬ Refused (sessionKey store.server) store.useSessionKeys (board os st) k} := by
      ext k
      apply and_congr_right
      rintro rfl
      simp [Refused,board,absent]
    rw [same]
    exact tells_put _ key data

private theorem configadd_effect (atRest : AtRest os st) (server : Int) (key : CFString) (data : CFData)
    (access : Bool) :
    Effect os st (.configadd server key data access) (configadd os server key data access st).2 := by
  refine withAccess_effect atRest ?_ (fun _ => id) ?_
  · rintro k ⟨granted,store,found,_⟩
    exact ⟨granted,store,found⟩
  intro store found granted
  apply (addValue_performed atRest (sessionFor_open found) key data).effect
    (tells_add store st key data) atRest
  · intro k
    simp [Announces,found,granted]
  · exact fun _ => id

private theorem configaddS_effect (atRest : AtRest os st) (server : Int) (key : CFString) (data : CFData)
    (access : Bool) :
    Effect os st (.configaddS server key data access) (configaddS os server key data access st).2 := by
  refine withAccess_effect atRest ?_ (fun _ => id) ?_
  · rintro k ⟨granted,store,found,_⟩
    exact ⟨granted,store,found⟩
  intro store found granted
  have isOpen := getSession_open found
  let temporary : StorePrivate := { store with useSessionKeys := true }
  have own : temporary.useSessionKeys = true → Open st temporary.server := fun _ => isOpen
  have performed := addValue_performed atRest own key data
  apply performed.effect (tells_add temporary st key data) atRest
  · intro k
    simp [Announces,found,granted]
  · exact fun _ => id

/-! ## Batches -/

/-- Where the second part of a batch is told of keys that are ready after the
first part, those that were ready before will do. -/
theorem tells_then (ready : Board → CFString → Prop) {told asked : Set CFString} {a b c : Board}
    (first : Tells told a b) (second : Tells {k | k ∈ asked ∧ ready b k} b c)
    (stable : ∀ k ∉ told, (ready b k ↔ ready a k)) :
    Tells (told ∪ {k | k ∈ asked ∧ ready a k}) a c := by
  have all : told ∪ {k | k ∈ asked ∧ ready a k} = told ∪ {k | k ∈ asked ∧ ready b k} := by
    ext k
    by_cases already : k ∈ told
    · exact ⟨fun _ => .inl already,fun _ => .inl already⟩
    · simp only [Set.mem_union,Set.mem_ofPred_eq,stable k already]
  rw [all]
  exact first.trans second

def stringKey : Plist → Option CFString
  | .string k => some k
  | _ => none

private theorem mem_string {l : List Plist} {k : CFString} : .string k ∈ l ↔ ∃ item ∈ l, stringKey item = some k := by
  constructor
  · intro member
    exact ⟨_,member,rfl⟩
  · rintro ⟨item,member,here⟩
    cases item with
    | string x =>
      obtain rfl := Option.some.inj here
      exact member
    | data _ => cases here
    | other => cases here

private theorem tells_nothing (b : Board) {p : CFString → Prop} (never : ∀ k, ¬ p k) : Tells {k | p k} b b :=
  (Tells.refl b).congr (by simp [never])

private theorem some_eq_some_comm {key k : CFString} : some key = some k ↔ k = key := by
  rw [Option.some.injEq,eq_comm]

private theorem tells_putItem (store : StorePrivate) (b : Board) (item : Plist × Plist) :
    Tells {k | keyToSet item = some k ∧ ¬ Refused (sessionKey store.server) store.useSessionKeys b k} b
      (putItem store b item) := by
  obtain ⟨key | _ | _,_ | value | _⟩ := item
  case string.data => exact (tells_put b key value).congr fun k => and_congr_left' some_eq_some_comm
  all_goals exact tells_nothing b (by simp [keyToSet])

private theorem tells_discardItem (b : Board) (item : Plist) :
    Tells {k | stringKey item = some k ∧ (b.value k).isSome} b (discardItem b item) := by
  cases item with
  | string key => exact (tells_discard b key).congr fun k => and_congr_left' some_eq_some_comm
  | data _ => exact tells_nothing b (by simp [stringKey])
  | other => exact tells_nothing b (by simp [stringKey])

private theorem tells_touchItem (blank : CFData) (store : StorePrivate) (b : Board) (item : Plist) :
    Tells {k | stringKey item = some k ∧ ¬ Refused (sessionKey store.server) store.useSessionKeys b k} b
      (touchItem blank store b item) := by
  cases item with
  | string key => exact (tells_touch blank b key).congr fun k => and_congr_left' some_eq_some_comm
  | data _ => exact tells_nothing b (by simp [stringKey])
  | other => exact tells_nothing b (by simp [stringKey])

private theorem tells_batch (blank : CFData) (store : StorePrivate) (keysToSet : List (Plist × Plist))
    (keysToRemove keysToNotify : List Plist) (st : State Regex) :
    Tells ({k | (∃ item ∈ keysToSet, keyToSet item = some k) ∧ ¬ Refuses store st k} ∪
        {k | .string k ∈ keysToRemove ∧ (st.entry k).data.isSome} ∪
        {k | .string k ∈ keysToNotify ∧ ¬ Refuses store st k}) (board os st)
      (batch blank store keysToSet keysToRemove keysToNotify (board os st)) := by
  simp only [mem_string]
  have sets := tells_foldl (tells_putItem store) (fun tells k silent => not_congr (tells.refused silent))
    keysToSet (board os st)
  have removes := tells_foldl tells_discardItem
    (fun tells k silent => by rw [tells.value k silent]) keysToRemove
    (keysToSet.foldl (putItem store) (board os st))
  have notifies := tells_foldl (tells_touchItem blank store)
    (fun tells k silent => not_congr (tells.refused silent)) keysToNotify
    (keysToRemove.foldl discardItem (keysToSet.foldl (putItem store) (board os st)))
  have both := tells_then (fun b k => (b.value k).isSome) sets removes
    (fun k silent => by rw [sets.value k silent])
  exact tells_then
    (fun b k => ¬ Refused (sessionKey store.server) store.useSessionKeys b k) both notifies
    (fun k silent => not_congr (both.refused silent))

private theorem configsetM_effect (atRest : AtRest os st) (server : Int) (dict : List (Plist × Plist))
    (remove notify : List Plist) (access : Bool) :
    Effect os st (.configsetM server dict remove notify access)
      (configsetM os server dict remove notify access st).2 := by
  refine withAccess_effect atRest ?_ (fun _ => id) ?_
  · rintro k ⟨granted,store,found,_⟩
    exact ⟨granted,store,found⟩
  intro store found granted
  apply (setMultiple_performed atRest (sessionFor_open found) dict remove notify).effect
    (tells_batch os.serializedTrue store (os.order _ dict) remove notify st) atRest
  · intro k
    have enumerated : (∃ item ∈ os.order _ dict, keyToSet item = some k) ↔
        ∃ item ∈ dict, keyToSet item = some k := by
      simp only [(os.order_perm _ dict).mem_iff]
    simp only [Announces,found,granted,Set.mem_union,Set.mem_ofPred_eq,enumerated,or_assoc]
    simp
  · exact fun _ => id

/-! ## Requests that change no value -/

private theorem effect_of_quiet {r : Request} (atRest : AtRest os st')
    (changes : ∀ s k, k ∈ st'.changesOf (sessionKey s) ↔ k ∈ st.changesOf (sessionKey s))
    (values : ∀ k, (st'.entry k).data = (st.entry k).data ∧ (st'.entry k).session = (st.entry k).session)
    (silent : ∀ k, ¬ Announces os st r k) (undrained : ∀ s, ¬ Drains st r s) : Effect os st r st' := by
  refine ⟨atRest,?_,?_,fun k _ => values k⟩
  · intro s k
    simp [changes,undrained s,silent k]
  · intro s k announces
    exact absurd announces (silent k)

theorem KeepsRegistry.effect {r : Request} (keeps : KeepsRegistry os st st') (atRest : AtRest os st)
    (silent : ∀ k, ¬ Announces os st r k) (undrained : ∀ s, ¬ Drains st r s) : Effect os st r st' := by
  apply effect_of_quiet (keeps.atRest atRest)
  · intro s k
    rw [State.changesOf,keeps.2.info,State.changesOf]
  · exact fun k => ⟨keeps.2.data k,keeps.2.session k⟩
  · exact silent
  · exact undrained

private theorem withSession_effect {r : Request} {server : Int}
    {operation : StorePrivate → State Regex → Status × State Regex} (atRest : AtRest os st)
    (silent : ∀ k, ¬ Announces os st r k) (undrained : ∀ s, ¬ Drains st r s)
    (granted : ∀ store, Open st store.server → Effect os st r (operation store st).2) :
    Effect os st r (withSession server operation st).2 := by
  unfold withSession
  cases found : st.getSession server with
  | none => exact effect_of_unchanged atRest silent undrained
  | some store => exact granted store (getSession_open found)

def drain (n : Int) (st : State Regex) : State Regex :=
  let newInfo := { st.info (sessionKey n) with changedKeys := none }
  { st with sessionData := if newInfo.count > 0 then st.sessionData.insert (sessionKey n) newInfo
                           else st.sessionData.erase (sessionKey n) }

theorem copyNotifiedKeys_eq (n : Int) (st : State Regex) :
    dynamicStoreCopyNotifiedKeys n st = (st.changesOf (sessionKey n),
      if (st.info (sessionKey n)).changedKeys.isSome then drain n st else st) := by
  unfold dynamicStoreCopyNotifiedKeys
  cases found : st.sessionData.lookup (sessionKey n) with
  | none => simp [State.changesOf,State.info,found]
  | some i =>
    have info : st.info (sessionKey n) = i := by simp [State.info,found]
    cases changed : i.changedKeys with
    | none => simp [State.changesOf,info,changed]
    | some keys => simp [State.changesOf,info,changed,drain]

private theorem info_drain (n : Int) (z : CFString) (st : State Regex) :
    (drain n st).info z =
      if z = sessionKey n then { st.info (sessionKey n) with changedKeys := none } else st.info z :=
  info_put st (sessionKey n) z _

private theorem changesOf_drain (n : Int) (z : CFString) (st : State Regex) :
    (drain n st).changesOf z = if z = sessionKey n then [] else st.changesOf z := by
  rw [State.changesOf,info_drain]
  split <;> rfl

private theorem drain_atRest (atRest : AtRest os st) {n : Int} (isOpen : Open st n) : AtRest os (drain n st) := by
  obtain ⟨⟨registry,owned,noted⟩,settled⟩ := atRest
  have lists (z : CFString) : (drain n st).sessionKeysOf z = st.sessionKeysOf z := by
    rw [State.sessionKeysOf,info_drain]
    split
    · rename_i here
      rw [here]
      rfl
    · rfl
  have name (z : CFString) : ((drain n st).info z).name = (st.info z).name := by
    rw [info_drain]
    split
    · rename_i here
      rw [here]
    · rfl
  -- an open session keeps its name, so its information is not given up
  have counted : ({ st.info (sessionKey n) with changedKeys := none } : SessionInfo).count > 0 := by
    simp only [SessionInfo.count,noted.named n isOpen,if_true]
    omega
  have known (z : CFString) : z ∈ (drain n st).sessionData ↔ z ∈ st.sessionData := by
    simp only [drain,counted,if_true]
    rw [AList.mem_insert]
    constructor
    · rintro (rfl | old)
      · exact (noted.known _).mpr ⟨n,isOpen,rfl⟩
      · exact old
    · exact .inr
  refine ⟨⟨registry_of_eq registry (fun _ => rfl) rfl rfl rfl,?_,?_⟩,
    ⟨settled.changed,settled.deferred,settled.removed⟩⟩
  · exact owned.of_lists (fun _ => id) (fun _ => rfl) lists rfl fun _ => id
  · refine ⟨noted.changed,noted.deferred,noted.distinctDeferred,noted.needs,noted.distinctNeeds,?_,?_,?_,
      noted.alive⟩
    · intro z
      rw [changesOf_drain]
      split
      · exact List.nodup_nil
      · exact noted.distinct z
    · intro z
      rw [known]
      exact noted.known z
    · intro s stays
      rw [name]
      exact noted.named s stays

private theorem copyNotifiedKeys_spec (atRest : AtRest os st) {n : Int} (isOpen : Open st n) :
    AtRest os (dynamicStoreCopyNotifiedKeys n st).2 ∧
      (∀ z, (dynamicStoreCopyNotifiedKeys n st).2.changesOf z =
        if z = sessionKey n then [] else st.changesOf z) ∧
      (dynamicStoreCopyNotifiedKeys n st).2.storeData = st.storeData := by
  rw [copyNotifiedKeys_eq]
  by_cases some : (st.info (sessionKey n)).changedKeys.isSome
  · rw [if_pos some]
    exact ⟨drain_atRest atRest isOpen,fun z => changesOf_drain n z st,rfl⟩
  · rw [if_neg some]
    refine ⟨atRest,?_,rfl⟩
    intro z
    split
    · rename_i here
      have none : (st.info z).changedKeys = none := by simpa [here] using some
      simp [State.changesOf,none]
    · rfl

theorem notifychanges_effect (atRest : AtRest os st) (server : Int) :
    Effect os st (.notifychanges server) (notifychanges server st).2 := by
  unfold notifychanges
  cases found : st.getSession server with
  | none =>
    apply effect_of_unchanged atRest (fun _ => id)
    rintro s ⟨store,some,_⟩
    rw [found] at some
    cases some
  | some store =>
    obtain ⟨resting,changes,values⟩ := copyNotifiedKeys_spec atRest (getSession_open found)
    refine ⟨resting,?_,fun s k announces => announces.elim,?_⟩
    · intro s k
      have drained : Drains st (.notifychanges server) s ↔ sessionKey s = sessionKey store.server := by
        simp [Drains,found,sessionKey_injective.eq_iff,eq_comm]
      have silent : ¬ Announces os st (.notifychanges server) k := id
      rw [changes,drained]
      by_cases here : sessionKey s = sessionKey store.server
      · simp [here]
      · simp [here,silent]
    · intro k _
      rw [entry_of_eq values]
      exact ⟨rfl,rfl⟩

private theorem notifycancel_effect (atRest : AtRest os st) (server : Int) :
    Effect os st (.notifycancel server) (notifycancel server st).2 := by
  refine withSession_effect atRest (fun _ => id) (fun _ => id) ?_
  intro store isOpen
  exact effect_of_quiet (notifyCancel_spec atRest isOpen).1 (fun _ _ => Iff.rfl) (fun _ => ⟨rfl,rfl⟩)
    (fun _ => id) (fun _ => id)

/-! ## Registering a notification -/

private theorem notifyPending_atRest (atRest : AtRest os st) {n : Int} (isOpen : Open st n) :
    AtRest os (notifyPending n st) ∧ (notifyPending n st).sessions = st.sessions ∧
      (notifyPending n st).sessionData = st.sessionData ∧ (notifyPending n st).storeData = st.storeData := by
  have noted := atRest.consistent.noted
  have added : AtRest os { st with needsNotification := st.needsNotification.insert n } := by
    refine atRest_needs atRest ?_ (noted.distinctNeeds.insert (a := n))
    intro s member
    rcases List.mem_insert_iff.mp member with rfl | old
    · exact isOpen
    · exact noted.needs s old
  unfold notifyPending
  split
  · exact ⟨atRest,rfl,rfl,rfl⟩
  · split
    · exact ⟨added,rfl,rfl,rfl⟩
    · exact ⟨atRest,rfl,rfl,rfl⟩

private theorem register_effect {r : Request} {f : StorePrivate → StorePrivate} {n : Int} (atRest : AtRest os st)
    (isOpen : Open st n) (server : ∀ x, (f x).server = x.server) (keys : ∀ x, (f x).keys = x.keys)
    (patterns : ∀ x, (f x).patterns = x.patterns) (silent : ∀ k, ¬ Announces os st r k)
    (undrained : ∀ s, ¬ Drains st r s) : Effect os st r ((notifyPending n st).modify n f) := by
  obtain ⟨pending,sessions,sessionData,storeData⟩ := notifyPending_atRest atRest isOpen
  have still : Open (notifyPending n st) n := by
    rw [open_of_eq sessions]
    exact isOpen
  have keeps := (modify_keeps pending.consistent.registry still server keys patterns).1
  apply effect_of_quiet (keeps.atRest pending)
  · intro s k
    rw [State.changesOf,keeps.2.info,State.info,sessionData]
    rfl
  · intro k
    rw [keeps.2.data,keeps.2.session,entry_of_eq storeData]
    exact ⟨rfl,rfl⟩
  · exact silent
  · exact undrained

theorem notifyviaport_effect (atRest : AtRest os st) (server port identifier : Int) :
    Effect os st (.notifyviaport server port identifier) (notifyviaport server port identifier st).2 := by
  refine withSession_effect atRest (fun _ => id) (fun _ => id) ?_
  intro store isOpen
  have unchanged : Effect os st (.notifyviaport server port identifier) st :=
    effect_of_unchanged atRest (fun _ => id) (fun _ => id)
  split
  · exact unchanged
  · split
    · exact unchanged
    · split
      · exact unchanged
      · exact register_effect atRest isOpen (fun _ => rfl) (fun _ => rfl) (fun _ => rfl) (fun _ => id)
          (fun _ => id)

private theorem notifyviafd_effect (atRest : AtRest os st) (server fd identifier : Int) :
    Effect os st (.notifyviafd server fd identifier) (notifyviafd server fd identifier st).2 := by
  refine withSession_effect atRest (fun _ => id) (fun _ => id) ?_
  intro store isOpen
  split
  · exact effect_of_unchanged atRest (fun _ => id) (fun _ => id)
  · exact register_effect atRest isOpen (fun _ => rfl) (fun _ => rfl) (fun _ => rfl) (fun _ => id)
      (fun _ => id)

private theorem notifyviasignal_effect (atRest : AtRest os st) (server task : Int) (own : Bool) (nsig sig : Int) :
    Effect os st (.notifyviasignal server task own nsig sig)
      (notifyviasignal server task own nsig sig st).2 := by
  refine withSession_effect atRest (fun _ => id) (fun _ => id) ?_
  intro store isOpen
  have unchanged : Effect os st (.notifyviasignal server task own nsig sig) st :=
    effect_of_unchanged atRest (fun _ => id) (fun _ => id)
  split
  · exact unchanged
  · split
    · exact unchanged
    · split
      · exact unchanged
      · exact register_effect atRest isOpen (fun _ => rfl) (fun _ => rfl) (fun _ => rfl) (fun _ => id)
          (fun _ => id)

/-! ## Sending the notifications -/

/-- What the loop over the sessions to be notified keeps. -/
theorem pushNotification_keeps (answers : PushAnswers) {context : List Delivery × State Regex} {server : Int}
    (registry : Registry os context.2) (isOpen : Open context.2 server) :
    KeepsRegistry os context.2 (pushNotification answers context server).2 ∧
      ∀ d ∈ (pushNotification answers context server).1, d ∈ context.1 ∨ Open context.2 d.session := by
  obtain ⟨sent,st⟩ := context
  obtain ⟨store,found⟩ := Option.isSome_iff_exists.mp (getSession_isSome registry isOpen)
  have here := getSession_open found
  have same : KeepsRegistry os st st := ⟨registry,.refl st⟩
  have delivered (d : Delivery) (addressed : d.session = store.server) :
      ∀ x ∈ sent ++ [d], x ∈ sent ∨ Open st x.session := by
    intro x member
    rcases List.mem_append.mp member with old | new
    · exact .inl old
    · obtain rfl := List.mem_singleton.mp new
      exact .inr (addressed ▸ here)
  have modified {f : StorePrivate → StorePrivate} (server : ∀ x, (f x).server = x.server)
      (keys : ∀ x, (f x).keys = x.keys) (patterns : ∀ x, (f x).patterns = x.patterns) :
      KeepsRegistry os st (st.modify store.server f) :=
    (modify_keeps registry here server keys patterns).1
  simp only [pushNotification,found]
  split
  · exact ⟨same,fun d => .inl⟩
  · split
    · exact ⟨same,delivered _ rfl⟩
    · exact ⟨same,fun d => .inl⟩
  · split
    · split
      · exact ⟨same,delivered _ rfl⟩
      · exact ⟨same,fun d => .inl⟩
      · exact ⟨modified (fun _ => rfl) (fun _ => rfl) (fun _ => rfl),fun d => .inl⟩
    · exact ⟨same,fun d => .inl⟩
  · split
    · split
      · exact ⟨same,delivered _ rfl⟩
      · exact ⟨modified (fun _ => rfl) (fun _ => rfl) (fun _ => rfl),fun d => .inl⟩
    · exact ⟨same,fun d => .inl⟩

private theorem foldl_pushNotification (answers : PushAnswers) (l : List Int) (context : List Delivery × State Regex)
    (registry : Registry os context.2) (isOpen : ∀ s ∈ l, Open context.2 s) :
    KeepsRegistry os context.2 (l.foldl (pushNotification answers) context).2 ∧
      ∀ d ∈ (l.foldl (pushNotification answers) context).1, d ∈ context.1 ∨ Open context.2 d.session := by
  induction l generalizing context with
  | nil => exact ⟨⟨registry,.refl _⟩,fun d => .inl⟩
  | cons server rest ih =>
    obtain ⟨first,sent⟩ := pushNotification_keeps answers registry
      (isOpen server List.mem_cons_self)
    obtain ⟨others,later⟩ := ih _ first.1
      fun s member => (first.2.opened s).mpr (isOpen s (List.mem_cons_of_mem _ member))
    refine ⟨first.trans others,?_⟩
    intro d member
    rcases later d member with old | isOpen
    · exact sent d old
    · exact .inr ((first.2.opened _).mp isOpen)

theorem pushNotifications_spec (atRest : AtRest os st) (answers : PushAnswers) :
    AtRest os (pushNotifications os answers st).2 ∧
      (pushNotifications os answers st).2.sessionData = st.sessionData ∧
      (∀ k, ((pushNotifications os answers st).2.entry k).data = (st.entry k).data) ∧
      (∀ k, ((pushNotifications os answers st).2.entry k).session = (st.entry k).session) ∧
      ∀ d ∈ (pushNotifications os answers st).1, Open st d.session := by
  obtain ⟨keeps,sent⟩ := foldl_pushNotification answers (os.order _ st.needsNotification).reverse
    ([],st) atRest.consistent.registry (by
      intro s member
      rw [List.mem_reverse,(os.order_perm _ st.needsNotification).mem_iff] at member
      exact atRest.consistent.noted.needs s member)
  refine ⟨atRest_needs (keeps.atRest atRest) (by simp) List.nodup_nil,keeps.2.sessionData,keeps.2.data,
    keeps.2.session,?_⟩
  intro d member
  rcases sent d member with none | isOpen
  · cases none
  · exact isOpen

private theorem pushNotifications_effect (atRest : AtRest os st) (answers : PushAnswers) :
    Effect os st (.pushNotifications answers) (pushNotifications os answers st).2 := by
  obtain ⟨resting,sessionData,data,session,_⟩ := pushNotifications_spec atRest answers
  apply effect_of_quiet resting
  · intro s k
    rw [State.changesOf,State.info,sessionData,State.changesOf,State.info]
  · exact fun k => ⟨data k,session k⟩
  · exact fun _ => id
  · exact fun _ => id

/-! ## Every request -/

private theorem cleanupSession_effect (atRest : AtRest os st) (server : Int) :
    Effect os st (.cleanupSession server) (cleanupSession os server st) := by
  by_cases isOpen : Open st server
  · have closed := cleanupSession_spec atRest isOpen
    refine ⟨closed.atRest,closed.changes,?_,?_⟩
    · intro s k announces watching undrained
      exact (closed.needs s).mpr ⟨undrained,.inr ⟨k,announces,watching⟩⟩
    · intro k silent
      have other : (st.entry k).session ≠ some (sessionKey server) := silent
      rw [closed.data,closed.session,if_neg other,if_neg other]
      exact ⟨rfl,rfl⟩
  · have silent (k : CFString) : ¬ Announces os st (.cleanupSession server) k := by
      intro owned
      obtain ⟨_,s,here,same,_⟩ := atRest.consistent.owned.owner k _ owned
      exact isOpen (sessionKey_injective same ▸ here)
    rw [cleanupSession_of_closed isOpen]
    refine ⟨atRest,?_,fun s k announces => absurd announces (silent k),fun _ _ => ⟨rfl,rfl⟩⟩
    intro s k
    have unknown (here : s = server) : st.changesOf (sessionKey s) = [] := by
      have absent : sessionKey s ∉ st.sessionData := by
        intro known
        obtain ⟨t,isOpen',same⟩ := (atRest.consistent.noted.known _).mp known
        exact isOpen (here ▸ sessionKey_injective same ▸ isOpen')
      simp [State.changesOf,State.info,AList.lookup_eq_none.mpr absent]
    by_cases here : s = server
    · rw [unknown here]
      simp [Drains,here]
    · simp [Drains,here,silent k]

theorem step_effect (atRest : AtRest os st) {r : Request} (admissible : Admissible st r) :
    Effect os st r (step os st r) := by
  cases r with
  | configopen server name useSessionKeys newServer =>
    obtain ⟨resting,same⟩ := configopen_atRest server atRest admissible.1 admissible.2 name
      useSessionKeys
    apply effect_of_quiet resting
    · intro s k
      rw [← resting.mem_unread,← atRest.mem_unread]
      exact iff_of_eq (congrArg (fun b : Board => k ∈ b.unread s) same)
    · intro k
      exact ⟨congrFun (congrArg NoticeBoard.value same) k,congrFun (congrArg NoticeBoard.owner same) k⟩
    · exact fun _ => id
    · exact fun _ => id
  | configset server key data access => exact configset_effect atRest server key data access
  | configadd server key data access => exact configadd_effect atRest server key data access
  | configaddS server key data access => exact configaddS_effect atRest server key data access
  | configremove server key access => exact configremove_effect atRest server key access
  | confignotify server key access => exact confignotify_effect atRest server key access
  | configsetM server dict remove notify access =>
    exact configsetM_effect atRest server dict remove notify access
  | notifyadd server key isRegex =>
    refine withSession_effect atRest (fun _ => id) (fun _ => id) ?_
    intro store isOpen
    have keeps : KeepsRegistry os st (addWatchedKey os store.server key isRegex st).2 :=
      addWatchedKey_registry atRest.consistent.registry atRest.settled.deferred isOpen key isRegex
    exact keeps.effect atRest (fun _ => id) (fun _ => id)
  | notifyremove server key isRegex =>
    refine withSession_effect atRest (fun _ => id) (fun _ => id) ?_
    intro store isOpen
    have keeps : KeepsRegistry os st (removeWatchedKey store.server key isRegex st).2 :=
      removeWatchedKey_registry atRest.consistent.registry isOpen key isRegex
    exact keeps.effect atRest (fun _ => id) (fun _ => id)
  | notifyset server keys patterns =>
    refine withSession_effect atRest (fun _ => id) (fun _ => id) ?_
    intro store isOpen
    have keeps := setNotificationKeys_registry atRest.consistent.registry atRest.settled.deferred isOpen
      keys patterns
    exact keeps.effect atRest (fun _ => id) (fun _ => id)
  | notifychanges server => exact notifychanges_effect atRest server
  | notifyviaport server port identifier => exact notifyviaport_effect atRest server port identifier
  | notifyviafd server fd identifier => exact notifyviafd_effect atRest server fd identifier
  | notifyviasignal server task own nsig sig =>
    exact notifyviasignal_effect atRest server task own nsig sig
  | notifycancel server => exact notifycancel_effect atRest server
  | cleanupSession server => exact cleanupSession_effect atRest server
  | pushNotifications answers => exact pushNotifications_effect atRest answers

end FreebsdLaunchd.DynamicStore
