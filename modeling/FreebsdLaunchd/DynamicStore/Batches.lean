import FreebsdLaunchd.DynamicStore.Bookkeeping

/-! A batch is its parts. Between requests the board and the session table
determine everything the clients can see, and on the board the pushes that a
batch saves leave no trace. -/
namespace FreebsdLaunchd.DynamicStore
open State

variable {Regex : Type} {os : Platform Regex} {st st' : State Regex}

/-- The two states have the same contents, up to the order of their lists. -/
structure SameContents (st st' : State Regex) : Prop where
  data : ∀ k, copyValue k st' = copyValue k st
  owner : ∀ k, (st'.entry k).session = (st.entry k).session
  lists : ∀ s k, k ∈ st'.sessionKeysOf (sessionKey s) ↔ k ∈ st.sessionKeysOf (sessionKey s)
  patterns : ∀ p, p ∈ st'.patternData ↔ p ∈ st.patternData
  cached : ∀ p k, k ∈ st'.cachedKeys p ↔ k ∈ st.cachedKeys p
  counts : ∀ s k, (st'.entry k).refs.count s = (st.entry k).refs.count s
  changes : ∀ s k, k ∈ st'.changesOf (sessionKey s) ↔ k ∈ st.changesOf (sessionKey s)
  needs : ∀ s, s ∈ st'.needsNotification ↔ s ∈ st.needsNotification

theorem AtRest.mem_patternData (atRest : AtRest os st) (p : CFString) :
    p ∈ st.patternData ↔ ∃ s, p ∈ st.watchedPatterns s := by
  have cached := atRest.consistent.registry.cached
  constructor
  · intro known
    obtain ⟨pInfo,found⟩ := Option.isSome_iff_exists.mp (AList.lookup_isSome.mpr known)
    obtain ⟨s,member⟩ := List.exists_mem_of_ne_nil _ (cached.watched p pInfo found)
    exact ⟨s,((cached.each p pInfo found).sessions s).mp member⟩
  · rintro ⟨s,member⟩
    exact cached.registered s p member

private theorem sameContents (atRest : AtRest os st) (atRest' : AtRest os st') (sessions : st'.sessions = st.sessions)
    (same : board os st' = board os st) : SameContents st st' := by
  have derefs := deref_of_sessions sessions
  have data (k : CFString) : (st'.entry k).data = (st.entry k).data :=
    congrFun (congrArg NoticeBoard.value same) k
  have owner (k : CFString) : (st'.entry k).session = (st.entry k).session :=
    congrFun (congrArg NoticeBoard.owner same) k
  have patterns (p : CFString) : p ∈ st'.patternData ↔ p ∈ st.patternData := by
    simp only [atRest'.mem_patternData,atRest.mem_patternData,State.watchedPatterns,derefs]
  have present : Present st' = Present st := by
    funext k
    simp only [Present,data,atRest.settled.deferred,atRest'.settled.deferred]
  have cached (p k : CFString) : k ∈ st'.cachedKeys p ↔ k ∈ st.cachedKeys p := by
    rw [atRest'.consistent.registry.cached.mem_cachedKeys,atRest.consistent.registry.cached.mem_cachedKeys,
      patterns,present]
  refine ⟨?_,owner,?_,patterns,cached,?_,?_,?_⟩
  · intro k
    rw [copyValue_eq,copyValue_eq,data]
  · intro s k
    rw [atRest'.mem_sessionKeys,atRest.mem_sessionKeys,owner]
  · intro s k
    have counted := atRest.consistent.registry.watched.counts s k
    have counted' := atRest'.consistent.registry.watched.counts s k
    have listed (l : List CFString) : st'.listing l k = st.listing l k := by
      rw [State.listing_eq,State.listing_eq]
      apply List.countP_congr
      intro p _
      simp [cached]
    have reasons : st'.reasons s k = st.reasons s k := by
      rw [State.reasons_eq,State.reasons_eq,listed,State.watchedKeys,State.watchedPatterns,derefs]
      rfl
    rw [State.refCount] at counted counted'
    rw [counted',counted,reasons]
  · intro s k
    rw [← atRest'.mem_unread,← atRest.mem_unread,same]
  · intro s
    rw [← atRest'.mem_due,← atRest.mem_due,same]

/-! ## One by one -/

def setRequest (server : Int) : Plist × Plist → Option Request
  | (.string k,.data v) => some (.configset server k v true)
  | _ => none

def removeRequest (server : Int) : Plist → Option Request
  | .string k => some (.configremove server k true)
  | _ => none

def notifyRequest (server : Int) : Plist → Option Request
  | .string k => some (.confignotify server k true)
  | _ => none

def parts (server : Int) (dict : List (Plist × Plist)) (remove notify : List Plist) : List Request :=
  dict.filterMap (setRequest server) ++ remove.filterMap (removeRequest server) ++
    notify.filterMap (notifyRequest server)

variable {server : Int} {store : StorePrivate}

private theorem sessionFor_of_sessions (sessions : st'.sessions = st.sessions) :
    sessionFor os server st' = sessionFor os server st := by
  simp [sessionFor,State.getSession,State.live,sessions]

theorem Performed.trans {a b c : State Regex} {x y : Board} (first : Performed os a x b)
    (second : Performed os b y c) : Performed os a y c :=
  ⟨second.atRest,second.sessions.trans first.sessions,second.board⟩

/-- Requests that each turn the board as `g` does turn it as `g` does along the
list. -/
theorem run_performed {α : Type} {request : α → Option Request} {g : Board → α → Board}
    (each : ∀ st a, AtRest os st → sessionFor os server st = some store →
      Performed os st (g (board os st) a) (Runs.run (step os) st (request a).toList))
    (l : List α) (atRest : AtRest os st) (found : sessionFor os server st = some store) :
    Performed os st (l.foldl g (board os st)) (Runs.run (step os) st (l.filterMap request)) := by
  induction l generalizing st with
  | nil => exact atRest.refl
  | cons a rest ih =>
    have first := each st a atRest found
    have others := ih first.atRest ((sessionFor_of_sessions first.sessions).trans found)
    rw [first.board] at others
    have split : Runs.run (step os) st ((a::rest).filterMap request) =
        Runs.run (step os) (Runs.run (step os) st (request a).toList) (rest.filterMap request) := by
      cases given : request a with
      | none => simp [Runs.run,given]
      | some r => simp [Runs.run,given]
    rw [split,List.foldl_cons]
    exact first.trans others

private theorem setRequest_performed (atRest : AtRest os st) (found : sessionFor os server st = some store)
    (item : Plist × Plist) :
    Performed os st (putItem store (board os st) item)
      (Runs.run (step os) st (setRequest server item).toList) := by
  obtain ⟨key | _ | _,_ | value | _⟩ := item
  case string.data =>
    change Performed os st _ (configset os server key value true st).2
    rw [configset,found]
    exact setValue_performed atRest (sessionFor_open found) key value
  all_goals exact atRest.refl

private theorem removeRequest_performed (atRest : AtRest os st) (found : sessionFor os server st = some store)
    (item : Plist) :
    Performed os st (discardItem (board os st) item)
      (Runs.run (step os) st (removeRequest server item).toList) := by
  cases item with
  | string key =>
    change Performed os st _ (configremove os server key true st).2
    rw [configremove,found]
    exact removeValue_performed atRest key
  | data _ => exact atRest.refl
  | other => exact atRest.refl

private theorem notifyRequest_performed (atRest : AtRest os st) (found : sessionFor os server st = some store)
    (item : Plist) :
    Performed os st (touchItem os.serializedTrue store (board os st) item)
      (Runs.run (step os) st (notifyRequest server item).toList) := by
  cases item with
  | string key =>
    change Performed os st _ (confignotify os server key true st).2
    rw [confignotify,found]
    exact notifyValue_performed atRest (sessionFor_open found) key
  | data _ => exact atRest.refl
  | other => exact atRest.refl

private theorem parts_performed (atRest : AtRest os st) (found : sessionFor os server st = some store)
    (dict : List (Plist × Plist)) (remove notify : List Plist) :
    Performed os st (batch os.serializedTrue store dict remove notify (board os st))
      (Runs.run (step os) st (parts server dict remove notify)) := by
  have sets := run_performed (fun st item atRest found => setRequest_performed atRest found item)
    dict atRest found
  have found' : sessionFor os server _ = some store := (sessionFor_of_sessions sets.sessions).trans found
  have removes := run_performed (fun st item atRest found => removeRequest_performed atRest found item)
    remove sets.atRest found'
  have found'' : sessionFor os server _ = some store := (sessionFor_of_sessions removes.sessions).trans found'
  have notifies := run_performed (fun st item atRest found => notifyRequest_performed atRest found item)
    notify removes.atRest found''
  rw [removes.board,sets.board] at notifies
  have all := (sets.trans removes).trans notifies
  simp only [Runs.run,parts,List.foldl_append] at all ⊢
  exact all

/-! ## In any order -/

private theorem putItem_comm (b : Board) {x y : Plist × Plist} (apart : x.1 ≠ y.1) :
    putItem store (putItem store b x) y = putItem store (putItem store b y) x := by
  obtain ⟨k | _ | _,_ | v | _⟩ := x
  case string.data =>
    obtain ⟨l | _ | _,_ | w | _⟩ := y
    case string.data =>
      have different : k ≠ l := fun same => apart (congrArg Plist.string same)
      exact NoticeBoard.put_comm b different v w
    all_goals rfl
  all_goals rfl

private theorem foldl_putItem_perm {dict items : List (Plist × Plist)} (perm : items.Perm dict)
    (distinct : (dict.map Prod.fst).Nodup) (b : Board) :
    items.foldl (putItem store) b = dict.foldl (putItem store) b := by
  apply perm.foldl_eq'
  intro x hx y hy b
  by_cases same : x.1 = y.1
  · rw [List.inj_on_of_nodup_map distinct (perm.mem_iff.mp hx) (perm.mem_iff.mp hy) same]
  · exact putItem_comm b same

private theorem batch_perm {dict items : List (Plist × Plist)} (perm : items.Perm dict)
    (distinct : (dict.map Prod.fst).Nodup) (blank : CFData) (remove notify : List Plist) (b : Board) :
    batch blank store items remove notify b = batch blank store dict remove notify b := by
  simp only [batch,foldl_putItem_perm perm distinct]

def Platform.reordered (os : Platform Regex) (order : (α : Type) → List α → List α)
    (perm : ∀ (α : Type) (l : List α), (order α l).Perm l) : Platform Regex :=
  { os with
    order := order
    order_perm := perm }

theorem AtRest.of_reordered {order : (α : Type) → List α → List α}
    {perm : ∀ (α : Type) (l : List α), (order α l).Perm l} (atRest : AtRest (os.reordered order perm) st) :
    AtRest os st := by
  obtain ⟨⟨⟨table,watched,cached⟩,owned,noted⟩,settled⟩ := atRest
  refine ⟨⟨⟨table,watched,⟨?_,cached.watched,cached.registered⟩⟩,owned,noted⟩,settled⟩
  intro p pInfo found
  have sound := cached.each p pInfo found
  exact ⟨sound.compiled,sound.distinctKeys,sound.distinctSessions,sound.sessions,sound.keys⟩

theorem AtRest.reordered (atRest : AtRest os st) (order : (α : Type) → List α → List α)
    (perm : ∀ (α : Type) (l : List α), (order α l).Perm l) : AtRest (os.reordered order perm) st := by
  have back : AtRest ((os.reordered order perm).reordered os.order os.order_perm) st := atRest
  exact back.of_reordered

private theorem configsetM_performed {dict : List (Plist × Plist)} (atRest : AtRest os st)
    (found : sessionFor os server st = some store) (distinct : (dict.map Prod.fst).Nodup)
    (remove notify : List Plist) :
    Performed os st (batch os.serializedTrue store dict remove notify (board os st))
      (step os st (.configsetM server dict remove notify true)) := by
  change Performed os st _ (configsetM os server dict remove notify true st).2
  rw [configsetM,found,← batch_perm (os.order_perm _ dict) distinct]
  exact setMultiple_performed atRest (sessionFor_open found) dict remove notify

/-- Doing a batch is doing its parts, with the dictionary taken in any order,
and the order in which the platform enumerates does not matter. -/
theorem setMultiple_eq_parts {dict items : List (Plist × Plist)} (reachable : Reachable os st)
    (found : sessionFor os server st = some store) (distinct : (dict.map Prod.fst).Nodup)
    (perm : items.Perm dict) (remove notify : List Plist) :
    SameContents (step os st (.configsetM server dict remove notify true))
      (Runs.run (step os) st (parts server items remove notify)) ∧
    ∀ order perm, SameContents (step os st (.configsetM server dict remove notify true))
      (step (os.reordered order perm) st (.configsetM server dict remove notify true)) := by
  have atRest := reachable.atRest
  have together := configsetM_performed atRest found distinct remove notify
  refine ⟨?_,?_⟩
  · have oneByOne := parts_performed atRest found items remove notify
    rw [batch_perm perm distinct] at oneByOne
    exact sameContents together.atRest oneByOne.atRest (oneByOne.sessions.trans together.sessions.symm)
      (oneByOne.board.trans together.board.symm)
  · intro order perm
    have found' : sessionFor (os.reordered order perm) server st = some store := found
    have reordered := configsetM_performed (atRest.reordered order perm) found' distinct remove notify
    have same : board os (step (os.reordered order perm) st (.configsetM server dict remove notify true)) =
        batch os.serializedTrue store dict remove notify (board os st) := reordered.board
    exact sameContents together.atRest reordered.atRest.of_reordered
      (reordered.sessions.trans together.sessions.symm) (same.trans together.board.symm)

/-- A batch that sets one key, removes another and notifies a third. -/
theorem setMultiple_eq_parts_three :
    SameContents
      (step literal (Runs.run (step literal) {} watchTwice)
        (.configsetM 5 [(.string ['a'],.data [1])] [.string aKey] [.string ['n']] true))
      (Runs.run (step literal) (Runs.run (step literal) {} watchTwice)
        (parts 5 [(.string ['a'],.data [1])] [.string aKey] [.string ['n']])) := by
  have found : sessionFor literal 5 (Runs.run (step literal) {} watchTwice) =
      some { server := 5, keys := [aKey], patterns := [aKey] } := by decide
  exact (setMultiple_eq_parts watchTwice_reachable found (by decide) (.refl _) _ _).1

end FreebsdLaunchd.DynamicStore
