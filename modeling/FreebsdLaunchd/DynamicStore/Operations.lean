import FreebsdLaunchd.DynamicStore.Store

/-! The operations of the dynamic store, as the sources compute them: the
watchers of a key, the cached patterns, values, the push that follows a change,
and the keys and patterns a session watches. -/
namespace FreebsdLaunchd.DynamicStore
open CData

variable {Regex : Type} (os : Platform Regex)

/-! ## Watchers -/

def Entry.refs (e : Entry) : RefCounts Int := ⟨e.watchers.getD [],e.watcherRefs.getD []⟩

def Entry.setRefs (e : Entry) (t : RefCounts Int) : Entry :=
  { e with watchers := some t.holders, watcherRefs := some t.counts }

def addWatcher (sessionNum : Int) (watchedKey : CFString) (st : State Regex) : State Regex :=
  let newDict := (st.storeData.lookup watchedKey).getD {}
  let newDict := newDict.setRefs (newDict.refs.retain sessionNum)
  { st with storeData := st.storeData.insert watchedKey newDict }

def removeWatcher (sessionNum : Int) (watchedKey : CFString) (st : State Regex) : State Regex :=
  match st.storeData.lookup watchedKey with
  | none => st
  | some dict =>
    if dict.watchers.isNone then st
    else if sessionNum ∉ dict.refs.holders then st
    else
      let refs := dict.refs.release sessionNum
      let newDict := if refs.holders.length > 0 then dict.setRefs refs
        else { dict with watchers := none, watcherRefs := none }
      { st with storeData :=
          if newDict.count > 0 then st.storeData.insert watchedKey newDict
          else st.storeData.erase watchedKey }

/-! ## Patterns -/

def keyMatchesPattern (key : CFString) (pRegex : Regex) : Bool :=
  match toCString key with
  | none => false
  | some str => os.regexec pRegex str

def patternCompile (pattern : CFString) : Option Regex :=
  let insert := !List.isPrefixOf ['^'] pattern
  let append := !List.isSuffixOf ['$'] pattern || List.isSuffixOf ['\\','$'] pattern
  let bounded := (if insert then ['^'] else []) ++ pattern ++ (if append then ['$'] else [])
  match toCString bounded with
  | none => none
  | some str => os.regcomp str

def patternNew (pattern : CFString) (st : State Regex) : Option (PatternInfo Regex) :=
  match patternCompile os pattern with
  | none => none
  | some pRegex =>
    let matching := (os.order _ st.storeData.entries).filter fun e =>
      e.2.data.isSome && keyMatchesPattern os e.1 pRegex
    some { regex := pRegex, sessions := [], keys := matching.map Sigma.fst }

def patternCopy (pattern : CFString) (st : State Regex) : Option (PatternInfo Regex) :=
  match st.patternData.lookup pattern with
  | some pInfo => some pInfo
  | none => patternNew os pattern st

def patternCopyMatches (pattern : CFString) (st : State Regex) : Option (List CFString) :=
  (patternCopy os pattern st).map PatternInfo.keys

def patternKeyMatches (pattern key : CFString) (st : State Regex) : Bool :=
  match st.patternData.lookup pattern with
  | some pInfo => pInfo.keys.contains key || keyMatchesPattern os key pInfo.regex
  | none =>
    match patternNew os pattern st with
    | none => false
    | some pInfo => keyMatchesPattern os key pInfo.regex

def patternAddSession (pattern : CFString) (sessionNum : Int) (st : State Regex) :
    Bool × State Regex :=
  match patternCopy os pattern st with
  | none => (false,st)
  | some pInfo =>
    let pInfo := { pInfo with sessions := pInfo.sessions ++ [sessionNum] }
    let st := { st with patternData := st.patternData.insert pattern pInfo }
    (true,pInfo.keys.foldl (fun st key => addWatcher sessionNum key st) st)

def patternRemoveSession (pattern : CFString) (sessionNum : Int) (st : State Regex) : State Regex :=
  match st.patternData.lookup pattern with
  | none => { st with assertionFailed := true }
  | some pInfo =>
    let st := pInfo.keys.foldl (fun st key => removeWatcher sessionNum key st) st
    if pInfo.sessions.length > 1 then
      let pInfo := { pInfo with sessions := pInfo.sessions.erase sessionNum }
      { st with patternData := st.patternData.insert pattern pInfo }
    else { st with patternData := st.patternData.erase pattern }

def addKeyForPattern (storeKey : CFString) (st : State Regex)
    (item : Sigma fun _ : CFString => PatternInfo Regex) : State Regex :=
  let pInfo := item.2
  if keyMatchesPattern os storeKey pInfo.regex then
    let st := pInfo.sessions.foldl (fun st sessionNum => addWatcher sessionNum storeKey st) st
    { st with patternData :=
        st.patternData.insert item.1 { pInfo with keys := pInfo.keys ++ [storeKey] } }
  else st

def patternAddKey (key : CFString) (st : State Regex) : State Regex :=
  (os.order _ st.patternData.entries).foldl (addKeyForPattern os key) st

def removeKeyFromPattern (storeKey : CFString) (st : State Regex)
    (item : Sigma fun _ : CFString => PatternInfo Regex) : State Regex :=
  let pInfo := item.2
  if storeKey ∈ pInfo.keys then
    let st := pInfo.sessions.foldl (fun st sessionNum => removeWatcher sessionNum storeKey st) st
    { st with patternData :=
        st.patternData.insert item.1 { pInfo with keys := pInfo.keys.erase storeKey } }
  else st

def patternRemoveKey (key : CFString) (st : State Regex) : State Regex :=
  (os.order _ st.patternData.entries).foldl (removeKeyFromPattern key) st

/-! ## The push -/

def notifyWatcher (key : CFString) (st : State Regex) (watcher : Int) : State Regex :=
  let newInfo := (st.sessionData.lookup (sessionKey watcher)).getD {}
  let newChanges := newInfo.changedKeys.getD []
  let newChanges := if key ∈ newChanges then newChanges else newChanges ++ [key]
  { st with
    sessionData := st.sessionData.insert (sessionKey watcher)
      { newInfo with changedKeys := some newChanges }
    needsNotification := st.needsNotification.insert watcher }

def notifyKey (st : State Regex) (key : CFString) : State Regex :=
  match st.storeData.lookup key with
  | none => st
  | some dict =>
    match dict.watchers with
    | none => st
    | some sessionsWatchingKey => sessionsWatchingKey.reverse.foldl (notifyWatcher key) st

def notifyWatchers (st : State Regex) : State Regex :=
  let st := (os.order _ st.changedKeys).reverse.foldl notifyKey st
  { st with changedKeys := [] }

def processDeferredRemovals (st : State Regex) : State Regex :=
  let st := (os.order _ st.deferredRemovals).reverse.foldl
    (fun st key => patternRemoveKey os key st) st
  { st with deferredRemovals := [] }

def removedSessionKey (session key : CFString) : CFString := session ++ ':' :: key

def dropSessionKey (session key : CFString) (st : State Regex) : State Regex :=
  match st.sessionData.lookup session with
  | none => st
  | some sessionDict =>
    match sessionDict.sessionKeys with
    | none => st
    | some sessionKeys =>
      if key ∉ sessionKeys then st
      else
        let newSessionDict := if sessionKeys.length = 1 then { sessionDict with sessionKeys := none }
          else { sessionDict with sessionKeys := some (sessionKeys.erase key) }
        { st with sessionData := st.sessionData.insert session newSessionDict }

def cleanupRemovedSessionKeys (st : State Regex) (removedKey : CFString) : State Regex :=
  dropSessionKey (removedKey.takeWhile (· ≠ ':')) ((removedKey.dropWhile (· ≠ ':')).drop 1) st

def dynamicStorePush (st : State Regex) : State Regex :=
  let st := notifyWatchers os st
  let st := processDeferredRemovals os st
  let st := (os.order _ st.removedSessionKeys).foldl cleanupRemovedSessionKeys st
  { st with removedSessionKeys := [] }

/-! ## Values -/

def copyValue (key : CFString) (st : State Regex) : Option CFData :=
  match st.storeData.lookup key with
  | none => none
  | some dict => dict.data

def addSessionKey (session key : CFString) (st : State Regex) : State Regex :=
  let dict := (st.sessionData.lookup session).getD {}
  match dict.sessionKeys with
  | none =>
    { st with sessionData := st.sessionData.insert session { dict with sessionKeys := some [key] } }
  | some keys =>
    if key ∈ keys then st
    else { st with sessionData :=
             st.sessionData.insert session { dict with sessionKeys := some (keys ++ [key]) } }

/-- The end of `__SCDynamicStoreSetValue`, once the entry to be saved is known. -/
def saveEntry (key : CFString) (newDict : Entry) (newEntry : Bool) (st : State Regex) : State Regex :=
  let st := { st with storeData := st.storeData.insert key newDict }
  let st :=
    if newEntry then
      if key ∈ st.deferredRemovals then
        { st with deferredRemovals := st.deferredRemovals.erase key }
      else patternAddKey os key st
    else st
  { st with changedKeys := st.changedKeys.insert key }

def dynamicStoreSetValue (store : StorePrivate) (key : CFString) (value : CFData) (internal : Bool)
    (st : State Regex) : Status × State Regex :=
  let dict := (st.storeData.lookup key).getD {}
  let newEntry := dict.data.isNone
  let newDict := { dict with data := some value }
  let mine := sessionKey store.server
  let (status,st) :=
    if store.useSessionKeys then
      if newEntry then
        (.ok,saveEntry os key { newDict with session := some mine } newEntry (addSessionKey mine key st))
      else if dict.session ≠ some mine then (.keyExists,st)
      else (.ok,saveEntry os key newDict newEntry st)
    else
      match dict.session with
      | some other =>
        if !newEntry && other ≠ mine then
          let st := { st with
            removedSessionKeys := st.removedSessionKeys.insert (removedSessionKey other key) }
          (.ok,saveEntry os key { newDict with session := none } newEntry st)
        else (.ok,saveEntry os key newDict newEntry st)
      | none => (.ok,saveEntry os key newDict newEntry st)
  (status,if internal then st else dynamicStorePush os st)

def dynamicStoreAddValue (store : StorePrivate) (key : CFString) (value : CFData) (st : State Regex) :
    Status × State Regex :=
  match copyValue key st with
  | some _ => (.keyExists,st)
  | none =>
    let (status,st) := dynamicStoreSetValue os store key value true st
    (status,dynamicStorePush os st)

def dynamicStoreRemoveValue (key : CFString) (internal : Bool) (st : State Regex) :
    Status × State Regex :=
  match st.storeData.lookup key with
  | none => (.noKey,st)
  | some dict =>
    if dict.data.isNone then (.noKey,st)
    else
      let st := { st with
        changedKeys := st.changedKeys.insert key
        deferredRemovals := st.deferredRemovals.insert key }
      let st :=
        match dict.session with
        | none => st
        | some session => { st with
            removedSessionKeys := st.removedSessionKeys.insert (removedSessionKey session key) }
      let newDict := { dict with session := none, data := none }
      let st := { st with storeData :=
        if newDict.count > 0 then st.storeData.insert key newDict else st.storeData.erase key }
      (.ok,if internal then st else dynamicStorePush os st)

def dynamicStoreNotifyValue (store : StorePrivate) (key : CFString) (internal : Bool)
    (st : State Regex) : Status × State Regex :=
  let st :=
    match copyValue key st with
    | some value => (dynamicStoreSetValue os store key value true st).2
    | none =>
      let st := (dynamicStoreSetValue os store key os.serializedTrue true st).2
      (dynamicStoreRemoveValue os key true st).2
  (.ok,if internal then st else dynamicStorePush os st)

/-- An element of an unserialized property list. -/
inductive Plist
  | string (s : CFString)
  | data (d : CFData)
  | other
  deriving DecidableEq

def setSpecificKey (store : StorePrivate) (st : State Regex) : Plist × Plist → State Regex
  | (.string k,.data v) => (dynamicStoreSetValue os store k v true st).2
  | _ => st

def removeSpecificKey (st : State Regex) : Plist → State Regex
  | .string k => (dynamicStoreRemoveValue os k true st).2
  | _ => st

def notifySpecificKey (store : StorePrivate) (st : State Regex) : Plist → State Regex
  | .string k => (dynamicStoreNotifyValue os store k true st).2
  | _ => st

def dynamicStoreSetMultiple (store : StorePrivate) (keysToSet : List (Plist × Plist))
    (keysToRemove keysToNotify : List Plist) (st : State Regex) : Status × State Regex :=
  let st := (os.order _ keysToSet).foldl (setSpecificKey os store) st
  let st := keysToRemove.foldl (removeSpecificKey os) st
  let st := keysToNotify.foldl (notifySpecificKey os store) st
  (.ok,dynamicStorePush os st)

def dynamicStoreCopyKeyList (key : CFString) (isRegex : Bool) (st : State Regex) :
    Status × List CFString :=
  if isRegex then
    match patternCopyMatches os key st with
    | some keys => (.ok,keys)
    | none => (.failed,[])
  else
    let listed := (os.order _ st.storeData.entries).filter fun e =>
      (key.length = 0 || key.isPrefixOf e.1) && e.2.data.isSome
    (.ok,listed.map Sigma.fst)

def addSpecificKey (st : State Regex) (dict : AList fun _ : CFString => CFData) : Plist →
    AList fun _ : CFString => CFData
  | .string key =>
    match copyValue key st with
    | some data => if key ∈ dict then dict else dict.insert key data
    | none => dict
  | _ => dict

def addSpecificPattern (st : State Regex) (dict : AList fun _ : CFString => CFData) : Plist →
    AList fun _ : CFString => CFData
  | .string pattern =>
    match dynamicStoreCopyKeyList os pattern true st with
    | (.ok,keys) => keys.foldl (fun dict key => addSpecificKey st dict (.string key)) dict
    | _ => dict
  | _ => dict

def dynamicStoreCopyMultiple (keys patterns : List Plist) (st : State Regex) :
    AList fun _ : CFString => CFData :=
  patterns.foldl (addSpecificPattern os st) (keys.foldl (addSpecificKey st) ∅)

/-! ## Watched keys and patterns -/

def addWatchedKey (server : Int) (key : CFString) (isRegex : Bool) (st : State Regex) :
    Status × State Regex :=
  let store := st.deref server
  if isRegex then
    if key ∈ store.patterns then (.keyExists,st)
    else
      match patternAddSession os key store.server st with
      | (false,st) => (.invalidArgument,st)
      | (true,st) => (.ok,st.modify server fun x => { x with patterns := x.patterns ++ [key] })
  else
    if key ∈ store.keys then (.keyExists,st)
    else
      let st := addWatcher store.server key st
      (.ok,st.modify server fun x => { x with keys := x.keys ++ [key] })

def removeWatchedKey (server : Int) (key : CFString) (isRegex : Bool) (st : State Regex) :
    Status × State Regex :=
  let store := st.deref server
  if isRegex then
    if key ∉ store.patterns then (.noKey,st)
    else
      let st := st.modify server fun x => { x with patterns := x.patterns.erase key }
      (.ok,patternRemoveSession key store.server st)
  else
    if key ∉ store.keys then (.noKey,st)
    else
      let st := st.modify server fun x => { x with keys := x.keys.erase key }
      (.ok,removeWatcher store.server key st)

def removeOldKey (server : Int) (newKeys : List CFString) (isRegex : Bool)
    (context : Status × State Regex) (oldKey : CFString) : Status × State Regex :=
  if context.1 ≠ .ok then context
  else if oldKey ∉ newKeys then removeWatchedKey server oldKey isRegex context.2
  else context

def addNewKey (server : Int) (oldKeys : List CFString) (isRegex : Bool)
    (context : Status × State Regex) (newKey : CFString) : Status × State Regex :=
  if context.1 ≠ .ok then context
  else if newKey ∉ oldKeys then addWatchedKey os server newKey isRegex context.2
  else context

def StorePrivate.registered (store : StorePrivate) (isRegex : Bool) : List CFString :=
  if isRegex then store.patterns else store.keys

/-- Each of the two halves of `__SCDynamicStoreSetNotificationKeys`. -/
def updateKeys (server : Int) (newKeys : List CFString) (isRegex : Bool)
    (context : Status × State Regex) : Status × State Regex :=
  let oldKeys := (context.2.deref server).registered isRegex
  let context := oldKeys.foldl (removeOldKey server newKeys isRegex) context
  newKeys.foldl (addNewKey os server oldKeys isRegex) context

def dynamicStoreSetNotificationKeys (server : Int) (keys patterns : List CFString)
    (st : State Regex) : Status × State Regex :=
  updateKeys os server patterns true (updateKeys os server keys false (.ok,st))

def dynamicStoreCopyNotifiedKeys (server : Int) (st : State Regex) : List CFString × State Regex :=
  match st.sessionData.lookup (sessionKey server) with
  | none => ([],st)
  | some info =>
    match info.changedKeys with
    | none => ([],st)
    | some notifierKeys =>
      let newInfo := { info with changedKeys := none }
      (notifierKeys,{ st with sessionData :=
        if newInfo.count > 0 then st.sessionData.insert (sessionKey server) newInfo
        else st.sessionData.erase (sessionKey server) })

def dynamicStoreNotifyCancel (server : Int) (st : State Regex) : State Regex :=
  let st := st.modify server fun x => { x with
    notifyPort := 0
    notifyFile := -1
    notifySignal := if x.notifySignal > 0 then 0 else x.notifySignal
    notifySignalTask := if x.notifySignal > 0 then 0 else x.notifySignalTask
    notifyStatus := .notRegistered }
  { st with needsNotification := st.needsNotification.erase server }

end FreebsdLaunchd.DynamicStore
