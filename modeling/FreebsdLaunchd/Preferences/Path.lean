import FreebsdLaunchd.Library.Substrings
import FreebsdLaunchd.Library.Trees

/-! Preference paths: the getter and the setter of a dictionary at a path, both
of which start again from the top at every link node inside the path. -/
namespace FreebsdLaunchd.Preferences
open Trees

abbrev CFString := List Char

inductive Leaf (α : Type) where
  | string (text : CFString)
  | other (value : α)
  deriving DecidableEq

abbrev PropertyList (α : Type) := Tree CFString (Leaf α)
abbrev CFDictionary (α : Type) := Dict CFString (Leaf α)

inductive SCStatus where | invalidArgument | noKey | maxLink deriving DecidableEq

/-- The dictionary of a session that has been accessed, and the flag for the next commit. -/
structure PrefsPrivate (α : Type) where
  prefs : CFDictionary α
  changed : Bool

variable {α : Type}

def kSCResvLink : CFString := "__LINK__".toList

def MAXLINKS : Nat := 8

/-! ## Top-level values -/

def scPreferencesGetValue (prefs : PrefsPrivate α) (key : CFString) : Option (PropertyList α) := find prefs.prefs key

def scPreferencesSetValue (prefs : PrefsPrivate α) (key : CFString) (value : PropertyList α) :
    Except SCStatus Unit × PrefsPrivate α :=
  (.ok (),{prefs := set prefs.prefs key value,changed := true})

def scPreferencesRemoveValue (prefs : PrefsPrivate α) (key : CFString) : Except SCStatus Unit × PrefsPrivate α :=
  if (find prefs.prefs key).isNone then (.error .noKey,prefs)
  else (.ok (),{prefs := erase prefs.prefs key,changed := true})

/-! ## Links -/

/-- The components of a path, the empty ones removed. What is no string, or has no
root separator, is no path. -/
def normalizePath : PropertyList α → Option (List CFString)
  | .leaf (.string path) => if path.head? = some '/' then some ((path.splitOn '/').filter (· ≠ [])) else none
  | _ => none

/-- What one pass over the elements comes to: its result, or a link found in the
dictionary at element `i`, before the last one. -/
inductive Pass (α R : Type) where
  | done (result : R)
  | link (i : Nat) (link : PropertyList α)

variable {R S : Type}

def Pass.later (f : R → S) : Pass α R → Pass α S
  | .done result => .done (f result)
  | .link i target => .link (i+1) target

/-- The passes over the elements and their restarts: the elements of the last pass
and its result. `none` stands for passes still to be made. -/
def restartLoop (pass : List CFString → Pass α R) : Nat → Nat → List CFString →
    Option (Except SCStatus (List CFString × R))
  | 0, _, _ => none
  | fuel+1, nLinks, elements =>
    match pass elements with
    | .done result => some (.ok (elements,result))
    | .link i link =>
      -- if we are chasing our tail
      if nLinks + 1 > MAXLINKS then some (.error .maxLink)
      else match normalizePath link with
        | none => some (.error .noKey)
        | some linkElements => restartLoop pass fuel (nLinks+1) (linkElements ++ elements.drop (i+1))

def followLinks (pass : List CFString → Pass α R) (path : PropertyList α) :
    Except SCStatus (List CFString × R) :=
  match normalizePath path with
  | none => .error .noKey
  | some elements => (restartLoop pass (MAXLINKS+1) 0 elements).getD (.error .maxLink)

/-! ## Getting -/

def getPass (dict : CFDictionary α) : List CFString → Pass α (Except SCStatus (CFDictionary α))
  | [] => .done (.ok dict)
  | element::rest =>
    match find dict element with
    | none => .done (.error .noKey)
    | some (.leaf _) => .done (.error .noKey)
    | some (.dict value) =>
      -- a link counts only where it is not the last path component
      match if rest = [] then none else find value kSCResvLink with
      | some link => .link 0 link
      | none => (getPass value rest).later id

def getPath (prefs : PrefsPrivate α) (path : PropertyList α) : Except SCStatus (CFDictionary α) :=
  match followLinks (getPass prefs.prefs) path with
  | .error status => .error status
  | .ok (_,result) => result

/-- A dictionary that is a link is followed once more. -/
def scPreferencesPathGetValue (prefs : PrefsPrivate α) (path : PropertyList α) :
    Except SCStatus (CFDictionary α) :=
  match getPath prefs path with
  | .error status => .error status
  | .ok entity =>
    match find entity kSCResvLink with
    | some entityLink => getPath prefs entityLink
    | none => .ok entity

/-! ## Setting -/

/-- The nodes above the last element, an empty dictionary for each that is missing. -/
def setPass (dict : CFDictionary α) : List CFString → Pass α (Except SCStatus (List (CFDictionary α)))
  | [] => .done (.ok [])
  | [_] => .done (.ok [])
  | element::rest =>
    match (find dict element).getD (.dict []) with
    | .leaf _ => .done (.error .noKey)
    | .dict node =>
      match find node kSCResvLink with
      | some link => .link 0 link
      | none => (setPass node rest).later fun nodes => nodes.map (node :: ·)

/-- One turn of the loop that builds the new entities from the last element up. -/
def newNode (element : CFString) (node : CFDictionary α) : Option (PropertyList α) → Option (PropertyList α)
  | some newEntity => some (.dict (set node element newEntity))
  | none =>
    -- prune the (now empty) parent
    if erase node element = [] then none else some (.dict (erase node element))

def setEntity (prefs : PrefsPrivate α) (element : CFString) :
    Option (PropertyList α) → Except SCStatus Unit × PrefsPrivate α
  | some newEntity => scPreferencesSetValue prefs element newEntity
  | none => scPreferencesRemoveValue prefs element

def setResolved (prefs : PrefsPrivate α) (entity : Option (CFDictionary α)) (nodes : List (CFDictionary α)) :
    List CFString → Except SCStatus Unit × PrefsPrivate α
  | [] => (.ok (),{prefs := entity.getD [],changed := true})
  | element::rest =>
    match find (nodes.getLast?.getD prefs.prefs) ((element::rest).getLast (List.cons_ne_nil _ _)) with
    | some (.leaf _) => (.error .invalidArgument,prefs)
    | _ => setEntity prefs element <|
        (rest.zip nodes).foldr (fun at_ newEntity => newNode at_.1 at_.2 newEntity) (entity.map .dict)

def setPath (prefs : PrefsPrivate α) (path : PropertyList α) (entity : Option (CFDictionary α)) :
    Except SCStatus Unit × PrefsPrivate α :=
  match followLinks (setPass prefs.prefs) path with
  | .error status => (.error status,prefs)
  | .ok (_,.error status) => (.error status,prefs)
  | .ok (elements,.ok nodes) => setResolved prefs entity nodes elements

/-- A string may be stored at the path of the current set. -/
def scPreferencesPathSetValue (prefs : PrefsPrivate α) (path : CFString) (value : PropertyList α) :
    Except SCStatus Unit × PrefsPrivate α :=
  match value with
  | .leaf (.string text) =>
    if path = "/CurrentSet".toList then scPreferencesSetValue prefs "CurrentSet".toList (.leaf (.string text))
    else (.error .invalidArgument,prefs)
  | .leaf (.other _) => (.error .invalidArgument,prefs)
  | .dict value => setPath prefs (.leaf (.string path)) (some value)

def scPreferencesPathSetLink (prefs : PrefsPrivate α) (path : CFString) (link : PropertyList α) :
    Except SCStatus Unit × PrefsPrivate α :=
  match link with
  | .leaf (.string _) =>
    match getPath prefs link with
    -- if bad link
    | .error status => (.error status,prefs)
    | .ok _ => setPath prefs (.leaf (.string path)) (some [(kSCResvLink,link)])
  | _ => (.error .invalidArgument,prefs)

def scPreferencesPathRemoveValue (prefs : PrefsPrivate α) (path : PropertyList α) :
    Except SCStatus Unit × PrefsPrivate α :=
  match getPath prefs path with
  | .error status => (.error status,prefs)
  | .ok _ =>
    match normalizePath path with
    | none => (.error .noKey,prefs)
    | some _ => setPath prefs path none

end FreebsdLaunchd.Preferences
