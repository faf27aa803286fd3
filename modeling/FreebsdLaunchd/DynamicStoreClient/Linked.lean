import FreebsdLaunchd.DynamicStoreClient.Requests

/-! What a client has recorded and what its session of configd watches: after
every call, with whatever others ask of configd in between, the session watches
only what is recorded, and all of it once the record has been registered anew. -/
namespace FreebsdLaunchd.DynamicStoreClient
open DynamicStore State

variable {Regex : Type} {os : Platform Regex} {w w' : World Regex} {st st' : State Regex} {client client' : Client}
variable {n newServer : Int}

structure Connected (w : World Regex) (n : Int) (st : State Regex) : Prop where
  server : w.client.server = some n
  configd : w.configd = some st
  alive : w.deadName = false

theorem Connected.same {n' : Int} (one : Connected w n st) (other : Connected w n' st') : n = n' ∧ st = st' :=
  ⟨Option.some.inj (one.server.symm.trans other.server),Option.some.inj (one.configd.symm.trans other.configd)⟩

/-- The session watches nothing that is not recorded, and is told on no port but
the one the client receives on. -/
structure Serving (os : Platform Regex) (client : Client) (n : Int) (st : State Regex) : Prop where
  serves : Serves os n st
  watched : ∀ isRegex, ∀ k ∈ st.registered n isRegex, k ∈ client.recorded isRegex
  told : ∀ p, client.dispatchSource = some p →
    (st.deref n).notifyStatus = .notRegistered ∨ notifier (st.deref n) = (.informViaMachPort,p)

/-- The session watches all that is recorded, and is told where the client receives. -/
structure Complete (client : Client) (n : Int) (st : State Regex) : Prop where
  watched : ∀ isRegex, ∀ k ∈ client.recorded isRegex, k ∈ st.registered n isRegex
  told : ∀ p, client.dispatchSource = some p → notifier (st.deref n) = (.informViaMachPort,p)

def Restored (w : World Regex) : Prop := ∃ n st, Connected w n st ∧ Complete w.client n st

def Unheard (w : World Regex) : Prop := ∀ n st, Connected w n st → (st.deref n).notifyStatus = .notRegistered

structure Linked (os : Platform Regex) (w : World Regex) : Prop where
  atRest : ∀ st, w.configd = some st → AtRest os st
  gone : w.configd = none → w.deadName = true
  serving : ∀ n st, Connected w n st → Serving os w.client n st

/-- If a call has to open a session, the port that this gets is not in use. -/
def Unused (newServer : Int) (w : World Regex) : Prop :=
  w.client.server ≠ none → (∀ n st, ¬ Connected w n st) → ∀ st, w.configd = some st → Fresh newServer st

/-! ## A call reaches a session -/

def World.joined (w : World Regex) (n : Int) (st : State Regex) (client : Client) : World Regex :=
  { w with client := { client with server := some n }, configd := some st, deadName := false }

def World.lost (w : World Regex) : World Regex := w.update fun client => { client with server := none }

structure Reached (os : Platform Regex) (w : World Regex) (n : Int) (st : State Regex) : Prop where
  serving : Serving os w.client n st
  complete : Restored w → Complete w.client n st
  unheard : Unheard w → (st.deref n).notifyStatus = .notRegistered

theorem connected_joined (w : World Regex) (n : Int) (st : State Regex) (client : Client) :
    Connected (w.joined n st client) n st := ⟨rfl,rfl,rfl⟩

theorem joined_linked (serving : Serving os client n st) : Linked os (w.joined n st client) where
  atRest st' configd := by
    obtain rfl := Option.some.inj configd
    exact serving.serves.atRest
  gone configd := by cases configd
  serving n' st' connected := by
    obtain ⟨rfl,rfl⟩ := (connected_joined w n st client).same connected
    exact ⟨serving.serves,serving.watched,serving.told⟩

theorem joined_restored (complete : Complete client n st) : Restored (w.joined n st client) :=
  ⟨n,st,connected_joined w n st client,complete.watched,complete.told⟩

theorem joined_unheard (idle : (st.deref n).notifyStatus = .notRegistered) : Unheard (w.joined n st client) := by
  intro n' st' connected
  obtain ⟨rfl,rfl⟩ := (connected_joined w n st client).same connected
  exact idle

theorem joined_unused (newServer : Int) : Unused newServer (w.joined n st client) :=
  fun _ closed => absurd (connected_joined w n st client) (closed n st)

private theorem not_connected_lost : ¬ Connected w.lost n st := by
  intro connected
  cases connected.server

theorem lost_linked (linked : Linked os w) : Linked os w.lost :=
  ⟨linked.atRest,linked.gone,fun _ _ connected => absurd connected not_connected_lost⟩

theorem lost_unused (newServer : Int) (w : World Regex) : Unused newServer w.lost :=
  fun server => absurd rfl server

theorem session_connected (connected : Connected w n st) : session os newServer w = .ok (n,st) := by
  simp [session,connected.server,connected.configd,connected.alive]

/-- A new session watches nothing and is not told. -/
theorem addSession_serves (linked : Linked os w) (unused : ∀ st, w.configd = some st → Fresh newServer st)
    (opened : scDynamicStoreAddSession os newServer client w.configd = .ok st) :
    Serves os newServer st ∧ (∀ isRegex, st.registered newServer isRegex = []) ∧
      (st.deref newServer).notifyStatus = .notRegistered := by
  unfold scDynamicStoreAddSession at opened
  cases runs : w.configd with
  | none =>
    rw [runs] at opened
    cases opened
  | some before =>
    have serves (ok : (configopen os.servicePort client.name client.useSessionKeys newServer before).1 = .ok) :=
      configopen_serves (linked.atRest before runs) (unused before runs) ok
    rw [runs] at opened
    simp only at opened
    split at opened
    · next after answered =>
      obtain rfl : after = st := by simpa using opened
      rw [answered] at serves
      obtain ⟨serves,nothing,idle⟩ := serves rfl
      exact ⟨serves,nothing,congrArg Prod.fst idle⟩
    · cases opened

private theorem session_new (closed : ∀ n st, ¬ Connected w n st) {server : Int} (found : w.client.server = some server) :
    session os newServer w =
      (scDynamicStoreAddSession os newServer w.client w.configd).map fun st => (newServer,st) := by
  unfold session
  rw [found]
  cases dead : w.deadName with
  | true => rfl
  | false =>
    cases runs : w.configd with
    | none => rfl
    | some now => exact absurd ⟨found,runs,dead⟩ (closed server now)

private theorem session_reached (linked : Linked os w) (unused : Unused newServer w)
    (reached : session os newServer w = .ok (n,st)) : Reached os w n st := by
  by_cases connected : ∃ n st, Connected w n st
  · obtain ⟨n',st',connected⟩ := connected
    rw [session_connected connected] at reached
    obtain ⟨rfl,rfl⟩ : n' = n ∧ st' = st := by simpa using reached
    refine ⟨linked.serving _ _ connected,?_,fun unheard => unheard _ _ connected⟩
    rintro ⟨n,st,connected',complete⟩
    obtain ⟨rfl,rfl⟩ := connected.same connected'
    exact complete
  · have closed (n : Int) (st : State Regex) : ¬ Connected w n st := fun is => connected ⟨n,st,is⟩
    cases found : w.client.server with
    | none => simp [session,found] at reached
    | some server =>
      rw [session_new closed found] at reached
      cases opened : scDynamicStoreAddSession os newServer w.client w.configd with
      | error error =>
        rw [opened] at reached
        cases reached
      | ok now =>
        rw [opened] at reached
        obtain ⟨rfl,rfl⟩ : newServer = n ∧ now = st := by simpa [Except.map] using reached
        obtain ⟨serves,nothing,idle⟩ := addSession_serves linked (unused (by simp [found]) closed) opened
        refine ⟨⟨serves,?_,fun _ _ => .inl idle⟩,?_,fun _ => idle⟩
        · intro isRegex k member
          rw [nothing] at member
          cases member
        · rintro ⟨n,st,is,_⟩
          exact absurd is (closed n st)

theorem exchange_cases {α : Type} (linked : Linked os w) (unused : Unused newServer w)
    (request : Int → State Regex → α × State Regex) :
    (∃ error, session os newServer w = .error error ∧ exchange os newServer request w = (.error error,w.lost) ∧
        ¬ Restored w) ∨
      ∃ n st, session os newServer w = .ok (n,st) ∧ Reached os w n st ∧
        exchange os newServer request w = (.ok (request n st).1,w.joined n (request n st).2 w.client) := by
  cases reached : session os newServer w with
  | error error =>
    refine .inl ⟨error,rfl,by simp only [exchange,reached,World.lost],?_⟩
    rintro ⟨n,st,connected,_⟩
    rw [session_connected connected] at reached
    cases reached
  | ok found =>
    obtain ⟨n,st⟩ := found
    exact .inr ⟨n,st,rfl,session_reached linked unused reached,by simp only [exchange,reached,World.joined]⟩

end FreebsdLaunchd.DynamicStoreClient
