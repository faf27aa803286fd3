import FreebsdLaunchd.InfoServer.Server

/-! The counters of clients in sync, against a ledger of what each open client
has acknowledged. The server remembers an acknowledgement of generation 0 as
none, does not take a client out of sync that acknowledges an older generation,
and lets new data put every client out of sync, whatever it has acknowledged. -/
namespace FreebsdLaunchd.InfoServer
open Tally

variable {Data : Type}

/-- The open clients, each with the generation it has acknowledged last. -/
abbrev Ledger := AList fun _ : Connection => Option UInt64

structure World (Data : Type) where
  server : Server Data
  ledger : Ledger

/-- An acknowledgement that is dropped for want of the entitlement is none. -/
def record (l : Ledger) : Event Data → Ledger
  | .opens c _ => l.insert c none
  | .acknowledges c true generation => l.insert c (some generation)
  | .acknowledges _ false _ => l
  | .closes c => l.erase c
  | .fetches _ => l
  | .setsData _ _ => l

def World.step (w : World Data) (e : Event Data) : Option (World Data) :=
  (apply w.server e).map fun server => ⟨server,record w.ledger e⟩

/-- Once the server has followed a missing value there is no state. -/
def step (w : Option (World Data)) (e : Event Data) : Option (World Data) := w.bind (·.step e)

def start : Option (World Data) := some ⟨init,∅⟩

def isCurrent (generation : UInt64) (last : Option UInt64) : Bool := last == some generation

def isBehind (generation : UInt64) (last : Option UInt64) : Bool := last.isSome && last != some generation

structure World.Counted (w : World Data) : Prop where
  yes : w.server.inSyncYES = tally (isCurrent w.server.generation) w.ledger
  no : w.server.inSyncNO = tally (isBehind w.server.generation) w.ledger

/-- Each open client has its entry, where 0 stands for no acknowledgement. -/
def World.Known (w : World Data) : Prop :=
  ∀ c, (w.server.info.lookup c).map (·.generationAcknowledged) = (w.ledger.lookup c).map (·.getD 0)

/-- The accounting holds: both counters are right, and `in_sync` tells whether a
client that acknowledged anything is behind. -/
def InSync : Option (World Data) → Prop
  | none => False
  | some w => w.Counted ∧
    (inSync w.server = true ↔ ∀ c g, w.ledger.lookup c = some (some g) → g = w.server.generation)

def Accountable : Option (World Data) → Event Data → Prop
  | none, _ => False
  | some w, .opens c _ => ∀ g, w.ledger.lookup c ≠ some (some g)
  | some w, .fetches c => c ∈ w.ledger
  | some _, .acknowledges _ false _ => True
  | some w, .acknowledges c true generation => w.ledger.lookup c = some none ∨
    ∃ g, w.ledger.lookup c = some (some g) ∧ g ≠ 0 ∧ (g = w.server.generation → generation = g)
  | some w, .setsData _ generation => ∀ c g, w.ledger.lookup c = some (some g) → g ≠ if generation = 0 then 1 else generation
  | some w, .closes c => w.ledger.lookup c ≠ some (some 0)

variable {w : World Data} {c : Connection}

theorem World.counted_iff : w.Counted ↔
    w.server.inSyncYES = tally (isCurrent w.server.generation) w.ledger ∧
      w.server.inSyncNO = tally (isBehind w.server.generation) w.ledger :=
  ⟨fun counted => ⟨counted.yes,counted.no⟩,fun both => ⟨both.1,both.2⟩⟩

theorem World.Known.mem (known : w.Known) : c ∈ w.server.info ↔ c ∈ w.ledger := by
  have same := congrArg Option.isSome (known c)
  rw [Option.isSome_map,Option.isSome_map] at same
  rw [← AList.lookup_isSome,← AList.lookup_isSome,same]

theorem World.Counted.inSync (counted : w.Counted) :
    inSync w.server = true ↔ ∀ c g, w.ledger.lookup c = some (some g) → g = w.server.generation := by
  rw [InfoServer.inSync,beq_iff_eq,counted.no,Int.natCast_eq_zero,tally_eq_zero]
  constructor
  · intro none c g found
    simpa [isBehind] using none c (some g) found
  · intro all c last found
    cases last with
    | none => rfl
    | some g => simp [isBehind,all c g found]

/-- The accounting of a state is its counters; the rest follows. -/
theorem inSync_iff : InSync (some w) ↔ w.Counted :=
  ⟨And.left,fun counted => ⟨counted,counted.inSync⟩⟩

/-! ## One event -/

/-- The part of an open client in the two counters. -/
theorem share_of_last {last : Option UInt64} (found : w.ledger.lookup c = some last) (generation : UInt64) :
    share (isCurrent generation) w.ledger c = (if last = some generation then 1 else 0) ∧
      share (isBehind generation) w.ledger c = if last.isSome ∧ last ≠ some generation then 1 else 0 := by
  constructor
  · simp [share_of_lookup _ _ _ found,isCurrent]
  · simp [share_of_lookup _ _ _ found,isBehind]

/-- How the counts move when a client's last acknowledgement is written. -/
theorem tallies_insert (generation : UInt64) (new : Option UInt64) :
    tally (isCurrent generation) (w.ledger.insert c new) + share (isCurrent generation) w.ledger c =
        tally (isCurrent generation) w.ledger + (if new = some generation then 1 else 0) ∧
      tally (isBehind generation) (w.ledger.insert c new) + share (isBehind generation) w.ledger c =
        tally (isBehind generation) w.ledger + if new.isSome ∧ new ≠ some generation then 1 else 0 := by
  constructor
  · simpa [isCurrent] using tally_insert (isCurrent generation) w.ledger c new
  · simpa [isBehind] using tally_insert (isBehind generation) w.ledger c new

private theorem counted_opens (pid : Int32) (counted : w.Counted) :
    (World.mk (openConnection c pid w.server) (w.ledger.insert c none)).Counted ↔
      ∀ g, w.ledger.lookup c ≠ some (some g) := by
  obtain ⟨yes,no⟩ := counted
  obtain ⟨current,behind⟩ := @tallies_insert _ w c w.server.generation none
  simp only [World.counted_iff,openConnection,yes,no]
  cases found : w.ledger.lookup c with
  | none =>
    simp [share_of_absent _ _ _ found] at current behind ⊢
    omega
  | some last =>
    obtain ⟨inYes,inNo⟩ := share_of_last found w.server.generation
    rw [inYes] at current
    rw [inNo] at behind
    cases last with
    | none =>
      simp at current behind ⊢
      omega
    | some g =>
      by_cases here : g = w.server.generation
      · simp [here] at current behind ⊢
        omega
      · simp [here] at current behind ⊢
        omega

private theorem counted_closes (known : w.Known) (counted : w.Counted) :
    (World.mk (close c w.server).2 (w.ledger.erase c)).Counted ↔ w.ledger.lookup c ≠ some (some 0) := by
  obtain ⟨yes,no⟩ := counted
  have current := tally_erase (isCurrent w.server.generation) w.ledger c
  have behind := tally_erase (isBehind w.server.generation) w.ledger c
  have entry := known c
  rw [World.counted_iff]
  cases found : w.ledger.lookup c with
  | none =>
    have absent : w.server.info.lookup c = none := by simpa [found] using entry
    simp [share_of_absent _ _ _ found] at current behind
    simp [close,absent,yes,no]
    omega
  | some last =>
    rw [found] at entry
    obtain ⟨val,stored,same⟩ := Option.map_eq_some_iff.mp entry
    obtain ⟨inYes,inNo⟩ := share_of_last found w.server.generation
    rw [inYes] at current
    rw [inNo] at behind
    simp only [close,stored]
    cases last with
    | none =>
      have fresh : val.generationAcknowledged = 0 := same
      simp at current behind
      simp [fresh,yes,no]
      omega
    | some g =>
      have last : val.generationAcknowledged = g := same
      rw [last]
      by_cases zero : g = 0
      · -- the entry reads as if nothing had been acknowledged
        have skipped : ¬ g > 0 := by simp [zero]
        rw [if_neg skipped]
        simp only [zero,ne_eq,not_true_eq_false,iff_false]
        rintro ⟨sameYes,sameNo⟩
        simp only [yes,no] at sameYes sameNo
        by_cases here : g = w.server.generation
        · simp [here] at current behind
          omega
        · simp [here] at current behind
          omega
      · have positive : g > 0 := UInt64.pos_iff_ne_zero.mpr zero
        rw [if_pos positive]
        by_cases here : g = w.server.generation
        · simp [here] at current behind
          simp only [here,if_true,yes,no]
          rw [← here]
          simp [zero]
          rw [here]
          omega
        · simp [here] at current behind
          simp [here,yes,no,zero]
          omega

private theorem counted_setsData (data : Option Data) (generation : UInt64) (counted : w.Counted) :
    (World.mk (setData data generation w.server) w.ledger).Counted ↔
      ∀ c g, w.ledger.lookup c = some (some g) → g ≠ if generation = 0 then 1 else generation := by
  obtain ⟨yes,no⟩ := counted
  have acked (generation : UInt64) : tally (isCurrent generation) w.ledger + tally (isBehind generation) w.ledger =
      tally Option.isSome w.ledger := by
    apply tally_add
    intro last
    cases last with
    | none => rfl
    | some g => by_cases here : g = generation <;> simp [isCurrent,isBehind,here]
  have before := acked w.server.generation
  have after := acked (if generation = 0 then 1 else generation)
  have nobody : (∀ c g, w.ledger.lookup c = some (some g) → g ≠ if generation = 0 then 1 else generation) ↔
      tally (isCurrent (if generation = 0 then 1 else generation)) w.ledger = 0 := by
    rw [tally_eq_zero]
    constructor
    · intro other c last found
      cases last with
      | none => rfl
      | some g => simpa [isCurrent] using other c g found
    · intro none c g found
      simpa [isCurrent] using none c (some g) found
  rw [nobody,World.counted_iff]
  simp only [setData,yes,no]
  omega

private theorem counted_acknowledges (generation : UInt64) (known : w.Known) (counted : w.Counted) :
    InSync (step (some w) (.acknowledges c true generation)) ↔
      Accountable (some w) (.acknowledges c true generation) := by
  obtain ⟨yes,no⟩ := counted
  obtain ⟨current,behind⟩ := @tallies_insert _ w c w.server.generation (some generation)
  have entry := known c
  simp only [Accountable]
  cases found : w.ledger.lookup c with
  | none =>
    have absent : w.server.info.lookup c = none := by simpa [found] using entry
    simp [step,World.step,apply,acknowledged,absent,InSync]
  | some last =>
    rw [found] at entry
    obtain ⟨val,stored,same⟩ := Option.map_eq_some_iff.mp entry
    obtain ⟨inYes,inNo⟩ := share_of_last found w.server.generation
    rw [inYes] at current
    rw [inNo] at behind
    simp only [step,World.step,apply,acknowledged,stored,record,Option.bind_some,Option.map_some,
      Bool.not_true,Bool.false_eq_true,if_false,inSync_iff,World.counted_iff]
    cases last with
    | none =>
      have fresh : val.generationAcknowledged = 0 := same
      rw [if_pos fresh]
      by_cases here : generation = w.server.generation
      · simp [here] at current behind
        simp [here,yes,no]
        omega
      · simp [here] at current behind
        simp [here,yes,no]
        omega
    | some g =>
      have last : val.generationAcknowledged = g := same
      rw [last]
      by_cases zero : g = 0
      · -- the entry reads as if nothing had been acknowledged, so the client is counted again
        rw [if_pos zero]
        have refused : ¬ (some (some g) = some none ∨ ∃ g', some (some g) = some (some g') ∧ g' ≠ 0 ∧
            (g' = w.server.generation → generation = g')) := by
          simp [zero]
        rw [iff_false_right refused]
        by_cases here : generation = w.server.generation
        · by_cases was : g = w.server.generation
          · simp [here,was] at current behind
            simp [here,yes,no]
            omega
          · simp [here,was] at current behind
            simp [here,yes,no]
            omega
        · by_cases was : g = w.server.generation
          · simp [here,was] at current behind
            simp [here,yes,no]
            omega
          · simp [here,was] at current behind
            simp [here,yes,no]
            omega
      · rw [if_neg zero]
        by_cases here : generation = w.server.generation
        · by_cases was : g = w.server.generation
          · simp [here,was] at current behind
            simp [here,was,yes,no,was ▸ zero]
            omega
          · simp [here,was] at current behind
            simp [here,was,yes,no,zero,Ne.symm was]
            omega
        · by_cases was : g = w.server.generation
          · simp [here,was] at current behind
            simp [here,was,yes,no,was ▸ zero]
            omega
          · simp [here,was] at current behind
            simp [here,was,yes,no,zero]
            omega

/-- A single event keeps the accounting right exactly if it is accountable. -/
theorem inSync_step (known : w.Known) (counted : w.Counted) (e : Event Data) :
    InSync (step (some w) e) ↔ Accountable (some w) e := by
  cases e with
  | opens c pid => exact inSync_iff.trans (counted_opens pid counted)
  | fetches c =>
    have same := known.mem (c := c)
    cases stored : w.server.info.lookup c with
    | none =>
      have closed : c ∉ w.ledger := fun member =>
        absurd (AList.lookup_isSome.mpr (same.mpr member)) (by simp [stored])
      simp [step,World.step,apply,getData,stored,InSync,Accountable,closed]
    | some val =>
      have opened : c ∈ w.ledger := same.mp (AList.lookup_isSome.mp (by simp [stored]))
      simp only [step,World.step,apply,getData,stored,Option.bind_some,Option.map_some,inSync_iff,Accountable,
        opened,iff_true]
      exact ⟨counted.yes,counted.no⟩
  | acknowledges c entitled generation =>
    cases entitled with
    | false =>
      simp only [step,World.step,apply,acknowledged,Accountable,iff_true]
      exact inSync_iff.mpr counted
    | true => exact counted_acknowledges generation known counted
  | setsData data generation => exact inSync_iff.trans (counted_setsData data generation counted)
  | closes c => exact inSync_iff.trans (counted_closes known counted)

/-! ## Runs -/

private theorem known_insert {server : Server Data} {val : ClientVal} {last : Option UInt64} (known : w.Known)
    (same : val.generationAcknowledged = last.getD 0) (written : server.info = w.server.info.insert c val) :
    (World.mk server (w.ledger.insert c last)).Known := by
  intro d
  simp only [written]
  by_cases here : d = c
  · subst here
    simp [same]
  · simp only [AList.lookup_insert_ne here]
    exact known d

private theorem known_step {next : World Data} (known : w.Known) (e : Event Data) (stepped : w.step e = some next) :
    next.Known := by
  obtain ⟨server,applied,rfl⟩ := Option.map_eq_some_iff.mp stepped
  cases e with
  | opens c pid =>
    obtain rfl := Option.some.inj applied
    exact known_insert known rfl rfl
  | fetches c =>
    obtain ⟨⟨answer,t⟩,fetched,rfl⟩ := Option.map_eq_some_iff.mp applied
    unfold getData at fetched
    split at fetched
    · cases fetched
    · rename_i val stored
      obtain ⟨_,rfl⟩ := Prod.mk.inj (Option.some.inj fetched)
      intro d
      by_cases here : d = c
      · subst here
        simpa [record,stored] using known d
      · simpa only [record,AList.lookup_insert_ne here] using known d
  | acknowledges c entitled generation =>
    obtain ⟨⟨updated,t⟩,acked,rfl⟩ := Option.map_eq_some_iff.mp applied
    unfold acknowledged at acked
    cases entitled with
    | false =>
      obtain ⟨_,rfl⟩ := Prod.mk.inj (Option.some.inj acked)
      exact known
    | true =>
      simp only [Bool.not_true,Bool.false_eq_true,if_false] at acked
      split at acked
      · cases acked
      · rename_i val stored
        obtain ⟨_,rfl⟩ := Prod.mk.inj (Option.some.inj acked)
        refine @known_insert _ w c _ {val with generationAcknowledged := generation} (some generation) known rfl ?_
        split
        · split <;> rfl
        · split <;> rfl
  | setsData data generation =>
    obtain rfl := Option.some.inj applied
    exact known
  | closes c =>
    obtain rfl := Option.some.inj applied
    have erased : (close c w.server).2.info = w.server.info.erase c := by
      unfold close
      cases stored : w.server.info.lookup c with
      | none => rfl
      | some val =>
        simp only []
        by_cases acked : val.generationAcknowledged > 0
        · rw [if_pos acked]
          split <;> rfl
        · rw [if_neg acked]
    intro d
    simp only [erased,record]
    by_cases here : d = c
    · subst here
      simp
    · simp only [AList.lookup_erase_ne here]
      exact known d

/-- The accounting holds in every state of a run exactly if every event of it
is accountable. -/
theorem inSync_along_iff (events : List (Event Data)) :
    Runs.Along step InSync start events ↔ Runs.Meets step Accountable start events := by
  apply Runs.along_iff_meets (I := fun s => ∀ w, s = some w → World.Known w) (P := InSync)
  · rintro s e known next stepped
    obtain ⟨w,rfl,stepped⟩ := Option.bind_eq_some_iff.mp stepped
    exact known_step (known w rfl) e stepped
  · rintro (_ | w) e known holds guarded
    · exact guarded
    · exact (inSync_step (known w rfl) (inSync_iff.mp holds) e).mpr guarded
  · rintro (_ | w) e known holds after
    · exact holds
    · exact (inSync_step (known w rfl) (inSync_iff.mp holds) e).mp after
  · exact fun _ _ => id
  · rintro w same
    obtain rfl := Option.some.inj same
    intro c
    rfl
  · apply inSync_iff.mpr
    exact ⟨rfl,rfl⟩

/-- A client acknowledges the current generation and then an older one: it is
behind, and still counted as in sync. -/
theorem stale_stays_inSync :
    ¬ Runs.Along step InSync start [.opens 1 100,.setsData (some ()) 5,.acknowledges 1 true 5,.acknowledges 1 true 4] := by
  intro along
  have last := along.last
  obtain ⟨_,told⟩ := last
  have behind := told.mp (by decide) 1 4 (by decide)
  revert behind
  decide

end FreebsdLaunchd.InfoServer
