import Mathlib.Logic.Relation
import Mathlib.Data.List.Basic

/-! Extended regular expressions over the characters of a text: what an expression
spans in a text, and what becomes of an alternation when its first branch is
anchored at the start of the text and its last branch at the end. -/
namespace Expressions

/-- What the locale decides: the characters of a bracket expression. -/
structure CharLocale where
  bracket : List Char → Char → Prop

def nul : Char := Char.ofNat 0

inductive Expression
  | char (c : Char)
  | any
  | bracket (text : List Char)
  | caret
  | dollar
  | empty
  | nothing
  | seq (first second : Expression)
  | alt (left right : Expression)
  | repeated (e : Expression) (least : Nat) (most : Option Nat)
  deriving DecidableEq

abbrev Branch := List Expression

def sequence (b : Branch) : Expression := b.foldr .seq .empty

def alternation (bs : List Branch) : Expression := bs.foldr (fun b => .alt (sequence b)) .nothing

variable (locale : CharLocale) (text : List Char)

def Nowhere (i j : Nat) : Prop := i = j ∧ i ≤ text.length

def times (span : Nat → Nat → Prop) : Nat → Nat → Nat → Prop
  | 0 => Nowhere text
  | n+1 => Relation.Comp span (times span n)

/-- The places between which an expression matches. A text has no terminator among
its characters, and no expression matches one. -/
def Expression.Spans : Expression → Nat → Nat → Prop
  | .char c => fun i j => text[i]? = some c ∧ c ≠ nul ∧ j = i+1
  | .any => fun i j => (∃ c, text[i]? = some c ∧ c ≠ nul) ∧ j = i+1
  | .bracket inside => fun i j => (∃ c, text[i]? = some c ∧ c ≠ nul ∧ locale.bracket inside c) ∧ j = i+1
  | .caret => fun i j => i = 0 ∧ j = 0
  | .dollar => fun i j => i = text.length ∧ j = text.length
  | .empty => Nowhere text
  | .nothing => fun _ _ => False
  | .seq first second => Relation.Comp first.Spans second.Spans
  | .alt left right => fun i j => left.Spans i j ∨ right.Spans i j
  | .repeated e least most => fun i j => ∃ n, least ≤ n ∧ (∀ m ∈ most, n ≤ m) ∧ times text e.Spans n i j

def Found (bs : List Branch) : Prop := ∃ i j, (alternation bs).Spans locale text i j

def Whole (bs : List Branch) : Prop := (alternation bs).Spans locale text 0 text.length

variable {locale text} {e : Expression} {b : Branch} {bs : List Branch} {i j : Nat}

theorem alternation_spans :
    (alternation bs).Spans locale text i j ↔ ∃ b ∈ bs, (sequence b).Spans locale text i j := by
  induction bs with
  | nil => simp [alternation,Expression.Spans]
  | cons b rest ih =>
    have onward : alternation (b::rest) = .alt (sequence b) (alternation rest) := rfl
    simp [onward,Expression.Spans,ih]

/-- What is spanned lies in the text and has no terminator. -/
structure Within (text : List Char) (i j : Nat) : Prop where
  ordered : i ≤ j
  inside : j ≤ text.length
  clean : ∀ m c, i ≤ m → m < j → text[m]? = some c → c ≠ nul

theorem Within.nowhere (here : Nowhere text i j) : Within text i j := by
  obtain ⟨rfl,inside⟩ := here
  exact ⟨Nat.le_refl i,inside,fun m _ after before => absurd before (Nat.not_lt.mpr after)⟩

theorem Within.one {c : Char} (here : text[i]? = some c) (clean : c ≠ nul) : Within text i (i+1) := by
  obtain ⟨inside,_⟩ := List.getElem?_eq_some_iff.mp here
  refine ⟨Nat.le_succ i,inside,fun m d after before there => ?_⟩
  obtain rfl : m = i := by omega
  cases here.symm.trans there
  exact clean

theorem Within.trans {m : Nat} (first : Within text i m) (second : Within text m j) : Within text i j := by
  refine ⟨Nat.le_trans first.ordered second.ordered,second.inside,fun k c after before here => ?_⟩
  rcases Nat.lt_or_ge k m with early | late
  · exact first.clean k c after early here
  · exact second.clean k c late before here

theorem times_within {span : Nat → Nat → Prop} (each : ∀ i j, span i j → Within text i j) (n : Nat)
    (here : times text span n i j) : Within text i j := by
  induction n generalizing i with
  | zero => exact .nowhere here
  | succ n ih =>
    obtain ⟨m,first,rest⟩ := here
    exact (each i m first).trans (ih rest)

theorem Expression.Spans.within (spans : e.Spans locale text i j) : Within text i j := by
  induction e generalizing i j with
  | char c =>
    obtain ⟨here,clean,rfl⟩ := spans
    exact .one here clean
  | any =>
    obtain ⟨⟨c,here,clean⟩,rfl⟩ := spans
    exact .one here clean
  | bracket inside =>
    obtain ⟨⟨c,here,clean,_⟩,rfl⟩ := spans
    exact .one here clean
  | caret =>
    obtain ⟨rfl,rfl⟩ := spans
    exact .nowhere ⟨rfl,Nat.zero_le _⟩
  | dollar =>
    obtain ⟨rfl,rfl⟩ := spans
    exact .nowhere ⟨rfl,Nat.le_refl _⟩
  | empty => exact .nowhere spans
  | nothing => exact spans.elim
  | seq first second ih ih' =>
    obtain ⟨m,before,after⟩ := spans
    exact (ih before).trans (ih' after)
  | alt left right ih ih' =>
    rcases spans with spans | spans
    · exact ih spans
    · exact ih' spans
  | repeated e least most ih =>
    obtain ⟨n,_,_,spans⟩ := spans
    exact times_within (fun _ _ => ih) n spans

theorem Whole.clean (whole : Whole locale text bs) : nul ∉ text := by
  intro member
  obtain ⟨m,bound,here⟩ := List.mem_iff_getElem.mp member
  exact Expression.Spans.within whole |>.clean m nul (Nat.zero_le m) bound (List.getElem?_eq_some_iff.mpr ⟨bound,here⟩) rfl

/-! ## Anchors -/

theorem sequence_append (b b' : Branch) :
    (sequence (b ++ b')).Spans locale text i j ↔
      ∃ m, (sequence b).Spans locale text i m ∧ (sequence b').Spans locale text m j := by
  induction b generalizing i with
  | nil =>
    constructor
    · intro spans
      exact ⟨i,⟨rfl,Nat.le_trans spans.within.ordered spans.within.inside⟩,spans⟩
    · rintro ⟨m,⟨rfl,_⟩,spans⟩
      exact spans
  | cons e rest ih =>
    constructor
    · rintro ⟨m,first,spans⟩
      obtain ⟨m',middle,last⟩ := ih.mp spans
      exact ⟨m',⟨m,first,middle⟩,last⟩
    · rintro ⟨m',⟨m,first,middle⟩,last⟩
      exact ⟨m,first,ih.mpr ⟨m',middle,last⟩⟩

theorem caret_spans : (sequence (.caret::b)).Spans locale text i j ↔ (sequence b).Spans locale text i j ∧ i = 0 := by
  constructor
  · rintro ⟨m,⟨rfl,rfl⟩,spans⟩
    exact ⟨spans,rfl⟩
  · rintro ⟨spans,rfl⟩
    exact ⟨0,⟨rfl,rfl⟩,spans⟩

theorem dollar_spans :
    (sequence (b ++ [.dollar])).Spans locale text i j ↔ (sequence b).Spans locale text i j ∧ j = text.length := by
  rw [sequence_append]
  constructor
  · rintro ⟨m,spans,m',⟨rfl,rfl⟩,rfl,_⟩
    exact ⟨spans,rfl⟩
  · rintro ⟨spans,rfl⟩
    exact ⟨_,spans,_,⟨rfl,rfl⟩,rfl,Nat.le_refl _⟩

def led : List Branch → List Branch
  | [] => []
  | b::rest => (.caret::b)::rest

def trailed : List Branch → List Branch
  | [] => []
  | [b] => [b ++ [.dollar]]
  | b::rest => b::trailed rest

def Leads (bs : List Branch) : Prop := ∃ b rest, bs = (.caret::b)::rest

def Trails (bs : List Branch) : Prop := ∃ rest b, bs = rest ++ [b ++ [.dollar]]

@[simp] theorem length_led (bs : List Branch) : (led bs).length = bs.length := by
  cases bs <;> rfl

theorem trailed_append (rest : List Branch) (b : Branch) : trailed (rest ++ [b]) = rest ++ [b ++ [.dollar]] := by
  induction rest with
  | nil => rfl
  | cons c rest ih =>
    cases rest with
    | nil => rfl
    | cons d rest =>
      rw [List.cons_append,List.cons_append,trailed,← List.cons_append,ih]
      · rfl
      · simp

/-- A branch matches where `place` allows it: the branch is given by its number. -/
def FoundAt (locale : CharLocale) (text : List Char) (place : Nat → Nat → Nat → Prop) (bs : List Branch) : Prop :=
  ∃ n b i j, bs[n]? = some b ∧ (sequence b).Spans locale text i j ∧ place n i j

/-- The first branch is held at the start of the text, the last at its end. -/
def Bounded (locale : CharLocale) (text : List Char) (bs : List Branch) : Prop :=
  FoundAt locale text (fun n i j => (n = 0 → i = 0) ∧ (n+1 = bs.length → j = text.length)) bs

theorem found_iff : Found locale text bs ↔ FoundAt locale text (fun _ _ _ => True) bs := by
  constructor
  · rintro ⟨i,j,spans⟩
    obtain ⟨b,member,spans⟩ := alternation_spans.mp spans
    obtain ⟨n,here⟩ := List.mem_iff_getElem?.mp member
    exact ⟨n,b,i,j,here,spans,trivial⟩
  · rintro ⟨n,b,i,j,here,spans,_⟩
    exact ⟨i,j,alternation_spans.mpr ⟨b,List.mem_of_getElem? here,spans⟩⟩

variable {place : Nat → Nat → Nat → Prop}

theorem foundAt_led :
    FoundAt locale text place (led bs) ↔ FoundAt locale text (fun n i j => place n i j ∧ (n = 0 → i = 0)) bs := by
  cases bs with
  | nil => simp [led,FoundAt]
  | cons b rest =>
    constructor
    · rintro ⟨n,c,i,j,here,spans,allowed⟩
      cases n with
      | zero =>
        cases here
        obtain ⟨spans,start⟩ := caret_spans.mp spans
        exact ⟨0,b,i,j,rfl,spans,allowed,fun _ => start⟩
      | succ n => exact ⟨n+1,c,i,j,here,spans,allowed,fun first => (by cases first)⟩
    · rintro ⟨n,c,i,j,here,spans,allowed,start⟩
      cases n with
      | zero =>
        cases here
        exact ⟨0,_,i,j,rfl,caret_spans.mpr ⟨spans,start rfl⟩,allowed⟩
      | succ n => exact ⟨n+1,c,i,j,here,spans,allowed⟩

theorem foundAt_leads (leads : Leads bs) :
    FoundAt locale text place bs ↔ FoundAt locale text (fun n i j => place n i j ∧ (n = 0 → i = 0)) bs := by
  obtain ⟨b,rest,rfl⟩ := leads
  have same : (Expression.caret::b)::rest = led (b::rest) := rfl
  rw [same,foundAt_led,foundAt_led]
  simp only [and_assoc,and_self]

theorem getElem?_snoc {rest : List Branch} {b c : Branch} {n : Nat} :
    (rest ++ [b])[n]? = some c ↔ n < rest.length ∧ rest[n]? = some c ∨ n = rest.length ∧ c = b := by
  rcases Nat.lt_trichotomy n rest.length with early | rfl | late
  · simp [List.getElem?_append_left early,early,Nat.ne_of_lt early]
  · simp [eq_comm]
  · rw [List.getElem?_append_right (Nat.le_of_lt late),List.getElem?_eq_none (by simp; omega)]
    simp [Nat.not_lt_of_gt late,Nat.ne_of_gt late]

theorem foundAt_trailed :
    FoundAt locale text place (trailed bs) ↔
      FoundAt locale text (fun n i j => place n i j ∧ (n+1 = bs.length → j = text.length)) bs := by
  rcases List.eq_nil_or_concat bs with rfl | ⟨rest,b,same⟩
  · simp [trailed,FoundAt]
  · rw [List.concat_eq_append] at same
    subst same
    have last (n : Nat) : n+1 = (rest ++ [b]).length ↔ n = rest.length := by simp
    rw [trailed_append]
    simp only [FoundAt,getElem?_snoc,last]
    constructor
    · rintro ⟨n,c,i,j,⟨early,here⟩ | ⟨rfl,rfl⟩,spans,allowed⟩
      · exact ⟨n,c,i,j,.inl ⟨early,here⟩,spans,allowed,fun late => absurd late (Nat.ne_of_lt early)⟩
      · obtain ⟨spans,stop⟩ := dollar_spans.mp spans
        exact ⟨_,b,i,j,.inr ⟨rfl,rfl⟩,spans,allowed,fun _ => stop⟩
    · rintro ⟨n,c,i,j,⟨early,here⟩ | ⟨rfl,rfl⟩,spans,allowed,stop⟩
      · exact ⟨n,c,i,j,.inl ⟨early,here⟩,spans,allowed⟩
      · exact ⟨_,_,i,j,.inr ⟨rfl,rfl⟩,dollar_spans.mpr ⟨spans,stop rfl⟩,allowed⟩

theorem foundAt_trails (trails : Trails bs) :
    FoundAt locale text place bs ↔
      FoundAt locale text (fun n i j => place n i j ∧ (n+1 = bs.length → j = text.length)) bs := by
  obtain ⟨rest,b,rfl⟩ := trails
  have sizes : (rest ++ [b ++ [Expression.dollar]]).length = (rest ++ [b]).length := by simp
  rw [sizes,← trailed_append,foundAt_trailed,foundAt_trailed]
  simp only [and_assoc,and_self]

/-- Anchors added at both ends, except where there is one already. -/
def Anchored (bs bs' : List Branch) : Prop :=
  ∃ middle, (middle = led bs ∨ middle = bs ∧ Leads bs) ∧ (bs' = trailed middle ∨ bs' = middle ∧ Trails middle)

theorem Anchored.found {bs' : List Branch} (anchored : Anchored bs bs') :
    Found locale text bs' ↔ Bounded locale text bs := by
  obtain ⟨middle,front,back⟩ := anchored
  have sizes : middle.length = bs.length := by
    rcases front with rfl | ⟨rfl,_⟩
    · exact length_led bs
    · rfl
  have held : Found locale text bs' ↔ FoundAt locale text (fun n _ j => True ∧ (n+1 = bs.length → j = text.length)) middle := by
    rw [found_iff,← sizes]
    rcases back with rfl | ⟨rfl,trails⟩
    · exact foundAt_trailed
    · exact foundAt_trails trails
  rw [held]
  rcases front with rfl | ⟨rfl,leads⟩
  · rw [foundAt_led]
    simp [Bounded,and_comm]
  · rw [foundAt_leads leads]
    simp [Bounded,and_comm]

/-- With one branch, the anchors hold the whole text. -/
theorem bounded_one : Bounded locale text [b] ↔ Whole locale text [b] := by
  rw [Whole,alternation_spans]
  constructor
  · rintro ⟨n,c,i,j,here,spans,start,stop⟩
    cases n with
    | zero =>
      cases here
      obtain rfl := start rfl
      obtain rfl := stop rfl
      exact ⟨b,List.mem_singleton.mpr rfl,spans⟩
    | succ n => simp at here
  · rintro ⟨c,member,spans⟩
    cases List.mem_singleton.mp member
    exact ⟨0,b,0,text.length,rfl,spans,fun _ => rfl,fun _ => rfl⟩

/-- The anchors keep every text that matches as a whole. -/
theorem Whole.bounded (whole : Whole locale text bs) : Bounded locale text bs := by
  obtain ⟨b,member,spans⟩ := alternation_spans.mp whole
  obtain ⟨n,here⟩ := List.mem_iff_getElem?.mp member
  exact ⟨n,b,0,text.length,here,spans,fun _ => rfl,fun _ => rfl⟩

end Expressions
