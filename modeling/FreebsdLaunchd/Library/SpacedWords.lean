import Mathlib.Data.List.Infix

/-! Texts as words with separators around them. A text that is split at every separator
has an empty piece for each separator too many; the pieces that are not empty are the words. -/
namespace SpacedWords

variable {α : Type*}

/-- A text taken apart: what is before the first word, and the words, each with what follows it. -/
structure Spaced (sep : α → Bool) where
  lead : List α
  words : List (List α × List α)
  leading : ∀ a ∈ lead, sep a
  proper : ∀ w ∈ words, w.1 ≠ [] ∧ (∀ a ∈ w.1, sep a = false) ∧ ∀ a ∈ w.2, sep a
  between : ∀ w ∈ words.dropLast, w.2 ≠ []

def textOf (words : List (List α × List α)) : List α := words.flatMap fun w => w.1 ++ w.2

variable {sep : α → Bool} {gap word later : List α} {w : List α × List α} {words rest : List (List α × List α)} {b : α}

namespace Spaced

def text (s : Spaced sep) : List α := s.lead ++ textOf s.words

def trail (s : Spaced sep) : List α :=
  match s.words.getLast? with
  | some w => w.2
  | none => s.lead

/-- The separators between the words are others, and there may be more behind the last word. -/
structure Respaced (s s' : Spaced sep) : Prop where
  words : s'.words.map Prod.fst = s.words.map Prod.fst
  lead : s.words ≠ [] → s'.lead = s.lead
  trail : s.trail <+: s'.trail

end Spaced

/-! ## Splitting -/

theorem splitOnP_plain (list : List α) : ∀ piece ∈ list.splitOnP sep, ∀ a ∈ piece, sep a = false := by
  induction list with
  | nil => simp
  | cons a list ih =>
    rw [List.splitOnP_cons_eq_if_modifyHead]
    obtain ⟨first,rest,split⟩ := List.exists_cons_of_ne_nil (List.splitOnP_ne_nil sep list)
    rw [split] at ih ⊢
    obtain ⟨head,tail⟩ := List.forall_mem_cons.mp ih
    cases kind : sep a with
    | true => simpa using ih
    | false => exact List.forall_mem_cons.mpr ⟨List.forall_mem_cons.mpr ⟨kind,head⟩,tail⟩

theorem splitOnP_gap (separates : ∀ a ∈ gap, sep a) (later : List α) :
    (gap ++ later).splitOnP sep = List.replicate gap.length [] ++ later.splitOnP sep := by
  induction gap with
  | nil => rfl
  | cons a gap ih =>
    obtain ⟨first,separates⟩ := List.forall_mem_cons.mp separates
    have split := List.splitOnP_append_cons_of_forall_mem (List.forall_mem_nil (sep · = false)) a first (gap ++ later)
    rw [List.cons_append,← List.nil_append (a::_),split,ih separates]
    rfl

theorem splitOnP_word (plain : ∀ a ∈ word, sep a = false) (some_ : gap ≠ []) (separates : ∀ a ∈ gap, sep a)
    (later : List α) :
    (word ++ gap ++ later).splitOnP sep = word::(List.replicate (gap.length - 1) [] ++ later.splitOnP sep) := by
  obtain ⟨a,gap,rfl⟩ := List.exists_cons_of_ne_nil some_
  obtain ⟨first,separates⟩ := List.forall_mem_cons.mp separates
  rw [List.append_assoc,List.cons_append,List.splitOnP_append_cons_of_forall_mem plain a first,splitOnP_gap separates]
  rfl

theorem splitOnP_last (plain : ∀ a ∈ word, sep a = false) (separates : ∀ a ∈ gap, sep a) :
    (word ++ gap).splitOnP sep = word::List.replicate gap.length [] := by
  cases gap with
  | nil => simp [List.splitOnP_eq_singleton plain]
  | cons a gap =>
    have split := splitOnP_word plain (List.cons_ne_nil a gap) separates []
    rw [List.append_nil] at split
    rw [split,List.splitOnP_nil,List.length_cons,Nat.add_sub_cancel,← List.replicate_succ']

/-- The words with as many empty pieces as there are separators too many. -/
def pieces : List (List α × List α) → List (List α)
  | [] => []
  | [w] => w.1::List.replicate w.2.length []
  | w::rest => w.1::(List.replicate (w.2.length - 1) [] ++ pieces rest)

theorem pieces_cons (w : List α × List α) (rest : List (List α × List α)) :
    pieces (w::rest) = w.1::(pieces (w::rest)).tail := by
  cases rest with
  | nil => rfl
  | cons w' rest => rfl

theorem splitOnP_textOf (some_ : words ≠ [])
    (proper : ∀ w ∈ words, w.1 ≠ [] ∧ (∀ a ∈ w.1, sep a = false) ∧ ∀ a ∈ w.2, sep a)
    (between : ∀ w ∈ words.dropLast, w.2 ≠ []) : (textOf words).splitOnP sep = pieces words := by
  induction words with
  | nil => exact absurd rfl some_
  | cons w rest ih =>
    obtain ⟨⟨_,plain,separates⟩,proper⟩ := List.forall_mem_cons.mp proper
    cases rest with
    | nil => simp [textOf,pieces,splitOnP_last plain separates]
    | cons w' rest =>
      rw [List.dropLast_cons_of_ne_nil (List.cons_ne_nil _ _)] at between
      obtain ⟨first,between⟩ := List.forall_mem_cons.mp between
      rw [textOf,List.flatMap_cons,splitOnP_word plain first separates,← textOf,ih (List.cons_ne_nil _ _) proper between]
      rfl

theorem filter_replicate_nil (n : Nat) : (List.replicate n ([] : List α)).filter (· ≠ []) = [] :=
  List.filter_eq_nil_iff.mpr fun piece member => by simp [List.eq_of_mem_replicate member]

theorem filter_pieces (proper : ∀ w ∈ words, w.1 ≠ []) : (pieces words).filter (· ≠ []) = words.map Prod.fst := by
  induction words with
  | nil => rfl
  | cons w rest ih =>
    obtain ⟨first,proper⟩ := List.forall_mem_cons.mp proper
    cases rest with
    | nil => rw [pieces,List.filter_cons_of_pos (by simpa using first),filter_replicate_nil]; rfl
    | cons w' rest =>
      rw [pieces,List.filter_cons_of_pos (by simpa using first),List.filter_append,filter_replicate_nil,ih proper]
      · rfl
      · exact List.cons_ne_nil _ _

/-! ## Other separators -/

/-- One separator between two words, `n` more behind the first word and `m` more behind the last. -/
def regap (b : α) (m : Nat) : Nat → List (List α × List α) → List (List α × List α)
  | _, [] => []
  | _, [w] => [(w.1,w.2 ++ List.replicate m b)]
  | n, w::w'::rest => (w.1,List.replicate (n+1) b)::regap b m 0 (w'::rest)

theorem map_regap (b : α) (m n : Nat) (words : List (List α × List α)) :
    (regap b m n words).map Prod.fst = words.map Prod.fst := by
  induction words generalizing n with
  | nil => rfl
  | cons w rest ih =>
    cases rest with
    | nil => rfl
    | cons w' rest => exact congrArg (w.1::·) (ih 0)

theorem regap_cons (b : α) (m n : Nat) (w : List α × List α) (rest : List (List α × List α)) :
    ∃ w' rest', regap b m n (w::rest) = w'::rest' := by
  cases rest with
  | nil => exact ⟨_,[],rfl⟩
  | cons w' rest => exact ⟨_,_,rfl⟩

theorem getLast?_regap (b : α) (m n : Nat) (words : List (List α × List α)) :
    (regap b m n words).getLast? = words.getLast?.map fun w => (w.1,w.2 ++ List.replicate m b) := by
  induction words generalizing n with
  | nil => rfl
  | cons w rest ih =>
    cases rest with
    | nil => rfl
    | cons w' rest =>
      have last := ih 0
      obtain ⟨v,vs,same⟩ := regap_cons b m 0 w' rest
      rw [same] at last
      rw [regap,same,List.getLast?_cons_cons,last,List.getLast?_cons_cons]

/-- With other separators the words are followed by the separators that were behind the last. -/
theorem pieces_regap (b : α) (m n : Nat) (w w' : List α × List α) (rest : List (List α × List α)) :
    ∃ k, pieces (regap b m n (w::w'::rest)) =
      w.1::(List.replicate n [] ++ ((w'::rest).map Prod.fst ++ List.replicate k [])) := by
  induction rest generalizing n w w' with
  | nil => exact ⟨w'.2.length + m,by simp [regap,pieces]⟩
  | cons w'' rest ih =>
    obtain ⟨k,later⟩ := ih 0 w' w''
    obtain ⟨v,vs,same⟩ := regap_cons b m 0 w' (w''::rest)
    rw [same] at later
    refine ⟨k,?_⟩
    rw [regap,same,pieces,later]
    · simp
    · exact List.cons_ne_nil _ _

theorem regap_proper (separator : sep b) (m n : Nat)
    (proper : ∀ w ∈ words, w.1 ≠ [] ∧ (∀ a ∈ w.1, sep a = false) ∧ ∀ a ∈ w.2, sep a) :
    ∀ w ∈ regap b m n words, w.1 ≠ [] ∧ (∀ a ∈ w.1, sep a = false) ∧ ∀ a ∈ w.2, sep a := by
  have added {n : Nat} : ∀ a ∈ List.replicate n b, sep a := fun a member => List.eq_of_mem_replicate member ▸ separator
  induction words generalizing n with
  | nil => simp [regap]
  | cons w rest ih =>
    obtain ⟨⟨some_,plain,separates⟩,proper⟩ := List.forall_mem_cons.mp proper
    cases rest with
    | nil =>
      have behind : ∀ a ∈ w.2 ++ List.replicate m b, sep a := List.forall_mem_append.mpr ⟨separates,added⟩
      exact List.forall_mem_cons.mpr ⟨⟨some_,plain,behind⟩,by simp⟩
    | cons w' rest => exact List.forall_mem_cons.mpr ⟨⟨some_,plain,added⟩,ih 0 proper⟩

theorem regap_between (b : α) (m n : Nat) (words : List (List α × List α)) :
    ∀ w ∈ (regap b m n words).dropLast, w.2 ≠ [] := by
  induction words generalizing n with
  | nil => simp [regap]
  | cons w rest ih =>
    cases rest with
    | nil => simp [regap]
    | cons w' rest =>
      have later := ih 0
      obtain ⟨v,vs,same⟩ := regap_cons b m 0 w' rest
      rw [same] at later
      rw [regap,same,List.dropLast_cons_of_ne_nil (List.cons_ne_nil _ _)]
      exact List.forall_mem_cons.mpr ⟨by simp,later⟩

namespace Spaced

variable {s s' : Spaced sep}

/-- The text with one separator between two words, `n` more behind the first word and `m` more behind the last. -/
def regapped (s : Spaced sep) (separator : sep b) (m n : Nat) : Spaced sep where
  lead := s.lead
  words := regap b m n s.words
  leading := s.leading
  proper := regap_proper separator m n s.proper
  between := regap_between b m n s.words

theorem respaced_regapped (s : Spaced sep) (separator : sep b) (m n : Nat) : s.Respaced (s.regapped separator m n) where
  words := map_regap b m n s.words
  lead _ := rfl
  trail := by
    rw [trail,trail,regapped,getLast?_regap]
    cases s.words.getLast? with
    | none => exact List.prefix_rfl
    | some w => exact List.prefix_append w.2 _

theorem splitOnP_text (s : Spaced sep) : s.text.splitOnP sep =
    if s.words = [] then List.replicate (s.lead.length + 1) [] else List.replicate s.lead.length [] ++ pieces s.words := by
  rw [text,splitOnP_gap s.leading]
  split
  next none => rw [none,textOf,List.flatMap_nil,List.splitOnP_nil,List.replicate_succ']
  next some_ => rw [splitOnP_textOf some_ s.proper s.between]

/-- Any text is one of words and separators. -/
theorem exists_text (sep : α → Bool) (list : List α) : ∃ s : Spaced sep, s.text = list := by
  induction list with
  | nil => exact ⟨⟨[],[],by simp,by simp,by simp⟩,rfl⟩
  | cons a list ih =>
    obtain ⟨⟨lead,words,leading,proper,between⟩,rfl⟩ := ih
    cases kind : sep a with
    | true => exact ⟨⟨a::lead,words,List.forall_mem_cons.mpr ⟨kind,leading⟩,proper,between⟩,rfl⟩
    | false =>
      cases words with
      | nil =>
        exact ⟨⟨[],[([a],lead)],by simp,by simpa [kind] using leading,by simp⟩,by simp [text,textOf]⟩
      | cons w rest =>
        obtain ⟨⟨some_,plain,separates⟩,proper'⟩ := List.forall_mem_cons.mp proper
        by_cases first : lead = []
        · -- the character belongs to the first word
          subst first
          refine ⟨⟨[],(a::w.1,w.2)::rest,by simp,List.forall_mem_cons.mpr ⟨⟨by simp,?_,separates⟩,proper'⟩,?_⟩,by simp [text,textOf]⟩
          · exact List.forall_mem_cons.mpr ⟨kind,plain⟩
          · cases rest with
            | nil => simp
            | cons w' rest =>
              rw [List.dropLast_cons_of_ne_nil (List.cons_ne_nil _ _)] at between ⊢
              exact List.forall_mem_cons.mpr (List.forall_mem_cons.mp between)
        · refine ⟨⟨[],([a],lead)::w::rest,by simp,List.forall_mem_cons.mpr ⟨⟨by simp,by simp [kind],leading⟩,proper⟩,?_⟩,
            by simp [text,textOf]⟩
          rw [List.dropLast_cons_of_ne_nil (List.cons_ne_nil _ _)]
          exact List.forall_mem_cons.mpr ⟨first,between⟩

theorem mem_text {a : α} (plain : sep a = false) : a ∈ s.text ↔ ∃ word ∈ s.words.map Prod.fst, a ∈ word := by
  rw [text,textOf,List.mem_append,List.mem_flatMap]
  constructor
  · rintro (inside | ⟨w,member,there⟩)
    · exact absurd (s.leading a inside) (by simp [plain])
    · rcases List.mem_append.mp there with inside | behind
      · exact ⟨w.1,List.mem_map_of_mem member,inside⟩
      · exact absurd ((s.proper w member).2.2 a behind) (by simp [plain])
  · rintro ⟨_,there,inside⟩
    obtain ⟨w,member,rfl⟩ := List.mem_map.mp there
    exact .inr ⟨w,member,List.mem_append_left _ inside⟩

theorem Respaced.mem_text (same : s.Respaced s') {a : α} (plain : sep a = false) : a ∈ s'.text ↔ a ∈ s.text := by
  rw [Spaced.mem_text plain,Spaced.mem_text plain,same.words]

end Spaced

end SpacedWords
