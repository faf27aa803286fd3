import FreebsdLaunchd.Dnsinfo.Effective
import FreebsdLaunchd.Library.SpacedWords

/-! The content of a file as lines of words with white space around them, and what is
left of the white space in its directives: empty words. -/
namespace FreebsdLaunchd.Dnsinfo
open SpacedWords

abbrev Line := Spaced isSep

/-- The lines with a newline after each, which the last one may lack. -/
def fileText (lines : List Line) (newline : Bool) : List Char :=
  List.intercalate ['\n'] (lines.map Spaced.text) ++ (if newline then ['\n'] else [])

/-- The same words in the same lines, with other white space between the words of a line and
perhaps more behind the last one; the last newline may be dropped. -/
inductive Respaced : List Char → List Char → Prop
  | lines {lines lines' : List Line} {newline newline' : Bool} (same : List.Forall₂ Spaced.Respaced lines lines')
      (whole : ∀ line ∈ lines, '\n' ∉ line.text) (kept : newline' → newline) :
      Respaced (fileText lines newline) (fileText lines' newline')

def proper (words : List Word) : List Word := words.filter (· ≠ [])

/-- What other white space makes of a directive. -/
structure Loosened (d d' : Directive) : Prop where
  token : d'.1 = d.1
  words : proper d'.2 = proper d.2
  option : d.2 ≠ [] → d'.2 ≠ []

/-- One separator between two words, `n` more behind the token and `m` more at the end. -/
structure Regapped (m n : Nat) (d d' : Directive) : Prop where
  token : d'.1 = d.1
  bare : proper d.2 = [] → d'.2 = d.2 ++ List.replicate m []
  words : proper d.2 ≠ [] → ∃ k, d'.2 = List.replicate n [] ++ (proper d.2 ++ List.replicate k [])

def directivesOf (lines : List Line) : List Directive := lines.filterMap fun line => directive line.text

variable {line line' : Line} {lines lines' : List Line} {d d' : Directive} {words : List Word}

/-! ## The directives of a file -/

private theorem directive_nil : directive [] = none := by decide

/-- The empty line behind the last newline says nothing. -/
theorem filterMap_fileLines (content : List Char) :
    (fileLines content).filterMap directive = (content.splitOn '\n').filterMap directive := by
  simp only [fileLines]
  split
  next last =>
    obtain ⟨front,whole⟩ := List.getLast?_eq_some_iff.mp last
    rw [whole,List.dropLast_concat,List.filterMap_append]
    simp [directive_nil]
  next => rfl

private theorem splitOn_lines (whole : ∀ line ∈ lines, '\n' ∉ line.text) (some_ : lines ≠ []) :
    (List.intercalate ['\n'] (lines.map Spaced.text)).splitOn '\n' = lines.map Spaced.text := by
  apply List.splitOn_intercalate
  · intro text member
    obtain ⟨line,there,rfl⟩ := List.mem_map.mp member
    exact whole line there
  · simpa using some_

private theorem filterMap_splitOn (whole : ∀ line ∈ lines, '\n' ∉ line.text) :
    ((List.intercalate ['\n'] (lines.map Spaced.text)).splitOn '\n').filterMap directive = directivesOf lines := by
  by_cases none : lines = []
  · subst none
    simp [directivesOf,directive_nil]
  · rw [splitOn_lines whole none,List.filterMap_map]
    rfl

theorem filterMap_fileText (whole : ∀ line ∈ lines, '\n' ∉ line.text) (newline : Bool) :
    (fileLines (fileText lines newline)).filterMap directive = directivesOf lines := by
  rw [filterMap_fileLines,fileText]
  cases newline with
  | false =>
    rw [if_neg (by decide),List.append_nil]
    exact filterMap_splitOn whole
  | true =>
    rw [if_pos rfl,List.splitOn_append_cons_self,List.splitOn_nil,List.filterMap_append,filterMap_splitOn whole]
    simp [directive_nil]

theorem exists_lines (content : List Char) :
    ∃ lines : List Line, (∀ line ∈ lines, '\n' ∉ line.text) ∧ fileText lines false = content := by
  have each (line : List Char) : ∃ s : Line, s.text = line := Spaced.exists_text isSep line
  choose taken text using each
  have back : ((content.splitOn '\n').map taken).map Spaced.text = content.splitOn '\n' := by
    rw [List.map_map]
    exact List.map_id'' text _
  refine ⟨(content.splitOn '\n').map taken,?_,?_⟩
  · intro line member
    obtain ⟨piece,there,rfl⟩ := List.mem_map.mp member
    rw [text]
    intro newline
    have plain := splitOnP_plain content piece there '\n' newline
    simp at plain
  · rw [fileText,back,List.intercalate_splitOn]
    exact List.append_nil _

/-! ## The directive of a line -/

def headToken (word : Word) : Option Token := if word.head? = some ';' ∨ word.head? = some '#' then none else tokenOf word

private theorem headToken_nil : headToken [] = none := by decide

private theorem directive_of_split {text : List Char} {word : Word} (split : text.splitOnP isSep = word::words) :
    directive text = (headToken word).map fun token => (token,words) := by
  rw [directive,split]
  simp only [headToken]
  split <;> rfl

def tokenAt (line : Line) : Option Token :=
  if line.lead = [] then (line.words.map Prod.fst).head?.bind headToken else none

def arguments (line : Line) : List Word := (pieces line.words).tail

theorem directive_text (line : Line) : directive line.text = (tokenAt line).map fun token => (token,arguments line) := by
  have split := line.splitOnP_text
  rw [tokenAt,arguments]
  cases words : line.words with
  | nil =>
    rw [if_pos words,List.replicate_succ] at split
    simp [directive_of_split split,headToken_nil]
  | cons w rest =>
    rw [words,if_neg (List.cons_ne_nil _ _)] at split
    cases lead : line.lead with
    | nil =>
      rw [lead,pieces_cons] at split
      rw [if_pos rfl]
      exact directive_of_split split
    | cons a lead' =>
      rw [lead,List.length_cons,List.replicate_succ,List.cons_append] at split
      rw [directive_of_split split,headToken_nil,if_neg (List.cons_ne_nil _ _)]
      rfl

/-- The words of a line that follow its first one. -/
theorem proper_arguments (line : Line) : proper (arguments line) = (line.words.map Prod.fst).tail := by
  have filtered := filter_pieces fun w member => (line.proper w member).1
  rw [arguments]
  cases words : line.words with
  | nil => rfl
  | cons w rest =>
    have first := (line.proper w (words ▸ List.mem_cons_self)).1
    rw [words,pieces_cons,List.filter_cons_of_pos (by simpa using first)] at filtered
    exact (List.cons.inj filtered).2

/-! ## Other white space in a line -/

theorem tokenAt_respaced (same : line.Respaced line') : tokenAt line' = tokenAt line := by
  rw [tokenAt,tokenAt,same.words]
  by_cases none : line.words = []
  · simp [none]
  · rw [same.lead none]

theorem proper_respaced (same : line.Respaced line') : proper (arguments line') = proper (arguments line) := by
  rw [proper_arguments,proper_arguments,same.words]

private theorem arguments_single {w : Word × Word} (single : line.words = [w]) :
    arguments line = List.replicate w.2.length [] := by
  rw [arguments,single]
  rfl

/-- A line with separators behind its token alone has them still. -/
theorem arguments_respaced (same : line.Respaced line') (option : arguments line ≠ []) : arguments line' ≠ [] := by
  have kept := proper_respaced same
  have all := proper_arguments line
  match words : line.words with
  | [] => exact absurd (by rw [arguments,words]; rfl) option
  | [w] =>
    have trail := same.trail
    have alone := same.words
    rw [words] at alone
    obtain ⟨w',alone,_⟩ := List.map_eq_singleton_iff.mp alone
    rw [arguments_single words] at option
    rw [arguments_single alone]
    rw [Spaced.trail,Spaced.trail,words,alone] at trail
    have longer : w.2.length ≤ w'.2.length := trail.length_le
    rw [Ne,List.replicate_eq_nil_iff] at option ⊢
    omega
  | w::w'::rest =>
    rw [words] at all
    intro none
    rw [none,all] at kept
    exact absurd kept.symm (List.cons_ne_nil _ _)

private theorem rel_respaced (same : line.Respaced line') :
    Option.Rel Loosened (directive line.text) (directive line'.text) := by
  rw [directive_text,directive_text,tokenAt_respaced same]
  cases tokenAt line with
  | none => exact .none
  | some token => exact .some ⟨rfl,proper_respaced same,arguments_respaced same⟩

theorem loosened_respaced (same : List.Forall₂ Spaced.Respaced lines lines') :
    List.Forall₂ Loosened (directivesOf lines) (directivesOf lines') :=
  List.rel_filterMap (fun _ _ one => rel_respaced one) same

def blanked (m n : Nat) (line : Line) : Line := line.regapped (b := ' ') rfl m n

theorem respaced_blanked (line : Line) (m n : Nat) : line.Respaced (blanked m n line) := line.respaced_regapped rfl m n

private theorem words_of_tokenAt {token : Token} (there : tokenAt line = some token) : line.words ≠ [] := by
  intro none
  simp [tokenAt,none] at there

private theorem arguments_bare (some_ : line.words ≠ []) (bare : proper (arguments line) = []) (m n : Nat) :
    arguments (blanked m n line) = arguments line ++ List.replicate m [] := by
  rw [proper_arguments] at bare
  match words : line.words with
  | [] => exact absurd words some_
  | [w] =>
    have alone : (blanked m n line).words = [(w.1,w.2 ++ List.replicate m ' ')] := by
      simp only [blanked,Spaced.regapped,words,regap]
    rw [arguments_single words,arguments_single alone,List.length_append,List.length_replicate,List.replicate_add]
  | w::w'::rest =>
    rw [words] at bare
    exact absurd bare (List.cons_ne_nil _ _)

private theorem arguments_blanked (some_ : proper (arguments line) ≠ []) (m n : Nat) : ∃ k,
    arguments (blanked m n line) = List.replicate n [] ++ (proper (arguments line) ++ List.replicate k []) := by
  rw [proper_arguments] at some_ ⊢
  match words : line.words with
  | [] | [w] => exact absurd (by rw [words]; rfl) some_
  | w::w'::rest =>
    obtain ⟨k,split⟩ := pieces_regap ' ' m n w w' rest
    refine ⟨k,?_⟩
    have other : (blanked m n line).words = regap ' ' m n (w::w'::rest) := by simp only [blanked,Spaced.regapped,words]
    rw [arguments,other,split]
    rfl

theorem regapped_blanked (lines : List Line) (m n : Nat) :
    List.Forall₂ (Regapped m n) (directivesOf lines) (directivesOf (lines.map (blanked m n))) := by
  refine List.rel_filterMap (R := fun line line' => line' = blanked m n line) ?_ ?_
  · rintro line _ rfl
    simp only [directive_text,tokenAt_respaced (respaced_blanked line m n)]
    cases there : tokenAt line with
    | none => exact .none
    | some token =>
      have some_ := words_of_tokenAt there
      exact .some ⟨rfl,fun bare => arguments_bare some_ bare m n,fun more => arguments_blanked more m n⟩
  · exact List.forall₂_map_right_iff.mpr (List.forall₂_same.mpr fun _ _ => rfl)

end FreebsdLaunchd.Dnsinfo
