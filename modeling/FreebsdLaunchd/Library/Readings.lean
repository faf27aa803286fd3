import FreebsdLaunchd.Library.Expressions

/-! The extended regular expression a text reads as. The reader goes through the text
character by character and keeps the groups that are open, the innermost first; what
the grammar leaves undefined it does not read. -/
namespace Expressions

/-- The closed branches of a group, and the pieces of the open one. -/
structure Frame where
  branches : List Branch := []
  pieces : Branch := []
  deriving DecidableEq

/-- How far a bracket expression is: after `[`, after `[^`, among its items, after a `[`
inside it, and within `[:`, `[.` or `[=`, where the closing mark may have been seen. -/
inductive Bracket
  | start | negated | items | opening
  | special (mark : Char)
  | closing (mark : Char)
  deriving DecidableEq

inductive Mode
  | plain
  | quoted
  | bracket (inside : List Char) (at_ : Bracket)
  | least (count : Option Nat)
  | most (least : Nat) (count : Option Nat)
  deriving DecidableEq

structure Reader where
  mode : Mode
  stack : List Frame
  deriving DecidableEq

namespace Frame

def push (f : Frame) (e : Expression) : Frame := {f with pieces := f.pieces ++ [e]}

def close (f : Frame) : Option Frame := if f.pieces = [] then none else some ⟨f.branches ++ [f.pieces],[]⟩

def done (f : Frame) : Option (List Branch) := if f.pieces = [] then none else some (f.branches ++ [f.pieces])

/-- A repetition is of a piece that is neither an anchor nor a repetition. -/
def repeatLast (least : Nat) (most : Option Nat) (f : Frame) : Option Frame :=
  match f.pieces.getLast? with
  | none | some .caret | some .dollar | some (.repeated ..) => none
  | some e => some {f with pieces := f.pieces.dropLast ++ [.repeated e least most]}

end Frame

def onTop (change : Frame → Option Frame) : List Frame → Option (List Frame)
  | [] => none
  | f::rest => (change f).map (·::rest)

def special : List Char := ['^','.','[','$','(',')','|','*','+','?','{','\\']

/-- What a character does to the groups that are open, or to the mode alone. -/
inductive Act
  | enter (mode : Mode)
  | push (e : Expression)
  | bar | opening | closing
  | repetition (least : Nat) (most : Option Nat)

def plainAct : Char → Act
  | '^' => .push .caret
  | '$' => .push .dollar
  | '.' => .push .any
  | '|' => .bar
  | '(' => .opening
  | ')' => .closing
  | '[' => .enter (.bracket [] .start)
  | '{' => .enter (.least none)
  | '\\' => .enter .quoted
  | '*' => .repetition 0 none
  | '+' => .repetition 1 none
  | '?' => .repetition 0 (some 1)
  | c => .push (.char c)

def Bracket.next (at_ : Bracket) (c : Char) : Option Bracket :=
  match at_,c with
  | .start,'^' => some .negated
  | .start,'[' | .negated,'[' | .items,'[' | .opening,'[' => some .opening
  | .items,']' | .opening,']' => none
  | .opening,c => some (if c ∈ [':','.','='] then .special c else .items)
  | .special mark,c => some (if c = mark then .closing mark else .special mark)
  | .closing mark,c => some (if c = ']' then .items else if c = mark then .closing mark else .special mark)
  | _,_ => some .items

def digit (c : Char) : Option Nat := if c.isDigit then some (c.toNat - 48) else none

def decimal (count : Option Nat) (d : Nat) : Nat := count.getD 0 * 10 + d

def act (c : Char) : Mode → Option Act
  | .plain => some (plainAct c)
  | .quoted => if c ∈ special then some (.push (.char c)) else none
  | .bracket inside at_ =>
    match at_.next c with
    | some later => some (.enter (.bracket (inside ++ [c]) later))
    | none => some (.push (.bracket inside))
  | .least count =>
    match digit c,count with
    | some d,_ => some (.enter (.least (some (decimal count d))))
    | none,none => none
    | none,some n => if c = ',' then some (.enter (.most n none)) else if c = '}' then some (.repetition n (some n)) else none
  | .most n count =>
    match digit c with
    | some d => some (.enter (.most n (some (decimal count d))))
    | none => if c = '}' then some (.repetition n count) else none

def Act.perform (stack : List Frame) : Act → Option (List Frame)
  | .enter _ => some stack
  | .push e => onTop (fun f => some (f.push e)) stack
  | .bar => onTop Frame.close stack
  | .repetition least most => onTop (Frame.repeatLast least most) stack
  | .opening =>
    match stack with
    | [] => none
    | f::rest => some ({}::f::rest)
  | .closing =>
    match stack with
    | f::g::rest => f.done.map fun bs => g.push (alternation bs)::rest
    | _ => none

def Act.mode : Act → Mode
  | .enter mode => mode
  | _ => .plain

def step (r : Reader) (c : Char) : Option Reader :=
  if c = nul then none
  else (act c r.mode).bind fun a => (a.perform r.stack).map (Reader.mk a.mode)

def finish (r : Reader) : Option (List Branch) :=
  match r.mode,r.stack with
  | .plain,[f] => f.done
  | _,_ => none

def readFrom (r : Reader) (text : List Char) : Option Reader := text.foldlM step r

def start : Reader := ⟨.plain,[{}]⟩

/-- The branches of an extended regular expression, from its text. -/
def read (text : List Char) : Option (List Branch) := (readFrom start text).bind finish

/-! ## An anchor before the text -/

def Frame.led (f : Frame) : Frame :=
  match f.branches with
  | [] => {f with pieces := .caret::f.pieces}
  | b::rest => {f with branches := (.caret::b)::rest}

/-- The anchor is in the outermost frame. -/
def ledStack : List Frame → List Frame
  | [] => []
  | [f] => [f.led]
  | f::g::rest => f::ledStack (g::rest)

def Reader.led (r : Reader) : Reader := {r with stack := ledStack r.stack}

/-- A change of frames that an anchor before them does not disturb. -/
def Carries (change : Frame → Option Frame) : Prop := ∀ f f', change f = some f' → change f.led = some f'.led

theorem push_led (f : Frame) (e : Expression) : f.led.push e = (f.push e).led := by
  obtain ⟨branches,pieces⟩ := f
  cases branches <;> rfl

theorem close_carries : Carries Frame.close := by
  rintro ⟨branches,pieces⟩ f' closed
  obtain ⟨some_,same⟩ := Option.ite_none_left_eq_some.mp closed
  cases same
  cases branches with
  | nil => rfl
  | cons b rest => exact if_neg some_

theorem done_some {f : Frame} {bs : List Branch} (done : f.done = some bs) :
    f.pieces ≠ [] ∧ bs = f.branches ++ [f.pieces] := by
  obtain ⟨some_,same⟩ := Option.ite_none_left_eq_some.mp done
  exact ⟨some_,(Option.some.inj same).symm⟩

theorem done_led {f : Frame} {bs : List Branch} (done : f.done = some bs) : f.led.done = some (led bs) := by
  obtain ⟨branches,pieces⟩ := f
  obtain ⟨some_,rfl⟩ := done_some done
  cases branches with
  | nil => rfl
  | cons b rest => exact if_neg some_

/-- A repetition is of the last piece, and leaves those before it. -/
theorem repeatLast_some {f f' : Frame} {least : Nat} {most : Option Nat} (done : f.repeatLast least most = some f') :
    ∃ before e, f.pieces = before ++ [e] ∧ e ≠ .caret ∧ f' = {f with pieces := before ++ [.repeated e least most]} ∧
      ∀ g : Frame, ∀ before', g.pieces = before' ++ [e] →
        g.repeatLast least most = some {g with pieces := before' ++ [.repeated e least most]} := by
  rcases List.eq_nil_or_concat f.pieces with none_ | ⟨before,e,pieces⟩
  · simp [Frame.repeatLast,none_] at done
  · rw [List.concat_eq_append] at pieces
    have last : f.pieces.getLast? = some e := by rw [pieces]; simp
    refine ⟨before,e,pieces,?_,?_,?_⟩
    · rintro rfl
      simp [Frame.repeatLast,last] at done
    · unfold Frame.repeatLast at done
      rw [last] at done
      cases e <;> simp_all
    · intro g before' same
      have last' : g.pieces.getLast? = some e := by rw [same]; simp
      have front : g.pieces.dropLast = before' := by rw [same]; simp
      unfold Frame.repeatLast at done ⊢
      rw [last] at done
      rw [last',front]
      cases e <;> simp_all

theorem repeatLast_carries (least : Nat) (most : Option Nat) : Carries (Frame.repeatLast least most) := by
  rintro ⟨branches,pieces⟩ f' done
  obtain ⟨before,e,same,_,rfl,again⟩ := repeatLast_some done
  cases branches with
  | nil =>
    simp only at same
    exact again ⟨[],.caret::pieces⟩ (.caret::before) (by rw [same]; rfl)
  | cons b rest => exact again ⟨(.caret::b)::rest,pieces⟩ before same

theorem onTop_led {change : Frame → Option Frame} (carries : Carries change) {stack stack' : List Frame}
    (done : onTop change stack = some stack') : onTop change (ledStack stack) = some (ledStack stack') := by
  cases stack with
  | nil => cases done
  | cons f rest =>
    obtain ⟨f',changed,rfl⟩ := Option.map_eq_some_iff.mp done
    cases rest with
    | nil => simp [onTop,ledStack,carries f f' changed]
    | cons g rest => simp [onTop,ledStack,changed]

theorem perform_led {stack stack' : List Frame} {a : Act} (done : a.perform stack = some stack') :
    a.perform (ledStack stack) = some (ledStack stack') := by
  cases a with
  | enter mode =>
    cases done
    rfl
  | push e =>
    refine onTop_led (fun f f' same => ?_) done
    cases same
    exact congrArg some (push_led f e)
  | bar => exact onTop_led close_carries done
  | repetition least most => exact onTop_led (repeatLast_carries least most) done
  | opening =>
    match stack with
    | [] => cases done
    | [f] | f::g::rest =>
      cases done
      rfl
  | closing =>
    match stack with
    | [] | [f] => cases done
    | f::g::rest =>
      obtain ⟨bs,closed,rfl⟩ := Option.map_eq_some_iff.mp done
      cases rest with
      | nil => simp [Act.perform,ledStack,closed,push_led]
      | cons h rest => simp [Act.perform,ledStack,closed]

theorem step_some {r r' : Reader} {c : Char} : step r c = some r' ↔
    c ≠ nul ∧ ∃ a, act c r.mode = some a ∧ a.perform r.stack = some r'.stack ∧ r'.mode = a.mode := by
  obtain ⟨mode',stack'⟩ := r'
  simp only [step,Option.ite_none_left_eq_some,Option.bind_eq_some_iff,Option.map_eq_some_iff,Reader.mk.injEq]
  constructor
  · rintro ⟨clean,a,acts,_,performed,rfl,rfl⟩
    exact ⟨clean,a,acts,performed,rfl⟩
  · rintro ⟨clean,a,acts,performed,rfl⟩
    exact ⟨clean,a,acts,stack',performed,rfl,rfl⟩

theorem step_led {r r' : Reader} {c : Char} (done : step r c = some r') : step r.led c = some r'.led := by
  obtain ⟨clean,a,acts,performed,mode⟩ := step_some.mp done
  exact step_some.mpr ⟨clean,a,acts,perform_led performed,mode⟩

theorem readFrom_led {text : List Char} {r r' : Reader} (done : readFrom r text = some r') :
    readFrom r.led text = some r'.led := by
  induction text generalizing r with
  | nil =>
    cases done
    rfl
  | cons c rest ih =>
    obtain ⟨middle,first,onward⟩ := Option.bind_eq_some_iff.mp done
    exact Option.bind_eq_some_iff.mpr ⟨middle.led,step_led first,ih onward⟩

theorem finish_some {r : Reader} {bs : List Branch} :
    finish r = some bs ↔ ∃ f : Frame, r = ⟨.plain,[f]⟩ ∧ f.done = some bs := by
  constructor
  · intro done
    unfold finish at done
    split at done
    · exact ⟨_,by cases r; simp_all,done⟩
    · cases done
  · rintro ⟨f,rfl,done⟩
    exact done

theorem read_some {text : List Char} {bs : List Branch} :
    read text = some bs ↔ ∃ f : Frame, readFrom start text = some ⟨.plain,[f]⟩ ∧ f.done = some bs := by
  simp only [read,Option.bind_eq_some_iff,finish_some]
  constructor
  · rintro ⟨r,done,f,rfl,closed⟩
    exact ⟨f,done,closed⟩
  · rintro ⟨f,done,closed⟩
    exact ⟨_,done,f,rfl,closed⟩

theorem read_led {text : List Char} {bs : List Branch} (reads : read text = some bs) :
    read ('^'::text) = some (led bs) := by
  obtain ⟨f,done,closed⟩ := read_some.mp reads
  exact read_some.mpr ⟨f.led,readFrom_led done,done_led closed⟩

/-! ## An anchor that stands there already -/

theorem repeatLast_led {f f' : Frame} {least : Nat} {most : Option Nat} (done : f.led.repeatLast least most = some f') :
    ∃ g : Frame, f' = g.led := by
  obtain ⟨branches,pieces⟩ := f
  obtain ⟨before,e,same,piece,rfl,_⟩ := repeatLast_some done
  cases branches with
  | nil =>
    cases before with
    | nil =>
      cases same
      exact absurd rfl piece
    | cons first before =>
      obtain ⟨rfl,_⟩ := List.cons.inj same
      exact ⟨⟨[],before ++ [.repeated e least most]⟩,rfl⟩
  | cons b rest => exact ⟨⟨b::rest,before ++ [.repeated e least most]⟩,rfl⟩

theorem close_led {f f' : Frame} (done : f.led.close = some f') : ∃ g : Frame, f' = g.led := by
  obtain ⟨branches,pieces⟩ := f
  obtain ⟨_,same⟩ := Option.ite_none_left_eq_some.mp done
  cases same
  refine ⟨⟨branches ++ [pieces],[]⟩,?_⟩
  cases branches <;> rfl

theorem onTop_keeps {change : Frame → Option Frame} (keeps : ∀ f f' : Frame, change f.led = some f' → ∃ g : Frame, f' = g.led)
    {stack stack' : List Frame} (done : onTop change (ledStack stack) = some stack') : ∃ s, stack' = ledStack s := by
  match stack with
  | [] => cases done
  | [f] =>
    obtain ⟨f',changed,rfl⟩ := Option.map_eq_some_iff.mp done
    obtain ⟨g,rfl⟩ := keeps f f' changed
    exact ⟨[g],rfl⟩
  | f::g::rest =>
    obtain ⟨f',changed,rfl⟩ := Option.map_eq_some_iff.mp done
    exact ⟨f'::g::rest,rfl⟩

theorem perform_keeps {stack stack' : List Frame} {a : Act} (done : a.perform (ledStack stack) = some stack') :
    ∃ s, stack' = ledStack s := by
  cases a with
  | enter mode =>
    cases done
    exact ⟨stack,rfl⟩
  | push e =>
    refine onTop_keeps (fun f f' same => ?_) done
    cases same
    exact ⟨f.push e,push_led f e⟩
  | bar => exact onTop_keeps (fun _ _ => close_led) done
  | repetition least most => exact onTop_keeps (fun _ _ => repeatLast_led) done
  | opening =>
    match stack with
    | [] => cases done
    | [f] =>
      cases done
      exact ⟨[{},f],rfl⟩
    | f::g::rest =>
      cases done
      exact ⟨{}::f::g::rest,rfl⟩
  | closing =>
    match stack with
    | [] | [f] => cases done
    | f::g::rest =>
      cases rest with
      | nil =>
        obtain ⟨bs,closed,rfl⟩ := Option.map_eq_some_iff.mp done
        exact ⟨[g.push (alternation bs)],by rw [push_led]; rfl⟩
      | cons h rest =>
        obtain ⟨bs,closed,rfl⟩ := Option.map_eq_some_iff.mp done
        exact ⟨g.push (alternation bs)::h::rest,rfl⟩

theorem readFrom_keeps {text : List Char} {mode : Mode} {stack : List Frame} {r' : Reader}
    (done : readFrom ⟨mode,ledStack stack⟩ text = some r') : ∃ s, r'.stack = ledStack s := by
  induction text generalizing mode stack with
  | nil =>
    cases done
    exact ⟨stack,rfl⟩
  | cons c rest ih =>
    obtain ⟨⟨mode',stack'⟩,first,onward⟩ := Option.bind_eq_some_iff.mp done
    obtain ⟨_,a,_,performed,_⟩ := step_some.mp first
    obtain ⟨s,rfl⟩ := perform_keeps performed
    exact ih onward

theorem done_led_leads {g : Frame} {bs : List Branch} (done : g.led.done = some bs) : Leads bs := by
  obtain ⟨branches,pieces⟩ := g
  obtain ⟨_,rfl⟩ := done_some done
  cases branches with
  | nil => exact ⟨pieces,[],rfl⟩
  | cons b rest => exact ⟨b,rest ++ [pieces],rfl⟩

theorem read_leads {text : List Char} {bs : List Branch} (reads : read ('^'::text) = some bs) : Leads bs := by
  obtain ⟨f,done,closed⟩ := read_some.mp reads
  have first : readFrom start ('^'::text) = readFrom ⟨.plain,ledStack [{}]⟩ text := rfl
  rw [first] at done
  obtain ⟨s,same⟩ := readFrom_keeps done
  match s with
  | [] => cases same
  | [g] =>
    cases same
    exact done_led_leads closed
  | g::h::[] | g::h::_::_ => cases same

/-! ## An anchor after the text -/

theorem readFrom_append (r : Reader) (text text' : List Char) :
    readFrom r (text ++ text') = (readFrom r text).bind fun r => readFrom r text' := List.foldlM_append

theorem done_push (f : Frame) (e : Expression) : (f.push e).done = some (f.branches ++ [f.pieces ++ [e]]) :=
  if_neg (by simp [Frame.push])

theorem read_trailed {text : List Char} {bs : List Branch} (reads : read text = some bs) :
    read (text ++ ['$']) = some (trailed bs) := by
  obtain ⟨f,done,closed⟩ := read_some.mp reads
  obtain ⟨_,rfl⟩ := done_some closed
  refine read_some.mpr ⟨f.push .dollar,?_,?_⟩
  · rw [readFrom_append,done]
    rfl
  · rw [done_push,trailed_append]

theorem quoted_of_act {c : Char} {mode : Mode} {a : Act} (acts : act c mode = some a) (quoted : a.mode = .quoted) :
    c = '\\' := by
  cases mode with
  | plain =>
    cases acts
    unfold plainAct at quoted
    split at quoted
    all_goals first | rfl | cases quoted
  | quoted =>
    obtain ⟨_,same⟩ := Option.ite_none_right_eq_some.mp acts
    cases same
    cases quoted
  | bracket inside at_ =>
    simp only [act] at acts
    split at acts
    all_goals
      cases acts
      cases quoted
  | least count =>
    simp only [act] at acts
    repeat' split at acts
    all_goals
      cases acts
      try cases quoted
  | most n count =>
    simp only [act] at acts
    repeat' split at acts
    all_goals
      cases acts
      try cases quoted

theorem readFrom_quoted {text : List Char} {r : Reader} (done : readFrom start text = some r)
    (quoted : r.mode = .quoted) :
    ∃ front, text = front ++ ['\\'] := by
  rcases List.eq_nil_or_concat text with rfl | ⟨front,c,rfl⟩
  · cases done
    cases quoted
  · rw [List.concat_eq_append,readFrom_append] at done
    obtain ⟨before,_,last⟩ := Option.bind_eq_some_iff.mp done
    obtain ⟨after,last,same⟩ := Option.bind_eq_some_iff.mp last
    cases same
    obtain ⟨_,a,acts,_,mode⟩ := step_some.mp last
    refine ⟨front,?_⟩
    rw [List.concat_eq_append,quoted_of_act acts (mode.symm.trans quoted)]

/-- At a dollar that ends an expression the reader is in plain text or after a backslash. -/
theorem act_dollar {mode : Mode} {a : Act} (acts : act '$' mode = some a) (plain : a.mode = .plain) :
    mode = .plain ∧ a = .push .dollar ∨ mode = .quoted := by
  cases mode with
  | plain =>
    cases acts
    exact .inl ⟨rfl,rfl⟩
  | quoted => exact .inr rfl
  | bracket inside at_ =>
    cases at_ with
    | start | negated | items | opening =>
      cases acts
      cases plain
    | special mark | closing mark =>
      cases acts
      cases plain
  | least count => cases count <;> cases acts
  | most n count => cases acts

theorem read_trails {text : List Char} {bs : List Branch} (reads : read (text ++ ['$']) = some bs)
    (unquoted : ¬ ∃ front, text = front ++ ['\\']) : Trails bs := by
  obtain ⟨f,done,closed⟩ := read_some.mp reads
  rw [readFrom_append] at done
  obtain ⟨before,early,last⟩ := Option.bind_eq_some_iff.mp done
  obtain ⟨after,last,same⟩ := Option.bind_eq_some_iff.mp last
  cases same
  obtain ⟨_,a,acts,performed,mode⟩ := step_some.mp last
  rcases act_dollar acts mode.symm with ⟨_,rfl⟩ | quoted
  · obtain ⟨_,closed⟩ := done_some closed
    cases stack : before.stack with
    | nil =>
      rw [stack] at performed
      cases performed
    | cons g rest =>
      rw [stack] at performed
      cases performed
      exact ⟨g.branches,g.pieces,closed⟩
  · exact absurd (readFrom_quoted early quoted) unquoted

example : read "a|(b$)".toList = some [[.char 'a'],[.alt (.seq (.char 'b') (.seq .dollar .empty)) .nothing]] := by decide

example : read "[]$]{2,}".toList = some [[.repeated (.bracket [']','$']) 2 none]] := by decide

/-! ## Characters -/

theorem readFrom_clean {text : List Char} {r r' : Reader} (done : readFrom r text = some r') : nul ∉ text := by
  induction text generalizing r with
  | nil => exact List.not_mem_nil
  | cons c rest ih =>
    obtain ⟨middle,first,onward⟩ := Option.bind_eq_some_iff.mp done
    obtain ⟨clean,_⟩ := step_some.mp first
    rintro (_ | ⟨_,later⟩)
    · exact clean rfl
    · exact ih onward later

theorem read_clean {text : List Char} {bs : List Branch} (reads : read text = some bs) : nul ∉ text := by
  obtain ⟨f,done,_⟩ := read_some.mp reads
  exact readFrom_clean done

end Expressions
