import FreebsdLaunchd.Dnsinfo.Quiet

/-! White space in a resolver file. Only `flags` and `options` skip the empty words between
two separators; elsewhere an empty word is taken for the option or ends a list, so that
the lines with the other tokens may be read only if they say nothing. -/
namespace FreebsdLaunchd.Dnsinfo
open SpacedWords

def directivesIn (content : List Char) : List Directive := (fileLines content).filterMap directive

def askedFlags (env : Environment) (directives : List Directive) : BitVec 32 :=
  (effective env directives .flags).head?.elim 0 (addFlags 0)

def askedOptions (env : Environment) (directives : List Directive) : Option Word :=
  (effective env directives .options).head?.bind joinOptions

def BareFirst (token : Token) (directives : List Directive) : Prop :=
  directives.find? (fun d => d.1 = token) = some (token,[])

structure Unmoved (env : Environment) (directives : List Directive) : Prop where
  created : Any directives ∨ directives = []
  quiet : ∀ token, ∀ words ∈ effective env directives token, Quiet env token (proper words)
  domain : optioned .domain directives = [] → ∀ d ∈ directives, d.1 ≠ .domain
  flags : BareFirst .flags directives → askedFlags env directives = 0 ∨ askedFlags env directives = env.flatfileFlags
  options : BareFirst .options directives → askedOptions env directives = none

variable {env : Environment} {path : Word} {token : Token} {words : List Word} {ds ds' : List Directive} {d : Directive} {n : Nat}

/-! ## The resolver of the directives -/

private theorem finish_none (none : ¬ Any ds) : finish env path (runDirectives env ds) = .none := by
  have absent : (runDirectives env ds).res = .none :=
    Option.not_isSome_iff_eq_none.mp fun some_ => none ((reached env ds).created.mp some_)
  rw [finish,absent]
  rfl

def assembled (env : Environment) (directives : List Directive) : Resolver := assemble env (effective env directives)

def finalFlags (env : Environment) (directives : List Directive) : BitVec 32 :=
  if askedFlags env directives ≠ 0 then askedFlags env directives else (assembled env directives).flags ||| env.flatfileFlags

private theorem finish_some (any : Any ds) : finish env path (runDirectives env ds) = some
    { assembled env ds with
      domain := if optioned .domain ds = [] then some (basename path) else (assembled env ds).domain
      flags := finalFlags env ds } := by
  obtain ⟨tokenCount,configFlags,res,created⟩ := reached env ds
  obtain ⟨made,there⟩ := Option.isSome_iff_exists.mp (created.mpr any)
  rw [there,Option.getD_some] at res
  have counted : (runDirectives env ds).tokenCount .domain = 0 ↔ optioned .domain ds = [] := by
    rw [tokenCount,List.length_eq_zero_iff]
  rw [finish,there,Option.map_some,res,finalFlags,assembled,configFlags,askedFlags]
  simp only [counted]

private theorem effective_single (env : Environment) (ds : List Directive) (single : token ≠ .nameserver) :
    (effective env ds token).length ≤ 1 := by
  rw [effective,maxCount_single env single]
  exact List.length_take_le 1 _

private theorem head_effective (env : Environment) (ds : List Directive) (token : Token) :
    (effective env ds token).head? = (optioned token ds).head? := by
  rw [effective,List.head?_take,if_neg (maxCount_pos env token).ne']

/-- Quiet lines leave the options alone. -/
theorem quiet_assembled (env : Environment) (ds : List Directive) :
    (∀ token, ∀ words ∈ effective env ds token, Quiet env token words) ↔
    assembled env ds = { options := askedOptions env ds } :=
  quiet_iff fun _ => effective_single env ds

private theorem mem_of_forall₂ {α β : Type} {R : α → β → Prop} {left : List α} {right : List β} {b : β} (all : List.Forall₂ R left right)
    (member : b ∈ right) : ∃ a ∈ left, R a b := by
  induction all with
  | nil => simp at member
  | cons here _ ih =>
    obtain rfl | later := List.mem_cons.mp member
    · exact ⟨_,List.mem_cons_self,here⟩
    · obtain ⟨a,there,related⟩ := ih later
      exact ⟨a,List.mem_cons_of_mem _ there,related⟩

private theorem optioned_cons (token : Token) (d : Directive) (ds : List Directive) :
    optioned token (d::ds) = if d.1 = token ∧ d.2 ≠ [] then d.2::optioned token ds else optioned token ds := by
  rw [optioned,List.filter_cons]
  split
  next there => rw [if_pos (of_decide_eq_true there)]; rfl
  next absent => rw [if_neg fun there => absent (decide_eq_true there)]; rfl

private theorem optioned_eq_nil : optioned token ds = [] ↔ ∀ d ∈ ds, d.1 = token → d.2 = [] := by
  simp [optioned,List.filter_eq_nil_iff]

/-! ## Flags and options skip empty words -/

private theorem addFlags_proper (flags : BitVec 32) (words : List Word) :
    addFlags flags (proper words) = addFlags flags words := by
  simp only [addFlags,proper,List.foldl_filter]
  congr 1
  funext flags word
  by_cases empty : word = [] <;> simp [empty]

private theorem joinOptions_proper (words : List Word) : joinOptions (proper words) = joinOptions words := by
  simp only [joinOptions,proper,List.foldl_filter]
  congr 1
  funext options word
  by_cases empty : word = [] <;> simp [empty]

/-! ## Other white space leaves quiet lines quiet -/

/-- A line that counts now was counted before, unless it has only empty words. -/
theorem loosened_effective (loosened : List.Forall₂ Loosened ds ds') {m : Nat} (less : m ≤ n)
    (member : words ∈ (optioned token ds').take m) :
    proper words = [] ∨ ∃ before ∈ (optioned token ds).take n, proper words = proper before := by
  induction loosened generalizing m n with
  | nil => simp [optioned] at member
  | @cons d d' ds ds' here _ ih =>
    rw [optioned_cons] at member ⊢
    by_cases counted : d'.1 = token ∧ d'.2 ≠ []
    · rw [if_pos counted] at member
      cases m with
      | zero => simp at member
      | succ m =>
        rw [List.take_succ_cons] at member
        by_cases option : d.2 = []
        · rw [if_neg fun there => there.2 option]
          obtain rfl | later := List.mem_cons.mp member
          · rw [here.words,option]
            exact .inl rfl
          · exact ih (Nat.le_of_succ_le less) later
        · obtain ⟨n,rfl⟩ := Nat.exists_eq_succ_of_ne_zero (Nat.lt_of_lt_of_le (Nat.succ_pos m) less).ne'
          rw [if_pos ⟨here.token.symm.trans counted.1,option⟩,List.take_succ_cons]
          obtain rfl | later := List.mem_cons.mp member
          · exact .inr ⟨d.2,List.mem_cons_self,here.words⟩
          · obtain none | ⟨before,there,equal⟩ := ih (Nat.le_of_succ_le_succ less) later
            · exact .inl none
            · exact .inr ⟨before,List.mem_cons_of_mem _ there,equal⟩
    · rw [if_neg counted] at member
      have before : ¬ (d.1 = token ∧ d.2 ≠ []) := fun there => counted ⟨here.token.trans there.1,here.option there.2⟩
      rw [if_neg before]
      exact ih less member

/-- The first line that counts has the same words, or it was the token alone. -/
theorem loosened_head (loosened : List.Forall₂ Loosened ds ds') (token : Token) :
    (optioned token ds').head?.map proper = (optioned token ds).head?.map proper ∨
      BareFirst token ds ∧ (optioned token ds').head?.map proper = some [] := by
  induction loosened with
  | nil => exact .inl rfl
  | @cons d d' ds ds' here _ ih =>
    rw [optioned_cons,optioned_cons]
    by_cases same : d.1 = token
    · have same' : d'.1 = token := here.token.trans same
      by_cases option : d.2 = []
      · have first : BareFirst token (d::ds) := by
          rw [BareFirst,List.find?_cons_of_pos (by simpa using same),← same,← option]
        rw [if_neg (c := d.1 = token ∧ d.2 ≠ []) fun there => there.2 option]
        split
        · have empty : proper d'.2 = [] := by
            rw [here.words,option]
            rfl
          exact .inr ⟨first,congrArg some empty⟩
        · exact ih.imp_right fun later => ⟨first,later.2⟩
      · rw [if_pos ⟨same',here.option option⟩,if_pos ⟨same,option⟩]
        exact .inl (congrArg some here.words)
    · rw [if_neg fun there => same (here.token.symm.trans there.1),if_neg fun there => same there.1]
      rw [BareFirst,List.find?_cons_of_neg (by simpa using same)]
      exact ih

/-- What skips empty words reads the same in the first line that counts, or nothing behind the token alone. -/
theorem loosened_read {β : Type} (loosened : List.Forall₂ Loosened ds ds') (env : Environment) (token : Token)
    (nothing : β)
    {read : List Word → β} (skips : ∀ words, read (proper words) = read words) (empty : read [] = nothing) :
    (effective env ds' token).head?.elim nothing read = (effective env ds token).head?.elim nothing read ∨
      BareFirst token ds ∧ (effective env ds' token).head?.elim nothing read = nothing := by
  have through (ds : List Directive) : (effective env ds token).head?.elim nothing read =
      ((optioned token ds).head?.map proper).elim nothing read := by
    rw [head_effective]
    cases (optioned token ds).head? with
    | none => rfl
    | some words => exact (skips words).symm
  rw [through,through]
  obtain same | ⟨bare,alone⟩ := loosened_head loosened token
  · exact .inl (by rw [same])
  · refine .inr ⟨bare,?_⟩
    rw [alone]
    exact empty

private theorem loosened_flags (env : Environment) (loosened : List.Forall₂ Loosened ds ds') :
    askedFlags env ds' = askedFlags env ds ∨ BareFirst .flags ds ∧ askedFlags env ds' = 0 :=
  loosened_read loosened env .flags 0 (addFlags_proper 0) rfl

private theorem askedOptions_eq (env : Environment) (ds : List Directive) :
    askedOptions env ds = (effective env ds .options).head?.elim none joinOptions := by
  rw [askedOptions]
  cases (effective env ds .options).head? <;> rfl

private theorem loosened_options (env : Environment) (loosened : List.Forall₂ Loosened ds ds') :
    askedOptions env ds' = askedOptions env ds ∨ BareFirst .options ds ∧ askedOptions env ds' = none := by
  rw [askedOptions_eq,askedOptions_eq]
  exact loosened_read loosened env .options none joinOptions_proper rfl

private theorem loosened_any (loosened : List.Forall₂ Loosened ds ds') (any : Any ds) : Any ds' := by
  obtain ⟨d,there,option⟩ := any
  obtain ⟨d',there',related⟩ := mem_of_forall₂ loosened.flip there
  exact ⟨d',there',related.option option⟩

private theorem loosened_domain (loosened : List.Forall₂ Loosened ds ds') (unmoved : Unmoved env ds) :
    optioned .domain ds' = [] ↔ optioned .domain ds = [] := by
  constructor
  · intro none
    rw [optioned_eq_nil] at none ⊢
    intro d there same
    obtain ⟨d',there',related⟩ := mem_of_forall₂ loosened.flip there
    by_contra option
    exact related.option option (none d' there' (related.token.trans same))
  · intro none
    rw [optioned_eq_nil]
    intro d' there' same
    obtain ⟨d,there,related⟩ := mem_of_forall₂ loosened there'
    exact absurd (related.token.symm.trans same) (unmoved.domain none d there)

/-- Other white space leaves the resolver as it is. -/
theorem finish_loosened (loosened : List.Forall₂ Loosened ds ds') (unmoved : Unmoved env ds) (path : Word) :
    finish env path (runDirectives env ds') = finish env path (runDirectives env ds) := by
  obtain any | rfl := unmoved.created
  · have before : ∀ token, ∀ words ∈ effective env ds token, Quiet env token words :=
      fun token words member => quiet_of_proper (unmoved.quiet token words member)
    have after : ∀ token, ∀ words ∈ effective env ds' token, Quiet env token words := by
      intro token words member
      apply quiet_of_proper
      obtain none | ⟨words',there,same⟩ := loosened_effective loosened (Nat.le_refl _) member
      · rw [none]
        exact quiet_nil env token
      · rw [same]
        exact unmoved.quiet token words' there
    have options : askedOptions env ds' = askedOptions env ds :=
      (loosened_options env loosened).elim id fun ⟨bare,unset⟩ => unset.trans (unmoved.options bare).symm
    have same : assembled env ds' = assembled env ds := by
      rw [(quiet_assembled env ds).mp before,(quiet_assembled env ds').mp after,options]
    have unset : (assembled env ds).flags = 0 := by rw [(quiet_assembled env ds).mp before]
    have flags : finalFlags env ds' = finalFlags env ds := by
      rw [finalFlags,finalFlags,same,unset]
      obtain kept | ⟨bare,none⟩ := loosened_flags env loosened
      · rw [kept]
      · rw [none]
        obtain zero | default := unmoved.flags bare
        · rw [zero]
        · rw [default]
          simp
    rw [finish_some any,finish_some (loosened_any loosened any),flags,same]
    simp only [loosened_domain loosened unmoved]
  · rw [List.forall₂_nil_left_iff.mp loosened]

/-! ## What other white space shows -/

theorem Regapped.some_ {m : Nat} {d d' : Directive} (related : Regapped m n d d') (more : proper d.2 ≠ []) :
    d'.2 ≠ [] := by
  obtain ⟨k,words⟩ := related.words more
  rw [words]
  simp [more]

private theorem regapped_any {m : Nat} (regapped : List.Forall₂ (Regapped m n) ds ds') (any : Any ds) : Any ds' := by
  obtain ⟨d,there,option⟩ := any
  obtain ⟨d',there',related⟩ := mem_of_forall₂ regapped.flip there
  refine ⟨d',there',?_⟩
  by_cases bare : proper d.2 = []
  · rw [related.bare bare]
    exact List.append_ne_nil_of_left_ne_nil option _
  · exact related.some_ bare

/-- Separators behind the words of each line make an option of each line. -/
theorem regapped_option {d d' : Directive} (related : Regapped 1 n d d') : d'.2 ≠ [] := by
  by_cases bare : proper d.2 = []
  · rw [related.bare bare]
    exact List.append_ne_nil_of_right_ne_nil _ (List.cons_ne_nil _ _)
  · exact related.some_ bare

/-- Without separators at the end the same lines count. -/
theorem regapped_counted {d d' : Directive} (related : Regapped 0 n d d') : d'.2 = [] ↔ d.2 = [] := by
  by_cases bare : proper d.2 = []
  · rw [related.bare bare]
    simp
  · have before : d.2 ≠ [] := fun none => bare (by rw [none]; rfl)
    exact iff_of_false (related.some_ bare) before

private theorem regapped_optioned (regapped : List.Forall₂ (Regapped 0 n) ds ds') (token : Token) :
    List.Forall₂ (fun words words' => Regapped 0 n (token,words) (token,words')) (optioned token ds) (optioned token ds') := by
  induction regapped with
  | nil => exact .nil
  | @cons d d' ds ds' here _ ih =>
    have alike : d'.1 = token ∧ d'.2 ≠ [] ↔ d.1 = token ∧ d.2 ≠ [] := by rw [here.token,Ne,Ne,regapped_counted here]
    rw [optioned_cons,optioned_cons]
    simp only [alike]
    split
    · exact .cons ⟨rfl,here.bare,here.words⟩ ih
    · exact ih

private theorem regapped_effective (regapped : List.Forall₂ (Regapped 0 n) ds ds') (env : Environment) (token : Token) :
    List.Forall₂ (fun words words' => Regapped 0 n (token,words) (token,words')) (effective env ds token) (effective env ds' token) :=
  List.forall₂_take _ (regapped_optioned regapped token)

private theorem regapped_absent (regapped : List.Forall₂ (Regapped 0 n) ds ds') :
    optioned token ds' = [] ↔ optioned token ds = [] := by
  rw [← List.length_eq_zero_iff,← List.length_eq_zero_iff,(regapped_optioned regapped token).length_eq]

/-- Behind more separators than a search list has words all lines are quiet. -/
theorem regapped_quiet (regapped : List.Forall₂ (Regapped 0 (env.maxdnsrch+1)) ds ds') :
    ∀ token, ∀ words ∈ effective env ds' token, Quiet env token words := by
  intro token words member
  obtain ⟨before,_,related⟩ := mem_of_forall₂ (regapped_effective regapped env token) member
  by_cases bare : proper before = []
  · have same : words = before := (related.bare bare).trans (List.append_nil _)
    apply quiet_of_proper
    rw [same,bare]
    exact quiet_nil env token
  · obtain ⟨k,behind⟩ := related.words bare
    have behind : words = List.replicate (env.maxdnsrch+1) [] ++ (proper before ++ List.replicate k []) := behind
    rw [behind]
    exact quiet_behind _ (Nat.succ_pos _) (Nat.le_succ _)

/-- With one separator between two words a quiet line has quiet words. -/
theorem quiet_regapped (regapped : List.Forall₂ (Regapped 0 0) ds ds')
    (quiet : ∀ token, ∀ words ∈ effective env ds' token, Quiet env token words) :
    ∀ token, ∀ words ∈ effective env ds token, Quiet env token (proper words) := by
  intro token words member
  obtain ⟨after,there,related⟩ := mem_of_forall₂ (regapped_effective regapped env token).flip member
  by_cases bare : proper words = []
  · rw [bare]
    exact quiet_nil env token
  · obtain ⟨k,behind⟩ := related.words bare
    have behind : after = proper words ++ List.replicate k [] := behind
    have silent := quiet token after there
    rw [behind] at silent
    exact quiet_of_append silent bare

/-- Of two resolvers that are the same the one has quiet lines if the other has. -/
theorem quiet_of_same (any : Any ds) (any' : Any ds') (counted : optioned .domain ds' = [] ↔ optioned .domain ds = [])
    (same : finish env path (runDirectives env ds') = finish env path (runDirectives env ds))
    (quiet : ∀ token, ∀ words ∈ effective env ds token, Quiet env token words) :
    ∀ token, ∀ words ∈ effective env ds' token, Quiet env token words := by
  rw [quiet_assembled] at quiet ⊢
  rw [finish_some any,finish_some any',quiet,Option.some.injEq,Resolver.mk.injEq] at same
  obtain ⟨domain,nameservers,search,sortaddrs,-,port,timeout,order,interface,-⟩ := same
  have domain : (assembled env ds').domain = none := by
    by_cases none : optioned .domain ds' = []
    · rw [assembled,assemble,head_effective,none]
      rfl
    · rw [if_neg none,if_neg fun before => none (counted.mpr before)] at domain
      exact domain
  have flags : (assembled env ds').flags = 0 := congrArg (hostFlags env) nameservers
  rw [show assembled env ds' = ⟨_,_,_,_,_,_,_,_,_,_⟩ from rfl,Resolver.mk.injEq]
  exact ⟨domain,nameservers,search,sortaddrs,rfl,port,timeout,order,interface,flags⟩

/-! ## Where white space says nothing -/

private theorem regapped_created (regapped : List.Forall₂ (Regapped 1 n) ds ds')
    (same : finish env path (runDirectives env ds') = finish env path (runDirectives env ds)) : Any ds ∨ ds = [] := by
  by_contra neither
  rw [not_or] at neither
  obtain ⟨d,rest,rfl⟩ := List.exists_cons_of_ne_nil neither.2
  obtain ⟨d',there,related⟩ := mem_of_forall₂ regapped.flip List.mem_cons_self
  rw [finish_none neither.1,finish_some ⟨d',there,regapped_option related⟩] at same
  exact absurd same (by simp)

private theorem regapped_domain (regapped : List.Forall₂ (Regapped 1 n) ds ds') (any : Any ds)
    (same : finish env path (runDirectives env ds') = finish env path (runDirectives env ds)) :
    optioned .domain ds = [] → ∀ d ∈ ds, d.1 ≠ .domain := by
  intro none d there token
  obtain ⟨d',there',related⟩ := mem_of_forall₂ regapped.flip there
  have counted : optioned .domain ds' ≠ [] := fun absent =>
    regapped_option related (optioned_eq_nil.mp absent d' there' (related.token.trans token))
  rw [finish_some any,finish_some (regapped_any regapped any),Option.some.injEq,Resolver.mk.injEq,if_neg counted,if_pos none] at same
  have unset : (assembled env ds').domain = .none := by
    rw [assembled,assemble,bind_head (effective_single env ds' (by decide))]
    intro words member
    obtain ⟨d',counted,rfl⟩ := List.mem_map.mp (List.mem_of_mem_take member)
    obtain ⟨there',option⟩ := List.mem_filter.mp counted
    obtain ⟨d,there,related⟩ := mem_of_forall₂ regapped there'
    have empty := optioned_eq_nil.mp none d there (related.token.symm.trans (of_decide_eq_true option).1)
    rw [related.bare (by rw [empty]; rfl),empty]
    rfl
  rw [unset] at same
  exact absurd same.1 (by simp)

/-- Behind the token alone there is now an empty word. -/
theorem regapped_bareFirst (regapped : List.Forall₂ (Regapped 1 n) ds ds') (bare : BareFirst token ds) :
    (optioned token ds').head? = some [[]] := by
  induction regapped with
  | nil => simp [BareFirst] at bare
  | @cons d d' ds ds' here _ ih =>
    rw [optioned_cons]
    by_cases same : d.1 = token
    · rw [BareFirst,List.find?_cons_of_pos (by simpa using same)] at bare
      obtain rfl := Option.some.inj bare
      rw [if_pos ⟨here.token.trans same,regapped_option here⟩,here.bare rfl]
      rfl
    · rw [BareFirst,List.find?_cons_of_neg (by simpa using same)] at bare
      rw [if_neg fun there => same (here.token.symm.trans there.1)]
      exact ih bare

private theorem regapped_flags (regapped : List.Forall₂ (Regapped 1 n) ds ds') (any : Any ds)
    (quiet : ∀ token, ∀ words ∈ effective env ds token, Quiet env token words)
    (same : finish env path (runDirectives env ds') = finish env path (runDirectives env ds)) (bare : BareFirst .flags ds) :
    askedFlags env ds = 0 ∨ askedFlags env ds = env.flatfileFlags := by
  have none : askedFlags env ds' = 0 := by
    rw [askedFlags,head_effective,regapped_bareFirst regapped bare]
    rfl
  rw [finish_some any,finish_some (regapped_any regapped any),Option.some.injEq,Resolver.mk.injEq] at same
  obtain ⟨-,nameservers,-,-,-,-,-,-,-,flags⟩ := same
  rw [quiet_assembled] at quiet
  have unset : (assembled env ds).flags = 0 := by rw [quiet]
  have unset' : (assembled env ds').flags = 0 := by
    rw [quiet] at nameservers
    exact congrArg (hostFlags env) nameservers
  rw [finalFlags,finalFlags,none,unset,unset'] at flags
  by_cases zero : askedFlags env ds = 0
  · exact .inl zero
  · rw [if_pos zero] at flags
    exact .inr (flags.symm.trans (by simp))

private theorem regapped_options (regapped : List.Forall₂ (Regapped 1 n) ds ds') (any : Any ds)
    (same : finish env path (runDirectives env ds') = finish env path (runDirectives env ds)) (bare : BareFirst .options ds) :
    askedOptions env ds = none := by
  have none : askedOptions env ds' = .none := by
    rw [askedOptions,head_effective,regapped_bareFirst regapped bare]
    rfl
  rw [finish_some any,finish_some (regapped_any regapped any),Option.some.injEq,Resolver.mk.injEq] at same
  obtain ⟨-,-,-,-,options,-⟩ := same
  exact options.symm.trans none

/-- Three other ways to write the file tell whether white space says nothing. -/
theorem unmoved_of_same {tight loose trailing : List Directive} (words : List.Forall₂ (Regapped 0 0) ds tight)
    (apart : List.Forall₂ (Regapped 0 (env.maxdnsrch+1)) ds loose) (behind : List.Forall₂ (Regapped 1 0) ds trailing)
    (sameTight : finish env path (runDirectives env tight) = finish env path (runDirectives env ds))
    (sameLoose : finish env path (runDirectives env loose) = finish env path (runDirectives env ds))
    (sameTrailing : finish env path (runDirectives env trailing) = finish env path (runDirectives env ds)) :
    Unmoved env ds := by
  obtain any | rfl := regapped_created behind sameTrailing
  · have counted : optioned .domain tight = [] ↔ optioned .domain loose = [] :=
      (regapped_absent words).trans (regapped_absent apart).symm
    have quiet := quiet_of_same (regapped_any apart any) (regapped_any words any) counted
      (sameTight.trans sameLoose.symm) (regapped_quiet apart)
    have proper := quiet_regapped words quiet
    have quiet : ∀ token, ∀ words ∈ effective env ds token, Quiet env token words :=
      fun token words member => quiet_of_proper (proper token words member)
    exact ⟨.inl any,proper,regapped_domain behind any sameTrailing,regapped_flags behind any quiet sameTrailing,
      regapped_options behind any sameTrailing⟩
  · have none (token) : effective env [] token = [] := List.take_nil
    refine ⟨.inr rfl,fun token words member => ?_,fun _ => List.forall_mem_nil _,fun bare => ?_,fun bare => ?_⟩
    · rw [none] at member
      exact absurd member List.not_mem_nil
    · simp [BareFirst] at bare
    · simp [BareFirst] at bare

/-! ## The content of a file -/

private theorem whole_respaced {lines lines' : List Line} (same : List.Forall₂ Spaced.Respaced lines lines')
    (whole : ∀ line ∈ lines, '\n' ∉ line.text) : ∀ line ∈ lines', '\n' ∉ line.text := by
  intro line' there'
  obtain ⟨line,there,respaced⟩ := mem_of_forall₂ same there'
  rw [respaced.mem_text (by decide)]
  exact whole line there

private theorem directivesIn_fileText {lines : List Line} (whole : ∀ line ∈ lines, '\n' ∉ line.text) (newline : Bool) :
    directivesIn (fileText lines newline) = directivesOf lines := filterMap_fileText whole newline

/-- White space makes no difference to the resolver just where it says nothing. -/
theorem respaced_same_iff (env : Environment) (path : Word) (content : List Char) :
    (∀ content', Respaced content content' → createResolver env path content' = createResolver env path content) ↔
      Unmoved env (directivesIn content) := by
  constructor
  · intro same
    obtain ⟨lines,whole,rfl⟩ := exists_lines content
    have each (m n : Nat) : finish env path (runDirectives env (directivesOf (lines.map (blanked m n)))) =
        finish env path (runDirectives env (directivesOf lines)) := by
      have others : List.Forall₂ Spaced.Respaced lines (lines.map (blanked m n)) :=
        List.forall₂_map_right_iff.mpr (List.forall₂_same.mpr fun line _ => respaced_blanked line m n)
      have equal := same (fileText (lines.map (blanked m n)) false) (.lines others whole id)
      rw [← directivesIn_fileText whole false,← directivesIn_fileText (whole_respaced others whole) false]
      exact equal
    rw [directivesIn_fileText whole]
    exact unmoved_of_same (regapped_blanked lines 0 0) (regapped_blanked lines 0 _) (regapped_blanked lines 1 0)
      (each 0 0) (each 0 _) (each 1 0)
  · intro unmoved content' respaced
    obtain ⟨same,whole,kept⟩ := respaced
    rw [directivesIn_fileText whole] at unmoved
    have equal := finish_loosened (loosened_respaced same) unmoved path
    rw [← directivesIn_fileText whole _,← directivesIn_fileText (whole_respaced same whole) _] at equal
    exact equal

/-! ## White space that does no harm -/

/-- Of two lines the one has a tabulator where the other has a blank; or both have the same words
behind a token that skips empty ones. -/
inductive Alike (line line' : Line) : Prop
  | swapped (same : List.Forall₂ (fun a b => a = b ∨ isSep a ∧ isSep b) line.text line'.text)
  | skipped (same : line.Respaced line') (token : tokenAt line = some .flags ∨ tokenAt line = some .options)
      (some_ : proper (arguments line) ≠ [])

private theorem splitOnP_swapped {a b : List Char} (same : List.Forall₂ (fun a b => a = b ∨ isSep a ∧ isSep b) a b) :
    b.splitOnP isSep = a.splitOnP isSep := by
  induction same with
  | nil => rfl
  | cons here _ ih =>
    rw [List.splitOnP_cons_eq_if_modifyHead,List.splitOnP_cons_eq_if_modifyHead,ih]
    obtain rfl | ⟨first,second⟩ := here
    · rfl
    · rw [if_pos first,if_pos second]

private theorem step_skipped (env : Environment) (p : Progress) (skips : token = .flags ∨ token = .options)
    {words words' : List Word}
    (same : proper words' = proper words) (some_ : proper words ≠ []) : step env p (token,words') = step env p (token,words) := by
  obtain ⟨word,rest,rfl⟩ := List.exists_cons_of_ne_nil fun none : words = [] => some_ (by rw [none]; rfl)
  obtain ⟨word',rest',rfl⟩ := List.exists_cons_of_ne_nil fun none : words' = [] => some_ (by rw [← same,none]; rfl)
  obtain rfl | rfl := skips
  · have flags : addFlags p.configFlags (word'::rest') = addFlags p.configFlags (word::rest) := by
      rw [← addFlags_proper,same,addFlags_proper]
    simp only [step,applyDirective,flags]
  · have options : joinOptions (word'::rest') = joinOptions (word::rest) := by
      rw [← joinOptions_proper,same,joinOptions_proper]
    have other : Token.options ≠ Token.flags := by decide
    simp only [step,applyDirective,options,if_neg other]

private theorem rel_alike {line line' : Line} (alike : Alike line line') :
    Option.Rel (fun d d' => ∀ p, step env p d' = step env p d) (directive line.text) (directive line'.text) := by
  cases alike with
  | swapped same =>
    have equal : directive line'.text = directive line.text := by rw [directive,splitOnP_swapped same,directive]
    rw [equal]
    cases directive line.text with
    | none => exact .none
    | some d => exact .some fun _ => rfl
  | skipped same token some_ =>
    rw [directive_text,directive_text,tokenAt_respaced same]
    cases there : tokenAt line with
    | none => exact .none
    | some token' =>
      rw [there,Option.some_inj,Option.some_inj] at token
      exact .some fun p => step_skipped env p token (proper_respaced same) some_

private theorem runDirectives_alike (same : List.Forall₂ (fun d d' => ∀ p, step env p d' = step env p d) ds ds') :
    runDirectives env ds' = runDirectives env ds := by
  have from_ (p : Progress) : ds'.foldl (step env) p = ds.foldl (step env) p := by
    induction same generalizing p with
    | nil => rfl
    | cons here _ ih => rw [List.foldl_cons,List.foldl_cons,here,ih]
  exact from_ .start

/-- A tabulator for a blank, any separators between flags or options, and a newline at the end or
none make no difference in any file. -/
theorem createResolver_alike (env : Environment) (path : Word) {lines lines' : List Line}
    (alike : List.Forall₂ Alike lines lines')
    (whole : ∀ line ∈ lines, '\n' ∉ line.text) (whole' : ∀ line ∈ lines', '\n' ∉ line.text) (newline newline' : Bool) :
    createResolver env path (fileText lines' newline') = createResolver env path (fileText lines newline) := by
  have same : runDirectives env (lines'.filterMap fun line => directive line.text) =
      runDirectives env (lines.filterMap fun line => directive line.text) :=
    runDirectives_alike (List.rel_filterMap (fun _ _ one => rel_alike one) alike)
  change finish env path (runDirectives env (directivesIn _)) = finish env path (runDirectives env (directivesIn _))
  rw [directivesIn_fileText whole,directivesIn_fileText whole']
  exact congrArg (finish env path) same

/-! ## Two blanks -/

def oneAddress : Environment where
  getaddrinfo word := if word = "1.2.3.4".toList then some (.inet 0x01020304 0) else none
  ifNametoindex _ := 0
  strtol _ _ := 0
  isLoopback _ := false
  classMask _ := none
  maxns := 3
  maxdnsrch := 6
  maxresolvsort := 10
  flatfileFlags := 0
  maxns_pos := by decide
  getaddrinfo_nil := by decide
  ifNametoindex_nil := rfl
  strtol_nil _ := rfl

def nameserverLine : Line where
  lead := []
  words := [("nameserver".toList,[' ']),("1.2.3.4".toList,[])]
  leading := by simp
  proper := by simp [isSep]
  between := by decide

/-- With a second blank the name server is lost. -/
theorem secondBlank_nameserver :
    Respaced "nameserver 1.2.3.4\n".toList "nameserver  1.2.3.4\n".toList ∧
      createResolver oneAddress "default".toList "nameserver  1.2.3.4\n".toList ≠
        createResolver oneAddress "default".toList "nameserver 1.2.3.4\n".toList := by
  constructor
  · have same : List.Forall₂ Spaced.Respaced [nameserverLine] [blanked 0 1 nameserverLine] :=
      .cons (respaced_blanked nameserverLine 0 1) .nil
    have respaced : Respaced (fileText [nameserverLine] true) (fileText [blanked 0 1 nameserverLine] true) :=
      .lines same (by decide) id
    have before : fileText [nameserverLine] true = "nameserver 1.2.3.4\n".toList := by decide
    have after : fileText [blanked 0 1 nameserverLine] true = "nameserver  1.2.3.4\n".toList := by decide
    rw [before,after] at respaced
    exact respaced
  · decide

end FreebsdLaunchd.Dnsinfo
