import FreebsdLaunchd.Dnsinfo.Flatfile
import Mathlib.Data.List.Induction

/-! The resolver by its directives: each of its parts is made from the first lines with
its token and an option, of which most tokens have one. -/
namespace FreebsdLaunchd.Dnsinfo
open DnsConfiguration (DNS_RESOLVER_FLAGS_REQUEST_ALL_RECORDS)

abbrev Directive := Token × List Word

def optioned (token : Token) (directives : List Directive) : List (List Word) :=
  (directives.filter fun d => d.1 = token ∧ d.2 ≠ []).map Prod.snd

def effective (env : Environment) (directives : List Directive) (token : Token) : List (List Word) :=
  (optioned token directives).take (token.maxCount env)

/-! ## The parts of a resolver, by the words of a line -/

def domainOf (words : List Word) : Option Word := words.head?.bind fun word =>
    if trimDomain word ≠ [] then some (trimDomain word) else none

def interfaceOf (env : Environment) (words : List Word) : Option (BitVec 32 × Word) :=
  words.head?.bind fun word => if env.ifNametoindex word ≠ 0 then some (env.ifNametoindex word,word) else none

def nameserverOf (env : Environment) (words : List Word) : Option Sockaddr := words.head?.bind (parseNameserver env)

def numberOf (env : Environment) (bits : Nat) (words : List Word) : BitVec bits :=
  BitVec.ofInt bits ((words.head?.bind (numberUpTo env (2^bits-1))).getD 0)

def hostFlags (env : Environment) (nameservers : List Sockaddr) : BitVec 32 :=
  nameservers.foldl (fun flags sa => if env.isLoopback sa then flags ||| DNS_RESOLVER_FLAGS_REQUEST_ALL_RECORDS else flags) 0

def assemble (env : Environment) (lines : Token → List (List Word)) : Resolver where
  domain := (lines .domain).head?.bind domainOf
  nameservers := (lines .nameserver).filterMap (nameserverOf env)
  search := (lines .search).head?.elim [] (searchDomains env)
  sortaddrs := (lines .sortlist).head?.elim [] (sortlist env env.maxresolvsort)
  options := (lines .options).head?.bind joinOptions
  port := (lines .port).head?.elim 0 (numberOf env 16)
  timeout := (lines .timeout).head?.elim 0 (numberOf env 32)
  order := (lines .searchOrder).head?.elim 0 (numberOf env 32)
  interface := (lines .interface).head?.bind (interfaceOf env)
  flags := hostFlags env ((lines .nameserver).filterMap (nameserverOf env))

variable {env : Environment} {directives : List Directive} {token : Token} {lines lines' : Token → List (List Word)} {word : Word}
  {words : List Word}

/-! ## A directive makes one part -/

private theorem applyDirective_domain {res : Resolver} (unset : res.domain = none) :
    applyDirective env .domain word words res = { res with domain := domainOf (word::words) } := by
  unfold applyDirective
  dsimp only
  rw [domainOf,List.head?_cons,Option.bind_some]
  split
  · rfl
  · rw [← unset]

private theorem applyDirective_interface {res : Resolver} (unset : res.interface = none) :
    applyDirective env .interface word words res = { res with interface := interfaceOf env (word::words) } := by
  unfold applyDirective
  dsimp only
  rw [interfaceOf,List.head?_cons,Option.bind_some]
  split
  · rfl
  · rw [← unset]

private theorem applyDirective_options {res : Resolver} (unset : res.options = none) :
    applyDirective env .options word words res = { res with options := joinOptions (word::words) } := by
  unfold applyDirective
  dsimp only
  split
  next joined => rw [joined]
  next none => rw [none,← unset]

private theorem numberOf_some (bits : Nat) {number : Int} (there : numberUpTo env (2^bits-1) word = some number) :
    numberOf env bits (word::words) = BitVec.ofInt bits number := by simp [numberOf,there]

private theorem numberOf_none (bits : Nat) (absent : numberUpTo env (2^bits-1) word = none) :
    numberOf env bits (word::words) = 0 := by
  simp [numberOf,absent]

private theorem applyDirective_port {res : Resolver} (unset : res.port = 0) :
    applyDirective env .port word words res = { res with port := numberOf env 16 (word::words) } := by
  unfold applyDirective
  dsimp only
  split
  next number => rw [numberOf_some 16 number]
  next absent => rw [numberOf_none 16 absent,← unset]

private theorem applyDirective_searchOrder {res : Resolver} (unset : res.order = 0) :
    applyDirective env .searchOrder word words res = { res with order := numberOf env 32 (word::words) } := by
  unfold applyDirective
  dsimp only
  split
  next number => rw [numberOf_some 32 number]
  next absent => rw [numberOf_none 32 absent,← unset]

private theorem applyDirective_timeout {res : Resolver} (unset : res.timeout = 0) :
    applyDirective env .timeout word words res = { res with timeout := numberOf env 32 (word::words) } := by
  unfold applyDirective
  dsimp only
  split
  next number => rw [numberOf_some 32 number]
  next absent => rw [numberOf_none 32 absent,← unset]

private theorem assemble_append (others : ∀ other, other ≠ token → lines' other = lines other)
    (added : lines' token = lines token ++ [word::words]) (fresh : token ≠ .nameserver → lines token = []) :
    assemble env lines' = applyDirective env token word words (assemble env lines) := by
  by_cases several : token = .nameserver
  · subst several
    rw [applyDirective]
    cases parsed : parseNameserver env word with
    | none => simp [assemble,others,added,nameserverOf,parsed]
    | some sa => simp [assemble,others,added,nameserverOf,parsed,addNameserver,hostFlags]
  · have empty := fresh several
    rw [empty,List.nil_append] at added
    cases token with
    | nameserver => exact absurd rfl several
    | domain =>
      rw [applyDirective_domain (by simp [assemble,empty])]
      simp [assemble,others,added]
    | interface =>
      rw [applyDirective_interface (by simp [assemble,empty])]
      simp [assemble,others,added]
    | options =>
      rw [applyDirective_options (by simp [assemble,empty])]
      simp [assemble,others,added]
    | port =>
      rw [applyDirective_port (by simp [assemble,empty])]
      simp [assemble,others,added]
    | searchOrder =>
      rw [applyDirective_searchOrder (by simp [assemble,empty])]
      simp [assemble,others,added]
    | timeout =>
      rw [applyDirective_timeout (by simp [assemble,empty])]
      simp [assemble,others,added]
    | flags | search | sortlist => simp [assemble,applyDirective,others,added,empty]

/-! ## All directives -/

private theorem optioned_append (token : Token) (directives : List Directive) (d : Directive) :
    optioned token (directives ++ [d]) = optioned token directives ++ (if d.1 = token ∧ d.2 ≠ [] then [d.2] else []) := by
  rw [optioned,List.filter_append,List.map_append,← optioned]
  by_cases there : d.1 = token ∧ d.2 ≠ []
  · simp [there]
  · rw [if_neg there,List.filter_cons_of_neg (by simpa using there)]
    rfl

theorem maxCount_pos (env : Environment) (token : Token) : 0 < token.maxCount env := by
  cases token with
  | nameserver => exact env.maxns_pos
  | _ => exact Nat.one_pos

theorem maxCount_single (env : Environment) (single : token ≠ .nameserver) : token.maxCount env = 1 := by
  cases token <;> first | rfl | exact absurd rfl single

def Any (directives : List Directive) : Prop := ∃ d ∈ directives, d.2 ≠ []

/-- The lines of a token that has had its number of lines are no more. -/
theorem effective_append (env : Environment) (directives : List Directive) (d : Directive) (token : Token) :
    effective env (directives ++ [d]) token = effective env directives token ++
      (if d.1 = token ∧ d.2 ≠ [] ∧ (optioned token directives).length < token.maxCount env then [d.2] else []) := by
  rw [effective,optioned_append,List.take_append,← effective]
  congr 1
  by_cases there : d.1 = token ∧ d.2 ≠ []
  · rw [if_pos there]
    by_cases room : (optioned token directives).length < token.maxCount env
    · rw [if_pos ⟨there.1,there.2,room⟩,List.take_of_length_le]
      rw [List.length_singleton]
      exact Nat.sub_pos_of_lt room
    · rw [if_neg fun all => room all.2.2,Nat.sub_eq_zero_of_le (Nat.le_of_not_lt room),List.take_zero]
  · rw [if_neg there,if_neg fun all => there ⟨all.1,all.2.1⟩,List.take_nil]

private theorem any_append {directives : List Directive} {d : Directive} :
    Any (directives ++ [d]) ↔ Any directives ∨ d.2 ≠ [] := by
  simp [Any,or_and_right,exists_or]

private theorem any_of_optioned (some_ : optioned token directives ≠ []) : Any directives := by
  obtain ⟨words,rest,list⟩ := List.exists_cons_of_ne_nil some_
  have member : words ∈ optioned token directives := list ▸ List.mem_cons_self
  obtain ⟨d,there,rfl⟩ := List.mem_map.mp member
  obtain ⟨there,option⟩ := List.mem_filter.mp there
  exact ⟨d,there,(of_decide_eq_true option).2⟩

structure Reached (env : Environment) (directives : List Directive) (p : Progress) : Prop where
  tokenCount : ∀ token, p.tokenCount token = (optioned token directives).length
  configFlags : p.configFlags = (effective env directives .flags).head?.elim 0 (addFlags 0)
  res : p.res.getD {} = assemble env (effective env directives)
  created : p.res.isSome ↔ Any directives

theorem Reached.step {p : Progress} (reached : Reached env directives p) (d : Directive) :
    Reached env (directives ++ [d]) (step env p d) := by
  obtain ⟨token,line⟩ := d
  obtain ⟨tokenCount,configFlags,res,created⟩ := reached
  cases line with
  | nil =>
    have same (token') : effective env (directives ++ [(token,[])]) token' = effective env directives token' := by
      rw [effective_append,if_neg (by simp),List.append_nil]
    refine ⟨fun token' => ?_,?_,?_,?_⟩
    · rw [optioned_append,if_neg (by simp),List.append_nil]
      exact tokenCount token'
    · rw [same]
      exact configFlags
    · rw [funext same]
      exact res
    · rw [any_append]
      exact created.trans (by simp)
  | cons word words =>
    have counted (token') : Function.update p.tokenCount token (p.tokenCount token + 1) token' =
        (optioned token' (directives ++ [(token,word::words)])).length := by
      rw [optioned_append,List.length_append,tokenCount]
      by_cases same : token' = token
      · simp [same]
      · simp [same,Ne.symm same,tokenCount]
    have any : Any (directives ++ [(token,word::words)]) := any_append.mpr (.inr (List.cons_ne_nil _ _))
    by_cases room : (optioned token directives).length < token.maxCount env
    · have others (token') (other : token' ≠ token) :
          effective env (directives ++ [(token,word::words)]) token' = effective env directives token' := by
        rw [effective_append,if_neg fun all => other all.1.symm,List.append_nil]
      have added : effective env (directives ++ [(token,word::words)]) token = effective env directives token ++ [word::words] := by
        rw [effective_append,if_pos ⟨rfl,List.cons_ne_nil _ _,room⟩]
      have fresh (single : token ≠ .nameserver) : effective env directives token = [] := by
        rw [maxCount_single env single,Nat.lt_one_iff,List.length_eq_zero_iff] at room
        rw [effective,room,List.take_nil]
      have allowed : ¬ p.tokenCount token + 1 > token.maxCount env := by
        rw [tokenCount]
        omega
      simp only [Dnsinfo.step,if_neg allowed]
      refine ⟨counted,?_,?_,?_⟩
      · by_cases flags : token = .flags
        · subst flags
          rw [added,fresh (by decide),if_pos rfl,configFlags,fresh (by decide)]
          rfl
        · rw [others _ (Ne.symm flags),if_neg flags]
          exact configFlags
      · rw [Option.getD_some,res]
        exact (assemble_append others added fresh).symm
      · simp [any]
    · have same (token') : effective env (directives ++ [(token,word::words)]) token' = effective env directives token' := by
        have absent : ¬ (token = token' ∧ word::words ≠ [] ∧ (optioned token' directives).length < token'.maxCount env) := by
          rintro ⟨rfl,_,less⟩
          exact room less
        rw [effective_append,if_neg absent,List.append_nil]
      have refused : p.tokenCount token + 1 > token.maxCount env := by
        rw [tokenCount]
        omega
      simp only [Dnsinfo.step,if_pos refused]
      refine ⟨counted,?_,?_,?_⟩
      · rw [same]
        exact configFlags
      · rw [funext same]
        exact res
      · have earlier : optioned token directives ≠ [] := fun none => room (by rw [none]; exact maxCount_pos env token)
        exact iff_of_true (created.mpr (any_of_optioned earlier)) any

theorem reached (env : Environment) (directives : List Directive) :
    Reached env directives (runDirectives env directives) := by
  induction directives using List.reverseRecOn with
  | nil =>
    have none (token) : effective env [] token = [] := by simp [effective,optioned]
    refine ⟨fun _ => rfl,?_,?_,?_⟩
    · rw [none]
      rfl
    · simp [assemble,none,hostFlags,runDirectives,Progress.start]
    · simp [Any,runDirectives,Progress.start]
  | append_singleton directives d ih =>
    rw [runDirectives,List.foldl_append]
    exact ih.step d

end FreebsdLaunchd.Dnsinfo
