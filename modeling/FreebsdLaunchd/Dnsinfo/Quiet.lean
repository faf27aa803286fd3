import FreebsdLaunchd.Dnsinfo.Effective
import FreebsdLaunchd.Dnsinfo.Spacing

/-! Lines that add nothing to the resolver. An empty word in the place of an option is no
domain, no address and no interface, and as a number it is the default 0. -/
namespace FreebsdLaunchd.Dnsinfo

/-- What the words of a line make is what the resolver has without them. -/
def Quiet (env : Environment) : Token → List Word → Prop
  | .domain,words => domainOf words = none
  | .interface,words => interfaceOf env words = none
  | .nameserver,words => nameserverOf env words = none
  | .port,words => numberOf env 16 words = 0
  | .searchOrder,words | .timeout,words => numberOf env 32 words = 0
  | .search,words => searchDomains env words = []
  | .sortlist,words => sortlist env env.maxresolvsort words = []
  | .flags,_ | .options,_ => True

variable {env : Environment} {token : Token} {words words' : List Word} {word : Word}
  {lines lines' : Token → List (List Word)} {n : Nat}

/-! ## The first word -/

private theorem sortlist_nil (n : Nat) : sortlist env n [] = [] := by cases n <;> rfl

private theorem sortlist_empty (n : Nat) (words : List Word) : sortlist env n ([]::words) = [] := by
  cases n with
  | zero => rfl
  | succ n => simp [sortlist,parseSortaddr,env.getaddrinfo_nil]

private theorem sortlist_head (n : Nat) (word : Word) (words : List Word) :
    sortlist env n (word::words) = [] ↔ n = 0 ∨ parseSortaddr env word = none := by
  cases n with
  | zero => simp [sortlist]
  | succ n => cases parsed : parseSortaddr env word <;> simp [sortlist,parsed]

/-- Of all but a search list the first word alone decides. -/
theorem quiet_head (single : token ≠ .search) : Quiet env token (word::words) ↔ Quiet env token [word] := by
  cases token with
  | search => exact absurd rfl single
  | sortlist => rw [Quiet,Quiet,sortlist_head,sortlist_head]
  | _ => exact Iff.rfl

theorem quiet_nil (env : Environment) (token : Token) : Quiet env token [] := by
  cases token with
  | sortlist => exact sortlist_nil _
  | _ => simp [Quiet,domainOf,interfaceOf,nameserverOf,numberOf,searchDomains]

private theorem numberUpTo_nil (env : Environment) (most : Nat) : numberUpTo env most [] = some 0 := by
  simp [numberUpTo,env.strtol_nil]

private theorem numberOf_empty (env : Environment) (bits : Nat) (words : List Word) :
    numberOf env bits ([]::words) = 0 := by
  rw [numberOf,List.head?_cons,Option.bind_some,numberUpTo_nil]
  rfl

private theorem parseNameserver_nil (env : Environment) : parseNameserver env [] = none := by
  rw [parseNameserver,env.getaddrinfo_nil]
  rfl

private theorem quiet_empty (single : token ≠ .search) : Quiet env token ([]::words) := by
  cases token with
  | search => exact absurd rfl single
  | sortlist => exact sortlist_empty _ _
  | port | searchOrder | timeout => exact numberOf_empty env _ words
  | nameserver => exact parseNameserver_nil env
  | domain =>
    have nothing : trimDomain [] = [] := List.rdropWhile_nil _
    rw [Quiet,domainOf,List.head?_cons,Option.bind_some,if_neg (not_not.mpr nothing)]
  | interface => simp [Quiet,interfaceOf,env.ifNametoindex_nil]
  | flags | options => trivial

/-! ## A search list -/

private theorem quiet_search : Quiet env .search words ↔ ∀ word ∈ words.take env.maxdnsrch, trimDomain word = [] := by
  rw [Quiet,searchDomains,List.filter_eq_nil_iff,List.forall_mem_map]
  simp

/-- Without empty words the others come no later. -/
theorem mem_take_proper (member : word ∈ words.take n) (some_ : word ≠ []) : word ∈ (proper words).take n := by
  induction words generalizing n with
  | nil => simp at member
  | cons first rest ih =>
    cases n with
    | zero => simp at member
    | succ n =>
      rw [List.take_succ_cons] at member
      by_cases empty : first = []
      · have later : word ∈ rest.take n := (List.mem_cons.mp member).resolve_left fun same => some_ (same.trans empty)
        have kept : proper (first::rest) = proper rest := List.filter_cons_of_neg (by simp [empty])
        rw [kept]
        exact List.take_subset_take_left _ (Nat.le_succ n) (ih later)
      · have kept : proper (first::rest) = first::proper rest := List.filter_cons_of_pos (by simpa using empty)
        rw [kept,List.take_succ_cons]
        exact List.mem_cons.mpr ((List.mem_cons.mp member).imp_right ih)

/-! ## Empty words among the others -/

theorem quiet_of_proper (quiet : Quiet env token (proper words)) : Quiet env token words := by
  by_cases search : token = .search
  · subst search
    rw [quiet_search] at quiet ⊢
    intro word member
    by_cases empty : word = []
    · subst empty
      rfl
    · exact quiet word (mem_take_proper member empty)
  · cases words with
    | nil => exact quiet
    | cons word words =>
      by_cases empty : word = []
      · subst empty
        exact quiet_empty search
      · have kept : proper (word::words) = word::proper words := List.filter_cons_of_pos (by simpa using empty)
        rw [kept,quiet_head search] at quiet
        exact (quiet_head search).mpr quiet

/-- Behind empty words no word is an option, or one of the domains that are looked at. -/
theorem quiet_behind (words : List Word) (some_ : 0 < n) (many : env.maxdnsrch ≤ n) :
    Quiet env token (List.replicate n [] ++ words) := by
  by_cases search : token = .search
  · subst search
    rw [quiet_search,List.take_append_of_le_length (by simpa using many),List.take_replicate]
    intro word member
    rw [List.eq_of_mem_replicate member]
    rfl
  · obtain ⟨n,rfl⟩ := Nat.exists_eq_succ_of_ne_zero some_.ne'
    rw [List.replicate_succ,List.cons_append]
    exact quiet_empty search

theorem quiet_of_append (quiet : Quiet env token (words ++ words')) (some_ : words ≠ []) : Quiet env token words := by
  by_cases search : token = .search
  · subst search
    rw [quiet_search] at quiet ⊢
    intro word member
    apply quiet word
    rw [List.take_append]
    exact List.mem_append_left _ member
  · obtain ⟨word,words,rfl⟩ := List.exists_cons_of_ne_nil some_
    rw [List.cons_append,quiet_head search] at quiet
    exact (quiet_head search).mpr quiet

/-! ## The resolver -/

section
variable {α β : Type} {list : List α}

private theorem elim_head (one : list.length ≤ 1) (b : β) (f : α → β) :
    list.head?.elim b f = b ↔ ∀ a ∈ list, f a = b := by
  match list with
  | [] => simp
  | [a] => simp
  | _::_::_ => simp at one

theorem bind_head (one : list.length ≤ 1) (f : α → Option β) : list.head?.bind f = none ↔ ∀ a ∈ list, f a = none := by
  rw [← elim_head one]
  cases list.head? <;> rfl

end

/-- A resolver from quiet lines has no more than its options. -/
theorem quiet_iff (single : ∀ token, token ≠ .nameserver → (lines token).length ≤ 1) :
    (∀ token, ∀ words ∈ lines token, Quiet env token words) ↔
      assemble env lines = { options := (lines .options).head?.bind joinOptions } := by
  have one (token) (other : token ≠ .nameserver) := single token other
  rw [assemble,Resolver.mk.injEq,bind_head (one .domain (by decide)),List.filterMap_eq_nil_iff,elim_head (one .search (by decide)),
    elim_head (one .sortlist (by decide)),elim_head (one .port (by decide)),elim_head (one .timeout (by decide)),
    elim_head (one .searchOrder (by decide)),bind_head (one .interface (by decide))]
  constructor
  · intro quiet
    have servers : (lines .nameserver).filterMap (nameserverOf env) = [] := List.filterMap_eq_nil_iff.mpr (quiet .nameserver)
    refine ⟨quiet .domain,quiet .nameserver,quiet .search,quiet .sortlist,rfl,quiet .port,quiet .timeout,quiet .searchOrder,
      quiet .interface,?_⟩
    rw [servers]
    rfl
  · rintro ⟨domain,nameserver,search,sortlist,-,port,timeout,searchOrder,interface,-⟩ token
    cases token with
    | domain => exact domain
    | interface => exact interface
    | nameserver => exact nameserver
    | port => exact port
    | search => exact search
    | searchOrder => exact searchOrder
    | sortlist => exact sortlist
    | timeout => exact timeout
    | flags | options => exact fun _ _ => trivial

end FreebsdLaunchd.Dnsinfo
