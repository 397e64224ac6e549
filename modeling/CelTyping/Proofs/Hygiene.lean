import CelTyping.Proofs.Shadowing
import CelTyping.Proofs.Supply
import Mathlib.Data.List.Induction
import Mathlib.Data.Set.Function

/-! Type variables do not get mixed up. The signature of an overload is used with type variables
in the place of its own parameters, numbered on from all that were made before, so an instance
shares no parameter with anything that the session holds on to, nor with its own signature. This
is an invariant of the counter: the numbers in use are below it, as long as nothing declared has
a parameter named like a type variable. -/
namespace CelTyping

section Numbers

def varName (n : Nat) : String := "_var" ++ Nat.repr n

theorem varName_injective : Function.Injective varName := by
  -- The digits can be read back.
  intro m n h
  have hdigits : Nat.toDigits 10 m = Nat.toDigits 10 n := by
    simpa [varName] using congrArg String.toList h
  rw [← Nat.ofDigitChars_ten_toDigits (n := m), hdigits, Nat.ofDigitChars_ten_toDigits]

def Unnumbered (p : String) : Prop := ∀ n, p ≠ varName n

/-- Parameters that are named like type variables are ones that have been made. -/
def Supply.numbered : Supply where
  param n p := ∀ k, p = varName k → k < n
  mistake _ _ := True
  param_mono hle h k hk := Nat.lt_of_lt_of_le (h k hk) hle
  mistake_mono _ h := h
  param_fresh n := by
    intro k hk
    rw [varName_injective hk]
    exact Nat.lt_succ_self k
  mistake_reported _ := trivial

end Numbers

section Renaming

theorem Ty.mem_paramNamesAll {ts : List Ty} {p : String} :
    p ∈ Ty.paramNamesAll ts ↔ ∃ t ∈ ts, p ∈ t.paramNames := by
  induction ts with
  | nil => simp [Ty.paramNamesAll]
  | cons t ts ih => simp [Ty.paramNamesAll, ih]

theorem Bindings.resolve_of_get?_param {m : Bindings} {unbound : String → Ty} {p q : String}
    (hp : m.get? p = some (.param q)) (hq : m.get? q = none) :
    m.resolve unbound m.size p = unbound q := by
  have hsize : m.size ≠ 0 := by
    intro h
    have hm : m.entries = [] := List.length_eq_zero_iff.1 h
    rw [Table.get?, hm] at hp
    cases hp
  have hleft : (m.erase p).get? q = none := by
    rw [Table.get?_erase]
    split
    next => rfl
    next => exact hq
  obtain ⟨n, hn⟩ := Nat.exists_eq_succ_of_ne_zero hsize
  simp only [hn, Bindings.resolve, hp, Ty.replace]
  cases n with
  | zero => rfl
  | succ n => simp only [Bindings.resolve, hleft]

mutual

theorem Ty.paramNames_rename (ρ : String → String) (t : Ty) :
    (t.replace fun p => .param (ρ p)).paramNames = t.paramNames.map ρ := by
  cases t with
  | list t | wrapper t | type t | optional t => exact Ty.paramNames_rename ρ t
  | map k v =>
    simp only [Ty.replace, Ty.paramNames, List.map_append, Ty.paramNames_rename ρ k,
      Ty.paramNames_rename ρ v]
  | abstract n ps => exact Ty.paramNamesAll_rename ρ ps
  | function r ps =>
    simp only [Ty.replace, Ty.paramNames, List.map_append, Ty.paramNames_rename ρ r,
      Ty.paramNamesAll_rename ρ ps]
  | param p | scalar _ | message _ | error _ => rfl

theorem Ty.paramNamesAll_rename (ρ : String → String) (ts : List Ty) :
    Ty.paramNamesAll (Ty.replaceAll (fun p => .param (ρ p)) ts) =
      (Ty.paramNamesAll ts).map ρ := by
  cases ts with
  | nil => rfl
  | cons t ts =>
    simp only [Ty.replaceAll, Ty.paramNamesAll, List.map_append, Ty.paramNames_rename ρ t,
      Ty.paramNamesAll_rename ρ ts]

end

namespace Overload

variable {o : Overload} {p : String}

def Uses (o : Overload) (p : String) : Prop :=
  p ∈ o.typeParams ∨ p ∈ Ty.paramNamesAll o.params ∨ p ∈ o.result.paramNames

@[simp] theorem mem_typeParamNames : p ∈ o.typeParamNames ↔ o.Uses p := by
  have hmentioned : p ∈ (Table.ofList
      ((Ty.paramNamesAll o.params ++ o.result.paramNames).map (·, ()))).keys ↔
      p ∈ Ty.paramNamesAll o.params ∨ p ∈ o.result.paramNames := by
    rw [Table.mem_keys_ofList, List.map_map, List.mem_map]
    simp
  simp only [typeParamNames, List.mem_append, List.mem_filter, hmentioned, Uses]
  by_cases hdeclared : p ∈ o.typeParams
  · simp [hdeclared]
  · simp [hdeclared]

def rename (o : Overload) (ρ : String → String) : Ty × List Ty :=
  (o.result.replace fun p => .param (ρ p), o.params.map (Ty.replace fun p => .param (ρ p)))

end Overload

end Renaming

namespace Session

section Instances

variable (s : Session)

theorem freshVars_concat (names : List String) (name : String) :
    s.freshVars (names ++ [name]) =
      ((s.freshVars names).1.insert name (s.freshVars names).2.freshVar.1,
        (s.freshVars names).2.freshVar.2) := by
  simp [freshVars, List.foldl_append]

/-- Each name has a number of its own, also where names are repeated: the last one counts. -/
theorem freshVars_spec (names : List String) :
    (s.freshVars names).2 = { s with nextVar := s.nextVar + names.length } ∧
      ∃ index : String → Nat, Set.InjOn index {p | p ∈ names} ∧
        (∀ p ∈ names, index p < names.length) ∧
        ∀ p, (s.freshVars names).1.get? p =
          if p ∈ names then some (.param (varName (s.nextVar + index p))) else none := by
  induction names using List.reverseRecOn with
  | nil => exact ⟨rfl, fun _ => 0, by simp, by simp, fun _ => rfl⟩
  | append_singleton names name ih =>
    obtain ⟨hs, index, hinj, hlt, hget⟩ := ih
    have hold {p : String} (hp : p ∈ names ++ [name]) (hne : p ≠ name) : p ∈ names := by
      simpa [hne] using hp
    rw [freshVars_concat, hs]
    refine ⟨by simp [freshVar, Nat.add_assoc], Function.update index name names.length,
      ?_, ?_, ?_⟩
    · intro p hp q hq heq
      by_cases hpn : p = name
      · by_cases hqn : q = name
        · rw [hpn, hqn]
        · have hq := hlt q (hold hq hqn)
          simp only [hpn, Function.update_self, Function.update_of_ne hqn] at heq
          omega
      · have hp' := hlt p (hold hp hpn)
        by_cases hqn : q = name
        · simp only [hqn, Function.update_self, Function.update_of_ne hpn] at heq
          omega
        · rw [Function.update_of_ne hpn, Function.update_of_ne hqn] at heq
          exact hinj (hold hp hpn) (hold hq hqn) heq
    · intro p hp
      rw [List.length_append, List.length_singleton]
      by_cases hpn : p = name
      · rw [hpn, Function.update_self]
        exact Nat.lt_succ_self _
      · rw [Function.update_of_ne hpn]
        exact Nat.lt_succ_of_lt (hlt p (hold hp hpn))
    · intro p
      by_cases hpn : p = name
      · subst hpn
        simp [freshVar, varName]
      · rw [Table.get?_insert_of_ne _ _ hpn, hget, Function.update_of_ne hpn]
        simp [hpn]

variable {s} {o : Overload}

theorem instantiate_spec (ho : ∀ p, o.Uses p → Unnumbered p) :
    (s.instantiate o).2 = { s with nextVar := s.nextVar + o.typeParamNames.length } ∧
      ∃ index : String → Nat, Set.InjOn index {p | o.Uses p} ∧
        (∀ p, o.Uses p → index p < o.typeParamNames.length) ∧
        (s.instantiate o).1 = o.rename fun p => varName (s.nextVar + index p) := by
  obtain ⟨hs, index, hinj, hlt, hget⟩ := s.freshVars_spec o.typeParamNames
  simp only [Overload.mem_typeParamNames] at hinj hlt
  refine ⟨hs, index, hinj, hlt, ?_⟩
  have hvar (n : Nat) : (s.freshVars o.typeParamNames).1.get? (varName n) = none := by
    rw [hget, if_neg]
    exact fun hmem => ho _ (Overload.mem_typeParamNames.1 hmem) n rfl
  have hinstance (t : Ty) (ht : ∀ p ∈ t.paramNames, o.Uses p) :
      (s.freshVars o.typeParamNames).1.substitute t false =
        t.replace fun p => .param (varName (s.nextVar + index p)) := by
    refine Ty.replace_congr t fun p hp => ?_
    have hp : (s.freshVars o.typeParamNames).1.get? p =
        some (.param (varName (s.nextVar + index p))) := by
      rw [hget, if_pos (Overload.mem_typeParamNames.2 (ht p hp))]
    exact Bindings.resolve_of_get?_param hp (hvar _)
  have hresult := hinstance o.result fun p hp => .inr (.inr hp)
  have hparams : o.params.map ((s.freshVars o.typeParamNames).1.substitute · false) =
      o.params.map (Ty.replace fun p => .param (varName (s.nextVar + index p))) := by
    refine List.map_congr_left fun t ht => hinstance t fun p hp => .inr (.inl ?_)
    exact Ty.mem_paramNamesAll.2 ⟨t, ht, hp⟩
  rw [Overload.rename, ← hresult, ← hparams]
  rfl

end Instances

end Session

section Environments

theorem unnumbered_of_head? {p : String} (h : p.toList.head? ≠ some '_') : Unnumbered p := by
  rintro n rfl
  exact h (by simp [varName])

structure Environment.Unnumbered (env : Environment) : Prop where
  globals : env.globals.All fun v => ∀ p ∈ v.type.paramNames, CelTyping.Unnumbered p
  functions : env.functions.All fun f => ∀ o ∈ f.overloads, ∀ p, o.Uses p → CelTyping.Unnumbered p
  fields : ∀ name m, env.registry.message? name = some m →
    m.fields.All fun t => ∀ p ∈ t.paramNames, CelTyping.Unnumbered p

theorem Session.makes_numbered {s : Session} {t : Ty} (h : ∀ p ∈ t.paramNames, Unnumbered p) :
    s.Makes .numbered t :=
  ⟨fun p hp k hk => absurd hk (h p hp k), fun _ _ => trivial⟩

theorem Overload.madeFrom_numbered {o : Overload} (ho : ∀ p, o.Uses p → Unnumbered p) :
    o.MadeFrom .numbered := by
  intro s
  obtain ⟨hs, index, _, hlt, heq⟩ := s.instantiate_spec ho
  have hrename (t : Ty) (ht : ∀ p ∈ t.paramNames, o.Uses p) :
      (s.instantiate o).2.Makes .numbered
        (t.replace fun p => .param (varName (s.nextVar + index p))) := by
    refine ⟨fun q hq k hk => ?_, fun _ _ => trivial⟩
    rw [Ty.paramNames_rename] at hq
    obtain ⟨p, hp, rfl⟩ := List.mem_map.1 hq
    rw [← varName_injective hk, hs]
    exact Nat.add_lt_add_left (hlt p (ht p hp)) _
  rw [heq]
  refine ⟨hrename o.result fun p hp => .inr (.inr hp), fun t ht => ?_⟩
  obtain ⟨u, hu, rfl⟩ := List.mem_map.1 ht
  exact hrename u fun p hp => .inr (.inl (Ty.mem_paramNamesAll.2 ⟨u, hu, hp⟩))

theorem Environment.Unnumbered.madeFrom {env : Environment} (henv : env.Unnumbered) :
    env.MadeFrom .numbered where
  globals := henv.globals.mono fun _ hv _ => Session.makes_numbered hv
  functions := henv.functions.mono fun _ hf o ho => Overload.madeFrom_numbered (hf o ho)
  fields name m hm := (henv.fields name m hm).mono fun _ ht _ => Session.makes_numbered ht

end Environments

namespace Session

section Mentioning

/-- The parameter occurs in a recorded type, in the type of a variable in scope, or in the
bindings. -/
inductive Mentions (s : Session) : String → Prop where
  | type {node : NodeId} {t : Ty} {p : String} :
      s.types.get? node = some t → p ∈ t.paramNames → Mentions s p
  | scope {frame : Scope} {name : String} {v : Variable} {p : String} :
      frame ∈ s.scopes.root :: s.scopes.inner → frame.get? name = some v →
        p ∈ v.type.paramNames → Mentions s p
  | bound {p : String} {t : Ty} : s.bindings.bindings.get? p = some t → Mentions s p
  | binding {p q : String} {t : Ty} :
      s.bindings.bindings.get? q = some t → p ∈ t.paramNames → Mentions s p

theorem MadeFrom.not_mentions {s : Session} (hs : s.MadeFrom .numbered) {k : Nat}
    (hk : s.nextVar ≤ k) : ¬ s.Mentions (varName k) := by
  intro h
  refine Nat.not_lt.2 hk ?_
  generalize hp : varName k = p at h
  cases h with
  | type ht hmem => exact (hs.types _ _ ht).1 p hmem k hp.symm
  | scope hframe hv hmem => exact (hs.scopes _ hframe _ _ hv).1 p hmem k hp.symm
  | bound ht => exact (hs.bindings p _ ht).1 k hp.symm
  | binding ht hmem => exact (hs.bindings _ _ ht).2.1 p hmem k hp.symm

end Mentioning

end Session

section Calls

inductive Comes (env : Environment) : Expr → Session → Expr → Session → Prop where
  | here {e : Expr} {s : Session} : s.depth < env.maxDepth → Comes env e s e s.deeper
  | child {e n m : Expr} {names : List String} {s t u : Session} :
      Comes env e s n t → Enters env n t names m u → u.depth < env.maxDepth →
        Comes env e s m u.deeper

/-- Resolving a call of the function tries the overload after some others, which has come to the
second session by then. -/
inductive Tries (env : Environment) (f : Function) (isMember : Bool) (args : List NodeId)
    (s : Session) : Session → Overload → Prop where
  | intro {before after : List Overload} {o : Overload} :
      Operator.isLogical f.name = false → env.eligible f isMember = before ++ o :: after →
        Tries env f isMember args s
          (Session.matchOverloads f.name (args.map s.typeOf) before none s).2 o

/-- Checking the expression makes an instance of the overload in the session. -/
inductive Instantiates (env : Environment) (e : Expr) : Session → Overload → Prop where
  | call {id : NodeId} {function : String} {args args' : List Expr} {f : Function}
      {s s₁ u : Session} {o : Overload} :
      Comes env e {} (.call id function args) s → function ≠ Operator.optionalSelect →
      ChecksArgs env args s args' s₁ → env.function? function = some f →
      Tries env f false (args'.map Expr.id) s₁ u o → Instantiates env e u o
  | namespaced {id : NodeId} {target : Expr} {function : String} {args args' : List Expr}
      {f : Function} {s s₁ u : Session} {o : Overload} :
      Comes env e {} (.receiverCall id target function args) s →
      function ≠ Operator.optionalSelect → ChecksArgs env args s args' s₁ →
      (target.qualifiedName?.bind fun name => env.function? (Name.extend name function)) =
        some f →
      Tries env f false (args'.map Expr.id) s₁ u o → Instantiates env e u o
  | member {id : NodeId} {target target' : Expr} {function : String} {args args' : List Expr}
      {f : Function} {s s₁ s₂ u : Session} {o : Overload} :
      Comes env e {} (.receiverCall id target function args) s →
      function ≠ Operator.optionalSelect → ChecksArgs env args s args' s₁ →
      (target.qualifiedName?.bind fun name => env.function? (Name.extend name function)) =
        none →
      Descends env target s₁ target' s₂ → env.function? function = some f →
      Tries env f true (target'.id :: args'.map Expr.id) s₂ u o → Instantiates env e u o

variable {env : Environment} {g : Supply}

theorem Members.madeFrom_start (henv : env.MadeFrom g) {ms : List Member} {kept : Kept}
    {s s' : Session} {es' : List Expr} (h : Members env (Descends env) ms {} s es' kept s')
    (hs : s.MadeFrom g) (htargets : ∀ m ∈ ms, s.MakesTarget g m.place) :
    s'.MadeFrom g ∧ s'.MakesKept g kept :=
  h.madeFrom henv Descends.moves (Descends.madeFrom henv) hs (s.makesKept_empty g) htargets

theorem ChecksArgs.madeFrom (henv : env.MadeFrom g) {es es' : List Expr} {s s' : Session}
    (h : ChecksArgs env es s es' s') (hs : s.MadeFrom g) : s'.MadeFrom g := by
  obtain ⟨_, hm⟩ := h.members
  exact (hm.madeFrom_start henv hs (List.forall_mem_map.2 fun _ _ => trivial)).1

theorem ChecksEntries.madeFrom (henv : env.MadeFrom g) {es es' : List Entry} {k v : Option Ty}
    {s s' : Session} (h : ChecksEntries env es none none s es' k v s') (hs : s.MadeFrom g) :
    s'.MadeFrom g ∧ s'.MakesKept g ⟨k, v⟩ := by
  obtain ⟨_, hm⟩ := h.members
  refine hm.madeFrom_start henv hs fun m hmem => ?_
  obtain ⟨entry, _, hmem⟩ := List.mem_flatMap.1 hmem
  simp only [Entry.members, List.mem_cons, List.not_mem_nil, or_false] at hmem
  rcases hmem with rfl | rfl <;> trivial

theorem Enters.madeFrom (henv : env.MadeFrom g) {e n : Expr} {names : List String}
    {s t : Session} (h : Enters env e s names n t) (hs : s.MadeFrom g) : t.MadeFrom g := by
  cases h with
  | operand _ => exact hs
  | optionalOperand => exact hs
  | argument _ ha => exact ha.madeFrom henv hs
  | receiverArgument _ ha => exact ha.madeFrom henv hs
  | receiver _ ha _ => exact ha.madeFrom henv hs
  | element he =>
    obtain ⟨_, _, hm⟩ := he.members
    exact (hm.madeFrom_start henv hs (List.forall_mem_map.2 fun _ _ => trivial)).1
  | key he => exact (he.madeFrom henv hs).1
  | value he hk =>
    obtain ⟨hs, hkept⟩ := he.madeFrom henv hs
    have hkey := (hkept.later hk.moves).key
    exact ((hk.madeFrom henv hs).joinMember env _ false hkey).session
  | field hv hf =>
    obtain ⟨hs, ht⟩ := hs.enterMessage _ (hs.makes_variable henv hv)
    obtain ⟨_, _, hm⟩ := hf.members
    exact (hm.madeFrom_start henv hs (List.forall_mem_map.2 fun _ _ => ht)).1
  | unknownField _ hf =>
    obtain ⟨_, _, hm⟩ := hf.members
    exact (hm.madeFrom_start henv (hs.failNode _ _) (List.forall_mem_map.2 fun _ _ => trivial)).1
  | range _ _ => exact hs
  | init _ _ hr => exact hr.madeFrom henv hs
  | body hb =>
    cases hb with
    | condition _ _ hr hi => exact (hi.madeFrom henv (hr.madeFrom henv hs)).enterLoop _ _ _ _ _
    | step _ _ hr hi hc =>
      have h₂ := hi.madeFrom henv (hr.madeFrom henv hs)
      exact (hc.madeFrom henv (h₂.enterLoop _ _ _ _ _)).expectType _
        (Session.makes_of_nil _ rfl rfl)
  | @result _ iterVar iterVar2 accuVar range init condition step _ _ _ _ _ _ _ _ _ _ _ _ hr hi hc
      hst =>
    have hm : Members env (Descends env) [.plain range, ⟨init, .start range.id iterVar iterVar2
        accuVar⟩, ⟨condition, .condition⟩, ⟨step, .step⟩] {} s _ _ _ :=
      .cons hr (.cons hi (.cons hc (.cons hst .nil)))
    exact (hm.madeFrom_start henv hs (by simp [Member.plain, Session.MakesTarget])).1

theorem Comes.madeFrom (henv : env.MadeFrom g) {e n : Expr} {s t : Session}
    (h : Comes env e s n t) (hs : s.MadeFrom g) : t.MadeFrom g := by
  induction h with
  | here _ => exact hs.deeper
  | child _ hn _ ih => exact (hn.madeFrom henv (ih hs)).deeper

theorem Tries.madeFrom {f : Function} {isMember : Bool} {args : List NodeId} {s u : Session}
    {o : Overload} (h : Tries env f isMember args s u o) (hf : ∀ o ∈ f.overloads, o.MadeFrom g)
    (hs : s.MadeFrom g) : u.MadeFrom g ∧ o ∈ f.overloads := by
  cases h with
  | @intro before after _ _ heq =>
    have hmem {o' : Overload} (ho : o' ∈ before ++ o :: after) : o' ∈ f.overloads := by
      rw [← heq] at ho
      exact List.mem_of_mem_filter ho
    refine ⟨?_, hmem (List.mem_append_right _ List.mem_cons_self)⟩
    exact (Session.MadeFrom.matchOverloads f.name _ before
      (fun o' ho => hf o' (hmem (List.mem_append_left _ ho))) none hs (hs.makes_args args)
      (by simp)).1

theorem Instantiates.madeFrom {e : Expr} {u : Session} {o : Overload}
    (h : Instantiates env e u o) (henv : env.MadeFrom g) :
    u.MadeFrom g ∧ ∃ name f, env.function? name = some f ∧ o ∈ f.overloads := by
  cases h with
  | @call _ function _ _ f _ _ _ _ hc _ ha hf ht =>
    have hs := ha.madeFrom henv (hc.madeFrom henv (Session.madeFrom_empty g))
    obtain ⟨hu, ho⟩ := ht.madeFrom (Environment.of_function? henv.functions hf) hs
    exact ⟨hu, function, f, hf, ho⟩
  | @namespaced _ _ function _ _ f _ _ _ _ hc _ ha hf ht =>
    obtain ⟨name, _, hf⟩ := Option.bind_eq_some_iff.1 hf
    have hs := ha.madeFrom henv (hc.madeFrom henv (Session.madeFrom_empty g))
    obtain ⟨hu, ho⟩ := ht.madeFrom (Environment.of_function? henv.functions hf) hs
    exact ⟨hu, Name.extend name function, f, hf, ho⟩
  | @member _ _ _ function _ _ f _ _ _ _ _ hc _ ha _ hd hf ht =>
    have hs := ha.madeFrom henv (hc.madeFrom henv (Session.madeFrom_empty g))
    obtain ⟨hu, ho⟩ := ht.madeFrom (Environment.of_function? henv.functions hf)
      (hd.madeFrom henv hs)
    exact ⟨hu, function, f, hf, ho⟩

end Calls

def Session.New (s s' : Session) (q : String) : Prop :=
  ∃ k, s.nextVar ≤ k ∧ k < s'.nextVar ∧ q = varName k

/-- Wherever a check makes an instance of an overload, the type variables it makes for that are
not in use, and the instance is the signature with each parameter renamed to one of its own among
them. None of the parameters of the signature is left. -/
theorem instances_hygienic {env : Environment} {e : Expr} {u : Session} {o : Overload}
    (henv : env.Unnumbered) (h : Instantiates env e u o) :
    (∀ q, u.New (u.instantiate o).2 q → ¬ u.Mentions q) ∧
      (∃ ρ : String → String, Set.InjOn ρ {p | o.Uses p} ∧
        (∀ p, o.Uses p → u.New (u.instantiate o).2 (ρ p)) ∧ (u.instantiate o).1 = o.rename ρ) ∧
      ∀ p, o.Uses p → p ∉ (u.instantiate o).1.1.paramNames ∧
        p ∉ Ty.paramNamesAll (u.instantiate o).1.2 := by
  obtain ⟨hu, name, f, hf, ho⟩ := h.madeFrom henv.madeFrom
  have hnames := Environment.of_function? henv.functions hf o ho
  obtain ⟨hs, index, hinj, hlt, heq⟩ := u.instantiate_spec hnames
  refine ⟨?_, ⟨fun p => varName (u.nextVar + index p), ?_, fun p hp => ?_, heq⟩, fun p hp => ?_⟩
  · rintro q ⟨k, hk, _, rfl⟩
    exact hu.not_mentions hk
  · intro p hp q hq hpq
    exact hinj hp hq (Nat.add_left_cancel (varName_injective hpq))
  · rw [hs]
    exact ⟨_, Nat.le_add_right _ _, Nat.add_lt_add_left (hlt p hp) _, rfl⟩
  · have hout (t : Ty) :
        p ∉ (t.replace fun p => .param (varName (u.nextVar + index p))).paramNames := by
      rw [Ty.paramNames_rename]
      intro hmem
      obtain ⟨q, _, hq⟩ := List.mem_map.1 hmem
      exact hnames p hp _ hq.symm
    rw [heq]
    refine ⟨hout o.result, fun hmem => ?_⟩
    obtain ⟨t, ht, hmem⟩ := Ty.mem_paramNamesAll.1 hmem
    obtain ⟨t, _, rfl⟩ := List.mem_map.1 ht
    exact hout t hmem

theorem Environment.unnumbered_standard : standard.Unnumbered where
  globals := by
    refine .ofList fun e he => ?_
    obtain ⟨⟨name, t⟩, ht, rfl⟩ := List.mem_map.1 he
    have hall : ∀ e ∈ typeNames, e.2.paramNames = [] := by decide +kernel
    simp [Ty.paramNames, hall _ ht]
  functions := by
    have hall : ∀ f ∈ Standard.functions, ∀ o ∈ f.overloads, ∀ p ∈ o.typeParamNames,
        p.toList.head? ≠ some '_' := by decide +kernel
    refine all_functions_standard fun f hf o ho p hp => unnumbered_of_head? ?_
    exact hall f hf o ho p (Overload.mem_typeParamNames.2 hp)
  fields _ _ := by
    have hall : ∀ e ∈ Catalogue.wellKnownMessages, ∀ field ∈ e.2, field.2.paramNames = [] := by
      decide +kernel
    refine Catalogue.all_fields_wellKnown fun e he field hfield => ?_
    simp [hall e he field hfield]

section Samples

def listIndex : Overload :=
  Standard.function "index_list" [Standard.listOfT, .int] Standard.t ["T"]

def mapIndex : Overload :=
  Standard.function "index_map" [Standard.mapOfKV, Standard.k] Standard.v ["K", "V"]

theorem tries_mapIndex (args : List NodeId) (s : Session) :
    ∃ f, Environment.standard.function? Operator.index = some f ∧
      Tries .standard f false args s
        (Session.matchOverloads Operator.index (args.map s.typeOf) [listIndex] none s).2
        mapIndex :=
  ⟨_, rfl, @Tries.intro _ _ _ _ _ [listIndex] _ _ rfl rfl⟩

def emptyHead : Expr := .call 3 Operator.index [.list 1 [], .literal 2 (.int 0)]

theorem instances_hygienic_emptyHead :
    Environment.standard.Unnumbered ∧ ∃ u, Instantiates .standard emptyHead u mapIndex ∧
      u.Mentions "_var0" ∧ u.nextVar = 2 ∧
      (u.instantiate mapIndex).1 =
        (.param "_var3", [.map (.param "_var2") (.param "_var3"), .param "_var2"]) ∧
      ∀ q, u.New (u.instantiate mapIndex).2 q → ¬ u.Mentions q := by
  obtain ⟨p, hp, htype, hnext, hinstance⟩ :
      ∃ p, checkArgs .standard [.list 1 [], .literal 2 (.int 0)] ({} : Session).deeper = .ok p ∧
        let u := (Session.matchOverloads Operator.index ((p.1.map Expr.id).map p.2.typeOf)
          [listIndex] none p.2).2
        u.types.get? 1 = some (.list (.param "_var0")) ∧ u.nextVar = 2 ∧
          (u.instantiate mapIndex).1 =
            (.param "_var3", [.map (.param "_var2") (.param "_var3"), .param "_var2"]) := by
    decide +kernel
  obtain ⟨f, hf, htries⟩ := tries_mapIndex (p.1.map Expr.id) p.2
  have h : Instantiates .standard emptyHead _ mapIndex :=
    .call (.here (by decide)) (by decide) (.of_checkArgs _ hp) hf htries
  exact ⟨Environment.unnumbered_standard, _, h, .type htype (by decide), hnext, hinstance,
    (instances_hygienic Environment.unnumbered_standard h).1⟩

end Samples

end CelTyping
