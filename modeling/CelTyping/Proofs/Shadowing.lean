import CelTyping.Proofs.Run
import Mathlib.Data.List.TakeWhile

/-! Which variables a name means inside a comprehension. A pass comes to a node with scopes
that depend on the comprehensions around the node only: checking its neighbours opens and
closes scopes of its own, and leaves none behind. So the variable of a loop is found
everywhere in its body, unless a comprehension between binds its name again. What it hides is
another matter: the container may turn a simple name into more qualified ones, which are
looked up before the name itself. -/
namespace CelTyping

section Scopes

@[simp] theorem ScopeStack.find?_declareAll_of_ne (s : ScopeStack) {vs : List Variable}
    {name : String} (h : ∀ v ∈ vs, name ≠ v.name) :
    (vs.foldl ScopeStack.declare s).find? name = s.find? name := by
  induction vs generalizing s with
  | nil => rfl
  | cons v vs ih =>
    rw [List.foldl_cons, ih _ fun w hw => h w (List.mem_cons_of_mem v hw)]
    exact s.find?_declare_of_ne (h v List.mem_cons_self)

namespace Session

variable (s : Session) (range init : NodeId) {iterVar iterVar2 accuVar : String}

@[simp] theorem find?_enterLoop_self (h : iterVar ≠ iterVar2) :
    (s.enterLoop range init iterVar iterVar2 accuVar).scopes.find? iterVar =
      some { name := iterVar, type := (s.loopTypes range (iterVar2 != "")).1.1 } := by
  unfold enterLoop enterScope
  simp only [List.foldl_cons]
  rw [ScopeStack.find?_declareAll_of_ne]
  · exact ScopeStack.find?_declare_self _ _
  · intro v hv
    split at hv
    next => rwa [List.mem_singleton.1 hv]
    next => cases hv

@[simp] theorem find?_enterLoop_of_ne {name : String} (h : name ≠ iterVar) (h2 : name ≠ iterVar2)
    (ha : name ≠ accuVar) :
    (s.enterLoop range init iterVar iterVar2 accuVar).scopes.find? name = s.scopes.find? name := by
  unfold enterLoop enterScope
  simp only
  rw [ScopeStack.find?_declareAll_of_ne, ScopeStack.find?_push,
    ScopeStack.find?_declareAll_of_ne, ScopeStack.find?_push, scopes_loopTypes]
  · intro v hv
    rwa [List.mem_singleton.1 hv]
  · intro v hv
    rcases List.mem_cons.1 hv with rfl | hv
    · exact h
    split at hv
    next => rwa [List.mem_singleton.1 hv]
    next => cases hv

@[simp] theorem find?_pop_enterLoop {name : String} (ha : name ≠ accuVar) :
    (s.enterLoop range init iterVar iterVar2 accuVar).scopes.pop.find? name =
      s.scopes.find? name := by
  rw [pop_enterLoop, ScopeStack.find?_declare_of_ne _ ha, ScopeStack.find?_push]

end Session

end Scopes

section Entering

/-- Checking a comprehension comes to its condition or to its step, where its variable has
this type. -/
inductive EntersBody (env : Environment) : Expr → Session → Ty → Expr → Session → Prop where
  | condition {id : NodeId} {iterVar iterVar2 accuVar : String}
      {range init condition step result range' init' : Expr} {s s₁ s₂ : Session} :
      iterVar ≠ "" → accuVar ≠ "" →
      Descends env range s range' s₁ → Descends env init s₁ init' s₂ →
        EntersBody env
          (.comprehension id iterVar iterVar2 range accuVar init condition step result) s
          (s₂.loopTypes range.id (iterVar2 != "")).1.1
          condition (s₂.enterLoop range.id init.id iterVar iterVar2 accuVar)
  | step {id : NodeId} {iterVar iterVar2 accuVar : String}
      {range init condition step result range' init' condition' : Expr} {s s₁ s₂ s₃ : Session} :
      iterVar ≠ "" → accuVar ≠ "" →
      Descends env range s range' s₁ → Descends env init s₁ init' s₂ →
      Descends env condition (s₂.enterLoop range.id init.id iterVar iterVar2 accuVar)
        condition' s₃ →
        EntersBody env
          (.comprehension id iterVar iterVar2 range accuVar init condition step result) s
          (s₂.loopTypes range.id (iterVar2 != "")).1.1
          step (s₃.expectType condition.id .bool)

/-- Checking the first node from the first session comes to its child in the second session,
where the names are bound for the child. -/
inductive Enters (env : Environment) : Expr → Session → List String → Expr → Session → Prop where
  | operand {id : NodeId} {operand : Expr} {field : String} {testOnly : Bool} {s : Session} :
      ((Expr.select id operand field testOnly).qualifiedName?).bind
          (env.variableIn? s.scopes) = none →
        Enters env (.select id operand field testOnly) s [] operand s
  | optionalOperand {id fieldId : NodeId} {operand : Expr} {field : String} {s : Session} :
      Enters env (.call id Operator.optionalSelect [operand, .literal fieldId (.string field)]) s
        [] operand s
  | argument {id : NodeId} {function : String} {before before' after : List Expr} {arg : Expr}
      {s s₁ : Session} :
      function ≠ Operator.optionalSelect → ChecksArgs env before s before' s₁ →
        Enters env (.call id function (before ++ arg :: after)) s [] arg s₁
  | receiverArgument {id : NodeId} {target : Expr} {function : String}
      {before before' after : List Expr} {arg : Expr} {s s₁ : Session} :
      function ≠ Operator.optionalSelect → ChecksArgs env before s before' s₁ →
        Enters env (.receiverCall id target function (before ++ arg :: after)) s [] arg s₁
  | receiver {id : NodeId} {target : Expr} {function : String} {args args' : List Expr}
      {s s₁ : Session} :
      function ≠ Operator.optionalSelect → ChecksArgs env args s args' s₁ →
      (target.qualifiedName?.bind fun name => env.function? (Name.extend name function)) =
        none →
        Enters env (.receiverCall id target function args) s [] target s₁
  | element {id : NodeId} {before before' after : List Element} {value : Expr} {optional : Bool}
      {t : Option Ty} {s s₁ : Session} :
      ChecksElements env before none s before' t s₁ →
        Enters env (.list id (before ++ ⟨value, optional⟩ :: after)) s [] value s₁
  | key {id entry : NodeId} {before before' after : List Entry} {key value : Expr}
      {optional : Bool} {k v : Option Ty} {s s₁ : Session} :
      ChecksEntries env before none none s before' k v s₁ →
        Enters env (.map id (before ++ ⟨entry, key, value, optional⟩ :: after)) s [] key s₁
  | value {id entry : NodeId} {before before' after : List Entry} {key key' value : Expr}
      {optional : Bool} {k v : Option Ty} {s s₁ s₂ : Session} :
      ChecksEntries env before none none s before' k v s₁ → Descends env key s₁ key' s₂ →
        Enters env (.map id (before ++ ⟨entry, key, value, optional⟩ :: after)) s [] value
          (s₂.joinMember env key.id false k).2
  | field {id init : NodeId} {name field : String} {before before' after : List FieldInit}
      {value : Expr} {optional : Bool} {v : Variable} {s s₁ : Session} :
      env.variableIn? s.scopes name = some v →
      ChecksFields env (some (s.enterMessage id v).1) before (s.enterMessage id v).2 before' s₁ →
        Enters env (.message id name (before ++ ⟨init, field, value, optional⟩ :: after)) s []
          value s₁
  | unknownField {id init : NodeId} {name field : String}
      {before before' after : List FieldInit} {value : Expr} {optional : Bool} {s s₁ : Session} :
      env.variableIn? s.scopes name = none →
      ChecksFields env none before (s.undeclared env id name) before' s₁ →
        Enters env (.message id name (before ++ ⟨init, field, value, optional⟩ :: after)) s []
          value s₁
  | range {id : NodeId} {iterVar iterVar2 accuVar : String}
      {range init condition step result : Expr} {s : Session} :
      iterVar ≠ "" → accuVar ≠ "" →
        Enters env (.comprehension id iterVar iterVar2 range accuVar init condition step result)
          s [] range s
  | init {id : NodeId} {iterVar iterVar2 accuVar : String}
      {range init condition step result range' : Expr} {s s₁ : Session} :
      iterVar ≠ "" → accuVar ≠ "" → Descends env range s range' s₁ →
        Enters env (.comprehension id iterVar iterVar2 range accuVar init condition step result)
          s [] init s₁
  | body {id : NodeId} {iterVar iterVar2 accuVar : String}
      {range init condition step result n : Expr} {type : Ty} {s t : Session} :
      EntersBody env
        (.comprehension id iterVar iterVar2 range accuVar init condition step result) s type n t →
        Enters env (.comprehension id iterVar iterVar2 range accuVar init condition step result)
          s [iterVar, iterVar2, accuVar] n t
  | result {id : NodeId} {iterVar iterVar2 accuVar : String}
      {range init condition step result range' init' condition' step' : Expr}
      {s s₁ s₂ s₃ s₄ : Session} :
      iterVar ≠ "" → accuVar ≠ "" →
      Descends env range s range' s₁ → Descends env init s₁ init' s₂ →
      Descends env condition (s₂.enterLoop range.id init.id iterVar iterVar2 accuVar)
        condition' s₃ →
      Descends env step (s₃.expectType condition.id .bool) step' s₄ →
        Enters env (.comprehension id iterVar iterVar2 range accuVar init condition step result)
          s [accuVar] result (s₄.expectType step.id (s₂.typeOf init.id)).exitScope

/-- Going down into the first node comes to the second one, and no comprehension between
binds the name. -/
inductive Reaches (env : Environment) (name : String) :
    Expr → Session → Expr → Session → Prop where
  | here {e : Expr} {s : Session} : s.depth < env.maxDepth → Reaches env name e s e s.deeper
  | child {e n m : Expr} {names : List String} {s t u : Session} :
      Reaches env name e s n t → Enters env n t names m u → name ∉ names →
      u.depth < env.maxDepth → Reaches env name e s m u.deeper

end Entering

section Finding

variable {env : Environment}

theorem EntersBody.find? {id : NodeId} {iterVar iterVar2 accuVar : String}
    {range init condition step result n : Expr} {s t : Session} {type : Ty}
    (hne : iterVar ≠ iterVar2)
    (h : EntersBody env
      (.comprehension id iterVar iterVar2 range accuVar init condition step result) s type n t) :
    t.scopes.find? iterVar = some { name := iterVar, type } := by
  cases h with
  | condition => exact Session.find?_enterLoop_self _ _ _ hne
  | step _ _ _ _ hc =>
    rw [Session.scopes_expectType, hc.run.scopes_eq]
    exact Session.find?_enterLoop_self _ _ _ hne

theorem Enters.find?_eq {e n : Expr} {names : List String} {name : String} {s t : Session}
    (h : Enters env e s names n t) (hname : name ∉ names) :
    t.scopes.find? name = s.scopes.find? name := by
  cases h with
  | operand _ => rfl
  | optionalOperand => rfl
  | argument _ ha => rw [ha.run.scopes_eq]
  | receiverArgument _ ha => rw [ha.run.scopes_eq]
  | receiver _ ha _ => rw [ha.run.scopes_eq]
  | element he => rw [he.run.scopes_eq]
  | key he => rw [he.scopes_eq]
  | @value _ _ _ _ _ key _ _ _ k _ _ _ s₂ he hk =>
    have hjoin : Session.Steps [] s₂ _ := s₂.steps_joinMember env key.id false k
    rw [hjoin.scopes_eq, hk.run.scopes_eq, he.scopes_eq]
  | @field id _ _ _ _ _ _ _ _ v _ _ _ hf =>
    rw [hf.scopes_eq, (s.steps_enterMessage v (List.mem_singleton_self id)).scopes_eq]
  | @unknownField id _ name _ _ _ _ _ _ _ _ _ hf =>
    rw [hf.scopes_eq, (s.steps_undeclared env name (List.mem_singleton_self id)).scopes_eq]
  | range _ _ => rfl
  | init _ _ hr => rw [hr.run.scopes_eq]
  | body hb =>
    simp only [List.mem_cons, List.not_mem_nil, or_false, not_or] at hname
    obtain ⟨h, h2, ha⟩ := hname
    cases hb with
    | condition _ _ hr hi =>
      rw [Session.find?_enterLoop_of_ne _ _ _ h h2 ha, hi.run.scopes_eq, hr.run.scopes_eq]
    | step _ _ hr hi hc =>
      rw [Session.scopes_expectType, hc.run.scopes_eq, Session.find?_enterLoop_of_ne _ _ _ h h2 ha,
        hi.run.scopes_eq, hr.run.scopes_eq]
  | result _ _ hr hi hc hs =>
    rw [List.mem_singleton] at hname
    rw [Session.exitScope, Session.scopes_expectType, hs.run.scopes_eq, Session.scopes_expectType,
      hc.run.scopes_eq, Session.find?_pop_enterLoop _ _ _ hname, hi.run.scopes_eq,
      hr.run.scopes_eq]

theorem Reaches.find?_eq {name : String} {e n : Expr} {s t : Session}
    (h : Reaches env name e s n t) : t.scopes.find? name = s.scopes.find? name := by
  induction h with
  | here _ => rfl
  | child _ hn hname _ ih => exact (hn.find?_eq hname).trans ih

end Finding

section Candidates

theorem Container.expandAlias?_of_isSimple (c : Container) {name : String}
    (h : Name.isSimple name = true) : c.expandAlias? name = c.aliases.get? name := by
  have hdot : ∀ x ∈ name.toList, (x != '.') = true := by
    simp only [Name.isSimple, Bool.and_eq_true, Bool.not_eq_true', List.contains_eq_mem,
      decide_eq_false_iff_not] at h
    exact fun x hx => bne_iff_ne.2 fun heq => h.2 (heq ▸ hx)
  have hfirst := List.takeWhile_eq_self_iff.2 hdot
  have hrest := List.dropWhile_eq_nil_iff.2 hdot
  simp [Container.expandAlias?, hfirst, hrest]

theorem Name.rooted?_of_isSimple {name : String} (h : Name.isSimple name = true) :
    Name.rooted? name = none := by
  unfold Name.rooted?
  split
  next cs hcs => simp [Name.isSimple, hcs] at h
  next => rfl

theorem Container.mem_candidates_self {c : Container} {name : String}
    (hname : Name.isSimple name = true) (halias : ∀ target ∈ c.aliases.get? name, target = name) :
    name ∈ c.candidates name := by
  simp only [Container.candidates, Name.rooted?_of_isSimple hname, c.expandAlias?_of_isSimple hname]
  cases ha : c.aliases.get? name with
  | some target =>
    rw [halias target ha]
    exact List.mem_singleton_self name
  | none =>
    simp only
    split
    next => exact List.mem_singleton_self name
    next => exact List.mem_append_right _ (List.mem_singleton_self name)

theorem Environment.variableIn?_of_mem {env : Environment} {scopes : ScopeStack}
    {name candidate : String} {v : Variable} (hmem : candidate ∈ env.container.candidates name)
    (hv : env.meaning? scopes candidate = some v)
    (hfree : ∀ other ∈ env.container.candidates name, other ≠ candidate →
      env.meaning? scopes other = none) : env.variableIn? scopes name = some v := by
  unfold Environment.variableIn?
  revert hmem hfree
  generalize env.container.candidates name = names
  intro hmem hfree
  induction names with
  | nil => cases hmem
  | cons other names ih =>
    rw [List.findSome?_cons]
    by_cases ho : other = candidate
    · rw [ho, hv]
    · rw [hfree other List.mem_cons_self ho]
      rcases List.mem_cons.1 hmem with rfl | hmem
      · exact absurd rfl ho
      · exact ih hmem fun x hx => hfree x (List.mem_cons_of_mem _ hx)

end Candidates

theorem Session.types_setVariable (s : Session) (node : NodeId) (v : Variable)
    (h : ∀ known ∈ s.types.get? node, known.kind = v.type.kind) :
    (s.setVariable node v).types.get? node = some v.type := by
  rw [Session.setVariable, Session.setReference_types, Session.setType]
  split
  next known hknown =>
    rw [if_pos (h known hknown)]
    exact Table.get?_insert_self _ _ _
  next => exact Table.get?_insert_self _ _ _

/-- A name in the body of a loop over a variable of that name is the variable, and has its
type, unless a type of another kind has been recorded for the node before. The container must
not give the name a more qualified meaning at that place. -/
theorem iteration_variable_shadows {env : Environment} {loop id : NodeId}
    {name second accumulator : String} {range init condition step result n : Expr} {type : Ty}
    {s t u : Session} (hname : Name.isSimple name = true) (hne : name ≠ second)
    (hbody : EntersBody env
      (.comprehension loop name second range accumulator init condition step result) s type n t)
    (hreach : Reaches env name n t (.ident id name) u)
    (halias : ∀ target ∈ env.container.aliases.get? name, target = name)
    (hfree : ∀ other ∈ env.container.candidates name, other ≠ name →
      env.meaning? u.scopes other = none) :
    checkNode env (.ident id name) u = .ok (.ident id name, u.setVariable id { name, type }) ∧
      ((∀ known ∈ u.types.get? id, known.kind = type.kind) →
        (u.setVariable id { name, type }).types.get? id = some type) := by
  have hfind : u.scopes.find? name = some { name, type } := by
    rw [hreach.find?_eq]
    exact hbody.find? hne
  have hmeaning : env.meaning? u.scopes name = some { name, type } := by
    simp only [Environment.meaning?, hfind]
  have hmem := Container.mem_candidates_self hname halias
  have hv := Environment.variableIn?_of_mem hmem hmeaning hfree
  exact ⟨(Checks.ident hv).checkNode_eq, u.types_setVariable id { name, type }⟩

section Samples

def trueLoop : Expr :=
  .comprehension 7 "x" "" (.list 2 [⟨.literal 1 (.bool true), false⟩]) "r"
    (.literal 3 (.bool true)) (.ident 4 "x") (.ident 5 "r") (.ident 6 "r")

theorem trueLoop_entered (env : Environment) (h : 1 < env.maxDepth) :
    ∃ t, EntersBody env trueLoop {} .bool (.ident 4 "x") t ∧
      Reaches env "x" (.ident 4 "x") t (.ident 4 "x") t.deeper ∧ t.types.get? 4 = none ∧
        t.scopes.find? "a.x" = none := by
  refine ⟨_, .condition (by decide) (by decide)
    (.node ?_ (.list (.cons (.node ?_ .literal) .nil))) (.node ?_ .literal), .here ?_, rfl, ?_⟩
  · exact Nat.lt_of_succ_lt h
  · exact h
  · exact Nat.lt_of_succ_lt h
  · exact Nat.lt_of_succ_lt h
  · rw [Session.find?_enterLoop_of_ne _ _ _ (by decide) (by decide) (by decide)]
    rfl

def containerWith (name : String) : Environment :=
  (Environment.empty.withContainer "a").withVariable name .int

theorem candidates_containerWith (name : String) :
    (containerWith name).container.candidates "x" = ["a.x", "x"] := by
  show ({ name := "a" } : Container).candidates "x" = ["a.x", "x"]
  decide +kernel

theorem iteration_variable_shadows_global :
    ∃ t, EntersBody (containerWith "x") trueLoop {} .bool (.ident 4 "x") t ∧
      checkNode (containerWith "x") (.ident 4 "x") t.deeper =
        .ok (.ident 4 "x", t.deeper.setVariable 4 { name := "x", type := .bool }) ∧
      (t.deeper.setVariable 4 { name := "x", type := .bool }).types.get? 4 = some .bool := by
  obtain ⟨t, hbody, hreach, htypes, hscopes⟩ := trueLoop_entered (containerWith "x") (by decide)
  have hfree : (containerWith "x").meaning? t.scopes "a.x" = none := by
    rw [Environment.meaning?, hscopes]
    decide +kernel
  have h := iteration_variable_shadows (by decide +kernel) (by decide) hbody hreach
    (by intro target ht; cases ht) (by
      rw [candidates_containerWith]
      intro other hmem hne
      rcases List.mem_cons.1 hmem with rfl | hmem
      · exact hfree
      · exact absurd (List.mem_singleton.1 hmem) hne)
  exact ⟨t, hbody, h.1, h.2 (by simp [Session.deeper, htypes])⟩

/-- A variable of the container is found before that of a loop. -/
theorem iteration_variable_hidden :
    ¬ ∀ (env : Environment) (loop id : NodeId) (name second accumulator : String)
      (range init condition step result n : Expr) (type : Ty) (s t u : Session),
        Name.isSimple name = true → name ≠ second →
        EntersBody env
          (.comprehension loop name second range accumulator init condition step result) s type
          n t →
        Reaches env name n t (.ident id name) u →
          checkNode env (.ident id name) u =
            .ok (.ident id name, u.setVariable id { name, type }) := by
  intro hall
  obtain ⟨t, hbody, hreach, _, hscopes⟩ := trueLoop_entered (containerWith "a.x") (by decide)
  have hmeaning : (containerWith "a.x").meaning? t.deeper.scopes "a.x" =
      some { name := "a.x", type := .int } := by
    have hglobal : (containerWith "a.x").globals.get? "a.x" =
        some { name := "a.x", type := .int } := Table.get?_insert_self _ _ _
    simp only [Environment.meaning?, Session.deeper, hscopes, hglobal]
  have hv : (containerWith "a.x").variableIn? t.deeper.scopes "x" =
      some { name := "a.x", type := .int } := by
    rw [Environment.variableIn?, candidates_containerWith, List.findSome?_cons, hmeaning]
  have h := hall _ _ _ _ _ _ _ _ _ _ _ _ _ _ _ _ (by decide +kernel) (by decide) hbody hreach
  rw [(Checks.ident hv).checkNode_eq] at h
  simp at h

end Samples

section Rooted

/-- The full name that a name stands for when it is written with a leading dot. -/
def Container.fullName (c : Container) (name : String) : String := (c.expandAlias? name).getD name

@[simp] theorem Name.rooted?_dot (name : String) : Name.rooted? ("." ++ name) = some name := by
  simp [Name.rooted?]

@[simp] theorem Container.candidates_dot (c : Container) (name : String) :
    c.candidates ("." ++ name) = [c.fullName name] := by
  simp only [Container.candidates, Name.rooted?_dot, Container.fullName]

/-- A leading dot leaves the container out but not the scopes. A variable that a loop declares
under the full name is found first, and only without one the name means what it does outside. -/
theorem rooted_name_found (env : Environment) (scopes : ScopeStack) (name : String) :
    env.variableIn? scopes ("." ++ name) =
      (scopes.find? (env.container.fullName name)).or (env.globalVariable? ("." ++ name)) := by
  have hcandidate : ∀ frames : ScopeStack, env.variableIn? frames ("." ++ name) =
      env.meaning? frames (env.container.fullName name) := by
    intro frames
    rw [Environment.variableIn?, Container.candidates_dot, List.findSome?_singleton]
  rw [Environment.globalVariable?, hcandidate, hcandidate]
  cases hfind : scopes.find? (env.container.fullName name) with
  | some v => simp only [Environment.meaning?, hfind, Option.some_or]
  | none =>
    -- Without scopes the lookup starts at the variables of the environment.
    have houter : ({} : ScopeStack).find? (env.container.fullName name) = none := rfl
    simp only [Environment.meaning?, hfind, houter, Option.none_or]

/-- Inside a loop over a variable `x` the name `.x` is that variable, and not the one of the
environment. -/
theorem rooted_name_captured :
    ¬ ∀ (env : Environment) (scopes : ScopeStack) (name : String),
      env.variableIn? scopes ("." ++ name) = env.globalVariable? ("." ++ name) := by
  intro h
  have hx := h (Environment.empty.withVariable "x" .int)
    (({} : ScopeStack).push.declare { name := "x", type := .bool }) "x"
  have htype := congrArg (Option.map Variable.type) hx
  revert htype
  decide +kernel

end Rooted

end CelTyping
