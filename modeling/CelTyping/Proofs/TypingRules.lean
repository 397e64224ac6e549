import CelTyping.Proofs.LeafLists
import CelTyping.Proofs.OverloadOrder

/-! Typing rules for nodes that are checked without a report. A rule says what is known of the
type variables before and after a node, and the type that the node is given in between; it holds
in any session that has recorded nothing for the node and its parts. The bindings themselves are
left open: a rule for a call asks only for what its overloads need to know. -/
namespace CelTyping

/-- What a session has found out about type variables. -/
structure Inference where
  bindings : Substitution
  nextVar : Nat

namespace Session

def inference (s : Session) : Inference := ⟨s.bindings, s.nextVar⟩

section Readiness

structure Untouched (s : Session) (ids : List NodeId) : Prop where
  nodup : ids.Nodup
  types : ∀ id ∈ ids, s.Free (.type id)
  references : ∀ id ∈ ids, s.Free (.reference id)

/-- The session has come to a place from which there are `n` more levels, with these scopes, and
what is known of its type variables is `P`. -/
structure Ready (s : Session) (env : Environment) (n : Nat) (scopes : ScopeStack)
    (P : Inference → Prop) (ids : List NodeId) : Prop where
  scopes_eq : s.scopes = scopes
  depth_le : s.depth + n ≤ env.maxDepth
  untouched : s.Untouched ids
  known : P s.inference

variable {s s' : Session} {env : Environment} {n : Nat} {scopes : ScopeStack}
  {P Q : Inference → Prop} {ids ids' : List NodeId}

theorem Untouched.perm (h : s.Untouched ids) (hperm : ids.Perm ids') : s.Untouched ids' where
  nodup := hperm.nodup_iff.1 h.nodup
  types id hid := h.types id (hperm.mem_iff.2 hid)
  references id hid := h.references id (hperm.mem_iff.2 hid)

theorem Untouched.left (h : s.Untouched (ids ++ ids')) : s.Untouched ids where
  nodup := h.nodup.of_append_left
  types id hid := h.types id (List.mem_append_left _ hid)
  references id hid := h.references id (List.mem_append_left _ hid)

theorem Untouched.not_mem (h : s.Untouched (ids ++ ids')) {id : NodeId} (hid : id ∈ ids) :
    id ∉ ids' :=
  fun hid' => List.disjoint_of_nodup_append h.nodup hid hid'

theorem Untouched.right (h : s.Untouched (ids ++ ids')) (hmoves : Moves ids s s') :
    s'.Untouched ids' where
  nodup := h.nodup.of_append_right
  types id hid :=
    (hmoves.types_eq fun hmem => h.not_mem hmem hid).trans
      (h.types id (List.mem_append_right _ hid))
  references id hid :=
    (hmoves.references_eq fun hmem => h.not_mem hmem hid).trans
      (h.references id (List.mem_append_right _ hid))

theorem Ready.left (h : s.Ready env n scopes P (ids ++ ids')) : s.Ready env n scopes P ids :=
  ⟨h.scopes_eq, h.depth_le, h.untouched.left, h.known⟩

theorem Ready.rotate {id : NodeId} (h : s.Ready env n scopes P (id :: ids)) :
    s.Ready env n scopes P (ids ++ [id]) :=
  ⟨h.scopes_eq, h.depth_le, h.untouched.perm (List.perm_append_singleton id ids).symm, h.known⟩

theorem Ready.right (h : s.Ready env n scopes P (ids ++ ids')) (hrun : Run ids s s')
    (hknown : Q s'.inference) : s'.Ready env n scopes Q ids' where
  scopes_eq := hrun.scopes_eq.trans h.scopes_eq
  depth_le := hrun.depth_eq.symm ▸ h.depth_le
  untouched := h.untouched.right hrun.moves
  known := hknown

theorem Ready.infer {bindings : Substitution} {nextVar : Nat}
    (h : s.Ready env n scopes P ids) (hknown : Q ⟨bindings, nextVar⟩) :
    Ready { s with bindings, nextVar } env n scopes Q ids :=
  ⟨h.scopes_eq, h.depth_le,
    ⟨h.untouched.nodup, h.untouched.types, h.untouched.references⟩, hknown⟩

theorem Ready.within (h : s.Ready env n scopes P ids) (other : ScopeStack) :
    Ready { s with scopes := other } env n other P ids :=
  ⟨rfl, h.depth_le, ⟨h.untouched.nodup, h.untouched.types, h.untouched.references⟩, h.known⟩

theorem Ready.setType {id : NodeId} (h : s.Ready env n scopes P [id]) (t : Ty) :
    (s.setType id t).diagnostics = s.diagnostics ∧ (s.setType id t).types.get? id = some t ∧
      P (s.setType id t).inference := by
  rw [setType_of_free (h.untouched.types id List.mem_cons_self)]
  exact ⟨rfl, Table.get?_insert_self _ _ _, h.known⟩

theorem Ready.setReference {id : NodeId} (h : s.Ready env n scopes P [id]) (t : Ty)
    (r : Reference) :
    ((s.setType id t).setReference id r).diagnostics = s.diagnostics ∧
      ((s.setType id t).setReference id r).types.get? id = some t ∧
      P ((s.setType id t).setReference id r).inference := by
  have hreference : s.references.get? id = none := h.untouched.references id List.mem_cons_self
  rw [setType_of_free (h.untouched.types id List.mem_cons_self)]
  unfold Session.setReference
  rw [hreference]
  exact ⟨rfl, Table.get?_insert_self _ _ _, h.known⟩

end Readiness

end Session

open Session

section Judgements

/-- Checking the node reports nothing and gives it the type `t`. -/
def Infers (env : Environment) (n : Nat) (scopes : ScopeStack) (P : Inference → Prop) (e : Expr)
    (t : Ty) (Q : Inference → Prop) : Prop :=
  ∀ s : Session, s.Ready env n scopes P e.ids →
    ∃ e' s', Descends env e s e' s' ∧ s'.diagnostics = s.diagnostics ∧
      s'.types.get? e.id = some t ∧ Q s'.inference

inductive InfersArgs (env : Environment) (n : Nat) (scopes : ScopeStack) :
    (Inference → Prop) → List Expr → List Ty → (Inference → Prop) → Prop where
  | nil {P : Inference → Prop} : InfersArgs env n scopes P [] [] P
  | cons {P Q R : Inference → Prop} {e : Expr} {t : Ty} {es : List Expr} {ts : List Ty} :
      Infers env n scopes P e t Q → InfersArgs env n scopes Q es ts R →
        InfersArgs env n scopes P (e :: es) (t :: ts) R

/-- A call of the function with arguments of these types has the type `t`. -/
def Resolves (env : Environment) (f : Function) (ts : List Ty) (P : Inference → Prop) (t : Ty)
    (Q : Inference → Prop) : Prop :=
  ∀ (s : Session) (node : NodeId) (args : List NodeId), args.map s.typeOf = ts → P s.inference →
    ∃ r bindings nextVar,
      s.resolveOverload env node f false args = (.ok r, { s with bindings, nextVar }) ∧
        r.type = t ∧ Q ⟨bindings, nextVar⟩

def Assigns (P : Inference → Prop) (a b : Ty) (Q : Inference → Prop) : Prop :=
  ∀ i : Inference, P i → ∃ m, i.bindings.assignable? a b = some m ∧ Q ⟨m, i.nextVar⟩

end Judgements

section Rules

variable {env : Environment} {n : Nat} {scopes : ScopeStack} {P Q R : Inference → Prop}
  {id : NodeId}

theorem infers_of_checks {e : Expr} {t : Ty}
    (h : ∀ s : Session, s.Ready env n scopes P e.ids →
      ∃ e' s', Checks env e s e' s' ∧ s'.diagnostics = s.diagnostics ∧
        s'.types.get? e.id = some t ∧ Q s'.inference) :
    Infers env (n + 1) scopes P e t Q := by
  intro s hs
  have hdepth := hs.depth_le
  have hdeeper : s.deeper.Ready env n scopes P e.ids :=
    ⟨hs.scopes_eq, by simp only [deeper]; omega,
      ⟨hs.untouched.nodup, hs.untouched.types, hs.untouched.references⟩, hs.known⟩
  obtain ⟨e', s', hc, hreports, htype, hknown⟩ := h s.deeper hdeeper
  exact ⟨e', s'.shallower, .node (by omega) hc, hreports, htype, hknown⟩

/-- The node is checked, and the session is ready for the ones after it. -/
theorem Infers.descends {e : Expr} {t : Ty} (h : Infers env n scopes P e t Q) {s : Session}
    {ids : List NodeId} (hs : s.Ready env n scopes P (e.ids ++ ids)) :
    ∃ e' s', Descends env e s e' s' ∧ s'.diagnostics = s.diagnostics ∧
      s'.types.get? e.id = some t ∧ s'.Ready env n scopes Q ids := by
  obtain ⟨e', s', hd, hreports, htype, hknown⟩ := h s hs.left
  exact ⟨e', s', hd, hreports, htype, hs.right hd.run hknown⟩

theorem Infers.literal (value : Value) :
    Infers env (n + 1) scopes P (.literal id value) value.type P :=
  infers_of_checks fun _ hs => ⟨_, _, .literal, hs.setType _⟩

theorem Infers.ident {name : String} {v : Variable} (h : env.variableIn? scopes name = some v) :
    Infers env (n + 1) scopes P (.ident id name) v.type P :=
  infers_of_checks fun _ hs => ⟨_, _, .ident (hs.scopes_eq ▸ h), hs.setReference _ _⟩

theorem Infers.emptyList {k : Nat} (h : ∀ i, P i → i.nextVar = k ∧ Q ⟨i.bindings, k + 1⟩) :
    Infers env (n + 1) scopes P (.list id []) (.list (.param (varName k))) Q := by
  refine infers_of_checks fun s hs => ⟨_, _, .list .nil, ?_⟩
  obtain ⟨hk, hknown⟩ := h _ hs.known
  have hk : s.nextVar = k := hk
  subst hk
  exact (hs.infer hknown).setType _

theorem Infers.singleton {e : Expr} {t : Ty} (h : Infers env n scopes P e t Q) :
    Infers env (n + 1) scopes P (.list id [⟨e, false⟩]) (.list t) Q := by
  refine infers_of_checks fun s hs => ?_
  rw [Expr.ids_list] at hs
  have hs : s.Ready env n scopes P (e.ids ++ [] ++ [id]) := hs.rotate
  rw [List.append_nil] at hs
  obtain ⟨e', s₁, hd, hreports, htype, hs₁⟩ := h.descends hs
  have hmember : s₁.joinMember env e.id false none = (t, s₁) := by
    simp [joinMember_key, joinTypes, typeOf, htype]
  refine ⟨_, _, .list (.cons hd .nil), ?_⟩
  rw [hmember, ← hreports]
  exact hs₁.setType _

theorem InfersArgs.checks {args : List Expr} {ts : List Ty}
    (h : InfersArgs env n scopes P args ts Q) :
    ∀ {s : Session} {ids : List NodeId}, s.Ready env n scopes P (Expr.idsOf args ++ ids) →
      ∃ args' s', ChecksArgs env args s args' s' ∧ s'.diagnostics = s.diagnostics ∧
        (args.map Expr.id).map s'.typeOf = ts ∧ s'.Ready env n scopes Q ids := by
  induction h with
  | nil => exact fun hs => ⟨_, _, .nil, rfl, rfl, hs⟩
  | @cons P Q R e t es ts he _ ih =>
    intro s ids hs
    rw [Expr.idsOf_cons, List.append_assoc] at hs
    obtain ⟨e', s₁, hd, hreports, htype, hs₁⟩ := he.descends hs
    obtain ⟨es', s₂, hes, hreports', htypes, hs₂⟩ := ih hs₁
    refine ⟨_, s₂, .cons hd hes, hreports'.trans hreports, ?_, hs₂⟩
    have hid : e.id ∉ Expr.idsOf es := fun hmem =>
      hs.untouched.not_mem (Expr.id_mem_ids e) (List.mem_append_left _ hmem)
    have hhead : s₂.typeOf e.id = t :=
      typeOf_of_get? ((hes.run.moves.types_eq hid).trans htype)
    rw [List.map_cons, List.map_cons, hhead, htypes]

theorem Infers.call {function : String} {f : Function} {args : List Expr} {ts : List Ty} {t : Ty}
    (hf : env.function? function = some f) (hselect : function ≠ Operator.optionalSelect)
    (hargs : InfersArgs env n scopes P args ts Q) (hresolves : Resolves env f ts Q t R) :
    Infers env (n + 1) scopes P (.call id function args) t R := by
  refine infers_of_checks fun s hs => ?_
  rw [Expr.ids_eq_children] at hs
  obtain ⟨args', s₁, hchecks, hreports, htypes, hs₁⟩ := hargs.checks hs.rotate
  obtain ⟨r, bindings, nextVar, hresolve, rfl, hknown⟩ := hresolves s₁ id _ htypes hs₁.known
  refine ⟨_, _, .call hselect hchecks hf, ?_⟩
  rw [hchecks.map_id, resolveCall, hresolve, ← hreports]
  exact (hs₁.infer hknown).setReference _ _

theorem Assigns.scalar {c : Scalar} : Assigns P (.scalar c) (.scalar c) P := by
  intro i hi
  refine ⟨i.bindings, ?_, hi⟩
  rw [Substitution.assignable?_of_isFlat rfl rfl,
    if_pos (Ty.fits_self_of_isAtomic (t := .scalar c) rfl)]

def ScopeStack.enter (scopes : ScopeStack) (v : Variable) : ScopeStack := scopes.push.declare v

@[simp] theorem ScopeStack.find?_enter_self (scopes : ScopeStack) (v : Variable) :
    (scopes.enter v).find? v.name = some v :=
  find?_declare_self _ v

@[simp] theorem ScopeStack.find?_enter_of_ne (scopes : ScopeStack) {v : Variable} {name : String}
    (h : name ≠ v.name) : (scopes.enter v).find? name = scopes.find? name :=
  find?_declare_of_ne _ h

theorem Session.enterLoop_of_list {s : Session} {range : NodeId} {u : Ty}
    (h : s.resolvedTypeOf range = .list u) (init : NodeId) (iterVar accuVar : String) :
    s.enterLoop range init iterVar "" accuVar =
      { s with
        scopes := (s.scopes.enter { name := accuVar, type := s.typeOf init }).enter
          { name := iterVar, type := u } } := by
  simp only [enterLoop, loopTypes, h]
  rfl

theorem Session.expectType_of_get? {s : Session} {node : NodeId} {expected t : Ty}
    {m : Substitution} (ht : s.types.get? node = some t)
    (h : s.bindings.assignable? expected t = some m) :
    s.expectType node expected = { s with bindings := m } := by
  simp [expectType, assign, typeOf_of_get? ht, h]

variable {u a : Ty} {P₁ P₂ : Inference → Prop} {range init : Expr} {s : Session}
  {ids : List NodeId}

/-- The range and the start of a loop over a list, with one variable. -/
theorem Infers.enterLoop (hu : u.paramNames = [])
    (hrange : Infers env n scopes P range (.list u) P₁) (hinit : Infers env n scopes P₁ init a P₂)
    (hs : s.Ready env n scopes P (range.ids ++ (init.ids ++ ids))) (iterVar accuVar : String) :
    ∃ range' init' s₁ s₂, Descends env range s range' s₁ ∧ Descends env init s₁ init' s₂ ∧
      s₂.diagnostics = s.diagnostics ∧ s₂.typeOf init.id = a ∧
      s₂.Ready env n scopes P₂ ids ∧
      s₂.enterLoop range.id init.id iterVar "" accuVar =
        { s₂ with
          scopes := (scopes.enter { name := accuVar, type := a }).enter
            { name := iterVar, type := u } } := by
  obtain ⟨range', s₁, hrange', hreports₁, hrangeType, hs₁⟩ := hrange.descends hs
  obtain ⟨init', s₂, hinit', hreports₂, hinitType, hs₂⟩ := hinit.descends hs₁
  have hrangeId : range.id ∉ init.ids := fun hmem =>
    hs.untouched.not_mem (Expr.id_mem_ids range) (List.mem_append_left _ hmem)
  have hresolved : s₂.resolvedTypeOf range.id = .list u := by
    rw [resolvedTypeOf, typeOf_of_get? ((hinit'.moves.types_eq hrangeId).trans hrangeType)]
    exact Ty.replace_of_closed (t := .list u) hu _
  have hinitType : s₂.typeOf init.id = a := typeOf_of_get? hinitType
  have henter := enterLoop_of_list hresolved init.id iterVar accuVar
  rw [hinitType, hs₂.scopes_eq] at henter
  exact ⟨range', init', s₁, s₂, hrange', hinit', hreports₂.trans hreports₁, hinitType, hs₂, henter⟩

theorem Infers.loop {iterVar accuVar : String} {condition step result : Expr}
    {b w t : Ty} {P₃ P₄ P₅ P₆ : Inference → Prop} (hiter : iterVar ≠ "")
    (haccu : accuVar ≠ "") (hu : u.paramNames = [])
    (hrange : Infers env n scopes P range (.list u) P₁) (hinit : Infers env n scopes P₁ init a P₂)
    (hcondition : Infers env n
      ((scopes.enter { name := accuVar, type := a }).enter { name := iterVar, type := u })
      P₂ condition .bool P₃)
    (hstep : Infers env n
      ((scopes.enter { name := accuVar, type := a }).enter { name := iterVar, type := u })
      P₃ step b P₄)
    (hassigns : Assigns P₄ a b P₅)
    (hresult : Infers env n (scopes.enter { name := accuVar, type := a }) P₅ result w P₆)
    (ht : ∀ i, P₆ i → i.bindings.substitute w false = t) :
    Infers env (n + 1) scopes P
      (.comprehension id iterVar "" range accuVar init condition step result) t P₆ := by
  refine infers_of_checks fun s hs => ?_
  rw [Expr.ids_comprehension] at hs
  -- The loop gets its type after its parts, so its own id is used up last.
  have hs := hs.rotate
  simp only [List.append_assoc] at hs
  obtain ⟨range', init', s₁, s₂, hrange', hinit', hreports₂, hinitType, hs₂, henter⟩ :=
    hrange.enterLoop hu hinit hs iterVar accuVar
  obtain ⟨condition', s₃, hcondition', hreports₃, hconditionType, hs₃⟩ :=
    hcondition.descends (hs₂.within _)
  rw [← henter] at hcondition'
  have hbool : s₃.expectType condition.id .bool = s₃ :=
    expectType_of_get? hconditionType (Substitution.assignable?_of_isFlat rfl rfl _)
  obtain ⟨step', s₄, hstep', hreports₄, hstepType, hs₄⟩ := hstep.descends hs₃
  rw [← hbool] at hstep'
  obtain ⟨m, hm, hknown⟩ := hassigns _ hs₄.known
  have hexpect : s₄.expectType step.id (s₂.typeOf init.id) = { s₄ with bindings := m } := by
    rw [hinitType]
    exact expectType_of_get? hstepType hm
  obtain ⟨result', s₅, hresult', hreports₅, hresultType, hs₅⟩ :=
    hresult.descends ((hs₄.infer hknown).within _)
  have hresult' : Descends env result
      (s₄.expectType step.id (s₂.typeOf init.id)).exitScope result' s₅ := by
    rw [hexpect, exitScope]
    simp only [hs₄.scopes_eq]
    exact hresult'
  have htype : s₅.exitScope.resolvedTypeOf result.id = t := by
    rw [resolvedTypeOf, typeOf_of_get? (s := s₅.exitScope) hresultType]
    exact ht _ hs₅.known
  refine ⟨_, _, .comprehension hiter haccu hrange' hinit' hcondition' hstep' hresult', ?_⟩
  rw [exitLoop, htype, ← hreports₂, ← hreports₃, ← hreports₄, ← hreports₅]
  exact (hs₅.within _).setType _

def TypesAs (env : Environment) (e : Expr) (t : Ty) : Prop :=
  ∃ c, check env e = .ok c ∧ c.diagnostics = [] ∧ c.type? = some t

theorem Infers.typesAs {e : Expr} {t : Ty} (h : Infers env n {} P e t Q) (hn : n ≤ env.maxDepth)
    (hids : e.ids.Nodup) (hP : P ⟨∅, 0⟩) (ht : t.paramNames = []) : TypesAs env e t := by
  have hs : ({} : Session).Ready env n {} P e.ids :=
    ⟨rfl, by rwa [Nat.zero_add], ⟨hids, fun _ _ => rfl, fun _ _ => rfl⟩, hP⟩
  obtain ⟨e', s, hd, hreports, htype, -⟩ := h _ hs
  refine ⟨_, check_iff.2 ⟨e', s, hd, rfl⟩, hreports, ?_⟩
  have hid : (s.conclude e').expr.id = e.id := hd.id_eq
  rw [Checked.type?, hid, Session.get?_conclude, htype, Option.map_some]
  exact congrArg some (Ty.replace_of_closed ht _)

end Rules

section Calls

variable {env : Environment} {f : Function} {P : Inference → Prop}

theorem Session.expectBools_of_bools (s : Session) (nodes : List NodeId) :
    ∀ ts : List Ty, (∀ t ∈ ts, t = .bool) → s.expectBools nodes ts = s := by
  induction nodes with
  | nil => exact fun _ _ => rfl
  | cons node nodes ih =>
    intro ts hts
    cases ts with
    | nil => rfl
    | cons t ts =>
      obtain ⟨rfl, hrest⟩ := List.forall_mem_cons.1 hts
      rw [expectBools, s.assign_of_isFlat (a := .bool) (b := .bool) rfl rfl]
      exact ih ts hrest

theorem Resolves.logical {o : Overload} {os : List Overload} {ts : List Ty}
    (hlogical : Operator.isLogical f.name = true) (ho : env.eligible f false = o :: os)
    (hts : ∀ t ∈ ts, t = .bool) : Resolves env f ts P .bool P := by
  rintro s node args rfl hs
  refine ⟨{ type := .bool, reference := { name := f.name, overloads := [o.id] } }, s.bindings,
    s.nextVar, ?_, rfl, hs⟩
  unfold Environment.eligible at ho
  simp only [resolveOverload, hlogical, if_true, ho, s.expectBools_of_bools _ _ hts]

def Inference.Unbound (i : Inference) : Prop :=
  ∀ k, i.nextVar ≤ k → i.bindings.bindings.get? (varName k) = none

/-- What is known of type variables that have been made, and stays so when there are more. -/
structure Inference.Lasting (P : Inference → Prop) : Prop where
  unbound : ∀ i, P i → i.Unbound
  later : ∀ s s' : Session, P s.inference → s.Later s' → s'.VarsUnbound → P s'.inference

theorem Inference.lasting_unbound : Inference.Lasting Inference.Unbound where
  unbound _ h := h
  later _ _ _ _ h := h

theorem Session.Later.trans {s s₁ s' : Session} (h : s.Later s₁) (h' : s₁.Later s') :
    s.Later s' where
  nextVar := Nat.le_trans h.nextVar h'.nextVar
  get? k hk := (h'.get? k (Nat.lt_of_lt_of_le hk h.nextVar)).trans (h.get? k hk)

theorem Session.later_matchOverloads (function : String) {args : List Ty}
    (hargs : Ty.paramNamesAll args = []) (os : List Overload) :
    ∀ (found : Option Resolved) (s : Session), (∀ o ∈ os, ∀ p, o.Uses p → Unnumbered p) →
      s.VarsUnbound →
      ∃ bindings nextVar,
        (matchOverloads function args os found s).2 = { s with bindings, nextVar } ∧
          s.Later { s with bindings, nextVar } ∧ VarsUnbound { s with bindings, nextVar } := by
  induction os with
  | nil => exact fun _ s _ hs => ⟨s.bindings, s.nextVar, rfl, ⟨Nat.le_refl _, fun _ _ => rfl⟩, hs⟩
  | cons o os ih =>
    intro found s hos hs
    obtain ⟨ho, hos⟩ := List.forall_mem_cons.1 hos
    have hinstance := (s.instantiate_spec ho).1
    have hnext : s.nextVar ≤ (s.instantiate o).2.nextVar := by
      rw [hinstance]
      exact Nat.le_add_right _ _
    have hframe (bindings : Substitution) (nextVar : Nat) :
        ({ s with bindings, nextVar } : Session) =
          { (s.instantiate o).2 with bindings, nextVar } := by
      rw [hinstance]
    simp only [matchOverloads]
    -- A refused overload has made variables too, which nothing binds.
    cases hresult : o.resultFor? args with
    | none =>
      have hbindings : (s.instantiate o).2.bindings = s.bindings := by rw [hinstance]
      have hlater : s.Later (s.instantiate o).2 := ⟨hnext, fun k _ => by rw [hbindings]⟩
      have hunbound : (s.instantiate o).2.VarsUnbound := by
        intro k hk
        rw [hbindings]
        exact hs k (Nat.le_trans hnext hk)
      obtain ⟨bindings, nextVar, heq, hlater', hunbound'⟩ := ih found _ hos hunbound
      refine ⟨bindings, nextVar, ?_⟩
      rw [instance_refused hs ho hargs hresult, hframe]
      exact ⟨heq, hlater.trans hlater', hunbound'⟩
    | some u =>
      obtain ⟨m, hm, hget, -⟩ := instance_taken hs ho hargs hresult
      have hlater : s.Later { (s.instantiate o).2 with bindings := m } :=
        ⟨hnext, fun k hk => hget k (.inl hk)⟩
      have hunbound : VarsUnbound { (s.instantiate o).2 with bindings := m } := by
        intro k hk
        exact (hget k (.inr hk)).trans (hs k (Nat.le_trans hnext hk))
      obtain ⟨bindings, nextVar, heq, hlater', hunbound'⟩ := ih _ _ hos hunbound
      refine ⟨bindings, nextVar, ?_⟩
      rw [hm, hframe]
      exact ⟨heq, hlater.trans hlater', hunbound'⟩

theorem Ty.eq_scalar_of_exact {t : Ty} {c : Scalar} (h : t.exact (.scalar c) = true) :
    t = .scalar c := by
  cases t <;> simp_all [Ty.exact]

theorem Resolves.closed (hP : Inference.Lasting P) {ts : List Ty} {c : Scalar}
    (hlogical : Operator.isLogical f.name = false) (hts : Ty.paramNamesAll ts = [])
    (hos : ∀ o ∈ env.eligible f false, ∀ p, o.Uses p → Unnumbered p)
    (hfitting : (fitting ts (env.eligible f false)).map Prod.snd = [.scalar c]) :
    Resolves env f ts P (.scalar c) P := by
  rintro s node args rfl hs
  have hunbound : s.VarsUnbound := hP.unbound _ hs
  have hfound := found_matchOverloads f.name hts hos hunbound
  obtain ⟨bindings, nextVar, heq, hlater, hunbound'⟩ :=
    s.later_matchOverloads f.name hts _ none hos hunbound
  cases hmatch : matchOverloads f.name (args.map s.typeOf) (env.eligible f false) none s with
  | mk found s₁ =>
    rw [hmatch] at hfound heq
    cases heq
    cases found with
    | none =>
      have hnil : fitting (args.map s.typeOf) (env.eligible f false) = [] := hfound
      rw [hnil] at hfitting
      cases hfitting
    | some r =>
      have hagree := Merges.agree hfound
      rw [hfitting] at hagree
      obtain ⟨t, hexact, hspells⟩ := hagree (List.pairwise_singleton _ _) _ List.mem_cons_self
      rw [hspells.eq_of_closed rfl] at hexact
      exact ⟨r, bindings, nextVar, resolveOverload_of_some hlogical node hmatch,
        Ty.eq_scalar_of_exact hexact, hP.later s _ hs hlater hunbound'⟩

end Calls

end CelTyping
