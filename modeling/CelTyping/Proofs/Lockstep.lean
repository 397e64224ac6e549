import CelTyping.Proofs.Records

/-! Two passes over one tree that keep step. Nothing that a pass decides depends on the
references recorded so far: they are written, merged and given out at the end. So two sessions
that differ in their references alone go through a tree alike, and two environments that
treat calls and literals alike as long as nothing is reported come to the same result. -/
namespace CelTyping

abbrev ReferenceRelation := Table NodeId Reference → Table NodeId Reference → Prop

def Environment.adjust (env : Environment) (policy : LiteralPolicy) (cross : Bool) : Environment :=
  { env with policy, crossTypeComparisons := cross }

namespace Session

/-- The second session is the first with other references, which compare as said. -/
def Like (ρ : ReferenceRelation) (s t : Session) : Prop :=
  ∃ references, ρ s.references references ∧ t = { s with references }

def LikeWith {α : Type} (ρ : ReferenceRelation) (p q : α × Session) : Prop :=
  q.1 = p.1 ∧ Like ρ p.2 q.2

section Operations

variable {ρ : ReferenceRelation} {s t : Session}

theorem Like.scopes_eq (h : Like ρ s t) : t.scopes = s.scopes := by
  obtain ⟨_, _, rfl⟩ := h
  rfl

theorem Like.depth_eq (h : Like ρ s t) : t.depth = s.depth := by
  obtain ⟨_, _, rfl⟩ := h
  rfl

theorem Like.bindings_eq (h : Like ρ s t) : t.bindings = s.bindings := by
  obtain ⟨_, _, rfl⟩ := h
  rfl

theorem Like.typeOf_eq (h : Like ρ s t) : t.typeOf = s.typeOf := by
  obtain ⟨_, _, rfl⟩ := h
  rfl

theorem Like.resolvedTypeOf_eq (h : Like ρ s t) : t.resolvedTypeOf = s.resolvedTypeOf := by
  obtain ⟨_, _, rfl⟩ := h
  rfl

theorem Like.map {f : Session → Session} (h : Like ρ s t)
    (hf : ∀ references, f { s with references } = { f s with references })
    (hs : (f s).references = s.references) : Like ρ (f s) (f t) := by
  obtain ⟨references, hρ, rfl⟩ := h
  exact ⟨references, hs ▸ hρ, hf references⟩

theorem LikeWith.map {α β : Type} {f : α → β} {p q : α × Session} (h : LikeWith ρ p q) :
    LikeWith ρ (f p.1, p.2) (f q.1, q.2) :=
  ⟨congrArg f h.1, h.2⟩

theorem Like.deeper (h : Like ρ s t) : Like ρ s.deeper t.deeper := h.map (fun _ => rfl) rfl

theorem Like.shallower (h : Like ρ s t) : Like ρ s.shallower t.shallower :=
  h.map (fun _ => rfl) rfl

theorem Like.enterScope (h : Like ρ s t) (vs : List Variable) :
    Like ρ (s.enterScope vs) (t.enterScope vs) :=
  h.map (f := (·.enterScope vs)) (fun _ => rfl) rfl

theorem Like.exitScope (h : Like ρ s t) : Like ρ s.exitScope t.exitScope :=
  h.map (fun _ => rfl) rfl

theorem Like.report (h : Like ρ s t) (node : NodeId) (cause : Cause) :
    Like ρ (s.report node cause) (t.report node cause) :=
  h.map (f := (·.report node cause)) (fun _ => rfl) rfl

theorem Like.fail (h : Like ρ s t) (node : NodeId) (cause : Cause) :
    LikeWith ρ (s.fail node cause) (t.fail node cause) :=
  ⟨rfl, h.report node cause⟩

theorem Like.freshVar (h : Like ρ s t) : LikeWith ρ s.freshVar t.freshVar := by
  obtain ⟨references, hρ, rfl⟩ := h
  exact ⟨rfl, references, hρ, rfl⟩

theorem Like.withBindings (h : Like ρ s t) (m : Substitution) :
    Like ρ { s with bindings := m } { t with bindings := m } :=
  h.map (f := fun s => { s with bindings := m }) (fun _ => rfl) rfl

theorem Like.setType (h : Like ρ s t) (node : NodeId) (type : Ty) :
    Like ρ (s.setType node type) (t.setType node type) := by
  obtain ⟨references, hρ, rfl⟩ := h
  unfold Session.setType
  cases s.types.get? node with
  | none => exact ⟨references, hρ, rfl⟩
  | some existing =>
    simp only
    split
    next => exact ⟨references, hρ, rfl⟩
    next => exact ⟨references, hρ, rfl⟩

theorem Like.setResolvedType (h : Like ρ s t) (node : NodeId) (type : Ty) :
    Like ρ (s.setResolvedType node type) (t.setResolvedType node type) := by
  unfold Session.setResolvedType
  rw [h.bindings_eq]
  exact h.setType node _

theorem Like.assign (h : Like ρ s t) (a b : Ty) : LikeWith ρ (s.assign a b) (t.assign a b) := by
  unfold Session.assign
  rw [h.bindings_eq]
  cases s.bindings.assignable? a b with
  | none => exact ⟨rfl, h⟩
  | some m => exact ⟨rfl, h.withBindings m⟩

theorem Like.reportUnless {p q : Bool × Session} (h : LikeWith ρ p q) (node : NodeId)
    (cause : Cause) :
    Like ρ (if p.1 then p.2 else p.2.report node cause)
      (if q.1 then q.2 else q.2.report node cause) := by
  rw [h.1]
  split
  next => exact h.2
  next => exact h.2.report node cause

theorem Like.expectType (h : Like ρ s t) (node : NodeId) (expected : Ty) :
    Like ρ (s.expectType node expected) (t.expectType node expected) := by
  unfold Session.expectType
  rw [h.typeOf_eq]
  exact .reportUnless (h.assign expected (s.typeOf node)) node _

theorem Like.entryType (h : Like ρ s t) (node : NodeId) (optional : Bool) :
    LikeWith ρ (s.entryType node optional) (t.entryType node optional) := by
  unfold Session.entryType
  simp only [h.typeOf_eq]
  split
  next =>
    split
    next => exact ⟨rfl, h⟩
    next => exact ⟨rfl, h.report node _⟩
  next => exact ⟨rfl, h⟩

theorem Like.memberType (h : Like ρ s t) (type : Option Ty) :
    LikeWith ρ (s.memberType type) (t.memberType type) := by
  cases type with
  | none => exact h.freshVar
  | some type => exact ⟨rfl, h⟩

theorem Like.recordList (h : Like ρ s t) (id : NodeId) (type : Option Ty) :
    Like ρ (s.recordList id type) (t.recordList id type) := by
  have hm := h.memberType type
  unfold Session.recordList
  simp only [hm.1]
  exact hm.2.setType id _

theorem Like.recordMap (h : Like ρ s t) (id : NodeId) (k v : Option Ty) :
    Like ρ (s.recordMap id k v) (t.recordMap id k v) := by
  have hk := h.memberType k
  have hv := hk.2.memberType v
  unfold Session.recordMap
  simp only [hk.1, hv.1]
  exact hv.2.setType id _

theorem Like.loopTypes (h : Like ρ s t) (range : NodeId) (two : Bool) :
    LikeWith ρ (s.loopTypes range two) (t.loopTypes range two) := by
  unfold Session.loopTypes
  simp only [h.resolvedTypeOf_eq]
  split
  next => exact ⟨rfl, h⟩
  next => exact ⟨rfl, h⟩
  next => exact ⟨rfl, (h.assign _ _).2⟩
  next => exact ⟨rfl, (h.assign _ _).2⟩
  next => exact ⟨rfl, (h.assign _ _).2⟩
  next => exact ⟨rfl, h.report range _⟩

theorem Like.enterLoop (h : Like ρ s t) (range init : NodeId)
    (iterVar iterVar2 accuVar : String) :
    Like ρ (s.enterLoop range init iterVar iterVar2 accuVar)
      (t.enterLoop range init iterVar iterVar2 accuVar) := by
  have hloop := h.loopTypes range (iterVar2 != "")
  unfold Session.enterLoop
  simp only [h.typeOf_eq, hloop.1]
  exact (hloop.2.enterScope _).enterScope _

theorem Like.exitLoop (h : Like ρ s t) (id result : NodeId) :
    Like ρ (s.exitLoop id result) (t.exitLoop id result) := by
  unfold Session.exitLoop
  simp only [h.exitScope.resolvedTypeOf_eq]
  exact h.exitScope.setType id _

theorem Like.literalTarget (h : Like ρ s t) (node : NodeId) (v : Variable) :
    LikeWith ρ (s.literalTarget node v) (t.literalTarget node v) := by
  unfold Session.literalTarget
  split
  next => exact ⟨rfl, h⟩
  next =>
    split
    next => exact ⟨rfl, h⟩
    next =>
      split
      next => exact ⟨rfl, h⟩
      next => exact ⟨rfl, h.report node _⟩
  next => exact ⟨rfl, h.report node _⟩

section Environments

variable (env : Environment) (policy : LiteralPolicy) (cross : Bool)

theorem Like.fieldType (h : Like ρ s t) (node : NodeId) (message field : String) :
    LikeWith ρ (s.fieldType env node message field)
      (t.fieldType (env.adjust policy cross) node message field) := by
  unfold Session.fieldType Environment.adjust
  simp only
  split
  next => exact h.fail node _
  next =>
    split
    next => exact ⟨rfl, h⟩
    next => exact h.fail node _

theorem Like.selectedType (h : Like ρ s t) (node operand : NodeId) (field : String)
    (optional : Bool) :
    LikeWith ρ (s.selectedType env node operand field optional)
      (t.selectedType (env.adjust policy cross) node operand field optional) := by
  unfold Session.selectedType
  simp only [h.resolvedTypeOf_eq]
  refine LikeWith.map (f := fun type : Ty =>
    if optional || (s.resolvedTypeOf operand).isOptional then .optional type else type) ?_
  generalize (s.resolvedTypeOf operand).unwrapOptional = target
  split
  next => exact ⟨rfl, h⟩
  next name => exact h.fieldType env policy cross node name field
  next => exact ⟨rfl, (h.assign _ _).2⟩
  next => exact ⟨rfl, h⟩
  next => exact ⟨rfl, h⟩
  next => exact ⟨rfl, h.report node _⟩

theorem Like.recordSelect (h : Like ρ s t) (id operand : NodeId) (field : String)
    (testOnly : Bool) :
    Like ρ (s.recordSelect env id operand field testOnly)
      (t.recordSelect (env.adjust policy cross) id operand field testOnly) := by
  have hsel := h.selectedType env policy cross id operand field false
  unfold Session.recordSelect
  simp only [hsel.1]
  exact hsel.2.setResolvedType id _

theorem Like.expectField (h : Like ρ s t) (target : LiteralTarget) (node : NodeId)
    (field : String) (value : NodeId) (optional : Bool) :
    Like ρ (s.expectField env target node field value optional)
      (t.expectField (env.adjust policy cross) target node field value optional) := by
  have hfield : LikeWith ρ
      (if target.type.isError then (target.type, s) else s.fieldType env node target.name field)
      (if target.type.isError then (target.type, t)
        else t.fieldType (env.adjust policy cross) node target.name field) := by
    split
    next => exact ⟨rfl, h⟩
    next => exact h.fieldType env policy cross node target.name field
  have hentry := hfield.2.entryType value optional
  unfold Session.expectField
  simp only [hfield.1, hentry.1]
  exact .reportUnless (hentry.2.assign _ _) node _

theorem Like.checkField (h : Like ρ s t) (target : Option LiteralTarget) (node : NodeId)
    (field : String) (value : NodeId) (optional : Bool) :
    Like ρ (s.checkField env target node field value optional)
      (t.checkField (env.adjust policy cross) target node field value optional) := by
  cases target with
  | none => exact h
  | some target => exact h.expectField env policy cross target node field value optional

end Environments

section Calls

theorem Like.freshVars (h : Like ρ s t) (names : List String) :
    LikeWith ρ (s.freshVars names) (t.freshVars names) := by
  unfold Session.freshVars
  have hstart : LikeWith ρ ((∅ : Bindings), s) ((∅ : Bindings), t) := ⟨rfl, h⟩
  generalize ((∅ : Bindings), s) = p at hstart ⊢
  generalize ((∅ : Bindings), t) = q at hstart ⊢
  induction names generalizing p q with
  | nil => exact hstart
  | cons name names ih =>
    have hvar := hstart.2.freshVar
    refine ih _ _ ⟨?_, hvar.2⟩
    simp only [hstart.1, hvar.1]

theorem Like.instantiate (h : Like ρ s t) (o : Overload) :
    LikeWith ρ (s.instantiate o) (t.instantiate o) := by
  have hfresh := h.freshVars o.typeParamNames
  refine ⟨?_, hfresh.2⟩
  unfold Session.instantiate
  simp only [hfresh.1]

theorem Like.matchOverloads (function : String) (args : List Ty) (os : List Overload) :
    ∀ (found : Option Resolved) {s t : Session}, Like ρ s t →
      LikeWith ρ (Session.matchOverloads function args os found s)
        (Session.matchOverloads function args os found t) := by
  induction os with
  | nil => exact fun _ _ _ h => ⟨rfl, h⟩
  | cons o os ih =>
    intro found s t h
    have hinst := h.instantiate o
    simp only [Session.matchOverloads, hinst.1, hinst.2.bindings_eq]
    cases (s.instantiate o).2.bindings.assignableAll? args (s.instantiate o).1.2 with
    | none => exact ih found hinst.2
    | some m => exact ih _ (hinst.2.withBindings m)

theorem Like.expectBools (nodes : List NodeId) :
    ∀ (types : List Ty) {s t : Session}, Like ρ s t →
      Like ρ (s.expectBools nodes types) (t.expectBools nodes types) := by
  induction nodes with
  | nil => exact fun _ _ _ h => h
  | cons node nodes ih =>
    intro types s t h
    cases types with
    | nil => exact h
    | cons type types => exact ih types (.reportUnless (h.assign type .bool) node _)

theorem Like.resolveOverload {env env' : Environment} {f : Function} {isMember : Bool}
    (heq : env'.eligible f isMember = env.eligible f isMember) (h : Like ρ s t) (node : NodeId)
    (args : List NodeId) :
    LikeWith ρ (s.resolveOverload env node f isMember args)
      (t.resolveOverload env' node f isMember args) := by
  have hmatch := Like.matchOverloads f.name (args.map s.typeOf) (env.eligible f isMember) none h
  unfold Environment.eligible at heq hmatch
  unfold Session.resolveOverload
  simp only [heq, h.typeOf_eq]
  split
  next =>
    split
    next => exact ⟨by simp only [h.bindings_eq], h⟩
    next => exact ⟨rfl, .expectBools args _ h⟩
  next =>
    cases hs : Session.matchOverloads f.name (args.map s.typeOf)
        (f.overloads.filter fun o => !env.isDisabled o.id && o.isMember == isMember) none s with
    | mk found s₁ =>
      rw [hs] at hmatch
      cases ht : Session.matchOverloads f.name (args.map s.typeOf)
          (f.overloads.filter fun o => !env.isDisabled o.id && o.isMember == isMember) none t with
      | mk found' t₁ =>
        rw [ht] at hmatch
        obtain ⟨heq, h₁⟩ := hmatch
        simp only at heq h₁
        subst heq
        cases found' with
        | none => exact ⟨by simp only [h₁.bindings_eq], h₁⟩
        | some r => exact ⟨rfl, h₁⟩

end Calls

end Operations

/-- What makes passes in an environment and in the adjusted one keep step while the first
reports nothing. -/
structure Lockstep (ρ : ReferenceRelation) (env : Environment) (policy : LiteralPolicy)
    (cross : Bool) : Prop where
  policy_eq : policy = env.policy ∨ env.policy = .homogeneous
  setReference : ∀ {s t : Session} (node : NodeId) {r : Reference}, r.overloads.Nodup →
    Like ρ s t → (s.setReference node r).diagnostics = [] →
      Like ρ (s.setReference node r) (t.setReference node r)
  resolveCall : ∀ {s t : Session} {name : String} {f : Function} (node : NodeId)
    (isMember : Bool) (args : List NodeId), env.function? name = some f → Like ρ s t →
    (s.resolveCall env node f isMember args).diagnostics = [] →
      Like ρ (s.resolveCall env node f isMember args)
        (t.resolveCall (env.adjust policy cross) node f isMember args)

namespace Lockstep

variable {ρ : ReferenceRelation} {env : Environment} {policy : LiteralPolicy} {cross : Bool}
  {s t : Session}

theorem setVariable (hl : Lockstep ρ env policy cross) (h : Like ρ s t) {node : NodeId}
    {v : Variable} (hok : (s.setVariable node v).diagnostics = []) :
    Like ρ (s.setVariable node v) (t.setVariable node v) :=
  hl.setReference node List.nodup_nil (h.setType node v.type) hok

theorem recordOptionalSelect (hl : Lockstep ρ env policy cross) (h : Like ρ s t)
    {id operand fieldId : NodeId} {field : String}
    (hok : (s.recordOptionalSelect env id operand fieldId field).diagnostics = []) :
    Like ρ (s.recordOptionalSelect env id operand fieldId field)
      (t.recordOptionalSelect (env.adjust policy cross) id operand fieldId field) := by
  have hsel := h.selectedType env policy cross id operand field true
  unfold Session.recordOptionalSelect
  simp only [hsel.1]
  exact hl.setReference id (List.nodup_singleton _)
    ((hsel.2.setType fieldId .string).setResolvedType id _) hok

theorem enterMessage (hl : Lockstep ρ env policy cross) (h : Like ρ s t) {id : NodeId}
    {v : Variable} (hok : (s.enterMessage id v).2.diagnostics = []) :
    Like ρ (s.enterMessage id v).2 (t.enterMessage id v).2 := by
  have hsteps : Steps [id] (s.setReference id { name := v.name }) (s.enterMessage id v).2 :=
    (steps_literalTarget _ id v).trans (steps_setType _ _ List.mem_cons_self)
  have href := hl.setReference id List.nodup_nil h (hsteps.moves.diagnostics_eq_nil hok)
  have htarget := href.literalTarget id v
  unfold Session.enterMessage
  simp only [htarget.1]
  exact htarget.2.setType id _

theorem joinTypes (hl : Lockstep ρ env policy cross) (h : Like ρ s t) {node : NodeId}
    {previous : Option Ty} {current : Ty}
    (hok : (s.joinTypes env node previous current).2.diagnostics = []) :
    LikeWith ρ (s.joinTypes env node previous current)
      (t.joinTypes (env.adjust policy cross) node previous current) := by
  cases previous with
  | none => exact ⟨rfl, h⟩
  | some previous =>
    have hassign := h.assign previous current
    unfold Session.joinTypes at hok ⊢
    simp only [hassign.1, Environment.adjust] at hok ⊢
    split at hok
    next hfits =>
      simp only [hfits, if_true]
      exact ⟨rfl, hassign.2⟩
    next hfits =>
      simp only [hfits]
      cases hp : env.policy with
      | mixed =>
        have heq : policy = .mixed := by
          rcases hl.policy_eq with heq | hstrict
          · rw [heq, hp]
          · rw [hp] at hstrict
            cases hstrict
        simp only [heq]
        exact ⟨rfl, hassign.2⟩
      | homogeneous =>
        simp only [hp] at hok
        exact absurd hok (report_diagnostics_ne _ _ _)

theorem joinMember (hl : Lockstep ρ env policy cross) (h : Like ρ s t) {node : NodeId}
    {optional : Bool} {previous : Option Ty}
    (hok : (s.joinMember env node optional previous).2.diagnostics = []) :
    LikeWith ρ (s.joinMember env node optional previous)
      (t.joinMember (env.adjust policy cross) node optional previous) := by
  have hentry := h.entryType node optional
  unfold Session.joinMember at hok ⊢
  simp only [hentry.1]
  exact hl.joinTypes hentry.2 hok

end Lockstep

end Session

section Passes

open Session

variable {ρ : ReferenceRelation} {env : Environment} {policy : LiteralPolicy} {cross : Bool}
  {s t : Session}

theorem Session.Lockstep.settle (hl : Lockstep ρ env policy cross) (h : Like ρ s t)
    {node : NodeId} {kept : Kept} {place : Place}
    (hok : (s.settle env node kept place).2.diagnostics = []) :
    LikeWith ρ (s.settle env node kept place)
      (t.settle (env.adjust policy cross) node kept place) := by
  cases place with
  | plain => exact ⟨rfl, h⟩
  | key =>
    have hjoin : LikeWith ρ (s.joinMember env node false kept.key) _ := hl.joinMember h hok
    exact hjoin.map (f := fun type => { kept with key := some type })
  | value optional =>
    have hjoin : LikeWith ρ (s.joinMember env node optional kept.value) _ := hl.joinMember h hok
    exact hjoin.map (f := fun type => { kept with value := some type })
  | field target id name optional =>
    exact ⟨rfl, h.checkField env policy cross target id name node optional⟩
  | start range iterVar iterVar2 accuVar =>
    exact ⟨by simp only [Session.settle, h.typeOf_eq],
      h.enterLoop range node iterVar iterVar2 accuVar⟩
  | condition => exact ⟨rfl, h.expectType node .bool⟩
  | step => exact ⟨rfl, (h.expectType node _).exitScope⟩

theorem Session.Lockstep.work (hl : Lockstep ρ env policy cross) (h : Like ρ s t)
    {scopes : ScopeStack} {id : NodeId} {kept : Kept} {w : Work} (hw : w.Found env scopes)
    (hok : (s.work env id kept w).diagnostics = []) :
    Like ρ (s.work env id kept w) (t.work (env.adjust policy cross) id kept w) := by
  cases w with
  | nothing => exact h
  | type type => exact h.setType id type
  | «variable» v => exact hl.setVariable h hok
  | undeclared name => exact absurd hok (failNode_diagnostics_ne _ _ _)
  | message v => exact hl.enterMessage h hok
  | select operand field testOnly => exact h.recordSelect env policy cross id operand field testOnly
  | optionalSelect operand fieldId field => exact hl.recordOptionalSelect h hok
  | call f isMember args =>
    obtain ⟨name, hf⟩ := hw
    exact hl.resolveCall id isMember args hf h hok
  | list => exact h.recordList id kept.value
  | map => exact h.recordMap id kept.key kept.value
  | loop result => exact h.exitLoop id result

theorem Session.Lockstep.simulates (hl : Lockstep ρ env policy cross) :
    Simulates env (env.adjust policy cross) (·.diagnostics = []) (Like ρ) where
  good_before := Moves.diagnostics_eq_nil
  not_cut s node := s.failNode_diagnostics_ne node _
  plan_eq _ e := by cases e <;> rfl
  scopes_eq := Like.scopes_eq
  depth_lt h hlt := h.depth_eq ▸ hlt
  deeper := Like.deeper
  shallower := Like.shallower
  settle _ _ _ h hok := hl.settle h hok
  work _ _ _ hw h hok := hl.work h hw hok

end Passes

section Policies

theorem Session.Lockstep.policies {env : Environment} (policy : LiteralPolicy)
    (hstrict : env.policy = .homogeneous) :
    Lockstep Eq env policy env.crossTypeComparisons where
  policy_eq := .inr hstrict
  setReference _ _ _ h _ := by
    obtain ⟨_, rfl, rfl⟩ := h
    exact ⟨_, rfl, rfl⟩
  resolveCall _ _ _ _ h _ := by
    obtain ⟨_, rfl, rfl⟩ := h
    exact ⟨_, rfl, rfl⟩

/-- Literals that a strict policy has nothing against are typed alike under a lenient one,
and so is everything around them. -/
theorem check_mixed_of_homogeneous {env : Environment} {e : Expr} {c : Checked}
    (h : check { env with policy := .homogeneous } e = .ok c) (hok : c.diagnostics = []) :
    check { env with policy := .mixed } e = .ok c := by
  obtain ⟨e', s, hd, rfl⟩ := check_iff.1 h
  obtain ⟨_, hd', _, rfl, rfl⟩ :=
    hd.simulate (Session.Lockstep.policies .mixed rfl).simulates hok
      ⟨(∅ : Table NodeId Reference), rfl, rfl⟩
  exact check_iff.2 ⟨e', s, hd', rfl⟩

def settledLists : Expr :=
  .map 9 [⟨1, .literal 2 (.string "none"), .list 3 [], false⟩,
    ⟨4, .literal 5 (.string "some"),
      .list 6 [⟨.literal 7 (.int 1), false⟩, ⟨.literal 8 (.int 2), false⟩], false⟩]

theorem check_mixed_of_homogeneous_settledLists :
    ∃ c, check { Environment.standard with policy := .homogeneous } settledLists = .ok c ∧
      (c.diagnostics = [] ∧ c.types.get? 3 = some (.list .int) ∧
        c.types.get? 9 = some (.map .string (.list .int))) ∧
      check { Environment.standard with policy := .mixed } settledLists = .ok c := by
  obtain ⟨c, hc, hd⟩ : ∃ c,
      check { Environment.standard with policy := .homogeneous } settledLists = .ok c ∧
      (c.diagnostics = [] ∧ c.types.get? 3 = some (.list .int) ∧
        c.types.get? 9 = some (.map .string (.list .int))) := by decide +kernel
  exact ⟨c, hc, hd, check_mixed_of_homogeneous hc hd.1⟩

end Policies

end CelTyping
