import CelTyping.Proofs.Derivation
import Mathlib.Logic.Relation

/-! What the parts of a checking pass do to its session. Whatever they find, it comes
down to a few kinds of change; an invariant of the session is proved for those and then
holds along the whole pass. Scopes and nesting are no part of it: they are changed around
the children of a node only. -/
namespace CelTyping

def Environment.eligible (env : Environment) (f : Function) (isMember : Bool) : List Overload :=
  f.overloads.filter fun o => !env.isDisabled o.id && o.isMember == isMember

namespace Session

/-- One change. Types and references are recorded for the nodes given only. -/
inductive Step (nodes : List NodeId) : Session → Session → Prop where
  | report (s : Session) (node : NodeId) (cause : Cause) : Step nodes s (s.report node cause)
  | type (s : Session) {node : NodeId} (t : Ty) :
      node ∈ nodes → Step nodes s { s with types := s.types.insert node t }
  | reference (s : Session) {node : NodeId} (r : Reference) :
      node ∈ nodes → Step nodes s { s with references := s.references.insert node r }
  | freshVar (s : Session) : Step nodes s s.freshVar.2
  | assign (s : Session) {a b : Ty} {m : Substitution} :
      s.bindings.assignable? a b = some m → Step nodes s { s with bindings := m }
  | assignAll (s : Session) {as bs : List Ty} {m : Substitution} :
      s.bindings.assignableAll? as bs = some m → Step nodes s { s with bindings := m }

abbrev Steps (nodes : List NodeId) : Session → Session → Prop :=
  Relation.ReflTransGen (Step nodes)

theorem Steps.trans {nodes : List NodeId} {s s₁ s' : Session} (h : Steps nodes s s₁)
    (h' : Steps nodes s₁ s') : Steps nodes s s' :=
  Relation.ReflTransGen.trans h h'

section Operations

variable {nodes : List NodeId}

theorem steps_report (s : Session) (node : NodeId) (cause : Cause) :
    Steps nodes s (s.report node cause) :=
  .single (.report s node cause)

theorem steps_fail (s : Session) (node : NodeId) (cause : Cause) :
    Steps nodes s (s.fail node cause).2 :=
  s.steps_report node cause

theorem steps_setType (s : Session) {node : NodeId} (t : Ty) (h : node ∈ nodes) :
    Steps nodes s (s.setType node t) := by
  unfold setType
  split
  next =>
    split
    next => exact .single (.type s t h)
    next => exact s.steps_report node _
  next => exact .single (.type s t h)

theorem steps_setReference (s : Session) {node : NodeId} (r : Reference) (h : node ∈ nodes) :
    Steps nodes s (s.setReference node r) := by
  unfold setReference
  split
  next => exact .single (.reference s r h)
  next =>
    split
    next => exact .refl
    next =>
      split
      next => exact .single (.reference s _ h)
      next => exact s.steps_report node _

theorem steps_failNode (s : Session) {node : NodeId} (cause : Cause) (h : node ∈ nodes) :
    Steps nodes s (s.failNode node cause) :=
  (s.steps_fail node cause).trans (steps_setType _ _ h)

theorem steps_setVariable (s : Session) {node : NodeId} (v : Variable) (h : node ∈ nodes) :
    Steps nodes s (s.setVariable node v) :=
  (s.steps_setType v.type h).trans (steps_setReference _ _ h)

theorem steps_assign (s : Session) (a b : Ty) : Steps nodes s (s.assign a b).2 := by
  unfold Session.assign
  split
  next h => exact .single (.assign s h)
  next => exact .refl

theorem steps_ite {s s₁ s₂ : Session} {c : Prop} [Decidable c] (h₁ : Steps nodes s s₁)
    (h₂ : Steps nodes s s₂) : Steps nodes s (if c then s₁ else s₂) := by
  split
  next => exact h₁
  next => exact h₂

theorem steps_expectType (s : Session) (node : NodeId) (expected : Ty) :
    Steps nodes s (s.expectType node expected) :=
  steps_ite (s.steps_assign _ _) ((s.steps_assign _ _).trans (steps_report _ _ _))

theorem steps_fieldType (s : Session) (env : Environment) (node : NodeId)
    (message field : String) : Steps nodes s (s.fieldType env node message field).2 := by
  unfold fieldType
  split
  next => exact s.steps_fail node _
  next =>
    split
    next => exact .refl
    next => exact s.steps_fail node _

theorem fieldType_cases (s : Session) (env : Environment) (node : NodeId)
    (message field : String) :
    (∃ t, (env.registry.message? message).bind (·.field? field) = some t ∧
        s.fieldType env node message field = (t, s)) ∨
      ∃ d, (s.fieldType env node message field).2.diagnostics = s.diagnostics ++ [d] ∧
        (s.fieldType env node message field).1.isDynOrError = true := by
  unfold fieldType
  split
  next => exact .inr ⟨_, rfl, rfl⟩
  next m hm =>
    split
    next t ht => exact .inl ⟨t, by rw [hm, Option.bind_some, ht], rfl⟩
    next => exact .inr ⟨_, rfl, rfl⟩

theorem steps_selectedType (s : Session) (env : Environment) (node operand : NodeId)
    (field : String) (optional : Bool) :
    Steps nodes s (s.selectedType env node operand field optional).2 := by
  unfold selectedType
  simp only
  split
  next => exact .refl
  next name _ => exact s.steps_fieldType env node name field
  next => exact s.steps_assign _ _
  next => exact .refl
  next => exact .refl
  next => exact s.steps_fail node _

theorem steps_setResolvedType (s : Session) {node : NodeId} (t : Ty) (h : node ∈ nodes) :
    Steps nodes s (s.setResolvedType node t) :=
  s.steps_setType _ h

theorem steps_entryType (s : Session) (node : NodeId) (optional : Bool) :
    Steps nodes s (s.entryType node optional).2 := by
  unfold entryType
  simp only
  split
  next =>
    split
    next => exact .refl
    next => exact s.steps_report node _
  next => exact .refl

theorem entryType_of_ok {s : Session} {node : NodeId} {optional : Bool}
    (h : (s.entryType node optional).2.diagnostics = []) :
    (s.entryType node optional).2 = s ∧
      (optional = true →
        (s.typeOf node).isOptional = true ∨ (s.typeOf node).isDynOrError = true) := by
  unfold entryType at h ⊢
  simp only at h ⊢
  cases optional with
  | false => simp
  | true =>
    simp only [if_true] at h ⊢
    split at h
    next hmark =>
      rw [if_pos hmark]
      exact ⟨rfl, fun _ => Bool.or_eq_true_iff.1 hmark⟩
    next => simp at h

theorem steps_joinTypes (s : Session) (env : Environment) (node : NodeId)
    (previous : Option Ty) (current : Ty) :
    Steps nodes s (s.joinTypes env node previous current).2 := by
  unfold joinTypes
  split
  next => exact .refl
  next previous =>
    have h : Steps nodes s (s.assign previous current).2 := s.steps_assign previous current
    simp only
    split
    next => exact h
    next =>
      split
      next => exact h
      next => exact h.trans (steps_fail _ node _)

theorem steps_memberType (s : Session) (t : Option Ty) : Steps nodes s (s.memberType t).2 := by
  cases t with
  | none => exact .single (.freshVar s)
  | some t => exact .refl

theorem steps_loopTypes (s : Session) (range : NodeId) (two : Bool) :
    Steps nodes s (s.loopTypes range two).2 := by
  unfold loopTypes
  simp only
  split
  next => exact .refl
  next => exact .refl
  next => exact s.steps_assign _ _
  next => exact s.steps_assign _ _
  next => exact s.steps_assign _ _
  next => exact s.steps_fail range _

theorem steps_undeclared (s : Session) (env : Environment) {node : NodeId} (name : String)
    (h : node ∈ nodes) : Steps nodes s (s.undeclared env node name) :=
  s.steps_failNode _ h

theorem steps_literalTarget (s : Session) (node : NodeId) (v : Variable) :
    Steps nodes s (s.literalTarget node v).2 := by
  unfold literalTarget
  split
  next => exact .refl
  next =>
    split
    next => exact .refl
    next =>
      split
      next => exact .refl
      next => exact s.steps_fail node _
  next => exact s.steps_fail node _

theorem steps_expectField (s : Session) (env : Environment) (target : LiteralTarget)
    (node : NodeId) (field : String) (value : NodeId) (optional : Bool) :
    Steps nodes s (s.expectField env target node field value optional) := by
  have hfield : Steps nodes s
      (if target.type.isError then (target.type, s)
        else s.fieldType env node target.name field).2 := by
    split
    next => exact .refl
    next => exact s.steps_fieldType env node target.name field
  have hentry := hfield.trans (steps_entryType _ value optional)
  exact steps_ite (hentry.trans (steps_assign _ _ _))
    ((hentry.trans (steps_assign _ _ _)).trans (steps_report _ _ _))

theorem steps_freshVars (s : Session) (names : List String) :
    Steps nodes s (s.freshVars names).2 := by
  unfold freshVars
  refine List.foldlRecOn (motive := fun (p : Bindings × Session) => Steps nodes s p.2)
    names _ .refl ?_
  intro p h name _
  exact h.tail (.freshVar p.2)

theorem steps_instantiate (s : Session) (o : Overload) : Steps nodes s (s.instantiate o).2 :=
  s.steps_freshVars o.typeParamNames

theorem steps_matchOverloads (function : String) (args : List Ty) (os : List Overload) :
    ∀ (found : Option Resolved) (s : Session),
      Steps nodes s (matchOverloads function args os found s).2 := by
  induction os with
  | nil => exact fun _ _ => .refl
  | cons o os ih =>
    intro found s
    have h : Steps nodes s (s.instantiate o).2 := s.steps_instantiate o
    simp only [matchOverloads]
    split
    next => exact h.trans (ih found _)
    next m hm => exact (h.tail (.assignAll _ hm)).trans (ih _ _)

theorem steps_expectBools (args : List NodeId) :
    ∀ (ts : List Ty) (s : Session), Steps nodes s (s.expectBools args ts) := by
  induction args with
  | nil => exact fun _ _ => .refl
  | cons arg args ih =>
    intro ts s
    cases ts with
    | nil => exact .refl
    | cons t ts =>
      have h : Steps nodes s (s.assign t .bool).2 := s.steps_assign t .bool
      exact (steps_ite h (h.trans (steps_report _ arg _))).trans (ih ts _)

theorem steps_resolveOverload (s : Session) (env : Environment) (node : NodeId) (f : Function)
    (isMember : Bool) (args : List NodeId) :
    Steps nodes s (s.resolveOverload env node f isMember args).2 := by
  unfold resolveOverload
  simp only
  split
  next =>
    split
    next => exact .refl
    next => exact steps_expectBools args _ s
  next =>
    have hs : Steps nodes s
        (matchOverloads f.name (args.map s.typeOf) (env.eligible f isMember) none s).2 :=
      steps_matchOverloads f.name _ _ none s
    split
    next r s₁ heq =>
      rw [Environment.eligible, heq] at hs
      exact hs
    next s₁ heq =>
      rw [Environment.eligible, heq] at hs
      exact hs

theorem resolveOverload_error {s s₁ : Session} {env : Environment} {node : NodeId}
    {f : Function} {isMember : Bool} {args : List NodeId} {d : Diagnostic}
    (h : s.resolveOverload env node f isMember args = (.error d, s₁)) :
    ∃ ts, d = ⟨node, .noMatchingOverload f.name ts⟩ := by
  unfold resolveOverload at h
  simp only at h
  split at h
  next =>
    split at h
    next =>
      cases h
      exact ⟨_, rfl⟩
    next => cases h
  next =>
    split at h
    next => cases h
    next =>
      cases h
      exact ⟨_, rfl⟩

theorem resolveOverload_error_node {s s₁ : Session} {env : Environment} {node : NodeId}
    {f : Function} {isMember : Bool} {args : List NodeId} {d : Diagnostic}
    (h : s.resolveOverload env node f isMember args = (.error d, s₁)) : d.node = node := by
  obtain ⟨ts, rfl⟩ := resolveOverload_error h
  rfl

theorem steps_resolveCall (s : Session) (env : Environment) {node : NodeId} (f : Function)
    (isMember : Bool) (args : List NodeId) (h : node ∈ nodes) :
    Steps nodes s (s.resolveCall env node f isMember args) := by
  have hs : Steps nodes s (s.resolveOverload env node f isMember args).2 :=
    s.steps_resolveOverload env node f isMember args
  unfold resolveCall
  split
  next r s₁ heq =>
    rw [heq] at hs
    exact (hs.trans (steps_setType _ _ h)).trans (steps_setReference _ _ h)
  next d s₁ heq =>
    rw [heq] at hs
    rw [resolveOverload_error_node heq]
    exact hs.trans (steps_failNode _ _ h)

theorem steps_recordSelect (s : Session) (env : Environment) {id : NodeId} (operand : NodeId)
    (field : String) (testOnly : Bool) (h : id ∈ nodes) :
    Steps nodes s (s.recordSelect env id operand field testOnly) :=
  (s.steps_selectedType env id operand field false).trans (steps_setResolvedType _ _ h)

theorem steps_recordOptionalSelect (s : Session) (env : Environment) {id fieldId : NodeId}
    (operand : NodeId) (field : String) (h : id ∈ nodes) (hf : fieldId ∈ nodes) :
    Steps nodes s (s.recordOptionalSelect env id operand fieldId field) :=
  (s.steps_selectedType env id operand field true).trans <|
    (steps_setType _ _ hf).trans <|
      (steps_setResolvedType _ _ h).trans (steps_setReference _ _ h)

theorem steps_recordList (s : Session) {id : NodeId} (t : Option Ty) (h : id ∈ nodes) :
    Steps nodes s (s.recordList id t) :=
  (s.steps_memberType t).trans (steps_setType _ _ h)

theorem steps_recordMap (s : Session) {id : NodeId} (k v : Option Ty) (h : id ∈ nodes) :
    Steps nodes s (s.recordMap id k v) :=
  (s.steps_memberType k).trans ((steps_memberType _ v).trans (steps_setType _ _ h))

theorem steps_joinMember (s : Session) (env : Environment) (node : NodeId) (optional : Bool)
    (previous : Option Ty) : Steps nodes s (s.joinMember env node optional previous).2 :=
  (s.steps_entryType node optional).trans (steps_joinTypes _ env node previous _)

theorem steps_enterMessage (s : Session) {id : NodeId} (v : Variable) (h : id ∈ nodes) :
    Steps nodes s (s.enterMessage id v).2 :=
  (s.steps_setReference _ h).trans ((steps_literalTarget _ id v).trans (steps_setType _ _ h))

theorem steps_checkField (s : Session) (env : Environment) (target : Option LiteralTarget)
    (node : NodeId) (field : String) (value : NodeId) (optional : Bool) :
    Steps nodes s (s.checkField env target node field value optional) := by
  cases target with
  | none => exact .refl
  | some target => exact s.steps_expectField env target node field value optional

end Operations

end Session

end CelTyping
