import CelTyping.Check

/-! Checking as a relation: one rule for each way in which a node can be checked. Proofs
about whole passes go by induction over these derivations, and `descends_iff` carries them
to the checker and back. A pass that stops at a malformed node has no derivation. -/
namespace CelTyping

namespace Session

section Rules

def deeper (s : Session) : Session := { s with depth := s.depth + 1 }

def shallower (s : Session) : Session := { s with depth := s.depth - 1 }

def recordSelect (s : Session) (env : Environment) (id operand : NodeId) (field : String)
    (testOnly : Bool) : Session :=
  let (t, s) := s.selectedType env id operand field false
  s.setResolvedType id (if testOnly then .bool else t)

def recordOptionalSelect (s : Session) (env : Environment) (id operand fieldId : NodeId)
    (field : String) : Session :=
  let (t, s) := s.selectedType env id operand field true
  let s := (s.setType fieldId .string).setResolvedType id t
  s.setReference id { name := Operator.optionalSelect, overloads := ["select_optional_field"] }

def recordList (s : Session) (id : NodeId) (t : Option Ty) : Session :=
  let (t, s) := s.memberType t
  s.setType id (.list t)

def recordMap (s : Session) (id : NodeId) (k v : Option Ty) : Session :=
  let (k, s) := s.memberType k
  let (v, s) := s.memberType v
  s.setType id (.map k v)

def joinMember (s : Session) (env : Environment) (node : NodeId) (optional : Bool)
    (previous : Option Ty) : Ty × Session :=
  let (current, s) := s.entryType node optional
  s.joinTypes env node previous current

theorem joinMember_key (s : Session) (env : Environment) (node : NodeId)
    (previous : Option Ty) :
    s.joinMember env node false previous = s.joinTypes env node previous (s.typeOf node) := rfl

def enterMessage (s : Session) (id : NodeId) (v : Variable) : LiteralTarget × Session :=
  let (target, s) := (s.setReference id { name := v.name }).literalTarget id v
  (target, s.setType id target.type)

def checkField (s : Session) (env : Environment) (target : Option LiteralTarget) (node : NodeId)
    (field : String) (value : NodeId) (optional : Bool) : Session :=
  match target with
  | some target => s.expectField env target node field value optional
  | none => s

/-- The accumulator's scope and the one of the loop variables inside it, for a loop over
a range and from a start that have been checked. -/
def enterLoop (s : Session) (range init : NodeId) (iterVar iterVar2 accuVar : String) :
    Session :=
  let two := iterVar2 != ""
  let ((t, t2), s₁) := s.loopTypes range two
  (s₁.enterScope [{ name := accuVar, type := s.typeOf init }]).enterScope
    ({ name := iterVar, type := t } :: if two then [{ name := iterVar2, type := t2 }] else [])

def exitLoop (s : Session) (id result : NodeId) : Session :=
  let s := s.exitScope
  s.setType id (s.resolvedTypeOf result)

end Rules

end Session

mutual

/-- Checking the node from the first session writes the second tree and ends in the
second session. -/
inductive Checks (env : Environment) : Expr → Session → Expr → Session → Prop where
  | literal {id : NodeId} {value : Value} {s : Session} :
      Checks env (.literal id value) s (.literal id value) (s.setType id value.type)
  | ident {id : NodeId} {name : String} {v : Variable} {s : Session} :
      env.variableIn? s.scopes name = some v →
        Checks env (.ident id name) s (.ident id v.name) (s.setVariable id v)
  | unknownIdent {id : NodeId} {name : String} {s : Session} :
      env.variableIn? s.scopes name = none →
        Checks env (.ident id name) s (.ident id name) (s.undeclared env id name)
  /-- A chain of selections that spells the name of a variable is that variable. -/
  | qualified {id : NodeId} {operand : Expr} {field : String} {testOnly : Bool} {v : Variable}
      {s : Session} :
      ((Expr.select id operand field testOnly).qualifiedName?).bind
          (env.variableIn? s.scopes) = some v →
        Checks env (.select id operand field testOnly) s (.ident id v.name) (s.setVariable id v)
  | select {id : NodeId} {operand operand' : Expr} {field : String} {testOnly : Bool}
      {s s₁ : Session} :
      ((Expr.select id operand field testOnly).qualifiedName?).bind
          (env.variableIn? s.scopes) = none →
      Descends env operand s operand' s₁ →
        Checks env (.select id operand field testOnly) s (.select id operand' field testOnly)
          (s₁.recordSelect env id operand.id field testOnly)
  | optionalSelect {id fieldId : NodeId} {operand operand' : Expr} {field : String}
      {s s₁ : Session} :
      Descends env operand s operand' s₁ →
        Checks env
          (.call id Operator.optionalSelect [operand, .literal fieldId (.string field)]) s
          (.call id Operator.optionalSelect [operand', .literal fieldId (.string field)])
          (s₁.recordOptionalSelect env id operand.id fieldId field)
  | call {id : NodeId} {function : String} {args args' : List Expr} {f : Function}
      {s s₁ : Session} :
      function ≠ Operator.optionalSelect → ChecksArgs env args s args' s₁ →
      env.function? function = some f →
        Checks env (.call id function args) s (.call id f.name args')
          (s₁.resolveCall env id f false (args'.map Expr.id))
  | unknownCall {id : NodeId} {function : String} {args args' : List Expr} {s s₁ : Session} :
      function ≠ Operator.optionalSelect → ChecksArgs env args s args' s₁ →
      env.function? function = none →
        Checks env (.call id function args) s (.call id function args')
          (s₁.undeclared env id function)
  /-- A receiver that spells a namespace is dropped. -/
  | namespaced {id : NodeId} {target : Expr} {function : String} {args args' : List Expr}
      {f : Function} {s s₁ : Session} :
      function ≠ Operator.optionalSelect → ChecksArgs env args s args' s₁ →
      (target.qualifiedName?.bind fun name => env.function? (Name.extend name function)) =
        some f →
        Checks env (.receiverCall id target function args) s (.call id f.name args')
          (s₁.resolveCall env id f false (args'.map Expr.id))
  | member {id : NodeId} {target target' : Expr} {function : String} {args args' : List Expr}
      {f : Function} {s s₁ s₂ : Session} :
      function ≠ Operator.optionalSelect → ChecksArgs env args s args' s₁ →
      (target.qualifiedName?.bind fun name => env.function? (Name.extend name function)) =
        none →
      Descends env target s₁ target' s₂ → env.function? function = some f →
        Checks env (.receiverCall id target function args) s
          (.receiverCall id target' f.name args')
          (s₂.resolveCall env id f true (target'.id :: args'.map Expr.id))
  | unknownMember {id : NodeId} {target target' : Expr} {function : String}
      {args args' : List Expr} {s s₁ s₂ : Session} :
      function ≠ Operator.optionalSelect → ChecksArgs env args s args' s₁ →
      (target.qualifiedName?.bind fun name => env.function? (Name.extend name function)) =
        none →
      Descends env target s₁ target' s₂ → env.function? function = none →
        Checks env (.receiverCall id target function args) s
          (.receiverCall id target' function args') (s₂.undeclared env id function)
  | list {id : NodeId} {elements elements' : List Element} {t : Option Ty} {s s₁ : Session} :
      ChecksElements env elements none s elements' t s₁ →
        Checks env (.list id elements) s (.list id elements') (s₁.recordList id t)
  | map {id : NodeId} {entries entries' : List Entry} {k v : Option Ty} {s s₁ : Session} :
      ChecksEntries env entries none none s entries' k v s₁ →
        Checks env (.map id entries) s (.map id entries') (s₁.recordMap id k v)
  | message {id : NodeId} {name : String} {fields fields' : List FieldInit} {v : Variable}
      {s s₁ : Session} :
      env.variableIn? s.scopes name = some v →
      ChecksFields env (some (s.enterMessage id v).1) fields (s.enterMessage id v).2 fields' s₁ →
        Checks env (.message id name fields) s
          (.message id (s.enterMessage id v).1.name fields') s₁
  | unknownMessage {id : NodeId} {name : String} {fields fields' : List FieldInit}
      {s s₁ : Session} :
      env.variableIn? s.scopes name = none →
      ChecksFields env none fields (s.undeclared env id name) fields' s₁ →
        Checks env (.message id name fields) s (.message id name fields') s₁
  | comprehension {id : NodeId} {iterVar iterVar2 accuVar : String}
      {range init condition step result range' init' condition' step' result' : Expr}
      {s s₁ s₂ s₃ s₄ s₅ : Session} :
      iterVar ≠ "" → accuVar ≠ "" →
      Descends env range s range' s₁ → Descends env init s₁ init' s₂ →
      Descends env condition (s₂.enterLoop range.id init.id iterVar iterVar2 accuVar)
        condition' s₃ →
      Descends env step (s₃.expectType condition.id .bool) step' s₄ →
      Descends env result (s₄.expectType step.id (s₂.typeOf init.id)).exitScope result' s₅ →
        Checks env (.comprehension id iterVar iterVar2 range accuVar init condition step result)
          s (.comprehension id iterVar iterVar2 range' accuVar init' condition' step' result')
          (s₅.exitLoop id result.id)

inductive Descends (env : Environment) : Expr → Session → Expr → Session → Prop where
  | limit {e : Expr} {s : Session} :
      env.maxDepth ≤ s.depth →
        Descends env e s e.childless (s.failNode e.id (.recursionLimit env.maxDepth))
  | node {e e' : Expr} {s s₁ : Session} :
      s.depth < env.maxDepth → Checks env e s.deeper e' s₁ → Descends env e s e' s₁.shallower

inductive ChecksArgs (env : Environment) :
    List Expr → Session → List Expr → Session → Prop where
  | nil {s : Session} : ChecksArgs env [] s [] s
  | cons {e e' : Expr} {es es' : List Expr} {s s₁ s₂ : Session} :
      Descends env e s e' s₁ → ChecksArgs env es s₁ es' s₂ →
        ChecksArgs env (e :: es) s (e' :: es') s₂

inductive ChecksElements (env : Environment) :
    List Element → Option Ty → Session → List Element → Option Ty → Session → Prop where
  | nil {t : Option Ty} {s : Session} : ChecksElements env [] t s [] t s
  | cons {value value' : Expr} {optional : Bool} {rest rest' : List Element} {t t' : Option Ty}
      {s s₁ s₂ : Session} :
      Descends env value s value' s₁ →
      ChecksElements env rest (some (s₁.joinMember env value.id optional t).1)
        (s₁.joinMember env value.id optional t).2 rest' t' s₂ →
        ChecksElements env (⟨value, optional⟩ :: rest) t s (⟨value', optional⟩ :: rest') t' s₂

inductive ChecksEntries (env : Environment) :
    List Entry → Option Ty → Option Ty → Session → List Entry → Option Ty → Option Ty →
      Session → Prop where
  | nil {k v : Option Ty} {s : Session} : ChecksEntries env [] k v s [] k v s
  | cons {id : NodeId} {key key' value value' : Expr} {optional : Bool} {rest rest' : List Entry}
      {k k' v v' : Option Ty} {s s₁ s₂ s₃ : Session} :
      Descends env key s key' s₁ →
      Descends env value (s₁.joinMember env key.id false k).2 value' s₂ →
      ChecksEntries env rest (some (s₁.joinMember env key.id false k).1)
        (some (s₂.joinMember env value.id optional v).1)
        (s₂.joinMember env value.id optional v).2 rest' k' v' s₃ →
        ChecksEntries env (⟨id, key, value, optional⟩ :: rest) k v s
          (⟨id, key', value', optional⟩ :: rest') k' v' s₃

inductive ChecksFields (env : Environment) :
    Option LiteralTarget → List FieldInit → Session → List FieldInit → Session → Prop where
  | nil {target : Option LiteralTarget} {s : Session} : ChecksFields env target [] s [] s
  | cons {target : Option LiteralTarget} {id : NodeId} {name : String} {value value' : Expr}
      {optional : Bool} {rest rest' : List FieldInit} {s s₁ s₂ : Session} :
      Descends env value s value' s₁ →
      ChecksFields env target rest (s₁.checkField env target id name value.id optional) rest' s₂ →
        ChecksFields env target (⟨id, name, value, optional⟩ :: rest) s
          (⟨id, name, value', optional⟩ :: rest') s₂

end

section Iff

variable {env : Environment}

instance {α : Type} {p : α → Prop} [DecidablePred p] :
    (o : Outcome α) → Decidable (∃ a, o = .ok a ∧ p a)
  | .ok a => decidable_of_iff (p a) (by simp)
  | .error _ => .isFalse (by simp)

theorem Outcome.bind_eq_ok {α β : Type} {x : Outcome α} {f : α → Outcome β} {b : β} :
    (x >>= f) = .ok b ↔ ∃ a, x = .ok a ∧ f a = .ok b := by
  cases x with
  | error d => simp [bind, Except.bind]
  | ok a => simp [bind, Except.bind]

@[simp] theorem Outcome.bind_ok {α β : Type} (a : α) (f : α → Outcome β) :
    ((.ok a : Outcome α) >>= f) = f a := rfl

mutual

theorem Checks.checkNode_eq {e e' : Expr} {s s' : Session} :
    Checks env e s e' s' → checkNode env e s = .ok (e', s')
  | .literal => rfl
  | .ident h => by simp only [checkNode, h]
  | .unknownIdent h => by simp only [checkNode, h]
  | .qualified h => by simp only [checkNode, h]
  | .select h hd => by
    simp only [checkNode, h, hd.descend_eq]
    rfl
  | .optionalSelect hd => by
    simp only [checkNode, if_true, hd.descend_eq]
    rfl
  | .call hf ha h => by
    unfold checkNode
    simp only [if_neg hf, ha.checkArgs_eq, Outcome.bind_ok, h]
    rfl
  | .unknownCall hf ha h => by
    unfold checkNode
    simp only [if_neg hf, ha.checkArgs_eq, Outcome.bind_ok, h]
    rfl
  | .namespaced hf ha h => by
    simp only [checkNode, if_neg hf, ha.checkArgs_eq, Outcome.bind_ok, h]
    rfl
  | .member hf ha hn hd h => by
    simp only [checkNode, if_neg hf, ha.checkArgs_eq, Outcome.bind_ok, hn, hd.descend_eq, h]
    rfl
  | .unknownMember hf ha hn hd h => by
    simp only [checkNode, if_neg hf, ha.checkArgs_eq, Outcome.bind_ok, hn, hd.descend_eq, h]
    rfl
  | .list h => by
    simp only [checkNode, h.checkElements_eq]
    rfl
  | .map h => by
    simp only [checkNode, h.checkEntries_eq]
    rfl
  | .message hv h => by
    have h := h.checkFields_eq
    simp only [Session.enterMessage] at h
    simp only [checkNode, hv, h]
    rfl
  | .unknownMessage hv h => by
    simp only [checkNode, hv, h.checkFields_eq]
    rfl
  | .comprehension hi ha hr hi' hc hs hres => by
    simp only [checkNode, if_neg hi, if_neg ha, hr.descend_eq, Outcome.bind_ok, hi'.descend_eq]
    have hc := hc.descend_eq
    simp only [Session.enterLoop] at hc
    simp only [hc, Outcome.bind_ok, hs.descend_eq, hres.descend_eq]
    rfl

theorem Descends.descend_eq {e e' : Expr} {s s' : Session} :
    Descends env e s e' s' → descend env e (checkNode env e) s = .ok (e', s')
  | .limit h => by simp only [descend, if_pos h]
  | .node h hc => by
    have hc := hc.checkNode_eq
    simp only [Session.deeper] at hc
    simp only [descend, if_neg (Nat.not_le.2 h), hc]
    rfl

theorem ChecksArgs.checkArgs_eq {es es' : List Expr} {s s' : Session} :
    ChecksArgs env es s es' s' → checkArgs env es s = .ok (es', s')
  | .nil => rfl
  | .cons hd ha => by
    simp only [checkArgs, hd.descend_eq, Outcome.bind_ok, ha.checkArgs_eq]
    rfl

theorem ChecksElements.checkElements_eq {es es' : List Element} {t t' : Option Ty}
    {s s' : Session} :
    ChecksElements env es t s es' t' s' → checkElements env es t s = .ok ((es', t'), s')
  | .nil => rfl
  | .cons hd hs => by
    have hs := hs.checkElements_eq
    simp only [Session.joinMember] at hs
    simp only [checkElements, hd.descend_eq, Outcome.bind_ok, hs]
    rfl

theorem ChecksEntries.checkEntries_eq {es es' : List Entry} {k k' v v' : Option Ty}
    {s s' : Session} :
    ChecksEntries env es k v s es' k' v' s' →
      checkEntries env es k v s = .ok ((es', k', v'), s')
  | .nil => rfl
  | .cons hk hv hs => by
    have hv := hv.descend_eq
    have hs := hs.checkEntries_eq
    simp only [Session.joinMember_key] at hv hs
    simp only [Session.joinMember] at hs
    simp only [checkEntries, hk.descend_eq, Outcome.bind_ok, hv, hs]
    rfl

theorem ChecksFields.checkFields_eq {target : Option LiteralTarget} {es es' : List FieldInit}
    {s s' : Session} :
    ChecksFields env target es s es' s' → checkFields env target es s = .ok (es', s')
  | .nil => rfl
  | .cons hd hs => by
    have hs := hs.checkFields_eq
    cases target <;>
      · simp only [Session.checkField] at hs
        simp only [checkFields, hd.descend_eq, Outcome.bind_ok, hs]
        rfl

end

/-- Checking this child has a derivation, whatever the session. -/
def Derives (env : Environment) (e : Expr) : Prop :=
  ∀ s e' s', descend env e (checkNode env e) s = .ok (e', s') → Descends env e s e' s'

theorem Derives.of_node {e : Expr}
    (hnode : ∀ s e' s', checkNode env e s = .ok (e', s') → Checks env e s e' s') :
    Derives env e := by
  intro s e' s' h
  unfold descend at h
  split at h
  next hlim =>
    cases h
    exact .limit hlim
  next hlim =>
    obtain ⟨⟨e', s₁⟩, hc, h⟩ := Outcome.bind_eq_ok.1 h
    cases h
    exact .node (Nat.not_le.1 hlim) (hnode _ e' s₁ hc)

/-! A node has a derivation if its children have. -/

section Forms

variable {id : NodeId} {e' : Expr} {s s' : Session} {function : String} {args : List Expr}

theorem Checks.of_select {operand : Expr} {field : String} {testOnly : Bool}
    (hoperand : Derives env operand)
    (h : checkNode env (.select id operand field testOnly) s = .ok (e', s')) :
    Checks env (.select id operand field testOnly) s e' s' := by
  simp only [checkNode] at h
  split at h
  next v hv =>
    cases h
    exact .qualified hv
  next hn =>
    obtain ⟨⟨operand', s₁⟩, hd, h⟩ := Outcome.bind_eq_ok.1 h
    cases h
    exact .select hn (hoperand _ _ _ hd)

theorem Checks.of_optionalSelect {operand : Expr} (hoperand : Derives env operand)
    (h : checkNode env (.call id Operator.optionalSelect (operand :: args)) s = .ok (e', s')) :
    Checks env (.call id Operator.optionalSelect (operand :: args)) s e' s' := by
  unfold checkNode at h
  rw [if_pos rfl] at h
  split at h
  next _ fieldId field heq =>
    cases heq
    obtain ⟨⟨operand', s₁⟩, hd, h⟩ := Outcome.bind_eq_ok.1 h
    cases h
    exact .optionalSelect (hoperand _ _ _ hd)
  next => cases h
  next => cases h

theorem Checks.of_call (hf : function ≠ Operator.optionalSelect)
    (hargs : ∀ args' s₁, checkArgs env args s = .ok (args', s₁) → ChecksArgs env args s args' s₁)
    (h : checkNode env (.call id function args) s = .ok (e', s')) :
    Checks env (.call id function args) s e' s' := by
  unfold checkNode at h
  rw [if_neg hf] at h
  obtain ⟨⟨args', s₁⟩, ha, h⟩ := Outcome.bind_eq_ok.1 h
  simp only at h
  split at h
  next f hfun =>
    cases h
    exact .call hf (hargs _ _ ha) hfun
  next hfun =>
    cases h
    exact .unknownCall hf (hargs _ _ ha) hfun

theorem Checks.of_receiverCall {target : Expr} (htarget : Derives env target)
    (hargs : ∀ args' s₁, checkArgs env args s = .ok (args', s₁) → ChecksArgs env args s args' s₁)
    (h : checkNode env (.receiverCall id target function args) s = .ok (e', s')) :
    Checks env (.receiverCall id target function args) s e' s' := by
  simp only [checkNode] at h
  split at h
  next => cases h
  next hf =>
    obtain ⟨⟨args', s₁⟩, ha, h⟩ := Outcome.bind_eq_ok.1 h
    simp only at h
    split at h
    next f hfun =>
      cases h
      exact .namespaced hf (hargs _ _ ha) hfun
    next hn =>
      obtain ⟨⟨target', s₂⟩, hd, h⟩ := Outcome.bind_eq_ok.1 h
      simp only at h
      split at h
      next f hfun =>
        cases h
        exact .member hf (hargs _ _ ha) hn (htarget _ _ _ hd) hfun
      next hfun =>
        cases h
        exact .unknownMember hf (hargs _ _ ha) hn (htarget _ _ _ hd) hfun

theorem Checks.of_message {name : String} {fields : List FieldInit}
    (hfields : ∀ target s fields' s', checkFields env target fields s = .ok (fields', s') →
      ChecksFields env target fields s fields' s')
    (h : checkNode env (.message id name fields) s = .ok (e', s')) :
    Checks env (.message id name fields) s e' s' := by
  simp only [checkNode] at h
  split at h
  next hn =>
    obtain ⟨⟨fields', s₁⟩, hf, h⟩ := Outcome.bind_eq_ok.1 h
    cases h
    exact .unknownMessage hn (hfields _ _ _ _ hf)
  next v hv =>
    obtain ⟨⟨fields', s₁⟩, hf, h⟩ := Outcome.bind_eq_ok.1 h
    cases h
    exact .message hv (hfields _ _ _ _ hf)

theorem Checks.of_comprehension {iterVar iterVar2 accuVar : String}
    {range init condition step result : Expr} (hrange : Derives env range)
    (hinit : Derives env init) (hcondition : Derives env condition) (hstep : Derives env step)
    (hresult : Derives env result)
    (h : checkNode env
      (.comprehension id iterVar iterVar2 range accuVar init condition step result) s =
        .ok (e', s')) :
    Checks env (.comprehension id iterVar iterVar2 range accuVar init condition step result)
      s e' s' := by
  simp only [checkNode] at h
  split at h
  next => cases h
  next hi =>
    split at h
    next => cases h
    next ha =>
      obtain ⟨⟨range', s₁⟩, hr, h⟩ := Outcome.bind_eq_ok.1 h
      obtain ⟨⟨init', s₂⟩, hin, h⟩ := Outcome.bind_eq_ok.1 h
      obtain ⟨⟨condition', s₃⟩, hc, h⟩ := Outcome.bind_eq_ok.1 h
      obtain ⟨⟨step', s₄⟩, hs, h⟩ := Outcome.bind_eq_ok.1 h
      obtain ⟨⟨result', s₅⟩, hres, h⟩ := Outcome.bind_eq_ok.1 h
      cases h
      exact .comprehension hi ha (hrange _ _ _ hr) (hinit _ _ _ hin) (hcondition _ _ _ hc)
        (hstep _ _ _ hs) (hresult _ _ _ hres)

end Forms

mutual

theorem Checks.of_checkNode (e : Expr) (s : Session) (e' : Expr) (s' : Session)
    (h : checkNode env e s = .ok (e', s')) : Checks env e s e' s' := by
  cases e with
  | literal id value =>
    cases h
    exact .literal
  | ident id name =>
    simp only [checkNode] at h
    split at h
    next v hv =>
      cases h
      exact .ident hv
    next hn =>
      cases h
      exact .unknownIdent hn
  | select id operand field testOnly =>
    exact .of_select (.of_node (.of_checkNode operand)) h
  | call id function args =>
    by_cases hf : function = Operator.optionalSelect
    · subst hf
      cases args with
      | nil => cases h
      | cons operand rest => exact .of_optionalSelect (.of_node (.of_checkNode operand)) h
    · exact .of_call hf (fun _ _ => .of_checkArgs args) h
  | receiverCall id target function args =>
    exact .of_receiverCall (.of_node (.of_checkNode target)) (fun _ _ => .of_checkArgs args) h
  | list id elements =>
    simp only [checkNode] at h
    obtain ⟨⟨⟨elements', t⟩, s₁⟩, he, h⟩ := Outcome.bind_eq_ok.1 h
    cases h
    exact .list (.of_checkElements elements he)
  | map id entries =>
    simp only [checkNode] at h
    obtain ⟨⟨⟨entries', k, v⟩, s₁⟩, he, h⟩ := Outcome.bind_eq_ok.1 h
    cases h
    exact .map (.of_checkEntries entries he)
  | message id name fields =>
    exact .of_message (fun _ _ _ _ => .of_checkFields fields) h
  | comprehension id iterVar iterVar2 range accuVar init condition step result =>
    exact .of_comprehension (.of_node (.of_checkNode range)) (.of_node (.of_checkNode init))
      (.of_node (.of_checkNode condition)) (.of_node (.of_checkNode step))
      (.of_node (.of_checkNode result)) h
termination_by structural e

theorem ChecksArgs.of_checkArgs (es : List Expr) {s s' : Session} {es' : List Expr}
    (h : checkArgs env es s = .ok (es', s')) : ChecksArgs env es s es' s' := by
  cases es with
  | nil =>
    cases h
    exact .nil
  | cons e es =>
    simp only [checkArgs] at h
    obtain ⟨⟨e', s₁⟩, hd, h⟩ := Outcome.bind_eq_ok.1 h
    obtain ⟨⟨es', s₂⟩, ha, h⟩ := Outcome.bind_eq_ok.1 h
    cases h
    exact .cons (Derives.of_node (.of_checkNode e) _ _ _ hd) (.of_checkArgs es ha)
termination_by structural es

theorem ChecksElements.of_checkElements (es : List Element) {t t' : Option Ty} {s s' : Session}
    {es' : List Element} (h : checkElements env es t s = .ok ((es', t'), s')) :
    ChecksElements env es t s es' t' s' := by
  match es with
  | [] =>
    cases h
    exact .nil
  | ⟨value, optional⟩ :: rest =>
    simp only [checkElements] at h
    obtain ⟨⟨value', s₁⟩, hd, h⟩ := Outcome.bind_eq_ok.1 h
    obtain ⟨⟨⟨rest', t₁⟩, s₂⟩, hs, h⟩ := Outcome.bind_eq_ok.1 h
    cases h
    exact .cons (Derives.of_node (.of_checkNode value) _ _ _ hd) (.of_checkElements rest hs)
termination_by structural es

theorem ChecksEntries.of_checkEntries (es : List Entry) {k k' v v' : Option Ty} {s s' : Session}
    {es' : List Entry} (h : checkEntries env es k v s = .ok ((es', k', v'), s')) :
    ChecksEntries env es k v s es' k' v' s' := by
  match es with
  | [] =>
    cases h
    exact .nil
  | ⟨id, key, value, optional⟩ :: rest =>
    simp only [checkEntries] at h
    obtain ⟨⟨key', s₁⟩, hk, h⟩ := Outcome.bind_eq_ok.1 h
    obtain ⟨⟨value', s₂⟩, hv, h⟩ := Outcome.bind_eq_ok.1 h
    obtain ⟨⟨⟨rest', k₁, v₁⟩, s₃⟩, hs, h⟩ := Outcome.bind_eq_ok.1 h
    cases h
    exact .cons (Derives.of_node (.of_checkNode key) _ _ _ hk)
      (Derives.of_node (.of_checkNode value) _ _ _ hv) (.of_checkEntries rest hs)
termination_by structural es

theorem ChecksFields.of_checkFields {target : Option LiteralTarget} (es : List FieldInit)
    {s s' : Session} {es' : List FieldInit} (h : checkFields env target es s = .ok (es', s')) :
    ChecksFields env target es s es' s' := by
  match es with
  | [] =>
    cases h
    exact .nil
  | ⟨id, name, value, optional⟩ :: rest =>
    simp only [checkFields] at h
    obtain ⟨⟨value', s₁⟩, hd, h⟩ := Outcome.bind_eq_ok.1 h
    obtain ⟨⟨rest', s₂⟩, hs, h⟩ := Outcome.bind_eq_ok.1 h
    cases h
    refine .cons (Derives.of_node (.of_checkNode value) _ _ _ hd) ?_
    cases target <;> exact .of_checkFields rest hs
termination_by structural es

end

theorem descends_iff {e e' : Expr} {s s' : Session} :
    checkExpr env e s = .ok (e', s') ↔ Descends env e s e' s' :=
  ⟨Derives.of_node (.of_checkNode e) _ _ _, fun h => h.descend_eq⟩

def Session.conclude (s : Session) (expr : Expr) : Checked where
  expr
  types := s.types.mapValues (s.bindings.substitute · true)
  references := s.references
  diagnostics := s.diagnostics

@[simp] theorem Session.get?_conclude (s : Session) (expr : Expr) (id : NodeId) :
    (s.conclude expr).types.get? id = (s.types.get? id).map (s.bindings.substitute · true) :=
  Table.get?_mapValues _ _ _

theorem check_iff {e : Expr} {c : Checked} :
    check env e = .ok c ↔ ∃ e' s, Descends env e {} e' s ∧ c = s.conclude e' := by
  constructor
  · intro h
    obtain ⟨⟨e', s⟩, hd, h⟩ := Outcome.bind_eq_ok.1 h
    cases h
    exact ⟨e', s, descends_iff.1 hd, rfl⟩
  · rintro ⟨e', s, hd, rfl⟩
    simp only [check, descends_iff.2 hd, Outcome.bind_ok]
    rfl

end Iff

end CelTyping
