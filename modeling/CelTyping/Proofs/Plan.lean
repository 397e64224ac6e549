import CelTyping.Proofs.Derivation
import CelTyping.Proofs.Nodes

/-! What checking a node consists of. There is some work on the node itself, then its children are
checked one after the other, with something to be done after each of them that depends on its
place, and then comes some more work on the node. The plan says which, and `checkNode_eq_plan`
that the checker keeps to it. So a fact about whole passes is shown for each kind of work and for
each kind of place, and not for every form of expression. -/
namespace CelTyping

section Plans

/-- The types that the keys and the values of a literal have so far. A loop keeps the type of its
accumulator as that of a value. -/
structure Kept where
  key : Option Ty := none
  value : Option Ty := none

inductive Place where
  | plain
  | key
  | value (optional : Bool)
  | field (target : Option LiteralTarget) (id : NodeId) (name : String) (optional : Bool)
  /-- The start of a loop over a range that has been checked. -/
  | start (range : NodeId) (iterVar iterVar2 accuVar : String)
  | condition
  | step

structure Member where
  child : Expr
  place : Place

inductive Work where
  | nothing
  | type (t : Ty)
  | variable (v : Variable)
  | undeclared (name : String)
  /-- A literal of the message that a name was found to mean. -/
  | message (v : Variable)
  | select (operand : NodeId) (field : String) (testOnly : Bool)
  | optionalSelect (operand fieldId : NodeId) (field : String)
  | call (f : Function) (isMember : Bool) (args : List NodeId)
  | list
  | map
  | loop (result : NodeId)

structure Plan where
  opening : Work := .nothing
  members : List Member := []
  closing : Work := .nothing
  /-- The node as it is written with these children. -/
  tree : List Expr → Expr

def Member.plain (e : Expr) : Member := ⟨e, .plain⟩

/-- The target of a message literal does not depend on the session. -/
def Variable.target (v : Variable) (node : NodeId) : LiteralTarget :=
  (Session.literalTarget {} node v).1

def Element.withValue (el : Element) (value : Expr) : Element := { el with value }

def FieldInit.withValue (f : FieldInit) (value : Expr) : FieldInit := { f with value }

/-- The entries with other keys and values, which take turns. -/
def Entry.withParts : List Entry → List Expr → List Entry
  | entry :: entries, key :: value :: parts =>
    { entry with key, value } :: Entry.withParts entries parts
  | _, _ => []

def Element.member (el : Element) : Member := ⟨el.value, .value el.optional⟩

def Entry.members (entry : Entry) : List Member :=
  [⟨entry.key, .key⟩, ⟨entry.value, .value entry.optional⟩]

def FieldInit.member (target : Option LiteralTarget) (f : FieldInit) : Member :=
  ⟨f.value, .field target f.id f.name f.optional⟩

def plan (env : Environment) (scopes : ScopeStack) : Expr → Outcome Plan
  | .literal id value => .ok { closing := .type value.type, tree := fun _ => .literal id value }
  | .ident id name =>
    match env.variableIn? scopes name with
    | some v => .ok { closing := .variable v, tree := fun _ => .ident id v.name }
    | none => .ok { closing := .undeclared name, tree := fun _ => .ident id name }
  | .select id operand field testOnly =>
    match ((Expr.select id operand field testOnly).qualifiedName?).bind
        (env.variableIn? scopes) with
    | some v => .ok { closing := .variable v, tree := fun _ => .ident id v.name }
    | none => .ok {
        members := [.plain operand]
        closing := .select operand.id field testOnly
        tree := fun parts => .select id (parts.headD operand) field testOnly }
  | .call id function args =>
    if function = Operator.optionalSelect then
      match args with
      | [operand, .literal fieldId (.string field)] => .ok {
          members := [.plain operand]
          closing := .optionalSelect operand.id fieldId field
          tree := fun parts =>
            .call id function [parts.headD operand, .literal fieldId (.string field)] }
      | [_, _] =>
        .error ⟨id, .internal "optional field selection requires a string field name"⟩
      | _ =>
        .error ⟨id, .internal "optional field selection requires an operand and a field name"⟩
    else
      match env.function? function with
      | some f => .ok {
          members := args.map .plain
          closing := .call f false (args.map Expr.id)
          tree := .call id f.name }
      | none => .ok {
          members := args.map .plain
          closing := .undeclared function
          tree := .call id function }
  | .receiverCall id target function args =>
    if function = Operator.optionalSelect then
      .error ⟨id, .internal "optional field selection requires an operand and a field name"⟩
    else
      match target.qualifiedName?.bind fun name => env.function? (Name.extend name function) with
      | some f => .ok {
          members := args.map .plain
          closing := .call f false (args.map Expr.id)
          tree := .call id f.name }
      | none =>
        match env.function? function with
        | some f => .ok {
            members := args.map .plain ++ [.plain target]
            closing := .call f true (target.id :: args.map Expr.id)
            tree := fun parts => .receiverCall id (parts.getLastD target) f.name parts.dropLast }
        | none => .ok {
            members := args.map .plain ++ [.plain target]
            closing := .undeclared function
            tree := fun parts =>
              .receiverCall id (parts.getLastD target) function parts.dropLast }
  | .list id elements => .ok {
      members := elements.map Element.member
      closing := .list
      tree := fun parts => .list id (elements.zipWith Element.withValue parts) }
  | .map id entries => .ok {
      members := entries.flatMap Entry.members
      closing := .map
      tree := fun parts => .map id (Entry.withParts entries parts) }
  | .message id name fields =>
    match env.variableIn? scopes name with
    | some v => .ok {
        opening := .message v
        members := fields.map (FieldInit.member (some (v.target id)))
        tree := fun parts =>
          .message id (v.target id).name (fields.zipWith FieldInit.withValue parts) }
    | none => .ok {
        opening := .undeclared name
        members := fields.map (FieldInit.member none)
        tree := fun parts => .message id name (fields.zipWith FieldInit.withValue parts) }
  | .comprehension id iterVar iterVar2 range accuVar init condition step result =>
    if iterVar = "" then .error ⟨id, .internal "comprehension without an iteration variable"⟩
    else if accuVar = "" then
      .error ⟨id, .internal "comprehension without an accumulator variable"⟩
    else .ok {
      members := [.plain range, ⟨init, .start range.id iterVar iterVar2 accuVar⟩,
        ⟨condition, .condition⟩, ⟨step, .step⟩, .plain result]
      closing := .loop result.id
      tree := fun
        | [range, init, condition, step, result] =>
          .comprehension id iterVar iterVar2 range accuVar init condition step result
        | _ => .comprehension id iterVar iterVar2 range accuVar init condition step result }

namespace Session

def settle (s : Session) (env : Environment) (node : NodeId) (kept : Kept) :
    Place → Kept × Session
  | .plain => (kept, s)
  | .key =>
    let (t, s) := s.joinMember env node false kept.key
    ({ kept with key := some t }, s)
  | .value optional =>
    let (t, s) := s.joinMember env node optional kept.value
    ({ kept with value := some t }, s)
  | .field target id name optional => (kept, s.checkField env target id name node optional)
  | .start range iterVar iterVar2 accuVar =>
    ({ kept with value := some (s.typeOf node) },
      s.enterLoop range node iterVar iterVar2 accuVar)
  | .condition => (kept, s.expectType node .bool)
  | .step => (kept, (s.expectType node (kept.value.getD .dyn)).exitScope)

def work (s : Session) (env : Environment) (id : NodeId) (kept : Kept) : Work → Session
  | .nothing => s
  | .type t => s.setType id t
  | .variable v => s.setVariable id v
  | .undeclared name => s.undeclared env id name
  | .message v => (s.enterMessage id v).2
  | .select operand field testOnly => s.recordSelect env id operand field testOnly
  | .optionalSelect operand fieldId field => s.recordOptionalSelect env id operand fieldId field
  | .call f isMember args => s.resolveCall env id f isMember args
  | .list => s.recordList id kept.value
  | .map => s.recordMap id kept.key kept.value
  | .loop result => s.exitLoop id result

end Session

def checkMembers (env : Environment) :
    List Member → Kept → Session → Outcome ((List Expr × Kept) × Session)
  | [], kept, s => .ok (([], kept), s)
  | m :: ms, kept, s => do
    let (e', s) ← checkExpr env m.child s
    let (kept, s) := s.settle env m.child.id kept m.place
    let ((es', kept), s) ← checkMembers env ms kept s
    return ((e' :: es', kept), s)

def Plan.check (env : Environment) (p : Plan) (id : NodeId) (s : Session) :
    Outcome (Expr × Session) := do
  let ((parts, kept), s) ← checkMembers env p.members {} (s.work env id {} p.opening)
  return (p.tree parts, s.work env id kept p.closing)

def memberDescents (env : Environment) :
    List Member → Kept → Session → List (Expr × Session)
  | [], _, _ => []
  | m :: ms, kept, s =>
    (m.child, s) ::
      match checkExpr env m.child s with
      | .ok (_, s) =>
        let (kept, s) := s.settle env m.child.id kept m.place
        memberDescents env ms kept s
      | .error _ => []

/-- The children that checking a node goes down to, in order, each with the session by then. A
name that is found goes no further, and neither does the name of a namespace. -/
def descents (env : Environment) (e : Expr) (s : Session) : List (Expr × Session) :=
  match plan env s.scopes e with
  | .ok p => memberDescents env p.members {} (s.work env e.id {} p.opening)
  | .error _ => []

end Plans

section Keeping

variable {env : Environment}

theorem Outcome.bind_congr {α β : Type} {x : Outcome α} {f g : α → Outcome β}
    (h : ∀ a, x = .ok a → f a = g a) : x >>= f = x >>= g := by
  cases x with
  | error d => rfl
  | ok a => exact h a rfl

theorem checkMembers_append (ms ms' : List Member) (kept : Kept) (s : Session) :
    checkMembers env (ms ++ ms') kept s = (do
      let ((es, kept), s) ← checkMembers env ms kept s
      let ((es', kept), s) ← checkMembers env ms' kept s
      return ((es ++ es', kept), s)) := by
  induction ms generalizing kept s with
  | nil =>
    simp only [checkMembers, Outcome.bind_ok, List.nil_append]
    exact (bind_pure _).symm
  | cons m ms ih => simp only [List.cons_append, checkMembers, ih, bind_assoc, pure_bind]

theorem checkArgs_eq_members (es : List Expr) (kept : Kept) (s : Session) :
    checkArgs env es s = (do
      let ((es', _), s) ← checkMembers env (es.map .plain) kept s
      return (es', s)) := by
  induction es generalizing s with
  | nil => rfl
  | cons e es ih =>
    rw [checkArgs, List.map_cons, checkMembers]
    simp only [bind_assoc, pure_bind, ih]
    rfl

theorem checkElements_eq_members (es : List Element) (kept : Kept) (s : Session) :
    checkElements env es kept.value s = (do
      let ((values, kept), s) ← checkMembers env (es.map Element.member) kept s
      return ((es.zipWith Element.withValue values, kept.value), s)) := by
  induction es generalizing kept s with
  | nil => rfl
  | cons el es ih =>
    obtain ⟨value, optional⟩ := el
    rw [checkElements, List.map_cons, checkMembers]
    simp only [bind_assoc, pure_bind]
    refine Outcome.bind_congr fun p _ => ?_
    have h := ih (p.2.settle env value.id kept (.value optional)).1
      (p.2.settle env value.id kept (.value optional)).2
    simp only [Session.settle, Session.joinMember] at h
    simp only [Element.member, Session.settle, Session.joinMember, h, bind_assoc, pure_bind]
    rfl

theorem checkEntries_eq_members (es : List Entry) (kept : Kept) (s : Session) :
    checkEntries env es kept.key kept.value s = (do
      let ((parts, kept), s) ← checkMembers env (es.flatMap Entry.members) kept s
      return ((Entry.withParts es parts, kept.key, kept.value), s)) := by
  induction es generalizing kept s with
  | nil => rfl
  | cons entry es ih =>
    obtain ⟨id, key, value, optional⟩ := entry
    rw [checkEntries, List.flatMap_cons, Entry.members, List.cons_append, List.cons_append,
      List.nil_append, checkMembers]
    simp only [bind_assoc, pure_bind]
    refine Outcome.bind_congr fun p _ => ?_
    rw [checkMembers]
    simp only [bind_assoc, pure_bind]
    refine Outcome.bind_congr fun q _ => ?_
    have h := ih (q.2.settle env value.id (p.2.settle env key.id kept .key).1 (.value optional)).1
      (q.2.settle env value.id (p.2.settle env key.id kept .key).1 (.value optional)).2
    simp only [Session.settle, Session.joinMember] at h
    simp only [Session.settle, Session.joinMember]
    refine (congrArg (· >>= _) h).trans ?_
    simp only [bind_assoc, pure_bind]
    rfl

theorem checkFields_eq_members (target : Option LiteralTarget) (es : List FieldInit) (kept : Kept)
    (s : Session) :
    checkFields env target es s = (do
      let ((values, _), s) ← checkMembers env (es.map (FieldInit.member target)) kept s
      return (es.zipWith FieldInit.withValue values, s)) := by
  induction es generalizing kept s with
  | nil => rfl
  | cons f es ih =>
    obtain ⟨id, name, value, optional⟩ := f
    rw [checkFields, List.map_cons, checkMembers]
    simp only [bind_assoc, pure_bind]
    refine Outcome.bind_congr fun p _ => ?_
    cases target <;> simp only [ih kept, bind_assoc, pure_bind] <;> rfl

theorem Descends.id_eq {e e' : Expr} {s s' : Session} (h : Descends env e s e' s') :
    e'.id = e.id := by
  cases h with
  | limit _ => exact e.id_childless
  | node _ h => cases h <;> rfl

theorem map_id_of_checkMembers {ms : List Member} {kept kept' : Kept} {s s' : Session}
    {es' : List Expr} (h : checkMembers env ms kept s = .ok ((es', kept'), s')) :
    es'.map Expr.id = ms.map (·.child.id) := by
  induction ms generalizing kept s es' with
  | nil =>
    cases h
    rfl
  | cons m ms ih =>
    rw [checkMembers] at h
    obtain ⟨⟨e', s₁⟩, hd, h⟩ := Outcome.bind_eq_ok.1 h
    obtain ⟨⟨⟨es', kept₁⟩, s₂⟩, hs, h⟩ := Outcome.bind_eq_ok.1 h
    cases h
    rw [List.map_cons, List.map_cons, (descends_iff.1 hd).id_eq, ih hs]

@[simp] theorem Session.enterMessage_fst (s : Session) (id : NodeId) (v : Variable) :
    (s.enterMessage id v).1 = v.target id := by
  show ((s.setReference id { name := v.name }).literalTarget id v).1 = v.target id
  unfold Variable.target Session.literalTarget
  split
  next => rfl
  next =>
    split
    next => rfl
    next => split <;> rfl
  next => rfl

theorem checkNode_optionalSelect_eq_plan (id : NodeId) (args : List Expr) (s : Session) :
    checkNode env (.call id Operator.optionalSelect args) s =
      plan env s.scopes (.call id Operator.optionalSelect args) >>= (·.check env id s) := by
  match args with
  | [] | [_] => rfl
  | _ :: _ :: _ :: _ =>
    simp only [checkNode, plan, if_true]
    rfl
  | [operand, name] =>
    cases name with
    | literal fieldId value =>
      cases value with
      | string field =>
        simp only [checkNode, plan, if_true, Outcome.bind_ok, Plan.check, checkMembers, bind_assoc]
        rfl
      | _ => rfl
    | _ => rfl

theorem map_id_of_checkArgs {args : List Expr} {s : Session} {p : (List Expr × Kept) × Session}
    (h : checkMembers env (args.map .plain) {} s = .ok p) :
    p.1.1.map Expr.id = args.map Expr.id := by
  rw [map_id_of_checkMembers h, List.map_map]
  rfl

theorem checkNode_call_eq_plan (id : NodeId) (function : String) (args : List Expr) (s : Session) :
    checkNode env (.call id function args) s =
      plan env s.scopes (.call id function args) >>= (·.check env id s) := by
  by_cases hf : function = Operator.optionalSelect
  · subst hf
    exact checkNode_optionalSelect_eq_plan id args s
  · have hplan : plan env s.scopes (.call id function args) =
        match env.function? function with
        | some f => .ok {
            members := args.map .plain
            closing := .call f false (args.map Expr.id)
            tree := .call id f.name }
        | none => .ok {
            members := args.map .plain
            closing := .undeclared function
            tree := .call id function } := if_neg hf
    unfold checkNode
    rw [if_neg hf, hplan, checkArgs_eq_members args {}]
    cases env.function? function with
    | some f =>
      simp only [Outcome.bind_ok, Plan.check, bind_assoc, pure_bind]
      refine Outcome.bind_congr fun p hp => ?_
      rw [map_id_of_checkArgs hp]
      rfl
    | none =>
      simp only [Outcome.bind_ok, Plan.check, bind_assoc, pure_bind]
      rfl

theorem checkNode_receiverCall_eq_plan (id : NodeId) (target : Expr) (function : String)
    (args : List Expr) (s : Session) :
    checkNode env (.receiverCall id target function args) s =
      plan env s.scopes (.receiverCall id target function args) >>= (·.check env id s) := by
  by_cases hf : function = Operator.optionalSelect
  · simp only [checkNode, plan, if_pos hf]
    rfl
  · simp only [checkNode, plan, if_neg hf, checkArgs_eq_members args {}, bind_assoc, pure_bind]
    cases target.qualifiedName?.bind fun name => env.function? (Name.extend name function) with
    | some f =>
      simp only [Outcome.bind_ok, Plan.check]
      refine Outcome.bind_congr fun p hp => ?_
      rw [map_id_of_checkArgs hp]
      rfl
    | none =>
      cases env.function? function with
      | some f =>
        simp only [Outcome.bind_ok, Plan.check, checkMembers_append, checkMembers, bind_assoc,
          pure_bind]
        refine Outcome.bind_congr fun p hp => Outcome.bind_congr fun q hq => ?_
        rw [map_id_of_checkArgs hp, (descends_iff.1 hq).id_eq]
        simp
        rfl
      | none =>
        simp only [Outcome.bind_ok, Plan.check, checkMembers_append, checkMembers, bind_assoc,
          pure_bind]
        refine Outcome.bind_congr fun p _ => Outcome.bind_congr fun q _ => ?_
        simp
        rfl

theorem checkNode_comprehension_eq_plan (id : NodeId) (iterVar iterVar2 : String) (range : Expr)
    (accuVar : String) (init condition step result : Expr) (s : Session) :
    checkNode env (.comprehension id iterVar iterVar2 range accuVar init condition step result) s =
      plan env s.scopes
          (.comprehension id iterVar iterVar2 range accuVar init condition step result) >>=
        (·.check env id s) := by
  simp only [checkNode, plan]
  split
  next => rfl
  next =>
    split
    next => rfl
    next =>
      simp only [Outcome.bind_ok, Plan.check, checkMembers, bind_assoc, pure_bind]
      rfl

theorem checkNode_eq_plan (e : Expr) (s : Session) :
    checkNode env e s = plan env s.scopes e >>= (·.check env e.id s) := by
  cases e with
  | literal id value => rfl
  | ident id name =>
    simp only [checkNode, plan]
    cases env.variableIn? s.scopes name <;> rfl
  | select id operand field testOnly =>
    simp only [checkNode, plan]
    cases ((Expr.select id operand field testOnly).qualifiedName?).bind
        (env.variableIn? s.scopes) with
    | some v => rfl
    | none =>
      simp only [Outcome.bind_ok, Plan.check, checkMembers, bind_assoc, pure_bind]
      rfl
  | call id function args => exact checkNode_call_eq_plan id function args s
  | receiverCall id target function args =>
    exact checkNode_receiverCall_eq_plan id target function args s
  | list id elements =>
    rw [checkNode, checkElements_eq_members elements {}]
    simp only [plan, Outcome.bind_ok, Plan.check, bind_assoc, pure_bind]
    rfl
  | map id entries =>
    rw [checkNode, checkEntries_eq_members entries {}]
    simp only [plan, Outcome.bind_ok, Plan.check, bind_assoc, pure_bind]
    rfl
  | message id name fields =>
    simp only [checkNode, plan]
    cases env.variableIn? s.scopes name with
    | some v =>
      have htarget := s.enterMessage_fst id v
      unfold Session.enterMessage at htarget
      simp only at htarget
      simp only [htarget, checkFields_eq_members _ fields {}, Outcome.bind_ok, Plan.check,
        bind_assoc, pure_bind]
      rw [← htarget]
      rfl
    | none =>
      simp only [Outcome.bind_ok, Plan.check, checkFields_eq_members none fields {}, bind_assoc,
        pure_bind]
      rfl
  | comprehension id iterVar iterVar2 range accuVar init condition step result =>
    exact checkNode_comprehension_eq_plan id iterVar iterVar2 range accuVar init condition step
      result s

theorem checkExpr_of_le {e : Expr} {s : Session} (h : env.maxDepth ≤ s.depth) :
    checkExpr env e s = .ok (e.childless, s.failNode e.id (.recursionLimit env.maxDepth)) :=
  if_pos h

theorem checkExpr_of_lt {e : Expr} {s : Session} (h : s.depth < env.maxDepth) :
    checkExpr env e s = (do
      let p ← plan env s.scopes e
      let (e', s') ← p.check env e.id s.deeper
      return (e', s'.shallower)) := by
  have hnode : checkNode env e s.deeper = plan env s.scopes e >>= (·.check env e.id s.deeper) :=
    checkNode_eq_plan e s.deeper
  rw [← bind_assoc, ← hnode]
  exact if_neg (Nat.not_le.2 h)

end Keeping

end CelTyping
