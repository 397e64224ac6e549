import CelTyping.Expr.Basic
import CelTyping.Resolution

/-! Checking an expression. One walk over the tree gives every node a type,
resolves names, and writes the tree anew with the full names found. A mistake is
reported and its node given the error type, which fits everything, so that the
walk goes on; only a malformed node stops it. -/
namespace CelTyping

/-- A check goes on to the end unless it comes upon a malformed node. -/
abbrev Outcome := Except Diagnostic

/-- Goes one level down, unless the limit is reached: then the node is reported
and loses its children. -/
def descend (env : Environment) (e : Expr) (node : Session → Outcome (Expr × Session))
    (s : Session) : Outcome (Expr × Session) :=
  if env.maxDepth ≤ s.depth then
    .ok (e.childless, s.failNode e.id (.recursionLimit env.maxDepth))
  else do
    let (e', s) ← node { s with depth := s.depth + 1 }
    return (e', { s with depth := s.depth - 1 })

def Ty.wellKnownName? : Ty → Option String
  | .wrapper .bool => some "google.protobuf.BoolValue"
  | .wrapper .bytes => some "google.protobuf.BytesValue"
  | .wrapper .double => some "google.protobuf.DoubleValue"
  | .wrapper .int => some "google.protobuf.Int64Value"
  | .wrapper .string => some "google.protobuf.StringValue"
  | .wrapper .uint => some "google.protobuf.UInt64Value"
  | .dyn => some "google.protobuf.Value"
  | .null => some "google.protobuf.NullValue"
  | .list .dyn => some "google.protobuf.ListValue"
  | .map .string .dyn => some "google.protobuf.Struct"
  | .message "google.protobuf.Any" => some "google.protobuf.Any"
  | .message "google.protobuf.Timestamp" => some "google.protobuf.Timestamp"
  | .message "google.protobuf.Duration" => some "google.protobuf.Duration"
  | _ => none

structure LiteralTarget where
  type : Ty
  name : String

namespace Session

def undeclared (s : Session) (env : Environment) (node : NodeId) (name : String) : Session :=
  s.failNode node (.undeclaredReference env.container.name name)

def literalTarget (s : Session) (node : NodeId) (v : Variable) : LiteralTarget × Session :=
  match v.type with
  | .error d => (⟨.error d, v.name⟩, s)
  | .type inner =>
    match inner.wellKnownName? with
    | some name => (⟨inner, name⟩, s)
    | none =>
      match inner with
      | .message name => (⟨inner, name⟩, s)
      | _ =>
        let (e, s) := s.fail node (.notAMessageType inner)
        (⟨e, v.name⟩, s)
  | t =>
    let (e, s) := s.fail node (.notAType t)
    (⟨e, v.name⟩, s)

def expectField (s : Session) (env : Environment) (target : LiteralTarget) (node : NodeId)
    (field : String) (value : NodeId) (optional : Bool) : Session :=
  let (expected, s) :=
    if target.type.isError then (target.type, s) else s.fieldType env node target.name field
  let (actual, s) := s.entryType value optional
  let (ok, s) := s.assign expected actual
  if ok then s else s.report node (.typeMismatch expected actual)

end Session

mutual

def checkNode (env : Environment) : Expr → Session → Outcome (Expr × Session)
  | .literal id value, s => .ok (.literal id value, s.setType id value.type)
  | .ident id name, s =>
    match env.variableIn? s.scopes name with
    | some v => .ok (.ident id v.name, s.setVariable id v)
    | none => .ok (.ident id name, s.undeclared env id name)
  | .select id operand field testOnly, s =>
    match ((Expr.select id operand field testOnly).qualifiedName?).bind
        (env.variableIn? s.scopes) with
    | some v => .ok (.ident id v.name, s.setVariable id v)
    | none => do
      let (operand', s) ← descend env operand (checkNode env operand) s
      let (t, s) := s.selectedType env id operand.id field false
      return (.select id operand' field testOnly,
        s.setResolvedType id (if testOnly then .bool else t))
  | .call id function args, s =>
    if function = Operator.optionalSelect then
      match args with
      | [operand, .literal fieldId (.string field)] => do
        let (operand', s) ← descend env operand (checkNode env operand) s
        let (t, s) := s.selectedType env id operand.id field true
        let s := (s.setType fieldId .string).setResolvedType id t
        return (.call id function [operand', .literal fieldId (.string field)],
          s.setReference id { name := function, overloads := ["select_optional_field"] })
      | [_, _] =>
        .error ⟨id, .internal "optional field selection requires a string field name"⟩
      | _ =>
        .error ⟨id, .internal "optional field selection requires an operand and a field name"⟩
    else do
      let (args', s) ← checkArgs env args s
      match env.function? function with
      | some f => return (.call id f.name args', s.resolveCall env id f false (args'.map Expr.id))
      | none => return (.call id function args', s.undeclared env id function)
  | .receiverCall id target function args, s =>
    if function = Operator.optionalSelect then
      .error ⟨id, .internal "optional field selection requires an operand and a field name"⟩
    else do
      let (args', s) ← checkArgs env args s
      match (target.qualifiedName?).bind fun name => env.function? (Name.extend name function) with
      | some f => return (.call id f.name args', s.resolveCall env id f false (args'.map Expr.id))
      | none =>
        let (target', s) ← descend env target (checkNode env target) s
        match env.function? function with
        | some f =>
          return (.receiverCall id target' f.name args',
            s.resolveCall env id f true (target'.id :: args'.map Expr.id))
        | none => return (.receiverCall id target' function args', s.undeclared env id function)
  | .list id elements, s => do
    let ((elements', t), s) ← checkElements env elements none s
    let (t, s) := s.memberType t
    return (.list id elements', s.setType id (.list t))
  | .map id entries, s => do
    let ((entries', k, v), s) ← checkEntries env entries none none s
    let (k, s) := s.memberType k
    let (v, s) := s.memberType v
    return (.map id entries', s.setType id (.map k v))
  | .message id name fields, s =>
    match env.variableIn? s.scopes name with
    | none => do
      let (fields', s) ← checkFields env none fields (s.undeclared env id name)
      return (.message id name fields', s)
    | some v => do
      let (target, s) := (s.setReference id { name := v.name }).literalTarget id v
      let (fields', s) ← checkFields env (some target) fields (s.setType id target.type)
      return (.message id target.name fields', s)
  | .comprehension id iterVar iterVar2 range accuVar init condition step result, s =>
    if iterVar = "" then .error ⟨id, .internal "comprehension without an iteration variable"⟩
    else if accuVar = "" then
      .error ⟨id, .internal "comprehension without an accumulator variable"⟩
    else do
      let (range', s) ← descend env range (checkNode env range) s
      let (init', s) ← descend env init (checkNode env init) s
      let accuType := s.typeOf init.id
      let two := iterVar2 != ""
      let ((t, t2), s) := s.loopTypes range.id two
      let s := s.enterScope [{ name := accuVar, type := accuType }]
      let s := s.enterScope
        ({ name := iterVar, type := t } :: if two then [{ name := iterVar2, type := t2 }] else [])
      let (condition', s) ← descend env condition (checkNode env condition) s
      let s := s.expectType condition.id .bool
      let (step', s) ← descend env step (checkNode env step) s
      let s := (s.expectType step.id accuType).exitScope
      let (result', s) ← descend env result (checkNode env result) s
      let s := s.exitScope
      return (.comprehension id iterVar iterVar2 range' accuVar init' condition' step' result',
        s.setType id (s.resolvedTypeOf result.id))

def checkArgs (env : Environment) : List Expr → Session → Outcome (List Expr × Session)
  | [], s => .ok ([], s)
  | e :: es, s => do
    let (e', s) ← descend env e (checkNode env e) s
    let (es', s) ← checkArgs env es s
    return (e' :: es', s)

/-- Also joins the types of the elements to the one given. -/
def checkElements (env : Environment) :
    List Element → Option Ty → Session → Outcome ((List Element × Option Ty) × Session)
  | [], t, s => .ok (([], t), s)
  | ⟨value, optional⟩ :: rest, t, s => do
    let (value', s) ← descend env value (checkNode env value) s
    let (current, s) := s.entryType value.id optional
    let (t, s) := s.joinTypes env value.id t current
    let ((rest', t), s) ← checkElements env rest (some t) s
    return ((⟨value', optional⟩ :: rest', t), s)

def checkEntries (env : Environment) :
    List Entry → Option Ty → Option Ty → Session →
      Outcome ((List Entry × Option Ty × Option Ty) × Session)
  | [], k, v, s => .ok (([], k, v), s)
  | ⟨id, key, value, optional⟩ :: rest, k, v, s => do
    let (key', s) ← descend env key (checkNode env key) s
    let (k, s) := s.joinTypes env key.id k (s.typeOf key.id)
    let (value', s) ← descend env value (checkNode env value) s
    let (current, s) := s.entryType value.id optional
    let (v, s) := s.joinTypes env value.id v current
    let ((rest', k, v), s) ← checkEntries env rest (some k) (some v) s
    return ((⟨id, key', value', optional⟩ :: rest', k, v), s)

def checkFields (env : Environment) (target : Option LiteralTarget) :
    List FieldInit → Session → Outcome (List FieldInit × Session)
  | [], s => .ok ([], s)
  | ⟨id, name, value, optional⟩ :: rest, s => do
    let (value', s) ← descend env value (checkNode env value) s
    let s :=
      match target with
      | some target => s.expectField env target id name value.id optional
      | none => s
    let (rest', s) ← checkFields env target rest s
    return (⟨id, name, value', optional⟩ :: rest', s)

end

def checkExpr (env : Environment) (e : Expr) (s : Session) : Outcome (Expr × Session) :=
  descend env e (checkNode env e) s

structure Checked where
  /-- The tree with full names. -/
  expr : Expr
  types : Table NodeId Ty
  references : Table NodeId Reference
  diagnostics : List Diagnostic

namespace Checked

def isOk (c : Checked) : Bool := c.diagnostics.isEmpty

def type? (c : Checked) : Option Ty := c.types.get? c.expr.id

end Checked

/-- Checks an expression in an environment. Type parameters that are still open
at the end are `dyn`. -/
def check (env : Environment) (e : Expr) : Outcome Checked := do
  let (expr, s) ← checkExpr env e {}
  return {
    expr
    types := s.types.mapValues (s.bindings.substitute · true)
    references := s.references
    diagnostics := s.diagnostics }

end CelTyping
