import CelTyping.Environment
import CelTyping.Reference
import CelTyping.Substitution
import CelTyping.Ty.Text

/-! The state of one checking pass: the open scopes, what has been recorded for
the nodes seen so far, the bindings of type parameters, and the diagnostics. -/
namespace CelTyping

structure Session where
  scopes : ScopeStack := {}
  types : Table NodeId Ty := ∅
  references : Table NodeId Reference := ∅
  diagnostics : List Diagnostic := []
  bindings : Substitution := ∅
  /-- The number of the next fresh type variable. -/
  nextVar : Nat := 0
  /-- How many nodes enclose the one being checked. -/
  depth : Nat := 0
deriving Inhabited

namespace Session

section Recording

def report (s : Session) (node : NodeId) (cause : Cause) : Session :=
  { s with diagnostics := s.diagnostics ++ [⟨node, cause⟩] }

def fail (s : Session) (node : NodeId) (cause : Cause) : Ty × Session :=
  (.error ⟨node, cause⟩, s.report node cause)

/-- Records the type of a node. A second type of another kind is reported, and
the first is kept. -/
def setType (s : Session) (node : NodeId) (t : Ty) : Session :=
  match s.types.get? node with
  | some existing =>
    if existing.kind = t.kind then { s with types := s.types.insert node t }
    else s.report node (.incompatibleType existing t)
  | none => { s with types := s.types.insert node t }

/-- Records what a node refers to. References to one function add up their
overloads; any other difference is reported, and the first is kept. -/
def setReference (s : Session) (node : NodeId) (r : Reference) : Session :=
  match s.references.get? node with
  | none => { s with references := s.references.insert node r }
  | some existing =>
    if existing.agrees r then s
    else if existing.isFunction && r.isFunction && existing.name == r.name then
      let merged := r.overloads.foldl Reference.addOverload existing
      { s with references := s.references.insert node merged }
    else s.report node (.conflictingReference existing.text r.text)

def failNode (s : Session) (node : NodeId) (cause : Cause) : Session :=
  let (t, s) := s.fail node cause
  s.setType node t

/-- The recorded type; a node without one is `dyn`. -/
def typeOf (s : Session) (node : NodeId) : Ty := (s.types.get? node).getD .dyn

def resolvedTypeOf (s : Session) (node : NodeId) : Ty :=
  s.bindings.substitute (s.typeOf node) false

def setResolvedType (s : Session) (node : NodeId) (t : Ty) : Session :=
  s.setType node (s.bindings.substitute t false)

def setVariable (s : Session) (node : NodeId) (v : Variable) : Session :=
  (s.setType node v.type).setReference node { name := v.name, value := v.value }

@[simp] theorem report_diagnostics (s : Session) (node : NodeId) (cause : Cause) :
    (s.report node cause).diagnostics = s.diagnostics ++ [⟨node, cause⟩] := rfl

@[simp] theorem report_types (s : Session) (node : NodeId) (cause : Cause) :
    (s.report node cause).types = s.types := rfl

@[simp] theorem report_references (s : Session) (node : NodeId) (cause : Cause) :
    (s.report node cause).references = s.references := rfl

theorem typeOf_of_get? {s : Session} {node : NodeId} {t : Ty} (h : s.types.get? node = some t) :
    s.typeOf node = t := by
  rw [typeOf, h, Option.getD_some]

end Recording

section Scopes

def enterScope (s : Session) (vs : List Variable) : Session :=
  { s with scopes := vs.foldl ScopeStack.declare s.scopes.push }

def exitScope (s : Session) : Session := { s with scopes := s.scopes.pop }

end Scopes

section Types

def freshVar (s : Session) : Ty × Session :=
  (.param ("_var" ++ Nat.repr s.nextVar), { s with nextVar := s.nextVar + 1 })

/-- Whether `a` can be used as `b`; if so, the bindings that it takes are kept. -/
def assign (s : Session) (a b : Ty) : Bool × Session :=
  match s.bindings.assignable? a b with
  | some bindings => (true, { s with bindings })
  | none => (false, s)

def expectType (s : Session) (node : NodeId) (expected : Ty) : Session :=
  let actual := s.typeOf node
  let (ok, s) := s.assign expected actual
  if ok then s else s.report node (.typeMismatch expected actual)

def fieldType (s : Session) (env : Environment) (node : NodeId) (message field : String) :
    Ty × Session :=
  match env.registry.message? message with
  | none => s.fail node (.unresolvedType message)
  | some m =>
    match m.field? field with
    | some t => (t, s)
    | none => s.fail node (.undefinedField field)

/-- The type of a field selected from an operand that has been checked. The
result is optional if the operand or the selection is. -/
def selectedType (s : Session) (env : Environment) (node operand : NodeId) (field : String)
    (optional : Bool) : Ty × Session :=
  let operandType := s.resolvedTypeOf operand
  let target := operandType.unwrapOptional
  let (t, s) : Ty × Session :=
    match target with
    | .map _ value => (value, s)
    | .message name => s.fieldType env node name field
    | .param _ => (.dyn, (s.assign .dyn target).2)
    | .dyn | .error _ => (.dyn, s)
    | _ => s.fail node (.fieldSelectionUnsupported target)
  (if optional || operandType.isOptional then .optional t else t, s)

def entryType (s : Session) (node : NodeId) (optional : Bool) : Ty × Session :=
  let t := s.typeOf node
  if optional then
    let inner := t.unwrapOptional
    if t.isOptional || t.isDynOrError then (inner, s)
    else (inner, s.report node (.typeMismatch (.optional inner) inner))
  else (t, s)

def joinTypes (s : Session) (env : Environment) (node : NodeId) (previous : Option Ty)
    (current : Ty) : Ty × Session :=
  match previous with
  | none => (current, s)
  | some previous =>
    let (ok, s) := s.assign previous current
    if ok then (previous.mostGeneral current, s)
    else
      match env.policy with
      | .mixed => (.dyn, s)
      | .homogeneous => s.fail node (.typeMismatch previous current)

def memberType (s : Session) : Option Ty → Ty × Session
  | some t => (t, s)
  | none => s.freshVar

/-- The types of the variables that run over a range. A list gives its elements,
after their positions if there are two variables; a map gives keys and values. -/
def loopTypes (s : Session) (range : NodeId) (two : Bool) : (Ty × Ty) × Session :=
  let t := s.resolvedTypeOf range
  match t with
  | .list element => (if two then (.int, element) else (element, .dyn), s)
  | .map key value => ((key, value), s)
  | .dyn | .error _ | .param _ => ((.dyn, .dyn), (s.assign .dyn t).2)
  | _ =>
    let (e, s) := s.fail range (.invalidComprehensionRange t)
    ((e, e), s)

end Types

end Session

end CelTyping
