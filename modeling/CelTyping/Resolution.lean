import CelTyping.Session

/-! Overload resolution: which overloads of a function its arguments fit, and
the type of the call. -/
namespace CelTyping

structure Resolved where
  type : Ty
  reference : Reference

/-- A further overload that fits. Results that differ make the call `dyn`. -/
def Resolved.add (r : Resolved) (result : Ty) (overload : String) : Resolved where
  type := if r.type.isDyn || r.type.exact result then r.type else .dyn
  reference := r.reference.addOverload overload

namespace Session

def freshVars (s : Session) (names : List String) : Bindings × Session :=
  names.foldl
    (fun (fresh, s) name =>
      let (var, s) := s.freshVar
      (fresh.insert name var, s))
    (∅, s)

def instantiate (s : Session) (o : Overload) : (Ty × List Ty) × Session :=
  let (fresh, s) := s.freshVars o.typeParamNames
  ((fresh.substitute o.result false, o.params.map (fresh.substitute · false)), s)

/-- Tries the overloads in order; each one that fits keeps its bindings. -/
def matchOverloads (function : String) (args : List Ty) :
    List Overload → Option Resolved → Session → Option Resolved × Session
  | [], found, s => (found, s)
  | o :: os, found, s =>
    let ((result, params), s) := s.instantiate o
    match s.bindings.assignableAll? args params with
    | none => matchOverloads function args os found s
    | some bindings =>
      let result := bindings.substitute result false
      let found :=
        match found with
        | none => { type := result, reference := { name := function, overloads := [o.id] } }
        | some r => r.add result o.id
      matchOverloads function args os (some found) { s with bindings }

def expectBools (s : Session) : List NodeId → List Ty → Session
  | node :: nodes, t :: ts =>
    let (ok, s) := s.assign t .bool
    let s := if ok then s else s.report node (.typeMismatch .bool t)
    s.expectBools nodes ts
  | _, _ => s

/-- Finds the overloads that fit the arguments, the receiver first among them. A
logical operator is always a bool, whatever its arguments are. -/
def resolveOverload (s : Session) (env : Environment) (node : NodeId) (f : Function)
    (isMember : Bool) (args : List NodeId) : Except Diagnostic Resolved × Session :=
  let types := args.map s.typeOf
  let eligible := f.overloads.filter fun o => !env.isDisabled o.id && o.isMember == isMember
  let noMatch (s : Session) : Except Diagnostic Resolved × Session :=
    (.error ⟨node, .noMatchingOverload f.name (types.map (s.bindings.substitute · true))⟩, s)
  if Operator.isLogical f.name then
    match eligible with
    | [] => noMatch s
    | o :: _ =>
      (.ok { type := .bool, reference := { name := f.name, overloads := [o.id] } },
        s.expectBools args types)
  else
    match matchOverloads f.name types eligible none s with
    | (some r, s) => (.ok r, s)
    | (none, s) => noMatch s

def resolveCall (s : Session) (env : Environment) (node : NodeId) (f : Function)
    (isMember : Bool) (args : List NodeId) : Session :=
  match s.resolveOverload env node f isMember args with
  | (.ok r, s) => (s.setType node r.type).setReference node r.reference
  | (.error d, s) => s.failNode d.node d.cause

end Session

end CelTyping
