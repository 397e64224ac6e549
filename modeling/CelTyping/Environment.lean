import CelTyping.Container
import CelTyping.Registry.Catalogue
import CelTyping.Scope
import CelTyping.Standard

/-! Everything that is declared before an expression is checked, and how names
are looked up in it. -/
namespace CelTyping

inductive LiteralPolicy where
  /-- It holds values of type `dyn`. -/
  | mixed
  /-- It is a mistake. -/
  | homogeneous
deriving DecidableEq

structure Environment where
  container : Container := {}
  /-- The variables outside all comprehensions. -/
  globals : Scope := ∅
  functions : Table String Function := ∅
  registry : Registry := Catalogue.wellKnown.registry
  policy : LiteralPolicy := .mixed
  /-- Numbers of different types can be compared. -/
  crossTypeComparisons : Bool := false
  /-- The nesting that a check goes into. -/
  maxDepth : Nat := 250

namespace Environment

def empty : Environment := {}

instance : Inhabited Environment := ⟨empty⟩

def typeNames : List (String × Ty) :=
  [("bool", .bool), ("int", .int), ("uint", .uint), ("double", .double), ("string", .string),
   ("bytes", .bytes), ("list", .list .dyn), ("map", .map .dyn .dyn), ("null_type", .null),
   ("type", .type .dyn), ("dyn", .dyn), ("optional_type", .optional .dyn)]

def standard : Environment :=
  { empty with
    functions := Table.ofList (Standard.functions.map fun f => (f.name, f))
    globals := Table.ofList
      (typeNames.map fun (name, type) => (name, { name, type := .type type })) }

section Builders

def withContainer (env : Environment) (name : String) : Environment :=
  { env with container := { env.container with name } }

def withAlias (env : Environment) (short target : String) : Except Conflict Environment :=
  (env.container.addAlias short target).map fun container => { env with container }

def withRegistry (env : Environment) (registry : Registry) : Environment :=
  { env with registry }

def withVariable (env : Environment) (name : String) (type : Ty) : Environment :=
  { env with globals := env.globals.declare { name, type } }

/-- Adds an overload at the end, in the place of any other of that id. -/
def replaceOverload (overloads : List Overload) (o : Overload) : List Overload :=
  overloads.filter (·.id != o.id) ++ [o]

def withFunction (env : Environment) (f : Function) : Environment :=
  let merged : Function :=
    match env.functions.get? f.name with
    | some existing =>
      { existing with overloads := f.overloads.foldl replaceOverload existing.overloads }
    | none => f
  { env with functions := env.functions.insert f.name merged }

def withHomogeneousLiterals (env : Environment) : Environment :=
  { env with policy := .homogeneous }

def withCrossTypeComparisons (env : Environment) (enabled : Bool) : Environment :=
  { env with crossTypeComparisons := enabled }

def withMaxDepth (env : Environment) (depth : Nat) : Environment :=
  { env with maxDepth := depth }

end Builders

section Declaring

/-- Declares one variable. A name may be declared again with the same type only. -/
def addVariable (scope : Scope) (v : Variable) : Scope × List Conflict :=
  match scope.get? v.name with
  | some prior =>
    if prior.type = v.type then (scope, []) else (scope, [.overlappingIdentifier v.name])
  | none => (scope.declare v, [])

def addVariablesTo (scope : Scope) : List Variable → Scope × List Conflict
  | [] => (scope, [])
  | v :: vs =>
    let (scope, conflicts) := addVariable scope v
    let (scope, more) := addVariablesTo scope vs
    (scope, conflicts ++ more)

/-- Declares variables and reports every conflict; what does not conflict is
declared all the same. -/
def addVariables (env : Environment) (vs : List Variable) : Environment × Option Conflict :=
  let (globals, conflicts) := addVariablesTo env.globals vs
  ({ env with globals }, Conflict.ofList conflicts)

/-- Adds overloads to the function declared under a name. An id may be declared again
with the same signature only. -/
def addOverloads (name : String) (f : Function) : List Overload → Function × List Conflict
  | [] => (f, [])
  | o :: os =>
    match f.overload? o.id with
    | some prior =>
      let (g, more) := addOverloads name f os
      (g, if prior.signatureMatches o then more else .overlappingOverload name o.id :: more)
    | none => addOverloads name { f with overloads := f.overloads ++ [o] } os

def addFunctionsTo (functions : Table String Function) :
    List Function → Table String Function × List Conflict
  | [] => (functions, [])
  | f :: fs =>
    let existing := (functions.get? f.name).getD { name := f.name }
    let (merged, conflicts) := addOverloads f.name existing f.overloads
    let (functions, more) := addFunctionsTo (functions.insert f.name merged) fs
    (functions, conflicts ++ more)

def addFunctions (env : Environment) (fs : List Function) : Environment × Option Conflict :=
  let (functions, conflicts) := addFunctionsTo env.functions fs
  ({ env with functions }, Conflict.ofList conflicts)

end Declaring

section Lookup

def isDisabled (env : Environment) (overload : String) : Bool :=
  !env.crossTypeComparisons && Standard.crossTypeOverloads.contains overload

def function? (env : Environment) (name : String) : Option Function :=
  (env.container.candidates name).findSome? env.functions.get?

def messageName? (env : Environment) (name : String) : Option Variable :=
  (env.registry.message? name).map fun _ => { name, type := .type (Ty.ofMessage name) }

def enumConstant? (env : Environment) (name : String) : Option Variable :=
  (Name.splitLast? name).bind fun (enum, value) =>
    (env.registry.enumValue? enum value).map fun number =>
      { name, type := .int, value := some (.int number.toInt64) }

/-- What a full name means: a variable of the scopes, one of the environment, a
message, or a value of an enum. -/
def meaning? (env : Environment) (scopes : ScopeStack) (name : String) : Option Variable :=
  match scopes.find? name with
  | some v => some v
  | none =>
    match env.globals.get? name with
    | some v => some v
    | none =>
      match env.messageName? name with
      | some v => some v
      | none => env.enumConstant? name

/-- The first meaning of the names that `name` may stand for. -/
def variableIn? (env : Environment) (scopes : ScopeStack) (name : String) : Option Variable :=
  (env.container.candidates name).findSome? (env.meaning? scopes)

def globalVariable? (env : Environment) (name : String) : Option Variable :=
  env.variableIn? {} name

end Lookup

end Environment

end CelTyping
