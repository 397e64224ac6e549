import CelTyping.Expr.Basic

/-! Building expression trees. Every part gets the next free id, children before
their parent; the standard macros expand to comprehensions over one accumulator. -/
namespace CelTyping

/-- A tree under construction, with the next free id as state. -/
abbrev Build := StateM NodeId

namespace Build

def run {α : Type} (build : Build α) : α × NodeId := StateT.run build 1

def fresh : Build NodeId := modifyGet fun n => (n, n + 1)

def literal (value : Value) : Build Expr := return .literal (← fresh) value

def ident (name : String) : Build Expr := return .ident (← fresh) name

def select (operand : Expr) (field : String) : Build Expr :=
  return .select (← fresh) operand field false

def presenceTest (operand : Expr) (field : String) : Build Expr :=
  return .select (← fresh) operand field true

def call (function : String) (args : List Expr) : Build Expr :=
  return .call (← fresh) function args

def receiverCall (target : Expr) (function : String) (args : List Expr) : Build Expr :=
  return .receiverCall (← fresh) target function args

def binary (function : String) (left right : Expr) : Build Expr := call function [left, right]

def optionalSelect (operand : Expr) (field : String) : Build Expr := do
  let name ← literal (.string field)
  call Operator.optionalSelect [operand, name]

def selectAll (operand : Expr) : List String → Build Expr
  | [] => return operand
  | field :: fields => do selectAll (← select operand field) fields

def qualified (name : String) : Build Expr := do
  let segments := Name.segments name
  selectAll (← ident (segments.headD "")) segments.tail

def list (elements : List Element) : Build Expr := return .list (← fresh) elements

def plainList (values : List Expr) : Build Expr := list (values.map (⟨·, false⟩))

def each {α β : Type} (make : NodeId → α → β) : List α → Build (List β)
  | [] => return []
  | part :: parts => do
    let id ← fresh
    return make id part :: (← each make parts)

def map (parts : List (Expr × Expr × Bool)) : Build Expr := do
  let entries ← each (fun id part => ⟨id, part.1, part.2.1, part.2.2⟩) parts
  return .map (← fresh) entries

def message (name : String) (parts : List (String × Expr × Bool)) : Build Expr := do
  let fields ← each (fun id part => ⟨id, part.1, part.2.1, part.2.2⟩) parts
  return .message (← fresh) name fields

def comprehension (iterVar iterVar2 : String) (range : Expr) (accuVar : String)
    (init condition step result : Expr) : Build Expr :=
  return .comprehension (← fresh) iterVar iterVar2 range accuVar init condition step result

def accumulator : String := "@result"

/-- A comprehension with one variable that yields its accumulator or a value from it. -/
def loop (var : String) (range init condition step result : Expr) : Build Expr :=
  comprehension var "" range accumulator init condition step result

def all (range : Expr) (var : String) (predicate : Expr) : Build Expr := do
  let init ← literal (.bool true)
  let condition ← call Operator.notStrictlyFalse [← ident accumulator]
  let step ← binary Operator.logicalAnd (← ident accumulator) predicate
  let result ← ident accumulator
  loop var range init condition step result

/-- The macro `range.exists(var, predicate)`. -/
def any (range : Expr) (var : String) (predicate : Expr) : Build Expr := do
  let init ← literal (.bool false)
  let done ← call Operator.logicalNot [← ident accumulator]
  let condition ← call Operator.notStrictlyFalse [done]
  let step ← binary Operator.logicalOr (← ident accumulator) predicate
  let result ← ident accumulator
  loop var range init condition step result

/-- The macro `range.exists_one(var, predicate)`. -/
def exactlyOne (range : Expr) (var : String) (predicate : Expr) : Build Expr := do
  let init ← literal (.int 0)
  let condition ← literal (.bool true)
  let count ← ident accumulator
  let incremented ← binary Operator.add count (← literal (.int 1))
  let step ← call Operator.conditional [predicate, incremented, ← ident accumulator]
  let count ← ident accumulator
  let result ← binary Operator.equals count (← literal (.int 1))
  loop var range init condition step result

/-- The macro `range.map(var, transform)`. -/
def mapEach (range : Expr) (var : String) (transform : Expr) : Build Expr := do
  let init ← plainList []
  let condition ← literal (.bool true)
  let done ← ident accumulator
  let step ← binary Operator.add done (← plainList [transform])
  let result ← ident accumulator
  loop var range init condition step result

def filter (range : Expr) (var : String) (predicate : Expr) : Build Expr := do
  let init ← plainList []
  let condition ← literal (.bool true)
  let done ← ident accumulator
  let single ← plainList [← ident var]
  let appended ← binary Operator.add done single
  let step ← call Operator.conditional [predicate, appended, ← ident accumulator]
  let result ← ident accumulator
  loop var range init condition step result

end Build

end CelTyping
