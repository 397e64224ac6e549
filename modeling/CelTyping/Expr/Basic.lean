import CelTyping.Name
import CelTyping.Value

/-! Expression trees after macro expansion: operators are calls, and macros are
comprehensions. Every node has an id, by which types, references and diagnostics
are recorded. -/
namespace CelTyping

namespace Operator

def add := "_+_"
def subtract := "_-_"
def multiply := "_*_"
def divide := "_/_"
def modulo := "_%_"
def negate := "-_"
def equals := "_==_"
def notEquals := "_!=_"
def less := "_<_"
def lessEquals := "_<=_"
def greater := "_>_"
def greaterEquals := "_>=_"
def logicalAnd := "_&&_"
def logicalOr := "_||_"
def logicalNot := "!_"
def conditional := "_?_:_"
def index := "_[_]"
def optionalIndex := "_[?_]"
def optionalSelect := "_?._"
def contained := "@in"

def notStrictlyFalse := "@not_strictly_false"

def isLogical (function : String) : Bool := function == logicalAnd || function == logicalOr

end Operator

mutual

inductive Expr where
  | literal (id : NodeId) (value : Value)
  /-- A leading dot starts the name at the root. -/
  | ident (id : NodeId) (name : String)
  /-- The field of the operand, or the test whether it is present. -/
  | select (id : NodeId) (operand : Expr) (field : String) (testOnly : Bool)
  | call (id : NodeId) (function : String) (args : List Expr)
  | receiverCall (id : NodeId) (target : Expr) (function : String) (args : List Expr)
  | list (id : NodeId) (elements : List Element)
  | map (id : NodeId) (entries : List Entry)
  | message (id : NodeId) (name : String) (fields : List FieldInit)
  /-- Starting from `init`, runs `step` for each member of `range` while `condition`
  holds, and yields `result`. The second variable is empty where there is none. -/
  | comprehension (id : NodeId) (iterVar iterVar2 : String) (range : Expr) (accuVar : String)
      (init condition step result : Expr)

structure Element where
  value : Expr
  optional : Bool

structure Entry where
  id : NodeId
  key : Expr
  value : Expr
  optional : Bool

structure FieldInit where
  id : NodeId
  name : String
  value : Expr
  optional : Bool

end

namespace Expr

instance : Inhabited Expr := ⟨.literal 0 .null⟩

def id : Expr → NodeId
  | .literal id _ => id
  | .ident id _ => id
  | .select id _ _ _ => id
  | .call id _ _ => id
  | .receiverCall id _ _ _ => id
  | .list id _ => id
  | .map id _ => id
  | .message id _ _ => id
  | .comprehension id _ _ _ _ _ _ _ _ => id

def spelling? (fields : List String) : Expr → Option String
  | .ident _ name => some (".".intercalate (name :: fields))
  | .select _ operand field false => operand.spelling? (field :: fields)
  | _ => none

/-- The dotted name that an identifier, or a chain of selections from one, spells. -/
def qualifiedName? (e : Expr) : Option String := e.spelling? []

@[simp] theorem qualifiedName?_ident (id : NodeId) (name : String) :
    (Expr.ident id name).qualifiedName? = some name := by
  simp [qualifiedName?, spelling?]

theorem spelling?_concat (e : Expr) (fields : List String) (field : String) :
    e.spelling? (fields ++ [field]) = (e.spelling? fields).map (Name.extend · field) := by
  fun_induction spelling? fields e with
  | case1 fields id name => rw [spelling?, Name.intercalate_concat, Option.map_some]
  | case2 fields id operand inner ih => rw [spelling?, ← List.cons_append, ih]
  | case3 => simp [spelling?]

@[simp] theorem qualifiedName?_select (id : NodeId) (operand : Expr) (field : String) :
    (Expr.select id operand field false).qualifiedName? =
      operand.qualifiedName?.map (Name.extend · field) :=
  spelling?_concat operand [] field

/-- The node without its children. Selections and comprehensions, which cannot do
without, turn into null. -/
def childless : Expr → Expr
  | .literal id value => .literal id value
  | .ident id name => .ident id name
  | .call id function _ => .call id function []
  | .receiverCall id _ function _ => .call id function []
  | .list id _ => .list id []
  | .map id _ => .map id []
  | .message id name _ => .message id name []
  | .select id _ _ _ => .literal id .null
  | .comprehension id _ _ _ _ _ _ _ _ => .literal id .null

end Expr

end CelTyping
