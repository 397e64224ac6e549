import CelTyping.Expr.Basic
import CelTyping.Text

/-! Expression trees as text, one parenthesis per node with its id first. -/
namespace CelTyping

/-- Text between quotes, with a backslash before quotes and backslashes only. -/
def Expr.quote (s : String) : String :=
  let escape (c : Char) : List Char := if c = '"' || c = '\\' then ['\\', c] else [c]
  String.ofList ('"' :: s.toList.flatMap escape ++ ['"'])

def Value.tree : Value → String
  | .null => "null"
  | .bool true => "bool true"
  | .bool false => "bool false"
  | .int n => "int " ++ Int.repr n.toInt
  | .uint n => "uint " ++ Nat.repr n.toNat
  | .double d => "double " ++ Text.hexWord d.bits
  | .string s => "string " ++ Expr.quote s
  | .bytes b => "bytes x" ++ Text.hexBytes b

def Expr.mark (optional : Bool) : String := if optional then "?" else ""

mutual

def Expr.tree : Expr → String
  | .literal id value => "(" ++ Int.repr id ++ " " ++ value.tree ++ ")"
  | .ident id name => "(" ++ Int.repr id ++ " ident " ++ quote name ++ ")"
  | .select id operand field testOnly =>
    "(" ++ Int.repr id ++ (if testOnly then " has " else " select ") ++ operand.tree ++ " " ++
      quote field ++ ")"
  | .call id function args =>
    "(" ++ Int.repr id ++ " call - " ++ quote function ++ Expr.treeArgs args ++ ")"
  | .receiverCall id target function args =>
    "(" ++ Int.repr id ++ " call " ++ target.tree ++ " " ++ quote function ++
      Expr.treeArgs args ++ ")"
  | .list id elements => "(" ++ Int.repr id ++ " list" ++ Expr.treeElements elements ++ ")"
  | .map id entries => "(" ++ Int.repr id ++ " map" ++ Expr.treeEntries entries ++ ")"
  | .message id name fields =>
    "(" ++ Int.repr id ++ " struct " ++ quote name ++ Expr.treeFields fields ++ ")"
  | .comprehension id iterVar iterVar2 range accuVar init condition step result =>
    "(" ++ Int.repr id ++ " comp " ++ quote iterVar ++ " " ++ quote iterVar2 ++ " " ++
      range.tree ++ " " ++ quote accuVar ++ " " ++ init.tree ++ " " ++ condition.tree ++ " " ++
      step.tree ++ " " ++ result.tree ++ ")"

def Expr.treeArgs : List Expr → String
  | [] => ""
  | e :: rest => " " ++ e.tree ++ Expr.treeArgs rest

def Expr.treeElements : List Element → String
  | [] => ""
  | ⟨value, optional⟩ :: rest => " " ++ mark optional ++ value.tree ++ Expr.treeElements rest

def Expr.treeEntries : List Entry → String
  | [] => ""
  | ⟨id, key, value, optional⟩ :: rest =>
    " " ++ mark optional ++ "(" ++ Int.repr id ++ " " ++ key.tree ++ " " ++ value.tree ++ ")" ++
      Expr.treeEntries rest

def Expr.treeFields : List FieldInit → String
  | [] => ""
  | ⟨id, name, value, optional⟩ :: rest =>
    " " ++ mark optional ++ "(" ++ Int.repr id ++ " " ++ quote name ++ " " ++ value.tree ++ ")" ++
      Expr.treeFields rest

end

end CelTyping
