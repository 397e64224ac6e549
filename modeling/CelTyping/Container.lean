import CelTyping.Name
import CelTyping.Table

/-! The namespace that an expression is written in. A name used there may mean a
declaration of that namespace, of one around it, or of the root. -/
namespace CelTyping

section Conflicts

inductive AliasFault where
  | notSimple
  | notQualified
  | collision

def AliasFault.message : AliasFault → String
  | .notSimple => "alias must be a non-empty simple identifier"
  | .notQualified => "alias target must be a qualified name"
  | .collision => "alias collides with an existing alias"

inductive Conflict where
  | overlappingIdentifier (name : String)
  | overlappingOverload (function overload : String)
  | invalidAlias (name : String) (fault : AliasFault)
  /-- Several conflicts found by one declaration. -/
  | several (conflicts : List Conflict)

mutual

def Conflict.message : Conflict → String
  | .overlappingIdentifier name => "overlapping identifier for name '" ++ name ++ "'"
  | .overlappingOverload function overload =>
    "overlapping overload for name '" ++ function ++ "' (id '" ++ overload ++ "')"
  | .invalidAlias name fault => "invalid alias '" ++ name ++ "': " ++ fault.message
  | .several conflicts => "\n".intercalate (Conflict.messages conflicts)

def Conflict.messages : List Conflict → List String
  | [] => []
  | c :: cs => c.message :: Conflict.messages cs

end

def Conflict.ofList : List Conflict → Option Conflict
  | [] => none
  | [c] => some c
  | cs => some (.several cs)

end Conflicts

structure Container where
  /-- Empty for the root. -/
  name : String := ""
  /-- Simple names that stand for qualified ones. -/
  aliases : Table String String := ∅
deriving Inhabited

namespace Container

def expandAlias? (c : Container) (name : String) : Option String :=
  let first := name.toList.takeWhile (· != '.')
  let rest := name.toList.dropWhile (· != '.')
  (c.aliases.get? (String.ofList first)).map (· ++ String.ofList rest)

/-- An alias is one segment and is never given a second meaning. -/
def addAlias (c : Container) (short target : String) : Except Conflict Container :=
  if !Name.isSimple short then .error (.invalidAlias short .notSimple)
  else if target == "" || (Name.rooted? target).isSome then
    .error (.invalidAlias short .notQualified)
  else if (c.aliases.get? short).any (· != target) then
    .error (.invalidAlias short .collision)
  else .ok { c with aliases := c.aliases.insert short target }

/-- The full names that `name` may mean, the most qualified first. A leading dot
leaves only the rest of the name, and an alias only what it stands for. -/
def candidates (c : Container) (name : String) : List String :=
  match Name.rooted? name with
  | some rest => [(c.expandAlias? rest).getD rest]
  | none =>
    match c.expandAlias? name with
    | some expanded => [expanded]
    | none =>
      if c.name = "" then [name]
      else (Name.enclosing c.name).map (Name.extend · name) ++ [name]

end Container

end CelTyping
