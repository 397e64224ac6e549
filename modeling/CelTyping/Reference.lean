import CelTyping.Value

/-! What a name in an expression was found to mean. -/
namespace CelTyping

/-- A variable has no overloads; a function call lists those that match. -/
structure Reference where
  name : String
  overloads : List String := []
  value : Option Value := none

namespace Reference

def isFunction (r : Reference) : Bool := !r.overloads.isEmpty

def addOverload (r : Reference) (id : String) : Reference :=
  if r.overloads.contains id then r else { r with overloads := r.overloads ++ [id] }

def sameValue : Option Value → Option Value → Bool
  | none, none => true
  | some a, some b => a.equals b
  | _, _ => false

/-- The references mean the same: overloads compare as sets, constants as values. -/
def agrees (a b : Reference) : Bool :=
  a.name == b.name && sameValue a.value b.value &&
    a.overloads.length == b.overloads.length && a.overloads.all (b.overloads.contains ·)

def text (r : Reference) : String :=
  r.name ++
    (if r.isFunction then "[" ++ ", ".intercalate r.overloads ++ "]" else "") ++
    match r.value with
    | some v => " = " ++ v.text
    | none => ""

end Reference

end CelTyping
