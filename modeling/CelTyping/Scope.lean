import CelTyping.Declaration

/-! Scopes of variables. A stack of them always keeps its root frame. -/
namespace CelTyping

abbrev Scope := Table String Variable

namespace Scope

def declare (s : Scope) (v : Variable) : Scope := s.insert v.name v

end Scope

/-- Nested frames; the innermost stands first. -/
structure ScopeStack where
  inner : List Scope := []
  root : Scope := ∅
deriving Inhabited

namespace ScopeStack

def push (s : ScopeStack) : ScopeStack := { s with inner := ∅ :: s.inner }

/-- Closes the innermost frame, unless only the root is left. -/
def pop (s : ScopeStack) : ScopeStack := { s with inner := s.inner.tail }

def top? (s : ScopeStack) : Option Scope := s.inner.head?

def declare (s : ScopeStack) (v : Variable) : ScopeStack :=
  match s.inner with
  | [] => { s with root := s.root.declare v }
  | frame :: outer => { s with inner := frame.declare v :: outer }

def find? (s : ScopeStack) (name : String) : Option Variable :=
  (s.inner ++ [s.root]).findSome? (·.get? name)

def depth (s : ScopeStack) : Nat := s.inner.length + 1

@[simp] theorem find?_push (s : ScopeStack) (name : String) :
    s.push.find? name = s.find? name := rfl

@[simp] theorem find?_declare_self (s : ScopeStack) (v : Variable) :
    (s.declare v).find? v.name = some v := by
  unfold declare find?
  split
  next h => simp [h, Scope.declare]
  next => simp [Scope.declare]

@[simp] theorem find?_declare_of_ne (s : ScopeStack) {v : Variable} {name : String}
    (h : name ≠ v.name) : (s.declare v).find? name = s.find? name := by
  unfold declare find?
  split
  next hs => simp [hs, Scope.declare, h]
  next hs =>
    simp only [hs, Scope.declare, List.cons_append, List.findSome?_cons,
      Table.get?_insert_of_ne _ _ h]

end ScopeStack

end CelTyping
