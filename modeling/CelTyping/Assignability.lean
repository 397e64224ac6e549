import CelTyping.Bindings
import CelTyping.Ty.Order

/-! Assignability: whether a value of one type can be used where another is
expected, and which bindings of type parameters that takes. Either side may hold
parameters. The walk goes through bindings as well as types, so it is given
fuel; `assignable?` and `assignableAll?` hand it as much as bindings without a
circle can use up. -/
namespace CelTyping

def Ty.isNullable : Ty → Bool
  | .null | .message _ | .abstract _ _ => true
  | t => t.accepts .null

namespace Bindings

def keepIf (m : Bindings) (ok : Bool) : Except Stop Bindings :=
  if ok then .ok m else .error .mismatch

def pairwise (step : Bindings → Ty → Ty → Except Stop Bindings) :
    Bindings → List Ty → List Ty → Except Stop Bindings
  | m, [], [] => .ok m
  | m, a :: as, b :: bs =>
    match step m a b with
    | .ok m' => pairwise step m' as bs
    | .error e => .error e
  | _, _, _ => .error .mismatch

/-- Matches `t` against the parameter `p`. A bound parameter takes what can be
matched against its binding, and its binding moves up to the more general of the
two unless that would make a circle. An unbound parameter is bound to `t`; the
answer is `none` when `p` occurs in `t`. -/
def bindParam (step : Bindings → Ty → Ty → Except Stop Bindings) (m : Bindings) (t : Ty)
    (p : String) : Except Stop (Option Bindings) :=
  if t.exact (.param p) then .ok (some m)
  else
    match m.get? p with
    | some bound =>
      if t.exact bound then .ok (some m)
      else do
        let m' ← step m t bound
        let widened := t.mostGeneral bound
        let circular ← m'.occurs p widened
        return some (if circular then m' else m'.insert p widened)
    | none => do
      let circular ← m.occurs p t
      return if circular then none else some (m.insert p t)

def assignParts (step : Bindings → Ty → Ty → Except Stop Bindings) (m : Bindings) :
    Ty → Ty → Except Stop Bindings
  | .dyn, _ => .ok m
  | .error _, _ => .ok m
  | _, .dyn => .ok m
  | _, .error _ => .ok m
  | .null, b => m.keepIf b.isNullable
  | a, .null => m.keepIf a.isNullable
  | .type _, .type _ => .ok m
  | .abstract n as, .abstract n' bs =>
    if n = n' then pairwise step m as bs else .error .mismatch
  | .function r as, .function r' bs =>
    match step m r r' with
    | .ok m' => pairwise step m' as bs
    | .error e => .error e
  | .optional a, .optional b => step m a b
  | .list a, .list b => step m a b
  | .map k v, .map k' v' =>
    match step m k k' with
    | .ok m' => step m' v v'
    | .error e => .error e
  | .scalar s, b => m.keepIf (b.accepts (.scalar s))
  | .message n, b => m.keepIf (b.accepts (.message n))
  | .wrapper a, b => m.keepIf (b.accepts (.wrapper a))
  | _, _ => .error .mismatch

def assignLeft (step : Bindings → Ty → Ty → Except Stop Bindings) (m : Bindings) (a b : Ty) :
    Except Stop Bindings :=
  match a with
  | .param p =>
    match m.bindParam step b p with
    | .ok (some m') => .ok m'
    | .ok none => .error .mismatch
    | .error e => .error e
  | a => m.assignParts step a b

def assign : Nat → Bindings → Ty → Ty → Except Stop Bindings
  | 0, _, _, _ => .error .outOfFuel
  | n + 1, m, a, b =>
    match b with
    | .param q =>
      match m.bindParam (assign n) a q with
      | .ok (some m') => .ok m'
      | .ok none => m.assignLeft (assign n) a b
      | .error e => .error e
    | b => m.assignLeft (assign n) a b

/-- More steps than a match of types of this total size can nest. Each time the
match comes back to a parameter, some parameter has been bound in between. -/
def fuel (m : Bindings) (size : Nat) : Nat :=
  let n := m.weight + size + 1
  2 * (n * n * n)

/-- The bindings under which `a` can be used as `b`. -/
def assignable? (m : Bindings) (a b : Ty) : Option Bindings :=
  (assign (m.fuel (a.size + b.size)) m a b).toOption

def assignableAll? (m : Bindings) (as bs : List Ty) : Option Bindings :=
  (pairwise (assign (m.fuel (Ty.sizeAll as + Ty.sizeAll bs))) m as bs).toOption

end Bindings

end CelTyping
