import CelTyping.Table
import CelTyping.Ty.Params

/-! Types found for type parameters, and what a type becomes under them. A
substitution takes each binding it follows out of the table for the rest of that
path, so that it ends also where bindings run in a circle. The occurs check has no
such guard: it is given fuel, and says so when that runs out. -/
namespace CelTyping

abbrev Bindings := Table String Ty

inductive Stop where
  | mismatch
  | outOfFuel
deriving DecidableEq

namespace Bindings

/-- What `p` stands for, looking at most `n` bindings deep. A parameter without
a binding, or met again while it is being followed, is `unbound p`. -/
def resolve (unbound : String → Ty) : Nat → Bindings → String → Ty
  | 0, _, p => unbound p
  | n + 1, m, p =>
    match m.get? p with
    | some t => t.replace (resolve unbound n (m.erase p))
    | none => unbound p

/-- Replaces every parameter that has a binding. The others become `dyn` when
the type is to be closed and stay as they are otherwise. -/
def substitute (m : Bindings) (t : Ty) (close : Bool) : Ty :=
  t.replace (m.resolve (fun p => if close then .dyn else .param p) m.size)

def reaches (target : String) : Nat → Bindings → String → Except Stop Bool
  | 0, _, _ => .error .outOfFuel
  | n + 1, m, p =>
    if p = target then .ok true
    else
      match m.get? p with
      | some t => t.paramNames.anyM (reaches target n m)
      | none => .ok false

/-- The parameter appears in the type, directly or through bindings. A walk that
runs in no circle follows each binding once at most. -/
def occurs (m : Bindings) (p : String) (t : Ty) : Except Stop Bool :=
  t.paramNames.anyM (m.reaches p (m.size + 1))

def weight (m : Bindings) : Nat :=
  m.toList.foldl (fun n e => n + e.2.size + 1) 0

def find? (m : Bindings) : Ty → Option Ty
  | .param p => m.get? p
  | _ => none

end Bindings

end CelTyping
