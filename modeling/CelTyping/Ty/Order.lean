import CelTyping.Ty.Equality

/-! How types compare without any bindings: which values a type accepts as it
stands, and which of two types is the more general. -/
namespace CelTyping

def Scalar.accepts (target : Scalar) : Ty → Bool
  | .scalar s => target == s
  | .param _ => true
  | .wrapper source => target.isPrimitive && target.accepts source
  | _ => false

mutual

/-- A value of the second type fits where the first is wanted. Parameters on
either side fit anything; a wrapper takes null, its primitive and the wrapper
of what its inner type accepts. -/
def Ty.accepts : Ty → Ty → Bool
  | .param _, _ => true
  | _, .param _ => true
  | .scalar c, source => c.accepts source
  | .wrapper _, .null => true
  | .wrapper t, .wrapper s => t.accepts s
  | .wrapper t, .scalar c => c.isPrimitive && t.accepts (.scalar c)
  | .list t, .list s => t.accepts s
  | .type t, .type s => t.accepts s
  | .optional t, .optional s => t.accepts s
  | .map k v, .map k' v' => k.accepts k' && v.accepts v'
  | .message n, .message n' => n == n'
  | .abstract n ps, .abstract n' ps' => n == n' && Ty.acceptsAll ps ps'
  | .function r ps, .function r' ps' => r.accepts r' && Ty.acceptsAll ps ps'
  | .error _, .error _ => true
  | _, _ => false

def Ty.acceptsAll : List Ty → List Ty → Bool
  | [], [] => true
  | t :: ts, s :: ss => t.accepts s && Ty.acceptsAll ts ss
  | _, _ => false

end

mutual

/-- The first type is as general as the second or more so. `dyn` and every
`type(_)` are above all types; lists, maps, optionals and abstract types
compare part by part. -/
def Ty.subsumes : Ty → Ty → Bool
  | .dyn, _ => true
  | .type _, _ => true
  | _, .dyn => false
  | _, .type _ => false
  | .abstract n ps, .abstract n' ps' => n == n' && Ty.subsumesAll ps ps'
  | .list t, .list s => t.subsumes s
  | .optional t, .optional s => t.subsumes s
  | .map k v, .map k' v' => k.subsumes k' && v.subsumes v'
  | t, s => t.exact s

def Ty.subsumesAll : List Ty → List Ty → Bool
  | [], [] => true
  | t :: ts, s :: ss => t.subsumes s && Ty.subsumesAll ts ss
  | _, _ => false

end

/-- The first type unless only the second is the more general. -/
def Ty.mostGeneral (a b : Ty) : Ty := if a.subsumes b then a else b

end CelTyping
