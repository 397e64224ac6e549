import CelTyping.Ty.Basic

/-! Type parameters inside a type: replacing them, looking for one, listing
them, and the size of the whole. None of these looks inside the reason of an
error type. -/
namespace CelTyping

mutual

/-- Puts `f p` in the place of each parameter `p`. -/
def Ty.replace (f : String → Ty) : Ty → Ty
  | .list t => .list (t.replace f)
  | .map k v => .map (k.replace f) (v.replace f)
  | .wrapper t => .wrapper (t.replace f)
  | .type t => .type (t.replace f)
  | .abstract n ps => .abstract n (Ty.replaceAll f ps)
  | .optional t => .optional (t.replace f)
  | .function r ps => .function (r.replace f) (Ty.replaceAll f ps)
  | .param p => f p
  | .scalar s => .scalar s
  | .message n => .message n
  | .error d => .error d

def Ty.replaceAll (f : String → Ty) : List Ty → List Ty
  | [] => []
  | t :: ts => t.replace f :: Ty.replaceAll f ts

end

theorem Ty.replaceAll_eq_map (f : String → Ty) (ts : List Ty) :
    Ty.replaceAll f ts = ts.map (Ty.replace f) := by
  induction ts with
  | nil => rfl
  | cons t ts ih => simp [Ty.replaceAll, ih]

mutual

def Ty.anyParam (q : String → Bool) : Ty → Bool
  | .list t => t.anyParam q
  | .map k v => k.anyParam q || v.anyParam q
  | .wrapper t => t.anyParam q
  | .type t => t.anyParam q
  | .abstract _ ps => Ty.anyParamAll q ps
  | .optional t => t.anyParam q
  | .function r ps => r.anyParam q || Ty.anyParamAll q ps
  | .param p => q p
  | .scalar _ | .message _ | .error _ => false

def Ty.anyParamAll (q : String → Bool) : List Ty → Bool
  | [] => false
  | t :: ts => t.anyParam q || Ty.anyParamAll q ts

end

def Ty.hasParams (t : Ty) : Bool := t.anyParam fun _ => true

mutual

/-- The parameters from left to right, with repetitions. -/
def Ty.paramNames : Ty → List String
  | .list t => t.paramNames
  | .map k v => k.paramNames ++ v.paramNames
  | .wrapper t => t.paramNames
  | .type t => t.paramNames
  | .abstract _ ps => Ty.paramNamesAll ps
  | .optional t => t.paramNames
  | .function r ps => r.paramNames ++ Ty.paramNamesAll ps
  | .param p => [p]
  | .scalar _ | .message _ | .error _ => []

def Ty.paramNamesAll : List Ty → List String
  | [] => []
  | t :: ts => t.paramNames ++ Ty.paramNamesAll ts

end

mutual

theorem Ty.any_paramNames (q : String → Bool) (t : Ty) : t.paramNames.any q = t.anyParam q := by
  cases t with
  | list t => exact Ty.any_paramNames q t
  | map k v =>
    simp only [Ty.paramNames, Ty.anyParam, List.any_append, Ty.any_paramNames q k,
      Ty.any_paramNames q v]
  | wrapper t => exact Ty.any_paramNames q t
  | type t => exact Ty.any_paramNames q t
  | abstract n ps => exact Ty.any_paramNamesAll q ps
  | optional t => exact Ty.any_paramNames q t
  | function r ps =>
    simp only [Ty.paramNames, Ty.anyParam, List.any_append, Ty.any_paramNames q r,
      Ty.any_paramNamesAll q ps]
  | param p => simp [Ty.paramNames, Ty.anyParam]
  | _ => rfl

theorem Ty.any_paramNamesAll (q : String → Bool) (ts : List Ty) :
    (Ty.paramNamesAll ts).any q = Ty.anyParamAll q ts := by
  cases ts with
  | nil => rfl
  | cons t ts =>
    simp only [Ty.paramNamesAll, Ty.anyParamAll, List.any_append, Ty.any_paramNames q t,
      Ty.any_paramNamesAll q ts]

end

@[simp] theorem Ty.hasParams_eq_false_iff {t : Ty} : t.hasParams = false ↔ t.paramNames = [] := by
  rw [Ty.hasParams, ← Ty.any_paramNames, List.any_eq_false]
  simp [List.eq_nil_iff_forall_not_mem]

mutual

def Ty.size : Ty → Nat
  | .list t => t.size + 1
  | .map k v => k.size + v.size + 1
  | .wrapper t => t.size + 1
  | .type t => t.size + 1
  | .abstract _ ps => Ty.sizeAll ps + 1
  | .optional t => t.size + 1
  | .function r ps => r.size + Ty.sizeAll ps + 1
  | .param _ | .scalar _ | .message _ | .error _ => 1

def Ty.sizeAll : List Ty → Nat
  | [] => 0
  | t :: ts => t.size + Ty.sizeAll ts

end

end CelTyping
