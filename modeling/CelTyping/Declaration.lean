import CelTyping.Table
import CelTyping.Ty.Equality
import CelTyping.Ty.Params
import CelTyping.Value

/-! What an environment declares: variables, and functions with their overloads. -/
namespace CelTyping

structure Variable where
  name : String
  type : Ty
  /-- The value of a constant. -/
  value : Option Value := none

/-- One signature of a function. A member overload is called on a receiver, which
counts as its first parameter. -/
structure Overload where
  id : String
  params : List Ty
  result : Ty
  isMember : Bool := false
  /-- Type parameters declared by name. -/
  typeParams : List String := []

namespace Overload

/-- Every type parameter of the signature: the declared ones as declared, then in
order those that are only mentioned. -/
def typeParamNames (o : Overload) : List String :=
  let mentioned : Table String Unit :=
    Table.ofList ((Ty.paramNamesAll o.params ++ o.result.paramNames).map (·, ()))
  o.typeParams ++ mentioned.keys.filter (!o.typeParams.contains ·)

def signatureMatches (a b : Overload) : Bool :=
  a.isMember == b.isMember && Ty.sameAll a.params b.params && a.result.same b.result

end Overload

structure Function where
  name : String
  overloads : List Overload := []

def Function.overload? (f : Function) (id : String) : Option Overload :=
  f.overloads.find? (·.id == id)

end CelTyping
