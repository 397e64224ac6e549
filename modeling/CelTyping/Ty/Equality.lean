import CelTyping.Ty.Basic

/-! Two notions of sameness. `same` decides equality, reasons of error types
included; `exact` takes any two error types for equal. -/
namespace CelTyping

mutual

def Ty.same : Ty → Ty → Bool
  | .scalar s, .scalar s' => s == s'
  | .list t, .list t' => t.same t'
  | .map k v, .map k' v' => k.same k' && v.same v'
  | .message n, .message n' => n == n'
  | .wrapper t, .wrapper t' => t.same t'
  | .type t, .type t' => t.same t'
  | .abstract n ps, .abstract n' ps' => n == n' && Ty.sameAll ps ps'
  | .optional t, .optional t' => t.same t'
  | .function r ps, .function r' ps' => r.same r' && Ty.sameAll ps ps'
  | .param n, .param n' => n == n'
  | .error d, .error d' => d.same d'
  | _, _ => false

def Diagnostic.same : Diagnostic → Diagnostic → Bool
  | ⟨n, c⟩, ⟨n', c'⟩ => n == n' && c.same c'

def Cause.same : Cause → Cause → Bool
  | .undeclaredReference c n, .undeclaredReference c' n' => c == c' && n == n'
  | .undefinedField f, .undefinedField f' => f == f'
  | .unresolvedType n, .unresolvedType n' => n == n'
  | .notAType t, .notAType t' => t.same t'
  | .notAMessageType t, .notAMessageType t' => t.same t'
  | .noMatchingOverload f ts, .noMatchingOverload f' ts' => f == f' && Ty.sameAll ts ts'
  | .typeMismatch e a, .typeMismatch e' a' => e.same e' && a.same a'
  | .fieldSelectionUnsupported t, .fieldSelectionUnsupported t' => t.same t'
  | .invalidComprehensionRange t, .invalidComprehensionRange t' => t.same t'
  | .incompatibleType e n, .incompatibleType e' n' => e.same e' && n.same n'
  | .conflictingReference e n, .conflictingReference e' n' => e == e' && n == n'
  | .recursionLimit d, .recursionLimit d' => d == d'
  | .internal m, .internal m' => m == m'
  | _, _ => false

def Ty.sameAll : List Ty → List Ty → Bool
  | [], [] => true
  | t :: ts, t' :: ts' => t.same t' && Ty.sameAll ts ts'
  | _, _ => false

end

mutual

@[simp] theorem Ty.same_iff (a b : Ty) : a.same b = true ↔ a = b := by
  cases a <;> cases b <;> simp [Ty.same]
  case list.list t t' => exact Ty.same_iff t t'
  case map.map k v k' v' => rw [Ty.same_iff k k', Ty.same_iff v v']
  case wrapper.wrapper t t' => exact Ty.same_iff t t'
  case type.type t t' => exact Ty.same_iff t t'
  case abstract.abstract n ps n' ps' => rw [Ty.sameAll_iff ps ps']; simp
  case optional.optional t t' => exact Ty.same_iff t t'
  case function.function r ps r' ps' => rw [Ty.same_iff r r', Ty.sameAll_iff ps ps']
  case error.error d d' => exact Diagnostic.same_iff d d'

@[simp] theorem Diagnostic.same_iff (a b : Diagnostic) : a.same b = true ↔ a = b := by
  obtain ⟨n, c⟩ := a
  obtain ⟨n', c'⟩ := b
  simp [Diagnostic.same, Cause.same_iff c c']

@[simp] theorem Cause.same_iff (a b : Cause) : a.same b = true ↔ a = b := by
  cases a <;> cases b <;> simp [Cause.same]
  case notAType.notAType t t' => exact Ty.same_iff t t'
  case notAMessageType.notAMessageType t t' => exact Ty.same_iff t t'
  case noMatchingOverload.noMatchingOverload f ts f' ts' => rw [Ty.sameAll_iff ts ts']; simp
  case typeMismatch.typeMismatch e a e' a' => rw [Ty.same_iff e e', Ty.same_iff a a']
  case fieldSelectionUnsupported.fieldSelectionUnsupported t t' => exact Ty.same_iff t t'
  case invalidComprehensionRange.invalidComprehensionRange t t' => exact Ty.same_iff t t'
  case incompatibleType.incompatibleType e n e' n' => rw [Ty.same_iff e e', Ty.same_iff n n']

@[simp] theorem Ty.sameAll_iff (as bs : List Ty) : Ty.sameAll as bs = true ↔ as = bs := by
  cases as <;> cases bs <;> simp [Ty.sameAll]
  case cons.cons a as b bs => rw [Ty.same_iff a b, Ty.sameAll_iff as bs]

end

instance : DecidableEq Ty := fun a b => decidable_of_iff _ (Ty.same_iff a b)
instance : DecidableEq Diagnostic := fun a b => decidable_of_iff _ (Diagnostic.same_iff a b)

mutual

/-- Equality up to the reasons of error types. -/
def Ty.exact : Ty → Ty → Bool
  | .scalar s, .scalar s' => s == s'
  | .list t, .list t' => t.exact t'
  | .map k v, .map k' v' => k.exact k' && v.exact v'
  | .message n, .message n' => n == n'
  | .wrapper t, .wrapper t' => t.exact t'
  | .type t, .type t' => t.exact t'
  | .abstract n ps, .abstract n' ps' => n == n' && Ty.exactAll ps ps'
  | .optional t, .optional t' => t.exact t'
  | .function r ps, .function r' ps' => r.exact r' && Ty.exactAll ps ps'
  | .param n, .param n' => n == n'
  | .error _, .error _ => true
  | _, _ => false

def Ty.exactAll : List Ty → List Ty → Bool
  | [], [] => true
  | t :: ts, t' :: ts' => t.exact t' && Ty.exactAll ts ts'
  | _, _ => false

end

end CelTyping
