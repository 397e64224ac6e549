import CelTyping.Proofs.Solutions
import CelTyping.Scope

/-! What types are made of: parameters, and mistakes that were made in their place. Nothing that
is done with types adds to these. A replaced type has them from what is put in, a joined type
from one of the two, and matching binds parameters of the types it is given to such types. -/
namespace CelTyping

mutual

/-- The mistakes that a type carries, at any depth. What a mistake says is not looked into. -/
def Ty.errors : Ty → List Diagnostic
  | .list t => t.errors
  | .map k v => k.errors ++ v.errors
  | .wrapper t => t.errors
  | .type t => t.errors
  | .abstract _ ps => Ty.errorsAll ps
  | .optional t => t.errors
  | .function r ps => r.errors ++ Ty.errorsAll ps
  | .error d => [d]
  | .param _ | .scalar _ | .message _ => []

def Ty.errorsAll : List Ty → List Diagnostic
  | [] => []
  | t :: ts => t.errors ++ Ty.errorsAll ts

end

@[simp] theorem Ty.errorsAll_eq_nil_iff {ts : List Ty} :
    Ty.errorsAll ts = [] ↔ ∀ t ∈ ts, t.errors = [] := by
  induction ts with
  | nil => simp [Ty.errorsAll]
  | cons t ts ih => simp [Ty.errorsAll, ih]

@[simp] theorem Value.errors_type (v : Value) : v.type.errors = [] := by
  cases v <;> rfl

/-- The parameters and the mistakes of the type are among these. -/
def Ty.MadeOf (S : String → Prop) (E : Diagnostic → Prop) (t : Ty) : Prop :=
  (∀ p ∈ t.paramNames, S p) ∧ ∀ d ∈ t.errors, E d

namespace Ty

section MadeOf

variable {S : String → Prop} {E : Diagnostic → Prop} {t : Ty}

theorem madeOf_of_nil (hp : t.paramNames = []) (he : t.errors = []) : t.MadeOf S E := by
  simp [MadeOf, hp, he]

theorem MadeOf.mono {S' : String → Prop} {E' : Diagnostic → Prop} (h : t.MadeOf S E)
    (hS : ∀ p, S p → S' p) (hE : ∀ d, E d → E' d) : t.MadeOf S' E' :=
  ⟨fun p hp => hS p (h.1 p hp), fun d hd => hE d (h.2 d hd)⟩

@[simp] theorem madeOf_param {p : String} : (param p).MadeOf S E ↔ S p := by
  simp [MadeOf, paramNames, errors]

@[simp] theorem madeOf_error {d : Diagnostic} : (error d).MadeOf S E ↔ E d := by
  simp [MadeOf, paramNames, errors]

theorem madeOf_map {k v : Ty} : (map k v).MadeOf S E ↔ k.MadeOf S E ∧ v.MadeOf S E := by
  simp only [MadeOf, paramNames, errors, List.forall_mem_append, and_and_and_comm]

theorem madeOfAll_iff {ts : List Ty} :
    ((∀ p ∈ paramNamesAll ts, S p) ∧ ∀ d ∈ errorsAll ts, E d) ↔ ∀ t ∈ ts, t.MadeOf S E := by
  induction ts with
  | nil => simp [paramNamesAll, errorsAll]
  | cons t ts ih =>
    rw [List.forall_mem_cons, ← ih]
    simp only [MadeOf, paramNamesAll, errorsAll, List.forall_mem_append, and_and_and_comm]

@[simp] theorem madeOf_abstract {name : String} {ps : List Ty} :
    (abstract name ps).MadeOf S E ↔ ∀ p ∈ ps, p.MadeOf S E :=
  madeOfAll_iff

theorem madeOf_function {r : Ty} {ps : List Ty} :
    (function r ps).MadeOf S E ↔ r.MadeOf S E ∧ ∀ p ∈ ps, p.MadeOf S E := by
  rw [← madeOfAll_iff]
  simp only [MadeOf, paramNames, errors, List.forall_mem_append, and_and_and_comm]

theorem MadeOf.unwrapOptional (h : t.MadeOf S E) : t.unwrapOptional.MadeOf S E := by
  cases t <;> exact h

theorem madeOf_ofMessage (name : String) : (ofMessage name).MadeOf S E := by
  unfold ofMessage
  split <;> exact madeOf_of_nil rfl rfl

theorem MadeOf.mostGeneral {a b : Ty} (ha : a.MadeOf S E) (hb : b.MadeOf S E) :
    (a.mostGeneral b).MadeOf S E :=
  Ty.mostGeneral_of ha hb

mutual

theorem MadeOf.replace {f : String → Ty} (hf : ∀ p, S p → (f p).MadeOf S E) (t : Ty)
    (h : t.MadeOf S E) : (t.replace f).MadeOf S E := by
  cases t with
  | list t | wrapper t | type t | optional t => exact MadeOf.replace hf t h
  | map k v =>
    obtain ⟨hk, hv⟩ := madeOf_map.1 h
    exact madeOf_map.2 ⟨MadeOf.replace hf k hk, MadeOf.replace hf v hv⟩
  | abstract n ps =>
    exact madeOf_abstract.2 (MadeOf.replaceAll hf ps (madeOf_abstract.1 h))
  | function r ps =>
    obtain ⟨hr, hps⟩ := madeOf_function.1 h
    exact madeOf_function.2 ⟨MadeOf.replace hf r hr, MadeOf.replaceAll hf ps hps⟩
  | param p => exact hf p (madeOf_param.1 h)
  | scalar _ | message _ | error _ => exact h

theorem MadeOf.replaceAll {f : String → Ty} (hf : ∀ p, S p → (f p).MadeOf S E) (ts : List Ty)
    (h : ∀ t ∈ ts, t.MadeOf S E) : ∀ t ∈ Ty.replaceAll f ts, t.MadeOf S E := by
  cases ts with
  | nil => exact h
  | cons t ts =>
    obtain ⟨ht, hts⟩ := List.forall_mem_cons.1 h
    exact List.forall_mem_cons.2 ⟨MadeOf.replace hf t ht, MadeOf.replaceAll hf ts hts⟩

end

end MadeOf

end Ty

namespace Bindings

def MadeOf (S : String → Prop) (E : Diagnostic → Prop) (m : Bindings) : Prop :=
  ∀ p t, m.get? p = some t → S p ∧ t.MadeOf S E

section MadeOf

variable {S : String → Prop} {E : Diagnostic → Prop} {m m' : Bindings}

theorem MadeOf.mono {S' : String → Prop} {E' : Diagnostic → Prop} (h : m.MadeOf S E)
    (hS : ∀ p, S p → S' p) (hE : ∀ d, E d → E' d) : m.MadeOf S' E' :=
  fun p t ht => ⟨hS p (h p t ht).1, (h p t ht).2.mono hS hE⟩

theorem madeOf_resolve {unbound : String → Ty} (hunbound : ∀ p, S p → (unbound p).MadeOf S E)
    (n : Nat) : ∀ {m : Bindings}, Table.All (Ty.MadeOf S E) m → ∀ p, S p →
      (m.resolve unbound n p).MadeOf S E := by
  induction n with
  | zero => exact fun _ => hunbound
  | succ n ih =>
    intro m h p hp
    rw [Bindings.resolve]
    split
    next t ht => exact .replace (ih (Table.All.erase h p)) t (h p t ht)
    next => exact hunbound p hp

theorem madeOf_substitute (h : Table.All (Ty.MadeOf S E) m) {t : Ty} (ht : t.MadeOf S E)
    (close : Bool) : (m.substitute t close).MadeOf S E := by
  refine .replace (madeOf_resolve (fun p hp => ?_) m.size h) t ht
  cases close with
  | true => exact Ty.madeOf_of_nil rfl rfl
  | false => exact Ty.madeOf_param.2 hp

theorem MadeOf.values (h : m.MadeOf S E) : Table.All (Ty.MadeOf S E) m :=
  fun p t ht => (h p t ht).2

theorem MadeOf.closed (h : m.MadeOf S E) : m.Closed S :=
  fun p t _ ht => (h p t ht).2.1

theorem Frames.madeOf (h : Frames S m m') (hm : m.MadeOf S E)
    (hvalues : Table.All (Ty.MadeOf S E) m') : m'.MadeOf S E := by
  intro p t ht
  refine ⟨?_, hvalues p t ht⟩
  by_contra hp
  rw [h.outside p hp] at ht
  exact hp (hm p t ht).1

theorem hereditary_madeOf : Hereditary (Ty.MadeOf S E) where
  list h := h
  optional h := h
  map := Ty.madeOf_map.1
  abstract := Ty.madeOf_abstract.1
  function := Ty.madeOf_function.1

theorem Matches.madeOf {a b : Ty} (h : Matches m a b m') (hm : m.MadeOf S E)
    (ha : a.MadeOf S E) (hb : b.MadeOf S E) : m'.MadeOf S E :=
  (h.frames hm.closed ha.1 hb.1).madeOf hm (h.all hereditary_madeOf hm.values ha hb)

theorem MatchesAll.madeOf {as bs : List Ty} (h : MatchesAll m as bs m') (hm : m.MadeOf S E)
    (has : ∀ a ∈ as, a.MadeOf S E) (hbs : ∀ b ∈ bs, b.MadeOf S E) : m'.MadeOf S E := by
  have hframes := h.frames hm.closed (Ty.madeOfAll_iff.2 has).1 (Ty.madeOfAll_iff.2 hbs).1
  exact hframes.madeOf hm (h.all hereditary_madeOf hm.values has hbs)

end MadeOf

end Bindings

def ScopeStack.All (P : Variable → Prop) (scopes : ScopeStack) : Prop :=
  ∀ frame ∈ scopes.root :: scopes.inner, Table.All P frame

namespace ScopeStack

section All

variable {P Q : Variable → Prop} {scopes : ScopeStack}

theorem All.mono (h : scopes.All P) (hpq : ∀ v, P v → Q v) : scopes.All Q :=
  fun frame hframe => (h frame hframe).mono hpq

theorem All.push (h : scopes.All P) : scopes.push.All P := by
  obtain ⟨hroot, hinner⟩ := List.forall_mem_cons.1 h
  exact List.forall_mem_cons.2 ⟨hroot, List.forall_mem_cons.2 ⟨.empty, hinner⟩⟩

theorem All.pop (h : scopes.All P) : scopes.pop.All P := by
  obtain ⟨hroot, hinner⟩ := List.forall_mem_cons.1 h
  refine List.forall_mem_cons.2 ⟨hroot, fun frame hframe => ?_⟩
  exact hinner frame (List.mem_of_mem_tail hframe)

theorem All.declare (h : scopes.All P) {v : Variable} (hv : P v) : (scopes.declare v).All P := by
  obtain ⟨hroot, hinner⟩ := List.forall_mem_cons.1 h
  unfold ScopeStack.declare
  split
  next => exact List.forall_mem_cons.2 ⟨hroot.insert hv, hinner⟩
  next heq =>
    rw [heq] at hinner
    obtain ⟨hframe, houter⟩ := List.forall_mem_cons.1 hinner
    exact List.forall_mem_cons.2 ⟨hroot, List.forall_mem_cons.2 ⟨hframe.insert hv, houter⟩⟩

theorem All.declareAll {vs : List Variable} (hvs : ∀ v ∈ vs, P v) (h : scopes.All P) :
    (vs.foldl ScopeStack.declare scopes).All P := by
  induction vs generalizing scopes with
  | nil => exact h
  | cons v vs ih =>
    obtain ⟨hv, hvs⟩ := List.forall_mem_cons.1 hvs
    exact ih hvs (h.declare hv)

theorem All.find? (h : scopes.All P) {name : String} {v : Variable}
    (hv : scopes.find? name = some v) : P v := by
  obtain ⟨frame, hframe, hfound⟩ := List.exists_of_findSome?_eq_some hv
  refine h frame ?_ name v hfound
  rw [List.mem_append, List.mem_singleton, or_comm] at hframe
  exact List.mem_cons.2 hframe

end All

end ScopeStack

end CelTyping
