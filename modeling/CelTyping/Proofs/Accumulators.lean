import CelTyping.Proofs.TypingRules

/-! Accumulators. A loop that builds a list starts from an empty one, whose elements have a type
variable for their type. The first list that is appended binds it, and does so through the type
variable of the overload that appends, which was bound to it by the first argument. From then on
the accumulator is a list like any other. -/
namespace CelTyping

namespace Bindings

section Accumulating

variable {m : Bindings} {p q : String} {u : Ty}

theorem exists_fuel (m : Bindings) (k size : Nat) (h : k ≤ size) : ∃ n, m.fuel size = n + k := by
  have hfuel := m.weight_add_lt_fuel size
  exact ⟨m.fuel size - k, by omega⟩

theorem occurs_param (hne : p ≠ q) (h : ∀ t, m.get? p = some t → t.paramNames = []) :
    m.occurs q (.param p) = .ok false := by
  have hreaches : m.reaches q (m.size + 1) p = .ok false := by
    rw [reaches, if_neg hne]
    cases hget : m.get? p with
    | none => rfl
    | some t =>
      simp only [h t hget]
      rfl
  simp only [occurs, Ty.paramNames, List.anyM, hreaches]
  rfl

theorem not_exact_list_param (hu : u.paramNames = []) (p : String) :
    (Ty.list (.param p)).exact (.list u) = false :=
  Bool.eq_false_iff.2 fun h =>
    Bool.eq_false_iff.1 (Ty.not_exact_param_of_closed hu p) (Ty.exact_symm h)

theorem assign_param_param (n : Nat) (hne : p ≠ q) (hp : m.get? p = none)
    (hq : m.get? q = none) :
    assign (n + 1) m (.param p) (.param q) = .ok (m.insert q (.param p)) := by
  have hexact : (Ty.param p).exact (.param q) = false :=
    Bool.eq_false_iff.2 fun h => hne (Ty.param.inj (Ty.exact_param.1 h))
  have hoccurs : m.occurs q (.param p) = .ok false :=
    occurs_param hne fun t ht => by rw [hp] at ht; cases ht
  rw [assign_param]
  simp [bindParam, hexact, hq, hoccurs]

theorem assign_through (n : Nat) (hne : p ≠ q) (hp : m.get? p = none)
    (hq : m.get? q = some (.param p)) (hu : u.paramNames = []) :
    assign (n + 2) m u (.param q) =
      .ok ((m.insert p u).insert q (u.mostGeneral (.param p))) := by
  have hoccurs : occurs (m.insert p u) q (u.mostGeneral (.param p)) = .ok false := by
    refine Ty.mostGeneral_of (P := fun t => occurs (m.insert p u) q t = .ok false)
      (occurs_of_closed hu _ _) (occurs_param hne fun t ht => ?_)
    rw [Table.get?_insert_self] at ht
    cases ht
    exact hu
  rw [assign_param, bindParam_of_not_exact hu hq (Ty.not_exact_param_of_closed hu p),
    assign_of_unbound n hu hp]
  simp only [bind, Except.bind, hoccurs]
  rfl

theorem assign_list_param (n : Nat) (hp : m.get? p = some u) (hu : u.paramNames = []) :
    assign (n + 2) m (.list (.param p)) (.list u) = .ok m := by
  have hlist : assign (n + 2) m (.list (.param p)) (.list u) = assign (n + 1) m (.param p) u := rfl
  rw [hlist, assign_of_ne_param n m _ (Ty.ne_param_of_closed hu), assignLeft,
    bindParam_of_exact hu hp (Ty.exact_refl u)]

theorem assignableAll_append (hne : p ≠ q) (hp : m.get? p = none) (hq : m.get? q = none)
    (hu : u.paramNames = []) :
    m.assignableAll? [.list (.param p), .list u] [.list (.param q), .list (.param q)] =
      some (((m.insert q (.param p)).insert p u).insert q (u.mostGeneral (.param p))) := by
  obtain ⟨n, hn⟩ := m.exists_fuel 3 (Ty.sizeAll [.list (.param p), .list u] +
    Ty.sizeAll [.list (.param q), .list (.param q)]) (by simp [Ty.sizeAll, Ty.size])
  have hfirst : assign (n + 3) m (.list (.param p)) (.list (.param q)) =
      assign (n + 2) m (.param p) (.param q) := rfl
  have hsecond (m : Bindings) : assign (n + 3) m (.list u) (.list (.param q)) =
      assign (n + 2) m u (.param q) := rfl
  have hp' : Table.get? (m.insert q (.param p)) p = none :=
    (Table.get?_insert_of_ne _ _ hne).trans hp
  rw [assignableAll?, hn, pairwise_cons, hfirst, assign_param_param _ hne hp hq]
  simp only [bind, Except.bind]
  rw [pairwise_cons, hsecond, assign_through _ hne hp' (Table.get?_insert_self _ _ _) hu]
  rfl

theorem assign_list_param_of_bound (n : Nat) (hne : p ≠ q) (hp : m.get? p = some u)
    (hq : m.get? q = some (.list u)) (hu : u.paramNames = []) :
    assign (n + 3) m (.list (.param p)) (.param q) =
      .ok (m.insert q ((Ty.list (.param p)).mostGeneral (.list u))) := by
  have hexact : (Ty.list (.param p)).exact (.param q) = false := rfl
  have hoccurs : m.occurs q ((Ty.list (.param p)).mostGeneral (.list u)) = .ok false := by
    refine Ty.mostGeneral_of (P := fun t => m.occurs q t = .ok false) ?_
      (occurs_of_closed (t := .list u) hu _ _)
    refine occurs_param hne fun t ht => ?_
    rw [hp] at ht
    cases ht
    exact hu
  rw [assign_param]
  simp only [bindParam, hexact, hq, not_exact_list_param hu, assign_list_param n hp hu,
    Bool.false_eq_true, if_false, bind, Except.bind, hoccurs]
  rfl

theorem assignableAll_choose (hne : p ≠ q) (hp : m.get? p = some u) (hq : m.get? q = none)
    (hu : u.paramNames = []) :
    m.assignableAll? [.bool, .list u, .list (.param p)] [.bool, .param q, .param q] =
      some ((m.insert q (.list u)).insert q ((Ty.list (.param p)).mostGeneral (.list u))) := by
  obtain ⟨n, hn⟩ := m.exists_fuel 3 (Ty.sizeAll [.bool, .list u, .list (.param p)] +
    Ty.sizeAll [.bool, .param q, .param q]) (by simp [Ty.sizeAll, Ty.size])
  have hfirst : assign (n + 3) m .bool .bool = .ok m := rfl
  have hp' : Table.get? (m.insert q (.list u)) p = some u :=
    (Table.get?_insert_of_ne _ _ hne).trans hp
  rw [assignableAll?, hn, pairwise_cons, hfirst]
  simp only [bind, Except.bind]
  rw [pairwise_cons, assign_of_unbound (a := .list u) _ hu hq]
  simp only [bind, Except.bind]
  rw [pairwise_cons, assign_list_param_of_bound n hne hp' (Table.get?_insert_self _ _ _) hu]
  rfl

theorem Acyclic.substitute_of_bound (hm : m.Acyclic) (hp : m.get? p = some u)
    (hu : u.paramNames = []) : m.substitute (.param p) false = u := by
  rw [hm.substitute_param, hp]
  exact Ty.replace_of_closed hu _

end Accumulating

end Bindings

section Known

/-- The type variable `k` has been made and has this binding, and none of those that are still to
be made is bound. -/
structure Inference.Accumulates (k : Nat) (bound : Option Ty) (i : Inference) : Prop where
  made : k < i.nextVar
  get? : i.bindings.bindings.get? (varName k) = bound
  unbound : i.Unbound

variable {k : Nat} {u : Ty}

theorem Assigns.accumulator (hu : u.paramNames = []) :
    Assigns (Inference.Accumulates k (some u)) (.list (.param (varName k))) (.list u)
      (Inference.Accumulates k (some u)) := by
  intro i hi
  obtain ⟨n, hn⟩ := i.bindings.bindings.exists_fuel 2
    ((Ty.list (.param (varName k))).size + (Ty.list u).size) (by simp [Ty.size])
  have h : i.bindings.bindings.assignable? (.list (.param (varName k))) (.list u) =
      some i.bindings.bindings := by
    rw [Bindings.assignable?, hn, Bindings.assign_list_param n hi.get? hu]
    rfl
  exact ⟨i.bindings, Option.pmap_eq_some_iff.2 ⟨_, _, h, rfl⟩, hi⟩

end Known

theorem Overload.rename_congr {o : Overload} {ρ ρ' : String → String}
    (h : ∀ p, o.Uses p → ρ p = ρ' p) : o.rename ρ = o.rename ρ' := by
  refine Prod.ext ?_ (List.map_congr_left fun t ht => ?_)
  · exact Ty.replace_congr _ fun p hp => congrArg Ty.param (h p (.inr (.inr hp)))
  · exact Ty.replace_congr t fun p hp =>
      congrArg Ty.param (h p (.inr (.inl (Ty.mem_paramNamesAll.2 ⟨t, ht, hp⟩))))

theorem Bindings.assign_list_of_isFirm (n : Nat) (m : Bindings) (a : Ty) {t : Ty}
    (h : t.isFirm = true) : assign (n + 1) m (.list a) t = .error .mismatch := by
  cases t with
  | scalar c => cases c <;> first | rfl | cases h
  | message name | wrapper inner => rfl
  | _ => cases h

def Overload.refusesLists (o : Overload) : Bool :=
  o.typeParamNames.isEmpty && o.params.head?.any Ty.isFirm

theorem Overload.assignableAll_of_refusesLists {o : Overload} (h : o.refusesLists = true)
    (m : Substitution) (a : Ty) (as : List Ty) :
    m.assignableAll? (.list a :: as) o.params = none := by
  refine Option.pmap_eq_none_iff.2 ?_
  have hhead := (Bool.and_eq_true_iff.1 h).2
  cases hparams : o.params with
  | nil =>
    rw [hparams] at hhead
    cases hhead
  | cons t ts =>
    rw [hparams] at hhead
    obtain ⟨n, hn⟩ := m.bindings.exists_fuel 1 (Ty.sizeAll (.list a :: as) + Ty.sizeAll (t :: ts))
      (by simp [Ty.sizeAll, Ty.size]; omega)
    rw [Bindings.assignableAll?, hn, Bindings.pairwise_cons,
      Bindings.assign_list_of_isFirm _ _ _ hhead]
    rfl

namespace Session

section Overloads

variable (s : Session) {o : Overload}

theorem instantiate_of_monomorphic (h : o.typeParamNames = []) :
    s.instantiate o = ((o.result, o.params), s) := by
  have hempty (t : Ty) : (∅ : Bindings).substitute t false = t := Ty.replace_param t
  simp [instantiate, freshVars, h, hempty]

theorem instantiate_of_single {p : String} (hp : Unnumbered p) (h : o.typeParamNames = [p]) :
    s.instantiate o =
      (o.rename fun _ => varName s.nextVar, { s with nextVar := s.nextVar + 1 }) := by
  have huses {q : String} (hq : o.Uses q) : q = p := by
    rw [← Overload.mem_typeParamNames, h] at hq
    exact List.mem_singleton.1 hq
  obtain ⟨hnext, index, -, hlt, heq⟩ := s.instantiate_spec (o := o) fun q hq => huses hq ▸ hp
  refine Prod.ext (heq.trans (Overload.rename_congr fun q hq => ?_)) (by rw [hnext, h]; rfl)
  have hindex := hlt q hq
  rw [h, List.length_singleton, Nat.lt_one_iff] at hindex
  rw [hindex, Nat.add_zero]

theorem matchOverloads_of_taken (function : String) {p : String} (hp : Unnumbered p)
    (h : o.typeParamNames = [p]) {args : List Ty} {m : Substitution}
    (hm : s.bindings.assignableAll? args (o.rename fun _ => varName s.nextVar).2 = some m)
    (os : List Overload) :
    matchOverloads function args (o :: os) none s =
      matchOverloads function args os
        (some
          { type := m.substitute (o.rename fun _ => varName s.nextVar).1 false
            reference := { name := function, overloads := [o.id] } })
        { s with bindings := m, nextVar := s.nextVar + 1 } := by
  simp only [matchOverloads, s.instantiate_of_single hp h, hm]

theorem matchOverloads_of_refusesLists (function : String) {os : List Overload}
    (hos : ∀ o ∈ os, o.refusesLists = true) (a : Ty) (as : List Ty) (found : Option Resolved) :
    matchOverloads function (.list a :: as) os found s = (found, s) := by
  induction os with
  | nil => rfl
  | cons o os ih =>
    obtain ⟨ho, hos⟩ := List.forall_mem_cons.1 hos
    have hmonomorphic : o.typeParamNames = [] :=
      List.isEmpty_iff.1 (Bool.and_eq_true_iff.1 ho).1
    simp only [matchOverloads, s.instantiate_of_monomorphic hmonomorphic,
      Overload.assignableAll_of_refusesLists ho]
    exact ih hos

end Overloads

end Session

section Standard

open Session

def Standard.append : Overload := function "add_list" [listOfT, listOfT] listOfT ["T"]

def Standard.choose : Overload := function "conditional" [.bool, t, t] t ["T"]

variable {env : Environment} {f : Function} {k : Nat} {u : Ty}

theorem unnumbered_T : Unnumbered "T" := unnumbered_of_head? (by decide)

theorem Standard.typeParamNames_append : append.typeParamNames = ["T"] := by decide +kernel

theorem Standard.typeParamNames_choose : choose.typeParamNames = ["T"] := by decide +kernel

theorem Inference.Accumulates.next {i : Inference} {bound bound' : Option Ty}
    (h : i.Accumulates k bound) {m : Substitution}
    (hget : m.bindings.get? (varName k) = bound')
    (hrest : ∀ p, p ≠ varName k → p ≠ varName i.nextVar →
      m.bindings.get? p = i.bindings.bindings.get? p) :
    Inference.Accumulates k bound' ⟨m, i.nextVar + 1⟩ where
  made := Nat.lt_succ_of_lt h.made
  get? := hget
  unbound j hj := by
    have hj : i.nextVar < j := hj
    have hk := h.made
    rw [hrest, h.unbound j (Nat.le_of_lt hj)]
    · intro heq
      have := varName_injective heq
      omega
    · intro heq
      have := varName_injective heq
      omega

theorem Resolves.append (hlogical : Operator.isLogical f.name = false) {os os' : List Overload}
    (heligible : env.eligible f false = os ++ Standard.append :: os')
    (hos : ∀ o ∈ os ++ os', o.refusesLists = true) (hu : u.paramNames = []) :
    Resolves env f [.list (.param (varName k)), .list u] (Inference.Accumulates k none) (.list u)
      (Inference.Accumulates k (some u)) := by
  intro s node args hargs hs
  obtain ⟨hos, hos'⟩ := List.forall_mem_append.1 hos
  have hne : varName k ≠ varName s.nextVar := fun h =>
    Nat.ne_of_lt hs.made (varName_injective h)
  obtain ⟨m, hm, hbindings⟩ := Option.map_eq_some_iff.1
    ((s.bindings.bindings_assignableAll? _ _).trans
      (Bindings.assignableAll_append hne hs.get? (hs.unbound _ (Nat.le_refl _)) hu))
  have hk : m.bindings.get? (varName k) = some u := by
    rw [hbindings, Table.get?_insert_of_ne _ _ hne, Table.get?_insert_self]
  have hnext : m.bindings.get? (varName s.nextVar) = some (u.mostGeneral (.param (varName k))) := by
    rw [hbindings, Table.get?_insert_self]
  have htype : m.bindings.substitute (.param (varName s.nextVar)) false = u := by
    rw [m.acyclic.substitute_param, hnext]
    exact Ty.mostGeneral_of (P := fun t => m.bindings.substitute t false = u)
      (Ty.replace_of_closed hu _) (m.acyclic.substitute_of_bound hk hu)
  let r : Resolved :=
    { type := m.substitute (.list (.param (varName s.nextVar))) false
      reference := { name := f.name, overloads := [Standard.append.id] } }
  refine ⟨r, m, s.nextVar + 1, resolveOverload_of_some hlogical node ?_, congrArg Ty.list htype,
    hs.next hk fun p hp hq => ?_⟩
  · rw [hargs, heligible, matchOverloads_append, s.matchOverloads_of_refusesLists _ hos,
      s.matchOverloads_of_taken _ unnumbered_T Standard.typeParamNames_append hm,
      matchOverloads_of_refusesLists _ _ hos']
    rfl
  · have hq : p ≠ varName s.nextVar := hq
    rw [hbindings, Table.get?_insert_of_ne _ _ hq, Table.get?_insert_of_ne _ _ hp,
      Table.get?_insert_of_ne _ _ hq]
    rfl

theorem Resolves.choose (hlogical : Operator.isLogical f.name = false)
    (heligible : env.eligible f false = [Standard.choose]) (hu : u.paramNames = []) :
    Resolves env f [.bool, .list u, .list (.param (varName k))]
      (Inference.Accumulates k (some u)) (.list u) (Inference.Accumulates k (some u)) := by
  intro s node args hargs hs
  have hne : varName k ≠ varName s.nextVar := fun h =>
    Nat.ne_of_lt hs.made (varName_injective h)
  obtain ⟨m, hm, hbindings⟩ := Option.map_eq_some_iff.1
    ((s.bindings.bindings_assignableAll? _ _).trans
      (Bindings.assignableAll_choose hne hs.get? (hs.unbound _ (Nat.le_refl _)) hu))
  have hk : m.bindings.get? (varName k) = some u := by
    rw [hbindings, Table.get?_insert_of_ne _ _ hne, Table.get?_insert_of_ne _ _ hne]
    exact hs.get?
  have hnext : m.bindings.get? (varName s.nextVar) =
      some ((Ty.list (.param (varName k))).mostGeneral (.list u)) := by
    rw [hbindings, Table.get?_insert_self]
  have htype : m.bindings.substitute (.param (varName s.nextVar)) false = .list u := by
    rw [m.acyclic.substitute_param, hnext]
    exact Ty.mostGeneral_of (P := fun t => m.bindings.substitute t false = .list u)
      (congrArg Ty.list (m.acyclic.substitute_of_bound hk hu))
      (Ty.replace_of_closed (t := .list u) hu _)
  let r : Resolved :=
    { type := m.substitute (.param (varName s.nextVar)) false
      reference := { name := f.name, overloads := [Standard.choose.id] } }
  refine ⟨r, m, s.nextVar + 1, resolveOverload_of_some hlogical node ?_, htype,
    hs.next hk fun p _ hq => ?_⟩
  · rw [hargs, heligible,
      s.matchOverloads_of_taken _ unnumbered_T Standard.typeParamNames_choose hm]
    rfl
  · have hq : p ≠ varName s.nextVar := hq
    rw [hbindings, Table.get?_insert_of_ne _ _ hq, Table.get?_insert_of_ne _ _ hq]
    rfl

end Standard

end CelTyping
