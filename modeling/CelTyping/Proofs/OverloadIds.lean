import CelTyping.Proofs.RootNames
import Mathlib.Data.List.Induction
import Mathlib.Data.List.Nodup

/-! Ids of overloads. Adding overloads to a function that is declared keeps their ids apart: one
way of adding puts an overload in the place of the one that has its id, the other passes it over.
In the second way a new function is treated like one that is declared and has no overloads yet.
In the first way it is taken as it is given, so that it has to keep its ids apart by itself. -/
namespace CelTyping

def Function.DistinctIds (f : Function) : Prop := (f.overloads.map Overload.id).Nodup

instance (f : Function) : Decidable f.DistinctIds :=
  inferInstanceAs (Decidable (f.overloads.map Overload.id).Nodup)

section Overloads

variable {overloads : List Overload} {f : Function}

theorem nodup_concat_id {o : Overload} (h : (overloads.map Overload.id).Nodup)
    (hnew : o.id ∉ overloads.map Overload.id) : ((overloads ++ [o]).map Overload.id).Nodup := by
  rw [List.map_append, List.map_singleton]
  exact List.nodup_append'.2
    ⟨h, List.nodup_singleton _, List.disjoint_singleton.2 hnew⟩

theorem nodup_replaceOverload (h : (overloads.map Overload.id).Nodup) (o : Overload) :
    ((Environment.replaceOverload overloads o).map Overload.id).Nodup := by
  apply nodup_concat_id
  · exact h.sublist (List.filter_sublist.map _)
  · intro hmem
    obtain ⟨other, hother, hid⟩ := List.mem_map.1 hmem
    have hne := (List.mem_filter.1 hother).2
    simp [hid] at hne

theorem nodup_replaceOverloads (os : List Overload) (h : (overloads.map Overload.id).Nodup) :
    ((os.foldl Environment.replaceOverload overloads).map Overload.id).Nodup := by
  induction os generalizing overloads with
  | nil => exact h
  | cons o os ih => exact ih (nodup_replaceOverload h o)

theorem Function.overload?_eq_none_iff {id : String} :
    f.overload? id = none ↔ id ∉ f.overloads.map Overload.id := by
  simp [Function.overload?]

theorem Function.DistinctIds.addOverloads (name : String) (os : List Overload) :
    ∀ {f : Function}, f.DistinctIds → (Environment.addOverloads name f os).1.DistinctIds := by
  induction os with
  | nil => exact id
  | cons o os ih =>
    intro f h
    unfold Environment.addOverloads
    cases hprior : f.overload? o.id with
    | some prior => exact ih h
    | none => exact ih (nodup_concat_id h (Function.overload?_eq_none_iff.1 hprior))

end Overloads

namespace Environment

def DistinctIds (env : Environment) : Prop := env.functions.All Function.DistinctIds

theorem distinctIds_empty : empty.DistinctIds := Table.All.empty

theorem distinctIds_standard : standard.DistinctIds := all_functions_standard (by decide +kernel)

section Declaring

variable {env : Environment} {functions : Table String Function}

theorem distinctIds_addFunctionsTo (fs : List Function) :
    ∀ {functions : Table String Function}, functions.All Function.DistinctIds →
      (addFunctionsTo functions fs).1.All Function.DistinctIds := by
  induction fs with
  | nil => exact id
  | cons f fs ih =>
    intro functions h
    have hexisting : ((functions.get? f.name).getD { name := f.name }).DistinctIds := by
      cases hf : functions.get? f.name with
      | none => exact List.nodup_nil
      | some existing => exact h f.name existing hf
    exact ih (h.insert (hexisting.addOverloads f.name f.overloads))

theorem distinctIds_withFunction_iff (h : env.DistinctIds) (f : Function) :
    (env.withFunction f).DistinctIds ↔ (env.functions.get? f.name = none → f.DistinctIds) := by
  unfold withFunction
  cases hf : env.functions.get? f.name with
  | none =>
    -- the declaration is taken as it is
    refine ⟨fun h' _ => h' f.name f (Table.get?_insert_self _ _ _), fun hdistinct => ?_⟩
    exact h.insert (hdistinct rfl)
  | some existing =>
    have hexisting : existing.DistinctIds := h f.name existing hf
    exact ⟨fun _ hnone => (nomatch hnone),
      fun _ => h.insert (nodup_replaceOverloads f.overloads hexisting)⟩

end Declaring

inductive Change where
  | withContainer (name : String)
  | withAlias (short target : String)
  | withRegistry (registry : Registry)
  | withVariable (name : String) (type : Ty)
  | withFunction (f : Function)
  | withHomogeneousLiterals
  | withCrossTypeComparisons (enabled : Bool)
  | withMaxDepth (depth : Nat)
  | addVariables (vs : List Variable)
  | addFunctions (fs : List Function)

/-- The environment after the change. An alias that is refused changes nothing. -/
def apply (env : Environment) : Change → Environment
  | .withContainer name => env.withContainer name
  | .withAlias short target => (env.withAlias short target).toOption.getD env
  | .withRegistry registry => env.withRegistry registry
  | .withVariable name type => env.withVariable name type
  | .withFunction f => env.withFunction f
  | .withHomogeneousLiterals => env.withHomogeneousLiterals
  | .withCrossTypeComparisons enabled => env.withCrossTypeComparisons enabled
  | .withMaxDepth depth => env.withMaxDepth depth
  | .addVariables vs => (env.addVariables vs).1
  | .addFunctions fs => (env.addFunctions fs).1

def build (env : Environment) (changes : List Change) : Environment := changes.foldl apply env

section Building

variable {env : Environment}

@[simp] theorem build_concat (env : Environment) (changes : List Change) (change : Change) :
    env.build (changes ++ [change]) = (env.build changes).apply change := by
  simp [build]

@[simp] theorem functions_withAlias (env : Environment) (short target : String) :
    ((env.withAlias short target).toOption.getD env).functions = env.functions := by
  unfold withAlias
  cases env.container.addAlias short target <;> rfl

theorem distinctIds_apply (h : env.DistinctIds) {change : Change}
    (hnew : ∀ f, change = .withFunction f → env.functions.get? f.name = none → f.DistinctIds) :
    (env.apply change).DistinctIds := by
  cases change with
  | withAlias short target =>
    rw [apply, DistinctIds, functions_withAlias]
    exact h
  | withFunction f => exact (distinctIds_withFunction_iff h f).2 (hnew f rfl)
  | addFunctions fs => exact distinctIds_addFunctionsTo fs h
  | _ => exact h

/-- Along a run from distinct ids they stay distinct exactly if each function that is new when it
is declared has distinct ids. -/
theorem distinctIds_build_iff (h : env.DistinctIds) (changes : List Change) :
    (∀ past, past <+: changes → (env.build past).DistinctIds) ↔
      ∀ past f, past ++ [.withFunction f] <+: changes →
        (env.build past).functions.get? f.name = none → f.DistinctIds := by
  constructor
  · intro hall past f hpast
    have hbefore := hall past ((List.prefix_append _ _).trans hpast)
    have hafter := hall _ hpast
    rw [build_concat] at hafter
    exact (distinctIds_withFunction_iff hbefore f).1 hafter
  · intro hnew past
    induction past using List.reverseRecOn with
    | nil => exact fun _ => h
    | append_singleton past change ih =>
      intro hpast
      rw [build_concat]
      refine distinctIds_apply (ih ((List.prefix_append _ _).trans hpast)) ?_
      rintro f rfl hf
      exact hnew past f hpast hf

end Building

/-- From nothing or from the standard functions on, no function ever has two overloads with one id,
provided that a function has distinct ids itself whenever it is declared for the first time and
not strictly. The proviso cannot be left out for any of them. -/
theorem overload_ids_distinct (start : Environment) (hstart : start = empty ∨ start = standard)
    (changes : List Change) :
    (∀ past, past <+: changes → ∀ name f, (start.build past).functions.get? name = some f →
        (f.overloads.map Overload.id).Nodup) ↔
      ∀ past f, past ++ [.withFunction f] <+: changes →
        (start.build past).functions.get? f.name = none → (f.overloads.map Overload.id).Nodup := by
  have h : start.DistinctIds := by
    obtain rfl | rfl := hstart
    · exact distinctIds_empty
    · exact distinctIds_standard
  exact distinctIds_build_iff h changes

def twice (name : String) : Function where
  name
  overloads :=
    [{ id := "same", params := [], result := .int },
     { id := "same", params := [.int], result := .int }]

/-- The standard functions have `size` among them, and `area` has no overloads when it is new. -/
def repetitions : List Change :=
  [.withFunction (twice "size"), .withFunction { name := "area" }, .withFunction (twice "area"),
   .addFunctions [twice "volume"]]

theorem overload_ids_distinct_repetitions :
    (∀ past, past <+: repetitions → (standard.build past).DistinctIds) ∧
      ¬ ∀ past, past <+: [.withFunction (twice "area")] → (empty.build past).DistinctIds := by
  refine ⟨(overload_ids_distinct standard (.inr rfl) repetitions).2 fun past f hpast hnone => ?_,
    fun h => ?_⟩
  · match past with
    | [] =>
      obtain rfl : f = twice "size" := by simpa [repetitions] using hpast
      have hsome : (standard.functions.get? "size").isSome = true := by decide +kernel
      exact absurd hnone (Option.isSome_iff_ne_none.1 hsome)
    | [_] =>
      obtain ⟨-, rfl⟩ : _ ∧ f = { name := "area" } := by simpa [repetitions] using hpast
      decide
    | [_, _] =>
      obtain ⟨rfl, rfl, rfl⟩ : _ ∧ _ ∧ f = twice "area" := by simpa [repetitions] using hpast
      change (Table.insert _ "area" _).get? "area" = none at hnone
      rw [Table.get?_insert_self] at hnone
      cases hnone
    | [_, _, _] => simp [repetitions] at hpast
    | _ :: _ :: _ :: _ :: _ =>
      have hlength := hpast.length_le
      simp only [repetitions, List.length_append, List.length_cons, List.length_nil] at hlength
      omega
  · have hids := (overload_ids_distinct empty (.inl rfl) _).1 h [] (twice "area")
      List.prefix_rfl rfl
    exact absurd hids (by decide)

/-- In an environment without the function it comes in with both overloads. -/
theorem overload_id_declared_twice :
    ∃ f, (empty.build [.withFunction (twice "area")]).functions.get? "area" = some f ∧
      ¬ (f.overloads.map Overload.id).Nodup :=
  ⟨twice "area", Table.get?_insert_self _ _ _, by decide⟩

end Environment

end CelTyping
