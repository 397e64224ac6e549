import CelTyping.Proofs.Supply

/-! Where error types come from. A mistake is reported and its diagnostic put into a type, and
from there it goes wherever types go: into the tables, the scopes of loop variables, bindings,
joined types and results of calls. The invariant of a pass is that whatever it holds on to
carries reported mistakes only, provided that nothing declared carries one to begin with. -/
namespace CelTyping

namespace Bindings

def Explained (ds : List Diagnostic) (m : Bindings) : Prop := Table.All (Ty.errors · ⊆ ds) m

end Bindings

def Overload.ErrorFree (o : Overload) : Prop :=
  Ty.errorsAll o.params = [] ∧ o.result.errors = []

instance : DecidablePred Overload.ErrorFree := fun _ => inferInstanceAs (Decidable (_ ∧ _))

structure Environment.ErrorFree (env : Environment) : Prop where
  globals : env.globals.All (·.type.errors = [])
  functions : env.functions.All fun f => ∀ o ∈ f.overloads, o.ErrorFree
  fields : ∀ name m, env.registry.message? name = some m → m.fields.All (·.errors = [])

namespace Session

def Explains (s : Session) (t : Ty) : Prop := t.errors ⊆ s.diagnostics

/-- Whatever the session holds on to carries reported mistakes only. -/
structure Justified (s : Session) : Prop where
  types : s.types.All s.Explains
  scopes : s.scopes.All (s.Explains ·.type)
  bindings : s.bindings.bindings.Explained s.diagnostics

end Session

def Supply.reported : Supply where
  param _ _ := True
  mistake ds d := d ∈ ds
  param_mono _ h := h
  mistake_mono hsub h := hsub h
  param_fresh _ := trivial
  mistake_reported h := h

namespace Session

section Reported

variable {s : Session} {t : Ty}

theorem explains_of_nil (s : Session) (h : t.errors = []) : s.Explains t := by
  rw [Explains, h]
  exact List.nil_subset _

@[simp] theorem makes_reported : s.Makes .reported t ↔ s.Explains t := by
  simp [Makes, Ty.MadeOf, Supply.reported, Explains, List.subset_def]

@[simp] theorem madeFrom_reported : s.MadeFrom .reported ↔ s.Justified := by
  have hmakes : s.Makes .reported = s.Explains := funext fun _ => propext makes_reported
  constructor
  · intro hs
    refine ⟨hmakes ▸ hs.types, ?_, fun p t ht => makes_reported.1 (hs.bindings p t ht).2⟩
    exact hs.scopes.mono fun _ => makes_reported.1
  · intro hs
    refine ⟨hmakes ▸ hs.types, ?_, fun p t ht => ⟨trivial, makes_reported.2 (hs.bindings p t ht)⟩⟩
    exact hs.scopes.mono fun _ => makes_reported.2

theorem Justified.explains_substitute (hs : s.Justified) (ht : s.Explains t) (close : Bool) :
    s.Explains (s.bindings.substitute t close) :=
  makes_reported.1 ((madeFrom_reported.2 hs).makes_substitute (makes_reported.2 ht) close)

theorem justified_empty : Justified {} := madeFrom_reported.1 (madeFrom_empty _)

end Reported

end Session

section Declared

theorem Overload.ErrorFree.madeFrom {o : Overload} (ho : o.ErrorFree) : o.MadeFrom .reported := by
  -- Fresh type variables carry nothing, so an instance carries what its signature does.
  intro s
  have hfresh : Table.All (Ty.MadeOf (fun _ => True) (fun _ => False))
      (s.freshVars o.typeParamNames).1 := by
    unfold Session.freshVars
    refine List.foldlRecOn (motive := fun (p : Bindings × Session) =>
      Table.All (Ty.MadeOf (fun _ => True) (fun _ => False)) p.1) o.typeParamNames _ .empty ?_
    intro p hp name _
    exact hp.insert (Ty.madeOf_param.2 trivial)
  have hinstance (t : Ty) (ht : t.errors = []) :
      (s.instantiate o).2.Makes .reported
        ((s.freshVars o.typeParamNames).1.substitute t false) := by
    have hclean : t.MadeOf (fun _ => True) (fun _ => False) := by simp [Ty.MadeOf, ht]
    exact (Bindings.madeOf_substitute hfresh hclean false).mono (fun _ h => h) (fun _ h => h.elim)
  obtain ⟨hparams, hresult⟩ := ho
  refine ⟨hinstance o.result hresult, fun t ht => ?_⟩
  obtain ⟨u, hu, rfl⟩ := List.mem_map.1 ht
  exact hinstance u (Ty.errorsAll_eq_nil_iff.1 hparams u hu)

theorem Environment.ErrorFree.madeFrom {env : Environment} (henv : env.ErrorFree) :
    env.MadeFrom .reported where
  globals := henv.globals.mono fun _ hv s => Session.makes_reported.2 (s.explains_of_nil hv)
  functions := henv.functions.mono fun _ hf o ho => (hf o ho).madeFrom
  fields name m hm :=
    (henv.fields name m hm).mono fun _ ht s => Session.makes_reported.2 (s.explains_of_nil ht)

theorem Environment.errorFree_standard : standard.ErrorFree where
  globals := .ofList (by decide +kernel)
  functions := all_functions_standard (by decide +kernel)
  fields _ _ := Catalogue.all_fields_wellKnown (by decide +kernel)

end Declared

theorem Descends.justified {env : Environment} (henv : env.ErrorFree) {e e' : Expr}
    {s s' : Session} (h : Descends env e s e' s') (hs : s.Justified) : s'.Justified :=
  Session.madeFrom_reported.1 (h.madeFrom henv.madeFrom (Session.madeFrom_reported.2 hs))

/-- Error types carry reported mistakes, so there are none if nothing is reported. -/
theorem check_errors_reported {env : Environment} {e : Expr} {c : Checked}
    (henv : env.ErrorFree) (h : check env e = .ok c) :
    (∀ id t, c.types.get? id = some t → t.errors ⊆ c.diagnostics) ∧
      (c.diagnostics = [] → ∀ id t, c.types.get? id = some t → t.errors = []) := by
  obtain ⟨e', s, hd, rfl⟩ := check_iff.1 h
  have hs := hd.justified henv Session.justified_empty
  have hall : ∀ id t, (s.conclude e').types.get? id = some t → t.errors ⊆ s.diagnostics := by
    intro id t ht
    rw [s.get?_conclude] at ht
    obtain ⟨u, hu, rfl⟩ := Option.map_eq_some_iff.1 ht
    exact hs.explains_substitute (hs.types id u hu) true
  refine ⟨hall, fun hok id t ht => List.subset_nil.1 ?_⟩
  rw [← show s.diagnostics = [] from hok]
  exact hall id t ht

def strayLoop : Expr :=
  .comprehension 8 "x" "" (.list 3 [⟨.select 2 (.literal 1 (.bool true)) "f" false, false⟩]) "r"
    (.literal 4 (.bool true)) (.literal 5 (.bool true)) (.ident 6 "x") (.ident 7 "r")

theorem check_errors_reported_strayLoop :
    Environment.standard.ErrorFree ∧ ∃ c, check .standard strayLoop = .ok c ∧
      (c.types.get? 6).map (·.errors.map Diagnostic.node) = some [2] ∧
        ∀ id t, c.types.get? id = some t → t.errors ⊆ c.diagnostics := by
  obtain ⟨c, hc, herrors⟩ : ∃ c, check .standard strayLoop = .ok c ∧
      (c.types.get? 6).map (·.errors.map Diagnostic.node) = some [2] := by decide +kernel
  exact ⟨Environment.errorFree_standard, c, hc, herrors,
    (check_errors_reported Environment.errorFree_standard hc).1⟩

end CelTyping
