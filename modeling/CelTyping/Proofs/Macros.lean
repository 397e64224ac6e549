import CelTyping.Expr.Build
import CelTyping.Proofs.Accumulators
import CelTyping.Proofs.FreshIds

/-! The standard macros and their types. Each of them expands to a loop, and its rule is the one
for loops, with the types of the parts that the macro adds. The macros that answer with a bool do
so with types without parameters; the others have an accumulator whose type they find out. -/
namespace CelTyping

open Session

section Standard

variable {env : Environment} {f : Function}

/-- The environment has the standard functions and calls them as usual, and names in it stand for
themselves. -/
structure Environment.ExtendsStandard (env : Environment) : Prop where
  functions : env.functions = standard.functions
  container : env.container = {}
  crossTypeComparisons : env.crossTypeComparisons = false

theorem Table.get?_ofFunctions (fs : List Function) (name : String) :
    ∀ t : Table String Function, (fs.map Function.name).Nodup →
      ((fs.map fun f => (f.name, f)).foldl (fun t e => t.insert e.1 e.2) t).get? name =
        (fs.find? (·.name == name)).or (t.get? name) := by
  induction fs with
  | nil => exact fun _ _ => rfl
  | cons f fs ih =>
    intro t hnodup
    obtain ⟨hf, hnodup⟩ := List.nodup_cons.1 hnodup
    rw [List.map_cons, List.foldl_cons, ih _ hnodup]
    by_cases hname : f.name = name
    · have hnone : fs.find? (·.name == name) = none := by
        rw [List.find?_eq_none]
        intro g hg hgname
        exact hf (List.mem_map.2 ⟨g, hg, (beq_iff_eq.1 hgname).trans hname.symm⟩)
      rw [hnone, List.find?_cons_of_pos (by simp [hname]), ← hname, Table.get?_insert_self]
      rfl
    · rw [List.find?_cons_of_neg (by simp [hname]), Table.get?_insert_of_ne _ _ (Ne.symm hname)]

theorem Standard.get?_functions (name : String) :
    Environment.standard.functions.get? name = function? name := by
  have hnodup : (functions.map Function.name).Nodup := by decide +kernel
  exact (Table.get?_ofFunctions functions name ∅ hnodup).trans (Option.or_none ..)

def Standard.overloads (name : String) : List Overload :=
  ((function? name).map (Environment.standard.eligible · false)).getD []

theorem Standard.overloads_add :
    overloads Operator.add =
      (overloads Operator.add).take 5 ++ append :: (overloads Operator.add).drop 6 := rfl

theorem Standard.refusesLists_add :
    ∀ o ∈ (overloads Operator.add).take 5 ++ (overloads Operator.add).drop 6,
      o.refusesLists = true := by decide +kernel

theorem Standard.overloads_conditional : overloads Operator.conditional = [choose] := rfl

namespace Environment.ExtendsStandard

variable (henv : env.ExtendsStandard)
include henv

theorem eligible_eq : env.eligible f false = standard.eligible f false := by
  simp only [eligible, isDisabled, henv.crossTypeComparisons]
  rfl

theorem function (name : String) (hname : Name.isPlain name = true)
    (h : Standard.overloads name ≠ []) :
    ∃ f, env.function? name = some f ∧ f.name = name ∧
      env.eligible f false = Standard.overloads name ∧
      ∀ o ∈ Standard.overloads name, ∀ p, o.Uses p → CelTyping.Unnumbered p := by
  have hlookup : env.function? name = Standard.function? name := by
    rw [function?, henv.functions, henv.container, ← Standard.get?_functions]
    have hroot := rooted_standard.function?_eq name
    rwa [Name.unrooted_of_isPlain hname] at hroot
  cases hf : Standard.function? name with
  | none => simp [Standard.overloads, hf] at h
  | some f =>
    have hoverloads : Standard.overloads name = standard.eligible f false := by
      simp [Standard.overloads, hf]
    have hget : standard.functions.get? name = some f := (Standard.get?_functions name).trans hf
    refine ⟨f, hlookup.trans hf, (rooted_standard.functions name f hget).1,
      henv.eligible_eq.trans hoverloads.symm, fun o ho => ?_⟩
    rw [hoverloads] at ho
    exact unnumbered_standard.functions name f hget o (List.mem_of_mem_filter ho)

end Environment.ExtendsStandard

variable {n : Nat} {scopes : ScopeStack} {P Q : Inference → Prop} {id : NodeId} {args : List Expr}
  {ts : List Ty} {name : String}

/-- One overload of the standard function takes arguments of these types, which have no
parameters, and its result is this scalar. -/
def Standard.takes (name : String) (ts : List Ty) (c : Scalar) : Bool :=
  Name.isPlain name && name != Operator.optionalSelect && !Operator.isLogical name &&
    (Ty.paramNamesAll ts).isEmpty && (fitting ts (overloads name)).map Prod.snd == [.scalar c]

theorem Infers.standardCall (c : Scalar) (henv : env.ExtendsStandard) (hQ : Inference.Lasting Q)
    (htakes : Standard.takes name ts c = true) (hargs : InfersArgs env n scopes P args ts Q) :
    Infers env (n + 1) scopes P (.call id name args) (.scalar c) Q := by
  simp only [Standard.takes, Bool.and_eq_true, bne_iff_ne, Bool.not_eq_true', List.isEmpty_iff,
    beq_iff_eq] at htakes
  obtain ⟨⟨⟨⟨hname, hselect⟩, hlogical⟩, hts⟩, hfitting⟩ := htakes
  have hoverloads : Standard.overloads name ≠ [] := by
    intro h
    rw [h] at hfitting
    cases hfitting
  obtain ⟨f, hf, rfl, heligible, hnames⟩ := henv.function name hname hoverloads
  rw [← heligible] at hfitting hnames
  exact .call hf hselect hargs (.closed hQ hlogical hts hnames hfitting)

theorem Infers.logicalCall (henv : env.ExtendsStandard)
    (hlogical : Operator.isLogical name = true) (hts : ∀ t ∈ ts, t = .bool)
    (hargs : InfersArgs env n scopes P args ts Q) :
    Infers env (n + 1) scopes P (.call id name args) .bool Q := by
  have hname : name = Operator.logicalAnd ∨ name = Operator.logicalOr := by
    simpa [Operator.isLogical] using hlogical
  have hstandard : Name.isPlain name = true ∧ (Standard.overloads name).isEmpty = false ∧
      name ≠ Operator.optionalSelect := by
    rcases hname with rfl | rfl
    · decide +kernel
    · decide +kernel
  obtain ⟨hplain, hoverloads, hselect⟩ := hstandard
  have hoverloads := List.isEmpty_eq_false_iff.1 hoverloads
  obtain ⟨f, hf, rfl, heligible, -⟩ := henv.function name hplain hoverloads
  obtain ⟨o, os, ho⟩ := List.exists_cons_of_ne_nil hoverloads
  exact .call hf hselect hargs (.logical hlogical (heligible.trans ho) hts)

variable {a b c : Expr} {R : Inference → Prop} {k : Nat} {u : Ty}

theorem Infers.append (henv : env.ExtendsStandard) (hu : u.paramNames = [])
    (ha : Infers env n scopes P a (.list (.param (varName k))) Q)
    (hb : Infers env n scopes Q b (.list u) (Inference.Accumulates k none)) :
    Infers env (n + 1) scopes P (.call id Operator.add [a, b]) (.list u)
      (Inference.Accumulates k (some u)) := by
  obtain ⟨f, hf, hname, heligible, -⟩ :=
    henv.function Operator.add (by decide +kernel) (by decide +kernel)
  have hlogical : Operator.isLogical f.name = false := by
    rw [hname]
    decide
  exact .call hf (by decide) (.cons ha (.cons hb .nil))
    (.append hlogical (heligible.trans Standard.overloads_add) Standard.refusesLists_add hu)

theorem Infers.choose (henv : env.ExtendsStandard) (hu : u.paramNames = [])
    (ha : Infers env n scopes P a .bool Q) (hb : Infers env n scopes Q b (.list u) R)
    (hc : Infers env n scopes R c (.list (.param (varName k)))
      (Inference.Accumulates k (some u))) :
    Infers env (n + 1) scopes P (.call id Operator.conditional [a, b, c]) (.list u)
      (Inference.Accumulates k (some u)) := by
  obtain ⟨f, hf, hname, heligible, -⟩ :=
    henv.function Operator.conditional (by decide +kernel) (by decide +kernel)
  have hlogical : Operator.isLogical f.name = false := by
    rw [hname]
    decide
  exact .call hf (by decide) (.cons ha (.cons hb (.cons hc .nil)))
    (.choose hlogical (heligible.trans Standard.overloads_conditional) hu)

end Standard

section Names

variable {env : Environment} (henv : env.ExtendsStandard) {scopes : ScopeStack} {name : String}
  {x : Variable}
include henv

namespace Environment.ExtendsStandard

theorem variableIn?_eq (hname : Name.rooted? name = none) :
    env.variableIn? scopes name = env.meaning? scopes name := by
  have hcandidates : env.container.candidates name = [name] := by
    have h := rooted_standard.candidates_eq name
    rw [Name.unrooted_of_rooted? (Option.isNone_iff_eq_none.2 hname)] at h
    rw [henv.container]
    exact h
  rw [variableIn?, hcandidates, List.findSome?_singleton]

theorem variableIn?_of_find? (hname : Name.rooted? name = none) (h : scopes.find? name = some x) :
    env.variableIn? scopes name = some x := by
  simp [henv.variableIn?_eq hname, meaning?, h]

theorem variableIn?_of_global (hname : Name.rooted? name = none)
    (hscopes : scopes.find? name = none) (h : env.globals.get? name = some x) :
    env.variableIn? scopes name = some x := by
  simp [henv.variableIn?_eq hname, meaning?, hscopes, h]

end Environment.ExtendsStandard

def ScopeStack.inLoop (scopes : ScopeStack) (a : Ty) (v : String) (u : Ty) : ScopeStack :=
  (scopes.enter { name := Build.accumulator, type := a }).enter { name := v, type := u }

variable {n : Nat} {P : Inference → Prop} {id : NodeId} {a u : Ty} {v : String}

theorem Infers.accumulator (hv : v ≠ Build.accumulator) :
    Infers env (n + 1) (scopes.inLoop a v u) P (.ident id Build.accumulator) a P := by
  refine .ident (v := { name := Build.accumulator, type := a })
    (henv.variableIn?_of_find? (by decide +kernel) ?_)
  rw [ScopeStack.inLoop, ScopeStack.find?_enter_of_ne _ (Ne.symm hv)]
  exact ScopeStack.find?_enter_self _ _

theorem Infers.outcome :
    Infers env (n + 1) (scopes.enter { name := Build.accumulator, type := a }) P
      (.ident id Build.accumulator) a P :=
  .ident (v := { name := Build.accumulator, type := a })
    (henv.variableIn?_of_find? (by decide +kernel) (ScopeStack.find?_enter_self _ _))

theorem Infers.loopVariable (hv : Name.rooted? v = none) :
    Infers env (n + 1) (scopes.inLoop a v u) P (.ident id v) u P :=
  .ident (v := { name := v, type := u })
    (henv.variableIn?_of_find? hv (ScopeStack.find?_enter_self _ _))

end Names

def Build.tree (build : Build Expr) (first : NodeId) : Expr := (StateT.run build first).1

section Expansions

variable {env : Environment} (henv : env.ExtendsStandard) {n : Nat} {scopes : ScopeStack}
  {P : Inference → Prop} {range body : Expr} {v : String} {u : Ty} (hv : v ≠ "")
  (hv' : v ≠ Build.accumulator) (hu : u.paramNames = []) (first : NodeId)
include henv hv hv' hu

theorem Infers.all (hP : Inference.Lasting P)
    (hrange : Infers env (n + 2) scopes P range (.list u) P)
    (hbody : Infers env (n + 1) (scopes.inLoop .bool v u) P body .bool P) :
    Infers env (n + 3) scopes P ((Build.all range v body).tree first) .bool P :=
  .loop hv (by decide) hu hrange (.literal (.bool true))
    (.standardCall .bool henv hP (by decide +kernel) (.cons (.accumulator henv hv') .nil))
    (.logicalCall henv (by decide) (by decide +kernel)
      (.cons (.accumulator henv hv') (.cons hbody .nil)))
    .scalar (.outcome henv) (fun _ _ => rfl)

theorem Infers.any (hP : Inference.Lasting P)
    (hrange : Infers env (n + 3) scopes P range (.list u) P)
    (hbody : Infers env (n + 2) (scopes.inLoop .bool v u) P body .bool P) :
    Infers env (n + 4) scopes P ((Build.any range v body).tree first) .bool P :=
  .loop hv (by decide) hu hrange (.literal (.bool false))
    (.standardCall .bool henv hP (by decide +kernel)
      (.cons
        (.standardCall .bool henv hP (by decide +kernel) (.cons (.accumulator henv hv') .nil))
        .nil))
    (.logicalCall henv (by decide) (by decide +kernel)
      (.cons (.accumulator henv hv') (.cons hbody .nil)))
    .scalar (.outcome henv) (fun _ _ => rfl)

theorem Infers.exactlyOne (hP : Inference.Lasting P)
    (hrange : Infers env (n + 3) scopes P range (.list u) P)
    (hbody : Infers env (n + 2) (scopes.inLoop .int v u) P body .bool P) :
    Infers env (n + 4) scopes P ((Build.exactlyOne range v body).tree first) .bool P :=
  .loop hv (by decide) hu hrange (.literal (.int 0)) (.literal (.bool true))
    (.standardCall .int henv hP (by decide +kernel)
      (.cons hbody
        (.cons
          (.standardCall .int henv hP (by decide +kernel)
            (.cons (.accumulator henv hv') (.cons (.literal (.int 1)) .nil)))
          (.cons (.accumulator henv hv') .nil))))
    .scalar
    (.standardCall .bool henv hP (by decide +kernel)
      (.cons (.outcome henv) (.cons (.literal (.int 1)) .nil)))
    (fun _ _ => rfl)

structure Inference.Starts (k : Nat) (i : Inference) : Prop where
  nextVar : i.nextVar = k
  unbound : i.Unbound

omit henv hv hv' hu in
theorem Infers.emptyAccumulator {k : Nat} {id : NodeId} :
    Infers env (n + 1) scopes (Inference.Starts k) (.list id []) (.list (.param (varName k)))
      (Inference.Accumulates k none) :=
  .emptyList fun _ hi => ⟨hi.nextVar, Nat.lt_succ_self k, hi.unbound k (Nat.le_of_eq hi.nextVar),
    fun j hj => hi.unbound j (hi.nextVar ▸ Nat.le_of_succ_le hj)⟩

theorem Infers.mapEach {k : Nat} {w : Ty} (hw : w.paramNames = [])
    (hrange : Infers env (n + 3) scopes P range (.list u) (Inference.Starts k))
    (hbody : Infers env (n + 1) (scopes.inLoop (.list (.param (varName k))) v u)
      (Inference.Accumulates k none) body w (Inference.Accumulates k none)) :
    Infers env (n + 4) scopes P ((Build.mapEach range v body).tree first) (.list w)
      (Inference.Accumulates k (some w)) :=
  .loop hv (by decide) hu hrange .emptyAccumulator (.literal (.bool true))
    (.append henv hw (.accumulator henv hv') (.singleton hbody))
    (.accumulator hw) (.outcome henv)
    (fun i hi => congrArg Ty.list (i.bindings.acyclic.substitute_of_bound hi.get? hw))

theorem Infers.filter {k : Nat} (hname : Name.rooted? v = none)
    (hrange : Infers env (n + 4) scopes P range (.list u) (Inference.Starts k))
    (hbody : Infers env (n + 3) (scopes.inLoop (.list (.param (varName k))) v u)
      (Inference.Accumulates k none) body .bool (Inference.Accumulates k none)) :
    Infers env (n + 5) scopes P ((Build.filter range v body).tree first) (.list u)
      (Inference.Accumulates k (some u)) :=
  .loop hv (by decide) hu hrange .emptyAccumulator (.literal (.bool true))
    (.choose henv hu hbody
      (.append henv hu (.accumulator henv hv') (.singleton (.loopVariable henv hname)))
      (.accumulator henv hv'))
    (.accumulator hu) (.outcome henv)
    (fun i hi => congrArg Ty.list (i.bindings.acyclic.substitute_of_bound hi.get? hu))

end Expansions

section Ids

variable {i j first next : NodeId}

theorem Expr.ids_sublist_allIds (e : Expr) : e.ids.Sublist e.allIds := by
  rw [ids, List.map_eq_flatMap, allIds]
  exact .flatMap_right _ fun n _ => List.singleton_sublist.2 List.mem_cons_self

theorem wellNumbered_idents (x y : String) (hij : i ≠ j) (hi : i < next) (hj : j < next) :
    WellNumbered (min i j) ([.ident j y, .ident i x] ++ []) next := by
  have hids : ([Expr.ident j y, Expr.ident i x] ++ []).flatMap Expr.allIds = [j, i] := rfl
  refine ⟨Int.le_trans (Int.min_le_left i j) (Int.le_of_lt hi), ?_, ?_, ?_⟩
  · rw [hids]
    exact List.nodup_cons.2 ⟨fun h => hij (List.mem_singleton.1 h).symm, List.nodup_singleton i⟩
  · rw [hids]
    intro k hk
    rcases List.mem_pair.1 hk with rfl | rfl
    · exact ⟨Int.min_le_right _ _, hj⟩
    · exact ⟨Int.min_le_left _ _, hi⟩
  · simp [Expr.nodes, Expr.descendants, Expr.idsBelow, Expr.partIds]

theorem Build.Uses.nodup_ids {used : List Expr} {build : Build Expr} (h : Uses used build)
    (hw : WellNumbered first (used ++ []) next) : (build.tree next).ids.Nodup := by
  have hnodup := (h first [] next hw).nodup
  rw [List.flatMap_singleton] at hnodup
  exact hnodup.sublist (Expr.ids_sublist_allIds _)

end Ids

section Typed

/-- The macros over a list `x` of any type without parameters, with a bool `b`. The loop variable
may have the name of the list; it may not have that of the accumulator or of the bool. The range
and the body have got their ids before the macro is expanded. -/
theorem macros_typed {t : Ty} {x v b : String} {i j n : NodeId} (ht : t.hasParams = false)
    (hxb : x ≠ b) (hx : Name.rooted? x = none) (hb : Name.rooted? b = none)
    (hb' : b ≠ Build.accumulator) (hv : Name.isPlain v = true) (hv' : v ≠ Build.accumulator)
    (hvb : v ≠ b) (hij : i ≠ j) (hi : i < n) (hj : j < n) :
    let env := (Environment.standard.withVariable x (.list t)).withVariable b .bool
    TypesAs env ((Build.mapEach (.ident i x) v (.ident j v)).tree n) (.list t) ∧
    TypesAs env ((Build.filter (.ident i x) v (.ident j b)).tree n) (.list t) ∧
    TypesAs env ((Build.mapEach (.ident i x) v (.ident j b)).tree n) (.list .bool) ∧
    TypesAs env ((Build.all (.ident i x) v (.ident j b)).tree n) .bool ∧
    TypesAs env ((Build.any (.ident i x) v (.ident j b)).tree n) .bool ∧
    TypesAs env ((Build.exactlyOne (.ident i x) v (.ident j b)).tree n) .bool := by
  intro env
  have henv : env.ExtendsStandard := ⟨rfl, rfl, rfl⟩
  have ht : t.paramNames = [] := Ty.hasParams_eq_false_iff.1 ht
  obtain ⟨hempty, hrooted⟩ := Bool.and_eq_true_iff.1 hv
  have hempty : v ≠ "" := bne_iff_ne.1 hempty
  have hrooted : Name.rooted? v = none := Option.isNone_iff_eq_none.1 hrooted
  have hrange {m : Nat} {P : Inference → Prop} :
      Infers env (m + 1) {} P (.ident i x) (.list t) P := by
    refine .ident (v := { name := x, type := .list t }) (henv.variableIn?_of_global hx rfl ?_)
    exact (Table.get?_insert_of_ne _ _ hxb).trans (Table.get?_insert_self _ _ _)
  have hbody {m : Nat} {P : Inference → Prop} {a : Ty} :
      Infers env (m + 1) (({} : ScopeStack).inLoop a v t) P (.ident j b) .bool P := by
    refine .ident (v := { name := b, type := .bool }) (henv.variableIn?_of_global hb ?_ ?_)
    · rw [ScopeStack.inLoop, ScopeStack.find?_enter_of_ne _ (Ne.symm hvb),
        ScopeStack.find?_enter_of_ne _ hb']
      rfl
    · exact Table.get?_insert_self _ _ _
  -- The default limit is 250 levels.
  have htyped {m : Nat} {P Q : Inference → Prop} {y : String} {build : Build Expr} {u : Ty}
      (huses : Build.Uses [.ident j y, .ident i x] build)
      (h : Infers env m {} P (build.tree n) u Q) (hm : m ≤ 250) (hP : P ⟨∅, 0⟩)
      (hu : u.paramNames = []) : TypesAs env (build.tree n) u :=
    h.typesAs hm (huses.nodup_ids (wellNumbered_idents x y hij hi hj)) hP hu
  have hstarts : Inference.Starts 0 ⟨∅, 0⟩ := ⟨rfl, fun _ _ => rfl⟩
  have hunbound : Inference.Unbound ⟨∅, 0⟩ := fun _ _ => rfl
  have hlasting := Inference.lasting_unbound
  refine ⟨?_, ?_, ?_, ?_, ?_, ?_⟩
  · exact htyped (Build.uses_mapEach _ v _)
      (.mapEach (n := 0) henv hempty hv' ht n ht hrange (.loopVariable henv hrooted))
      (by decide) hstarts ht
  · exact htyped (Build.uses_filter _ v _)
      (.filter (n := 0) henv hempty hv' ht n hrooted hrange hbody) (by decide) hstarts ht
  · exact htyped (Build.uses_mapEach _ v _)
      (.mapEach (n := 0) henv hempty hv' ht n rfl hrange hbody) (by decide) hstarts rfl
  · exact htyped (Build.uses_all _ v _)
      (.all (n := 0) henv hempty hv' ht n hlasting hrange hbody) (by decide) hunbound rfl
  · exact htyped (Build.uses_any _ v _)
      (.any (n := 0) henv hempty hv' ht n hlasting hrange hbody) (by decide) hunbound rfl
  · exact htyped (Build.uses_exactlyOne _ v _)
      (.exactlyOne (n := 0) henv hempty hv' ht n hlasting hrange hbody) (by decide) hunbound rfl

theorem macros_typed_shadowing :
    let t := Ty.map .string (.wrapper .int)
    let env := (Environment.standard.withVariable "items" (.list t)).withVariable "flag" .bool
    TypesAs env ((Build.mapEach (.ident 1 "items") "items" (.ident 2 "items")).tree 3)
      (.list t) ∧
    TypesAs env ((Build.exactlyOne (.ident 1 "items") "items" (.ident 2 "flag")).tree 3) .bool := by
  intro t env
  have h := macros_typed (t := .map .string (.wrapper .int)) (x := "items") (v := "items")
    (b := "flag") (i := 1) (j := 2) (n := 3) rfl (by decide) (by decide +kernel)
    (by decide +kernel) (by decide) (by decide +kernel) (by decide) (by decide) (by decide)
    (by decide) (by decide)
  exact ⟨h.1, h.2.2.2.2.2⟩

end Typed

end CelTyping
