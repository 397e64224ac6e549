import CelTyping.Environment

/-! Strict declaration. Declarations are taken one after the other, and each is compared with
what stands under its key by then, which may have been added just before. What stands under a key
stays there, so in the end it is the first of all declarations with that key, and the ones in
conflict are those that differ from it. Variables have their names as keys; overloads have the
name of the function and their id. -/
namespace CelTyping

section Keyed

variable {κ α : Type} [DecidableEq κ] {key : α → κ} {differs : α → α → Bool}

/-- Declaring `items` leads from the one lookup to the other, and the refused ones are those that
differ from what is found afterwards. -/
structure Admits (key : α → κ) (differs : α → α → Bool) (before after : κ → Option α)
    (items refused : List α) : Prop where
  lookup : ∀ k, after k = (before k).or (items.find? (key · = k))
  refused : refused = items.filter fun x => (after (key x)).any (differs · x)

variable {before middle after : κ → Option α} {items items' refused refused' : List α}

theorem admits_nil (known : κ → Option α) : Admits key differs known known [] [] where
  lookup k := by simp
  refused := rfl

theorem admits_known {x prior : α} (h : before (key x) = some prior) :
    Admits key differs before before [x] (if differs prior x then [x] else []) where
  lookup k := by
    by_cases hk : key x = k
    · rw [← hk, h]
      rfl
    · simp [hk]
  refused := by
    simp [List.filter_cons, h]

theorem admits_new {x : α} (hself : differs x x = false) (h : before (key x) = none)
    (hafter : ∀ k, after k = if key x = k then some x else before k) :
    Admits key differs before after [x] [] where
  lookup k := by
    rw [hafter]
    by_cases hk : key x = k
    · rw [← hk, h]
      simp
    · simp [hk]
  refused := by
    simp [hafter, hself]

theorem Admits.isSome (h : Admits key differs before after items refused) {x : α}
    (hx : x ∈ items) : (after (key x)).isSome = true := by
  have hfind : (items.find? (key · = key x)).isSome = true :=
    List.find?_isSome.2 ⟨x, hx, by simp⟩
  rw [h.lookup, Option.isSome_or, hfind, Bool.or_true]

theorem Admits.kept (h : Admits key differs before after items refused) {k : κ} {x : α}
    (hx : before k = some x) : after k = some x := by
  rw [h.lookup, hx, Option.some_or]

theorem Admits.append (h : Admits key differs before middle items refused)
    (h' : Admits key differs middle after items' refused') :
    Admits key differs before after (items ++ items') (refused ++ refused') where
  lookup k := by
    rw [h'.lookup, h.lookup, List.find?_append, Option.or_assoc]
  refused := by
    rw [List.filter_append, ← h'.refused, h.refused]
    congr 1
    apply List.filter_congr
    intro x hx
    obtain ⟨prior, hprior⟩ := Option.isSome_iff_exists.1 (h.isSome hx)
    rw [hprior, h'.kept hprior]

end Keyed

theorem Conflict.ofList_eq_none_iff {conflicts : List Conflict} :
    Conflict.ofList conflicts = none ↔ conflicts = [] := by
  match conflicts with
  | [] => simp [Conflict.ofList]
  | [_] => simp [Conflict.ofList]
  | _ :: _ :: _ => simp [Conflict.ofList]

namespace Environment

section Variables

def differsInType (prior v : Variable) : Bool := prior.type ≠ v.type

abbrev AdmitsVariables (scope scope' : Scope) (vs refused : List Variable) : Prop :=
  Admits Variable.name differsInType scope.get? scope'.get? vs refused

def variableConflict (v : Variable) : Conflict := .overlappingIdentifier v.name

theorem admits_addVariable (scope : Scope) (v : Variable) :
    ∃ refused, AdmitsVariables scope (addVariable scope v).1 [v] refused ∧
      (addVariable scope v).2 = refused.map variableConflict := by
  unfold addVariable
  cases hprior : scope.get? v.name with
  | some prior =>
    have h : AdmitsVariables scope scope [v] _ := admits_known hprior
    by_cases htype : prior.type = v.type
    · rw [if_neg (by simp [differsInType, htype])] at h
      simp only [if_pos htype]
      exact ⟨[], h, rfl⟩
    · rw [if_pos (by simp [differsInType, htype])] at h
      simp only [if_neg htype]
      exact ⟨[v], h, rfl⟩
  | none =>
    refine ⟨[], admits_new (by simp [differsInType]) hprior ?_, rfl⟩
    intro name
    by_cases hname : v.name = name
    · rw [if_pos hname, ← hname]
      exact Table.get?_insert_self _ _ _
    · rw [if_neg hname]
      exact Table.get?_insert_of_ne _ _ (Ne.symm hname)

theorem admits_addVariablesTo (vs : List Variable) :
    ∀ scope, ∃ refused, AdmitsVariables scope (addVariablesTo scope vs).1 vs refused ∧
      (addVariablesTo scope vs).2 = refused.map variableConflict := by
  induction vs with
  | nil => exact fun scope => ⟨[], admits_nil _, rfl⟩
  | cons v vs ih =>
    intro scope
    obtain ⟨refused, h, hconflicts⟩ := admits_addVariable scope v
    obtain ⟨more, hmore, hconflicts'⟩ := ih (addVariable scope v).1
    refine ⟨refused ++ more, h.append hmore, ?_⟩
    rw [List.map_append, ← hconflicts, ← hconflicts']
    rfl

theorem addVariablesTo_of_known {scope : Scope} (vs : List Variable)
    (h : ∀ v ∈ vs, (scope.get? v.name).isSome = true) : (addVariablesTo scope vs).1 = scope := by
  induction vs with
  | nil => rfl
  | cons v vs ih =>
    obtain ⟨hv, hvs⟩ := List.forall_mem_cons.1 h
    obtain ⟨prior, hprior⟩ := Option.isSome_iff_exists.1 hv
    have hstep : (addVariable scope v).1 = scope := by
      unfold addVariable
      rw [hprior]
      dsimp only
      split <;> rfl
    show (addVariablesTo (addVariable scope v).1 vs).1 = scope
    rw [hstep]
    exact ih hvs

end Variables

section Overloads

def differsInSignature (prior o : Overload) : Bool :=
  (prior.isMember, prior.params, prior.result) ≠ (o.isMember, o.params, o.result)

theorem differsInSignature_eq (prior o : Overload) :
    differsInSignature prior o = !prior.signatureMatches o := by
  have hmatches : prior.signatureMatches o = true ↔
      (prior.isMember, prior.params, prior.result) = (o.isMember, o.params, o.result) := by
    simp [Overload.signatureMatches, Ty.same_iff, Ty.sameAll_iff, and_assoc]
  rw [Bool.eq_iff_iff, differsInSignature, decide_eq_true_iff, Bool.not_eq_true', ne_eq,
    ← hmatches, Bool.not_eq_true]

abbrev NamedOverload := String × Overload

def overloadKey (d : NamedOverload) : String × String := (d.1, d.2.id)

def overloadConflict (d : NamedOverload) : Conflict := .overlappingOverload d.1 d.2.id

def overloadUnder? (functions : Table String Function) (k : String × String) :
    Option NamedOverload :=
  ((functions.get? k.1).bind (·.overload? k.2)).map (k.1, ·)

def declaredOverloads (fs : List Function) : List NamedOverload :=
  fs.flatMap fun f => f.overloads.map (f.name, ·)

abbrev AdmitsOverloads (functions functions' : Table String Function)
    (ds refused : List NamedOverload) : Prop :=
  Admits overloadKey (fun prior d => differsInSignature prior.2 d.2) (overloadUnder? functions)
    (overloadUnder? functions') ds refused

variable {functions : Table String Function} {name : String} {f : Function}

theorem overloadUnder?_of_get? (h : functions.get? name = some f) (id : String) :
    overloadUnder? functions (name, id) = (f.overload? id).map (name, ·) := by
  simp only [overloadUnder?, h, Option.bind_some]

theorem overloadUnder?_insert_of_ne {k : String × String} (h : k.1 ≠ name) :
    overloadUnder? (functions.insert name f) k = overloadUnder? functions k := by
  simp only [overloadUnder?, Table.get?_insert_of_ne _ _ h]

theorem overloadUnder?_insert_getD (functions : Table String Function) (name : String) :
    overloadUnder? (functions.insert name ((functions.get? name).getD { name })) =
      overloadUnder? functions := by
  funext k
  by_cases hk : k.1 = name
  · subst hk
    rw [overloadUnder?, Table.get?_insert_self, overloadUnder?]
    cases functions.get? k.1 with
    | none => rfl
    | some f => rfl
  · exact overloadUnder?_insert_of_ne hk

theorem overloadUnder?_add {o : Overload} (h : f.overload? o.id = none) (k : String × String) :
    overloadUnder? (functions.insert name { f with overloads := f.overloads ++ [o] }) k =
      if overloadKey (name, o) = k then some (name, o)
      else overloadUnder? (functions.insert name f) k := by
  obtain ⟨n, id⟩ := k
  by_cases hn : n = name
  · subst hn
    have hadd : ({ f with overloads := f.overloads ++ [o] } : Function).overload? id =
        (f.overload? id).or (if o.id = id then some o else none) := by
      by_cases hid : o.id = id <;> simp [Function.overload?, List.find?_append, hid]
    rw [overloadUnder?_of_get? (Table.get?_insert_self _ _ _),
      overloadUnder?_of_get? (Table.get?_insert_self _ _ _), hadd]
    by_cases hid : o.id = id
    · subst hid
      simp [overloadKey, h]
    · simp [overloadKey, hid]
  · rw [overloadUnder?_insert_of_ne hn, overloadUnder?_insert_of_ne hn, if_neg]
    intro hk
    exact hn (congrArg Prod.fst hk).symm

theorem admits_addOverloads (functions : Table String Function) (name : String)
    (os : List Overload) :
    ∀ f, ∃ refused, AdmitsOverloads (functions.insert name f)
        (functions.insert name (addOverloads name f os).1) (os.map (name, ·)) refused ∧
      (addOverloads name f os).2 = refused.map overloadConflict := by
  induction os with
  | nil => exact fun f => ⟨[], admits_nil _, rfl⟩
  | cons o os ih =>
    intro f
    unfold addOverloads
    cases hprior : f.overload? o.id with
    | some prior =>
      obtain ⟨more, hmore, hconflicts⟩ := ih f
      have hfound : overloadUnder? (functions.insert name f) (overloadKey (name, o)) =
          some (name, prior) := by
        rw [overloadKey, overloadUnder?_of_get? (Table.get?_insert_self _ _ _), hprior]
        rfl
      have h : AdmitsOverloads _ _ [(name, o)] _ := admits_known hfound
      refine ⟨_, h.append hmore, ?_⟩
      simp only [differsInSignature_eq, hconflicts]
      cases prior.signatureMatches o <;> rfl
    | none =>
      obtain ⟨more, hmore, hconflicts⟩ := ih { f with overloads := f.overloads ++ [o] }
      have hnone : overloadUnder? (functions.insert name f) (overloadKey (name, o)) = none := by
        rw [overloadKey, overloadUnder?_of_get? (Table.get?_insert_self _ _ _), hprior]
        rfl
      have h : AdmitsOverloads (functions.insert name f) _ [(name, o)] [] :=
        admits_new (by simp [differsInSignature]) hnone (overloadUnder?_add hprior)
      exact ⟨more, h.append hmore, hconflicts⟩

theorem admits_addFunctionsTo (fs : List Function) :
    ∀ functions, ∃ refused,
      AdmitsOverloads functions (addFunctionsTo functions fs).1 (declaredOverloads fs) refused ∧
        (addFunctionsTo functions fs).2 = refused.map overloadConflict := by
  induction fs with
  | nil => exact fun functions => ⟨[], admits_nil _, rfl⟩
  | cons f fs ih =>
    intro functions
    obtain ⟨refused, h, hconflicts⟩ := admits_addOverloads functions f.name f.overloads
      ((functions.get? f.name).getD { name := f.name })
    obtain ⟨more, hmore, hconflicts'⟩ := ih (functions.insert f.name _)
    rw [AdmitsOverloads, overloadUnder?_insert_getD] at h
    refine ⟨refused ++ more, h.append hmore, ?_⟩
    rw [List.map_append, ← hconflicts, ← hconflicts']
    rfl

theorem addOverloads_prefix (name : String) (os : List Overload) :
    ∀ f, ∃ added, (addOverloads name f os).1 = { f with overloads := f.overloads ++ added } := by
  induction os with
  | nil => exact fun f => ⟨[], by simp [addOverloads]⟩
  | cons o os ih =>
    intro f
    unfold addOverloads
    cases f.overload? o.id with
    | some prior => exact ih f
    | none =>
      obtain ⟨added, hadded⟩ := ih { f with overloads := f.overloads ++ [o] }
      exact ⟨o :: added, by simp [hadded]⟩

theorem addFunctionsTo_prefix (fs : List Function) :
    ∀ functions name f, functions.get? name = some f →
      ∃ added, (addFunctionsTo functions fs).1.get? name =
        some { f with overloads := f.overloads ++ added } := by
  induction fs with
  | nil => exact fun functions name f h => ⟨[], by simp [addFunctionsTo, h]⟩
  | cons g fs ih =>
    intro functions name f h
    by_cases hname : name = g.name
    · subst hname
      obtain ⟨first, hfirst⟩ := addOverloads_prefix g.name g.overloads f
      obtain ⟨added, hadded⟩ := ih (functions.insert g.name _) g.name _
        (Table.get?_insert_self _ _ (addOverloads g.name f g.overloads).1)
      rw [hfirst] at hadded
      refine ⟨first ++ added, ?_⟩
      simp only [addFunctionsTo, h, Option.getD_some, hfirst, hadded, List.append_assoc]
    · exact ih _ name f (by rw [Table.get?_insert_of_ne _ _ hname, h])

theorem addFunctionsTo_declares (fs : List Function) :
    ∀ functions, ∀ g ∈ fs, ∃ f, (addFunctionsTo functions fs).1.get? g.name = some f := by
  induction fs with
  | nil => simp
  | cons f fs ih =>
    intro functions g hg
    rcases List.mem_cons.1 hg with rfl | hg
    · obtain ⟨added, hadded⟩ := addFunctionsTo_prefix fs _ g.name _ (Table.get?_insert_self _ _ _)
      exact ⟨_, hadded⟩
    · exact ih _ g hg

theorem addOverloads_of_known (name : String) (os : List Overload)
    (h : ∀ o ∈ os, (f.overload? o.id).isSome = true) : (addOverloads name f os).1 = f := by
  induction os with
  | nil => rfl
  | cons o os ih =>
    obtain ⟨ho, hos⟩ := List.forall_mem_cons.1 h
    obtain ⟨prior, hprior⟩ := Option.isSome_iff_exists.1 ho
    unfold addOverloads
    rw [hprior]
    exact ih hos

theorem addFunctionsTo_of_known (fs : List Function)
    (h : ∀ g ∈ fs, ∃ f, functions.get? g.name = some f ∧
      ∀ o ∈ g.overloads, (f.overload? o.id).isSome = true) :
    (addFunctionsTo functions fs).1 = functions := by
  induction fs with
  | nil => rfl
  | cons g fs ih =>
    obtain ⟨hg, hfs⟩ := List.forall_mem_cons.1 h
    obtain ⟨f, hf, hos⟩ := hg
    have hinsert : functions.insert g.name (addOverloads g.name f g.overloads).1 = functions := by
      rw [addOverloads_of_known g.name g.overloads hos]
      exact Table.insert_of_get? hf
    simp only [addFunctionsTo, hf, Option.getD_some, hinsert]
    exact ih hfs

end Overloads

section Strict

variable {κ α : Type} [DecidableEq κ] {declare : Environment → Environment × Option Conflict}
  {lookup : Environment → κ → Option α} {key : α → κ} {differs : α → α → Bool}
  {conflict : α → Conflict} {env : Environment} {items refused : List α}

/-- Under each key stands what stood there before, or else the first item that has it. The items
that differ from what stands under their key afterwards are in conflict, each time that they are
given and in that order. Doing it again changes nothing and has the same conflicts. -/
structure DeclaresStrictly (declare : Environment → Environment × Option Conflict)
    (lookup : Environment → κ → Option α) (key : α → κ) (differs : α → α → Bool)
    (conflict : α → Conflict) (env : Environment) (items : List α) : Prop where
  first : ∀ k, lookup (declare env).1 k = (lookup env k).or (items.find? (key · = k))
  conflicts : (declare env).2 = Conflict.ofList
    ((items.filter fun x => (lookup (declare env).1 (key x)).any (differs · x)).map conflict)
  ok : (declare env).2 = none ↔
    ∀ x ∈ items, ∃ y, lookup (declare env).1 (key x) = some y ∧ differs y x = false
  again : declare (declare env).1 = declare env

theorem DeclaresStrictly.of_admits
    (h : Admits key differs (lookup env) (lookup (declare env).1) items refused)
    (hconflict : (declare env).2 = Conflict.ofList (refused.map conflict))
    (hagain : declare (declare env).1 = declare env) :
    DeclaresStrictly declare lookup key differs conflict env items where
  first := h.lookup
  conflicts := by rw [hconflict, ← h.refused]
  ok := by
    rw [hconflict, Conflict.ofList_eq_none_iff, List.map_eq_nil_iff, h.refused,
      List.filter_eq_nil_iff]
    refine forall₂_congr fun x hx => ?_
    obtain ⟨y, hy⟩ := Option.isSome_iff_exists.1 (h.isSome hx)
    simp [hy]
  again := hagain

theorem addVariables_strict (env : Environment) (vs : List Variable) :
    DeclaresStrictly (·.addVariables vs) (·.globals.get?) Variable.name differsInType
      variableConflict env vs := by
  obtain ⟨refused, h, hconflicts⟩ := admits_addVariablesTo vs env.globals
  have hsame : (addVariablesTo (addVariablesTo env.globals vs).1 vs).1 =
      (addVariablesTo env.globals vs).1 := addVariablesTo_of_known vs fun v hv => h.isSome hv
  obtain ⟨refused', h', hconflicts'⟩ := admits_addVariablesTo vs (addVariablesTo env.globals vs).1
  rw [hsame] at h'
  have hrefused : refused' = refused := h'.refused.trans h.refused.symm
  apply DeclaresStrictly.of_admits h
  · simp only [addVariables, hconflicts]
  · simp only [addVariables, hsame, hconflicts, hconflicts', hrefused]

theorem addFunctions_strict (env : Environment) (fs : List Function) :
    DeclaresStrictly (·.addFunctions fs) (fun env => overloadUnder? env.functions) overloadKey
      (fun prior d => differsInSignature prior.2 d.2) overloadConflict env
      (declaredOverloads fs) := by
  obtain ⟨refused, h, hconflicts⟩ := admits_addFunctionsTo fs env.functions
  have hsame : (addFunctionsTo (addFunctionsTo env.functions fs).1 fs).1 =
      (addFunctionsTo env.functions fs).1 := by
    apply addFunctionsTo_of_known
    intro g hg
    obtain ⟨f, hf⟩ := addFunctionsTo_declares fs env.functions g hg
    refine ⟨f, hf, fun o ho => ?_⟩
    have hd : (g.name, o) ∈ declaredOverloads fs :=
      List.mem_flatMap.2 ⟨g, hg, List.mem_map.2 ⟨o, ho, rfl⟩⟩
    have hsome := h.isSome hd
    rwa [overloadKey, overloadUnder?_of_get? hf, Option.isSome_map] at hsome
  obtain ⟨refused', h', hconflicts'⟩ :=
    admits_addFunctionsTo fs (addFunctionsTo env.functions fs).1
  rw [hsame] at h'
  have hrefused : refused' = refused := h'.refused.trans h.refused.symm
  apply DeclaresStrictly.of_admits h
  · simp only [addFunctions, hconflicts]
  · simp only [addFunctions, hsame, hconflicts, hconflicts', hrefused]

end Strict

/-- Strict declaration changes nothing that is declared already, reports exactly what differs from
the first declaration of its key, and can be repeated. New overloads stand behind the old ones. -/
theorem strict_declaration (env : Environment) :
    (∀ vs, DeclaresStrictly (·.addVariables vs) (·.globals.get?) Variable.name differsInType
        variableConflict env vs ∧
      (env.addVariables vs).1 = { env with globals := (env.addVariables vs).1.globals }) ∧
    ∀ fs, DeclaresStrictly (·.addFunctions fs) (fun env => overloadUnder? env.functions)
        overloadKey (fun prior d => differsInSignature prior.2 d.2) overloadConflict env
        (declaredOverloads fs) ∧
      (env.addFunctions fs).1 = { env with functions := (env.addFunctions fs).1.functions } ∧
      ∀ name f, env.functions.get? name = some f →
        ∃ added, (env.addFunctions fs).1.functions.get? name =
          some { f with overloads := f.overloads ++ added } := by
  refine ⟨fun vs => ⟨addVariables_strict env vs, rfl⟩, fun fs => ?_⟩
  exact ⟨addFunctions_strict env fs, rfl, addFunctionsTo_prefix fs env.functions⟩

def oneOfEach : Environment :=
  (empty.withVariable "x" .int).withFunction
    { name := "f", overloads := [{ id := "f_int", params := [.int], result := .int }] }

/-- Declarations that are in conflict with `x` and with one another, and overloads of `f` of which
one is declared before and one twice. -/
theorem strict_declaration_oneOfEach :
    (oneOfEach.addVariables
        [{ name := "x", type := .string }, { name := "y", type := .bool },
          { name := "y", type := .int }, { name := "x", type := .string }]).2.map
        Conflict.message =
      some ("overlapping identifier for name 'x'\noverlapping identifier for name 'y'\n" ++
        "overlapping identifier for name 'x'") ∧
    (oneOfEach.addFunctions
        [{ name := "f"
           overloads :=
             [{ id := "f_int", params := [.int], result := .int, isMember := true },
              { id := "f_uint", params := [.uint], result := .int },
              { id := "f_uint", params := [.uint], result := .uint }] }]).2.map
        Conflict.message =
      some ("overlapping overload for name 'f' (id 'f_int')\n" ++
        "overlapping overload for name 'f' (id 'f_uint')") ∧
    ∃ added, (oneOfEach.addFunctions
        [{ name := "f", overloads := [{ id := "f_uint", params := [.uint], result := .int }] }]
          ).1.functions.get? "f" =
      some
        { name := "f"
          overloads := [{ id := "f_int", params := [.int], result := .int }] ++ added } := by
  refine ⟨?_, ?_, ?_⟩
  · rw [((strict_declaration oneOfEach).1 _).1.conflicts]
    decide +kernel
  · rw [((strict_declaration oneOfEach).2 _).1.conflicts]
    decide +kernel
  · exact ((strict_declaration oneOfEach).2 _).2.2 "f" _ (Table.get?_insert_self _ _ _)

end Environment

end CelTyping
