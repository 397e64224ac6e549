import CelTyping.Environment
import CelTyping.Expr.Basic

/-! Names at the root. Without a container and without aliases a name has one candidate, the
name without its leading dot. What is found under it bears that name, and is found again
under it, as long as no declared name has a leading dot of its own. -/
namespace CelTyping

namespace Name

section Unrooting

def unrooted (name : String) : String := (rooted? name).getD name

def isPlain (name : String) : Bool := name != "" && (rooted? name).isNone

variable {name : String}

theorem isPlain_iff : isPlain name = true ↔ ∃ c cs, name.toList = c :: cs ∧ c ≠ '.' := by
  unfold isPlain rooted?
  cases h : name.toList with
  | nil =>
    have hname : name = "" := String.toList_eq_nil_iff.1 h
    simp [hname]
  | cons c cs =>
    have hname : name ≠ "" := fun he => by simp [he] at h
    by_cases hc : c = '.'
    · simp [hc]
    · simp [hname, hc]

@[simp] theorem unrooted_of_isPlain (h : isPlain name = true) : unrooted name = name := by
  have hr : rooted? name = none := Option.isNone_iff_eq_none.1 (Bool.and_eq_true_iff.1 h).2
  rw [unrooted, hr, Option.getD_none]

theorem unrooted_of_rooted? (h : (rooted? name).isNone = true) : unrooted name = name := by
  rw [unrooted, Option.isNone_iff_eq_none.1 h, Option.getD_none]

@[simp] theorem isPlain_extend (h : isPlain name = true) (segment : String) :
    isPlain (extend name segment) = true := by
  obtain ⟨c, cs, hcs, hc⟩ := isPlain_iff.1 h
  exact isPlain_iff.2 ⟨c, cs ++ '.' :: segment.toList, by simp [extend, hcs], hc⟩

@[simp] theorem unrooted_extend (h : isPlain (unrooted name) = true) (segment : String) :
    unrooted (extend name segment) = extend (unrooted name) segment := by
  cases hr : rooted? name with
  | none =>
    have hname : unrooted name = name := by rw [unrooted, hr, Option.getD_none]
    rw [hname] at h ⊢
    exact unrooted_of_isPlain (isPlain_extend h segment)
  | some rest =>
    have hextend : rooted? (extend name segment) = some (extend rest segment) := by
      unfold rooted? at hr ⊢
      split at hr
      next cs hcs =>
        cases hr
        simp [extend, hcs, String.append_assoc]
      next => cases hr
    rw [unrooted, unrooted, hr, hextend, Option.getD_some, Option.getD_some]

end Unrooting

end Name

/-- What is found under a name bears that name, and the name is plain. -/
def Named {α : Type} (nameOf : α → String) (lookup : String → Option α) : Prop :=
  ∀ name x, lookup name = some x → nameOf x = name ∧ Name.isPlain name = true

section Tables

variable {α : Type} {nameOf : α → String} {t : Table String α}

theorem Named.empty : Named nameOf (∅ : Table String α).get? := by
  intro name x h
  cases h

theorem Named.insert (h : Named nameOf t.get?) {name : String} {x : α} (hx : nameOf x = name)
    (hname : Name.isPlain name = true) : Named nameOf (t.insert name x).get? := by
  intro other y hy
  by_cases ho : other = name
  · subst ho
    rw [Table.get?_insert_self] at hy
    cases hy
    exact ⟨hx, hname⟩
  · rw [Table.get?_insert_of_ne _ _ ho] at hy
    exact h other y hy

theorem Table.mem_of_get?_insertAll {l : List (String × α)} {name : String} {x : α}
    (h : (l.foldl (fun t e => t.insert e.1 e.2) t).get? name = some x) :
    (name, x) ∈ l ∨ t.get? name = some x := by
  induction l generalizing t with
  | nil => exact .inr h
  | cons e l ih =>
    rcases ih h with hmem | h
    · exact .inl (List.mem_cons_of_mem e hmem)
    by_cases hname : name = e.1
    · subst hname
      rw [Table.get?_insert_self] at h
      cases h
      exact .inl List.mem_cons_self
    · rw [Table.get?_insert_of_ne _ _ hname] at h
      exact .inr h

theorem Table.mem_of_get?_ofList {l : List (String × α)} {name : String} {x : α}
    (h : (Table.ofList l).get? name = some x) : (name, x) ∈ l := by
  rcases Table.mem_of_get?_insertAll h with hmem | h
  · exact hmem
  · cases h

theorem Table.All.ofList {P : α → Prop} {l : List (String × α)} (h : ∀ e ∈ l, P e.2) :
    (Table.ofList l).All P :=
  fun _ _ hv => h _ (Table.mem_of_get?_ofList hv)

theorem Environment.all_functions_standard {P : Function → Prop}
    (hall : ∀ f ∈ Standard.functions, P f) : standard.functions.All P := by
  refine .ofList fun e he => ?_
  obtain ⟨f, hf, rfl⟩ := List.mem_map.1 he
  exact hall f hf

theorem named_ofList {l : List (String × α)}
    (h : ∀ e ∈ l, nameOf e.2 = e.1 ∧ Name.isPlain e.1 = true) :
    Named nameOf (Table.ofList l).get? :=
  fun _ _ hx => h _ (Table.mem_of_get?_ofList hx)

end Tables

structure Catalogue.Plain (c : Catalogue) : Prop where
  messages : ∀ name m, c.messages.get? name = some m → Name.isPlain name = true
  enums : ∀ name values, c.enums.get? name = some values → Name.isPlain name = true

namespace Catalogue

theorem plain_wellKnown : wellKnown.Plain where
  messages name m h := by
    obtain ⟨e, he, heq⟩ := List.mem_map.1 (Table.mem_of_get?_ofList h)
    have hall : ∀ e ∈ wellKnownMessages, Name.isPlain e.1 = true := by decide +kernel
    cases heq
    exact hall e he
  enums name values h := by
    have hall : ∀ e ∈ ["google.protobuf.NullValue"], Name.isPlain e = true := by decide +kernel
    cases List.mem_singleton.1 (Table.mem_of_get?_ofList h)
    exact hall _ List.mem_cons_self

variable {c : Catalogue}

theorem Plain.isPlain_enum (hc : c.Plain) {name value : String} {number : Int32}
    (h : c.enumValue? name value = some number) : Name.isPlain name = true := by
  obtain ⟨values, hvalues, _⟩ := Option.bind_eq_some_iff.1 h
  exact hc.enums name values hvalues

theorem Plain.addEnum (hc : c.Plain) {name : String} (hname : Name.isPlain name = true)
    (values : EnumValues) : (c.addEnum name values).Plain := by
  refine { hc with enums := ?_ }
  intro other values' h
  by_cases ho : other = name
  · rw [ho]
    exact hname
  · exact hc.enums other values' ((Table.get?_insert_of_ne _ _ ho).symm.trans h)

end Catalogue

namespace Environment

/-- Names are looked up at the root only, all declared names are plain ones, and none is that
of the optional selection. -/
structure Rooted (env : Environment) : Prop where
  container_name : env.container.name = ""
  aliases : ∀ short, env.container.aliases.get? short = none
  globals : Named Variable.name env.globals.get?
  functions : Named Function.name env.functions.get?
  messages : ∀ name m, env.registry.message? name = some m → Name.isPlain name = true
  enums : ∀ name value number, env.registry.enumValue? name value = some number →
    Name.isPlain name = true
  optionalSelect : env.functions.get? Operator.optionalSelect = none

section Lookups

variable {env : Environment} {scopes : ScopeStack}

theorem Rooted.candidates_eq (henv : env.Rooted) (name : String) :
    env.container.candidates name = [Name.unrooted name] := by
  have halias : ∀ n, env.container.expandAlias? n = none := by
    intro n
    simp only [Container.expandAlias?, henv.aliases, Option.map_none]
  unfold Container.candidates Name.unrooted
  cases hr : Name.rooted? name with
  | some rest => simp only [halias, Option.getD_none, Option.getD_some]
  | none => simp only [halias, henv.container_name, if_true, Option.getD_none]

theorem Rooted.variableIn?_eq (henv : env.Rooted) (name : String) :
    env.variableIn? scopes name = env.meaning? scopes (Name.unrooted name) := by
  rw [variableIn?, henv.candidates_eq, List.findSome?_singleton]

theorem Rooted.function?_eq (henv : env.Rooted) (name : String) :
    env.function? name = env.functions.get? (Name.unrooted name) := by
  rw [function?, henv.candidates_eq, List.findSome?_singleton]

theorem Rooted.meaning?_named (henv : env.Rooted) (hs : Named Variable.name scopes.find?) :
    Named Variable.name (env.meaning? scopes) := by
  intro name v h
  unfold meaning? at h
  split at h
  next w hw =>
    cases h
    exact hs name v hw
  next =>
    split at h
    next w hw =>
      cases h
      exact henv.globals name v hw
    next =>
      split at h
      next w hw =>
        cases h
        obtain ⟨m, hm, rfl⟩ := Option.map_eq_some_iff.1 hw
        exact ⟨rfl, henv.messages name m hm⟩
      next =>
        obtain ⟨⟨enum, value⟩, hsplit, h⟩ := Option.bind_eq_some_iff.1 h
        obtain ⟨number, hnumber, rfl⟩ := Option.map_eq_some_iff.1 h
        refine ⟨rfl, ?_⟩
        rw [Name.eq_extend_of_splitLast? hsplit]
        exact Name.isPlain_extend (henv.enums enum value number hnumber) value

theorem Rooted.variableIn?_again (henv : env.Rooted) (hs : Named Variable.name scopes.find?)
    {name : String} {v : Variable} (h : env.variableIn? scopes name = some v) :
    v.name = Name.unrooted name ∧ Name.isPlain v.name = true ∧
      env.variableIn? scopes v.name = some v := by
  rw [henv.variableIn?_eq] at h
  obtain ⟨hname, hplain⟩ := henv.meaning?_named hs _ v h
  rw [hname]
  refine ⟨rfl, hplain, ?_⟩
  rwa [henv.variableIn?_eq, Name.unrooted_of_isPlain hplain]

theorem Rooted.function?_again (henv : env.Rooted) {name : String} {f : Function}
    (h : env.function? name = some f) :
    f.name = Name.unrooted name ∧ f.name ≠ Operator.optionalSelect ∧
      env.function? f.name = some f := by
  rw [henv.function?_eq] at h
  obtain ⟨hname, hplain⟩ := henv.functions _ f h
  rw [hname]
  refine ⟨rfl, ?_, ?_⟩
  · intro he
    rw [he, henv.optionalSelect] at h
    cases h
  · rwa [henv.function?_eq, Name.unrooted_of_isPlain hplain]

end Lookups

section Building

theorem rooted_empty : empty.Rooted where
  container_name := rfl
  aliases _ := rfl
  globals := .empty
  functions := .empty
  messages := Catalogue.plain_wellKnown.messages
  enums _ _ _ := Catalogue.plain_wellKnown.isPlain_enum
  optionalSelect := rfl

theorem rooted_standard : standard.Rooted := by
  have hall : ∀ f ∈ Standard.functions,
      Name.isPlain f.name = true ∧ f.name ≠ Operator.optionalSelect := by decide +kernel
  refine { rooted_empty with
    globals := named_ofList (by decide +kernel), functions := named_ofList ?_,
    optionalSelect := ?_ }
  · intro e he
    obtain ⟨f, hf, rfl⟩ := List.mem_map.1 he
    exact ⟨rfl, (hall f hf).1⟩
  · cases h : standard.functions.get? Operator.optionalSelect with
    | none => rfl
    | some f =>
      obtain ⟨g, hg, heq⟩ := List.mem_map.1 (Table.mem_of_get?_ofList h)
      exact absurd (Prod.mk.inj heq).1 (hall g hg).2

variable {env : Environment}

theorem Rooted.withCatalogue (henv : env.Rooted) {c : Catalogue} (hc : c.Plain) :
    (env.withRegistry c.registry).Rooted :=
  { henv with messages := hc.messages, enums := fun _ _ _ => hc.isPlain_enum }

theorem Rooted.withVariable (henv : env.Rooted) {name : String} (hname : Name.isPlain name = true)
    (type : Ty) : (env.withVariable name type).Rooted :=
  { henv with globals := henv.globals.insert rfl hname }

theorem Rooted.withFunction (henv : env.Rooted) {f : Function}
    (hname : Name.isPlain f.name = true) (hf : f.name ≠ Operator.optionalSelect) :
    (env.withFunction f).Rooted := by
  refine { henv with functions := henv.functions.insert ?_ hname, optionalSelect := ?_ }
  · split
    next existing h => exact (henv.functions f.name existing h).1
    next => rfl
  · exact (Table.get?_insert_of_ne _ _ hf.symm).trans henv.optionalSelect

end Building

end Environment

end CelTyping
