import CelTyping.Expr.Basic
import Mathlib.Data.List.Flatten
import Mathlib.Data.List.Nodup
import Mathlib.Data.List.Perm.Subperm

/-! The nodes of a tree and their ids, from the topmost node down. -/
namespace CelTyping

mutual

def Expr.descendants : Expr → List Expr
  | .literal _ _ => []
  | .ident _ _ => []
  | .select _ operand _ _ => operand :: operand.descendants
  | .call _ _ args => Expr.argDescendants args
  | .receiverCall _ target _ args => target :: (target.descendants ++ Expr.argDescendants args)
  | .list _ elements => Expr.elementDescendants elements
  | .map _ entries => Expr.entryDescendants entries
  | .message _ _ fields => Expr.fieldDescendants fields
  | .comprehension _ _ _ range _ init condition step result =>
    (range :: range.descendants) ++ (init :: init.descendants) ++
      (condition :: condition.descendants) ++ (step :: step.descendants) ++
        (result :: result.descendants)

def Expr.argDescendants : List Expr → List Expr
  | [] => []
  | e :: es => e :: (e.descendants ++ Expr.argDescendants es)

def Expr.elementDescendants : List Element → List Expr
  | [] => []
  | ⟨value, _⟩ :: rest => value :: (value.descendants ++ Expr.elementDescendants rest)

def Expr.entryDescendants : List Entry → List Expr
  | [] => []
  | ⟨_, key, value, _⟩ :: rest =>
    (key :: key.descendants) ++ (value :: value.descendants) ++ Expr.entryDescendants rest

def Expr.fieldDescendants : List FieldInit → List Expr
  | [] => []
  | ⟨_, _, value, _⟩ :: rest => value :: (value.descendants ++ Expr.fieldDescendants rest)

end

def Expr.nodes (e : Expr) : List Expr := e :: e.descendants

/-- The ids of a tree. Those of map entries and field initialisers, which have no type,
are not among them. -/
def Expr.ids (e : Expr) : List NodeId := e.nodes.map Expr.id

namespace Expr

def idsOf (es : List Expr) : List NodeId := es.flatMap ids

def children : Expr → List Expr
  | .literal _ _ => []
  | .ident _ _ => []
  | .select _ operand _ _ => [operand]
  | .call _ _ args => args
  | .receiverCall _ target _ args => target :: args
  | .list _ elements => elements.map Element.value
  | .map _ entries => entries.flatMap fun entry => [entry.key, entry.value]
  | .message _ _ fields => fields.flatMap fun field => [field.value]
  | .comprehension _ _ _ range _ init condition step result =>
    [range, init, condition, step, result]

theorem argDescendants_eq (es : List Expr) : argDescendants es = es.flatMap nodes := by
  induction es with
  | nil => rfl
  | cons e es ih =>
    rw [argDescendants, ih]
    rfl

theorem elementDescendants_eq (es : List Element) :
    elementDescendants es = (es.map Element.value).flatMap nodes := by
  induction es with
  | nil => rfl
  | cons e es ih =>
    obtain ⟨value, optional⟩ := e
    rw [elementDescendants, ih]
    rfl

theorem entryDescendants_eq (es : List Entry) :
    entryDescendants es = (es.flatMap fun entry => [entry.key, entry.value]).flatMap nodes := by
  induction es with
  | nil => rfl
  | cons e es ih =>
    obtain ⟨id, key, value, optional⟩ := e
    rw [entryDescendants, ih]
    simp [nodes]

theorem fieldDescendants_eq (es : List FieldInit) :
    fieldDescendants es = (es.flatMap fun field => [field.value]).flatMap nodes := by
  induction es with
  | nil => rfl
  | cons e es ih =>
    obtain ⟨id, name, value, optional⟩ := e
    rw [fieldDescendants, ih]
    rfl

theorem descendants_eq_children (e : Expr) : e.descendants = e.children.flatMap nodes := by
  cases e with
  | call id function args => exact argDescendants_eq args
  | receiverCall id target function args =>
    rw [descendants, argDescendants_eq]
    rfl
  | list id elements => exact elementDescendants_eq elements
  | map id entries => exact entryDescendants_eq entries
  | message id name fields => exact fieldDescendants_eq fields
  | _ => simp [descendants, children, nodes]

section Ids

@[simp] theorem idsOf_nil : idsOf [] = [] := rfl

@[simp] theorem idsOf_cons (e : Expr) (es : List Expr) : idsOf (e :: es) = e.ids ++ idsOf es := rfl

@[simp] theorem idsOf_append (es es' : List Expr) : idsOf (es ++ es') = idsOf es ++ idsOf es' :=
  List.flatMap_append

theorem ids_eq_children (e : Expr) : e.ids = e.id :: idsOf e.children := by
  rw [ids, nodes, List.map_cons, descendants_eq_children, List.map_flatMap]
  rfl

@[simp] theorem id_mem_ids (e : Expr) : e.id ∈ e.ids := List.mem_cons_self

theorem id_mem_idsOf {e : Expr} {es : List Expr} (h : e ∈ es) : e.id ∈ idsOf es :=
  List.mem_flatMap.2 ⟨e, h, e.id_mem_ids⟩

theorem idsOf_eq_map {es : List Expr} (h : ∀ e ∈ es, e.children = []) :
    idsOf es = es.map Expr.id := by
  rw [idsOf, List.map_eq_flatMap]
  refine List.flatMap_congr fun e he => ?_
  rw [ids_eq_children, h e he, idsOf_nil]

theorem idsOf_subperm {es es' : List Expr} (h : es.Subperm es') :
    (idsOf es).Subperm (idsOf es') := by
  obtain ⟨l, hperm, hsub⟩ := h
  exact (hperm.symm.flatMap_right ids).subperm.trans (hsub.flatMap ids).subperm

theorem ids_list (id : NodeId) (es : List Element) :
    (list id es).ids = id :: idsOf (es.map Element.value) :=
  ids_eq_children _

theorem ids_comprehension (id : NodeId) (iterVar iterVar2 accuVar : String)
    (range init condition step result : Expr) :
    (comprehension id iterVar iterVar2 range accuVar init condition step result).ids =
      id :: (range.ids ++ init.ids ++ condition.ids ++ step.ids ++ result.ids) := by
  simp [ids_eq_children (comprehension ..), children, Expr.id]

theorem nodes_subset {c e : Expr} (h : c ∈ e.children) : c.nodes ⊆ e.nodes := by
  intro n hn
  rw [nodes, descendants_eq_children]
  exact List.mem_cons_of_mem _ (List.mem_flatMap.2 ⟨c, h, hn⟩)

end Ids

theorem sizeOf_lt_of_mem_children {c e : Expr} (h : c ∈ e.children) : sizeOf c < sizeOf e := by
  cases e with
  | literal id value => cases h
  | ident id name => cases h
  | select id operand field testOnly =>
    cases List.mem_singleton.1 h
    simp
    omega
  | call id function args =>
    have hargs := List.sizeOf_lt_of_mem (show c ∈ args from h)
    simp
    omega
  | receiverCall id target function args =>
    rcases List.mem_cons.1 h with rfl | h
    · simp
      omega
    · have hargs := List.sizeOf_lt_of_mem h
      simp
      omega
  | list id elements =>
    obtain ⟨el, hel, rfl⟩ := List.mem_map.1 h
    have helements := List.sizeOf_lt_of_mem hel
    cases el
    simp at helements ⊢
    omega
  | map id entries =>
    obtain ⟨entry, hentry, hc⟩ := List.mem_flatMap.1 h
    have hentries := List.sizeOf_lt_of_mem hentry
    cases entry
    simp only [List.mem_cons, List.not_mem_nil, or_false] at hc
    simp at hentries ⊢
    rcases hc with rfl | rfl <;> omega
  | message id name fields =>
    obtain ⟨field, hfield, hc⟩ := List.mem_flatMap.1 h
    have hfields := List.sizeOf_lt_of_mem hfield
    cases List.mem_singleton.1 hc
    cases field
    simp at hfields ⊢
    omega
  | comprehension id iterVar iterVar2 range accuVar init condition step result =>
    simp only [children, List.mem_cons, List.not_mem_nil, or_false] at h
    rcases h with rfl | rfl | rfl | rfl | rfl <;> simp <;> omega

@[simp] theorem children_childless (e : Expr) : e.childless.children = [] := by
  cases e <;> rfl

@[simp] theorem id_childless (e : Expr) : e.childless.id = e.id := by
  cases e <;> rfl

def IsText (e : Expr) : Prop := ∃ id text, e = .literal id (.string text)

theorem IsText.children_eq_nil {e : Expr} (h : e.IsText) : e.children = [] := by
  obtain ⟨id, text, rfl⟩ := h
  rfl

end Expr

end CelTyping
