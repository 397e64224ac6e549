import CelTyping.Expr.Build
import CelTyping.Proofs.Run

/-! Ids of trees that are built. Building a tree takes ids one after the other and puts trees
that were built before under new nodes. At any time some trees are pending, that is, they are
built and not yet part of others. No id comes twice in all of them together, and ids that are
further down were taken earlier. One new node on top of pending trees keeps this so, whatever
becomes of the rest, and every other way of building comes down to such nodes. -/
namespace CelTyping

namespace Expr

def partIds : Expr → List NodeId
  | .map _ entries => entries.map Entry.id
  | .message _ _ fields => fields.map FieldInit.id
  | _ => []

/-- The ids of a tree, those of entries and field initialisers among them. -/
def allIds (e : Expr) : List NodeId := e.nodes.flatMap fun n => n.id :: n.partIds

def idsBelow (e : Expr) : List NodeId :=
  e.partIds ++ e.descendants.flatMap fun n => n.id :: n.partIds

theorem allIds_eq_cons (e : Expr) : e.allIds = e.id :: e.idsBelow := rfl

theorem idsBelow_eq_children (e : Expr) :
    e.idsBelow = e.partIds ++ e.children.flatMap allIds := by
  rw [idsBelow, descendants_eq_children, List.flatMap_assoc]
  rfl

end Expr

/-- No id comes twice in these trees, all of them lie between the first one and the next one, and
those below a node are less than its own. -/
structure WellNumbered (first : NodeId) (forest : List Expr) (next : NodeId) : Prop where
  first_le : first ≤ next
  nodup : (forest.flatMap Expr.allIds).Nodup
  taken : ∀ i ∈ forest.flatMap Expr.allIds, first ≤ i ∧ i < next
  below : ∀ e ∈ forest, ∀ n ∈ e.nodes, ∀ i ∈ n.idsBelow, i < n.id

section Numbering

variable {forest forest' rest : List Expr} {first next next' : NodeId} {e : Expr}

theorem wellNumbered_nil : WellNumbered first [] first := ⟨Int.le_refl _, .nil, by simp, by simp⟩

theorem WellNumbered.perm (h : WellNumbered first forest next) (hperm : forest.Perm forest') :
    WellNumbered first forest' next where
  first_le := h.first_le
  nodup := (hperm.flatMap_right _).nodup_iff.1 h.nodup
  taken i hi := h.taken i ((hperm.flatMap_right _).mem_iff.2 hi)
  below e he := h.below e (hperm.mem_iff.2 he)

theorem WellNumbered.later (h : WellNumbered first forest next) (hle : next ≤ next') :
    WellNumbered first forest next' where
  first_le := Int.le_trans h.first_le hle
  nodup := h.nodup
  taken i hi := ⟨(h.taken i hi).1, Int.lt_of_lt_of_le (h.taken i hi).2 hle⟩
  below := h.below

/-- A node that is put on top of trees, with new ids for itself and its entries or fields. -/
theorem WellNumbered.node (h : WellNumbered first (e.children ++ rest) next) (hid : next ≤ e.id)
    (hparts : e.partIds.Nodup) (hnew : ∀ i ∈ e.partIds, next ≤ i ∧ i < e.id) :
    WellNumbered first (e :: rest) (e.id + 1) := by
  have hids : (e :: rest).flatMap Expr.allIds =
      e.id :: (e.partIds ++ (e.children ++ rest).flatMap Expr.allIds) := by
    simp only [List.flatMap_cons, List.flatMap_append, Expr.allIds_eq_cons e,
      Expr.idsBelow_eq_children, List.cons_append, List.append_assoc]
  have hless : ∀ i ∈ e.partIds ++ (e.children ++ rest).flatMap Expr.allIds,
      first ≤ i ∧ i < e.id := by
    intro i hi
    rcases List.mem_append.1 hi with hi | hi
    · exact ⟨Int.le_trans h.first_le (hnew i hi).1, (hnew i hi).2⟩
    · exact ⟨(h.taken i hi).1, Int.lt_of_lt_of_le (h.taken i hi).2 hid⟩
  have hfirst : first ≤ e.id := Int.le_trans h.first_le hid
  refine ⟨Int.le_trans hfirst (Int.le_of_lt (Int.lt_succ _)), ?_, ?_, ?_⟩
  · rw [hids, List.nodup_cons, List.nodup_append']
    refine ⟨fun hmem => Int.lt_irrefl _ (hless _ hmem).2, hparts, h.nodup, fun i hi hi' => ?_⟩
    -- what was taken before is less than `next`, and what the entries or fields take is not
    exact Int.not_lt.2 (hnew i hi).1 (h.taken i hi').2
  · rw [hids]
    refine List.forall_mem_cons.2 ⟨⟨hfirst, Int.lt_succ _⟩, fun i hi => ?_⟩
    exact ⟨(hless i hi).1, Int.lt_trans (hless i hi).2 (Int.lt_succ _)⟩
  · refine List.forall_mem_cons.2 ⟨List.forall_mem_cons.2 ⟨fun i hi => ?_, fun n hn => ?_⟩, ?_⟩
    · rw [Expr.idsBelow_eq_children] at hi
      refine (hless i ?_).2
      rw [List.flatMap_append, ← List.append_assoc]
      exact List.mem_append_left _ hi
    · rw [Expr.descendants_eq_children] at hn
      obtain ⟨child, hchild, hn⟩ := List.mem_flatMap.1 hn
      exact h.below child (List.mem_append_left _ hchild) n hn
    · exact fun other hother => h.below other (List.mem_append_right _ hother)

end Numbering

namespace Build

/-- Building takes over these trees from among those that are pending, and all that is pending
afterwards is well numbered, the new tree with the rest. -/
def Uses (used : List Expr) (build : Build Expr) : Prop :=
  ∀ first rest next, WellNumbered first (used ++ rest) next →
    WellNumbered first ((StateT.run build next).1 :: rest) (StateT.run build next).2

section Uses

variable {used used' context : List Expr} {build : Build Expr}

theorem Uses.perm (h : Uses used build) (hperm : context.Perm used) : Uses context build :=
  fun first rest next hw => h first rest next (hw.perm (hperm.append_right rest))

/-- What is built first may be used in what follows, and what it uses itself may not. -/
theorem Uses.bind {continuation : Expr → Build Expr} (hperm : context.Perm (used ++ used'))
    (h : Uses used build) (h' : ∀ e, Uses (e :: used') (continuation e)) :
    Uses context (build >>= continuation) := by
  intro first rest next hw
  have hw' := hw.perm (hperm.append_right rest)
  rw [List.append_assoc] at hw'
  exact h' _ first rest _ (h first (used' ++ rest) next hw')

theorem uses_node (make : NodeId → Expr) (hid : ∀ id, (make id).id = id)
    (hchildren : ∀ id, (make id).children = used) (hparts : ∀ id, (make id).partIds = []) :
    Uses used (return make (← fresh)) := by
  intro first rest next h
  have hnode : WellNumbered first (make next :: rest) ((make next).id + 1) := by
    rw [← hchildren next] at h
    apply h.node
    · exact Int.le_of_eq (hid next).symm
    · simp [hparts]
    · simp [hparts]
  rw [hid] at hnode
  exact hnode

end Uses

section Nodes

theorem uses_literal (value : Value) : Uses [] (literal value) :=
  uses_node (.literal · value) (fun _ => rfl) (fun _ => rfl) fun _ => rfl

theorem uses_ident (name : String) : Uses [] (ident name) :=
  uses_node (.ident · name) (fun _ => rfl) (fun _ => rfl) fun _ => rfl

theorem uses_select (operand : Expr) (field : String) : Uses [operand] (select operand field) :=
  uses_node (.select · operand field false) (fun _ => rfl) (fun _ => rfl) fun _ => rfl

theorem uses_presenceTest (operand : Expr) (field : String) :
    Uses [operand] (presenceTest operand field) :=
  uses_node (.select · operand field true) (fun _ => rfl) (fun _ => rfl) fun _ => rfl

theorem uses_call (function : String) (args : List Expr) : Uses args (call function args) :=
  uses_node (.call · function args) (fun _ => rfl) (fun _ => rfl) fun _ => rfl

theorem uses_receiverCall (target : Expr) (function : String) (args : List Expr) :
    Uses (target :: args) (receiverCall target function args) :=
  uses_node (.receiverCall · target function args) (fun _ => rfl) (fun _ => rfl) fun _ => rfl

theorem uses_list (elements : List Element) : Uses (elements.map Element.value) (list elements) :=
  uses_node (.list · elements) (fun _ => rfl) (fun _ => rfl) fun _ => rfl

theorem uses_plainList (values : List Expr) : Uses values (plainList values) := by
  have h := uses_list (values.map (⟨·, false⟩))
  rwa [List.map_map, show Element.value ∘ (⟨·, false⟩) = id from rfl, List.map_id] at h

theorem uses_comprehension (iterVar iterVar2 : String) (range : Expr) (accuVar : String)
    (init condition step result : Expr) :
    Uses [range, init, condition, step, result]
      (comprehension iterVar iterVar2 range accuVar init condition step result) :=
  uses_node (.comprehension · iterVar iterVar2 range accuVar init condition step result)
    (fun _ => rfl) (fun _ => rfl) fun _ => rfl

end Nodes

section Parts

variable {α β : Type} {make : NodeId → α → β} {partId : β → NodeId} {parts : List α}

def numbered (make : NodeId → α → β) (next : NodeId) : List α → List β
  | [] => []
  | part :: parts => make next part :: numbered make (next + 1) parts

theorem mem_ids_numbered (hpart : ∀ id part, partId (make id part) = id) {next i : Int}
    (h : i ∈ (numbered make next parts).map partId) : next ≤ i ∧ i < next + parts.length := by
  induction parts generalizing next with
  | nil => cases h
  | cons part parts ih =>
    rw [numbered, List.map_cons, hpart] at h
    rw [List.length_cons]
    rcases List.mem_cons.1 h with rfl | h
    · omega
    · have hi := ih h
      omega

theorem nodup_ids_numbered (hpart : ∀ id part, partId (make id part) = id) (next : Int) :
    ((numbered make next parts).map partId).Nodup := by
  induction parts generalizing next with
  | nil => exact .nil
  | cons part parts ih =>
    rw [numbered, List.map_cons, hpart]
    refine List.nodup_cons.2 ⟨fun hmem => ?_, ih (next + 1)⟩
    have hnext := (mem_ids_numbered hpart hmem).1
    omega

theorem flatMap_numbered {trees : β → List Expr} {trees' : α → List Expr}
    (htrees : ∀ id part, trees (make id part) = trees' part) (next : NodeId) (parts : List α) :
    (numbered make next parts).flatMap trees = parts.flatMap trees' := by
  induction parts generalizing next with
  | nil => rfl
  | cons part parts ih => rw [numbered, List.flatMap_cons, List.flatMap_cons, htrees, ih]

theorem run_each (make : NodeId → α → β) (parts : List α) (next : Int) :
    StateT.run (each make parts) next = (numbered make next parts, next + parts.length) := by
  induction parts generalizing next with
  | nil => exact congrArg (Prod.mk []) (Int.add_zero next).symm
  | cons part parts ih =>
    have hstep : StateT.run (each make (part :: parts)) next =
        (make next part :: (StateT.run (each make parts) (next + 1)).1,
          (StateT.run (each make parts) (next + 1)).2) := rfl
    have hcount : next + 1 + parts.length = next + (part :: parts).length := by
      rw [List.length_cons]
      omega
    rw [hstep, ih, hcount]
    rfl

theorem uses_parts {node : NodeId → List β → Expr} {trees : β → List Expr}
    {trees' : α → List Expr} (parts : List α)
    (hpart : ∀ id part, partId (make id part) = id) (hid : ∀ id ps, (node id ps).id = id)
    (hparts : ∀ id ps, (node id ps).partIds = ps.map partId)
    (hchildren : ∀ id ps, (node id ps).children = ps.flatMap trees)
    (htrees : ∀ id part, trees (make id part) = trees' part) :
    Uses (parts.flatMap trees') (do let ps ← each make parts; return node (← fresh) ps) := by
  intro first rest next h
  have hnode : WellNumbered first (node (next + parts.length) (numbered make next parts) :: rest)
      ((node (next + parts.length) (numbered make next parts)).id + 1) := by
    rw [← flatMap_numbered htrees next parts, ← hchildren (next + parts.length)] at h
    apply h.node
    · rw [hid]
      exact Int.le_add_of_nonneg_right (Int.natCast_nonneg _)
    · rw [hparts]
      exact nodup_ids_numbered hpart next
    · rw [hparts, hid]
      exact fun i hi => mem_ids_numbered hpart hi
  rw [hid] at hnode
  change WellNumbered first (node (StateT.run (each make parts) next).2
    (StateT.run (each make parts) next).1 :: rest) ((StateT.run (each make parts) next).2 + 1)
  rwa [run_each]

theorem uses_map (parts : List (Expr × Expr × Bool)) :
    Uses (parts.flatMap fun part => [part.1, part.2.1]) (map parts) :=
  uses_parts parts (fun _ _ => rfl) (fun _ _ => rfl) (fun _ _ => rfl) (fun _ _ => rfl)
    fun _ _ => rfl

theorem uses_message (name : String) (parts : List (String × Expr × Bool)) :
    Uses (parts.flatMap fun part => [part.2.1]) (message name parts) :=
  uses_parts parts (fun _ _ => rfl) (fun _ _ => rfl) (fun _ _ => rfl) (fun _ _ => rfl)
    fun _ _ => rfl

end Parts

section Compositions

theorem uses_binary (function : String) (left right : Expr) :
    Uses [left, right] (binary function left right) :=
  uses_call function [left, right]

theorem uses_optionalSelect (operand : Expr) (field : String) :
    Uses [operand] (optionalSelect operand field) :=
  .bind (.refl _) (uses_literal _) fun name => (uses_call _ [operand, name]).perm (.swap _ _ _)

theorem uses_selectAll (operand : Expr) (fields : List String) :
    Uses [operand] (selectAll operand fields) := by
  induction fields generalizing operand with
  | nil => exact fun first rest next h => h
  | cons field fields ih => exact .bind (.refl _) (uses_select operand field) ih

theorem uses_qualified (name : String) : Uses [] (qualified name) :=
  .bind (.refl _) (uses_ident _) fun first => uses_selectAll first _

variable (range : Expr) (var : String) (body : Expr)

theorem uses_loop (init condition step result : Expr) :
    Uses [result, step, condition, init, range] (loop var range init condition step result) :=
  (uses_comprehension _ _ _ _ _ _ _ _).perm
    (List.reverse_perm [range, init, condition, step, result])

/-! A macro takes its body out from under the parts that are pending by then: as an operand beside
the accumulator, as the one element of a list, or as the condition of a change. -/

theorem perm_operand (accu condition init : Expr) :
    [accu, condition, init, body, range].Perm ([accu, body] ++ [condition, init, range]) :=
  .cons accu (@List.perm_middle _ body [condition, init] [range])

theorem perm_element (done condition init : Expr) :
    [done, condition, init, body, range].Perm ([body] ++ [done, condition, init, range]) :=
  @List.perm_middle _ body [done, condition, init] [range]

theorem perm_conditional (accu changed condition init : Expr) :
    [accu, changed, condition, init, body, range].Perm
      ([body, changed, accu] ++ [condition, init, range]) :=
  (@List.perm_middle _ body [accu, changed, condition, init] [range]).trans
    (.cons body (.swap changed accu _))

theorem uses_all : Uses [body, range] (all range var body) :=
  .bind (.refl _) (uses_literal _) fun init =>
  .bind (.refl _) (uses_ident _) fun accu =>
  .bind (.refl _) (uses_call _ [accu]) fun condition =>
  .bind (.refl _) (uses_ident _) fun accu =>
  .bind (perm_operand range body accu condition init) (uses_binary _ accu body) fun step =>
  .bind (.refl _) (uses_ident _) fun result =>
  uses_loop range var init condition step result

theorem uses_any : Uses [body, range] (any range var body) :=
  .bind (.refl _) (uses_literal _) fun init =>
  .bind (.refl _) (uses_ident _) fun accu =>
  .bind (.refl _) (uses_call _ [accu]) fun done =>
  .bind (.refl _) (uses_call _ [done]) fun condition =>
  .bind (.refl _) (uses_ident _) fun accu =>
  .bind (perm_operand range body accu condition init) (uses_binary _ accu body) fun step =>
  .bind (.refl _) (uses_ident _) fun result =>
  uses_loop range var init condition step result

theorem uses_exactlyOne : Uses [body, range] (exactlyOne range var body) :=
  .bind (.refl _) (uses_literal _) fun init =>
  .bind (.refl _) (uses_literal _) fun condition =>
  .bind (.refl _) (uses_ident _) fun count =>
  .bind (.refl _) (uses_literal _) fun one =>
  .bind (.swap _ _ _) (uses_binary _ count one) fun incremented =>
  .bind (.refl _) (uses_ident _) fun accu =>
  .bind (perm_conditional range body accu incremented condition init)
    (uses_call _ [body, incremented, accu]) fun step =>
  .bind (.refl _) (uses_ident _) fun count =>
  .bind (.refl _) (uses_literal _) fun one =>
  .bind (.swap _ _ _) (uses_binary _ count one) fun result =>
  uses_loop range var init condition step result

theorem uses_mapEach : Uses [body, range] (mapEach range var body) :=
  .bind (.refl _) (uses_plainList []) fun init =>
  .bind (.refl _) (uses_literal _) fun condition =>
  .bind (.refl _) (uses_ident _) fun done =>
  .bind (perm_element range body done condition init) (uses_plainList [body]) fun single =>
  .bind (.swap _ _ _) (uses_binary _ done single) fun step =>
  .bind (.refl _) (uses_ident _) fun result =>
  uses_loop range var init condition step result

theorem uses_filter : Uses [body, range] (filter range var body) :=
  .bind (.refl _) (uses_plainList []) fun init =>
  .bind (.refl _) (uses_literal _) fun condition =>
  .bind (.refl _) (uses_ident _) fun done =>
  .bind (.refl _) (uses_ident _) fun element =>
  .bind (.refl _) (uses_plainList [element]) fun single =>
  .bind (.swap _ _ _) (uses_binary _ done single) fun appended =>
  .bind (.refl _) (uses_ident _) fun accu =>
  .bind (perm_conditional range body accu appended condition init)
    (uses_call _ [body, appended, accu]) fun step =>
  .bind (.refl _) (uses_ident _) fun result =>
  uses_loop range var init condition step result

end Compositions

inductive Method : List Expr → Build Expr → Prop where
  | literal (value : Value) : Method [] (literal value)
  | ident (name : String) : Method [] (ident name)
  | qualified (name : String) : Method [] (qualified name)
  | select (operand : Expr) (field : String) : Method [operand] (select operand field)
  | presenceTest (operand : Expr) (field : String) : Method [operand] (presenceTest operand field)
  | optionalSelect (operand : Expr) (field : String) :
      Method [operand] (optionalSelect operand field)
  | call (function : String) (args : List Expr) : Method args (call function args)
  | receiverCall (target : Expr) (function : String) (args : List Expr) :
      Method (target :: args) (receiverCall target function args)
  | binary (function : String) (left right : Expr) :
      Method [left, right] (binary function left right)
  | list (elements : List Element) : Method (elements.map Element.value) (list elements)
  | plainList (values : List Expr) : Method values (plainList values)
  | map (parts : List (Expr × Expr × Bool)) :
      Method (parts.flatMap fun part => [part.1, part.2.1]) (map parts)
  | message (name : String) (parts : List (String × Expr × Bool)) :
      Method (parts.flatMap fun part => [part.2.1]) (message name parts)
  | comprehension (iterVar iterVar2 : String) (range : Expr) (accuVar : String)
      (init condition step result : Expr) :
      Method [range, init, condition, step, result]
        (comprehension iterVar iterVar2 range accuVar init condition step result)
  | all (range : Expr) (var : String) (body : Expr) : Method [body, range] (all range var body)
  | any (range : Expr) (var : String) (body : Expr) : Method [body, range] (any range var body)
  | exactlyOne (range : Expr) (var : String) (body : Expr) :
      Method [body, range] (exactlyOne range var body)
  | mapEach (range : Expr) (var : String) (body : Expr) :
      Method [body, range] (mapEach range var body)
  | filter (range : Expr) (var : String) (body : Expr) :
      Method [body, range] (filter range var body)

/-- The trees that are pending and the next free id, after any number of trees were built and any
number of ids taken for nothing. A tree that is used is not pending any more. -/
inductive Pending : List Expr → NodeId → Prop where
  | start : Pending [] 1
  | skip {forest : List Expr} {next : NodeId} :
      Pending forest next → Pending forest (StateT.run fresh next).2
  | build {forest used rest : List Expr} {next : NodeId} {build : Build Expr} :
      Pending forest next → Method used build → forest.Perm (used ++ rest) →
        Pending ((StateT.run build next).1 :: rest) (StateT.run build next).2

section Pending

variable {forest used : List Expr} {next : NodeId} {build : Build Expr} {e : Expr}

theorem Method.uses (h : Method used build) : Uses used build := by
  cases h with
  | literal => exact uses_literal _
  | ident => exact uses_ident _
  | qualified => exact uses_qualified _
  | select => exact uses_select _ _
  | presenceTest => exact uses_presenceTest _ _
  | optionalSelect => exact uses_optionalSelect _ _
  | call => exact uses_call _ _
  | receiverCall => exact uses_receiverCall _ _ _
  | binary => exact uses_binary _ _ _
  | list => exact uses_list _
  | plainList => exact uses_plainList _
  | map => exact uses_map _
  | message => exact uses_message _ _
  | comprehension => exact uses_comprehension _ _ _ _ _ _ _ _
  | all => exact uses_all _ _ _
  | any => exact uses_any _ _ _
  | exactlyOne => exact uses_exactlyOne _ _ _
  | mapEach => exact uses_mapEach _ _ _
  | filter => exact uses_filter _ _ _

theorem Pending.wellNumbered (h : Pending forest next) : WellNumbered 1 forest next := by
  induction h with
  | start => exact wellNumbered_nil
  | skip _ ih => exact ih.later (Int.le_of_lt (Int.lt_succ _))
  | build _ hmethod hperm ih => exact hmethod.uses _ _ _ (ih.perm hperm)

end Pending

end Build

/-- In a tree that was built, all ids of nodes, entries and field initialisers are different, lie
between 1 and the next free id, and are greater than those below them. -/
theorem built_ids_increase {forest : List Expr} {next : NodeId} (h : Build.Pending forest next)
    {e : Expr} (he : e ∈ forest) :
    e.allIds.Nodup ∧ (∀ i ∈ e.allIds, 1 ≤ i ∧ i < next) ∧
      ∀ n ∈ e.nodes, ∀ i ∈ n.idsBelow, i < n.id := by
  have hw := h.wellNumbered
  refine ⟨?_, fun i hi => hw.taken i (List.mem_flatMap.2 ⟨e, he, hi⟩), hw.below e he⟩
  exact (List.nodup_flatMap.1 hw.nodup).1 e he

def filteredMap : Build Expr := do
  let key ← Build.literal (.string "k")
  let value ← Build.literal (.int 1)
  let range ← Build.map [(key, value, true)]
  let _ ← Build.fresh
  let body ← Build.ident "x"
  Build.filter range "x" body

theorem built_ids_increase_filteredMap :
    Build.Pending [filteredMap.run.1] filteredMap.run.2 ∧ filteredMap.run.1.allIds.Nodup ∧
      (∀ i ∈ filteredMap.run.1.allIds, 1 ≤ i ∧ i < filteredMap.run.2) ∧
      ∀ n ∈ filteredMap.run.1.nodes, ∀ i ∈ n.idsBelow, i < n.id := by
  have hkey := Build.Pending.start.build (.literal (.string "k")) (.refl _)
  have hvalue := hkey.build (.literal (.int 1)) (.refl _)
  have hrange := hvalue.build (.map [(.literal 1 (.string "k"), .literal 2 (.int 1), true)])
    (.swap _ _ _)
  have hbody := hrange.skip.build (.ident "x") (.refl _)
  have hfilter : Build.Pending [filteredMap.run.1] filteredMap.run.2 :=
    hbody.build (.filter _ "x" _) (.refl _)
  exact ⟨hfilter, built_ids_increase hfilter List.mem_cons_self⟩

end CelTyping
