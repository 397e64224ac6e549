import CelTyping.Proofs.Run

/-! What is recorded in the tables of a session, and what is reported besides. The tables are
changed by recording a type or a reference for a node and in no other way; everything else leaves
them alone and reports at most some mistakes. A write may be reported too, if it clashes with an
earlier one. A reference that is recorded without a report is alike the one that was there. -/
namespace CelTyping

inductive Write where
  | type (node : NodeId)
  | reference (node : NodeId)
deriving DecidableEq

def Write.node : Write → NodeId
  | .type node => node
  | .reference node => node

def Cause.isClash : Cause → Bool
  | .incompatibleType _ _ | .conflictingReference _ _ => true
  | _ => false

namespace Session

/-- Nothing is written, and what is reported is about these places and is no clash. -/
structure Remarks (places : List NodeId) (s s' : Session) : Prop where
  types : s'.types = s.types
  references : s'.references = s.references
  reports : ∃ ds, s'.diagnostics = s.diagnostics ++ ds ∧
    ∀ d ∈ ds, d.node ∈ places ∧ d.cause.isClash = false

section Remarking

variable {places : List NodeId} {s s₁ s' : Session}

theorem Remarks.of_eq (ht : s'.types = s.types) (hr : s'.references = s.references)
    (hd : s'.diagnostics = s.diagnostics) : Remarks places s s' :=
  ⟨ht, hr, [], by rw [hd, List.append_nil], by simp⟩

theorem Remarks.refl (s : Session) : Remarks places s s := .of_eq rfl rfl rfl

theorem Remarks.trans (h : Remarks places s s₁) (h' : Remarks places s₁ s') :
    Remarks places s s' := by
  obtain ⟨ds, hds, hall⟩ := h.reports
  obtain ⟨ds', hds', hall'⟩ := h'.reports
  refine ⟨h'.types.trans h.types, h'.references.trans h.references, ds ++ ds', ?_, ?_⟩
  · rw [hds', hds, List.append_assoc]
  · exact List.forall_mem_append.2 ⟨hall, hall'⟩

theorem remarks_report (s : Session) {node : NodeId} {cause : Cause} (h : node ∈ places)
    (hc : cause.isClash = false) : Remarks places s (s.report node cause) :=
  ⟨rfl, rfl, [⟨node, cause⟩], rfl, List.forall_mem_singleton.2 ⟨h, hc⟩⟩

theorem remarks_ite {s₂ : Session} {c : Prop} [Decidable c] (h₁ : Remarks places s s₁)
    (h₂ : Remarks places s s₂) : Remarks places s (if c then s₁ else s₂) := by
  split
  next => exact h₁
  next => exact h₂

theorem remarks_assign (s : Session) (a b : Ty) : Remarks places s (s.assign a b).2 := by
  unfold Session.assign
  split
  next => exact .of_eq rfl rfl rfl
  next => exact .refl s

theorem remarks_expectType (s : Session) {node : NodeId} (expected : Ty) (h : node ∈ places) :
    Remarks places s (s.expectType node expected) :=
  remarks_ite (s.remarks_assign _ _) ((s.remarks_assign _ _).trans (remarks_report _ h rfl))

theorem remarks_fieldType (s : Session) (env : Environment) {node : NodeId}
    (message field : String) (h : node ∈ places) :
    Remarks places s (s.fieldType env node message field).2 := by
  unfold fieldType
  split
  next => exact s.remarks_report h rfl
  next =>
    split
    next => exact .refl s
    next => exact s.remarks_report h rfl

theorem remarks_selectedType (s : Session) (env : Environment) {node : NodeId}
    (operand : NodeId) (field : String) (optional : Bool) (h : node ∈ places) :
    Remarks places s (s.selectedType env node operand field optional).2 := by
  unfold selectedType
  simp only
  split
  next => exact .refl s
  next name _ => exact s.remarks_fieldType env name field h
  next => exact s.remarks_assign _ _
  next => exact .refl s
  next => exact .refl s
  next => exact s.remarks_report h rfl

theorem remarks_entryType (s : Session) {node : NodeId} (optional : Bool) (h : node ∈ places) :
    Remarks places s (s.entryType node optional).2 := by
  unfold entryType
  simp only
  split
  next =>
    split
    next => exact .refl s
    next => exact s.remarks_report h rfl
  next => exact .refl s

theorem remarks_joinTypes (s : Session) (env : Environment) {node : NodeId}
    (previous : Option Ty) (current : Ty) (h : node ∈ places) :
    Remarks places s (s.joinTypes env node previous current).2 := by
  unfold joinTypes
  split
  next => exact .refl s
  next previous =>
    have ha : Remarks places s (s.assign previous current).2 := s.remarks_assign previous current
    simp only
    split
    next => exact ha
    next =>
      split
      next => exact ha
      next => exact ha.trans (remarks_report _ h rfl)

theorem remarks_joinMember (s : Session) (env : Environment) {node : NodeId} (optional : Bool)
    (previous : Option Ty) (h : node ∈ places) :
    Remarks places s (s.joinMember env node optional previous).2 :=
  (s.remarks_entryType optional h).trans (remarks_joinTypes _ env previous _ h)

theorem remarks_memberType (s : Session) (t : Option Ty) :
    Remarks places s (s.memberType t).2 := by
  cases t with
  | none => exact .of_eq rfl rfl rfl
  | some t => exact .refl s

theorem remarks_loopTypes (s : Session) {range : NodeId} (two : Bool) (h : range ∈ places) :
    Remarks places s (s.loopTypes range two).2 := by
  unfold loopTypes
  simp only
  split
  next => exact .refl s
  next => exact .refl s
  next => exact s.remarks_assign _ _
  next => exact s.remarks_assign _ _
  next => exact s.remarks_assign _ _
  next => exact s.remarks_report h rfl

theorem remarks_enterLoop (s : Session) {range : NodeId} (init : NodeId)
    (iterVar iterVar2 accuVar : String) (h : range ∈ places) :
    Remarks places s (s.enterLoop range init iterVar iterVar2 accuVar) :=
  (s.remarks_loopTypes (iterVar2 != "") h).trans (.of_eq rfl rfl rfl)

theorem remarks_literalTarget (s : Session) {node : NodeId} (v : Variable) (h : node ∈ places) :
    Remarks places s (s.literalTarget node v).2 := by
  unfold literalTarget
  split
  next => exact .refl s
  next =>
    split
    next => exact .refl s
    next =>
      split
      next => exact .refl s
      next => exact s.remarks_report h rfl
  next => exact s.remarks_report h rfl

theorem remarks_expectField (s : Session) (env : Environment) (target : LiteralTarget)
    {node : NodeId} (field : String) {value : NodeId} (optional : Bool) (h : node ∈ places)
    (hv : value ∈ places) :
    Remarks places s (s.expectField env target node field value optional) := by
  have hfield : Remarks places s
      (if target.type.isError then (target.type, s)
        else s.fieldType env node target.name field).2 := by
    split
    next => exact .refl s
    next => exact s.remarks_fieldType env target.name field h
  have hentry := hfield.trans (remarks_entryType _ optional hv)
  exact remarks_ite (hentry.trans (remarks_assign _ _ _))
    ((hentry.trans (remarks_assign _ _ _)).trans (remarks_report _ h rfl))

theorem remarks_checkField (s : Session) (env : Environment) (target : Option LiteralTarget)
    {node : NodeId} (field : String) {value : NodeId} (optional : Bool) (h : node ∈ places)
    (hv : value ∈ places) :
    Remarks places s (s.checkField env target node field value optional) := by
  cases target with
  | none => exact .refl s
  | some target => exact s.remarks_expectField env target field optional h hv

theorem remarks_instantiate (s : Session) (o : Overload) :
    Remarks places s (s.instantiate o).2 := by
  unfold instantiate freshVars
  refine List.foldlRecOn (motive := fun (p : Bindings × Session) => Remarks places s p.2)
    o.typeParamNames _ (.refl s) ?_
  intro p h name _
  exact h.trans (.of_eq rfl rfl rfl)

theorem remarks_matchOverloads (function : String) (args : List Ty) (os : List Overload) :
    ∀ (found : Option Resolved) (s : Session),
      Remarks places s (matchOverloads function args os found s).2 := by
  induction os with
  | nil => exact fun _ s => .refl s
  | cons o os ih =>
    intro found s
    have h : Remarks places s (s.instantiate o).2 := s.remarks_instantiate o
    simp only [matchOverloads]
    split
    next => exact h.trans (ih found _)
    next m _ =>
      have hm : Remarks places s { (s.instantiate o).2 with bindings := m } :=
        h.trans (.of_eq rfl rfl rfl)
      exact hm.trans (ih _ _)

theorem remarks_expectBools (args : List NodeId) (h : args ⊆ places) :
    ∀ (ts : List Ty) (s : Session), Remarks places s (s.expectBools args ts) := by
  induction args with
  | nil => exact fun _ s => .refl s
  | cons arg args ih =>
    intro ts s
    cases ts with
    | nil => exact .refl s
    | cons t ts =>
      obtain ⟨harg, hargs⟩ := List.cons_subset.1 h
      have ha : Remarks places s (s.assign t .bool).2 := s.remarks_assign t .bool
      exact (remarks_ite ha (ha.trans (remarks_report _ harg rfl))).trans (ih hargs ts _)

theorem remarks_resolveOverload (s : Session) (env : Environment) (node : NodeId) (f : Function)
    (isMember : Bool) {args : List NodeId} (h : args ⊆ places) :
    Remarks places s (s.resolveOverload env node f isMember args).2 := by
  unfold resolveOverload
  simp only
  split
  next =>
    split
    next => exact .refl s
    next => exact remarks_expectBools args h _ s
  next =>
    have hm : Remarks places s (matchOverloads f.name (args.map s.typeOf)
        (f.overloads.filter fun o => !env.isDisabled o.id && o.isMember == isMember) none s).2 :=
      remarks_matchOverloads _ _ _ none s
    split
    next heq =>
      rw [heq] at hm
      exact hm
    next heq =>
      rw [heq] at hm
      exact hm

end Remarking

section Settling

variable {places : List NodeId}

theorem remarks_settle (s : Session) (env : Environment) {node : NodeId} (kept : Kept)
    {place : Place} (h : node ∈ places) (hplace : place.nodes ⊆ places) :
    Remarks places s (s.settle env node kept place).2 := by
  cases place with
  | plain => exact .refl s
  | key => exact s.remarks_joinMember env false kept.key h
  | value optional => exact s.remarks_joinMember env optional kept.value h
  | field target id name optional =>
    exact s.remarks_checkField env target name optional (hplace List.mem_cons_self) h
  | start range iterVar iterVar2 accuVar =>
    exact s.remarks_enterLoop node iterVar iterVar2 accuVar (hplace List.mem_cons_self)
  | condition => exact s.remarks_expectType .bool h
  | step => exact (s.remarks_expectType _ h).trans (.of_eq rfl rfl rfl)

end Settling

end Session

/-- The references name the same thing, and both of them or neither as a function. -/
def Reference.Alike (a b : Reference) : Prop := a.name = b.name ∧ a.isFunction = b.isFunction

section Merging

theorem Reference.Alike.trans {a b c : Reference} (h : a.Alike b) (h' : b.Alike c) : a.Alike c :=
  ⟨h.1.trans h'.1, h.2.trans h'.2⟩

theorem Reference.alike_of_agrees {a b : Reference} (h : a.agrees b = true) : a.Alike b := by
  simp only [Reference.agrees, Bool.and_eq_true, beq_iff_eq] at h
  obtain ⟨⟨⟨hname, _⟩, hlength⟩, _⟩ := h
  refine ⟨hname, ?_⟩
  have hempty : a.overloads.isEmpty = b.overloads.isEmpty := by
    rw [Bool.eq_iff_iff, List.isEmpty_iff_length_eq_zero, List.isEmpty_iff_length_eq_zero, hlength]
  rw [Reference.isFunction, Reference.isFunction, hempty]

theorem Reference.alike_addOverload {r : Reference} (h : r.isFunction = true) (id : String) :
    (r.addOverload id).Alike r := by
  unfold Reference.addOverload
  split
  next => exact ⟨rfl, rfl⟩
  next =>
    rw [Reference.Alike, h]
    simp [Reference.isFunction]

theorem Reference.alike_merge {r : Reference} (h : r.isFunction = true) (ids : List String) :
    (ids.foldl Reference.addOverload r).Alike r := by
  induction ids generalizing r with
  | nil => exact ⟨rfl, rfl⟩
  | cons id ids ih =>
    have hadd := Reference.alike_addOverload h id
    exact (ih (hadd.2.trans h)).trans hadd

end Merging

namespace Session

section Writing

theorem setType_cases (s : Session) (node : NodeId) (t : Ty) :
    s.setType node t = { s with types := s.types.insert node t } ∨
      ∃ existing, s.types.get? node = some existing ∧
        s.setType node t = s.report node (.incompatibleType existing t) := by
  unfold setType
  split
  next existing h =>
    split
    next => exact .inl rfl
    next => exact .inr ⟨existing, h, rfl⟩
  next => exact .inl rfl

@[simp] theorem setType_references (s : Session) (node : NodeId) (t : Ty) :
    (s.setType node t).references = s.references := by
  rcases s.setType_cases node t with heq | ⟨_, _, heq⟩
  · rw [heq]
  · rw [heq, report_references]

@[simp] theorem setType_types_of_ne (s : Session) {node node' : NodeId} (t : Ty)
    (h : node' ≠ node) : (s.setType node t).types.get? node' = s.types.get? node' := by
  rcases s.setType_cases node t with heq | ⟨_, _, heq⟩
  · rw [heq]
    exact Table.get?_insert_of_ne _ _ h
  · rw [heq, report_types]

/-- A reference is recorded, or taken together with one that it is alike, or there is another
one already. -/
theorem setReference_cases (s : Session) (node : NodeId) (r : Reference) :
    s.references.get? node = none ∧
        s.setReference node r = { s with references := s.references.insert node r } ∨
      ∃ existing, s.references.get? node = some existing ∧
        (existing.Alike r ∧ s.setReference node r = s ∨
          (∃ merged : Reference, merged.Alike existing ∧ existing.Alike r ∧
            s.setReference node r = { s with references := s.references.insert node merged }) ∨
          s.setReference node r = s.report node (.conflictingReference existing.text r.text)) := by
  unfold setReference
  split
  next h => exact .inl ⟨h, rfl⟩
  next existing h =>
    refine .inr ⟨existing, h, ?_⟩
    split
    next hagrees => exact .inl ⟨Reference.alike_of_agrees hagrees, rfl⟩
    next =>
      split
      next hsame =>
        simp only [Bool.and_eq_true, beq_iff_eq] at hsame
        obtain ⟨⟨hexisting, hr⟩, hname⟩ := hsame
        exact .inr (.inl ⟨_, Reference.alike_merge hexisting _, ⟨hname, hexisting.trans hr.symm⟩,
          rfl⟩)
      next => exact .inr (.inr rfl)

@[simp] theorem setReference_references_of_ne (s : Session) {node node' : NodeId} (r : Reference)
    (h : node' ≠ node) :
    (s.setReference node r).references.get? node' = s.references.get? node' := by
  rcases s.setReference_cases node r with ⟨_, heq⟩ | ⟨_, _, ⟨_, heq⟩ | ⟨_, _, _, heq⟩ | heq⟩
  · rw [heq]
    exact Table.get?_insert_of_ne _ _ h
  · rw [heq]
  · rw [heq]
    exact Table.get?_insert_of_ne _ _ h
  · rw [heq, report_references]

theorem report_diagnostics_ne (s : Session) (node : NodeId) (cause : Cause) :
    (s.report node cause).diagnostics ≠ [] := by
  simp

theorem setReference_self {s : Session} {node : NodeId} {r : Reference}
    (h : (s.setReference node r).diagnostics = []) :
    ∃ found, (s.setReference node r).references.get? node = some found ∧ found.Alike r := by
  rcases s.setReference_cases node r with ⟨_, heq⟩ |
    ⟨existing, hex, ⟨hr, heq⟩ | ⟨merged, hm, hr, heq⟩ | heq⟩
  · exact ⟨r, by rw [heq]; exact Table.get?_insert_self _ _ _, rfl, rfl⟩
  · exact ⟨existing, by rw [heq]; exact hex, hr⟩
  · exact ⟨merged, by rw [heq]; exact Table.get?_insert_self _ _ _, hm.trans hr⟩
  · rw [heq] at h
    exact absurd h (report_diagnostics_ne _ _ _)

end Writing

section Clashes

def Free (s : Session) : Write → Prop
  | .type node => s.types.get? node = none
  | .reference node => s.references.get? node = none

theorem setType_reports (s : Session) (node : NodeId) (t : Ty) :
    ∃ ds, (s.setType node t).diagnostics = s.diagnostics ++ ds ∧ (∀ d ∈ ds, d.node = node) ∧
      (s.Free (.type node) → ds = []) := by
  rcases s.setType_cases node t with heq | ⟨existing, hex, heq⟩
  · exact ⟨[], by simp [heq], by simp, fun _ => rfl⟩
  · refine ⟨_, congrArg diagnostics heq, by simp, fun hf => ?_⟩
    rw [Free, hex] at hf
    cases hf

theorem setReference_reports (s : Session) (node : NodeId) (r : Reference) :
    ∃ ds, (s.setReference node r).diagnostics = s.diagnostics ++ ds ∧ (∀ d ∈ ds, d.node = node) ∧
      (s.Free (.reference node) → ds = []) := by
  rcases s.setReference_cases node r with ⟨_, heq⟩ |
    ⟨existing, hex, ⟨_, heq⟩ | ⟨_, _, _, heq⟩ | heq⟩
  · exact ⟨[], by simp [heq], by simp, fun _ => rfl⟩
  · exact ⟨[], by simp [heq], by simp, fun _ => rfl⟩
  · exact ⟨[], by simp [heq], by simp, fun _ => rfl⟩
  · refine ⟨_, congrArg diagnostics heq, by simp, fun hf => ?_⟩
    rw [Free, hex] at hf
    cases hf

end Clashes

end Session

end CelTyping
