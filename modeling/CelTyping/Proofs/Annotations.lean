import CelTyping.Proofs.Closing
import CelTyping.Proofs.SideTables

/-! What a pass says about the tree that it gives. Each node of that tree has a type, also
where the walk went no further; and if nothing is reported, each name in it is written the way
its reference has it. Types stay once they are recorded. A reference may be taken together
with later ones for its node, and then it still names the same thing. -/
namespace CelTyping

namespace Reference

def NamesVariable (name : String) (r : Reference) : Prop := r.name = name ∧ r.overloads = []

def NamesFunction (function : String) (r : Reference) : Prop :=
  r.name = function ∧ r.overloads ≠ []

section Alike

variable {a b : Reference}

theorem Alike.overloads_eq_nil_iff (h : a.Alike b) : a.overloads = [] ↔ b.overloads = [] := by
  have hf := h.2
  rw [isFunction, isFunction, Bool.not_inj_iff, Bool.eq_iff_iff] at hf
  simpa only [List.isEmpty_iff] using hf

theorem Alike.namesVariable {name : String} (h : a.Alike b) (hb : b.NamesVariable name) :
    a.NamesVariable name :=
  ⟨h.1.trans hb.1, h.overloads_eq_nil_iff.2 hb.2⟩

theorem Alike.namesFunction {function : String} (h : a.Alike b)
    (hb : b.NamesFunction function) : a.NamesFunction function :=
  ⟨h.1.trans hb.1, mt h.overloads_eq_nil_iff.1 hb.2⟩

theorem NamesFunction.isFunction {function : String} (h : a.NamesFunction function) :
    a.isFunction = true := by
  simp [Reference.isFunction, h.2]

end Alike

end Reference

/-- The name in a node, if it has one, is what the references say that it means. -/
def Expr.RefersIn (refs : Table NodeId Reference) : Expr → Prop
  | .ident id name => ∃ r, refs.get? id = some r ∧ r.NamesVariable name
  | .call id function _ => ∃ r, refs.get? id = some r ∧ r.NamesFunction function
  | .receiverCall id _ function _ => ∃ r, refs.get? id = some r ∧ r.NamesFunction function
  | .message id _ _ => ∃ r, refs.get? id = some r
  | _ => True

theorem Expr.RefersIn.later {refs refs' : Table NodeId Reference} {n : Expr}
    (h : n.RefersIn refs)
    (hlater : ∀ {id known}, refs.get? id = some known →
      ∃ found, refs'.get? id = some found ∧ found.Alike known) : n.RefersIn refs' := by
  cases n with
  | ident id name =>
    obtain ⟨r, hr, hname⟩ := h
    obtain ⟨found, hf, halike⟩ := hlater hr
    exact ⟨found, hf, halike.namesVariable hname⟩
  | call id function args =>
    obtain ⟨r, hr, hname⟩ := h
    obtain ⟨found, hf, halike⟩ := hlater hr
    exact ⟨found, hf, halike.namesFunction hname⟩
  | receiverCall id target function args =>
    obtain ⟨r, hr, hname⟩ := h
    obtain ⟨found, hf, halike⟩ := hlater hr
    exact ⟨found, hf, halike.namesFunction hname⟩
  | message id name fields =>
    obtain ⟨r, hr⟩ := h
    obtain ⟨found, hf, _⟩ := hlater hr
    exact ⟨found, hf⟩
  | _ => trivial

namespace Session

/-- What a session knows about a node of the tree that is being written. -/
structure Accounts (s : Session) (n : Expr) : Prop where
  typed : s.Typed n.id
  refers : s.diagnostics = [] → n.RefersIn s.references

theorem Accounts.later {s s' : Session} {n : Expr} (h : s.Accounts n) (hs : s.Extends s') :
    s'.Accounts n where
  typed := by
    obtain ⟨t, ht⟩ := Option.isSome_iff_exists.1 h.typed
    obtain ⟨t', ht', -⟩ := hs.types n.id t ht
    exact Option.isSome_iff_exists.2 ⟨t', ht'⟩
  refers hok := by
    refine (h.refers (hs.diagnostics_eq_nil hok)).later fun {id known} hknown => ?_
    obtain ⟨found, hfound, hgrows⟩ := hs.references id known hknown
    exact ⟨found, hfound, hgrows.alike⟩

section Calls

theorem matchOverloads_names {function : String} (args : List Ty) (os : List Overload) :
    ∀ (found : Option Resolved) (s : Session) (r : Resolved),
      (∀ r ∈ found, r.reference.NamesFunction function) →
      (matchOverloads function args os found s).1 = some r →
        r.reference.NamesFunction function := by
  induction os with
  | nil => exact fun found s r hfound h => hfound r h
  | cons o os ih =>
    intro found s r hfound h
    simp only [matchOverloads] at h
    split at h
    next => exact ih found _ r hfound h
    next =>
      refine ih _ _ r ?_ h
      intro r hr
      cases Option.some.inj hr
      cases found with
      | none => exact ⟨rfl, List.cons_ne_nil _ _⟩
      | some r =>
        have hr := hfound r rfl
        exact (Reference.alike_addOverload hr.isFunction o.id).namesFunction hr

theorem resolveOverload_names {s s₁ : Session} {env : Environment} {node : NodeId}
    {f : Function} {isMember : Bool} {args : List NodeId} {r : Resolved}
    (h : s.resolveOverload env node f isMember args = (.ok r, s₁)) :
    r.reference.NamesFunction f.name := by
  unfold resolveOverload at h
  simp only at h
  split at h
  next =>
    split at h
    next => cases h
    next =>
      cases h
      exact ⟨rfl, List.cons_ne_nil _ _⟩
  next =>
    split at h
    next heq =>
      cases h
      exact matchOverloads_names _ _ none s r (by simp) (congrArg Prod.fst heq)
    next => cases h

theorem resolveCall_refers {s : Session} {env : Environment} {node : NodeId} {f : Function}
    {isMember : Bool} {args : List NodeId}
    (hok : (s.resolveCall env node f isMember args).diagnostics = []) :
    ∃ r, (s.resolveCall env node f isMember args).references.get? node = some r ∧
      r.NamesFunction f.name := by
  cases hres : s.resolveOverload env node f isMember args with
  | mk outcome s₁ =>
    simp only [resolveCall, hres] at hok ⊢
    cases outcome with
    | ok r =>
      obtain ⟨found, hf, halike⟩ := setReference_self hok
      exact ⟨found, hf, halike.namesFunction (resolveOverload_names hres)⟩
    | error d => exact absurd hok (failNode_diagnostics_ne _ _ _)

end Calls

section Names

variable {s : Session} {env : Environment}

theorem setVariable_refers {node : NodeId} {v : Variable}
    (hok : (s.setVariable node v).diagnostics = []) :
    ∃ r, (s.setVariable node v).references.get? node = some r ∧ r.NamesVariable v.name := by
  obtain ⟨found, hf, halike⟩ := setReference_self hok
  exact ⟨found, hf, halike.namesVariable ⟨rfl, rfl⟩⟩

theorem recordOptionalSelect_refers {id operand fieldId : NodeId} {field : String}
    (hok : (s.recordOptionalSelect env id operand fieldId field).diagnostics = []) :
    ∃ r, (s.recordOptionalSelect env id operand fieldId field).references.get? id = some r ∧
      r.NamesFunction Operator.optionalSelect := by
  obtain ⟨found, hf, halike⟩ := setReference_self hok
  exact ⟨found, hf, halike.namesFunction ⟨rfl, List.cons_ne_nil _ _⟩⟩

theorem enterMessage_refers {id : NodeId} {v : Variable}
    (hok : (s.enterMessage id v).2.diagnostics = []) :
    ∃ r, (s.enterMessage id v).2.references.get? id = some r ∧ r.NamesVariable v.name := by
  have hid : id ∈ [id] := List.mem_singleton_self id
  have hrest : (s.setReference id { name := v.name }).Extends (s.enterMessage id v).2 :=
    (remarks_literalTarget _ v hid).extends.trans (extends_setType _ id _)
  obtain ⟨r, hr, hself⟩ := setReference_self (hrest.diagnostics_eq_nil hok)
  obtain ⟨found, hf, hgrows⟩ := hrest.references id r hr
  exact ⟨found, hf, (hgrows.alike.trans hself).namesVariable ⟨rfl, rfl⟩⟩

end Names

end Session

section Nodes

variable {env : Environment}

theorem ChecksFields.extends {target : Option LiteralTarget} {es es' : List FieldInit}
    {s s' : Session} (h : ChecksFields env target es s es' s') : s.Extends s' := by
  obtain ⟨_, _, hm⟩ := h.members
  exact hm.extends Descends.extends

theorem Checks.refers {e e' : Expr} {s s' : Session} (h : Checks env e s e' s')
    (hok : s'.diagnostics = []) : e'.RefersIn s'.references := by
  cases h with
  | ident _ => exact Session.setVariable_refers hok
  | unknownIdent _ => exact absurd hok (Session.failNode_diagnostics_ne _ _ _)
  | qualified _ => exact Session.setVariable_refers hok
  | optionalSelect _ => exact Session.recordOptionalSelect_refers hok
  | call _ _ _ => exact Session.resolveCall_refers hok
  | unknownCall _ _ _ => exact absurd hok (Session.failNode_diagnostics_ne _ _ _)
  | namespaced _ _ _ => exact Session.resolveCall_refers hok
  | member _ _ _ _ _ => exact Session.resolveCall_refers hok
  | unknownMember _ _ _ _ _ => exact absurd hok (Session.failNode_diagnostics_ne _ _ _)
  | message _ hf =>
    obtain ⟨r, hr, _⟩ := Session.enterMessage_refers (hf.extends.diagnostics_eq_nil hok)
    obtain ⟨found, hfound, _⟩ := hf.extends.references _ r hr
    exact ⟨found, hfound⟩
  | unknownMessage _ hf =>
    exact absurd (hf.extends.diagnostics_eq_nil hok) (Session.failNode_diagnostics_ne _ _ _)
  | _ => trivial

theorem Descends.accounts_self {e e' : Expr} {s s' : Session} (h : Descends env e s e' s') :
    s'.Accounts e' := by
  refine ⟨?_, fun hok => ?_⟩
  · rw [h.id_eq]
    exact h.typed
  · cases h with
    | limit _ => exact absurd hok (s.failNode_diagnostics_ne _ _)
    | node _ h => exact h.refers hok

theorem Session.accounts_name (s : Session) (env : Environment) (id : NodeId) (kept : Kept)
    {w : Work} {c n : Expr} (hc : c ∈ w.names) (hn : n ∈ c.nodes) :
    (s.work env id kept w).Accounts n := by
  obtain ⟨textId, text, rfl⟩ := Work.isText_of_mem_names hc
  cases List.mem_singleton.1 hn
  exact ⟨s.typed_work env kept (w.id_mem_nodes hc), fun _ => trivial⟩

theorem Members.accounts {R : Expr → Session → Expr → Session → Prop} {ms : List Member}
    {kept kept' : Kept} {s s' : Session} {es' : List Expr}
    (h : Members env R ms kept s es' kept' s')
    (hR : ∀ {c c' t t'}, R c t c' t' → t.Extends t' ∧ ∀ n ∈ c'.nodes, t'.Accounts n) :
    ∀ n ∈ es'.flatMap Expr.nodes, s'.Accounts n := by
  induction h with
  | nil => exact List.forall_mem_nil _
  | cons hd hs ih =>
    have hrest := (Session.extends_settle _ env _ _ _).trans (hs.extends fun h => (hR h).1)
    exact List.forall_mem_append.2 ⟨fun n hn => ((hR hd).2 n hn).later hrest, ih⟩

theorem Descends.accounts {e e' : Expr} {s s' : Session} (h : Descends env e s e' s') :
    ∀ n ∈ e'.nodes, s'.Accounts n := by
  refine List.forall_mem_cons.2 ⟨h.accounts_self, ?_⟩
  induction h using Descends.course_induction with
  | @limit e s _ =>
    rw [Expr.descendants_eq_children, Expr.children_childless]
    exact List.forall_mem_nil _
  | @node e _ s _ hlt hc =>
    cases hc with
    | @mk p parts kept _ s₁ hp hm =>
      have hmembers : ∀ n ∈ parts.flatMap Expr.nodes, s₁.Accounts n := hm.accounts
        fun ⟨hd, ih⟩ => ⟨hd.extends, List.forall_mem_cons.2 ⟨hd.accounts_self, ih⟩⟩
      have hclosing := s₁.extends_work env e.id kept p.closing
      intro n hn
      rw [Expr.descendants_eq_children] at hn
      obtain ⟨c, hc, hn⟩ := List.mem_flatMap.1 hn
      have hn' : (s₁.work env e.id kept p.closing).Accounts n := by
        have hperm := (plan_fits hp).tree parts hm.length_eq
        rcases List.mem_append.1 (hperm.mem_iff.1 hc) with hc | hc
        · exact (hmembers n (List.mem_flatMap.2 ⟨c, hc, hn⟩)).later hclosing
        · exact s₁.accounts_name env e.id kept hc hn
      exact ⟨hn'.typed, hn'.refers⟩

end Nodes

/-- A pass that gets to its end has a closed type for each node of the tree that it gives, and
speaks of the input's nodes and field initialisers only. -/
theorem check_complete {env : Environment} {e : Expr} {c : Checked} (h : check env e = .ok c) :
    c.expr.id = e.id ∧ (∀ n ∈ c.expr.nodes, (c.types.get? n.id).isSome = true) ∧
      c.type?.isSome = true ∧
      (∀ id t, c.types.get? id = some t → t.hasParams = false ∧ id ∈ e.ids) ∧
      (∀ id r, c.references.get? id = some r → id ∈ e.ids) ∧
      ∀ d ∈ c.diagnostics, d.node ∈ e.places := by
  obtain ⟨e', s, hd, rfl⟩ := check_iff.1 h
  have htyped : ∀ n ∈ e'.nodes, ((s.conclude e').types.get? n.id).isSome = true := by
    intro n hn
    rw [s.get?_conclude, Option.isSome_map]
    exact (hd.accounts n hn).typed
  refine ⟨hd.id_eq, htyped, htyped e' List.mem_cons_self, ?types, ?references, ?reports⟩
  case types =>
    intro id t ht
    rw [s.get?_conclude] at ht
    obtain ⟨u, hu, rfl⟩ := Option.map_eq_some_iff.1 ht
    refine ⟨Ty.hasParams_eq_false_iff.2 (s.bindings.bindings.substitute_closed u), ?_⟩
    by_contra hid
    rw [hd.moves.types_eq hid] at hu
    cases hu
  case references =>
    intro id r hr
    by_contra hid
    have hnone := hd.moves.references_eq hid
    rw [show s.references.get? id = some r from hr] at hnone
    cases hnone
  case reports =>
    obtain ⟨s', htraces, hend⟩ := traced_moments env e
    cases hend e' s (descends_iff.2 hd)
    obtain ⟨ds, hds, hplaces, _⟩ := htraces.reports
    intro d hmem
    rw [Session.conclude, hds] at hmem
    exact hplaces d hmem

/-- A literal with a field that its message does not have, and an id that is used twice. The
field is reported for its initialiser. -/
theorem check_complete_message :
    ∃ c, check (Environment.empty.withRegistry (Catalogue.addMessage {} ⟨"A", ∅⟩).registry)
        (.message 1 "A" [⟨2, "f", .list 1 [], false⟩]) = .ok c ∧
      c.diagnostics.map Diagnostic.node = [1, 2] ∧
      c.expr.id = 1 ∧ (∀ n ∈ c.expr.nodes, (c.types.get? n.id).isSome = true) ∧
      c.type?.isSome = true ∧
      (∀ id t, c.types.get? id = some t → t.hasParams = false ∧ id ∈ [1, 1]) ∧
      (∀ id r, c.references.get? id = some r → id ∈ [1, 1]) ∧
      ∀ d ∈ c.diagnostics, d.node ∈ [1, 1, 2] := by
  obtain ⟨c, hc, hnodes⟩ : ∃ c,
      check (Environment.empty.withRegistry (Catalogue.addMessage {} ⟨"A", ∅⟩).registry)
        (.message 1 "A" [⟨2, "f", .list 1 [], false⟩]) = .ok c ∧
      c.diagnostics.map Diagnostic.node = [1, 2] := by decide +kernel
  exact ⟨c, hc, hnodes, check_complete hc⟩

/-- If nothing is reported, names are written the way the references have them. -/
theorem check_references_agree {env : Environment} {e : Expr} {c : Checked}
    (h : check env e = .ok c) (hok : c.diagnostics = []) :
    ∀ n ∈ c.expr.nodes, n.RefersIn c.references := by
  obtain ⟨e', s, hd, rfl⟩ := check_iff.1 h
  exact fun n hn => (hd.accounts n hn).refers hok

theorem check_references_agree_call :
    ∃ c, check ((Environment.empty.withVariable "a.b" .int).withFunction
          ⟨"f", [{ id := "f_int", result := .bool, params := [.int] }]⟩)
        (.call 3 "f" [.select 2 (.ident 1 "a") "b" false]) = .ok c ∧
      c.diagnostics = [] ∧ ∀ n ∈ c.expr.nodes, n.RefersIn c.references := by
  obtain ⟨c, hc, hok⟩ : ∃ c, check ((Environment.empty.withVariable "a.b" .int).withFunction
          ⟨"f", [{ id := "f_int", result := .bool, params := [.int] }]⟩)
        (.call 3 "f" [.select 2 (.ident 1 "a") "b" false]) = .ok c ∧
      c.isOk = true := by decide +kernel
  have hnil := List.isEmpty_iff.1 hok
  exact ⟨c, hc, hnil, check_references_agree hc hnil⟩

end CelTyping
