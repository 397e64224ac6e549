import CelTyping.Proofs.Course
import CelTyping.Proofs.Steps

/-! Whole passes. Checking a tree changes a session step by step, records types and
references for the nodes of that tree only, and leaves the scopes and the nesting as they
were. Along the way diagnostics are only added and bindings only widened. -/
namespace CelTyping

namespace Session

inductive Move (nodes : List NodeId) : Session → Session → Prop where
  | step {s s' : Session} : Step nodes s s' → Move nodes s s'
  | rescope (s : Session) (scopes : ScopeStack) (depth : Nat) :
      Move nodes s { s with scopes, depth }

abbrev Moves (nodes : List NodeId) : Session → Session → Prop :=
  Relation.ReflTransGen (Move nodes)

/-- A part of a pass, after which the scopes and the nesting are what they were. -/
structure Run (nodes : List NodeId) (s s' : Session) : Prop where
  moves : Moves nodes s s'
  scopes_eq : s'.scopes = s.scopes
  depth_eq : s'.depth = s.depth

section Running

variable {nodes nodes' : List NodeId} {s s₁ s' : Session}

theorem Step.mono (hsub : nodes ⊆ nodes') (h : Step nodes s s') : Step nodes' s s' := by
  cases h with
  | report node cause => exact .report s node cause
  | type t h => exact .type s t (hsub h)
  | reference r h => exact .reference s r (hsub h)
  | freshVar => exact .freshVar s
  | assign h => exact .assign s h
  | assignAll h => exact .assignAll s h

theorem Move.mono (hsub : nodes ⊆ nodes') (h : Move nodes s s') : Move nodes' s s' := by
  cases h with
  | step h => exact .step (h.mono hsub)
  | rescope scopes depth => exact .rescope s scopes depth

theorem Moves.mono (h : Moves nodes s s') (hsub : nodes ⊆ nodes') : Moves nodes' s s' :=
  Relation.ReflTransGen.mono (fun _ _ => Move.mono hsub) _ _ h

theorem Moves.trans (h : Moves nodes s s₁) (h' : Moves nodes s₁ s') : Moves nodes s s' :=
  Relation.ReflTransGen.trans h h'

theorem Steps.moves (h : Steps nodes s s') : Moves nodes s s' :=
  Relation.ReflTransGen.mono (fun _ _ => Move.step) _ _ h

theorem Steps.scopes_eq (h : Steps nodes s s') : s'.scopes = s.scopes := by
  induction h with
  | refl => rfl
  | tail _ hstep ih =>
    rw [← ih]
    cases hstep <;> rfl

theorem Steps.depth_eq (h : Steps nodes s s') : s'.depth = s.depth := by
  induction h with
  | refl => rfl
  | tail _ hstep ih =>
    rw [← ih]
    cases hstep <;> rfl

theorem Steps.run (h : Steps nodes s s') : Run nodes s s' := ⟨h.moves, h.scopes_eq, h.depth_eq⟩

theorem Run.trans (h : Run nodes s s₁) (h' : Run nodes s₁ s') : Run nodes s s' :=
  ⟨h.moves.trans h'.moves, h'.scopes_eq.trans h.scopes_eq,
    h'.depth_eq.trans h.depth_eq⟩

theorem Run.mono (hsub : nodes ⊆ nodes') (h : Run nodes s s') : Run nodes' s s' :=
  { h with moves := h.moves.mono hsub }

theorem moves_deeper (s : Session) : Moves nodes s s.deeper :=
  .single (.rescope s s.scopes (s.depth + 1))

theorem moves_shallower (s : Session) : Moves nodes s s.shallower :=
  .single (.rescope s s.scopes (s.depth - 1))

theorem Run.descend (h : Run nodes s.deeper s') : Run nodes s s'.shallower where
  moves := (s.moves_deeper.trans h.moves).trans s'.moves_shallower
  scopes_eq := h.scopes_eq
  depth_eq := by
    have hd : s'.depth = s.depth + 1 := h.depth_eq
    rw [shallower, hd, Nat.add_sub_cancel]

end Running

section Invariants

variable {nodes : List NodeId} {s s' : Session}

theorem Moves.diagnostics_prefix (h : Moves nodes s s') : s.diagnostics <+: s'.diagnostics := by
  induction h with
  | refl => exact List.prefix_rfl
  | tail _ hmove ih =>
    refine ih.trans ?_
    cases hmove with
    | rescope _ _ => exact List.prefix_rfl
    | step hstep =>
      cases hstep with
      | report node cause => exact ⟨_, rfl⟩
      | _ => exact List.prefix_rfl

theorem Moves.diagnostics_eq_nil (h : Moves nodes s s') (hs : s'.diagnostics = []) :
    s.diagnostics = [] := by
  have hp := h.diagnostics_prefix
  rwa [hs, List.prefix_nil] at hp

@[simp] theorem failNode_diagnostics_ne (s : Session) (node : NodeId) (cause : Cause) :
    (s.failNode node cause).diagnostics ≠ [] := by
  intro h
  have hsteps : Steps [node] (s.report node cause) (s.failNode node cause) :=
    steps_setType _ _ List.mem_cons_self
  have hnil := hsteps.moves.diagnostics_eq_nil h
  simp at hnil

theorem Step.widened (h : Step nodes s s') :
    s.bindings.bindings.Widened s'.bindings.bindings := by
  cases h with
  | assign h => exact (Substitution.matches_of_assignable h).widened
  | assignAll h => exact (Substitution.matchesAll_of_assignableAll h).widened
  | _ => exact .refl _

theorem Moves.widened (h : Moves nodes s s') :
    s.bindings.bindings.Widened s'.bindings.bindings := by
  induction h with
  | refl => exact .refl _
  | tail _ hmove ih =>
    cases hmove with
    | step hstep => exact ih.trans hstep.widened
    | rescope _ _ => exact ih

theorem Moves.types_eq (h : Moves nodes s s') {node : NodeId} (hn : node ∉ nodes) :
    s'.types.get? node = s.types.get? node := by
  induction h with
  | refl => rfl
  | tail _ hmove ih =>
    rw [← ih]
    cases hmove with
    | rescope _ _ => rfl
    | step hstep =>
      cases hstep with
      | type t h => exact Table.get?_insert_of_ne _ _ fun he => hn (he ▸ h)
      | _ => rfl

theorem Moves.references_eq (h : Moves nodes s s') {node : NodeId} (hn : node ∉ nodes) :
    s'.references.get? node = s.references.get? node := by
  induction h with
  | refl => rfl
  | tail _ hmove ih =>
    rw [← ih]
    cases hmove with
    | rescope _ _ => rfl
    | step hstep =>
      cases hstep with
      | reference r h => exact Table.get?_insert_of_ne _ _ fun he => hn (he ▸ h)
      | _ => rfl

end Invariants

section Scoping

@[simp] theorem pop_declareAll (frame : Scope) (outer : List Scope) (root : Scope)
    (vs : List Variable) :
    (vs.foldl ScopeStack.declare ⟨frame :: outer, root⟩).pop = ⟨outer, root⟩ := by
  induction vs generalizing frame with
  | nil => rfl
  | cons v vs ih => exact ih (frame.declare v)

variable (s : Session) (env : Environment)

@[simp] theorem scopes_loopTypes (range : NodeId) (two : Bool) :
    (s.loopTypes range two).2.scopes = s.scopes :=
  (s.steps_loopTypes range two : Steps [] s _).scopes_eq

@[simp] theorem scopes_expectType (node : NodeId) (t : Ty) :
    (s.expectType node t).scopes = s.scopes :=
  (s.steps_expectType node t : Steps [] s _).scopes_eq

theorem pop_enterLoop (range init : NodeId) (iterVar iterVar2 accuVar : String) :
    (s.enterLoop range init iterVar iterVar2 accuVar).scopes.pop =
      s.scopes.push.declare { name := accuVar, type := s.typeOf init } := by
  unfold enterLoop enterScope
  simp only
  rw [ScopeStack.push, pop_declareAll, scopes_loopTypes]
  rfl

end Scoping

end Session

section Planned

namespace Session

variable (s : Session) (env : Environment) (id : NodeId) (kept : Kept)

theorem steps_settle {place : Place} (h : place.isLevel = true) :
    Steps [] s (s.settle env id kept place).2 := by
  cases place with
  | plain => exact .refl
  | key => exact s.steps_joinMember env id false kept.key
  | value optional => exact s.steps_joinMember env id optional kept.value
  | field target node name optional => exact s.steps_checkField env target node name id optional
  | start _ _ _ _ => cases h
  | condition => exact s.steps_expectType id .bool
  | step => cases h

theorem steps_work {w : Work} (h : w.isLevel = true) :
    Steps (w.nodes id) s (s.work env id kept w) := by
  cases w with
  | nothing => exact .refl
  | type t => exact s.steps_setType t List.mem_cons_self
  | «variable» v => exact s.steps_setVariable v List.mem_cons_self
  | undeclared name => exact s.steps_undeclared env name List.mem_cons_self
  | message v => exact s.steps_enterMessage v List.mem_cons_self
  | select operand field testOnly =>
    exact s.steps_recordSelect env operand field testOnly List.mem_cons_self
  | optionalSelect operand fieldId field =>
    exact s.steps_recordOptionalSelect env operand field List.mem_cons_self
      (List.mem_cons_of_mem _ List.mem_cons_self)
  | call f isMember args => exact s.steps_resolveCall env f isMember args List.mem_cons_self
  | list => exact s.steps_recordList kept.value List.mem_cons_self
  | map => exact s.steps_recordMap kept.key kept.value List.mem_cons_self
  | loop _ => cases h

theorem moves_enterLoop (range init : NodeId) (iterVar iterVar2 accuVar : String) :
    Moves [] s (s.enterLoop range init iterVar iterVar2 accuVar) :=
  (s.steps_loopTypes range (iterVar2 != "")).moves.tail (.rescope _ _ _)

theorem moves_exitScope {nodes : List NodeId} : Moves nodes s s.exitScope :=
  .single (.rescope s s.scopes.pop s.depth)

theorem moves_settle (place : Place) : Moves [] s (s.settle env id kept place).2 := by
  by_cases h : place.isLevel = true
  · exact (s.steps_settle env id kept h).moves
  · cases place with
    | start range iterVar iterVar2 accuVar =>
      exact s.moves_enterLoop range id iterVar iterVar2 accuVar
    | step => exact (s.steps_expectType id _).moves.trans (moves_exitScope _)
    | _ => exact absurd rfl h

theorem moves_work (w : Work) : Moves (w.nodes id) s (s.work env id kept w) := by
  by_cases h : w.isLevel = true
  · exact (s.steps_work env id kept h).moves
  · cases w with
    | loop result =>
      exact s.moves_exitScope.trans (steps_setType _ _ (List.mem_singleton_self id)).moves
    | _ => exact absurd rfl h

@[simp] theorem depth_settle (place : Place) : (s.settle env id kept place).2.depth = s.depth := by
  by_cases h : place.isLevel = true
  · exact (s.steps_settle env id kept h).depth_eq
  · cases place with
    | start range iterVar iterVar2 accuVar =>
      exact (s.steps_loopTypes range (iterVar2 != "") : Steps [] s _).depth_eq
    | step => exact (s.steps_expectType id _ : Steps [] s _).depth_eq
    | _ => exact absurd rfl h

@[simp] theorem depth_work (w : Work) : (s.work env id kept w).depth = s.depth := by
  by_cases h : w.isLevel = true
  · exact (s.steps_work env id kept h).depth_eq
  · cases w with
    | loop result => exact (s.exitScope.steps_setType _ (List.mem_singleton_self id)).depth_eq
    | _ => exact absurd rfl h

end Session

variable {env : Environment} {R : Expr → Session → Expr → Session → Prop}

section Members

variable {ms : List Member} {kept kept' : Kept} {s s' : Session} {es' : List Expr}

theorem Members.moves (h : Members env R ms kept s es' kept' s')
    (hR : ∀ {c c' t t'}, R c t c' t' → t.Moves c.ids t') :
    s.Moves (Expr.idsOf (ms.map Member.child)) s' := by
  induction h with
  | nil => exact .refl
  | cons hd _ ih =>
    refine ((hR hd).mono (List.subset_append_left _ _)).trans <|
      ((Session.moves_settle _ env _ _ _).mono (List.nil_subset _)).trans <|
        ih.mono (List.subset_append_right _ _)

theorem Members.depth_eq (h : Members env R ms kept s es' kept' s')
    (hR : ∀ {c c' t t'}, R c t c' t' → t'.depth = t.depth) : s'.depth = s.depth := by
  induction h with
  | nil => rfl
  | cons hd _ ih => rw [ih, Session.depth_settle, hR hd]

theorem Members.scopes_eq (h : Members env R ms kept s es' kept' s')
    (hlevel : ∀ m ∈ ms, m.place.isLevel = true)
    (hR : ∀ {c c' t t'}, R c t c' t' → t'.scopes = t.scopes) : s'.scopes = s.scopes := by
  induction h with
  | nil => rfl
  | cons hd _ ih =>
    rw [ih fun m hm => hlevel m (List.mem_cons_of_mem _ hm),
      (Session.steps_settle _ env _ _ (hlevel _ List.mem_cons_self)).scopes_eq, hR hd]

end Members

/-- A loop closes the scopes that it opens: that of its variables before the result, and that of
the accumulator after it. -/
theorem Members.scopes_loop {range init condition step result : Expr}
    {iterVar iterVar2 accuVar : String} {kept : Kept} {s s' : Session} {es' : List Expr}
    (h : Members env R (loopMembers iterVar iterVar2 range accuVar init condition step result) {} s
      es' kept s')
    (hR : ∀ {c c' t t'}, R c t c' t' → t'.scopes = t.scopes) (id : NodeId) :
    (s'.exitLoop id result.id).scopes = s.scopes := by
  cases h with
  | cons hrange h =>
  cases h with
  | @cons _ _ _ _ _ _ _ s₂ _ hinit h =>
  cases h with
  | @cons _ _ _ _ _ _ _ s₃ _ hcondition h =>
  cases h with
  | @cons _ _ _ _ _ _ _ s₄ _ hstep h =>
  cases h with
  | @cons _ _ _ _ _ _ _ s₅ _ hresult h =>
  cases h with
  | nil =>
    have hexit : (s₅.exitLoop id result.id).scopes = s₅.scopes.pop :=
      (s₅.exitScope.steps_setType _ (List.mem_singleton_self id)).scopes_eq
    have hbody : s₄.scopes = (s₂.enterLoop range.id init.id iterVar iterVar2 accuVar).scopes :=
      (hR hstep).trans ((s₃.scopes_expectType condition.id .bool).trans (hR hcondition))
    have hpop : s₅.scopes = s₄.scopes.pop := (hR hresult).trans
      (congrArg ScopeStack.pop (s₄.scopes_expectType step.id _))
    refine hexit.trans ?_
    rw [hpop, hbody, Session.pop_enterLoop, hR hinit]
    exact hR hrange

section Courses

variable {e e' : Expr} {s s' : Session}

theorem Course.moves (h : Course env R e s e' s')
    (hR : ∀ {c c' t t'}, R c t c' t' → t.Moves c.ids t') : s.Moves e.ids s' := by
  cases h with
  | @mk p _ kept _ s₁ hp hm =>
    have hsub := (plan_fits hp).ids.subset
    have hopen := (s.moves_work env e.id {} p.opening).mono fun _ h =>
      hsub (List.mem_append_left _ (List.mem_append_left _ h))
    have hclose := (s₁.moves_work env e.id kept p.closing).mono fun _ h =>
      hsub (List.mem_append_left _ (List.mem_append_right _ h))
    have hmembers := (hm.moves hR).mono fun _ h => hsub (List.mem_append_right _ h)
    exact hopen.trans (hmembers.trans hclose)

theorem Course.depth_eq (h : Course env R e s e' s')
    (hR : ∀ {c c' t t'}, R c t c' t' → t'.depth = t.depth) : s'.depth = s.depth := by
  cases h with
  | mk hp hm => rw [Session.depth_work, hm.depth_eq hR, Session.depth_work]

theorem Course.scopes_eq (h : Course env R e s e' s')
    (hR : ∀ {c c' t t'}, R c t c' t' → t'.scopes = t.scopes) : s'.scopes = s.scopes := by
  cases h with
  | @mk p _ kept _ s₁ hp hm =>
    obtain ⟨hopen, ⟨hclose, hlevel⟩ | ⟨_, _, _, _, _, _, _, result, -, hms, hclose⟩⟩ :=
      (plan_fits hp).level
    · rw [(s₁.steps_work env e.id kept hclose).scopes_eq, hm.scopes_eq hlevel hR,
        (s.steps_work env e.id {} hopen).scopes_eq]
    · rw [hms] at hm
      rw [hclose]
      exact (hm.scopes_loop hR e.id).trans (s.steps_work env e.id {} hopen).scopes_eq

end Courses

theorem Descends.run {e e' : Expr} {s s' : Session} (h : Descends env e s e' s') :
    s.Run e.ids s' := by
  induction h using Descends.course_induction with
  | limit _ => exact (Session.steps_failNode _ _ (Expr.id_mem_ids _)).run
  | node _ hc =>
    exact Session.Run.descend ⟨hc.moves fun ⟨_, h⟩ => h.moves,
      hc.scopes_eq fun ⟨_, h⟩ => h.scopes_eq, hc.depth_eq fun ⟨_, h⟩ => h.depth_eq⟩

theorem Descends.moves {e e' : Expr} {s s' : Session} (h : Descends env e s e' s') :
    s.Moves e.ids s' :=
  h.run.moves

theorem Checks.run {e e' : Expr} {s s' : Session} (h : Checks env e s e' s') : s.Run e.ids s' := by
  have hc := checks_iff_course.1 h
  exact ⟨hc.moves Descends.moves, hc.scopes_eq fun h => h.run.scopes_eq,
    hc.depth_eq fun h => h.run.depth_eq⟩

section Lists

variable {s s' : Session}

theorem Members.run {ms : List Member} {kept kept' : Kept} {es' : List Expr}
    (h : Members env (Descends env) ms kept s es' kept' s')
    (hlevel : ∀ m ∈ ms, m.place.isLevel = true) :
    s.Run (Expr.idsOf (ms.map Member.child)) s' :=
  ⟨h.moves Descends.moves, h.scopes_eq hlevel fun h => h.run.scopes_eq,
    h.depth_eq fun h => h.run.depth_eq⟩

theorem ChecksArgs.run {es es' : List Expr} (h : ChecksArgs env es s es' s') :
    s.Run (Expr.idsOf es) s' := by
  obtain ⟨_, hm⟩ := h.members
  have hrun := hm.run (List.forall_mem_map.2 fun _ _ => rfl)
  rwa [map_child_plain] at hrun

theorem ChecksElements.run {es es' : List Element} {t t' : Option Ty}
    (h : ChecksElements env es t s es' t' s') : s.Run (Expr.idsOf (es.map Element.value)) s' := by
  obtain ⟨_, _, hm⟩ := h.members
  have hrun := hm.run (List.forall_mem_map.2 fun _ _ => rfl)
  rwa [List.map_map] at hrun

theorem ChecksEntries.scopes_eq {es es' : List Entry} {k k' v v' : Option Ty}
    (h : ChecksEntries env es k v s es' k' v' s') : s'.scopes = s.scopes := by
  obtain ⟨_, hm⟩ := h.members
  exact (hm.run fun m hmem => (entry_places es m hmem).2).scopes_eq

theorem ChecksFields.scopes_eq {target : Option LiteralTarget} {es es' : List FieldInit}
    (h : ChecksFields env target es s es' s') : s'.scopes = s.scopes := by
  obtain ⟨_, _, hm⟩ := h.members
  exact (hm.run (List.forall_mem_map.2 fun _ _ => rfl)).scopes_eq

end Lists

end Planned

section Simulation

/-- What makes a pass in the second environment go the same way as one in the first, which it is
related to, as long as the sessions of the first are good. -/
structure Simulates (env env' : Environment) (good : Session → Prop)
    (Sim : Session → Session → Prop) : Prop where
  good_before : ∀ {nodes s s'}, Session.Moves nodes s s' → good s' → good s
  not_cut : ∀ (s : Session) (node : NodeId), ¬ good (s.failNode node (.recursionLimit env.maxDepth))
  plan_eq : ∀ scopes e, plan env' scopes e = plan env scopes e
  scopes_eq : ∀ {s t}, Sim s t → t.scopes = s.scopes
  depth_lt : ∀ {s t}, Sim s t → s.depth < env.maxDepth → t.depth < env'.maxDepth
  deeper : ∀ {s t}, Sim s t → Sim s.deeper t.deeper
  shallower : ∀ {s t}, Sim s t → Sim s.shallower t.shallower
  settle : ∀ {s t} (node : NodeId) (kept : Kept) (place : Place), Sim s t →
    good (s.settle env node kept place).2 →
      (t.settle env' node kept place).1 = (s.settle env node kept place).1 ∧
        Sim (s.settle env node kept place).2 (t.settle env' node kept place).2
  work : ∀ {s t scopes} (id : NodeId) (kept : Kept) (w : Work), w.Found env scopes → Sim s t →
    good (s.work env id kept w) → Sim (s.work env id kept w) (t.work env' id kept w)

variable {env env' : Environment} {good : Session → Prop} {Sim : Session → Session → Prop}

theorem Members.simulate (hsim : Simulates env env' good Sim)
    {R R' : Expr → Session → Expr → Session → Prop}
    (hmoves : ∀ {c c' t t'}, R c t c' t' → t.Moves c.ids t')
    (hR : ∀ {c c' s s' t}, R c s c' s' → good s' → Sim s t → ∃ t', R' c t c' t' ∧ Sim s' t')
    {ms : List Member} {kept kept' : Kept} {s s' t : Session} {es' : List Expr}
    (h : Members env R ms kept s es' kept' s') (hgood : good s') (hs : Sim s t) :
    ∃ t', Members env' R' ms kept t es' kept' t' ∧ Sim s' t' := by
  induction h generalizing t with
  | nil => exact ⟨t, .nil, hs⟩
  | @cons m ms _ _ kept _ _ s₁ _ hd hms ih =>
    -- what is good at the end was good all along
    have hsettled := hsim.good_before (hms.moves hmoves) hgood
    have hdone := hsim.good_before (s₁.moves_settle env m.child.id kept m.place) hsettled
    obtain ⟨t₁, hd', h₁⟩ := hR hd hdone hs
    obtain ⟨hkept, h₂⟩ := hsim.settle m.child.id kept m.place h₁ hsettled
    obtain ⟨t', hms', h'⟩ := ih hgood h₂
    rw [← hkept] at hms'
    exact ⟨t', .cons hd' hms', h'⟩

theorem Descends.simulate (hsim : Simulates env env' good Sim) {e e' : Expr} {s s' t : Session}
    (h : Descends env e s e' s') (hgood : good s') (hs : Sim s t) :
    ∃ t', Descends env' e t e' t' ∧ Sim s' t' := by
  induction h using Descends.course_induction generalizing t with
  | limit _ => exact absurd hgood (hsim.not_cut _ _)
  | @node e _ s _ hlt hc =>
    cases hc with
    | @mk p _ kept _ s₁ hp hm =>
      have hup : Session.Moves [] (s₁.work env e.id kept p.closing) _ := Session.moves_shallower _
      have hclosed := hsim.good_before hup hgood
      have hchecked := hsim.good_before (s₁.moves_work env e.id kept p.closing) hclosed
      have hopened := hsim.good_before (hm.moves fun ⟨h, _⟩ => h.moves) hchecked
      have hopen := hsim.work e.id {} _ (plan_fits hp).opening_found (hsim.deeper hs) hopened
      obtain ⟨t₁, hm', h₁⟩ := hm.simulate hsim (fun ⟨h, _⟩ => h.moves)
        (fun ⟨_, ih⟩ hgood hs => ih hgood hs) hchecked hopen
      have hclose := hsim.work e.id kept _ (plan_fits hp).closing_found h₁ hclosed
      rw [← hsim.scopes_eq (hsim.deeper hs), ← hsim.plan_eq] at hp
      exact ⟨_, .node (hsim.depth_lt hs hlt) (checks_iff_course.2 (.mk hp hm')),
        hsim.shallower hclose⟩

end Simulation

section Typed

namespace Session

@[simp] theorem setReference_types (s : Session) (node : NodeId) (r : Reference) :
    (s.setReference node r).types = s.types := by
  unfold setReference
  split
  next => rfl
  next =>
    split
    next => rfl
    next => split <;> rfl

theorem setType_types_self {s : Session} {node : NodeId} {t : Ty}
    (h : (s.setType node t).diagnostics = []) :
    (s.setType node t).types.get? node = some t := by
  unfold setType at h ⊢
  split at h
  next existing hex =>
    split at h
    next hk => simp [if_pos hk]
    next => simp at h
  next => simp

def Typed (s : Session) (node : NodeId) : Prop := (s.types.get? node).isSome = true

theorem typed_setType (s : Session) (node : NodeId) (t : Ty) : (s.setType node t).Typed node := by
  unfold setType
  split
  next existing h =>
    split
    next => simp [Typed]
    next => simp [Typed, report, h]
  next => simp [Typed]

theorem typed_failNode (s : Session) (node : NodeId) (cause : Cause) :
    (s.failNode node cause).Typed node :=
  typed_setType _ node _

theorem Typed.setReference {s : Session} {node : NodeId} (h : s.Typed node) (node' : NodeId)
    (r : Reference) : (s.setReference node' r).Typed node := by
  unfold Typed
  rwa [setReference_types]

theorem typed_resolveCall (s : Session) (env : Environment) (node : NodeId) (f : Function)
    (isMember : Bool) (args : List NodeId) :
    (s.resolveCall env node f isMember args).Typed node := by
  unfold resolveCall
  split
  next => exact (typed_setType _ node _).setReference node _
  next d s₁ heq =>
    rw [resolveOverload_error_node heq]
    exact typed_failNode s₁ node _

theorem Moves.typed {nodes : List NodeId} {s s' : Session} {node : NodeId} (h : Moves nodes s s')
    (hs : s.Typed node) : s'.Typed node := by
  induction h with
  | refl => exact hs
  | tail _ hmove ih =>
    cases hmove with
    | rescope _ _ => exact ih
    | step hstep =>
      cases hstep with
      | @type node' t _ =>
        unfold Typed
        simp only [Table.get?_insert]
        split
        next => rfl
        next => exact ih
      | _ => exact ih

theorem typed_work (s : Session) (env : Environment) {id node : NodeId} (kept : Kept) {w : Work}
    (h : node ∈ w.nodes id) : (s.work env id kept w).Typed node := by
  cases w with
  | nothing => cases h
  | optionalSelect operand fieldId field =>
    rcases List.mem_cons.1 h with rfl | h
    · exact (typed_setType _ node _).setReference node _
    · cases List.mem_singleton.1 h
      have hrest : Steps [id] ((s.selectedType env id operand field true).2.setType fieldId .string)
          (s.work env id kept (.optionalSelect operand fieldId field)) :=
        (steps_setType _ _ List.mem_cons_self).trans (steps_setReference _ _ List.mem_cons_self)
      exact hrest.moves.typed (typed_setType _ fieldId _)
  | type t =>
    cases List.mem_singleton.1 h
    exact s.typed_setType id t
  | «variable» v =>
    cases List.mem_singleton.1 h
    exact (s.typed_setType id v.type).setReference id _
  | undeclared name =>
    cases List.mem_singleton.1 h
    exact s.typed_failNode id _
  | call f isMember args =>
    cases List.mem_singleton.1 h
    exact s.typed_resolveCall env id f isMember args
  | _ =>
    cases List.mem_singleton.1 h
    exact typed_setType _ id _

end Session

variable {env : Environment} {e e' : Expr} {s s' : Session}

theorem Checks.typed (h : Checks env e s e' s') : s'.Typed e.id := by
  cases checks_iff_course.1 h with
  | @mk p _ kept _ s₁ hp hm =>
    have hid : e.id ∈ p.opening.nodes e.id ++ p.closing.nodes e.id :=
      (plan_fits hp).nodes ▸ List.mem_cons_self
    rcases List.mem_append.1 hid with hopen | hclose
    · have hmembers := hm.moves Descends.moves
      exact (s₁.moves_work env e.id kept p.closing).typed
        (hmembers.typed (s.typed_work env {} hopen))
    · exact s₁.typed_work env kept hclose

theorem Descends.typed (h : Descends env e s e' s') : s'.Typed e.id := by
  cases h with
  | limit _ => exact s.typed_failNode _ _
  | node _ h => exact h.typed

end Typed

end CelTyping
