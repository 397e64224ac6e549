import CelTyping.Proofs.Merging

/-! The course of a pass as a list of moments: what is about to be recorded, and the session as
it is then. The list follows the checker through the tree and ends where a malformed node stops
it. Between two moments nothing is recorded, so a fact about the tables of a session holds along
every pass as soon as it is kept from one moment to what comes after it. Two such facts are
proved here: where reports can be, and that no two writes clash if none is made twice. -/
namespace CelTyping

deriving instance DecidableEq for Reference

section Moments

inductive Note where
  | type (node : NodeId) (t : Ty)
  | reference (node : NodeId) (r : Reference)
deriving DecidableEq

def Note.write : Note → Write
  | .type node _ => .type node
  | .reference node _ => .reference node

def Note.Listed : Note → Prop
  | .type _ _ => True
  | .reference _ r => r.overloads.Nodup

/-- What is about to be recorded in a session. -/
structure Moment where
  session : Session
  note : Note

namespace Session

def take (s : Session) : Note → Session
  | .type node t => s.setType node t
  | .reference node r => s.setReference node r

def noting (s : Session) : List Note → List Moment
  | [] => []
  | n :: ns => ⟨s, n⟩ :: (s.take n).noting ns

end Session

def Moment.next (m : Moment) : Session := m.session.take m.note

def Moment.write (m : Moment) : Write := m.note.write

end Moments

section Course

namespace Session

def failMoments (s : Session) (node : NodeId) (cause : Cause) : List Moment :=
  (s.report node cause).noting [.type node (.error ⟨node, cause⟩)]

def workMoments (s : Session) (env : Environment) (id : NodeId) (kept : Kept) :
    Work → List Moment
  | .nothing => []
  | .type t => s.noting [.type id t]
  | .variable v => s.noting [.type id v.type, .reference id { name := v.name, value := v.value }]
  | .undeclared name => s.failMoments id (.undeclaredReference env.container.name name)
  | .message v =>
    let (target, s₁) := (s.setReference id { name := v.name }).literalTarget id v
    s.noting [.reference id { name := v.name }] ++ s₁.noting [.type id target.type]
  | .select operand field testOnly =>
    let (t, s) := s.selectedType env id operand field false
    s.noting [.type id (s.bindings.substitute (if testOnly then .bool else t) false)]
  | .optionalSelect operand fieldId field =>
    let (t, s) := s.selectedType env id operand field true
    s.noting [.type fieldId .string,
      .type id ((s.setType fieldId .string).bindings.substitute t false),
      .reference id { name := Operator.optionalSelect, overloads := ["select_optional_field"] }]
  | .call f isMember args =>
    match s.resolveOverload env id f isMember args with
    | (.ok r, s) => s.noting [.type id r.type, .reference id r.reference]
    | (.error d, s) => s.failMoments d.node d.cause
  | .list =>
    let (t, s) := s.memberType kept.value
    s.noting [.type id (.list t)]
  | .map =>
    let (k, s) := s.memberType kept.key
    let (v, s) := s.memberType kept.value
    s.noting [.type id (.map k v)]
  | .loop result => s.exitScope.noting [.type id (s.exitScope.resolvedTypeOf result)]

end Session

/-- The moments of checking a tree, so many levels above the limit. -/
def momentsWithin (env : Environment) : (room : Nat) → Expr → Session → List Moment
  | 0, e, s => s.failMoments e.id (.recursionLimit env.maxDepth)
  | room + 1, e, s =>
    match plan env s.scopes e with
    | .ok p =>
      let opened := s.deeper.work env e.id {} p.opening
      s.deeper.workMoments env e.id {} p.opening ++
        (memberDescents env p.members {} opened).flatMap
            (fun d => momentsWithin env room d.1 d.2) ++
          match checkMembers env p.members {} opened with
          | .ok ((_, kept), s) => s.workMoments env e.id kept p.closing
          | .error _ => []
    | .error _ => []

def moments (env : Environment) (e : Expr) : List Moment := momentsWithin env env.maxDepth e {}

end Course

namespace Session

/-- From the first session to the second there are these moments, in this order. Notes and reports
are about these places. -/
inductive Traces (places : List NodeId) : Session → List Moment → Session → Prop where
  | remarks {s s' : Session} : Remarks places s s' → Traces places s [] s'
  | note (s : Session) (n : Note) :
      n.write.node ∈ places → n.Listed → Traces places s [⟨s, n⟩] (s.take n)
  | append {s s₁ s' : Session} {ms ms' : List Moment} :
      Traces places s ms s₁ → Traces places s₁ ms' s' → Traces places s (ms ++ ms') s'

section Tracing

variable {places : List NodeId} {s s₁ s' : Session} {ms : List Moment}

theorem Traces.after (h : Remarks places s s₁) (h' : Traces places s₁ ms s') :
    Traces places s ms s' :=
  .append (.remarks h) h'

theorem Traces.before (h : Traces places s ms s₁) (h' : Remarks places s₁ s') :
    Traces places s ms s' := by
  have hms := h.append (.remarks h')
  rwa [List.append_nil] at hms

theorem traces_noting (ns : List Note) (h : ∀ n ∈ ns, n.write.node ∈ places ∧ n.Listed)
    (s : Session) : Traces places s (s.noting ns) (ns.foldl take s) := by
  induction ns generalizing s with
  | nil => exact .remarks (.refl s)
  | cons n ns ih =>
    obtain ⟨hn, hns⟩ := List.forall_mem_cons.1 h
    exact .append (.note s n hn.1 hn.2) (ih hns _)

theorem traces_type (s : Session) {node : NodeId} (t : Ty) (h : node ∈ places) :
    Traces places s (s.noting [.type node t]) (s.setType node t) :=
  .note s (.type node t) h trivial

theorem traces_failNode (s : Session) {node : NodeId} {cause : Cause} (h : node ∈ places)
    (hc : cause.isClash = false) :
    Traces places s (s.failMoments node cause) (s.failNode node cause) :=
  .after (s.remarks_report h hc) (traces_type _ _ h)

theorem traces_resolveCall (s : Session) (env : Environment) {id : NodeId} (kept : Kept)
    (f : Function) (isMember : Bool) {args : List NodeId} (h : id ∈ places)
    (hargs : args ⊆ places) :
    Traces places s (s.workMoments env id kept (.call f isMember args))
      (s.resolveCall env id f isMember args) := by
  have hs := s.remarks_resolveOverload env id f isMember hargs
  cases hres : s.resolveOverload env id f isMember args with
  | mk outcome s₁ =>
    rw [hres] at hs
    cases outcome with
    | ok r =>
      simp only [workMoments, resolveCall, hres]
      exact .after hs (traces_noting [.type id r.type, .reference id r.reference]
        (by simpa [Note.write, Write.node, Note.Listed, h] using resolveOverload_nodup hres) _)
    | error d =>
      obtain ⟨ts, rfl⟩ := resolveOverload_error hres
      simp only [workMoments, resolveCall, hres]
      exact .after hs (traces_failNode _ h rfl)

theorem traces_work (s : Session) (env : Environment) (id : NodeId) (kept : Kept) {w : Work}
    (hnodes : w.nodes id ⊆ places) (hargs : w.args ⊆ places) :
    Traces places s (s.workMoments env id kept w) (s.work env id kept w) := by
  cases w with
  | nothing => exact .remarks (.refl s)
  | type t => exact s.traces_type t (hnodes List.mem_cons_self)
  | «variable» v =>
    exact traces_noting [.type id v.type, .reference id { name := v.name, value := v.value }]
      (by simp [Note.write, Write.node, Note.Listed, hnodes List.mem_cons_self]) s
  | undeclared name => exact s.traces_failNode (hnodes List.mem_cons_self) rfl
  | message v =>
    have hid : id ∈ places := hnodes List.mem_cons_self
    exact .append (.note s (.reference id { name := v.name }) hid List.nodup_nil)
      (.after (remarks_literalTarget _ v hid) (traces_type _ _ hid))
  | select operand field testOnly =>
    have hid : id ∈ places := hnodes List.mem_cons_self
    exact .after (s.remarks_selectedType env operand field false hid) (traces_type _ _ hid)
  | optionalSelect operand fieldId field =>
    have hid : id ∈ places := hnodes List.mem_cons_self
    have hfield : fieldId ∈ places := hnodes (List.mem_cons_of_mem _ List.mem_cons_self)
    refine .after (s.remarks_selectedType env operand field true hid) ?_
    exact traces_noting [.type fieldId .string, .type id _, .reference id _]
      (by simp [Note.write, Write.node, Note.Listed, hid, hfield]) _
  | call f isMember args =>
    exact s.traces_resolveCall env kept f isMember (hnodes List.mem_cons_self) hargs
  | list =>
    exact .after (s.remarks_memberType kept.value) (traces_type _ _ (hnodes List.mem_cons_self))
  | map =>
    exact .after ((s.remarks_memberType kept.key).trans (remarks_memberType _ kept.value))
      (traces_type _ _ (hnodes List.mem_cons_self))
  | loop result =>
    have hs : Remarks places s s.exitScope := .of_eq rfl rfl rfl
    exact .after hs (traces_type _ _ (hnodes List.mem_cons_self))

end Tracing

section Consequences

variable {places : List NodeId} {s s' : Session} {ms : List Moment}

theorem Free.take {w : Write} (hf : s.Free w) {n : Note} (hw : w ≠ n.write) :
    (s.take n).Free w := by
  cases n with
  | type node t =>
    cases w with
    | type node' =>
      have hne : node' ≠ node := fun h => hw (congrArg Write.type h)
      exact (s.setType_types_of_ne t hne).trans hf
    | reference node' => exact (congrArg (Table.get? · node') (s.setType_references node t)).trans hf
  | reference node r =>
    cases w with
    | type node' => exact (congrArg (Table.get? · node') (s.setReference_types node r)).trans hf
    | reference node' =>
      have hne : node' ≠ node := fun h => hw (congrArg Write.reference h)
      exact (s.setReference_references_of_ne r hne).trans hf

theorem Traces.free (h : Traces places s ms s') {w : Write} (hw : w ∉ ms.map Moment.write)
    (hf : s.Free w) : s'.Free w := by
  induction h with
  | remarks h =>
    cases w with
    | type node => exact (congrArg (Table.get? · node) h.types).trans hf
    | reference node => exact (congrArg (Table.get? · node) h.references).trans hf
  | note s n _ _ => exact hf.take (by simpa [Moment.write] using hw)
  | append _ _ ih ih' =>
    rw [List.map_append, List.mem_append, not_or] at hw
    exact ih' hw.2 (ih hw.1 hf)

theorem take_reports (s : Session) (n : Note) :
    ∃ ds, (s.take n).diagnostics = s.diagnostics ++ ds ∧ (∀ d ∈ ds, d.node = n.write.node) ∧
      (s.Free n.write → ds = []) := by
  cases n with
  | type node t => exact s.setType_reports node t
  | reference node r => exact s.setReference_reports node r

/-- Reports are about the places that are worked on. None of them is a clash if no write is
made twice, nor over an earlier one. -/
theorem Traces.reports (h : Traces places s ms s') :
    ∃ ds, s'.diagnostics = s.diagnostics ++ ds ∧ (∀ d ∈ ds, d.node ∈ places) ∧
      ((ms.map Moment.write).Nodup → (∀ m ∈ ms, s.Free m.write) →
        ∀ d ∈ ds, d.cause.isClash = false) := by
  induction h with
  | remarks h =>
    obtain ⟨ds, hds, hall⟩ := h.reports
    exact ⟨ds, hds, fun d hd => (hall d hd).1, fun _ _ d hd => (hall d hd).2⟩
  | note s n hn _ =>
    obtain ⟨ds, hds, hnode, hfree⟩ := s.take_reports n
    refine ⟨ds, hds, fun d hd => hnode d hd ▸ hn, fun _ hf => ?_⟩
    rw [hfree (hf _ List.mem_cons_self)]
    exact List.forall_mem_nil _
  | append h _ ih ih' =>
    obtain ⟨ds, hds, hnode, hclash⟩ := ih
    obtain ⟨ds', hds', hnode', hclash'⟩ := ih'
    refine ⟨ds ++ ds', by rw [hds', hds, List.append_assoc],
      List.forall_mem_append.2 ⟨hnode, hnode'⟩, fun hnd hf => ?_⟩
    rw [List.map_append] at hnd
    obtain ⟨hnd, hnd', hdis⟩ := List.nodup_append'.1 hnd
    obtain ⟨hf, hf'⟩ := List.forall_mem_append.1 hf
    refine List.forall_mem_append.2 ⟨hclash hnd hf, hclash' hnd' fun m hm => ?_⟩
    exact h.free (fun hmem => hdis hmem (List.mem_map_of_mem hm)) (hf' m hm)

end Consequences

/-- The moments are those of a computation, up to where it stops. -/
def Traced {α : Type} (places : List NodeId) (s : Session) (o : Outcome (α × Session))
    (ms : List Moment) : Prop :=
  ∃ s', Traces places s ms s' ∧ ∀ a s₁, o = .ok (a, s₁) → s₁ = s'

section Following

variable {α β : Type} {places : List NodeId} {s s₁ s' : Session} {o : Outcome (α × Session)}
  {ms ms' : List Moment}

theorem Traced.ok (h : Traces places s ms s') (a : α) : s.Traced places (.ok (a, s')) ms := by
  refine ⟨s', h, fun b s₁ heq => ?_⟩
  cases heq
  rfl

theorem Traces.error (h : Traces places s ms s') (d : Diagnostic) :
    s.Traced places (.error d : Outcome (α × Session)) ms :=
  ⟨s', h, fun _ _ heq => by cases heq⟩

theorem Traces.traced (h : Traces places s ms s₁) (h' : s₁.Traced places o ms') :
    s.Traced places o (ms ++ ms') := by
  obtain ⟨s', ht, heq⟩ := h'
  exact ⟨s', h.append ht, heq⟩

theorem Traced.map (h : s.Traced places o ms) (f : α → β) :
    s.Traced places (o >>= fun (a, s) => .ok (f a, s)) ms := by
  obtain ⟨s', ht, heq⟩ := h
  cases o with
  | error d => exact ht.error d
  | ok p =>
    obtain ⟨a, s₁⟩ := p
    cases heq a s₁ rfl
    exact .ok ht (f a)

end Following

end Session

section Places

namespace Expr

def placesOf (ns : List Expr) : List NodeId := ns.map Expr.id ++ ns.flatMap initIds

def places (e : Expr) : List NodeId := placesOf e.nodes

variable {ns : List Expr}

theorem id_mem_placesOf {e : Expr} (h : e ∈ ns) : e.id ∈ placesOf ns :=
  List.mem_append_left _ (List.mem_map_of_mem h)

theorem initIds_subset_placesOf {e : Expr} (h : e ∈ ns) : e.initIds ⊆ placesOf ns :=
  fun _ hid => List.mem_append_right _ (List.mem_flatMap.2 ⟨e, h, hid⟩)

end Expr

variable {env : Environment} {scopes : ScopeStack} {p : Plan} {e : Expr} {ns : List Expr}

theorem Plan.Fits.places (h : p.Fits env scopes e) (hns : e.nodes ⊆ ns) :
    (p.opening.nodes e.id ⊆ Expr.placesOf ns ∧ p.opening.args ⊆ Expr.placesOf ns) ∧
      (p.closing.nodes e.id ⊆ Expr.placesOf ns ∧ p.closing.args ⊆ Expr.placesOf ns) ∧
        ∀ m ∈ p.members, m.child.id ∈ Expr.placesOf ns ∧ m.place.nodes ⊆ Expr.placesOf ns := by
  have hids : e.ids ⊆ Expr.placesOf ns := fun id hid =>
    List.mem_append_left _ (List.map_subset _ hns hid)
  have hchildren : ∀ c ∈ e.children, c.id ∈ Expr.placesOf ns := fun c hc =>
    Expr.id_mem_placesOf (hns (Expr.nodes_subset hc List.mem_cons_self))
  have hnodes := (List.append_subset.1 (List.Subset.trans h.ids.subset hids)).1
  have hmentions := List.Subset.trans h.mentions (List.append_subset.2
    ⟨Expr.initIds_subset_placesOf (hns List.mem_cons_self), List.forall_mem_map.2 hchildren⟩)
  obtain ⟨hargs, hplaces⟩ := List.append_subset.1 hmentions
  obtain ⟨hopening, hclosing⟩ := List.append_subset.1 hnodes
  obtain ⟨hopening', hclosing'⟩ := List.append_subset.1 hargs
  refine ⟨⟨hopening, hopening'⟩, ⟨hclosing, hclosing'⟩, fun m hm => ⟨?_, fun id hid => ?_⟩⟩
  · exact hchildren _ (h.mem_children hm)
  · exact hplaces (List.mem_flatMap.2 ⟨m, hm, hid⟩)

end Places

section Passes

open Session

variable {env : Environment} {places : List NodeId}

theorem traced_checkMembers {child : Expr → Session → List Moment} (ms : List Member) :
    ∀ {s : Session} (kept : Kept),
      (∀ m ∈ ms, ∀ t : Session, t.depth = s.depth →
        t.Traced places (checkExpr env m.child t) (child m.child t)) →
      (∀ m ∈ ms, m.child.id ∈ places ∧ m.place.nodes ⊆ places) →
        s.Traced places (checkMembers env ms kept s)
          ((memberDescents env ms kept s).flatMap fun d => child d.1 d.2) := by
  induction ms with
  | nil => exact fun kept _ _ => .ok (.remarks (.refl _)) _
  | cons m ms ih =>
    intro s kept hchild hplaces
    obtain ⟨hm, hms⟩ := List.forall_mem_cons.1 hchild
    obtain ⟨⟨hid, hplace⟩, hplaces⟩ := List.forall_mem_cons.1 hplaces
    obtain ⟨s₁, htrace, heq⟩ := hm s rfl
    rw [checkMembers, memberDescents, List.flatMap_cons]
    cases hc : checkExpr env m.child s with
    | error d =>
      rw [List.flatMap_nil, List.append_nil]
      exact htrace.error d
    | ok r =>
      obtain ⟨e', s₂⟩ := r
      cases heq e' s₂ hc
      have hsettle := s₁.remarks_settle env kept hid hplace
      have hdepth : (s₁.settle env m.child.id kept m.place).2.depth = s.depth :=
        (s₁.depth_settle env _ kept m.place).trans (descends_iff.1 hc).run.depth_eq
      refine htrace.traced (Traces.traced (.remarks hsettle) ?_)
      exact (ih _ (fun m hm t ht => hms m hm t (ht.trans hdepth)) hplaces).map
        fun r => (e' :: r.1, r.2)

theorem traced_checkExpr {ns : List Expr} (room : Nat) : ∀ {e : Expr} {s : Session},
    s.depth + room = env.maxDepth → e.nodes ⊆ ns →
      s.Traced (Expr.placesOf ns) (checkExpr env e s) (momentsWithin env room e s) := by
  -- The induction is on the levels that are left.
  induction room with
  | zero =>
    intro e s hroom hns
    rw [checkExpr_of_le (Nat.le_of_eq hroom.symm)]
    exact .ok (s.traces_failNode (Expr.id_mem_placesOf (hns List.mem_cons_self)) rfl) _
  | succ room ih =>
    intro e s hroom hns
    rw [checkExpr_of_lt (by omega), momentsWithin]
    cases hp : plan env s.scopes e with
    | error d => exact Traces.error (.remarks (.refl s)) d
    | ok p =>
      obtain ⟨hopening, hclosing, hmembers⟩ := (plan_fits hp).places hns
      have hchild (m : Member) (hm : m ∈ p.members) (t : Session)
          (ht : t.depth = (s.deeper.work env e.id {} p.opening).depth) :
          t.Traced (Expr.placesOf ns) (checkExpr env m.child t)
            (momentsWithin env room m.child t) := by
        have hdepth : t.depth = s.depth + 1 := ht.trans (s.deeper.depth_work env e.id {} p.opening)
        have hchild := Expr.nodes_subset ((plan_fits hp).mem_children hm)
        exact ih (by omega) (List.Subset.trans hchild hns)
      have hdown : Remarks (Expr.placesOf ns) s s.deeper := .of_eq rfl rfl rfl
      have hopened := Traces.after hdown
        (s.deeper.traces_work env e.id {} hopening.1 hopening.2)
      obtain ⟨s₁, hms, heq⟩ := traced_checkMembers p.members {} hchild hmembers
      simp only [Outcome.bind_ok, Plan.check]
      cases hm : checkMembers env p.members {} (s.deeper.work env e.id {} p.opening) with
      | error d =>
        rw [List.append_nil]
        exact (hopened.append hms).error d
      | ok r =>
        obtain ⟨⟨parts, kept⟩, s₂⟩ := r
        cases heq _ _ hm
        have hclosed := s₁.traces_work env e.id kept hclosing.1 hclosing.2
        have hup : Remarks (Expr.placesOf ns) (s₁.work env e.id kept p.closing)
          (s₁.work env e.id kept p.closing).shallower := .of_eq rfl rfl rfl
        exact .ok (((hopened.append hms).append hclosed).before hup) _

theorem traced_moments (env : Environment) (e : Expr) :
    Traced e.places {} (checkExpr env e {}) (moments env e) :=
  traced_checkExpr env.maxDepth (Nat.zero_add _) (List.Subset.refl e.nodes)

end Passes

end CelTyping
