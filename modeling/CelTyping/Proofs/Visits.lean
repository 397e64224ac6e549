import CelTyping.Proofs.Run

/-! Which nodes a pass comes to. Names are taken as wholes, so the parts of a name may be
passed over; so is the field of an optional selection. Every other node is come to if
nothing is reported, and when ids are not used twice, what is recorded for it then is
what the pass ends with. -/
namespace CelTyping

namespace Session

/-- What was recorded for the nodes is still so later on. -/
structure Persists (nodes : List NodeId) (s s' : Session) : Prop where
  diagnostics : s.diagnostics <+: s'.diagnostics
  widened : s.bindings.bindings.Widened s'.bindings.bindings
  types : ∀ node ∈ nodes, s'.types.get? node = s.types.get? node

section Persisting

variable {nodes : List NodeId} {s s₁ s' : Session}

theorem Persists.trans (h : Persists nodes s s₁) (h' : Persists nodes s₁ s') :
    Persists nodes s s' :=
  ⟨h.diagnostics.trans h'.diagnostics, h.widened.trans h'.widened,
    fun node hn => (h'.types node hn).trans (h.types node hn)⟩

theorem Persists.diagnostics_eq_nil (h : Persists nodes s s') (hok : s'.diagnostics = []) :
    s.diagnostics = [] := by
  have hp := h.diagnostics
  rwa [hok, List.prefix_nil] at hp

theorem Persists.subset {nodes' : List NodeId} (h : Persists nodes s s') (hsub : nodes' ⊆ nodes) :
    Persists nodes' s s' :=
  ⟨h.diagnostics, h.widened, fun node hn => h.types node (hsub hn)⟩

theorem Moves.persists {others : List NodeId} (h : Moves others s s') (hd : nodes.Disjoint others) :
    Persists nodes s s' :=
  ⟨h.diagnostics_prefix, h.widened, fun _ hn => h.types_eq (hd hn)⟩

theorem persists_shallower (nodes : List NodeId) (s : Session) : Persists nodes s s.shallower :=
  ⟨List.prefix_rfl, .refl _, fun _ _ => rfl⟩

end Persisting

end Session

/-- Neither a constant nor a name, nor a selection, which may turn out to be one. -/
def Expr.isCompound : Expr → Bool
  | .literal _ _ | .ident _ _ | .select _ _ _ _ => false
  | _ => true

theorem Expr.not_isCompound_of_qualifiedName {e : Expr} {name : String}
    (h : e.qualifiedName? = some name) : ∀ n ∈ e.nodes, n.isCompound = false := by
  cases e with
  | ident id name => simp [Expr.nodes, Expr.descendants, Expr.isCompound]
  | select id operand field testOnly =>
    cases testOnly with
    | true => cases h
    | false =>
      simp only [Expr.qualifiedName?_select, Option.map_eq_some_iff] at h
      obtain ⟨name', hname, _⟩ := h
      have ih := Expr.not_isCompound_of_qualifiedName hname
      intro n hn
      rcases List.mem_cons.1 hn with rfl | hn
      · rfl
      · exact ih n hn
  | _ => cases h

/-- A pass through a tree with these ids came to the node and went on from it, and what it
recorded for the node is still so in the session. -/
structure Visited (env : Environment) (ids : List NodeId) (n : Expr) (s : Session) : Prop where
  subset : n.ids ⊆ ids
  nodup : n.ids.Nodup
  checked : ∃ t n' t', Checks env n t n' t' ∧ t'.Persists n.ids s

section Visiting

variable {env : Environment} {n : Expr}

theorem Visited.later {ids : List NodeId} {s s' : Session} (h : Visited env ids n s)
    (hp : s.Persists ids s') : Visited env ids n s' := by
  obtain ⟨t, n', t', hc, ht⟩ := h.checked
  exact ⟨h.subset, h.nodup, t, n', t', hc, ht.trans (hp.subset h.subset)⟩

theorem Visited.mono {ids ids' : List NodeId} {s : Session} (h : Visited env ids n s)
    (hsub : ids ⊆ ids') : Visited env ids' n s :=
  ⟨fun _ hn => hsub (h.subset hn), h.nodup, h.checked⟩

theorem Visited.before {ids others : List NodeId} {s s' : Session} (h : Visited env ids n s)
    (hmoves : s.Moves others s') (hd : ids.Disjoint others) : Visited env ids n s' :=
  h.later (hmoves.persists hd)

theorem Members.visited {ms : List Member} {kept kept' : Kept} {s s' : Session} {es' : List Expr}
    (h : Members env (fun c t c' t' => ∃ _ : Descends env c t c' t',
      c.ids.Nodup → t'.diagnostics = [] → n ∈ c.nodes → Visited env c.ids n t')
        ms kept s es' kept' s')
    (hids : (Expr.idsOf (ms.map Member.child)).Nodup) (hok : s'.diagnostics = []) {m : Member}
    (hm : m ∈ ms) (hmem : n ∈ m.child.nodes) :
    Visited env (Expr.idsOf (ms.map Member.child)) n s' := by
  induction h with
  | nil => cases hm
  | @cons m₁ ms _ _ kept _ _ s₁ _ hd hms ih =>
    obtain ⟨_, hvisited⟩ := hd
    rw [List.map_cons, Expr.idsOf_cons] at hids ⊢
    obtain ⟨hide, hides, hdis⟩ := List.nodup_append'.1 hids
    have hsettle := s₁.moves_settle env m₁.child.id kept m₁.place
    have hrest := (hsettle.mono (List.nil_subset _)).trans (hms.moves fun ⟨h, _⟩ => h.moves)
    rcases List.mem_cons.1 hm with rfl | hm
    · have hfirst := hvisited hide (hrest.diagnostics_eq_nil hok) hmem
      exact (hfirst.before hrest hdis).mono (List.subset_append_left _ _)
    · exact (ih hides hok hm).mono (List.subset_append_right _ _)

/-- Every node that is no name or constant is come to, unless something is reported. -/
theorem Descends.visited (hn : n.isCompound = true) {e e' : Expr} {s s' : Session}
    (h : Descends env e s e' s') (hids : e.ids.Nodup) (hok : s'.diagnostics = [])
    (hmem : n ∈ e.nodes) : Visited env e.ids n s' := by
  induction h using Descends.course_induction with
  | limit _ => exact absurd hok (Session.failNode_diagnostics_ne _ _ _)
  | @node e _ s _ hlt hc =>
    rcases List.mem_cons.1 hmem with rfl | hmem
    · exact ⟨List.Subset.refl _, hids, _, _, _, hc.checks (·.1),
        Session.persists_shallower _ _⟩
    cases hc with
    | @mk p _ kept _ s₁ hp hm =>
      have hfits := plan_fits hp
      have hown : (p.closing.nodes e.id ++ Expr.idsOf (p.members.map Member.child)).Nodup :=
        (hfits.nodup_ids hids).sublist (by simp)
      obtain ⟨_, hmembers, hdis⟩ := List.nodup_append'.1 hown
      have hclosing := s₁.moves_work env e.id kept p.closing
      obtain ⟨c, hc, hmem⟩ := List.mem_flatMap.1 (e.descendants_eq_children ▸ hmem)
      rcases hfits.covers c hc with hc | ⟨name, hname⟩
      · rcases List.mem_append.1 hc with hc | hc
        · obtain ⟨m, hm', rfl⟩ := List.mem_map.1 hc
          have hvisited := hm.visited hmembers (hclosing.diagnostics_eq_nil hok) hm' hmem
          have hclosed := hvisited.before hclosing (List.disjoint_symm hdis)
          exact (hclosed.later (Session.persists_shallower _ _)).mono fun _ h =>
            hfits.ids.subset (List.mem_append_right _ h)
        · obtain ⟨id, text, rfl⟩ := Work.isText_of_mem_names hc
          cases List.mem_singleton.1 hmem
          cases hn
      · rw [Expr.not_isCompound_of_qualifiedName hname n hmem] at hn
        cases hn

end Visiting

end CelTyping
