import CelTyping.Proofs.Trace

/-! The tables of a session in the course of a pass, for trees in which ids are used more than
once as well. An entry that has been made stays: a type can be replaced by another of its kind
only, and a reference goes on meaning what it means and at most gets more overloads, behind those
it lists. What does not agree with an entry is reported and changes nothing. -/
namespace CelTyping

namespace Reference

/-- The same reference, with some more overloads at the end perhaps. -/
structure Grows (a b : Reference) : Prop where
  name : b.name = a.name
  value : b.value = a.value
  overloads : a.overloads <+: b.overloads
  isFunction : b.isFunction = a.isFunction

theorem Grows.refl (r : Reference) : r.Grows r := ⟨rfl, rfl, List.prefix_rfl, rfl⟩

theorem Grows.trans {a b c : Reference} (h : a.Grows b) (h' : b.Grows c) : a.Grows c :=
  ⟨h'.name.trans h.name, h'.value.trans h.value, h.overloads.trans h'.overloads,
    h'.isFunction.trans h.isFunction⟩

theorem prefix_addOverload (r : Reference) (id : String) :
    r.overloads <+: (r.addOverload id).overloads := by
  unfold addOverload
  split
  next => exact List.prefix_rfl
  next => exact List.prefix_append _ _

theorem prefix_foldl_addOverload (ids : List String) (r : Reference) :
    r.overloads <+: (ids.foldl addOverload r).overloads := by
  induction ids generalizing r with
  | nil => exact List.prefix_rfl
  | cons id ids ih => exact (prefix_addOverload r id).trans (ih _)

theorem Grows.alike {a b : Reference} (h : a.Grows b) : b.Alike a := ⟨h.name, h.isFunction⟩

theorem Grows.adding {r : Reference} (hr : r.isFunction = true) (ids : List String) :
    r.Grows (ids.foldl addOverload r) where
  name := (alike_merge hr ids).1
  value := value_foldl_addOverload ids r
  overloads := prefix_foldl_addOverload ids r
  isFunction := (alike_merge hr ids).2

end Reference

namespace Session

/-- Whatever the first session has recorded and reported is in the second one. -/
structure Extends (s s' : Session) : Prop where
  types : ∀ node t, s.types.get? node = some t →
    ∃ t', s'.types.get? node = some t' ∧ t'.kind = t.kind
  references : ∀ node r, s.references.get? node = some r →
    ∃ r', s'.references.get? node = some r' ∧ r.Grows r'
  diagnostics : s.diagnostics <+: s'.diagnostics

def Listed (s : Session) : Prop :=
  ∀ node r, s.references.get? node = some r → r.overloads.Nodup

section Extending

variable {places : List NodeId} {s s₁ s' : Session}

theorem Extends.refl (s : Session) : s.Extends s where
  types _ t h := ⟨t, h, rfl⟩
  references _ r h := ⟨r, h, .refl r⟩
  diagnostics := List.prefix_rfl

theorem Extends.trans (h : s.Extends s₁) (h' : s₁.Extends s') : s.Extends s' where
  types node t ht := by
    obtain ⟨t₁, ht₁, hkind⟩ := h.types node t ht
    obtain ⟨t', ht', hkind'⟩ := h'.types node t₁ ht₁
    exact ⟨t', ht', hkind'.trans hkind⟩
  references node r hr := by
    obtain ⟨r₁, hr₁, hgrows⟩ := h.references node r hr
    obtain ⟨r', hr', hgrows'⟩ := h'.references node r₁ hr₁
    exact ⟨r', hr', hgrows.trans hgrows'⟩
  diagnostics := h.diagnostics.trans h'.diagnostics

theorem Extends.diagnostics_eq_nil (h : s.Extends s') (hok : s'.diagnostics = []) :
    s.diagnostics = [] := by
  have hp := h.diagnostics
  rwa [hok, List.prefix_nil] at hp

theorem Remarks.extends (h : Remarks places s s') : s.Extends s' := by
  obtain ⟨ds, hds, -⟩ := h.reports
  refine ⟨fun node t ht => ⟨t, ?_, rfl⟩, fun node r hr => ⟨r, ?_, .refl r⟩, ⟨ds, hds.symm⟩⟩
  · rw [h.types, ht]
  · rw [h.references, hr]

variable (s) (node : NodeId)

theorem extends_report (cause : Cause) : s.Extends (s.report node cause) where
  types _ t h := ⟨t, h, rfl⟩
  references _ r h := ⟨r, h, .refl r⟩
  diagnostics := List.prefix_append _ _

theorem extends_insertType (t : Ty)
    (h : ∀ existing, s.types.get? node = some existing → existing.kind = t.kind) :
    s.Extends { s with types := s.types.insert node t } where
  types node' t' ht' := by
    by_cases hnode : node' = node
    · subst hnode
      exact ⟨t, Table.get?_insert_self _ _ _, (h t' ht').symm⟩
    · exact ⟨t', (Table.get?_insert_of_ne _ _ hnode).trans ht', rfl⟩
  references _ r hr := ⟨r, hr, .refl r⟩
  diagnostics := List.prefix_rfl

theorem extends_insertReference (r : Reference)
    (h : ∀ existing, s.references.get? node = some existing → existing.Grows r) :
    s.Extends { s with references := s.references.insert node r } where
  types _ t ht := ⟨t, ht, rfl⟩
  references node' r' hr' := by
    by_cases hnode : node' = node
    · subst hnode
      exact ⟨r, Table.get?_insert_self _ _ _, h r' hr'⟩
    · exact ⟨r', (Table.get?_insert_of_ne _ _ hnode).trans hr', .refl r'⟩
  diagnostics := List.prefix_rfl

theorem extends_setType (t : Ty) : s.Extends (s.setType node t) := by
  unfold setType
  split
  next existing hexisting =>
    split
    next hkind =>
      refine s.extends_insertType node t fun existing' h => ?_
      rw [hexisting] at h
      cases h
      exact hkind
    next => exact s.extends_report node _
  next hnone =>
    refine s.extends_insertType node t fun existing h => ?_
    rw [hnone] at h
    cases h

theorem extends_setReference (r : Reference) : s.Extends (s.setReference node r) := by
  unfold setReference
  split
  next hnone =>
    refine s.extends_insertReference node r fun existing h => ?_
    rw [hnone] at h
    cases h
  next existing hexisting =>
    split
    next => exact .refl s
    next =>
      split
      next hsame =>
        refine s.extends_insertReference node _ fun existing' h => ?_
        rw [hexisting] at h
        cases h
        simp only [Bool.and_eq_true] at hsame
        exact .adding hsame.1.1 _
      next => exact s.extends_report node _

theorem extends_take (n : Note) : s.Extends (s.take n) := by
  cases n with
  | type node t => exact s.extends_setType node t
  | reference node r => exact s.extends_setReference node r

end Extending

section Listing

variable {places : List NodeId} {s s' : Session}

theorem Listed.insert (h : s.Listed) (node : NodeId) {r : Reference} (hr : r.overloads.Nodup) :
    Listed { s with references := s.references.insert node r } := by
  intro node' r' hr'
  by_cases hnode : node' = node
  · subst hnode
    rw [Table.get?_insert_self] at hr'
    cases hr'
    exact hr
  · exact h node' r' ((Table.get?_insert_of_ne _ _ hnode).symm.trans hr')

theorem Listed.setType (h : s.Listed) (node : NodeId) (t : Ty) : (s.setType node t).Listed := by
  simpa [Listed] using h

theorem Listed.setReference (h : s.Listed) (node : NodeId) {r : Reference}
    (hr : r.overloads.Nodup) : (s.setReference node r).Listed := by
  unfold Session.setReference
  split
  next => exact h.insert node hr
  next existing hexisting =>
    split
    next => exact h
    next =>
      split
      next => exact h.insert node (Reference.nodup_foldl_addOverload _ (h _ _ hexisting))
      next => exact h

theorem Listed.take (h : s.Listed) {n : Note} (hn : n.Listed) : (s.take n).Listed := by
  cases n with
  | type node t => exact h.setType node t
  | reference node r => exact h.setReference node hn

theorem Remarks.listed (h : Remarks places s s') (hs : s.Listed) : s'.Listed := by
  intro node r hr
  rw [h.references] at hr
  exact hs node r hr

end Listing

section Courses

variable {places : List NodeId} {s s' : Session} {ms : List Moment}

theorem Traces.extends (h : Traces places s ms s') : s.Extends s' := by
  induction h with
  | remarks h => exact h.extends
  | note s n _ _ => exact s.extends_take n
  | append _ _ ih ih' => exact ih.trans ih'

theorem Traces.moment_extends (h : Traces places s ms s') :
    ∀ m ∈ ms, s.Extends m.session ∧ m.next.Extends s' := by
  induction h with
  | remarks _ => simp
  | note s n _ _ => exact List.forall_mem_singleton.2 ⟨.refl s, .refl _⟩
  | append h h' ih ih' =>
    refine List.forall_mem_append.2 ⟨fun m hm => ?_, fun m hm => ?_⟩
    · exact ⟨(ih m hm).1, (ih m hm).2.trans h'.extends⟩
    · exact ⟨h.extends.trans (ih' m hm).1, (ih' m hm).2⟩

theorem Traces.pairwise_extends (h : Traces places s ms s') :
    ms.Pairwise fun m m' => m.next.Extends m'.session := by
  induction h with
  | remarks _ => exact .nil
  | note s n _ _ => exact List.pairwise_singleton _ _
  | append h h' ih ih' =>
    refine List.pairwise_append.2 ⟨ih, ih', fun m hm m' hm' => ?_⟩
    exact (h.moment_extends m hm).2.trans (h'.moment_extends m' hm').1

theorem Traces.listed (h : Traces places s ms s') (hs : s.Listed) :
    s'.Listed ∧ ∀ m ∈ ms, m.session.Listed ∧ m.next.Listed := by
  induction h with
  | remarks h => exact ⟨h.listed hs, by simp⟩
  | note s n _ hn => exact ⟨hs.take hn, List.forall_mem_singleton.2 ⟨hs, hs.take hn⟩⟩
  | append _ _ ih ih' =>
    obtain ⟨hs₁, hms⟩ := ih hs
    obtain ⟨hs', hms'⟩ := ih' hs₁
    exact ⟨hs', List.forall_mem_append.2 ⟨hms, hms'⟩⟩

end Courses

theorem setType_of_kind_ne {s : Session} {node : NodeId} {t existing : Ty}
    (h : s.types.get? node = some existing) (hkind : existing.kind ≠ t.kind) :
    s.setType node t = s.report node (.incompatibleType existing t) := by
  simp only [setType, h, if_neg hkind]

end Session

section Passes

open Session

variable {env : Environment}

theorem Session.extends_work (s : Session) (env : Environment) (id : NodeId) (kept : Kept)
    (w : Work) : s.Extends (s.work env id kept w) :=
  (s.traces_work env id kept (List.subset_append_left (w.nodes id) w.args)
    (List.subset_append_right _ _)).extends

theorem Session.extends_settle (s : Session) (env : Environment) (node : NodeId) (kept : Kept)
    (place : Place) : s.Extends (s.settle env node kept place).2 :=
  (s.remarks_settle env kept (List.mem_cons_self (l := place.nodes))
    (List.subset_cons_self _ _)).extends

theorem Members.extends {R : Expr → Session → Expr → Session → Prop} {ms : List Member}
    {kept kept' : Kept} {s s' : Session} {es' : List Expr}
    (h : Members env R ms kept s es' kept' s')
    (hR : ∀ {c c' t t'}, R c t c' t' → t.Extends t') : s.Extends s' := by
  induction h with
  | nil => exact .refl _
  | cons hd _ ih => exact (hR hd).trans ((extends_settle _ env _ _ _).trans ih)

theorem Descends.extends {e e' : Expr} {s s' : Session} (h : Descends env e s e' s') :
    s.Extends s' := by
  induction h using Descends.course_induction with
  | limit _ => exact (traces_failNode _ List.mem_cons_self rfl : Traces [_] _ _ _).extends
  | @node e _ s _ hlt hc =>
    cases hc with
    | @mk p _ kept _ s₁ hp hm =>
      have hmembers := hm.extends fun ⟨_, h⟩ => h
      have hpass := (s.deeper.extends_work env e.id {} p.opening).trans
        (hmembers.trans (s₁.extends_work env e.id kept p.closing))
      exact ⟨hpass.types, hpass.references, hpass.diagnostics⟩

end Passes

/-- In the course of a pass entries are only added. From each moment to all later ones and to the
end, nodes keep a type of the same kind and a reference to the same thing, overloads are added at
the end of a list only and never twice, and a type of another kind is reported instead. -/
theorem tables_only_grow (env : Environment) (e : Expr) :
    ∃ s : Session, Session.Traces e.places {} (moments env e) s ∧
      (∀ c, check env e = .ok c → ∃ e', c = s.conclude e') ∧
      (moments env e).Pairwise (fun m m' => m.next.Extends m'.session) ∧ s.Listed ∧
      ∀ m ∈ moments env e, m.session.Extends m.next ∧ m.next.Extends s ∧
        m.session.Listed ∧ m.next.Listed ∧
        ∀ node t existing, m.note = .type node t →
          m.session.types.get? node = some existing → existing.kind ≠ t.kind →
            m.next = m.session.report node (.incompatibleType existing t) := by
  obtain ⟨s, htraces, hend⟩ := traced_moments env e
  have hempty : Session.Listed {} := by
    intro node r hr
    cases hr
  obtain ⟨hlisted, hmoments⟩ := htraces.listed hempty
  have hcheck (c : Checked) (h : check env e = .ok c) : ∃ e', c = s.conclude e' := by
    obtain ⟨e', s₁, hd, rfl⟩ := check_iff.1 h
    exact ⟨e', by rw [hend e' s₁ (descends_iff.2 hd)]⟩
  refine ⟨s, htraces, hcheck, htraces.pairwise_extends, hlisted, fun m hm => ?_⟩
  refine ⟨m.session.extends_take m.note, (htraces.moment_extends m hm).2, (hmoments m hm).1,
    (hmoments m hm).2, fun node t existing hnote hget hkind => ?_⟩
  rw [Moment.next, hnote]
  exact Session.setType_of_kind_ne hget hkind

section Samples

def itemEnv : Environment :=
  Environment.empty.withFunction {
    name := "item",
    overloads := [{ id := "item_string", params := [.string], result := .int },
      { id := "item_int", params := [.int], result := .list .string }] }

def reusedId : Expr :=
  .list 4 [⟨.call 3 "item" [.literal 1 (.string "a")], false⟩,
    ⟨.call 3 "item" [.literal 2 (.int 7)], false⟩]

theorem tables_only_grow_reusedId :
    ∃ (c : Checked) (s : Session), check itemEnv reusedId = .ok c ∧
      (∃ e', c = s.conclude e') ∧ s.Listed ∧
      (∃ m ∈ moments itemEnv reusedId, m.note = .type 3 (.list .string) ∧
        m.session.types.get? 3 = some .int ∧
        m.next = m.session.report 3 (.incompatibleType .int (.list .string)) ∧ m.next.Extends s) ∧
      ∃ m ∈ moments itemEnv reusedId,
        (m.session.references.get? 3).map Reference.overloads = some ["item_string"] ∧
        (m.next.references.get? 3).map Reference.overloads = some ["item_string", "item_int"] ∧
        m.session.Extends m.next ∧ m.next.Listed := by
  obtain ⟨s, -, hcheck, -, hlisted, hmoments⟩ := tables_only_grow itemEnv reusedId
  obtain ⟨c, hc, -⟩ : ∃ c, check itemEnv reusedId = .ok c ∧ c.isOk = false := by decide +kernel
  obtain ⟨m, hm, hnote, htype⟩ : ∃ m ∈ moments itemEnv reusedId,
      m.note = .type 3 (.list .string) ∧ m.session.types.get? 3 = some .int := by decide +kernel
  obtain ⟨m', hm', hbefore, hafter⟩ : ∃ m ∈ moments itemEnv reusedId,
      (m.session.references.get? 3).map Reference.overloads = some ["item_string"] ∧
      (m.next.references.get? 3).map Reference.overloads = some ["item_string", "item_int"] := by
    decide +kernel
  obtain ⟨-, hlater, -, -, hclash⟩ := hmoments m hm
  obtain ⟨hextends, -, -, hnext, -⟩ := hmoments m' hm'
  exact ⟨c, s, hc, hcheck c hc, hlisted,
    ⟨m, hm, hnote, htype, hclash 3 _ .int hnote htype (by decide), hlater⟩,
    m', hm', hbefore, hafter, hextends, hnext⟩

end Samples

end CelTyping
