import CelTyping.Proofs.Plain
import CelTyping.Proofs.Visits

/-! The types of list literals. The types of the elements are joined from left to right,
and a join keeps to one of the two types it is given. So the elements end up with `dyn`
or with the type that one of them has. The elements after that one have been compared
with it and can be used as it. Those before it have been compared with others only, and
since matching does not carry over from one type to the next, they need not fit. -/
namespace CelTyping

open Bindings (Matches Widened Passes EndsPlain)

section Joining

/-- Joining the types to the first one gives the last. Each match leads to the bindings
that a pass ends with. -/
inductive Joins (final : Bindings) : Ty → List Ty → Ty → Prop where
  | done {t : Ty} : Joins final t [] t
  | join {m m' : Bindings} {r c t : Ty} {cs : List Ty} :
      Matches m r c m' → m'.Widened final → Joins final (r.mostGeneral c) cs t →
        Joins final r (c :: cs) t
  /-- Types that do not match give `dyn`. -/
  | mixed {r c t : Ty} {cs : List Ty} : Joins final .dyn cs t → Joins final r (c :: cs) t

variable {M M' : Bindings}

theorem Joins.mono {r t : Ty} {cs : List Ty} (h : Joins M r cs t) (hw : M.Widened M') :
    Joins M' r cs t := by
  induction h with
  | done => exact .done
  | join hm hw' _ ih => exact .join hm (hw'.trans hw) ih
  | mixed _ ih => exact .mixed ih

theorem Joins.eq_dyn {r t : Ty} {cs : List Ty} (h : Joins M r cs t) (hr : r = .dyn) :
    t = .dyn := by
  induction h with
  | done => exact hr
  | join _ _ _ ih => exact ih (by simp [hr, Ty.mostGeneral, Ty.subsumes])
  | mixed _ ih => exact ih rfl

/-- From `t` on all types can be used as `t` in the end. Those before it end as the same type if
they end as plain ones. -/
structure Prevails (final : Bindings) (before : List Ty) (t : Ty) (after : List Ty) : Prop where
  passes : ∀ c ∈ t :: after, Passes (final.substitute c true) (final.substitute t true)
  closed_eq : (∀ c ∈ before ++ [t], final.EndsPlain c) →
    ∀ c ∈ before, final.substitute c true = final.substitute t true

section Prevailing

variable {r c t : Ty} {before after : List Ty}

theorem prevails_nil (M : Bindings) (t : Ty) : Prevails M [] t [] where
  passes c hc := by
    rw [List.mem_singleton.1 hc]
    exact Bindings.passes_of_exact _ _ (M.substitute_closed t) (M.substitute_closed t)
      (Ty.exact_refl _)
  closed_eq _ _ hc := by cases hc

/-- The type so far is `t` itself, and the next one is below it. -/
theorem Prevails.keep (h : Prevails M [] t after)
    (hc : Passes (M.substitute c true) (M.substitute t true)) : Prevails M [] t (c :: after) where
  passes := by
    obtain ⟨ht, hafter⟩ := List.forall_mem_cons.1 h.passes
    exact List.forall_mem_cons.2 ⟨ht, List.forall_mem_cons.2 ⟨hc, hafter⟩⟩
  closed_eq _ _ hx := by cases hx

/-- The type so far comes before `t`, and so does the next one. -/
theorem Prevails.insert (h : Prevails M (r :: before) t after)
    (hrc : M.EndsPlain r → M.EndsPlain c → M.substitute r true = M.substitute c true) :
    Prevails M (r :: c :: before) t after where
  passes := h.passes
  closed_eq hplain := by
    obtain ⟨hr, hrest⟩ := List.forall_mem_cons.1 hplain
    obtain ⟨hc, hrest⟩ := List.forall_mem_cons.1 hrest
    obtain ⟨hr', hbefore⟩ :=
      List.forall_mem_cons.1 (h.closed_eq (List.forall_mem_cons.2 ⟨hr, hrest⟩))
    have hc' : M.substitute c true = M.substitute t true := (hrc hr hc).symm.trans hr'
    exact List.forall_mem_cons.2 ⟨hr', List.forall_mem_cons.2 ⟨hc', hbefore⟩⟩

/-- The next type takes the place of the one so far. -/
theorem Prevails.replace {cs : List Ty} (h : Prevails M before t after)
    (heq : c :: cs = before ++ t :: after)
    (hrc : M.EndsPlain r → M.EndsPlain c → M.substitute r true = M.substitute c true) :
    Prevails M (r :: before) t after where
  passes := h.passes
  closed_eq hplain := by
    obtain ⟨hr, hrest⟩ := List.forall_mem_cons.1 hplain
    have hall := h.closed_eq hrest
    have hc : M.EndsPlain c ∧ M.substitute c true = M.substitute t true := by
      cases before with
      | nil =>
        cases heq
        exact ⟨hrest c List.mem_cons_self, rfl⟩
      | cons b before =>
        cases heq
        exact ⟨hrest c List.mem_cons_self, hall c List.mem_cons_self⟩
    exact List.forall_mem_cons.2 ⟨(hrc hr hc.1).trans hc.2, hall⟩

end Prevailing

theorem Joins.prevails (hM : M.Acyclic) {r t : Ty} {cs : List Ty} (h : Joins M r cs t) :
    t = .dyn ∨ ∃ before after, r :: cs = before ++ t :: after ∧ Prevails M before t after := by
  induction h with
  | @done t => exact .inr ⟨[], [], rfl, prevails_nil M t⟩
  | mixed hj _ => exact .inl (hj.eq_dyn rfl)
  | @join m m' r c t cs hm hw _ ih =>
    rcases ih with rfl | ⟨before, after, heq, hprevails⟩
    · exact .inl rfl
    refine .inr ?_
    rcases Ty.mostGeneral_cases r c with ⟨hmg, hs⟩ | hmg
    · -- the type so far stays
      rw [hmg] at heq
      cases before with
      | nil =>
        cases heq
        exact ⟨[], c :: cs, rfl, hprevails.keep (hm.covered hM hw r c hs)⟩
      | cons b before =>
        cases heq
        exact ⟨r :: c :: before, after, rfl, hprevails.insert (hm.closed_eq hM hw)⟩
    · -- the new type takes its place
      rw [hmg] at heq
      exact ⟨r :: before, after, by rw [heq, List.cons_append],
        hprevails.replace heq (hm.closed_eq hM hw)⟩

end Joining

section Elements

variable {env : Environment}

namespace Session

def contribution (s : Session) (el : Element) : Ty := (s.entryType el.value.id el.optional).1

def WellMarked (s : Session) (el : Element) : Prop :=
  el.optional = true →
    (s.typeOf el.value.id).isOptional = true ∨ (s.typeOf el.value.id).isDynOrError = true

theorem joinTypes_of_ok {s : Session} {node : NodeId} {r c : Ty}
    (h : (s.joinTypes env node (some r) c).2.diagnostics = []) :
    (∃ m, s.bindings.assignable? r c = some m ∧
      s.joinTypes env node (some r) c = (r.mostGeneral c, { s with bindings := m })) ∨
        s.joinTypes env node (some r) c = (.dyn, s) := by
  cases hm : s.bindings.assignable? r c with
  | some m =>
    have ha : s.assign r c = (true, { s with bindings := m }) := by simp only [assign, hm]
    exact .inl ⟨m, rfl, by simp only [joinTypes, ha, if_true]⟩
  | none =>
    have ha : s.assign r c = (false, s) := by simp only [assign, hm]
    simp only [joinTypes, ha, Bool.false_eq_true, if_false] at h ⊢
    cases hp : env.policy with
    | mixed => exact .inr rfl
    | homogeneous => simp [hp, fail, report] at h

theorem joinMember_of_ok {s : Session} (el : Element) {previous : Option Ty}
    (h : (s.joinMember env el.value.id el.optional previous).2.diagnostics = []) :
    s.WellMarked el ∧ s.joinMember env el.value.id el.optional previous =
      s.joinTypes env el.value.id previous (s.contribution el) := by
  have hsteps : Steps [] (s.entryType el.value.id el.optional).2 _ :=
    steps_joinTypes _ env el.value.id previous (s.contribution el)
  obtain ⟨hs, hmark⟩ := entryType_of_ok (hsteps.moves.diagnostics_eq_nil h)
  exact ⟨hmark, congrArg (fun t : Session => t.joinTypes env _ _ (s.contribution el)) hs⟩

theorem contribution_eq (s : Session) (el : Element) :
    s.contribution el =
      if el.optional then (s.typeOf el.value.id).unwrapOptional else s.typeOf el.value.id := by
  unfold contribution entryType
  simp only
  split
  next => split <;> rfl
  next => rfl

structure Keeps (s s' : Session) (el : Element) : Prop where
  contribution : s'.contribution el = s.contribution el
  wellMarked : s.WellMarked el → s'.WellMarked el
  typed : s.Typed el.value.id → s'.Typed el.value.id

theorem keeps_of_types {s s' : Session} {el : Element}
    (h : s'.types.get? el.value.id = s.types.get? el.value.id) : s.Keeps s' el := by
  have ht : s'.typeOf el.value.id = s.typeOf el.value.id := by simp only [typeOf, h]
  exact ⟨by simp only [contribution_eq, ht], by simp only [WellMarked, ht, imp_self],
    by simp only [Typed, h, imp_self]⟩

end Session

def Session.Accepted (s : Session) (el : Element) : Prop :=
  s.Typed el.value.id ∧ s.WellMarked el

theorem ChecksElements.keeps_head {value value' : Expr} {optional : Bool}
    {rest rest' : List Element} {t t' : Option Ty} {s s₁ s' : Session}
    (hids : (Expr.idsOf (value :: rest.map Element.value)).Nodup) (hok : s'.diagnostics = [])
    (hd : Descends env value s value' s₁)
    (hs : ChecksElements env rest (some (s₁.joinMember env value.id optional t).1)
      (s₁.joinMember env value.id optional t).2 rest' t' s') :
    s'.contribution ⟨value, optional⟩ = s₁.contribution ⟨value, optional⟩ ∧
      s'.Accepted ⟨value, optional⟩ := by
  rw [Expr.idsOf_cons] at hids
  obtain ⟨_, _, hdis⟩ := List.nodup_append'.1 hids
  have hokj := hs.run.moves.diagnostics_eq_nil hok
  have hmoves := (s₁.steps_joinMember env value.id optional t).moves.trans hs.run.moves
  have hkeep : s₁.Keeps s' ⟨value, optional⟩ :=
    Session.keeps_of_types (hmoves.types_eq (hdis (Expr.id_mem_ids value)))
  have hmark := (Session.joinMember_of_ok ⟨value, optional⟩ hokj).1
  exact ⟨hkeep.contribution, hkeep.typed hd.typed, hkeep.wellMarked hmark⟩

theorem ChecksElements.joins {es es' : List Element} {p t' : Option Ty} {r : Ty}
    {s s' : Session} (hids : (Expr.idsOf (es.map Element.value)).Nodup) (hok : s'.diagnostics = [])
    (hp : p = some r) :
    ChecksElements env es p s es' t' s' →
      ∃ t, t' = some t ∧ Joins s'.bindings.bindings r (es.map s'.contribution) t ∧
        ∀ el ∈ es, s'.Accepted el
  | .nil => ⟨r, hp, .done, by simp⟩
  | @ChecksElements.cons _ value _ optional rest _ _ _ _ s₁ _ hd hs => by
    subst hp
    obtain ⟨hcon, hacc⟩ := hs.keeps_head hids hok hd
    have hidr : (Expr.idsOf (rest.map Element.value)).Nodup := by
      rw [List.map_cons, Expr.idsOf_cons] at hids
      exact (List.nodup_append'.1 hids).2.1
    obtain ⟨t, ht, hj, hall⟩ := hs.joins hidr hok rfl
    refine ⟨t, ht, ?_, List.forall_mem_cons.2 ⟨hacc, hall⟩⟩
    have hokj := hs.run.moves.diagnostics_eq_nil hok
    have heq := (Session.joinMember_of_ok ⟨value, optional⟩ hokj).2
    have hw := hs.run.moves.widened
    rw [List.map_cons, hcon]
    simp only at heq
    rw [heq] at hj hokj hw
    rcases Session.joinTypes_of_ok hokj with ⟨m, hm, hres⟩ | hres
    · rw [hres] at hj hw
      exact .join (Substitution.matches_of_assignable hm) hw hj
    · rw [hres] at hj
      exact .mixed hj

/-- Where all elements are known and their types have been joined to `t`. -/
structure Session.Joined (s : Session) (es : List Element) (t : Ty) : Prop where
  accepted : ∀ el ∈ es, s.Accepted el
  joins : ∀ el rest, es = el :: rest →
    Joins s.bindings.bindings (s.contribution el) (rest.map s.contribution) t

theorem Session.Joined.later {s s' : Session} {es : List Element} {t : Ty} (h : s.Joined es t)
    (hp : s.Persists (Expr.idsOf (es.map Element.value)) s') : s'.Joined es t := by
  have hkeeps : ∀ el ∈ es, s.Keeps s' el := fun el hel =>
    Session.keeps_of_types (hp.types _ (Expr.id_mem_idsOf (List.mem_map_of_mem hel)))
  constructor
  · intro el hel
    obtain ⟨htyped, hmark⟩ := h.accepted el hel
    exact ⟨(hkeeps el hel).typed htyped, (hkeeps el hel).wellMarked hmark⟩
  · rintro el rest rfl
    have hrest : rest.map s'.contribution = rest.map s.contribution :=
      List.map_congr_left fun x hx => (hkeeps x (List.mem_cons_of_mem _ hx)).contribution
    rw [(hkeeps el List.mem_cons_self).contribution, hrest]
    exact (h.joins el rest rfl).mono hp.widened

theorem ChecksElements.joined {es es' : List Element} {t' : Option Ty} {s s' : Session}
    (hids : (Expr.idsOf (es.map Element.value)).Nodup) (hok : s'.diagnostics = [])
    (h : ChecksElements env es none s es' t' s') :
    es = [] ∨ ∃ t, t' = some t ∧ s'.Joined es t := by
  generalize hp : (none : Option Ty) = p at h
  cases h with
  | nil => exact .inl rfl
  | @cons value _ optional rest _ _ _ _ s₁ _ hd hs =>
    subst hp
    obtain ⟨hcon, hacc⟩ := hs.keeps_head hids hok hd
    have hidr : (Expr.idsOf (rest.map Element.value)).Nodup := by
      rw [List.map_cons, Expr.idsOf_cons] at hids
      exact (List.nodup_append'.1 hids).2.1
    obtain ⟨t, ht, hj, hall⟩ := hs.joins hidr hok rfl
    refine .inr ⟨t, ht, List.forall_mem_cons.2 ⟨hacc, hall⟩, ?_⟩
    rintro el rest' ⟨rfl, rfl⟩
    rw [hcon]
    exact hj

theorem Checks.list_joined {id : NodeId} {elements : List Element} {n' : Expr} {s s' : Session}
    (hids : (Expr.list id elements).ids.Nodup) (hok : s'.diagnostics = [])
    (h : Checks env (.list id elements) s n' s') :
    ∃ t, s'.types.get? id = some (.list t) ∧ s'.Joined elements t := by
  rw [Expr.ids_list, List.nodup_cons] at hids
  cases h with
  | @list _ _ _ t _ s₁ he =>
    refine ⟨(s₁.memberType t).1, Session.setType_types_self hok, ?_⟩
    have hsteps : Session.Steps [id] s₁ (s₁.recordList id t) :=
      s₁.steps_recordList t (List.mem_singleton_self id)
    rcases he.joined hids.2 (hsteps.moves.diagnostics_eq_nil hok) with rfl | ⟨t, rfl, hj⟩
    · exact ⟨by simp, by simp⟩
    · exact hj.later (hsteps.moves.persists (List.disjoint_singleton.2 hids.1))

end Elements

namespace Checked

def memberType? (c : Checked) (el : Element) : Option Ty :=
  (c.types.get? el.value.id).map fun t => if el.optional then t.unwrapOptional else t

/-- The element can be used where a `t` is expected. -/
def Suits (c : Checked) (t : Ty) (el : Element) : Prop :=
  ∃ u ∈ c.memberType? el, ((∅ : Bindings).assignable? u t).isSome = true

def IsPlain (c : Checked) (el : Element) : Prop := ∃ u ∈ c.memberType? el, u.isPlain = true

instance (c : Checked) (t : Ty) (el : Element) : Decidable (c.Suits t el) :=
  inferInstanceAs (Decidable (∃ u ∈ c.memberType? el, _))

end Checked

section Lists

variable {s : Session} {e' : Expr}

theorem Session.memberType?_conclude {el : Element} (h : s.Accepted el) :
    (s.conclude e').memberType? el =
      some (s.bindings.bindings.substitute (s.contribution el) true) := by
  obtain ⟨htyped, hmark⟩ := h
  obtain ⟨t, ht⟩ := Option.isSome_iff_exists.1 htyped
  have htype : s.typeOf el.value.id = t := Session.typeOf_of_get? ht
  rw [Session.WellMarked, htype] at hmark
  simp only [Checked.memberType?, Session.conclude, Table.get?_mapValues, ht, Option.map_some,
    Session.contribution_eq, htype, Substitution.substitute, Option.some.injEq]
  split
  next hopt =>
    cases t with
    | optional u => rfl
    | scalar u => rfl
    | error u => rfl
    | _ => cases (hmark hopt) <;> contradiction
  next => rfl

theorem Session.suits_conclude {el : Element} {t : Ty} (h : s.Accepted el)
    (hp : Passes (s.bindings.bindings.substitute (s.contribution el) true) t) :
    (s.conclude e').Suits t el :=
  ⟨_, s.memberType?_conclude h, by rw [hp.assignable, Option.isSome_some]⟩

theorem Session.isPlain_conclude {el : Element} (h : s.Accepted el)
    (hp : (s.conclude e').IsPlain el) : s.bindings.bindings.EndsPlain (s.contribution el) := by
  obtain ⟨u, hu, hplain⟩ := hp
  rw [s.memberType?_conclude h, Option.mem_some_iff] at hu
  rwa [← hu] at hplain

/-- The element that gives a list its type: it and those after it suit the list, and those
before it do if all of them end with plain types. -/
structure Checked.Leads (c : Checked) (t : Ty) (before : List Element) (el : Element)
    (after : List Element) : Prop where
  type : c.memberType? el = some t
  suits : ∀ x ∈ el :: after, c.Suits t x
  suits_before : (∀ x ∈ before ++ [el], c.IsPlain x) → ∀ x ∈ before, c.Suits t x

theorem Session.Joined.leads {es : List Element} {t : Ty} (h : s.Joined es t) (hne : es ≠ []) :
    t = .dyn ∨ ∃ before el after, es = before ++ el :: after ∧
      (s.conclude e').Leads (s.bindings.bindings.substitute t true) before el after := by
  obtain ⟨first, rest, hes⟩ := List.exists_cons_of_ne_nil hne
  rcases (h.joins first rest hes).prevails s.bindings.acyclic with
    rfl | ⟨before, after, hsplit, hpasses, hclosed⟩
  · exact .inl rfl
  rw [← List.map_cons, ← hes] at hsplit
  obtain ⟨before, tail, rfl, rfl, htail⟩ := List.map_eq_append_iff.1 hsplit
  obtain ⟨el, after, rfl, rfl, rfl⟩ := List.map_eq_cons_iff.1 htail
  refine .inr ⟨before, el, after, rfl, ?_, ?_, ?_⟩
  · exact s.memberType?_conclude (h.accepted el (by simp))
  · intro x hx
    refine s.suits_conclude (h.accepted x (List.mem_append_right _ hx)) ?_
    exact hpasses _ (List.mem_map_of_mem hx)
  · intro hplain x hx
    have hends : ∀ c ∈ before.map s.contribution ++ [s.contribution el],
        s.bindings.bindings.EndsPlain c := by
      intro c hc
      rw [← List.map_singleton, ← List.map_append] at hc
      obtain ⟨y, hy, rfl⟩ := List.mem_map.1 hc
      refine s.isPlain_conclude (h.accepted y ?_) (hplain y hy)
      simp only [List.mem_append, List.mem_cons] at hy ⊢
      tauto
    refine s.suits_conclude (h.accepted x (List.mem_append_left _ hx)) ?_
    rw [hclosed hends _ (List.mem_map_of_mem hx)]
    exact hpasses _ List.mem_cons_self

theorem Session.Joined.suits_dyn {es : List Element} {t : Ty} (h : s.Joined es t) :
    ∀ el ∈ es, (s.conclude e').Suits .dyn el := by
  intro el hel
  refine s.suits_conclude (h.accepted el hel) ?_
  exact Bindings.passes_of_fits (Bindings.substitute_closed _ _) rfl (Ty.fits_dyn_right _)

end Lists

/-- The type of a list literal without elements is not restricted. That of any other is a
list of `dyn`, which every element suits, or of the type of one of its elements. -/
theorem list_literal_members {env : Environment} {e : Expr} {c : Checked} {id : NodeId}
    {elements : List Element} (hids : e.ids.Nodup) (hcheck : check env e = .ok c)
    (hok : c.diagnostics = []) (hmem : .list id elements ∈ e.nodes) :
    ∃ t, c.types.get? id = some (.list t) ∧ (elements = [] ∨
      (t = .dyn ∧ ∀ el ∈ elements, c.Suits t el) ∨
        ∃ before el after, elements = before ++ el :: after ∧ c.Leads t before el after) := by
  obtain ⟨e', s, hd, rfl⟩ := check_iff.1 hcheck
  obtain ⟨_, hidn, s₁, n', s₂, hc, hp⟩ := hd.visited rfl hids hok hmem
  obtain ⟨t, ht, hj⟩ := hc.list_joined hidn (hp.diagnostics_eq_nil hok)
  rw [Expr.ids_list] at hp
  have hj := hj.later (hp.subset (List.subset_cons_self _ _))
  have htype : s.types.get? id = some (.list t) := by
    rw [hp.types id List.mem_cons_self, ht]
  refine ⟨s.bindings.bindings.substitute t true, ?_, ?_⟩
  · simp only [Session.conclude, Table.get?_mapValues, htype]
    rfl
  by_cases hne : elements = []
  · exact .inl hne
  refine .inr ?_
  rcases hj.leads hne with rfl | hleads
  · exact .inl ⟨rfl, hj.suits_dyn⟩
  · exact .inr hleads

theorem list_literal_members_nested :
    ∃ c, check ((Environment.empty.withVariable "x" .int).withVariable "o" (.optional .int))
        (.list 4 [⟨.list 3 [⟨.ident 1 "x", false⟩, ⟨.ident 2 "o", true⟩], false⟩]) = .ok c ∧
      c.diagnostics = [] ∧ ∃ t, c.types.get? 3 = some (.list t) ∧
        ((t = .dyn ∧ ∀ el ∈ [⟨.ident 1 "x", false⟩, ⟨.ident 2 "o", true⟩], c.Suits t el) ∨
          ∃ before el after, [⟨.ident 1 "x", false⟩, ⟨.ident 2 "o", true⟩] =
            before ++ el :: after ∧ c.Leads t before el after) := by
  obtain ⟨c, hc, hok⟩ :
      ∃ c, check ((Environment.empty.withVariable "x" .int).withVariable "o" (.optional .int))
        (.list 4 [⟨.list 3 [⟨.ident 1 "x", false⟩, ⟨.ident 2 "o", true⟩], false⟩]) = .ok c ∧
      c.diagnostics = [] := by decide +kernel
  obtain ⟨t, ht, hnil | h⟩ := list_literal_members (by decide) hc hok
    (List.mem_cons_of_mem _ List.mem_cons_self)
  · cases hnil
  · exact ⟨c, hc, hok, t, ht, h⟩

/-- Not every element suits its list. A wrapper can be null, and so can a timestamp, but a
wrapper is no timestamp. -/
theorem list_literal_unsuited :
    ¬ ∀ (env : Environment) (e : Expr) (c : Checked) (id : NodeId) (elements : List Element)
      (t : Ty) (el : Element), e.ids.Nodup → check env e = .ok c → c.diagnostics = [] →
        .list id elements ∈ e.nodes → c.types.get? id = some (.list t) → el ∈ elements →
          el.optional = false → c.Suits t el := by
  intro h
  obtain ⟨c, hc, hok, ht, hnot⟩ :
      ∃ c, check
          ((Environment.empty.withVariable "w" (.wrapper .int)).withVariable "t" .timestamp)
          (.list 4 [⟨.ident 1 "w", false⟩, ⟨.literal 2 .null, false⟩, ⟨.ident 3 "t", false⟩]) =
            .ok c ∧ c.diagnostics = [] ∧ c.types.get? 4 = some (.list .timestamp) ∧
              ¬ c.Suits .timestamp ⟨.ident 1 "w", false⟩ := by
    decide +kernel
  exact hnot <| h _ _ c 4 _ _ _ (by decide) hc hok List.mem_cons_self ht List.mem_cons_self rfl

end CelTyping
