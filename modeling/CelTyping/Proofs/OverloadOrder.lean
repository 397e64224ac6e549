import CelTyping.Proofs.Comparisons
import CelTyping.Proofs.Instances

/-! The order in which overloads are declared. Each one that fits leaves its bindings behind
before the next is tried, and results are compared as they come, with type variables in them and
`dyn` from the first difference on. For arguments without parameters all this comes to the same
in any order: whether an overload fits depends on its signature alone, and results differ in one
order if they do in another. A type variable in a result is in no other result, so two results
that are the same have none. -/
namespace CelTyping

namespace Ty

/-- Results of two overloads that are taken for the same. -/
structure Agree (a b : Ty) : Prop where
  left : a.paramNames = []
  right : b.paramNames = []
  exact : a.exact b = true

theorem Agree.symm {a b : Ty} (h : a.Agree b) : b.Agree a :=
  ⟨h.right, h.left, exact_symm h.exact⟩

mutual

@[simp] theorem paramNames_blank (t : Ty) : t.blank.paramNames = t.paramNames := by
  cases t with
  | list t | wrapper t | type t | optional t => exact paramNames_blank t
  | map k v => simp only [blank, paramNames, paramNames_blank k, paramNames_blank v]
  | abstract n ps => exact paramNamesAll_blankAll ps
  | function r ps => simp only [blank, paramNames, paramNames_blank r, paramNamesAll_blankAll ps]
  | param p | scalar _ | message _ | error _ => rfl

@[simp] theorem paramNamesAll_blankAll (ts : List Ty) :
    paramNamesAll (blankAll ts) = paramNamesAll ts := by
  cases ts with
  | nil => rfl
  | cons t ts => simp only [blankAll, paramNamesAll, paramNames_blank t, paramNamesAll_blankAll ts]

end

theorem eq_dyn_of_isDyn {t : Ty} (h : t.isDyn = true) : t = .dyn := by
  cases t with
  | scalar s => cases s <;> first | rfl | cases h
  | _ => cases h

theorem paramNames_of_exact {a b : Ty} (h : a.exact b = true) : a.paramNames = b.paramNames := by
  rw [← paramNames_blank a, (exact_iff a b).1 h, paramNames_blank]

end Ty

namespace Session

section Spelling

variable {m : Bindings} {u u' t t' : Ty} {first next first' next' : Nat}

theorem Spells.paramNames (h : Spells m first next u t) {q : String} (hq : q ∈ t.paramNames) :
    ∃ k, first ≤ k ∧ k < next ∧ q = varName k := by
  obtain ⟨ρ, rfl, hρ⟩ := h
  rw [Ty.paramNames_rename] at hq
  obtain ⟨p, hp, rfl⟩ := List.mem_map.1 hq
  obtain ⟨k, hk, hk', heq, -⟩ := hρ p hp
  exact ⟨k, hk, hk', heq⟩

theorem Spells.eq_of_closed (h : Spells m first next u t) (hu : u.paramNames = []) : t = u := by
  obtain ⟨ρ, rfl, -⟩ := h
  exact Ty.replace_of_closed hu _

theorem Spells.closed (h : Spells m first next u t) (ht : t.paramNames = []) :
    u.paramNames = [] := by
  obtain ⟨ρ, rfl, -⟩ := h
  rw [Ty.paramNames_rename] at ht
  exact List.map_eq_nil_iff.1 ht

theorem Spells.agree {m' : Bindings} (h : Spells m first next u t)
    (h' : Spells m' first' next' u' t') (hlt : next ≤ first') (hexact : t.exact t' = true) :
    u.Agree u' := by
  -- Type variables of different overloads are different, so what is the same has none.
  have hnames := Ty.paramNames_of_exact hexact
  have ht : t.paramNames = [] := by
    refine List.eq_nil_iff_forall_not_mem.2 fun q hq => ?_
    obtain ⟨k, -, hk, hq₁⟩ := h.paramNames hq
    rw [hnames] at hq
    obtain ⟨k', hk', -, hq₂⟩ := h'.paramNames hq
    rw [varName_injective (hq₁.symm.trans hq₂)] at hk
    omega
  have hu := h.closed ht
  have hu' := h'.closed (hnames ▸ ht)
  rw [h.eq_of_closed hu, h'.eq_of_closed hu'] at hexact
  exact ⟨hu, hu', hexact⟩

theorem Spells.mono {m' : Bindings} (h : Spells m first next u t)
    (hm : ∀ k, k < next → m'.get? (varName k) = m.get? (varName k)) (hle : next ≤ next') :
    Spells m' 0 next' u t := by
  obtain ⟨ρ, ht, hρ⟩ := h
  refine ⟨ρ, ht, fun p hp => ?_⟩
  obtain ⟨k, -, hk, heq, hget⟩ := hρ p hp
  refine ⟨k, Nat.zero_le k, Nat.lt_of_lt_of_le hk hle, heq, ?_⟩
  rw [heq, hm k hk, ← heq, hget]

theorem Spells.substitute (h : Spells m first next u t) (hm : m.Acyclic) :
    m.substitute t true = u.replace fun _ => .dyn := by
  obtain ⟨ρ, rfl, hρ⟩ := h
  have hget {p : String} (hp : p ∈ u.paramNames) : m.get? (ρ p) = none := by
    obtain ⟨-, -, -, -, hget⟩ := hρ p hp
    exact hget
  rw [hm.substitute_of_closed, Ty.replace_replace]
  · refine Ty.replace_congr u fun p hp => ?_
    simp [Ty.replace, hget hp]
  · intro q hq v hv
    rw [Ty.paramNames_rename] at hq
    obtain ⟨p, hp, rfl⟩ := List.mem_map.1 hq
    rw [hget hp] at hv
    cases hv

end Spelling

def fitting (args : List Ty) (os : List Overload) : List (String × Ty) :=
  os.filterMap fun o => (o.resultFor? args).map (o.id, ·)

section Merging

variable {s s' : Session} {done : List (String × Ty)} {r : Resolved}

/-- Type variables have been made since, and those from before are bound as they were. -/
structure Later (s s' : Session) : Prop where
  nextVar : s.nextVar ≤ s'.nextVar
  get? : ∀ k, k < s.nextVar →
    s'.bindings.bindings.get? (varName k) = s.bindings.bindings.get? (varName k)

/-- The overloads in `done` fit, and `r` is made from them. -/
structure Merges (s : Session) (done : List (String × Ty)) (r : Resolved) : Prop where
  ne_nil : done ≠ []
  ids : ∀ id, id ∈ r.reference.overloads ↔ id ∈ done.map Prod.fst
  agree : (done.map Prod.snd).Pairwise Ty.Agree → ∀ u ∈ done.map Prod.snd,
    ∃ t, r.type.exact t = true ∧ Spells s.bindings.bindings 0 s.nextVar u t
  differ : ¬ (done.map Prod.snd).Pairwise Ty.Agree → r.type = .dyn

theorem Merges.later (h : s.Merges done r) (hlater : s.Later s') : s'.Merges done r where
  ne_nil := h.ne_nil
  ids := h.ids
  agree hagree u hu := by
    obtain ⟨t, hexact, hspells⟩ := h.agree hagree u hu
    exact ⟨t, hexact, hspells.mono hlater.get? hlater.nextVar⟩
  differ := h.differ

theorem merges_single {id function : String} {u t : Ty} {first : Nat}
    (hspells : Spells s.bindings.bindings first s.nextVar u t) :
    s.Merges [(id, u)] { type := t, reference := { name := function, overloads := [id] } } where
  ne_nil := List.cons_ne_nil _ _
  ids id' := Iff.rfl
  agree _ v hv := by
    cases List.mem_singleton.1 hv
    exact ⟨t, Ty.exact_refl t, hspells.mono (fun _ _ => rfl) (Nat.le_refl _)⟩
  differ hdiffer := absurd (List.pairwise_singleton _ _) hdiffer

/-- A further result, with type variables that are new, is compared with all those before it
when it is compared with what they have come to. -/
theorem Merges.exact_iff {u t : Ty} {m : Bindings} {first next : Nat} (h : s.Merges done r)
    (hagree : (done.map Prod.snd).Pairwise Ty.Agree) (hspells : Spells m first next u t)
    (hfirst : s.nextVar ≤ first) :
    r.type.exact t = true ↔ ∀ a ∈ done.map Prod.snd, a.Agree u := by
  constructor
  · intro hexact a ha
    obtain ⟨v, hv, hspells'⟩ := h.agree hagree a ha
    exact hspells'.agree hspells hfirst (Ty.exact_trans (Ty.exact_symm hv) hexact)
  · intro hall
    obtain ⟨e, he⟩ := List.exists_mem_of_ne_nil done h.ne_nil
    have ha := List.mem_map_of_mem (f := Prod.snd) he
    obtain ⟨v, hv, hspells'⟩ := h.agree hagree _ ha
    have hau := hall _ ha
    rw [hspells.eq_of_closed hau.right]
    rw [hspells'.eq_of_closed hau.left] at hv
    exact Ty.exact_trans hv hau.exact

theorem Merges.add {id : String} {u t : Ty} {first : Nat} (h : s.Merges done r)
    (hspells : Spells s'.bindings.bindings first s'.nextVar u t) (hfirst : s.nextVar ≤ first)
    (hlater : s.Later s') : s'.Merges (done ++ [(id, u)]) (r.add t id) where
  ne_nil := by simp
  ids id' := by
    rw [Resolved.add, Reference.mem_addOverload, h.ids, List.map_append, List.mem_append]
    simp
  agree hagree v hv := by
    rw [List.map_append, List.pairwise_append] at hagree
    have hexact : r.type.exact t = true :=
      (h.exact_iff hagree.1 hspells hfirst).2 fun a ha => hagree.2.2 a ha u (by simp)
    have htype : (r.add t id).type = r.type := by simp [Resolved.add, hexact]
    rw [htype]
    rw [List.map_append, List.mem_append] at hv
    rcases hv with hv | hv
    · exact (h.later hlater).agree hagree.1 v hv
    · cases List.mem_singleton.1 hv
      exact ⟨t, hexact, hspells.mono (fun _ _ => rfl) (Nat.le_refl _)⟩
  differ hdiffer := by
    by_cases hagree : (done.map Prod.snd).Pairwise Ty.Agree
    · have hnot : ¬ r.type.exact t = true := by
        rw [h.exact_iff hagree hspells hfirst]
        intro hall
        refine hdiffer ?_
        rw [List.map_append, List.pairwise_append]
        refine ⟨hagree, List.pairwise_singleton _ _, fun a ha b hb => ?_⟩
        cases List.mem_singleton.1 hb
        exact hall a ha
      cases hdyn : r.type.isDyn with
      | true => simp [Resolved.add, Ty.eq_dyn_of_isDyn hdyn]
      | false => simp [Resolved.add, hdyn, hnot]
    · simp [Resolved.add, h.differ hagree]

def Found (s : Session) (done : List (String × Ty)) : Option Resolved → Prop
  | none => done = []
  | some r => s.Merges done r

theorem Found.later {found : Option Resolved} (h : s.Found done found) (hlater : s.Later s') :
    s'.Found done found := by
  cases found with
  | none => exact h
  | some r => exact Merges.later h hlater

end Merging

section Trying

variable {s : Session} {args : List Ty}

theorem Found.matchOverloads (function : String) (hargs : Ty.paramNamesAll args = [])
    (os : List Overload) :
    ∀ {s : Session} {done : List (String × Ty)} {found : Option Resolved},
      (∀ o ∈ os, ∀ p, o.Uses p → Unnumbered p) → s.VarsUnbound → s.Found done found →
      (Session.matchOverloads function args os found s).2.Found (done ++ fitting args os)
        (Session.matchOverloads function args os found s).1 := by
  induction os with
  | nil =>
    intro s done found _ _ h
    simpa [fitting, Session.matchOverloads] using h
  | cons o os ih =>
    intro s done found hos hs h
    obtain ⟨ho, hos⟩ := List.forall_mem_cons.1 hos
    have hnext : s.nextVar ≤ (s.instantiate o).2.nextVar := by
      rw [(s.instantiate_spec ho).1]
      exact Nat.le_add_right _ _
    simp only [Session.matchOverloads]
    cases hresult : o.resultFor? args with
    | none =>
      have hbindings : (s.instantiate o).2.bindings = s.bindings := by
        rw [(s.instantiate_spec ho).1]
      have hfitting : fitting args (o :: os) = fitting args os := by simp [fitting, hresult]
      rw [instance_refused hs ho hargs hresult, hfitting]
      refine ih hos (fun k hk => ?_) (h.later ⟨hnext, fun k _ => by rw [hbindings]⟩)
      rw [hbindings]
      exact hs k (Nat.le_trans hnext hk)
    | some u =>
      obtain ⟨m, hm, hget, hspells⟩ := instance_taken hs ho hargs hresult
      have hfitting : done ++ fitting args (o :: os) = done ++ [(o.id, u)] ++ fitting args os := by
        simp [fitting, hresult]
      rw [hm, hfitting]
      refine ih hos (fun k hk => ?_) ?_
      · exact (hget k (.inr hk)).trans (hs k (Nat.le_trans hnext hk))
      · cases found with
        | none =>
          cases h
          exact merges_single hspells
        | some r =>
          exact Merges.add h hspells (Nat.le_refl _) ⟨hnext, fun k hk => hget k (.inl hk)⟩

theorem found_matchOverloads (function : String) (hargs : Ty.paramNamesAll args = [])
    {os : List Overload} (hos : ∀ o ∈ os, ∀ p, o.Uses p → Unnumbered p) (hs : s.VarsUnbound) :
    (Session.matchOverloads function args os none s).2.Found (fitting args os)
      (Session.matchOverloads function args os none s).1 :=
  have hnone : s.Found [] none := rfl
  hnone.matchOverloads function hargs os hos hs

end Trying

section Order

variable {s₁ s₂ : Session} {done done' : List (String × Ty)} {r r' : Resolved}

theorem Merges.exact_of_perm (h : s₁.Merges done r) (h' : s₂.Merges done' r')
    (hperm : done.Perm done') :
    (s₁.bindings.substitute r.type true).exact (s₂.bindings.substitute r'.type true) = true := by
  have hresults : (done.map Prod.snd).Perm (done'.map Prod.snd) := hperm.map _
  have hpairwise : (done.map Prod.snd).Pairwise Ty.Agree ↔ (done'.map Prod.snd).Pairwise Ty.Agree :=
    hresults.pairwise_iff Ty.Agree.symm
  by_cases hagree : (done.map Prod.snd).Pairwise Ty.Agree
  · obtain ⟨e, he⟩ := List.exists_mem_of_ne_nil done h.ne_nil
    have hu := List.mem_map_of_mem (f := Prod.snd) he
    obtain ⟨t, ht, hspells⟩ := h.agree hagree _ hu
    obtain ⟨t', ht', hspells'⟩ := h'.agree (hpairwise.1 hagree) _ (hresults.mem_iff.1 hu)
    have hleft := Bindings.exact_substitute s₁.bindings.bindings true ht
    have hright := Bindings.exact_substitute s₂.bindings.bindings true ht'
    rw [hspells.substitute s₁.bindings.acyclic] at hleft
    rw [hspells'.substitute s₂.bindings.acyclic] at hright
    exact Ty.exact_trans hleft (Ty.exact_symm hright)
  · rw [h.differ hagree, h'.differ (mt hpairwise.2 hagree)]
    rfl

end Order

section Resolving

variable {s s₁ : Session} {env : Environment} {f : Function} {isMember : Bool}
  {args : List NodeId} (hlogical : Operator.isLogical f.name = false)
include hlogical

theorem resolveOverload_of_some (node : NodeId) {r : Resolved}
    (h : matchOverloads f.name (args.map s.typeOf) (env.eligible f isMember) none s =
      (some r, s₁)) : s.resolveOverload env node f isMember args = (.ok r, s₁) := by
  unfold Environment.eligible at h
  simp [resolveOverload, hlogical, h]

theorem resolveOverload_of_none (node : NodeId)
    (hargs : ∀ a ∈ args, (s.typeOf a).paramNames = [])
    (h : matchOverloads f.name (args.map s.typeOf) (env.eligible f isMember) none s =
      (none, s₁)) :
    s.resolveOverload env node f isMember args =
      (.error ⟨node, .noMatchingOverload f.name (args.map s.typeOf)⟩, s₁) := by
  have htypes : (args.map s.typeOf).map (s₁.bindings.substitute · true) = args.map s.typeOf := by
    rw [List.map_map]
    exact List.map_congr_left fun a ha => Ty.replace_of_closed (hargs a ha) _
  unfold Environment.eligible at h
  simp only [resolveOverload, hlogical, h, htypes]
  rfl

theorem resolveOverload_cases (node : NodeId) (hs : s.VarsUnbound)
    (hargs : ∀ a ∈ args, (s.typeOf a).paramNames = [])
    (hos : ∀ o ∈ f.overloads, ∀ p, o.Uses p → Unnumbered p) :
    let x := s.resolveOverload env node f isMember args
    let found := fitting (args.map s.typeOf) (env.eligible f isMember)
    (found = [] ∧ x.1 = .error ⟨node, .noMatchingOverload f.name (args.map s.typeOf)⟩) ∨
      ∃ r, x.1 = .ok r ∧ r.reference.overloads.Nodup ∧ x.2.Merges found r := by
  intro x found
  have hclosed : Ty.paramNamesAll (args.map s.typeOf) = [] :=
    Ty.paramNamesAll_of_closed (List.forall_mem_map.2 hargs)
  have hnumbers : ∀ o ∈ env.eligible f isMember, ∀ p, o.Uses p → Unnumbered p :=
    fun o ho => hos o (List.mem_of_mem_filter ho)
  have hfound := found_matchOverloads f.name hclosed hnumbers hs
  cases hmatch : matchOverloads f.name (args.map s.typeOf) (env.eligible f isMember) none s with
  | mk answer s₁ =>
    rw [hmatch] at hfound
    cases answer with
    | none =>
      have hx := resolveOverload_of_none hlogical node hargs hmatch
      exact .inl ⟨hfound, congrArg Prod.fst hx⟩
    | some r =>
      have hx := resolveOverload_of_some hlogical node hmatch
      refine .inr ⟨r, congrArg Prod.fst hx, resolveOverload_nodup hx, ?_⟩
      have hsecond : x.2 = s₁ := congrArg Prod.snd hx
      rw [hsecond]
      exact hfound

end Resolving

end Session

/-- For arguments without parameters it does not matter in which order the overloads of a
function are declared: none fits in either order, or the same ones fit, and the type of the call
is the same in the end. -/
theorem resolveOverload_perm {s : Session} {env : Environment} {node : NodeId} {f : Function}
    {isMember : Bool} {args : List NodeId} {os : List Overload} (hperm : f.overloads.Perm os)
    (hlogical : Operator.isLogical f.name = false) (hs : s.VarsUnbound)
    (hargs : ∀ a ∈ args, (s.typeOf a).paramNames = [])
    (hos : ∀ o ∈ f.overloads, ∀ p, o.Uses p → Unnumbered p) :
    let x := s.resolveOverload env node f isMember args
    let y := s.resolveOverload env node { f with overloads := os } isMember args
    (∃ d, x.1 = .error d ∧ y.1 = .error d) ∨
      ∃ r r', x.1 = .ok r ∧ y.1 = .ok r' ∧
        r.reference.overloads.Perm r'.reference.overloads ∧
        (x.2.bindings.substitute r.type true).exact (y.2.bindings.substitute r'.type true) =
          true := by
  intro x y
  have hfitting : (Session.fitting (args.map s.typeOf) (env.eligible f isMember)).Perm
      (Session.fitting (args.map s.typeOf) (env.eligible { f with overloads := os } isMember)) :=
    (hperm.filter _).filterMap _
  have hos' : ∀ o ∈ os, ∀ p, o.Uses p → Unnumbered p := fun o ho => hos o (hperm.mem_iff.2 ho)
  rcases Session.resolveOverload_cases hlogical node hs hargs hos with
    ⟨hnil, hx⟩ | ⟨r, hx, hnodup, hmerges⟩
  · rcases Session.resolveOverload_cases (f := { f with overloads := os }) hlogical node hs hargs
      hos' with ⟨-, hy⟩ | ⟨r', -, -, hmerges'⟩
    · exact .inl ⟨_, hx, hy⟩
    · rw [hnil] at hfitting
      exact absurd hfitting.nil_eq.symm hmerges'.ne_nil
  · rcases Session.resolveOverload_cases (f := { f with overloads := os }) hlogical node hs hargs
      hos' with ⟨hnil, -⟩ | ⟨r', hy, hnodup', hmerges'⟩
    · rw [hnil] at hfitting
      exact absurd hfitting.eq_nil hmerges.ne_nil
    · refine .inr ⟨r, r', hx, hy, ?_, hmerges.exact_of_perm hmerges' hfitting⟩
      refine (List.perm_ext_iff_of_nodup hnodup hnodup').2 fun id => ?_
      rw [hmerges.ids, hmerges'.ids, (hfitting.map Prod.fst).mem_iff]

def unknownIndexed : Session where
  types := Table.insert (Table.insert ∅ 1 .dyn) 2 .int
  bindings := ⟨Table.insert ∅ (varName 0) .int, Bindings.acyclic_empty.insert nofun⟩
  nextVar := 1

theorem resolveOverload_perm_index :
    [listIndex, mapIndex].Perm [mapIndex, listIndex] ∧ unknownIndexed.VarsUnbound ∧
      (∀ a ∈ [1, 2], (unknownIndexed.typeOf a).paramNames = []) ∧
      (∀ o ∈ [listIndex, mapIndex], ∀ p, o.Uses p → Unnumbered p) ∧
      let x := unknownIndexed.resolveOverload .standard 3
        ⟨Operator.index, [listIndex, mapIndex]⟩ false [1, 2]
      let y := unknownIndexed.resolveOverload .standard 3
        ⟨Operator.index, [mapIndex, listIndex]⟩ false [1, 2]
      ∃ r r', x.1 = .ok r ∧ y.1 = .ok r' ∧
        r.reference.overloads.Perm r'.reference.overloads ∧
        (x.2.bindings.substitute r.type true).exact (y.2.bindings.substitute r'.type true) =
          true := by
  have hperm : [listIndex, mapIndex].Perm [mapIndex, listIndex] := .swap _ _ _
  have hs : unknownIndexed.VarsUnbound := by
    intro k hk
    have hne : varName k ≠ varName 0 := fun h => by
      rw [varName_injective h] at hk
      exact absurd hk (by decide)
    exact Table.get?_insert_of_ne _ _ hne
  have hargs : ∀ a ∈ [1, 2], (unknownIndexed.typeOf a).paramNames = [] := by decide
  have hos : ∀ o ∈ [listIndex, mapIndex], ∀ p, o.Uses p → Unnumbered p := by
    have hall : ∀ o ∈ [listIndex, mapIndex], ∀ p ∈ o.typeParamNames,
        p.toList.head? ≠ some '_' := by decide
    exact fun o ho p hp => unnumbered_of_head? (hall o ho p (Overload.mem_typeParamNames.2 hp))
  refine ⟨hperm, hs, hargs, hos, ?_⟩
  rcases @resolveOverload_perm unknownIndexed .standard 3 ⟨Operator.index, [listIndex, mapIndex]⟩
    false [1, 2] [mapIndex, listIndex] hperm (by decide) hs hargs hos with ⟨d, hx, -⟩ | h
  · -- a result can be computed
    cases hx
  · exact h

end CelTyping
