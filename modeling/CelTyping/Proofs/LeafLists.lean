import CelTyping.Proofs.Ingredients
import CelTyping.Proofs.SelectionChains
import CelTyping.Proofs.Symmetry

/-! Lists of constants and of names that mean nothing. Their types are scalars and mistakes, which
hold no parameters, so joining them leaves the bindings alone and the walk over the list comes down
to a fold over the types of its elements. The type so far may go from a scalar to `dyn`, or to a
mistake and from there to the type of the next element. -/
namespace CelTyping

section Flat

def Ty.isFlat : Ty → Bool
  | .scalar _ | .error _ => true
  | _ => false

theorem Ty.isFlat_mostGeneral {a b : Ty} (ha : a.isFlat = true) (hb : b.isFlat = true) :
    (a.mostGeneral b).isFlat = true :=
  Ty.mostGeneral_of (P := (Ty.isFlat · = true)) ha hb

theorem Bindings.assign_of_isFlat {a b : Ty} (ha : a.isFlat = true) (hb : b.isFlat = true)
    (n : Nat) (m : Bindings) :
    assign (n + 1) m a b = if a.fits b then .ok m else .error .mismatch := by
  cases a <;> cases b <;> simp [Ty.isFlat] at ha hb
  case scalar.scalar s s' => cases s <;> cases s' <;> rfl
  case scalar.error s d => cases s <;> rfl
  case error.scalar d s => cases s <;> rfl
  case error.error => rfl

theorem Substitution.assignable?_of_isFlat {a b : Ty} (ha : a.isFlat = true)
    (hb : b.isFlat = true) (m : Substitution) :
    m.assignable? a b = if a.fits b then some m else none := by
  obtain ⟨n, hn⟩ := Nat.exists_eq_succ_of_ne_zero
    (Nat.ne_zero_of_lt (m.bindings.weight_add_lt_fuel (a.size + b.size)))
  have h : m.bindings.assignable? a b = if a.fits b then some m.bindings else none := by
    rw [Bindings.assignable?, hn, Bindings.assign_of_isFlat ha hb]
    split <;> rfl
  split
  next hfits => exact Option.pmap_eq_some_iff.2 ⟨_, _, by rw [h, if_pos hfits], rfl⟩
  next hfits => exact Option.pmap_eq_none_iff.2 (by rw [h, if_neg hfits])

theorem Session.assign_of_isFlat {a b : Ty} (ha : a.isFlat = true) (hb : b.isFlat = true)
    (s : Session) : s.assign a b = (a.fits b, s) := by
  rw [assign, Substitution.assignable?_of_isFlat ha hb]
  cases a.fits b <;> rfl

@[simp] theorem Value.isFlat_type (v : Value) : v.type.isFlat = true := by
  cases v <;> rfl

theorem Value.fits_type (v w : Value) : v.type.fits w.type = true ↔ v.type = w.type := by
  cases v <;> cases w <;> simp [type, Ty.fits, Ty.isNullable, Ty.accepts, Scalar.accepts]

end Flat

section Leaves

def Expr.constantType? : Expr → Option Ty
  | .literal _ value => some value.type
  | _ => none

def Constants (elements : List Element) (ts : List Ty) : Prop :=
  elements.map (·.value.constantType?) = ts.map some

namespace Environment

def unknownReport? (env : Environment) : Expr → Option Diagnostic
  | .ident id name => some ⟨id, .undeclaredReference env.container.name name⟩
  | _ => none

/-- A constant, or a name that means nothing. -/
inductive IsLeaf (env : Environment) : Element → Prop where
  | constant (id : NodeId) (value : Value) : env.IsLeaf ⟨.literal id value, false⟩
  | unknown (id : NodeId) {name : String} :
      env.globalVariable? name = none → env.IsLeaf ⟨.ident id name, false⟩

def leafType (env : Environment) (e : Expr) : Ty :=
  match env.unknownReport? e with
  | some d => .error d
  | none => e.constantType?.getD .dyn

/-- The type of the elements so far and what has been reported, with one more leaf. -/
def joinLeaf (env : Environment) (previous : Option Ty) (reports : List Diagnostic)
    (el : Element) : Ty × List Diagnostic :=
  let t := env.leafType el.value
  let reports := reports ++ t.errors
  match previous with
  | none => (t, reports)
  | some p =>
    if p.fits t then (p.mostGeneral t, reports)
    else
      match env.policy with
      | .mixed => (.dyn, reports)
      | .homogeneous =>
        (.error ⟨el.value.id, .typeMismatch p t⟩, reports ++ [⟨el.value.id, .typeMismatch p t⟩])

def joinLeaves (env : Environment) :
    Option Ty → List Diagnostic → List Element → Option Ty × List Diagnostic
  | previous, reports, [] => (previous, reports)
  | previous, reports, el :: rest =>
    let (t, reports) := env.joinLeaf previous reports el
    env.joinLeaves (some t) reports rest

variable {env : Environment} {el : Element}

theorem IsLeaf.isFlat (h : env.IsLeaf el) : (env.leafType el.value).isFlat = true := by
  cases h with
  | constant id value => exact value.isFlat_type
  | unknown id hname => rfl

theorem IsLeaf.optional_eq (h : env.IsLeaf el) : el.optional = false := by
  cases h <;> rfl

theorem isFlat_joinLeaf {previous : Option Ty} (hprevious : ∀ p ∈ previous, p.isFlat = true)
    (hel : env.IsLeaf el) (reports : List Diagnostic) :
    (env.joinLeaf previous reports el).1.isFlat = true := by
  unfold joinLeaf
  cases previous with
  | none => exact hel.isFlat
  | some p =>
    dsimp only
    split
    next => exact Ty.isFlat_mostGeneral (hprevious p rfl) hel.isFlat
    next => split <;> rfl

theorem IsLeaf.descends (h : env.IsLeaf el) {s : Session} (hscopes : s.scopes = {})
    (hdepth : s.depth < env.maxDepth) (hfree : s.types.get? el.value.id = none) :
    Descends env el.value s el.value
      { s with
        types := s.types.insert el.value.id (env.leafType el.value)
        diagnostics := s.diagnostics ++ (env.leafType el.value).errors } := by
  cases h with
  | constant id value =>
    have hd : Descends env (.literal id value) s _ _ := .node hdepth .literal
    have hfree : s.deeper.Free (.type id) := hfree
    rw [Session.setType_of_free hfree] at hd
    have herrors : (env.leafType (.literal id value)).errors = [] := value.errors_type
    rw [herrors, List.append_nil]
    exact hd
  | @unknown id name hname =>
    have hlookup : env.variableIn? s.deeper.scopes name = none := by
      show env.variableIn? s.scopes name = none
      rw [hscopes]
      exact hname
    have hd : Descends env (.ident id name) s _ _ := .node hdepth (.unknownIdent hlookup)
    have hfail : s.deeper.undeclared env id name =
        { s.deeper.report id (.undeclaredReference env.container.name name) with
          types := s.types.insert id
            (.error ⟨id, .undeclaredReference env.container.name name⟩) } :=
      Session.setType_of_free
        (s := s.deeper.report id (.undeclaredReference env.container.name name)) hfree
    rw [hfail] at hd
    exact hd

theorem joinTypes_leaf {s : Session} {previous : Option Ty}
    (hprevious : ∀ p ∈ previous, p.isFlat = true) (hel : env.IsLeaf el) :
    Session.joinTypes
        { s with diagnostics := s.diagnostics ++ (env.leafType el.value).errors } env
        el.value.id previous (env.leafType el.value) =
      ((env.joinLeaf previous s.diagnostics el).1,
        { s with diagnostics := (env.joinLeaf previous s.diagnostics el).2 }) := by
  cases previous with
  | none => rfl
  | some p =>
    simp only [Session.joinTypes, Session.assign_of_isFlat (hprevious p rfl) hel.isFlat, joinLeaf]
    cases p.fits (env.leafType el.value) with
    | true => rfl
    | false => cases env.policy <;> rfl

theorem idsOf_leaves {elements : List Element} (h : ∀ el ∈ elements, env.IsLeaf el) :
    Expr.idsOf (elements.map Element.value) = elements.map (·.value.id) := by
  rw [Expr.idsOf_eq_map, List.map_map]
  · rfl
  · exact List.forall_mem_map.2 fun el hel => by cases h el hel <;> rfl

/-- The walk over leaves is a fold over their types. -/
theorem checksElements_leaves (elements : List Element) :
    ∀ (previous : Option Ty) (s : Session), (∀ el ∈ elements, env.IsLeaf el) →
      (∀ p ∈ previous, p.isFlat = true) → s.scopes = {} → s.depth < env.maxDepth →
      (elements.map (·.value.id)).Nodup →
      (∀ el ∈ elements, s.types.get? el.value.id = none) →
      ∃ s', ChecksElements env elements previous s elements
          (env.joinLeaves previous s.diagnostics elements).1 s' ∧
        s'.diagnostics = (env.joinLeaves previous s.diagnostics elements).2 := by
  induction elements with
  | nil => exact fun _ _ _ _ _ _ _ _ => ⟨_, .nil, rfl⟩
  | cons el rest ih =>
    intro previous s hleaf hflat hscopes hdepth hnodup hfree
    obtain ⟨hel, hrest⟩ := List.forall_mem_cons.1 hleaf
    obtain ⟨hhead, hnodup⟩ := List.nodup_cons.1 hnodup
    obtain ⟨hfree, hfree'⟩ := List.forall_mem_cons.1 hfree
    -- The session behind the leaf, apart from what has been reported.
    let s₁ : Session := { s with types := s.types.insert el.value.id (env.leafType el.value) }
    have htype : s₁.typeOf el.value.id = env.leafType el.value := by
      simp only [s₁, Session.typeOf, Table.get?_insert_self, Option.getD_some]
    have hjoin : Session.joinMember
        { s₁ with diagnostics := s.diagnostics ++ (env.leafType el.value).errors } env
        el.value.id el.optional previous =
          ((env.joinLeaf previous s.diagnostics el).1,
            { s₁ with diagnostics := (env.joinLeaf previous s.diagnostics el).2 }) := by
      rw [hel.optional_eq, Session.joinMember_key]
      show Session.joinTypes _ env _ previous (s₁.typeOf el.value.id) = _
      rw [htype]
      exact joinTypes_leaf (s := s₁) hflat hel
    have hnext : ∀ p ∈ some (env.joinLeaf previous s.diagnostics el).1, p.isFlat = true := by
      intro p hp
      cases hp
      exact isFlat_joinLeaf hflat hel _
    have hfree₁ : ∀ el ∈ rest, s₁.types.get? el.value.id = none := by
      intro other hother
      have hne : other.value.id ≠ el.value.id := fun he =>
        hhead (List.mem_map.2 ⟨other, hother, he⟩)
      exact (Table.get?_insert_of_ne _ _ hne).trans (hfree' other hother)
    obtain ⟨s', hs', hdiagnostics⟩ := ih _
      { s₁ with diagnostics := (env.joinLeaf previous s.diagnostics el).2 } hrest hnext
      hscopes hdepth hnodup hfree₁
    have hd := hel.descends hscopes hdepth hfree
    cases el with
    | mk value optional =>
      refine ⟨s', .cons hd ?_, hdiagnostics⟩
      rw [hjoin]
      exact hs'

end Environment

end Leaves

section Folds

namespace Environment

variable {env : Environment}

theorem IsLeaf.errors_eq {el : Element} (h : env.IsLeaf el) :
    (env.leafType el.value).errors = (env.unknownReport? el.value).toList := by
  cases h with
  | constant id value => exact value.errors_type
  | unknown id hname => rfl

theorem reports_joinLeaves (hpolicy : env.policy = .mixed) (elements : List Element)
    (hleaf : ∀ el ∈ elements, env.IsLeaf el) :
    ∀ previous reports, (env.joinLeaves previous reports elements).2 =
      reports ++ elements.filterMap (env.unknownReport? ·.value) := by
  induction elements with
  | nil => simp [joinLeaves]
  | cons el rest ih =>
    intro previous reports
    obtain ⟨hel, hrest⟩ := List.forall_mem_cons.1 hleaf
    have hjoin : (env.joinLeaf previous reports el).2 =
        reports ++ (env.unknownReport? el.value).toList := by
      rw [← hel.errors_eq]
      unfold joinLeaf
      rw [hpolicy]
      cases previous with
      | none => rfl
      | some p =>
        dsimp only
        split <;> rfl
    have hhead : (el :: rest).filterMap (env.unknownReport? ·.value) =
        (env.unknownReport? el.value).toList ++ rest.filterMap (env.unknownReport? ·.value) := by
      cases h : env.unknownReport? el.value <;> simp [h]
    rw [joinLeaves, ih hrest, hjoin, hhead, List.append_assoc]

theorem prefix_joinLeaves (elements : List Element) :
    ∀ previous reports, reports <+: (env.joinLeaves previous reports elements).2 := by
  induction elements with
  | nil => exact fun _ reports => List.prefix_rfl
  | cons el rest ih =>
    intro previous reports
    have hjoin : reports <+: (env.joinLeaf previous reports el).2 := by
      unfold joinLeaf
      cases previous with
      | none => exact List.prefix_append _ _
      | some p =>
        dsimp only
        split
        next => exact List.prefix_append _ _
        next =>
          split
          next => exact List.prefix_append _ _
          next => exact (List.prefix_append _ _).trans (List.prefix_append _ _)
    exact hjoin.trans (ih _ _)

theorem constants_cases {el : Element} {rest : List Element} {ts : List Ty}
    (h : Constants (el :: rest) ts) :
    ∃ id value ts', el.value = .literal id value ∧ ts = value.type :: ts' ∧ Constants rest ts' := by
  cases ts with
  | nil => cases h
  | cons t ts =>
    obtain ⟨hel, hrest⟩ := List.cons.inj h
    obtain ⟨value, optional⟩ := el
    cases value with
    | literal id value =>
      cases hel
      exact ⟨id, value, ts, rfl, rfl, hrest⟩
    | _ => cases hel

theorem leafType_of_constant {el : Element} {id : NodeId} {value : Value}
    (h : el.value = .literal id value) : env.leafType el.value = value.type := by
  rw [h]
  rfl

theorem joinLeaf_constant {el : Element} {id : NodeId} {value : Value}
    (h : el.value = .literal id value) (p : Ty) (reports : List Diagnostic) :
    env.joinLeaf (some p) reports el =
      if p.fits value.type then (p.mostGeneral value.type, reports)
      else
        match env.policy with
        | .mixed => (.dyn, reports)
        | .homogeneous =>
          (.error ⟨id, .typeMismatch p value.type⟩,
            reports ++ [⟨id, .typeMismatch p value.type⟩]) := by
  have hid : el.value.id = id := by rw [h]; rfl
  simp only [joinLeaf, leafType_of_constant h, hid, value.errors_type, List.append_nil]

@[simp] theorem mostGeneral_self (v : Value) : v.type.mostGeneral v.type = v.type := by
  unfold Ty.mostGeneral
  split <;> rfl

theorem joinLeaves_of_constants {elements : List Element} {t : Ty} {ts : List Ty}
    (h : Constants elements (t :: ts)) :
    ∃ first : Value, first.type = t ∧ Constants elements.tail ts ∧
      env.joinLeaves none [] elements = env.joinLeaves (some first.type) [] elements.tail := by
  cases elements with
  | nil => cases h
  | cons el rest =>
    obtain ⟨id, value, ts', hel, hcons, hrest⟩ := constants_cases h
    cases hcons
    refine ⟨value, rfl, hrest, ?_⟩
    simp only [joinLeaves, joinLeaf, leafType_of_constant hel, value.errors_type, List.append_nil,
      List.tail_cons]

theorem joinLeaves_dyn (elements : List Element) :
    ∀ reports ts, Constants elements ts →
      (env.joinLeaves (some .dyn) reports elements).1 = some .dyn := by
  induction elements with
  | nil => exact fun _ _ _ => rfl
  | cons el rest ih =>
    intro reports ts hts
    obtain ⟨id, value, ts', hel, rfl, hrest⟩ := constants_cases hts
    rw [joinLeaves, joinLeaf_constant hel]
    exact ih _ _ hrest

theorem joinLeaves_constants (hpolicy : env.policy = .mixed) (first : Value)
    (elements : List Element) :
    ∀ reports ts, Constants elements ts →
      (env.joinLeaves (some first.type) reports elements).1 =
        some (if ∀ u ∈ ts, u = first.type then first.type else .dyn) := by
  induction elements with
  | nil =>
    intro reports ts hts
    cases ts with
    | nil => simp [joinLeaves]
    | cons t ts => cases hts
  | cons el rest ih =>
    intro reports ts hts
    obtain ⟨id, value, ts', hel, rfl, hrest⟩ := constants_cases hts
    rw [joinLeaves, joinLeaf_constant hel]
    by_cases htype : first.type = value.type
    · rw [if_pos ((Value.fits_type _ _).2 htype), ← htype, mostGeneral_self]
      simp only [List.forall_mem_cons, true_and]
      exact ih _ _ hrest
    · rw [if_neg (mt (Value.fits_type _ _).1 htype), hpolicy, if_neg]
      · exact joinLeaves_dyn rest _ _ hrest
      · intro hall
        exact htype (hall _ List.mem_cons_self).symm

theorem reports_joinLeaves_eq_nil_iff (hpolicy : env.policy = .homogeneous) (first : Value)
    (elements : List Element) :
    ∀ ts, Constants elements ts →
      ((env.joinLeaves (some first.type) [] elements).2 = [] ↔ ∀ u ∈ ts, u = first.type) := by
  induction elements with
  | nil =>
    intro ts hts
    cases ts with
    | nil => simp [joinLeaves]
    | cons t ts => cases hts
  | cons el rest ih =>
    intro ts hts
    obtain ⟨id, value, ts', hel, rfl, hrest⟩ := constants_cases hts
    rw [joinLeaves, joinLeaf_constant hel]
    by_cases htype : first.type = value.type
    · rw [if_pos ((Value.fits_type _ _).2 htype), ← htype, mostGeneral_self]
      simp only [List.forall_mem_cons, true_and]
      exact ih _ hrest
    · rw [if_neg (mt (Value.fits_type _ _).1 htype), hpolicy]
      constructor
      · intro hnil
        have hprefix := env.prefix_joinLeaves rest
          (some (.error ⟨id, .typeMismatch first.type value.type⟩))
          [⟨id, .typeMismatch first.type value.type⟩]
        rw [List.nil_append] at hnil
        rw [hnil, List.prefix_nil] at hprefix
        cases hprefix
      · intro hall
        exact absurd (hall _ List.mem_cons_self).symm htype

end Environment

end Folds

section Literals

variable {env : Environment} {id : NodeId} {elements : List Element}

theorem Session.recordList_of_free {s : Session} (hfree : s.types.get? id = none)
    (members : Option Ty) :
    (s.recordList id members).diagnostics = s.diagnostics ∧
      ∃ t, (s.recordList id members).types.get? id = some (.list t) ∧ ∀ u ∈ members, t = u := by
  cases members with
  | none =>
    have h : s.recordList id none = _ := Session.setType_of_free (s := s.freshVar.2) hfree
    rw [h]
    exact ⟨rfl, _, Table.get?_insert_self _ _ _, nofun⟩
  | some u =>
    have h : s.recordList id (some u) = _ := Session.setType_of_free (s := s) hfree
    rw [h]
    refine ⟨rfl, u, Table.get?_insert_self _ _ _, ?_⟩
    intro v hv
    exact Option.some.inj hv

theorem Ty.substitute_of_isFlat {t : Ty} (h : t.isFlat = true) (m : Substitution) (close : Bool) :
    m.substitute t close = t := by
  cases t <;> first | rfl | cases h

theorem check_leaves (hids : (Expr.list id elements).ids.Nodup) (hdepth : 2 ≤ env.maxDepth)
    (hleaf : ∀ el ∈ elements, env.IsLeaf el) :
    ∃ c, check env (.list id elements) = .ok c ∧
      c.diagnostics = (env.joinLeaves none [] elements).2 ∧
      ∃ t, c.type? = some (.list t) ∧
        ∀ u ∈ (env.joinLeaves none [] elements).1, u.isFlat = true → t = u := by
  rw [Expr.ids_list, List.nodup_cons] at hids
  obtain ⟨hid, hnodup⟩ := hids
  obtain ⟨s, hs, hdiagnostics⟩ := env.checksElements_leaves elements none
    ({} : Session).deeper hleaf nofun rfl hdepth (env.idsOf_leaves hleaf ▸ hnodup) (fun _ _ => rfl)
  have hfree : s.types.get? id = none := hs.run.moves.types_eq hid
  have hd : Descends env (.list id elements) {} (.list id elements) _ :=
    .node (Nat.lt_of_lt_of_le Nat.zero_lt_two hdepth) (.list hs)
  obtain ⟨hreports, t, ht, hmembers⟩ :=
    Session.recordList_of_free hfree (env.joinLeaves none [] elements).1
  refine ⟨_, check_iff.2 ⟨_, _, hd, rfl⟩, hreports.trans hdiagnostics, _,
    (Session.get?_conclude _ _ _).trans (congrArg _ ht), ?_⟩
  intro u hu hflat
  rw [hmembers u hu]
  exact Ty.substitute_of_isFlat hflat _ _

/-- A list of constants and of names that mean nothing. With mixtures each name is reported once,
where it stands, and nothing else is; constants of one type give a list of that type, and others a
list of `dyn`. Without mixtures constants go unreported just when they are of one type. -/
theorem leaf_list_typed (id : NodeId) (hids : (Expr.list id elements).ids.Nodup)
    (hdepth : 2 ≤ env.maxDepth) (hleaf : ∀ el ∈ elements, env.IsLeaf el) :
    ∃ c, check env (.list id elements) = .ok c ∧
      (env.policy = .mixed →
        c.diagnostics = elements.filterMap (env.unknownReport? ·.value) ∧
        (∃ t, c.type? = some (.list t)) ∧
        ∀ t ts, Constants elements (t :: ts) →
          c.type? = some (.list (if ∀ u ∈ ts, u = t then t else .dyn))) ∧
      (env.policy = .homogeneous →
        ∀ t ts, Constants elements (t :: ts) →
          (c.diagnostics = [] ↔ ∀ u ∈ ts, u = t)) := by
  obtain ⟨c, hc, hdiagnostics, t', htype, hmembers⟩ := check_leaves hids hdepth hleaf
  refine ⟨c, hc, ?_, ?_⟩
  · intro hpolicy
    refine ⟨by rw [hdiagnostics, env.reports_joinLeaves hpolicy elements hleaf, List.nil_append],
      ⟨t', htype⟩, ?_⟩
    intro t ts hts
    obtain ⟨first, rfl, hrest, hfold⟩ := env.joinLeaves_of_constants hts
    have hjoin := env.joinLeaves_constants hpolicy first elements.tail [] ts hrest
    rw [htype, hmembers _ (hfold ▸ hjoin)]
    split
    next => exact first.isFlat_type
    next => rfl
  · intro hpolicy t ts hts
    obtain ⟨first, rfl, hrest, hfold⟩ := env.joinLeaves_of_constants hts
    rw [hdiagnostics, hfold]
    exact env.reports_joinLeaves_eq_nil_iff hpolicy first elements.tail ts hrest

theorem leaf_list_typed_mixtures :
    (∃ c, check Environment.empty
        (.list 4 [⟨.literal 1 (.int 3), false⟩, ⟨.ident 2 "n", false⟩,
          ⟨.literal 3 (.bool true), false⟩]) = .ok c ∧
      c.diagnostics = [⟨2, .undeclaredReference "" "n"⟩] ∧ ∃ t, c.type? = some (.list t)) ∧
    (∃ c, check Environment.empty
        (.list 3 [⟨.literal 1 (.int 3), false⟩, ⟨.literal 2 (.bool true), false⟩]) = .ok c ∧
      c.type? = some (.list .dyn)) ∧
    ∃ c, check Environment.empty.withHomogeneousLiterals
        (.list 3 [⟨.literal 1 (.int 3), false⟩, ⟨.literal 2 (.bool true), false⟩]) = .ok c ∧
      c.diagnostics ≠ [] := by
  have hconstants (env : Environment) : ∀ el ∈ [⟨.literal 1 (.int 3), false⟩,
      ⟨.literal 2 (.bool true), false⟩], env.IsLeaf el :=
    List.forall_mem_cons.2 ⟨.constant _ _, List.forall_mem_cons.2 ⟨.constant _ _, nofun⟩⟩
  have hmixed : ∀ el ∈ [⟨.literal 1 (.int 3), false⟩, ⟨.ident 2 "n", false⟩,
      ⟨.literal 3 (.bool true), false⟩], Environment.empty.IsLeaf el :=
    List.forall_mem_cons.2 ⟨.constant _ _, List.forall_mem_cons.2
      ⟨.unknown _ (by decide +kernel), List.forall_mem_cons.2 ⟨.constant _ _, nofun⟩⟩⟩
  refine ⟨?_, ?_, ?_⟩
  · obtain ⟨c, hc, h, -⟩ := leaf_list_typed 4 (by decide) (by decide) hmixed
    exact ⟨c, hc, (h rfl).1, (h rfl).2.1⟩
  · obtain ⟨c, hc, h, -⟩ :=
      leaf_list_typed 3 (by decide) (by decide) (hconstants Environment.empty)
    exact ⟨c, hc, by simp [(h rfl).2.2 .int [.bool] rfl]⟩
  · obtain ⟨c, hc, -, h⟩ := leaf_list_typed 3 (by decide) (by decide)
      (hconstants Environment.empty.withHomogeneousLiterals)
    refine ⟨c, hc, fun hnil => ?_⟩
    cases (h rfl .int [.bool] rfl).1 hnil _ List.mem_cons_self

end Literals

end CelTyping
