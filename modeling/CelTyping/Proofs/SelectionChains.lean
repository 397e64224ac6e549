import CelTyping.Proofs.Compatibility
import CelTyping.Proofs.Records
import Mathlib.Data.List.Induction

/-! Chains of selections from a name. The chain may spell a declared name up to some of its
fields, and the longest such name is taken; the fields after it are selected one by one. The
walk over such a chain reports one mistake at most: the type of a mistake lets every field be
selected from it, and so does each type that comes of that. -/
namespace CelTyping

section Chains

def Expr.selections (e : Expr) (path : List (NodeId × String)) : Expr :=
  path.foldl (fun operand field => .select field.1 operand field.2 false) e

def Name.spelled (root : String) (path : List (NodeId × String)) : String :=
  ".".intercalate (root :: path.map Prod.snd)

@[simp] theorem Expr.selections_concat (e : Expr) (path : List (NodeId × String)) (id : NodeId)
    (field : String) :
    e.selections (path ++ [(id, field)]) = .select id (e.selections path) field false := by
  simp [Expr.selections]

@[simp] theorem Name.spelled_concat (root : String) (path : List (NodeId × String)) (id : NodeId)
    (field : String) :
    Name.spelled root (path ++ [(id, field)]) = Name.extend (Name.spelled root path) field := by
  rw [Name.spelled, List.map_append, List.map_singleton, Name.intercalate_concat, Name.spelled]

@[simp] theorem Expr.qualifiedName?_selections (id : NodeId) (root : String)
    (path : List (NodeId × String)) :
    ((Expr.ident id root).selections path).qualifiedName? = some (Name.spelled root path) := by
  induction path using List.reverseRecOn with
  | nil => rfl
  | append_singleton path field ih =>
    rw [Expr.selections_concat, Expr.qualifiedName?_select, ih, Name.spelled_concat]
    rfl

@[simp] theorem Expr.ids_selections (id : NodeId) (root : String) (path : List (NodeId × String)) :
    ((Expr.ident id root).selections path).ids = (id :: path.map Prod.fst).reverse := by
  induction path using List.reverseRecOn with
  | nil => rfl
  | append_singleton path field ih =>
    rw [Expr.selections_concat]
    change field.1 :: ((Expr.ident id root).selections path).ids = _
    simp [ih]

/-- The chain spells the name of this variable with its first `k` fields, and no name with more
of them. -/
structure LongestPrefix (lookup : String → Option Variable) (root : String)
    (path : List (NodeId × String)) (k : Nat) (v : Variable) : Prop where
  le : k ≤ path.length
  declared : lookup (Name.spelled root (path.take k)) = some v
  longest : ∀ j, k < j → j ≤ path.length → lookup (Name.spelled root (path.take j)) = none

def NoPrefix (lookup : String → Option Variable) (root : String)
    (path : List (NodeId × String)) : Prop :=
  ∀ k ≤ path.length, lookup (Name.spelled root (path.take k)) = none

variable {lookup : String → Option Variable} {root : String} {path : List (NodeId × String)}
  {field : NodeId × String} {k : Nat} {v : Variable}

theorem LongestPrefix.eq_length (h : LongestPrefix lookup root path k v) {w : Variable}
    (hw : lookup (Name.spelled root path) = some w) : k = path.length ∧ v = w := by
  obtain hk | hk := Nat.lt_or_eq_of_le h.le
  · have hnone := h.longest path.length hk (Nat.le_refl _)
    rw [List.take_length, hw] at hnone
    cases hnone
  · have hv := h.declared
    rw [hk, List.take_length, hw] at hv
    exact ⟨hk, (Option.some.inj hv).symm⟩

theorem LongestPrefix.init (h : LongestPrefix lookup root (path ++ [field]) k v)
    (hnone : lookup (Name.spelled root (path ++ [field])) = none) :
    LongestPrefix lookup root path k v := by
  have hlen : (path ++ [field]).length = path.length + 1 := by simp
  have hk : k ≤ path.length := by
    by_contra hlt
    have hle := h.le
    have hall := h.declared
    rw [List.take_of_length_le (by omega), hnone] at hall
    cases hall
  have htake (j : Nat) (hj : j ≤ path.length) : (path ++ [field]).take j = path.take j :=
    List.take_append_of_le_length hj
  refine ⟨hk, ?_, fun j hkj hj => ?_⟩
  · rw [← htake k hk]
    exact h.declared
  · rw [← htake j hj]
    exact h.longest j hkj (by omega)

theorem NoPrefix.whole (h : NoPrefix lookup root path) :
    lookup (Name.spelled root path) = none := by
  have hall := h path.length (Nat.le_refl _)
  rwa [List.take_length] at hall

theorem NoPrefix.init (h : NoPrefix lookup root (path ++ [field])) :
    NoPrefix lookup root path := by
  intro j hj
  have hlen : (path ++ [field]).length = path.length + 1 := by simp
  have htake : (path ++ [field]).take j = path.take j := List.take_append_of_le_length hj
  rw [← htake]
  exact h j (by omega)

end Chains

section Tree

variable {env : Environment} {id : NodeId} {root : String}

theorem bind_qualifiedName?_concat (path : List (NodeId × String)) (field : NodeId × String)
    (lookup : String → Option Variable) :
    ((Expr.select field.1 ((Expr.ident id root).selections path) field.2 false).qualifiedName?).bind
      lookup = lookup (Name.spelled root (path ++ [field])) := by
  rw [← Expr.selections_concat, Expr.qualifiedName?_selections]
  rfl

theorem exists_descends_selections (env : Environment) (id : NodeId) (root : String)
    (path : List (NodeId × String)) :
    ∀ s : Session, ∃ e' s', Descends env ((Expr.ident id root).selections path) s e' s' := by
  induction path using List.reverseRecOn with
  | nil =>
    intro s
    obtain hdepth | hlimit := Nat.lt_or_ge s.depth env.maxDepth
    · cases hv : env.variableIn? s.deeper.scopes root with
      | some v => exact ⟨_, _, .node hdepth (.ident hv)⟩
      | none => exact ⟨_, _, .node hdepth (.unknownIdent hv)⟩
    · exact ⟨_, _, .limit hlimit⟩
  | append_singleton path field ih =>
    intro s
    rw [Expr.selections_concat]
    obtain hdepth | hlimit := Nat.lt_or_ge s.depth env.maxDepth
    · cases hv : ((Expr.select field.1 ((Expr.ident id root).selections path) field.2
          false).qualifiedName?).bind (env.variableIn? s.deeper.scopes) with
      | some v => exact ⟨_, _, .node hdepth (.qualified hv)⟩
      | none =>
        obtain ⟨e', s', hd⟩ := ih s.deeper
        exact ⟨_, _, .node hdepth (.select hv hd)⟩
    · exact ⟨_, _, .limit hlimit⟩

variable {path : List (NodeId × String)} {field : NodeId × String} {s s' : Session} {e' : Expr}

theorem Descends.root_cases (hdepth : s.depth < env.maxDepth)
    (h : Descends env (.ident id root) s e' s') :
    (∃ v, env.variableIn? s.scopes root = some v ∧ e' = .ident id v.name ∧
        s' = (s.deeper.setVariable id v).shallower) ∨
      env.variableIn? s.scopes root = none ∧ e' = .ident id root ∧
        s' = (s.deeper.undeclared env id root).shallower := by
  cases h with
  | limit hlimit => omega
  | node _ h =>
    cases h with
    | ident hv => exact .inl ⟨_, hv, rfl, rfl⟩
    | unknownIdent hv => exact .inr ⟨hv, rfl, rfl⟩

theorem Descends.concat_cases (hdepth : s.depth < env.maxDepth)
    (h : Descends env ((Expr.ident id root).selections (path ++ [field])) s e' s') :
    (∃ v, env.variableIn? s.scopes (Name.spelled root (path ++ [field])) = some v ∧
        e' = .ident field.1 v.name ∧ s' = (s.deeper.setVariable field.1 v).shallower) ∨
      env.variableIn? s.scopes (Name.spelled root (path ++ [field])) = none ∧
        ∃ operand' s₁, Descends env ((Expr.ident id root).selections path) s.deeper operand' s₁ ∧
          e' = .select field.1 operand' field.2 false ∧
          s' = (s₁.recordSelect env field.1 ((Expr.ident id root).selections path).id field.2
            false).shallower := by
  rw [Expr.selections_concat] at h
  cases h with
  | limit hlimit => omega
  | node _ h =>
    cases h with
    | qualified hv =>
      rw [bind_qualifiedName?_concat] at hv
      exact .inl ⟨_, hv, rfl, rfl⟩
    | select hv hd =>
      rw [bind_qualifiedName?_concat] at hv
      exact .inr ⟨hv, _, _, hd, rfl, rfl⟩

theorem Descends.selections_longest (hdepth : s.depth + path.length < env.maxDepth)
    (h : Descends env ((Expr.ident id root).selections path) s e' s') {k : Nat} {v : Variable}
    (hk : LongestPrefix (env.variableIn? s.scopes) root path k v) :
    e' = (Expr.ident ((Expr.ident id root).selections (path.take k)).id v.name).selections
      (path.drop k) := by
  induction path using List.reverseRecOn generalizing s s' e' with
  | nil =>
    obtain ⟨w, hw, rfl, -⟩ | ⟨hnone, -, -⟩ := h.root_cases (by simpa using hdepth)
    · obtain ⟨rfl, rfl⟩ := hk.eq_length hw
      rfl
    · have hv := hk.declared
      rw [List.take_nil] at hv
      cases hnone.symm.trans hv
  | append_singleton path field ih =>
    have hlen : (path ++ [field]).length = path.length + 1 := by simp
    obtain ⟨w, hw, rfl, -⟩ | ⟨hnone, operand', s₁, hd, rfl, -⟩ := h.concat_cases (by omega)
    · obtain ⟨rfl, rfl⟩ := hk.eq_length hw
      rw [List.take_length, List.drop_length, Expr.selections_concat]
      rfl
    · have hinit := hk.init hnone
      have hoperand := ih (s := s.deeper) (by simp only [Session.deeper]; omega) hd hinit
      rw [hoperand, List.take_append_of_le_length hinit.le, List.drop_append_of_le_length hinit.le,
        Expr.selections_concat]

theorem Descends.selections_unchanged (hdepth : s.depth + path.length < env.maxDepth)
    (h : Descends env ((Expr.ident id root).selections path) s e' s')
    (hno : NoPrefix (env.variableIn? s.scopes) root path) :
    e' = (Expr.ident id root).selections path := by
  induction path using List.reverseRecOn generalizing s s' e' with
  | nil =>
    obtain ⟨w, hw, -, -⟩ | ⟨-, rfl, -⟩ := h.root_cases (by simpa using hdepth)
    · cases hno.whole.symm.trans hw
    · rfl
  | append_singleton path field ih =>
    have hlen : (path ++ [field]).length = path.length + 1 := by simp
    obtain ⟨w, hw, -, -⟩ | ⟨-, operand', s₁, hd, rfl, -⟩ := h.concat_cases (by omega)
    · cases hno.whole.symm.trans hw
    · have hoperand := ih (s := s.deeper) (by simp only [Session.deeper]; omega) hd hno.init
      rw [hoperand, Expr.selections_concat]

end Tree

/-- Every field can be selected from it: nothing is known of the type, or there is a mistake in
its place. -/
def Ty.isForgiving (t : Ty) : Bool := t.unwrapOptional.isDynOrError

section Forgiving

theorem Ty.eq_of_isDynOrError {t : Ty} (h : t.isDynOrError = true) :
    t = .dyn ∨ ∃ d, t = .error d := by
  cases t with
  | scalar s => cases s <;> first | exact .inl rfl | cases h
  | error d => exact .inr ⟨d, rfl⟩
  | _ => cases h

theorem Ty.isForgiving_optionally {t : Ty} (h : t.isDynOrError = true) (optional : Bool) :
    (if optional then Ty.optional t else t).isForgiving = true := by
  cases optional with
  | true => exact h
  | false =>
    cases t with
    | optional t => cases h
    | _ => exact h

theorem Ty.substitute_of_isForgiving {t : Ty} (h : t.isForgiving = true) (m : Bindings)
    (close : Bool) : m.substitute t close = t := by
  cases t with
  | optional t => exact congrArg Ty.optional (Ty.replace_of_isDynOrError h _)
  | _ => exact Ty.replace_of_isDynOrError h _

end Forgiving

namespace Session

section Reports

variable {s : Session} {id : NodeId}

theorem setType_of_free {t : Ty} (h : s.Free (.type id)) :
    s.setType id t = { s with types := s.types.insert id t } := by
  unfold setType
  rw [show s.types.get? id = none from h]

theorem diagnostics_setVariable_of_free {v : Variable} (ht : s.Free (.type id))
    (hr : s.Free (.reference id)) : (s.setVariable id v).diagnostics = s.diagnostics := by
  unfold setVariable setReference
  rw [setType_of_free ht, show s.references.get? id = none from hr]

theorem failNode_of_free {cause : Cause} (h : s.Free (.type id)) :
    (s.failNode id cause).diagnostics = s.diagnostics ++ [⟨id, cause⟩] ∧
      ((s.failNode id cause).resolvedTypeOf id).isForgiving = true := by
  have hfail : s.failNode id cause =
      { s.report id cause with types := s.types.insert id (.error ⟨id, cause⟩) } :=
    setType_of_free (s := s.report id cause) h
  rw [hfail]
  refine ⟨rfl, ?_⟩
  simp only [resolvedTypeOf, typeOf, Table.get?_insert_self]
  rfl

theorem selectedType_cases (s : Session) (env : Environment) (id operand : NodeId)
    (field : String) :
    ((s.selectedType env id operand field false).2.diagnostics = s.diagnostics ∧
        ((s.resolvedTypeOf operand).isForgiving = true →
          (s.selectedType env id operand field false).1.isForgiving = true)) ∨
      ∃ d, (s.selectedType env id operand field false).2.diagnostics = s.diagnostics ++ [d] ∧
        (s.resolvedTypeOf operand).isForgiving = false ∧
        (s.selectedType env id operand field false).1.isForgiving = true := by
  unfold selectedType
  simp only
  split
  next heq =>
    refine .inl ⟨rfl, fun h => ?_⟩
    rw [Ty.isForgiving, heq] at h
    cases h
  next name heq =>
    have hop : (s.resolvedTypeOf operand).isForgiving = false := by
      rw [Ty.isForgiving, heq]
      rfl
    obtain ⟨t, -, hs⟩ | ⟨d, hd, ht⟩ := s.fieldType_cases env id name field
    · refine .inl ⟨by rw [hs], fun h => ?_⟩
      rw [hop] at h
      cases h
    · exact .inr ⟨d, hd, hop, Ty.isForgiving_optionally ht _⟩
  next =>
    refine .inl ⟨?_, fun _ => Ty.isForgiving_optionally rfl _⟩
    unfold Session.assign
    split <;> rfl
  next => exact .inl ⟨rfl, fun _ => Ty.isForgiving_optionally rfl _⟩
  next => exact .inl ⟨rfl, fun _ => Ty.isForgiving_optionally rfl _⟩
  next hdyn herror =>
    refine .inr ⟨_, rfl, ?_, Ty.isForgiving_optionally rfl _⟩
    rw [Ty.isForgiving, Bool.eq_false_iff]
    intro h
    obtain heq | ⟨d, heq⟩ := Ty.eq_of_isDynOrError h
    · exact hdyn heq
    · exact herror d heq

theorem recordSelect_cases (h : s.Free (.type id)) (env : Environment) (operand : NodeId)
    (field : String) :
    ((s.recordSelect env id operand field false).diagnostics = s.diagnostics ∧
        ((s.resolvedTypeOf operand).isForgiving = true →
          ((s.recordSelect env id operand field false).resolvedTypeOf id).isForgiving = true)) ∨
      ∃ d, (s.recordSelect env id operand field false).diagnostics = s.diagnostics ++ [d] ∧
        (s.resolvedTypeOf operand).isForgiving = false ∧
        ((s.recordSelect env id operand field false).resolvedTypeOf id).isForgiving = true := by
  have hfree : (s.selectedType env id operand field false).2.Free (.type id) := by
    rw [Free, (s.remarks_selectedType env operand field false (List.mem_singleton_self id)).types]
    exact h
  have hrecord : s.recordSelect env id operand field false =
      (s.selectedType env id operand field false).2.setResolvedType id
        (s.selectedType env id operand field false).1 := rfl
  rw [hrecord, setResolvedType, setType_of_free hfree]
  have hforgiving (hf : (s.selectedType env id operand field false).1.isForgiving = true)
      (m : Substitution) : m.substitute (s.selectedType env id operand field false).1 false =
        (s.selectedType env id operand field false).1 :=
    Ty.substitute_of_isForgiving hf m.bindings false
  simp only [resolvedTypeOf, typeOf, Table.get?_insert_self, Option.getD_some]
  obtain ⟨hd, hf⟩ | ⟨d, hd, hop, hf⟩ := s.selectedType_cases env id operand field
  · refine .inl ⟨hd, fun hop => ?_⟩
    rw [hforgiving (hf hop), hforgiving (hf hop)]
    exact hf hop
  · refine .inr ⟨d, hd, hop, ?_⟩
    rw [hforgiving hf, hforgiving hf]
    exact hf

end Reports

end Session

section Chain

variable {env : Environment} {id : NodeId} {root : String} {path : List (NodeId × String)}
  {field : NodeId × String} {s s' : Session} {e' : Expr}

theorem nodup_concat (h : (id :: (path ++ [field]).map Prod.fst).Nodup) :
    (id :: path.map Prod.fst).Nodup ∧ field.1 ∉ id :: path.map Prod.fst := by
  rw [List.map_append, ← List.cons_append, List.nodup_append'] at h
  exact ⟨h.1, fun hmem => h.2.2 hmem (List.mem_singleton_self _)⟩

theorem Descends.free_next (h : Descends env ((Expr.ident id root).selections path) s e' s')
    (hfield : field.1 ∉ id :: path.map Prod.fst) (hfree : s.Free (.type field.1)) :
    s'.Free (.type field.1) := by
  have hmoves := h.moves
  rw [Expr.ids_selections] at hmoves
  exact (hmoves.types_eq (mt List.mem_reverse.1 hfield)).trans hfree

/-- One mistake at most comes out of a chain, and then the chain is forgiving. Without any name
in the chain it is that of the root. -/
theorem Descends.selections_reports (hids : (id :: path.map Prod.fst).Nodup)
    (hdepth : s.depth + path.length < env.maxDepth)
    (hfree : ∀ w : Write, w.node ∈ id :: path.map Prod.fst → s.Free w)
    (h : Descends env ((Expr.ident id root).selections path) s e' s') :
    s'.diagnostics = s.diagnostics ∧ ¬ NoPrefix (env.variableIn? s.scopes) root path ∨
      ∃ d, s'.diagnostics = s.diagnostics ++ [d] ∧
        (s'.resolvedTypeOf ((Expr.ident id root).selections path).id).isForgiving = true ∧
        (NoPrefix (env.variableIn? s.scopes) root path →
          d = ⟨id, .undeclaredReference env.container.name root⟩) := by
  induction path using List.reverseRecOn generalizing s s' e' with
  | nil =>
    have ht : s.deeper.Free (.type id) := hfree (.type id) List.mem_cons_self
    obtain ⟨v, hv, -, rfl⟩ | ⟨-, -, rfl⟩ := h.root_cases (by simpa using hdepth)
    · have hr : s.deeper.Free (.reference id) := hfree (.reference id) List.mem_cons_self
      refine .inl ⟨Session.diagnostics_setVariable_of_free ht hr, fun hno => ?_⟩
      cases hno.whole.symm.trans hv
    · obtain ⟨hd, hforgiving⟩ := Session.failNode_of_free ht
      exact .inr ⟨_, hd, hforgiving, fun _ => rfl⟩
  | append_singleton path field ih =>
    have hlen : (path ++ [field]).length = path.length + 1 := by simp
    have hmem {i : NodeId} (hi : i ∈ id :: path.map Prod.fst) :
        i ∈ id :: (path ++ [field]).map Prod.fst := by
      rw [List.map_append, ← List.cons_append]
      exact List.mem_append_left _ hi
    have hlast : field.1 ∈ id :: (path ++ [field]).map Prod.fst := by simp
    obtain ⟨hinit, hnew⟩ := nodup_concat hids
    have ht : s.deeper.Free (.type field.1) := hfree (.type field.1) hlast
    obtain ⟨v, hv, -, rfl⟩ | ⟨-, operand', s₁, hd, -, rfl⟩ := h.concat_cases (by omega)
    · have hr : s.deeper.Free (.reference field.1) := hfree (.reference field.1) hlast
      refine .inl ⟨Session.diagnostics_setVariable_of_free ht hr, fun hno => ?_⟩
      cases hno.whole.symm.trans hv
    · have hoperand := ih (s := s.deeper) hinit (by simp only [Session.deeper]; omega)
        (fun w hw => hfree w (hmem hw)) hd
      have hselect := Session.recordSelect_cases (hd.free_next hnew ht) env
        ((Expr.ident id root).selections path).id field.2
      rw [Expr.selections_concat]
      obtain ⟨hquiet, hname⟩ | ⟨d, hreport, hforgiving, hd⟩ := hoperand
      · -- the operand is in order, so this selection is the first that may not be
        obtain ⟨hs, -⟩ | ⟨d, hs, -, hf⟩ := hselect
        · exact .inl ⟨hs.trans hquiet, fun hno => hname hno.init⟩
        · exact .inr ⟨d, hs.trans (congrArg (· ++ [d]) hquiet), hf,
            fun hno => absurd hno.init hname⟩
      · -- there is a mistake in the operand, and it forgives this selection
        obtain ⟨hs, hf⟩ | ⟨-, -, hstrict, -⟩ := hselect
        · exact .inr ⟨d, hs.trans hreport, hf hforgiving, fun hno => hd hno.init⟩
        · rw [hforgiving] at hstrict
          cases hstrict

end Chain

/-- Of a chain of selections from a name, the longest part that spells a declared name becomes
that name, at the last node of the part, and the other selections stay. If no part does, the
root is reported and the chain stays as it is. One mistake at most is reported in any case. -/
theorem chain_resolves_longest (env : Environment) (id : NodeId) (root : String)
    (path : List (NodeId × String)) (hids : (id :: path.map Prod.fst).Nodup)
    (hdepth : path.length < env.maxDepth) :
    ∃ c, check env ((Expr.ident id root).selections path) = .ok c ∧
      (∀ k v, LongestPrefix env.globalVariable? root path k v →
        c.expr = (Expr.ident ((Expr.ident id root).selections (path.take k)).id v.name).selections
          (path.drop k)) ∧
      (NoPrefix env.globalVariable? root path →
        c.expr = (Expr.ident id root).selections path ∧
        c.diagnostics = [⟨id, .undeclaredReference env.container.name root⟩]) ∧
      c.diagnostics.length ≤ 1 := by
  obtain ⟨e', s, h⟩ := exists_descends_selections env id root path {}
  have hdepth' : ({} : Session).depth + path.length < env.maxDepth := by simpa using hdepth
  have hreports := h.selections_reports hids hdepth' fun w _ => by cases w <;> rfl
  refine ⟨s.conclude e', check_iff.2 ⟨e', s, h, rfl⟩, fun k v hk => ?_, fun hno => ?_, ?_⟩
  · exact h.selections_longest hdepth' hk
  · obtain ⟨-, hname⟩ | ⟨d, hd, -, hroot⟩ := hreports
    · exact absurd hno hname
    · refine ⟨h.selections_unchanged hdepth' hno, ?_⟩
      rw [← hroot hno]
      exact hd
  · obtain ⟨hquiet, -⟩ | ⟨d, hd, -⟩ := hreports
    · rw [Session.conclude, hquiet]
      exact Nat.zero_le 1
    · rw [Session.conclude, hd]
      exact Nat.le_refl 1

theorem chain_resolves_longest_map :
    ∃ c, check ((Environment.empty.withRegistry (Catalogue.registry {})).withVariable "a.b"
          (.map .string .int))
        ((Expr.ident 1 "a").selections [(2, "b"), (3, "c"), (4, "d"), (5, "e")]) = .ok c ∧
      c.expr = (Expr.ident 2 "a.b").selections [(3, "c"), (4, "d"), (5, "e")] ∧
      c.diagnostics.length ≤ 1 := by
  obtain ⟨c, hc, hlongest, -, hone⟩ := chain_resolves_longest
    ((Environment.empty.withRegistry (Catalogue.registry {})).withVariable "a.b"
      (.map .string .int))
    1 "a" [(2, "b"), (3, "c"), (4, "d"), (5, "e")] (by decide) (by decide)
  refine ⟨c, hc, hlongest 1 { name := "a.b", type := .map .string .int } ⟨by decide, ?_, ?_⟩, hone⟩
  · rfl
  · intro j hj hle
    obtain rfl | rfl | rfl : j = 2 ∨ j = 3 ∨ j = 4 := by
      simp only [List.length_cons, List.length_nil] at hle
      omega
    all_goals rfl

end CelTyping
