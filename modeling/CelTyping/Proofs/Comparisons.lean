import CelTyping.Proofs.Annotations
import CelTyping.Proofs.Compatibility
import CelTyping.Proofs.Lockstep
import CelTyping.Proofs.Merging
import CelTyping.Proofs.RootNames

/-! Comparisons of numbers of different types. Their overloads are tried after those on one
type, so where one of the latter fits, the parameters among the arguments have been bound by
then. What comes later adds ids to the reference of the call and changes nothing else. An
environment that leaves the orderings as they are can therefore have mixed comparisons switched
on: what was checked without a report stays as it was. -/
namespace CelTyping

namespace Ty

section Firm

def isFirm (t : Ty) : Bool := t.isAtomic && t.isRigid

variable {t : Ty}

theorem ne_param_of_isFirm (h : t.isFirm = true) (p : String) : t ≠ .param p := by
  rintro rfl
  cases h

theorem paramNames_of_isFirm (h : t.isFirm = true) : t.paramNames = [] := by
  cases t with
  | scalar _ | message _ => rfl
  | wrapper t =>
    cases t with
    | scalar _ => rfl
    | _ => cases h
  | _ => cases h

theorem mostGeneral_of_isFirm (h : t.isFirm = true) (b : Ty) : t.mostGeneral b = b := by
  -- A firm type is above itself only, so the other one is always as general.
  obtain ⟨hatomic, hrigid⟩ := Bool.and_eq_true_iff.1 h
  unfold mostGeneral
  split
  next hs => exact eq_of_subsumes_of_isAtomic hatomic hrigid hs
  next => rfl

end Firm

end Ty

namespace Bindings

section Anchoring

/-- The type is no parameter, or one whose bindings lead to a type that is none. -/
inductive Anchored (m : Bindings) : Ty → Prop where
  | here {t : Ty} : (∀ p, t ≠ .param p) → Anchored m t
  | bound {p : String} {t : Ty} : m.get? p = some t → Anchored m t → Anchored m (.param p)

theorem Anchored.mono {m m' : Bindings} (hm : ∀ p t, m.get? p = some t → m'.get? p = some t)
    {a : Ty} (h : m.Anchored a) : m'.Anchored a := by
  induction h with
  | here h => exact .here h
  | bound hp _ ih => exact .bound (hm _ _ hp) ih

/-- The second bindings keep those of the first and anchor the type; there is nothing new among
them if it was anchored before. -/
structure Anchors (m m' : Bindings) (a : Ty) : Prop where
  kept : ∀ p t, m.get? p = some t → m'.get? p = some t
  anchored : m'.Anchored a
  eq_of_anchored : m.Anchored a → m' = m

theorem Anchors.of_anchored {m : Bindings} {a : Ty} (h : m.Anchored a) : Anchors m m a :=
  ⟨fun _ _ h => h, h, fun _ => rfl⟩

theorem Anchors.param {m m' : Bindings} {p : String} {b : Ty} (h : Anchors m m' b)
    (hb : m.get? p = some b) : Anchors m m' (.param p) where
  kept := h.kept
  anchored := .bound (h.kept p b hb) h.anchored
  eq_of_anchored hp := by
    cases hp with
    | here hne => exact absurd rfl (hne p)
    | bound hb' h' =>
      rw [hb] at hb'
      cases hb'
      exact h.eq_of_anchored h'

mutual

theorem Matches.anchors_right {m m' : Bindings} {t b : Ty} :
    Matches m t b m' → t.isFirm = true → Anchors m m' b
  | .right h, ht => h.anchors ht
  | .left _, ht => absurd rfl (Ty.ne_param_of_isFirm ht _)
  | .fits _ hb _, ht => .of_anchored (.here fun q hq => hb q hq (Ty.paramNames_of_isFirm ht))

/-- The binding of a parameter is as general as a firm type already, so taking that type for the
parameter binds it, or another one that it leads to, where that has no binding. -/
theorem Binds.anchors {m m' : Bindings} {t : Ty} {p : String} :
    Binds m t p m' → t.isFirm = true → Anchors m m' (.param p)
  | .self, ht => absurd rfl (Ty.ne_param_of_isFirm ht p)
  | .same hb he, ht => .of_anchored <| .bound hb <| .here fun q hq => by
      subst hq
      exact Ty.ne_param_of_isFirm ht q (Ty.exact_param.1 he)
  | .widen hb h _, ht => by
    have hinner := h.anchors_right ht
    rw [Ty.mostGeneral_of_isFirm ht, Table.insert_of_get? (hinner.kept _ _ hb)]
    exact hinner.param hb
  | .keep hb h, ht => (h.anchors_right ht).param hb
  | .fresh hn _, ht =>
    { kept := fun q b hb => by
        refine (Table.get?_insert_of_ne m t ?_).trans hb
        rintro rfl
        rw [hn] at hb
        cases hb
      anchored := .bound (Table.get?_insert_self m p t) (.here (Ty.ne_param_of_isFirm ht))
      eq_of_anchored := fun hp => by
        cases hp with
        | here hne => exact absurd rfl (hne p)
        | bound hb _ =>
          rw [hn] at hb
          cases hb }

end

theorem Matches.anchors_left {m m' : Bindings} {a t : Ty} (h : Matches m a t m')
    (ht : t.isFirm = true) : Anchors m m' a := by
  cases h with
  | right _ => exact absurd rfl (Ty.ne_param_of_isFirm ht _)
  | left h => exact h.anchors ht
  | fits ha _ _ => exact .of_anchored (.here ha)
  | list _ | optional _ | map _ _ | abstract _ | function _ _ => cases ht

structure AnchorsAll (m m' : Bindings) (as : List Ty) : Prop where
  kept : ∀ p t, m.get? p = some t → m'.get? p = some t
  anchored : ∀ a ∈ as, m'.Anchored a
  eq_of_anchored : (∀ a ∈ as, m.Anchored a) → m' = m

theorem AnchorsAll.cons {m m₁ m' : Bindings} {a : Ty} {as : List Ty} (h : Anchors m m₁ a)
    (hs : AnchorsAll m₁ m' as) : AnchorsAll m m' (a :: as) where
  kept p t hp := hs.kept p t (h.kept p t hp)
  anchored := List.forall_mem_cons.2 ⟨h.anchored.mono hs.kept, hs.anchored⟩
  eq_of_anchored hall := by
    obtain ⟨ha, has⟩ := List.forall_mem_cons.1 hall
    have hm := h.eq_of_anchored ha
    subst hm
    exact hs.eq_of_anchored has

theorem MatchesAll.anchors {m m' : Bindings} {as ts : List Ty} (h : MatchesAll m as ts m')
    (hts : ∀ t ∈ ts, t.isFirm = true) : AnchorsAll m m' as := by
  induction as generalizing m ts with
  | nil =>
    cases h
    exact ⟨fun _ _ h => h, by simp, fun _ => rfl⟩
  | cons a as ih =>
    cases h with
    | cons h hs =>
      obtain ⟨ht, hts⟩ := List.forall_mem_cons.1 hts
      exact .cons (h.anchors_left ht) (ih hs hts)

end Anchoring

end Bindings

theorem Substitution.eq_of_bindings {m m' : Substitution} (h : m.bindings = m'.bindings) :
    m = m' := by
  cases m
  cases m'
  cases h
  rfl

/-- References of the same nodes, each to the same thing through more overloads perhaps. -/
def WiderReferences : ReferenceRelation := fun t t' =>
  ∀ node, Option.Rel Reference.Widens (t.get? node) (t'.get? node)

theorem WiderReferences.insert {t t' : Table NodeId Reference} (h : WiderReferences t t')
    (node : NodeId) {r r' : Reference} (hr : r.Widens r') :
    WiderReferences (t.insert node r) (t'.insert node r') := by
  intro other
  rw [Table.get?_insert, Table.get?_insert]
  split
  next => exact .some hr
  next => exact h other

/-- No type parameters, firm types only, and a bool as the result. -/
def Overload.isTest (o : Overload) : Bool :=
  o.typeParamNames.isEmpty && o.params.all Ty.isFirm && o.result = .bool

theorem Overload.isTest_iff {o : Overload} : o.isTest = true ↔
    o.typeParamNames = [] ∧ (∀ t ∈ o.params, t.isFirm = true) ∧ o.result = .bool := by
  simp only [isTest, Bool.and_eq_true, List.isEmpty_iff, List.all_eq_true, decide_eq_true_eq,
    and_assoc]

namespace Session

theorem Like.setReference_widens {s t : Session} {node : NodeId} {r r' : Reference}
    (h : Like WiderReferences s t)
    (hr : r.Widens r') (hok : (s.setReference node r).diagnostics = []) :
    Like WiderReferences (s.setReference node r) (t.setReference node r') := by
  obtain ⟨references, hwider, rfl⟩ := h
  obtain ⟨after, htakes⟩ := exists_takes hok
  obtain ⟨after', htakes', hafter⟩ := htakes.widens (hwider node) hr
  rw [setReference_of_takes htakes,
    setReference_of_takes (s := { s with references }) htakes']
  exact ⟨_, hwider.insert node hafter, rfl⟩

section Matching

variable {function : String} {args : List Ty}

theorem matchOverloads_append (os os' : List Overload) :
    ∀ (found : Option Resolved) (s : Session),
      matchOverloads function args (os ++ os') found s =
        matchOverloads function args os' (matchOverloads function args os found s).1
          (matchOverloads function args os found s).2 := by
  induction os with
  | nil => exact fun _ _ => rfl
  | cons o os ih =>
    intro found s
    simp only [List.cons_append, matchOverloads]
    split
    next => exact ih _ _
    next => exact ih _ _

theorem instantiate_of_isTest (s : Session) {o : Overload} (h : o.isTest = true) :
    s.instantiate o = ((.bool, o.params), s) := by
  obtain ⟨hnames, hfirm, hresult⟩ := Overload.isTest_iff.1 h
  have hparams : o.params.map ((∅ : Bindings).substitute · false) = o.params := by
    refine List.map_congr_left (g := id) (fun t ht => ?_) |>.trans (List.map_id _)
    exact Ty.replace_of_isAtomic (Bool.and_eq_true_iff.1 (hfirm t ht)).1 _
  simp only [instantiate, freshVars, hnames, List.foldl_nil, hparams, hresult]
  rfl

theorem type_add_bool {r : Resolved} (h : r.type = .bool) (id : String) :
    (r.add .bool id).type = .bool := by
  simp only [Resolved.add, h]
  rfl

def Tested (args : List Ty) (found : Option Resolved) (s : Session) : Prop :=
  ∀ r ∈ found, r.type = .bool ∧ ∀ a ∈ args, s.bindings.bindings.Anchored a

theorem Tested.matchOverloads (function : String) {os : List Overload}
    (hos : ∀ o ∈ os, o.isTest = true) :
    ∀ (found : Option Resolved) (s : Session), Tested args found s →
      Tested args (Session.matchOverloads function args os found s).1
        (Session.matchOverloads function args os found s).2 := by
  induction os with
  | nil => exact fun _ _ h => h
  | cons o os ih =>
    intro found s h
    obtain ⟨ho, hos⟩ := List.forall_mem_cons.1 hos
    simp only [Session.matchOverloads, instantiate_of_isTest s ho]
    split
    next => exact ih hos found s h
    next m hm =>
      refine ih hos _ _ fun r hr => ?_
      have hanchors := (Substitution.matchesAll_of_assignableAll hm).anchors
        (Overload.isTest_iff.1 ho).2.1
      cases Option.mem_some.1 hr
      refine ⟨?_, hanchors.anchored⟩
      cases found with
      | none => rfl
      | some r => exact type_add_bool (h r rfl).1 o.id

theorem matchOverloads_of_anchored (function : String) {os : List Overload}
    (hos : ∀ o ∈ os, o.isTest = true) {s : Session}
    (hs : ∀ a ∈ args, s.bindings.bindings.Anchored a) :
    ∀ {r : Resolved}, r.type = .bool → r.reference.isFunction = true →
      r.reference.overloads.Nodup →
      ∃ r', matchOverloads function args os (some r) s = (some r', s) ∧ r'.type = .bool ∧
        r.reference.Widens r'.reference := by
  induction os with
  | nil => exact fun hr _ hnd => ⟨_, rfl, hr, .refl hnd⟩
  | cons o os ih =>
    intro r hr hfun hnd
    obtain ⟨ho, hos⟩ := List.forall_mem_cons.1 hos
    simp only [matchOverloads, instantiate_of_isTest s ho]
    split
    next => exact ih hos hr hfun hnd
    next m hm =>
      have hanchors := (Substitution.matchesAll_of_assignableAll hm).anchors
        (Overload.isTest_iff.1 ho).2.1
      have hbindings : m = s.bindings :=
        Substitution.eq_of_bindings (hanchors.eq_of_anchored hs)
      have hadd := Reference.Widens.refl hnd |>.addOverload hfun o.id
      obtain ⟨r', heq, hr', hwidens⟩ := ih hos (r := r.add .bool o.id) (type_add_bool hr o.id)
        (hadd.isFunction.trans hfun) hadd.nodup
      subst hbindings
      exact ⟨r', heq, hr', hadd.trans hwidens⟩

end Matching

section Calls

variable {s s₁ : Session} {env : Environment} {node : NodeId} {f : Function} {isMember : Bool}
  {args : List NodeId} {r : Resolved}

theorem resolveCall_of_matched (hf : Operator.isLogical f.name = false)
    (h : matchOverloads f.name (args.map s.typeOf) (env.eligible f isMember) none s =
      (some r, s₁)) :
    s.resolveCall env node f isMember args =
      (s₁.setType node r.type).setReference node r.reference := by
  unfold Environment.eligible at h
  simp only [resolveCall, resolveOverload, hf, h]
  rfl

theorem exists_matched (hf : Operator.isLogical f.name = false)
    (hok : (s.resolveCall env node f isMember args).diagnostics = []) :
    ∃ r s₁, matchOverloads f.name (args.map s.typeOf) (env.eligible f isMember) none s =
      (some r, s₁) := by
  cases h : matchOverloads f.name (args.map s.typeOf) (env.eligible f isMember) none s with
  | mk found s₁ =>
    cases found with
    | some r => exact ⟨r, s₁, rfl⟩
    | none =>
      unfold Environment.eligible at h
      simp only [resolveCall, resolveOverload, hf, h] at hok
      exact absurd hok (failNode_diagnostics_ne _ _ _)

theorem Like.resolveCall_of_eligible {env' : Environment} {t : Session}
    (heq : env'.eligible f isMember = env.eligible f isMember) (h : Like WiderReferences s t)
    (hok : (s.resolveCall env node f isMember args).diagnostics = []) :
    Like WiderReferences (s.resolveCall env node f isMember args)
      (t.resolveCall env' node f isMember args) := by
  have hres := h.resolveOverload heq node args
  cases hs : s.resolveOverload env node f isMember args with
  | mk outcome s₁ =>
    cases ht : t.resolveOverload env' node f isMember args with
    | mk outcome' t₁ =>
      rw [hs, ht] at hres
      obtain ⟨rfl, h₁⟩ := hres
      simp only [resolveCall, hs, ht] at hok ⊢
      cases outcome' with
      | error d => exact absurd hok (failNode_diagnostics_ne _ _ _)
      | ok r =>
        exact (h₁.setType node r.type).setReference_widens (.refl (resolveOverload_nodup hs)) hok

theorem Like.resolveCall_of_tests {env' : Environment} {t : Session} {os : List Overload}
    (hf : Operator.isLogical f.name = false)
    (heq : env'.eligible f isMember = env.eligible f isMember ++ os)
    (htests : ∀ o ∈ env'.eligible f isMember, o.isTest = true) (h : Like WiderReferences s t)
    (hok : (s.resolveCall env node f isMember args).diagnostics = []) :
    Like WiderReferences (s.resolveCall env node f isMember args)
      (t.resolveCall env' node f isMember args) := by
  rw [heq, List.forall_mem_append] at htests
  obtain ⟨r, s₁, hs⟩ := exists_matched hf hok
  have htested : Tested (args.map s.typeOf) (some r) s₁ := by
    have hstart : Tested (args.map s.typeOf) none s := by simp [Tested]
    have htested := Tested.matchOverloads f.name htests.1 none s hstart
    rwa [hs] at htested
  obtain ⟨htype, hanchored⟩ := htested r rfl
  have hfound := congrArg Prod.fst hs
  have hfun := (matchOverloads_names _ _ none s r (by simp) hfound).isFunction
  have hnodup := matchOverloads_nodup _ none s (by simp) r hfound
  have hmatch := Like.matchOverloads f.name (args.map s.typeOf) (env.eligible f isMember) none h
  rw [hs] at hmatch
  cases ht : Session.matchOverloads f.name (args.map s.typeOf) (env.eligible f isMember) none t with
  | mk found t₁ =>
    rw [ht] at hmatch
    obtain ⟨hsame, h₁⟩ := hmatch
    simp only at hsame h₁
    subst hsame
    rw [← h₁.bindings_eq] at hanchored
    obtain ⟨r', hr', htype', hwidens⟩ :=
      matchOverloads_of_anchored f.name htests.2 hanchored htype hfun hnodup
    have ht' : Session.matchOverloads f.name (args.map t.typeOf) (env'.eligible f isMember) none t =
        (some r', t₁) := by
      rw [h.typeOf_eq, heq, matchOverloads_append, ht, hr']
    rw [resolveCall_of_matched hf hs] at hok ⊢
    rw [resolveCall_of_matched hf ht', htype', ← htype]
    exact (h₁.setType node r.type).setReference_widens hwidens hok

end Calls

end Session

namespace Standard

section Orderings

def orderings : List (String × String) :=
  [(Operator.less, "less"), (Operator.lessEquals, "less_equals"),
   (Operator.greater, "greater"), (Operator.greaterEquals, "greater_equals")]

theorem isLogical_ordering : ∀ op ∈ orderings, Operator.isLogical op.1 = false := by decide

theorem isTest_ordering : ∀ op ∈ orderings, ∀ o ∈ (ordering op.1 op.2).overloads,
    o.isTest = true := by decide +kernel

theorem id_sameType : ∀ op ∈ orderings,
    ∀ type ∈ [bool, int64, uint64, double, string, bytes, timestamp, duration],
      (sameType op.2 type).id ∉ crossTypeOverloads := by decide +kernel

theorem id_crossType : ∀ op ∈ orderings, ∀ pair ∈ numericPairs,
    (crossType op.2 pair).id ∈ crossTypeOverloads := by decide +kernel

end Orderings

end Standard

namespace Environment

/-- The orderings are the standard ones, and no other function takes the id of a comparison of
different numeric types. -/
structure KeepsOrderings (env : Environment) : Prop where
  ordering : ∀ op ∈ Standard.orderings,
    env.functions.get? op.1 = some (Standard.ordering op.1 op.2)
  other : ∀ name f, name ∉ Standard.orderings.map Prod.fst → env.functions.get? name = some f →
    ∀ o ∈ f.overloads, o.id ∉ Standard.crossTypeOverloads

section Eligible

variable {env : Environment} {isMember : Bool}

theorem eligible_adjust {f : Function}
    (h : ∀ o ∈ f.overloads, o.id ∉ Standard.crossTypeOverloads) (policy : LiteralPolicy)
    (cross : Bool) : (env.adjust policy cross).eligible f isMember = env.eligible f isMember := by
  refine List.filter_congr fun o ho => ?_
  have hid : Standard.crossTypeOverloads.contains o.id = false := by simpa using h o ho
  simp only [isDisabled, hid, Bool.and_false]

theorem eligible_ordering {op : String × String} (hop : op ∈ Standard.orderings)
    (hoff : env.crossTypeComparisons = false) (policy : LiteralPolicy) :
    ∃ os, (env.adjust policy true).eligible (Standard.ordering op.1 op.2) isMember =
      env.eligible (Standard.ordering op.1 op.2) isMember ++ os := by
  have hon : (env.adjust policy true).eligible (Standard.ordering op.1 op.2) isMember =
      (Standard.ordering op.1 op.2).overloads.filter (·.isMember == isMember) := rfl
  have hcross : (Standard.numericPairs.map (Standard.crossType op.2)).filter
      (fun o => !env.isDisabled o.id && o.isMember == isMember) = [] := by
    refine List.filter_eq_nil_iff.2 fun o ho => ?_
    obtain ⟨pair, hpair, rfl⟩ := List.mem_map.1 ho
    simp [isDisabled, hoff, Standard.id_crossType op hop pair hpair]
  rw [hon, eligible, Standard.ordering, List.filter_append, List.filter_append, hcross,
    List.append_nil]
  refine ⟨_, congrArg (· ++ _) (List.filter_congr fun o ho => ?_)⟩
  obtain ⟨type, htype, rfl⟩ := List.mem_map.1 ho
  simp [isDisabled, Standard.id_sameType op hop type htype]

end Eligible

section Building

theorem keepsOrderings_standard : standard.KeepsOrderings where
  ordering := by
    simp only [Standard.orderings, List.forall_mem_cons]
    exact ⟨rfl, rfl, rfl, rfl, by simp⟩
  other name f hname h := by
    have hall : ∀ f ∈ Standard.functions, f.name ∉ Standard.orderings.map Prod.fst →
        ∀ o ∈ f.overloads, o.id ∉ Standard.crossTypeOverloads := by decide +kernel
    obtain ⟨f, hf, heq⟩ := List.mem_map.1 (Table.mem_of_get?_ofList h)
    cases heq
    exact hall f hf hname

theorem mem_of_mem_foldl_replaceOverload {o : Overload} (new : List Overload) :
    ∀ {os : List Overload}, o ∈ new.foldl replaceOverload os → o ∈ os ∨ o ∈ new := by
  induction new with
  | nil => exact .inl
  | cons first new ih =>
    intro os h
    rcases ih h with hmem | hmem
    · rcases List.mem_append.1 hmem with hmem | hmem
      · exact .inl (List.mem_of_mem_filter hmem)
      · cases List.mem_singleton.1 hmem
        exact .inr List.mem_cons_self
    · exact .inr (List.mem_cons_of_mem _ hmem)

variable {env : Environment}

theorem KeepsOrderings.withFunction (henv : env.KeepsOrderings) {f : Function}
    (hname : f.name ∉ Standard.orderings.map Prod.fst)
    (hf : ∀ o ∈ f.overloads, o.id ∉ Standard.crossTypeOverloads) :
    (env.withFunction f).KeepsOrderings where
  ordering op hop := by
    refine (Table.get?_insert_of_ne _ _ fun heq => hname ?_).trans (henv.ordering op hop)
    exact heq ▸ List.mem_map_of_mem hop
  other name g hg h := by
    by_cases hne : name = f.name
    · subst hne
      rw [Environment.withFunction, Table.get?_insert_self, Option.some.injEq] at h
      subst h
      cases hget : env.functions.get? f.name with
      | none => exact hf
      | some existing =>
        intro o ho
        rcases mem_of_mem_foldl_replaceOverload f.overloads ho with ho | ho
        · exact henv.other f.name existing hname hget o ho
        · exact hf o ho
    · exact henv.other name g hg ((Table.get?_insert_of_ne _ _ hne).symm.trans h)

end Building

end Environment

theorem Session.Lockstep.comparisons {env : Environment} (henv : env.KeepsOrderings)
    (hoff : env.crossTypeComparisons = false) :
    Lockstep WiderReferences env env.policy true where
  policy_eq := .inl rfl
  setReference _ _ hr h hok := h.setReference_widens (.refl hr) hok
  resolveCall {s t name f} node isMember args hfun h hok := by
    obtain ⟨key, _, hkey⟩ := List.exists_of_findSome?_eq_some hfun
    by_cases hmem : key ∈ Standard.orderings.map Prod.fst
    · obtain ⟨op, hop, rfl⟩ := List.mem_map.1 hmem
      rw [henv.ordering op hop, Option.some.injEq] at hkey
      subst hkey
      obtain ⟨os, heq⟩ := env.eligible_ordering hop hoff env.policy
      refine h.resolveCall_of_tests (Standard.isLogical_ordering op hop) heq ?_ hok
      exact fun o ho => Standard.isTest_ordering op hop o (List.mem_of_mem_filter ho)
    · exact h.resolveCall_of_eligible
        (env.eligible_adjust (henv.other key f hmem hkey) env.policy true) hok

/-- Comparisons of different numeric types can be allowed without changing anything else. What
was checked without a report has the same tree and the same types, and its references are to the
same things; those of calls list the same overloads and some more perhaps. -/
theorem check_withCrossTypeComparisons {env : Environment} (henv : env.KeepsOrderings) {e : Expr}
    {c : Checked} (h : check (env.withCrossTypeComparisons false) e = .ok c)
    (hok : c.diagnostics = []) :
    ∃ c', check (env.withCrossTypeComparisons true) e = .ok c' ∧ c'.expr = c.expr ∧
      c'.types = c.types ∧ c'.diagnostics = [] ∧
      ∀ node, Option.Rel Reference.Widens (c.references.get? node) (c'.references.get? node) := by
  obtain ⟨e', s, hd, rfl⟩ := check_iff.1 h
  have hkeeps : (env.withCrossTypeComparisons false).KeepsOrderings :=
    ⟨henv.ordering, henv.other⟩
  have hstart : Session.Like WiderReferences {} {} := ⟨∅, fun _ => .none, rfl⟩
  obtain ⟨_, hd', references, hwider, rfl⟩ :=
    hd.simulate (Session.Lockstep.comparisons hkeeps rfl).simulates hok hstart
  exact ⟨_, check_iff.2 ⟨e', _, hd', rfl⟩, rfl, rfl, hok, hwider⟩

def measuring : Environment :=
  (Environment.standard.withVariable "x" .dyn).withFunction
    { name := "measure", overloads := [Standard.function "measure_any" [.dyn] .dyn []] }

def measureBelow : Expr :=
  .call 4 Operator.less [.call 2 "measure" [.ident 1 "x"], .literal 3 (.int 2)]

theorem check_withCrossTypeComparisons_measureBelow :
    measuring.KeepsOrderings ∧
    ∃ c, check (measuring.withCrossTypeComparisons false) measureBelow = .ok c ∧
      (c.diagnostics = [] ∧
        (c.references.get? 4).map Reference.overloads = some ["less_int64"]) ∧
      ∃ c', check (measuring.withCrossTypeComparisons true) measureBelow = .ok c' ∧
        (c'.references.get? 4).map Reference.overloads =
          some ["less_int64", "less_uint64_int64", "less_double_int64"] ∧
        c'.expr = c.expr ∧ c'.types = c.types ∧ c'.diagnostics = [] ∧
        ∀ node, Option.Rel Reference.Widens (c.references.get? node) (c'.references.get? node) := by
  have hvariable : (Environment.standard.withVariable "x" .dyn).KeepsOrderings :=
    ⟨Environment.keepsOrderings_standard.ordering, Environment.keepsOrderings_standard.other⟩
  have henv : measuring.KeepsOrderings := hvariable.withFunction (by decide) (by decide +kernel)
  obtain ⟨c, hc, hd⟩ : ∃ c, check (measuring.withCrossTypeComparisons false) measureBelow = .ok c ∧
      (c.diagnostics = [] ∧
        (c.references.get? 4).map Reference.overloads = some ["less_int64"]) := by decide +kernel
  obtain ⟨c', hc', hwider⟩ := check_withCrossTypeComparisons henv hc hd.1
  obtain ⟨c'', hc'', hmore⟩ : ∃ c',
      check (measuring.withCrossTypeComparisons true) measureBelow = .ok c' ∧
        (c'.references.get? 4).map Reference.overloads =
          some ["less_int64", "less_uint64_int64", "less_double_int64"] := by decide +kernel
  cases hc'.symm.trans hc''
  exact ⟨henv, c, hc, hd, c', hc', hmore, hwider⟩

end CelTyping
