import CelTyping.Proofs.Agreement

/-! Bindings that solve what they were found from. A list of types is matched position by
position, and a later position may replace the binding that an earlier one was matched with.
If bindings only ever go up on the way, the earlier types still match at the end. They need not
go up, though: a match that comes upon its own parameter may replace a binding and then put an
older one back. With types of types, and with wrappers of parameters, going up is not enough. -/
namespace CelTyping

namespace Ty

@[simp] theorem paramNamesAll_eq_nil_iff {ts : List Ty} :
    paramNamesAll ts = [] ↔ ∀ t ∈ ts, t.paramNames = [] := by
  induction ts with
  | nil => simp [paramNamesAll]
  | cons t ts ih => simp [paramNamesAll, ih]

theorem apart_of_paramNamesAll {as bs : List Ty}
    (h : paramNamesAll as = [] ∨ paramNamesAll bs = []) :
    ∀ ab ∈ as.zip bs, ab.1.paramNames = [] ∨ ab.2.paramNames = [] := by
  rintro ⟨a, b⟩ hab
  obtain ⟨ha, hb⟩ := List.of_mem_zip hab
  exact h.imp (fun h => paramNamesAll_eq_nil_iff.1 h a ha)
    fun h => paramNamesAll_eq_nil_iff.1 h b hb

end Ty

namespace Bindings

mutual

/-- A match, as `Matches` has it, in whose course no binding is replaced by one that is not
above it. -/
inductive Climbs : Bindings → Ty → Ty → Bindings → Prop where
  | right {m m' : Bindings} {a : Ty} {q : String} : Lifts m a q m' → Climbs m a (.param q) m'
  | left {m m' : Bindings} {p : String} {b : Ty} : Lifts m b p m' → Climbs m (.param p) b m'
  | fits {m : Bindings} {a b : Ty} :
      (∀ p, a ≠ .param p) → (∀ q, b = .param q → a.paramNames ≠ []) → a.fits b = true →
        Climbs m a b m
  | list {m m' : Bindings} {a b : Ty} : Climbs m a b m' → Climbs m (.list a) (.list b) m'
  | optional {m m' : Bindings} {a b : Ty} :
      Climbs m a b m' → Climbs m (.optional a) (.optional b) m'
  | map {m m₁ m' : Bindings} {k v k' v' : Ty} :
      Climbs m k k' m₁ → Climbs m₁ v v' m' → Climbs m (.map k v) (.map k' v') m'
  | abstract {m m' : Bindings} {n : String} {as bs : List Ty} :
      ClimbsAll m as bs m' → Climbs m (.abstract n as) (.abstract n bs) m'
  | function {m m₁ m' : Bindings} {r r' : Ty} {as bs : List Ty} :
      Climbs m r r' m₁ → ClimbsAll m₁ as bs m' →
        Climbs m (.function r as) (.function r' bs) m'

inductive Lifts : Bindings → Ty → String → Bindings → Prop where
  | self {m : Bindings} {p : String} : Lifts m (.param p) p m
  | same {m : Bindings} {t bound : Ty} {p : String} :
      m.get? p = some bound → t.exact bound = true → Lifts m t p m
  /-- The inner match may have replaced the binding that the widened type is compared with. -/
  | widen {m m' : Bindings} {t bound : Ty} {p : String} :
      m.get? p = some bound → Climbs m t bound m' →
        m'.occurs p (t.mostGeneral bound) = .ok false →
        (∀ s, m'.get? p = some s → (t.mostGeneral bound).subsumes s = true) →
          Lifts m t p (m'.insert p (t.mostGeneral bound))
  | keep {m m' : Bindings} {t bound : Ty} {p : String} :
      m.get? p = some bound → Climbs m t bound m' → Lifts m t p m'
  | fresh {m : Bindings} {t : Ty} {p : String} :
      m.get? p = none → m.occurs p t = .ok false → Lifts m t p (m.insert p t)

inductive ClimbsAll : Bindings → List Ty → List Ty → Bindings → Prop where
  | nil {m : Bindings} : ClimbsAll m [] [] m
  | cons {m m₁ m' : Bindings} {a b : Ty} {as bs : List Ty} :
      Climbs m a b m₁ → ClimbsAll m₁ as bs m' → ClimbsAll m (a :: as) (b :: bs) m'

end

section Climbing

mutual

theorem Climbs.matches {m m' : Bindings} {a b : Ty} : Climbs m a b m' → Matches m a b m'
  | .right h => .right h.binds
  | .left h => .left h.binds
  | .fits ha hb h => .fits ha hb h
  | .list h => .list h.matches
  | .optional h => .optional h.matches
  | .map hk hv => .map hk.matches hv.matches
  | .abstract h => .abstract h.matches
  | .function hr h => .function hr.matches h.matches

theorem Lifts.binds {m m' : Bindings} {t : Ty} {p : String} : Lifts m t p m' → Binds m t p m'
  | .self => .self
  | .same hb he => .same hb he
  | .widen hb h ho _ => .widen hb h.matches ho
  | .keep hb h => .keep hb h.matches
  | .fresh hn ho => .fresh hn ho

theorem ClimbsAll.matches {m m' : Bindings} {as bs : List Ty} :
    ClimbsAll m as bs m' → MatchesAll m as bs m'
  | .nil => .nil
  | .cons h hs => .cons h.matches hs.matches

end

theorem Orderly.agree_param_of_subsumes {M : Bindings} (hM : M.Orderly) {t bound : Ty}
    {p : String} (hbound : ∃ t', M.get? p = some t' ∧ t'.subsumes bound = true)
    (h : M.Agree t bound) : M.Agree t (.param p) := by
  -- The binding has only become more general since.
  obtain ⟨t', ht', hs⟩ := hbound
  rw [hM.acyclic.agree_param ht']
  exact (Ty.Permits.of_subsumes _ t' bound (hM.tame p t' ht') hs _ h.symm).symm

theorem Tame.agree_self {M : Bindings} (hM : M.Tame) {t : Ty} (ht : t.isTame = true) :
    M.Agree t t :=
  .refl _ (hM.substitute ht)

mutual

/-- What has been matched on the way up goes together under the bindings that this leads to,
and under all later ones. -/
theorem Climbs.agree {M : Bindings} (hM : M.Orderly) {m m' : Bindings} {a b : Ty} :
    Climbs m a b m' → m.Tame → a.isTame = true → b.isTame = true → m'.Widened M → M.Agree a b
  | .right h, hm, ha, _, hw => h.agree hM hm ha hw
  | .left h, hm, _, hb, hw => (h.agree hM hm hb hw).symm
  | .fits hap hbq hf, _, ha, hb, _ => by
    have hbp : ∀ q, b ≠ .param q := by
      rintro q rfl
      exact hbq q rfl (Ty.paramNames_eq_nil_of_fits_param ha hf)
    exact (Ty.Compatible.of_fits ha hb hap hbp hf).replace hM.tame.substitute_param
  | .list h, hm, ha, hb, hw => .list (h.agree hM hm ha hb hw)
  | .optional h, hm, ha, hb, hw => .optional (h.agree hM hm ha hb hw)
  | .map hk hv, hm, ha, hb, hw => by
    obtain ⟨hak, hav⟩ := hereditary_isTame.map ha
    obtain ⟨hbk, hbv⟩ := hereditary_isTame.map hb
    have hm₁ := hk.matches.all hereditary_isTame hm hak hbk
    exact .map (hk.agree hM hm hak hbk (hv.matches.widened.trans hw))
      (hv.agree hM hm₁ hav hbv hw)
  | .abstract h, hm, ha, hb, hw => by
    have hall := h.agree hM hm (hereditary_isTame.abstract ha) (hereditary_isTame.abstract hb) hw
    unfold Agree
    rw [substitute_abstract, substitute_abstract]
    exact .abstract hall
  | .function hr h, hm, ha, hb, hw => by
    obtain ⟨har, has⟩ := hereditary_isTame.function ha
    obtain ⟨hbr, hbs⟩ := hereditary_isTame.function hb
    have hm₁ := hr.matches.all hereditary_isTame hm har hbr
    have hall := h.agree hM hm₁ has hbs hw
    unfold Agree
    rw [substitute_function, substitute_function]
    exact .function (hr.agree hM hm har hbr (h.matches.widened.trans hw)) hall

theorem Lifts.agree {M : Bindings} (hM : M.Orderly) {m m' : Bindings} {t : Ty} {p : String} :
    Lifts m t p m' → m.Tame → t.isTame = true → m'.Widened M → M.Agree t (.param p)
  | .self, _, ht, _ => hM.tame.agree_self ht
  | @Lifts.same _ _ bound _ hb he, hm, ht, hw => by
    apply hM.agree_param_of_subsumes (hw p bound hb)
    have hself := hM.tame.agree_self (hm p bound hb)
    exact Ty.Permits.of_subsumes _ t bound ht (t.subsumes_of_exact bound he) _ hself
  | @Lifts.widen _ m₁ _ bound _ hb h ho hup, hm, ht, hw => by
    have hwide := (Binds.widen hb h.matches ho).widened.trans hw
    have hw₁ : m₁.Widened M := ((Widened.refl m₁).insert hup).trans hw
    apply hM.agree_param_of_subsumes (hwide p bound hb)
    exact h.agree hM hm ht (hm p bound hb) hw₁
  | @Lifts.keep _ _ _ bound _ hb h, hm, ht, hw => by
    apply hM.agree_param_of_subsumes (h.matches.widened.trans hw p bound hb)
    exact h.agree hM hm ht (hm p bound hb) hw
  | .fresh _ _, _, ht, hw => by
    apply hM.agree_param_of_subsumes (hw p t (Table.get?_insert_self m p t))
    exact hM.tame.agree_self ht

theorem ClimbsAll.agree {M : Bindings} (hM : M.Orderly) {m m' : Bindings} {as bs : List Ty} :
    ClimbsAll m as bs m' → m.Tame → (∀ a ∈ as, a.isTame = true) → (∀ b ∈ bs, b.isTame = true) →
      m'.Widened M → M.AgreeAll as bs
  | .nil, _, _, _, _ => .nil
  | .cons h hs, hm, has, hbs, hw => by
    obtain ⟨ha, has⟩ := List.forall_mem_cons.1 has
    obtain ⟨hb, hbs⟩ := List.forall_mem_cons.1 hbs
    have hm₁ := h.matches.all hereditary_isTame hm ha hb
    exact .cons (h.agree hM hm ha hb (hs.matches.widened.trans hw)) (hs.agree hM hm₁ has hbs hw)

end

end Climbing

section Framing

variable {S : String → Prop}

def Closed (S : String → Prop) (m : Bindings) : Prop :=
  ∀ p t, S p → m.get? p = some t → ∀ q ∈ t.paramNames, S q

theorem Closed.insert {m : Bindings} (h : m.Closed S) (p : String) {t : Ty}
    (ht : ∀ q ∈ t.paramNames, S q) : Closed S (m.insert p t) := by
  intro q u hq hu
  rw [Table.get?_insert] at hu
  split at hu
  next =>
    cases hu
    exact ht
  next => exact h q u hq hu

/-- From the first bindings to the second only parameters of the set have changed. -/
structure Frames (S : String → Prop) (m m' : Bindings) : Prop where
  closed : m'.Closed S
  outside : ∀ p, ¬ S p → m'.get? p = m.get? p

theorem Frames.refl {m : Bindings} (h : m.Closed S) : Frames S m m := ⟨h, fun _ _ => rfl⟩

theorem Frames.trans {m m₁ m' : Bindings} (h : Frames S m m₁) (h' : Frames S m₁ m') :
    Frames S m m' :=
  ⟨h'.closed, fun p hp => (h'.outside p hp).trans (h.outside p hp)⟩

theorem Frames.insert {m m' : Bindings} (h : Frames S m m') {p : String} (hp : S p) {t : Ty}
    (ht : ∀ q ∈ t.paramNames, S q) : Frames S m (m'.insert p t) := by
  refine ⟨h.closed.insert p ht, fun q hq => ?_⟩
  have hne : q ≠ p := by
    rintro rfl
    exact hq hp
  rw [Table.get?_insert_of_ne m' t hne]
  exact h.outside q hq

mutual

theorem Matches.frames {m m' : Bindings} {a b : Ty} :
    Matches m a b m' → m.Closed S → (∀ p ∈ a.paramNames, S p) → (∀ p ∈ b.paramNames, S p) →
      Frames S m m'
  | .right h, hm, ha, hb => h.frames hm ha (hb _ List.mem_cons_self)
  | .left h, hm, ha, hb => h.frames hm hb (ha _ List.mem_cons_self)
  | .fits _ _ _, hm, _, _ => .refl hm
  | .list h, hm, ha, hb => h.frames hm ha hb
  | .optional h, hm, ha, hb => h.frames hm ha hb
  | .map hk hv, hm, ha, hb => by
    obtain ⟨hak, hav⟩ := List.forall_mem_append.1 ha
    obtain ⟨hbk, hbv⟩ := List.forall_mem_append.1 hb
    have hkey := hk.frames hm hak hbk
    exact hkey.trans (hv.frames hkey.closed hav hbv)
  | .abstract h, hm, ha, hb => h.frames hm ha hb
  | .function hr h, hm, ha, hb => by
    obtain ⟨har, has⟩ := List.forall_mem_append.1 ha
    obtain ⟨hbr, hbs⟩ := List.forall_mem_append.1 hb
    have hresult := hr.frames hm har hbr
    exact hresult.trans (h.frames hresult.closed has hbs)

theorem Binds.frames {m m' : Bindings} {t : Ty} {p : String} :
    Binds m t p m' → m.Closed S → (∀ q ∈ t.paramNames, S q) → S p → Frames S m m'
  | .self, hm, _, _ => .refl hm
  | .same _ _, hm, _, _ => .refl hm
  | @Binds.widen _ _ _ bound _ hb h _, hm, ht, hp => by
    have hbound := hm p bound hp hb
    exact (h.frames hm ht hbound).insert hp
      (Ty.mostGeneral_of (P := fun u => ∀ q ∈ u.paramNames, S q) ht hbound)
  | .keep hb h, hm, ht, hp => h.frames hm ht (hm p _ hp hb)
  | .fresh _ _, hm, ht, hp => (Frames.refl hm).insert hp ht

theorem MatchesAll.frames {m m' : Bindings} {as bs : List Ty} :
    MatchesAll m as bs m' → m.Closed S → (∀ p ∈ Ty.paramNamesAll as, S p) →
      (∀ p ∈ Ty.paramNamesAll bs, S p) → Frames S m m'
  | .nil, hm, _, _ => .refl hm
  | .cons h hs, hm, has, hbs => by
    obtain ⟨ha, has⟩ := List.forall_mem_append.1 has
    obtain ⟨hb, hbs⟩ := List.forall_mem_append.1 hbs
    have hfirst := h.frames hm ha hb
    exact hfirst.trans (hs.frames hfirst.closed has hbs)

end

theorem Matches.get?_eq_of_closed {m m' : Bindings} (hm : m.Acyclic) {p : String} {t bound : Ty}
    (hb : m.get? p = some bound) (ht : t.paramNames = []) (h : Matches m t bound m') :
    m'.get? p = some bound := by
  -- what the binding leads to, which is not its own parameter
  let S (q : String) : Prop := ∃ r ∈ bound.paramNames, m.Leads r q
  have hclosed : m.Closed S := by
    rintro q u ⟨r, hr, hlead⟩ hu q' hq'
    have hf : m.Follows q q' := ⟨u, hu, hq'⟩
    rcases hlead with rfl | hlead
    · exact ⟨r, hr, .inr (.single hf)⟩
    · exact ⟨r, hr, .inr (.tail hlead hf)⟩
  have hframes : Frames S m m' := h.frames hclosed (by simp [ht]) fun q hq => ⟨q, hq, .inl rfl⟩
  rw [hframes.outside p, hb]
  rintro ⟨r, hr, hlead⟩
  exact hm p (Follows.leads ⟨bound, hb, hr⟩ hlead)

mutual

theorem Matches.climbs {m m' : Bindings} {a b : Ty} :
    Matches m a b m' → m.Acyclic → a.paramNames = [] ∨ b.paramNames = [] → Climbs m a b m'
  | .right h, hm, hab => .right (h.lifts hm (hab.resolve_right (List.cons_ne_nil _ _)))
  | .left h, hm, hab => .left (h.lifts hm (hab.resolve_left (List.cons_ne_nil _ _)))
  | .fits ha hb h, _, _ => .fits ha hb h
  | .list h, hm, hab => .list (h.climbs hm hab)
  | .optional h, hm, hab => .optional (h.climbs hm hab)
  | .map hk hv, hm, hab => by
    simp only [Ty.paramNames, List.append_eq_nil_iff] at hab
    exact .map (hk.climbs hm (hab.imp And.left And.left))
      (hv.climbs (hk.acyclic hm) (hab.imp And.right And.right))
  | .abstract h, hm, hab => .abstract (h.climbs hm (Ty.apart_of_paramNamesAll hab))
  | .function hr h, hm, hab => by
    simp only [Ty.paramNames, List.append_eq_nil_iff] at hab
    exact .function (hr.climbs hm (hab.imp And.left And.left))
      (h.climbs (hr.acyclic hm) (Ty.apart_of_paramNamesAll (hab.imp And.right And.right)))

theorem Binds.lifts {m m' : Bindings} {t : Ty} {p : String} :
    Binds m t p m' → m.Acyclic → t.paramNames = [] → Lifts m t p m'
  | .self, _, _ => .self
  | .same hb he, _, _ => .same hb he
  | @Binds.widen _ m₁ _ bound _ hb h ho, hm, ht => by
    apply Lifts.widen hb (h.climbs hm (.inl ht)) ho
    intro s hs
    rw [h.get?_eq_of_closed hm hb ht] at hs
    cases hs
    exact t.mostGeneral_subsumes bound
  | .keep hb h, hm, ht => .keep hb (h.climbs hm (.inl ht))
  | .fresh hn ho, _, _ => .fresh hn ho

theorem MatchesAll.climbs {m m' : Bindings} {as bs : List Ty} :
    MatchesAll m as bs m' → m.Acyclic →
      (∀ ab ∈ as.zip bs, ab.1.paramNames = [] ∨ ab.2.paramNames = []) → ClimbsAll m as bs m'
  | .nil, _, _ => .nil
  | .cons h hs, hm, hab => by
    obtain ⟨hfirst, hrest⟩ := List.forall_mem_cons.1 hab
    exact .cons (h.climbs hm hfirst) (hs.climbs (h.acyclic hm) hrest)

end

end Framing

section Solving

def Solves (m : Bindings) (as bs : List Ty) : Prop :=
  ∀ ab ∈ as.zip bs, (m.assignable? ab.1 ab.2).isSome = true

theorem AgreeAll.solves {m : Bindings} (hm : m.Orderly) {as bs : List Ty}
    (has : ∀ a ∈ as, a.isTame = true) (hbs : ∀ b ∈ bs, b.isTame = true)
    (h : m.AgreeAll as bs) : m.Solves as bs := by
  induction as generalizing bs with
  | nil =>
    intro ab hab
    cases hab
  | cons a as ih =>
    cases bs with
    | nil => cases h
    | cons b bs =>
      obtain ⟨ha, has⟩ := List.forall_mem_cons.1 has
      obtain ⟨hb, hbs⟩ := List.forall_mem_cons.1 hbs
      cases h with
      | cons hab habs =>
        exact List.forall_mem_cons.2 ⟨Agree.assignable hm ha hb hab, ih has hbs habs⟩

/-- The bindings found for two lists solve them, if types and bindings are tame and bindings
only go up on the way. They do so where at each position one of the two types is without
parameters. -/
theorem assignableAll_solves {m m' : Bindings} {as bs : List Ty} (hm : m.Acyclic)
    (htame : m.Tame) (has : ∀ a ∈ as, a.isTame = true) (hbs : ∀ b ∈ bs, b.isTame = true)
    (h : m.assignableAll? as bs = some m')
    (hup : (∀ ab ∈ as.zip bs, ab.1.paramNames = [] ∨ ab.2.paramNames = []) ∨
      ClimbsAll m as bs m') : m'.Solves as bs := by
  have hmatches := MatchesAll.of_assignableAll h
  have hm' : m'.Orderly := hmatches.orderly ⟨hm, htame⟩ has hbs
  have hclimbs : ClimbsAll m as bs m' := hup.elim (hmatches.climbs hm) id
  exact (hclimbs.agree hm' htame has hbs (.refl m')).solves hm' has hbs

/-- A list of numbers and a list of anything give a parameter a second, wider binding, under
which the first list still fits. Two lists of parameters match on the way up as well. -/
theorem assignableAll_solves_lists :
    ((∅ : Bindings).Acyclic ∧ (∅ : Bindings).Tame) ∧
    (∃ m', (∅ : Bindings).assignableAll? [.list .int, .list .dyn]
        [.list (.param "T"), .list (.param "T")] = some m' ∧ m'.get? "T" = some .dyn ∧
      m'.Solves [.list .int, .list .dyn] [.list (.param "T"), .list (.param "T")]) ∧
    ∃ m', (∅ : Bindings).assignableAll? [.list (.param "T")] [.list (.param "U")] = some m' ∧
      m'.Solves [.list (.param "T")] [.list (.param "U")] := by
  have hlists : (∅ : Bindings).assignableAll? [.list .int, .list .dyn]
      [.list (.param "T"), .list (.param "T")] =
        some (Table.insert (Table.insert ∅ "T" .int) "T" .dyn) := rfl
  have hparams : (∅ : Bindings).assignableAll? [.list (.param "T")] [.list (.param "U")] =
      some (Table.insert ∅ "U" (.param "T")) := rfl
  have hclimbs : ClimbsAll ∅ [.list (.param "T")] [.list (.param "U")]
      (Table.insert ∅ "U" (.param "T")) := .cons (.list (.right (.fresh rfl rfl))) .nil
  refine ⟨⟨acyclic_empty, Table.All.empty⟩, ⟨_, hlists, rfl, ?_⟩, ⟨_, hparams, ?_⟩⟩
  · exact assignableAll_solves acyclic_empty Table.All.empty (by decide) (by decide) hlists
      (.inl (by decide))
  · exact assignableAll_solves acyclic_empty Table.All.empty (by decide) (by decide) hparams
      (.inr hclimbs)

def quadruple (a b c d : Ty) : Ty := .abstract "quadruple" [a, b, c, d]

/-- Matched against the second of these, which holds its parameter, the first is replaced by
one of its own parts and then put back, so that the parts have been compared with a binding
that the third never was. -/
def relapse : List Ty :=
  let x := quadruple .dyn .dyn .dyn .bool
  let y := quadruple .dyn .dyn .int .dyn
  [quadruple x y .string .bool, quadruple (.param "T") (.param "T") .string .bool,
    quadruple x y .string .dyn]

/-- A type of types takes the place of `dyn`, a wrapper of a parameter matches that parameter
without binding it, and a match puts a binding back that it has replaced on the way: each time
the bindings found are no solution. -/
theorem assignableAll_unsolved :
    (∃ m', (∅ : Bindings).assignableAll? [.int, .dyn, .type .int]
        [.param "T", .param "T", .param "T"] = some m' ∧
      ¬ m'.Solves [.int, .dyn, .type .int] [.param "T", .param "T", .param "T"]) ∧
    (∃ m', (∅ : Bindings).assignableAll? [.wrapper (.param "T"), .list .int]
        [.param "T", .param "T"] = some m' ∧
      ¬ m'.Solves [.wrapper (.param "T"), .list .int] [.param "T", .param "T"]) ∧
    ∃ m', (∅ : Bindings).assignableAll? relapse [.param "T", .param "T", .param "T"] = some m' ∧
      ¬ m'.Solves relapse [.param "T", .param "T", .param "T"] := by
  refine ⟨⟨_, rfl, ?_⟩, ⟨_, rfl, ?_⟩, ⟨_, rfl, ?_⟩⟩
  · intro h
    exact absurd (h (.int, .param "T") (by simp)) (by decide)
  · intro h
    exact absurd (h (.wrapper (.param "T"), .param "T") (by simp)) (by decide)
  · intro h
    exact absurd (h (quadruple (.param "T") (.param "T") .string .bool, .param "T")
      (by simp [relapse])) (by decide)

end Solving

end Bindings

end CelTyping
