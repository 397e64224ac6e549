import CelTyping.Proofs.Acyclic

/-! What a successful match can do to the bindings, as a relation without fuel.
Proofs about matches go by induction over it. The main results: a match of bindings
without a circle makes none, and every binding it starts from is still there at the
end, replaced by a more general one at most. -/
namespace CelTyping

/-- The pairs that match as they stand, whatever the bindings. -/
def Ty.fits : Ty → Ty → Bool
  | .dyn, _ => true
  | .error _, _ => true
  | _, .dyn => true
  | _, .error _ => true
  | .null, b => b.isNullable
  | a, .null => a.isNullable
  | .type _, .type _ => true
  | .scalar s, b => b.accepts (.scalar s)
  | .message n, b => b.accepts (.message n)
  | .wrapper a, b => b.accepts (.wrapper a)
  | _, _ => false

section Fits

theorem Ty.fits_dyn_right (a : Ty) : a.fits .dyn = true := by
  cases a with
  | scalar s => cases s <;> simp [Ty.fits]
  | _ => simp [Ty.fits]

theorem Ty.fits_error_right (a : Ty) (d : Diagnostic) : a.fits (.error d) = true := by
  cases a with
  | scalar s => cases s <;> simp [Ty.fits]
  | _ => simp [Ty.fits]

theorem Ty.fits_null_left {b : Ty} (h : b.isNullable = true) : Ty.null.fits b = true := by
  cases b with
  | scalar s => cases s <;> simp_all [Ty.fits]
  | _ => simp_all [Ty.fits]

theorem Ty.fits_null_right {a : Ty} (h : a.isNullable = true) : a.fits .null = true := by
  cases a with
  | scalar s => cases s <;> simp_all [Ty.fits]
  | _ => simp_all [Ty.fits]

theorem Ty.fits_scalar {s : Scalar} {b : Ty} (h : b.accepts (.scalar s) = true) :
    (Ty.scalar s).fits b = true := by
  cases b with
  | scalar s' =>
    cases s <;> cases s' <;> simp_all [Ty.fits, Ty.accepts, Scalar.accepts, Ty.isNullable]
  | _ => cases s <;> simp_all [Ty.fits, Ty.isNullable]

theorem Ty.fits_message {n : String} {b : Ty} (h : b.accepts (.message n) = true) :
    (Ty.message n).fits b = true := by
  cases b with
  | scalar s => cases s <;> simp_all [Ty.accepts, Scalar.accepts]
  | _ => simp_all [Ty.fits]

theorem Ty.fits_wrapper {a b : Ty} (h : b.accepts (.wrapper a) = true) :
    (Ty.wrapper a).fits b = true := by
  cases b with
  | scalar s => cases s <;> simp_all [Ty.fits, Ty.accepts, Scalar.accepts, Scalar.isPrimitive]
  | _ => simp_all [Ty.fits]

end Fits

namespace Bindings

mutual

/-- Matching `a` against `b` turns the first bindings into the second. -/
inductive Matches : Bindings → Ty → Ty → Bindings → Prop where
  | right {m m' : Bindings} {a : Ty} {q : String} : Binds m a q m' → Matches m a (.param q) m'
  | left {m m' : Bindings} {p : String} {b : Ty} : Binds m b p m' → Matches m (.param p) b m'
  /-- A parameter is left unbound only where it occurs in what it is matched against. -/
  | fits {m : Bindings} {a b : Ty} :
      (∀ p, a ≠ .param p) → (∀ q, b = .param q → a.paramNames ≠ []) → a.fits b = true →
        Matches m a b m
  | list {m m' : Bindings} {a b : Ty} : Matches m a b m' → Matches m (.list a) (.list b) m'
  | optional {m m' : Bindings} {a b : Ty} :
      Matches m a b m' → Matches m (.optional a) (.optional b) m'
  | map {m m₁ m' : Bindings} {k v k' v' : Ty} :
      Matches m k k' m₁ → Matches m₁ v v' m' → Matches m (.map k v) (.map k' v') m'
  | abstract {m m' : Bindings} {n : String} {as bs : List Ty} :
      MatchesAll m as bs m' → Matches m (.abstract n as) (.abstract n bs) m'
  | function {m m₁ m' : Bindings} {r r' : Ty} {as bs : List Ty} :
      Matches m r r' m₁ → MatchesAll m₁ as bs m' →
        Matches m (.function r as) (.function r' bs) m'

inductive Binds : Bindings → Ty → String → Bindings → Prop where
  | self {m : Bindings} {p : String} : Binds m (.param p) p m
  | same {m : Bindings} {t bound : Ty} {p : String} :
      m.get? p = some bound → t.exact bound = true → Binds m t p m
  /-- The widened type is computed from the binding as it was before the inner match. -/
  | widen {m m' : Bindings} {t bound : Ty} {p : String} :
      m.get? p = some bound → Matches m t bound m' →
        m'.occurs p (t.mostGeneral bound) = .ok false →
          Binds m t p (m'.insert p (t.mostGeneral bound))
  | keep {m m' : Bindings} {t bound : Ty} {p : String} :
      m.get? p = some bound → Matches m t bound m' → Binds m t p m'
  | fresh {m : Bindings} {t : Ty} {p : String} :
      m.get? p = none → m.occurs p t = .ok false → Binds m t p (m.insert p t)

inductive MatchesAll : Bindings → List Ty → List Ty → Bindings → Prop where
  | nil {m : Bindings} : MatchesAll m [] [] m
  | cons {m m₁ m' : Bindings} {a b : Ty} {as bs : List Ty} :
      Matches m a b m₁ → MatchesAll m₁ as bs m' → MatchesAll m (a :: as) (b :: bs) m'

end

section Soundness

variable {step : Bindings → Ty → Ty → Except Stop Bindings}

theorem keepIf_eq_ok {m m' : Bindings} {ok : Bool} (h : m.keepIf ok = .ok m') :
    ok = true ∧ m' = m := by
  cases ok <;> simp [keepIf] at h
  exact ⟨rfl, h.symm⟩

theorem MatchesAll.of_pairwise (hstep : ∀ m a b m', step m a b = .ok m' → Matches m a b m')
    {m m' : Bindings} {as bs : List Ty} (h : pairwise step m as bs = .ok m') :
    MatchesAll m as bs m' := by
  induction as generalizing m bs with
  | nil =>
    cases bs with
    | nil =>
      cases h
      exact .nil
    | cons b bs => simp [pairwise] at h
  | cons a as ih =>
    cases bs with
    | nil => simp [pairwise] at h
    | cons b bs =>
      simp only [pairwise] at h
      split at h
      next m₁ h₁ => exact .cons (hstep m a b m₁ h₁) (ih h)
      next => cases h

theorem Binds.of_bindParam (hstep : ∀ m a b m', step m a b = .ok m' → Matches m a b m')
    {m m' : Bindings} {t : Ty} {p : String} (h : m.bindParam step t p = .ok (some m')) :
    Binds m t p m' := by
  unfold bindParam at h
  split at h
  next he =>
    cases h
    rw [Ty.exact_param.1 he]
    exact .self
  next =>
    split at h
    next bound hb =>
      split at h
      next he =>
        cases h
        exact .same hb he
      next =>
        simp only [bind, Except.bind, pure, Except.pure] at h
        split at h
        next => cases h
        next m₁ hs =>
          split at h
          next => cases h
          next circular hc =>
            cases h
            cases circular with
            | true => exact .keep hb (hstep _ _ _ _ hs)
            | false => exact .widen hb (hstep _ _ _ _ hs) hc
    next hn =>
      simp only [bind, Except.bind, pure, Except.pure] at h
      split at h
      next => cases h
      next circular hc =>
        cases circular with
        | true => simp at h
        | false =>
          cases h
          exact .fresh hn hc

theorem paramNames_ne_nil_of_bindParam {m : Bindings} {t : Ty} {p : String}
    (h : m.bindParam step t p = .ok none) : t.paramNames ≠ [] := by
  -- A type is only refused by an unbound parameter that occurs in it.
  intro ht
  unfold bindParam at h
  split at h
  next => cases h
  next =>
    split at h
    next =>
      split at h
      next => cases h
      next =>
        simp only [bind, Except.bind, pure, Except.pure] at h
        split at h
        next => cases h
        next => split at h <;> cases h
    next => simp [occurs, ht, bind, Except.bind, pure, Except.pure] at h

theorem Matches.of_assignParts (hstep : ∀ m a b m', step m a b = .ok m' → Matches m a b m')
    {m m' : Bindings} {a b : Ty} (ha : ∀ p, a ≠ .param p)
    (hb : ∀ q, b = .param q → a.paramNames ≠ []) (h : m.assignParts step a b = .ok m') :
    Matches m a b m' := by
  unfold assignParts at h
  split at h
  next => cases h; exact .fits ha hb rfl
  next => cases h; exact .fits ha hb rfl
  next => cases h; exact .fits ha hb (Ty.fits_dyn_right a)
  next => cases h; exact .fits ha hb (Ty.fits_error_right a _)
  next =>
    obtain ⟨hok, rfl⟩ := keepIf_eq_ok h
    exact .fits ha hb (Ty.fits_null_left hok)
  next =>
    obtain ⟨hok, rfl⟩ := keepIf_eq_ok h
    exact .fits ha hb (Ty.fits_null_right hok)
  next => cases h; exact .fits ha hb rfl
  next n as n' bs =>
    split at h
    next hn =>
      subst hn
      exact .abstract (.of_pairwise hstep h)
    next => cases h
  next r as r' bs =>
    split at h
    next m₁ hr => exact .function (hstep _ _ _ _ hr) (.of_pairwise hstep h)
    next => cases h
  next => exact .optional (hstep _ _ _ _ h)
  next => exact .list (hstep _ _ _ _ h)
  next k v k' v' =>
    split at h
    next m₁ hk => exact .map (hstep _ _ _ _ hk) (hstep _ _ _ _ h)
    next => cases h
  next =>
    obtain ⟨hok, rfl⟩ := keepIf_eq_ok h
    exact .fits ha hb (Ty.fits_scalar hok)
  next =>
    obtain ⟨hok, rfl⟩ := keepIf_eq_ok h
    exact .fits ha hb (Ty.fits_message hok)
  next =>
    obtain ⟨hok, rfl⟩ := keepIf_eq_ok h
    exact .fits ha hb (Ty.fits_wrapper hok)
  next => cases h

theorem Matches.of_assignLeft (hstep : ∀ m a b m', step m a b = .ok m' → Matches m a b m')
    {m m' : Bindings} {a b : Ty} (hb : ∀ q, b = .param q → a.paramNames ≠ [])
    (h : m.assignLeft step a b = .ok m') : Matches m a b m' := by
  unfold assignLeft at h
  split at h
  next p =>
    split at h
    next m₁ hp =>
      cases h
      exact .left (.of_bindParam hstep hp)
    next => cases h
    next => cases h
  next hp => exact .of_assignParts hstep hp hb h

theorem Matches.of_assign (n : Nat) :
    ∀ m a b m', assign n m a b = .ok m' → Matches m a b m' := by
  induction n with
  | zero =>
    intro m a b m' h
    cases h
  | succ n ih =>
    intro m a b m' h
    simp only [assign] at h
    split at h
    next q =>
      split at h
      next m₁ hq =>
        cases h
        exact .right (.of_bindParam ih hq)
      next hq => exact .of_assignLeft ih (fun _ _ => paramNames_ne_nil_of_bindParam hq) h
      next => cases h
    next hb => exact .of_assignLeft ih (fun q hq => absurd hq (hb q)) h

theorem eq_ok_of_toOption {r : Except Stop Bindings} {m : Bindings} (h : r.toOption = some m) :
    r = .ok m := by
  cases r with
  | error e => cases h
  | ok m' =>
    cases h
    rfl

theorem Matches.of_assignable {m m' : Bindings} {a b : Ty} (h : m.assignable? a b = some m') :
    Matches m a b m' :=
  .of_assign _ m a b m' (eq_ok_of_toOption h)

theorem MatchesAll.of_assignableAll {m m' : Bindings} {as bs : List Ty}
    (h : m.assignableAll? as bs = some m') : MatchesAll m as bs m' :=
  .of_pairwise (Matches.of_assign _) (eq_ok_of_toOption h)

end Soundness

section Circles

mutual

/-- Matching makes no circle: a parameter is only ever bound after an occurs check on
the bindings it is added to. -/
theorem Matches.acyclic {m m' : Bindings} {a b : Ty} (hm : m.Acyclic) :
    Matches m a b m' → m'.Acyclic
  | .right h => h.acyclic hm
  | .left h => h.acyclic hm
  | .fits _ _ _ => hm
  | .list h => h.acyclic hm
  | .optional h => h.acyclic hm
  | .map hk hv => hv.acyclic (hk.acyclic hm)
  | .abstract h => h.acyclic hm
  | .function hr h => h.acyclic (hr.acyclic hm)

theorem Binds.acyclic {m m' : Bindings} {t : Ty} {p : String} (hm : m.Acyclic) :
    Binds m t p m' → m'.Acyclic
  | .self => hm
  | .same _ _ => hm
  | .widen _ h ho => (h.acyclic hm).insert ((h.acyclic hm).not_leads_of_occurs ho)
  | .keep _ h => h.acyclic hm
  | .fresh _ ho => hm.insert (hm.not_leads_of_occurs ho)

theorem MatchesAll.acyclic {m m' : Bindings} {as bs : List Ty} (hm : m.Acyclic) :
    MatchesAll m as bs m' → m'.Acyclic
  | .nil => hm
  | .cons h hs => hs.acyclic (h.acyclic hm)

end

end Circles

section Inheriting

structure Hereditary (P : Ty → Prop) : Prop where
  list {t : Ty} : P (.list t) → P t
  optional {t : Ty} : P (.optional t) → P t
  map {k v : Ty} : P (.map k v) → P k ∧ P v
  abstract {n : String} {ts : List Ty} : P (.abstract n ts) → ∀ t ∈ ts, P t
  function {r : Ty} {ts : List Ty} : P (.function r ts) → P r ∧ ∀ t ∈ ts, P t

variable {P : Ty → Prop}

mutual

theorem Matches.all (hP : Hereditary P) {m m' : Bindings} {a b : Ty} :
    Matches m a b m' → Table.All P m → P a → P b → Table.All P m'
  | .right h, hm, ha, _ => h.all hP hm ha
  | .left h, hm, _, hb => h.all hP hm hb
  | .fits _ _ _, hm, _, _ => hm
  | .list h, hm, ha, hb => h.all hP hm (hP.list ha) (hP.list hb)
  | .optional h, hm, ha, hb => h.all hP hm (hP.optional ha) (hP.optional hb)
  | .map hk hv, hm, ha, hb =>
    hv.all hP (hk.all hP hm (hP.map ha).1 (hP.map hb).1) (hP.map ha).2 (hP.map hb).2
  | .abstract h, hm, ha, hb => h.all hP hm (hP.abstract ha) (hP.abstract hb)
  | .function hr h, hm, ha, hb =>
    h.all hP (hr.all hP hm (hP.function ha).1 (hP.function hb).1) (hP.function ha).2
      (hP.function hb).2

theorem Binds.all (hP : Hereditary P) {m m' : Bindings} {t : Ty} {p : String} :
    Binds m t p m' → Table.All P m → P t → Table.All P m'
  | .self, hm, _ => hm
  | .same _ _, hm, _ => hm
  | .widen hb h _, hm, ht =>
    Table.All.insert (h.all hP hm ht (hm _ _ hb)) (Ty.mostGeneral_of ht (hm _ _ hb))
  | .keep hb h, hm, ht => h.all hP hm ht (hm _ _ hb)
  | .fresh _ _, hm, ht => Table.All.insert hm ht

theorem MatchesAll.all (hP : Hereditary P) {m m' : Bindings} {as bs : List Ty} :
    MatchesAll m as bs m' → Table.All P m → (∀ a ∈ as, P a) → (∀ b ∈ bs, P b) →
      Table.All P m'
  | .nil, hm, _, _ => hm
  | .cons h hs, hm, has, hbs => by
    obtain ⟨ha, has⟩ := List.forall_mem_cons.1 has
    obtain ⟨hb, hbs⟩ := List.forall_mem_cons.1 hbs
    exact hs.all hP (h.all hP hm ha hb) has hbs

end

end Inheriting

section Widening

/-- Each binding is still there, replaced by a more general one at most. -/
def Widened (m m' : Bindings) : Prop :=
  ∀ p t, m.get? p = some t → ∃ t', m'.get? p = some t' ∧ t'.subsumes t = true

theorem Widened.refl (m : Bindings) : m.Widened m :=
  fun _ t h => ⟨t, h, t.subsumes_refl⟩

theorem Widened.trans {m m₁ m' : Bindings} (h : m.Widened m₁) (h' : m₁.Widened m') :
    m.Widened m' := by
  intro p t ht
  obtain ⟨t₁, h₁, hs₁⟩ := h p t ht
  obtain ⟨t', ht', hs'⟩ := h' p t₁ h₁
  exact ⟨t', ht', Ty.subsumes_trans t' t₁ t hs' hs₁⟩

/-- Replacing a binding keeps to the order when the new one is compared with the
binding at the start, however the one in between was. -/
theorem Widened.insert {m m' : Bindings} (h : m.Widened m') {p : String} {t : Ty}
    (hp : ∀ s, m.get? p = some s → t.subsumes s = true) : m.Widened (m'.insert p t) := by
  intro q s hs
  by_cases hq : q = p
  · subst hq
    exact ⟨t, Table.get?_insert_self m' q t, hp s hs⟩
  · rw [Table.get?_insert_of_ne m' t hq]
    exact h q s hs

mutual

theorem Matches.widened {m m' : Bindings} {a b : Ty} : Matches m a b m' → m.Widened m'
  | .right h => h.widened
  | .left h => h.widened
  | .fits _ _ _ => .refl m
  | .list h => h.widened
  | .optional h => h.widened
  | .map hk hv => hk.widened.trans hv.widened
  | .abstract h => h.widened
  | .function hr h => hr.widened.trans h.widened

theorem Binds.widened {m m' : Bindings} {t : Ty} {p : String} : Binds m t p m' → m.Widened m'
  | .self => .refl m
  | .same _ _ => .refl m
  | .widen hb h _ => h.widened.insert fun s hs => by
      rw [hb] at hs
      cases hs
      exact Ty.mostGeneral_subsumes t _
  | .keep _ h => h.widened
  | .fresh hn _ => (Widened.refl m).insert fun s hs => by
      rw [hn] at hs
      cases hs

theorem MatchesAll.widened {m m' : Bindings} {as bs : List Ty} :
    MatchesAll m as bs m' → m.Widened m'
  | .nil => .refl m
  | .cons h hs => h.widened.trans hs.widened

end

end Widening

end Bindings

end CelTyping
