import CelTyping.Proofs.Closing
import CelTyping.Proofs.Compatibility

/-! Types that go together under bindings. What does so matches, and it still does so under
later bindings, which have become more general; so a match of several parts, whose bindings
change from one part to the next, is accepted as soon as each of its parts goes together under
the bindings that it starts from. -/
namespace CelTyping

namespace Ty

section Shapes

variable {f : String → Ty} {t : Ty}

theorem replace_eq_list (ht : ∀ p, t ≠ .param p) {x : Ty} (h : t.replace f = .list x) :
    ∃ u, t = .list u ∧ u.replace f = x := by
  cases t <;> simp_all [replace]

theorem replace_eq_optional (ht : ∀ p, t ≠ .param p) {x : Ty} (h : t.replace f = .optional x) :
    ∃ u, t = .optional u ∧ u.replace f = x := by
  cases t <;> simp_all [replace]

theorem replace_eq_map (ht : ∀ p, t ≠ .param p) {x y : Ty} (h : t.replace f = .map x y) :
    ∃ k v, t = .map k v ∧ k.replace f = x ∧ v.replace f = y := by
  cases t <;> simp_all [replace]

theorem replace_eq_abstract (ht : ∀ p, t ≠ .param p) {n : String} {xs : List Ty}
    (h : t.replace f = .abstract n xs) : ∃ us, t = .abstract n us ∧ replaceAll f us = xs := by
  cases t <;> simp_all [replace]

theorem replace_eq_function (ht : ∀ p, t ≠ .param p) {x : Ty} {xs : List Ty}
    (h : t.replace f = .function x xs) :
    ∃ r us, t = .function r us ∧ r.replace f = x ∧ replaceAll f us = xs := by
  cases t <;> simp_all [replace]

theorem replace_eq_scalar (ht : ∀ p, t ≠ .param p) {s : Scalar} (h : t.replace f = .scalar s) :
    t = .scalar s := by
  cases t <;> simp_all [replace]

theorem replace_ne_param (ht : ∀ p, t ≠ .param p) (q : String) : t.replace f ≠ .param q := by
  cases t <;> simp_all [replace]

theorem replace_eq_self_of_isAtomic (ht : ∀ p, t ≠ .param p) (htame : t.isTame = true)
    (h : (t.replace f).isAtomic = true) : t.replace f = t := by
  cases t with
  | wrapper t => exact replace_of_isAtomic (t := .wrapper t) htame f
  | scalar s => rfl
  | message n => rfl
  | param p => exact absurd rfl (ht p)
  | _ => cases h

theorem replace_eq_self_of_isDynOrError (ht : ∀ p, t ≠ .param p)
    (h : (t.replace f).isDynOrError = true) : t.replace f = t := by
  cases t with
  | scalar s => rfl
  | error d => rfl
  | param p => exact absurd rfl (ht p)
  | _ => cases h

end Shapes

theorem paramNames_eq_nil_of_fits_param {t : Ty} {q : String} (ht : t.isTame = true)
    (h : t.fits (.param q) = true) : t.paramNames = [] := by
  cases t with
  | wrapper t =>
    obtain ⟨s, rfl⟩ := isScalar_iff.1 ht
    rfl
  | scalar _ | message _ | error _ => rfl
  | _ => cases h

theorem fits_of_isDynOrError_left {a b : Ty} (h : a.isDynOrError = true) : a.fits b = true := by
  cases a with
  | scalar s => cases s <;> first | rfl | cases h
  | error d => rfl
  | _ => cases h

theorem fits_of_isDynOrError_right {a b : Ty} (h : b.isDynOrError = true) :
    a.fits b = true := by
  cases b with
  | scalar s => cases s <;> first | exact fits_dyn_right a | cases h
  | error d => exact fits_error_right a d
  | _ => cases h

end Ty

namespace Bindings

section Tame

def Tame (m : Bindings) : Prop := Table.All (Ty.isTame · = true) m

theorem hereditary_isTame : Hereditary (Ty.isTame · = true) where
  list h := h
  optional h := h
  map h := Bool.and_eq_true_iff.1 h
  abstract h := Ty.isTameAll_iff.1 h
  function h := (Bool.and_eq_true_iff.1 h).imp_right Ty.isTameAll_iff.1

theorem Tame.resolve {unbound : String → Ty} (hunbound : ∀ p, (unbound p).isTame = true)
    (n : Nat) : ∀ {m : Bindings}, m.Tame → ∀ p, (m.resolve unbound n p).isTame = true := by
  induction n with
  | zero =>
    intro m _ p
    exact hunbound p
  | succ n ih =>
    intro m hm p
    rw [Bindings.resolve]
    split
    next t ht => exact Ty.isTame_replace (ih (Table.All.erase hm p)) t (hm p t ht)
    next => exact hunbound p

theorem Tame.substitute_param {m : Bindings} (hm : m.Tame) (p : String) :
    (m.substitute (.param p) false).isTame = true :=
  hm.resolve (fun _ => rfl) m.size p

theorem Tame.substitute {m : Bindings} (hm : m.Tame) {t : Ty} (ht : t.isTame = true) :
    (m.substitute t false).isTame = true :=
  Ty.isTame_replace hm.substitute_param t ht

structure Orderly (m : Bindings) : Prop where
  acyclic : m.Acyclic
  tame : m.Tame

theorem Matches.orderly {m m' : Bindings} {a b : Ty} (h : Matches m a b m') (hm : m.Orderly)
    (ha : a.isTame = true) (hb : b.isTame = true) : m'.Orderly :=
  ⟨h.acyclic hm.acyclic, h.all hereditary_isTame hm.tame ha hb⟩

theorem MatchesAll.orderly {m m' : Bindings} {as bs : List Ty} (h : MatchesAll m as bs m')
    (hm : m.Orderly) (has : ∀ a ∈ as, a.isTame = true) (hbs : ∀ b ∈ bs, b.isTame = true) :
    m'.Orderly :=
  ⟨h.acyclic hm.acyclic, h.all hereditary_isTame hm.tame has hbs⟩

end Tame

section Agreeing

/-- The two types go together under the bindings. -/
def Agree (m : Bindings) (a b : Ty) : Prop :=
  Ty.Compatible (m.substitute a false) (m.substitute b false)

def AgreeAll (m : Bindings) (as bs : List Ty) : Prop :=
  Ty.CompatibleAll (as.map (m.substitute · false)) (bs.map (m.substitute · false))

variable {m M : Bindings}

theorem Agree.symm {a b : Ty} (h : m.Agree a b) : m.Agree b a := Ty.Compatible.symm h

theorem Acyclic.agree_param (hm : m.Acyclic) {p : String} {bound : Ty}
    (hb : m.get? p = some bound) {t : Ty} : m.Agree t (.param p) ↔ m.Agree t bound := by
  unfold Agree
  rw [hm.substitute_param p false, hb]

/-- What becomes of a parameter under later bindings permits what becomes of it when the
earlier bindings are put in before. -/
theorem Widened.permits_param (h : m.Widened M) (hm : m.Orderly) (hM : M.Orderly) (p : String) :
    Ty.Permits (M.substitute (.param p) false)
      (M.substitute (m.substitute (.param p) false) false) := by
  -- along the numbering of the earlier bindings
  induction hr : m.reach p using Nat.strongRecOn generalizing p with
  | ind r ih =>
    rw [hm.acyclic.substitute_param p false]
    cases ht : m.get? p with
    | none => exact .refl _
    | some t =>
      obtain ⟨t', ht', hs⟩ := h p t ht
      rw [hM.acyclic.substitute_param p false, ht']
      have hwider : Ty.Permits (M.substitute t' false) (M.substitute t false) :=
        .of_subsumes _ t' t (hM.tame p t' ht') hs
      refine hwider.trans ?_
      unfold substitute
      rw [Ty.replace_replace]
      refine .replace t (hm.tame p t ht) fun q hq => ?_
      exact ih (m.reach q) (hr ▸ (hm.acyclic.ranked p t ht).2 q hq) q rfl

theorem Widened.permits (h : m.Widened M) (hm : m.Orderly) (hM : M.Orderly) {t : Ty}
    (ht : t.isTame = true) :
    Ty.Permits (M.substitute t false) (M.substitute (m.substitute t false) false) := by
  have hparam := h.permits_param hm hM
  unfold substitute at hparam ⊢
  rw [Ty.replace_replace]
  exact .replace t ht fun q _ => hparam q

theorem Agree.later (h : m.Widened M) (hm : m.Orderly) (hM : M.Orderly) {a b : Ty}
    (ha : a.isTame = true) (hb : b.isTame = true) (hab : m.Agree a b) : M.Agree a b := by
  have hput : Ty.Compatible (M.substitute (m.substitute a false) false)
      (M.substitute (m.substitute b false) false) :=
    Ty.Compatible.replace hM.tame.substitute_param hab
  have hleft := h.permits hm hM ha _ hput
  exact (h.permits hm hM hb _ hleft.symm).symm

theorem AgreeAll.later (h : m.Widened M) (hm : m.Orderly) (hM : M.Orderly) {as bs : List Ty}
    (has : ∀ a ∈ as, a.isTame = true) (hbs : ∀ b ∈ bs, b.isTame = true)
    (hab : m.AgreeAll as bs) : M.AgreeAll as bs := by
  induction as generalizing bs with
  | nil =>
    cases bs with
    | nil => exact .nil
    | cons b bs => cases hab
  | cons a as ih =>
    cases bs with
    | nil => cases hab
    | cons b bs =>
      obtain ⟨ha, has⟩ := List.forall_mem_cons.1 has
      obtain ⟨hb, hbs⟩ := List.forall_mem_cons.1 hbs
      cases hab with
      | cons hab habs => exact .cons (Agree.later h hm hM ha hb hab) (ih has hbs habs)

end Agreeing

section Matching

variable {step : Bindings → Ty → Ty → Except Stop Bindings} {m : Bindings}

/-- A matcher of two types, or of their parts, that only refuses types that do not go together
under the bindings. -/
structure Tolerant (step : Bindings → Ty → Ty → Except Stop Bindings) : Prop where
  sound : ∀ m a b m', step m a b = .ok m' → Matches m a b m'
  accepts : ∀ m a b, m.Orderly → a.isTame = true → b.isTame = true → m.Agree a b →
    step m a b ≠ .error .mismatch

theorem Tolerant.advance (hstep : Tolerant step) (hm : m.Orderly) {a b : Ty} {m₁ : Bindings}
    (ha : a.isTame = true) (hb : b.isTame = true) (h : step m a b = .ok m₁) :
    m.Widened m₁ ∧ m₁.Orderly :=
  have hmatch := hstep.sound m a b m₁ h
  ⟨hmatch.widened, hmatch.orderly hm ha hb⟩

theorem Tolerant.stop_ne (hstep : Tolerant step) (hm : m.Orderly) {a b : Ty} {stop : Stop}
    (ha : a.isTame = true) (hb : b.isTame = true) (h : m.Agree a b)
    (he : step m a b = .error stop) : (.error stop : Except Stop Bindings) ≠ .error .mismatch :=
  he ▸ hstep.accepts m a b hm ha hb h

/-- After a first match what goes together still does, so a second one is not refused either. -/
theorem Tolerant.then_ne (hstep : Tolerant step) (hm : m.Orderly) {a b : Ty}
    (ha : a.isTame = true) (hb : b.isTame = true) (h : m.Agree a b)
    {next : Bindings → Except Stop Bindings}
    (hnext : ∀ m₁ : Bindings, m.Widened m₁ → m₁.Orderly → next m₁ ≠ .error .mismatch) :
    (match step m a b with
      | .ok m₁ => next m₁
      | .error stop => .error stop) ≠ .error .mismatch := by
  cases he : step m a b with
  | error stop => exact hstep.stop_ne hm ha hb h he
  | ok m₁ =>
    obtain ⟨hwide, hm₁⟩ := hstep.advance hm ha hb he
    exact hnext m₁ hwide hm₁

theorem Tolerant.pairwise_ne (hstep : Tolerant step) {as bs : List Ty} (hm : m.Orderly)
    (has : ∀ a ∈ as, a.isTame = true) (hbs : ∀ b ∈ bs, b.isTame = true)
    (h : m.AgreeAll as bs) : pairwise step m as bs ≠ .error .mismatch := by
  induction as generalizing m bs with
  | nil =>
    cases bs with
    | nil => simp [pairwise]
    | cons b bs => cases h
  | cons a as ih =>
    cases bs with
    | nil => cases h
    | cons b bs =>
      obtain ⟨ha, has⟩ := List.forall_mem_cons.1 has
      obtain ⟨hb, hbs⟩ := List.forall_mem_cons.1 hbs
      cases h with
      | cons hab habs =>
        exact hstep.then_ne hm ha hb hab fun m₁ hwide hm₁ =>
          ih hm₁ has hbs (AgreeAll.later hwide hm hm₁ has hbs habs)

theorem paramNames_eq_nil_of_compatible {f : String → Ty} {t : Ty} {p : String}
    (ht : ∀ q, t ≠ .param q) (h : Ty.Compatible (t.replace f) (.param p)) :
    t.paramNames = [] := by
  generalize hu : t.replace f = u at h
  cases h with
  | param => exact absurd hu (Ty.replace_ne_param ht p)
  | atomic _ hp => cases hp
  | wild_right hp => cases hp
  | wild_left hw =>
    subst hu
    have hself := Ty.replace_eq_self_of_isDynOrError ht hw
    rw [hself] at hw
    cases t with
    | scalar s => rfl
    | error d => rfl
    | _ => cases hw

/-- A type that goes together with a parameter is taken for it, unless it is a parameter that
leads there already. -/
theorem Tolerant.bindParam_cases (hstep : Tolerant step) (hm : m.Orderly) {t : Ty} {p : String}
    (ht : t.isTame = true) (h : m.Agree t (.param p)) :
    (∃ m', m.bindParam step t p = .ok (some m')) ∨ m.bindParam step t p = .error .outOfFuel ∨
      m.bindParam step t p = .ok none ∧ m.get? p = none ∧
        ∃ q u, t = .param q ∧ m.get? q = some u := by
  unfold bindParam
  split
  next => exact .inl ⟨m, rfl⟩
  next hne =>
    split
    next bound hb =>
      split
      next => exact .inl ⟨m, rfl⟩
      next =>
        have hagree : m.Agree t bound := (hm.acyclic.agree_param hb).1 h
        cases hs : step m t bound with
        | error e =>
          cases e with
          | mismatch => exact absurd hs (hstep.accepts m t bound hm ht (hm.tame p bound hb) hagree)
          | outOfFuel => exact .inr (.inl rfl)
        | ok m₁ =>
          have hm₁ : m₁.Acyclic := (hstep.sound m t bound m₁ hs).acyclic hm.acyclic
          obtain ⟨circular, hc, _⟩ := hm₁.occurs_eq_ok p (t.mostGeneral bound)
          simp only [bind, Except.bind, hc]
          exact .inl ⟨_, rfl⟩
    next hb =>
      obtain ⟨circular, hc, hleads⟩ := hm.acyclic.occurs_eq_ok p t
      simp only [bind, Except.bind, hc]
      cases circular with
      | false => exact .inl ⟨_, rfl⟩
      | true =>
        refine .inr (.inr ⟨rfl, hb, ?_⟩)
        obtain ⟨q, hq, hlead⟩ := hleads.1 rfl
        by_cases hparam : ∃ q', t = .param q'
        · obtain ⟨q', rfl⟩ := hparam
          cases List.mem_singleton.1 hq
          rcases leads_iff.1 hlead with rfl | ⟨r, ⟨u, hu, _⟩, _⟩
          · simp at hne
          · exact ⟨q, u, rfl, hu⟩
        · unfold Agree at h
          rw [hm.acyclic.substitute_param p false, hb] at h
          have hnone := paramNames_eq_nil_of_compatible (fun q' he => hparam ⟨q', he⟩) h
          rw [hnone] at hq
          cases hq

theorem Tolerant.assignParts_ne (hstep : Tolerant step) (hm : m.Orderly) {a b : Ty}
    (ha : a.isTame = true) (hb : b.isTame = true) (hap : ∀ p, a ≠ .param p)
    (hbp : ∀ q, b ≠ .param q) (h : m.Agree a b) :
    m.assignParts step a b ≠ .error .mismatch := by
  have hfits (hf : a.fits b = true) : m.assignParts step a b ≠ .error .mismatch := by
    rw [assignParts_of_fits hf]
    simp
  unfold Agree substitute at h
  generalize hA : a.replace _ = A at h
  generalize hB : b.replace _ = B at h
  cases h with
  | param p => exact absurd hA (Ty.replace_ne_param hap p)
  | atomic hpa hpb hf _ =>
    subst hA hB
    rw [Ty.replace_eq_self_of_isAtomic hap ha hpa, Ty.replace_eq_self_of_isAtomic hbp hb hpb] at hf
    exact hfits hf
  | wild_left hw =>
    subst hA
    rw [Ty.replace_eq_self_of_isDynOrError hap hw] at hw
    exact hfits (Ty.fits_of_isDynOrError_left hw)
  | wild_right hw =>
    subst hB
    rw [Ty.replace_eq_self_of_isDynOrError hbp hw] at hw
    exact hfits (Ty.fits_of_isDynOrError_right hw)
  | null_abstract n ps =>
    cases Ty.replace_eq_scalar hap hA
    obtain ⟨bs, rfl, _⟩ := Ty.replace_eq_abstract hbp hB
    exact hfits rfl
  | abstract_null n ps =>
    obtain ⟨as, rfl, _⟩ := Ty.replace_eq_abstract hap hA
    cases Ty.replace_eq_scalar hbp hB
    exact hfits rfl
  | list h =>
    obtain ⟨a, rfl, rfl⟩ := Ty.replace_eq_list hap hA
    obtain ⟨b, rfl, rfl⟩ := Ty.replace_eq_list hbp hB
    exact hstep.accepts m a b hm ha hb h
  | optional h =>
    obtain ⟨a, rfl, rfl⟩ := Ty.replace_eq_optional hap hA
    obtain ⟨b, rfl, rfl⟩ := Ty.replace_eq_optional hbp hB
    exact hstep.accepts m a b hm ha hb h
  | map hk hv =>
    obtain ⟨k, v, rfl, rfl, rfl⟩ := Ty.replace_eq_map hap hA
    obtain ⟨k', v', rfl, rfl, rfl⟩ := Ty.replace_eq_map hbp hB
    obtain ⟨hak, hav⟩ := hereditary_isTame.map ha
    obtain ⟨hbk, hbv⟩ := hereditary_isTame.map hb
    exact hstep.then_ne hm hak hbk hk fun m₁ hwide hm₁ =>
      hstep.accepts m₁ v v' hm₁ hav hbv (Agree.later hwide hm hm₁ hav hbv hv)
  | abstract h =>
    obtain ⟨as, rfl, rfl⟩ := Ty.replace_eq_abstract hap hA
    obtain ⟨bs, rfl, rfl⟩ := Ty.replace_eq_abstract hbp hB
    simp only [assignParts, if_true]
    apply hstep.pairwise_ne hm (hereditary_isTame.abstract ha) (hereditary_isTame.abstract hb)
    rwa [Ty.replaceAll_eq_map, Ty.replaceAll_eq_map] at h
  | function hr h =>
    obtain ⟨r, as, rfl, rfl, rfl⟩ := Ty.replace_eq_function hap hA
    obtain ⟨r', bs, rfl, rfl, rfl⟩ := Ty.replace_eq_function hbp hB
    obtain ⟨har, has⟩ := hereditary_isTame.function ha
    obtain ⟨hbr, hbs⟩ := hereditary_isTame.function hb
    rw [Ty.replaceAll_eq_map, Ty.replaceAll_eq_map] at h
    exact hstep.then_ne hm har hbr hr fun m₁ hwide hm₁ =>
      hstep.pairwise_ne hm₁ has hbs (AgreeAll.later hwide hm hm₁ has hbs h)

theorem Tolerant.assignLeft_ne (hstep : Tolerant step) (hm : m.Orderly) {a b : Ty}
    (ha : a.isTame = true) (hb : b.isTame = true)
    (hbound : ∀ q, b = .param q → (∃ p, a = .param p) ∧ m.get? q = none) (h : m.Agree a b) :
    m.assignLeft step a b ≠ .error .mismatch := by
  by_cases hap : ∃ p, a = .param p
  · obtain ⟨p, rfl⟩ := hap
    simp only [assignLeft]
    rcases hstep.bindParam_cases hm hb h.symm with ⟨m', he⟩ | he | ⟨_, _, q, u, rfl, hq⟩
    · simp [he]
    · simp [he]
    · rw [(hbound q rfl).2] at hq
      cases hq
  · have hap : ∀ p, a ≠ .param p := fun p he => hap ⟨p, he⟩
    have hbp : ∀ q, b ≠ .param q := by
      rintro q rfl
      obtain ⟨p, he⟩ := (hbound q rfl).1
      exact hap p he
    have hparts := hstep.assignParts_ne hm ha hb hap hbp h
    cases a with
    | param p => exact absurd rfl (hap p)
    | _ => exact hparts

/-- Types that go together under the bindings match, if the fuel lasts. -/
theorem tolerant_assign (n : Nat) : Tolerant (assign n) where
  sound m a b m' := Matches.of_assign n m a b m'
  accepts := by
    induction n with
    | zero => simp [assign]
    | succ n ih =>
      intro m a b hm ha hb h
      have hstep : Tolerant (assign n) := ⟨fun m a b m' => Matches.of_assign n m a b m', ih⟩
      by_cases hbp : ∃ q, b = .param q
      · obtain ⟨q, rfl⟩ := hbp
        rw [assign_param]
        rcases hstep.bindParam_cases hm ha h with ⟨m', he⟩ | he | ⟨he, hq, p, _, rfl, _⟩
        · simp [he]
        · simp [he]
        · simp only [he]
          apply hstep.assignLeft_ne hm ha hb _ h
          rintro _ ⟨⟩
          exact ⟨⟨p, rfl⟩, hq⟩
      · rw [assign_of_ne_param n m a fun q he => hbp ⟨q, he⟩]
        exact hstep.assignLeft_ne hm ha hb (fun q he => absurd ⟨q, he⟩ hbp) h

theorem Agree.assignable {a b : Ty} (hm : m.Orderly) (ha : a.isTame = true)
    (hb : b.isTame = true) (h : m.Agree a b) : (m.assignable? a b).isSome = true := by
  have hmatch := (tolerant_assign (m.fuel (a.size + b.size))).accepts m a b hm ha hb h
  have hfuel := hm.acyclic.assign_fuel_ne a b
  unfold assignable?
  cases hs : assign (m.fuel (a.size + b.size)) m a b with
  | ok m' => rfl
  | error stop =>
    cases stop with
    | mismatch => exact absurd hs hmatch
    | outOfFuel => exact absurd hs hfuel

end Matching

end Bindings

end CelTyping
