import CelTyping.Proofs.Absorption
import CelTyping.Proofs.Hygiene

/-! What an instance of a signature is bound to by arguments without parameters. A match is the
same under other names, as long as different parameters get different ones, and it binds to types
without parameters only. So it does not look at anything that was bound before, and an overload
takes or refuses such arguments by its signature alone, no matter what else has been tried. -/
namespace CelTyping

abbrev Ty.rename (ρ : String → String) (t : Ty) : Ty := t.replace fun p => .param (ρ p)

section Closed

mutual

@[simp] theorem Ty.replace_param (t : Ty) : t.replace .param = t := by
  cases t with
  | list t => exact congrArg Ty.list (Ty.replace_param t)
  | wrapper t => exact congrArg Ty.wrapper (Ty.replace_param t)
  | type t => exact congrArg Ty.type (Ty.replace_param t)
  | optional t => exact congrArg Ty.optional (Ty.replace_param t)
  | map k v => simp only [Ty.replace, Ty.replace_param k, Ty.replace_param v]
  | abstract n ps => simp only [Ty.replace, Ty.replaceAll_param ps]
  | function r ps => simp only [Ty.replace, Ty.replace_param r, Ty.replaceAll_param ps]
  | param p | scalar _ | message _ | error _ => rfl

@[simp] theorem Ty.replaceAll_param (ts : List Ty) : Ty.replaceAll .param ts = ts := by
  cases ts with
  | nil => rfl
  | cons t ts => simp only [Ty.replaceAll, Ty.replace_param t, Ty.replaceAll_param ts]

end

theorem Ty.replace_of_closed {t : Ty} (h : t.paramNames = []) (f : String → Ty) :
    t.replace f = t := by
  rw [Ty.replace_congr t (g := .param) (by simp [h]), Ty.replace_param]

theorem Ty.mostGeneral_closed {a b : Ty} (ha : a.paramNames = []) (hb : b.paramNames = []) :
    (a.mostGeneral b).paramNames = [] :=
  Ty.mostGeneral_of (P := fun t => t.paramNames = []) ha hb

end Closed

section Comparing

variable (ρ : String → String)

mutual

@[simp] theorem Ty.accepts_rename (b a : Ty) : (b.rename ρ).accepts a = b.accepts a := by
  cases b with
  | scalar s | message n | error d => rfl
  | param p => cases a <;> rfl
  | wrapper t =>
    cases a with
    | scalar s => cases s <;> simp [Ty.replace, Ty.accepts, Ty.accepts_rename t]
    | _ => simp [Ty.replace, Ty.accepts, Ty.accepts_rename t]
  | list t | type t | optional t =>
    cases a <;> simp [Ty.replace, Ty.accepts, Ty.accepts_rename t]
  | map k v => cases a <;> simp [Ty.replace, Ty.accepts, Ty.accepts_rename k, Ty.accepts_rename v]
  | abstract n ps => cases a <;> simp [Ty.replace, Ty.accepts, Ty.acceptsAll_rename ps]
  | function r ps =>
    cases a <;> simp [Ty.replace, Ty.accepts, Ty.accepts_rename r, Ty.acceptsAll_rename ps]

@[simp] theorem Ty.acceptsAll_rename (bs as : List Ty) :
    Ty.acceptsAll (Ty.replaceAll (fun p => .param (ρ p)) bs) as = Ty.acceptsAll bs as := by
  cases bs with
  | nil => rfl
  | cons b bs =>
    cases as with
    | nil => rfl
    | cons a as =>
      simp only [Ty.replaceAll, Ty.acceptsAll, Ty.accepts_rename b, Ty.acceptsAll_rename bs]

end

@[simp] theorem Ty.fits_rename (a b : Ty) : a.fits (b.rename ρ) = a.fits b := by
  have haccepts (a : Ty) := Ty.accepts_rename ρ b a
  cases b with
  | scalar s | message n | error d => rfl
  | _ =>
    cases a with
    | scalar s => cases s <;> simp_all [Ty.fits, Ty.replace, Ty.isNullable]
    | _ => simp_all [Ty.fits, Ty.replace]

end Comparing

namespace Bindings

section Closed

variable {m : Bindings} {a bound : Ty} {p : String}

theorem assign_of_unbound (n : Nat) (ha : a.paramNames = []) (hget : m.get? p = none) :
    assign (n + 1) m a (.param p) = .ok (m.insert p a) := by
  rw [assign_param, bindParam_of_unbound ha hget]

theorem assign_of_exact (n : Nat) (ha : a.paramNames = []) (hget : m.get? p = some bound)
    (hexact : a.exact bound = true) : assign (n + 1) m a (.param p) = .ok m := by
  rw [assign_param, bindParam_of_exact ha hget hexact]

theorem assign_of_bound (n : Nat) (ha : a.paramNames = []) (hget : m.get? p = some bound)
    (hbound : bound.paramNames = []) (hexact : a.exact bound = false) :
    assign (n + 1) m a (.param p) =
      assign n m a bound >>= fun m' => .ok (m'.insert p (a.mostGeneral bound)) := by
  have hclosed := Ty.mostGeneral_closed ha hbound
  rw [assign_param, bindParam_of_not_exact ha hget hexact]
  cases assign n m a bound with
  | error e => rfl
  | ok m' =>
    simp only [bind, Except.bind, occurs_of_closed hclosed]
    rfl

end Closed

section Mirroring

/-- The first bindings, under the names that `ρ` gives to the parameters in `S`, have been added
to `old`. -/
structure Mirrors (S : Set String) (ρ : String → String) (old σ m : Bindings) : Prop where
  get? : ∀ p ∈ S, m.get? (ρ p) = σ.get? p
  rest : ∀ q, q ∉ Set.image ρ S → m.get? q = old.get? q
  closed : ∀ p t, σ.get? p = some t → t.paramNames = []

inductive Tracks (R : Bindings → Bindings → Prop) :
    Except Stop Bindings → Except Stop Bindings → Prop where
  | ok {σ m : Bindings} : R σ m → Tracks R (.ok σ) (.ok m)
  | error (e : Stop) : Tracks R (.error e) (.error e)

theorem Tracks.bind {R : Bindings → Bindings → Prop} {x y : Except Stop Bindings}
    {f g : Bindings → Except Stop Bindings} (h : Tracks R x y)
    (hfg : ∀ σ m, R σ m → Tracks R (f σ) (g m)) : Tracks R (x >>= f) (y >>= g) := by
  cases h with
  | ok h => exact hfg _ _ h
  | error e => exact .error e

variable {S : Set String} {ρ : String → String} {old σ m : Bindings}

theorem Mirrors.insert (hinj : S.InjOn ρ) (h : Mirrors S ρ old σ m) {p : String} (hp : p ∈ S)
    {t : Ty} (ht : t.paramNames = []) :
    Mirrors S ρ old (Table.insert σ p t) (Table.insert m (ρ p) t) where
  get? q hq := by
    by_cases hqp : q = p
    · rw [hqp, Table.get?_insert_self, Table.get?_insert_self]
    · rw [Table.get?_insert_of_ne _ _ hqp, Table.get?_insert_of_ne, h.get? q hq]
      exact fun heq => hqp (hinj hq hp heq)
  rest q hq := by
    rw [Table.get?_insert_of_ne, h.rest q hq]
    rintro rfl
    exact hq ⟨p, hp, rfl⟩
  closed q u hu := by
    by_cases hqp : q = p
    · rw [hqp, Table.get?_insert_self] at hu
      cases hu
      exact ht
    · rw [Table.get?_insert_of_ne _ _ hqp] at hu
      exact h.closed q u hu

/-- A step does the same under other names, if the first type has none. -/
def Renames (S : Set String) (ρ : String → String) (old : Bindings)
    (step : Bindings → Ty → Ty → Except Stop Bindings) : Prop :=
  ∀ ⦃σ m : Bindings⦄ ⦃a b : Ty⦄, Mirrors S ρ old σ m → a.paramNames = [] →
    (∀ p ∈ b.paramNames, p ∈ S) → Tracks (Mirrors S ρ old) (step σ a b) (step m a (b.rename ρ))

@[simp] theorem pairwise_cons (step : Bindings → Ty → Ty → Except Stop Bindings) (m : Bindings)
    (a b : Ty) (as bs : List Ty) :
    pairwise step m (a :: as) (b :: bs) = step m a b >>= (pairwise step · as bs) := by
  rw [pairwise]
  cases step m a b <;> rfl

section Steps

variable {step : Bindings → Ty → Ty → Except Stop Bindings} (hstep : Renames S ρ old step)
include hstep

theorem Renames.pairwise (as bs : List Ty) :
    ∀ {σ m : Bindings}, Mirrors S ρ old σ m → Ty.paramNamesAll as = [] →
      (∀ p ∈ Ty.paramNamesAll bs, p ∈ S) →
      Tracks (Mirrors S ρ old) (pairwise step σ as bs)
        (pairwise step m as (Ty.replaceAll (fun p => .param (ρ p)) bs)) := by
  induction as generalizing bs with
  | nil =>
    intro σ m h _ _
    cases bs with
    | nil => exact .ok h
    | cons b bs => exact .error .mismatch
  | cons a as ih =>
    intro σ m h has hbs
    cases bs with
    | nil => exact .error .mismatch
    | cons b bs =>
      have has := List.append_eq_nil_iff.1 has
      have hbs := List.forall_mem_append.1 hbs
      rw [Ty.replaceAll, pairwise_cons, pairwise_cons]
      exact (hstep h has.1 hbs.1).bind fun σ' m' h' => ih bs h' has.2 hbs.2

theorem Renames.assignInside {a b : Ty} (h : Mirrors S ρ old σ m) (ha : a.paramNames = [])
    (hb : ∀ p ∈ b.paramNames, p ∈ S) (hparam : ∀ q, b ≠ .param q) :
    Tracks (Mirrors S ρ old) (σ.assignInside step a b) (m.assignInside step a (b.rename ρ)) := by
  cases b with
  | param q => exact absurd rfl (hparam q)
  | list b =>
    cases a with
    | list a => exact hstep h ha hb
    | _ => exact .error .mismatch
  | optional b =>
    cases a with
    | optional a => exact hstep h ha hb
    | _ => exact .error .mismatch
  | map k' v' =>
    cases a with
    | map k v =>
      have ha := List.append_eq_nil_iff.1 ha
      have hb := List.forall_mem_append.1 hb
      exact (hstep h ha.1 hb.1).bind fun σ' m' h' => hstep h' ha.2 hb.2
    | _ => exact .error .mismatch
  | abstract n' bs =>
    cases a with
    | abstract n as =>
      simp only [Ty.replace, Bindings.assignInside]
      split
      next => exact hstep.pairwise as bs h ha hb
      next => exact .error .mismatch
    | _ => exact .error .mismatch
  | function r' bs =>
    cases a with
    | function r as =>
      have ha := List.append_eq_nil_iff.1 ha
      have hb := List.forall_mem_append.1 hb
      exact (hstep h ha.1 hb.1).bind fun σ' m' h' => hstep.pairwise as bs h' ha.2 hb.2
    | _ => exact .error .mismatch
  | _ => cases a <;> exact .error .mismatch

end Steps

theorem renames_assign (hinj : S.InjOn ρ) (n : Nat) : Renames S ρ old (assign n) := by
  -- The induction is on the fuel. A parameter that is bound already is matched by what it is
  -- bound to, which is the same on both sides.
  induction n with
  | zero =>
    intro σ m a b _ _ _
    exact .error .outOfFuel
  | succ n ih =>
    intro σ m a b h ha hb
    by_cases hparam : ∃ p, b = .param p
    · obtain ⟨p, rfl⟩ := hparam
      have hp : p ∈ S := hb p (List.mem_singleton_self p)
      have hget := h.get? p hp
      rw [Ty.rename, Ty.replace]
      cases hσ : σ.get? p with
      | none =>
        rw [assign_of_unbound n ha hσ, assign_of_unbound n ha (hget.trans hσ)]
        exact .ok (h.insert hinj hp ha)
      | some bound =>
        have hbound := h.closed p bound hσ
        cases hexact : a.exact bound with
        | true =>
          rw [assign_of_exact n ha hσ hexact, assign_of_exact n ha (hget.trans hσ) hexact]
          exact .ok h
        | false =>
          have hwide := Ty.mostGeneral_closed ha hbound
          have hfollow : Tracks (Mirrors S ρ old) (assign n σ a bound) (assign n m a bound) := by
            have hfollow := ih h ha (b := bound) (by simp [hbound])
            rwa [Ty.rename, Ty.replace_of_closed hbound] at hfollow
          rw [assign_of_bound n ha hσ hbound hexact,
            assign_of_bound n ha (hget.trans hσ) hbound hexact]
          exact hfollow.bind fun σ' m' h' => .ok (h'.insert hinj hp hwide)
    · have hb' : ∀ q, b ≠ .param q := fun q hq => hparam ⟨q, hq⟩
      have hrename : ∀ q, b.rename ρ ≠ .param q := by
        intro q
        cases b with
        | param p => exact absurd rfl (hb' p)
        | _ => nofun
      have ha' := Ty.ne_param_of_closed ha
      rw [assign_succ_of_ne_param ha' hb', assign_succ_of_ne_param ha' hrename, Ty.fits_rename]
      split
      next => exact .ok h
      next => exact ih.assignInside h ha hb hb'

theorem mirrors_empty (hfree : ∀ p ∈ S, old.get? (ρ p) = none) : Mirrors S ρ old ∅ old where
  get? p hp := (hfree p hp).trans (Table.get?_empty p).symm
  rest _ _ := rfl
  closed p t ht := by simp at ht

theorem Acyclic.assignableAll_rename (hm : m.Acyclic) (hinj : S.InjOn ρ)
    (hfree : ∀ p ∈ S, m.get? (ρ p) = none) {args params : List Ty}
    (hargs : Ty.paramNamesAll args = []) (hparams : ∀ p ∈ Ty.paramNamesAll params, p ∈ S) :
    Option.Rel (Mirrors S ρ m) ((∅ : Bindings).assignableAll? args params)
      (m.assignableAll? args (params.map (Ty.rename ρ))) := by
  -- The two matches have different fuel, and more than enough both.
  let n := max (fuel ∅ (Ty.sizeAll args + Ty.sizeAll params))
    (m.fuel (Ty.sizeAll args + Ty.sizeAll (params.map (Ty.rename ρ))))
  have h₁ := (acyclic_empty.terminating.assignAll args params).2 n (Nat.le_max_left _ _)
  have h₂ := (hm.terminating.assignAll args (params.map (Ty.rename ρ))).2 n (Nat.le_max_right _ _)
  have htracks := (renames_assign hinj n).pairwise args params (mirrors_empty hfree) hargs hparams
  rw [Ty.replaceAll_eq_map] at htracks
  simp only at h₁ h₂
  rw [assignableAll?, assignableAll?, ← h₁, ← h₂]
  generalize pairwise (assign n) ∅ args params = x at htracks ⊢
  generalize pairwise (assign n) m args (params.map (Ty.rename ρ)) = y at htracks ⊢
  cases htracks with
  | ok h => exact .some h
  | error e => exact .none

section Results

variable {t : Ty}

theorem Acyclic.substitute_of_closed (hm : m.Acyclic)
    (hclosed : ∀ p ∈ t.paramNames, ∀ u, m.get? p = some u → u.paramNames = []) (close : Bool) :
    m.substitute t close =
      t.replace fun p => (m.get? p).getD (if close then .dyn else .param p) := by
  refine Ty.replace_congr t fun p hp => (hm.substitute_param p close).trans ?_
  cases hget : m.get? p with
  | none => rfl
  | some u => exact Ty.replace_of_closed (hclosed p hp u hget) _

theorem Mirrors.substitute (h : Mirrors S ρ old σ m) (hσ : σ.Acyclic) (hm : m.Acyclic)
    (ht : ∀ p ∈ t.paramNames, p ∈ S) :
    m.substitute (t.rename ρ) false = (σ.substitute t false).rename ρ := by
  have hclosed : ∀ q ∈ (t.rename ρ).paramNames, ∀ u, m.get? q = some u → u.paramNames = [] := by
    intro q hq u hu
    rw [Ty.paramNames_rename] at hq
    obtain ⟨p, hp, rfl⟩ := List.mem_map.1 hq
    exact h.closed p u ((h.get? p (ht p hp)).symm.trans hu)
  rw [hm.substitute_of_closed hclosed, hσ.substitute_of_closed fun p _ => h.closed p,
    Ty.replace_replace, Ty.rename, Ty.replace_replace]
  refine Ty.replace_congr t fun p hp => ?_
  simp only [Ty.replace, h.get? p (ht p hp)]
  cases hget : σ.get? p with
  | none => rfl
  | some u => exact (Ty.replace_of_closed (h.closed p u hget) _).symm

theorem Acyclic.get?_of_mem_substitute (hm : m.Acyclic)
    (hclosed : ∀ p u, m.get? p = some u → u.paramNames = []) {q : String}
    (hq : q ∈ (m.substitute t false).paramNames) : q ∈ t.paramNames ∧ m.get? q = none := by
  rw [hm.substitute_of_closed fun p _ => hclosed p, Ty.paramNames_replace_eq] at hq
  obtain ⟨p, hp, hq⟩ := List.mem_flatMap.1 hq
  cases hget : m.get? p with
  | none =>
    rw [hget] at hq
    cases List.mem_singleton.1 hq
    exact ⟨hp, hget⟩
  | some u =>
    rw [hget, Option.getD_some, hclosed p u hget] at hq
    cases hq

end Results

end Mirroring

end Bindings

def Overload.resultFor? (o : Overload) (args : List Ty) : Option Ty :=
  ((∅ : Bindings).assignableAll? args o.params).map (·.substitute o.result false)

namespace Session

def VarsUnbound (s : Session) : Prop :=
  ∀ k, s.nextVar ≤ k → s.bindings.bindings.get? (varName k) = none

/-- `t` is `u` in terms of type variables with the numbers given, none of which is bound. -/
def Spells (m : Bindings) (first next : Nat) (u t : Ty) : Prop :=
  ∃ ρ, t = u.rename ρ ∧
    ∀ p ∈ u.paramNames, ∃ k, first ≤ k ∧ k < next ∧ ρ p = varName k ∧ m.get? (ρ p) = none

section Instances

variable {s : Session} {o : Overload} {args : List Ty}

theorem assignableAll_rel {R : Bindings → Bindings → Prop} {x : Option Bindings}
    {m : Substitution} {as bs : List Ty}
    (h : Option.Rel R x (m.bindings.assignableAll? as bs)) :
    Option.Rel (fun σ m' => R σ m'.bindings) x (m.assignableAll? as bs) := by
  rw [← m.bindings_assignableAll?] at h
  cases hm : m.assignableAll? as bs with
  | none =>
    rw [hm] at h
    cases h
    exact .none
  | some m' =>
    rw [hm] at h
    cases h with
    | some h => exact .some h

theorem instance_mirrors (hs : s.VarsUnbound) (ho : ∀ p, o.Uses p → Unnumbered p)
    (hargs : Ty.paramNamesAll args = []) :
    ∃ ρ : String → String,
      (∀ p, o.Uses p → ∃ k, s.nextVar ≤ k ∧ k < (s.instantiate o).2.nextVar ∧ ρ p = varName k) ∧
      (s.instantiate o).1 = o.rename ρ ∧
      Option.Rel (fun σ m => Bindings.Mirrors {p | o.Uses p} ρ s.bindings.bindings σ m.bindings)
        ((∅ : Bindings).assignableAll? args o.params)
        ((s.instantiate o).2.bindings.assignableAll? args (s.instantiate o).1.2) := by
  obtain ⟨hnext, index, hinj, hlt, heq⟩ := s.instantiate_spec ho
  refine ⟨fun p => varName (s.nextVar + index p), fun p hp => ?_, heq, assignableAll_rel ?_⟩
  · rw [hnext]
    exact ⟨_, Nat.le_add_right _ _, Nat.add_lt_add_left (hlt p hp) _, rfl⟩
  · rw [hnext, heq]
    refine s.bindings.acyclic.assignableAll_rename ?_ (fun p _ => hs _ (Nat.le_add_right _ _))
      hargs fun p hp => .inr (.inl hp)
    intro p hp q hq hpq
    exact hinj hp hq (Nat.add_left_cancel (varName_injective hpq))

variable (hs : s.VarsUnbound) (ho : ∀ p, o.Uses p → Unnumbered p)
  (hargs : Ty.paramNamesAll args = [])
include hs ho hargs

theorem instance_refused (h : o.resultFor? args = none) :
    (s.instantiate o).2.bindings.assignableAll? args (s.instantiate o).1.2 = none := by
  obtain ⟨ρ, -, -, hrel⟩ := instance_mirrors hs ho hargs
  rw [Option.map_eq_none_iff.1 h] at hrel
  generalize (s.instantiate o).2.bindings.assignableAll? args _ = x at hrel ⊢
  cases hrel
  rfl

theorem instance_taken {u : Ty} (h : o.resultFor? args = some u) :
    ∃ m : Substitution,
      (s.instantiate o).2.bindings.assignableAll? args (s.instantiate o).1.2 = some m ∧
      (∀ k, k < s.nextVar ∨ (s.instantiate o).2.nextVar ≤ k →
        m.bindings.get? (varName k) = s.bindings.bindings.get? (varName k)) ∧
      Spells m.bindings s.nextVar (s.instantiate o).2.nextVar u
        (m.substitute (s.instantiate o).1.1 false) := by
  obtain ⟨ρ, hρ, heq, hrel⟩ := instance_mirrors hs ho hargs
  obtain ⟨σ, hσ, rfl⟩ := Option.map_eq_some_iff.1 h
  rw [hσ] at hrel
  generalize (s.instantiate o).2.bindings.assignableAll? args _ = x at hrel ⊢
  cases hrel with
  | @some _ m hm =>
    have hacyclic := (Bindings.MatchesAll.of_assignableAll hσ).acyclic Bindings.acyclic_empty
    have hresult : ∀ p ∈ o.result.paramNames, o.Uses p := fun p hp => .inr (.inr hp)
    refine ⟨m, rfl, fun k hk => hm.rest _ ?_, ρ, ?_, fun p hp => ?_⟩
    · rintro ⟨p, hp, hpk⟩
      obtain ⟨j, hj, hj', heq⟩ := hρ p hp
      rw [varName_injective (heq.symm.trans hpk)] at hj hj'
      omega
    · rw [heq]
      exact hm.substitute hacyclic m.acyclic hresult
    · obtain ⟨hp, hget⟩ := hacyclic.get?_of_mem_substitute hm.closed hp
      obtain ⟨k, hk, hk', heq⟩ := hρ p (hresult p hp)
      exact ⟨k, hk, hk', heq, (hm.get? p (hresult p hp)).trans hget⟩

end Instances

end Session

end CelTyping
