import CelTyping.Proofs.Symmetry
import CelTyping.Proofs.Termination

/-! What matches every type. `dyn` and the types of mistakes stand for a type that is not known,
on either side of a match. A parameter may be bound already when it meets one of them, through a
chain of bindings even; the match then goes on along the chain and still cannot fail. `dyn` is
above all types, so a parameter that has met it is bound to it from then on. -/
namespace CelTyping

namespace Ty

variable {w : Ty}

theorem paramNames_of_isDynOrError (hw : w.isDynOrError = true) : w.paramNames = [] := by
  cases w with
  | scalar s => rfl
  | error d => rfl
  | _ => cases hw

theorem not_exact_param_of_closed {t : Ty} (h : t.paramNames = []) (p : String) :
    t.exact (.param p) = false :=
  Bool.eq_false_iff.2 fun hexact => ne_param_of_closed h p (exact_param.1 hexact)

theorem eq_dyn_of_exact {t : Ty} (h : Ty.dyn.exact t = true) : t = .dyn := by
  cases t <;> simp_all [Ty.exact]

@[simp] theorem mostGeneral_dyn (t : Ty) : Ty.dyn.mostGeneral t = .dyn := by
  simp [mostGeneral, subsumes]

end Ty

namespace Bindings

variable {step : Bindings → Ty → Ty → Except Stop Bindings} {m m' : Bindings} {w : Ty}

theorem occurs_of_closed {t : Ty} (h : t.paramNames = []) (m : Bindings) (p : String) :
    m.occurs p t = .ok false := by
  simp only [occurs, h]
  rfl

section Closed

variable {t bound : Ty} {p : String}

theorem bindParam_of_unbound (h : t.paramNames = []) (hget : m.get? p = none) :
    m.bindParam step t p = .ok (some (m.insert p t)) := by
  simp [bindParam, Ty.not_exact_param_of_closed h, hget, occurs_of_closed h]

theorem bindParam_of_exact (h : t.paramNames = []) (hget : m.get? p = some bound)
    (hexact : t.exact bound = true) : m.bindParam step t p = .ok (some m) := by
  simp [bindParam, Ty.not_exact_param_of_closed h, hget, hexact]

theorem bindParam_of_not_exact (h : t.paramNames = []) (hget : m.get? p = some bound)
    (hexact : t.exact bound = false) :
    m.bindParam step t p = step m t bound >>= fun m' =>
      m'.occurs p (t.mostGeneral bound) >>= fun circular =>
        .ok (some (if circular then m' else m'.insert p (t.mostGeneral bound))) := by
  simp only [bindParam, Ty.not_exact_param_of_closed h, hget, hexact, Bool.false_eq_true, if_false]
  rfl

end Closed

theorem bindParam_eq_ok {t : Ty} (h : t.paramNames = []) (p : String)
    (hstep : ∀ bound, m.get? p = some bound → ∃ m', step m t bound = .ok m' ∧ m'.Acyclic) :
    ∃ m', m.bindParam step t p = .ok (some m') := by
  cases hget : m.get? p with
  | none => exact ⟨_, bindParam_of_unbound h hget⟩
  | some bound =>
    cases hexact : t.exact bound with
    | true => exact ⟨_, bindParam_of_exact h hget hexact⟩
    | false =>
      obtain ⟨m', hm', hacyclic⟩ := hstep bound hget
      obtain ⟨circular, hcircular, _⟩ := hacyclic.occurs_eq_ok p (t.mostGeneral bound)
      rw [bindParam_of_not_exact h hget hexact, hm']
      simp only [bind, Except.bind, hcircular]
      exact ⟨_, rfl⟩

theorem bindParam_dyn {p : String} {r : Option Bindings} (h : m.bindParam step .dyn p = .ok r) :
    ∃ m', r = some m' ∧ m'.get? p = some .dyn := by
  cases hget : m.get? p with
  | none =>
    rw [bindParam_of_unbound rfl hget] at h
    cases h
    exact ⟨_, rfl, Table.get?_insert_self ..⟩
  | some bound =>
    cases hexact : Ty.dyn.exact bound with
    | true =>
      rw [bindParam_of_exact rfl hget hexact] at h
      cases h
      exact ⟨m, rfl, by rw [hget, Ty.eq_dyn_of_exact hexact]⟩
    | false =>
      rw [bindParam_of_not_exact rfl hget hexact, Ty.mostGeneral_dyn] at h
      cases hs : step m .dyn bound with
      | error e =>
        rw [hs] at h
        cases h
      | ok m₁ =>
        simp only [hs, bind, Except.bind, occurs_of_closed (t := .dyn) rfl] at h
        cases h
        exact ⟨_, rfl, Table.get?_insert_self ..⟩

theorem get?_of_assign_dyn {n : Nat} {p : String}
    (h : assign n m .dyn (.param p) = .ok m' ∨ assign n m (.param p) .dyn = .ok m') :
    m'.get? p = some .dyn := by
  cases n with
  | zero => rcases h with h | h <;> cases h
  | succ n =>
    rw [assign_param, assign_of_ne_param n m _ (b := .dyn) nofun, assignLeft] at h
    cases hbind : m.bindParam (assign n) .dyn p with
    | error e => simp [hbind] at h
    | ok r =>
      obtain ⟨m₁, rfl, hget⟩ := bindParam_dyn hbind
      simp only [hbind, or_self] at h
      cases h
      exact hget

section Absorbing

variable (hm : m.Acyclic)
include hm

theorem Acyclic.assign_absorbs (hw : w.isDynOrError = true) (n : Nat) :
    ∀ t : Ty, 0 < n → (∀ p ∈ t.paramNames, m.reach p < n) →
      (∃ m', assign n m w t = .ok m') ∧ ∃ m', assign n m t w = .ok m' := by
  -- The induction is on the fuel, of which each link in a chain of bindings takes one.
  have hclosed := Ty.paramNames_of_isDynOrError hw
  have hparam := Ty.ne_param_of_closed hclosed
  induction n with
  | zero =>
    intro t hpos
    exact absurd hpos (Nat.lt_irrefl 0)
  | succ n ih =>
    intro t _ hreach
    by_cases ht : ∃ p, t = .param p
    · obtain ⟨p, rfl⟩ := ht
      have hstep : ∀ bound, m.get? p = some bound →
          ∃ m', assign n m w bound = .ok m' ∧ m'.Acyclic := by
        intro bound hget
        have hp := hreach p (List.mem_singleton_self p)
        obtain ⟨hpos, hfalls⟩ := hm.ranked p bound hget
        obtain ⟨⟨m', hm'⟩, -⟩ := ih bound (by omega) fun q hq => by
          have hq := hfalls q hq
          omega
        exact ⟨m', hm', (Matches.of_assign n _ _ _ _ hm').acyclic hm⟩
      obtain ⟨m', hm'⟩ := bindParam_eq_ok hclosed p hstep
      refine ⟨⟨m', ?_⟩, m', ?_⟩
      · rw [assign_param, hm']
      · rw [assign_of_ne_param n m _ hparam, assignLeft, hm']
    · have ht : ∀ p, t ≠ .param p := fun p hp => ht ⟨p, hp⟩
      refine ⟨⟨m, ?_⟩, m, ?_⟩
      · rw [assign_succ_of_ne_param hparam ht, Ty.fits_of_isDynOrError_left hw, if_pos rfl]
      · rw [assign_succ_of_ne_param ht hparam, Ty.fits_of_isDynOrError_right hw, if_pos rfl]

theorem Acyclic.assignable_absorbs (hw : w.isDynOrError = true) (t : Ty) :
    (m.assignable? w t).isSome = true ∧ (m.assignable? t w).isSome = true := by
  have hfuel (size : Nat) : 0 < m.fuel size ∧ ∀ p ∈ t.paramNames, m.reach p < m.fuel size := by
    have hlt := m.weight_add_lt_fuel size
    have hsize := m.size_add_mentioned_le
    refine ⟨by omega, fun p _ => ?_⟩
    have hreach := m.reach_le_size p
    omega
  obtain ⟨⟨m₁, h₁⟩, -⟩ := hm.assign_absorbs hw _ t (hfuel _).1 (hfuel _).2
  obtain ⟨-, m₂, h₂⟩ := hm.assign_absorbs hw _ t (hfuel _).1 (hfuel _).2
  rw [assignable?, assignable?, h₁, h₂]
  exact ⟨rfl, rfl⟩

theorem Acyclic.substitute_of_get?_dyn {p : String} (h : m.get? p = some .dyn) :
    m.substitute (.param p) false = .dyn := by
  rw [hm.substitute_param, h]
  rfl

end Absorbing

end Bindings

/-- `dyn` and the types of mistakes match every type, in both positions and whatever is bound.
A parameter that has met `dyn` stands for it afterwards. -/
theorem dyn_and_errors_absorb {m : Bindings} (hm : m.Acyclic) (t : Ty) :
    ((m.assignable? .dyn t).isSome = true ∧ (m.assignable? t .dyn).isSome = true) ∧
    (∀ d : Diagnostic,
      (m.assignable? (.error d) t).isSome = true ∧ (m.assignable? t (.error d)).isSome = true) ∧
    ∀ p, t = .param p → ∀ m' : Bindings,
      m.assignable? .dyn t = some m' ∨ m.assignable? t .dyn = some m' →
        m'.substitute t false = .dyn := by
  refine ⟨hm.assignable_absorbs rfl t, fun d => hm.assignable_absorbs rfl t, ?_⟩
  rintro p rfl m' (h | h)
  · exact ((Bindings.Matches.of_assignable h).acyclic hm).substitute_of_get?_dyn
      (Bindings.get?_of_assign_dyn (.inl (Bindings.eq_ok_of_toOption h)))
  · exact ((Bindings.Matches.of_assignable h).acyclic hm).substitute_of_get?_dyn
      (Bindings.get?_of_assign_dyn (.inr (Bindings.eq_ok_of_toOption h)))

theorem dyn_and_errors_absorb_chain :
    ∃ m m' : Bindings, m.Acyclic ∧ m.substitute (.param "T") false = .list .int ∧
      (∀ d : Diagnostic, (m.assignable? (.error d) (.param "T")).isSome = true) ∧
      m.assignable? (.param "T") .dyn = some m' ∧ m'.substitute (.param "T") false = .dyn := by
  let m : Bindings := Table.insert (Table.insert ∅ "U" (.list .int)) "T" (.param "U")
  have hm : m.Acyclic := by
    have hU : Bindings.Acyclic (Table.insert ∅ "U" (.list .int)) :=
      Bindings.acyclic_empty.insert nofun
    refine hU.insert fun q hq => hU.not_leads_of_occurs ?_ q hq
    decide
  obtain ⟨⟨_, hdyn⟩, herror, hsubst⟩ := dyn_and_errors_absorb hm (.param "T")
  obtain ⟨m', hm'⟩ := Option.isSome_iff_exists.1 hdyn
  exact ⟨m, m', hm, rfl, fun d => (herror d).1, hm', hsubst "T" rfl m' (.inr hm')⟩

end CelTyping
