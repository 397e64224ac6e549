import CelTyping.Proofs.Closing
import CelTyping.Proofs.Symmetry

/-! Types that are the same up to the reasons of their error types. Such types match whatever
the bindings are, and no binding is looked at on the way: a parameter comes upon itself before
its binding is asked for. So this holds also where bindings run in a circle. -/
namespace CelTyping

theorem Ty.exact_equivalence : Equivalence fun a b : Ty => a.exact b = true :=
  ⟨Ty.exact_refl, Ty.exact_symm, Ty.exact_trans⟩

namespace Bindings

@[simp] theorem assign_param_self (n : Nat) (m : Bindings) (p : String) :
    assign (n + 1) m (.param p) (.param p) = .ok m := by
  simp only [assign, bindParam, Ty.exact_refl, if_true]

mutual

-- The induction is on the first type, and the fuel has to last for its size only: as long as
-- both types are the same, a match goes down into them and never through a binding.
theorem assign_eq_of_exact (a b : Ty) (h : a.exact b = true) (n : Nat) (hn : a.size ≤ n)
    (m : Bindings) : assign n m a b = .ok m := by
  obtain ⟨n, rfl⟩ : ∃ k, n = k + 1 := ⟨n - 1, by cases a <;> simp [Ty.size] at hn <;> omega⟩
  obtain ⟨p, rfl⟩ | ha : (∃ p, a = .param p) ∨ ∀ p, a ≠ .param p :=
    (Classical.em _).imp_right not_exists.1
  · rw [Ty.exact_param.1 (Ty.exact_symm h)]
    exact assign_param_self n m p
  have hb (q : String) : b ≠ .param q := fun hq => ha q (Ty.exact_param.1 (hq ▸ h))
  rw [assign_succ_of_ne_param ha hb]
  split
  next => rfl
  next hfits =>
    -- what does not fit as it stands is built alike, and the parts are the same
    have haccepts := Ty.accepts_of_exact b a (Ty.exact_symm h)
    cases a <;> cases b <;>
      simp only [Ty.exact, Bool.and_eq_true, beq_iff_eq, Bool.false_eq_true] at h
    case list.list a b => exact assign_eq_of_exact a b h n (Nat.le_of_succ_le_succ hn) m
    case optional.optional a b => exact assign_eq_of_exact a b h n (Nat.le_of_succ_le_succ hn) m
    case map.map k v k' v' =>
      simp only [Ty.size] at hn
      simp only [assignInside, assign_eq_of_exact k k' h.1 n (by omega), bind, Except.bind]
      exact assign_eq_of_exact v v' h.2 n (by omega) m
    case abstract.abstract name as name' bs =>
      simp only [assignInside, if_pos h.1]
      exact pairwise_eq_of_exactAll as bs h.2 n (Nat.le_of_succ_le_succ hn) m
    case function.function r as r' bs =>
      simp only [Ty.size] at hn
      simp only [assignInside, assign_eq_of_exact r r' h.1 n (by omega), bind, Except.bind]
      exact pairwise_eq_of_exactAll as bs h.2 n (by omega) m
    case param.param p q => exact absurd rfl (ha p)
    case scalar.scalar s s' => exact absurd (Ty.fits_scalar haccepts) hfits
    case message.message name name' => exact absurd (Ty.fits_message haccepts) hfits
    case wrapper.wrapper a b => exact absurd (Ty.fits_wrapper haccepts) hfits
    case type.type a b => exact absurd rfl hfits
    case error.error d d' => exact absurd rfl hfits

theorem pairwise_eq_of_exactAll (as bs : List Ty) (h : Ty.exactAll as bs = true) (n : Nat)
    (hn : Ty.sizeAll as ≤ n) (m : Bindings) : pairwise (assign n) m as bs = .ok m := by
  cases as <;> cases bs <;> simp only [Ty.exactAll, Bool.and_eq_true, Bool.false_eq_true] at h
  case nil.nil => rfl
  case cons.cons a as b bs =>
    simp only [Ty.sizeAll] at hn
    simp only [pairwise, assign_eq_of_exact a b h.1 n (by omega)]
    exact pairwise_eq_of_exactAll as bs h.2 n (by omega) m

end

theorem assignable_of_exact (m : Bindings) {a b : Ty} (h : a.exact b = true) :
    m.assignable? a b = some m := by
  have hfuel := m.weight_add_lt_fuel (a.size + b.size)
  rw [assignable?, assign_eq_of_exact a b h _ (by omega)]
  rfl

end Bindings

/-- Two types are exact if and only if they are equal once all their error types have one and the
same reason, which makes exactness an equivalence relation. Exact types match under any
bindings, and the bindings stay as they are. -/
theorem exact_types_match :
    (∀ a b : Ty, a.exact b = true ↔ a.blank = b.blank) ∧
      (Equivalence fun a b : Ty => a.exact b = true) ∧
      ∀ (m : Bindings) (a b : Ty), a.exact b = true → m.assignable? a b = some m :=
  ⟨Ty.exact_iff, Ty.exact_equivalence, fun m _ _ h => m.assignable_of_exact h⟩

def mistaken (node : NodeId) : Ty :=
  .function (.wrapper (.error ⟨node, .recursionLimit 0⟩)) [.param "T", .abstract "box" [.param "T"]]

theorem exact_types_match_circle :
    ∃ m : Bindings, m.get? "T" = some (.list (.param "T")) ∧ mistaken 1 ≠ mistaken 2 ∧
      (mistaken 1).blank = (mistaken 2).blank ∧ (mistaken 1).exact (mistaken 2) = true ∧
      m.assignable? (mistaken 1) (mistaken 2) = some m := by
  obtain ⟨hiff, -, hmatch⟩ := exact_types_match
  let m : Bindings := Table.insert ∅ "T" (.list (.param "T"))
  have hexact : (mistaken 1).exact (mistaken 2) = true := by decide
  exact ⟨m, Table.get?_insert_self .., by simp [mistaken], (hiff _ _).1 hexact, hexact,
    hmatch m _ _ hexact⟩

end CelTyping
