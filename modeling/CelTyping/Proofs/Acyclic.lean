import CelTyping.Assignability
import CelTyping.Proofs.Generality

/-! Bindings without a circle. Following the bindings of parameters from one to the
next never comes back, so parameters can be numbered such that the numbers fall along
every binding. The occurs check ends on such bindings and answers rightly, and binding
a parameter to a type that does not lead to it makes no circle. -/
namespace CelTyping.Bindings

def Follows (m : Bindings) (p q : String) : Prop :=
  ∃ t, m.get? p = some t ∧ q ∈ t.paramNames

/-- No parameter comes back to itself along bindings. -/
def Acyclic (m : Bindings) : Prop := ∀ p, ¬ Relation.TransGen m.Follows p p

def Leads (m : Bindings) (p q : String) : Prop := p = q ∨ Relation.TransGen m.Follows p q

theorem acyclic_empty : (∅ : Bindings).Acyclic := by
  intro p h
  cases h with
  | single h => exact absurd h.choose_spec.1 (by simp)
  | tail _ h => exact absurd h.choose_spec.1 (by simp)

theorem Follows.leads {m : Bindings} {p q r : String} (h : m.Follows p q) (hq : m.Leads q r) :
    Relation.TransGen m.Follows p r := by
  rcases hq with rfl | hq
  · exact .single h
  · exact .trans (.single h) hq

theorem leads_iff {m : Bindings} {p q : String} :
    m.Leads p q ↔ p = q ∨ ∃ r, m.Follows p r ∧ m.Leads r q := by
  constructor
  · rintro (rfl | h)
    · exact .inl rfl
    · refine .inr ?_
      induction h with
      | single h => exact ⟨_, h, .inl rfl⟩
      | tail _ h ih =>
        obtain ⟨r, hr, hl⟩ := ih
        refine ⟨r, hr, .inr ?_⟩
        rcases hl with rfl | hl
        · exact .single h
        · exact .tail hl h
  · rintro (rfl | ⟨r, hr, hl⟩)
    · exact .inl rfl
    · exact .inr (hr.leads hl)

section Rank

def Ranked (m : Bindings) (rank : String → Nat) : Prop :=
  ∀ p t, m.get? p = some t → 0 < rank p ∧ ∀ q ∈ t.paramNames, rank q < rank p

theorem Ranked.acyclic {m : Bindings} {rank : String → Nat} (h : m.Ranked rank) :
    m.Acyclic := by
  have falls : ∀ p q, Relation.TransGen m.Follows p q → rank q < rank p := by
    intro p q hpq
    induction hpq with
    | single hf =>
      obtain ⟨t, ht, hq⟩ := hf
      exact (h _ t ht).2 _ hq
    | tail _ hf ih =>
      obtain ⟨t, ht, hq⟩ := hf
      exact Nat.lt_trans ((h _ t ht).2 _ hq) ih
  intro p hp
  exact Nat.lt_irrefl _ (falls p p hp)

open Classical in
/-- How many bound parameters are come upon from `p`, itself included. -/
noncomputable def reach (m : Bindings) (p : String) : Nat :=
  m.keys.countP fun k => decide (m.Leads p k)

theorem reach_le_size (m : Bindings) (p : String) : m.reach p ≤ m.size := by
  classical
  have h : m.reach p ≤ m.keys.length := List.countP_le_length
  simpa [Table.keys, Table.size] using h

theorem countP_lt_countP {α : Type} {few many : α → Bool} {l : List α}
    (hle : ∀ x ∈ l, few x = true → many x = true) {a : α} (ha : a ∈ l)
    (hmany : many a = true) (hfew : few a = false) : l.countP few < l.countP many := by
  obtain ⟨before, after, rfl⟩ := List.append_of_mem ha
  have hb : before.countP few ≤ before.countP many :=
    List.countP_mono_left fun x hx => hle x (List.mem_append_left _ hx)
  have hr : after.countP few ≤ after.countP many :=
    List.countP_mono_left fun x hx => hle x (List.mem_append_right _ (List.mem_cons_of_mem _ hx))
  simp only [List.countP_append, List.countP_cons, hmany, hfew, if_true, Bool.false_eq_true,
    if_false]
  omega

theorem mem_keys_of_get? {m : Bindings} {p : String} {t : Ty} (h : m.get? p = some t) :
    p ∈ m.keys :=
  List.mem_map.2 ⟨(p, t), Table.mem_toList_of_get? h, rfl⟩

theorem Acyclic.ranked {m : Bindings} (hm : m.Acyclic) : m.Ranked m.reach := by
  classical
  intro p t ht
  have hkey : p ∈ m.keys := mem_keys_of_get? ht
  have hself : decide (m.Leads p p) = true := decide_eq_true (.inl rfl)
  constructor
  · exact List.countP_pos_iff.2 ⟨p, hkey, hself⟩
  · intro q hq
    have hf : m.Follows p q := ⟨t, ht, hq⟩
    refine countP_lt_countP ?_ hkey hself ?_
    · intro k _ hk
      exact decide_eq_true (.inr (hf.leads (of_decide_eq_true hk)))
    · -- coming back from `q` to `p` would close a circle
      exact decide_eq_false fun hback => hm p (hf.leads hback)

end Rank

section Occurs

variable {m : Bindings}

theorem anyM_eq_ok (walk : String → Except Stop Bool) (P : String → Prop) {ps : List String}
    (h : ∀ p ∈ ps, ∃ b, walk p = .ok b ∧ (b = true ↔ P p)) :
    ∃ b, ps.anyM walk = .ok b ∧ (b = true ↔ ∃ p ∈ ps, P p) := by
  induction ps with
  | nil => exact ⟨false, rfl, by simp⟩
  | cons p ps ih =>
    obtain ⟨b, hb, hP⟩ := h p List.mem_cons_self
    obtain ⟨c, hc, hPs⟩ := ih fun q hq => h q (List.mem_cons_of_mem _ hq)
    cases b with
    | true => exact ⟨true, by simp [hb, bind, Except.bind, pure, Except.pure], by simp_all⟩
    | false => exact ⟨c, by simp [hb, hc, bind, Except.bind], by simp_all⟩

theorem Ranked.reaches_eq_ok {rank : String → Nat} (hm : m.Ranked rank) (target : String)
    (n : Nat) :
    ∀ p, rank p < n → ∃ b, m.reaches target n p = .ok b ∧ (b = true ↔ m.Leads p target) := by
  induction n with
  | zero => intro p hp; exact absurd hp (Nat.not_lt_zero _)
  | succ n ih =>
    intro p hp
    simp only [reaches]
    by_cases h : p = target
    · exact ⟨true, if_pos h, by simp [Leads, h]⟩
    · rw [if_neg h]
      cases ht : m.get? p with
      | none =>
        refine ⟨false, rfl, ?_⟩
        simp only [Bool.false_eq_true, false_iff]
        rw [leads_iff]
        rintro (he | ⟨r, ⟨t, ht', _⟩, _⟩)
        · exact h he
        · rw [ht] at ht'
          cases ht'
      | some t =>
        have hfall := (hm p t ht).2
        obtain ⟨b, hb, hP⟩ := anyM_eq_ok (m.reaches target n) (m.Leads · target)
          fun q hq => ih q (Nat.lt_of_lt_of_le (hfall q hq) (Nat.le_of_lt_succ hp))
        refine ⟨b, hb, hP.trans ?_⟩
        rw [leads_iff]
        constructor
        · rintro ⟨q, hq, hl⟩
          exact .inr ⟨q, ⟨t, ht, hq⟩, hl⟩
        · rintro (he | ⟨r, ⟨t', ht', hr⟩, hl⟩)
          · exact absurd he h
          · rw [ht] at ht'
            cases ht'
            exact ⟨r, hr, hl⟩

/-- The occurs check ends on bindings without a circle, and finds the parameter
exactly where some parameter of the type leads to it. -/
theorem Acyclic.occurs_eq_ok (hm : m.Acyclic) (target : String) (t : Ty) :
    ∃ b, m.occurs target t = .ok b ∧ (b = true ↔ ∃ p ∈ t.paramNames, m.Leads p target) :=
  anyM_eq_ok _ (m.Leads · target) fun p _ =>
    hm.ranked.reaches_eq_ok target _ p (Nat.lt_succ_of_le (m.reach_le_size p))

theorem Acyclic.not_leads_of_occurs (hm : m.Acyclic) {target : String} {t : Ty}
    (h : m.occurs target t = .ok false) : ∀ p ∈ t.paramNames, ¬ m.Leads p target := by
  intro p hp hl
  obtain ⟨b, hb, hP⟩ := hm.occurs_eq_ok target t
  rw [h] at hb
  cases hb
  exact absurd (hP.2 ⟨p, hp, hl⟩) (by simp)

end Occurs

open Classical in
theorem Acyclic.insert {m : Bindings} (hm : m.Acyclic) {p : String} {t : Ty}
    (h : ∀ q ∈ t.paramNames, ¬ m.Leads q p) : Acyclic (m.insert p t) := by
  -- what leads to `p` moves above everything else, and stays in its old order
  let rank (q : String) : Nat := m.reach q + if m.Leads q p then m.size + 1 else 0
  suffices hr : Ranked (m.insert p t) rank from hr.acyclic
  intro q s hs
  by_cases hq : q = p
  · subst hq
    rw [Table.get?_insert_self] at hs
    cases hs
    have hself : m.Leads q q := .inl rfl
    refine ⟨by simp only [rank, if_pos hself]; omega, ?_⟩
    intro r hr
    have hle := m.reach_le_size r
    simp only [rank, if_neg (h r hr), if_pos hself]
    omega
  · rw [Table.get?_insert_of_ne m t hq] at hs
    obtain ⟨hpos, hfall⟩ := hm.ranked q s hs
    refine ⟨by simp only [rank]; omega, ?_⟩
    intro r hr
    have hlt := hfall r hr
    by_cases hrp : m.Leads r p
    · have hqp : m.Leads q p := .inr (Follows.leads ⟨s, hs, hr⟩ hrp)
      simp only [rank, if_pos hrp, if_pos hqp]
      omega
    · simp only [rank, if_neg hrp]
      omega

end CelTyping.Bindings
