import CelTyping.Proofs.Agreement
import CelTyping.Session
import Mathlib.Data.List.Forall2

/-! Matching of types without parameters. Nothing is bound on the way, so that it comes down to
a comparison of two types, whatever the bindings are. The walk follows the first of the two and
has rules of its own for null on either side; still the comparison is symmetric, unless there are
wrappers around something else than a primitive. So it does not matter to a caller which of the
two is the expected type. -/
namespace CelTyping

namespace Bindings

section Parts

variable {step : Bindings → Ty → Ty → Except Stop Bindings}

def assignInside (step : Bindings → Ty → Ty → Except Stop Bindings) (m : Bindings) :
    Ty → Ty → Except Stop Bindings
  | .abstract n as, .abstract n' bs =>
    if n = n' then pairwise step m as bs else .error .mismatch
  | .function r as, .function r' bs => step m r r' >>= (pairwise step · as bs)
  | .optional a, .optional b => step m a b
  | .list a, .list b => step m a b
  | .map k v, .map k' v' => step m k k' >>= (step · v v')
  | _, _ => .error .mismatch

theorem assignParts_eq (m : Bindings) (a b : Ty) :
    m.assignParts step a b = if a.fits b then .ok m else m.assignInside step a b := by
  split
  next h => exact assignParts_of_fits h
  next h =>
    unfold assignParts
    split
    case h_5 b _ _ => cases b <;> simp_all [Ty.fits, assignInside, keepIf]
    case h_6 a _ _ _ => cases a <;> simp_all [Ty.fits, assignInside, keepIf]
    case h_9 r _ r' _ => cases hs : step m r r' <;> simp [assignInside, hs, bind, Except.bind]
    case h_12 k _ k' _ => cases hs : step m k k' <;> simp [assignInside, hs, bind, Except.bind]
    all_goals simp_all [Ty.fits, assignInside, keepIf]

end Parts

end Bindings

theorem Ty.ne_param_of_closed {t : Ty} (h : t.paramNames = []) (p : String) : t ≠ .param p := by
  rintro rfl
  cases h

section Comparing

mutual

def Ty.suits : Ty → Ty → Bool
  | .abstract n as, .abstract n' bs => n == n' && Ty.suitsAll as bs
  | .function r as, .function r' bs => r.suits r' && Ty.suitsAll as bs
  | .optional a, .optional b => a.suits b
  | .list a, .list b => a.suits b
  | .map k v, .map k' v' => k.suits k' && v.suits v'
  | a, b => a.fits b

def Ty.suitsAll : List Ty → List Ty → Bool
  | [], [] => true
  | a :: as, b :: bs => a.suits b && Ty.suitsAll as bs
  | _, _ => false

end

namespace Bindings

@[simp] theorem keepIf_bind (m : Bindings) (ok ok' : Bool) :
    (m.keepIf ok >>= fun m' => m'.keepIf ok') = m.keepIf (ok && ok') := by
  cases ok <;> rfl

theorem assign_succ_of_ne_param {a b : Ty} (ha : ∀ p, a ≠ .param p) (hb : ∀ q, b ≠ .param q)
    (n : Nat) (m : Bindings) :
    assign (n + 1) m a b = if a.fits b then .ok m else m.assignInside (assign n) a b := by
  rw [assign_of_ne_param n m a hb, ← assignParts_eq]
  cases a with
  | param p => exact absurd rfl (ha p)
  | _ => rfl

mutual

theorem assign_closed (a b : Ty) (ha : a.paramNames = []) (hb : b.paramNames = []) (n : Nat)
    (hn : a.size ≤ n) (m : Bindings) : assign n m a b = m.keepIf (a.suits b) := by
  -- Fuel for the size of the first type is enough: each step goes down into it.
  obtain ⟨n, rfl⟩ : ∃ k, n = k + 1 := ⟨n - 1, by cases a <;> simp [Ty.size] at hn <;> omega⟩
  rw [assign_succ_of_ne_param (Ty.ne_param_of_closed ha) (Ty.ne_param_of_closed hb)]
  cases a with
  | list a =>
    cases b with
    | list b => exact assign_closed a b ha hb n (Nat.le_of_succ_le_succ hn) m
    | _ => rfl
  | optional a =>
    cases b with
    | optional b => exact assign_closed a b ha hb n (Nat.le_of_succ_le_succ hn) m
    | _ => rfl
  | map k v =>
    cases b with
    | map k' v' =>
      have ha := List.append_eq_nil_iff.1 ha
      have hb := List.append_eq_nil_iff.1 hb
      simp only [Ty.size] at hn
      simp only [Ty.fits, assignInside, Ty.suits, assign_closed k k' ha.1 hb.1 n (by omega),
        assign_closed v v' ha.2 hb.2 n (by omega), keepIf_bind]
      rfl
    | _ => rfl
  | abstract name as =>
    cases b with
    | abstract name' bs =>
      simp only [Ty.fits, assignInside, Ty.suits,
        pairwise_closed as bs ha hb n (Nat.le_of_succ_le_succ hn)]
      by_cases hname : name = name' <;> simp [hname, keepIf]
    | _ => rfl
  | function r as =>
    cases b with
    | function r' bs =>
      have ha := List.append_eq_nil_iff.1 ha
      have hb := List.append_eq_nil_iff.1 hb
      simp only [Ty.size] at hn
      simp only [Ty.fits, assignInside, Ty.suits, assign_closed r r' ha.1 hb.1 n (by omega),
        pairwise_closed as bs ha.2 hb.2 n (by omega), keepIf_bind]
      rfl
    | _ => rfl
  | param p => cases ha
  | _ =>
    simp only [Ty.suits, assignInside]
    rfl

theorem pairwise_closed (as bs : List Ty) (ha : Ty.paramNamesAll as = [])
    (hb : Ty.paramNamesAll bs = []) (n : Nat) (hn : Ty.sizeAll as ≤ n) (m : Bindings) :
    pairwise (assign n) m as bs = m.keepIf (Ty.suitsAll as bs) := by
  cases as with
  | nil => cases bs <;> rfl
  | cons a as =>
    cases bs with
    | nil => rfl
    | cons b bs =>
      have ha := List.append_eq_nil_iff.1 ha
      have hb := List.append_eq_nil_iff.1 hb
      simp only [Ty.sizeAll] at hn
      rw [pairwise, assign_closed a b ha.1 hb.1 n (by omega), Ty.suitsAll]
      cases a.suits b with
      | false => rfl
      | true => exact pairwise_closed as bs ha.2 hb.2 n (by omega) m

end

theorem weight_add_lt_fuel (m : Bindings) (size : Nat) : m.weight + size < m.fuel size := by
  have hcube (n : Nat) : n + 1 ≤ (n + 1) * (n + 1) * (n + 1) :=
    Nat.le_trans (Nat.le_mul_of_pos_right _ n.succ_pos) (Nat.le_mul_of_pos_right _ n.succ_pos)
  have h := hcube (m.weight + size)
  simp only [fuel]
  omega

theorem assignable_closed (m : Bindings) {a b : Ty} (ha : a.paramNames = [])
    (hb : b.paramNames = []) : m.assignable? a b = if a.suits b then some m else none := by
  have hfuel := m.weight_add_lt_fuel (a.size + b.size)
  rw [assignable?, assign_closed a b ha hb _ (by omega)]
  cases a.suits b <;> rfl

theorem assignableAll_closed (m : Bindings) {as bs : List Ty} (ha : Ty.paramNamesAll as = [])
    (hb : Ty.paramNamesAll bs = []) :
    m.assignableAll? as bs = if Ty.suitsAll as bs then some m else none := by
  have hfuel := m.weight_add_lt_fuel (Ty.sizeAll as + Ty.sizeAll bs)
  rw [assignableAll?, pairwise_closed as bs ha hb _ (by omega)]
  cases Ty.suitsAll as bs <;> rfl

end Bindings

end Comparing

section Symmetry

mutual

def Ty.wrapsPrimitives : Ty → Bool
  | .list t => t.wrapsPrimitives
  | .map k v => k.wrapsPrimitives && v.wrapsPrimitives
  | .wrapper t => t.isPrimitive
  | .type t => t.wrapsPrimitives
  | .abstract _ ps => Ty.wrapPrimitives ps
  | .optional t => t.wrapsPrimitives
  | .function r ps => r.wrapsPrimitives && Ty.wrapPrimitives ps
  | .param _ | .scalar _ | .message _ | .error _ => true

def Ty.wrapPrimitives : List Ty → Bool
  | [] => true
  | t :: ts => t.wrapsPrimitives && Ty.wrapPrimitives ts

end

namespace Ty

/-- Without parameters, and with wrappers around primitives only. -/
structure Concrete (t : Ty) : Prop where
  closed : t.paramNames = []
  wraps : t.wrapsPrimitives = true

theorem isAtomic_of_wrapper {t : Ty} (h : (wrapper t).wrapsPrimitives = true) :
    (wrapper t).isAtomic = true := by
  cases t with
  | scalar s => rfl
  | _ => cases h

theorem fits_comm_of_not_isAtomic {a b : Ty} (ha : a.isAtomic = false)
    (hwrap : a.wrapsPrimitives = true) (hpa : ∀ p, a ≠ .param p) (hpb : ∀ q, b ≠ .param q) :
    a.fits b = b.fits a := by
  cases a with
  | scalar s => cases ha
  | message n => cases ha
  | param p => exact absurd rfl (hpa p)
  | wrapper t =>
    rw [isAtomic_of_wrapper hwrap] at ha
    cases ha
  | _ =>
    cases b with
    | scalar s => cases s <;> simp [fits, isNullable, accepts]
    | param q => exact absurd rfl (hpb q)
    | _ => simp [fits, accepts]

theorem Concrete.fits_comm {a b : Ty} (ha : a.Concrete) (hb : b.Concrete) :
    a.fits b = b.fits a := by
  have hpa := ne_param_of_closed ha.closed
  have hpb := ne_param_of_closed hb.closed
  cases hatomic : a.isAtomic with
  | false => exact fits_comm_of_not_isAtomic hatomic ha.wraps hpa hpb
  | true =>
    cases hatomic' : b.isAtomic with
    | false => exact (fits_comm_of_not_isAtomic hatomic' hb.wraps hpb hpa).symm
    | true =>
      exact Bool.eq_iff_iff.2 ⟨fits_symm_of_isAtomic hatomic hatomic',
        fits_symm_of_isAtomic hatomic' hatomic⟩

theorem Concrete.map {k v : Ty} (h : (Ty.map k v).Concrete) : k.Concrete ∧ v.Concrete := by
  have hclosed := List.append_eq_nil_iff.1 h.closed
  have hwraps := Bool.and_eq_true_iff.1 h.wraps
  exact ⟨⟨hclosed.1, hwraps.1⟩, hclosed.2, hwraps.2⟩

theorem concrete_of_all {ts : List Ty} (hclosed : paramNamesAll ts = [])
    (hwrap : wrapPrimitives ts = true) : ∀ t ∈ ts, t.Concrete := by
  induction ts with
  | nil => simp
  | cons t ts ih =>
    have hclosed := List.append_eq_nil_iff.1 hclosed
    have hwrap := Bool.and_eq_true_iff.1 hwrap
    exact List.forall_mem_cons.2 ⟨⟨hclosed.1, hwrap.1⟩, ih hclosed.2 hwrap.2⟩

theorem Concrete.abstract {n : String} {ts : List Ty} (h : (Ty.abstract n ts).Concrete) :
    ∀ t ∈ ts, t.Concrete :=
  concrete_of_all h.closed h.wraps

theorem Concrete.function {r : Ty} {ts : List Ty} (h : (Ty.function r ts).Concrete) :
    r.Concrete ∧ ∀ t ∈ ts, t.Concrete := by
  have hclosed := List.append_eq_nil_iff.1 h.closed
  have hwraps := Bool.and_eq_true_iff.1 h.wraps
  exact ⟨⟨hclosed.1, hwraps.1⟩, concrete_of_all hclosed.2 hwraps.2⟩

theorem paramNamesAll_of_closed {ts : List Ty} (h : ∀ t ∈ ts, t.paramNames = []) :
    paramNamesAll ts = [] := by
  induction ts with
  | nil => rfl
  | cons t ts ih =>
    obtain ⟨ht, hts⟩ := List.forall_mem_cons.1 h
    exact List.append_eq_nil_iff.2 ⟨ht, ih hts⟩

mutual

theorem suits_comm (a b : Ty) (ha : a.Concrete) (hb : b.Concrete) : a.suits b = b.suits a := by
  have hfits := ha.fits_comm hb
  cases a with
  | list a =>
    cases b with
    | list b => exact suits_comm a b ⟨ha.closed, ha.wraps⟩ ⟨hb.closed, hb.wraps⟩
    | _ => exact hfits
  | optional a =>
    cases b with
    | optional b => exact suits_comm a b ⟨ha.closed, ha.wraps⟩ ⟨hb.closed, hb.wraps⟩
    | _ => exact hfits
  | map k v =>
    cases b with
    | map k' v' =>
      rw [suits, suits, suits_comm k k' ha.map.1 hb.map.1, suits_comm v v' ha.map.2 hb.map.2]
    | _ => exact hfits
  | abstract n as =>
    cases b with
    | abstract n' bs =>
      rw [suits, suits, suitsAll_comm as bs ha.abstract hb.abstract, Bool.beq_comm]
    | _ => exact hfits
  | function r as =>
    cases b with
    | function r' bs =>
      rw [suits, suits, suits_comm r r' ha.function.1 hb.function.1,
        suitsAll_comm as bs ha.function.2 hb.function.2]
    | _ => exact hfits
  | _ => cases b <;> simpa only [suits] using hfits

theorem suitsAll_comm (as bs : List Ty) (ha : ∀ t ∈ as, t.Concrete) (hb : ∀ t ∈ bs, t.Concrete) :
    suitsAll as bs = suitsAll bs as := by
  cases as with
  | nil => cases bs <;> rfl
  | cons a as =>
    cases bs with
    | nil => rfl
    | cons b bs =>
      obtain ⟨ha, has⟩ := List.forall_mem_cons.1 ha
      obtain ⟨hb, hbs⟩ := List.forall_mem_cons.1 hb
      rw [suitsAll, suitsAll, suits_comm a b ha hb, suitsAll_comm as bs has hbs]

end

end Ty

theorem Ty.Concrete.assignable_comm {a b : Ty} (ha : a.Concrete) (hb : b.Concrete)
    (m : Bindings) : m.assignable? a b = m.assignable? b a := by
  rw [m.assignable_closed ha.closed hb.closed, m.assignable_closed hb.closed ha.closed,
    Ty.suits_comm a b ha hb]

theorem Ty.Concrete.eq_of_assignable {a b : Ty} (ha : a.Concrete) (hb : b.Concrete)
    {m m' : Bindings} (h : m.assignable? a b = some m') : m' = m := by
  rw [m.assignable_closed ha.closed hb.closed] at h
  split at h
  next => exact (Option.some.inj h).symm
  next => cases h

/-- Of two concrete types it does not matter which one is expected: matching succeeds in both
orders or in neither, and leaves the bindings alone. A pass asks for fields and loop steps with
the expected type first and for arguments with the expected types second; it asks for the same. -/
theorem assignable_either_way (m : Bindings) :
    (∀ a b : Ty, a.Concrete → b.Concrete →
      ((m.assignable? a b).isSome = true ↔ (m.assignable? b a).isSome = true) ∧
        (∀ m', m.assignable? a b = some m' → m' = m) ∧
        (∀ m', m.assignable? b a = some m' → m' = m)) ∧
    (∀ (s : Session) (a b : Ty), a.Concrete → b.Concrete → s.assign a b = s.assign b a) ∧
    ∀ as bs : List Ty, (∀ t ∈ as, t.Concrete) → (∀ t ∈ bs, t.Concrete) →
      (m.assignableAll? as bs = some m ↔
        List.Forall₂ (fun actual expected => m.assignable? expected actual = some m) as bs) := by
  refine ⟨fun a b ha hb => ?_, fun s a b ha hb => ?_, fun as bs ha hb => ?_⟩
  · refine ⟨by rw [ha.assignable_comm hb], fun m' => ha.eq_of_assignable hb, ?_⟩
    exact fun m' => hb.eq_of_assignable ha
  · have hcomm := ha.assignable_comm hb s.bindings.bindings
    simp only [Session.assign, Substitution.assignable?, hcomm]
  · rw [m.assignableAll_closed (Ty.paramNamesAll_of_closed fun t ht => (ha t ht).closed)
      (Ty.paramNamesAll_of_closed fun t ht => (hb t ht).closed)]
    induction as generalizing bs with
    | nil => cases bs <;> simp [Ty.suitsAll]
    | cons a as ih =>
      cases bs with
      | nil => simp [Ty.suitsAll]
      | cons b bs =>
        obtain ⟨ha, has⟩ := List.forall_mem_cons.1 ha
        obtain ⟨hb, hbs⟩ := List.forall_mem_cons.1 hb
        rw [List.forall₂_cons, ← ih bs has hbs, hb.assignable_comm ha,
          m.assignable_closed ha.closed hb.closed, Ty.suitsAll]
        cases a.suits b <;> simp

theorem assignable_either_way_nested :
    ∃ (m : Bindings) (a b : Ty), m.get? "T" = some (.param "T") ∧ a.Concrete ∧ b.Concrete ∧
      m.assignable? a b = some m ∧ (m.assignable? b a).isSome = true ∧
      m.assignableAll? [a, b] [b, a] = some m ∧ m.assignable? b a = some m ∧
      Session.assign {} a b = Session.assign {} b a := by
  let m : Bindings := Table.insert ∅ "T" (.param "T")
  let a : Ty := .map .string (.list (.wrapper .int))
  let b : Ty := .map .string (.list .null)
  have ha : a.Concrete := ⟨rfl, rfl⟩
  have hb : b.Concrete := ⟨rfl, rfl⟩
  have hab : m.assignable? a b = some m := rfl
  have hall : m.assignableAll? [a, b] [b, a] = some m := rfl
  obtain ⟨hpair, hsession, hlists⟩ := assignable_either_way m
  have hsecond := (hlists [a, b] [b, a] (by simp [ha, hb]) (by simp [ha, hb])).1 hall
  exact ⟨m, a, b, rfl, ha, hb, hab, (hpair a b ha hb).1.1 (by rw [hab]; rfl), hall,
    (List.forall₂_cons.1 hsecond).1, hsession {} a b ha hb⟩

end Symmetry

end CelTyping
