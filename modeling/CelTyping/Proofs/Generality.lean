import CelTyping.Ty.Order
import CelTyping.Ty.Params

/-! The generality order on types. Sameness up to the reasons of error types is
equality once those reasons are made alike, and the order built on it is reflexive
and transitive. `dyn` and the types of types stand on top. -/
namespace CelTyping

section Exact

mutual

/-- The type with the same reason in all its error types. -/
def Ty.blank : Ty → Ty
  | .list t => .list t.blank
  | .map k v => .map k.blank v.blank
  | .wrapper t => .wrapper t.blank
  | .type t => .type t.blank
  | .abstract n ps => .abstract n (Ty.blankAll ps)
  | .optional t => .optional t.blank
  | .function r ps => .function r.blank (Ty.blankAll ps)
  | .error _ => .error ⟨0, .internal ""⟩
  | .scalar s => .scalar s
  | .message n => .message n
  | .param p => .param p

def Ty.blankAll : List Ty → List Ty
  | [] => []
  | t :: ts => t.blank :: Ty.blankAll ts

end

mutual

theorem Ty.exact_iff (a b : Ty) : a.exact b = true ↔ a.blank = b.blank := by
  cases a <;> cases b <;> simp [Ty.exact, Ty.blank]
  case list.list t t' => exact Ty.exact_iff t t'
  case map.map k v k' v' => rw [Ty.exact_iff k k', Ty.exact_iff v v']
  case wrapper.wrapper t t' => exact Ty.exact_iff t t'
  case type.type t t' => exact Ty.exact_iff t t'
  case abstract.abstract n ps n' ps' => rw [Ty.exactAll_iff ps ps']; simp
  case optional.optional t t' => exact Ty.exact_iff t t'
  case function.function r ps r' ps' => rw [Ty.exact_iff r r', Ty.exactAll_iff ps ps']

theorem Ty.exactAll_iff (as bs : List Ty) :
    Ty.exactAll as bs = true ↔ Ty.blankAll as = Ty.blankAll bs := by
  cases as <;> cases bs <;> simp [Ty.exactAll, Ty.blankAll]
  case cons.cons a as b bs => rw [Ty.exact_iff a b, Ty.exactAll_iff as bs]

end

@[simp] theorem Ty.exact_refl (a : Ty) : a.exact a = true := (Ty.exact_iff a a).2 rfl

theorem Ty.exact_trans {a b c : Ty} (hab : a.exact b = true) (hbc : b.exact c = true) :
    a.exact c = true :=
  (Ty.exact_iff a c).2 (((Ty.exact_iff a b).1 hab).trans ((Ty.exact_iff b c).1 hbc))

theorem Ty.exact_symm {a b : Ty} (h : a.exact b = true) : b.exact a = true :=
  (Ty.exact_iff b a).2 ((Ty.exact_iff a b).1 h).symm

@[simp] theorem Ty.exact_param {t : Ty} {p : String} :
    t.exact (.param p) = true ↔ t = .param p := by
  cases t <;> simp [Ty.exact]

end Exact

section Order

def Ty.isTop : Ty → Bool
  | .dyn | .type _ => true
  | _ => false

/-- The types that are compared as wholes. -/
def Ty.isRigid : Ty → Bool
  | .list _ | .map _ _ | .abstract _ _ | .optional _ => false
  | t => !t.isTop

theorem Ty.subsumes_of_isTop {a : Ty} (h : a.isTop = true) (b : Ty) : a.subsumes b = true := by
  cases a with
  | scalar s => cases s <;> simp_all [Ty.isTop, Ty.subsumes]
  | type t => simp [Ty.subsumes]
  | _ => simp [Ty.isTop] at h

theorem Ty.subsumes_list {t b : Ty} :
    (Ty.list t).subsumes b = true ↔ ∃ s, b = .list s ∧ t.subsumes s = true := by
  cases b with
  | scalar s => cases s <;> simp [Ty.subsumes, Ty.exact]
  | _ => simp [Ty.subsumes, Ty.exact]

theorem Ty.subsumes_optional {t b : Ty} :
    (Ty.optional t).subsumes b = true ↔ ∃ s, b = .optional s ∧ t.subsumes s = true := by
  cases b with
  | scalar s => cases s <;> simp [Ty.subsumes, Ty.exact]
  | _ => simp [Ty.subsumes, Ty.exact]

theorem Ty.subsumes_map {k v b : Ty} :
    (Ty.map k v).subsumes b = true ↔
      ∃ k' v', b = .map k' v' ∧ k.subsumes k' = true ∧ v.subsumes v' = true := by
  cases b with
  | scalar s => cases s <;> simp [Ty.subsumes, Ty.exact]
  | map k' v' =>
    simp only [Ty.subsumes, Bool.and_eq_true, Ty.map.injEq]
    constructor
    · rintro ⟨hk, hv⟩
      exact ⟨k', v', ⟨rfl, rfl⟩, hk, hv⟩
    · rintro ⟨_, _, ⟨rfl, rfl⟩, hk, hv⟩
      exact ⟨hk, hv⟩
  | _ => simp [Ty.subsumes, Ty.exact]

theorem Ty.subsumes_abstract {n : String} {ps : List Ty} {b : Ty} :
    (Ty.abstract n ps).subsumes b = true ↔
      ∃ qs, b = .abstract n qs ∧ Ty.subsumesAll ps qs = true := by
  cases b with
  | scalar s => cases s <;> simp [Ty.subsumes, Ty.exact]
  | abstract n' qs =>
    simp only [Ty.subsumes, Bool.and_eq_true, beq_iff_eq, Ty.abstract.injEq]
    constructor
    · rintro ⟨rfl, h⟩
      exact ⟨qs, ⟨rfl, rfl⟩, h⟩
    · rintro ⟨_, ⟨rfl, rfl⟩, h⟩
      exact ⟨rfl, h⟩
  | _ => simp [Ty.subsumes, Ty.exact]

theorem Ty.subsumes_of_isRigid {a : Ty} (h : a.isRigid = true) (b : Ty) :
    a.subsumes b = a.exact b := by
  cases a with
  | scalar s =>
    cases s <;> simp [Ty.isRigid, Ty.isTop] at h <;>
      (cases b with
       | scalar s' => cases s' <;> simp [Ty.subsumes, Ty.exact]
       | _ => simp [Ty.subsumes, Ty.exact])
  | list _ | map _ _ | abstract _ _ | optional _ => simp [Ty.isRigid] at h
  | type _ => simp [Ty.isRigid, Ty.isTop] at h
  | _ =>
    cases b with
    | scalar s' => cases s' <;> simp [Ty.subsumes, Ty.exact]
    | _ => simp [Ty.subsumes, Ty.exact]

theorem Ty.isRigid_of_exact {a b : Ty} (h : a.exact b = true) (ha : a.isRigid = true) :
    b.isRigid = true := by
  cases a <;> cases b <;> simp_all [Ty.exact, Ty.isRigid, Ty.isTop]

mutual

@[simp] theorem Ty.subsumes_refl (t : Ty) : t.subsumes t = true := by
  cases t with
  | list t => exact Ty.subsumes_list.2 ⟨t, rfl, Ty.subsumes_refl t⟩
  | optional t => exact Ty.subsumes_optional.2 ⟨t, rfl, Ty.subsumes_refl t⟩
  | map k v => exact Ty.subsumes_map.2 ⟨k, v, rfl, Ty.subsumes_refl k, Ty.subsumes_refl v⟩
  | abstract n ps => exact Ty.subsumes_abstract.2 ⟨ps, rfl, Ty.subsumesAll_refl ps⟩
  | scalar s => cases s <;> simp [Ty.subsumes]
  | type t => exact Ty.subsumes_of_isTop rfl _
  | _ => rw [Ty.subsumes_of_isRigid rfl]; exact Ty.exact_refl _

@[simp] theorem Ty.subsumesAll_refl (ts : List Ty) : Ty.subsumesAll ts ts = true := by
  cases ts with
  | nil => rfl
  | cons t ts =>
    simp only [Ty.subsumesAll, Bool.and_eq_true]
    exact ⟨Ty.subsumes_refl t, Ty.subsumesAll_refl ts⟩

end

mutual

theorem Ty.subsumes_of_exact (a b : Ty) (h : a.exact b = true) : a.subsumes b = true := by
  cases a <;> cases b <;> simp only [Ty.exact, Bool.and_eq_true, Bool.false_eq_true] at h
  case list.list t t' => exact Ty.subsumes_of_exact t t' h
  case optional.optional t t' => exact Ty.subsumes_of_exact t t' h
  case map.map k v k' v' =>
    exact Ty.subsumes_map.2
      ⟨k', v', rfl, Ty.subsumes_of_exact k k' h.1, Ty.subsumes_of_exact v v' h.2⟩
  case abstract.abstract n ps n' ps' =>
    simp only [Ty.subsumes, Bool.and_eq_true]
    exact ⟨h.1, Ty.subsumesAll_of_exactAll ps ps' h.2⟩
  case type.type => exact Ty.subsumes_of_isTop rfl _
  case scalar.scalar s s' =>
    cases beq_iff_eq.1 h
    exact Ty.subsumes_refl _
  all_goals
    rw [Ty.subsumes_of_isRigid rfl]
    simp_all [Ty.exact]

theorem Ty.subsumesAll_of_exactAll (as bs : List Ty) (h : Ty.exactAll as bs = true) :
    Ty.subsumesAll as bs = true := by
  cases as <;> cases bs <;> simp only [Ty.exactAll, Bool.and_eq_true, Bool.false_eq_true] at h
  case nil.nil => rfl
  case cons.cons a as b bs =>
    simp only [Ty.subsumesAll, Bool.and_eq_true]
    exact ⟨Ty.subsumes_of_exact a b h.1, Ty.subsumesAll_of_exactAll as bs h.2⟩

end

theorem Ty.subsumes_trans_of_isRigid {a b c : Ty} (ha : a.isRigid = true)
    (hab : a.subsumes b = true) (hbc : b.subsumes c = true) : a.subsumes c = true := by
  rw [Ty.subsumes_of_isRigid ha] at hab ⊢
  rw [Ty.subsumes_of_isRigid (Ty.isRigid_of_exact hab ha)] at hbc
  exact Ty.exact_trans hab hbc

mutual

theorem Ty.subsumes_trans (a b c : Ty) (hab : a.subsumes b = true) (hbc : b.subsumes c = true) :
    a.subsumes c = true := by
  cases a with
  | list t =>
    obtain ⟨s, rfl, hs⟩ := Ty.subsumes_list.1 hab
    obtain ⟨u, rfl, hu⟩ := Ty.subsumes_list.1 hbc
    exact Ty.subsumes_list.2 ⟨u, rfl, Ty.subsumes_trans t s u hs hu⟩
  | optional t =>
    obtain ⟨s, rfl, hs⟩ := Ty.subsumes_optional.1 hab
    obtain ⟨u, rfl, hu⟩ := Ty.subsumes_optional.1 hbc
    exact Ty.subsumes_optional.2 ⟨u, rfl, Ty.subsumes_trans t s u hs hu⟩
  | map k v =>
    obtain ⟨k', v', rfl, hk, hv⟩ := Ty.subsumes_map.1 hab
    obtain ⟨k'', v'', rfl, hk', hv'⟩ := Ty.subsumes_map.1 hbc
    exact Ty.subsumes_map.2
      ⟨k'', v'', rfl, Ty.subsumes_trans k k' k'' hk hk', Ty.subsumes_trans v v' v'' hv hv'⟩
  | abstract n ps =>
    obtain ⟨qs, rfl, hq⟩ := Ty.subsumes_abstract.1 hab
    obtain ⟨rs, rfl, hr⟩ := Ty.subsumes_abstract.1 hbc
    exact Ty.subsumes_abstract.2 ⟨rs, rfl, Ty.subsumesAll_trans ps qs rs hq hr⟩
  | type t => exact Ty.subsumes_of_isTop rfl c
  | scalar s =>
    by_cases hs : s = .dyn
    · subst hs
      exact Ty.subsumes_of_isTop rfl c
    · have hr : (Ty.scalar s).isRigid = true := by
        cases s <;> first | rfl | exact absurd rfl hs
      exact Ty.subsumes_trans_of_isRigid hr hab hbc
  | _ => exact Ty.subsumes_trans_of_isRigid rfl hab hbc

theorem Ty.subsumesAll_trans (as bs cs : List Ty) (hab : Ty.subsumesAll as bs = true)
    (hbc : Ty.subsumesAll bs cs = true) : Ty.subsumesAll as cs = true := by
  cases as <;> cases bs <;> cases cs <;>
    simp only [Ty.subsumesAll, Bool.and_eq_true, Bool.false_eq_true] at hab hbc ⊢
  case cons.cons.cons a as b bs c cs =>
    exact ⟨Ty.subsumes_trans a b c hab.1 hbc.1, Ty.subsumesAll_trans as bs cs hab.2 hbc.2⟩

end

/-- The ways in which one type is above another: part by part, or as a whole. -/
inductive Ty.Above : Ty → Ty → Prop where
  | top {a b : Ty} : a.isTop = true → Ty.Above a b
  | list {t s : Ty} : t.subsumes s = true → Ty.Above (.list t) (.list s)
  | optional {t s : Ty} : t.subsumes s = true → Ty.Above (.optional t) (.optional s)
  | map {k v k' v' : Ty} :
      k.subsumes k' = true → v.subsumes v' = true → Ty.Above (.map k v) (.map k' v')
  | abstract {n : String} {ps qs : List Ty} :
      Ty.subsumesAll ps qs = true → Ty.Above (.abstract n ps) (.abstract n qs)
  | exact {a b : Ty} : a.isRigid = true → a.exact b = true → Ty.Above a b

theorem Ty.above_of_subsumes {a b : Ty} (h : a.subsumes b = true) : Ty.Above a b := by
  by_cases hrigid : a.isRigid = true
  · rw [Ty.subsumes_of_isRigid hrigid] at h
    exact .exact hrigid h
  · cases a with
    | list t =>
      obtain ⟨s, rfl, hs⟩ := Ty.subsumes_list.1 h
      exact .list hs
    | optional t =>
      obtain ⟨s, rfl, hs⟩ := Ty.subsumes_optional.1 h
      exact .optional hs
    | map k v =>
      obtain ⟨k', v', rfl, hk, hv⟩ := Ty.subsumes_map.1 h
      exact .map hk hv
    | abstract n ps =>
      obtain ⟨qs, rfl, hqs⟩ := Ty.subsumes_abstract.1 h
      exact .abstract hqs
    | _ => exact .top (by simpa [Ty.isRigid] using hrigid)

theorem Ty.mostGeneral_cases (a b : Ty) :
    (a.mostGeneral b = a ∧ a.subsumes b = true) ∨ a.mostGeneral b = b := by
  unfold Ty.mostGeneral
  split
  next h => exact .inl ⟨rfl, h⟩
  next => exact .inr rfl

theorem Ty.mostGeneral_of {P : Ty → Prop} {a b : Ty} (ha : P a) (hb : P b) :
    P (a.mostGeneral b) := by
  rcases Ty.mostGeneral_cases a b with ⟨he, _⟩ | he
  · rwa [he]
  · rwa [he]

@[simp] theorem Ty.mostGeneral_subsumes (a b : Ty) : (a.mostGeneral b).subsumes b = true := by
  rcases Ty.mostGeneral_cases a b with ⟨he, h⟩ | he
  · rw [he]
    exact h
  · rw [he]
    exact Ty.subsumes_refl b

end Order

end CelTyping
