import CelTyping.Proofs.Matching

/-! Types that go together as they stand. Matching compares its two types under bindings that
change on the way; what is left of it when the bindings are put in is a relation between two
types that is symmetric, kept by every substitution, and kept when one of the two becomes more
general. All this is so for types without a `type(_)`, which stands above every type without
going together with it, and without a wrapper of anything but a scalar. -/
namespace CelTyping

namespace Ty

section Tame

def isScalar : Ty → Bool
  | .scalar _ => true
  | _ => false

mutual

/-- Wrappers are around scalars, and there are no types of types. -/
def isTame : Ty → Bool
  | .list t => t.isTame
  | .map k v => k.isTame && v.isTame
  | .wrapper t => t.isScalar
  | .type _ => false
  | .abstract _ ps => isTameAll ps
  | .optional t => t.isTame
  | .function r ps => r.isTame && isTameAll ps
  | .param _ | .scalar _ | .message _ | .error _ => true

def isTameAll : List Ty → Bool
  | [] => true
  | t :: ts => t.isTame && isTameAll ts

end

@[simp] theorem isTameAll_iff {ts : List Ty} : isTameAll ts = true ↔ ∀ t ∈ ts, t.isTame = true := by
  induction ts with
  | nil => simp [isTameAll]
  | cons t ts ih => simp [isTameAll, ih]

def isAtomic : Ty → Bool
  | .scalar _ | .message _ => true
  | .wrapper t => t.isScalar
  | _ => false

theorem replace_of_isScalar {t : Ty} (h : t.isScalar = true) (f : String → Ty) :
    t.replace f = t := by
  cases t <;> simp_all [isScalar, replace]

theorem replace_of_isAtomic {t : Ty} (h : t.isAtomic = true) (f : String → Ty) :
    t.replace f = t := by
  cases t with
  | wrapper t => rw [replace, replace_of_isScalar h]
  | scalar _ | message _ => rfl
  | _ => cases h

theorem eq_of_subsumes_of_isAtomic {a b : Ty} (ha : a.isAtomic = true) (hr : a.isRigid = true)
    (h : a.subsumes b = true) : a = b := by
  rw [subsumes_of_isRigid hr] at h
  cases a <;> cases b <;> simp_all [isAtomic, exact]
  case wrapper.wrapper t t' => cases t <;> cases t' <;> simp_all [isScalar, exact]

theorem replace_of_isDynOrError {t : Ty} (h : t.isDynOrError = true) (f : String → Ty) :
    t.replace f = t := by
  cases t with
  | scalar _ | error _ => rfl
  | _ => cases h

mutual

theorem isTame_replace {f : String → Ty} (hf : ∀ p, (f p).isTame = true) (t : Ty)
    (h : t.isTame = true) : (t.replace f).isTame = true := by
  cases t with
  | list t | optional t => exact isTame_replace hf t h
  | map k v =>
    simp only [isTame, Bool.and_eq_true] at h
    simp only [replace, isTame, isTame_replace hf k h.1, isTame_replace hf v h.2, Bool.and_self]
  | wrapper t =>
    rw [replace, replace_of_isScalar h]
    exact h
  | abstract n ps => exact isTameAll_replaceAll hf ps h
  | function r ps =>
    simp only [isTame, Bool.and_eq_true] at h
    simp only [replace, isTame, isTame_replace hf r h.1, isTameAll_replaceAll hf ps h.2,
      Bool.and_self]
  | param p => exact hf p
  | type t => cases h
  | scalar _ | message _ | error _ => rfl

theorem isTameAll_replaceAll {f : String → Ty} (hf : ∀ p, (f p).isTame = true) (ts : List Ty)
    (h : isTameAll ts = true) : isTameAll (replaceAll f ts) = true := by
  cases ts with
  | nil => rfl
  | cons t ts =>
    simp only [isTameAll, Bool.and_eq_true] at h
    simp only [replaceAll, isTameAll, isTame_replace hf t h.1, isTameAll_replaceAll hf ts h.2,
      Bool.and_self]

end

end Tame

mutual

/-- The two types go together, and so they do under all bindings. -/
inductive Compatible : Ty → Ty → Prop where
  | param (p : String) : Compatible (.param p) (.param p)
  | atomic {a b : Ty} : a.isAtomic = true → b.isAtomic = true → a.fits b = true →
      b.fits a = true → Compatible a b
  | null_abstract (n : String) (ps : List Ty) : Compatible .null (.abstract n ps)
  | abstract_null (n : String) (ps : List Ty) : Compatible (.abstract n ps) .null
  | wild_left {a b : Ty} : a.isDynOrError = true → Compatible a b
  | wild_right {a b : Ty} : b.isDynOrError = true → Compatible a b
  | list {a b : Ty} : Compatible a b → Compatible (.list a) (.list b)
  | optional {a b : Ty} : Compatible a b → Compatible (.optional a) (.optional b)
  | map {k v k' v' : Ty} :
      Compatible k k' → Compatible v v' → Compatible (.map k v) (.map k' v')
  | abstract {n : String} {as bs : List Ty} :
      CompatibleAll as bs → Compatible (.abstract n as) (.abstract n bs)
  | function {r r' : Ty} {as bs : List Ty} :
      Compatible r r' → CompatibleAll as bs → Compatible (.function r as) (.function r' bs)

inductive CompatibleAll : List Ty → List Ty → Prop where
  | nil : CompatibleAll [] []
  | cons {a b : Ty} {as bs : List Ty} :
      Compatible a b → CompatibleAll as bs → CompatibleAll (a :: as) (b :: bs)

end

section Laws

mutual

theorem Compatible.symm {a b : Ty} : Compatible a b → Compatible b a
  | .param p => .param p
  | .atomic ha hb h h' => .atomic hb ha h' h
  | .null_abstract n ps => .abstract_null n ps
  | .abstract_null n ps => .null_abstract n ps
  | .wild_left h => .wild_right h
  | .wild_right h => .wild_left h
  | .list h => .list h.symm
  | .optional h => .optional h.symm
  | .map hk hv => .map hk.symm hv.symm
  | .abstract h => .abstract h.symm
  | .function hr h => .function hr.symm h.symm

theorem CompatibleAll.symm {as bs : List Ty} : CompatibleAll as bs → CompatibleAll bs as
  | .nil => .nil
  | .cons h hs => .cons h.symm hs.symm

end

theorem fits_self_of_isAtomic {t : Ty} (h : t.isAtomic = true) : t.fits t = true := by
  cases t with
  | scalar s => cases s <;> rfl
  | message n => simp [fits, accepts]
  | wrapper t =>
    cases t with
    | scalar s => cases s <;> rfl
    | _ => cases h
  | _ => cases h

mutual

theorem Compatible.refl (t : Ty) (h : t.isTame = true) : Compatible t t := by
  cases t with
  | list t => exact .list (Compatible.refl t h)
  | optional t => exact .optional (Compatible.refl t h)
  | map k v =>
    simp only [isTame, Bool.and_eq_true] at h
    exact .map (Compatible.refl k h.1) (Compatible.refl v h.2)
  | abstract n ps => exact .abstract (CompatibleAll.refl ps h)
  | function r ps =>
    simp only [isTame, Bool.and_eq_true] at h
    exact .function (Compatible.refl r h.1) (CompatibleAll.refl ps h.2)
  | param p => exact .param p
  | error d => exact .wild_left rfl
  | type t => cases h
  | scalar s => exact .atomic rfl rfl (fits_self_of_isAtomic rfl) (fits_self_of_isAtomic rfl)
  | message n => exact .atomic rfl rfl (fits_self_of_isAtomic rfl) (fits_self_of_isAtomic rfl)
  | wrapper t => exact .atomic h h (fits_self_of_isAtomic h) (fits_self_of_isAtomic h)

theorem CompatibleAll.refl (ts : List Ty) (h : isTameAll ts = true) : CompatibleAll ts ts := by
  cases ts with
  | nil => exact .nil
  | cons t ts =>
    simp only [isTameAll, Bool.and_eq_true] at h
    exact .cons (Compatible.refl t h.1) (CompatibleAll.refl ts h.2)

end

mutual

theorem Compatible.replace {f : String → Ty} (hf : ∀ p, (f p).isTame = true) {a b : Ty} :
    Compatible a b → Compatible (a.replace f) (b.replace f)
  | .param p => Compatible.refl (f p) (hf p)
  | .atomic ha hb h h' => by
    rw [replace_of_isAtomic ha, replace_of_isAtomic hb]
    exact .atomic ha hb h h'
  | .null_abstract n ps => .null_abstract n (replaceAll f ps)
  | .abstract_null n ps => .abstract_null n (replaceAll f ps)
  | .wild_left h => by
    rw [replace_of_isDynOrError h]
    exact .wild_left h
  | .wild_right h => by
    rw [replace_of_isDynOrError h]
    exact .wild_right h
  | .list h => .list (h.replace hf)
  | .optional h => .optional (h.replace hf)
  | .map hk hv => .map (hk.replace hf) (hv.replace hf)
  | .abstract h => .abstract (h.replace hf)
  | .function hr h => .function (hr.replace hf) (h.replace hf)

theorem CompatibleAll.replace {f : String → Ty} (hf : ∀ p, (f p).isTame = true)
    {as bs : List Ty} :
    CompatibleAll as bs → CompatibleAll (replaceAll f as) (replaceAll f bs)
  | .nil => .nil
  | .cons h hs => .cons (h.replace hf) (hs.replace hf)

end

theorem isScalar_iff {t : Ty} : t.isScalar = true ↔ ∃ s, t = .scalar s := by
  cases t <;> simp [isScalar]

theorem fits_symm_of_isAtomic {a b : Ty} (ha : a.isAtomic = true) (hb : b.isAtomic = true)
    (h : a.fits b = true) : b.fits a = true := by
  cases a with
  | scalar s =>
    cases b with
    | scalar s' => revert h; cases s <;> cases s' <;> decide
    | message n => revert h; cases s <;> simp [fits, isNullable, accepts]
    | wrapper t =>
      obtain ⟨s', rfl⟩ := isScalar_iff.1 hb
      revert h
      cases s <;> cases s' <;> decide
    | _ => cases hb
  | message n =>
    cases b with
    | scalar s => revert h; cases s <;> simp [fits, isNullable, accepts, Scalar.accepts]
    | message n' =>
      simp only [fits, accepts, beq_iff_eq] at h ⊢
      exact h.symm
    | wrapper t => simp [fits, accepts] at h
    | _ => cases hb
  | wrapper t =>
    obtain ⟨s, rfl⟩ := isScalar_iff.1 ha
    cases b with
    | scalar s' => revert h; cases s <;> cases s' <;> decide
    | message n => simp [fits, accepts] at h
    | wrapper t' =>
      obtain ⟨s', rfl⟩ := isScalar_iff.1 hb
      revert h
      cases s <;> cases s' <;> decide
    | _ => cases hb
  | _ => cases ha

theorem fits_of_isAtomic_left {a b : Ty} (ha : a.isAtomic = true) (hb : b.isAtomic = false)
    (htame : b.isTame = true) (hbp : ∀ q, b ≠ .param q) (h : a.fits b = true) :
    (a.isDynOrError = true ∨ b.isDynOrError = true) ∨
      a = .null ∧ ∃ n ps, b = .abstract n ps := by
  cases a with
  | scalar s =>
    cases s <;> cases b <;>
      simp_all [fits, isNullable, accepts, isAtomic, isTame, isDynOrError, isDyn, isError]
  | message n => cases b <;> simp_all [fits, accepts, isAtomic, isTame, isDynOrError, isError]
  | wrapper t => cases b <;> simp_all [fits, accepts, isAtomic, isTame, isDynOrError, isError]
  | _ => cases ha

theorem fits_of_not_isAtomic {a b : Ty} (ha : a.isAtomic = false) (htame : a.isTame = true)
    (hap : ∀ p, a ≠ .param p) (h : a.fits b = true) :
    (a.isDynOrError = true ∨ b.isDynOrError = true) ∨
      (∃ n ps, a = .abstract n ps) ∧ b = .null := by
  cases b with
  | scalar s =>
    cases s <;> cases a <;>
      simp_all [fits, isNullable, accepts, isAtomic, isTame, isDynOrError, isDyn, isError]
  | _ => cases a <;> simp_all [fits, isAtomic, isTame, isDynOrError, isError]

theorem Compatible.of_fits {a b : Ty} (ha : a.isTame = true) (hb : b.isTame = true)
    (hap : ∀ p, a ≠ .param p) (hbp : ∀ q, b ≠ .param q) (h : a.fits b = true) :
    Compatible a b := by
  cases hpa : a.isAtomic with
  | false =>
    rcases fits_of_not_isAtomic hpa ha hap h with (hw | hw) | ⟨⟨n, ps, rfl⟩, rfl⟩
    · exact .wild_left hw
    · exact .wild_right hw
    · exact .abstract_null n ps
  | true =>
    cases hpb : b.isAtomic with
    | false =>
      rcases fits_of_isAtomic_left hpa hpb hb hbp h with (hw | hw) | ⟨rfl, n, ps, rfl⟩
      · exact .wild_left hw
      · exact .wild_right hw
      · exact .null_abstract n ps
    | true => exact .atomic hpa hpb h (fits_symm_of_isAtomic hpa hpb h)

end Laws

section Permitting

/-- Whatever goes together with the second type goes together with the first. -/
def Permits (a' a : Ty) : Prop := ∀ b, Compatible a b → Compatible a' b

def PermitsAll (as' as : List Ty) : Prop := ∀ bs, CompatibleAll as bs → CompatibleAll as' bs

namespace Permits

theorem refl (a : Ty) : Permits a a := fun _ h => h

theorem trans {a b c : Ty} (h : Permits a b) (h' : Permits b c) : Permits a c :=
  fun d hd => h d (h' d hd)

theorem of_eq {a b : Ty} (h : a = b) : Permits a b := h ▸ refl a

theorem of_isDynOrError {a : Ty} (h : a.isDynOrError = true) (b : Ty) : Permits a b :=
  fun _ _ => .wild_left h

theorem list {t s : Ty} (h : Permits t s) : Permits (.list t) (.list s) := by
  intro b hb
  cases hb with
  | atomic ha => cases ha
  | wild_left ha => cases ha
  | wild_right hb => exact .wild_right hb
  | list hb => exact .list (h _ hb)

theorem optional {t s : Ty} (h : Permits t s) : Permits (.optional t) (.optional s) := by
  intro b hb
  cases hb with
  | atomic ha => cases ha
  | wild_left ha => cases ha
  | wild_right hb => exact .wild_right hb
  | optional hb => exact .optional (h _ hb)

theorem map {k v k' v' : Ty} (hk : Permits k k') (hv : Permits v v') :
    Permits (.map k v) (.map k' v') := by
  intro b hb
  cases hb with
  | atomic ha => cases ha
  | wild_left ha => cases ha
  | wild_right hb => exact .wild_right hb
  | map hbk hbv => exact .map (hk _ hbk) (hv _ hbv)

theorem abstract {n : String} {ps qs : List Ty} (h : PermitsAll ps qs) :
    Permits (.abstract n ps) (.abstract n qs) := by
  intro b hb
  cases hb with
  | atomic ha => cases ha
  | wild_left ha => cases ha
  | wild_right hb => exact .wild_right hb
  | abstract_null => exact .abstract_null n ps
  | abstract hb => exact .abstract (h _ hb)

theorem function {r r' : Ty} {ps qs : List Ty} (hr : Permits r r') (h : PermitsAll ps qs) :
    Permits (.function r ps) (.function r' qs) := by
  intro b hb
  cases hb with
  | atomic ha => cases ha
  | wild_left ha => cases ha
  | wild_right hb => exact .wild_right hb
  | function hbr hb => exact .function (hr _ hbr) (h _ hb)

end Permits

theorem PermitsAll.nil : PermitsAll [] [] := fun _ h => h

theorem PermitsAll.cons {a' a : Ty} {as' as : List Ty} (h : Permits a' a)
    (hs : PermitsAll as' as) : PermitsAll (a' :: as') (a :: as) := by
  rintro _ (_ | ⟨hb, hbs⟩)
  exact .cons (h _ hb) (hs _ hbs)

mutual

/-- Of two types the more general goes together with more, also when both are taken under
the same bindings. -/
theorem Permits.of_subsumes (f : String → Ty) (a' a : Ty) (ha : a'.isTame = true)
    (h : a'.subsumes a = true) : Permits (a'.replace f) (a.replace f) := by
  cases a' with
  | list t =>
    obtain ⟨s, rfl, hs⟩ := subsumes_list.1 h
    exact .list (Permits.of_subsumes f t s ha hs)
  | optional t =>
    obtain ⟨s, rfl, hs⟩ := subsumes_optional.1 h
    exact .optional (Permits.of_subsumes f t s ha hs)
  | map k v =>
    obtain ⟨k', v', rfl, hk, hv⟩ := subsumes_map.1 h
    simp only [isTame, Bool.and_eq_true] at ha
    exact .map (Permits.of_subsumes f k k' ha.1 hk) (Permits.of_subsumes f v v' ha.2 hv)
  | abstract n ps =>
    obtain ⟨qs, rfl, hq⟩ := subsumes_abstract.1 h
    exact .abstract (PermitsAll.of_subsumesAll f ps qs ha hq)
  | function r ps =>
    rw [subsumes_of_isRigid rfl] at h
    cases a with
    | function r' qs =>
      simp only [isTame, Bool.and_eq_true] at ha
      simp only [exact, Bool.and_eq_true] at h
      exact .function (Permits.of_subsumes f r r' ha.1 (subsumes_of_exact r r' h.1))
        (PermitsAll.of_subsumesAll f ps qs ha.2 (subsumesAll_of_exactAll ps qs h.2))
    | _ => cases h
  | error d => exact .of_isDynOrError rfl _
  | type t => cases ha
  | scalar s =>
    by_cases hs : s = .dyn
    · subst hs
      exact .of_isDynOrError rfl _
    · have hrigid : (Ty.scalar s).isRigid = true := by
        cases s <;> first | rfl | exact absurd rfl hs
      exact .of_eq (congrArg (replace f) (eq_of_subsumes_of_isAtomic rfl hrigid h))
  | message n => exact .of_eq (congrArg (replace f) (eq_of_subsumes_of_isAtomic rfl rfl h))
  | wrapper t =>
    have hp : (Ty.wrapper t).isAtomic = true := ha
    exact .of_eq (congrArg (replace f) (eq_of_subsumes_of_isAtomic hp rfl h))
  | param p =>
    rw [subsumes_of_isRigid rfl] at h
    exact .of_eq (congrArg (replace f) (exact_param.1 (exact_symm h)).symm)

theorem PermitsAll.of_subsumesAll (f : String → Ty) (as' as : List Ty)
    (ha : isTameAll as' = true) (h : subsumesAll as' as = true) :
    PermitsAll (replaceAll f as') (replaceAll f as) := by
  cases as' <;> cases as <;> simp only [subsumesAll, Bool.and_eq_true, Bool.false_eq_true] at h
  case nil.nil => exact .nil
  case cons.cons a' as' a as =>
    simp only [isTameAll, Bool.and_eq_true] at ha
    exact .cons (Permits.of_subsumes f a' a ha.1 h.1) (PermitsAll.of_subsumesAll f as' as ha.2 h.2)

end

mutual

theorem Permits.replace {f g : String → Ty} (t : Ty) (ht : t.isTame = true)
    (h : ∀ p ∈ t.paramNames, Permits (f p) (g p)) : Permits (t.replace f) (t.replace g) := by
  cases t with
  | list t => exact .list (Permits.replace t ht h)
  | optional t => exact .optional (Permits.replace t ht h)
  | map k v =>
    simp only [isTame, Bool.and_eq_true] at ht
    exact .map (Permits.replace k ht.1 fun p hp => h p (List.mem_append_left _ hp))
      (Permits.replace v ht.2 fun p hp => h p (List.mem_append_right _ hp))
  | abstract n ps => exact .abstract (PermitsAll.replaceAll ps ht h)
  | function r ps =>
    simp only [isTame, Bool.and_eq_true] at ht
    exact .function (Permits.replace r ht.1 fun p hp => h p (List.mem_append_left _ hp))
      (PermitsAll.replaceAll ps ht.2 fun p hp => h p (List.mem_append_right _ hp))
  | param p => exact h p List.mem_cons_self
  | wrapper t =>
    have hp : (Ty.wrapper t).isAtomic = true := ht
    rw [replace_of_isAtomic hp, replace_of_isAtomic hp]
    exact .refl _
  | type t => cases ht
  | scalar _ | message _ | error _ => exact .refl _

theorem PermitsAll.replaceAll {f g : String → Ty} (ts : List Ty) (ht : isTameAll ts = true)
    (h : ∀ p ∈ paramNamesAll ts, Permits (f p) (g p)) :
    PermitsAll (replaceAll f ts) (replaceAll g ts) := by
  cases ts with
  | nil => exact .nil
  | cons t ts =>
    simp only [isTameAll, Bool.and_eq_true] at ht
    exact .cons (Permits.replace t ht.1 fun p hp => h p (List.mem_append_left _ hp))
      (PermitsAll.replaceAll ts ht.2 fun p hp => h p (List.mem_append_right _ hp))

end

end Permitting

end Ty

end CelTyping
