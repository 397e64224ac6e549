import CelTyping.Proofs.Closing

/-! Matching of plain types: those in which nothing stands for more than itself. Null,
wrappers, `dyn`, types of types and errors match across structures, and so what matches
one of them need not match what that one matches. Where types end as plain ones there is
none of this: whatever has matched ends as one and the same type. -/
namespace CelTyping

mutual

/-- Built from primitives and messages without null, `dyn`, wrappers, types of types,
errors and parameters. -/
def Ty.isPlain : Ty → Bool
  | .scalar s => s.isPrimitive
  | .message _ => true
  | .list t => t.isPlain
  | .map k v => k.isPlain && v.isPlain
  | .optional t => t.isPlain
  | .abstract _ ps => Ty.isPlainAll ps
  | .function r ps => r.isPlain && Ty.isPlainAll ps
  | .wrapper _ | .type _ | .param _ | .error _ => false

def Ty.isPlainAll : List Ty → Bool
  | [] => true
  | t :: ts => t.isPlain && Ty.isPlainAll ts

end

namespace Bindings

def EndsPlain (M : Bindings) (t : Ty) : Prop := (M.substitute t true).isPlain = true

def EndPlain (M : Bindings) (ts : List Ty) : Prop :=
  Ty.isPlainAll (ts.map (M.substitute · true)) = true

variable {M : Bindings}

section Parts

theorem EndsPlain.list {t : Ty} (h : M.EndsPlain (.list t)) : M.EndsPlain t := h

theorem EndsPlain.optional {t : Ty} (h : M.EndsPlain (.optional t)) : M.EndsPlain t := h

theorem EndsPlain.map {k v : Ty} (h : M.EndsPlain (.map k v)) : M.EndsPlain k ∧ M.EndsPlain v :=
  Bool.and_eq_true_iff.1 h

theorem EndsPlain.abstract {n : String} {ps : List Ty} (h : M.EndsPlain (.abstract n ps)) :
    M.EndPlain ps := by
  unfold EndsPlain at h
  rwa [substitute_abstract] at h

theorem EndsPlain.function {r : Ty} {ps : List Ty} (h : M.EndsPlain (.function r ps)) :
    M.EndsPlain r ∧ M.EndPlain ps := by
  unfold EndsPlain at h
  rw [substitute_function] at h
  exact Bool.and_eq_true_iff.1 h

theorem EndPlain.cons {t : Ty} {ts : List Ty} (h : M.EndPlain (t :: ts)) :
    M.EndsPlain t ∧ M.EndPlain ts :=
  Bool.and_eq_true_iff.1 h

theorem EndsPlain.not_isTop {t : Ty} (h : M.EndsPlain t) : t.isTop = false := by
  cases t with
  | scalar s => cases s <;> first | rfl | cases h
  | type t => cases h
  | _ => rfl

theorem EndsPlain.congr {t s : Ty} (h : M.EndsPlain t)
    (he : M.substitute t true = M.substitute s true) : M.EndsPlain s := by
  unfold EndsPlain at h ⊢
  rwa [← he]

end Parts

section Comparing

mutual

theorem EndsPlain.eq_of_exact (a b : Ty) (ha : M.EndsPlain a) (h : a.exact b = true) :
    a = b := by
  cases a <;> cases b <;>
    simp only [Ty.exact, Bool.and_eq_true, beq_iff_eq, Bool.false_eq_true] at h
  case scalar.scalar s s' => rw [h]
  case message.message n n' => rw [h]
  case param.param p p' => rw [h]
  case list.list t t' => rw [EndsPlain.eq_of_exact t t' ha h]
  case optional.optional t t' => rw [EndsPlain.eq_of_exact t t' ha h]
  case map.map k v k' v' =>
    rw [EndsPlain.eq_of_exact k k' ha.map.1 h.1, EndsPlain.eq_of_exact v v' ha.map.2 h.2]
  case abstract.abstract n ps n' ps' =>
    rw [h.1, EndPlain.eq_of_exactAll ps ps' ha.abstract h.2]
  case function.function r ps r' ps' =>
    rw [EndsPlain.eq_of_exact r r' ha.function.1 h.1,
      EndPlain.eq_of_exactAll ps ps' ha.function.2 h.2]
  all_goals cases ha

theorem EndPlain.eq_of_exactAll (as bs : List Ty) (ha : M.EndPlain as)
    (h : Ty.exactAll as bs = true) : as = bs := by
  cases as <;> cases bs <;> simp only [Ty.exactAll, Bool.and_eq_true, Bool.false_eq_true] at h
  case nil.nil => rfl
  case cons.cons a as b bs =>
    rw [EndsPlain.eq_of_exact a b ha.cons.1 h.1, EndPlain.eq_of_exactAll as bs ha.cons.2 h.2]

end

mutual

theorem EndsPlain.eq_of_subsumes (a b : Ty) (ha : M.EndsPlain a) (h : a.subsumes b = true) :
    a = b := by
  by_cases hr : a.isRigid = true
  · rw [Ty.subsumes_of_isRigid hr] at h
    exact ha.eq_of_exact a b h
  · cases a with
    | list t =>
      obtain ⟨s, rfl, hs⟩ := Ty.subsumes_list.1 h
      rw [EndsPlain.eq_of_subsumes t s ha hs]
    | optional t =>
      obtain ⟨s, rfl, hs⟩ := Ty.subsumes_optional.1 h
      rw [EndsPlain.eq_of_subsumes t s ha hs]
    | map k v =>
      obtain ⟨k', v', rfl, hk, hv⟩ := Ty.subsumes_map.1 h
      rw [EndsPlain.eq_of_subsumes k k' ha.map.1 hk, EndsPlain.eq_of_subsumes v v' ha.map.2 hv]
    | abstract n ps =>
      obtain ⟨qs, rfl, hqs⟩ := Ty.subsumes_abstract.1 h
      rw [EndPlain.eq_of_subsumesAll ps qs ha.abstract hqs]
    | _ => exact absurd (by simp [Ty.isRigid, ha.not_isTop]) hr

theorem EndPlain.eq_of_subsumesAll (as bs : List Ty) (ha : M.EndPlain as)
    (h : Ty.subsumesAll as bs = true) : as = bs := by
  cases as <;> cases bs <;> simp only [Ty.subsumesAll, Bool.and_eq_true, Bool.false_eq_true] at h
  case nil.nil => rfl
  case cons.cons a as b bs =>
    rw [EndsPlain.eq_of_subsumes a b ha.cons.1 h.1,
      EndPlain.eq_of_subsumesAll as bs ha.cons.2 h.2]

end

end Comparing

section Agreement

/-- The bindings of parameters that end as plain types are the final ones. -/
def Settled (M m : Bindings) : Prop :=
  ∀ p t, M.EndsPlain (.param p) → m.get? p = some t → M.get? p = some t

def Settling (M m m' : Bindings) : Prop :=
  ∀ p t, M.EndsPlain (.param p) → m.get? p = none → m'.get? p = some t → M.get? p = some t

def Keeps (M m m' : Bindings) : Prop :=
  ∀ p t, M.EndsPlain (.param p) → m.get? p = some t → m'.get? p = some t

theorem Keeps.refl (M m : Bindings) : Keeps M m m := fun _ _ _ h => h

theorem Keeps.trans {m m₁ m' : Bindings} (h : Keeps M m m₁) (h' : Keeps M m₁ m') :
    Keeps M m m' :=
  fun p t hp ht => h' p t hp (h p t hp ht)

theorem substitute_of_get? (hM : M.Acyclic) {p : String} {t : Ty} (h : M.get? p = some t) :
    M.substitute (.param p) true = M.substitute t true := by
  rw [hM.substitute_param, h]

theorem EndsPlain.eq_of_get? (hM : M.Acyclic) {p : String} {t s : Ty}
    (hp : M.EndsPlain (.param p)) (ht : M.get? p = some t) (hs : t.subsumes s = true) : t = s :=
  (hp.congr (substitute_of_get? hM ht)).eq_of_subsumes t s hs

theorem Widened.settled (hM : M.Acyclic) {m : Bindings} (h : m.Widened M) : Settled M m := by
  intro p t hp ht
  obtain ⟨t', ht', hs⟩ := h p t ht
  rw [ht', hp.eq_of_get? hM ht' hs]

/-- What holds of two matches in a row holds up to the one in between, provided that the
first keeps what it finds. -/
theorem Settling.before (hM : M.Acyclic) {m m₁ m' : Bindings} (h : Settling M m m')
    (hw : m₁.Widened m') : Settling M m m₁ := by
  intro p t hp hn ht
  obtain ⟨t', ht', hs⟩ := hw p t ht
  have hM' := h p t' hp hn ht'
  rw [hM', hp.eq_of_get? hM hM' hs]

theorem Settling.after {m m₁ m' : Bindings} (h : Settling M m m') (hk : Keeps M m m₁) :
    Settling M m₁ m' := by
  intro p t hp hn ht
  refine h p t hp ?_ ht
  cases hm : m.get? p with
  | none => rfl
  | some s => rw [hk p s hp hm] at hn; cases hn

theorem Settled.after {m m₁ : Bindings} (h : Settled M m) (hk : Keeps M m m₁)
    (hn : Settling M m m₁) : Settled M m₁ := by
  intro p t hp ht
  cases hm : m.get? p with
  | none => exact hn p t hp hm ht
  | some s =>
    have hs := hk p s hp hm
    rw [ht] at hs
    cases hs
    exact h p t hp hm

theorem EndsPlain.eq_of_fits {a b : Ty} (ha : M.EndsPlain a) (hb : M.EndsPlain b)
    (hpa : ∀ p, a ≠ .param p) (hpb : ∀ q, b = .param q → a.paramNames ≠ [])
    (h : a.fits b = true) : a = b := by
  cases b with
  | wrapper t | type t | error d => cases hb
  | param q =>
    have hparams := hpb q rfl
    cases a with
    | param p => exact absurd rfl (hpa p)
    | scalar s => exact absurd rfl hparams
    | message n => exact absurd rfl hparams
    | wrapper t | type t | error d => cases ha
    | _ => cases h
  | scalar s =>
    have hs : s.isPrimitive = true := hb
    cases a with
    | scalar s' =>
      have hs' : s'.isPrimitive = true := ha
      cases s <;> cases s' <;> simp_all [Scalar.isPrimitive, Ty.fits, Ty.accepts, Scalar.accepts]
    | param p => exact absurd rfl (hpa p)
    | wrapper t | type t | error d => cases ha
    | _ => cases s <;> simp_all [Scalar.isPrimitive, Ty.fits, Ty.accepts, Scalar.accepts]
  | message n =>
    cases a with
    | scalar s =>
      have hs : s.isPrimitive = true := ha
      cases s <;> simp_all [Scalar.isPrimitive, Ty.fits, Ty.accepts]
    | message n' =>
      have hn : n = n' := by simpa [Ty.fits, Ty.accepts] using h
      rw [hn]
    | param p => exact absurd rfl (hpa p)
    | wrapper t | type t | error d => cases ha
    | _ => cases h
  | _ =>
    cases a with
    | scalar s =>
      have hs : s.isPrimitive = true := ha
      cases s <;> simp_all [Scalar.isPrimitive, Ty.fits, Ty.accepts]
    | param p => exact absurd rfl (hpa p)
    | wrapper t | type t | error d => cases ha
    | _ => cases h

mutual

/-- A match between types that end as plain ones leaves their parameters alone, and the
types end as the same one. -/
theorem Matches.keeps_and_eq (hM : M.Acyclic) {m m' : Bindings} {a b : Ty} (hm : Settled M m)
    (hn : Settling M m m') (ha : M.EndsPlain a) (hb : M.EndsPlain b) :
    Matches m a b m' → Keeps M m m' ∧ M.substitute a true = M.substitute b true
  | .right h => h.keeps_and_eq hM hm hn ha hb
  | .left h => by
    obtain ⟨hk, he⟩ := h.keeps_and_eq hM hm hn hb ha
    exact ⟨hk, he.symm⟩
  | .fits hpa hpb h => ⟨.refl M m, by rw [ha.eq_of_fits hb hpa hpb h]⟩
  | .list h => by
    obtain ⟨hk, he⟩ := h.keeps_and_eq hM hm hn ha.list hb.list
    exact ⟨hk, congrArg Ty.list he⟩
  | .optional h => by
    obtain ⟨hk, he⟩ := h.keeps_and_eq hM hm hn ha.optional hb.optional
    exact ⟨hk, congrArg Ty.optional he⟩
  | .map hk hv => by
    have hn₁ := hn.before hM hv.widened
    obtain ⟨hk₁, hek⟩ := hk.keeps_and_eq hM hm hn₁ ha.map.1 hb.map.1
    obtain ⟨hk₂, hev⟩ :=
      hv.keeps_and_eq hM (hm.after hk₁ hn₁) (hn.after hk₁) ha.map.2 hb.map.2
    exact ⟨hk₁.trans hk₂, congrArg₂ Ty.map hek hev⟩
  | .abstract h => by
    obtain ⟨hk, he⟩ := h.keeps_and_eq hM hm hn ha.abstract hb.abstract
    rw [substitute_abstract, substitute_abstract, he]
    exact ⟨hk, rfl⟩
  | .function hr h => by
    have hn₁ := hn.before hM h.widened
    obtain ⟨hk₁, her⟩ := hr.keeps_and_eq hM hm hn₁ ha.function.1 hb.function.1
    obtain ⟨hk₂, he⟩ :=
      h.keeps_and_eq hM (hm.after hk₁ hn₁) (hn.after hk₁) ha.function.2 hb.function.2
    rw [substitute_function, substitute_function, her, he]
    exact ⟨hk₁.trans hk₂, rfl⟩

theorem Binds.keeps_and_eq (hM : M.Acyclic) {m m' : Bindings} {t : Ty} {p : String}
    (hm : Settled M m) (hn : Settling M m m') (ht : M.EndsPlain t)
    (hp : M.EndsPlain (.param p)) :
    Binds m t p m' → Keeps M m m' ∧ M.substitute t true = M.substitute (.param p) true
  | .self => ⟨.refl M m, rfl⟩
  | .same hb he => by
    rw [substitute_of_get? hM (hm p _ hp hb), ht.eq_of_exact t _ he]
    exact ⟨.refl M m, rfl⟩
  | @Binds.widen _ m₁ _ bound _ hb h _ => by
    have hfinal := substitute_of_get? hM (hm p bound hp hb)
    have hn₁ : Settling M m m₁ := by
      intro q u hq hnone hu
      refine hn q u hq hnone ?_
      rw [Table.get?_insert_of_ne _ _ ?_]
      · exact hu
      · rintro rfl
        rw [hb] at hnone
        cases hnone
    obtain ⟨hk, he⟩ := h.keeps_and_eq hM hm hn₁ ht (hp.congr hfinal)
    refine ⟨?_, he.trans hfinal.symm⟩
    -- a plain type above the binding is the binding, so that nothing is widened
    have hwide : t.mostGeneral bound = bound := by
      rcases Ty.mostGeneral_cases t bound with ⟨heq, hs⟩ | heq
      · rw [heq, ht.eq_of_subsumes t bound hs]
      · exact heq
    intro q u hq hu
    by_cases hqp : q = p
    · subst hqp
      rw [hb] at hu
      cases hu
      rw [Table.get?_insert_self, hwide]
    · rw [Table.get?_insert_of_ne _ _ hqp]
      exact hk q u hq hu
  | .keep hb h => by
    have hfinal := substitute_of_get? hM (hm p _ hp hb)
    obtain ⟨hk, he⟩ := h.keeps_and_eq hM hm hn ht (hp.congr hfinal)
    exact ⟨hk, he.trans hfinal.symm⟩
  | .fresh hnone _ => by
    refine ⟨?_, (substitute_of_get? hM (hn p t hp hnone (Table.get?_insert_self _ _ _))).symm⟩
    intro q u hq hu
    rw [Table.get?_insert_of_ne _ _ ?_]
    · exact hu
    · rintro rfl
      rw [hnone] at hu
      cases hu

theorem MatchesAll.keeps_and_eq (hM : M.Acyclic) {m m' : Bindings} {as bs : List Ty}
    (hm : Settled M m) (hn : Settling M m m') (ha : M.EndPlain as) (hb : M.EndPlain bs) :
    MatchesAll m as bs m' →
      Keeps M m m' ∧ as.map (M.substitute · true) = bs.map (M.substitute · true)
  | .nil => ⟨.refl M m, rfl⟩
  | .cons h hs => by
    have hn₁ := hn.before hM hs.widened
    obtain ⟨hk₁, he⟩ := h.keeps_and_eq hM hm hn₁ ha.cons.1 hb.cons.1
    obtain ⟨hk₂, hes⟩ := hs.keeps_and_eq hM (hm.after hk₁ hn₁) (hn.after hk₁) ha.cons.2 hb.cons.2
    exact ⟨hk₁.trans hk₂, by simp only [List.map_cons, he, hes]⟩

end

theorem Matches.closed_eq (hM : M.Acyclic) {m m' : Bindings} {a b : Ty} (h : Matches m a b m')
    (hw : m'.Widened M) (ha : M.EndsPlain a) (hb : M.EndsPlain b) :
    M.substitute a true = M.substitute b true :=
  (h.keeps_and_eq hM ((h.widened.trans hw).settled hM)
    (fun p t hp _ ht => hw.settled hM p t hp ht) ha hb).2

end Agreement

end Bindings

end CelTyping
