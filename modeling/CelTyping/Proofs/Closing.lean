import CelTyping.Proofs.Termination

/-! Types at the end of a pass, when the bindings found take the place of parameters and
`dyn` that of the parameters without one. Without circles a parameter stands for exactly
what its binding stands for, so closing can be taken one binding at a time. Between
closed types, matching is a comparison of their structure. -/
namespace CelTyping

mutual

theorem Ty.replace_congr {f g : String → Ty} (t : Ty) (h : ∀ p ∈ t.paramNames, f p = g p) :
    t.replace f = t.replace g := by
  cases t with
  | list t => exact congrArg Ty.list (Ty.replace_congr t h)
  | wrapper t => exact congrArg Ty.wrapper (Ty.replace_congr t h)
  | type t => exact congrArg Ty.type (Ty.replace_congr t h)
  | optional t => exact congrArg Ty.optional (Ty.replace_congr t h)
  | map k v =>
    have hk := Ty.replace_congr k fun p hp => h p (List.mem_append_left _ hp)
    have hv := Ty.replace_congr v fun p hp => h p (List.mem_append_right _ hp)
    simp only [Ty.replace, hk, hv]
  | abstract n ps =>
    have hps := Ty.replaceAll_congr ps h
    simp only [Ty.replace, hps]
  | function r ps =>
    have hr := Ty.replace_congr r fun p hp => h p (List.mem_append_left _ hp)
    have hps := Ty.replaceAll_congr ps fun p hp => h p (List.mem_append_right _ hp)
    simp only [Ty.replace, hr, hps]
  | param p => exact h p List.mem_cons_self
  | scalar _ | message _ | error _ => rfl

theorem Ty.replaceAll_congr {f g : String → Ty} (ts : List Ty)
    (h : ∀ p ∈ Ty.paramNamesAll ts, f p = g p) : Ty.replaceAll f ts = Ty.replaceAll g ts := by
  cases ts with
  | nil => rfl
  | cons t ts =>
    have ht := Ty.replace_congr t fun p hp => h p (List.mem_append_left _ hp)
    have hts := Ty.replaceAll_congr ts fun p hp => h p (List.mem_append_right _ hp)
    simp only [Ty.replaceAll, ht, hts]

end

mutual

@[simp] theorem Ty.replace_replace (f g : String → Ty) (t : Ty) :
    (t.replace g).replace f = t.replace fun p => (g p).replace f := by
  cases t with
  | list t => exact congrArg Ty.list (Ty.replace_replace f g t)
  | wrapper t => exact congrArg Ty.wrapper (Ty.replace_replace f g t)
  | type t => exact congrArg Ty.type (Ty.replace_replace f g t)
  | optional t => exact congrArg Ty.optional (Ty.replace_replace f g t)
  | map k v => simp only [Ty.replace, Ty.replace_replace f g k, Ty.replace_replace f g v]
  | abstract n ps => simp only [Ty.replace, Ty.replaceAll_replaceAll f g ps]
  | function r ps =>
    simp only [Ty.replace, Ty.replace_replace f g r, Ty.replaceAll_replaceAll f g ps]
  | param p | scalar _ | message _ | error _ => rfl

@[simp] theorem Ty.replaceAll_replaceAll (f g : String → Ty) (ts : List Ty) :
    Ty.replaceAll f (Ty.replaceAll g ts) = Ty.replaceAll (fun p => (g p).replace f) ts := by
  cases ts with
  | nil => rfl
  | cons t ts =>
    simp only [Ty.replaceAll, Ty.replace_replace f g t, Ty.replaceAll_replaceAll f g ts]

end

mutual

@[simp] theorem Ty.paramNames_replace_eq (f : String → Ty) (t : Ty) :
    (t.replace f).paramNames = t.paramNames.flatMap fun p => (f p).paramNames := by
  cases t with
  | list t | wrapper t | type t | optional t => exact Ty.paramNames_replace_eq f t
  | map k v =>
    simp only [Ty.replace, Ty.paramNames, List.flatMap_append, Ty.paramNames_replace_eq f k,
      Ty.paramNames_replace_eq f v]
  | abstract n ps => exact Ty.paramNamesAll_replaceAll_eq f ps
  | function r ps =>
    simp only [Ty.replace, Ty.paramNames, List.flatMap_append, Ty.paramNames_replace_eq f r,
      Ty.paramNamesAll_replaceAll_eq f ps]
  | param p => simp [Ty.replace, Ty.paramNames]
  | scalar _ | message _ | error _ => rfl

@[simp] theorem Ty.paramNamesAll_replaceAll_eq (f : String → Ty) (ts : List Ty) :
    Ty.paramNamesAll (Ty.replaceAll f ts) =
      (Ty.paramNamesAll ts).flatMap fun p => (f p).paramNames := by
  cases ts with
  | nil => rfl
  | cons t ts =>
    simp only [Ty.replaceAll, Ty.paramNamesAll, List.flatMap_append, Ty.paramNames_replace_eq f t,
      Ty.paramNamesAll_replaceAll_eq f ts]

end

theorem Ty.paramNames_replace {f : String → Ty} (hf : ∀ p, (f p).paramNames = []) (t : Ty) :
    (t.replace f).paramNames = [] := by
  rw [Ty.paramNames_replace_eq]
  exact List.flatMap_eq_nil_iff.2 fun p _ => hf p

mutual

theorem Ty.accepts_of_exact (a b : Ty) (h : a.exact b = true) : a.accepts b = true := by
  cases a <;> cases b <;>
    simp only [Ty.exact, Bool.and_eq_true, beq_iff_eq, Bool.false_eq_true] at h
  case scalar.scalar s s' => cases s' <;> simp_all [Ty.accepts, Scalar.accepts]
  case list.list t t' => exact Ty.accepts_of_exact t t' h
  case map.map k v k' v' =>
    simp only [Ty.accepts, Ty.accepts_of_exact k k' h.1, Ty.accepts_of_exact v v' h.2,
      Bool.and_self]
  case wrapper.wrapper t t' => exact Ty.accepts_of_exact t t' h
  case type.type t t' => exact Ty.accepts_of_exact t t' h
  case optional.optional t t' => exact Ty.accepts_of_exact t t' h
  case abstract.abstract n ps n' ps' =>
    simp only [Ty.accepts, h.1, Ty.acceptsAll_of_exactAll ps ps' h.2, beq_self_eq_true,
      Bool.and_self]
  case function.function r ps r' ps' =>
    simp only [Ty.accepts, Ty.accepts_of_exact r r' h.1, Ty.acceptsAll_of_exactAll ps ps' h.2,
      Bool.and_self]
  all_goals simp_all [Ty.accepts]

theorem Ty.acceptsAll_of_exactAll (as bs : List Ty) (h : Ty.exactAll as bs = true) :
    Ty.acceptsAll as bs = true := by
  cases as <;> cases bs <;> simp only [Ty.exactAll, Bool.and_eq_true, Bool.false_eq_true] at h
  case nil.nil => rfl
  case cons.cons a as b bs =>
    simp only [Ty.acceptsAll, Ty.accepts_of_exact a b h.1, Ty.acceptsAll_of_exactAll as bs h.2,
      Bool.and_self]

end

mutual

@[simp] theorem Ty.blank_replace (f : String → Ty) (t : Ty) :
    (t.replace f).blank = t.blank.replace fun p => (f p).blank := by
  cases t with
  | list t => exact congrArg Ty.list (Ty.blank_replace f t)
  | wrapper t => exact congrArg Ty.wrapper (Ty.blank_replace f t)
  | type t => exact congrArg Ty.type (Ty.blank_replace f t)
  | optional t => exact congrArg Ty.optional (Ty.blank_replace f t)
  | map k v => simp only [Ty.replace, Ty.blank, Ty.blank_replace f k, Ty.blank_replace f v]
  | abstract n ps => simp only [Ty.replace, Ty.blank, Ty.blankAll_replaceAll f ps]
  | function r ps =>
    simp only [Ty.replace, Ty.blank, Ty.blank_replace f r, Ty.blankAll_replaceAll f ps]
  | param p | scalar _ | message _ | error _ => rfl

@[simp] theorem Ty.blankAll_replaceAll (f : String → Ty) (ts : List Ty) :
    Ty.blankAll (Ty.replaceAll f ts) = Ty.replaceAll (fun p => (f p).blank) (Ty.blankAll ts) := by
  cases ts with
  | nil => rfl
  | cons t ts =>
    simp only [Ty.replaceAll, Ty.blankAll, Ty.blank_replace f t, Ty.blankAll_replaceAll f ts]

end

/-- The types that match every type of types as they stand. -/
def Ty.isLoose (t : Ty) : Bool := t.isTop || t.isError

theorem Ty.fits_type_of_isLoose {t x : Ty} (h : t.isLoose = true) : t.fits (.type x) = true := by
  cases t with
  | scalar s => cases s <;> first | rfl | cases h
  | type t => rfl
  | error d => rfl
  | _ => cases h

namespace Bindings

section Resolving

variable {m : Bindings}

/-- Resolving does not depend on the fuel, nor on bindings that are not come upon. -/
theorem Acyclic.resolve_eq (hm : m.Acyclic) (unbound : String → Ty) (n : Nat) :
    ∀ (k : Nat) (m₁ m₂ : Bindings) (p : String), m.reach p ≤ n → m.reach p ≤ k →
      (∀ q, m.Leads p q → m₁.get? q = m.get? q) → (∀ q, m.Leads p q → m₂.get? q = m.get? q) →
        resolve unbound n m₁ p = resolve unbound k m₂ p := by
  induction n with
  | zero =>
    intro k m₁ m₂ p hn hk h₁ h₂
    have hp : m.get? p = none := by
      cases ht : m.get? p with
      | none => rfl
      | some t =>
        have hpos := (hm.ranked p t ht).1
        omega
    cases k with
    | zero => rfl
    | succ k => simp only [resolve, h₂ p (.inl rfl), hp]
  | succ n ih =>
    intro k m₁ m₂ p hn hk h₁ h₂
    cases ht : m.get? p with
    | none =>
      cases k with
      | zero => simp only [resolve, h₁ p (.inl rfl), ht]
      | succ k => simp only [resolve, h₁ p (.inl rfl), h₂ p (.inl rfl), ht]
    | some t =>
      obtain ⟨hpos, hfall⟩ := hm.ranked p t ht
      obtain ⟨k, rfl⟩ : ∃ j, k = j + 1 := ⟨k - 1, by omega⟩
      simp only [resolve, h₁ p (.inl rfl), h₂ p (.inl rfl), ht]
      refine Ty.replace_congr t fun q hq => ?_
      have hlt := hfall q hq
      have hf : m.Follows p q := ⟨t, ht, hq⟩
      -- what `q` leads to is not `p`, so taking `p` out changes nothing there
      have herase (m' : Bindings) (h : ∀ r, m.Leads p r → m'.get? r = m.get? r) (r : String)
          (hr : m.Leads q r) : Table.get? (m'.erase p) r = m.get? r := by
        rw [Table.get?_erase, if_neg, h r (.inr (hf.leads hr))]
        intro he
        cases Std.LawfulEqCmp.eq_of_compare he
        exact hm p (hf.leads hr)
      exact ih k (m₁.erase p) (m₂.erase p) q (by omega) (by omega) (herase m₁ h₁) (herase m₂ h₂)

theorem Acyclic.substitute_param (hm : m.Acyclic) (p : String) (close : Bool) :
    m.substitute (.param p) close =
      match m.get? p with
      | some t => m.substitute t close
      | none => if close then .dyn else .param p := by
  have hstep := hm.resolve_eq (fun p => if close then .dyn else .param p) m.size (m.size + 1)
    m m p (m.reach_le_size p) (Nat.le_succ_of_le (m.reach_le_size p)) (fun _ _ => rfl)
    (fun _ _ => rfl)
  simp only [substitute, Ty.replace]
  rw [hstep, resolve]
  cases ht : m.get? p with
  | none => rfl
  | some t =>
    simp only
    refine Ty.replace_congr t fun q hq => ?_
    have hf : m.Follows p q := ⟨t, ht, hq⟩
    refine hm.resolve_eq _ _ _ _ _ q (m.reach_le_size q) (m.reach_le_size q) (fun r hr => ?_)
      (fun _ _ => rfl)
    rw [Table.get?_erase, if_neg]
    intro he
    cases Std.LawfulEqCmp.eq_of_compare he
    exact hm p (hf.leads hr)

theorem resolve_closed (n : Nat) : ∀ (m : Bindings) (p : String),
    (resolve (fun p => if true then .dyn else .param p) n m p).paramNames = [] := by
  induction n with
  | zero => intro m p; rfl
  | succ n ih =>
    intro m p
    simp only [resolve]
    split
    next t _ => exact Ty.paramNames_replace (ih _) t
    next => rfl

@[simp] theorem substitute_closed (m : Bindings) (t : Ty) : (m.substitute t true).paramNames = [] :=
  Ty.paramNames_replace (resolve_closed m.size m) t

end Resolving

section Parts

variable (m : Bindings) (close : Bool)

@[simp] theorem substitute_abstract (n : String) (ps : List Ty) :
    m.substitute (.abstract n ps) close = .abstract n (ps.map (m.substitute · close)) := by
  simp only [substitute, Ty.replace, Ty.replaceAll_eq_map]

@[simp] theorem substitute_function (r : Ty) (ps : List Ty) :
    m.substitute (.function r ps) close =
      .function (m.substitute r close) (ps.map (m.substitute · close)) := by
  simp only [substitute, Ty.replace, Ty.replaceAll_eq_map]

theorem substitute_all_closed (ts : List Ty) :
    Ty.paramNamesAll (ts.map (m.substitute · true)) = [] := by
  have h := m.substitute_closed (.abstract "" ts)
  rwa [substitute_abstract] at h

end Parts

section Passing

def Passes (a b : Ty) : Prop :=
  ∀ n m, assign n m a b = .ok m ∨ assign n m a b = .error .outOfFuel

def PassesAll (as bs : List Ty) : Prop :=
  ∀ n m, pairwise (assign n) m as bs = .ok m ∨ pairwise (assign n) m as bs = .error .outOfFuel

theorem Passes.assignable {a b : Ty} (h : Passes a b) :
    (∅ : Bindings).assignable? a b = some ∅ := by
  unfold assignable?
  rcases h _ ∅ with h | h
  · rw [h]
    rfl
  · exact absurd h (acyclic_empty.assign_fuel_ne a b)

theorem passes_of_assignParts {a b : Ty} (ha : a.paramNames = []) (hb : b.paramNames = [])
    (h : ∀ n m, assignParts (assign n) m a b = .ok m ∨
      assignParts (assign n) m a b = .error .outOfFuel) : Passes a b := by
  intro n m
  cases n with
  | zero => exact .inr rfl
  | succ n =>
    have hb' : ∀ q, b ≠ .param q := by
      rintro q rfl
      simp [Ty.paramNames] at hb
    rw [assign_of_ne_param n m a hb']
    cases a with
    | param p => simp [Ty.paramNames] at ha
    | _ => exact h n m

theorem Passes.list {a b : Ty} (ha : a.paramNames = []) (hb : b.paramNames = [])
    (h : Passes a b) : Passes (.list a) (.list b) :=
  passes_of_assignParts ha hb h

theorem Passes.optional {a b : Ty} (ha : a.paramNames = []) (hb : b.paramNames = [])
    (h : Passes a b) : Passes (.optional a) (.optional b) :=
  passes_of_assignParts ha hb h

theorem Passes.map {k v k' v' : Ty} (ha : (Ty.map k v).paramNames = [])
    (hb : (Ty.map k' v').paramNames = []) (hk : Passes k k') (hv : Passes v v') :
    Passes (.map k v) (.map k' v') := by
  refine passes_of_assignParts ha hb fun n m => ?_
  simp only [assignParts]
  rcases hk n m with hk | hk
  · rw [hk]
    exact hv n m
  · rw [hk]
    exact .inr rfl

theorem PassesAll.nil : PassesAll [] [] := fun _ _ => .inl rfl

theorem PassesAll.cons {a b : Ty} {as bs : List Ty} (h : Passes a b) (hs : PassesAll as bs) :
    PassesAll (a :: as) (b :: bs) := by
  intro n m
  simp only [pairwise]
  rcases h n m with h | h
  · rw [h]
    exact hs n m
  · rw [h]
    exact .inr rfl

theorem PassesAll.abstract {n : String} {as bs : List Ty}
    (ha : Ty.paramNamesAll as = []) (hb : Ty.paramNamesAll bs = []) (h : PassesAll as bs) :
    Passes (.abstract n as) (.abstract n bs) := by
  refine passes_of_assignParts ha hb fun k m => ?_
  simp only [assignParts, if_true]
  exact h k m

theorem Passes.function {r r' : Ty} {as bs : List Ty}
    (ha : (Ty.function r as).paramNames = []) (hb : (Ty.function r' bs).paramNames = [])
    (hr : Passes r r') (h : PassesAll as bs) : Passes (.function r as) (.function r' bs) := by
  refine passes_of_assignParts ha hb fun n m => ?_
  simp only [assignParts]
  rcases hr n m with hr | hr
  · rw [hr]
    exact h n m
  · rw [hr]
    exact .inr rfl

theorem assignParts_of_fits {step : Bindings → Ty → Ty → Except Stop Bindings} {m : Bindings}
    {a b : Ty} (h : a.fits b = true) : m.assignParts step a b = .ok m := by
  unfold Ty.fits at h
  unfold assignParts
  split at h <;> simp_all [keepIf]

theorem passes_of_fits {a b : Ty} (ha : a.paramNames = []) (hb : b.paramNames = [])
    (h : a.fits b = true) : Passes a b :=
  passes_of_assignParts ha hb fun _ _ => .inl (assignParts_of_fits h)

mutual

theorem passes_of_exact (a b : Ty) (ha : a.paramNames = []) (hb : b.paramNames = [])
    (h : b.exact a = true) : Passes a b := by
  cases a with
  | param p => simp [Ty.paramNames] at ha
  | list a =>
    obtain ⟨b, rfl⟩ : ∃ t, b = .list t := by cases b <;> simp_all [Ty.exact]
    exact (passes_of_exact a b ha hb h).list ha hb
  | optional a =>
    obtain ⟨b, rfl⟩ : ∃ t, b = .optional t := by cases b <;> simp_all [Ty.exact]
    exact (passes_of_exact a b ha hb h).optional ha hb
  | map k v =>
    obtain ⟨k', v', rfl⟩ : ∃ k' v', b = .map k' v' := by cases b <;> simp_all [Ty.exact]
    simp only [Ty.exact, Bool.and_eq_true] at h
    have hk := List.append_eq_nil_iff.1 ha
    have hk' := List.append_eq_nil_iff.1 hb
    exact (passes_of_exact k k' hk.1 hk'.1 h.1).map ha hb (passes_of_exact v v' hk.2 hk'.2 h.2)
  | abstract n as =>
    obtain ⟨n', bs, rfl⟩ : ∃ n' bs, b = .abstract n' bs := by cases b <;> simp_all [Ty.exact]
    simp only [Ty.exact, Bool.and_eq_true, beq_iff_eq] at h
    obtain ⟨rfl, h⟩ := h
    exact (passesAll_of_exactAll as bs ha hb h).abstract ha hb
  | function r as =>
    obtain ⟨r', bs, rfl⟩ : ∃ r' bs, b = .function r' bs := by cases b <;> simp_all [Ty.exact]
    simp only [Ty.exact, Bool.and_eq_true] at h
    have hr := List.append_eq_nil_iff.1 ha
    have hr' := List.append_eq_nil_iff.1 hb
    exact (passes_of_exact r r' hr.1 hr'.1 h.1).function ha hb
      (passesAll_of_exactAll as bs hr.2 hr'.2 h.2)
  | scalar s =>
    obtain rfl : b = .scalar s := by cases b <;> simp_all [Ty.exact]
    refine passes_of_fits ha hb ?_
    cases s <;> rfl
  | message n =>
    obtain rfl : b = .message n := by cases b <;> simp_all [Ty.exact]
    exact passes_of_fits ha hb (Ty.fits_message (by simp [Ty.accepts]))
  | wrapper a => exact passes_of_fits ha hb (Ty.fits_wrapper (Ty.accepts_of_exact b _ h))
  | type a =>
    obtain ⟨b, rfl⟩ : ∃ t, b = .type t := by cases b <;> simp_all [Ty.exact]
    exact passes_of_fits ha hb rfl
  | error d => exact passes_of_fits ha hb rfl

theorem passesAll_of_exactAll (as bs : List Ty) (ha : Ty.paramNamesAll as = [])
    (hb : Ty.paramNamesAll bs = []) (h : Ty.exactAll bs as = true) : PassesAll as bs := by
  cases as <;> cases bs <;> simp only [Ty.exactAll, Bool.and_eq_true, Bool.false_eq_true] at h
  case nil.nil => exact .nil
  case cons.cons a as b bs =>
    have ha := List.append_eq_nil_iff.1 ha
    have hb := List.append_eq_nil_iff.1 hb
    exact .cons (passes_of_exact a b ha.1 hb.1 h.1) (passesAll_of_exactAll as bs ha.2 hb.2 h.2)

end

end Passing

section Covering

variable {M : Bindings}

theorem exact_substitute (m : Bindings) (close : Bool) {a b : Ty} (h : a.exact b = true) :
    (m.substitute a close).exact (m.substitute b close) = true := by
  rw [Ty.exact_iff] at h ⊢
  simp only [substitute, Ty.blank_replace, h]

theorem isLoose_substitute {a : Ty} (h : a.isTop = true) :
    (M.substitute a true).isLoose = true := by
  cases a with
  | scalar s => simp_all [substitute, Ty.replace, Ty.isLoose]
  | type t => rfl
  | _ => cases h

theorem isLoose_of_subsumes {a b : Ty} (h : a.subsumes b = true)
    (hb : (M.substitute b true).isLoose = true) : (M.substitute a true).isLoose = true := by
  cases Ty.above_of_subsumes h with
  | top ha => exact isLoose_substitute ha
  | exact _ he =>
    have he' := exact_substitute M true he
    revert hb he'
    generalize M.substitute a true = a'
    generalize M.substitute b true = b'
    intro hb he'
    cases a' <;> cases b' <;> simp_all [Ty.exact, Ty.isLoose, Ty.isTop, Ty.isError]
  | _ => cases hb

theorem Widened.isLoose_param {m : Bindings} (h : m.Widened M) (hM : M.Acyclic) {p : String}
    {t : Ty} (hp : m.get? p = some t) (ht : (M.substitute t true).isLoose = true) :
    (M.substitute (.param p) true).isLoose = true := by
  obtain ⟨t', hp', hs⟩ := h p t hp
  rw [hM.substitute_param, hp']
  exact isLoose_of_subsumes hs ht

mutual

theorem Matches.isLoose {m m' : Bindings} {a b : Ty} (hM : M.Acyclic) (hw : m'.Widened M)
    (ha : a.kind = .type) : Matches m a b m' → (M.substitute b true).isLoose = true
  | .right h => h.isLoose hM hw ha
  | .left _ | .list _ | .optional _ | .map _ _ | .abstract _ | .function _ _ => by cases ha
  | .fits _ _ h => by
    cases a with
    | type x =>
      cases b with
      | scalar s =>
        cases s <;> simp_all [Ty.fits, Ty.isNullable, Ty.accepts, substitute, Ty.replace,
          Ty.isLoose, Ty.isTop]
      | type t => rfl
      | error d => rfl
      | _ => cases h
    | _ => cases ha

theorem Binds.isLoose {m m' : Bindings} {a : Ty} {p : String} (hM : M.Acyclic)
    (hw : m'.Widened M) (ha : a.kind = .type) :
    Binds m a p m' → (M.substitute (.param p) true).isLoose = true
  | .self => by cases ha
  | @Binds.same _ _ bound _ hb he => by
    refine hw.isLoose_param hM hb (isLoose_substitute ?_)
    cases a <;> cases ha
    next x => cases bound <;> first | rfl | cases he
  | .widen hb h ho => by
    refine hw.isLoose_param hM (Table.get?_insert_self _ _ _) (isLoose_substitute ?_)
    cases a <;> cases ha
    next x => simp [Ty.mostGeneral, Ty.subsumes, Ty.isTop]
  | .keep hb h => (h.widened.trans hw).isLoose_param hM hb (h.isLoose hM hw ha)
  | .fresh hn ho => by
    refine hw.isLoose_param hM (Table.get?_insert_self _ _ _) (isLoose_substitute ?_)
    cases a <;> cases ha
    next x => rfl

end

mutual

/-- A type that has matched one above it can be used as that one in the end. -/
theorem Matches.covered (hM : M.Acyclic) {m m' : Bindings} (hw : m'.Widened M) (r c : Ty)
    (hs : r.subsumes c = true) (h : Matches m r c m') :
    Passes (M.substitute c true) (M.substitute r true) := by
  have hc := M.substitute_closed c
  have hr := M.substitute_closed r
  cases r with
  | list r =>
    obtain ⟨c, rfl, hs⟩ := Ty.subsumes_list.1 hs
    cases h with
    | list h => exact (h.covered hM hw r c hs).list hc hr
    | fits _ _ h => cases h
  | optional r =>
    obtain ⟨c, rfl, hs⟩ := Ty.subsumes_optional.1 hs
    cases h with
    | optional h => exact (h.covered hM hw r c hs).optional hc hr
    | fits _ _ h => cases h
  | map k v =>
    obtain ⟨k', v', rfl, hsk, hsv⟩ := Ty.subsumes_map.1 hs
    cases h with
    | map hk hv =>
      exact (hk.covered hM (hv.widened.trans hw) k k' hsk).map hc hr (hv.covered hM hw v v' hsv)
    | fits _ _ h => cases h
  | abstract n ps =>
    obtain ⟨qs, rfl, hqs⟩ := Ty.subsumes_abstract.1 hs
    cases h with
    | abstract h =>
      rw [substitute_abstract, substitute_abstract]
      exact (h.covered hM hw ps qs hqs).abstract (M.substitute_all_closed qs)
        (M.substitute_all_closed ps)
    | fits _ _ h => cases h
  | type x =>
    exact passes_of_fits hc hr (Ty.fits_type_of_isLoose (h.isLoose hM hw rfl))
  | scalar s =>
    by_cases hd : s = .dyn
    · subst hd
      exact passes_of_fits hc hr (Ty.fits_dyn_right _)
    · have hrigid : (Ty.scalar s).isRigid = true := by
        cases s <;> first | rfl | exact absurd rfl hd
      rw [Ty.subsumes_of_isRigid hrigid] at hs
      exact passes_of_exact _ _ hc hr (exact_substitute M true hs)
  | _ =>
    rw [Ty.subsumes_of_isRigid rfl] at hs
    exact passes_of_exact _ _ hc hr (exact_substitute M true hs)

theorem MatchesAll.covered (hM : M.Acyclic) {m m' : Bindings} (hw : m'.Widened M)
    (rs cs : List Ty) (hs : Ty.subsumesAll rs cs = true) (h : MatchesAll m rs cs m') :
    PassesAll (cs.map (M.substitute · true)) (rs.map (M.substitute · true)) := by
  cases rs with
  | nil =>
    cases h
    exact .nil
  | cons r rs =>
    cases h with
    | cons h hs' =>
      simp only [Ty.subsumesAll, Bool.and_eq_true] at hs
      exact .cons (h.covered hM (hs'.widened.trans hw) r _ hs.1) (hs'.covered hM hw rs _ hs.2)

end

end Covering

end Bindings

end CelTyping
