import CelTyping.Proofs.Closing

/-! Putting bindings into a type. The walk through the bindings keeps a list of the parameters
that it is following and follows none of them a second time, so it ends on any bindings, also
where they run in a circle. Closing a type walks the same way as leaving it open does, and
differs in what it makes of the parameters that are left. Without a circle nothing depends on
the list, and then it makes no difference if some of the bindings are put in beforehand. -/
namespace CelTyping

namespace Bindings

section Walking

mutual

/-- While the parameters of the path are being followed, the first type becomes the second. -/
inductive Substitutes (m : Bindings) (close : Bool) : List String → Ty → Ty → Prop where
  | follow {path : List String} {p : String} {t u : Ty} :
      m.get? p = some t → p ∉ path → Substitutes m close (p :: path) t u →
        Substitutes m close path (.param p) u
  /-- There is no binding, or it is being followed already. -/
  | stay {path : List String} {p : String} :
      (∀ t, m.get? p = some t → p ∈ path) →
        Substitutes m close path (.param p) (if close then .dyn else .param p)
  | list {path : List String} {t u : Ty} :
      Substitutes m close path t u → Substitutes m close path (.list t) (.list u)
  | map {path : List String} {k k' v v' : Ty} :
      Substitutes m close path k k' → Substitutes m close path v v' →
        Substitutes m close path (.map k v) (.map k' v')
  | wrapper {path : List String} {t u : Ty} :
      Substitutes m close path t u → Substitutes m close path (.wrapper t) (.wrapper u)
  | type {path : List String} {t u : Ty} :
      Substitutes m close path t u → Substitutes m close path (.type t) (.type u)
  | optional {path : List String} {t u : Ty} :
      Substitutes m close path t u → Substitutes m close path (.optional t) (.optional u)
  | abstract {path : List String} {n : String} {ts us : List Ty} :
      SubstitutesAll m close path ts us →
        Substitutes m close path (.abstract n ts) (.abstract n us)
  | function {path : List String} {r r' : Ty} {ts us : List Ty} :
      Substitutes m close path r r' → SubstitutesAll m close path ts us →
        Substitutes m close path (.function r ts) (.function r' us)
  | scalar {path : List String} {s : Scalar} :
      Substitutes m close path (.scalar s) (.scalar s)
  | message {path : List String} {n : String} :
      Substitutes m close path (.message n) (.message n)
  | error {path : List String} {d : Diagnostic} :
      Substitutes m close path (.error d) (.error d)

inductive SubstitutesAll (m : Bindings) (close : Bool) :
    List String → List Ty → List Ty → Prop where
  | nil {path : List String} : SubstitutesAll m close path [] []
  | cons {path : List String} {t u : Ty} {ts us : List Ty} :
      Substitutes m close path t u → SubstitutesAll m close path ts us →
        SubstitutesAll m close path (t :: ts) (u :: us)

end

variable {m : Bindings} {close : Bool}

mutual

theorem Substitutes.unique {path : List String} {t u u' : Ty} :
    Substitutes m close path t u → Substitutes m close path t u' → u = u'
  | .follow hb _ h, .follow hb' _ h' => by
    rw [hb] at hb'
    cases hb'
    exact h.unique h'
  | .follow hb hn _, .stay hs => absurd (hs _ hb) hn
  | .stay hs, .follow hb hn _ => absurd (hs _ hb) hn
  | .stay _, .stay _ => rfl
  | .list h, .list h' => congrArg Ty.list (h.unique h')
  | .map hk hv, .map hk' hv' => congrArg₂ Ty.map (hk.unique hk') (hv.unique hv')
  | .wrapper h, .wrapper h' => congrArg Ty.wrapper (h.unique h')
  | .type h, .type h' => congrArg Ty.type (h.unique h')
  | .optional h, .optional h' => congrArg Ty.optional (h.unique h')
  | .abstract h, .abstract h' => congrArg (Ty.abstract _) (h.unique h')
  | .function hr h, .function hr' h' => congrArg₂ Ty.function (hr.unique hr') (h.unique h')
  | .scalar, .scalar => rfl
  | .message, .message => rfl
  | .error, .error => rfl

theorem SubstitutesAll.unique {path : List String} {ts us us' : List Ty} :
    SubstitutesAll m close path ts us → SubstitutesAll m close path ts us' → us = us'
  | .nil, .nil => rfl
  | .cons h hs, .cons h' hs' => congrArg₂ List.cons (h.unique h') (hs.unique hs')

end

mutual

theorem Substitutes.replace {path : List String} {f : String → Ty} (t : Ty)
    (h : ∀ p ∈ t.paramNames, Substitutes m close path (.param p) (f p)) :
    Substitutes m close path t (t.replace f) := by
  cases t with
  | list t => exact .list (Substitutes.replace t h)
  | map k v =>
    exact .map (Substitutes.replace k fun p hp => h p (List.mem_append_left _ hp))
      (Substitutes.replace v fun p hp => h p (List.mem_append_right _ hp))
  | wrapper t => exact .wrapper (Substitutes.replace t h)
  | type t => exact .type (Substitutes.replace t h)
  | optional t => exact .optional (Substitutes.replace t h)
  | abstract n ts => exact .abstract (SubstitutesAll.replaceAll ts h)
  | function r ts =>
    exact .function (Substitutes.replace r fun p hp => h p (List.mem_append_left _ hp))
      (SubstitutesAll.replaceAll ts fun p hp => h p (List.mem_append_right _ hp))
  | param p => exact h p List.mem_cons_self
  | scalar s => exact .scalar
  | message n => exact .message
  | error d => exact .error

theorem SubstitutesAll.replaceAll {path : List String} {f : String → Ty} (ts : List Ty)
    (h : ∀ p ∈ Ty.paramNamesAll ts, Substitutes m close path (.param p) (f p)) :
    SubstitutesAll m close path ts (Ty.replaceAll f ts) := by
  cases ts with
  | nil => exact .nil
  | cons t ts =>
    exact .cons (Substitutes.replace t fun p hp => h p (List.mem_append_left _ hp))
      (SubstitutesAll.replaceAll ts fun p hp => h p (List.mem_append_right _ hp))

end

/-- The bindings that may still be followed are those without the path. -/
def Unfollowed (m : Bindings) (path : List String) (rest : Bindings) : Prop :=
  ∀ p, rest.get? p = if p ∈ path then none else m.get? p

theorem unfollowed_nil (m : Bindings) : m.Unfollowed [] m := fun _ => rfl

theorem Unfollowed.erase {path : List String} {rest : Bindings} (h : m.Unfollowed path rest)
    (p : String) : m.Unfollowed (p :: path) (rest.erase p) := by
  intro q
  rw [Table.get?_erase, h q]
  by_cases hq : q = p
  · subst hq
    simp
  · have hne : compare p q ≠ .eq := fun he => hq (Std.LawfulEqCmp.eq_of_compare he).symm
    simp [hne, hq]

theorem Unfollowed.substitutes (n : Nat) : ∀ {path : List String} {rest : Bindings},
    m.Unfollowed path rest → rest.size ≤ n → ∀ p, Substitutes m close path (.param p)
      (resolve (fun p => if close then .dyn else .param p) n rest p) := by
  -- The walk ends when each of the bindings that are left has been followed at most once.
  induction n with
  | zero =>
    intro path rest h hsize p
    refine .stay fun t ht => ?_
    by_contra hp
    have hget : rest.get? p = some t := by rw [h p, if_neg hp, ht]
    have hlt := Table.size_erase_lt hget
    omega
  | succ n ih =>
    intro path rest h hsize p
    have hp := h p
    cases hget : rest.get? p with
    | none =>
      simp only [resolve, hget]
      refine .stay fun t ht => ?_
      by_contra hmem
      rw [hget, if_neg hmem, ht] at hp
      cases hp
    | some t =>
      have hmem : p ∉ path := by
        intro hmem
        rw [hget, if_pos hmem] at hp
        cases hp
      rw [hget, if_neg hmem] at hp
      have hlt := Table.size_erase_lt hget
      simp only [resolve, hget]
      exact .follow hp.symm hmem (.replace t fun q _ => ih (h.erase p) (by omega) q)

theorem substitutes_iff {t u : Ty} :
    Substitutes m close [] t u ↔ u = m.substitute t close := by
  have hends : Substitutes m close [] t (m.substitute t close) :=
    .replace t fun p _ => (unfollowed_nil m).substitutes m.size (Nat.le_refl _) p
  constructor
  · intro h
    exact h.unique hends
  · rintro rfl
    exact hends

end Walking

section Factoring

theorem substitute_empty_true (t : Ty) :
    (∅ : Bindings).substitute t true = t.replace fun _ => .dyn := rfl

theorem resolve_true (n : Nat) : ∀ (m : Bindings) (p : String),
    resolve (fun p => if true then .dyn else .param p) n m p =
      (resolve (fun p => if false then .dyn else .param p) n m p).replace fun _ => .dyn := by
  induction n with
  | zero => intro m p; rfl
  | succ n ih =>
    intro m p
    simp only [resolve]
    cases m.get? p with
    | none => rfl
    | some t =>
      simp only [Ty.replace_replace]
      exact Ty.replace_congr t fun q _ => ih (m.erase p) q

theorem substitute_true (m : Bindings) (t : Ty) :
    m.substitute t true = (m.substitute t false).replace fun _ => .dyn := by
  simp only [substitute, Ty.replace_replace]
  exact Ty.replace_congr t fun p _ => resolve_true m.size m p

end Factoring

/-- Substitution ends on all bindings. Closing leaves no parameter, and it comes to the same to
put the bindings in first and `dyn` for the rest afterwards. -/
theorem closing_factors (m : Bindings) (t : Ty) :
    (∀ (close : Bool) (u : Ty), m.Substitutes close [] t u ↔ u = m.substitute t close) ∧
      (m.substitute t true).hasParams = false ∧
      m.substitute t true = (∅ : Bindings).substitute (m.substitute t false) true := by
  refine ⟨fun close u => substitutes_iff, ?_, ?_⟩
  · exact Ty.hasParams_eq_false_iff.2 (m.substitute_closed t)
  · rw [substitute_true, substitute_empty_true]

/-- Two parameters that stand for each other: what is left depends on where the walk began. -/
example :
    let m : Bindings := Table.ofList [("A", .list (.param "B")), ("B", .optional (.param "A"))]
    m.substitute (.map (.param "A") (.param "B")) false =
        .map (.list (.optional (.param "A"))) (.optional (.list (.param "B"))) ∧
      m.substitute (.map (.param "A") (.param "B")) true =
        .map (.list (.optional .dyn)) (.optional (.list .dyn)) := by
  decide +kernel

section Early

variable {m m₁ m₂ : Bindings}

def Extends (m₂ m₁ : Bindings) : Prop := ∀ p t, m₁.get? p = some t → m₂.get? p = some t

theorem Extends.acyclic (h : m₂.Extends m₁) (hm : m₂.Acyclic) : m₁.Acyclic := by
  have hfollows : ∀ p q, m₁.Follows p q → m₂.Follows p q := by
    rintro p q ⟨t, ht, hq⟩
    exact ⟨t, h p t ht, hq⟩
  exact fun p hp => hm p (Relation.TransGen.mono hfollows p p hp)

theorem substitute_eq_replace (m : Bindings) (t : Ty) (close : Bool) :
    m.substitute t close = t.replace fun p => m.substitute (.param p) close := rfl

/-- What holds of a parameter if it holds of those in its binding holds of all. -/
theorem Acyclic.induct (hm : m.Acyclic) {P : String → Prop}
    (step : ∀ p, (∀ t, m.get? p = some t → ∀ q ∈ t.paramNames, P q) → P p) (p : String) : P p := by
  induction hn : m.reach p using Nat.strong_induction_on generalizing p with
  | _ n ih =>
    subst hn
    refine step p fun t ht q hq => ?_
    exact ih (m.reach q) ((hm.ranked p t ht).2 q hq) q rfl

theorem Extends.substitute_param (h : m₂.Extends m₁) (hm : m₂.Acyclic) (close : Bool)
    (p : String) :
    m₂.substitute (m₁.substitute (.param p) false) close = m₂.substitute (.param p) close := by
  induction p using hm.induct with
  | _ p ih =>
    rw [(h.acyclic hm).substitute_param]
    cases ht : m₁.get? p with
    | none => rfl
    | some t =>
      have ht₂ := h p t ht
      simp only [hm.substitute_param p, ht₂]
      rw [m₁.substitute_eq_replace, m₂.substitute_eq_replace t, m₂.substitute_eq_replace,
        Ty.replace_replace]
      exact Ty.replace_congr t fun q hq => ih t ht₂ q hq

theorem Extends.substitute (h : m₂.Extends m₁) (hm : m₂.Acyclic) (t : Ty) (close : Bool) :
    m₂.substitute (m₁.substitute t false) close = m₂.substitute t close := by
  rw [m₁.substitute_eq_replace, m₂.substitute_eq_replace, Ty.replace_replace]
  exact Ty.replace_congr t fun p _ => h.substitute_param hm close p

theorem Acyclic.get?_of_mem_param (hm : m.Acyclic) {q : String} (p : String)
    (hq : q ∈ (m.substitute (.param p) false).paramNames) : m.get? q = none := by
  induction p using hm.induct with
  | _ p ih =>
    rw [hm.substitute_param] at hq
    cases ht : m.get? p with
    | none =>
      rw [ht] at hq
      cases List.mem_singleton.1 hq
      exact ht
    | some t =>
      simp only [ht] at hq
      rw [m.substitute_eq_replace, Ty.paramNames_replace_eq] at hq
      obtain ⟨r, hr, hq⟩ := List.mem_flatMap.1 hq
      exact ih t ht r hr hq

theorem Acyclic.get?_of_mem (hm : m.Acyclic) {t : Ty} {q : String}
    (hq : q ∈ (m.substitute t false).paramNames) : m.get? q = none := by
  rw [m.substitute_eq_replace, Ty.paramNames_replace_eq] at hq
  obtain ⟨p, _, hq⟩ := List.mem_flatMap.1 hq
  exact hm.get?_of_mem_param p hq

end Early

/-- Without a circle it makes no difference if some of the bindings are put in beforehand. So
putting them in a second time changes nothing, and no parameter is left that has a binding. -/
theorem substitute_early {m₁ m₂ : Bindings} (hm : m₂.Acyclic) (h : m₂.Extends m₁) (t : Ty) :
    (∀ close, m₂.substitute (m₁.substitute t false) close = m₂.substitute t close) ∧
      m₂.substitute (m₂.substitute t false) false = m₂.substitute t false ∧
      ∀ p ∈ (m₂.substitute t false).paramNames, m₂.get? p = none := by
  refine ⟨h.substitute hm t, ?_, fun p hp => hm.get?_of_mem hp⟩
  have hself : m₂.Extends m₂ := fun _ _ ht => ht
  exact hself.substitute hm t false

theorem substitute_early_chain :
    ∃ m₁ m₂ : Bindings, m₂.Acyclic ∧ m₂.Extends m₁ ∧
      m₁.substitute (.list (.param "T")) false = .list (.map (.param "U") (.param "V")) ∧
      m₂.substitute (.list (.map (.param "U") (.param "V"))) true =
        .list (.map (.list .int) .dyn) ∧
      m₂.substitute (.list (.param "T")) true = .list (.map (.list .int) .dyn) := by
  let m₁ : Bindings := Table.insert ∅ "T" (.map (.param "U") (.param "V"))
  let m₂ : Bindings := Table.insert m₁ "U" (.list .int)
  have hm₁ : m₁.Acyclic := by
    refine acyclic_empty.insert fun q hq => acyclic_empty.not_leads_of_occurs ?_ q hq
    decide
  have hm₂ : m₂.Acyclic := hm₁.insert nofun
  have hext : m₂.Extends m₁ := by
    intro p t ht
    refine (Table.get?_insert_of_ne _ _ ?_).trans ht
    rintro rfl
    cases ht
  have hlist : m₁.substitute (.list (.param "T")) false =
      .list (.map (.param "U") (.param "V")) := rfl
  have hearly := (substitute_early hm₂ hext (.list (.param "T"))).1 true
  rw [hlist] at hearly
  exact ⟨m₁, m₂, hm₂, hext, hlist, rfl, hearly.symm⟩

/-- In a circle it does make a difference. -/
example :
    let m : Bindings := Table.ofList [("A", .list (.param "A"))]
    m.substitute (m.substitute (.param "A") false) false ≠ m.substitute (.param "A") false := by
  decide +kernel

end Bindings

end CelTyping
