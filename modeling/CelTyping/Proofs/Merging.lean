import CelTyping.Proofs.Records
import Mathlib.Data.List.Perm.Subperm

/-! References that are added to one another. A node that is reached again takes a further
reference as long as both are to the same thing; overloads are then listed together, none of
them twice. What a node takes grows with what it has and what is added. -/
namespace CelTyping

namespace Reference

section Widening

/-- The second reference is to the same thing, of whose overloads it lists more perhaps. -/
structure Widens (a b : Reference) : Prop where
  name : b.name = a.name
  value : b.value = a.value
  isFunction : b.isFunction = a.isFunction
  overloads : a.overloads ⊆ b.overloads
  nodup : b.overloads.Nodup

theorem Widens.refl {r : Reference} (h : r.overloads.Nodup) : r.Widens r :=
  ⟨rfl, rfl, rfl, List.Subset.refl _, h⟩

@[simp] theorem value_addOverload (r : Reference) (id : String) :
    (r.addOverload id).value = r.value := by
  unfold addOverload
  split
  next => rfl
  next => rfl

@[simp] theorem mem_addOverload {r : Reference} {id id' : String} :
    id' ∈ (r.addOverload id).overloads ↔ id' ∈ r.overloads ∨ id' = id := by
  unfold addOverload
  split
  next h =>
    have hmem : id ∈ r.overloads := List.contains_iff_mem.1 h
    constructor
    · exact .inl
    · rintro (h' | rfl)
      · exact h'
      · exact hmem
  next => simp

theorem nodup_addOverload {r : Reference} (h : r.overloads.Nodup) (id : String) :
    (r.addOverload id).overloads.Nodup := by
  unfold addOverload
  split
  next => exact h
  next hnot =>
    refine List.nodup_append'.2 ⟨h, List.nodup_singleton id, ?_⟩
    rw [List.disjoint_singleton]
    exact fun hmem => hnot (List.contains_iff_mem.2 hmem)

theorem Widens.addOverload {a b : Reference} (h : a.Widens b) (ha : a.isFunction = true)
    (id : String) : a.Widens (b.addOverload id) where
  name := (alike_addOverload (h.isFunction.trans ha) id).1.trans h.name
  value := (value_addOverload b id).trans h.value
  isFunction := (alike_addOverload (h.isFunction.trans ha) id).2.trans h.isFunction
  overloads _ hid := mem_addOverload.2 (.inl (h.overloads hid))
  nodup := nodup_addOverload h.nodup id

@[simp] theorem value_foldl_addOverload (ids : List String) (r : Reference) :
    (ids.foldl addOverload r).value = r.value := by
  induction ids generalizing r with
  | nil => rfl
  | cons id ids ih => exact (ih _).trans (value_addOverload r id)

@[simp] theorem mem_foldl_addOverload {ids : List String} {r : Reference} {id : String} :
    id ∈ (ids.foldl addOverload r).overloads ↔ id ∈ r.overloads ∨ id ∈ ids := by
  induction ids generalizing r with
  | nil => simp
  | cons id' ids ih =>
    rw [List.foldl_cons, ih, mem_addOverload, List.mem_cons]
    tauto

theorem nodup_foldl_addOverload (ids : List String) {r : Reference} (h : r.overloads.Nodup) :
    (ids.foldl addOverload r).overloads.Nodup := by
  induction ids generalizing r with
  | nil => exact h
  | cons id ids ih => exact ih (nodup_addOverload h id)

theorem Widens.trans {a b c : Reference} (h : a.Widens b) (h' : b.Widens c) : a.Widens c :=
  ⟨h'.name.trans h.name, h'.value.trans h.value, h'.isFunction.trans h.isFunction,
    List.Subset.trans h.overloads h'.overloads, h'.nodup⟩

theorem Widens.adding {r : Reference} (h : r.overloads.Nodup) (hr : r.isFunction = true)
    (ids : List String) : r.Widens (ids.foldl Reference.addOverload r) where
  name := (alike_merge hr ids).1
  value := value_foldl_addOverload ids r
  isFunction := (alike_merge hr ids).2
  overloads _ hid := mem_foldl_addOverload.2 (.inl hid)
  nodup := nodup_foldl_addOverload ids h

theorem Widens.merge {a b r r' : Reference} (h : a.Widens b) (hr : r.Widens r')
    (ha : a.isFunction = true) :
    (r.overloads.foldl Reference.addOverload a).Widens
      (r'.overloads.foldl Reference.addOverload b) := by
  have hleft := alike_merge ha r.overloads
  have hright := alike_merge (h.isFunction.trans ha) r'.overloads
  refine ⟨?_, ?_, ?_, ?_, nodup_foldl_addOverload _ h.nodup⟩
  · rw [hright.1, hleft.1, h.name]
  · rw [value_foldl_addOverload, value_foldl_addOverload, h.value]
  · rw [hright.2, hleft.2, h.isFunction]
  · intro id hid
    rcases mem_foldl_addOverload.1 hid with hid | hid
    · exact mem_foldl_addOverload.2 (.inl (h.overloads hid))
    · exact mem_foldl_addOverload.2 (.inr (hr.overloads hid))

theorem agrees_iff {a b : Reference} :
    a.agrees b = true ↔ a.name = b.name ∧ sameValue a.value b.value = true ∧
      a.overloads.length = b.overloads.length ∧ a.overloads ⊆ b.overloads := by
  simp only [agrees, Bool.and_eq_true, beq_iff_eq, List.all_eq_true, List.contains_iff_mem,
    and_assoc]
  rfl

end Widening

section Taking

/-- What a node that has the first reference, if any, has after the second one is added. -/
inductive Takes : Option Reference → Reference → Reference → Prop where
  | first {r : Reference} : Takes none r r
  | agrees {a r : Reference} : a.agrees r = true → Takes (some a) r a
  | merges {a r : Reference} : a.agrees r = false → a.isFunction = true → r.isFunction = true →
      a.name = r.name → Takes (some a) r (r.overloads.foldl addOverload a)

variable {a b r r' : Reference}

theorem overloads_of_not_isFunction (h : r.isFunction = false) : r.overloads = [] := by
  simpa [isFunction] using h

/-- Of two references that agree, wider ones agree too or are of a function. -/
theorem Takes.widens_of_agrees (h : a.agrees r = true) (hb : a.Widens b) (hr : r.Widens r') :
    ∃ after, Takes (some b) r' after ∧ a.Widens after := by
  obtain ⟨hname, hvalue, -⟩ := agrees_iff.1 h
  have halike := alike_of_agrees h
  have hname' : b.name = r'.name := by rw [hb.name, hr.name, hname]
  cases hb' : b.agrees r' with
  | true => exact ⟨b, .agrees hb', hb⟩
  | false =>
    cases ha : a.isFunction with
    | true =>
      have hfun : b.isFunction = true := hb.isFunction.trans ha
      have hfun' : r'.isFunction = true := by rw [hr.isFunction, ← halike.2, ha]
      exact ⟨_, .merges hb' hfun hfun' hname', hb.trans (.adding hb.nodup hfun _)⟩
    | false =>
      have hnil : b.overloads = [] := overloads_of_not_isFunction (hb.isFunction.trans ha)
      have hnil' : r'.overloads = [] :=
        overloads_of_not_isFunction (hr.isFunction.trans (halike.2.symm.trans ha))
      have hagrees : b.agrees r' = true := by
        refine agrees_iff.2 ⟨hname', by rw [hb.value, hr.value, hvalue], ?_⟩
        rw [hnil, hnil']
        exact ⟨rfl, List.Subset.refl _⟩
      rw [hagrees] at hb'
      cases hb'

/-- A wider reference that agrees with another lists the same overloads, since none is listed
twice; otherwise it is merged as the narrower one was. -/
theorem Takes.widens_of_merges (ha : a.isFunction = true) (hfun : r.isFunction = true)
    (hname : a.name = r.name) (hb : a.Widens b) (hr : r.Widens r') :
    ∃ after, Takes (some b) r' after ∧ (r.overloads.foldl addOverload a).Widens after := by
  have hname' : b.name = r'.name := by rw [hb.name, hr.name, hname]
  cases hb' : b.agrees r' with
  | false =>
    exact ⟨_, .merges hb' (hb.isFunction.trans ha) (hr.isFunction.trans hfun) hname',
      hb.merge hr ha⟩
  | true =>
    obtain ⟨_, _, hlength, hsub⟩ := agrees_iff.1 hb'
    have hperm : b.overloads.Perm r'.overloads :=
      (hb.nodup.subperm hsub).perm_of_length_le (Nat.le_of_eq hlength.symm)
    have halike := alike_merge ha r.overloads
    refine ⟨b, .agrees hb', hb.name.trans halike.1.symm, ?_, hb.isFunction.trans halike.2.symm, ?_,
      hb.nodup⟩
    · rw [value_foldl_addOverload, hb.value]
    · intro id hid
      rcases mem_foldl_addOverload.1 hid with hid | hid
      · exact hb.overloads hid
      · exact hperm.mem_iff.2 (hr.overloads hid)

theorem Takes.widens {x y : Option Reference} {after : Reference} (h : Takes x r after)
    (hxy : Option.Rel Widens x y) (hr : r.Widens r') :
    ∃ after', Takes y r' after' ∧ after.Widens after' := by
  cases h with
  | first =>
    cases hxy
    exact ⟨r', .first, hr⟩
  | agrees hagrees =>
    cases hxy with
    | some hb => exact widens_of_agrees hagrees hb hr
  | merges _ ha hfun hname =>
    cases hxy with
    | some hb => exact widens_of_merges ha hfun hname hb hr

end Taking

end Reference

namespace Session

section Taking

variable {s : Session} {node : NodeId} {r : Reference}

theorem setReference_of_takes {after : Reference}
    (h : Reference.Takes (s.references.get? node) r after) :
    s.setReference node r = { s with references := s.references.insert node after } := by
  unfold setReference
  cases hget : s.references.get? node with
  | none =>
    rw [hget] at h
    cases h
    rfl
  | some existing =>
    rw [hget] at h
    cases h with
    | agrees hagrees =>
      simp only [hagrees, if_true]
      rw [Table.insert_of_get? hget]
    | merges hagrees hexisting hr hname => simp [hagrees, hexisting, hr, hname]

theorem exists_takes (h : (s.setReference node r).diagnostics = []) :
    ∃ after, Reference.Takes (s.references.get? node) r after := by
  unfold setReference at h
  cases hget : s.references.get? node with
  | none => exact ⟨r, .first⟩
  | some existing =>
    simp only [hget] at h
    split at h
    next hagrees => exact ⟨existing, .agrees hagrees⟩
    next hagrees =>
      split at h
      next hsame =>
        simp only [Bool.and_eq_true, beq_iff_eq] at hsame
        exact ⟨_, .merges (Bool.eq_false_iff.2 hagrees) hsame.1.1 hsame.1.2 hsame.2⟩
      next => exact absurd h (report_diagnostics_ne _ _ _)

end Taking

section Listing

variable {function : String} {args : List Ty}

theorem matchOverloads_nodup (os : List Overload) :
    ∀ (found : Option Resolved) (s : Session), (∀ r ∈ found, r.reference.overloads.Nodup) →
      ∀ r ∈ (matchOverloads function args os found s).1, r.reference.overloads.Nodup := by
  induction os with
  | nil => exact fun _ _ h => h
  | cons o os ih =>
    intro found s h
    simp only [matchOverloads]
    split
    next => exact ih found _ h
    next =>
      refine ih _ _ fun r hr => ?_
      cases Option.mem_some.1 hr
      cases found with
      | none => exact List.nodup_singleton o.id
      | some r => exact Reference.nodup_addOverload (h r rfl) o.id

theorem resolveOverload_nodup {s s₁ : Session} {env : Environment} {node : NodeId} {f : Function}
    {isMember : Bool} {args : List NodeId} {r : Resolved}
    (h : s.resolveOverload env node f isMember args = (.ok r, s₁)) :
    r.reference.overloads.Nodup := by
  unfold resolveOverload at h
  simp only at h
  split at h
  next =>
    split at h
    next => cases h
    next =>
      cases h
      exact List.nodup_singleton _
  next =>
    split at h
    next heq =>
      cases h
      exact matchOverloads_nodup _ none s (by simp) r (congrArg Prod.fst heq)
    next => cases h

end Listing

end Session

end CelTyping
