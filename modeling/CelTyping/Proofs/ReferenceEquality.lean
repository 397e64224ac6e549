import CelTyping.Proofs.SideTables

/-! When references agree. They are compared by the number of their overloads and by whether
those of the first are among those of the second. If no overload is listed twice, then the second
has no room for any other, so that the comparison is one of sets and goes both ways. Constants
are compared as numbers: the two zeros are one, and what is not a number equals nothing. -/
namespace CelTyping

section Constants

namespace Double

def unsignZero (d : Double) : Double := if d.isZero then ⟨0⟩ else d

@[simp] theorem isZero_unsignZero (d : Double) : d.unsignZero.isZero = d.isZero := by
  unfold unsignZero
  split
  next h => rw [h]; rfl
  next => rfl

theorem equals_iff {a b : Double} (ha : a.isNaN = false) (hb : b.isNaN = false) :
    a.equals b = true ↔ a.unsignZero = b.unsignZero := by
  have hequals : a.equals b = true ↔ a = b ∨ a.isZero = true ∧ b.isZero = true := by
    simp [equals, ha, hb]
  rw [hequals]
  constructor
  · rintro (rfl | ⟨hza, hzb⟩)
    · rfl
    · rw [unsignZero, unsignZero, if_pos hza, if_pos hzb]
  · intro h
    have hz : a.isZero = b.isZero := by rw [← isZero_unsignZero a, h, isZero_unsignZero]
    cases hza : a.isZero with
    | true => exact .inr ⟨rfl, hz ▸ hza⟩
    | false =>
      rw [unsignZero, unsignZero, ← hz, hza] at h
      exact .inl h

end Double

namespace Value

def unsignZero : Value → Value
  | .double d => .double d.unsignZero
  | v => v

def isNaN : Value → Bool
  | .double d => d.isNaN
  | _ => false

theorem equals_iff {a b : Value} (ha : a.isNaN = false) (hb : b.isNaN = false) :
    a.equals b = true ↔ a.unsignZero = b.unsignZero := by
  cases a with
  | double x =>
    cases b with
    | double y => simpa [equals, unsignZero] using Double.equals_iff ha hb
    | _ => simp [equals, unsignZero]
  | _ => cases b <;> simp [equals, unsignZero]

end Value

end Constants

namespace Reference

/-- No overload is listed twice, and the constant is not one that differs from itself. -/
structure Regular (r : Reference) : Prop where
  nodup : r.overloads.Nodup
  value : ∀ v ∈ r.value, v.isNaN = false

section Agreeing

variable {a b : Reference}

theorem sameValue_iff (ha : a.Regular) (hb : b.Regular) :
    sameValue a.value b.value = true ↔
      a.value.map Value.unsignZero = b.value.map Value.unsignZero := by
  cases hva : a.value with
  | none => cases hvb : b.value <;> simp [sameValue]
  | some v =>
    cases hvb : b.value with
    | none => simp [sameValue]
    | some w => simpa [sameValue] using Value.equals_iff (ha.value v hva) (hb.value w hvb)

theorem length_eq_and_subset_iff (ha : a.overloads.Nodup) (hb : b.overloads.Nodup) :
    a.overloads.length = b.overloads.length ∧ a.overloads ⊆ b.overloads ↔
      ∀ id, id ∈ a.overloads ↔ id ∈ b.overloads := by
  -- Where nothing is listed twice, as many overloads that are all among the others are the others.
  constructor
  · rintro ⟨hlength, hsub⟩ id
    exact ((ha.subperm hsub).perm_of_length_le (Nat.le_of_eq hlength.symm)).mem_iff
  · intro h
    exact ⟨((List.perm_ext_iff_of_nodup ha hb).2 h).length_eq, fun id => (h id).1⟩

theorem Regular.agrees_iff (ha : a.Regular) (hb : b.Regular) :
    a.agrees b = true ↔ a.name = b.name ∧
      a.value.map Value.unsignZero = b.value.map Value.unsignZero ∧
      ∀ id, id ∈ a.overloads ↔ id ∈ b.overloads := by
  rw [Reference.agrees_iff, sameValue_iff ha hb, length_eq_and_subset_iff ha.nodup hb.nodup]

theorem agrees_equivalence :
    Equivalence fun a b : { r : Reference // r.Regular } => a.1.agrees b.1 = true where
  refl a := (a.2.agrees_iff a.2).2 ⟨rfl, rfl, fun _ => Iff.rfl⟩
  symm {a b} h := by
    obtain ⟨hname, hvalue, hids⟩ := (a.2.agrees_iff b.2).1 h
    exact (b.2.agrees_iff a.2).2 ⟨hname.symm, hvalue.symm, fun id => (hids id).symm⟩
  trans {a b c} h h' := by
    obtain ⟨hname, hvalue, hids⟩ := (a.2.agrees_iff b.2).1 h
    obtain ⟨hname', hvalue', hids'⟩ := (b.2.agrees_iff c.2).1 h'
    exact (a.2.agrees_iff c.2).2
      ⟨hname.trans hname', hvalue.trans hvalue', fun id => (hids id).trans (hids' id)⟩

end Agreeing

end Reference

theorem Checked.nodup_overloads {env : Environment} {e : Expr} {c : Checked}
    (h : check env e = .ok c) : c.references.All (·.overloads.Nodup) := by
  obtain ⟨e', s, hd, rfl⟩ := check_iff.1 h
  obtain ⟨s', htraces, hend⟩ := traced_moments env e
  cases hend e' s (descends_iff.2 hd)
  exact (htraces.listed fun _ _ hr => nomatch hr).1

/-- References without repeated overloads, and without constants that are not numbers, agree if
and only if they have the same name, the same constant (both zeros being one) and the same set of
overloads. So agreement is an equivalence relation on them. Adding an overload does not list one
twice, nor does any check. -/
theorem references_agree_as_sets :
    (∀ a b : Reference, a.Regular → b.Regular →
      (a.agrees b = true ↔ a.name = b.name ∧
        a.value.map Value.unsignZero = b.value.map Value.unsignZero ∧
        ∀ id, id ∈ a.overloads ↔ id ∈ b.overloads)) ∧
    (Equivalence fun a b : { r : Reference // r.Regular } => a.1.agrees b.1 = true) ∧
    (∀ (r : Reference) (id : String), r.overloads.Nodup → (r.addOverload id).overloads.Nodup) ∧
    ∀ env e c, check env e = .ok c → c.references.All (·.overloads.Nodup) :=
  ⟨fun _ _ ha hb => ha.agrees_iff hb, Reference.agrees_equivalence,
    fun _ id h => Reference.nodup_addOverload h id, fun _ _ _ h => Checked.nodup_overloads h⟩

def zeroOf (swapped : Bool) : Reference where
  name := "zero"
  overloads := if swapped then ["zero_uint", "zero_int"] else ["zero_int", "zero_uint"]
  value := some (.double ⟨if swapped then 0x8000000000000000 else 0⟩)

theorem references_agree_as_sets_zeroOf :
    (zeroOf true).Regular ∧ (zeroOf false).Regular ∧ (zeroOf true).agrees (zeroOf false) = true ∧
      (zeroOf false).agrees (zeroOf true) = true ∧
      ((zeroOf true).addOverload "zero_double").overloads.Nodup := by
  obtain ⟨hiff, hequiv, hadd, -⟩ := references_agree_as_sets
  have hregular (swapped : Bool) : (zeroOf swapped).Regular := by
    refine ⟨by cases swapped <;> decide, fun v hv => ?_⟩
    cases hv
    cases swapped <;> decide
  have hagrees : (zeroOf true).agrees (zeroOf false) = true :=
    (hiff _ _ (hregular true) (hregular false)).2
      ⟨rfl, by decide, fun id => by simp [zeroOf, or_comm]⟩
  exact ⟨hregular true, hregular false, hagrees,
    hequiv.symm (x := ⟨_, hregular true⟩) (y := ⟨_, hregular false⟩) hagrees,
    hadd _ _ (hregular true).nodup⟩

/-- With an overload listed twice the comparison goes one way only. -/
example : Reference.agrees ⟨"f", ["g", "g"], none⟩ ⟨"f", ["g", "h"], none⟩ = true ∧
    Reference.agrees ⟨"f", ["g", "h"], none⟩ ⟨"f", ["g", "g"], none⟩ = false := by
  decide

end CelTyping
