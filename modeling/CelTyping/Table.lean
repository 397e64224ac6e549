/-! Finite tables in increasing key order. The order is part of the type, so
listing a table needs no sorting, and lookups determine it. -/
namespace CelTyping

structure Table (κ α : Type) [Ord κ] where
  entries : List (κ × α)
  sorted : entries.Pairwise fun a b => compare a.1 b.1 = .lt

namespace Table

variable {κ α β : Type} [Ord κ]

def empty : Table κ α := ⟨[], .nil⟩

instance : EmptyCollection (Table κ α) := ⟨empty⟩
instance : Inhabited (Table κ α) := ⟨empty⟩

def lookupEntry (k : κ) : List (κ × α) → Option α
  | [] => none
  | (k', v) :: rest => if compare k k' = .eq then some v else lookupEntry k rest

def insertEntry (k : κ) (v : α) : List (κ × α) → List (κ × α)
  | [] => [(k, v)]
  | (k', v') :: rest =>
    match compare k k' with
    | .lt => (k, v) :: (k', v') :: rest
    | .eq => (k, v) :: rest
    | .gt => (k', v') :: insertEntry k v rest

def get? (t : Table κ α) (k : κ) : Option α := lookupEntry k t.entries

def contains (t : Table κ α) (k : κ) : Bool := (t.get? k).isSome

def size (t : Table κ α) : Nat := t.entries.length

def isEmpty (t : Table κ α) : Bool := t.entries.isEmpty

def keys (t : Table κ α) : List κ := t.entries.map (·.1)

def toList (t : Table κ α) : List (κ × α) := t.entries

theorem mem_insertEntry {k : κ} {v : α} {e : κ × α} {l : List (κ × α)}
    (h : e ∈ insertEntry k v l) : e = (k, v) ∨ e ∈ l := by
  induction l with
  | nil => simp_all [insertEntry]
  | cons x rest ih =>
    obtain ⟨k', v'⟩ := x
    simp only [insertEntry] at h
    split at h <;> grind

section Lawful

variable [Std.TransOrd κ] [Std.LawfulEqOrd κ]

theorem pairwise_insertEntry (k : κ) (v : α) (l : List (κ × α))
    (h : l.Pairwise fun a b => compare a.1 b.1 = .lt) :
    (insertEntry k v l).Pairwise fun a b => compare a.1 b.1 = .lt := by
  induction l with
  | nil => simp [insertEntry]
  | cons x rest ih =>
    obtain ⟨k', v'⟩ := x
    have hd := List.pairwise_cons.1 h
    simp only [insertEntry]
    split
    next hlt =>
      refine List.pairwise_cons.2 ⟨?_, h⟩
      intro e he
      rcases List.mem_cons.1 he with rfl | he
      · exact hlt
      · exact Std.TransCmp.lt_trans hlt (hd.1 e he)
    next heq =>
      cases Std.LawfulEqCmp.eq_of_compare heq
      exact List.pairwise_cons.2 ⟨hd.1, hd.2⟩
    next hgt =>
      refine List.pairwise_cons.2 ⟨?_, ih hd.2⟩
      intro e he
      rcases mem_insertEntry he with rfl | he
      · exact Std.OrientedCmp.lt_of_gt hgt
      · exact hd.1 e he

/-- A key already present keeps its place and takes the new value. -/
def insert (t : Table κ α) (k : κ) (v : α) : Table κ α :=
  ⟨insertEntry k v t.entries, pairwise_insertEntry k v t.entries t.sorted⟩

/-- Later pairs replace earlier ones of the same key. -/
def ofList (l : List (κ × α)) : Table κ α :=
  l.foldl (fun t e => t.insert e.1 e.2) empty

end Lawful

def erase (t : Table κ α) (k : κ) : Table κ α :=
  ⟨t.entries.filter fun e => !(compare k e.1 == .eq), t.sorted.filter _⟩

def mapValues (f : α → β) (t : Table κ α) : Table κ β :=
  ⟨t.entries.map fun e => (e.1, f e.2), List.pairwise_map.2 t.sorted⟩

@[simp] theorem get?_empty (k : κ) : (∅ : Table κ α).get? k = none := rfl

theorem mem_of_lookupEntry [Std.LawfulEqOrd κ] {k : κ} {v : α} {l : List (κ × α)}
    (h : lookupEntry k l = some v) : (k, v) ∈ l := by
  induction l with
  | nil => simp [lookupEntry] at h
  | cons x rest ih =>
    obtain ⟨k', v'⟩ := x
    simp only [lookupEntry] at h
    split at h
    next heq =>
      cases Std.LawfulEqCmp.eq_of_compare heq
      cases h
      exact List.mem_cons_self
    next => exact List.mem_cons_of_mem _ (ih h)

theorem mem_toList_of_get? [Std.LawfulEqOrd κ] {t : Table κ α} {k : κ} {v : α}
    (h : t.get? k = some v) : (k, v) ∈ t.toList :=
  mem_of_lookupEntry h

theorem size_erase_lt [Std.LawfulEqOrd κ] {t : Table κ α} {k : κ} {v : α}
    (h : t.get? k = some v) : (t.erase k).size < t.size := by
  refine List.length_filter_lt_length_iff_exists.2 ⟨(k, v), mem_toList_of_get? h, ?_⟩
  simp

section Lawful

variable [Std.TransOrd κ] [Std.LawfulEqOrd κ]

omit [Std.TransOrd κ] in
theorem lookupEntry_insertEntry (k k' : κ) (v : α) (l : List (κ × α)) :
    lookupEntry k' (insertEntry k v l) =
      if compare k' k = .eq then some v else lookupEntry k' l := by
  induction l with
  | nil => simp [insertEntry, lookupEntry]
  | cons x rest ih =>
    obtain ⟨k₁, v₁⟩ := x
    simp only [insertEntry]
    split
    next => simp [lookupEntry]
    next heq =>
      cases Std.LawfulEqCmp.eq_of_compare heq
      simp only [lookupEntry]
      split <;> rfl
    next hgt =>
      simp only [lookupEntry, ih]
      split
      next h₁ =>
        cases Std.LawfulEqCmp.eq_of_compare h₁
        rw [if_neg]
        intro h
        cases Std.LawfulEqCmp.eq_of_compare h
        simp at hgt
      next => rfl

theorem get?_insert (t : Table κ α) (k k' : κ) (v : α) :
    (t.insert k v).get? k' = if compare k' k = .eq then some v else t.get? k' :=
  lookupEntry_insertEntry k k' v t.entries

@[simp] theorem get?_insert_self (t : Table κ α) (k : κ) (v : α) :
    (t.insert k v).get? k = some v := by
  simp [get?_insert]

@[simp] theorem get?_insert_of_ne (t : Table κ α) {k k' : κ} (v : α) (h : k' ≠ k) :
    (t.insert k v).get? k' = t.get? k' := by
  rw [get?_insert, if_neg]
  exact fun he => h (Std.LawfulEqCmp.eq_of_compare he)

omit [Std.TransOrd κ] [Std.LawfulEqOrd κ] in
theorem lookupEntry_eq_none_of_lt {k : κ} {l : List (κ × α)}
    (h : ∀ e ∈ l, compare k e.1 = .lt) : lookupEntry k l = none := by
  induction l with
  | nil => rfl
  | cons x rest ih =>
    have hx := h x List.mem_cons_self
    simp only [lookupEntry, hx]
    exact ih fun e he => h e (List.mem_cons_of_mem _ he)

omit [Std.LawfulEqOrd κ] in
theorem length_insertEntry (k : κ) (v : α) (l : List (κ × α))
    (h : l.Pairwise fun a b => compare a.1 b.1 = .lt) :
    (insertEntry k v l).length =
      if (lookupEntry k l).isSome then l.length else l.length + 1 := by
  induction l with
  | nil => simp [insertEntry, lookupEntry]
  | cons x rest ih =>
    obtain ⟨k', v'⟩ := x
    have hd := List.pairwise_cons.1 h
    simp only [insertEntry, lookupEntry]
    split
    next hlt =>
      have hn : lookupEntry k rest = none :=
        lookupEntry_eq_none_of_lt fun e he => Std.TransCmp.lt_trans hlt (hd.1 e he)
      simp [hlt, hn]
    next heq => simp [heq]
    next hgt =>
      simp only [List.length_cons, ih hd.2, hgt]
      split <;> simp_all

theorem size_insert (t : Table κ α) (k : κ) (v : α) :
    (t.insert k v).size = if t.contains k then t.size else t.size + 1 :=
  length_insertEntry k v t.entries t.sorted

theorem insertEntry_of_lookupEntry {k : κ} {v : α} {l : List (κ × α)}
    (hl : l.Pairwise fun a b => compare a.1 b.1 = .lt) (h : lookupEntry k l = some v) :
    insertEntry k v l = l := by
  induction l with
  | nil => cases h
  | cons x rest ih =>
    obtain ⟨k', v'⟩ := x
    have hd := List.pairwise_cons.1 hl
    simp only [lookupEntry] at h
    simp only [insertEntry]
    split
    next hlt =>
      have hn : lookupEntry k rest = none :=
        lookupEntry_eq_none_of_lt fun e he => Std.TransCmp.lt_trans hlt (hd.1 e he)
      simp [hlt, hn] at h
    next heq =>
      simp only [heq, if_true, Option.some.injEq] at h
      rw [Std.LawfulEqCmp.eq_of_compare heq, h]
    next hgt =>
      simp only [hgt, reduceCtorEq, if_false] at h
      rw [ih hd.2 h]

@[simp] theorem insert_of_get? {t : Table κ α} {k : κ} {v : α} (h : t.get? k = some v) :
    t.insert k v = t := by
  obtain ⟨l, hl⟩ := t
  simp only [insert, insertEntry_of_lookupEntry hl h]

omit [Std.TransOrd κ] in
theorem mem_map_fst_insertEntry {k k' : κ} {v : α} {l : List (κ × α)} :
    k' ∈ (insertEntry k v l).map (·.1) ↔ k' = k ∨ k' ∈ l.map (·.1) := by
  induction l with
  | nil => simp [insertEntry]
  | cons x rest ih =>
    obtain ⟨k₁, v₁⟩ := x
    simp only [insertEntry]
    split
    next => simp
    next heq =>
      cases Std.LawfulEqCmp.eq_of_compare heq
      simp
    next =>
      rw [List.map_cons, List.mem_cons, ih, List.map_cons, List.mem_cons]
      exact or_left_comm

@[simp] theorem mem_keys_ofList {k : κ} {l : List (κ × α)} :
    k ∈ (ofList l).keys ↔ k ∈ l.map (·.1) := by
  suffices h : ∀ t : Table κ α, k ∈ (l.foldl (fun t e => t.insert e.1 e.2) t).keys ↔
      k ∈ t.keys ∨ k ∈ l.map (·.1) from (h empty).trans (or_iff_right List.not_mem_nil)
  induction l with
  | nil => simp
  | cons e l ih =>
    intro t
    rw [List.foldl_cons, ih, keys, insert, mem_map_fst_insertEntry, List.map_cons, List.mem_cons,
      or_assoc, or_left_comm]
    rfl

theorem get?_erase (t : Table κ α) (k k' : κ) :
    (t.erase k).get? k' = if compare k k' = .eq then none else t.get? k' := by
  obtain ⟨l, hl⟩ := t
  simp only [get?, erase]
  clear hl
  induction l with
  | nil => simp [lookupEntry]
  | cons x rest ih =>
    obtain ⟨k₁, v₁⟩ := x
    by_cases hk : compare k k₁ = .eq
    · cases Std.LawfulEqCmp.eq_of_compare hk
      have hs : compare k' k = .eq ↔ compare k k' = .eq :=
        ⟨fun h => Std.OrientedCmp.eq_symm h, fun h => Std.OrientedCmp.eq_symm h⟩
      simp only [List.filter_cons, hk, lookupEntry, hs, beq_self_eq_true, Bool.not_true,
        Bool.false_eq_true, if_false, ih]
      by_cases h : compare k k' = .eq <;> simp [h]
    · have hb : (compare k k₁ == .eq) = false := by simp [hk]
      simp only [List.filter_cons, hb, lookupEntry, ih, Bool.not_false, if_true]
      by_cases h : compare k' k₁ = .eq
      · cases Std.LawfulEqCmp.eq_of_compare h
        simp [hk]
      · simp [h]

end Lawful

@[simp] theorem get?_mapValues (f : α → β) (t : Table κ α) (k : κ) :
    (t.mapValues f).get? k = (t.get? k).map f := by
  obtain ⟨l, hl⟩ := t
  simp only [get?, mapValues]
  clear hl
  induction l with
  | nil => rfl
  | cons x rest ih =>
    simp only [List.map_cons, lookupEntry, ih]
    split <;> rfl

section All

variable {P Q : α → Prop} {t : Table κ α}

def All (P : α → Prop) (t : Table κ α) : Prop := ∀ k v, t.get? k = some v → P v

theorem All.mono (h : t.All P) (hpq : ∀ v, P v → Q v) : t.All Q := fun k v hv => hpq v (h k v hv)

theorem All.empty : All P (∅ : Table κ α) := by
  intro k v hv
  cases hv

variable [Std.TransOrd κ] [Std.LawfulEqOrd κ]

theorem All.insert (h : t.All P) {k : κ} {v : α} (hv : P v) : (t.insert k v).All P := by
  intro k' v' h'
  rw [get?_insert] at h'
  split at h'
  next =>
    cases h'
    exact hv
  next => exact h k' v' h'

theorem All.erase (h : t.All P) (k : κ) : (t.erase k).All P := by
  intro k' v' h'
  rw [get?_erase] at h'
  split at h'
  next => cases h'
  next => exact h k' v' h'

end All

end Table

end CelTyping
