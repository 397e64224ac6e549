import CelTyping.Session
import Mathlib.Tactic.Ring

/-! Matching ends. Along a match the bindings are changed under way, so no measure of
the two types alone goes down. What does is a pair: the number of parameters still
unbound, and below it how deep the two types go when bindings are followed. A match
either binds a parameter, or leaves every binding at most as deep as it was, since a
widened binding has `dyn` or a type of types where the old one had a structure. -/
namespace CelTyping

section Height

mutual

/-- How deep a match can go into a type when `below p` is the depth under the
parameter `p`. Wrappers, types of types and errors are never taken apart. -/
def Ty.height (below : String → Nat) : Ty → Nat
  | .list t => t.height below + 1
  | .map k v => max (k.height below) (v.height below) + 1
  | .abstract _ ps => Ty.heightAll below ps + 1
  | .optional t => t.height below + 1
  | .function r ps => max (r.height below) (Ty.heightAll below ps) + 1
  | .param p => below p + 1
  | .scalar _ | .message _ | .wrapper _ | .type _ | .error _ => 1

def Ty.heightAll (below : String → Nat) : List Ty → Nat
  | [] => 0
  | t :: ts => max (t.height below) (Ty.heightAll below ts)

end

theorem Ty.height_pos (below : String → Nat) (t : Ty) : 0 < t.height below := by
  cases t <;> simp [Ty.height]

theorem Ty.height_le_heightAll (below : String → Nat) {t : Ty} {ts : List Ty} (h : t ∈ ts) :
    t.height below ≤ Ty.heightAll below ts := by
  induction ts with
  | nil => cases h
  | cons s ts ih =>
    simp only [Ty.heightAll]
    rcases List.mem_cons.1 h with rfl | h
    · exact Nat.le_max_left _ _
    · exact Nat.le_trans (ih h) (Nat.le_max_right _ _)

mutual

theorem Ty.height_mono {f g : String → Nat} (t : Ty) (h : ∀ p ∈ t.paramNames, f p ≤ g p) :
    t.height f ≤ t.height g := by
  cases t with
  | list t => exact Nat.succ_le_succ (Ty.height_mono t h)
  | optional t => exact Nat.succ_le_succ (Ty.height_mono t h)
  | map k v =>
    have hk := Ty.height_mono k fun p hp => h p (List.mem_append_left _ hp)
    have hv := Ty.height_mono v fun p hp => h p (List.mem_append_right _ hp)
    simp only [Ty.height]
    omega
  | abstract n ps => exact Nat.succ_le_succ (Ty.heightAll_mono ps h)
  | function r ps =>
    have hr := Ty.height_mono r fun p hp => h p (List.mem_append_left _ hp)
    have hps := Ty.heightAll_mono ps fun p hp => h p (List.mem_append_right _ hp)
    simp only [Ty.height]
    omega
  | param p => exact Nat.succ_le_succ (h p List.mem_cons_self)
  | _ => exact Nat.le_refl _

theorem Ty.heightAll_mono {f g : String → Nat} (ts : List Ty)
    (h : ∀ p ∈ Ty.paramNamesAll ts, f p ≤ g p) : Ty.heightAll f ts ≤ Ty.heightAll g ts := by
  cases ts with
  | nil => exact Nat.le_refl _
  | cons t ts =>
    have ht := Ty.height_mono t fun p hp => h p (List.mem_append_left _ hp)
    have hts := Ty.heightAll_mono ts fun p hp => h p (List.mem_append_right _ hp)
    simp only [Ty.heightAll]
    omega

end

mutual

theorem Ty.height_le_size {f : String → Nat} {top : Nat} (t : Ty)
    (h : ∀ p ∈ t.paramNames, f p ≤ top) : t.height f ≤ t.size + top := by
  cases t with
  | list t =>
    have ht := Ty.height_le_size t h
    simp only [Ty.height, Ty.size]
    omega
  | optional t =>
    have ht := Ty.height_le_size t h
    simp only [Ty.height, Ty.size]
    omega
  | map k v =>
    have hk := Ty.height_le_size k fun p hp => h p (List.mem_append_left _ hp)
    have hv := Ty.height_le_size v fun p hp => h p (List.mem_append_right _ hp)
    simp only [Ty.height, Ty.size]
    omega
  | abstract n ps =>
    have hps := Ty.heightAll_le_size ps h
    simp only [Ty.height, Ty.size]
    omega
  | function r ps =>
    have hr := Ty.height_le_size r fun p hp => h p (List.mem_append_left _ hp)
    have hps := Ty.heightAll_le_size ps fun p hp => h p (List.mem_append_right _ hp)
    simp only [Ty.height, Ty.size]
    omega
  | param p =>
    have hp := h p List.mem_cons_self
    simp only [Ty.height, Ty.size]
    omega
  | _ =>
    simp only [Ty.height, Ty.size]
    omega

theorem Ty.heightAll_le_size {f : String → Nat} {top : Nat} (ts : List Ty)
    (h : ∀ p ∈ Ty.paramNamesAll ts, f p ≤ top) :
    Ty.heightAll f ts ≤ Ty.sizeAll ts + top := by
  cases ts with
  | nil => exact Nat.zero_le _
  | cons t ts =>
    have ht := Ty.height_le_size t fun p hp => h p (List.mem_append_left _ hp)
    have hts := Ty.heightAll_le_size ts fun p hp => h p (List.mem_append_right _ hp)
    simp only [Ty.heightAll, Ty.sizeAll]
    omega

end

mutual

@[simp] theorem Ty.height_blank (f : String → Nat) (t : Ty) : t.blank.height f = t.height f := by
  cases t with
  | list t => simp only [Ty.blank, Ty.height, Ty.height_blank f t]
  | optional t => simp only [Ty.blank, Ty.height, Ty.height_blank f t]
  | map k v => simp only [Ty.blank, Ty.height, Ty.height_blank f k, Ty.height_blank f v]
  | abstract n ps => simp only [Ty.blank, Ty.height, Ty.heightAll_blank f ps]
  | function r ps =>
    simp only [Ty.blank, Ty.height, Ty.height_blank f r, Ty.heightAll_blank f ps]
  | _ => simp only [Ty.blank, Ty.height]

@[simp] theorem Ty.heightAll_blank (f : String → Nat) (ts : List Ty) :
    Ty.heightAll f (Ty.blankAll ts) = Ty.heightAll f ts := by
  cases ts with
  | nil => rfl
  | cons t ts =>
    simp only [Ty.blankAll, Ty.heightAll, Ty.height_blank f t, Ty.heightAll_blank f ts]

end

theorem Ty.height_eq_of_exact {a b : Ty} (f : String → Nat) (h : a.exact b = true) :
    a.height f = b.height f := by
  rw [← Ty.height_blank f a, ← Ty.height_blank f b, (Ty.exact_iff a b).1 h]

mutual

theorem Ty.height_le_of_subsumes (f : String → Nat) (a b : Ty) (h : a.subsumes b = true) :
    a.height f ≤ b.height f := by
  cases a with
  | list t =>
    obtain ⟨s, rfl, hs⟩ := Ty.subsumes_list.1 h
    exact Nat.succ_le_succ (Ty.height_le_of_subsumes f t s hs)
  | optional t =>
    obtain ⟨s, rfl, hs⟩ := Ty.subsumes_optional.1 h
    exact Nat.succ_le_succ (Ty.height_le_of_subsumes f t s hs)
  | map k v =>
    obtain ⟨k', v', rfl, hk, hv⟩ := Ty.subsumes_map.1 h
    have hk := Ty.height_le_of_subsumes f k k' hk
    have hv := Ty.height_le_of_subsumes f v v' hv
    simp only [Ty.height]
    omega
  | abstract n ps =>
    obtain ⟨qs, rfl, hq⟩ := Ty.subsumes_abstract.1 h
    exact Nat.succ_le_succ (Ty.heightAll_le_of_subsumesAll f ps qs hq)
  | function r ps =>
    rw [Ty.subsumes_of_isRigid rfl] at h
    exact Nat.le_of_eq (Ty.height_eq_of_exact f h)
  | param p =>
    rw [Ty.subsumes_of_isRigid rfl] at h
    exact Nat.le_of_eq (Ty.height_eq_of_exact f h)
  | _ => exact Ty.height_pos f b

theorem Ty.heightAll_le_of_subsumesAll (f : String → Nat) (as bs : List Ty)
    (h : Ty.subsumesAll as bs = true) : Ty.heightAll f as ≤ Ty.heightAll f bs := by
  cases as <;> cases bs <;>
    simp only [Ty.subsumesAll, Bool.and_eq_true, Bool.false_eq_true] at h
  case nil.nil => exact Nat.le_refl _
  case cons.cons a as b bs =>
    have ha := Ty.height_le_of_subsumes f a b h.1
    have has := Ty.heightAll_le_of_subsumesAll f as bs h.2
    simp only [Ty.heightAll]
    omega

end

end Height

namespace Bindings

section Depth

def depthBelow : Nat → Bindings → String → Nat
  | 0, _, _ => 0
  | n + 1, m, p =>
    match m.get? p with
    | some t => t.height (depthBelow n m)
    | none => 0

def depth (m : Bindings) (p : String) : Nat := m.depthBelow m.size p

theorem Ranked.depthBelow_succ {m : Bindings} {rank : String → Nat} (hm : m.Ranked rank)
    (n : Nat) : ∀ p, rank p ≤ n → m.depthBelow (n + 1) p = m.depthBelow n p := by
  induction n with
  | zero =>
    intro p hp
    cases ht : m.get? p with
    | none => simp [depthBelow, ht]
    | some t => exact absurd (hm p t ht).1 (by omega)
  | succ n ih =>
    intro p hp
    cases ht : m.get? p with
    | none => simp [depthBelow, ht]
    | some t =>
      have heq : ∀ q ∈ t.paramNames, m.depthBelow (n + 1) q = m.depthBelow n q := by
        intro q hq
        have hlt := (hm p t ht).2 q hq
        exact ih q (by omega)
      rw [depthBelow, depthBelow, ht]
      exact Nat.le_antisymm (t.height_mono fun q hq => Nat.le_of_eq (heq q hq))
        (t.height_mono fun q hq => Nat.le_of_eq (heq q hq).symm)

theorem Acyclic.depth_eq {m : Bindings} (hm : m.Acyclic) {p : String} {t : Ty}
    (ht : m.get? p = some t) : m.depth p = t.height m.depth := by
  have h : m.depthBelow (m.size + 1) p = m.depth p :=
    hm.ranked.depthBelow_succ m.size p (m.reach_le_size p)
  rw [← h, depthBelow, ht]
  rfl

theorem depth_eq_zero {m : Bindings} {p : String} (hp : m.get? p = none) : m.depth p = 0 := by
  unfold depth
  cases m.size with
  | zero => rfl
  | succ n => simp [depthBelow, hp]

theorem depthBelow_le {m : Bindings} {w : Nat} (hw : ∀ p t, m.get? p = some t → t.size ≤ w)
    (n : Nat) : ∀ p, m.depthBelow n p ≤ n * w := by
  induction n with
  | zero =>
    intro p
    exact Nat.zero_le _
  | succ n ih =>
    intro p
    rw [depthBelow, Nat.succ_mul]
    split
    next t ht =>
      have hle := t.height_le_size fun q _ => ih q
      have hsize := hw p t ht
      omega
    next => exact Nat.zero_le _

end Depth

section Unbound

def unbound (names : List String) (m : Bindings) : Nat :=
  names.countP fun p => (m.get? p).isNone

theorem Widened.isNone {m m' : Bindings} (h : m.Widened m') {p : String}
    (hp : (m'.get? p).isNone = true) : (m.get? p).isNone = true := by
  cases ht : m.get? p with
  | none => rfl
  | some t =>
    obtain ⟨t', ht', _⟩ := h p t ht
    rw [ht'] at hp
    cases hp

theorem Widened.unbound_le {m m' : Bindings} (h : m.Widened m') (names : List String) :
    m'.unbound names ≤ m.unbound names :=
  List.countP_mono_left fun _ _ hp => h.isNone hp

theorem Widened.get?_eq_none {m m' : Bindings} (h : m.Widened m') {names : List String}
    (hu : m'.unbound names = m.unbound names) {p : String} (hp : p ∈ names)
    (hn : m.get? p = none) : m'.get? p = none := by
  -- As many names are unbound as before, so they are the same ones.
  cases ht : m'.get? p with
  | none => rfl
  | some t =>
    have hlt : m'.unbound names < m.unbound names :=
      countP_lt_countP (fun _ _ hp => h.isNone hp) hp (by simp [hn]) (by simp [ht])
    omega

theorem Widened.depth_le {m m' : Bindings} (hm : m.Acyclic) (hm' : m'.Acyclic)
    (h : m.Widened m') {names : List String} (hu : m'.unbound names = m.unbound names)
    (hnames : ∀ p t, m.get? p = some t → ∀ q ∈ t.paramNames, q ∈ names) (p : String)
    (hp : p ∈ names) : m'.depth p ≤ m.depth p := by
  -- along the numbering of `m`, whose bindings bound those of `m'` from above
  induction hr : m.reach p using Nat.strongRecOn generalizing p with
  | ind r ih =>
    cases ht : m.get? p with
    | none =>
      rw [depth_eq_zero (h.get?_eq_none hu hp ht)]
      exact Nat.zero_le _
    | some t =>
      obtain ⟨t', ht', hs⟩ := h p t ht
      rw [hm.depth_eq ht, hm'.depth_eq ht']
      calc
        t'.height m'.depth ≤ t.height m'.depth := Ty.height_le_of_subsumes _ t' t hs
        _ ≤ t.height m.depth := t.height_mono fun q hq =>
            ih (m.reach q) (hr ▸ (hm.ranked p t ht).2 q hq) q (hnames p t ht q hq) rfl

end Unbound

section Room

variable {names : List String} {room : Nat}

structure Small (names : List String) (room : Nat) (t : Ty) : Prop where
  mentions : ∀ p ∈ t.paramNames, p ∈ names
  size_le : t.size ≤ room

/-- All bindings are small, and however many names get bound there are never more
than `room` bindings. -/
structure Within (names : List String) (room : Nat) (m : Bindings) : Prop where
  small : ∀ p t, m.get? p = some t → Small names room t
  count_le : m.size + m.unbound names ≤ room

theorem Small.list {t : Ty} (h : Small names room (.list t)) : Small names room t :=
  ⟨h.mentions, Nat.le_of_succ_le h.size_le⟩

theorem Small.optional {t : Ty} (h : Small names room (.optional t)) : Small names room t :=
  ⟨h.mentions, Nat.le_of_succ_le h.size_le⟩

theorem Small.map {k v : Ty} (h : Small names room (.map k v)) :
    Small names room k ∧ Small names room v := by
  have hs : k.size + v.size + 1 ≤ room := h.size_le
  exact ⟨⟨fun p hp => h.mentions p (List.mem_append_left _ hp), by omega⟩,
    ⟨fun p hp => h.mentions p (List.mem_append_right _ hp), by omega⟩⟩

theorem Small.of_mem {ts : List Ty} (hm : ∀ p ∈ Ty.paramNamesAll ts, p ∈ names)
    (hs : Ty.sizeAll ts ≤ room) : ∀ t ∈ ts, Small names room t := by
  induction ts with
  | nil => exact fun t ht => absurd ht List.not_mem_nil
  | cons s ts ih =>
    have hs' : s.size + Ty.sizeAll ts ≤ room := hs
    intro t ht
    rcases List.mem_cons.1 ht with rfl | ht
    · exact ⟨fun p hp => hm p (List.mem_append_left _ hp), by omega⟩
    · exact ih (fun p hp => hm p (List.mem_append_right _ hp)) (by omega) t ht

theorem Small.abstract {n : String} {ts : List Ty} (h : Small names room (.abstract n ts)) :
    ∀ t ∈ ts, Small names room t :=
  .of_mem h.mentions (Nat.le_of_succ_le h.size_le)

theorem Small.function {r : Ty} {ts : List Ty} (h : Small names room (.function r ts)) :
    Small names room r ∧ ∀ t ∈ ts, Small names room t := by
  have hs : r.size + Ty.sizeAll ts + 1 ≤ room := h.size_le
  exact ⟨⟨fun p hp => h.mentions p (List.mem_append_left _ hp), by omega⟩,
    .of_mem (fun p hp => h.mentions p (List.mem_append_right _ hp)) (by omega)⟩

theorem Within.insert {m : Bindings} (h : m.Within names room) {p : String} {t : Ty}
    (hp : p ∈ names) (ht : Small names room t) : Within names room (m.insert p t) := by
  refine ⟨?_, ?_⟩
  · intro q s hs
    by_cases hq : q = p
    · subst hq
      rw [Table.get?_insert_self] at hs
      cases hs
      exact ht
    · rw [Table.get?_insert_of_ne m t hq] at hs
      exact h.small q s hs
  · have hle : ∀ q ∈ names, ((m.insert p t).get? q).isNone = true → (m.get? q).isNone = true := by
      intro q _ hq
      rw [Table.get?_insert] at hq
      split at hq
      · cases hq
      · exact hq
    have hc := h.count_le
    cases hg : m.get? p with
    | some s =>
      have hsize : (m.insert p t).size = m.size := by
        rw [Table.size_insert, if_pos (by simp [Table.contains, hg])]
      have hu : unbound names (m.insert p t) ≤ m.unbound names := List.countP_mono_left hle
      omega
    | none =>
      have hsize : (m.insert p t).size = m.size + 1 := by
        rw [Table.size_insert, if_neg (by simp [Table.contains, hg])]
      have hu : unbound names (m.insert p t) < m.unbound names :=
        countP_lt_countP hle hp (by simp [hg]) (by simp)
      omega

theorem Small.mostGeneral {a b : Ty} (ha : Small names room a) (hb : Small names room b) :
    Small names room (a.mostGeneral b) :=
  Ty.mostGeneral_of ha hb

mutual

theorem Matches.within {m m' : Bindings} {a b : Ty} (hm : m.Within names room)
    (ha : Small names room a) (hb : Small names room b) :
    Matches m a b m' → m'.Within names room
  | .right h => h.within hm ha (hb.mentions _ List.mem_cons_self)
  | .left h => h.within hm hb (ha.mentions _ List.mem_cons_self)
  | .fits _ _ _ => hm
  | .list h => h.within hm ha.list hb.list
  | .optional h => h.within hm ha.optional hb.optional
  | .map hk hv => hv.within (hk.within hm ha.map.1 hb.map.1) ha.map.2 hb.map.2
  | .abstract h => h.within hm ha.abstract hb.abstract
  | .function hr h =>
    h.within (hr.within hm ha.function.1 hb.function.1) ha.function.2 hb.function.2

theorem Binds.within {m m' : Bindings} {t : Ty} {p : String} (hm : m.Within names room)
    (ht : Small names room t) (hp : p ∈ names) : Binds m t p m' → m'.Within names room
  | .self => hm
  | .same _ _ => hm
  | .widen hb h _ => (h.within hm ht (hm.small _ _ hb)).insert hp (ht.mostGeneral (hm.small _ _ hb))
  | .keep hb h => h.within hm ht (hm.small _ _ hb)
  | .fresh _ _ => hm.insert hp ht

theorem MatchesAll.within {m m' : Bindings} {as bs : List Ty} (hm : m.Within names room)
    (has : ∀ a ∈ as, Small names room a) (hbs : ∀ b ∈ bs, Small names room b) :
    MatchesAll m as bs m' → m'.Within names room
  | .nil => hm
  | .cons h hs =>
    hs.within (h.within hm (has _ List.mem_cons_self) (hbs _ List.mem_cons_self))
      (fun a ha => has a (List.mem_cons_of_mem _ ha))
      (fun b hb => hbs b (List.mem_cons_of_mem _ hb))

end

end Room

section Effort

variable {names : List String} {room : Nat}

def ceiling (room : Nat) : Nat := (room + 1) * room

theorem Within.height_le {m : Bindings} (hm : m.Within names room) {t : Ty}
    (ht : Small names room t) : t.height m.depth ≤ ceiling room := by
  have hdepth : ∀ p, m.depth p ≤ room * room := fun p =>
    Nat.le_trans (depthBelow_le (fun q s hs => (hm.small q s hs).size_le) m.size p)
      (Nat.mul_le_mul_right _ (by have := hm.count_le; omega))
  have hle := t.height_le_size fun p _ => hdepth p
  have hs := ht.size_le
  rw [ceiling, Nat.succ_mul]
  omega

/-- What goes down at every step into a match: first the number of unbound names, then
the heights of the two types. -/
def effort (names : List String) (room : Nat) (m : Bindings) (a b : Ty) : Nat :=
  m.unbound names * (2 * ceiling room + 1) + (a.height m.depth + b.height m.depth)

theorem effort_lt {m m' : Bindings} (hm : m.Acyclic) (hm' : m'.Acyclic) (h : m.Widened m')
    (hw : m.Within names room) (hw' : m'.Within names room) {a b x y : Ty}
    (hx : Small names room x) (hy : Small names room y)
    (hlt : x.height m.depth + y.height m.depth < a.height m.depth + b.height m.depth) :
    effort names room m' x y < effort names room m a b := by
  unfold effort
  rcases Nat.lt_or_eq_of_le (h.unbound_le names) with hu | hu
  · -- a name was bound under way: whatever the heights are now, the count pays for them
    have hxc := hw'.height_le hx
    have hyc := hw'.height_le hy
    have hmul := Nat.mul_le_mul_right (2 * ceiling room + 1) (Nat.succ_le_of_lt hu)
    rw [Nat.succ_mul] at hmul
    omega
  · have hdepth : ∀ p ∈ names, m'.depth p ≤ m.depth p := fun p hp =>
      h.depth_le hm hm' hu (fun q s hs => (hw.small q s hs).mentions) p hp
    have hxm := x.height_mono fun p hp => hdepth p (hx.mentions p hp)
    have hym := y.height_mono fun p hp => hdepth p (hy.mentions p hp)
    rw [hu]
    omega

theorem effort_le {m : Bindings} (hw : m.Within names room) {a b : Ty}
    (ha : Small names room a) (hb : Small names room b) :
    effort names room m a b ≤ 2 * ((room + 1) * (room + 1) * (room + 1)) := by
  have hu : m.unbound names ≤ room := by have := hw.count_le; omega
  have hmul := Nat.mul_le_mul_right (2 * ceiling room + 1) hu
  have hac := hw.height_le ha
  have hbc := hw.height_le hb
  have hcube : room * (2 * ceiling room + 1) + 2 * ceiling room ≤
      2 * ((room + 1) * (room + 1) * (room + 1)) := by
    unfold ceiling
    ring_nf
    omega
  unfold effort
  omega

end Effort

section Fuel

variable {names : List String} {room : Nat}
  {step : Bindings → Ty → Ty → Except Stop Bindings} {m : Bindings} {a b : Ty}

/-- From bindings that a match starting with `m` can come to, the step does not run out
of fuel on types that go less deep than `a` and `b` do. -/
structure Fuelled (names : List String) (room : Nat)
    (step : Bindings → Ty → Ty → Except Stop Bindings) (m : Bindings) (a b : Ty) : Prop where
  sound : ∀ m x y m', step m x y = .ok m' → Matches m x y m'
  ends : ∀ m' x y, m.Widened m' → m'.Acyclic → m'.Within names room →
    Small names room x → Small names room y →
    x.height m.depth + y.height m.depth < a.height m.depth + b.height m.depth →
    step m' x y ≠ .error .outOfFuel

theorem pairwise_ne_outOfFuel {as bs : List Ty}
    (sound : ∀ m x y m', step m x y = .ok m' → Matches m x y m')
    (has : ∀ x ∈ as, Small names room x) (hbs : ∀ y ∈ bs, Small names room y)
    (ends : ∀ m' x y, x ∈ as → y ∈ bs → m.Widened m' → m'.Acyclic → m'.Within names room →
      step m' x y ≠ .error .outOfFuel) :
    ∀ m', m.Widened m' → m'.Acyclic → m'.Within names room →
      pairwise step m' as bs ≠ .error .outOfFuel := by
  induction as generalizing bs with
  | nil =>
    intro m' _ _ _
    cases bs <;> simp [pairwise]
  | cons x as ih =>
    intro m' hwide hac hw
    cases bs with
    | nil => simp [pairwise]
    | cons y bs =>
      simp only [pairwise]
      split
      next m₁ h₁ =>
        have hstep := sound m' x y m₁ h₁
        exact ih (fun z hz => has z (List.mem_cons_of_mem _ hz))
          (fun z hz => hbs z (List.mem_cons_of_mem _ hz))
          (fun m' z z' hz hz' =>
            ends m' z z' (List.mem_cons_of_mem _ hz) (List.mem_cons_of_mem _ hz'))
          m₁ (hwide.trans hstep.widened) (hstep.acyclic hac)
          (hstep.within hw (has x List.mem_cons_self) (hbs y List.mem_cons_self))
      next e he =>
        intro heq
        cases heq
        exact ends m' x y List.mem_cons_self List.mem_cons_self hwide hac hw he

theorem Fuelled.pairwise_ne (h : Fuelled names room step m a b) {as bs : List Ty}
    (has : ∀ x ∈ as, Small names room x) (hbs : ∀ y ∈ bs, Small names room y)
    (ha : Ty.heightAll m.depth as < a.height m.depth)
    (hb : Ty.heightAll m.depth bs < b.height m.depth) {m' : Bindings} (hwide : m.Widened m')
    (hac : m'.Acyclic) (hw : m'.Within names room) :
    pairwise step m' as bs ≠ .error .outOfFuel := by
  refine pairwise_ne_outOfFuel h.sound has hbs ?_ m' hwide hac hw
  intro m₁ x y hx hy hwide₁ hac₁ hw₁
  apply h.ends m₁ x y hwide₁ hac₁ hw₁ (has x hx) (hbs y hy)
  have hxle := Ty.height_le_heightAll m.depth hx
  have hyle := Ty.height_le_heightAll m.depth hy
  omega

theorem Fuelled.bindParam_ne (h : Fuelled names room step m a b) (hm : m.Acyclic)
    (hw : m.Within names room) {t : Ty} {p : String} (ht : Small names room t)
    (hlt : t.height m.depth + (Ty.param p).height m.depth ≤
      a.height m.depth + b.height m.depth) :
    m.bindParam step t p ≠ .error .outOfFuel := by
  unfold bindParam
  split
  next => simp
  next =>
    split
    next bound hb =>
      split
      next => simp
      next =>
        have hbound := hw.small p bound hb
        have hgo : step m t bound ≠ .error .outOfFuel := by
          apply h.ends m t bound (.refl m) hm hw ht hbound
          have heq := hm.depth_eq hb
          simp only [Ty.height] at hlt
          omega
        cases hs : step m t bound with
        | error e =>
          intro heq
          simp only [bind, Except.bind] at heq
          cases heq
          exact hgo hs
        | ok m' =>
          have hm' := (h.sound m t bound m' hs).acyclic hm
          obtain ⟨c, hc, _⟩ := hm'.occurs_eq_ok p (t.mostGeneral bound)
          simp [bind, Except.bind, pure, Except.pure, hc]
    next =>
      obtain ⟨c, hc, _⟩ := hm.occurs_eq_ok p t
      simp [bind, Except.bind, pure, Except.pure, hc]

theorem keepIf_ne_outOfFuel (m : Bindings) (ok : Bool) : m.keepIf ok ≠ .error .outOfFuel := by
  cases ok <;> simp [keepIf]

theorem Fuelled.assignParts_ne (h : Fuelled names room step m a b) (hm : m.Acyclic)
    (hw : m.Within names room) (ha : Small names room a) (hb : Small names room b) :
    m.assignParts step a b ≠ .error .outOfFuel := by
  unfold assignParts
  split
  case h_5 | h_6 | h_13 | h_14 | h_15 => exact keepIf_ne_outOfFuel _ _
  case h_8 n as n' bs =>
    split
    next =>
      exact h.pairwise_ne ha.abstract hb.abstract (Nat.lt_succ_self _) (Nat.lt_succ_self _)
        (.refl m) hm hw
    next => simp
  case h_9 r as r' bs =>
    have hr := h.ends m r r' (.refl m) hm hw ha.function.1 hb.function.1
      (by simp only [Ty.height]; omega)
    split
    next m₁ h₁ =>
      have hstep := h.sound m r r' m₁ h₁
      exact h.pairwise_ne ha.function.2 hb.function.2 (by simp only [Ty.height]; omega)
        (by simp only [Ty.height]; omega) hstep.widened (hstep.acyclic hm)
        (hstep.within hw ha.function.1 hb.function.1)
    next e he =>
      intro heq
      cases heq
      exact hr he
  case h_10 x y =>
    exact h.ends m x y (.refl m) hm hw ha.optional hb.optional
      (by simp only [Ty.height]; omega)
  case h_11 x y =>
    exact h.ends m x y (.refl m) hm hw ha.list hb.list (by simp only [Ty.height]; omega)
  case h_12 k v k' v' =>
    have hk := h.ends m k k' (.refl m) hm hw ha.map.1 hb.map.1
      (by simp only [Ty.height]; omega)
    split
    next m₁ h₁ =>
      have hstep := h.sound m k k' m₁ h₁
      exact h.ends m₁ v v' hstep.widened (hstep.acyclic hm)
        (hstep.within hw ha.map.1 hb.map.1) ha.map.2 hb.map.2 (by simp only [Ty.height]; omega)
    next e he =>
      intro heq
      cases heq
      exact hk he
  all_goals simp

theorem Fuelled.assignLeft_ne (h : Fuelled names room step m a b) (hm : m.Acyclic)
    (hw : m.Within names room) (ha : Small names room a) (hb : Small names room b) :
    m.assignLeft step a b ≠ .error .outOfFuel := by
  unfold assignLeft
  split
  next p =>
    have hp := h.bindParam_ne hm hw hb (Nat.le_of_eq (Nat.add_comm _ _))
    split
    next => simp
    next => simp
    next e he =>
      intro heq
      cases heq
      exact hp he
  next => exact h.assignParts_ne hm hw ha hb

/-- With as much fuel as the effort, a match does not run out of it. -/
theorem assign_ne_outOfFuel (n : Nat) :
    ∀ m a b, m.Acyclic → m.Within names room → Small names room a → Small names room b →
      effort names room m a b ≤ n → assign n m a b ≠ .error .outOfFuel := by
  induction n with
  | zero =>
    intro m a b _ _ _ _ he
    have hpos := a.height_pos m.depth
    unfold effort at he
    omega
  | succ n ih =>
    intro m a b hm hw ha hb he
    have h : Fuelled names room (assign n) m a b := by
      refine ⟨Matches.of_assign n, ?_⟩
      intro m' x y hwide hm' hw' hx hy hlt
      have hless := effort_lt hm hm' hwide hw hw' hx hy hlt
      exact ih m' x y hm' hw' hx hy (by omega)
    simp only [assign]
    split
    next q =>
      have hq := h.bindParam_ne hm hw ha (Nat.le_refl _)
      split
      next => simp
      next => exact h.assignLeft_ne hm hw ha hb
      next e he =>
        intro heq
        cases heq
        exact hq he
    next => exact h.assignLeft_ne hm hw ha hb

end Fuel

section MoreFuel

variable {step step' : Bindings → Ty → Ty → Except Stop Bindings}

def Agrees (step step' : Bindings → Ty → Ty → Except Stop Bindings) : Prop :=
  ∀ m a b, step m a b ≠ .error .outOfFuel → step' m a b = step m a b

theorem Agrees.andThen (h : Agrees step step') {m : Bindings} {a b : Ty}
    {next next' : Bindings → Except Stop Bindings}
    (hnext : ∀ m', next m' ≠ .error .outOfFuel → next' m' = next m')
    (hne : (match step m a b with | .ok m' => next m' | .error e => .error e) ≠
      .error .outOfFuel) :
    (match step' m a b with | .ok m' => next' m' | .error e => .error e) =
      (match step m a b with | .ok m' => next m' | .error e => .error e) := by
  cases hs : step m a b with
  | ok m₁ =>
    simp only [hs] at hne
    simp only [h m a b (by simp [hs]), hs]
    exact hnext m₁ hne
  | error e =>
    simp only [hs] at hne
    simp only [h m a b (by rwa [hs]), hs]

theorem Agrees.pairwise (h : Agrees step step') (as bs : List Ty) (m : Bindings)
    (hne : pairwise step m as bs ≠ .error .outOfFuel) :
    Bindings.pairwise step' m as bs = Bindings.pairwise step m as bs := by
  induction as generalizing bs m with
  | nil => cases bs <;> rfl
  | cons a as ih =>
    cases bs with
    | nil => rfl
    | cons b bs =>
      simp only [Bindings.pairwise] at hne ⊢
      exact h.andThen (fun m' hne' => ih bs m' hne') hne

theorem Agrees.bindParam (h : Agrees step step') (m : Bindings) (t : Ty) (p : String)
    (hne : m.bindParam step t p ≠ .error .outOfFuel) :
    m.bindParam step' t p = m.bindParam step t p := by
  unfold Bindings.bindParam at hne ⊢
  split
  next => rfl
  next he =>
    rw [if_neg he] at hne
    split
    next bound hb =>
      simp only [hb] at hne
      split
      next => rfl
      next hb' =>
        rw [if_neg hb'] at hne
        have hs : step m t bound ≠ .error .outOfFuel := by
          intro hs
          exact hne (by simp [hs, bind, Except.bind])
        rw [h m t bound hs]
    next => rfl

theorem Agrees.assignParts (h : Agrees step step') (m : Bindings) (a b : Ty)
    (hne : m.assignParts step a b ≠ .error .outOfFuel) :
    m.assignParts step' a b = m.assignParts step a b := by
  unfold Bindings.assignParts at hne ⊢
  split
  case h_8 n as n' bs =>
    split
    next hn =>
      simp only [if_pos hn] at hne
      exact h.pairwise as bs m hne
    next => rfl
  case h_9 r as r' bs => exact h.andThen (fun m' => h.pairwise as bs m') hne
  case h_10 x y => exact h m x y hne
  case h_11 x y => exact h m x y hne
  case h_12 k v k' v' => exact h.andThen (fun m' => h m' v v') hne
  all_goals rfl

theorem Agrees.assignLeft (h : Agrees step step') (m : Bindings) (a b : Ty)
    (hne : m.assignLeft step a b ≠ .error .outOfFuel) :
    m.assignLeft step' a b = m.assignLeft step a b := by
  cases a with
  | param p =>
    simp only [Bindings.assignLeft] at hne ⊢
    have hb : m.bindParam step b p ≠ .error .outOfFuel := by
      intro hb
      exact hne (by simp [hb])
    rw [h.bindParam m b p hb]
  | _ =>
    simp only [Bindings.assignLeft] at hne ⊢
    exact h.assignParts m _ b hne

theorem assign_param (n : Nat) (m : Bindings) (a : Ty) (q : String) :
    assign (n + 1) m a (.param q) =
      match m.bindParam (assign n) a q with
      | .ok (some m') => .ok m'
      | .ok none => m.assignLeft (assign n) a (.param q)
      | .error e => .error e :=
  rfl

theorem assign_of_ne_param (n : Nat) (m : Bindings) (a : Ty) {b : Ty} (hb : ∀ q, b ≠ .param q) :
    assign (n + 1) m a b = m.assignLeft (assign n) a b := by
  cases b with
  | param q => exact absurd rfl (hb q)
  | _ => rfl

theorem assign_succ (n : Nat) : Agrees (assign n) (assign (n + 1)) := by
  induction n with
  | zero =>
    intro m a b hne
    exact absurd rfl hne
  | succ n ih =>
    intro m a b hne
    by_cases hb : ∃ q, b = .param q
    · obtain ⟨q, rfl⟩ := hb
      rw [assign_param] at hne ⊢
      rw [assign_param]
      have hb : m.bindParam (assign n) a q ≠ .error .outOfFuel := by
        intro hb
        exact hne (by rw [hb])
      rw [ih.bindParam m a q hb]
      split
      next => rfl
      next hnone =>
        simp only [hnone] at hne
        exact ih.assignLeft m a _ hne
      next => rfl
    · have hb' : ∀ q, b ≠ .param q := fun q hq => hb ⟨q, hq⟩
      rw [assign_of_ne_param n m a hb'] at hne ⊢
      rw [assign_of_ne_param (n + 1) m a hb']
      exact ih.assignLeft m a b hne

theorem agrees_of_le {n k : Nat} (hk : n ≤ k) : Agrees (assign n) (assign k) := by
  intro m a b hne
  induction hk with
  | refl => rfl
  | step _ ih =>
    rw [← ih]
    exact assign_succ _ m a b (by rwa [ih])

end MoreFuel

section Start

def mentioned (m : Bindings) : List String := m.toList.flatMap fun e => e.2.paramNames

mutual

theorem length_paramNames_le (t : Ty) : t.paramNames.length ≤ t.size := by
  cases t with
  | list t => exact Nat.le_succ_of_le (length_paramNames_le t)
  | optional t => exact Nat.le_succ_of_le (length_paramNames_le t)
  | wrapper t => exact Nat.le_succ_of_le (length_paramNames_le t)
  | type t => exact Nat.le_succ_of_le (length_paramNames_le t)
  | map k v =>
    have hk := length_paramNames_le k
    have hv := length_paramNames_le v
    simp only [Ty.paramNames, Ty.size, List.length_append]
    omega
  | abstract n ps => exact Nat.le_succ_of_le (length_paramNamesAll_le ps)
  | function r ps =>
    have hr := length_paramNames_le r
    have hps := length_paramNamesAll_le ps
    simp only [Ty.paramNames, Ty.size, List.length_append]
    omega
  | _ => simp [Ty.paramNames, Ty.size]

theorem length_paramNamesAll_le (ts : List Ty) :
    (Ty.paramNamesAll ts).length ≤ Ty.sizeAll ts := by
  cases ts with
  | nil => exact Nat.le_refl _
  | cons t ts =>
    have ht := length_paramNames_le t
    have hts := length_paramNamesAll_le ts
    simp only [Ty.paramNamesAll, Ty.sizeAll, List.length_append]
    omega

end

theorem weight_eq (l : List (String × Ty)) (n : Nat) :
    l.foldl (fun n e => n + e.2.size + 1) n = n + (l.map fun e => e.2.size + 1).sum := by
  induction l generalizing n with
  | nil => rfl
  | cons e l ih =>
    simp only [List.foldl_cons, ih, List.map_cons, List.sum_cons]
    omega

theorem size_add_mentioned_le (m : Bindings) : m.size + m.mentioned.length ≤ m.weight := by
  unfold Table.size mentioned weight
  rw [weight_eq, Nat.zero_add]
  change m.toList.length + _ ≤ _
  induction m.toList with
  | nil => exact Nat.le_refl _
  | cons e l ih =>
    have hlen := length_paramNames_le e.2
    simp only [List.flatMap_cons, List.length_append, List.length_cons, List.map_cons,
      List.sum_cons]
    omega

theorem size_le_weight {m : Bindings} {p : String} {t : Ty} (h : m.get? p = some t) :
    t.size ≤ m.weight := by
  unfold weight
  rw [weight_eq, Nat.zero_add]
  obtain ⟨before, after, heq⟩ := List.append_of_mem (Table.mem_toList_of_get? h)
  simp only [heq, List.map_append, List.map_cons, List.sum_append, List.sum_cons]
  omega

theorem within_start (m : Bindings) (extra : List String) {size : Nat}
    (h : extra.length ≤ size) : m.Within (m.mentioned ++ extra) (m.weight + size) := by
  refine ⟨?_, ?_⟩
  · intro p t ht
    refine ⟨fun q hq => List.mem_append_left _ ?_, Nat.le_add_right_of_le (size_le_weight ht)⟩
    exact List.mem_flatMap.2 ⟨(p, t), Table.mem_toList_of_get? ht, hq⟩
  · have hu : m.unbound (m.mentioned ++ extra) ≤ (m.mentioned ++ extra).length :=
      List.countP_le_length
    have hm := size_add_mentioned_le m
    rw [List.length_append] at hu
    omega

theorem Acyclic.assign_fuel_ne {m : Bindings} (hm : m.Acyclic) (a b : Ty) :
    assign (m.fuel (a.size + b.size)) m a b ≠ .error .outOfFuel := by
  have hlen : (a.paramNames ++ b.paramNames).length ≤ a.size + b.size := by
    have ha := length_paramNames_le a
    have hb := length_paramNames_le b
    rw [List.length_append]
    omega
  have hw := within_start m _ hlen
  have ha : Small (m.mentioned ++ (a.paramNames ++ b.paramNames))
      (m.weight + (a.size + b.size)) a :=
    ⟨fun p hp => List.mem_append_right _ (List.mem_append_left _ hp), by omega⟩
  have hb : Small (m.mentioned ++ (a.paramNames ++ b.paramNames))
      (m.weight + (a.size + b.size)) b :=
    ⟨fun p hp => List.mem_append_right _ (List.mem_append_right _ hp), by omega⟩
  exact assign_ne_outOfFuel _ m a b hm hw ha hb (effort_le hw ha hb)

theorem Acyclic.pairwise_fuel_ne {m : Bindings} (hm : m.Acyclic) (as bs : List Ty) :
    pairwise (assign (m.fuel (Ty.sizeAll as + Ty.sizeAll bs))) m as bs ≠ .error .outOfFuel := by
  have hlen : (Ty.paramNamesAll as ++ Ty.paramNamesAll bs).length ≤
      Ty.sizeAll as + Ty.sizeAll bs := by
    have ha := length_paramNamesAll_le as
    have hb := length_paramNamesAll_le bs
    rw [List.length_append]
    omega
  have has : ∀ a ∈ as, Small (m.mentioned ++ (Ty.paramNamesAll as ++ Ty.paramNamesAll bs))
      (m.weight + (Ty.sizeAll as + Ty.sizeAll bs)) a :=
    .of_mem (fun p hp => List.mem_append_right _ (List.mem_append_left _ hp)) (by omega)
  have hbs : ∀ b ∈ bs, Small (m.mentioned ++ (Ty.paramNamesAll as ++ Ty.paramNamesAll bs))
      (m.weight + (Ty.sizeAll as + Ty.sizeAll bs)) b :=
    .of_mem (fun p hp => List.mem_append_right _ (List.mem_append_right _ hp)) (by omega)
  refine pairwise_ne_outOfFuel (Matches.of_assign _) has hbs ?_ m (.refl m) hm
    (within_start m _ hlen)
  intro m' a b ha hb _ hm' hw'
  exact assign_ne_outOfFuel _ m' a b hm' hw' (has a ha) (hbs b hb)
    (effort_le hw' (has a ha) (hbs b hb))

end Start

section Settling

/-- The walk ends within `n` steps: more fuel than that gives the same answer. -/
def Settles {α : Type} (walk : Nat → Except Stop α) (n : Nat) : Prop :=
  walk n ≠ .error .outOfFuel ∧ ∀ k, n ≤ k → walk k = walk n

structure Terminating (m : Bindings) : Prop where
  assign (a b : Ty) : Settles (fun n => assign n m a b) (m.fuel (a.size + b.size))
  assignAll (as bs : List Ty) :
    Settles (fun n => pairwise (Bindings.assign n) m as bs)
      (m.fuel (Ty.sizeAll as + Ty.sizeAll bs))
  occurs (p : String) (t : Ty) :
    Settles (fun n => t.paramNames.anyM (m.reaches p n)) (m.size + 1)
  acyclic {a b : Ty} {m' : Bindings} : m.assignable? a b = some m' → m'.Acyclic
  acyclicAll {as bs : List Ty} {m' : Bindings} : m.assignableAll? as bs = some m' → m'.Acyclic

theorem Acyclic.occurs_settles {m : Bindings} (hm : m.Acyclic) (p : String) (t : Ty) :
    Settles (fun n => t.paramNames.anyM (m.reaches p n)) (m.size + 1) := by
  have hwalk (n : Nat) (hn : m.size + 1 ≤ n) : ∃ b, t.paramNames.anyM (m.reaches p n) = .ok b ∧
      (b = true ↔ ∃ q ∈ t.paramNames, m.Leads q p) :=
    anyM_eq_ok (m.reaches p n) (m.Leads · p) fun q _ =>
      hm.ranked.reaches_eq_ok p n q (Nat.lt_of_lt_of_le (Nat.lt_succ_of_le (m.reach_le_size q)) hn)
  obtain ⟨b, hb, hP⟩ := hwalk _ (Nat.le_refl _)
  refine ⟨by simp [hb], fun k hk => ?_⟩
  obtain ⟨c, hc, hQ⟩ := hwalk k hk
  have hbc : c = b := Bool.eq_iff_iff.2 (hQ.trans hP.symm)
  simp only [hb, hc, hbc]

theorem Acyclic.terminating {m : Bindings} (hm : m.Acyclic) : m.Terminating where
  assign a b := ⟨hm.assign_fuel_ne a b, fun _ hk => agrees_of_le hk m a b (hm.assign_fuel_ne a b)⟩
  assignAll as bs :=
    ⟨hm.pairwise_fuel_ne as bs, fun _ hk => (agrees_of_le hk).pairwise as bs m
      (hm.pairwise_fuel_ne as bs)⟩
  occurs := hm.occurs_settles
  acyclic h := (Matches.of_assignable h).acyclic hm
  acyclicAll h := (MatchesAll.of_assignableAll h).acyclic hm

/-- Matching from bindings without a circle ends, and makes no circle. A checking pass
starts from no bindings at all and only ever holds such bindings, so at every point of it
each match and each occurs check ends. -/
theorem matching_terminates :
    (∀ m : Bindings, m.Acyclic → m.Terminating) ∧
      ({} : Session).bindings.bindings = ∅ ∧ ∀ s : Session, s.bindings.bindings.Terminating :=
  ⟨fun _ hm => hm.terminating, rfl, fun s => s.bindings.acyclic.terminating⟩

theorem matching_terminates_chain :
    Acyclic (Table.insert ∅ "p" (.list (.param "q"))) ∧
      Terminating (Table.insert ∅ "p" (.list (.param "q"))) := by
  have hm : Acyclic (Table.insert ∅ "p" (.list (.param "q"))) := by
    refine acyclic_empty.insert fun r hr => acyclic_empty.not_leads_of_occurs ?_ r hr
    decide
  exact ⟨hm, matching_terminates.1 _ hm⟩

end Settling

end Bindings

end CelTyping
