import CelTyping.Proofs.Trace

/-! The writes of a whole pass, in the order in which they are made. They are those of its moments.
An id is written no more often than it is used in the tree, since a plan records something for a
node once and comes to each of its children once. So in a tree that uses each id once, no write
ever meets an earlier one. -/
namespace CelTyping

def writes (env : Environment) (e : Expr) : List Write := (moments env e).map Moment.write

/-- From the first session to the second there are these writes, in this order. -/
def Session.Records (places : List NodeId) (s : Session) (ws : List Write) (s' : Session) : Prop :=
  ∃ ms, Session.Traces places s ms s' ∧ ms.map Moment.write = ws

section Counting

variable (env : Environment) (w : Write)

theorem count_type (id : NodeId) : [Write.type id].count w ≤ [id].count w.node := by
  cases w <;> simp [Write.node, List.count_cons]

theorem count_both (id : NodeId) :
    [Write.type id, Write.reference id].count w ≤ [id].count w.node := by
  cases w <;> simp [Write.node, List.count_cons]

theorem count_workMoments (s : Session) (id : NodeId) (kept : Kept) (work : Work) :
    ((s.workMoments env id kept work).map Moment.write).count w ≤
      (work.nodes id).count w.node := by
  cases work with
  | nothing => exact Nat.zero_le _
  | «variable» v => exact count_both w id
  | message v =>
    have hswap := (List.Perm.swap (Write.type id) (.reference id) []).count_eq w
    exact Nat.le_trans (Nat.le_of_eq hswap) (count_both w id)
  | optionalSelect operand fieldId field =>
    have hfield := count_type w fieldId
    have hid := count_both w id
    show ([Write.type fieldId] ++ [Write.type id, Write.reference id]).count w ≤
      ([id] ++ [fieldId]).count w.node
    rw [List.count_append, List.count_append]
    omega
  | call f isMember args =>
    simp only [Session.workMoments]
    split
    next r s₁ _ => exact count_both w id
    next d s₁ hres =>
      obtain ⟨ts, rfl⟩ := Session.resolveOverload_error hres
      exact count_type w id
  | _ => exact count_type w id

theorem count_memberMoments {child : Expr → Session → List Moment} (ms : List Member)
    (h : ∀ m ∈ ms, ∀ s, ((child m.child s).map Moment.write).count w ≤ m.child.ids.count w.node)
    (kept : Kept) (s : Session) :
    (((memberDescents env ms kept s).flatMap fun d => child d.1 d.2).map Moment.write).count w ≤
      (Expr.idsOf (ms.map Member.child)).count w.node := by
  induction ms generalizing kept s with
  | nil => exact Nat.zero_le _
  | cons m ms ih =>
    obtain ⟨hm, hms⟩ := List.forall_mem_cons.1 h
    rw [memberDescents, List.flatMap_cons, List.map_append, List.count_append, List.map_cons,
      Expr.idsOf_cons, List.count_append]
    refine Nat.add_le_add (hm s) ?_
    split
    next e' s₁ _ => exact ih hms _ _
    next => exact Nat.zero_le _

theorem count_momentsWithin (room : Nat) (e : Expr) (s : Session) :
    ((momentsWithin env room e s).map Moment.write).count w ≤ e.ids.count w.node := by
  induction room generalizing e s with
  | zero =>
    have hid := List.singleton_sublist.2 e.id_mem_ids
    exact Nat.le_trans (count_type w e.id) (hid.count_le w.node)
  | succ room ih =>
    rw [momentsWithin]
    split
    next p hp =>
      have hfits := (plan_fits hp).ids.count_le w.node
      have hopening := count_workMoments env w s.deeper e.id {} p.opening
      have hmembers := count_memberMoments env w p.members (fun m _ => ih m.child) {}
        (s.deeper.work env e.id {} p.opening)
      rw [List.count_append, List.count_append] at hfits
      rw [List.map_append, List.map_append, List.count_append, List.count_append]
      split
      next kept s₁ _ =>
        have hclosing := count_workMoments env w s₁ e.id kept p.closing
        omega
      next =>
        rw [List.map_nil, List.count_nil]
        omega
    next => exact Nat.zero_le _

end Counting

/-- Where each id is used once, each entry is written once at most, and no two clash. -/
theorem check_writes_once {env : Environment} {e : Expr} {c : Checked} (hids : e.ids.Nodup)
    (h : check env e = .ok c) :
    (∀ d ∈ c.diagnostics, d.cause.isClash = false) ∧ (writes env e).Nodup ∧
      ∃ s, checkExpr env e {} = .ok (c.expr, s) ∧
        Session.Records e.places {} (writes env e) s := by
  obtain ⟨e', s, hd, rfl⟩ := check_iff.1 h
  obtain ⟨s', htraces, hend⟩ := traced_moments env e
  cases hend e' s (descends_iff.2 hd)
  have hnodup : (writes env e).Nodup := by
    rw [List.nodup_iff_count_le_one]
    intro w
    have hcount := count_momentsWithin env w env.maxDepth e {}
    exact Nat.le_trans hcount (List.nodup_iff_count_le_one.1 hids w.node)
  have hfree : ∀ m ∈ moments env e, Session.Free {} m.write := by
    intro m _
    cases m.write <;> rfl
  obtain ⟨ds, hds, _, hclash⟩ := htraces.reports
  refine ⟨fun d hmem => ?_, hnodup, s, descends_iff.2 hd, _, htraces, rfl⟩
  rw [Session.conclude, hds] at hmem
  exact hclash hnodup hfree d hmem

theorem check_writes_once_optional :
    ∃ c, check (Environment.empty.withVariable "m" (.map .string .int))
        (.list 5 [⟨.call 4 Operator.optionalSelect [.ident 1 "m", .literal 2 (.string "k")], true⟩,
          ⟨.call 3 "f" [], false⟩]) = .ok c ∧ c.diagnostics.length = 1 ∧
      (∀ d ∈ c.diagnostics, d.cause.isClash = false) ∧
        [Write.type 1, .reference 1, .type 2, .type 4, .reference 4, .type 3, .type 5].Nodup := by
  obtain ⟨c, hc, hlen⟩ : ∃ c, check (Environment.empty.withVariable "m" (.map .string .int))
      (.list 5 [⟨.call 4 Operator.optionalSelect [.ident 1 "m", .literal 2 (.string "k")], true⟩,
        ⟨.call 3 "f" [], false⟩]) = .ok c ∧ c.diagnostics.length = 1 := by decide +kernel
  have h := check_writes_once (by decide) hc
  have hw : writes (Environment.empty.withVariable "m" (.map .string .int))
      (.list 5 [⟨.call 4 Operator.optionalSelect [.ident 1 "m", .literal 2 (.string "k")], true⟩,
        ⟨.call 3 "f" [], false⟩]) =
      [.type 1, .reference 1, .type 2, .type 4, .reference 4, .type 3, .type 5] := by
    decide +kernel
  exact ⟨c, hc, hlen, h.1, hw ▸ h.2.1⟩

end CelTyping
