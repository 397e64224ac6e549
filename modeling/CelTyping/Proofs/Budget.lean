import CelTyping.Proofs.Run

/-! The nesting that a check goes into. Only `descend` looks at the limit, and the session
counts the levels exactly, so a limit that nothing runs into can be raised: the pass goes the
same way, node by node. -/
namespace CelTyping

def Cause.isRecursionLimit : Cause → Bool
  | .recursionLimit _ => true
  | _ => false

namespace Session

/-- Nothing has been cut off so far. -/
def Uncut (s : Session) : Prop := ∀ d ∈ s.diagnostics, d.cause.isRecursionLimit = false

theorem Moves.uncut {nodes : List NodeId} {s s' : Session} (h : Moves nodes s s')
    (hs : s'.Uncut) : s.Uncut :=
  fun d hd => hs d (h.diagnostics_prefix.subset hd)

theorem not_uncut_failNode (s : Session) (node : NodeId) (limit : Nat) :
    ¬ (s.failNode node (.recursionLimit limit)).Uncut := by
  intro h
  have hsteps : Steps [node] (s.report node (.recursionLimit limit))
      (s.failNode node (.recursionLimit limit)) := steps_setType _ _ List.mem_cons_self
  have hreported : ⟨node, .recursionLimit limit⟩ ∈
      (s.report node (.recursionLimit limit)).diagnostics := by simp
  exact Bool.noConfusion (hsteps.moves.uncut h _ hreported)

end Session

theorem simulates_withMaxDepth {env : Environment} {limit : Nat} (hle : env.maxDepth ≤ limit) :
    Simulates env (env.withMaxDepth limit) Session.Uncut Eq where
  good_before := Session.Moves.uncut
  not_cut s node := s.not_uncut_failNode node env.maxDepth
  plan_eq _ e := by cases e <;> rfl
  scopes_eq h := by rw [h]
  depth_lt h hlt := h ▸ Nat.lt_of_lt_of_le hlt hle
  deeper h := by rw [h]
  shallower h := by rw [h]
  settle _ _ place h _ := by
    subst h
    cases place <;> exact ⟨rfl, rfl⟩
  work _ _ w _ h _ := by
    subst h
    cases w <;> rfl

/-- Environments that differ in the limit alone come to the same result, as long as the
lower limit cuts nothing off. -/
theorem check_withMaxDepth {env : Environment} {limit limit' : Nat} (hle : limit ≤ limit')
    {e : Expr} {c : Checked} (h : check (env.withMaxDepth limit) e = .ok c)
    (huncut : ∀ d ∈ c.diagnostics, d.cause.isRecursionLimit = false) :
    check (env.withMaxDepth limit') e = .ok c := by
  obtain ⟨e', s, hd, rfl⟩ := check_iff.1 h
  obtain ⟨_, hd', rfl⟩ := hd.simulate (simulates_withMaxDepth hle) huncut rfl
  exact check_iff.2 ⟨e', s, hd', rfl⟩

def mixedSum : Expr :=
  .list 5 [⟨.literal 1 (.int 1), false⟩,
    ⟨.call 4 Operator.add [.literal 2 (.int 1), .literal 3 (.string "a")], false⟩]

theorem check_withMaxDepth_mixedSum :
    ∃ c, check (Environment.standard.withMaxDepth 3) mixedSum = .ok c ∧
      (c.diagnostics.map Diagnostic.node = [4] ∧
        ∀ d ∈ c.diagnostics, d.cause.isRecursionLimit = false) ∧
      check (Environment.standard.withMaxDepth 250) mixedSum = .ok c := by
  obtain ⟨c, hc, hd⟩ : ∃ c, check (Environment.standard.withMaxDepth 3) mixedSum = .ok c ∧
      (c.diagnostics.map Diagnostic.node = [4] ∧
        ∀ d ∈ c.diagnostics, d.cause.isRecursionLimit = false) := by decide +kernel
  exact ⟨c, hc, hd, check_withMaxDepth (by decide) hc hd.2⟩

end CelTyping
