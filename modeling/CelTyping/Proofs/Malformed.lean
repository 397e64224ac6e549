import CelTyping.Proofs.Run

/-! What stops a check. Names that mean nothing, types that do not fit, nodes that share an
id and trees that are too deep are reported, and the walk goes on; it only stops at a node
that no parser builds. -/
namespace CelTyping

def Expr.isFieldAccess : List Expr → Bool
  | [_, .literal _ (.string _)] => true
  | _ => false

/-- An optional selection of another form, or a loop that leaves one of its two variables
without a name. -/
def Expr.isMalformed : Expr → Bool
  | .call _ function args => function == Operator.optionalSelect && !isFieldAccess args
  | .receiverCall _ _ function _ => function == Operator.optionalSelect
  | .comprehension _ iterVar _ _ accuVar _ _ _ _ => iterVar == "" || accuVar == ""
  | _ => false

theorem Expr.isMalformed_optionalSelect (id : NodeId) {args : List Expr}
    (h : ∀ operand fieldId field, args = [operand, .literal fieldId (.string field)] → False) :
    (Expr.call id Operator.optionalSelect args).isMalformed = true := by
  have hargs : isFieldAccess args = false := by
    unfold isFieldAccess
    split
    next operand fieldId field => exact (h operand fieldId field rfl).elim
    next => rfl
  simp [isMalformed, hargs]

def Expr.complaints : List String :=
  ["optional field selection requires a string field name",
   "optional field selection requires an operand and a field name",
   "comprehension without an iteration variable",
   "comprehension without an accumulator variable"]

def Diagnostic.Blames (d : Diagnostic) (nodes : List Expr) : Prop :=
  ∃ n ∈ nodes, n.isMalformed = true ∧ ∃ text ∈ Expr.complaints, d = ⟨n.id, .internal text⟩

/-- Stops at a malformed node among those given, if at all. -/
def StopsWithin {α : Type} (nodes : List Expr) (o : Outcome α) : Prop :=
  ∀ d, o = .error d → d.Blames nodes

namespace StopsWithin

variable {α β : Type} {nodes nodes' : List Expr}

theorem ok (a : α) : StopsWithin nodes (.ok a) := nofun

theorem error {n : Expr} {id : NodeId} {text : String} (hid : n.id = id)
    (hn : n.isMalformed = true) (htext : text ∈ Expr.complaints) :
    StopsWithin (n :: nodes) (.error ⟨id, .internal text⟩ : Outcome α) := by
  rintro d ⟨⟩
  exact ⟨n, List.mem_cons_self, hn, text, htext, by rw [hid]⟩

theorem bind {x : Outcome α} {f : α → Outcome β} (hx : StopsWithin nodes x)
    (hf : ∀ a, x = .ok a → StopsWithin nodes (f a)) : StopsWithin nodes (x >>= f) := by
  cases x with
  | error d =>
    rintro d' ⟨⟩
    exact hx d rfl
  | ok a => exact hf a rfl

theorem mono {o : Outcome α} (h : StopsWithin nodes o) (hsub : nodes ⊆ nodes') :
    StopsWithin nodes' o := by
  intro d hd
  obtain ⟨n, hn, hblame⟩ := h d hd
  exact ⟨n, hsub hn, hblame⟩

end StopsWithin

section Stopping

variable {env : Environment}

theorem stopsWithin_plan_optionalSelect (scopes : ScopeStack) (id : NodeId) (args : List Expr) :
    StopsWithin [.call id Operator.optionalSelect args]
      (plan env scopes (.call id Operator.optionalSelect args)) := by
  simp only [plan, if_true]
  split
  next => exact .ok _
  next hfield =>
    refine .error rfl (Expr.isMalformed_optionalSelect id ?_) (by decide)
    rintro _ fieldId field ⟨⟩
    exact hfield fieldId field rfl
  next hshape =>
    refine .error rfl (Expr.isMalformed_optionalSelect id ?_) (by decide)
    exact fun operand fieldId field => hshape operand (.literal fieldId (.string field))

theorem stopsWithin_plan (scopes : ScopeStack) (e : Expr) :
    StopsWithin [e] (plan env scopes e) := by
  cases e with
  | literal id value => exact .ok _
  | ident id name =>
    simp only [plan]
    split <;> exact .ok _
  | select id operand field testOnly =>
    simp only [plan]
    split <;> exact .ok _
  | call id function args =>
    by_cases hf : function = Operator.optionalSelect
    · subst hf
      exact stopsWithin_plan_optionalSelect scopes id args
    · simp only [plan, if_neg hf]
      split <;> exact .ok _
  | receiverCall id target function args =>
    simp only [plan]
    split
    next hf => exact .error rfl (by simp [Expr.isMalformed, hf]) (by decide)
    next =>
      split
      next => exact .ok _
      next => split <;> exact .ok _
  | list id elements => exact .ok _
  | map id entries => exact .ok _
  | message id name fields =>
    simp only [plan]
    split <;> exact .ok _
  | comprehension id iterVar iterVar2 range accuVar init condition step result =>
    simp only [plan]
    split
    next hi => exact .error rfl (by simp [Expr.isMalformed, hi]) (by decide)
    next =>
      split
      next ha => exact .error rfl (by simp [Expr.isMalformed, ha]) (by decide)
      next => exact .ok _

theorem stopsWithin_checkMembers {nodes : List Expr} (ms : List Member)
    (h : ∀ m ∈ ms, ∀ s, StopsWithin nodes (checkExpr env m.child s)) (kept : Kept) (s : Session) :
    StopsWithin nodes (checkMembers env ms kept s) := by
  induction ms generalizing kept s with
  | nil => exact .ok _
  | cons m ms ih =>
    obtain ⟨hm, hms⟩ := List.forall_mem_cons.1 h
    rw [checkMembers]
    exact (hm s).bind fun _ _ => (ih hms _ _).bind fun _ _ => .ok _

theorem stopsWithin_checkExpr (e : Expr) (s : Session) :
    StopsWithin e.nodes (checkExpr env e s) := by
  -- The induction is on the tree, whose children are smaller.
  induction hn : sizeOf e using Nat.strongRecOn generalizing e s with
  | _ n ih =>
    rcases Nat.lt_or_ge s.depth env.maxDepth with hlt | hge
    · rw [checkExpr_of_lt hlt]
      have hself : [e] ⊆ e.nodes := List.cons_subset.2 ⟨List.mem_cons_self, List.nil_subset _⟩
      refine ((stopsWithin_plan s.scopes e).mono hself).bind fun p hp => ?_
      rw [Plan.check]
      refine .bind (.bind (stopsWithin_checkMembers p.members (fun m hm t => ?_) _ _)
        fun _ _ => .ok _) fun _ _ => .ok _
      have hmem := (plan_fits hp).mem_children hm
      have hchild := ih _ (hn ▸ Expr.sizeOf_lt_of_mem_children hmem) m.child t rfl
      exact hchild.mono (Expr.nodes_subset hmem)
    · rw [checkExpr_of_le hge]
      exact .ok _

end Stopping

/-- A check that stops says which malformed node is the reason, so that without one it comes
to an end, whatever else is wrong. -/
theorem check_stops_at_malformed (env : Environment) (e : Expr) :
    (∀ d, check env e = .error d → d.isFatal = true ∧
      d.cause ≠ .internal "expected a comprehension" ∧
      ∃ n ∈ e.nodes, n.isMalformed = true ∧ d.node = n.id) ∧
    ((∀ n ∈ e.nodes, n.isMalformed = false) → ∃ c, check env e = .ok c) := by
  have hstops : StopsWithin e.nodes (check env e) :=
    (stopsWithin_checkExpr e {}).bind fun _ _ => .ok _
  constructor
  · intro d hd
    obtain ⟨n, hn, hmalformed, text, htext, rfl⟩ := hstops d hd
    refine ⟨rfl, ?_, n, hn, hmalformed, rfl⟩
    rintro ⟨⟩
    exact absurd htext (by decide)
  · intro hnone
    cases h : check env e with
    | ok c => exact ⟨c, rfl⟩
    | error d =>
      obtain ⟨n, hn, hmalformed, _⟩ := hstops d h
      rw [hnone n hn] at hmalformed
      cases hmalformed

def strayField (field : Value) : Expr :=
  .call 6 Operator.add [.call 3 Operator.add [.literal 1 (.int 1), .literal 2 (.string "a")],
    .call 5 Operator.optionalSelect [.literal 1 (.int 1), .literal 4 field]]

instance {α : Type} {p : Diagnostic → Prop} [DecidablePred p] :
    (o : Outcome α) → Decidable (∃ d, o = .error d ∧ p d)
  | .ok _ => .isFalse (by simp)
  | .error d => decidable_of_iff (p d) (by simp)

theorem check_stops_at_malformed_strayField :
    (∃ d, (check .standard (strayField (.int 0)) = .error d ∧ d.node = 5) ∧ d.isFatal = true ∧
      d.cause ≠ .internal "expected a comprehension" ∧
      ∃ n ∈ (strayField (.int 0)).nodes, n.isMalformed = true ∧ d.node = n.id) ∧
    (∀ n ∈ (strayField (.string "f")).nodes, n.isMalformed = false) ∧
    ∃ c, check .standard (strayField (.string "f")) = .ok c := by
  obtain ⟨d, hstop, hnode⟩ :
      ∃ d, check .standard (strayField (.int 0)) = .error d ∧ d.node = 5 := by decide +kernel
  have hwhole : ∀ n ∈ (strayField (.string "f")).nodes, n.isMalformed = false := by decide
  exact ⟨⟨d, ⟨hstop, hnode⟩, (check_stops_at_malformed .standard _).1 d hstop⟩, hwhole,
    (check_stops_at_malformed .standard _).2 hwhole⟩

end CelTyping
