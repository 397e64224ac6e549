import CelTyping.Proofs.Run

/-! Scopes follow the text. A session opens and closes frames as it goes, but every part of a
pass leaves the stack as it found it, so the frames that are open at a node are those that the
comprehensions around it open for the part it stands in. Checking a comprehension is then the
same as checking its parts one after the other, each under scopes that are given outright. -/
namespace CelTyping

section Frames

/-- A frame that holds these variables and nothing else. Of two with one name the later one
counts. -/
def Scope.ofVariables (vs : List Variable) : Scope := vs.foldl Scope.declare ∅

def ScopeStack.extend (scopes : ScopeStack) (frames : List Scope) : ScopeStack :=
  { scopes with inner := frames ++ scopes.inner }

theorem ScopeStack.declareAll_cons (frame : Scope) (outer : List Scope) (root : Scope)
    (vs : List Variable) :
    vs.foldl ScopeStack.declare ⟨frame :: outer, root⟩ =
      ⟨vs.foldl Scope.declare frame :: outer, root⟩ := by
  induction vs generalizing frame with
  | nil => rfl
  | cons v vs ih => exact ih (frame.declare v)

theorem ScopeStack.declareAll_push (scopes : ScopeStack) (vs : List Variable) :
    vs.foldl ScopeStack.declare scopes.push = scopes.extend [Scope.ofVariables vs] :=
  declareAll_cons ∅ scopes.inner scopes.root vs

end Frames

namespace Session

/-- The session with these scopes open, whatever was open before. -/
def under (s : Session) (scopes : ScopeStack) : Session := { s with scopes }

@[simp] theorem scopes_under (s : Session) (scopes : ScopeStack) :
    (s.under scopes).scopes = scopes := rfl

theorem under_self {s : Session} {scopes : ScopeStack} (h : s.scopes = scopes) :
    s.under scopes = s := by
  subst h
  rfl

theorem exitScope_eq_under {s : Session} {scopes : ScopeStack} {frame : Scope}
    {frames : List Scope} (h : s.scopes = scopes.extend (frame :: frames)) :
    s.exitScope = s.under (scopes.extend frames) := by
  rw [exitScope, h]
  rfl

def accumulatorFrame (s : Session) (init : NodeId) (accuVar : String) : Scope :=
  .ofVariables [{ name := accuVar, type := s.typeOf init }]

def iterationFrame (s : Session) (range : NodeId) (iterVar iterVar2 : String) : Scope :=
  let types := (s.loopTypes range (iterVar2 != "")).1
  .ofVariables ({ name := iterVar, type := types.1 } ::
    if iterVar2 != "" then [{ name := iterVar2, type := types.2 }] else [])

theorem enterLoop_eq_under (s : Session) (range init : NodeId)
    (iterVar iterVar2 accuVar : String) :
    s.enterLoop range init iterVar iterVar2 accuVar =
      (s.loopTypes range (iterVar2 != "")).2.under (s.scopes.extend
        [s.iterationFrame range iterVar iterVar2, s.accumulatorFrame init accuVar]) := by
  unfold enterLoop enterScope under
  simp only [ScopeStack.declareAll_push, scopes_loopTypes]
  rfl

end Session

/-- Checks the parts of a comprehension one after the other, each under the scopes named for
it: range and start under those outside, condition and step with the two frames of the loop
added, the result with that of the accumulator alone. -/
def checkLexically (env : Environment) (id : NodeId) (iterVar iterVar2 : String) (range : Expr)
    (accuVar : String) (init condition step result : Expr) (s : Session) :
    Outcome (Expr × Session) := do
  let outer := s.scopes
  let r ← checkExpr env range (s.under outer)
  let i ← checkExpr env init (r.2.under outer)
  let accumulator := i.2.accumulatorFrame init.id accuVar
  let iteration := i.2.iterationFrame range.id iterVar iterVar2
  let looping := (i.2.loopTypes range.id (iterVar2 != "")).2
  let c ← checkExpr env condition (looping.under (outer.extend [iteration, accumulator]))
  let tested := c.2.expectType condition.id .bool
  let t ← checkExpr env step (tested.under (outer.extend [iteration, accumulator]))
  let done := t.2.expectType step.id (i.2.typeOf init.id)
  let e ← checkExpr env result (done.under (outer.extend [accumulator]))
  let closed := e.2.under outer
  return (.comprehension id iterVar iterVar2 r.1 accuVar i.1 c.1 t.1 e.1,
    closed.setType id (closed.resolvedTypeOf result.id))

section Balance

variable {env : Environment} {e e' : Expr} {s s' : Session}

theorem checkExpr_scopes (h : checkExpr env e s = .ok (e', s')) : s'.scopes = s.scopes :=
  (descends_iff.1 h).run.scopes_eq

theorem checkExpr_depth (h : checkExpr env e s = .ok (e', s')) : s'.depth = s.depth :=
  (descends_iff.1 h).run.depth_eq

end Balance

theorem checkNode_comprehension (env : Environment) (id : NodeId) {iterVar accuVar : String}
    (iterVar2 : String) (range init condition step result : Expr) (s : Session)
    (hiter : iterVar ≠ "") (haccu : accuVar ≠ "") :
    checkNode env (.comprehension id iterVar iterVar2 range accuVar init condition step result) s =
      checkLexically env id iterVar iterVar2 range accuVar init condition step result s := by
  simp only [checkNode, if_neg hiter, if_neg haccu, checkLexically]
  refine Outcome.bind_congr fun r hr => ?_
  have hr : r.2.scopes = s.scopes := checkExpr_scopes hr
  rw [Session.under_self hr]
  refine Outcome.bind_congr fun i hi => ?_
  have hi : i.2.scopes = s.scopes := (checkExpr_scopes hi).trans hr
  have hloop := i.2.enterLoop_eq_under range.id init.id iterVar iterVar2 accuVar
  rw [hi] at hloop
  simp only [Session.enterLoop] at hloop
  rw [hloop]
  refine Outcome.bind_congr fun c hc => ?_
  have hc := (c.2.scopes_expectType condition.id .bool).trans (checkExpr_scopes hc)
  rw [Session.scopes_under] at hc
  rw [Session.under_self hc]
  refine Outcome.bind_congr fun t ht => ?_
  have ht := (t.2.scopes_expectType step.id (i.2.typeOf init.id)).trans (checkExpr_scopes ht)
  rw [hc] at ht
  rw [Session.exitScope_eq_under ht]
  refine Outcome.bind_congr fun e he => ?_
  simp only [Session.exitScope_eq_under (checkExpr_scopes he)]
  rfl

/-- Checking leaves scopes and nesting as they were, and a comprehension is checked part by
part under the scopes that surround the part in the text. -/
theorem check_scopes_lexical (env : Environment) :
    (∀ (e e' : Expr) (s s' : Session), checkExpr env e s = .ok (e', s') →
      s'.scopes = s.scopes ∧ s'.depth = s.depth) ∧
    (∀ (id : NodeId) (iterVar iterVar2 accuVar : String)
      (range init condition step result : Expr) (s : Session), iterVar ≠ "" → accuVar ≠ "" →
        checkNode env
            (.comprehension id iterVar iterVar2 range accuVar init condition step result) s =
          checkLexically env id iterVar iterVar2 range accuVar init condition step result s) ∧
    ∀ (s : Session) (init : NodeId) (accuVar : String),
      (s.accumulatorFrame init accuVar).toList =
        [(accuVar, { name := accuVar, type := s.typeOf init })] := by
  refine ⟨fun e e' s s' h => ⟨checkExpr_scopes h, checkExpr_depth h⟩, ?_, fun _ _ _ => rfl⟩
  intro id iterVar iterVar2 accuVar range init condition step result s hiter haccu
  exact checkNode_comprehension env id iterVar2 range init condition step result s hiter haccu

def innerLoop : Expr :=
  .comprehension 11 "x" "" (.ident 6 "x") "q" (.ident 7 "r") (.ident 8 "x") (.ident 9 "x")
    (.ident 10 "q")

def nestedRange : Expr :=
  .list 3 [⟨.list 2 [⟨.literal 1 (.bool true), false⟩], false⟩]

def nestedLoop : Expr :=
  .comprehension 13 "x" "" nestedRange "r" (.literal 4 (.bool true)) (.ident 5 "r") innerLoop
    (.ident 12 "r")

theorem check_scopes_lexical_nested :
    let s := Session.enterScope {} [{ name := "x", type := .int }]
    (∃ p : Expr × Session, checkExpr .empty nestedLoop s = .ok p ∧ p.2.diagnostics = [] ∧
      p.2.scopes = s.scopes ∧ p.2.depth = s.depth) ∧
    ("x" ≠ "" ∧ "r" ≠ "") ∧
    checkNode .empty nestedLoop s = checkLexically .empty 13 "x" "" nestedRange "r"
      (.literal 4 (.bool true)) (.ident 5 "r") innerLoop (.ident 12 "r") s := by
  intro s
  obtain ⟨p, hp, hok⟩ : ∃ p, checkExpr .empty nestedLoop s = .ok p ∧ p.2.diagnostics = [] := by
    decide +kernel
  have hbalanced := (check_scopes_lexical .empty).1 nestedLoop p.1 s p.2 hp
  refine ⟨⟨p, hp, hok, hbalanced⟩, ⟨by decide, by decide⟩, ?_⟩
  exact (check_scopes_lexical .empty).2.1 _ _ _ _ _ _ _ _ _ s (by decide) (by decide)

end CelTyping
