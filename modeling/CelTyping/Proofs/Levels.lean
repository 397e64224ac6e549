import CelTyping.Proofs.Run
import Mathlib.Data.List.Forall2

/-! How deep the tree is that a check writes. A node is checked one level below its parent, and
whatever a node is written with has been checked in this way, apart from the name of an optional
field, which is a leaf. So the limit on the nesting of a check is one on the levels of its tree.
The nodes that it cuts off are those on the last level; they stay in the tree as leaves. -/
namespace CelTyping

section Levels

mutual

def Expr.levels : Expr → Nat
  | .literal _ _ => 1
  | .ident _ _ => 1
  | .select _ operand _ _ => operand.levels + 1
  | .call _ _ args => Expr.argLevels args + 1
  | .receiverCall _ target _ args => max target.levels (Expr.argLevels args) + 1
  | .list _ elements => Expr.elementLevels elements + 1
  | .map _ entries => Expr.entryLevels entries + 1
  | .message _ _ fields => Expr.fieldLevels fields + 1
  | .comprehension _ _ _ range _ init condition step result =>
    max range.levels (max init.levels (max condition.levels (max step.levels result.levels))) + 1

def Expr.argLevels : List Expr → Nat
  | [] => 0
  | e :: es => max e.levels (Expr.argLevels es)

def Expr.elementLevels : List Element → Nat
  | [] => 0
  | ⟨value, _⟩ :: rest => max value.levels (Expr.elementLevels rest)

def Expr.entryLevels : List Entry → Nat
  | [] => 0
  | ⟨_, key, value, _⟩ :: rest => max key.levels (max value.levels (Expr.entryLevels rest))

def Expr.fieldLevels : List FieldInit → Nat
  | [] => 0
  | ⟨_, _, value, _⟩ :: rest => max value.levels (Expr.fieldLevels rest)

end

namespace Expr

theorem elementLevels_eq (es : List Element) :
    elementLevels es = argLevels (es.map Element.value) := by
  induction es with
  | nil => rfl
  | cons e es ih =>
    obtain ⟨value, optional⟩ := e
    rw [elementLevels, ih]
    rfl

theorem entryLevels_eq (es : List Entry) :
    entryLevels es = argLevels (es.flatMap fun entry => [entry.key, entry.value]) := by
  induction es with
  | nil => rfl
  | cons e es ih =>
    obtain ⟨id, key, value, optional⟩ := e
    rw [entryLevels, ih]
    rfl

theorem fieldLevels_eq (es : List FieldInit) :
    fieldLevels es = argLevels (es.flatMap fun field => [field.value]) := by
  induction es with
  | nil => rfl
  | cons e es ih =>
    obtain ⟨id, name, value, optional⟩ := e
    rw [fieldLevels, ih]
    rfl

theorem levels_eq_children (e : Expr) : e.levels = argLevels e.children + 1 := by
  cases e with
  | list id elements => rw [levels, elementLevels_eq]; rfl
  | map id entries => rw [levels, entryLevels_eq]; rfl
  | message id name fields => rw [levels, fieldLevels_eq]; rfl
  | _ => simp [levels, argLevels, children]

theorem argLevels_le_iff {es : List Expr} {n : Nat} :
    argLevels es ≤ n ↔ ∀ e ∈ es, e.levels ≤ n := by
  induction es with
  | nil => simp [argLevels]
  | cons e es ih => rw [argLevels, Nat.max_le, ih, List.forall_mem_cons]

theorem levels_le_iff {e : Expr} {n : Nat} :
    e.levels ≤ n + 1 ↔ ∀ c ∈ e.children, c.levels ≤ n := by
  rw [levels_eq_children, Nat.add_le_add_iff_right, argLevels_le_iff]

theorem levels_le_of_leaf {e : Expr} (h : e.children = []) (n : Nat) : e.levels ≤ n + 1 := by
  rw [levels_le_iff, h]
  exact List.forall_mem_nil _

def level : Nat → Expr → List Expr
  | 0, e => [e]
  | n + 1, e => e.children.flatMap (level n)

theorem level_subperm_nodes (n : Nat) : ∀ e : Expr, (e.level n).Subperm e.nodes := by
  induction n with
  | zero => exact fun e => List.singleton_subperm_iff.2 List.mem_cons_self
  | succ n ih =>
    intro e
    have hchildren (cs : List Expr) : (cs.flatMap (level n)).Subperm (cs.flatMap nodes) := by
      induction cs with
      | nil => exact .refl _
      | cons c cs ihc => exact (ih c).append ihc
    rw [level, nodes, descendants_eq_children]
    exact (hchildren _).trans (List.sublist_cons_self _ _).subperm

end Expr

end Levels

/-- The nodes that a pass comes to so many levels down, where the limit cuts them off. -/
def cutNodes (env : Environment) : (room : Nat) → Expr → Session → List Expr
  | 0, e, _ => [e]
  | room + 1, e, s => (descents env e s.deeper).flatMap fun d => cutNodes env room d.1 d.2

section Rewriting

def Rewrites (env : Environment) (depth : Nat) (descent : Expr × Session) (e' : Expr) : Prop :=
  descent.2.depth = depth ∧ ∃ s', Descends env descent.1 descent.2 e' s'

/-- The children are those written for the descents, and texts. -/
def Covers (env : Environment) (depth : Nat) (descents : List (Expr × Session))
    (children : List Expr) : Prop :=
  ∃ written texts, List.Forall₂ (Rewrites env depth) descents written ∧
    children.Perm (written ++ texts) ∧ ∀ text ∈ texts, text.IsText

variable {env : Environment} {s s' : Session} {depth : Nat}

theorem Members.rewrites {ms : List Member} {kept kept' : Kept} {es' : List Expr}
    (h : Members env (Descends env) ms kept s es' kept' s') :
    List.Forall₂ (Rewrites env s.depth) (memberDescents env ms kept s) es' := by
  induction h with
  | nil => exact .nil
  | @cons m ms _ _ kept _ s s₁ _ hd _ ih =>
    have hdepth := (s₁.depth_settle env m.child.id kept m.place).trans hd.run.depth_eq
    simp only [memberDescents, descends_iff.2 hd]
    rw [hdepth] at ih
    exact .cons ⟨rfl, s₁, hd⟩ ih

/-- The children of a node are written one for each that was gone down to; only the name of an
optional field comes besides. -/
theorem Checks.rewrites {e e' : Expr} (h : Checks env e s e' s') :
    Covers env s.depth (descents env e s) e'.children := by
  cases checks_iff_course.1 h with
  | @mk p parts _ _ _ hp hm =>
    have hwritten := hm.rewrites
    rw [s.depth_work] at hwritten
    simp only [descents, hp]
    exact ⟨parts, p.closing.names, hwritten, (plan_fits hp).tree parts hm.length_eq,
      fun _ => Work.isText_of_mem_names⟩

end Rewriting

section Limit

variable {env : Environment} {depth : Nat}

theorem exists_rewrites_of_mem {ds : List (Expr × Session)} {written : List Expr}
    (h : List.Forall₂ (Rewrites env depth) ds written) {c : Expr} (hc : c ∈ written) :
    ∃ d, Rewrites env depth d c := by
  induction h with
  | nil => cases hc
  | cons hd _ ih =>
    rcases List.mem_cons.1 hc with rfl | hc
    · exact ⟨_, hd⟩
    · exact ih hc

theorem Rewrites.depth_add_eq {s : Session} {d : Expr × Session} {c : Expr} {room : Nat}
    (hd : Rewrites env s.deeper.depth d c) (hs : s.depth + (room + 1) = env.maxDepth) :
    d.2.depth + room = env.maxDepth := by
  rw [hd.1]
  simp only [Session.deeper]
  omega

theorem Descends.levels_le (room : Nat) : ∀ {e e' : Expr} {s s' : Session},
    Descends env e s e' s' → s.depth + room = env.maxDepth → e'.levels ≤ room + 1 := by
  -- The induction is on the levels that are left. A node at the limit is written as a leaf, and
  -- the children of any other node were checked with one level less.
  induction room with
  | zero =>
    intro e e' s s' hd hs
    cases hd with
    | limit _ => exact Expr.levels_le_of_leaf e.children_childless 0
    | node hlt _ => omega
  | succ room ih =>
    intro e e' s s' hd hs
    cases hd with
    | limit _ => exact Expr.levels_le_of_leaf e.children_childless _
    | node _ hc =>
      obtain ⟨written, texts, hwritten, hperm, htexts⟩ := hc.rewrites
      refine Expr.levels_le_iff.2 fun c hc => ?_
      rcases List.mem_append.1 (hperm.mem_iff.1 hc) with hc | hc
      · obtain ⟨d, hd⟩ := exists_rewrites_of_mem hwritten hc
        obtain ⟨s₁, hchild⟩ := hd.2
        exact ih hchild (hd.depth_add_eq hs)
      · exact Expr.levels_le_of_leaf (htexts c hc).children_eq_nil room

/-- These nodes are the ones that were cut off, without their children, and texts. -/
def Ends (nodes cut : List Expr) : Prop :=
  ∃ texts, nodes.Perm (cut.map Expr.childless ++ texts) ∧ ∀ text ∈ texts, text.IsText

namespace Ends

variable {nodes nodes' cut cut' : List Expr}

theorem of_perm (h : Ends nodes cut) (hperm : nodes'.Perm nodes) : Ends nodes' cut :=
  h.imp fun _ h => ⟨hperm.trans h.1, h.2⟩

theorem subperm (h : Ends nodes cut) : (cut.map Expr.childless).Subperm nodes := by
  obtain ⟨texts, hperm, -⟩ := h
  exact (List.sublist_append_left _ texts).subperm.trans hperm.symm.subperm

theorem append (h : Ends nodes cut) (h' : Ends nodes' cut') :
    Ends (nodes ++ nodes') (cut ++ cut') := by
  obtain ⟨texts, hperm, htexts⟩ := h
  obtain ⟨texts', hperm', htexts'⟩ := h'
  refine ⟨texts ++ texts', ?_, List.forall_mem_append.2 ⟨htexts, htexts'⟩⟩
  refine (hperm.append hperm').trans ?_
  rw [List.map_append, List.append_assoc, List.append_assoc]
  exact (List.perm_append_comm_assoc _ _ _).append_left _

theorem of_texts {texts : List Expr} (h : ∀ text ∈ texts, text.IsText) (room : Nat) :
    Ends (texts.flatMap (Expr.level room)) [] := by
  refine ⟨_, .refl _, fun text htext => ?_⟩
  obtain ⟨e, he, htext⟩ := List.mem_flatMap.1 htext
  cases room with
  | zero => exact List.mem_singleton.1 htext ▸ h e he
  | succ room =>
    rw [Expr.level, (h e he).children_eq_nil] at htext
    cases htext

theorem of_forall₂ {room : Nat} {ds : List (Expr × Session)} {written : List Expr}
    (h : List.Forall₂ (Rewrites env depth) ds written)
    (hends : ∀ d c, Rewrites env depth d c → Ends (c.level room) (cutNodes env room d.1 d.2)) :
    Ends (written.flatMap (Expr.level room)) (ds.flatMap fun d => cutNodes env room d.1 d.2) := by
  induction h with
  | nil => exact ⟨[], .refl _, List.forall_mem_nil _⟩
  | cons hd _ ih => exact (hends _ _ hd).append ih

end Ends

theorem Descends.ends (room : Nat) : ∀ {e e' : Expr} {s s' : Session},
    Descends env e s e' s' → s.depth + room = env.maxDepth →
      Ends (e'.level room) (cutNodes env room e s) := by
  -- At the limit the last level is the node that is cut off there; above it, the last level is
  -- made of those of the children.
  induction room with
  | zero =>
    intro e e' s s' hd hs
    cases hd with
    | limit _ => exact ⟨[], .refl _, List.forall_mem_nil _⟩
    | node hlt _ => omega
  | succ room ih =>
    intro e e' s s' hd hs
    cases hd with
    | limit hle => omega
    | node _ hc =>
      obtain ⟨written, texts, hwritten, hperm, htexts⟩ := hc.rewrites
      have hcut : Ends (written.flatMap (Expr.level room)) (cutNodes env (room + 1) e s) := by
        refine .of_forall₂ hwritten fun d c hd => ?_
        obtain ⟨s₁, hchild⟩ := hd.2
        exact ih hchild (hd.depth_add_eq hs)
      have hends := hcut.append (.of_texts htexts room)
      rw [List.append_nil, ← List.flatMap_append] at hends
      exact hends.of_perm (hperm.flatMap_right _)

end Limit

/-- The tree that a check writes has at most one level more than the check may nest. Every node
that the limit cuts off is in it, without its children and with its own id; these are the nodes on
the last level, apart from the names of optional fields. -/
theorem checked_tree_within_limit {env : Environment} {e : Expr} {c : Checked}
    (h : check env e = .ok c) :
    c.expr.levels ≤ env.maxDepth + 1 ∧
      ((cutNodes env env.maxDepth e {}).map Expr.childless).Subperm c.expr.nodes ∧
      (∀ n ∈ cutNodes env env.maxDepth e {},
        n.childless.id = n.id ∧ n.childless.children = []) ∧
      Ends (c.expr.level env.maxDepth) (cutNodes env env.maxDepth e {}) := by
  obtain ⟨e', s, hd, rfl⟩ := check_iff.1 h
  have hroom : ({} : Session).depth + env.maxDepth = env.maxDepth := Nat.zero_add _
  have hends := hd.ends _ hroom
  exact ⟨hd.levels_le _ hroom, hends.subperm.trans (e'.level_subperm_nodes _),
    fun n _ => ⟨n.id_childless, n.children_childless⟩, hends⟩

def sumOfSize : Expr :=
  .call 6 Operator.add
    [.receiverCall 4 (.select 3 (.select 2 (.ident 1 "a") "b" false) "c" false) "size" [],
      .literal 5 (.int 1)]

theorem checked_tree_within_limit_sumOfSize :
    ∃ c, check (Environment.standard.withMaxDepth 2) sumOfSize = .ok c ∧ c.expr.levels ≤ 3 ∧
      c.diagnostics.map Diagnostic.node = [3] ∧
      (cutNodes (Environment.standard.withMaxDepth 2) 2 sumOfSize {}).map Expr.id = [3] ∧
      ∃ leaf ∈ c.expr.nodes, leaf.id = 3 ∧ leaf.children = [] := by
  obtain ⟨c, hc, hreport⟩ : ∃ c, check (Environment.standard.withMaxDepth 2) sumOfSize = .ok c ∧
      c.diagnostics.map Diagnostic.node = [3] := by decide +kernel
  have hcut : (cutNodes (Environment.standard.withMaxDepth 2) 2 sumOfSize {}).map Expr.id =
      [3] := by decide +kernel
  obtain ⟨hlevels, hsub, hleaf, -⟩ := checked_tree_within_limit hc
  obtain ⟨n, hn, hid⟩ := List.mem_map.1 (hcut ▸ List.mem_singleton_self (3 : NodeId))
  exact ⟨c, hc, hlevels, hreport, hcut, n.childless, hsub.subset (List.mem_map_of_mem hn),
    (hleaf n hn).1.trans hid, (hleaf n hn).2⟩

end CelTyping
