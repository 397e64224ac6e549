import CelTyping.Proofs.Run
import CelTyping.Proofs.RootNames

/-! The trees that a pass writes. A pass replaces names by full ones, turns chains of
selections into identifiers and drops receivers that are namespaces, all of which later
decisions look at. At the root this comes to an end with the first pass: a second one over
the tree that the first has written makes the same decisions in the same order, and so finds
the same and writes the same tree again. -/
namespace CelTyping

section Tameness

/-- Message literals are left out, and the variables of loops have plain names. -/
def Expr.hasPlainNames : Expr → Bool
  | .message _ _ _ => false
  | .comprehension _ iterVar iterVar2 _ accuVar _ _ _ _ =>
    Name.isPlain iterVar && (iterVar2 == "" || Name.isPlain iterVar2) && Name.isPlain accuVar
  | _ => true

/-- A function that is called on a name is not itself looked up at the root. Otherwise the
name and the function could spell a namespaced function once the dot is dropped. -/
def Expr.hasPlainMethod : Expr → Bool
  | .receiverCall _ target function _ =>
    target.qualifiedName?.isNone || (Name.rooted? function).isNone
  | _ => true

def Expr.IsTame (e : Expr) : Prop := e.hasPlainNames = true ∧ e.hasPlainMethod = true

/-- A second pass can take the second tree for the first one. -/
structure Canonical (e e' : Expr) : Prop where
  id_eq : e'.id = e.id
  name_eq : e'.qualifiedName? = e.qualifiedName?.map Name.unrooted
  isPlain : ∀ name ∈ e'.qualifiedName?, Name.isPlain name = true

end Tameness

section Naming

variable {env : Environment} {e e' : Expr}

theorem canonical_of_none (hid : e'.id = e.id) (h : e.qualifiedName? = none)
    (h' : e'.qualifiedName? = none) : Canonical e e' :=
  ⟨hid, by rw [h, h', Option.map_none], by simp [h']⟩

theorem canonical_ident {id : NodeId} {name full : String} (hid : id = e.id)
    (h : e.qualifiedName? = some name) (hfull : full = Name.unrooted name)
    (hplain : Name.isPlain full = true) : Canonical e (.ident id full) :=
  ⟨hid, by rw [h, Option.map_some, ← hfull, Expr.qualifiedName?_ident], by simpa⟩

theorem Canonical.isPlain_unrooted (h : Canonical e e') {name : String}
    (hname : e.qualifiedName? = some name) : Name.isPlain (Name.unrooted name) = true :=
  h.isPlain _ (by rw [h.name_eq, hname, Option.map_some, Option.mem_some_iff])

theorem Canonical.select (h : Canonical e e') (id : NodeId) (field : String) (testOnly : Bool) :
    Canonical (.select id e field testOnly) (.select id e' field testOnly) := by
  cases testOnly with
  | true => exact canonical_of_none rfl rfl rfl
  | false =>
    refine ⟨rfl, ?_, ?_⟩
    · simp only [Expr.qualifiedName?_select, h.name_eq]
      cases hq : e.qualifiedName? with
      | none => rfl
      | some name => simp only [Option.map_some, Name.unrooted_extend (h.isPlain_unrooted hq)]
    · intro name hname
      rw [Expr.qualifiedName?_select] at hname
      obtain ⟨name, hname', rfl⟩ := Option.map_eq_some_iff.1 hname
      exact Name.isPlain_extend (h.isPlain name hname') field

theorem Canonical.variableIn?_eq (henv : env.Rooted) (h : Canonical e e') (scopes : ScopeStack) :
    e'.qualifiedName?.bind (env.variableIn? scopes) =
      e.qualifiedName?.bind (env.variableIn? scopes) := by
  rw [h.name_eq]
  cases hq : e.qualifiedName? with
  | none => rfl
  | some name =>
    simp only [Option.map_some, Option.bind_some, henv.variableIn?_eq,
      Name.unrooted_of_isPlain (h.isPlain_unrooted hq)]

theorem Canonical.function?_eq (henv : env.Rooted) (h : Canonical e e') (function : String) :
    (e'.qualifiedName?.bind fun name => env.function? (Name.extend name function)) =
      e.qualifiedName?.bind fun name => env.function? (Name.extend name function) := by
  rw [h.name_eq]
  cases hq : e.qualifiedName? with
  | none => rfl
  | some name =>
    have hname := h.isPlain_unrooted hq
    simp only [Option.map_some, Option.bind_some, henv.function?_eq, Name.unrooted_extend hname,
      Name.unrooted_of_isPlain (Name.isPlain_extend hname function)]

end Naming

section Scopes

def ScopeStack.PlainNames (scopes : ScopeStack) : Prop :=
  ∀ frame ∈ scopes.root :: scopes.inner, Named Variable.name (Table.get? frame)

def Place.HasPlainNames : Place → Prop
  | .start _ iterVar iterVar2 accuVar =>
    (Name.isPlain iterVar = true ∧ (iterVar2 = "" ∨ Name.isPlain iterVar2 = true)) ∧
      Name.isPlain accuVar = true
  | _ => True

namespace ScopeStack.PlainNames

variable {scopes : ScopeStack}

theorem named (h : scopes.PlainNames) : Named Variable.name scopes.find? := by
  intro name v hv
  obtain ⟨frame, hframe, hv⟩ := List.exists_of_findSome?_eq_some hv
  exact h frame (by simpa [or_comm] using hframe) name v hv

theorem push (h : scopes.PlainNames) : scopes.push.PlainNames := by
  obtain ⟨hroot, hinner⟩ := List.forall_mem_cons.1 h
  exact List.forall_mem_cons.2 ⟨hroot, List.forall_mem_cons.2 ⟨.empty, hinner⟩⟩

theorem pop (h : scopes.PlainNames) : scopes.pop.PlainNames := by
  obtain ⟨hroot, hinner⟩ := List.forall_mem_cons.1 h
  exact List.forall_mem_cons.2 ⟨hroot, fun frame h => hinner frame (List.mem_of_mem_tail h)⟩

theorem declare (h : scopes.PlainNames) {v : Variable} (hv : Name.isPlain v.name = true) :
    (scopes.declare v).PlainNames := by
  obtain ⟨hroot, hinner⟩ := List.forall_mem_cons.1 h
  unfold ScopeStack.declare
  split
  next hnil =>
    rw [hnil] at hinner
    exact List.forall_mem_cons.2 ⟨hroot.insert rfl hv, hnil ▸ hinner⟩
  next frame outer heq =>
    rw [heq] at hinner
    obtain ⟨hframe, houter⟩ := List.forall_mem_cons.1 hinner
    exact List.forall_mem_cons.2 ⟨hroot, List.forall_mem_cons.2 ⟨hframe.insert rfl hv, houter⟩⟩

theorem declareAll (h : scopes.PlainNames) {vs : List Variable}
    (hvs : ∀ v ∈ vs, Name.isPlain v.name = true) :
    (vs.foldl ScopeStack.declare scopes).PlainNames := by
  induction vs generalizing scopes with
  | nil => exact h
  | cons v vs ih =>
    rw [List.forall_mem_cons] at hvs
    exact ih (h.declare hvs.1) hvs.2

variable {s : Session}

theorem enterLoop (h : s.scopes.PlainNames) (range init : NodeId)
    {iterVar iterVar2 accuVar : String} (hi : Name.isPlain iterVar = true)
    (hi2 : iterVar2 = "" ∨ Name.isPlain iterVar2 = true) (ha : Name.isPlain accuVar = true) :
    (s.enterLoop range init iterVar iterVar2 accuVar).scopes.PlainNames := by
  unfold Session.enterLoop Session.enterScope
  simp only [Session.scopes_loopTypes]
  refine (h.push.declareAll (List.forall_mem_singleton.2 ha)).push.declareAll ?_
  refine List.forall_mem_cons.2 ⟨hi, fun v hv => ?_⟩
  split at hv
  next htwo =>
    rw [List.mem_singleton.1 hv]
    exact hi2.resolve_left (by simpa using htwo)
  next => cases hv

theorem settle (h : s.scopes.PlainNames) (env : Environment) (node : NodeId) (kept : Kept)
    {place : Place} (hplace : place.HasPlainNames) :
    (s.settle env node kept place).2.scopes.PlainNames := by
  by_cases hlevel : place.isLevel = true
  · rwa [(s.steps_settle env node kept hlevel).scopes_eq]
  · cases place with
    | start range iterVar iterVar2 accuVar =>
      obtain ⟨⟨hi, hi2⟩, ha⟩ := hplace
      exact h.enterLoop range node hi hi2 ha
    | step =>
      have hpop : (s.settle env node kept .step).2.scopes = s.scopes.pop :=
        congrArg ScopeStack.pop (s.scopes_expectType node _)
      rw [hpop]
      exact h.pop
    | _ => exact absurd rfl hlevel

end ScopeStack.PlainNames

end Scopes

section Replanning

def Member.withChild (m : Member) (child : Expr) : Member := { m with child }

structure Plan.Again (p : Plan) (parts : List Expr) (p' : Plan) : Prop where
  opening : p'.opening = p.opening
  members : p'.members = p.members.zipWith Member.withChild parts
  closing : p'.closing = p.closing
  tree : p'.tree parts = p.tree parts

/-- The tree that is written for a node can be taken for it, and is planned alike. -/
def Plan.Recurs (env : Environment) (scopes : ScopeStack) (p : Plan) (e : Expr)
    (parts : List Expr) : Prop :=
  Canonical e (p.tree parts) ∧ ∃ p', plan env scopes (p.tree parts) = .ok p' ∧ p.Again parts p'

abbrev CanonicalParts (ms : List Member) (parts : List Expr) : Prop :=
  List.Forall₂ (fun m part => Canonical m.child part) ms parts

variable {env : Environment} {scopes : ScopeStack} {id : NodeId} {parts : List Expr} {p : Plan}

theorem Plan.recurs {e e' : Expr} {p' : Plan} (htree : p.tree parts = e')
    (hplan : plan env scopes e' = .ok p') (hcan : Canonical e e')
    (hopening : p'.opening = p.opening)
    (hmembers : p'.members = p.members.zipWith Member.withChild parts)
    (hclosing : p'.closing = p.closing) (htree' : p'.tree parts = e') :
    p.Recurs env scopes e parts := by
  subst htree
  exact ⟨hcan, p', hplan, hopening, hmembers, hclosing, htree'⟩

theorem CanonicalParts.map_id {ms : List Member} (h : CanonicalParts ms parts) :
    parts.map Expr.id = ms.map (·.child.id) := by
  induction h with
  | nil => rfl
  | cons hpart _ ih => rw [List.map_cons, List.map_cons, ih, hpart.id_eq]

theorem CanonicalParts.length_eq {ms : List Member} (h : CanonicalParts ms parts) :
    parts.length = ms.length :=
  (List.Forall₂.length_eq h).symm

theorem CanonicalParts.plain {args : List Expr} (h : CanonicalParts (args.map .plain) parts) :
    parts.map .plain = (args.map Member.plain).zipWith Member.withChild parts ∧
      parts.map Expr.id = args.map Expr.id := by
  have hlength : parts.length = args.length := h.length_eq.trans (List.length_map _)
  have hids := h.map_id
  rw [List.map_map] at hids
  refine ⟨?_, hids⟩
  rw [List.zipWith_map_left]
  exact (congrArg (List.map Member.plain) (zipWith_right args parts hlength)).symm.trans
    List.map_zipWith

theorem CanonicalParts.concat {ms : List Member} {m : Member}
    (h : CanonicalParts (ms ++ [m]) parts) :
    ∃ parts' part, parts = parts' ++ [part] ∧ CanonicalParts ms parts' ∧
      Canonical m.child part := by
  induction ms generalizing parts with
  | nil =>
    obtain ⟨part, _, hpart, hnil, rfl⟩ := List.forall₂_cons_left_iff.1 h
    rw [List.forall₂_nil_left_iff.1 hnil]
    exact ⟨[], part, rfl, .nil, hpart⟩
  | cons m' ms ih =>
    obtain ⟨part', _, hpart', hrest, rfl⟩ := List.forall₂_cons_left_iff.1 h
    obtain ⟨parts', part, rfl, hparts', hpart⟩ := ih hrest
    exact ⟨part' :: parts', part, rfl, .cons hpart' hparts', hpart⟩

theorem recurs_call (henv : env.Rooted) {e : Expr} (hid : e.id = id)
    (hnone : e.qualifiedName? = none) {function : String} {f : Function} {args : List Expr}
    (hf : env.function? function = some f) (hparts : CanonicalParts (args.map .plain) parts) :
    Plan.Recurs env scopes {
      members := args.map .plain
      closing := .call f false (args.map Expr.id)
      tree := .call id f.name } e parts := by
  obtain ⟨_, hne, hf⟩ := henv.function?_again hf
  obtain ⟨hmembers, hids⟩ := hparts.plain
  have hplan : plan env scopes (.call id f.name parts) = .ok {
      members := parts.map .plain
      closing := .call f false (parts.map Expr.id)
      tree := .call id f.name } := by
    simp only [plan, if_neg hne, hf]
  exact Plan.recurs rfl hplan (canonical_of_none hid.symm hnone rfl) rfl hmembers
    (congrArg (Work.call f false) hids) rfl

theorem recurs_receiverCall (henv : env.Rooted) {target : Expr} {function : String} {f : Function}
    {args : List Expr} (htame : (Expr.receiverCall id target function args).hasPlainMethod = true)
    (hnone : (target.qualifiedName?.bind fun name => env.function? (Name.extend name function)) =
      none) (hf : env.function? function = some f)
    (hparts : CanonicalParts (args.map .plain ++ [.plain target]) parts) :
    Plan.Recurs env scopes {
        members := args.map .plain ++ [.plain target]
        closing := .call f true (target.id :: args.map Expr.id)
        tree := fun parts => .receiverCall id (parts.getLastD target) f.name parts.dropLast }
      (.receiverCall id target function args) parts := by
  obtain ⟨hname, hne, hf⟩ := henv.function?_again hf
  obtain ⟨args', target', rfl, hargs, htarget⟩ := hparts.concat
  obtain ⟨hmembers, hids⟩ := hargs.plain
  have hnone' : (target'.qualifiedName?.bind fun name =>
      env.function? (Name.extend name f.name)) = none := by
    rw [htarget.function?_eq henv, hname]
    rcases Bool.or_eq_true_iff.1 htame with hq | hfunction
    · rw [show (Member.plain target).child = target from rfl, Option.isNone_iff_eq_none.1 hq,
        Option.bind_none]
    · rw [Name.unrooted_of_rooted? hfunction]
      exact hnone
  have hplan : plan env scopes (.receiverCall id target' f.name args') = .ok {
      members := args'.map .plain ++ [.plain target']
      closing := .call f true (target'.id :: args'.map Expr.id)
      tree := fun parts => .receiverCall id (parts.getLastD target') f.name parts.dropLast } := by
    simp only [plan, if_neg hne, hnone', hf]
  refine Plan.recurs (by simp) hplan (canonical_of_none rfl rfl rfl) rfl ?_ ?_ (by simp)
  · rw [hmembers, List.zipWith_append (by simpa using hargs.length_eq.symm)]
    rfl
  · rw [hids, htarget.id_eq]
    rfl

theorem recurs_variable (henv : env.Rooted) (hs : scopes.PlainNames) {e : Expr} (hid : e.id = id)
    {name : String} (hname : e.qualifiedName? = some name) {v : Variable}
    (hv : env.variableIn? scopes name = some v) :
    Plan.Recurs env scopes { closing := .variable v, tree := fun _ => .ident id v.name } e
      parts := by
  obtain ⟨hfull, hplain, hv⟩ := henv.variableIn?_again hs.named hv
  have hplan : plan env scopes (.ident id v.name) =
      .ok { closing := .variable v, tree := fun _ => .ident id v.name } := by
    simp only [plan, hv]
  exact Plan.recurs rfl hplan (canonical_ident hid.symm hname hfull hplain) rfl rfl rfl rfl

theorem recurs_select (henv : env.Rooted) {operand : Expr} {field : String} {testOnly : Bool}
    (hnone : ((Expr.select id operand field testOnly).qualifiedName?).bind
      (env.variableIn? scopes) = none) (hparts : CanonicalParts [.plain operand] parts) :
    Plan.Recurs env scopes {
        members := [.plain operand]
        closing := .select operand.id field testOnly
        tree := fun parts => .select id (parts.headD operand) field testOnly }
      (.select id operand field testOnly) parts := by
  obtain ⟨operand', _, hoperand, hnil, rfl⟩ := List.forall₂_cons_left_iff.1 hparts
  cases List.forall₂_nil_left_iff.1 hnil
  have hcan := Canonical.select hoperand id field testOnly
  have hplan : plan env scopes (.select id operand' field testOnly) = .ok {
      members := [.plain operand']
      closing := .select operand'.id field testOnly
      tree := fun parts => .select id (parts.headD operand') field testOnly } := by
    simp only [plan, (hcan.variableIn?_eq henv scopes).trans hnone]
  exact Plan.recurs rfl hplan hcan rfl rfl (congrArg (Work.select · field testOnly) hoperand.id_eq)
    rfl

theorem recurs_optionalSelect {operand : Expr} {fieldId : NodeId} {field : String}
    (hparts : CanonicalParts [.plain operand] parts) :
    Plan.Recurs env scopes {
        members := [.plain operand]
        closing := .optionalSelect operand.id fieldId field
        tree := fun parts => .call id Operator.optionalSelect
          [parts.headD operand, .literal fieldId (.string field)] }
      (.call id Operator.optionalSelect [operand, .literal fieldId (.string field)]) parts := by
  obtain ⟨operand', _, hoperand, hnil, rfl⟩ := List.forall₂_cons_left_iff.1 hparts
  cases List.forall₂_nil_left_iff.1 hnil
  have hplan : plan env scopes
      (.call id Operator.optionalSelect [operand', .literal fieldId (.string field)]) = .ok {
        members := [.plain operand']
        closing := .optionalSelect operand'.id fieldId field
        tree := fun parts => .call id Operator.optionalSelect
          [parts.headD operand', .literal fieldId (.string field)] } := by
    simp only [plan, if_true]
  exact Plan.recurs rfl hplan (canonical_of_none rfl rfl rfl) rfl rfl
    (congrArg (Work.optionalSelect · fieldId field) hoperand.id_eq) rfl

theorem zipWith_zipWith_right {α β : Type} {f : α → β → α} (hf : ∀ a b, f (f a b) b = f a b)
    (as : List α) (bs : List β) : (as.zipWith f bs).zipWith f bs = as.zipWith f bs := by
  induction as generalizing bs with
  | nil => rfl
  | cons a as ih =>
    cases bs with
    | nil => rfl
    | cons b bs => simp only [List.zipWith_cons_cons, hf, ih]

theorem withParts_withParts (es : List Entry) (parts : List Expr)
    (h : parts.length = (es.flatMap Entry.members).length) :
    (Entry.withParts es parts).flatMap Entry.members =
        (es.flatMap Entry.members).zipWith Member.withChild parts ∧
      Entry.withParts (Entry.withParts es parts) parts = Entry.withParts es parts := by
  induction es generalizing parts with
  | nil => exact ⟨rfl, rfl⟩
  | cons entry es ih =>
    match parts with
    | [] | [_] => simp [Entry.members] at h
    | key :: value :: parts =>
      obtain ⟨hmembers, htree⟩ := ih parts (by simpa [Entry.members] using h)
      refine ⟨?_, ?_⟩
      · rw [Entry.withParts, List.flatMap_cons, hmembers]
        rfl
      · rw [Entry.withParts, Entry.withParts, htree]

theorem recurs_list (elements : List Element) (parts : List Expr) :
    Plan.Recurs env scopes {
        members := elements.map Element.member
        closing := .list
        tree := fun parts => .list id (elements.zipWith Element.withValue parts) }
      (.list id elements) parts := by
  refine Plan.recurs rfl rfl (canonical_of_none rfl rfl rfl) rfl ?_ rfl ?_
  · rw [List.map_zipWith, List.zipWith_map_left]
    rfl
  · have hself (el : Element) (value : Expr) :
        (el.withValue value).withValue value = el.withValue value := rfl
    exact congrArg (Expr.list id) (zipWith_zipWith_right hself elements parts)

theorem recurs_map {entries : List Entry}
    (hparts : CanonicalParts (entries.flatMap Entry.members) parts) :
    Plan.Recurs env scopes {
        members := entries.flatMap Entry.members
        closing := .map
        tree := fun parts => .map id (Entry.withParts entries parts) }
      (.map id entries) parts := by
  obtain ⟨hmembers, htree⟩ := withParts_withParts entries parts hparts.length_eq
  exact Plan.recurs rfl rfl (canonical_of_none rfl rfl rfl) rfl hmembers rfl
    (congrArg (Expr.map id) htree)

theorem recurs_comprehension {iterVar iterVar2 accuVar : String}
    {range init condition step result : Expr}
    (hp : plan env scopes
      (.comprehension id iterVar iterVar2 range accuVar init condition step result) = .ok p)
    (hparts : CanonicalParts p.members parts) :
    p.Recurs env scopes
      (.comprehension id iterVar iterVar2 range accuVar init condition step result) parts := by
  simp only [plan] at hp
  split at hp
  next => cases hp
  next hiter =>
    split at hp
    next => cases hp
    next haccu =>
      cases hp
      simp only [CanonicalParts, List.forall₂_cons_left_iff, List.forall₂_nil_left_iff] at hparts
      obtain ⟨range', _, hrange, ⟨init', _, hinit, ⟨condition', _, hcondition,
        ⟨step', _, hstep, ⟨result', _, hresult, rfl, rfl⟩, rfl⟩, rfl⟩, rfl⟩, rfl⟩ := hparts
      have hplan : plan env scopes (.comprehension id iterVar iterVar2 range' accuVar init'
          condition' step' result') = _ := (if_neg hiter).trans (if_neg haccu)
      refine Plan.recurs rfl hplan (canonical_of_none rfl rfl rfl) rfl ?_ ?_ rfl
      · rw [hrange.id_eq]
        rfl
      · rw [hresult.id_eq]
        rfl

theorem plan_call_recurs (henv : env.Rooted) {function : String} {args : List Expr}
    (hp : plan env scopes (.call id function args) = .ok p)
    (hfound : ∀ name, p.closing ≠ .undeclared name) (hparts : CanonicalParts p.members parts) :
    p.Recurs env scopes (.call id function args) parts := by
  simp only [plan] at hp
  split at hp
  next hf =>
    subst hf
    split at hp
    next =>
      cases hp
      exact recurs_optionalSelect hparts
    next => cases hp
    next => cases hp
  next =>
    split at hp
    next f hf =>
      cases hp
      exact recurs_call henv rfl rfl hf hparts
    next =>
      cases hp
      exact absurd rfl (hfound function)

theorem plan_receiverCall_recurs (henv : env.Rooted) {target : Expr} {function : String}
    {args : List Expr} (htame : (Expr.receiverCall id target function args).hasPlainMethod = true)
    (hp : plan env scopes (.receiverCall id target function args) = .ok p)
    (hfound : ∀ name, p.closing ≠ .undeclared name) (hparts : CanonicalParts p.members parts) :
    p.Recurs env scopes (.receiverCall id target function args) parts := by
  simp only [plan] at hp
  split at hp
  next => cases hp
  next =>
    split at hp
    next f hf =>
      cases hp
      obtain ⟨name, _, hf⟩ := Option.bind_eq_some_iff.1 hf
      exact recurs_call henv rfl rfl hf hparts
    next hnone =>
      split at hp
      next f hf =>
        cases hp
        exact recurs_receiverCall henv htame hnone hf hparts
      next =>
        cases hp
        exact absurd rfl (hfound function)

/-- The children of a node are replaced by trees that can be taken for them, and nothing else
changes. -/
theorem plan_recurs (henv : env.Rooted) (hs : scopes.PlainNames) {e : Expr} (he : e.IsTame)
    (hp : plan env scopes e = .ok p) (hfound : ∀ name, p.closing ≠ .undeclared name)
    (hparts : CanonicalParts p.members parts) : p.Recurs env scopes e parts := by
  cases e with
  | literal id value =>
    cases hp
    exact Plan.recurs rfl rfl (canonical_of_none rfl rfl rfl) rfl rfl rfl rfl
  | ident id name =>
    simp only [plan] at hp
    split at hp
    next v hv =>
      cases hp
      exact recurs_variable henv hs rfl rfl hv
    next =>
      cases hp
      exact absurd rfl (hfound name)
  | select id operand field testOnly =>
    simp only [plan] at hp
    split at hp
    next v hv =>
      cases hp
      obtain ⟨name, hname, hv⟩ := Option.bind_eq_some_iff.1 hv
      exact recurs_variable henv hs rfl hname hv
    next hnone =>
      cases hp
      exact recurs_select henv hnone hparts
  | call id function args =>
    exact plan_call_recurs henv hp hfound hparts
  | receiverCall id target function args =>
    exact plan_receiverCall_recurs henv he.2 hp hfound hparts
  | list id elements =>
    cases hp
    exact recurs_list elements parts
  | map id entries =>
    cases hp
    exact recurs_map hparts
  | message id name fields => cases he.1
  | comprehension id iterVar iterVar2 range accuVar init condition step result =>
    exact recurs_comprehension hp hparts

end Replanning

section Again

variable {env : Environment}

theorem plan_hasPlainNames {scopes : ScopeStack} {e : Expr} {p : Plan}
    (hp : plan env scopes e = .ok p) (he : e.hasPlainNames = true) :
    ∀ m ∈ p.members, m.place.HasPlainNames := by
  obtain ⟨-, ⟨-, hlevel⟩ | ⟨iterVar, iterVar2, range, accuVar, _, _, _, _, heq, hms, -⟩⟩ :=
    (plan_fits hp).level
  · intro m hm
    have hplace := hlevel m hm
    cases hm' : m.place with
    | start range iterVar iterVar2 accuVar =>
      rw [hm'] at hplace
      cases hplace
    | _ => trivial
  · rw [heq] at he
    rw [hms]
    simpa [loopMembers, Member.plain, Place.HasPlainNames, Expr.hasPlainNames] using he

def Repeats (env : Environment) (e : Expr) (s : Session) (e' : Expr) (s' : Session) : Prop :=
  Descends env e s e' s' ∧ (s.scopes.PlainNames → s'.diagnostics = [] →
    Canonical e e' ∧ Descends env e' s e' s')

theorem Members.again {ms : List Member} {kept kept' : Kept} {s s' : Session} {es' : List Expr}
    (h : Members env (Repeats env) ms kept s es' kept' s')
    (hplain : ∀ m ∈ ms, m.place.HasPlainNames) (hs : s.scopes.PlainNames)
    (hok : s'.diagnostics = []) :
    CanonicalParts ms es' ∧
      Members env (Descends env) (ms.zipWith Member.withChild es') kept s es' kept' s' := by
  induction h with
  | nil => exact ⟨.nil, .nil⟩
  | @cons m ms e' _ kept _ s s₁ _ hd hms ih =>
    obtain ⟨hd, hagain⟩ := hd
    obtain ⟨hplace, hplain⟩ := List.forall_mem_cons.1 hplain
    have hsettled := (hms.moves fun h => h.1.moves).diagnostics_eq_nil hok
    have hok₁ := (s₁.moves_settle env m.child.id kept m.place).diagnostics_eq_nil hsettled
    have hs₁ : s₁.scopes.PlainNames := by rwa [hd.run.scopes_eq]
    obtain ⟨hcan, hd'⟩ := hagain hs hok₁
    obtain ⟨hparts, hms'⟩ := ih hplain (hs₁.settle env m.child.id kept hplace) hok
    refine ⟨.cons hcan hparts, .cons (m := m.withChild e') hd' ?_⟩
    rwa [Member.withChild, hcan.id_eq]

theorem Descends.again (henv : env.Rooted) {e e' : Expr} {s s' : Session}
    (h : Descends env e s e' s') (he : ∀ n ∈ e.nodes, n.IsTame) (hs : s.scopes.PlainNames)
    (hok : s'.diagnostics = []) : Canonical e e' ∧ Descends env e' s e' s' := by
  induction h using Descends.course_induction with
  | limit _ => exact absurd hok (Session.failNode_diagnostics_ne _ _ _)
  | @node e _ s _ hlt hc =>
    cases hc with
    | @mk p parts kept _ s₁ hp hm =>
      have hfits := plan_fits hp
      have hclosed : (s₁.work env e.id kept p.closing).diagnostics = [] := hok
      have hchecked := (s₁.moves_work env e.id kept p.closing).diagnostics_eq_nil hclosed
      have hfound (name : String) : p.closing ≠ .undeclared name := by
        intro heq
        rw [heq] at hclosed
        exact s₁.failNode_diagnostics_ne _ _ hclosed
      have hopened : (s.deeper.work env e.id {} p.opening).scopes.PlainNames := by
        rwa [(s.deeper.steps_work env e.id {} hfits.level.1).scopes_eq]
      have hself := he e List.mem_cons_self
      have hm : Members env (Repeats env) p.members {} _ parts kept s₁ :=
        hm.imp fun m hmem _ _ _ ⟨hd, ih⟩ => ⟨hd, ih fun n hn =>
          he n (Expr.nodes_subset (hfits.mem_children hmem) hn)⟩
      obtain ⟨hparts, hm'⟩ := hm.again (plan_hasPlainNames hp hself.1) hopened hchecked
      obtain ⟨hcan, p', hp', hagain⟩ := plan_recurs henv hs hself hp hfound hparts
      refine ⟨hcan, .node hlt (checks_iff_course.2 ?_)⟩
      rw [← hagain.members, ← hagain.opening, ← hfits.id_tree parts] at hm'
      have hc : Course env (Descends env) (p.tree parts) s.deeper _ _ := .mk hp' hm'
      rwa [hagain.tree, hagain.closing, hfits.id_tree] at hc

end Again

/-- At the root, a check without reports finds the same again for the tree that it writes. -/
theorem check_canonical {env : Environment} {e : Expr} {c : Checked} (henv : env.Rooted)
    (hnames : ∀ n ∈ e.nodes, n.hasPlainNames = true)
    (hmethods : ∀ n ∈ e.nodes, n.hasPlainMethod = true) (hcheck : check env e = .ok c)
    (hok : c.diagnostics = []) : check env c.expr = .ok c := by
  obtain ⟨e', s, hd, rfl⟩ := check_iff.1 hcheck
  have hscopes : ({} : Session).scopes.PlainNames := List.forall_mem_singleton.2 .empty
  obtain ⟨_, hd⟩ := hd.again henv (fun n hn => ⟨hnames n hn, hmethods n hn⟩) hscopes hok
  exact check_iff.2 ⟨e', s, hd, rfl⟩

section Samples

def namespaces : Environment :=
  ((Environment.standard.withRegistry
      (Catalogue.wellKnown.addEnum "color.Hue" (Table.ofList [("RED", 1)])).registry).withVariable
    "a.b" (.map .string .int)).withFunction
      { name := "ns.g", overloads := [{ id := "g_int", params := [.int], result := .int }] }

theorem rooted_namespaces : namespaces.Rooted :=
  ((Environment.rooted_standard.withCatalogue
      (Catalogue.plain_wellKnown.addEnum (by decide +kernel) _)).withVariable
    (by decide +kernel) _).withFunction (by decide +kernel) (by decide +kernel)

def qualifiedSum : Expr :=
  .call 10 "_+_" [.select 3 (.select 2 (.ident 1 ".a") "b" false) "c" false,
    .receiverCall 9 (.ident 4 "ns") "g"
      [.select 8 (.select 7 (.ident 6 "color") "Hue" false) "RED" false]]

theorem check_canonical_qualifiedSum :
    ∃ c, check namespaces qualifiedSum = .ok c ∧ c.diagnostics = [] ∧
      check namespaces c.expr = .ok c := by
  obtain ⟨c, hc, hok⟩ : ∃ c, check namespaces qualifiedSum = .ok c ∧ c.diagnostics = [] := by
    decide +kernel
  refine ⟨c, hc, hok, check_canonical rooted_namespaces ?_ ?_ hc hok⟩
  · decide +kernel
  · decide +kernel

def ambiguous : Environment :=
  ((Environment.empty.withVariable "q" .int).withFunction
    { name := "g",
      overloads := [{ id := "g_int", params := [.int], result := .int, isMember := true }] }
    ).withFunction
      { name := "q.g", overloads := [{ id := "q_g", params := [], result := .string }] }

theorem rooted_ambiguous : ambiguous.Rooted :=
  ((Environment.rooted_empty.withVariable (by decide +kernel) _).withFunction
    (by decide +kernel) (by decide +kernel)).withFunction (by decide +kernel) (by decide +kernel)

/-- The call of `.g` on `q` is written as one of `g`, which is taken for the one of `q.g`. -/
theorem check_not_canonical :
    ¬ ∀ (env : Environment) (e : Expr) (c : Checked), env.Rooted →
      (∀ n ∈ e.nodes, n.hasPlainNames = true) → check env e = .ok c → c.diagnostics = [] →
        check env c.expr = .ok c := by
  intro hall
  obtain ⟨c, hc, hok, hnot⟩ :
      ∃ c, check ambiguous (.receiverCall 2 (.ident 1 "q") ".g" []) = .ok c ∧
        c.diagnostics = [] ∧
          ¬ ∃ c', check ambiguous c.expr = .ok c' ∧ c'.types.get? 1 = c.types.get? 1 := by
    decide +kernel
  exact hnot ⟨c, hall ambiguous _ c rooted_ambiguous (by decide +kernel) hc hok, rfl⟩

end Samples

end CelTyping
