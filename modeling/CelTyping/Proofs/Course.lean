import CelTyping.Proofs.Plan

/-! Passes as they follow from plans. A pass goes down to a node, keeps to the plan of that node
and comes back, and `Descends.course_induction` is the induction over that. What a plan has to do
with its node is said once, by `plan_fits`. -/
namespace CelTyping

section Courses

variable {env : Environment}

/-- Members checked one after the other, each child in the way given. -/
inductive Members (env : Environment) (R : Expr → Session → Expr → Session → Prop) :
    List Member → Kept → Session → List Expr → Kept → Session → Prop where
  | nil {kept : Kept} {s : Session} : Members env R [] kept s [] kept s
  | cons {m : Member} {ms : List Member} {e' : Expr} {es' : List Expr} {kept kept' : Kept}
      {s s₁ s' : Session} :
      R m.child s e' s₁ →
      Members env R ms (s₁.settle env m.child.id kept m.place).1
        (s₁.settle env m.child.id kept m.place).2 es' kept' s' →
        Members env R (m :: ms) kept s (e' :: es') kept' s'

/-- A node checked as planned, and its children in the way given. -/
inductive Course (env : Environment) (R : Expr → Session → Expr → Session → Prop) :
    Expr → Session → Expr → Session → Prop where
  | mk {e : Expr} {p : Plan} {parts : List Expr} {kept : Kept} {s s₁ : Session} :
      plan env s.scopes e = .ok p →
      Members env R p.members {} (s.work env e.id {} p.opening) parts kept s₁ →
        Course env R e s (p.tree parts) (s₁.work env e.id kept p.closing)

theorem Members.imp {R R' : Expr → Session → Expr → Session → Prop} {ms : List Member}
    {kept kept' : Kept} {s s' : Session} {es' : List Expr}
    (h : Members env R ms kept s es' kept' s')
    (himp : ∀ m ∈ ms, ∀ s e' s', R m.child s e' s' → R' m.child s e' s') :
    Members env R' ms kept s es' kept' s' := by
  induction h with
  | nil => exact .nil
  | cons hd _ ih =>
    exact .cons (himp _ List.mem_cons_self _ _ _ hd)
      (ih fun m hm => himp m (List.mem_cons_of_mem _ hm))

theorem Members.length_eq {R : Expr → Session → Expr → Session → Prop} {ms : List Member}
    {kept kept' : Kept} {s s' : Session} {es' : List Expr}
    (h : Members env R ms kept s es' kept' s') : es'.length = ms.length := by
  induction h with
  | nil => rfl
  | cons _ _ ih => rw [List.length_cons, List.length_cons, ih]

theorem checkMembers_iff {ms : List Member} {kept kept' : Kept} {s s' : Session}
    {es' : List Expr} :
    checkMembers env ms kept s = .ok ((es', kept'), s') ↔
      Members env (Descends env) ms kept s es' kept' s' := by
  induction ms generalizing kept s es' with
  | nil =>
    constructor
    · intro h
      cases h
      exact .nil
    · intro h
      cases h
      rfl
  | cons m ms ih =>
    rw [checkMembers]
    constructor
    · intro h
      obtain ⟨⟨e', s₁⟩, hd, h⟩ := Outcome.bind_eq_ok.1 h
      obtain ⟨⟨⟨es', kept₁⟩, s₂⟩, hs, h⟩ := Outcome.bind_eq_ok.1 h
      cases h
      exact .cons (descends_iff.1 hd) (ih.1 hs)
    · intro h
      cases h with
      | cons hd hs =>
        simp only [descends_iff.2 hd, Outcome.bind_ok, ih.2 hs]
        rfl

theorem checks_iff {e e' : Expr} {s s' : Session} :
    checkNode env e s = .ok (e', s') ↔ Checks env e s e' s' :=
  ⟨.of_checkNode e _ _ _, fun h => h.checkNode_eq⟩

theorem checks_iff_course {e e' : Expr} {s s' : Session} :
    Checks env e s e' s' ↔ Course env (Descends env) e s e' s' := by
  rw [← checks_iff, checkNode_eq_plan]
  constructor
  · intro h
    obtain ⟨p, hp, h⟩ := Outcome.bind_eq_ok.1 h
    obtain ⟨⟨⟨parts, kept⟩, s₁⟩, hm, h⟩ := Outcome.bind_eq_ok.1 h
    cases h
    exact .mk hp (checkMembers_iff.1 hm)
  · intro h
    cases h with
    | mk hp hm =>
      rw [hp, Outcome.bind_ok, Plan.check, checkMembers_iff.2 hm]
      rfl

end Courses

section Shapes

/-- The children that a work records something for without their being checked: the name of an
optional field. -/
def Work.names : Work → List Expr
  | .optionalSelect _ fieldId field => [.literal fieldId (.string field)]
  | _ => []

def Work.nodes (id : NodeId) : Work → List NodeId
  | .nothing => []
  | w => id :: w.names.map Expr.id

def Work.args : Work → List NodeId
  | .call _ _ args => args
  | _ => []

def Place.nodes : Place → List NodeId
  | .field _ id _ _ => [id]
  | .start range _ _ _ => [range]
  | _ => []

def Place.isLevel : Place → Bool
  | .start _ _ _ _ | .step => false
  | _ => true

def Work.isLevel : Work → Bool
  | .loop _ => false
  | _ => true

def Work.Found (env : Environment) (scopes : ScopeStack) : Work → Prop
  | .type t => ∃ value : Value, t = value.type
  | .variable v | .message v => ∃ name, env.variableIn? scopes name = some v
  | .call f _ _ => ∃ name, env.function? name = some f
  | _ => True

def Place.Aims (id : NodeId) (opening : Work) : Place → Prop
  | .field (some target) _ _ _ => ∃ v, opening = .message v ∧ target = v.target id
  | _ => True

def Expr.initIds : Expr → List NodeId
  | .message _ _ fields => fields.map FieldInit.id
  | _ => []

def loopMembers (iterVar iterVar2 : String) (range : Expr) (accuVar : String)
    (init condition step result : Expr) : List Member :=
  [.plain range, ⟨init, .start range.id iterVar iterVar2 accuVar⟩, ⟨condition, .condition⟩,
    ⟨step, .step⟩, .plain result]

/-- What a plan has to do with its node. -/
structure Plan.Fits (env : Environment) (scopes : ScopeStack) (p : Plan) (e : Expr) : Prop where
  /-- No child is checked twice. -/
  children : (p.members.map Member.child ++ p.closing.names).Subperm e.children
  /-- A child that is passed over is part of a name. -/
  covers : ∀ c ∈ e.children, c ∈ p.members.map Member.child ++ p.closing.names ∨
    ∃ name, c.qualifiedName? = some name
  /-- The node itself is worked on once. -/
  nodes : p.opening.nodes e.id ++ p.closing.nodes e.id = e.id :: p.closing.names.map Expr.id
  mentions : p.opening.args ++ p.closing.args ++ p.members.flatMap (·.place.nodes) ⊆
    e.initIds ++ e.children.map Expr.id
  opening_found : p.opening.Found env scopes
  closing_found : p.closing.Found env scopes
  aims : ∀ m ∈ p.members, m.place.Aims e.id p.opening
  level : p.opening.isLevel = true ∧
    ((p.closing.isLevel = true ∧ ∀ m ∈ p.members, m.place.isLevel = true) ∨
      ∃ iterVar iterVar2 range accuVar init condition step result,
        e = .comprehension e.id iterVar iterVar2 range accuVar init condition step result ∧
          p.members = loopMembers iterVar iterVar2 range accuVar init condition step result ∧
            p.closing = .loop result.id)
  id_tree : ∀ parts, (p.tree parts).id = e.id
  /-- The tree has what is written for the members as its children. -/
  tree : ∀ parts, parts.length = p.members.length →
    (p.tree parts).children.Perm (parts ++ p.closing.names)

variable {env : Environment} {scopes : ScopeStack}

theorem Place.aims_of_nodes {place : Place} (h : place.nodes = []) (id : NodeId) (w : Work) :
    place.Aims id w := by
  cases place with
  | field _ _ _ _ => cases h
  | _ => trivial

theorem Plan.fits_closing {e : Expr} {w : Work} {ms : List Member} {cs : List Expr}
    {tree : List Expr → Expr} (names : w.names = []) (nodes : w.nodes e.id = [e.id])
    (members : ms.map Member.child = cs) (children : cs.Subperm e.children)
    (covers : ∀ c ∈ e.children, c ∈ cs ∨ ∃ name, c.qualifiedName? = some name)
    (args : w.args ⊆ e.children.map Expr.id)
    (places : ∀ m ∈ ms, m.place.nodes = [] ∧ m.place.isLevel = true) (level : w.isLevel = true)
    (found : w.Found env scopes) (id_tree : ∀ parts, (tree parts).id = e.id)
    (perm : ∀ parts, parts.length = ms.length → (tree parts).children.Perm parts) :
    Plan.Fits env scopes { members := ms, closing := w, tree } e where
  children := by rwa [names, List.append_nil, members]
  covers := by rwa [names, List.append_nil, members]
  nodes := by
    rw [names]
    exact nodes
  mentions := by
    have hplaces : ms.flatMap (·.place.nodes) = [] :=
      List.flatMap_eq_nil_iff.2 fun m hm => (places m hm).1
    rw [hplaces, List.append_nil]
    exact List.subset_append_of_subset_right _ args
  opening_found := trivial
  closing_found := found
  aims m hm := Place.aims_of_nodes (places m hm).1 _ _
  level := ⟨rfl, .inl ⟨level, fun m hm => (places m hm).2⟩⟩
  id_tree := id_tree
  tree parts h := by
    rw [names, List.append_nil]
    exact perm parts h

theorem Plan.fits_leaf {e : Expr} {w : Work} {tree : List Expr → Expr}
    (names : w.names = []) (nodes : w.nodes e.id = [e.id]) (args : w.args = [])
    (level : w.isLevel = true) (found : w.Found env scopes)
    (covers : ∀ c ∈ e.children, ∃ name, c.qualifiedName? = some name)
    (id_tree : ∀ parts, (tree parts).id = e.id) (leaf : ∀ parts, (tree parts).children = []) :
    Plan.Fits env scopes { closing := w, tree } e := by
  refine Plan.fits_closing names nodes rfl List.nil_subperm (fun c hc => .inr (covers c hc)) ?_
    (List.forall_mem_nil _) level found id_tree fun parts h => ?_
  · rw [args]
    exact List.nil_subset _
  · rw [leaf, List.length_eq_zero_iff.1 h]

theorem zipWith_right {α β : Type} (as : List α) (bs : List β) (h : bs.length = as.length) :
    as.zipWith (fun _ b => b) bs = bs := by
  induction as generalizing bs with
  | nil => exact (List.length_eq_zero_iff.1 h).symm
  | cons a as ih =>
    obtain ⟨b, bs, rfl⟩ := List.exists_cons_of_length_eq_add_one h
    rw [List.zipWith_cons_cons, ih bs (Nat.succ.inj h)]

theorem parts_withParts (es : List Entry) (parts : List Expr)
    (h : parts.length = (es.flatMap Entry.members).length) :
    ((Entry.withParts es parts).flatMap fun entry => [entry.key, entry.value]) = parts := by
  induction es generalizing parts with
  | nil => exact (List.length_eq_zero_iff.1 h).symm
  | cons entry es ih =>
    match parts with
    | [] | [_] => simp [Entry.members] at h
    | key :: value :: parts =>
      rw [Entry.withParts, List.flatMap_cons, ih parts (by simpa [Entry.members] using h)]
      rfl

theorem map_child_plain (args : List Expr) : (args.map Member.plain).map Member.child = args := by
  rw [List.map_map]
  exact List.map_id args

section Forms

variable {id : NodeId} {p : Plan}

theorem plan_select_fits {operand : Expr} {field : String} {testOnly : Bool}
    (h : plan env scopes (.select id operand field testOnly) = .ok p) :
    p.Fits env scopes (.select id operand field testOnly) := by
  simp only [plan] at h
  split at h
  next v hv =>
    cases h
    obtain ⟨name, hname, hv⟩ := Option.bind_eq_some_iff.1 hv
    refine Plan.fits_leaf rfl rfl rfl rfl ⟨name, hv⟩ ?_ (fun _ => rfl) fun _ => rfl
    -- only a selection of a field that is named has a spelling
    cases testOnly with
    | true => cases hname
    | false =>
      rw [Expr.qualifiedName?_select] at hname
      obtain ⟨outer, houter, _⟩ := Option.map_eq_some_iff.1 hname
      exact List.forall_mem_singleton.2 ⟨outer, houter⟩
  next =>
    cases h
    refine Plan.fits_closing rfl rfl rfl (.refl _) (fun c hc => .inl hc) (List.nil_subset _)
      (List.forall_mem_singleton.2 ⟨rfl, rfl⟩) rfl trivial (fun _ => rfl) fun parts hparts => ?_
    obtain ⟨operand', rfl⟩ := List.length_eq_one_iff.1 hparts
    exact .refl _

theorem plan_optionalSelect_fits (env : Environment) (scopes : ScopeStack) (id : NodeId)
    (operand : Expr) (fieldId : NodeId) (field : String) :
    Plan.Fits env scopes {
        members := [.plain operand]
        closing := .optionalSelect operand.id fieldId field
        tree := fun parts => .call id Operator.optionalSelect
          [parts.headD operand, .literal fieldId (.string field)] }
      (.call id Operator.optionalSelect [operand, .literal fieldId (.string field)]) where
  children := .refl _
  covers c hc := .inl hc
  nodes := rfl
  mentions := List.nil_subset _
  opening_found := trivial
  closing_found := trivial
  aims := List.forall_mem_singleton.2 trivial
  level := ⟨rfl, .inl ⟨rfl, List.forall_mem_singleton.2 rfl⟩⟩
  id_tree _ := rfl
  tree parts h := by
    obtain ⟨operand', rfl⟩ := List.length_eq_one_iff.1 h
    exact .refl _

theorem plain_places (args : List Expr) :
    ∀ m ∈ args.map Member.plain, m.place.nodes = [] ∧ m.place.isLevel = true := by
  intro m hm
  obtain ⟨arg, _, rfl⟩ := List.mem_map.1 hm
  exact ⟨rfl, rfl⟩

theorem plan_call_fits {function : String} {args : List Expr}
    (h : plan env scopes (.call id function args) = .ok p) :
    p.Fits env scopes (.call id function args) := by
  simp only [plan] at h
  split at h
  next hf =>
    subst hf
    split at h
    next operand fieldId field =>
      cases h
      exact plan_optionalSelect_fits env scopes id operand fieldId field
    next => cases h
    next => cases h
  next =>
    split at h
    next f hfun =>
      cases h
      exact Plan.fits_closing rfl rfl (map_child_plain args) (.refl _) (fun c hc => .inl hc)
        (List.Subset.refl _) (plain_places args) rfl ⟨function, hfun⟩ (fun _ => rfl)
        fun _ _ => .refl _
    next =>
      cases h
      exact Plan.fits_closing rfl rfl (map_child_plain args) (.refl _) (fun c hc => .inl hc)
        (List.nil_subset _) (plain_places args) rfl trivial (fun _ => rfl) fun _ _ => .refl _

theorem Plan.fits_receiver {target : Expr} {function name : String} {args : List Expr} {w : Work}
    (names : w.names = []) (nodes : w.nodes id = [id])
    (hargs : w.args ⊆ (target :: args).map Expr.id) (level : w.isLevel = true)
    (found : w.Found env scopes) :
    Plan.Fits env scopes {
        members := args.map .plain ++ [.plain target]
        closing := w
        tree := fun parts => .receiverCall id (parts.getLastD target) name parts.dropLast }
      (.receiverCall id target function args) := by
  have hchildren : (args.map Member.plain ++ [Member.plain target]).map Member.child =
      args ++ [target] := by
    rw [List.map_append, map_child_plain]
    rfl
  have hperm : (args ++ [target]).Perm (target :: args) := List.perm_append_singleton target args
  refine Plan.fits_closing names nodes hchildren hperm.subperm
    (fun c hc => .inl (hperm.mem_iff.2 hc)) hargs
    (List.forall_mem_append.2 ⟨plain_places args, plain_places [target]⟩) level found
    (fun _ => rfl) fun parts hparts => ?_
  have hne : parts ≠ [] := by
    rintro rfl
    simp at hparts
  rw [List.getLastD_eq_getLast?, List.getLast?_eq_some_getLast hne]
  refine (List.perm_append_singleton _ _).symm.trans ?_
  rw [Option.getD_some, List.dropLast_append_getLast hne]

theorem plan_receiverCall_fits {target : Expr} {function : String} {args : List Expr}
    (h : plan env scopes (.receiverCall id target function args) = .ok p) :
    p.Fits env scopes (.receiverCall id target function args) := by
  simp only [plan] at h
  split at h
  next => cases h
  next =>
    split at h
    next f hfun =>
      cases h
      obtain ⟨name, hname, hfun⟩ := Option.bind_eq_some_iff.1 hfun
      exact Plan.fits_closing rfl rfl (map_child_plain args)
        (List.sublist_cons_self target args).subperm
        (List.forall_mem_cons.2 ⟨.inr ⟨name, hname⟩, fun c hc => .inl hc⟩)
        (List.subset_cons_self _ _) (plain_places args) rfl ⟨_, hfun⟩ (fun _ => rfl)
        fun _ _ => .refl _
    next =>
      split at h
      next f hfun =>
        cases h
        exact Plan.fits_receiver rfl rfl (List.Subset.refl _) rfl ⟨function, hfun⟩
      next =>
        cases h
        exact Plan.fits_receiver rfl rfl (List.nil_subset _) rfl trivial

theorem plan_list_fits {elements : List Element}
    (h : plan env scopes (.list id elements) = .ok p) : p.Fits env scopes (.list id elements) := by
  cases h
  refine Plan.fits_closing rfl rfl List.map_map (.refl _) (fun c hc => .inl hc)
    (List.nil_subset _) ?_ rfl trivial (fun _ => rfl) fun parts hparts => .of_eq ?_
  · intro m hm
    obtain ⟨el, _, rfl⟩ := List.mem_map.1 hm
    exact ⟨rfl, rfl⟩
  · rw [Expr.children, List.map_zipWith]
    exact zipWith_right elements parts (by simpa using hparts)

theorem entry_places (entries : List Entry) :
    ∀ m ∈ entries.flatMap Entry.members, m.place.nodes = [] ∧ m.place.isLevel = true := by
  intro m hm
  obtain ⟨entry, _, hm⟩ := List.mem_flatMap.1 hm
  simp only [Entry.members, List.mem_cons, List.not_mem_nil, or_false] at hm
  rcases hm with rfl | rfl
  · exact ⟨rfl, rfl⟩
  · exact ⟨rfl, rfl⟩

theorem plan_map_fits {entries : List Entry} (h : plan env scopes (.map id entries) = .ok p) :
    p.Fits env scopes (.map id entries) := by
  cases h
  exact Plan.fits_closing rfl rfl List.map_flatMap (.refl _) (fun c hc => .inl hc)
    (List.nil_subset _) (entry_places entries) rfl trivial (fun _ => rfl) fun parts hparts =>
      .of_eq (parts_withParts entries parts hparts)

theorem Plan.fits_opening {name name' : String} {fields : List FieldInit} {w : Work}
    {target : Option LiteralTarget} (nodes : w.nodes id = [id]) (args : w.args = [])
    (level : w.isLevel = true) (found : w.Found env scopes)
    (aims : ∀ l ∈ target, ∃ v, w = .message v ∧ l = v.target id) :
    Plan.Fits env scopes {
        opening := w
        members := fields.map (FieldInit.member target)
        tree := fun parts => .message id name' (fields.zipWith FieldInit.withValue parts) }
      (.message id name fields) := by
  have hchildren : (fields.map (FieldInit.member target)).map Member.child ++ Work.names .nothing =
      fields.flatMap fun field => [field.value] := by
    rw [List.map_map, ← List.map_eq_flatMap]
    exact List.append_nil _
  have hmember {P : Member → Prop} (h : ∀ f ∈ fields, P (f.member target)) :
      ∀ m ∈ fields.map (FieldInit.member target), P m := List.forall_mem_map.2 h
  refine ⟨?_, ?_, ?_, ?_, found, trivial, hmember fun f _ => ?_,
    ⟨level, .inl ⟨rfl, hmember fun f _ => rfl⟩⟩, fun _ => rfl, fun parts hparts => .of_eq ?_⟩
  · rw [hchildren]
    exact .refl _
  · rw [hchildren]
    exact fun c hc => .inl hc
  · exact (List.append_nil _).trans nodes
  · rw [args, List.flatMap_map]
    exact List.subset_append_of_subset_left _ (List.map_eq_flatMap ▸ List.Subset.refl _)
  · cases target with
    | none => trivial
    | some l => exact aims l rfl
  · rw [Expr.children, ← List.map_eq_flatMap, List.map_zipWith]
    exact (zipWith_right fields parts (by simpa using hparts)).trans (List.append_nil _).symm

theorem plan_message_fits {name : String} {fields : List FieldInit}
    (h : plan env scopes (.message id name fields) = .ok p) :
    p.Fits env scopes (.message id name fields) := by
  simp only [plan] at h
  split at h
  next v hv =>
    cases h
    exact Plan.fits_opening rfl rfl rfl ⟨name, hv⟩ fun l hl => ⟨v, rfl, (Option.some.inj hl).symm⟩
  next =>
    cases h
    exact Plan.fits_opening rfl rfl rfl trivial (by simp)

theorem plan_comprehension_fits {iterVar iterVar2 accuVar : String}
    {range init condition step result : Expr}
    (h : plan env scopes
      (.comprehension id iterVar iterVar2 range accuVar init condition step result) = .ok p) :
    p.Fits env scopes
      (.comprehension id iterVar iterVar2 range accuVar init condition step result) := by
  simp only [plan] at h
  split at h
  next => cases h
  next =>
    split at h
    next => cases h
    next =>
      cases h
      exact {
        children := .refl _
        covers := fun c hc => .inl hc
        nodes := rfl
        mentions := by
          simp [Work.args, Member.plain, Place.nodes, Expr.children]
        opening_found := trivial
        closing_found := trivial
        aims := by simp [Member.plain, Place.Aims]
        level := ⟨rfl, .inr ⟨iterVar, iterVar2, range, accuVar, init, condition, step, result, rfl,
          rfl, rfl⟩⟩
        id_tree := fun parts => by
          dsimp only
          split <;> rfl
        tree := fun parts hparts => by
          obtain ⟨range', rest, rfl⟩ := List.exists_of_length_succ parts hparts
          obtain ⟨init', condition', step', result', rfl⟩ :=
            List.length_eq_four.1 (Nat.succ.inj hparts)
          exact .refl _ }

end Forms

theorem plan_fits {e : Expr} {p : Plan} (h : plan env scopes e = .ok p) :
    p.Fits env scopes e := by
  cases e with
  | literal id value =>
    cases h
    exact Plan.fits_leaf rfl rfl rfl rfl ⟨value, rfl⟩ (List.forall_mem_nil _) (fun _ => rfl)
      fun _ => rfl
  | ident id name =>
    simp only [plan] at h
    split at h
    next v hv =>
      cases h
      exact Plan.fits_leaf rfl rfl rfl rfl ⟨name, hv⟩ (List.forall_mem_nil _) (fun _ => rfl)
        fun _ => rfl
    next =>
      cases h
      exact Plan.fits_leaf rfl rfl rfl rfl trivial (List.forall_mem_nil _) (fun _ => rfl)
        fun _ => rfl
  | select id operand field testOnly => exact plan_select_fits h
  | call id function args => exact plan_call_fits h
  | receiverCall id target function args => exact plan_receiverCall_fits h
  | list id elements => exact plan_list_fits h
  | map id entries => exact plan_map_fits h
  | message id name fields => exact plan_message_fits h
  | comprehension id iterVar iterVar2 range accuVar init condition step result =>
    exact plan_comprehension_fits h

theorem Work.isText_of_mem_names {w : Work} {e : Expr} (h : e ∈ w.names) : e.IsText := by
  cases w with
  | optionalSelect operand fieldId field => exact ⟨fieldId, field, List.mem_singleton.1 h⟩
  | _ => cases h

theorem Work.id_mem_nodes (w : Work) {e : Expr} (h : e ∈ w.names) {id : NodeId} :
    e.id ∈ w.nodes id := by
  cases w with
  | optionalSelect operand fieldId field => exact List.mem_cons_of_mem _ (List.mem_map_of_mem h)
  | _ => cases h

theorem Plan.Fits.ids {e : Expr} {p : Plan} (h : p.Fits env scopes e) :
    (p.opening.nodes e.id ++ p.closing.nodes e.id ++
      Expr.idsOf (p.members.map Member.child)).Subperm e.ids := by
  have hnames : Expr.idsOf p.closing.names = p.closing.names.map Expr.id :=
    Expr.idsOf_eq_map fun name hname => (Work.isText_of_mem_names hname).children_eq_nil
  have hids := Expr.idsOf_subperm h.children
  rw [Expr.idsOf_append, hnames] at hids
  rw [h.nodes, Expr.ids_eq_children]
  exact (List.subperm_cons _).2 (List.perm_append_comm.subperm.trans hids)

theorem Plan.Fits.nodup_ids {e : Expr} {p : Plan} (h : p.Fits env scopes e)
    (hids : e.ids.Nodup) :
    (p.opening.nodes e.id ++ p.closing.nodes e.id ++
      Expr.idsOf (p.members.map Member.child)).Nodup := by
  obtain ⟨ids, hperm, hsub⟩ := h.ids
  exact hperm.nodup_iff.1 (hsub.nodup hids)

theorem Plan.Fits.mem_children {e : Expr} {p : Plan} (h : p.Fits env scopes e) {m : Member}
    (hm : m ∈ p.members) : m.child ∈ e.children :=
  h.children.subset (List.mem_append_left _ (List.mem_map_of_mem hm))

end Shapes

section Induction

variable {env : Environment}

theorem Course.checks {R : Expr → Session → Expr → Session → Prop} {e e' : Expr} {s s' : Session}
    (h : Course env R e s e' s') (hR : ∀ {c c' t t'}, R c t c' t' → Descends env c t c' t') :
    Checks env e s e' s' := by
  cases h with
  | mk hp hm => exact checks_iff_course.2 (.mk hp (hm.imp fun _ _ _ _ _ => hR))

/-- Induction over a pass: a node is cut off, or it is checked as planned. -/
@[elab_as_elim]
theorem Descends.course_induction {motive : ∀ e s e' s', Descends env e s e' s' → Prop}
    (limit : ∀ {e s} (h : env.maxDepth ≤ s.depth), motive e s _ _ (.limit (e := e) h))
    (node : ∀ {e e' s s₁} (hlt : s.depth < env.maxDepth)
      (hc : Course env (fun c t c' t' => ∃ h : Descends env c t c' t', motive c t c' t' h)
        e s.deeper e' s₁), motive e s e' s₁.shallower (.node hlt (hc.checks (·.1))))
    {e : Expr} {s : Session} {e' : Expr} {s' : Session} (h : Descends env e s e' s') :
    motive e s e' s' h := by
  induction hn : sizeOf e using Nat.strongRecOn generalizing e e' s s' with
  | _ n ih =>
    cases h with
    | limit hle => exact limit hle
    | node hlt hc =>
      cases checks_iff_course.1 hc with
      | mk hp hm =>
        refine node hlt (.mk hp (hm.imp fun m hmem t c' t' hd => ⟨hd, ?_⟩))
        have hsize := Expr.sizeOf_lt_of_mem_children ((plan_fits hp).mem_children hmem)
        exact ih (sizeOf m.child) (hn ▸ hsize) hd rfl

end Induction

section Lists

variable {env : Environment} {s s' : Session}

theorem ChecksArgs.members {es es' : List Expr} (h : ChecksArgs env es s es' s') :
    ∃ kept, Members env (Descends env) (es.map .plain) {} s es' kept s' := by
  have h := h.checkArgs_eq
  rw [checkArgs_eq_members es {}] at h
  obtain ⟨⟨⟨parts, kept⟩, s₁⟩, hm, h⟩ := Outcome.bind_eq_ok.1 h
  cases h
  exact ⟨kept, checkMembers_iff.1 hm⟩

theorem ChecksArgs.map_id {es es' : List Expr} (h : ChecksArgs env es s es' s') :
    es'.map Expr.id = es.map Expr.id := by
  obtain ⟨_, hm⟩ := h.members
  exact map_id_of_checkArgs (checkMembers_iff.2 hm)

theorem ChecksElements.members {es es' : List Element} {t t' : Option Ty}
    (h : ChecksElements env es t s es' t' s') :
    ∃ parts kept,
      Members env (Descends env) (es.map Element.member) { value := t } s parts kept s' := by
  have h := h.checkElements_eq
  rw [checkElements_eq_members es { value := t }] at h
  obtain ⟨⟨⟨parts, kept⟩, s₁⟩, hm, h⟩ := Outcome.bind_eq_ok.1 h
  cases h
  exact ⟨parts, kept, checkMembers_iff.1 hm⟩

theorem ChecksEntries.members {es es' : List Entry} {k k' v v' : Option Ty}
    (h : ChecksEntries env es k v s es' k' v' s') :
    ∃ parts,
      Members env (Descends env) (es.flatMap Entry.members) ⟨k, v⟩ s parts ⟨k', v'⟩ s' := by
  have h := h.checkEntries_eq
  rw [checkEntries_eq_members es ⟨k, v⟩] at h
  obtain ⟨⟨⟨parts, kept⟩, s₁⟩, hm, h⟩ := Outcome.bind_eq_ok.1 h
  cases h
  exact ⟨parts, checkMembers_iff.1 hm⟩

theorem ChecksFields.members {target : Option LiteralTarget} {es es' : List FieldInit}
    (h : ChecksFields env target es s es' s') :
    ∃ parts kept,
      Members env (Descends env) (es.map (FieldInit.member target)) {} s parts kept s' := by
  have h := h.checkFields_eq
  rw [checkFields_eq_members target es {}] at h
  obtain ⟨⟨⟨parts, kept⟩, s₁⟩, hm, h⟩ := Outcome.bind_eq_ok.1 h
  cases h
  exact ⟨parts, kept, checkMembers_iff.1 hm⟩

end Lists

end CelTyping
