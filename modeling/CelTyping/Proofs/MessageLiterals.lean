import CelTyping.Proofs.Annotations

/-! Message literals. A literal is written with the name of a message, which stands for a type,
and it is built as the message that is found for this type. The two agree except for three
wrappers, which have the type of a wider one: a literal that names one of them is built as the
wider one, and its fields are compared with those of the wider one, while its reference is still
to the message that it names. -/
namespace CelTyping

/-- The name stands for a message of the registry. This is the first thing that it may stand for
and that means something, and there is no variable in its place. -/
structure Environment.NamesMessage (env : Environment) (scopes : ScopeStack)
    (name message : String) : Prop where
  first : ∃ before after, env.container.candidates name = before ++ message :: after ∧
    ∀ candidate ∈ before, env.meaning? scopes candidate = none
  notLocal : scopes.find? message = none
  notGlobal : env.globals.get? message = none
  declared : (env.registry.message? message).isSome = true

theorem Environment.NamesMessage.variableIn?_eq {env : Environment} {scopes : ScopeStack}
    {name message : String} (h : env.NamesMessage scopes name message) :
    env.variableIn? scopes name =
      some { name := message, type := .type (Ty.ofMessage message) } := by
  obtain ⟨before, after, hcandidates, hbefore⟩ := h.first
  obtain ⟨m, hm⟩ := Option.isSome_iff_exists.1 h.declared
  have hmeaning : env.meaning? scopes message =
      some { name := message, type := .type (Ty.ofMessage message) } := by
    simp only [meaning?, h.notLocal, h.notGlobal, messageName?, hm, Option.map_some]
  rw [variableIn?, hcandidates, List.findSome?_append, List.findSome?_eq_none_iff.2 hbefore,
    Option.none_or, List.findSome?_cons, hmeaning]

section Built

/-- The wrappers that have the type of a wider one. -/
def narrowWrappers : List (String × String) :=
  [("google.protobuf.FloatValue", "google.protobuf.DoubleValue"),
   ("google.protobuf.Int32Value", "google.protobuf.Int64Value"),
   ("google.protobuf.UInt32Value", "google.protobuf.UInt64Value")]

def builtMessage (message : String) : String := (narrowWrappers.lookup message).getD message

theorem builtMessage_eq_self_iff {message : String} :
    builtMessage message = message ↔ message ∉ narrowWrappers.map Prod.fst := by
  constructor
  · intro h hmem
    simp only [narrowWrappers, List.map_cons, List.map_nil, List.mem_cons, List.not_mem_nil,
      or_false] at hmem
    rcases hmem with rfl | rfl | rfl <;> exact absurd h (by decide +kernel)
  · intro h
    have hnone : narrowWrappers.lookup message = none := by
      rw [List.lookup_eq_none_iff]
      intro p hp
      have hne : message ≠ p.1 := fun heq => h (heq ▸ List.mem_map_of_mem hp)
      exact bne_iff_ne.2 hne
    rw [builtMessage, hnone, Option.getD_none]

@[simp] theorem Ty.isError_ofMessage (message : String) :
    (Ty.ofMessage message).isError = false := by
  unfold Ty.ofMessage
  split <;> rfl

theorem Session.literalTarget_message (s : Session) (node : NodeId) (name message : String) :
    s.literalTarget node { name, type := .type (.message message) } =
      (⟨.message message, message⟩, s) := by
  have hname : (Ty.message message).wellKnownName? = some message ∨
      (Ty.message message).wellKnownName? = none := by
    unfold Ty.wellKnownName?
    split <;> simp_all
  obtain h | h := hname <;> simp only [literalTarget, h]

theorem Session.literalTarget_ofMessage (s : Session) (node : NodeId) (message : String) :
    s.literalTarget node { name := message, type := .type (Ty.ofMessage message) } =
      (⟨Ty.ofMessage message, builtMessage message⟩, s) := by
  unfold Ty.ofMessage
  split
  case h_14 =>
    rw [literalTarget_message, builtMessage_eq_self_iff.2]
    simp_all [narrowWrappers]
  all_goals rfl

end Built

section Fields

variable {env : Environment}

/-- Every field is declared by the message, and the value given for it, once it is checked, can
be used as one of the declared type. -/
inductive FieldsFit (env : Environment) (message : String) :
    List FieldInit → Session → List FieldInit → Session → Prop where
  | nil {s : Session} : FieldsFit env message [] s [] s
  | cons {id : NodeId} {name : String} {value value' : Expr} {optional : Bool}
      {rest rest' : List FieldInit} {t u : Ty} {b : Substitution} {s s₁ s₂ : Session} :
      Descends env value s value' s₁ →
      (env.registry.message? message).bind (·.field? name) = some t →
      s₁.entryType value.id optional = (u, s₁) → s₁.bindings.assignable? t u = some b →
      FieldsFit env message rest { s₁ with bindings := b } rest' s₂ →
        FieldsFit env message (⟨id, name, value, optional⟩ :: rest) s
          (⟨id, name, value', optional⟩ :: rest') s₂

theorem Session.expectField_eq {s : Session} {target : LiteralTarget} {node value : NodeId}
    {field : String} {optional : Bool} (htarget : target.type.isError = false)
    (hok : (s.expectField env target node field value optional).diagnostics = []) :
    ∃ t u b, (env.registry.message? target.name).bind (·.field? field) = some t ∧
      s.entryType value optional = (u, s) ∧ s.bindings.assignable? t u = some b ∧
      s.expectField env target node field value optional = { s with bindings := b } := by
  unfold expectField at hok ⊢
  simp only [htarget, Bool.false_eq_true, if_false] at hok ⊢
  have hassign (s : Session) (a b : Ty) : Steps [] s (s.assign a b).2 := steps_assign s a b
  have hentry := (steps_ite (hassign _ _ _)
    ((hassign _ _ _).trans (steps_report _ _ _))).moves.diagnostics_eq_nil hok
  obtain ⟨t, hfield, heq⟩ | ⟨d, hd, -⟩ := s.fieldType_cases env node target.name field
  · rw [heq] at hok hentry ⊢
    obtain ⟨u, hu⟩ : ∃ u, s.entryType value optional = (u, s) :=
      ⟨_, Prod.ext rfl (entryType_of_ok hentry).1⟩
    simp only [hu, assign] at hok ⊢
    cases hb : s.bindings.assignable? t u with
    | none =>
      rw [hb] at hok
      exact absurd hok (report_diagnostics_ne _ _ _)
    | some b => exact ⟨t, u, b, hfield, rfl, hb, rfl⟩
  · have hsteps (s : Session) : Steps [] s (s.entryType value optional).2 :=
      s.steps_entryType value optional
    have hnil := (hsteps _).moves.diagnostics_eq_nil hentry
    rw [hd] at hnil
    exact absurd (List.append_eq_nil_iff.1 hnil).2 (List.cons_ne_nil d [])

theorem ChecksFields.fit {target : LiteralTarget} (htarget : target.type.isError = false)
    {fields fields' : List FieldInit} {s s' : Session}
    (h : ChecksFields env (some target) fields s fields' s') (hok : s'.diagnostics = []) :
    FieldsFit env target.name fields s fields' s' := by
  induction fields generalizing s fields' with
  | nil =>
    cases h
    exact .nil
  | cons field rest ih =>
    cases h with
    | cons hvalue hrest =>
      obtain ⟨t, u, b, hfield, hu, hb, heq⟩ :=
        Session.expectField_eq htarget (hrest.extends.diagnostics_eq_nil hok)
      have hfit := ih hrest
      rw [Session.checkField, heq] at hfit
      exact .cons hvalue hfield hu hb hfit

end Fields

section Literals

/-- A literal that names a message and is in order is built as a message that has all of its
fields, with values that fit them, and refers to the message that it names. The two are the
same message unless that is one of the narrow wrappers. -/
theorem literal_built_from_message {env : Environment} {id : NodeId} {name message : String}
    {fields : List FieldInit} {e' : Expr} {s s' : Session}
    (hname : env.NamesMessage s.scopes name message)
    (h : descend env (.message id name fields) (checkNode env (.message id name fields)) s =
      .ok (e', s'))
    (hok : s'.diagnostics = []) :
    ∃ fields' s₁, e' = .message id (builtMessage message) fields' ∧
      (∃ r, s'.references.get? id = some r ∧ r.NamesVariable message) ∧
      FieldsFit env (builtMessage message) fields
        ((s.deeper.setReference id { name := message }).setType id (Ty.ofMessage message))
        fields' s₁ ∧ s' = s₁.shallower ∧
      (builtMessage message = message ↔ message ∉ narrowWrappers.map Prod.fst) := by
  cases descends_iff.1 h with
  | limit _ => exact absurd hok (Session.failNode_diagnostics_ne _ _ _)
  | node hdepth hc =>
    cases hc with
    | unknownMessage hv _ => cases hname.variableIn?_eq.symm.trans hv
    | message hv hf =>
      cases hname.variableIn?_eq.symm.trans hv
      obtain ⟨r, hr, hnames⟩ := Session.enterMessage_refers (hf.extends.diagnostics_eq_nil hok)
      obtain ⟨found, hfound, hgrows⟩ := hf.extends.references id r hr
      simp only [Session.enterMessage, Session.literalTarget_ofMessage] at hf ⊢
      exact ⟨_, _, rfl, ⟨found, hfound, hgrows.alike.namesVariable hnames⟩,
        hf.fit (Ty.isError_ofMessage message) hok, rfl, builtMessage_eq_self_iff⟩

def boxes : Environment :=
  (Environment.empty.withRegistry
    (Catalogue.addMessage {} ⟨"shop.Box", Table.ofList [("size", .int)]⟩).registry).withContainer
      "shop"

def boxLiteral : Expr := .message 1 "Box" [⟨2, "size", .literal 3 (.int 4), false⟩]

theorem literal_built_from_message_box :
    ∃ e' s', descend boxes boxLiteral (checkNode boxes boxLiteral) {} = .ok (e', s') ∧
      s'.diagnostics = [] ∧ (∃ fields', e' = .message 1 "shop.Box" fields') ∧
      ∃ r, s'.references.get? 1 = some r ∧ r.NamesVariable "shop.Box" := by
  have hname : boxes.NamesMessage ({} : Session).scopes "Box" "shop.Box" :=
    ⟨⟨[], ["Box"], by decide +kernel, by simp⟩, rfl, rfl, by decide +kernel⟩
  obtain ⟨⟨e', s'⟩, h, hok⟩ : ∃ p,
      descend boxes boxLiteral (checkNode boxes boxLiteral) {} = .ok p ∧
      p.2.diagnostics.isEmpty = true := by decide +kernel
  have hnil := List.isEmpty_iff.1 hok
  obtain ⟨fields', _, he', hr, -⟩ := literal_built_from_message hname h hnil
  exact ⟨e', s', h, hnil, ⟨fields', he'⟩, hr⟩

def Expr.messageName? : Expr → Option String
  | .message _ name _ => some name
  | _ => none

/-- A literal of a narrow wrapper is in order, and yet it does not build the message that it
names and refers to. -/
theorem literal_built_wider :
    Environment.empty.NamesMessage {} "google.protobuf.Int32Value" "google.protobuf.Int32Value" ∧
      ∃ c, check Environment.empty (.message 2 "google.protobuf.Int32Value"
          [⟨3, "value", .literal 1 (.int 1), false⟩]) = .ok c ∧
        c.isOk = true ∧ c.expr.messageName? = some "google.protobuf.Int64Value" ∧
        (c.references.get? 2).map Reference.name = some "google.protobuf.Int32Value" := by
  refine ⟨⟨⟨[], [], by decide +kernel, by simp⟩, rfl, rfl, by decide +kernel⟩, ?_⟩
  decide +kernel

end Literals

end CelTyping
