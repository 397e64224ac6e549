import CelTyping.Proofs.Ingredients
import CelTyping.Proofs.Records
import CelTyping.Proofs.RootNames

/-! What the types of a session are made of. Types go everywhere: into the tables, the scopes of
loop variables, bindings, joined types and results of calls. On the way nothing gets into them
but the parameters and the mistakes of other types, type variables that are made for the purpose,
and mistakes that are reported at the same time. So whatever a session holds on to is made of
what was declared and of these, if only the two stay acceptable while variables are made and
mistakes are reported. -/
namespace CelTyping

/-- The parameters that types may have after so many type variables, and the mistakes that they
may carry after these reports. -/
structure Supply where
  param : Nat → String → Prop
  mistake : List Diagnostic → Diagnostic → Prop
  param_mono {n n' : Nat} {p : String} : n ≤ n' → param n p → param n' p
  mistake_mono {ds ds' : List Diagnostic} {d : Diagnostic} : ds ⊆ ds' → mistake ds d → mistake ds' d
  param_fresh (n : Nat) : param (n + 1) ("_var" ++ Nat.repr n)
  mistake_reported {ds : List Diagnostic} {d : Diagnostic} : d ∈ ds → mistake ds d

namespace Session

def Makes (s : Session) (g : Supply) (t : Ty) : Prop :=
  t.MadeOf (g.param s.nextVar) (g.mistake s.diagnostics)

/-- Whatever the session holds on to is made of what it has come to so far. -/
structure MadeFrom (s : Session) (g : Supply) : Prop where
  types : s.types.All (s.Makes g)
  scopes : s.scopes.All (s.Makes g ·.type)
  bindings : s.bindings.bindings.MadeOf (g.param s.nextVar) (g.mistake s.diagnostics)

structure Yields (g : Supply) (p : Ty × Session) : Prop where
  session : p.2.MadeFrom g
  type : p.2.Makes g p.1

end Session

def Overload.MadeFrom (o : Overload) (g : Supply) : Prop :=
  ∀ s : Session, (s.instantiate o).2.Makes g (s.instantiate o).1.1 ∧
    ∀ t ∈ (s.instantiate o).1.2, (s.instantiate o).2.Makes g t

structure Environment.MadeFrom (env : Environment) (g : Supply) : Prop where
  globals : env.globals.All fun v => ∀ s : Session, s.Makes g v.type
  functions : env.functions.All fun f => ∀ o ∈ f.overloads, o.MadeFrom g
  fields : ∀ name m, env.registry.message? name = some m →
    m.fields.All fun t => ∀ s : Session, s.Makes g t

namespace Session

section Growing

variable {g : Supply} {nodes : List NodeId} {s s' : Session} {t : Ty}

theorem Moves.nextVar_le (h : Moves nodes s s') : s.nextVar ≤ s'.nextVar := by
  induction h with
  | refl => exact Nat.le_refl _
  | tail _ hmove ih =>
    refine Nat.le_trans ih ?_
    cases hmove with
    | rescope _ _ => exact Nat.le_refl _
    | step hstep =>
      cases hstep with
      | freshVar => exact Nat.le_succ _
      | _ => exact Nat.le_refl _

theorem Makes.later (h : s.Makes g t) (hm : Moves nodes s s') : s'.Makes g t :=
  h.mono (fun _ => g.param_mono hm.nextVar_le)
    (fun _ => g.mistake_mono hm.diagnostics_prefix.subset)

theorem Makes.after (h : s.Makes g t) (hs : Steps [] s s') : s'.Makes g t := h.later hs.moves

theorem makes_of_nil (s : Session) (hp : t.paramNames = []) (he : t.errors = []) : s.Makes g t :=
  Ty.madeOf_of_nil hp he

theorem MadeFrom.grow (hs : s.MadeFrom g) (htypes : s'.types = s.types)
    (hscopes : s'.scopes = s.scopes) (hbindings : s'.bindings = s.bindings)
    (hvar : s.nextVar ≤ s'.nextVar) (hreports : s.diagnostics ⊆ s'.diagnostics) :
    s'.MadeFrom g := by
  have hparam (p : String) := g.param_mono hvar (p := p)
  have hmistake (d : Diagnostic) := g.mistake_mono hreports (d := d)
  refine ⟨?_, ?_, ?_⟩
  · rw [htypes]
    exact hs.types.mono fun t h => h.mono hparam hmistake
  · rw [hscopes]
    exact hs.scopes.mono fun v h => h.mono hparam hmistake
  · rw [hbindings]
    exact hs.bindings.mono hparam hmistake

end Growing

section Operations

variable {g : Supply} {s : Session} {t : Ty} {env : Environment}

theorem MadeFrom.report (hs : s.MadeFrom g) (node : NodeId) (cause : Cause) :
    (s.report node cause).MadeFrom g :=
  hs.grow rfl rfl rfl (Nat.le_refl _) (List.subset_append_left _ _)

theorem MadeFrom.fail (hs : s.MadeFrom g) (node : NodeId) (cause : Cause) :
    Yields g (s.fail node cause) :=
  ⟨hs.report node cause, Ty.madeOf_error.2 (g.mistake_reported List.mem_concat_self)⟩

theorem MadeFrom.freshVar (hs : s.MadeFrom g) : Yields g s.freshVar :=
  ⟨hs.grow rfl rfl rfl (Nat.le_succ _) (List.Subset.refl _),
    Ty.madeOf_param.2 (g.param_fresh s.nextVar)⟩

theorem MadeFrom.deeper (hs : s.MadeFrom g) : s.deeper.MadeFrom g :=
  ⟨hs.types, hs.scopes, hs.bindings⟩

theorem MadeFrom.setType (hs : s.MadeFrom g) (node : NodeId) (ht : s.Makes g t) :
    (s.setType node t).MadeFrom g := by
  rcases s.setType_cases node t with heq | ⟨existing, _, heq⟩
  · rw [heq]
    exact ⟨hs.types.insert ht, hs.scopes, hs.bindings⟩
  · rw [heq]
    exact hs.report node _

theorem MadeFrom.setReference (hs : s.MadeFrom g) (node : NodeId) (r : Reference) :
    (s.setReference node r).MadeFrom g := by
  rcases s.setReference_cases node r with ⟨_, heq⟩ | ⟨_, _, ⟨_, heq⟩ | ⟨_, _, _, heq⟩ | heq⟩
  · rw [heq]
    exact ⟨hs.types, hs.scopes, hs.bindings⟩
  · rwa [heq]
  · rw [heq]
    exact ⟨hs.types, hs.scopes, hs.bindings⟩
  · rw [heq]
    exact hs.report node _

theorem MadeFrom.failNode (hs : s.MadeFrom g) (node : NodeId) (cause : Cause) :
    (s.failNode node cause).MadeFrom g :=
  have hfail := hs.fail node cause
  hfail.session.setType node hfail.type

theorem MadeFrom.setVariable (hs : s.MadeFrom g) (node : NodeId) {v : Variable}
    (hv : s.Makes g v.type) : (s.setVariable node v).MadeFrom g :=
  (hs.setType node hv).setReference node _

theorem MadeFrom.enterScope (hs : s.MadeFrom g) {vs : List Variable}
    (hvs : ∀ v ∈ vs, s.Makes g v.type) : (s.enterScope vs).MadeFrom g :=
  ⟨hs.types, .declareAll hvs hs.scopes.push, hs.bindings⟩

theorem MadeFrom.exitScope (hs : s.MadeFrom g) : s.exitScope.MadeFrom g :=
  ⟨hs.types, hs.scopes.pop, hs.bindings⟩

theorem MadeFrom.makes_typeOf (hs : s.MadeFrom g) (node : NodeId) :
    s.Makes g (s.typeOf node) := by
  unfold typeOf
  cases h : s.types.get? node with
  | none => exact s.makes_of_nil rfl rfl
  | some t => exact hs.types node t h

theorem MadeFrom.makes_substitute (hs : s.MadeFrom g) (ht : s.Makes g t) (close : Bool) :
    s.Makes g (s.bindings.substitute t close) :=
  Bindings.madeOf_substitute hs.bindings.values ht close

theorem MadeFrom.makes_resolvedTypeOf (hs : s.MadeFrom g) (node : NodeId) :
    s.Makes g (s.resolvedTypeOf node) :=
  hs.makes_substitute (hs.makes_typeOf node) false

theorem MadeFrom.setResolvedType (hs : s.MadeFrom g) (node : NodeId) (ht : s.Makes g t) :
    (s.setResolvedType node t).MadeFrom g :=
  hs.setType node (hs.makes_substitute ht false)

theorem MadeFrom.assign (hs : s.MadeFrom g) {a b : Ty} (ha : s.Makes g a) (hb : s.Makes g b) :
    (s.assign a b).2.MadeFrom g := by
  unfold Session.assign
  split
  next m h =>
    have hm := (Substitution.matches_of_assignable h).madeOf hs.bindings ha hb
    exact ⟨hs.types, hs.scopes, hm⟩
  next => exact hs

theorem madeFrom_ite {s₁ s₂ : Session} {c : Prop} [Decidable c] (h₁ : s₁.MadeFrom g)
    (h₂ : s₂.MadeFrom g) : (if c then s₁ else s₂).MadeFrom g := by
  split
  next => exact h₁
  next => exact h₂

theorem MadeFrom.expectType (hs : s.MadeFrom g) (node : NodeId) (ht : s.Makes g t) :
    (s.expectType node t).MadeFrom g := by
  have ha := hs.assign ht (hs.makes_typeOf node)
  exact madeFrom_ite ha (ha.report node _)

theorem MadeFrom.fieldType (hs : s.MadeFrom g) (henv : env.MadeFrom g) (node : NodeId)
    (message field : String) : Yields g (s.fieldType env node message field) := by
  unfold Session.fieldType
  split
  next => exact hs.fail node _
  next m hm =>
    split
    next t ht => exact ⟨hs, henv.fields message m hm field t ht s⟩
    next => exact hs.fail node _

theorem Yields.optionally {p : Ty × Session} (h : Yields g p) (c : Bool) :
    Yields g (if c then .optional p.1 else p.1, p.2) := by
  cases c with
  | true => exact ⟨h.session, h.type⟩
  | false => exact h

theorem MadeFrom.selectedType (hs : s.MadeFrom g) (henv : env.MadeFrom g) (node operand : NodeId)
    (field : String) (optional : Bool) :
    Yields g (s.selectedType env node operand field optional) := by
  have htarget : s.Makes g (s.resolvedTypeOf operand).unwrapOptional :=
    (hs.makes_resolvedTypeOf operand).unwrapOptional
  unfold Session.selectedType
  simp only
  refine Yields.optionally ?_ _
  split
  next key value heq =>
    rw [heq] at htarget
    exact ⟨hs, (Ty.madeOf_map.1 htarget).2⟩
  next name _ => exact hs.fieldType henv node name field
  next => exact ⟨hs.assign (s.makes_of_nil rfl rfl) htarget, makes_of_nil _ rfl rfl⟩
  next => exact ⟨hs, s.makes_of_nil rfl rfl⟩
  next => exact ⟨hs, s.makes_of_nil rfl rfl⟩
  next => exact hs.fail node _

theorem MadeFrom.entryType (hs : s.MadeFrom g) (node : NodeId) (optional : Bool) :
    Yields g (s.entryType node optional) := by
  have ht := hs.makes_typeOf node
  have hinner : s.Makes g (s.typeOf node).unwrapOptional := ht.unwrapOptional
  unfold Session.entryType
  simp only
  split
  next =>
    split
    next => exact ⟨hs, hinner⟩
    next => exact ⟨hs.report node _, hinner.after (s.steps_report node _)⟩
  next => exact ⟨hs, ht⟩

theorem MadeFrom.joinTypes (hs : s.MadeFrom g) (env : Environment) (node : NodeId)
    {previous : Option Ty} {current : Ty} (hp : ∀ t ∈ previous, s.Makes g t)
    (hc : s.Makes g current) : Yields g (s.joinTypes env node previous current) := by
  unfold Session.joinTypes
  split
  next => exact ⟨hs, hc⟩
  next previous =>
    have hp := hp previous rfl
    have ha := hs.assign hp hc
    have hsteps : Steps [] s (s.assign previous current).2 := s.steps_assign previous current
    simp only
    split
    next => exact ⟨ha, (hp.after hsteps).mostGeneral (hc.after hsteps)⟩
    next =>
      split
      next => exact ⟨ha, makes_of_nil _ rfl rfl⟩
      next => exact ha.fail node _

theorem MadeFrom.joinMember (hs : s.MadeFrom g) (env : Environment) (node : NodeId)
    (optional : Bool) {previous : Option Ty} (hp : ∀ t ∈ previous, s.Makes g t) :
    Yields g (s.joinMember env node optional previous) := by
  have he := hs.entryType node optional
  refine he.session.joinTypes env node (fun t ht => ?_) he.type
  exact (hp t ht).after (s.steps_entryType node optional)

theorem MadeFrom.memberType (hs : s.MadeFrom g) {t : Option Ty} (ht : ∀ u ∈ t, s.Makes g u) :
    Yields g (s.memberType t) := by
  cases t with
  | none => exact hs.freshVar
  | some t => exact ⟨hs, ht t rfl⟩

theorem MadeFrom.recordList (hs : s.MadeFrom g) (id : NodeId) {t : Option Ty}
    (ht : ∀ u ∈ t, s.Makes g u) : (s.recordList id t).MadeFrom g :=
  have hm := hs.memberType ht
  hm.session.setType id hm.type

theorem MadeFrom.recordMap (hs : s.MadeFrom g) (id : NodeId) {k v : Option Ty}
    (hk : ∀ u ∈ k, s.Makes g u) (hv : ∀ u ∈ v, s.Makes g u) :
    (s.recordMap id k v).MadeFrom g := by
  have hkey := hs.memberType hk
  have hvalue := hkey.session.memberType fun u hu => (hv u hu).after (s.steps_memberType k)
  refine hvalue.session.setType id (Ty.madeOf_map.2 ⟨?_, hvalue.type⟩)
  exact hkey.type.after (steps_memberType _ v)

theorem MadeFrom.recordSelect (hs : s.MadeFrom g) (henv : env.MadeFrom g) (id operand : NodeId)
    (field : String) (testOnly : Bool) :
    (s.recordSelect env id operand field testOnly).MadeFrom g := by
  have hsel := hs.selectedType henv id operand field false
  refine hsel.session.setResolvedType id ?_
  split
  next => exact makes_of_nil _ rfl rfl
  next => exact hsel.type

theorem MadeFrom.recordOptionalSelect (hs : s.MadeFrom g) (henv : env.MadeFrom g)
    (id operand fieldId : NodeId) (field : String) :
    (s.recordOptionalSelect env id operand fieldId field).MadeFrom g := by
  have hsel := hs.selectedType henv id operand field true
  have hstring : (s.selectedType env id operand field true).2.Makes g .string :=
    makes_of_nil _ rfl rfl
  have htype := hsel.type.later (steps_setType _ .string (List.mem_singleton_self fieldId)).moves
  exact ((hsel.session.setType fieldId hstring).setResolvedType id htype).setReference id _

theorem MadeFrom.makes_variable (hs : s.MadeFrom g) (henv : env.MadeFrom g) {name : String}
    {v : Variable} (h : env.variableIn? s.scopes name = some v) : s.Makes g v.type := by
  obtain ⟨candidate, _, h⟩ := List.exists_of_findSome?_eq_some h
  unfold Environment.meaning? at h
  split at h
  next w hw =>
    cases h
    exact hs.scopes.find? hw
  next =>
    split at h
    next w hw =>
      cases h
      exact henv.globals candidate v hw s
    next =>
      split at h
      next w hw =>
        cases h
        obtain ⟨m, _, rfl⟩ := Option.map_eq_some_iff.1 hw
        exact Ty.madeOf_ofMessage candidate
      next =>
        obtain ⟨_, _, h⟩ := Option.bind_eq_some_iff.1 h
        obtain ⟨_, _, rfl⟩ := Option.map_eq_some_iff.1 h
        exact s.makes_of_nil rfl rfl

theorem MadeFrom.loopTypes (hs : s.MadeFrom g) (range : NodeId) (two : Bool) :
    (s.loopTypes range two).2.MadeFrom g ∧
      (s.loopTypes range two).2.Makes g (s.loopTypes range two).1.1 ∧
        (s.loopTypes range two).2.Makes g (s.loopTypes range two).1.2 := by
  have ht := hs.makes_resolvedTypeOf range
  have ha := hs.assign (s.makes_of_nil (t := .dyn) rfl rfl) ht
  unfold Session.loopTypes
  simp only
  split
  next element heq =>
    rw [heq] at ht
    cases two with
    | true => exact ⟨hs, s.makes_of_nil rfl rfl, ht⟩
    | false => exact ⟨hs, ht, s.makes_of_nil rfl rfl⟩
  next key value heq =>
    rw [heq] at ht
    exact ⟨hs, Ty.madeOf_map.1 ht⟩
  next => exact ⟨ha, makes_of_nil _ rfl rfl, makes_of_nil _ rfl rfl⟩
  next => exact ⟨ha, makes_of_nil _ rfl rfl, makes_of_nil _ rfl rfl⟩
  next => exact ⟨ha, makes_of_nil _ rfl rfl, makes_of_nil _ rfl rfl⟩
  next =>
    have hf := hs.fail range (.invalidComprehensionRange (s.resolvedTypeOf range))
    exact ⟨hf.session, hf.type, hf.type⟩

theorem MadeFrom.enterLoop (hs : s.MadeFrom g) (range init : NodeId)
    (iterVar iterVar2 accuVar : String) :
    (s.enterLoop range init iterVar iterVar2 accuVar).MadeFrom g := by
  unfold Session.enterLoop
  simp only
  generalize (iterVar2 != "") = two
  obtain ⟨hloop, ht, ht2⟩ := hs.loopTypes range two
  have hinit := (hs.makes_typeOf init).after (s.steps_loopTypes range two)
  refine (hloop.enterScope (List.forall_mem_singleton.2 hinit)).enterScope ?_
  cases two with
  | true => exact List.forall_mem_cons.2 ⟨ht, List.forall_mem_singleton.2 ht2⟩
  | false => exact List.forall_mem_singleton.2 ht

theorem MadeFrom.exitLoop (hs : s.MadeFrom g) (id result : NodeId) :
    (s.exitLoop id result).MadeFrom g :=
  hs.exitScope.setType id (hs.exitScope.makes_resolvedTypeOf result)

theorem MadeFrom.literalTarget (hs : s.MadeFrom g) (node : NodeId) {v : Variable}
    (hv : s.Makes g v.type) :
    (s.literalTarget node v).2.MadeFrom g ∧
      (s.literalTarget node v).2.Makes g (s.literalTarget node v).1.type := by
  have hfail (cause : Cause) := hs.fail node cause
  unfold Session.literalTarget
  split
  next d heq =>
    rw [heq] at hv
    exact ⟨hs, hv⟩
  next inner heq =>
    rw [heq] at hv
    split
    next => exact ⟨hs, hv⟩
    next =>
      split
      next => exact ⟨hs, hv⟩
      next => exact ⟨(hfail _).session, (hfail _).type⟩
  next => exact ⟨(hfail _).session, (hfail _).type⟩

theorem MadeFrom.enterMessage (hs : s.MadeFrom g) (id : NodeId) {v : Variable}
    (hv : s.Makes g v.type) :
    (s.enterMessage id v).2.MadeFrom g ∧
      (s.enterMessage id v).2.Makes g (s.enterMessage id v).1.type := by
  have href := s.steps_setReference { name := v.name } (List.mem_singleton_self id)
  obtain ⟨htarget, ht⟩ :=
    (hs.setReference id { name := v.name }).literalTarget id (hv.later href.moves)
  refine ⟨htarget.setType id ht, ht.later (steps_setType _ _ (List.mem_singleton_self id)).moves⟩

theorem MadeFrom.expectField (hs : s.MadeFrom g) (henv : env.MadeFrom g) {target : LiteralTarget}
    (ht : s.Makes g target.type) (node : NodeId) (field : String) (value : NodeId)
    (optional : Bool) : (s.expectField env target node field value optional).MadeFrom g := by
  have hfield : Yields g (if target.type.isError then (target.type, s)
      else s.fieldType env node target.name field) := by
    split
    next => exact ⟨hs, ht⟩
    next => exact hs.fieldType henv node target.name field
  have hentry := hfield.session.entryType value optional
  have hexpected := hfield.type.after (steps_entryType _ value optional)
  have ha := hentry.session.assign hexpected hentry.type
  exact madeFrom_ite ha (ha.report node _)

theorem MadeFrom.checkField (hs : s.MadeFrom g) (henv : env.MadeFrom g)
    {target : Option LiteralTarget} (ht : ∀ l ∈ target, s.Makes g l.type) (node : NodeId)
    (field : String) (value : NodeId) (optional : Bool) :
    (s.checkField env target node field value optional).MadeFrom g := by
  cases target with
  | none => exact hs
  | some target => exact hs.expectField henv (ht target rfl) node field value optional

end Operations

section Calls

variable {g : Supply} {s : Session} {env : Environment}

theorem MadeFrom.instantiate (hs : s.MadeFrom g) (o : Overload) :
    (s.instantiate o).2.MadeFrom g := by
  unfold Session.instantiate Session.freshVars
  refine List.foldlRecOn (motive := fun (p : Bindings × Session) => p.2.MadeFrom g)
    o.typeParamNames _ hs ?_
  intro p hp name _
  exact hp.freshVar.session

theorem makes_add {r : Resolved} (h : s.Makes g r.type) (result : Ty) (overload : String) :
    s.Makes g (r.add result overload).type := by
  unfold Resolved.add
  simp only
  split
  next => exact h
  next => exact s.makes_of_nil rfl rfl

theorem MadeFrom.matchOverloads (function : String) (args : List Ty) (os : List Overload)
    (hos : ∀ o ∈ os, o.MadeFrom g) :
    ∀ (found : Option Resolved) {s : Session}, s.MadeFrom g → (∀ t ∈ args, s.Makes g t) →
      (∀ r ∈ found, s.Makes g r.type) →
        (Session.matchOverloads function args os found s).2.MadeFrom g ∧
          ∀ r ∈ (Session.matchOverloads function args os found s).1,
            (Session.matchOverloads function args os found s).2.Makes g r.type := by
  induction os with
  | nil => exact fun found s hs _ hfound => ⟨hs, hfound⟩
  | cons o os ih =>
    obtain ⟨ho, hos⟩ := List.forall_mem_cons.1 hos
    intro found s hs hargs hfound
    have hinst := hs.instantiate o
    obtain ⟨hresult, hparams⟩ := ho s
    have hsteps : Steps [] s (s.instantiate o).2 := s.steps_instantiate o
    have hargs : ∀ t ∈ args, (s.instantiate o).2.Makes g t :=
      fun t ht => (hargs t ht).after hsteps
    have hfound : ∀ r ∈ found, (s.instantiate o).2.Makes g r.type :=
      fun r hr => (hfound r hr).after hsteps
    simp only [Session.matchOverloads]
    split
    next => exact ih hos found hinst hargs hfound
    next m hm =>
      have hm := (Substitution.matchesAll_of_assignableAll hm).madeOf hinst.bindings hargs hparams
      refine ih hos _ ⟨hinst.types, hinst.scopes, hm⟩ hargs fun r hr => ?_
      cases Option.some.inj hr
      cases found with
      | none => exact Bindings.madeOf_substitute hm.values hresult false
      | some r => exact makes_add (hfound r rfl) _ o.id

theorem MadeFrom.expectBools (args : List NodeId) : ∀ (ts : List Ty) {s : Session},
    s.MadeFrom g → (∀ t ∈ ts, s.Makes g t) → (s.expectBools args ts).MadeFrom g := by
  induction args with
  | nil => exact fun _ _ hs _ => hs
  | cons arg args ih =>
    intro ts s hs hts
    cases ts with
    | nil => exact hs
    | cons t ts =>
      obtain ⟨ht, hts⟩ := List.forall_mem_cons.1 hts
      have ha := hs.assign ht (s.makes_of_nil (t := .bool) rfl rfl)
      have hsteps : Steps [] s (s.assign t .bool).2 := s.steps_assign t .bool
      refine ih ts (madeFrom_ite ha (ha.report arg _)) fun u hu => (hts u hu).after ?_
      exact steps_ite hsteps (hsteps.trans (steps_report _ arg _))

theorem MadeFrom.makes_args (hs : s.MadeFrom g) (args : List NodeId) :
    ∀ t ∈ args.map s.typeOf, s.Makes g t := by
  intro t ht
  obtain ⟨arg, _, rfl⟩ := List.mem_map.1 ht
  exact hs.makes_typeOf arg

theorem MadeFrom.resolveOverload (hs : s.MadeFrom g) (env : Environment) (node : NodeId)
    {f : Function} (hf : ∀ o ∈ f.overloads, o.MadeFrom g) (isMember : Bool)
    (args : List NodeId) :
    (s.resolveOverload env node f isMember args).2.MadeFrom g ∧
      ∀ r, (s.resolveOverload env node f isMember args).1 = .ok r →
        (s.resolveOverload env node f isMember args).2.Makes g r.type := by
  unfold Session.resolveOverload
  simp only
  split
  next =>
    split
    next => exact ⟨hs, by simp⟩
    next =>
      refine ⟨.expectBools args _ hs (hs.makes_args args), ?_⟩
      intro r hr
      cases hr
      exact makes_of_nil _ rfl rfl
  next =>
    have hm := MadeFrom.matchOverloads f.name (args.map s.typeOf) (env.eligible f isMember)
      (fun o ho => hf o (List.mem_of_mem_filter ho)) none hs (hs.makes_args args) (by simp)
    unfold Environment.eligible at hm
    split
    next r s₁ heq =>
      rw [heq] at hm
      refine ⟨hm.1, ?_⟩
      intro r hr
      cases hr
      exact hm.2 r rfl
    next s₁ heq =>
      rw [heq] at hm
      exact ⟨hm.1, by simp⟩

theorem MadeFrom.resolveCall (hs : s.MadeFrom g) (env : Environment) (node : NodeId)
    {f : Function} (hf : ∀ o ∈ f.overloads, o.MadeFrom g) (isMember : Bool)
    (args : List NodeId) : (s.resolveCall env node f isMember args).MadeFrom g := by
  obtain ⟨hs, hr⟩ := hs.resolveOverload env node hf isMember args
  unfold Session.resolveCall
  split
  next r s₁ heq =>
    rw [heq] at hs hr
    exact (hs.setType node (hr r rfl)).setReference node _
  next d s₁ heq =>
    rw [heq] at hs
    exact hs.failNode d.node d.cause

end Calls

theorem madeFrom_empty (g : Supply) : MadeFrom {} g where
  types := .empty
  scopes := List.forall_mem_singleton.2 .empty
  bindings _ _ h := nomatch h

end Session

@[simp] theorem Value.paramNames_type (v : Value) : v.type.paramNames = [] := by
  cases v <;> rfl

section Declared

@[simp] theorem Catalogue.message?_registry (c : Catalogue) (name : String) :
    c.registry.message? name = c.messages.get? name := rfl

theorem Catalogue.all_fields_wellKnown {P : Ty → Prop}
    (hall : ∀ e ∈ wellKnownMessages, ∀ field ∈ e.2, P field.2) {name : String} {m : Message}
    (h : wellKnown.registry.message? name = some m) : m.fields.All P := by
  rw [message?_registry] at h
  obtain ⟨e, he, heq⟩ := List.mem_map.1 (Table.mem_of_get?_ofList h)
  cases heq
  exact .ofList (hall e he)

theorem Environment.of_function? {env : Environment} {P : Function → Prop}
    (hall : env.functions.All P) {name : String} {f : Function}
    (h : env.function? name = some f) : P f := by
  obtain ⟨candidate, _, h⟩ := List.exists_of_findSome?_eq_some h
  exact hall candidate f h

end Declared

section Passes

variable {env : Environment} {g : Supply}

def Work.types : Work → List Ty
  | .type t => [t]
  | .variable v | .message v => [v.type]
  | _ => []

namespace Session

variable {s : Session}

structure MakesKept (s : Session) (g : Supply) (kept : Kept) : Prop where
  key : ∀ t ∈ kept.key, s.Makes g t
  value : ∀ t ∈ kept.value, s.Makes g t

def MakesTarget (s : Session) (g : Supply) : Place → Prop
  | .field (some target) _ _ _ => s.Makes g target.type
  | _ => True

theorem makesKept_empty (s : Session) (g : Supply) : s.MakesKept g {} :=
  ⟨by simp, by simp⟩

theorem MakesKept.later {nodes : List NodeId} {s' : Session} {kept : Kept}
    (h : s.MakesKept g kept) (hm : Moves nodes s s') : s'.MakesKept g kept :=
  ⟨fun t ht => (h.key t ht).later hm, fun t ht => (h.value t ht).later hm⟩

theorem MakesTarget.later {nodes : List NodeId} {s' : Session} {place : Place}
    (h : s.MakesTarget g place) (hm : Moves nodes s s') : s'.MakesTarget g place := by
  cases place with
  | field target id name optional =>
    cases target with
    | none => trivial
    | some target => exact Makes.later h hm
  | _ => trivial

theorem MadeFrom.makes_found (hs : s.MadeFrom g) (henv : env.MadeFrom g) {w : Work}
    (hw : w.Found env s.scopes) : ∀ t ∈ w.types, s.Makes g t := by
  cases w with
  | type t =>
    obtain ⟨value, rfl⟩ := hw
    exact List.forall_mem_singleton.2
      (s.makes_of_nil (Value.paramNames_type value) (Value.errors_type value))
  | «variable» v =>
    obtain ⟨name, hv⟩ := hw
    exact List.forall_mem_singleton.2 (hs.makes_variable henv hv)
  | message v =>
    obtain ⟨name, hv⟩ := hw
    exact List.forall_mem_singleton.2 (hs.makes_variable henv hv)
  | _ => exact List.forall_mem_nil _

theorem MadeFrom.work (hs : s.MadeFrom g) (henv : env.MadeFrom g) {scopes : ScopeStack}
    (id : NodeId) {kept : Kept} {w : Work} (hkept : s.MakesKept g kept)
    (hw : w.Found env scopes) (ht : ∀ t ∈ w.types, s.Makes g t) :
    (s.work env id kept w).MadeFrom g := by
  cases w with
  | nothing => exact hs
  | type t => exact hs.setType id (ht t List.mem_cons_self)
  | «variable» v => exact hs.setVariable id (ht v.type List.mem_cons_self)
  | undeclared name => exact hs.failNode id _
  | message v => exact (hs.enterMessage id (ht v.type List.mem_cons_self)).1
  | select operand field testOnly => exact hs.recordSelect henv id operand field testOnly
  | optionalSelect operand fieldId field =>
    exact hs.recordOptionalSelect henv id operand fieldId field
  | call f isMember args =>
    obtain ⟨name, hf⟩ := hw
    exact hs.resolveCall env id (Environment.of_function? henv.functions hf) isMember args
  | list => exact hs.recordList id hkept.value
  | map => exact hs.recordMap id hkept.key hkept.value
  | loop result => exact hs.exitLoop id result

theorem MadeFrom.settle (hs : s.MadeFrom g) (henv : env.MadeFrom g) (node : NodeId) {kept : Kept}
    {place : Place} (hkept : s.MakesKept g kept) (htarget : s.MakesTarget g place) :
    (s.settle env node kept place).2.MadeFrom g ∧
      (s.settle env node kept place).2.MakesKept g (s.settle env node kept place).1 := by
  have hkept' := hkept.later (s.moves_settle env node kept place)
  cases place with
  | plain => exact ⟨hs, hkept⟩
  | key =>
    have hjoin := hs.joinMember env node false hkept.key
    exact ⟨hjoin.session, fun t ht => Option.some.inj ht ▸ hjoin.type, hkept'.value⟩
  | value optional =>
    have hjoin := hs.joinMember env node optional hkept.value
    exact ⟨hjoin.session, hkept'.key, fun t ht => Option.some.inj ht ▸ hjoin.type⟩
  | field target id name optional =>
    refine ⟨hs.checkField henv (fun l hl => ?_) id name node optional, hkept'⟩
    cases hl
    exact htarget
  | start range iterVar iterVar2 accuVar =>
    have hinit := (hs.makes_typeOf node).later
      (s.moves_enterLoop range node iterVar iterVar2 accuVar)
    exact ⟨hs.enterLoop range node iterVar iterVar2 accuVar, hkept'.key,
      fun t ht => Option.some.inj ht ▸ hinit⟩
  | condition => exact ⟨hs.expectType node (s.makes_of_nil rfl rfl), hkept'⟩
  | step =>
    have hvalue : s.Makes g (kept.value.getD .dyn) := by
      cases h : kept.value with
      | none => exact s.makes_of_nil rfl rfl
      | some t => exact hkept.value t h
    exact ⟨(hs.expectType node hvalue).exitScope, hkept'⟩

end Session

theorem Members.madeFrom (henv : env.MadeFrom g) {R : Expr → Session → Expr → Session → Prop}
    (hmoves : ∀ {c c' t t'}, R c t c' t' → t.Moves c.ids t')
    (hR : ∀ {c c' t t'}, R c t c' t' → t.MadeFrom g → t'.MadeFrom g) {ms : List Member}
    {kept kept' : Kept} {s s' : Session} {es' : List Expr}
    (h : Members env R ms kept s es' kept' s') (hs : s.MadeFrom g) (hkept : s.MakesKept g kept)
    (htargets : ∀ m ∈ ms, s.MakesTarget g m.place) : s'.MadeFrom g ∧ s'.MakesKept g kept' := by
  induction h with
  | nil => exact ⟨hs, hkept⟩
  | @cons m ms _ _ kept _ s s₁ _ hd _ ih =>
    have hchild := hmoves hd
    obtain ⟨htarget, htargets⟩ := List.forall_mem_cons.1 htargets
    obtain ⟨hsettled, hkept⟩ := (hR hd hs).settle henv m.child.id (hkept.later hchild)
      (htarget.later hchild)
    refine ih hsettled hkept fun m' hm' => ?_
    exact ((htargets m' hm').later hchild).later (s₁.moves_settle env m.child.id kept m.place)

theorem Session.MadeFrom.makes_targets {s : Session} (hs : s.MadeFrom g) {id : NodeId} {w : Work}
    {kept : Kept} (ht : ∀ t ∈ w.types, s.Makes g t) {place : Place} (h : place.Aims id w) :
    (s.work env id kept w).MakesTarget g place := by
  cases place with
  | field target node name optional =>
    cases target with
    | none => trivial
    | some target =>
      obtain ⟨v, rfl, rfl⟩ := h
      have hmessage := (hs.enterMessage id (ht v.type List.mem_cons_self)).2
      rw [s.enterMessage_fst] at hmessage
      exact hmessage
  | _ => trivial

theorem Descends.madeFrom (henv : env.MadeFrom g) {e e' : Expr} {s s' : Session}
    (h : Descends env e s e' s') (hs : s.MadeFrom g) : s'.MadeFrom g := by
  induction h using Descends.course_induction with
  | limit _ => exact hs.failNode _ _
  | @node e _ s _ hlt hc =>
    cases hc with
    | @mk p _ kept _ s₁ hp hm =>
      have hfits := plan_fits hp
      have hopening := hs.deeper.makes_found henv hfits.opening_found
      have hclosing := hs.deeper.makes_found henv hfits.closing_found
      have hopened := hs.deeper.work henv e.id (s.deeper.makesKept_empty g) hfits.opening_found
        hopening
      obtain ⟨hs₁, hkept⟩ := hm.madeFrom henv (fun ⟨h, _⟩ => h.moves) (fun ⟨_, ih⟩ => ih) hopened
        (Session.makesKept_empty _ g)
        fun m hm => hs.deeper.makes_targets hopening (hfits.aims m hm)
      have hopens := s.deeper.moves_work env e.id {} p.opening
      have hmembers := hm.moves fun ⟨h, _⟩ => h.moves
      have hs' := hs₁.work henv e.id hkept hfits.closing_found
        fun t ht => ((hclosing t ht).later hopens).later hmembers
      exact ⟨hs'.types, hs'.scopes, hs'.bindings⟩

end Passes

end CelTyping
