import CelTyping.Registry.Catalogue
import CelTyping.Registry.Reflection
import Mathlib.Data.List.Induction
import Mathlib.Data.List.Nodup

/-! The two ways to the type of a field: by itself, or in the message that has it. A registry may
answer them apart, and the ones here do. Messages declared one by one replace those of the same
name, fields and all. Descriptors are asked for one field by its name, or for all fields, which
are then put into a table one after the other, so that of two fields of the same name the last
would stay. The answers are the same as long as no name is used twice in a message and the field
that is found by a name is the one listed under it. -/
namespace CelTyping

/-- The type of a field is the one in its message. -/
def Registry.Coherent (r : Registry) : Prop :=
  ∀ message field, r.fieldType? message field = (r.message? message).bind (·.field? field)

theorem Table.get?_foldl_insert {α β : Type} (key : β → String) (value : β → α) (xs : List β)
    (t : Table String α) (k : String) :
    (xs.foldl (fun t x => t.insert (key x) (value x)) t).get? k =
      ((xs.reverse.find? (key · == k)).map value).or (t.get? k) := by
  induction xs using List.reverseRecOn with
  | nil => rfl
  | append_singleton xs x ih =>
    rw [List.foldl_concat, List.reverse_concat, List.find?_cons]
    by_cases hk : key x = k
    · subst hk
      simp
    · have hne : (key x == k) = false := by simpa using hk
      rw [Table.get?_insert_of_ne _ _ (Ne.symm hk), ih, hne]

namespace Catalogue

theorem coherent_registry (c : Catalogue) : c.registry.Coherent := fun _ _ => rfl

theorem message?_foldl_addMessage (c : Catalogue) (added : List Message) (name : String) :
    (added.foldl addMessage c).message? name =
      (added.reverse.find? (·.name == name)).or (c.message? name) := by
  have hmessages : (added.foldl addMessage c).messages =
      added.foldl (fun t m => t.insert m.name m) c.messages := by
    induction added generalizing c with
    | nil => rfl
    | cons m added ih => exact ih (c.addMessage m)
  rw [message?, hmessages, Table.get?_foldl_insert Message.name (fun m => m), Option.map_id']
  rfl

end Catalogue

namespace Reflection

variable {M F E : Type} {r : Reflection M F E}

/-- No two fields of a message have the same name, and a field is found under its own. -/
structure Lawful (r : Reflection M F E) : Prop where
  unique_names : ∀ m, ((r.fields m).map r.fieldName).Nodup
  finds_listed : ∀ m name f, r.field? m name = some f ↔ f ∈ r.fields m ∧ r.fieldName f = name

theorem Lawful.find?_reverse (h : r.Lawful) (m : M) (name : String) :
    (r.fields m).reverse.find? (r.fieldName · == name) = r.field? m name := by
  cases hfound : r.field? m name with
  | none =>
    refine List.find?_eq_none.2 fun f hf hname => ?_
    have hsome : r.field? m name = some f :=
      (h.finds_listed m name f).2 ⟨List.mem_reverse.1 hf, beq_iff_eq.1 hname⟩
    rw [hfound] at hsome
    cases hsome
  | some f =>
    obtain ⟨hf, rfl⟩ := (h.finds_listed m name f).1 hfound
    cases hlast : (r.fields m).reverse.find? (r.fieldName · == r.fieldName f) with
    | none => exact absurd BEq.rfl (List.find?_eq_none.1 hlast f (List.mem_reverse.2 hf))
    | some f' =>
      have hf' : f' ∈ r.fields m := List.mem_reverse.1 (List.mem_of_find?_eq_some hlast)
      have hname : r.fieldName f' = r.fieldName f :=
        beq_iff_eq.1 (List.find?_some (p := (r.fieldName · == r.fieldName f)) hlast)
      rw [List.inj_on_of_nodup_map (h.unique_names m) hf' hf hname]

theorem Lawful.coherent_registry (h : r.Lawful) : r.registry.Coherent := by
  intro message field
  simp only [registry]
  cases r.message? message with
  | none => rfl
  | some m =>
    simp only [Option.bind_some, Option.map_some, Message.field?, Table.ofList, List.foldl_map]
    rw [Table.get?_foldl_insert r.fieldName r.typeOf, h.find?_reverse]
    exact Option.or_none.symm

end Reflection

/-- In every registry the type of a field is the one in its message: in one that messages were
added to, where the last message of a name counts, and in one over descriptors, whatever keeps
them, as long as the fields of a message have different names and are found by these. -/
theorem field_lookups_agree :
    (∀ (c : Catalogue) (added : List Message),
      (added.foldl Catalogue.addMessage c).registry.Coherent ∧
        ∀ name, (added.foldl Catalogue.addMessage c).registry.message? name =
          (added.reverse.find? (·.name == name)).or (c.message? name)) ∧
      ∀ {M F E : Type} (r : Reflection M F E), r.Lawful → r.registry.Coherent :=
  ⟨fun c added => ⟨Catalogue.coherent_registry _, c.message?_foldl_addMessage added⟩,
    fun _ hr => hr.coherent_registry⟩

section Samples

inductive AccountMessage where
  | account
  | labelsEntry

inductive AccountField where
  | id | tags | labels | parent | state | key | value
deriving DecidableEq

def accounts : Reflection AccountMessage AccountField Unit where
  message? name := if name = "acme.Account" then some .account else none
  messageName
    | .account => "acme.Account"
    | .labelsEntry => "acme.Account.LabelsEntry"
  fields
    | .account => [.id, .tags, .labels, .parent, .state]
    | .labelsEntry => [.key, .value]
  field?
    | .account, "id" => some .id
    | .account, "tags" => some .tags
    | .account, "labels" => some .labels
    | .account, "parent" => some .parent
    | .account, "state" => some .state
    | .labelsEntry, "key" => some .key
    | .labelsEntry, "value" => some .value
    | _, _ => none
  fieldName
    | .id => "id"
    | .tags => "tags"
    | .labels => "labels"
    | .parent => "parent"
    | .state => "state"
    | .key => "key"
    | .value => "value"
  kind
    | .id | .value => .int64
    | .tags | .key => .string
    | .labels => .message .labelsEntry
    | .parent => .message .account
    | .state => .enum ()
  isList := (· == .tags)
  isMap := (· == .labels)
  enum? name := if name = "acme.State" then some () else none
  enumName _ := "acme.State"
  number? _ value := if value = "CLOSED" then some 3 else none

theorem lawful_accounts : accounts.Lawful where
  unique_names m := by cases m <;> decide
  finds_listed m name f := by
    constructor
    · intro h
      simp only [accounts] at h
      split at h <;> cases h <;> decide
    · rintro ⟨hf, rfl⟩
      revert hf
      cases m <;> cases f <;> decide

theorem field_lookups_agree_account :
    accounts.Lawful ∧
      accounts.registry.fieldType? "acme.Account" "labels" = some (.map .string .int) ∧
      (accounts.registry.message? "acme.Account").bind (·.field? "labels") =
        some (.map .string .int) := by
  have htype : accounts.registry.fieldType? "acme.Account" "labels" =
      some (.map .string .int) := rfl
  exact ⟨lawful_accounts, htype,
    (field_lookups_agree.2 accounts lawful_accounts _ _).symm.trans htype⟩

end Samples

end CelTyping
