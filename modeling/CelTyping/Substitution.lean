import CelTyping.Proofs.Matching

/-! Bindings that never run in a circle, which is what a checking pass works with. It
starts from none and changes them by matching only. -/
namespace CelTyping

structure Substitution where
  bindings : Bindings
  acyclic : bindings.Acyclic

namespace Substitution

instance : EmptyCollection Substitution := ⟨∅, Bindings.acyclic_empty⟩

instance : Inhabited Substitution := ⟨∅⟩

def assignable? (m : Substitution) (a b : Ty) : Option Substitution :=
  (m.bindings.assignable? a b).pmap Substitution.mk fun _ h =>
    (Bindings.Matches.of_assignable h).acyclic m.acyclic

def assignableAll? (m : Substitution) (as bs : List Ty) : Option Substitution :=
  (m.bindings.assignableAll? as bs).pmap Substitution.mk fun _ h =>
    (Bindings.MatchesAll.of_assignableAll h).acyclic m.acyclic

def substitute (m : Substitution) (t : Ty) (close : Bool) : Ty :=
  m.bindings.substitute t close

@[simp] theorem bindings_assignable? (m : Substitution) (a b : Ty) :
    (m.assignable? a b).map bindings = m.bindings.assignable? a b := by
  simp [assignable?, Option.map_pmap]

@[simp] theorem bindings_assignableAll? (m : Substitution) (as bs : List Ty) :
    (m.assignableAll? as bs).map bindings = m.bindings.assignableAll? as bs := by
  simp [assignableAll?, Option.map_pmap]

theorem matches_of_assignable {m m' : Substitution} {a b : Ty} (h : m.assignable? a b = some m') :
    Bindings.Matches m.bindings a b m'.bindings := by
  refine .of_assignable ?_
  rw [← bindings_assignable?, h, Option.map_some]

theorem matchesAll_of_assignableAll {m m' : Substitution} {as bs : List Ty}
    (h : m.assignableAll? as bs = some m') :
    Bindings.MatchesAll m.bindings as bs m'.bindings := by
  refine .of_assignableAll ?_
  rw [← bindings_assignableAll?, h, Option.map_some]

end Substitution

end CelTyping
