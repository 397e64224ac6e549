import CelTyping.Expr.Build
import CelTyping.Proofs.DottedNames
import CelTyping.Proofs.SelectionChains

/-! Dotted names as trees. A name is built as a chain of selections from its first segment, and
such chains are the trees that spell a name, namely their root and their fields with dots between
them. No segment is lost on the way, empty ones included, so that the name that was built is
spelled again. -/
namespace CelTyping

theorem Build.spelling?_selectAll (fields further : List String) (operand : Expr) (next : NodeId) :
    (StateT.run (selectAll operand fields) next).1.spelling? further =
      operand.spelling? (fields ++ further) := by
  induction fields generalizing operand next with
  | nil => rfl
  | cons field fields ih => exact ih (.select next operand field false) (next + 1)

namespace Expr

theorem exists_selections_of_spelling? {e : Expr} {fields : List String} {name : String}
    (h : e.spelling? fields = some name) :
    ∃ id root path, e = (Expr.ident id root).selections path ∧
      name = ".".intercalate (root :: (path.map Prod.snd ++ fields)) := by
  fun_induction Expr.spelling? fields e with
  | case1 fields id root =>
    cases h
    exact ⟨id, root, [], rfl, rfl⟩
  | case2 fields id operand field ih =>
    obtain ⟨first, root, path, rfl, rfl⟩ := ih h
    exact ⟨first, root, path ++ [(id, field)], (selections_concat _ _ _ _).symm, by simp⟩
  | case3 => cases h

end Expr

/-- The tree that is built for a name spells that name, whatever the next free id is. The trees
that spell a name at all are the chains of selections from one, without tests for presence, and
they spell their root and their fields in that order, with dots between them. -/
theorem flattening_undoes_building :
    (∀ name next, (StateT.run (Build.qualified name) next).1.qualifiedName? = some name) ∧
      ∀ e name, Expr.qualifiedName? e = some name ↔
        ∃ id root path, e = (Expr.ident id root).selections path ∧
          name = ".".intercalate (root :: path.map Prod.snd) := by
  refine ⟨fun name next => ?_, fun e name => ⟨fun h => ?_, ?_⟩⟩
  · have hspelling := Build.spelling?_selectAll (Name.segments name).tail []
      (.ident next ((Name.segments name).headD "")) (next + 1)
    obtain ⟨first, rest, hsegments⟩ := List.exists_cons_of_ne_nil (Name.segments_ne_nil name)
    have hname : ".".intercalate (first :: rest) = name := by
      rw [← hsegments, Name.intercalate_segments]
    rw [List.append_nil, Expr.spelling?, hsegments, List.headD_cons, List.tail_cons, hname]
      at hspelling
    rw [Build.qualified, hsegments]
    exact hspelling
  · obtain ⟨id, root, path, he, hname⟩ := Expr.exists_selections_of_spelling? h
    exact ⟨id, root, path, he, by rw [hname, List.append_nil]⟩
  · rintro ⟨id, root, path, rfl, rfl⟩
    exact Expr.qualifiedName?_selections id root path

end CelTyping
