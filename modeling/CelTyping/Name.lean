/-! Dotted names. A name is cut into segments at its dots, or in two at the last of them. Any
segment may be empty, so every string is a name. -/
namespace CelTyping.Name

def extend (name segment : String) : String := name ++ "." ++ segment

def segments (name : String) : List String := (name.split '.').toList.map String.Slice.copy

theorem intercalate_concat (first : String) (rest : List String) (last : String) :
    ".".intercalate (first :: (rest ++ [last])) =
      extend (".".intercalate (first :: rest)) last := by
  rw [← List.cons_append,
    String.intercalate_append_of_ne_nil (List.cons_ne_nil _ _) (List.cons_ne_nil _ _),
    String.intercalate_singleton, extend]

/-- What follows a leading dot, which marks a name that starts at the root. -/
def rooted? (name : String) : Option String :=
  match name.toList with
  | '.' :: cs => some (String.ofList cs)
  | _ => none

def isSimple (name : String) : Bool := name != "" && !name.toList.contains '.'

def splitLast? (name : String) : Option (String × String) :=
  match name.toList.reverse.dropWhile (· != '.') with
  | [] => none
  | _ :: front =>
    let last := name.toList.reverse.takeWhile (· != '.')
    some (String.ofList front.reverse, String.ofList last.reverse)

theorem eq_extend_of_splitLast? {name front last : String}
    (h : splitLast? name = some (front, last)) : name = extend front last := by
  unfold splitLast? at h
  split at h
  next => cases h
  next dot front hdrop =>
    cases h
    have hdot : dot = '.' := by
      have hhead := List.head?_dropWhile_not (· != '.') name.toList.reverse
      simpa [hdrop] using hhead
    have hcut := List.takeWhile_append_dropWhile (p := (· != '.')) (l := name.toList.reverse)
    rw [hdrop, hdot] at hcut
    apply String.toList_inj.1
    calc name.toList = (name.toList.reverse.takeWhile (· != '.') ++ '.' :: front).reverse := by
          rw [hcut, List.reverse_reverse]
      _ = _ := by simp [extend]

@[simp] theorem length_extend (name segment : String) :
    (extend name segment).length = name.length + 1 + segment.length := by
  rw [extend, String.length_append, String.length_append]
  rfl

theorem length_lt_of_splitLast? {name front last : String}
    (h : splitLast? name = some (front, last)) : front.length < name.length := by
  rw [eq_extend_of_splitLast? h, length_extend]
  omega

/-- A namespace and the ones around it, innermost first: what is left of it each time that it is
cut at its last dot. -/
def enclosing (ns : String) : List String :=
  match h : splitLast? ns with
  | some (outer, _) =>
    have := length_lt_of_splitLast? h
    ns :: enclosing outer
  | none => [ns]
termination_by ns.length

end CelTyping.Name
