import CelTyping.Environment
import Mathlib.Data.List.TakeWhile
import Mathlib.Data.List.Nodup

/-! The names that a name may stand for. Inside a container they are the name behind the container
and behind each namespace around it, and then the name alone. The namespaces are what is left of
the container when segments are taken off its end, down to the first segment, which may be empty
like any other. Each time the name gets shorter, so none of them comes twice. -/
namespace CelTyping

namespace Name

theorem segments_eq_splitOn (name : String) :
    segments name = (name.toList.splitOn '.').map String.ofList :=
  String.toList_split_char

theorem segments_ne_nil (name : String) : segments name ≠ [] := by
  simp [segments_eq_splitOn]

@[simp] theorem intercalate_segments (name : String) : ".".intercalate (segments name) = name := by
  apply String.toList_inj.1
  rw [segments_eq_splitOn, String.toList_intercalate]
  simp [Function.comp_def]

theorem segments_of_not_mem {name : String} (h : '.' ∉ name.toList) : segments name = [name] := by
  rw [segments_eq_splitOn, List.splitOn_eq_singleton h]
  simp

theorem segments_extend (name : String) {last : String} (h : '.' ∉ last.toList) :
    segments (extend name last) = segments name ++ [last] := by
  have hlist : (extend name last).toList = name.toList ++ '.' :: last.toList := by simp [extend]
  rw [segments_eq_splitOn, hlist, List.splitOn_append_cons_self, List.splitOn_eq_singleton h,
    List.map_append, ← segments_eq_splitOn]
  simp

theorem head?_segments (name : String) :
    (segments name).head? = some (String.ofList (name.toList.takeWhile (· != '.'))) := by
  rw [segments_eq_splitOn, List.head?_map]
  induction name.toList with
  | nil => rfl
  | cons c cs ih =>
    rw [List.splitOn_cons_eq_if_modifyHead, List.takeWhile_cons]
    by_cases hc : c = '.'
    · simp [hc]
    · obtain ⟨first, rest, hsplit⟩ := List.exists_cons_of_ne_nil (List.splitOn_ne_nil '.' cs)
      rw [hsplit] at ih ⊢
      simp_all [String.ofList_cons]

section Enclosing

theorem not_mem_of_splitLast?_eq_none {name : String} (h : splitLast? name = none) :
    '.' ∉ name.toList := by
  unfold splitLast? at h
  split at h
  next hdrop =>
    intro hmem
    simpa using List.dropWhile_eq_nil_iff.1 hdrop '.' (List.mem_reverse.2 hmem)
  next => cases h

theorem not_mem_of_splitLast? {name front last : String}
    (h : splitLast? name = some (front, last)) : '.' ∉ last.toList := by
  unfold splitLast? at h
  split at h
  next => cases h
  next =>
    cases h
    intro hmem
    rw [String.toList_ofList, List.mem_reverse] at hmem
    simpa using List.mem_takeWhile_imp hmem

theorem enclosing_eq_map_take (ns : String) :
    enclosing ns = (List.range' 1 (segments ns).length).reverse.map fun k =>
      ".".intercalate ((segments ns).take k) := by
  fun_induction enclosing ns with
  | case1 ns outer last h _ ih =>
    have hsegments : segments ns = segments outer ++ [last] := by
      rw [eq_extend_of_splitLast? h, segments_extend outer (not_mem_of_splitLast? h)]
    have hfewer : ∀ k ∈ (List.range' 1 (segments outer).length).reverse,
        (segments ns).take k = (segments outer).take k := by
      intro k hk
      have hk' := List.mem_range'_1.1 (List.mem_reverse.1 hk)
      rw [hsegments]
      exact List.take_append_of_le_length (by omega)
    have hall : (segments ns).take ((segments outer).length + 1) = segments ns :=
      List.take_of_length_le (by simp [hsegments])
    have hlength : (segments ns).length = (segments outer).length + 1 := by simp [hsegments]
    rw [hlength, List.range'_1_concat, List.reverse_concat, List.map_cons, Nat.add_comm 1, hall,
      intercalate_segments, ih]
    congr 1
    exact List.map_congr_left fun k hk => by rw [hfewer k hk]
  | case2 ns h => simp [segments_of_not_mem (not_mem_of_splitLast?_eq_none h)]

theorem length_le_of_mem_enclosing {ns outer : String} (h : outer ∈ enclosing ns) :
    outer.length ≤ ns.length := by
  fun_induction enclosing ns with
  | case1 ns front last hsplit hlt ih =>
    rcases List.mem_cons.1 h with rfl | h
    · exact Nat.le_refl _
    · exact (ih h).trans hlt.le
  | case2 ns hsplit =>
    cases List.mem_singleton.1 h
    exact Nat.le_refl _

theorem pairwise_length_enclosing (ns : String) :
    (enclosing ns).Pairwise fun a b => b.length < a.length := by
  fun_induction enclosing ns with
  | case1 ns front last hsplit hlt ih =>
    exact List.pairwise_cons.2
      ⟨fun outer houter => (length_le_of_mem_enclosing houter).trans_lt hlt, ih⟩
  | case2 ns hsplit => exact List.pairwise_singleton _ _

end Enclosing

theorem rooted?_eq_none {name : String} (h : name.startsWith '.' = false) :
    rooted? name = none := by
  rw [String.startsWith_char_eq_head?] at h
  unfold rooted?
  split
  next heq => simp [heq] at h
  next => rfl

end Name

namespace Container

variable {c : Container} {name : String}

theorem expandAlias?_eq_none
    (h : ∀ first ∈ (Name.segments name).head?, c.aliases.get? first = none) :
    c.expandAlias? name = none := by
  simp only [expandAlias?, h _ (Name.head?_segments name), Option.map_none]

theorem candidates_eq_enclosing (hname : c.name ≠ "") (hroot : name.startsWith '.' = false)
    (halias : ∀ first ∈ (Name.segments name).head?, c.aliases.get? first = none) :
    c.candidates name = (Name.enclosing c.name).map (Name.extend · name) ++ [name] := by
  simp only [candidates, Name.rooted?_eq_none hroot, expandAlias?_eq_none halias, if_neg hname]

theorem nodup_extend_enclosing (ns name : String) :
    ((Name.enclosing ns).map (Name.extend · name) ++ [name]).Nodup := by
  have hpairwise : ((Name.enclosing ns).map (Name.extend · name) ++ [name]).Pairwise
      fun a b => b.length < a.length := by
    refine List.pairwise_append.2 ⟨List.pairwise_map.2 ?_, List.pairwise_singleton _ _, ?_⟩
    · refine (Name.pairwise_length_enclosing ns).imp fun hlt => ?_
      rw [Name.length_extend, Name.length_extend]
      omega
    · intro a ha b hb
      obtain ⟨ns, -, rfl⟩ := List.mem_map.1 ha
      cases List.mem_singleton.1 hb
      rw [Name.length_extend]
      omega
  exact hpairwise.imp fun hlt heq => by simp [heq] at hlt

end Container

/-- In a container with a name, a name that is neither rooted nor aliased may stand for itself
behind all segments of the container, behind all but the last, and so on down to the first alone,
and at last for itself alone. These are different names, and a function that is called by the
name is the one that is declared under the first of them under which there is one. -/
theorem candidates_innermost_first (c : Container) (name : String) (hname : c.name ≠ "")
    (hroot : name.startsWith '.' = false)
    (halias : ∀ first ∈ (Name.segments name).head?, c.aliases.get? first = none) :
    c.candidates name =
        ((List.range' 1 (Name.segments c.name).length).reverse.map fun k =>
          ".".intercalate ((Name.segments c.name).take k) ++ "." ++ name) ++ [name] ∧
      (c.candidates name).Nodup ∧
      ∀ env : Environment, env.container = c → ∀ f, env.function? name = some f ↔
        ∃ before candidate after, c.candidates name = before ++ candidate :: after ∧
          env.functions.get? candidate = some f ∧
          ∀ earlier ∈ before, env.functions.get? earlier = none := by
  rw [Container.candidates_eq_enclosing hname hroot halias]
  refine ⟨?_, Container.nodup_extend_enclosing _ _, ?_⟩
  · rw [Name.enclosing_eq_map_take, List.map_map]
    rfl
  · rintro env rfl f
    rw [Environment.function?, Container.candidates_eq_enclosing hname hroot halias]
    exact List.findSome?_eq_some_iff

def emptySegments : Environment :=
  ((Environment.empty.withContainer "a..b.").withFunction { name := "R.s" }).withFunction
    { name := "a..R.s" }

theorem candidates_innermost_first_emptySegments :
    emptySegments.container.candidates "R.s" =
        ["a..b..R.s", "a..b.R.s", "a..R.s", "a.R.s", "R.s"] ∧
      emptySegments.function? "R.s" = some { name := "a..R.s" } := by
  have hsegments : Name.segments emptySegments.container.name = ["a", "", "b", ""] := by
    rw [Name.segments_eq_splitOn]
    decide
  obtain ⟨hcandidates, -, hfunction⟩ :=
    candidates_innermost_first emptySegments.container "R.s" (by decide)
      (by rw [String.startsWith_char_eq_head?]; decide) fun _ _ => rfl
  rw [hsegments] at hcandidates
  refine ⟨hcandidates, (hfunction emptySegments rfl _).2 ?_⟩
  refine ⟨["a..b..R.s", "a..b.R.s"], "a..R.s", ["a.R.s", "R.s"], hcandidates, ?_, ?_⟩
  · exact Table.get?_insert_self _ _ _
  · exact List.forall_mem_cons.2 ⟨rfl, List.forall_mem_singleton.2 rfl⟩

end CelTyping
