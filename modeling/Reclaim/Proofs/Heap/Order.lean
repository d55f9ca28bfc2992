import Reclaim.Proofs.Heap.Contents

/-! The order of children. What a container reports of itself fits together, and a map reports its children by
ascending keys. A change of a list takes out one stretch of it and puts another in its place. -/

set_option autoImplicit false

namespace Reclaim

theorem compare_key_lt {key other : Key} : compare key other = .lt ↔ key < other := by
  rw [List.compare_eq_compareLex]
  induction key generalizing other with
  | nil => cases other <;> simp [List.compareLex_nil_nil, List.compareLex_nil_cons]
  | cons byte rest ih =>
    cases other with
    | nil => simp [List.compareLex_cons_nil]
    | cons first others =>
      rw [List.compareLex_cons_cons, Ordering.then_eq_lt, ih, List.cons_lt_cons_iff, Std.compare_eq_lt,
        Std.compare_eq_iff_eq]

/-- A stretch of a list has been taken out, and another one stands in its place. -/
def Splices (before lost gained after : List Value) : Prop :=
  ∃ front back, before = front ++ (lost ++ back) ∧ after = front ++ (gained ++ back)

theorem splices_refl (items : List Value) : Splices items [] [] items :=
  ⟨items, [], by simp, by simp⟩

theorem splices_whole (items : List Value) : Splices items items [] [] :=
  ⟨[], [], by simp, by simp⟩

section

variable {items : List Value} {index : Nat}

theorem splices_append (item : Value) : Splices items [] [item] (items ++ [item]) :=
  ⟨items, [], by simp, by simp⟩

theorem eq_take_append_drop (inside : index < items.length) :
    items = items.take index ++ ([items[index]] ++ items.drop (index + 1)) := by
  rw [List.singleton_append, ← List.drop_eq_getElem_cons inside, List.take_append_drop]

theorem splices_set (inside : index < items.length) (item : Value) :
    Splices items [items[index]] [item] (items.set index item) := by
  refine ⟨items.take index, items.drop (index + 1), eq_take_append_drop inside, ?_⟩
  rw [List.set_eq_take_append_cons_drop, if_pos inside, List.singleton_append]

theorem splices_eraseIdx (inside : index < items.length) :
    Splices items [items[index]] [] (items.eraseIdx index) := by
  refine ⟨items.take index, items.drop (index + 1), eq_take_append_drop inside, ?_⟩
  rw [List.eraseIdx_eq_take_drop_succ, List.nil_append]

end

namespace Container

structure Reports (container : Container) : Prop where
  length : container.length = container.children.length
  /-- Children of a map come by ascending keys. -/
  ascending : container.kind = .map → ∃ items : List (Key × Value),
    container.children = items.map (·.2) ∧ items.Pairwise (·.1 < ·.1) ∧
      ∀ key value, container.lookup? key = some value ↔ (key, value) ∈ items

theorem reports (container : Container) : container.Reports where
  length := container.length_children.symm
  ascending mapped := by
    cases container with
    | list kind items => cases mapped
    | map entries =>
      refine ⟨entries.toList, rfl, ?_, fun key value => ?_⟩
      · exact Std.ExtTreeMap.ordered_keys_toList.imp fun earlier => compare_key_lt.mp earlier
      · exact Std.ExtTreeMap.mem_toList_iff_getElem?_eq_some.symm

end Container

end Reclaim
