import Mathlib.Algebra.GroupWithZero.Nat
import Mathlib.Data.List.Perm.Basic
import Mathlib.Logic.Relation
import Reclaim.Heap.Basic
import Reclaim.Proofs.Maps

/-! What containers contain. Every operation on a container trades children: those it gains and
those it loses account for the difference of its contents. A heap is well formed when identities
tell its values apart and all children exist. -/

set_option autoImplicit false

namespace Reclaim

namespace Container

variable {container next : Container} {item old : Value} {index : Nat} {key : Key}

/-- The contents before and after a change, and the children gained and lost by it. -/
def Trades (before after : Container) (gains losses : List Value) : Prop :=
  (losses ++ after.children).Perm (gains ++ before.children)

theorem trades_push? (pushed : container.push? item = some next) :
    container.Trades next [item] [] := by
  cases container with
  | list kind items =>
    cases pushed
    exact (List.perm_append_comm : (items ++ [item]).Perm ([item] ++ items))
  | map entries => cases pushed

theorem trades_set? (replaced : container.set? index item = some (old, next)) :
    container.Trades next [item] [old] := by
  cases container with
  | list kind items =>
    obtain ⟨found, present, same⟩ := Option.map_eq_some_iff.mp replaced
    cases same
    obtain ⟨below, rfl⟩ := List.getElem?_eq_some_iff.mp present
    exact (List.set_perm_cons_eraseIdx below item).cons _ |>.trans
      ((List.Perm.swap _ _ _).trans ((List.getElem_cons_eraseIdx_perm below).cons item))
  | map entries => cases replaced

theorem trades_remove? (removed : container.remove? index = some (old, next)) :
    container.Trades next [] [old] := by
  cases container with
  | list kind items =>
    obtain ⟨found, present, same⟩ := Option.map_eq_some_iff.mp removed
    cases same
    obtain ⟨below, rfl⟩ := List.getElem?_eq_some_iff.mp present
    exact List.getElem_cons_eraseIdx_perm below
  | map entries => cases removed

theorem trades_removeKey? (removed : container.removeKey? key = some (old, next)) :
    container.Trades next [] [old] := by
  cases container with
  | list kind items => cases removed
  | map entries =>
    obtain ⟨found, present, same⟩ := Option.map_eq_some_iff.mp removed
    cases same
    exact ((toList_perm_erase present).map (·.2)).symm

theorem trades_insert? {replaced : Option Value}
    (inserted : container.insert? key item = some (replaced, next)) :
    container.Trades next [item] replaced.toList := by
  cases container with
  | list kind items => cases inserted
  | map entries =>
    cases inserted
    -- Before and after, the map consists of the entry at the key, if there is one, and of the same rest.
    have present : (entries.insert key item)[key]? = some item := by simp
    have rest : (entries.insert key item).erase key = entries.erase key := by
      apply Std.ExtTreeMap.ext_getElem?
      intro other
      simp only [Std.ExtTreeMap.getElem?_erase, Std.ExtTreeMap.getElem?_insert]
      split <;> rfl
    have after := (toList_perm_erase present).map (·.2)
    rw [rest] at after
    refine (after.append_left _).trans ?_
    cases before : entries[key]? with
    | none =>
      have unchanged : entries.erase key = entries := by
        apply Std.ExtTreeMap.ext_getElem?
        intro other
        simp only [Std.ExtTreeMap.getElem?_erase, Std.compare_eq_iff_eq]
        split
        next here => rw [← here, before]
        next => rfl
      rw [unchanged]
      exact .refl _
    | some old =>
      have whole := (toList_perm_erase before).map (·.2)
      exact (List.Perm.swap _ _ _).trans (whole.symm.cons item)

theorem trades_clear : container.Trades container.clear [] container.children := by
  simp [Trades]

theorem Trades.refl (container : Container) : container.Trades container [] [] := List.Perm.refl _

theorem Trades.trans {last : Container} {gains losses more fewer : List Value}
    (first : container.Trades next gains losses) (second : next.Trades last more fewer) :
    container.Trades last (gains ++ more) (losses ++ fewer) :=
  calc losses ++ fewer ++ last.children
      = losses ++ (fewer ++ last.children) := List.append_assoc _ _ _
    List.Perm _ (losses ++ (more ++ next.children)) := second.append_left losses
    List.Perm _ (more ++ (losses ++ next.children)) := List.perm_append_comm_assoc _ _ _
    List.Perm _ (more ++ (gains ++ container.children)) := first.append_left more
    List.Perm _ (gains ++ (more ++ container.children)) := List.perm_append_comm_assoc _ _ _
    _ = gains ++ more ++ container.children := (List.append_assoc _ _ _).symm

theorem Trades.mem {gains losses : List Value} {child : Value} (trades : container.Trades next gains losses)
    (member : child ∈ next.children) : child ∈ gains ∨ child ∈ container.children :=
  List.mem_append.mp (trades.mem_iff.mp (List.mem_append_right losses member))

theorem mem_of_get?
    (read : container.get? index = some item) : item ∈ container.children := by
  cases container with
  | list kind items => exact List.mem_of_getElem? read
  | map entries => cases read

theorem mem_of_lookup?
    (read : container.lookup? key = some item) : item ∈ container.children := by
  cases container with
  | list kind items => cases read
  | map entries =>
    exact List.mem_map.mpr ⟨(key, item), Std.ExtTreeMap.mem_toList_iff_getElem?_eq_some.mpr read, rfl⟩

theorem map_set? (container : Container) (index : Nat) (item : Value) :
    (container.set? index item).map Prod.fst = container.get? index := by
  cases container with
  | list kind items => simp [set?, get?, Function.comp_def]
  | map entries => rfl

theorem map_remove? (container : Container) (index : Nat) :
    (container.remove? index).map Prod.fst = container.get? index := by
  cases container with
  | list kind items => simp [remove?, get?, Function.comp_def]
  | map entries => rfl

theorem map_removeKey? (container : Container) (key : Key) :
    (container.removeKey? key).map Prod.fst = container.lookup? key := by
  cases container with
  | list kind items => rfl
  | map entries => simp [removeKey?, lookup?, Function.comp_def]

end Container

namespace Heap

variable {heap other : Heap} {created : Nat} {id : Ident} {container : Container} {owner ref : Ref}

def Contains (heap : Heap) (owner child : Ref) : Prop := .shared child ∈ heap.children owner

abbrev Leads (heap : Heap) : Ref → Ref → Prop := Relation.ReflTransGen heap.Contains

theorem holds_of_mem_children {child : Value} (member : child ∈ heap.children owner) :
    heap.holds (.shared owner) := by
  cases owner with
  | container id =>
    cases found : heap.containers[id]? with
    | none =>
      rw [children, Heap.container, Std.ExtTreeMap.getD_eq_getD_getElem?, found] at member
      simp at member
    | some container =>
      rw [holds, Std.ExtTreeMap.contains_eq_isSome_getElem?, found]
      rfl
  | buffer id => simp [children] at member

structure Formed (heap : Heap) (created : Nat) : Prop where
  lt : ∀ ref, heap.holds (.shared ref) → ref.id < created
  inj : ∀ ref other, heap.holds (.shared ref) → heap.holds (.shared other) → ref.id = other.id →
    ref = other
  children_held : ∀ owner, ∀ child ∈ heap.children owner, heap.holds child

theorem children_setContainer : (heap.setContainer id container).children owner =
    if owner = .container id then container.children else heap.children owner := by
  cases owner with
  | container other =>
    simp only [children, container_setContainer, Ref.container.injEq]
    by_cases here : id = other
    · rw [if_pos here, if_pos here.symm]
    · rw [if_neg here, if_neg (Ne.symm here)]
  | buffer other => simp [children]

theorem children_setBuffer {buffer : Buffer} : (heap.setBuffer id buffer).children owner =
    heap.children owner := by
  cases owner <;> rfl

theorem holds_setContainer (value : Value) : (heap.setContainer id container).holds value =
    (decide (value = .shared (.container id)) || heap.holds value) := by
  match value with
  | .scalar atom => simp [holds]
  | .shared (.container other) =>
    simp [holds, setContainer, Std.ExtTreeMap.contains_insert, Bool.beq_eq_decide_eq, @eq_comm _ other]
  | .shared (.buffer other) => simp [holds, setContainer]

theorem holds_setBuffer {buffer : Buffer} (value : Value) : (heap.setBuffer id buffer).holds value =
    (decide (value = .shared (.buffer id)) || heap.holds value) := by
  match value with
  | .scalar atom => simp [holds]
  | .shared (.buffer other) =>
    simp [holds, setBuffer, Std.ExtTreeMap.contains_insert, Bool.beq_eq_decide_eq, @eq_comm _ other]
  | .shared (.container other) => simp [holds, setBuffer]

namespace Formed

theorem congr (formed : heap.Formed created) (same : ∀ value, other.holds value = heap.holds value)
    (children : ∀ owner, ∀ child ∈ other.children owner, heap.holds child) : other.Formed created where
  lt ref held := formed.lt ref ((same _).symm.trans held)
  inj ref ref' held held' :=
    formed.inj ref ref' ((same _).symm.trans held) ((same _).symm.trans held')
  children_held owner child member := (same child).trans (children owner child member)

/-- Among existing values, identities are as good as the values. -/
theorem id?_iff {value : Value} (formed : heap.Formed created) (held : heap.holds value)
    (present : heap.holds (.shared ref)) : value.id? = some ref.id ↔ value = .shared ref := by
  cases value with
  | scalar atom => simp [Value.id?]
  | shared other =>
    rw [Value.id?, Value.ref?_shared, Option.map_some, Option.some.injEq, Value.shared.injEq]
    exact ⟨formed.inj other ref held present, congrArg Ref.id⟩

theorem setContainer (formed : heap.Formed created) (present : heap.holds (.shared (.container id)))
    (children : ∀ child ∈ container.children, heap.holds child) :
    (heap.setContainer id container).Formed created := by
  refine formed.congr (fun value => ?_) fun owner child member => ?_
  · rw [holds_setContainer]
    by_cases here : value = .shared (.container id) <;> simp [here, present]
  · rw [children_setContainer] at member
    split at member
    · exact children child member
    · exact formed.children_held owner child member

theorem trade {gains losses : List Value} (formed : heap.Formed created)
    (present : heap.holds (.shared (.container id))) (gained : ∀ value ∈ gains, heap.holds value)
    (trades : (heap.container id).Trades container gains losses) :
    (heap.setContainer id container).Formed created :=
  formed.setContainer present fun child member =>
    (trades.mem member).elim (gained child) (formed.children_held (.container id) child)

theorem setBuffer {buffer : Buffer} (formed : heap.Formed created)
    (present : heap.holds (.shared (.buffer id))) : (heap.setBuffer id buffer).Formed created := by
  refine formed.congr (fun value => ?_) fun owner child member => ?_
  · rw [holds_setBuffer]
    by_cases here : value = .shared (.buffer id) <;> simp [here, present]
  · rw [children_setBuffer] at member
    exact formed.children_held owner child member

theorem make {next : Heap} {ref : Ref} (formed : heap.Formed created) (fresh : ref.id = created)
    (holds : ∀ value, next.holds value = (decide (value = .shared ref) || heap.holds value))
    (children : ∀ owner, ∀ child ∈ next.children owner, child ∈ heap.children owner) :
    next.Formed (created + 1) where
  lt other held := by
    rw [holds, Bool.or_eq_true, decide_eq_true_iff, Value.shared.injEq] at held
    rcases held with rfl | held
    · exact Nat.lt_succ_of_le (Nat.le_of_eq fresh)
    · exact Nat.lt_succ_of_lt (formed.lt other held)
  inj first second held held' same := by
    rw [holds, Bool.or_eq_true, decide_eq_true_iff, Value.shared.injEq] at held held'
    rcases held with rfl | held <;> rcases held' with rfl | held'
    · rfl
    · exact absurd (same.symm.trans fresh) (Nat.ne_of_lt (formed.lt second held'))
    · exact absurd (same.trans fresh) (Nat.ne_of_lt (formed.lt first held))
    · exact formed.inj first second held held' same
  children_held owner child member := by
    rw [holds, formed.children_held owner child (children owner child member), Bool.or_true]

end Formed

variable {refs others : List Ref}

def childTotal (heap : Heap) (refs : List Ref) : Nat :=
  refs.foldr (fun ref more => heap.childCount ref + more) 0

theorem childTotal_nil : heap.childTotal [] = 0 := rfl

theorem childTotal_cons :
    heap.childTotal (ref :: refs) = heap.childCount ref + heap.childTotal refs := rfl

theorem childTotal_eq_sum : heap.childTotal refs = (refs.map heap.childCount).sum := by
  induction refs with
  | nil => rfl
  | cons ref rest ih => rw [childTotal_cons, ih, List.map_cons, List.sum_cons]

theorem childTotal_append :
    heap.childTotal (refs ++ others) = heap.childTotal refs + heap.childTotal others := by
  induction refs with
  | nil => rw [List.nil_append, childTotal_nil, Nat.zero_add]
  | cons ref rest ih => rw [List.cons_append, childTotal_cons, childTotal_cons, ih, Nat.add_assoc]

theorem childTotal_congr (same : ∀ ref ∈ refs, heap.childCount ref = other.childCount ref) :
    heap.childTotal refs = other.childTotal refs := by
  induction refs with
  | nil => rfl
  | cons ref rest ih =>
    obtain ⟨here, later⟩ := List.forall_mem_cons.mp same
    rw [childTotal_cons, childTotal_cons, here, ih later]

theorem childTotal_perm (perm : refs.Perm others) : heap.childTotal refs = heap.childTotal others := by
  induction perm with
  | nil => rfl
  | cons ref _ ih => rw [childTotal_cons, childTotal_cons, ih]
  | swap first second rest =>
    simp only [childTotal_cons]
    omega
  | trans _ _ ih ih' => exact ih.trans ih'

theorem childTotal_le (nodup : refs.Nodup) (included : ∀ ref ∈ refs, ref ∈ others) :
    heap.childTotal refs ≤ heap.childTotal others := by
  obtain ⟨listed, perm, sublist⟩ := List.subperm_of_subset nodup included
  rw [← childTotal_perm perm]
  clear perm nodup included
  -- Along a sublist each value is left out or kept.
  induction sublist with
  | slnil => exact Nat.le_refl _
  | cons ref _ ih => exact Nat.le_trans ih (Nat.le_add_left _ _)
  | cons_cons ref _ ih => exact Nat.add_le_add_left ih _

theorem childCount_le_childTotal (heap : Heap) (member : ref ∈ refs) :
    heap.childCount ref ≤ heap.childTotal refs :=
  childTotal_le (List.pairwise_singleton _ ref) (List.forall_mem_singleton.mpr member)

theorem childTotal_eq_zero (childless : ∀ ref ∈ refs, heap.childCount ref = 0) :
    heap.childTotal refs = 0 := by
  induction refs with
  | nil => rfl
  | cons ref rest ih =>
    obtain ⟨here, later⟩ := List.forall_mem_cons.mp childless
    rw [childTotal_cons, here, ih later]

end Heap

end Reclaim
