import Mathlib.Data.List.InsertIdx
import Reclaim.Proofs.Maps
import Reclaim.Replay.Fault
import Reclaim.Heap.Basic

/-! Values under other identities. What containers do with their children does not depend on the identities
of these, and a heap under other identities shows the same children, as long as the identities of the values
that matter stay apart. -/

set_option autoImplicit false

namespace Reclaim

variable {move : Ident → Ident}

def Ref.rename (move : Ident → Ident) : Ref → Ref
  | .container id => .container (move id)
  | .buffer id => .buffer (move id)

def Value.rename (move : Ident → Ident) : Value → Value
  | .scalar atom => .scalar atom
  | .shared ref => .shared (ref.rename move)

def Container.rename (move : Ident → Ident) : Container → Container
  | .list kind items => .list kind (items.map (·.rename move))
  | .map entries => .map (entries.map fun _ item => item.rename move)

@[simp] theorem Ref.id_rename (ref : Ref) : (ref.rename move).id = move ref.id := by
  cases ref <;> rfl

namespace Value

variable {value : Value}

@[simp] theorem id?_rename : (value.rename move).id? = value.id?.map move := by
  cases value with
  | scalar atom => rfl
  | shared ref => exact congrArg some (Ref.id_rename ref)

def Among (known : Ref → Prop) : Value → Prop
  | .scalar _ => True
  | .shared ref => known ref

theorem among_iff {known : Ref → Prop} :
    value.Among known ↔ ∀ ref, value = .shared ref → known ref := by
  cases value with
  | scalar atom => exact ⟨fun _ _ same => (nomatch same), fun _ => trivial⟩
  | shared ref => exact ⟨fun here _ same => Value.shared.inj same ▸ here, fun all => all ref rfl⟩

theorem Among.mono {known more : Ref → Prop} (among : value.Among known)
    (included : ∀ ref, known ref → more ref) : value.Among more :=
  among_iff.mpr fun ref same => included ref (among_iff.mp among ref same)

end Value

namespace Container

variable {container : Container} {item : Value} {index : Nat} {key : Key}

@[simp] theorem kind_rename : (container.rename move).kind = container.kind := by
  cases container <;> rfl

@[simp] theorem children_rename :
    (container.rename move).children = container.children.map (·.rename move) := by
  cases container with
  | list kind items => rfl
  | map entries => simp [children, Container.rename, Std.ExtTreeMap.toList_map]

theorem empty_rename (kind : Kind) : (empty kind).rename move = empty kind := by
  cases kind with
  | list kind => rfl
  | map =>
    refine congrArg Container.map (Std.ExtTreeMap.ext_getElem? fun key => ?_)
    simp

theorem clear_rename : (container.rename move).clear = container.clear.rename move := by
  rw [clear, kind_rename, clear, empty_rename]

theorem push?_rename : (container.rename move).push? (item.rename move) =
    (container.push? item).map (·.rename move) := by
  cases container with
  | list kind items => simp [push?, Container.rename]
  | map entries => rfl

theorem set?_rename : (container.rename move).set? index (item.rename move) =
    (container.set? index item).map (Prod.map (·.rename move) (·.rename move)) := by
  cases container with
  | list kind items =>
    simp only [set?, Container.rename, List.getElem?_map, Option.map_map]
    refine Option.map_congr fun old _ => ?_
    simp [List.map_set]
  | map entries => rfl

theorem remove?_rename : (container.rename move).remove? index =
    (container.remove? index).map (Prod.map (·.rename move) (·.rename move)) := by
  cases container with
  | list kind items =>
    simp only [remove?, Container.rename, List.getElem?_map, Option.map_map]
    refine Option.map_congr fun old _ => ?_
    simp [List.eraseIdx_map]
  | map entries => rfl

theorem insert?_rename : (container.rename move).insert? key (item.rename move) =
    (container.insert? key item).map (Prod.map (·.map (·.rename move)) (·.rename move)) := by
  cases container with
  | list kind items => rfl
  | map entries =>
    have inserted : (entries.map fun _ item => item.rename move).insert key (item.rename move) =
        (entries.insert key item).map fun _ item => item.rename move := by
      apply Std.ExtTreeMap.ext_getElem?
      intro other
      simp only [Std.ExtTreeMap.getElem?_insert, Std.ExtTreeMap.getElem?_map]
      split <;> rfl
    simp [insert?, Container.rename, inserted]

theorem removeKey?_rename : (container.rename move).removeKey? key =
    (container.removeKey? key).map (Prod.map (·.rename move) (·.rename move)) := by
  cases container with
  | list kind items => rfl
  | map entries =>
    have erased : (entries.map fun _ item => item.rename move).erase key =
        (entries.erase key).map fun _ item => item.rename move := by
      apply Std.ExtTreeMap.ext_getElem?
      intro other
      simp only [Std.ExtTreeMap.getElem?_erase, Std.ExtTreeMap.getElem?_map]
      split <;> rfl
    simp only [removeKey?, Container.rename, Std.ExtTreeMap.getElem?_map, Option.map_map, erased]
    rfl

end Container

def Apart (move : Ident → Ident) (known : Ref → Prop) : Prop :=
  ∀ ref other, known ref → known other → move ref.id = move other.id → ref.id = other.id

theorem Apart.mono {known fewer : Ref → Prop} (apart : Apart move known)
    (included : ∀ ref, fewer ref → known ref) : Apart move fewer :=
  fun ref other here there => apart ref other (included ref here) (included other there)

namespace Heap

variable {known fewer : Ref → Prop} {heap other : Heap} {id : Ident} {ref : Ref} {container : Container}

/-- The other heap has the contents of the known containers under other identities, and nothing but known
values is in these. -/
structure Renames (move : Ident → Ident) (known : Ref → Prop) (heap other : Heap) : Prop where
  container : ∀ id, known (.container id) →
    other.container (move id) = (heap.container id).rename move
  closed : ∀ id, known (.container id) → ∀ child ∈ (heap.container id).children, child.Among known

namespace Renames

theorem setContainer (renames : heap.Renames move known other) (apart : Apart move known)
    (here : known (.container id)) (among : ∀ child ∈ container.children, child.Among known) :
    (heap.setContainer id container).Renames move known
      (other.setContainer (move id) (container.rename move)) where
  container owner owns := by
    rw [container_setContainer, container_setContainer]
    -- A write under the other identity must not be read back for another known container.
    by_cases same : id = owner
    · rw [if_pos same, if_pos (congrArg move same)]
    · have elsewhere : ¬ move id = move owner := fun clash => same (apart _ _ here owns clash)
      rw [if_neg same, if_neg elsewhere]
      exact renames.container owner owns
  closed owner owns := by
    rw [container_setContainer]
    split
    · exact among
    · exact renames.closed owner owns

theorem release (renames : heap.Renames move known other) (apart : Apart move known)
    (here : known ref) : (heap.release ref).Renames move known (other.release (ref.rename move)) := by
  cases ref with
  | container id =>
    show (heap.setContainer id (heap.container id).clear).Renames move known
      (other.setContainer (move id) (other.container (move id)).clear)
    rw [renames.container id here, Container.clear_rename]
    exact renames.setContainer apart here fun child member => by simp at member
  | buffer id => exact ⟨renames.container, renames.closed⟩

theorem children (renames : heap.Renames move known other) (here : known ref) :
    other.children (ref.rename move) = (heap.children ref).map (·.rename move) := by
  cases ref with
  | container id =>
    show (other.container (move id)).children = _
    rw [renames.container id here, Container.children_rename]
    rfl
  | buffer id => rfl

theorem childCount (renames : heap.Renames move known other) (here : known ref) :
    other.childCount (ref.rename move) = heap.childCount ref := by
  rw [← length_children, ← length_children, renames.children here, List.length_map]

theorem among_children (renames : heap.Renames move known other) (here : known ref) :
    ∀ child ∈ heap.children ref, child.Among known := by
  cases ref with
  | container id => exact renames.closed id here
  | buffer id => exact fun child member => nomatch member

theorem kindName {value : Value} (renames : heap.Renames move known other) (here : value.Among known) :
    other.kindName (value.rename move) = heap.kindName value := by
  match value with
  | .scalar _ | .shared (.buffer _) => rfl
  | .shared (.container id) =>
    show (other.container (move id)).kind.name = _
    rw [renames.container id here, Container.kind_rename]
    rfl

end Renames

end Heap

/-! Errors under other identities. -/

def LedgerError.rename (move : Ident → Ident) : LedgerError → LedgerError
  | .holdUnderflow id => .holdUnderflow (move id)
  | .missingEdge item owner => .missingEdge (move item) (move owner)
  | .untrackedOwner owner => .untrackedOwner (move owner)
  | .notContainer owner => .notContainer (owner.rename move)
  | .totalUnderflow => .totalUnderflow
  | .inconsistent cause => .inconsistent cause

def Failure.rename (move : Ident → Ident) : Failure → Failure
  | .refused error => .refused (error.rename move)
  | .aborted abort => .aborted abort

def FaultCause.rename (move : Ident → Ident) : FaultCause → FaultCause
  | .ledger error => .ledger (error.rename move)
  | cause => cause

def Fault.rename (move : Ident → Ident) : Fault → Fault
  | .failed line cause => .failed line (cause.rename move)
  | fault => fault

def Fault.anonymous : Fault → Fault := Fault.rename fun _ => 0

theorem Value.rename_rename (second : Ident → Ident) (value : Value) :
    (value.rename move).rename second = value.rename (second ∘ move) := by
  match value with
  | .scalar _ | .shared (.container _) | .shared (.buffer _) => rfl

theorem Fault.anonymous_rename (fault : Fault) : (fault.rename move).anonymous = fault.anonymous := by
  match fault with
  | .aborted _ | .diverged .. => rfl
  | .failed line cause =>
    cases cause with
    | ledger error =>
      cases error with
      | notContainer owner =>
        show Fault.failed line (.ledger (.notContainer ((owner.rename move).rename _))) = _
        rw [Value.rename_rename]
        rfl
      | _ => rfl
    | _ => rfl

end Reclaim
