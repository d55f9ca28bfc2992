import Std.Data.ExtTreeMap
import Reclaim.Heap.Value

/-! Containers: arrays and structs hold a list of children, maps hold a child under each of
their keys. Every operation reports the child that it replaced or removed, and one that does
not apply leaves the container as it is. -/

set_option autoImplicit false

namespace Reclaim

/-- Keys are byte strings, ordered bytewise. -/
abbrev Key := Bytes

inductive ListKind where
  | array
  | struct
  deriving DecidableEq, Repr

inductive Kind where
  | list (kind : ListKind)
  | map
  deriving DecidableEq, Repr

def Kind.name : Kind → String
  | .list .array => "array"
  | .list .struct => "struct"
  | .map => "map"

def Kind.all : List Kind := [.list .array, .list .struct, .map]

def Kind.ofName? (name : String) : Option Kind :=
  Kind.all.find? (·.name == name)

def Kind.isList : Kind → Bool
  | .list _ => true
  | .map => false

abbrev Entries := Std.ExtTreeMap Key Value compare

inductive Container where
  | list (kind : ListKind) (items : List Value)
  | map (entries : Entries)

namespace Container

def empty : Kind → Container
  | .list kind => .list kind []
  | .map => .map ∅

def kind : Container → Kind
  | .list kind _ => .list kind
  | .map _ => .map

def children : Container → List Value
  | .list _ items => items
  | .map entries => entries.toList.map (·.2)

def length : Container → Nat
  | .list _ items => items.length
  | .map entries => entries.size

@[simp] theorem length_children (container : Container) :
    container.children.length = container.length := by
  cases container with
  | list => rfl
  | map entries => simp [children, length, Std.ExtTreeMap.length_toList]

def push? (item : Value) : Container → Option Container
  | .list kind items => some (.list kind (items ++ [item]))
  | .map _ => none

def get? (index : Nat) : Container → Option Value
  | .list _ items => items[index]?
  | .map _ => none

def set? (index : Nat) (item : Value) : Container → Option (Value × Container)
  | .list kind items => items[index]?.map fun old => (old, .list kind (items.set index item))
  | .map _ => none

def remove? (index : Nat) : Container → Option (Value × Container)
  | .list kind items => items[index]?.map fun old => (old, .list kind (items.eraseIdx index))
  | .map _ => none

def lookup? (key : Key) : Container → Option Value
  | .list _ _ => none
  | .map entries => entries[key]?

def insert? (key : Key) (item : Value) : Container → Option (Option Value × Container)
  | .list _ _ => none
  | .map entries => some (entries[key]?, .map (entries.insert key item))

def removeKey? (key : Key) : Container → Option (Value × Container)
  | .list _ _ => none
  | .map entries => entries[key]?.map fun old => (old, .map (entries.erase key))

def clear (container : Container) : Container :=
  .empty container.kind

@[simp] theorem kind_empty (kind : Kind) : (empty kind).kind = kind := by
  cases kind <;> rfl

@[simp] theorem children_empty (kind : Kind) : (empty kind).children = [] := by
  cases kind
  case list => rfl
  case map => simp [empty, children]

@[simp] theorem children_clear (container : Container) : container.clear.children = [] :=
  children_empty _

end Container

end Reclaim
