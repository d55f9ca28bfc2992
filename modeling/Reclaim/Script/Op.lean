import Reclaim.Heap.Container

/-! The operations of a script: one reference operation that an interpreter performed, on values
that are known by name. -/

set_option autoImplicit false

namespace Reclaim

inductive Op where
  | newContainer (kind : Kind) (name : String)
  | newBuffer (name : String) (size : Nat)
  | int (name : String) (value : Int)
  | bytes (name text : String)
  | push (name : String) (count : Nat)
  | pop (name : String)
  | append (owner child : String)
  | set (owner : String) (index : Nat) (child : String)
  | put (owner key child : String)
  | remove (owner : String) (index : Nat)
  | delete (owner key : String)
  | clear (owner : String)
  | settle
  deriving DecidableEq, Repr

structure ScriptLine where
  number : Nat
  op : Op
  deriving DecidableEq, Repr

inductive Keyword where
  | new | int | bytes | push | pop | append | set | put | remove | delete | clear | settle
  deriving DecidableEq, Repr

namespace Keyword

def all : List Keyword :=
  [.new, .int, .bytes, .push, .pop, .append, .set, .put, .remove, .delete, .clear, .settle]

def text : Keyword → String
  | .new => "new"
  | .int => "int"
  | .bytes => "bytes"
  | .push => "push"
  | .pop => "pop"
  | .append => "append"
  | .set => "set"
  | .put => "put"
  | .remove => "remove"
  | .delete => "delete"
  | .clear => "clear"
  | .settle => "settle"

def ofText? (text : String) : Option Keyword :=
  all.find? (·.text == text)

theorem ofText?_text (keyword : Keyword) : ofText? keyword.text = some keyword := by
  cases keyword <;> decide

def operands : Keyword → String
  | .new => "a kind and a name"
  | .int | .bytes => "a name and a value"
  | .push => "a name and an optional count"
  | .pop => "a name"
  | .append => "an owner and a child"
  | .set => "an owner, an index and a child"
  | .put => "an owner, a key and a child"
  | .remove => "an owner and an index"
  | .delete => "an owner and a key"
  | .clear => "an owner"
  | .settle => "no operands"

end Keyword

end Reclaim
