/-! The values of the machine. Scalars are copied and never tracked. Containers and buffers
are shared: a value refers to one by its identity, and two with equal contents are distinct. -/

set_option autoImplicit false

namespace Reclaim

/-- What tells one container or buffer from every other that exists at the same time. -/
abbrev Ident := Nat

abbrev Bytes := List UInt8

def encodeText (text : String) : Bytes :=
  text.toUTF8.data.toList

inductive Scalar where
  | null
  | boolean (value : Bool)
  | integer (value : Int)
  | bytes (content : Bytes)
  | pointer (position : Nat)
  | interop (handle : Nat)
  deriving DecidableEq, Repr

inductive Ref where
  | container (id : Ident)
  | buffer (id : Ident)
  deriving DecidableEq, Repr

inductive Value where
  | scalar (scalar : Scalar)
  | shared (ref : Ref)
  deriving DecidableEq, Repr

def Ref.id : Ref → Ident
  | .container id => id
  | .buffer id => id

def Ref.canOwn : Ref → Bool
  | .container _ => true
  | .buffer _ => false

namespace Value

def ref? : Value → Option Ref
  | .scalar _ => none
  | .shared ref => some ref

def id? (value : Value) : Option Ident :=
  value.ref?.map Ref.id

def isShared (value : Value) : Bool :=
  value.ref?.isSome

def canOwn (value : Value) : Bool :=
  value.ref?.any Ref.canOwn

def container? : Value → Option Ident
  | .shared (.container id) => some id
  | _ => none

def buffer? : Value → Option Ident
  | .shared (.buffer id) => some id
  | _ => none

@[simp] theorem ref?_scalar (scalar : Scalar) : (Value.scalar scalar).ref? = none := rfl

@[simp] theorem ref?_shared (ref : Ref) : (Value.shared ref).ref? = some ref := rfl

end Value

def Scalar.kindName : Scalar → String
  | .null => "null"
  | .boolean _ => "boolean"
  | .integer _ => "integer"
  | .bytes _ => "byte string"
  | .pointer _ => "pointer"
  | .interop _ => "interop interface"

def identText (label : Ident → String) (id : Ident) : String :=
  "ItemId(" ++ label id ++ ")"

end Reclaim
