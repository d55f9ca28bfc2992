import Reclaim.Command.Run

/-! The command on the files of the system. Identities are printed as hexadecimal numbers. -/

set_option autoImplicit false

namespace Reclaim

def systemError : IO.Error → FileError
  | .noFileOrDirectory _ number text
  | .inappropriateType _ number text
  | .permissionDenied _ number text
  | .invalidArgument _ number text
  | .resourceExhausted _ number text => .system number.toNat text
  | .otherError number text => .system number.toNat text
  | error => .system 5 error.toString

def readSystemFile (path : String) : IO (Except FileError ByteArray) := do
  try
    let handle ← IO.FS.Handle.mk path .read
    return .ok (← handle.readBinToEnd)
  catch error =>
    return .error (systemError error)

def hexLabel (id : Ident) : String :=
  "0x" ++ String.ofList (Nat.toDigits 16 id)

def runMain (arguments : List String) : IO UInt32 := do
  let result ← runCommand readSystemFile hexLabel false arguments
  IO.print result.stdout
  IO.eprint result.stderr
  return result.exitCode.toUInt32

end Reclaim

def main (arguments : List String) : IO UInt32 :=
  Reclaim.runMain arguments
