import Lexing.Command.Program

/-! The command line: reads the input that the arguments ask for and prints the
outcome. -/

namespace Lexing.Command

/-- The system's number of an error; some calls report it negated. -/
def errorNumber (code : UInt32) : Nat := min code.toNat (-code).toNat

def readFailure : IO.Error → ReadFailure
  | .noFileOrDirectory .. => .notFound
  | .permissionDenied .. => .permissionDenied
  | .inappropriateType _ code details =>
      match errorNumber code with
      | 20 => .notDirectory
      | 21 => .isDirectory
      | number => .other (systemText details number)
  | .invalidArgument _ code details | .resourceExhausted _ code details =>
      match errorNumber code with
      | 36 => .nameTooLong
      | number => .other (systemText details number)
  | e => .other (toString e)

partial def readToEnd (stream : IO.FS.Stream) (bytes : ByteArray) : IO ByteArray := do
  let more ← stream.read 65536
  if more.isEmpty then return bytes else readToEnd stream (bytes ++ more)

def readInput (path : String) : IO (Except ReadFailure ByteArray) := do
  try
    if path = standardInput then return .ok (← readToEnd (← IO.getStdin) .empty)
    else return .ok (← IO.FS.readBinFile path)
  catch e => return .error (readFailure e)

end Lexing.Command

open Lexing.Command in
def main (args : List String) : IO UInt32 := do
  let outcome ← match Request.ofArgs args with
    | .answer outcome => pure outcome
    | .lex options => pure (lexOutcome options ((← readInput options.path) >>= decode))
  (← IO.getStdout).write outcome.stdout.toByteArray
  (← IO.getStderr).write outcome.stderr.toByteArray
  return outcome.code.toUInt32
