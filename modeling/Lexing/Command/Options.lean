import Lexing.Brace.Grammar

/-! The arguments of the `lex` command: one path, and flags before or behind it. -/

namespace Lexing.Command

structure Options where
  path : String
  offsets : Bool
  comments : Bool
  quotes : Bool
  keepGoing : Bool
  deriving DecidableEq, Repr

inductive UsageError
  | missingPath
  | unexpectedArgument (arg : String)
  | unknownOption (arg : String)
  deriving DecidableEq, Repr

def UsageError.message : UsageError → String
  | .missingPath => "missing file path"
  | .unexpectedArgument arg => "unexpected argument '" ++ arg ++ "'"
  | .unknownOption arg => "unknown option '" ++ arg ++ "'"

inductive Flag
  | offsets
  | noComments
  | noQuotes
  | keepGoing
  deriving DecidableEq, Repr

def Flag.ofString? (arg : String) : Option Flag :=
  if arg = "--offsets" then some .offsets
  else if arg = "--no-comments" then some .noComments
  else if arg = "--no-quotes" then some .noQuotes
  else if arg = "--keep-going" ∨ arg = "-k" then some .keepGoing
  else none

/-- What an argument is by itself. -/
inductive Argument
  | flag (f : Flag)
  | unknown
  | path
  deriving DecidableEq, Repr

/-- Whatever starts with a minus is a flag or unknown; the minus alone is a path. -/
def Argument.ofString (arg : String) : Argument :=
  match Flag.ofString? arg with
  | some f => .flag f
  | none => if arg.toList.head? = some '-' ∧ arg ≠ "-" then .unknown else .path

namespace Options

/-- All flags are off. -/
def ofPath (path : String) : Options := ⟨path, false, true, true, false⟩

def set (o : Options) : Flag → Options
  | .offsets => { o with offsets := true }
  | .noComments => { o with comments := false }
  | .noQuotes => { o with quotes := false }
  | .keepGoing => { o with keepGoing := true }

def features (o : Options) : Brace.Features := ⟨o.comments, o.quotes⟩

/-- Goes through the arguments with the flags and the path met so far. -/
def parseFrom (o : Options) (path : Option String) : List String → Except UsageError Options
  | [] =>
      match path with
      | some path => .ok { o with path }
      | none => .error .missingPath
  | arg :: args =>
      match Argument.ofString arg, path with
      | .flag f, _ => parseFrom (o.set f) path args
      | .unknown, _ => .error (.unknownOption arg)
      | .path, none => parseFrom o (some arg) args
      | .path, some _ => .error (.unexpectedArgument arg)

/-- Reads arguments from left to right; the first one that is wrong decides. -/
def parse (args : List String) : Except UsageError Options := parseFrom (ofPath "") none args

end Options

end Lexing.Command
