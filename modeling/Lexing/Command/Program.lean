import Lexing.Command.Lex

/-! The program as a whole: what its arguments ask for, and what it prints. -/

namespace Lexing.Command

/-- What a run of the program leaves: an exit code, and two streams of bytes. -/
structure Outcome where
  code : Nat
  stdout : List UInt8
  stderr : List UInt8
  deriving DecidableEq

def textBytes (text : String) : List UInt8 := encode text.toList

def lines (texts : List String) : List UInt8 :=
  texts.flatMap fun text => textBytes text ++ [lineFeed]

def usage : List UInt8 := lines
  ["lexkit: tokenizer toolkit",
   "",
   "Usage: lexkit <command> [options]",
   "",
   "Commands:",
   "  lex <file>       Tokenize a brace-grammar file and display tokens",
   "                   (use '-' to read standard input)",
   "  help             Show this help message",
   "  version          Show version information",
   "",
   "Lex options:",
   "  --offsets        Show byte ranges",
   "  --no-comments    Treat '//' as ordinary text",
   "  --no-quotes      Treat '\"' as ordinary text",
   "  -k, --keep-going Report every lexical error",
   "",
   "Logging:",
   "  LEXKIT_LOG=<filter>  Log filter (falls back to RUST_LOG, default: warn)",
   "  LEXKIT_LOG_TREE=1    Hierarchical log output"]

def lexUsage : String :=
  "Usage: lexkit lex <file> [--offsets] [--no-comments] [--no-quotes] [--keep-going]"

def version : List UInt8 := lines ["lexkit 0.1.0"]

/-- What the arguments ask for: an answer that needs no input, or a listing. -/
inductive Request
  | answer (outcome : Outcome)
  | lex (options : Options)
  deriving DecidableEq

def Request.ofArgs : List String → Request
  | [] => .answer ⟨1, usage, []⟩
  | command :: args =>
      if command = "lex" then
        match Options.parse args with
        | .ok options => .lex options
        | .error e => .answer ⟨1, [], lines ["error: " ++ e.message, lexUsage]⟩
      else if command ∈ ["help", "--help", "-h"] then .answer ⟨0, usage, []⟩
      else if command ∈ ["version", "--version", "-V"] then .answer ⟨0, version, []⟩
      else .answer ⟨1, usage, lines ["Unknown command: " ++ command, ""]⟩

def lexOutcome (options : Options) (input : Except ReadFailure Source) : Outcome :=
  let run := lexFile options input .unlimited
  match run.result with
  | .ok _ => ⟨0, run.written, []⟩
  | .error e => ⟨1, run.written, lines ["error: " ++ e.message]⟩

/-- Bytes of a file as a source; they have to be valid UTF-8. -/
def decode (bytes : ByteArray) : Except ReadFailure Source :=
  match String.fromUTF8? bytes with
  | some text => .ok (.ofString text)
  | none => .error .invalidText

def standardInput : String := "-"

/-- A run of the program, where `read` answers for each path what its file holds. -/
def run (args : List String) (read : String → Except ReadFailure ByteArray) : Outcome :=
  match Request.ofArgs args with
  | .answer outcome => outcome
  | .lex options => lexOutcome options (read options.path >>= decode)

end Lexing.Command
