import Lexing.Command.Options
import Lexing.Sink

/-! The `lex` command: lists the tokens of a source, one to a line. -/

namespace Lexing.Command

/-- Why a file could not be read as text. -/
inductive ReadFailure
  | notFound
  | permissionDenied
  | invalidText
  | isDirectory
  /-- A part of the path is a file that something else is looked for in. -/
  | notDirectory
  | nameTooLong
  | other (text : String)
  deriving DecidableEq, Repr

inductive CommandError
  | read (path : String) (failure : ReadFailure)
  | lexical (path : String) (e : LexError)
  | errors (path : String) (count : Nat)
  | output (text : String)
  /-- The tokenizer was misused, which no source leads to. -/
  | internal (fault : Fault Brace.Kinds)
  deriving DecidableEq

def systemText (text : String) (number : Nat) : String :=
  text ++ " (os error " ++ toString number ++ ")"

def unreadable (path text : String) : String := "error reading '" ++ path ++ "': " ++ text

def ReadFailure.message (path : String) : ReadFailure → String
  | .notFound => "cannot find file '" ++ path ++ "'"
  | .permissionDenied => "permission denied reading '" ++ path ++ "'"
  | .invalidText => "'" ++ path ++ "' contains invalid UTF-8 data"
  | .isDirectory => unreadable path (systemText "Is a directory" 21)
  | .notDirectory => unreadable path (systemText "Not a directory" 20)
  | .nameTooLong => unreadable path (systemText "File name too long" 36)
  | .other text => unreadable path text

def CommandError.message : CommandError → String
  | .read path failure => failure.message path
  | .lexical path e => path ++ ":" ++ e.message
  | .errors path count => path ++ ": " ++ toString count ++ " lexical error(s)"
  | .output text => "cannot write output: " ++ text
  | .internal fault => fault.message?.getD "broken slice"

/-- How many tokens there are, the end of the input included, and how many errors. -/
structure Summary where
  tokens : Nat
  errors : Nat
  deriving DecidableEq, Repr

def Summary.ofItems (items : List (Item Brace.Kinds)) : Summary :=
  ⟨items.countP (·.isOk), items.countP (!·.isOk)⟩

/-- Takes items up to the end of the input, which is the last of them. An error
is an item if the command keeps going, and else it ends the run. -/
def scanWithin (keepGoing : Bool) :
    Nat → BraceTokenizer → Except (Fault Brace.Kinds) (Except LexError (List (Item Brace.Kinds)))
  | 0, _ => .ok (.ok [])
  | n + 1, t =>
      match t.next with
      | (.ok (.ok token), t') =>
          if token.isSentinel then .ok (.ok [.ok token])
          else (scanWithin keepGoing n t').map (·.map (.ok token :: ·))
      | (.ok (.error e), t') =>
          if keepGoing then (scanWithin keepGoing n t').map (·.map (.error e :: ·))
          else .ok (.error e)
      | (.error fault, _) => .error fault

/-- The items of a source that the command lists. -/
def scan (options : Options) (source : Source) :
    Except CommandError (List (Item Brace.Kinds)) :=
  let t : BraceTokenizer := .ofSource source options.features
  match scanWithin options.keepGoing t.bound t with
  | .ok (.ok items) => .ok items
  | .ok (.error e) => .error (.lexical options.path e)
  | .error fault => .error (.internal fault)

/-- A name with spaces behind it, so that columns line up. -/
def padded (name : String) : String := name ++ String.ofList (List.replicate (9 - name.length) ' ')

def tokenPieces (offsets : Bool) (token : Token Brace.Kinds) : List String :=
  ["  ", padded token.tag.name]
    ++ (if token.isSentinel then [] else [" ", Text.quoted token.data])
    ++ [" @ ", token.position.render]
    ++ (if offsets then
          [" [", toString token.position.offset, "..", toString token.stop, "]"]
        else [])
    ++ ["\n"]

def itemPieces (offsets : Bool) : Item Brace.Kinds → List String
  | .ok token => tokenPieces offsets token
  | .error e => ["  error: ", e.message, "\n"]

def headerPieces (path : String) (tokens : Nat) : List String :=
  ["Tokens for '", path, "' (", toString tokens, " tokens):", "\n"]

/-- The whole listing in the order in which it is written. -/
def listing (options : Options) (items : List (Item Brace.Kinds)) : List String :=
  headerPieces options.path (Summary.ofItems items).tokens
    ++ items.flatMap (itemPieces options.offsets)

/-- An answer with the bytes that were written before it. -/
structure Written (α : Type) where
  result : Except CommandError α
  written : List UInt8

/-- Lists a source into a sink. Nothing is written for an error that ends the run. -/
def lexSource (options : Options) (source : Source) (sink : Sink) : Written Summary :=
  match scan options source with
  | .error e => ⟨.error e, []⟩
  | .ok items =>
      let delivery := sink.deliver (listing options items)
      if delivery.complete then ⟨.ok (Summary.ofItems items), delivery.written⟩
      else ⟨.error (.output Sink.fullText), delivery.written⟩

/-- Lists a file that was read, or could not be. Errors that were listed make the
command fail in the end. -/
def lexFile (options : Options) (input : Except ReadFailure Source) (sink : Sink) :
    Written Summary :=
  match input with
  | .error failure => ⟨.error (.read options.path failure), []⟩
  | .ok source =>
      let run := lexSource options source sink
      match run.result with
      | .ok summary =>
          if summary.errors = 0 then run
          else ⟨.error (.errors options.path summary.errors), run.written⟩
      | .error _ => run

end Lexing.Command
