import Lexing.Brace.Grammar

/-! Reading a token of one of several kinds, and the text inside a quoted one. -/

namespace Lexing.Brace

inductive ExpectError
  | lexical (e : LexError)
  | unexpected (expected found : Kinds) (position : Position)
  deriving DecidableEq

def ExpectError.message : ExpectError → String
  | .lexical e => e.message
  | .unexpected expected found position =>
      position.render ++ ": expected " ++ expected.describe ++ ", found " ++ found.describe

/-- Takes the next token if it has one of the expected kinds, and else puts it
back. -/
def expect {γ : Type} [Grammar γ Kinds] (t : Tokenizer γ Kinds) (expected : Kinds) :
    Except (Fault Kinds) (Except ExpectError (Token Kinds)) × Tokenizer γ Kinds :=
  match t.next with
  | (.ok (.ok token), t') =>
      if expected.intersects token.tag then (.ok (.ok token), t')
      else match t'.push token with
        | .ok t'' => (.ok (.error (.unexpected expected token.tag token.position)), t'')
        | .error fault => (.error fault, t')
  | (.ok (.error e), t') => (.ok (.error (.lexical e)), t')
  | (.error fault, t') => (.error fault, t')

/-- Characters without a quote mark at both ends. -/
def unquote? : List Char → Option (List Char)
  | '"' :: body => if body.getLast? = some '"' then some body.dropLast else none
  | _ => none

/-- What stands between the quotes of a token that is quoted and nothing else. -/
def quotedContent? (token : Token Kinds) : Option String :=
  if token.tag = .ofKind .quoted then (unquote? token.data.toList).map String.ofList else none

end Lexing.Brace
