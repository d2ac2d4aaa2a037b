import Lexing.Error
import Lexing.Misuse
import Lexing.Source

/-! Tokens: a tag, the text that was classified and the place where it starts.
Only the token that marks the end of the input has no text. -/

namespace Lexing

/-- How a tag is named in messages. -/
class TagName (τ : Type) where
  tagName : τ → String

structure Token (τ : Type) where
  tag : τ
  text : Option String
  position : Position
  deriving DecidableEq, Repr

/-- One step of a token stream: a token, or input that is none. -/
abbrev Item (τ : Type) := Except LexError (Token τ)

namespace Token

variable {τ : Type}

def ofText (tag : τ) (text : String) (position : Position) : Except Misuse (Token τ) :=
  if text = "" then .error .emptyLexeme else .ok ⟨tag, some text, position⟩

def sentinel (tag : τ) (position : Position) : Token τ := ⟨tag, none, position⟩

def isSentinel (t : Token τ) : Bool := t.text.isNone

/-- The text, which is empty for the sentinel. -/
def data (t : Token τ) : String := t.text.getD ""

def bytes (t : Token τ) : List UInt8 := encode t.data.toList

def stop (t : Token τ) : Nat := t.position.offset + t.bytes.length

def render [TagName τ] (t : Token τ) : String :=
  let text := match t.text with
    | some text => " " ++ Text.quoted text
    | none => ""
  TagName.tagName t.tag ++ text ++ " @ " ++ t.position.render

def inspect [TagName τ] (t : Token τ) : String :=
  let text := match t.text with
    | some text => "Some(" ++ Text.quoted text ++ ")"
    | none => "None"
  "Token \x7b tag: " ++ TagName.tagName t.tag ++ ", text: " ++ text ++
    ", position: Position \x7b offset: " ++ toString t.position.offset ++
    ", line: " ++ toString t.position.line ++
    ", column: " ++ toString t.position.column ++ " \x7d \x7d"

end Token

end Lexing
