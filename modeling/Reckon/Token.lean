import Reckon.Operator
import Reckon.Text.Decimal

/-!
# Tokens

The words of a line, each with the place where it stands. Places are counted in bytes of the UTF-8
encoding of the line.
-/

namespace Reckon

open Text

/-- The bytes from `start` up to, and without, `stop`. -/
structure Span where
  start : Nat
  stop : Nat
  deriving DecidableEq

/-- What a token is. -/
inductive Token.Kind where
  | identifier (name : String)
  | integer (value : Int64)
  | deffn
  | symbol (s : Symbol)
  | question
  | colon
  | tilde
  | comma
  | lparen
  | rparen
  | eof
  deriving DecidableEq

/-- A token and its place. -/
structure Token where
  kind : Token.Kind
  span : Span
  deriving DecidableEq

/-- The name of a token kind in reports: its written form, with the value of an integer in plain
decimal. -/
def Token.Kind.text : Token.Kind → String
  | .identifier name => name
  | .integer value => decimal value
  | .deffn => "deffn"
  | .symbol s => s.text
  | .question => "?"
  | .colon => ":"
  | .tilde => "~"
  | .comma => ","
  | .lparen => "("
  | .rparen => ")"
  | .eof => "end of input"

end Reckon
