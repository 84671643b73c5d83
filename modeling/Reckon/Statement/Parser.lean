import Reckon.Statement
import Reckon.Token.Lexer

/-!
# Parser

Reads one statement from the tokens of a line, by recursive descent:

```
statement   := deffn name '(' [name {',' name}] ')' '=' assignment | assignment
assignment  := conditional ['=' assignment]
conditional := test ['?' test ':' conditional]
test        := sum {('>' | '<' | '>=' | '<=' | '==' | '!=') sum}
sum         := product {('+' | '-') product}
product     := factor {('*' | '/' | '%') factor}
factor      := ('-' | '~') factor | integer | name
             | function '(' [assignment {',' assignment}] ')' | '(' assignment ')'
```

Whether a name is that of a function depends on what is defined, so the parser is given the names that
are `callable`; while the body of a definition is read, the name it defines is one of them.

Every function returns the tokens behind what it read together with the fact that they are fewer, on
which the recursion rests: it descends in the number of tokens, then in the rank of the grammar rule.
The end of the token list counts as the end of the line, and what stands behind the end of the line is
never looked at.
-/

namespace Reckon

/-- What the parser could have gone on with. -/
inductive Expectation where
  | expression
  | identifier
  | token (k : Token.Kind)
  deriving DecidableEq

/-- The name of an expectation in reports. -/
def Expectation.text : Expectation → String
  | .expression => "expression"
  | .identifier => "identifier"
  | .token k => k.text

/-- Why tokens are not a statement. -/
inductive ParseError where
  | unexpectedToken (expected : Expectation) (found : Token.Kind) (position : Nat)
  | missingArguments (name : String)
  deriving DecidableEq

/-- The report of a grammatical error. -/
def ParseError.message : ParseError → String
  | .unexpectedToken expected found position =>
    "Expected " ++ expected.text ++ ", got '" ++ found.text ++ "' at position " ++ position.repr
  | .missingArguments name => "Function '" ++ name ++ "' must be followed by an argument list"

/-- How tightly an operator binds. -/
inductive Level where
  | product
  | sum
  | test
  deriving DecidableEq

/-- The binding of an operator. -/
def Operator.level : Operator → Level
  | .mul | .div | .rem => .product
  | .add | .sub => .sum
  | .gt | .lt | .ge | .le | .eq | .ne => .test

/-- The operator of this binding that a token is. -/
def Level.operator? (level : Level) : Token.Kind → Option Operator
  | .symbol (.value op) => if op.level = level then some op else none
  | _ => none

namespace Parser

/-- Why reading stopped, with the tokens that it stopped before. -/
inductive Failure where
  | unexpected (expected : Expectation) (rest : List Token)
  | missingArguments (name : String)

/-- What was read, with the tokens behind it, fewer than `bound`. -/
structure Parsed (α : Type) (bound : Nat) where
  value : α
  rest : List Token
  fewer : rest.length < bound

/-- The outcome of reading something from `ts`, at least one token of it. -/
abbrev Result (α : Type) (ts : List Token) := Except Failure (Parsed α ts.length)

/-- The kind of the next token and the tokens behind it, if one is left. -/
def take? (ts : List Token) : Option (Parsed Token.Kind ts.length) :=
  match ts with
  | [] => none
  | t :: rest => some ⟨t.kind, rest, by simp⟩

/-- The tokens behind the next one, if that is of the given kind. -/
def accept? (k : Token.Kind) (ts : List Token) : Option (Parsed Unit ts.length) :=
  match take? ts with
  | none => none
  | some ⟨found, rest, fewer⟩ => if found = k then some ⟨(), rest, fewer⟩ else none

/-- The tokens behind the next one, if that is an operator of the given binding. -/
def acceptOperator? (level : Level) (ts : List Token) : Option (Parsed Operator ts.length) :=
  match take? ts with
  | none => none
  | some ⟨found, rest, fewer⟩ => (level.operator? found).map (⟨·, rest, fewer⟩)

/-- Reads a token of the given kind. -/
def expect (k : Token.Kind) (ts : List Token) : Result Unit ts :=
  match accept? k ts with
  | some found => .ok found
  | none => .error (.unexpected (.token k) ts)

/-- Reads a name. -/
def identifier (ts : List Token) : Result String ts :=
  match take? ts with
  | some ⟨.identifier name, rest, fewer⟩ => .ok ⟨name, rest, fewer⟩
  | _ => .error (.unexpected .identifier ts)

/-- The kind of the next token. Behind the last one it is the end of the line. -/
def nextKind : List Token → Token.Kind
  | [] => .eof
  | t :: _ => t.kind

/-- Reads the end of the line. -/
def endOfLine (ts : List Token) : Except Failure Unit :=
  if nextKind ts = .eof then .ok () else .error (.unexpected (.token .eof) ts)

/-- The place of a binding in the descent, the tightest first. -/
@[simp] def rank : Level → Nat
  | .product => 0
  | .sum => 1
  | .test => 2

mutual

/-- Reads an assignment or what binds tighter. A chain of assignments nests to the right. -/
def assignment (callable : String → Bool) (ts : List Token) : Result Expr ts := do
  let ⟨target, rest, fewer⟩ ← conditional callable ts
  match accept? (.symbol .assign) rest with
  | none => return ⟨target, rest, fewer⟩
  | some ⟨_, rest, _⟩ =>
    let ⟨value, rest, _⟩ ← assignment callable rest
    return ⟨.assign target value, rest, by omega⟩
termination_by (ts.length, 8)

/-- Reads a conditional or what binds tighter. A chain of conditionals nests to the right. -/
def conditional (callable : String → Bool) (ts : List Token) : Result Expr ts := do
  let ⟨test, rest, fewer⟩ ← chain callable .test ts
  match accept? .question rest with
  | none => return ⟨test, rest, fewer⟩
  | some ⟨_, rest, _⟩ =>
    let ⟨whenTrue, rest, _⟩ ← chain callable .test rest
    let ⟨_, rest, _⟩ ← expect .colon rest
    let ⟨whenFalse, rest, _⟩ ← conditional callable rest
    return ⟨.cond test whenTrue whenFalse, rest, by omega⟩
termination_by (ts.length, 7)

/-- Reads operands joined by operators of one binding, which nest to the left. -/
def chain (callable : String → Bool) (level : Level) (ts : List Token) : Result Expr ts := do
  let ⟨first, rest, _⟩ ← operand callable level ts
  let ⟨e, rest, _⟩ ← chainRest callable level first rest
  return ⟨e, rest, by omega⟩
termination_by (ts.length, 2 * rank level + 2)

/-- Reads the operators behind an operand, each with the operand after it. -/
def chainRest (callable : String → Bool) (level : Level) (left : Expr) (ts : List Token) :
    Except Failure (Parsed Expr (ts.length + 1)) :=
  match acceptOperator? level ts with
  | none => return ⟨left, ts, by omega⟩
  | some ⟨op, rest, _⟩ => do
    let ⟨right, rest, _⟩ ← operand callable level rest
    let ⟨e, rest, _⟩ ← chainRest callable level (.binary op left right) rest
    return ⟨e, rest, by omega⟩
termination_by (ts.length, 0)

/-- Reads an operand of the operators of one binding. -/
def operand (callable : String → Bool) (level : Level) (ts : List Token) : Result Expr ts :=
  match level with
  | .product => factor callable ts
  | .sum => chain callable .product ts
  | .test => chain callable .sum ts
termination_by (ts.length, 2 * rank level + 1)

/-- Reads an operand that no operator divides. -/
def factor (callable : String → Bool) (ts : List Token) : Result Expr ts :=
  match take? ts with
  | some ⟨.symbol (.value .sub), rest, _⟩ | some ⟨.tilde, rest, _⟩ => do
    let ⟨e, rest, _⟩ ← factor callable rest
    return ⟨e.negate, rest, by omega⟩
  | some ⟨.integer v, rest, fewer⟩ => return ⟨.lit v, rest, fewer⟩
  | some ⟨.identifier name, rest, fewer⟩ =>
    if callable name then
      match accept? .lparen rest with
      | none => .error (.missingArguments name)
      | some ⟨_, rest, _⟩ => do
        let ⟨args, rest, _⟩ ← arguments callable rest
        return ⟨.call name args, rest, by omega⟩
    else return ⟨.var name, rest, fewer⟩
  | some ⟨.lparen, rest, _⟩ => do
    let ⟨e, rest, _⟩ ← assignment callable rest
    let ⟨_, rest, _⟩ ← expect .rparen rest
    return ⟨e, rest, by omega⟩
  | _ => .error (.unexpected .expression ts)
termination_by (ts.length, 0)

/-- Reads the arguments of a call and the parenthesis that closes them. -/
def arguments (callable : String → Bool) (ts : List Token) : Result (List Expr) ts :=
  match accept? .rparen ts with
  | some ⟨_, rest, fewer⟩ => return ⟨[], rest, fewer⟩
  | none => do
    let ⟨args, rest, _⟩ ← argumentList callable ts
    let ⟨_, rest, _⟩ ← expect .rparen rest
    return ⟨args, rest, by omega⟩
termination_by (ts.length, 10)

/-- Reads one or more arguments, with a comma between any two. -/
def argumentList (callable : String → Bool) (ts : List Token) : Result (List Expr) ts := do
  let ⟨arg, rest, fewer⟩ ← assignment callable ts
  match accept? .comma rest with
  | none => return ⟨[arg], rest, fewer⟩
  | some ⟨_, rest, _⟩ =>
    let ⟨args, rest, _⟩ ← argumentList callable rest
    return ⟨arg :: args, rest, by omega⟩
termination_by (ts.length, 9)

end

/-- Reads one or more names, with a comma between any two. -/
def nameList (ts : List Token) : Result (List String) ts := do
  let ⟨name, rest, fewer⟩ ← identifier ts
  match accept? .comma rest with
  | none => return ⟨[name], rest, fewer⟩
  | some ⟨_, rest, _⟩ =>
    let ⟨names, rest, _⟩ ← nameList rest
    return ⟨name :: names, rest, by omega⟩
termination_by ts.length

/-- Reads the parameters of a definition and the parenthesis that closes them. -/
def parameters (ts : List Token) : Result (List String) ts :=
  match accept? .rparen ts with
  | some ⟨_, rest, fewer⟩ => return ⟨[], rest, fewer⟩
  | none => do
    let ⟨names, rest, _⟩ ← nameList ts
    let ⟨_, rest, _⟩ ← expect .rparen rest
    return ⟨names, rest, by omega⟩

/-- Reads a definition behind its keyword. -/
def definition (callable : String → Bool) (ts : List Token) : Result Definition ts := do
  let ⟨name, rest, _⟩ ← identifier ts
  let ⟨_, rest, _⟩ ← expect .lparen rest
  let ⟨params, rest, _⟩ ← parameters rest
  let ⟨_, rest, _⟩ ← expect (.symbol .assign) rest
  let ⟨body, rest, _⟩ ← assignment (fun n => n == name || callable n) rest
  return ⟨⟨name, params, body⟩, rest, by omega⟩

/-- Reads a whole line. -/
def statement (callable : String → Bool) (ts : List Token) : Except Failure Statement :=
  match accept? .deffn ts with
  | some ⟨_, rest, _⟩ => do
    let ⟨d, rest, _⟩ ← definition callable rest
    endOfLine rest
    return .define d
  | none => do
    let ⟨e, rest, _⟩ ← assignment callable ts
    endOfLine rest
    return .evaluate e

/-- Where the token that is next starts. Behind the last token it is where that one starts. -/
def nextPosition (line : List Token) : List Token → Nat
  | t :: _ => t.span.start
  | [] => (line.getLast?.map (·.span.start)).getD 0

/-- The report of a failure to read `line`. -/
def Failure.report (line : List Token) : Failure → ParseError
  | .unexpected expected rest => .unexpectedToken expected (nextKind rest) (nextPosition line rest)
  | .missingArguments name => .missingArguments name

end Parser

/-- Why a line has no meaning. -/
inductive SyntaxError where
  | lexical (e : LexError)
  | grammatical (e : ParseError)
  deriving DecidableEq

/-- The report of an error in a line. -/
def SyntaxError.message : SyntaxError → String
  | .lexical e => e.message
  | .grammatical e => e.message

namespace Statement

/-- The statement that the tokens of a line make. -/
def ofTokens (fns : FunctionTable) (line : List Token) : Except ParseError Statement :=
  match Parser.statement fns.contains line with
  | .ok s => .ok s
  | .error f => .error (f.report line)

/-- The statement that a line makes. -/
def parse (fns : FunctionTable) (source : String) : Except SyntaxError Statement :=
  match tokenize source with
  | .error e => .error (.lexical e)
  | .ok line =>
    match ofTokens fns line with
    | .error e => .error (.grammatical e)
    | .ok s => .ok s

end Statement

end Reckon
