/-!
# Tokens of the query language

Besides words the language has five operators. Every token carries the
position at which it starts.
-/

namespace BeliefNet

/-- A place in a text. -/
structure Position where
  /-- One more than the line feeds before it. -/
  line : Nat
  /-- The characters since the last line feed, or since the start. -/
  character : Nat
  deriving DecidableEq, Repr

namespace Position

def start : Position := ⟨1, 0⟩

/-- The position behind a character. -/
def after (p : Position) (c : Char) : Position :=
  if c = '\n' then ⟨p.line + 1, 0⟩ else ⟨p.line, p.character + 1⟩

def text (p : Position) : String :=
  s!"line {p.line}, character {p.character}"

instance : ToString Position := ⟨text⟩

end Position

inductive TokenKind where
  | leftParen
  | rightParen
  | comma
  | pipe
  | not
  | word (text : String)
  /-- The end of the input counts as a token. -/
  | endOfInput
  deriving DecidableEq, Repr

namespace TokenKind

/-- How a message names the token; all words have one name. -/
def text : TokenKind → String
  | leftParen => "'('"
  | rightParen => "')'"
  | comma => "','"
  | pipe => "'|'"
  | not => "'~'"
  | word _ => "a word"
  | endOfInput => "end of input string"

instance : ToString TokenKind := ⟨text⟩

/-- The operator that a character is. -/
def ofOperator? : Char → Option TokenKind
  | '(' => some leftParen
  | ')' => some rightParen
  | ',' => some comma
  | '|' => some pipe
  | '~' => some not
  | _ => none

/-- Both are words, or both are the same operator, or both the end. -/
def sameKind : TokenKind → TokenKind → Bool
  | word _, word _ => true
  | a, b => decide (a = b)

end TokenKind

structure Token where
  kind : TokenKind
  position : Position
  deriving DecidableEq, Repr

/-- The text of a word. -/
def Token.word? (t : Token) : Option String :=
  match t.kind with
  | .word text => some text
  | _ => none

/-- What the query language allows at some place. -/
inductive Expectation where
  | letterP
  | leftParen
  | word
  | rightParen
  | endOfInput
  deriving DecidableEq, Repr

namespace Expectation

def text : Expectation → String
  | letterP => "P"
  | leftParen => "'('"
  | word => "a word"
  | rightParen => "')'"
  | endOfInput => "end of input string"

instance : ToString Expectation := ⟨text⟩

end Expectation

end BeliefNet
