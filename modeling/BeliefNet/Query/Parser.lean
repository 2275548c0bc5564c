import BeliefNet.Query.Scanner

/-!
# Reading queries

A query is `P`, a list of terms in parentheses, and between them at most one
bar. The tokens are read from left to right; at each stage it is known which
tokens may follow, so the first token that may not is the one that is
reported.

* `Reading.advance` reads one token.
* `Query.parse` reads a text. A predicate says which variables are defined.
-/

namespace BeliefNet

/-- A side of the bar. -/
inductive Side where
  | hypotheses
  | evidence
  deriving DecidableEq, Repr

/-- How far a query has been read. -/
inductive Stage where
  | start
  /-- The `P` has been read. -/
  | letter
  /-- A term is to follow. -/
  | term (side : Side)
  /-- A tilde has been read, and its word is to follow. -/
  | negation (side : Side)
  /-- A term has been read. -/
  | listed (side : Side)
  /-- The closing parenthesis has been read. -/
  | closed
  deriving DecidableEq, Repr

/-- What a message says is missing at a stage. -/
def Stage.expected : Stage → Expectation
  | start => .letterP
  | letter => .leftParen
  | term _ | negation _ => .word
  | listed _ => .rightParen
  | closed => .endOfInput

/-- The query so far, and the stage of its reading. -/
structure Reading where
  stage : Stage
  query : Query
  deriving DecidableEq, Repr

namespace Reading

def start : Reading := ⟨.start, ⟨[], []⟩⟩

/-- The query with a term more on a side. -/
def add (q : Query) (side : Side) (t : Term) : Query :=
  match side with
  | .hypotheses => { q with hypotheses := q.hypotheses ++ [t] }
  | .evidence => { q with evidence := q.evidence ++ [t] }

/-- Reads the word of a term. -/
def addTerm (defined : String → Bool) (r : Reading) (side : Side) (t : Term) :
    Except Error Reading :=
  if defined t.id then
    .ok ⟨.listed side, add r.query side t⟩
  else
    .error (.undefinedReference t.id)

/-- Reads one token. -/
def advance (defined : String → Bool) (r : Reading) (t : Token) : Except Error Reading :=
  match r.stage, t.kind with
  | .start, .word text =>
    if text = "P" ∨ text = "p" then
      .ok { r with stage := .letter }
    else
      .error (.unexpectedToken t.kind t.position r.stage.expected)
  | .letter, .leftParen => .ok { r with stage := .term .hypotheses }
  | .term side, .not => .ok { r with stage := .negation side }
  | .term side, .word id => r.addTerm defined side ⟨id, true⟩
  | .negation side, .word id => r.addTerm defined side ⟨id, false⟩
  | .listed side, .comma => .ok { r with stage := .term side }
  | .listed .hypotheses, .pipe => .ok { r with stage := .term .evidence }
  | .listed _, .rightParen => .ok { r with stage := .closed }
  | stage, kind => .error (.unexpectedToken kind t.position stage.expected)

/-- The query that has been read when the text ends. -/
def finish (r : Reading) : Ending → Except Error Query
  | .complete position =>
    if r.stage = .closed then
      .ok r.query
    else
      .error (.unexpectedToken .endOfInput position r.stage.expected)
  | .unexpected c position => .error (.unexpectedCharacter c position)

end Reading

/-- The query that a scanned text is. -/
def Query.ofScan (defined : String → Bool) (scan : Scan) : Except Error Query := do
  let reading ← scan.tokens.foldlM (Reading.advance defined) .start
  reading.finish scan.ending

/-- Reads a query whose variables are all defined. -/
def Query.parse (defined : String → Bool) (text : String) : Except Error Query :=
  Query.ofScan defined (Scan.ofText text)

end BeliefNet
