import BeliefNet.Filter

/-!
# Tables of conditional probabilities

The table of a variable has a row for each of its values and each assignment
of its parents. A row is filled together with the row of the other value, so
the two always add up to one.

* `Table.forParents` is the empty table of a variable with given parents.
* `Table.put` and `Table.putDecimal` fill a row and its counterpart.
* `Table.get?` looks up a row, `Table.select` the rows a filter accepts.

A `TableStore` keeps the rows and the entries apart; here each row has its entry.
-/

namespace BeliefNet

/-- All assignments of some variables in lexicographic order, the first
variable most significant and true before false. -/
def assignments : List String → List (List Term)
  | [] => [[]]
  | id :: ids => [true, false].flatMap fun value => (assignments ids).map (⟨id, value⟩ :: ·)

/-- The assignment with the number `c`: its binary digits are the values, the
first variable has the most significant one, and a digit 0 is the value true. -/
def pattern (ids : List String) (c : Nat) : List Term :=
  ids.mapIdx fun i id => ⟨id, !c.testBit (ids.length - 1 - i)⟩

/-- A row: its expression, and its entry once it is filled. -/
structure Row where
  expression : Expression
  entry : Option Decimal
  deriving DecidableEq

structure Table where
  /-- The variable whose table this is. -/
  owner : String
  rows : List Row
  deriving DecidableEq

namespace Table

/-- The expressions of the rows of `owner` with these parents. The value of
the owner varies fastest. -/
def expressionsFor (owner : String) (parents : List String) : List Expression :=
  (assignments parents).flatMap fun evidence =>
    [true, false].map fun value => ⟨⟨[⟨owner, value⟩], evidence⟩⟩

/-- The empty table of `owner` with these parents. -/
def forParents (owner : String) (parents : List String) : Table :=
  ⟨owner, (expressionsFor owner parents).map (⟨·, none⟩)⟩

def expressions (t : Table) : List Expression := t.rows.map (·.expression)

/-- The number of filled rows. -/
def size (t : Table) : Nat := t.rows.countP (·.entry.isSome)

def isEmpty (t : Table) : Bool := t.rows.all (·.entry.isNone)

/-- All rows are filled. -/
def isComplete (t : Table) : Bool := t.rows.all (·.entry.isSome)

/-- The row of an expression. -/
def row? (t : Table) (e : Expression) : Option Row := t.rows.find? (·.expression.same e)

def contains (t : Table) (e : Expression) : Bool := (t.row? e).isSome

/-- The rows that a filter accepts, in their order. -/
def select (t : Table) (f : Filter) : List Row :=
  t.rows.filter fun row => f.accepts row.expression

/-- The entry of a row that the table has; there is none before it is
filled. -/
def get? (t : Table) (e : Expression) : Except Error (Option Decimal) :=
  match t.row? e with
  | none => .error (.foreignRow e.toQuery t.owner)
  | some row => .ok row.entry

/-- The table with the entry of a row. -/
def fill (t : Table) (e : Expression) (entry : Decimal) : Table :=
  { t with rows := t.rows.map fun row =>
      if row.expression.same e then { row with entry := some entry } else row }

/-- Fills a row with a probability and its counterpart with one minus that. -/
def putDecimal (t : Table) (e : Expression) (entry : Decimal) : Except Error Table :=
  if entry.InUnit then
    if t.contains e then
      match e.hypothesis? t.owner with
      | none => .error (.noOwnHypothesis e.toQuery t.owner)
      | some value => do
        let counterpart ← e.withHypothesis t.owner (!value)
        return (t.fill e entry).fill counterpart entry.complement
    else
      .error (.foreignRow e.toQuery t.owner)
  else
    .error (.decimalOutOfRange entry)

/-- The same for a double, which is stored as the decimal that its plain text
reads as. -/
def put (t : Table) (e : Expression) (entry : Binary64) : Except Error Table :=
  if entry.InUnit then
    match Decimal.parse? entry.text with
    | some decimal => t.putDecimal e decimal
    | none => .error (.notRepresentable entry)
  else
    .error (.doubleOutOfRange entry)

end Table

end BeliefNet
