import Std.Data.HashMap
import BeliefNet.Table

/-!
# Tables as they are stored

A stored table has the list of the rows that are required, and a hash map from rows
to entries. A row is looked up by its meaning: expressions with the same terms in
another order are one key. How many rows are filled is the size of the map, and the
table is complete when that is the number of required rows.

Writing to a table may fail on the way, and what was written before the failure
stays written (`Writing`). So `TableStore.putDecimal` makes its two entries one after
the other, behind everything that it checks.
-/

namespace BeliefNet

/-- A change of a state that may fail. What is written before a failure stays. -/
abbrev Writing (σ : Type) := ExceptT Error (StateM σ)

namespace Writing

variable {σ α : Type}

/-- The outcome, and the state behind it. -/
def apply (w : Writing σ α) (s : σ) : Except Error α × σ := (ExceptT.run w).run s

/-- What a check of the state finds. -/
def check (f : σ → Except Error α) : Writing σ α := do
  match f (← get) with
  | .ok a => pure a
  | .error e => throw e

end Writing

/-- An expression as a key. -/
structure Key where
  expression : Expression

namespace Key

instance : BEq Key := ⟨fun a b => a.expression.same b.expression⟩

instance : Hashable Key := ⟨fun k => hash k.expression.hashItems⟩

theorem beq_iff {a b : Key} : (a == b) = true ↔ a.expression.key = b.expression.key :=
  decide_eq_true_iff

instance : EquivBEq Key where
  rfl := beq_iff.2 rfl
  symm h := beq_iff.2 (beq_iff.1 h).symm
  trans h h' := beq_iff.2 ((beq_iff.1 h).trans (beq_iff.1 h'))

/-- Keys that are equal have one hash. -/
instance : LawfulHashable Key where
  hash_eq a b h := by
    show hash a.expression.hashItems = hash b.expression.hashItems
    rw [Expression.hashItems, Expression.hashItems, beq_iff.1 h]

end Key

structure TableStore where
  /-- The variable whose table this is. -/
  owner : String
  /-- The rows that are required, in the order of their generation. -/
  expressions : List Expression
  entries : Std.HashMap Key Decimal

namespace TableStore

/-- The rows of `owner` with these parents, by the numbers of their assignments. -/
def rows (owner : String) (parents : List String) : List Expression :=
  (List.range (twoPow parents.length)).flatMap fun combination =>
    [true, false].map fun value => ⟨⟨[⟨owner, value⟩], pattern parents combination⟩⟩

/-- Loses all entries, and requires the rows for these parents. -/
def regenerate (t : TableStore) (parents : List String) : TableStore :=
  { t with expressions := rows t.owner parents, entries := ∅ }

/-- The table of a variable without parents. -/
def new (owner : String) : TableStore := regenerate ⟨owner, [], ∅⟩ []

def contains (t : TableStore) (e : Expression) : Bool := t.expressions.any (·.same e)

/-- The number of filled rows. -/
def size (t : TableStore) : Nat := t.entries.size

def isEmpty (t : TableStore) : Bool := t.entries.isEmpty

/-- As many rows are filled as are required. -/
def isComplete (t : TableStore) : Bool := t.entries.size == t.expressions.length

/-- The required rows that a filter accepts, in their order. -/
def select (t : TableStore) (f : Filter) : List Expression := t.expressions.filter f.accepts

/-- Only a required row can be looked up or filled. -/
def checkRow (t : TableStore) (e : Expression) : Except Error Unit :=
  if t.contains e then .ok () else .error (.foreignRow e.toQuery t.owner)

/-- The entry of a required row; there is none before it is filled. -/
def get? (t : TableStore) (e : Expression) : Except Error (Option Decimal) := do
  t.checkRow e
  return t.entries[Key.mk e]?

/-- The value that a row is about. -/
def ownValue (t : TableStore) (e : Expression) : Except Error Bool :=
  match e.hypothesis? t.owner with
  | some value => .ok value
  | none => .error (.noOwnHypothesis e.toQuery t.owner)

/-- The table with an entry. -/
def insert (t : TableStore) (e : Expression) (entry : Decimal) : TableStore :=
  { t with entries := t.entries.insert ⟨e⟩ entry }

/-- Fills a row with a probability, and then its counterpart with one minus that. -/
def putDecimal (e : Expression) (entry : Decimal) : Writing TableStore Unit := do
  if ¬entry.InUnit then
    throw (.decimalOutOfRange entry)
  Writing.check (·.checkRow e)
  let value ← Writing.check (·.ownValue e)
  let owner := (← get).owner
  let counterpart ← Writing.check fun _ => e.withHypothesis owner (!value)
  modify (·.insert e entry)
  modify (·.insert counterpart entry.complement)

/-- The same for a double, which is stored as the decimal that its plain text
reads as. -/
def put (e : Expression) (entry : Binary64) : Writing TableStore Unit := do
  if ¬entry.InUnit then
    throw (.doubleOutOfRange entry)
  match Decimal.parse? entry.text with
  | some decimal => putDecimal e decimal
  | none => throw (.notRepresentable entry)

/-- A line for each required row, with a question mark for what is missing. -/
def text (t : TableStore) : String :=
  String.join (t.expressions.map fun e =>
    let entry := match t.entries[Key.mk e]? with
      | some entry => entry.text
      | none => "?"
    e.text ++ " = " ++ entry ++ "\n")

end TableStore

end BeliefNet
