import BeliefNet.Term
import BeliefNet.Query.Token
import BeliefNet.Binary64.Text
import BeliefNet.Probability.Conversion

/-!
# Errors

What can go wrong when a network is built, filled or asked. An error is a
cause with the values that belong to it; its kind and its message follow from
that. Of two computations in a row the first that fails gives the error
(`bind_eq_ok_iff`, `bind_eq_error_iff`).
-/

namespace BeliefNet

inductive Error where
  /-- A character that starts no token. -/
  | unexpectedCharacter (c : Char) (position : Position)
  /-- A token where the grammar wants another. -/
  | unexpectedToken (found : TokenKind) (position : Position) (expected : Expectation)
  /-- A query names a variable that the network does not have. -/
  | undefinedReference (id : String)
  | noHypothesis
  /-- Two terms on one side of an expression contradict each other. -/
  | conflictingValues (id : String)
  /-- A variable stands on both sides of an expression. -/
  | sharedVariable (id : String)
  | invalidId (id : String)
  | duplicateVariable (id : String)
  | undefinedVariable (id : String)
  | cycle (parent child : String)
  | duplicateEdge (parent child : String)
  | doubleOutOfRange (entry : Binary64)
  | decimalOutOfRange (entry : Decimal)
  /-- A double without a decimal. -/
  | notRepresentable (entry : Binary64)
  /-- An expression that is no row of the table of `owner`. -/
  | foreignRow (row : Query) (owner : String)
  | noOwnHypothesis (row : Query) (owner : String)
  | incompleteTable (owner : String)
  /-- A total assignment has to select one row of each table. -/
  | rowCount (owner : String) (constraints : List Term) (found : Nat)
  | missingEntry (row : Query) (owner : String)
  /-- Too many free variables for their assignments to be counted. -/
  | tooManyFree (count : Nat)
  | productOverflow (product factor : Probability)
  | sumOverflow (term total : Probability)
  | quotientOverflow (numerator denominator : Probability)
  /-- The evidence of the query has probability zero. -/
  | impossibleEvidence (query : Query)
  /-- The answer to the query with this text has no decimal. -/
  | noDecimal (query : String) (answer : Probability)
  | unknownScenario (name : String)
  | invalidEvidence (term : String)
  deriving DecidableEq

/-- The kinds of errors that callers tell apart. -/
inductive ErrorKind where
  | lexical
  | syntactic
  | cycle
  | invalidArgument
  | notReady
  | impossibleEvidence
  deriving DecidableEq, Repr

namespace Error

def kind : Error → ErrorKind
  | unexpectedCharacter .. => .lexical
  | unexpectedToken .. | undefinedReference _ => .syntactic
  | cycle .. => .cycle
  | incompleteTable _ | rowCount .. | missingEntry .. => .notReady
  | impossibleEvidence _ => .impossibleEvidence
  | noHypothesis | conflictingValues _ | sharedVariable _ | invalidId _ | duplicateVariable _
  | undefinedVariable _ | duplicateEdge .. | doubleOutOfRange _ | decimalOutOfRange _
  | notRepresentable _ | foreignRow .. | noOwnHypothesis .. | tooManyFree _ | productOverflow ..
  | sumOverflow .. | quotientOverflow .. | noDecimal .. | unknownScenario _
  | invalidEvidence _ => .invalidArgument

/-- The cause in words. -/
def detail : Error → String
  | unexpectedCharacter c _ => s!"Unexpected character '{c}'"
  | unexpectedToken found position expected =>
    s!"Syntax error at {position}: found {found} when expecting {expected}"
  | undefinedReference id => s!"The referenced variable {id} is not defined"
  | noHypothesis => "You must specify at least one hypothesis"
  | conflictingValues id => s!"Variable '{id}' is assigned both true and false"
  | sharedVariable id =>
    s!"You cannot reference the same variable '{id}' as a hypothesis and as evidence"
  | invalidId id => s!"'{id}' is not a valid variable id"
  | duplicateVariable id => s!"A variable with an id of '{id}' is already defined"
  | undefinedVariable id =>
    s!"A variable with an id of '{id}' has not been defined for this network"
  | cycle parent child =>
    s!"The creation of an edge from node '{parent}' to node '{child}' introduces a cycle"
  | duplicateEdge parent child => s!"An edge from '{parent}' to '{child}' already exists"
  | doubleOutOfRange entry => s!"prob must be between 0.0 and 1.0, got {entry}"
  | decimalOutOfRange entry => s!"prob must be between 0.0 and 1.0, got {entry}"
  | notRepresentable entry => s!"Cannot represent {entry}"
  | foreignRow row owner =>
    s!"The probability expression {row} is not valid for variable {owner}"
  | noOwnHypothesis row owner => s!"{row} has no hypothesis for {owner}"
  | incompleteTable owner =>
    s!"Random variable {owner} does not have all of its required probabilities set"
  | rowCount owner constraints found =>
    let shown := Term.listText constraints
    s!"expected one row of the CPT for {owner} to match P({shown}), found {found}"
  | missingEntry row owner => s!"{owner} has no probability for {row}"
  | tooManyFree count => s!"{count} free variables is too many to enumerate"
  | productOverflow product factor => s!"overflow multiplying {product} by {factor}"
  | sumOverflow term total => s!"overflow adding {term} to {total}"
  | quotientOverflow numerator denominator => s!"cannot divide {numerator} by {denominator}"
  | impossibleEvidence query => query.text
  | noDecimal query answer => s!"{query} = {answer} cannot be represented as a Decimal"
  | unknownScenario name => s!"Unknown ScenarioMaker type '{name}'"
  | invalidEvidence term => s!"'{term}' is not a valid evidence term"

/-- The whole message: the kind, where the cause does not speak for itself,
and the cause. -/
def message (e : Error) : String :=
  match e, e.kind with
  | unexpectedCharacter _ position, _ => s!"Lexical error at {position}: " ++ e.detail
  | _, .invalidArgument => "Invalid argument: " ++ e.detail
  | _, .notReady => "Network not ready: " ++ e.detail
  | _, .impossibleEvidence => "Evidence has zero probability: " ++ e.detail
  | _, _ => e.detail

end Error

/-! ## Computations that can fail -/

theorem bind_eq_ok_iff {α β : Type} {x : Except Error α} {f : α → Except Error β} {b : β} :
    x >>= f = .ok b ↔ ∃ a, x = .ok a ∧ f a = .ok b := by
  cases x with
  | error _ => exact ⟨nofun, nofun⟩
  | ok a => exact ⟨fun h => ⟨a, rfl, h⟩, fun ⟨_, rfl, h⟩ => h⟩

theorem bind_eq_error_iff {α β : Type} {x : Except Error α} {f : α → Except Error β} {e : Error} :
    x >>= f = .error e ↔ x = .error e ∨ ∃ a, x = .ok a ∧ f a = .error e := by
  cases x with
  | error _ => simp [bind, Except.bind]
  | ok _ => simp [bind, Except.bind]

end BeliefNet
