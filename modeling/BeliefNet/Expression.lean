import BeliefNet.Query.Lexer

/-!
# Expressions

An expression is a query in which every variable occurs once, and at least one
as a hypothesis. Expressions address the rows of tables. Two of them mean the
same if each side has the same terms in any order; the order in which the
terms were given is kept for printing.

* `Expression.ofTerms` builds one, without repetitions.
* `Expression.key` is what equality and look-up compare.
* `Expression.hashItems` is what a hash function is given of it.
-/

namespace BeliefNet

/-- A query in which every variable occurs once. -/
structure Expression extends Query
  deriving DecidableEq, Repr

namespace Expression

/-- The expression with these terms. Repetitions are dropped; contradictions,
a missing hypothesis and a variable on both sides are refused, in this
order. -/
def ofTerms (hypotheses evidence : List Term) : Except Error Expression :=
  match Term.merge hypotheses with
  | .error id => .error (.conflictingValues id)
  | .ok hypotheses =>
    match Term.merge evidence with
    | .error id => .error (.conflictingValues id)
    | .ok evidence =>
      if hypotheses.isEmpty then
        .error .noHypothesis
      else
        match hypotheses.find? fun h => evidence.any (·.id == h.id) with
        | some shared => .error (.sharedVariable shared.id)
        | none => .ok ⟨⟨hypotheses, evidence⟩⟩

def ofQuery (q : Query) : Except Error Expression :=
  ofTerms q.hypotheses q.evidence

/-- Reads an expression whose variables are all defined. -/
def parse (defined : String → Bool) (text : String) : Except Error Expression :=
  Query.parse defined text >>= ofQuery

/-- The same, while the tokens come in. -/
def read (defined : String → Bool) (text : String) : Except Error Expression :=
  Query.read defined text >>= ofQuery

def text (e : Expression) : String := e.toQuery.text

/-- The value of a hypothesis. -/
def hypothesis? (e : Expression) (id : String) : Option Bool :=
  Term.value? e.hypotheses id

/-- The value of a variable in the evidence. -/
def evidence? (e : Expression) (id : String) : Option Bool :=
  Term.value? e.evidence id

/-- The expression with a hypothesis set to a value, in its place if it is
there and behind the others if it is not. -/
def withHypothesis (e : Expression) (id : String) (value : Bool) : Except Error Expression :=
  ofTerms (Term.assign e.hypotheses ⟨id, value⟩) e.evidence

/-- The terms of each side in ascending order. -/
def key (e : Expression) : List Term × List Term :=
  (e.hypotheses.mergeSort Term.le, e.evidence.mergeSort Term.le)

/-- The expressions have the same terms on each side. -/
def same (a b : Expression) : Bool :=
  decide (a.key = b.key)

/-- A value that a hash function is given. -/
inductive HashItem where
  /-- The length of a list, ahead of its elements. -/
  | count (length : Nat)
  | id (id : String)
  | value (value : Bool)
  deriving DecidableEq, Hashable, Repr

/-- The items of a side: how many terms it has, and each of them in turn. -/
def sideItems (terms : List Term) : List HashItem :=
  .count terms.length :: terms.flatMap fun t => [.id t.id, .value t.value]

/-- The items of an expression. They are taken from the key, so expressions
that are the same have the same hash. -/
def hashItems (e : Expression) : List HashItem :=
  sideItems e.key.1 ++ sideItems e.key.2

end Expression

end BeliefNet
