import BeliefNet.Marginals
import BeliefNet.Store.Basic

/-!
# Inference in a stored network

A joint probability counts through the assignments of the variables that are free:
the digits of the number, base two, are their values. The products and sums on the way
are those that count their exponents in 32 bits, so a calculation ends in a result, in
an error, or in an overflow (`Calculation`).

* `completionAt` is the assignment with a number.
* `Store.joint` adds up the products of all of them.
* `Store.infer` answers a query.
* `Store.query` and its relatives answer a text, and `Store.marginals` lists the
  probabilities of all variables.
-/

namespace BeliefNet

/-- The assignment with the number `c`: the first variable has the last of its binary
digits, and a digit 0 is the value true. -/
def completionAt (ids : List String) (c : Nat) : List Term :=
  ids.mapIdx fun i id => ⟨id, !c.testBit i⟩

/-- What may end in a result or an error, unless an exponent overflows on the way. -/
abbrev Calculation := ExceptT Error (Except Probability.Overflow)

namespace Calculation

/-- The number that an operation comes to. -/
def ofSteps (number : Except Probability.Overflow Probability) : Calculation Probability :=
  ExceptT.lift number

/-- The number that an operation comes to, or an error if it has none. -/
def orThrow (e : Error) :
    Option (Except Probability.Overflow Probability) → Calculation Probability
  | some number => ofSteps number
  | none => throw e

end Calculation

open Calculation

namespace Store

/-- The entry that a total assignment selects in the table of a variable. -/
def entry (f : Filter) (v : Node) : Except Error Decimal :=
  match v.table.select f with
  | [row] => do
    match ← v.table.get? row with
    | some entry => return entry
    | none => throw (.missingEntry row.toQuery v.id)
  | rows => .error (.rowCount v.id f.constraints rows.length)

/-- The product of the entries that a total assignment selects, multiplied onto
`product`; a product of zero is not multiplied further. -/
def productFrom (f : Filter) (product : Probability) : List Node → Calculation Probability
  | [] => pure product
  | v :: nodes => do
    let factor := Probability.ofDecimal (← ofExcept (entry f v))
    let product ← orThrow (.productOverflow product factor) (product.mul factor)
    if product.isZero then return product else productFrom f product nodes

/-- The probability of a total assignment. -/
def product (s : Store) (f : Filter) : Calculation Probability := productFrom f .one s.nodes

/-- The variables that no term fixes. -/
def free (s : Store) (fixed : List Term) : List String :=
  (s.nodes.map (·.id)).filter fun id => !fixed.any (·.id == id)

/-- The sum with the probability of one completion more. -/
def addCompletion (s : Store) (fixed : List Term) (total : Probability) (c : Nat) :
    Calculation Probability := do
  let f ← ofExcept (Filter.ofTerms (fixed ++ completionAt (s.free fixed) c))
  let term ← s.product f
  orThrow (.sumOverflow term total) (total.add term)

/-- The sum with those of the next `count` completions, from the number `c` on. -/
def addCompletions (s : Store) (fixed : List Term) (total : Probability) (c : Nat) :
    Nat → Calculation Probability
  | 0 => pure total
  | count + 1 => do s.addCompletions fixed (← s.addCompletion fixed total c) (c + 1) count

/-- The joint probability of some terms, of which the last one for a variable
counts. Terms for variables that the network does not have are ignored. -/
def joint (s : Store) (fixed : List Term) : Calculation Probability := do
  ofExcept s.checkReady
  let free := s.free fixed
  if fixed.isEmpty && free.isEmpty then
    return .one
  if 64 ≤ free.length then
    throw (.tooManyFree free.length)
  s.addCompletions fixed .zero 0 (twoPow free.length)

/-- A query has a hypothesis, and its variables are defined. -/
def checkQuery (s : Store) (q : Query) : Except Error Unit :=
  if q.hypotheses.isEmpty then
    .error .noHypothesis
  else
    match q.terms.find? fun t => !s.contains t.id with
    | some t => .error (.undefinedVariable t.id)
    | none => .ok ()

/-- The probability of the hypotheses given the evidence. Contradicting terms
have probability zero, whatever the tables say. -/
def infer (s : Store) (q : Query) : Calculation Probability := do
  ofExcept (s.checkQuery q)
  match Term.merge q.terms with
  | .error _ => return .zero
  | .ok fixed =>
    let numerator ← s.joint fixed
    if q.hasEvidence then
      let denominator ← s.joint ((Term.merge q.evidence).toOption.getD [])
      if denominator.isZero then
        throw (.impossibleEvidence q)
      let quotient ← orThrow (.quotientOverflow numerator denominator) (numerator.div denominator)
      ofSteps (quotient.roundDigits significantDigits)
    else
      ofSteps (numerator.roundDigits significantDigits)

/-! ## Questions -/

/-- The answer to a query. The tables have to be complete before the text is
read. -/
def query (s : Store) (text : String) : Calculation Probability := do
  ofExcept s.checkReady
  s.infer (← ofExcept (s.parseQuery text))

/-- The answer as the nearest double. -/
def queryDouble (s : Store) (text : String) : Calculation Binary64 := do
  return (← s.query text).toBinary64

/-- The answer as a decimal, if it is not too small for one. -/
def queryDecimal (s : Store) (text : String) : Calculation Decimal := do
  let answer ← s.query text
  match answer.toDecimal? with
  | some d => return d
  | none => throw (.noDecimal text answer)

/-- The probability that a variable is true given the evidence. -/
def probability (s : Store) (id : String) : Calculation Binary64 := do
  let _ ← ofExcept (s.require id)
  ofExcept s.checkReady
  return (← s.infer ⟨[⟨id, true⟩], s.evidence⟩).toBinary64

/-- The probabilities of all variables, in the order of their definition. -/
def marginals (s : Store) : Calculation Marginals := do
  let entries ← s.nodes.mapM fun v => do
    return (⟨v.id, v.label, ← s.probability v.id⟩ : Marginal)
  return ⟨Term.listText s.evidence, entries⟩

end Store

end BeliefNet
