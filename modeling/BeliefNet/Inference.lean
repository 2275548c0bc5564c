import BeliefNet.Network.Basic

/-!
# Exact inference by enumeration

The joint probability of some terms is the sum, over all assignments of the
variables that they leave free, of the product of the entries that the total
assignment selects in the tables. A conditional probability is a quotient of
two joint probabilities. Sums and products are rounded as `Probability` says;
an answer has five significant digits.

* `completions` are the assignments of the free variables.
* `Network.product` is the product for one total assignment.
* `Network.joint` is the sum.
* `Network.infer` answers a query.

`Store.infer` is the same in a stored network, where exponents may overflow.
-/

namespace BeliefNet

/-- The number of significant digits of an answer. -/
def significantDigits : Nat := 5

/-- All assignments of some variables, the value of the first one varying
fastest, and true before false. -/
def completions : List String → List (List Term)
  | [] => [[]]
  | id :: ids =>
    (completions ids).flatMap fun rest => [true, false].map fun value => ⟨id, value⟩ :: rest

namespace Network

/-- The entry that a total assignment selects in the table of a variable. -/
def entry (f : Filter) (v : Variable) : Except Error Decimal :=
  match v.table.select f with
  | [row] =>
    match row.entry with
    | some entry => .ok entry
    | none => .error (.missingEntry row.expression.toQuery v.id)
  | rows => .error (.rowCount v.id f.constraints rows.length)

/-- The product of the entries that a total assignment selects, multiplied
onto `product`; a product of zero is not multiplied further. -/
def productFrom (f : Filter) (product : Probability) : List Variable → Except Error Probability
  | [] => .ok product
  | v :: nodes => do
    let factor := Probability.ofDecimal (← entry f v)
    match product.mul? factor with
    | none => throw (.productOverflow product factor)
    | some product => if product.isZero then return product else productFrom f product nodes

/-- The probability of a total assignment. -/
def product (n : Network) (f : Filter) : Except Error Probability :=
  productFrom f .one n.nodes

/-- The variables that no term fixes. -/
def free (n : Network) (fixed : List Term) : List String :=
  (n.nodes.map (·.id)).filter fun id => !fixed.any (·.id == id)

/-- The joint probability of some terms, of which the last one for a variable
counts. Terms for variables that the network does not have are ignored. -/
def joint (n : Network) (fixed : List Term) : Except Error Probability := do
  n.checkReady
  let free := n.free fixed
  if fixed.isEmpty && free.isEmpty then
    return .one
  if 64 ≤ free.length then
    throw (.tooManyFree free.length)
  (completions free).foldlM (fun total completion => do
    let f ← Filter.ofTerms (fixed ++ completion)
    let term ← n.product f
    match total.add? term with
    | some sum => return sum
    | none => throw (.sumOverflow term total)) .zero

/-- A query has a hypothesis, and its variables are defined. -/
def checkQuery (n : Network) (q : Query) : Except Error Unit :=
  if q.hypotheses.isEmpty then
    .error .noHypothesis
  else
    match q.terms.find? fun t => !n.contains t.id with
    | some t => .error (.undefinedVariable t.id)
    | none => .ok ()

/-- The probability of the hypotheses given the evidence. Contradicting terms
have probability zero, whatever the tables say. -/
def infer (n : Network) (q : Query) : Except Error Probability := do
  n.checkQuery q
  match Term.merge q.terms with
  | .error _ => return .zero
  | .ok fixed =>
    let numerator ← n.joint fixed
    if q.hasEvidence then
      let denominator ← n.joint ((Term.merge q.evidence).toOption.getD [])
      if denominator.isZero then
        throw (.impossibleEvidence q)
      match numerator.div? denominator with
      | some quotient => return quotient.roundSignificant significantDigits
      | none => throw (.quotientOverflow numerator denominator)
    else
      return numerator.roundSignificant significantDigits

end Network

end BeliefNet
