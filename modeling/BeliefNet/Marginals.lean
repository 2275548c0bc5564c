import BeliefNet.Inference

/-!
# Questions to a network

Queries are asked as text. The marginals are the probabilities of all
variables given the evidence, with the label of each.

* `Network.query`, `Network.queryDecimal` and `Network.queryDouble` answer a
  text.
* `Network.probability` is the probability of one variable given the evidence.
* `Network.marginals` lists those of all variables.
-/

namespace BeliefNet

/-- The probability of a variable given the evidence. -/
structure Marginal where
  id : String
  label : String
  probability : Binary64
  deriving DecidableEq

structure Marginals where
  /-- The terms of the evidence, as text. -/
  evidence : String
  entries : List Marginal
  deriving DecidableEq

namespace Marginals

/-- The first probability for an id. -/
def get? (m : Marginals) (id : String) : Option Binary64 :=
  (m.entries.find? (·.id == id)).map (·.probability)

/-- The width of the column of names. It is measured in bytes of UTF-8, so
names beyond ASCII get more than they need. -/
def width (m : Marginals) : Nat :=
  (m.entries.map fun e => e.label.utf8ByteSize + e.id.utf8ByteSize + 3).foldl max 0

/-- The evidence, if there is any, and a line for each variable with five
places. -/
def text (m : Marginals) : String :=
  let condition := if m.evidence.isEmpty then "" else "given " ++ m.evidence ++ "\n"
  let lines := m.entries.map fun e =>
    let name := e.label ++ " (" ++ e.id ++ ")"
    let padding := String.ofList (List.replicate (m.width - name.length) ' ')
    name ++ padding ++ " = " ++ e.probability.fixed 5 ++ "\n"
  condition ++ String.join lines

end Marginals

namespace Network

/-- The answer to a query. The tables have to be complete before the text is
read. -/
def query (n : Network) (text : String) : Except Error Probability := do
  n.checkReady
  n.infer (← n.parseQuery text)

/-- The answer as the nearest double. -/
def queryDouble (n : Network) (text : String) : Except Error Binary64 :=
  (n.query text).map (·.toBinary64)

/-- The answer as a decimal, if it is not too small for one. -/
def queryDecimal (n : Network) (text : String) : Except Error Decimal := do
  let answer ← n.query text
  match answer.toDecimal? with
  | some d => return d
  | none => throw (.noDecimal text answer)

/-- The probability that a variable is true given the evidence. -/
def probability (n : Network) (id : String) : Except Error Binary64 := do
  let _ ← n.require id
  n.checkReady
  return (← n.infer ⟨[⟨id, true⟩], n.evidence⟩).toBinary64

/-- The probabilities of all variables, in the order of their definition. -/
def marginals (n : Network) : Except Error Marginals := do
  let entries ← n.nodes.mapM fun v => do
    return (⟨v.id, v.label, ← n.probability v.id⟩ : Marginal)
  return ⟨Term.listText n.evidence, entries⟩

end Network

end BeliefNet
