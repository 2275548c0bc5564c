import BeliefNet.Store.Update

/-!
# Built-in networks

A scenario is a list of definitions: variables with labels, edges, and the
entries of the tables.

* `Scenario.sprinkler` is the classic of the wet grass.
* `Scenario.disease` is a rare disease and an imperfect test for it.
-/

namespace BeliefNet

/-- A network in the order in which it is built. -/
structure Scenario where
  /-- Ids and labels. -/
  nodes : List (String × String)
  edges : List Edge
  /-- The owner of a table, a row as text, and its entry. -/
  entries : List (String × String × Binary64)

namespace Scenario

/-- The double nearest to a number of hundredths. -/
def hundredths (n : Nat) : Binary64 := .nearest false n 100

/-- Cloudy weather drives both the sprinkler and the rain, and either wets the
grass. -/
def sprinkler : Scenario where
  nodes := [("C", "Cloudy"), ("S", "Sprinkler"), ("R", "Raining"), ("W", "Wet Grass")]
  edges := [⟨"C", "S"⟩, ⟨"C", "R"⟩, ⟨"S", "W"⟩, ⟨"R", "W"⟩]
  entries :=
    [("C", "P(C)", hundredths 50),
      ("S", "P(S|C)", hundredths 10), ("S", "P(S|~C)", hundredths 50),
      ("R", "P(R|C)", hundredths 80), ("R", "P(R|~C)", hundredths 20),
      ("W", "P(W|S,R)", hundredths 99), ("W", "P(W|S,~R)", hundredths 90),
      ("W", "P(W|~S,R)", hundredths 90), ("W", "P(W|~S,~R)", hundredths 0)]

/-- A rare disease, and a test that is wrong in one case of twenty. -/
def disease : Scenario where
  nodes := [("D", "Disease"), ("T", "Positive Test")]
  edges := [⟨"D", "T"⟩]
  entries :=
    [("D", "P(D)", hundredths 1), ("T", "P(T|D)", hundredths 95), ("T", "P(T|~D)", hundredths 5)]

/-- The scenario with a name. -/
def named (name : String) : Except Error Scenario :=
  if name = "sprinkler" then
    .ok sprinkler
  else if name = "disease" then
    .ok disease
  else
    .error (.unknownScenario name)

open Store (Edit)

/-- Builds the scenario in a network, until something fails. -/
def setup (s : Scenario) : Edit Unit := do
  for (id, label) in s.nodes do
    let _ ← Store.newVariable id (some label)
  for edge in s.edges do
    Store.addEdge edge
  for (id, row, entry) in s.entries do
    Store.put id row entry

/-- A network of its own for the scenario with a name. -/
def build (name : String) : Except Error Store := do
  let scenario ← named name
  let (result, session) := scenario.setup.apply ⟨.empty, []⟩
  result
  return session.store

end Scenario

end BeliefNet
