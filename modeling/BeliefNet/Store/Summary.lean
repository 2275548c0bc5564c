import BeliefNet.Store.Basic
import BeliefNet.Text.Hidden

/-!
# Networks in one line

For diagnosis a network is written with its variables, edges and evidence, and
the number of its listeners. Ids stand in quotes. They are words, so the only
characters in them that are escaped are those that would not be seen where they
stand.
-/

namespace BeliefNet

/-- The digits of a code point, base sixteen. -/
def codePoint (c : Char) : String :=
  String.ofList (Nat.toDigits 16 c.toNat)

/-- A word in quotes, with its hidden characters escaped. -/
def quotedWord (word : String) : String :=
  let escaped := word.toList.map fun c =>
    if Text.isHidden c then "\\u\x7b" ++ codePoint c ++ "\x7d" else c.toString
  "\"" ++ String.join escaped ++ "\""

def Edge.summary (e : Edge) : String :=
  "Edge \x7b parent: " ++ quotedWord e.parent ++ ", child: " ++ quotedWord e.child ++ " \x7d"

namespace Store

/-- The network in one line. -/
def summary (s : Store) : String :=
  let nodes := ", ".intercalate (s.nodes.map fun v => quotedWord v.id)
  let edges := ", ".intercalate (s.edges.map Edge.summary)
  let evidence := ", ".intercalate (s.evidence.map fun t =>
    quotedWord t.id ++ ": " ++ toString t.value)
  let listeners := toString s.listeners.registered.length
  "Network \x7b variables: [" ++ nodes ++ "], edges: [" ++ edges ++ "], evidence: \x7b" ++
    evidence ++ "\x7d, listeners: " ++ listeners ++ " \x7d"

end Store

end BeliefNet
