/-!
# Terms and queries

A term says that a variable has a truth value. A list of terms is a partial
assignment; where it names a variable twice, the functions here say which
mention counts.

A query asks for the probability of its hypotheses, given its evidence. It
keeps its terms as they were written: a variable may occur several times, on
both sides and with both values.
-/

namespace BeliefNet

/-- The variable `id` has the value `value`. -/
structure Term where
  id : String
  value : Bool
  deriving DecidableEq, Repr

namespace Term

/-- The id, behind a tilde if the value is false. -/
def chars (t : Term) : List Char :=
  if t.value then t.id.toList else '~' :: t.id.toList

def text (t : Term) : String := String.ofList t.chars

instance : ToString Term := ⟨text⟩

/-- The order by id, and false before true for the same id. -/
def le (a b : Term) : Bool :=
  if a.id = b.id then !a.value || b.value else decide (a.id < b.id)

/-- Terms with commas between them. -/
def listChars (terms : List Term) : List Char :=
  [','].intercalate (terms.map chars)

def listText (terms : List Term) : String := String.ofList (listChars terms)

/-- The value of the first term for an id. -/
def value? (terms : List Term) (id : String) : Option Bool :=
  (terms.find? (·.id == id)).map (·.value)

/-- The terms with the first one for the id of `t` given the value of `t`, or
with `t` at the end if there is none. -/
def assign : List Term → Term → List Term
  | [], t => [t]
  | u :: terms, t => if u.id = t.id then t :: terms else u :: assign terms t

/-- The terms without repetitions, in the order of their first mention, or the
id of the first term that contradicts an earlier one. -/
def merge (terms : List Term) : Except String (List Term) :=
  terms.foldlM (fun merged t =>
    match value? merged t.id with
    | none => .ok (merged ++ [t])
    | some value => if value = t.value then .ok merged else .error t.id) []

end Term

/-- The terms of `P(hypotheses|evidence)`. -/
structure Query where
  hypotheses : List Term
  evidence : List Term
  deriving DecidableEq, Repr

namespace Query

def hasEvidence (q : Query) : Bool := !q.evidence.isEmpty

/-- All terms, the hypotheses first. -/
def terms (q : Query) : List Term := q.hypotheses ++ q.evidence

/-- The written form; the bar stands only before evidence. -/
def chars (q : Query) : List Char :=
  let condition := if q.hasEvidence then '|' :: Term.listChars q.evidence else []
  'P' :: '(' :: (Term.listChars q.hypotheses ++ condition ++ [')'])

def text (q : Query) : String := String.ofList q.chars

instance : ToString Query := ⟨text⟩

end Query

end BeliefNet
