import BeliefNet.Expression

/-!
# Filters

A filter is a partial assignment that selects expressions: those which
contradict it in no term.
-/

namespace BeliefNet

/-- A partial assignment with one constraint for each of its variables. -/
structure Filter where
  constraints : List Term
  deriving DecidableEq, Repr

namespace Filter

/-- The filter with these constraints. The last value of a variable counts, in
the place of its first mention; without a constraint there is no filter. -/
def ofTerms (constraints : List Term) : Except Error Filter :=
  if constraints.isEmpty then
    .error .noHypothesis
  else
    .ok ⟨constraints.foldl Term.assign []⟩

/-- The value that a variable is constrained to. -/
def value? (f : Filter) (id : String) : Option Bool :=
  Term.value? f.constraints id

/-- The expression contradicts no constraint. -/
def accepts (f : Filter) (e : Expression) : Bool :=
  e.terms.all fun t =>
    match f.value? t.id with
    | none => true
    | some value => value == t.value

/-- The written form, that of a query without evidence. -/
def text (f : Filter) : String := (Query.mk f.constraints []).text

end Filter

end BeliefNet
