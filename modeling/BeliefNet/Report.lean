import BeliefNet.Document
import BeliefNet.Options
import BeliefNet.Scenario
import BeliefNet.Store.Inference

/-!
# Reports

A run of the program observes the evidence in a scenario, answers the queries,
and lists the marginals. What it prints before a failure stays printed, and
the failure is printed behind it.

* `Options.report` is the run for some options.
* `Output.ofArguments` is the output and the exit code of the program.
-/

namespace BeliefNet

/-- The colours of a terminal that reports use. -/
inductive Colour where
  | red
  | green
  | yellow
  | blue
  deriving DecidableEq, Repr

def Colour.code : Colour → String
  | red => "31"
  | green => "32"
  | yellow => "33"
  | blue => "34"

/-- A text between the codes that set a colour and reset it. -/
def Colour.paint (c : Colour) (s : String) : String :=
  "\x1b[" ++ c.code ++ "m" ++ s ++ "\x1b[0m"

/-- An error, and what was being done. -/
structure Failure where
  context : Option String
  cause : Error
  deriving DecidableEq

def Failure.text (f : Failure) : String :=
  match f.context with
  | some context => context ++ ": " ++ f.cause.message
  | none => f.cause.message

/-- Why a run ends early. -/
inductive Stop where
  | failure (f : Failure)
  /-- An exponent has overflowed, which is not reported. -/
  | overflow
  deriving DecidableEq

/-- A part of a run, which prints and may end early. -/
abbrev Printing := ExceptT Stop (StateM String)

namespace Printing

variable {α : Type}

def line (s : String) : Printing Unit :=
  modify (· ++ s ++ "\n")

/-- A result, with what was being done if there is none. -/
def orFail (context : Option String) : Except Error α → Printing α
  | .ok a => pure a
  | .error cause => throw (.failure ⟨context, cause⟩)

/-- The same for what may overflow. -/
def orStop (context : Option String) (c : Calculation α) : Printing α :=
  match c.run with
  | .ok found => orFail context found
  | .error .exponent => throw .overflow

end Printing

open Printing

/-- A query and its answer. -/
structure Answer where
  query : String
  probability : Binary64
  deriving DecidableEq

namespace Answer

/-- The line of an answer. -/
def text (a : Answer) : String :=
  a.query ++ " = " ++ Colour.green.paint a.probability.text

def document (a : Answer) : Document :=
  .record [("query", .text a.query), ("probability", .number a.probability)]

/-- The answer of a network to a query. -/
def ofQuery (s : Store) (query : String) : Printing Answer := do
  return ⟨query, ← orStop (some ("failed to evaluate " ++ query)) (s.queryDouble query)⟩

end Answer

/-- Two explanations of wet grass, for one kind of sky. -/
structure Comparison where
  sky : String
  rain : String
  sprinkler : String

/-- What the sprinkler network is asked if nothing is asked. -/
def comparisons : List Comparison :=
  [⟨"cloudy", "P(R|W,C)", "P(S|W,C)"⟩, ⟨"clear", "P(R|W,~C)", "P(S|W,~C)"⟩]

/-- Answers both queries of a comparison, and in text says which explanation
is the more probable one; rain is if they are equal. -/
def Comparison.answers (c : Comparison) (s : Store) (format : OutputFormat) :
    Printing (List Answer) := do
  let rain ← Answer.ofQuery s c.rain
  let sprinkler ← Answer.ofQuery s c.sprinkler
  if format = .text then
    line (Colour.blue.paint
      ("The grass is wet and the sky is " ++ c.sky ++ ". What is the most probable cause?"))
    line rain.text
    line sprinkler.text
    let cause := if sprinkler.probability.le rain.probability then "rain" else "the sprinkler"
    line (Colour.yellow.paint ("Most probable cause: " ++ cause))
  return [rain, sprinkler]

/-- The answer to a query of the command line. -/
def answerQuery (s : Store) (format : OutputFormat) (query : String) : Printing Answer := do
  let answer ← Answer.ofQuery s query
  if format = .text then
    line answer.text
  return answer

namespace Options

/-- The network of the scenario with the evidence observed. -/
def network (o : Options) : Printing Store := do
  let s ← orFail (some ("failed to build scenario '" ++ o.scenario ++ "'"))
    (Scenario.build o.scenario)
  let observations ← orFail none o.observations
  observations.foldlM (fun s t => do
    let (result, session) := (Store.setEvidence t).apply ⟨s, []⟩
    orFail (some ("cannot observe " ++ t.text)) result
    return session.store) s

/-- The answers to the queries, or to the comparisons of the sprinkler
network. -/
def answers (o : Options) (s : Store) : Printing (List Answer) := do
  if o.queries.isEmpty && o.scenario == "sprinkler" then
    return (← comparisons.mapM fun c => c.answers s o.format).flatten
  else
    o.queries.mapM (answerQuery s o.format)

/-- The run for some options. -/
def report (o : Options) : Printing Unit := do
  let s ← o.network
  let answers ← o.answers s
  let marginals ← orStop (some "failed to compute marginals") s.marginals
  match o.format with
  | .text =>
    line (Colour.green.paint "Marginals")
    modify (· ++ marginals.text)
  | .json =>
    let document : Document := .record
      [("scenario", .text o.scenario), ("answers", .list (answers.map Answer.document)),
        ("marginals", marginals.document)]
    line (document.indented 0)

end Options

/-- The program's name and version. -/
def versionText : String := "BAYESNET 0.1\n"

def helpText : String :=
  "Exact inference over boolean Bayesian networks.\n\n" ++
  "Usage: BAYESNET [OPTIONS]\n\n" ++
  "Options:\n" ++
  "      --scenario <STRING>  Sets the network to load [default: sprinkler]\n" ++
  "  -q, --query <EXPR>       A query such as 'P(R|W,C)'; may be repeated\n" ++
  "  -e, --evidence <[~]ID>   Observed value of a variable, '~' for false; may be repeated\n" ++
  "      --format <format>    Output format: 'text' or 'json' [default: text]\n" ++
  "  -h, --help               Print help\n" ++
  "  -V, --version            Print version\n"

/-- The exit code and the standard output of the program. -/
structure Output where
  exitCode : UInt32
  text : String
  deriving DecidableEq

/-- What the program does for its arguments. Arguments that are not allowed
give code 2 and print nothing here; a failure gives code 1 and is printed in
red; an overflow gives code 101 and ends the output. -/
def Output.ofArguments (arguments : List String) : Output :=
  match Command.ofArguments? arguments with
  | none => ⟨2, ""⟩
  | some .showHelp => ⟨0, helpText⟩
  | some .showVersion => ⟨0, versionText⟩
  | some (.run options) =>
    match (ExceptT.run options.report).run "" with
    | (.ok (), printed) => ⟨0, printed⟩
    | (.error (.failure f), printed) => ⟨1, printed ++ Colour.red.paint f.text ++ "\n"⟩
    | (.error .overflow, printed) => ⟨101, printed⟩

end BeliefNet
