import BeliefNet.Error
import BeliefNet.Text.Word

/-!
# Command line options

The options name a scenario, queries, evidence, and the form of the output.

* `Command.ofArguments?` reads the arguments behind the program's name.
* `Options.observations` are the terms of the evidence.
-/

namespace BeliefNet

/-- How answers are printed. -/
inductive OutputFormat where
  /-- Lines for readers. -/
  | text
  /-- One JSON document. -/
  | json
  deriving DecidableEq, Repr

def OutputFormat.ofName? (name : String) : Option OutputFormat :=
  if name = "text" then some text else if name = "json" then some json else none

def OutputFormat.name : OutputFormat → String
  | text => "text"
  | json => "json"

structure Options where
  scenario : String
  /-- Answered in this order. -/
  queries : List String
  /-- Observed before the first query. -/
  evidence : List String
  format : OutputFormat
  deriving DecidableEq, Repr

/-- Reads `ID` or `~ID`, with blanks around both parts. -/
def Term.parse (s : String) : Except Error Term :=
  let trimmed := Text.trim s.toList
  let (id, value) := match trimmed with
    | '~' :: rest => (Text.trim rest, false)
    | id => (id, true)
  if id.isEmpty then
    .error (.invalidEvidence (String.ofList trimmed))
  else
    .ok ⟨String.ofList id, value⟩

/-- The evidence as terms. -/
def Options.observations (o : Options) : Except Error (List Term) :=
  o.evidence.mapM Term.parse

/-- What a program is called for. -/
inductive Command where
  | run (options : Options)
  | showHelp
  | showVersion
  deriving DecidableEq, Repr

/-- The options with a value. -/
inductive OptionName where
  | scenario
  | query
  | evidence
  | format
  deriving DecidableEq, Repr

/-- The options that have been read. The scenario and the format may be given
once, the others any number of times. -/
structure GivenOptions where
  scenario : Option String
  queries : List String
  evidence : List String
  format : Option OutputFormat

namespace GivenOptions

def none : GivenOptions := ⟨.none, [], [], .none⟩

/-- The options with their default values. -/
def complete (g : GivenOptions) : Options :=
  ⟨g.scenario.getD "sprinkler", g.queries, g.evidence, g.format.getD .text⟩

/-- The options with one value more, if it is allowed. -/
def add? (g : GivenOptions) (name : OptionName) (value : String) : Option GivenOptions :=
  match name with
  | .scenario => if g.scenario.isSome then .none else some { g with scenario := some value }
  | .query => some { g with queries := g.queries ++ [value] }
  | .evidence => some { g with evidence := g.evidence ++ [value] }
  | .format =>
    if g.format.isSome then .none
    else (OutputFormat.ofName? value).map fun format => { g with format := some format }

end GivenOptions

/-- What one argument is. -/
inductive Argument where
  /-- An option with its value in the same argument. -/
  | valued (name : OptionName) (value : String)
  /-- An option whose value is the next argument. -/
  | open (name : OptionName)
  | help
  | version
  /-- Two dashes, behind which no options stand. -/
  | terminator
  | unknown
  deriving DecidableEq, Repr

namespace Argument

def longName? (name : String) : Option OptionName :=
  if name = "scenario" then some .scenario
  else if name = "query" then some .query
  else if name = "evidence" then some .evidence
  else if name = "format" then some .format
  else none

def shortName? (c : Char) : Option OptionName :=
  if c = 'q' then some .query else if c = 'e' then some .evidence else none

/-- An argument behind two dashes: a name, and a value behind an equals
sign. -/
def ofLong (body : List Char) : Argument :=
  let name := String.ofList (body.takeWhile (· != '='))
  match longName? name, body.dropWhile (· != '=') with
  | some name, [] => .open name
  | some name, _ :: value => .valued name (String.ofList value)
  | none, [] => if name = "help" then .help else if name = "version" then .version else .unknown
  | none, _ :: _ => .unknown

/-- An argument behind one dash: a letter, and a value directly behind it or
behind an equals sign. -/
def ofShort (letter : Char) (rest : List Char) : Argument :=
  match shortName? letter with
  | some name =>
    match rest with
    | [] => .open name
    | '=' :: value => .valued name (String.ofList value)
    | value => .valued name (String.ofList value)
  | none => if letter = 'h' then .help else if letter = 'V' then .version else .unknown

def ofText (s : String) : Argument :=
  match s.toList with
  | ['-', '-'] => .terminator
  | '-' :: '-' :: body => ofLong body
  | '-' :: letter :: rest => ofShort letter rest
  | _ => .unknown

/-- An argument can be the value of the option before it: it has no dash in
front, or is a single dash. -/
def isValue (s : String) : Bool :=
  match s.toList with
  | ['-'] => true
  | '-' :: _ => false
  | _ => true

end Argument

namespace Command

/-- Reads arguments from left to right; the first that asks for help or the
version, or is not allowed, decides. -/
def read? (given : GivenOptions) : List String → Option Command
  | [] => some (.run given.complete)
  | argument :: rest =>
    match Argument.ofText argument, rest with
    | .valued name value, rest => (given.add? name value).bind fun given => read? given rest
    | .open name, value :: rest =>
      if Argument.isValue value then
        (given.add? name value).bind fun given => read? given rest
      else
        none
    | .help, _ => some .showHelp
    | .version, _ => some .showVersion
    | .terminator, [] => some (.run given.complete)
    | _, _ => none

/-- Reads the arguments behind the program's name. -/
def ofArguments? (arguments : List String) : Option Command :=
  read? .none arguments

end Command

end BeliefNet
