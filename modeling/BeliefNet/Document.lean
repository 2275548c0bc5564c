import BeliefNet.Marginals

/-!
# JSON documents

Values that hold texts, doubles, lists and records are written as JSON, on one
line or indented. The fields of a record keep their order.

* `Document.compact` writes without spaces, `Document.indented` with a line
  for each item.
* `Document.quoted` is the text of a string.
-/

namespace BeliefNet

inductive Document where
  | text (content : String)
  /-- A value that is not finite has no number in JSON and is written as
  null. -/
  | number (value : Binary64)
  | list (items : List Document)
  | record (fields : List (String × Document))

namespace Document

/-- A character of a string: quotes, backslashes and controls are escaped. -/
def escaped (c : Char) : List Char :=
  if c = '"' then ['\\', '"']
  else if c = '\\' then ['\\', '\\']
  else if c = '\x08' then ['\\', 'b']
  else if c = '\x0c' then ['\\', 'f']
  else if c = '\n' then ['\\', 'n']
  else if c = '\r' then ['\\', 'r']
  else if c = '\t' then ['\\', 't']
  else if c.toNat < 0x20 then
    ['\\', 'u'] ++ (Nat.toDigits 16 c.toNat).leftpad 4 '0'
  else [c]

/-- A text in quotes. -/
def quoted (s : String) : String :=
  String.ofList ('"' :: (s.toList.flatMap escaped ++ ['"']))

def numberText (x : Binary64) : String :=
  x.document?.getD "null"

mutual

/-- The document without spaces. -/
def compact : Document → String
  | text content => quoted content
  | number value => numberText value
  | list items => "[" ++ ",".intercalate (compactItems items) ++ "]"
  | record fields => "\x7b" ++ ",".intercalate (compactFields fields) ++ "\x7d"

def compactItems : List Document → List String
  | [] => []
  | item :: items => compact item :: compactItems items

def compactFields : List (String × Document) → List String
  | [] => []
  | (name, value) :: fields => (quoted name ++ ":" ++ compact value) :: compactFields fields

end

/-- Items between brackets, each on a line of its own two spaces further in
than the closing bracket. -/
def block (opening closing : String) (depth : Nat) (items : List String) : String :=
  if items.isEmpty then
    opening ++ closing
  else
    let margin (depth : Nat) : String := "\n" ++ String.ofList (List.replicate (2 * depth) ' ')
    opening ++ margin (depth + 1) ++ ("," ++ margin (depth + 1)).intercalate items ++
      margin depth ++ closing

mutual

/-- The document at some depth, a line for each item. -/
def indented (depth : Nat) : Document → String
  | text content => quoted content
  | number value => numberText value
  | list items => block "[" "]" depth (indentedItems (depth + 1) items)
  | record fields => block "\x7b" "\x7d" depth (indentedFields (depth + 1) fields)

def indentedItems (depth : Nat) : List Document → List String
  | [] => []
  | item :: items => indented depth item :: indentedItems depth items

def indentedFields (depth : Nat) : List (String × Document) → List String
  | [] => []
  | (name, value) :: fields =>
    (quoted name ++ ": " ++ indented depth value) :: indentedFields depth fields

end

end Document

def Marginal.document (m : Marginal) : Document :=
  .record [("id", .text m.id), ("label", .text m.label), ("probability", .number m.probability)]

def Marginals.document (m : Marginals) : Document :=
  .record [("evidence", .text m.evidence), ("entries", .list (m.entries.map Marginal.document))]

end BeliefNet
