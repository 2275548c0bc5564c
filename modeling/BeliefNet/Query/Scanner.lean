import BeliefNet.Error
import BeliefNet.Text.Word

/-!
# Splitting a text into tokens

Tokens are the operators and the longest words; spaces, tabs, line feeds and
carriage returns between them are skipped. Scanning stops at the first
character that belongs to none of these, and stays there.

* `Cursor.lexeme` is the next token of the unread text.
* `Scan.ofText` is all of them, and how the text ends.
* `Scanner` gives the tokens one at a time and reports a position.

A `Lexer` reads the same tokens one character at a time.
-/

namespace BeliefNet

/-- The unread part of a text, and the position of its first character. -/
structure Cursor where
  unread : List Char
  here : Position
  deriving DecidableEq, Repr

namespace Cursor

def ofText (text : String) : Cursor := ⟨text.toList, .start⟩

/-- The cursor behind the characters at its front that satisfy `skip`. -/
def skipWhile (c : Cursor) (skip : Char → Bool) : Cursor :=
  ⟨c.unread.dropWhile skip, (c.unread.takeWhile skip).foldl Position.after c.here⟩

/-- A character that separates tokens without being one. -/
def isSpacing (c : Char) : Bool :=
  c == ' ' || c == '\t' || c == '\n' || c == '\r'

/-- What comes next in a text. -/
inductive Lexeme where
  | token (token : Token) (rest : Cursor)
  | finished (position : Position)
  /-- A character that starts no token. -/
  | unexpected (c : Char) (position : Position)

/-- The token at the front of the unread text. -/
def read (c : Cursor) : Lexeme :=
  match c.unread with
  | [] => .finished c.here
  | first :: rest =>
    match TokenKind.ofOperator? first with
    | some kind => .token ⟨kind, c.here⟩ ⟨rest, c.here.after first⟩
    | none =>
      if Text.isLetter first then
        .token ⟨.word (String.ofList (c.unread.takeWhile Text.isWordChar)), c.here⟩
          (c.skipWhile Text.isWordChar)
      else
        .unexpected first c.here

/-- The next token behind the spacing. -/
def lexeme (c : Cursor) : Lexeme :=
  (c.skipWhile isSpacing).read

theorem length_dropWhile_le (p : Char → Bool) (s : List Char) :
    (s.dropWhile p).length ≤ s.length := by
  induction s with
  | nil => simp
  | cons c s ih =>
    rw [List.dropWhile_cons]
    split
    · exact Nat.le_succ_of_le ih
    · exact Nat.le_refl _

/-- A token takes at least one character. -/
theorem length_unread_of_read {c rest : Cursor} {token : Token}
    (h : c.read = .token token rest) : rest.unread.length < c.unread.length := by
  unfold read at h
  split at h
  · simp at h
  · rename_i first tail hunread
    split at h
    · simp only [Lexeme.token.injEq] at h
      obtain ⟨_, rfl⟩ := h
      simp [hunread]
    · split at h
      · rename_i hletter
        simp only [Lexeme.token.injEq] at h
        obtain ⟨_, rfl⟩ := h
        have hword : Text.isWordChar first = true := by simp [Text.isWordChar, hletter]
        simp only [skipWhile, hunread, List.dropWhile_cons_of_pos hword, List.length_cons]
        exact Nat.lt_succ_of_le (length_dropWhile_le _ _)
      · simp at h

theorem length_unread_of_lexeme {c rest : Cursor} {token : Token}
    (h : c.lexeme = .token token rest) : rest.unread.length < c.unread.length :=
  Nat.lt_of_lt_of_le (length_unread_of_read h) (length_dropWhile_le _ _)

end Cursor

section Chars

variable {c : Char}

theorem isSpacing_of_operator {kind : TokenKind} (h : TokenKind.ofOperator? c = some kind) :
    Cursor.isSpacing c = false := by
  unfold TokenKind.ofOperator? at h
  split at h
  · rfl
  · rfl
  · rfl
  · rfl
  · rfl
  · cases h

theorem isWordChar_of_isSpacing (h : Cursor.isSpacing c = true) : Text.isWordChar c = false := by
  simp only [Cursor.isSpacing, Bool.or_eq_true, beq_iff_eq] at h
  obtain ((rfl | rfl) | rfl) | rfl := h
  · decide +kernel
  · decide +kernel
  · decide +kernel
  · decide +kernel

theorem isWordChar_of_isLetter (h : Text.isLetter c = true) : Text.isWordChar c = true := by
  simp [Text.isWordChar, h]

theorem isSpacing_of_isLetter (h : Text.isLetter c = true) : Cursor.isSpacing c = false := by
  cases hspacing : Cursor.isSpacing c with
  | false => rfl
  | true =>
    have hchar := isWordChar_of_isLetter h
    rw [isWordChar_of_isSpacing hspacing] at hchar
    cases hchar

end Chars

/-- How a text ends. -/
inductive Ending where
  /-- All of it is tokens and spacing. -/
  | complete (position : Position)
  /-- At this character no token starts. -/
  | unexpected (c : Char) (position : Position)
  deriving DecidableEq, Repr

/-- The tokens of a text, without one for the end, and how it ends. -/
structure Scan where
  tokens : List Token
  ending : Ending
  deriving DecidableEq, Repr

namespace Scan

/-- The scan of the unread part of a text. -/
def ofCursor (c : Cursor) : Scan :=
  match h : c.lexeme with
  | .finished position => ⟨[], .complete position⟩
  | .unexpected first position => ⟨[], .unexpected first position⟩
  | .token token rest =>
    have : rest.unread.length < c.unread.length := Cursor.length_unread_of_lexeme h
    let scan := ofCursor rest
    ⟨token :: scan.tokens, scan.ending⟩
termination_by c.unread.length

def ofText (text : String) : Scan := ofCursor (.ofText text)

end Scan

/-- All tokens of a text, the one for its end included. -/
def tokenize (text : String) : Except Error (List Token) :=
  let scan := Scan.ofText text
  match scan.ending with
  | .complete position => .ok (scan.tokens ++ [⟨.endOfInput, position⟩])
  | .unexpected c position => .error (.unexpectedCharacter c position)

/-- A text that is scanned token by token. -/
structure Scanner where
  cursor : Cursor
  /-- The reported position: that of an operator until the next token is asked
  for, and otherwise that of the first unread character. -/
  position : Position

namespace Scanner

def ofText (text : String) : Scanner := ⟨.ofText text, .start⟩

/-- The next token. The end of the text and a failure do not move on, so they
repeat. -/
def next (s : Scanner) : Except Error Token × Scanner :=
  match s.cursor.lexeme with
  | .finished position => (.ok ⟨.endOfInput, position⟩, ⟨s.cursor, position⟩)
  | .unexpected c position => (.error (.unexpectedCharacter c position), ⟨s.cursor, position⟩)
  | .token token rest =>
    (.ok token, ⟨rest, if token.word?.isSome then rest.here else token.position⟩)

end Scanner

end BeliefNet
