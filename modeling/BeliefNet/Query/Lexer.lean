import BeliefNet.Query.Parser

/-!
# Reading a text with one character of lookahead

A lexer goes through a text once. It holds the next character, and counts lines
and characters up to it. Behind an operator it does not read on: it pretends that
a space comes next, which is skipped with the next token. So the count may be one
behind, and before the first character it is minus one.

* `Lexer.next` gives the next token.
* `Lexer.tokenize` gives all of them.
* `Lexer.read` reads a query, and stops at the first token that may not follow.
-/

namespace BeliefNet

structure Lexer where
  /-- The characters behind the next one. -/
  chars : List Char
  /-- The next character, or the blank that is pretended; none at the end. -/
  peek : Option Char
  line : Nat
  /-- The characters before the next one in its line. -/
  character : Int

namespace Lexer

open Cursor (isSpacing)

def ofText (text : String) : Lexer := ⟨text.toList, some ' ', 1, -1⟩

/-- The position of the next character, and of the first one before it is
read. -/
def position (l : Lexer) : Position := ⟨l.line, l.character.toNat⟩

/-- Reads a character. -/
def advance (l : Lexer) : Lexer :=
  { l with chars := l.chars.tail, peek := l.chars.head?, character := l.character + 1 }

/-- The count at the start of a line. -/
def startLine (l : Lexer) : Lexer :=
  { l with line := l.line + 1, character := -1 }

/-- Behind an operator: a space is pretended in its place. -/
def blank (l : Lexer) : Lexer := { l with peek := some ' ' }

/-- The characters that are not read over. -/
def unread (l : Lexer) : List Char := l.peek.toList ++ l.chars

@[simp]
theorem unread_advance (l : Lexer) : l.advance.unread = l.chars := by
  unfold unread advance
  cases l.chars with
  | nil => rfl
  | cons _ _ => rfl

@[simp]
theorem chars_startLine (l : Lexer) : l.startLine.chars = l.chars := rfl

theorem unread_of_peek {l : Lexer} {c : Char} (h : l.peek = some c) :
    l.unread = c :: l.chars := by
  unfold unread
  rw [h]
  rfl

/-- Reads over spacing. -/
def skip (l : Lexer) : Lexer :=
  match h : l.peek with
  | none => l
  | some c =>
    if isSpacing c then
      have : l.chars.length < l.unread.length := by
        rw [unread_of_peek h]
        exact Nat.lt_succ_self _
      if c = '\n' then
        l.startLine.advance.skip
      else
        l.advance.skip
    else
      l
termination_by l.unread.length

/-- Reads a word to its end. -/
def word (l : Lexer) (read : List Char) : List Char × Lexer :=
  match h : l.peek with
  | none => (read, l)
  | some c =>
    if Text.isWordChar c then
      have : l.chars.length < l.unread.length := by
        rw [unread_of_peek h]
        exact Nat.lt_succ_self _
      l.advance.word (read ++ [c])
    else
      (read, l)
termination_by l.unread.length

theorem word_of_peek {l : Lexer} {c : Char} {read : List Char} (h : l.peek = some c)
    (hword : Text.isWordChar c = true) : l.word read = l.advance.word (read ++ [c]) := by
  rw [word]
  split
  · rename_i hnone
    rw [h] at hnone
    cases hnone
  · rename_i c' hsome
    rw [h] at hsome
    cases hsome
    rw [if_pos hword]

/-- The token that starts at the next character. The end of the text and a failure
do not move on, so they repeat. -/
def token (l : Lexer) : Except Error Token × Lexer :=
  match l.peek with
  | none => (.ok ⟨.endOfInput, l.position⟩, l)
  | some c =>
    match TokenKind.ofOperator? c with
    | some kind => (.ok ⟨kind, l.position⟩, l.blank)
    | none =>
      if Text.isLetter c then
        let (read, rest) := l.word []
        (.ok ⟨.word (String.ofList read), l.position⟩, rest)
      else
        (.error (.unexpectedCharacter c l.position), l)

/-- The next token. -/
def next (l : Lexer) : Except Error Token × Lexer := l.skip.token

/-- How many unread characters are no spacing. A token takes one of them, and the
blank that is pretended is none. -/
def remaining (l : Lexer) : Nat := l.unread.countP (!isSpacing ·)

theorem remaining_of_peek {l : Lexer} {c : Char} (h : l.peek = some c) :
    l.remaining = l.chars.countP (!isSpacing ·) + if isSpacing c then 0 else 1 := by
  simp only [remaining, unread_of_peek h, List.countP_cons]
  cases isSpacing c with
  | false => rfl
  | true => rfl

@[simp]
theorem remaining_advance (l : Lexer) : l.advance.remaining = l.chars.countP (!isSpacing ·) := by
  rw [remaining, unread_advance]

@[simp]
theorem remaining_blank (l : Lexer) : l.blank.remaining = l.chars.countP (!isSpacing ·) := by
  rw [remaining_of_peek (show l.blank.peek = some ' ' from rfl)]
  rfl

theorem remaining_skip (l : Lexer) : l.skip.remaining = l.remaining := by
  fun_induction skip l with
  | case1 => rfl
  | case2 l h hspacing _ ih => simp [ih, remaining_of_peek h, hspacing]
  | case3 l c h hspacing _ _ ih => simp [ih, remaining_of_peek h, hspacing]
  | case4 => rfl

theorem remaining_word (l : Lexer) (read : List Char) :
    (l.word read).2.remaining ≤ l.remaining := by
  fun_induction word l read with
  | case1 => exact Nat.le_refl _
  | case2 l read c h _ _ ih =>
    rw [remaining_of_peek h]
    rw [remaining_advance] at ih
    exact Nat.le_trans ih (Nat.le_add_right _ _)
  | case3 => exact Nat.le_refl _

/-- A word that starts with a letter takes this letter. -/
theorem remaining_word_lt {l : Lexer} {c : Char} (h : l.peek = some c)
    (hletter : Text.isLetter c = true) : (l.word []).2.remaining < l.remaining := by
  have hspacing : isSpacing c = false := isSpacing_of_isLetter hletter
  have hread := remaining_word l.advance ([] ++ [c])
  rw [remaining_advance] at hread
  rw [word_of_peek h (isWordChar_of_isLetter hletter), remaining_of_peek h, hspacing]
  exact Nat.lt_succ_of_le hread

theorem remaining_next {l rest : Lexer} {token : Token} (h : l.next = (.ok token, rest))
    (htoken : token.kind ≠ .endOfInput) : rest.remaining < l.remaining := by
  rw [← remaining_skip l]
  rw [next, Lexer.token] at h
  split at h
  · cases h
    exact absurd rfl htoken
  · rename_i c hpeek
    split at h
    · rename_i kind hkind
      cases h
      rw [remaining_of_peek hpeek, isSpacing_of_operator hkind, remaining_blank]
      exact Nat.lt_succ_self _
    · split at h
      · rename_i hletter
        cases h
        exact remaining_word_lt hpeek hletter
      · cases h

/-- All tokens of the text, the one for its end included. -/
def tokenize (l : Lexer) : Except Error (List Token) :=
  match h : l.next with
  | (.error e, _) => .error e
  | (.ok token, rest) =>
    if hend : token.kind = .endOfInput then
      .ok [token]
    else
      have : rest.remaining < l.remaining := remaining_next h hend
      do return token :: (← rest.tokenize)
termination_by l.remaining

/-- Reads the rest of a query. -/
def read (defined : String → Bool) (l : Lexer) (r : Reading) : Except Error Query :=
  match h : l.next with
  | (.error e, _) => .error e
  | (.ok token, rest) =>
    if hend : token.kind = .endOfInput then
      r.finish (.complete token.position)
    else
      have : rest.remaining < l.remaining := remaining_next h hend
      do rest.read defined (← r.advance defined token)
termination_by l.remaining

end Lexer

/-- Reads a query whose variables are all defined, no further than its first
fault. -/
def Query.read (defined : String → Bool) (text : String) : Except Error Query :=
  (Lexer.ofText text).read defined .start

end BeliefNet
