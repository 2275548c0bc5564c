import Mathlib
import BeliefNet.Query.Lexer
import BeliefNet.Proofs.Query.Spelling

/-!
# One character of lookahead is enough

A lexer has read the first unread character, or pretends a space in front of it and
counts one character less. Behind the spacing the two are the same
(`Lexer.skip_ofCursor`, `Lexer.skip_before`). So a lexer gives the tokens that scanning
the text itself gives and reports the same positions, however often it is asked
(`Lexer.next_agrees`, `Lexer.calls_agree`), and a query that is read while the tokens
come in is the query of the scanned text (`Query.read_eq_parse`).
-/

namespace BeliefNet

namespace Lexer

open Cursor (isSpacing)

variable {l : Lexer} {s : Scanner} {cursor : Cursor} {defined : String → Bool} {r : Reading}

/-! ## The two states at a cursor -/

/-- The first unread character is read. -/
def ofCursor (cursor : Cursor) : Lexer :=
  ⟨cursor.unread.tail, cursor.unread.head?, cursor.here.line, cursor.here.character⟩

/-- A space is pretended in front of the first unread character. -/
def before (cursor : Cursor) : Lexer :=
  ⟨cursor.unread, some ' ', cursor.here.line, cursor.here.character - 1⟩

@[simp]
theorem position_ofCursor (cursor : Cursor) : (ofCursor cursor).position = cursor.here := rfl

theorem peek_ofCursor (cursor : Cursor) : (ofCursor cursor).peek = cursor.unread.head? := rfl

theorem advance_before (cursor : Cursor) : (before cursor).advance = ofCursor cursor := by
  simp [before, advance, ofCursor]

/-- Behind an operator the cursor is one character further on. -/
theorem blank_ofCursor {c : Char} {rest : List Char} {here : Position} (hline : c ≠ '\n') :
    (ofCursor ⟨c :: rest, here⟩).blank = before ⟨rest, here.after c⟩ := by
  simp [ofCursor, blank, before, Position.after, hline]

theorem advance_ofCursor {c : Char} {rest : List Char} {here : Position} (hline : c ≠ '\n') :
    (ofCursor ⟨c :: rest, here⟩).advance = ofCursor ⟨rest, here.after c⟩ := by
  simp [ofCursor, advance, Position.after, hline]

theorem startLine_ofCursor {rest : List Char} {here : Position} :
    (ofCursor ⟨'\n' :: rest, here⟩).startLine.advance = ofCursor ⟨rest, here.after '\n'⟩ := by
  simp [ofCursor, advance, startLine, Position.after]

/-! ## Skipping and reading words -/

theorem skip_of_peek_eq_none (h : l.peek = none) : l.skip = l := by
  rw [skip]
  split
  · rfl
  · rename_i c hpeek
    rw [h] at hpeek
    cases hpeek

theorem skip_of_peek {c : Char} (h : l.peek = some c) :
    l.skip =
      if isSpacing c then
        if c = '\n' then l.startLine.advance.skip else l.advance.skip
      else l := by
  rw [skip]
  split
  · rename_i hpeek
    rw [h] at hpeek
    cases hpeek
  · rename_i c' hpeek
    rw [h] at hpeek
    cases hpeek
    rfl

theorem skip_ofCursor (cursor : Cursor) :
    (ofCursor cursor).skip = ofCursor (cursor.skipWhile isSpacing) := by
  obtain ⟨unread, here⟩ := cursor
  induction unread generalizing here with
  | nil => exact skip_of_peek_eq_none rfl
  | cons c rest ih =>
    rw [skip_of_peek (show (ofCursor ⟨c :: rest, here⟩).peek = some c from rfl)]
    by_cases hspacing : isSpacing c = true
    · have hskip : (⟨c :: rest, here⟩ : Cursor).skipWhile isSpacing =
          (⟨rest, here.after c⟩ : Cursor).skipWhile isSpacing := by
        simp [Cursor.skipWhile, hspacing]
      rw [if_pos hspacing, hskip, ← ih]
      by_cases hline : c = '\n'
      · subst hline
        rw [if_pos rfl, startLine_ofCursor]
      · rw [if_neg hline, advance_ofCursor hline]
    · rw [if_neg hspacing]
      simp [Cursor.skipWhile, hspacing]

theorem skip_before (cursor : Cursor) :
    (before cursor).skip = ofCursor (cursor.skipWhile isSpacing) := by
  have hspace : isSpacing ' ' = true := rfl
  rw [skip_of_peek (show (before cursor).peek = some ' ' from rfl), if_pos hspace,
    if_neg (by decide), advance_before, skip_ofCursor]

theorem word_of_stops {read : List Char} (h : ∀ c ∈ l.peek, Text.isWordChar c = false) :
    l.word read = (read, l) := by
  rw [word]
  split
  · rfl
  · rename_i c hpeek
    rw [if_neg (by simp [h c hpeek])]

theorem word_ofCursor (cursor : Cursor) (read : List Char) :
    (ofCursor cursor).word read =
      (read ++ cursor.unread.takeWhile Text.isWordChar,
        ofCursor (cursor.skipWhile Text.isWordChar)) := by
  obtain ⟨unread, here⟩ := cursor
  induction unread generalizing here read with
  | nil =>
    rw [word_of_stops (by rintro _ ⟨⟩)]
    simp [Cursor.skipWhile]
  | cons c rest ih =>
    by_cases hword : Text.isWordChar c = true
    · have hline : c ≠ '\n' := by
        rintro rfl
        exact Bool.false_ne_true ((isWordChar_of_isSpacing rfl).symm.trans hword)
      rw [word_of_peek (show (ofCursor ⟨c :: rest, here⟩).peek = some c from rfl) hword,
        advance_ofCursor hline, ih]
      simp [Cursor.skipWhile, hword]
    · rw [word_of_stops (by rintro _ ⟨⟩; simpa using hword)]
      simp [Cursor.skipWhile, hword]

/-! ## One token -/

theorem word?_of_operator {c : Char} {kind : TokenKind} {here : Position}
    (h : TokenKind.ofOperator? c = some kind) : (Token.mk kind here).word? = none := by
  cases kind with
  | word id => exact absurd h ofOperator?_ne_word
  | _ => rfl

theorem skipWhile_skipWhile (cursor : Cursor) :
    (cursor.skipWhile isSpacing).skipWhile isSpacing = cursor.skipWhile isSpacing := by
  have hhead : ∀ c ∈ (cursor.unread.dropWhile isSpacing).head?, isSpacing c = false := by
    intro c hc
    have hnot := List.head?_dropWhile_not isSpacing cursor.unread
    rw [Option.mem_def.1 hc] at hnot
    exact hnot
  rw [Cursor.skipWhile, Cursor.skipWhile, takeWhile_eq_nil hhead, dropWhile_eq_self hhead]
  rfl

/-- The lexer behind a token: behind an operator, a space is pretended. -/
def behind (token : Token) (rest : Cursor) : Lexer :=
  if token.word?.isSome then ofCursor rest else before rest

theorem token_ofCursor (cursor : Cursor) :
    (ofCursor cursor).token =
      match cursor.read with
      | .finished position => (.ok ⟨.endOfInput, position⟩, ofCursor cursor)
      | .unexpected c position => (.error (.unexpectedCharacter c position), ofCursor cursor)
      | .token token rest => (.ok token, behind token rest) := by
  obtain ⟨unread, here⟩ := cursor
  cases unread with
  | nil => rfl
  | cons c rest =>
    rw [token]
    simp only [Cursor.read, position_ofCursor, peek_ofCursor, List.head?_cons]
    cases hkind : TokenKind.ofOperator? c with
    | some kind =>
      have hline : c ≠ '\n' := by
        rintro rfl
        cases hkind
      have hword : (Token.mk kind here).word? = none := word?_of_operator hkind
      simp [behind, hword, blank_ofCursor hline]
    | none =>
      by_cases hletter : Text.isLetter c = true
      · simp [hletter, word_ofCursor, behind, Token.word?]
      · simp [hletter]

theorem position_of_finished {position : Position} (h : cursor.read = .finished position) :
    cursor.here = position := by
  unfold Cursor.read at h
  split at h
  · cases h
    rfl
  · split at h
    · cases h
    · split at h
      · cases h
      · cases h

theorem position_of_unexpected {c : Char} {position : Position}
    (h : cursor.read = .unexpected c position) : cursor.here = position := by
  unfold Cursor.read at h
  split at h
  · cases h
  · split at h
    · cases h
    · split at h
      · cases h
      · cases h
        rfl

theorem kind_ne_endOfInput {token : Token} {rest : Cursor} (h : cursor.read = .token token rest) :
    token.kind ≠ .endOfInput := by
  unfold Cursor.read at h
  split at h
  · cases h
  · split at h
    · rename_i kind hkind
      cases h
      rintro rfl
      unfold TokenKind.ofOperator? at hkind
      split at hkind <;> cases hkind
    · split at h
      · cases h
        nofun
      · cases h

/-- What is reported is the position of an operator, or the one behind a word. -/
theorem position_behind {token : Token} {rest : Cursor} (h : cursor.read = .token token rest) :
    (behind token rest).position = if token.word?.isSome then rest.here else token.position := by
  unfold behind
  split
  · rfl
  · rename_i hword
    unfold Cursor.read at h
    split at h
    · cases h
    · rename_i c tail hunread
      split at h
      · rename_i kind hkind
        have hline : c ≠ '\n' := by
          rintro rfl
          cases hkind
        cases h
        simp [before, position, Position.after, hline]
      · split at h
        · cases h
          exact absurd rfl hword
        · cases h

/-- Both are behind the same spacing at the same character, and report one
position. -/
structure Agrees (l : Lexer) (s : Scanner) : Prop where
  skip : l.skip = ofCursor (s.cursor.skipWhile isSpacing)
  position : l.position = s.position

theorem agrees_ofText (text : String) : Agrees (ofText text) (.ofText text) where
  skip := skip_before (.ofText text)
  position := rfl

theorem next_eq (h : l.skip = ofCursor (cursor.skipWhile isSpacing)) :
    l.next =
      match cursor.lexeme with
      | .finished position =>
        (.ok ⟨.endOfInput, position⟩, ofCursor (cursor.skipWhile isSpacing))
      | .unexpected c position =>
        (.error (.unexpectedCharacter c position), ofCursor (cursor.skipWhile isSpacing))
      | .token token rest => (.ok token, behind token rest) := by
  rw [next, h, token_ofCursor, Cursor.lexeme]

theorem skip_behind (token : Token) (rest : Cursor) :
    (behind token rest).skip = ofCursor (rest.skipWhile isSpacing) := by
  unfold behind
  split
  · exact skip_ofCursor rest
  · exact skip_before rest

/-- **One call.** A lexer gives the token of the scanner, and they stay at the same
character. -/
theorem next_agrees (h : Agrees l s) : l.next.1 = s.next.1 ∧ Agrees l.next.2 s.next.2 := by
  have hstay : (ofCursor (s.cursor.skipWhile isSpacing)).skip =
      ofCursor (s.cursor.skipWhile isSpacing) := by
    rw [skip_ofCursor, skipWhile_skipWhile]
  rw [next_eq h.skip, Scanner.next]
  cases hlexeme : s.cursor.lexeme with
  | finished position => exact ⟨rfl, hstay, position_of_finished hlexeme⟩
  | unexpected c position => exact ⟨rfl, hstay, position_of_unexpected hlexeme⟩
  | token token rest => exact ⟨rfl, skip_behind token rest, position_behind hlexeme⟩

/-- **All calls.** However often a lexer is asked, it is where the scanner is. -/
theorem calls_agree (text : String) (n : ℕ) :
    Agrees ((fun l => l.next.2)^[n] (ofText text)) ((fun s => s.next.2)^[n] (.ofText text)) := by
  induction n with
  | zero => exact agrees_ofText text
  | succ n ih =>
    rw [Function.iterate_succ_apply', Function.iterate_succ_apply']
    exact (next_agrees ih).2

/-! ## All tokens -/

/-- What a scan comes to, the token for the end included. -/
def allTokens (scan : Scan) : Except Error (List Token) :=
  match scan.ending with
  | .complete position => .ok (scan.tokens ++ [⟨.endOfInput, position⟩])
  | .unexpected c position => .error (.unexpectedCharacter c position)

theorem tokenize_of_next (l : Lexer) :
    l.tokenize =
      match l.next with
      | (.error e, _) => .error e
      | (.ok token, rest) =>
        if token.kind = .endOfInput then .ok [token]
        else rest.tokenize >>= fun tokens => .ok (token :: tokens) := by
  rw [tokenize]
  split
  · rename_i h
    simp only [h]
  · rename_i h
    simp only [h]
    rfl

theorem read_of_next (l : Lexer) :
    l.read defined r =
      match l.next with
      | (.error e, _) => .error e
      | (.ok token, rest) =>
        if token.kind = .endOfInput then r.finish (.complete token.position)
        else r.advance defined token >>= rest.read defined := by
  rw [read]
  split
  · rename_i h
    simp only [h]
  · rename_i h
    simp only [h]
    rfl

theorem tokenize_eq_allTokens (h : l.skip = ofCursor (cursor.skipWhile isSpacing)) :
    l.tokenize = allTokens (Scan.ofCursor cursor) := by
  induction cursor using Scan.ofCursor.induct generalizing l with
  | case1 cursor position hlexeme =>
    rw [tokenize_of_next, next_eq h, ofCursor_eq, hlexeme]
    rfl
  | case2 cursor c position hlexeme =>
    rw [tokenize_of_next, next_eq h, ofCursor_eq, hlexeme]
    rfl
  | case3 cursor token rest hlexeme _ ih =>
    rw [tokenize_of_next, next_eq h, ofCursor_of_token hlexeme, hlexeme]
    simp only [if_neg (kind_ne_endOfInput hlexeme), ih (skip_behind token rest), allTokens]
    cases (Scan.ofCursor rest).ending with
    | complete position => rfl
    | unexpected c position => rfl

theorem read_eq_ofScan (h : l.skip = ofCursor (cursor.skipWhile isSpacing)) :
    l.read defined r =
      (Scan.ofCursor cursor).tokens.foldlM (Reading.advance defined) r >>= fun r =>
        r.finish (Scan.ofCursor cursor).ending := by
  induction cursor using Scan.ofCursor.induct generalizing l r with
  | case1 cursor position hlexeme =>
    rw [read_of_next, next_eq h, ofCursor_eq, hlexeme]
    rfl
  | case2 cursor c position hlexeme =>
    rw [read_of_next, next_eq h, ofCursor_eq, hlexeme]
    rfl
  | case3 cursor token rest hlexeme _ ih =>
    rw [read_of_next, next_eq h, ofCursor_of_token hlexeme, hlexeme]
    simp only [if_neg (kind_ne_endOfInput hlexeme), List.foldlM_cons, bind_assoc]
    congr 1
    funext r
    exact ih (skip_behind token rest)

/-- **Tokens with lookahead are the tokens of the scan.** -/
theorem tokenize_ofText (text : String) : (ofText text).tokenize = BeliefNet.tokenize text :=
  tokenize_eq_allTokens (agrees_ofText text).skip

end Lexer

/-- **Reading stops at the same fault.** A query that is read while its tokens come in
is the query of the scanned text, with the same first fault. -/
theorem Query.read_eq_parse (defined : String → Bool) (text : String) :
    Query.read defined text = Query.parse defined text :=
  Lexer.read_eq_ofScan (Lexer.agrees_ofText text).skip

end BeliefNet
