import Mathlib
import BeliefNet.Proofs.Query.Grammar

/-!
# How tokens are spelled

Characters spell tokens if they are scanned as these wherever they stand
(`Spells`). An operator is spelled by its character and a word by its own
characters, provided that what comes next does not prolong it; and a scan gives
no words but words (`Scan.isWord_of_mem`).
-/

namespace BeliefNet

/-- The characters are scanned as these tokens, and nothing is left over. -/
def Spells (cs : List Char) (kinds : List TokenKind) : Prop :=
  ∀ here, (Scan.ofCursor ⟨cs, here⟩).kinds = kinds ∧
    ∃ position, (Scan.ofCursor ⟨cs, here⟩).ending = .complete position

/-- The characters do not prolong a word in front of them. -/
def EndsWord (cs : List Char) : Prop := ∀ c ∈ cs.head?, Text.isWordChar c = false

variable {c : Char} {cs chars rest : List Char} {kind : TokenKind} {kinds : List TokenKind}
  {here : Position}

/-! ## Characters -/

theorem isWordChar_of_operator (h : TokenKind.ofOperator? c = some kind) :
    Text.isWordChar c = false := by
  unfold TokenKind.ofOperator? at h
  split at h
  · decide +kernel
  · decide +kernel
  · decide +kernel
  · decide +kernel
  · decide +kernel
  · cases h

theorem EndsWord.operator (h : TokenKind.ofOperator? c = some kind) : EndsWord (c :: rest) := by
  rintro _ ⟨⟩
  exact isWordChar_of_operator h

theorem ofOperator?_of_isLetter (h : Text.isLetter c = true) : TokenKind.ofOperator? c = none := by
  cases hoperator : TokenKind.ofOperator? c with
  | none => rfl
  | some kind =>
    have hchar := isWordChar_of_isLetter h
    rw [isWordChar_of_operator hoperator] at hchar
    cases hchar

/-! ## Scanning -/

theorem takeWhile_eq_nil {p : Char → Bool} (h : ∀ c ∈ cs.head?, p c = false) :
    cs.takeWhile p = [] := by
  cases cs with
  | nil => rfl
  | cons c cs => exact List.takeWhile_cons_of_neg (by simp [h c rfl])

theorem dropWhile_eq_self {p : Char → Bool} (h : ∀ c ∈ cs.head?, p c = false) :
    cs.dropWhile p = cs := by
  cases cs with
  | nil => rfl
  | cons c cs => exact List.dropWhile_cons_of_neg (by simp [h c rfl])

/-- Where there is no spacing, none is skipped. -/
theorem lexeme_eq_read (h : ∀ c ∈ cs.head?, Cursor.isSpacing c = false) :
    (⟨cs, here⟩ : Cursor).lexeme = (⟨cs, here⟩ : Cursor).read := by
  rw [Cursor.lexeme, Cursor.skipWhile, takeWhile_eq_nil h, dropWhile_eq_self h]
  rfl

theorem lexeme_operator (h : TokenKind.ofOperator? c = some kind) :
    (⟨c :: rest, here⟩ : Cursor).lexeme = .token ⟨kind, here⟩ ⟨rest, here.after c⟩ := by
  rw [lexeme_eq_read (by simpa using isSpacing_of_operator h)]
  simp [Cursor.read, h]

/-- A word is read as far as it goes. -/
theorem lexeme_word (h : Text.isWord chars = true) (hnext : EndsWord rest) :
    (⟨chars ++ rest, here⟩ : Cursor).lexeme =
      .token ⟨.word (String.ofList chars), here⟩ ⟨rest, chars.foldl Position.after here⟩ := by
  cases chars with
  | nil => cases h
  | cons first chars =>
    simp only [Text.isWord, Bool.and_eq_true, List.all_eq_true] at h
    obtain ⟨hletter, hchars⟩ := h
    have hword : ∀ c ∈ first :: chars, Text.isWordChar c = true :=
      List.forall_mem_cons.2 ⟨isWordChar_of_isLetter hletter, hchars⟩
    have htake : (first :: chars ++ rest).takeWhile Text.isWordChar = first :: chars := by
      rw [List.takeWhile_append_of_pos hword, takeWhile_eq_nil hnext, List.append_nil]
    have hdrop : (first :: chars ++ rest).dropWhile Text.isWordChar = rest := by
      rw [List.dropWhile_append_of_pos hword, dropWhile_eq_self hnext]
    rw [lexeme_eq_read (by simpa using isSpacing_of_isLetter hletter)]
    rw [List.cons_append] at htake hdrop ⊢
    simp only [Cursor.read, ofOperator?_of_isLetter hletter, hletter, if_true, Cursor.skipWhile,
      htake, hdrop]

/-- A scan depends on the next lexeme alone. -/
theorem ofCursor_eq (cursor : Cursor) :
    Scan.ofCursor cursor =
      match cursor.lexeme with
      | .finished position => ⟨[], .complete position⟩
      | .unexpected c position => ⟨[], .unexpected c position⟩
      | .token token next =>
        ⟨token :: (Scan.ofCursor next).tokens, (Scan.ofCursor next).ending⟩ := by
  rw [Scan.ofCursor]
  split <;> simp_all

theorem ofCursor_of_token {cursor next : Cursor} {token : Token}
    (h : cursor.lexeme = .token token next) :
    Scan.ofCursor cursor =
      ⟨token :: (Scan.ofCursor next).tokens, (Scan.ofCursor next).ending⟩ := by
  rw [ofCursor_eq, h]

theorem ofCursor_of_finished {cursor : Cursor} {position : Position}
    (h : cursor.lexeme = .finished position) :
    Scan.ofCursor cursor = ⟨[], .complete position⟩ := by
  rw [ofCursor_eq, h]

namespace Spells

theorem nil : Spells [] [] := by
  intro here
  have hlexeme : (⟨[], here⟩ : Cursor).lexeme = .finished here := lexeme_eq_read nofun
  rw [ofCursor_of_finished hlexeme]
  exact ⟨rfl, here, rfl⟩

/-- A token is in front of others if, wherever it stands, it is read and they are
left. -/
theorem of_lexeme (hrest : Spells rest kinds)
    (h : ∀ here, ∃ next, (⟨cs, here⟩ : Cursor).lexeme = .token ⟨kind, here⟩ ⟨rest, next⟩) :
    Spells cs (kind :: kinds) := by
  intro here
  obtain ⟨next, hlexeme⟩ := h here
  obtain ⟨hkinds, hending⟩ := hrest next
  rw [ofCursor_of_token hlexeme]
  exact ⟨congrArg (kind :: ·) hkinds, hending⟩

theorem operator (h : TokenKind.ofOperator? c = some kind) (hrest : Spells rest kinds) :
    Spells (c :: rest) (kind :: kinds) :=
  hrest.of_lexeme fun here => ⟨here.after c, lexeme_operator h⟩

/-- A word is in front of other tokens if their spelling does not prolong it. -/
theorem word (h : Text.isWord chars = true) (hnext : EndsWord rest) (hrest : Spells rest kinds) :
    Spells (chars ++ rest) (.word (String.ofList chars) :: kinds) :=
  hrest.of_lexeme fun here => ⟨chars.foldl Position.after here, lexeme_word h hnext⟩

end Spells

theorem ofOperator?_ne_word {id : String} : TokenKind.ofOperator? c ≠ some (.word id) := by
  unfold TokenKind.ofOperator?
  split <;> nofun

theorem isWord_of_read {cursor next : Cursor} {id : String} {position : Position}
    (h : cursor.read = .token ⟨.word id, position⟩ next) : Text.isWord id.toList = true := by
  unfold Cursor.read at h
  split at h
  · cases h
  rename_i first rest hunread
  split at h
  · rename_i kind hoperator
    cases h
    exact absurd hoperator ofOperator?_ne_word
  split at h
  · rename_i hletter
    cases h
    have hfirst := isWordChar_of_isLetter hletter
    rw [String.toList_ofList, hunread, List.takeWhile_cons_of_pos hfirst]
    simp only [Text.isWord, hletter, Bool.true_and, List.all_eq_true]
    exact fun c hc => List.mem_takeWhile_imp hc
  · cases h

/-- The words of a scan are words of the language. -/
theorem Scan.isWord_of_mem {cursor : Cursor} {id : String}
    (h : .word id ∈ (Scan.ofCursor cursor).kinds) : Text.isWord id.toList = true := by
  fun_induction Scan.ofCursor cursor with
  | case1 cursor position hlexeme => cases h
  | case2 cursor first position hlexeme => cases h
  | case3 cursor token rest hlexeme hlength scan ih =>
    obtain hfirst | hrest := List.mem_cons.1 h
    · obtain ⟨kind, position⟩ := token
      cases hfirst
      exact isWord_of_read hlexeme
    · exact ih hrest

end BeliefNet
