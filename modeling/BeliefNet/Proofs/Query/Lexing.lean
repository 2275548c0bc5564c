import Mathlib
import BeliefNet.Proofs.Query.Spelling

/-!
# Tokens are where they say they are

A text is characters between tokens, operators, and longest runs of word
characters (`IsRun`). Scanning finds all of them and nothing else:

* `Scanned` goes through a text character by character, beside the scanner, and
  knows what it has left behind. A scan is such a walk (`scanned_ofCursor`).
* What a walk gives is read off it by induction: where its tokens stand
  (`Scanned.split`), how they are spelled (`Scanned.spelling`), that its words
  are the runs (`Scanned.word_iff`), and that it stops at the first character
  that may not be where it is (`Scanned.violates`, `Scanned.not_violates`).
-/

namespace BeliefNet

open Text (isWordChar isLetter)
open Cursor (isSpacing)

/-- The position behind characters at the start of a text. -/
def Position.behind (cs : List Char) : Position :=
  ⟨1 + cs.count '\n', (cs.reverse.takeWhile (· != '\n')).length⟩

/-- The characters that a token is written with. -/
def TokenKind.chars : TokenKind → List Char
  | leftParen => ['(']
  | rightParen => [')']
  | comma => [',']
  | pipe => ['|']
  | not => ['~']
  | word text => text.toList
  | endOfInput => []

@[simp] theorem TokenKind.chars_word (text : String) :
    (TokenKind.word text).chars = text.toList := rfl

@[simp] theorem TokenKind.chars_endOfInput : TokenKind.endOfInput.chars = [] := rfl

/-- The characters do not end inside a word. -/
def BeforeWord (cs : List Char) : Prop := ∀ c ∈ cs.getLast?, isWordChar c = false

/-- A run of word characters that can be prolonged on neither side. -/
structure IsRun (before run after : List Char) : Prop where
  ne_nil : run ≠ []
  all : ∀ c ∈ run, isWordChar c = true
  before : BeforeWord before
  after : EndsWord after

/-- The characters that may stand outside words. -/
def separators : List Char := [' ', '\t', '\n', '\r', '(', ')', ',', '|', '~']

/-- No token may start with this character behind those. -/
inductive Violates (before : List Char) (c : Char) : Prop where
  /-- It is the first of a run, and no letter. -/
  | run (hbefore : BeforeWord before) (hword : isWordChar c = true) (hletter : isLetter c = false)
  | stray (hword : isWordChar c = false) (hseparator : c ∉ separators)

/-- The walk through `rest`, behind the characters `before`: the tokens on its
way, and how it ends. -/
inductive Scanned : List Char → List Char → List Token → Ending → Prop where
  | complete {before : List Char} : Scanned before [] [] (.complete (.behind before))
  | unexpected {before rest : List Char} {c : Char} (hc : Violates before c) :
      Scanned before (c :: rest) [] (.unexpected c (.behind before))
  | spacing {before rest : List Char} {c : Char} {tokens : List Token} {ending : Ending}
      (hc : isSpacing c = true) (hrest : Scanned (before ++ [c]) rest tokens ending) :
      Scanned before (c :: rest) tokens ending
  | operator {before rest : List Char} {c : Char} {kind : TokenKind} {tokens : List Token}
      {ending : Ending} (hc : TokenKind.ofOperator? c = some kind)
      (hrest : Scanned (before ++ [c]) rest tokens ending) :
      Scanned before (c :: rest) (⟨kind, .behind before⟩ :: tokens) ending
  | word {before run rest : List Char} {c : Char} {tokens : List Token} {ending : Ending}
      (hrun : IsRun before (c :: run) rest) (hletter : isLetter c = true)
      (hrest : Scanned (before ++ c :: run) rest tokens ending) :
      Scanned before (c :: run ++ rest)
        (⟨.word (String.ofList (c :: run)), .behind before⟩ :: tokens) ending

variable {before before' run run' rest rest' after : List Char} {c d : Char} {kind : TokenKind}
  {tokens : List Token} {ending : Ending} {here : Position}

/-! ## Positions -/

theorem Position.after_behind : (Position.behind before).after c = .behind (before ++ [c]) := by
  by_cases hc : c = '\n'
  · simp [Position.after, Position.behind, hc, Nat.add_assoc]
  · simp [Position.after, Position.behind, hc]

theorem Position.foldl_after_behind :
    rest.foldl Position.after (.behind before) = .behind (before ++ rest) := by
  induction rest generalizing before with
  | nil => simp
  | cons c rest ih => rw [List.foldl_cons, after_behind, ih]; simp

/-! ## Separators -/

theorem mem_separators_iff :
    c ∈ separators ↔ isSpacing c = true ∨ (TokenKind.ofOperator? c).isSome = true := by
  unfold TokenKind.ofOperator?
  split <;> simp_all [separators, isSpacing, or_assoc]

theorem not_violates_of_mem (hword : isWordChar c = false) (hc : c ∈ separators) :
    ¬Violates before c := by
  rintro (⟨-, hchar, -⟩ | ⟨-, hseparator⟩)
  · simp [hword] at hchar
  · exact hseparator hc

theorem not_violates_of_isSpacing (hc : isSpacing c = true) : ¬Violates before c :=
  not_violates_of_mem (isWordChar_of_isSpacing hc) (mem_separators_iff.2 (.inl hc))

theorem not_violates_of_operator (hc : TokenKind.ofOperator? c = some kind) :
    ¬Violates before c :=
  not_violates_of_mem (isWordChar_of_operator hc) (mem_separators_iff.2 (.inr (by simp [hc])))

/-! ## Runs -/

theorem beforeWord_nil : BeforeWord [] := nofun

theorem beforeWord_append_singleton (h : isWordChar c = false) : BeforeWord (before ++ [c]) := by
  intro d hd
  simp at hd
  rwa [← hd]

theorem endsWord_dropWhile (cs : List Char) : EndsWord (cs.dropWhile isWordChar) := by
  intro c hc
  have hnot := List.head?_dropWhile_not isWordChar cs
  rw [Option.mem_def.1 hc] at hnot
  simpa using hnot

/-- A character that is not inside a run either is the first of one or no word
character. -/
theorem isRun_takeWhile (hbefore : BeforeWord before) (hc : isWordChar c = true) :
    IsRun before (c :: rest.takeWhile isWordChar) (rest.dropWhile isWordChar) where
  ne_nil := by simp
  all := by
    intro d hd
    obtain rfl | hd := List.mem_cons.1 hd
    · exact hc
    · exact List.mem_takeWhile_imp hd
  before := hbefore
  after := endsWord_dropWhile rest

theorem IsRun.takeWhile_eq (h : IsRun before run after) :
    (run ++ after).takeWhile isWordChar = run := by
  rw [List.takeWhile_append_of_pos h.all, takeWhile_eq_nil h.after, List.append_nil]

/-- Inside a run no other begins. -/
theorem not_beforeWord_append (hrun : run ≠ []) (hall : ∀ c ∈ run, isWordChar c = true) :
    ¬BeforeWord (before ++ run) := by
  intro h
  have hlast := h (run.getLast hrun) (by simp [List.getLast?_eq_some_getLast hrun])
  rw [hall _ (List.getLast_mem hrun)] at hlast
  cases hlast

/-- A place in a text is behind a run at its front, or in it. -/
theorem append_eq_append_cons (h : run ++ rest = before ++ c :: after) :
    (∃ between, before = run ++ between ∧ rest = between ++ c :: after) ∨
      ∃ inside, run = before ++ c :: inside := by
  obtain ⟨between, hbefore, hrest⟩ | ⟨inside, hrun, hinside⟩ := List.append_eq_append_iff.1 h
  · exact .inl ⟨between, hbefore, hrest⟩
  · cases inside with
    | nil => exact .inl ⟨[], by simp_all, by simp_all⟩
    | cons d inside =>
      obtain ⟨rfl, -⟩ := List.cons.inj hinside
      exact .inr ⟨inside, hrun⟩

/-- In `rest`, behind the characters `before`, this run stands behind
`place`. -/
def RunIn (before rest run place : List Char) : Prop :=
  ∃ skipped after, rest = skipped ++ run ++ after ∧ place = before ++ skipped ∧
    IsRun place run after

/-- In `rest`, behind the characters `before`, this character stands behind
`place`, where no token may start with it. -/
def ViolatesIn (before rest : List Char) (c : Char) (place : List Char) : Prop :=
  ∃ skipped after, rest = skipped ++ c :: after ∧ place = before ++ skipped ∧ Violates place c

variable {place : List Char}

theorem RunIn.append (h : RunIn (before ++ run) rest run' place) :
    RunIn before (run ++ rest) run' place := by
  obtain ⟨skipped, after, rfl, rfl, hrun⟩ := h
  exact ⟨run ++ skipped, after, by simp, by simp, by simpa using hrun⟩

theorem ViolatesIn.append (h : ViolatesIn (before ++ run) rest c place) :
    ViolatesIn before (run ++ rest) c place := by
  obtain ⟨skipped, after, rfl, rfl, hc⟩ := h
  exact ⟨run ++ skipped, after, by simp, by simp, by simpa using hc⟩

/-- No run begins with a character that is none of a word. -/
theorem runIn_cons_iff (hc : isWordChar c = false) :
    RunIn before (c :: rest) run place ↔ RunIn (before ++ [c]) rest run place := by
  refine ⟨?_, RunIn.append⟩
  rintro ⟨skipped, after, hrest, rfl, hrun⟩
  cases skipped with
  | nil =>
    obtain ⟨d, run, rfl⟩ := List.exists_cons_of_ne_nil hrun.ne_nil
    obtain ⟨rfl, -⟩ := List.cons.inj hrest
    rw [hrun.all c (by simp)] at hc
    cases hc
  | cons d skipped =>
    obtain ⟨rfl, htail⟩ := List.cons.inj hrest
    exact ⟨skipped, after, htail, by simp, by simpa using hrun⟩

/-- Two runs are the same or apart. -/
theorem IsRun.runIn_iff (hrun : IsRun before run rest) :
    RunIn before (run ++ rest) run' place ↔
      run' = run ∧ place = before ∨ RunIn (before ++ run) rest run' place := by
  constructor
  · rintro ⟨skipped, after, hrest, rfl, hrun'⟩
    obtain ⟨d, tail, rfl⟩ := List.exists_cons_of_ne_nil hrun'.ne_nil
    obtain ⟨between, rfl, hbetween⟩ | ⟨inside, rfl⟩ :=
      append_eq_append_cons (by simpa using hrest)
    · exact .inr ⟨between, after, by simpa using hbetween, by simp, by simpa using hrun'⟩
    · obtain rfl | hskipped := eq_or_ne skipped []
      · have hsame : d :: tail = [] ++ d :: inside := calc
          d :: tail = (d :: tail ++ after).takeWhile isWordChar := hrun'.takeWhile_eq.symm
          _ = ([] ++ d :: inside ++ rest).takeWhile isWordChar := by rw [hrest, List.nil_append]
          _ = [] ++ d :: inside := hrun.takeWhile_eq
        exact .inl ⟨hsame, by simp⟩
      · exact absurd hrun'.before
          (not_beforeWord_append hskipped fun e he => hrun.all e (by simp [he]))
  · rintro (⟨rfl, rfl⟩ | h)
    · exact ⟨[], rest, by simp, by simp, hrun⟩
    · exact h.append

/-- What may not be where it is lies behind a character that may. -/
theorem violatesIn_cons_iff (hc : ¬Violates before c) :
    ViolatesIn before (c :: rest) d place ↔ ViolatesIn (before ++ [c]) rest d place := by
  refine ⟨?_, ViolatesIn.append⟩
  rintro ⟨skipped, after, hrest, rfl, hd⟩
  cases skipped with
  | nil =>
    obtain ⟨rfl, -⟩ := List.cons.inj hrest
    exact absurd hd (by simpa using hc)
  | cons e skipped =>
    obtain ⟨rfl, htail⟩ := List.cons.inj hrest
    exact ⟨skipped, after, htail, by simp, by simpa using hd⟩

/-- What may not be where it is lies behind a run that begins with a letter. -/
theorem IsRun.violatesIn_iff (hrun : IsRun before (c :: run) rest) (hletter : isLetter c = true) :
    ViolatesIn before (c :: run ++ rest) d place ↔
      ViolatesIn (before ++ c :: run) rest d place := by
  refine ⟨?_, ViolatesIn.append⟩
  rintro ⟨skipped, after, hrest, rfl, hd⟩
  obtain ⟨between, rfl, hbetween⟩ | ⟨inside, hinside⟩ := append_eq_append_cons hrest
  · exact ⟨between, after, hbetween, by simp, by simpa using hd⟩
  · have hall := hrun.all
    rw [hinside] at hall
    obtain rfl | hskipped := eq_or_ne skipped []
    · obtain ⟨rfl, -⟩ := List.cons.inj hinside
      cases hd with
      | run _ _ hnot => simp [hletter] at hnot
      | stray hword _ => simp [hall] at hword
    · cases hd with
      | run hbefore _ _ =>
        exact absurd hbefore (not_beforeWord_append hskipped fun e he => hall e (by simp [he]))
      | stray hword _ => simp [hall] at hword

/-! ## The scan is a walk -/

theorem lexeme_spacing (hc : isSpacing c = true) :
    (⟨c :: rest, here⟩ : Cursor).lexeme = (⟨rest, here.after c⟩ : Cursor).lexeme := by
  simp [Cursor.lexeme, Cursor.skipWhile, hc]

theorem lexeme_unexpected (hspacing : isSpacing c = false)
    (hoperator : TokenKind.ofOperator? c = none) (hletter : isLetter c = false) :
    (⟨c :: rest, here⟩ : Cursor).lexeme = .unexpected c here := by
  rw [lexeme_eq_read (by simpa using hspacing)]
  simp [Cursor.read, hoperator, hletter]

/-- A word is read to the end of its run. -/
theorem lexeme_letter (hletter : isLetter c = true) :
    (⟨c :: rest, .behind before⟩ : Cursor).lexeme =
      .token ⟨.word (String.ofList (c :: rest.takeWhile isWordChar)), .behind before⟩
        ⟨rest.dropWhile isWordChar, .behind (before ++ c :: rest.takeWhile isWordChar)⟩ := by
  have hword : Text.isWord (c :: rest.takeWhile isWordChar) = true := by
    simp only [Text.isWord, hletter, Bool.true_and, List.all_eq_true]
    intro d hd
    exact List.mem_takeWhile_imp hd
  have hlexeme : (⟨_, .behind before⟩ : Cursor).lexeme = _ :=
    lexeme_word hword (endsWord_dropWhile rest)
  rw [Position.foldl_after_behind] at hlexeme
  simpa using hlexeme

theorem ofCursor_of_unexpected {cursor : Cursor} (h : cursor.lexeme = .unexpected c here) :
    Scan.ofCursor cursor = ⟨[], .unexpected c here⟩ := by
  rw [ofCursor_eq, h]

/-- Where a word may begin and where none goes on, a scan is a walk. -/
theorem scanned_ofCursor (hboundary : BeforeWord before ∨ EndsWord rest) :
    Scanned before rest (Scan.ofCursor ⟨rest, .behind before⟩).tokens
      (Scan.ofCursor ⟨rest, .behind before⟩).ending := by
  induction hlength : rest.length using Nat.strong_induction_on generalizing before rest with
  | _ length ih =>
  cases rest with
  | nil =>
    rw [ofCursor_of_finished (lexeme_eq_read (by simp))]
    exact .complete
  | cons c rest =>
    have hbefore (hword : isWordChar c = true) : BeforeWord before := by
      refine hboundary.resolve_right fun hends => ?_
      simp [hends c rfl] at hword
    -- Behind a character that is none of a word a word may begin.
    have hrest (hword : isWordChar c = false) :=
      have hnext : BeforeWord (before ++ [c]) := beforeWord_append_singleton hword
      ih rest.length (by simp [← hlength]) (.inl hnext) rfl
    by_cases hspacing : isSpacing c = true
    · rw [ofCursor_eq, lexeme_spacing hspacing, ← ofCursor_eq, Position.after_behind]
      exact .spacing hspacing (hrest (isWordChar_of_isSpacing hspacing))
    rw [Bool.not_eq_true] at hspacing
    cases hoperator : TokenKind.ofOperator? c with
    | some kind =>
      rw [ofCursor_of_token (lexeme_operator hoperator), Position.after_behind]
      exact .operator hoperator (hrest (isWordChar_of_operator hoperator))
    | none =>
      by_cases hletter : isLetter c = true
      · have hword := isWordChar_of_isLetter hletter
        have hrun : IsRun before (c :: rest.takeWhile isWordChar) (rest.dropWhile isWordChar) :=
          isRun_takeWhile (hbefore hword) hword
        have hsplit : c :: rest = c :: rest.takeWhile isWordChar ++ rest.dropWhile isWordChar := by
          simp
        have hshorter : (rest.dropWhile isWordChar).length < length := by
          have hle := Cursor.length_dropWhile_le isWordChar rest
          simp only [List.length_cons] at hlength
          omega
        rw [ofCursor_of_token (lexeme_letter hletter), hsplit]
        exact .word hrun hletter (ih _ hshorter (.inr hrun.after) rfl)
      · rw [Bool.not_eq_true] at hletter
        rw [ofCursor_of_unexpected (lexeme_unexpected hspacing hoperator hletter)]
        refine .unexpected ?_
        cases hword : isWordChar c with
        | true => exact .run (hbefore hword) hword hletter
        | false => exact .stray hword (by simp [mem_separators_iff, hspacing, hoperator])

/-! ## What a walk gives -/

theorem chars_of_operator (h : TokenKind.ofOperator? c = some kind) : kind.chars = [c] := by
  unfold TokenKind.ofOperator? at h
  split at h
  · cases h; rfl
  · cases h; rfl
  · cases h; rfl
  · cases h; rfl
  · cases h; rfl
  · cases h

/-- In a run there is no spacing. -/
theorem filter_isWordChar (h : ∀ c ∈ run, isWordChar c = true) :
    run.filter (fun c => !isSpacing c) = run := by
  refine List.filter_eq_self.2 fun c hc => ?_
  by_contra hspacing
  have hword := isWordChar_of_isSpacing (c := c) (by simpa using hspacing)
  simp [h c hc] at hword

namespace Scanned

theorem kind_ne_endOfInput (h : Scanned before rest tokens ending) :
    ∀ t ∈ tokens, t.kind ≠ .endOfInput := by
  induction h with
  | complete => simp
  | unexpected => simp
  | spacing _ _ ih => exact ih
  | operator hc _ ih =>
    refine List.forall_mem_cons.2 ⟨?_, ih⟩
    rintro rfl
    simpa using chars_of_operator hc
  | word _ _ _ ih => exact List.forall_mem_cons.2 ⟨by simp, ih⟩

/-- A token stands behind what the tokens before it spell and spacing. -/
theorem split (h : Scanned before rest tokens ending) {front back : List Token} {t : Token}
    (htokens : tokens = front ++ t :: back) :
    ∃ skipped after, rest = skipped ++ t.kind.chars ++ after ∧
      skipped.filter (fun c => !isSpacing c) = front.flatMap (·.kind.chars) ∧
      t.position = .behind (before ++ skipped) := by
  induction h generalizing front with
  | complete => simp at htokens
  | unexpected => simp at htokens
  | @spacing before rest c _ _ hc _ ih =>
    obtain ⟨skipped, after, hrest, hskipped, hposition⟩ := ih htokens
    exact ⟨c :: skipped, after, by simp [hrest], by simpa [hc] using hskipped,
      by simpa using hposition⟩
  | @operator before rest c _ _ _ hc _ ih =>
    cases front with
    | nil =>
      obtain ⟨rfl, -⟩ := List.cons.inj htokens
      exact ⟨[], rest, by simp [chars_of_operator hc], by simp, by simp⟩
    | cons first front =>
      obtain ⟨rfl, hback⟩ := List.cons.inj htokens
      obtain ⟨skipped, after, hrest, hskipped, hposition⟩ := ih hback
      exact ⟨c :: skipped, after, by simp [hrest],
        by simpa [isSpacing_of_operator hc, chars_of_operator hc] using hskipped,
        by simpa using hposition⟩
  | @word before run rest c _ _ hrun _ _ ih =>
    cases front with
    | nil =>
      obtain ⟨rfl, -⟩ := List.cons.inj htokens
      exact ⟨[], rest, by simp, by simp, by simp⟩
    | cons first front =>
      obtain ⟨rfl, hback⟩ := List.cons.inj htokens
      obtain ⟨skipped, after, hrest, hskipped, hposition⟩ := ih hback
      refine ⟨c :: run ++ skipped, after, by simp [hrest], ?_, by simpa using hposition⟩
      rw [List.filter_append, filter_isWordChar hrun.all, hskipped]
      simp

variable {position : Position}

/-- A walk that ends well ends behind the text. -/
theorem position_of_complete (h : Scanned before rest tokens ending)
    (hending : ending = .complete position) : position = .behind (before ++ rest) := by
  induction h with
  | complete => simpa using hending.symm
  | unexpected => cases hending
  | spacing _ _ ih => simpa using ih hending
  | operator _ _ ih => simpa using ih hending
  | word _ _ _ ih => simpa using ih hending

/-- It leaves out the spacing, and nothing else. -/
theorem spelling (h : Scanned before rest tokens ending) (hending : ending = .complete position) :
    tokens.flatMap (·.kind.chars) = rest.filter (fun c => !isSpacing c) := by
  induction h with
  | complete => rfl
  | unexpected => cases hending
  | spacing hc _ ih => simpa [hc] using ih hending
  | operator hc _ ih => simpa [isSpacing_of_operator hc, chars_of_operator hc] using ih hending
  | word hrun _ _ ih =>
    rw [List.filter_append, filter_isWordChar hrun.all, List.flatMap_cons, ih hending]
    simp

/-- Its words are the runs. -/
theorem word_iff (h : Scanned before rest tokens ending) (hending : ending = .complete position)
    {text : String} {p : Position} :
    ⟨.word text, p⟩ ∈ tokens ↔
      ∃ place, RunIn before rest text.toList place ∧ p = .behind place := by
  induction h with
  | @complete before =>
    simp only [List.not_mem_nil, false_iff]
    rintro ⟨place, ⟨skipped, after, hrest, -, hrun⟩, -⟩
    simp [hrun.ne_nil] at hrest
  | unexpected => cases hending
  | spacing hc _ ih =>
    simp only [runIn_cons_iff (isWordChar_of_isSpacing hc)]
    exact ih hending
  | operator hc _ ih =>
    simp only [runIn_cons_iff (isWordChar_of_operator hc), List.mem_cons]
    rw [← ih hending]
    refine or_iff_right fun hfirst => ?_
    simp only [Token.mk.injEq] at hfirst
    obtain ⟨rfl, -⟩ := hfirst
    exact ofOperator?_ne_word hc
  | word hrun _ _ ih =>
    simp only [hrun.runIn_iff, List.mem_cons, or_and_right, exists_or]
    rw [← ih hending]
    refine or_congr_left ?_
    simp [String.ext_iff]

/-- Whatever it passes may be where it is. -/
theorem not_violatesIn (h : Scanned before rest tokens ending)
    (hending : ending = .complete position) {place : List Char} :
    ¬ViolatesIn before rest c place := by
  induction h with
  | complete =>
    rintro ⟨skipped, after, hrest, -, -⟩
    simp at hrest
  | unexpected => cases hending
  | spacing hc _ ih => rw [violatesIn_cons_iff (not_violates_of_isSpacing hc)]; exact ih hending
  | operator hc _ ih => rw [violatesIn_cons_iff (not_violates_of_operator hc)]; exact ih hending
  | word hrun hletter _ ih => rw [hrun.violatesIn_iff hletter]; exact ih hending

/-- It stops at the first character that may not be where it is. -/
theorem violatesIn (h : Scanned before rest tokens ending)
    (hending : ending = .unexpected c position) :
    ∃ place, ViolatesIn before rest c place ∧ position = .behind place ∧
      ∀ d place', ViolatesIn before rest d place' → place.length ≤ place'.length := by
  induction h with
  | complete => cases hending
  | @unexpected before rest c hc =>
    cases hending
    refine ⟨before, ⟨[], rest, by simp, by simp, hc⟩, rfl, ?_⟩
    rintro d place' ⟨skipped, after, -, rfl, -⟩
    simp
  | spacing hc _ ih =>
    simp only [violatesIn_cons_iff (not_violates_of_isSpacing hc)]
    exact ih hending
  | operator hc _ ih =>
    simp only [violatesIn_cons_iff (not_violates_of_operator hc)]
    exact ih hending
  | word hrun hletter _ ih =>
    simp only [hrun.violatesIn_iff hletter]
    exact ih hending

end Scanned

/-! ## Tokens of a text -/

/-- The tokens of a text, which is these characters. -/
structure Tokenizes (cs : List Char) (tokens : List Token) : Prop where
  /-- The last is the end of the text, and no other is. -/
  ending : ∃ inner, tokens = inner ++ [⟨.endOfInput, .behind cs⟩] ∧
    ∀ t ∈ inner, t.kind ≠ .endOfInput
  /-- One after the other they spell the text without its spacing. -/
  spelling : tokens.flatMap (·.kind.chars) = cs.filter (fun c => !isSpacing c)
  /-- The words are the runs. -/
  words : ∀ word position, ⟨.word word, position⟩ ∈ tokens ↔
    ∃ before after, cs = before ++ word.toList ++ after ∧ IsRun before word.toList after ∧
      position = .behind before
  /-- Every token says where it starts: between it and the token before there is
  spacing alone. -/
  positions : ∀ front t back, tokens = front ++ t :: back →
    ∃ before after, cs = before ++ t.kind.chars ++ after ∧
      before.filter (fun c => !isSpacing c) = front.flatMap (·.kind.chars) ∧
      t.position = .behind before

theorem Scanned.tokenizes {cs : List Char} {position : Position}
    (h : Scanned [] cs tokens (.complete position)) :
    Tokenizes cs (tokens ++ [⟨.endOfInput, position⟩]) where
  ending := ⟨tokens, by simp [h.position_of_complete rfl], h.kind_ne_endOfInput⟩
  spelling := by simp [h.spelling rfl]
  words word p := by
    simp only [List.mem_append, List.mem_singleton, Token.mk.injEq, reduceCtorEq, false_and,
      or_false, h.word_iff rfl]
    constructor
    · rintro ⟨place, ⟨_, after, hcs, rfl, hrun⟩, rfl⟩
      exact ⟨place, after, hcs, hrun, rfl⟩
    · rintro ⟨before, after, hcs, hrun, rfl⟩
      exact ⟨before, ⟨before, after, hcs, rfl, hrun⟩, rfl⟩
  positions front t back htokens := by
    obtain rfl | ⟨back, last, rfl⟩ := List.eq_nil_or_concat back
    · obtain ⟨rfl, hlast⟩ := List.append_inj' htokens rfl
      obtain ⟨rfl, -⟩ := List.cons.inj hlast
      exact ⟨cs, [], by simp, (h.spelling rfl).symm,
        by simp [h.position_of_complete rfl]⟩
    · have hinner : tokens = front ++ t :: back := by
        rw [List.concat_eq_append, ← List.cons_append, ← List.append_assoc] at htokens
        exact (List.append_inj' htokens rfl).1
      simpa using h.split hinner

theorem scanned_ofText (text : String) :
    Scanned [] text.toList (Scan.ofText text).tokens (Scan.ofText text).ending :=
  scanned_ofCursor (.inl beforeWord_nil)

/-- Nothing is where it may not be if and only if every run begins with a letter
and separators are all there is outside of runs. -/
theorem forall_not_violatesIn_iff {cs : List Char} :
    (∀ c place, ¬ViolatesIn [] cs c place) ↔
      (∀ before c run after, cs = before ++ c :: run ++ after → IsRun before (c :: run) after →
        isLetter c = true) ∧
      ∀ c ∈ cs, isWordChar c = false → c ∈ separators := by
  constructor
  · intro h
    refine ⟨fun before c run after hcs hrun => ?_, fun c hc hword => ?_⟩
    · by_contra hletter
      exact h c before ⟨before, run ++ after, by simp [hcs], rfl,
        .run hrun.before (hrun.all c (by simp)) (by simpa using hletter)⟩
    · by_contra hseparator
      obtain ⟨before, after, rfl⟩ := List.append_of_mem hc
      exact h c before ⟨before, after, rfl, rfl, .stray hword hseparator⟩
  · rintro ⟨hruns, hothers⟩ c place ⟨_, after, rfl, rfl, hc⟩
    cases hc with
    | run hbefore hword hletter =>
      have hrun : IsRun place (c :: after.takeWhile isWordChar) (after.dropWhile isWordChar) :=
        isRun_takeWhile hbefore hword
      have hfirst := hruns place c _ _ (by simp) hrun
      simp [hfirst] at hletter
    | stray hword hseparator => exact hseparator (hothers c (by simp) hword)

/-- Splitting a text is exact. It succeeds if and only if every run begins with a
letter and separators are all there is outside of runs; its tokens are then those
of the text, where they say they are; and otherwise the error is about the first
character that may not be where it is, and tells its position. -/
theorem tokenize_exact (text : String) :
    ((∃ tokens, tokenize text = .ok tokens) ↔
      (∀ before c run after, text.toList = before ++ c :: run ++ after →
        IsRun before (c :: run) after → isLetter c = true) ∧
      ∀ c ∈ text.toList, isWordChar c = false → c ∈ separators) ∧
    (∀ tokens, tokenize text = .ok tokens → Tokenizes text.toList tokens) ∧
    ∀ e, tokenize text = .error e →
      ∃ before c after, text.toList = before ++ c :: after ∧ Violates before c ∧
        e = .unexpectedCharacter c (.behind before) ∧
        ∀ before' c' after', text.toList = before' ++ c' :: after' → Violates before' c' →
          before.length ≤ before'.length := by
  have hscanned := scanned_ofText text
  rw [← forall_not_violatesIn_iff, tokenize]
  generalize (Scan.ofText text).ending = ending at hscanned ⊢
  cases ending with
  | complete position =>
    refine ⟨?_, ?_, nofun⟩
    · have hnone : ∀ c place, ¬ViolatesIn [] text.toList c place := by
        intro c place
        exact hscanned.not_violatesIn rfl
      simpa using hnone
    · rintro _ ⟨⟩
      exact hscanned.tokenizes
  | unexpected c position =>
    obtain ⟨place, hplace, rfl, hfirst⟩ := hscanned.violatesIn rfl
    obtain ⟨_, after, htext, rfl, hc⟩ := id hplace
    refine ⟨?_, nofun, ?_⟩
    · simpa using ⟨c, _, hplace⟩
    · rintro _ ⟨⟩
      exact ⟨place, c, after, htext, hc, rfl, fun before' c' after' htext' hc' =>
        hfirst c' before' ⟨before', after', htext', rfl, hc'⟩⟩

end BeliefNet
