import Mathlib
import BeliefNet.Proofs.Expression.Terms
import BeliefNet.Proofs.Query.Grammar

/-!
# What the reader says about a text that is no query

The error is about the leftmost place at which a text cannot become a query
(`FailsWith`): a token that no query has there, a word that is not defined, a
character that starts no token, or the end of the text. The tokens in front of
that place can be read, so the reader has come there, and it has not asked for
anything behind it. What the message says is missing would have been read
(`fits_expected`).
-/

namespace BeliefNet

/-- What a message says is missing would be read behind these tokens. -/
def Expectation.Fits (defined : String → Bool) (kinds : List TokenKind) : Expectation → Prop
  | .letterP => Viable defined (kinds ++ [.word "P"])
  | .leftParen => Viable defined (kinds ++ [.leftParen])
  | .word => ∀ id, defined id = true → Viable defined (kinds ++ [.word id])
  | .rightParen => Viable defined (kinds ++ [.rightParen])
  | .endOfInput => ∃ q, IsQuery kinds q

/-- The error is about the token behind these. -/
inductive Blames (defined : String → Bool) (kinds : List TokenKind) (token : Token) :
    Error → Prop where
  | misplaced {expected : Expectation} (hexpected : expected.Fits defined kinds) :
      Blames defined kinds token (.unexpectedToken token.kind token.position expected)
  | undefined {id : String} (hkind : token.kind = .word id) (hid : defined id = false) :
      Blames defined kinds token (.undefinedReference id)

/-- The error is about the leftmost place at which no query is possible. -/
inductive FailsWith (defined : String → Bool) (scan : Scan) : Error → Prop where
  /-- Some query begins with the tokens before this one, and none with it. -/
  | token {before after : List Token} {token : Token} {e : Error}
      (htokens : scan.tokens = before ++ token :: after)
      (hbefore : Viable defined (before.map (·.kind)))
      (htoken : ¬Viable defined ((before ++ [token]).map (·.kind)))
      (hblames : Blames defined (before.map (·.kind)) token e) : FailsWith defined scan e
  /-- Some query begins with the tokens, and then comes a character that starts
  none. -/
  | character {c : Char} {position : Position} (hending : scan.ending = .unexpected c position)
      (hviable : Viable defined scan.kinds) :
      FailsWith defined scan (.unexpectedCharacter c position)
  /-- Some query begins with the tokens, and they are none themselves. -/
  | ending {position : Position} {expected : Expectation}
      (hending : scan.ending = .complete position) (hviable : Viable defined scan.kinds)
      (hquery : ∀ q, ¬IsQuery scan.kinds q) (hexpected : expected.Fits defined scan.kinds) :
      FailsWith defined scan (.unexpectedToken .endOfInput position expected)

variable {defined : String → Bool} {kinds kinds' : List TokenKind} {tokens : List Token}
  {token : Token} {q : Query} {r r' : Reading} {scan : Scan} {ending : Ending} {e : Error}

theorem Viable.of_append (h : Viable defined (kinds ++ kinds')) : Viable defined kinds := by
  obtain ⟨r, hsteps⟩ := viable_iff.1 h
  obtain ⟨r', hsteps', -⟩ := hsteps.split
  exact viable_iff.2 ⟨r', hsteps'⟩

/-- At every stage the reader asks for something that it would read. -/
theorem fits_expected (h : Steps defined .start kinds r) : r.stage.expected.Fits defined kinds := by
  obtain ⟨stage, q⟩ := r
  cases stage with
  | start => exact viable_iff.2 ⟨_, h.append (.cons (.letter (.inl rfl)) .nil)⟩
  | letter => exact viable_iff.2 ⟨_, h.append (.cons .leftParen .nil)⟩
  | term side => exact fun id hid => viable_iff.2 ⟨_, h.append (.cons (.affirmed hid) .nil)⟩
  | negation side => exact fun id hid => viable_iff.2 ⟨_, h.append (.cons (.negated hid) .nil)⟩
  | listed side => exact viable_iff.2 ⟨_, h.append (.cons .rightParen .nil)⟩
  | closed => exact ⟨q, (steps_closed_iff.1 h).1⟩

/-- The reader blames the token it is given. -/
theorem blames_of_advance (hkinds : Steps defined .start kinds r)
    (h : r.advance defined token = .error e) : Blames defined kinds token e := by
  obtain ⟨kind, position⟩ := token
  obtain ⟨stage, q⟩ := r
  simp only [Reading.advance, Reading.addTerm] at h
  split at h
  · split at h
    · cases h
    · cases h
      exact .misplaced (fits_expected hkinds)
  · cases h
  · cases h
  · split at h
    · cases h
    · rename_i hid
      cases h
      exact .undefined rfl (by simpa using hid)
  · split at h
    · cases h
    · rename_i hid
      cases h
      exact .undefined rfl (by simpa using hid)
  · cases h
  · cases h
  · cases h
  · cases h
    exact .misplaced (fits_expected hkinds)

/-- A reader that fails does so at one of the tokens. -/
theorem exists_of_foldlM_eq_error (h : tokens.foldlM (Reading.advance defined) r = .error e) :
    ∃ before token after r', tokens = before ++ token :: after ∧
      before.foldlM (Reading.advance defined) r = .ok r' ∧ r'.advance defined token = .error e := by
  induction tokens generalizing r with
  | nil => cases h
  | cons token tokens ih =>
    rw [List.foldlM_cons, bind_eq_error_iff] at h
    obtain hfirst | ⟨r₁, hfirst, hrest⟩ := h
    · exact ⟨[], token, tokens, r, rfl, rfl, hfirst⟩
    · obtain ⟨before, stuck, after, r', rfl, hbefore, hstuck⟩ := ih hrest
      refine ⟨token :: before, stuck, after, r', rfl, ?_, hstuck⟩
      rw [List.foldlM_cons, hfirst]
      exact hbefore

/-- The token at which it fails is the first behind which no query is
possible. -/
theorem failsWith_of_foldlM_eq_error
    (h : scan.tokens.foldlM (Reading.advance defined) .start = .error e) :
    FailsWith defined scan e := by
  obtain ⟨before, token, after, r, htokens, hbefore, hstuck⟩ := exists_of_foldlM_eq_error h
  have hsteps := foldlM_advance_eq_ok_iff.1 hbefore
  refine .token htokens (viable_iff.2 ⟨r, hsteps⟩) ?_ (blames_of_advance hsteps hstuck)
  intro hviable
  -- otherwise the reader would get behind the token, at which it fails
  obtain ⟨r', hsteps'⟩ := viable_iff.1 hviable
  have hread := foldlM_advance_eq_ok_iff.2 hsteps'
  rw [List.foldlM_append, hbefore] at hread
  change [token].foldlM (Reading.advance defined) r = .ok r' at hread
  rw [List.foldlM_cons, bind_eq_ok_iff] at hread
  obtain ⟨_, hadvance, -⟩ := hread
  rw [hstuck] at hadvance
  cases hadvance

theorem finish_eq_ok_iff :
    r.finish ending = .ok q ↔ r = ⟨.closed, q⟩ ∧ ∃ position, ending = .complete position := by
  obtain ⟨stage, q'⟩ := r
  cases ending with
  | complete position =>
    simp only [Reading.finish, Reading.mk.injEq]
    split
    · simp [*]
    · simp [*]
  | unexpected c position => simp [Reading.finish]

namespace Query

/-- The texts that are read are the queries. -/
theorem ofScan_eq_ok_iff :
    ofScan defined scan = .ok q ↔
      (∃ position, scan.ending = .complete position) ∧ IsQuery scan.kinds q ∧
        ∀ t ∈ q.terms, defined t.id = true := by
  unfold ofScan
  simp only [bind_eq_ok_iff, foldlM_advance_eq_ok_iff, finish_eq_ok_iff]
  constructor
  · rintro ⟨_, hsteps, rfl, hending⟩
    exact ⟨hending, steps_closed_iff.1 hsteps⟩
  · rintro ⟨hending, hquery⟩
    exact ⟨_, steps_closed_iff.2 hquery, rfl, hending⟩

theorem failsWith_of_ofScan (h : ofScan defined scan = .error e) : FailsWith defined scan e := by
  unfold ofScan at h
  rw [bind_eq_error_iff] at h
  obtain hread | ⟨r, hread, hfinish⟩ := h
  · exact failsWith_of_foldlM_eq_error hread
  have hsteps := foldlM_advance_eq_ok_iff.1 hread
  have hviable : Viable defined scan.kinds := viable_iff.2 ⟨r, hsteps⟩
  cases hending : scan.ending with
  | unexpected c position =>
    rw [hending] at hfinish
    cases hfinish
    exact .character hending hviable
  | complete position =>
    rw [hending] at hfinish
    simp only [Reading.finish] at hfinish
    split at hfinish
    · cases hfinish
    rename_i hopen
    cases hfinish
    refine .ending hending hviable (fun q hquery => hopen ?_) (fits_expected hsteps)
    have hterms : ∀ t ∈ q.terms, defined t.id = true :=
      fun t ht => hviable.2 t.id (hquery.mem_tail_iff.2 ⟨t, ht, rfl⟩)
    have hclosed := foldlM_advance_eq_ok_iff.2 (steps_closed_iff.2 ⟨hquery, hterms⟩)
    rw [hread] at hclosed
    cases hclosed
    rfl

end Query

/-- Of `P(A B?`, the second word is blamed, not the character behind it. -/
example :
    Query.ofScan (fun _ => true)
      ⟨[⟨.word "P", ⟨1, 0⟩⟩, ⟨.leftParen, ⟨1, 1⟩⟩, ⟨.word "A", ⟨1, 2⟩⟩, ⟨.word "B", ⟨1, 4⟩⟩],
        .unexpected '?' ⟨1, 5⟩⟩ =
      .error (.unexpectedToken (.word "B") ⟨1, 4⟩ .rightParen) := rfl

/-- The error is lexical if and only if the text gets to a character that
starts no token, and syntactic otherwise. -/
theorem FailsWith.kind_eq (h : FailsWith defined scan e) :
    (((∃ c position, scan.ending = .unexpected c position) ∧ Viable defined scan.kinds) →
        e.kind = .lexical) ∧
      (¬((∃ c position, scan.ending = .unexpected c position) ∧ Viable defined scan.kinds) →
        e.kind = .syntactic) := by
  cases h with
  | @token before after token _ htokens _ htoken hblames =>
    have hstuck : ¬Viable defined scan.kinds := by
      have hkinds : scan.kinds = (before ++ [token]).map (·.kind) ++ after.map (·.kind) := by
        simp [Scan.kinds, htokens]
      rw [hkinds]
      exact fun hviable => htoken hviable.of_append
    refine ⟨fun h => absurd h.2 hstuck, fun _ => ?_⟩
    cases hblames with
    | misplaced _ => rfl
    | undefined _ _ => rfl
  | character hending hviable =>
    exact ⟨fun _ => rfl, fun h => absurd ⟨⟨_, _, hending⟩, hviable⟩ h⟩
  | ending hending _ _ _ =>
    refine ⟨?_, fun _ => rfl⟩
    rintro ⟨⟨c, position, hunexpected⟩, -⟩
    rw [hending] at hunexpected
    cases hunexpected

/-- Expressions are the queries whose terms are admissible. -/
theorem Expression.parse_eq_ok_iff {text : String} {x : Expression} :
    Expression.parse defined text = .ok x ↔
      ∃ q, Query.parse defined text = .ok q ∧ Admissible q.hypotheses q.evidence ∧
        x = ⟨⟨Term.merged q.hypotheses, Term.merged q.evidence⟩⟩ := by
  unfold Expression.parse ofQuery
  simp only [bind_eq_ok_iff, ofTerms_eq_ok_iff]

/-- A text is read if and only if all of it is the tokens of a query whose
variables are defined, and the terms are read as they stand there. The error of
any other text is about the leftmost place at which it cannot become a query; it
is lexical if and only if that place is a character that starts no token. A text
is read as an expression if and only if, moreover, its terms are admissible. A
reader that belongs to a network defines the variables of the network, any other
defines all. -/
theorem Query.parse_exact (defined : String → Bool) (text : String) :
    (∀ q, Query.parse defined text = .ok q ↔
      (∃ position, (Scan.ofText text).ending = .complete position) ∧
        IsQuery (Scan.ofText text).kinds q ∧ ∀ t ∈ q.terms, defined t.id = true) ∧
    (∀ e, Query.parse defined text = .error e →
      FailsWith defined (Scan.ofText text) e ∧
        (((∃ c position, (Scan.ofText text).ending = .unexpected c position) ∧
            Viable defined (Scan.ofText text).kinds) → e.kind = .lexical) ∧
        (¬((∃ c position, (Scan.ofText text).ending = .unexpected c position) ∧
            Viable defined (Scan.ofText text).kinds) → e.kind = .syntactic)) ∧
    ∀ x, Expression.parse defined text = .ok x ↔
      ∃ q, Query.parse defined text = .ok q ∧
        Expression.Admissible q.hypotheses q.evidence ∧
        x = ⟨⟨Term.merged q.hypotheses, Term.merged q.evidence⟩⟩ := by
  refine ⟨fun q => Query.ofScan_eq_ok_iff, fun e he => ?_, fun x => Expression.parse_eq_ok_iff⟩
  have hfails := Query.failsWith_of_ofScan he
  exact ⟨hfails, hfails.kind_eq⟩

end BeliefNet
