import Mathlib
import BeliefNet.Proofs.Query.Failure
import BeliefNet.Proofs.Query.Spelling

/-!
# Reading what was written

The text of a query spells its tokens (`Query.spells`), and these are the query
(`Query.isQuery_kinds`), so that the text is read as the query it was written
from. An expression that has been read is a query of this kind, and its terms
form it again.
-/

namespace BeliefNet

/-! ## The tokens of a query -/

/-- The tokens that a term is written with. -/
def Term.kinds (t : Term) : List TokenKind :=
  if t.value then [.word t.id] else [.not, .word t.id]

/-- Those of several terms. -/
def Term.listKinds (terms : List Term) : List TokenKind :=
  [.comma].intercalate (terms.map kinds)

/-- Those of a query. -/
def Query.kinds (q : Query) : List TokenKind :=
  let condition := if q.hasEvidence then .pipe :: Term.listKinds q.evidence else []
  .word "P" :: .leftParen :: (Term.listKinds q.hypotheses ++ condition ++ [.rightParen])

variable {defined : String → Bool} {rest : List Char} {kinds : List TokenKind} {t : Term}
  {terms : List Term} {q : Query}

namespace Term

theorem isTerm_kinds (t : Term) : IsTerm t.kinds t := by
  obtain ⟨id, value⟩ := t
  cases value with
  | false => exact .negated id
  | true => exact .affirmed id

theorem listKinds_singleton (t : Term) : listKinds [t] = t.kinds := by
  simp [listKinds]

theorem listKinds_cons (t u : Term) (terms : List Term) :
    listKinds (t :: u :: terms) = t.kinds ++ .comma :: listKinds (u :: terms) := by
  simp [listKinds, List.intercalate_cons_cons]

theorem listChars_singleton (t : Term) : listChars [t] = t.chars := by
  simp [listChars]

theorem listChars_cons (t u : Term) (terms : List Term) :
    listChars (t :: u :: terms) = t.chars ++ ',' :: listChars (u :: terms) := by
  simp [listChars, List.intercalate_cons_cons]

theorem areTerms_listKinds (h : terms ≠ []) : AreTerms (listKinds terms) terms := by
  induction terms with
  | nil => exact absurd rfl h
  | cons t terms ih =>
    cases terms with
    | nil =>
      rw [listKinds_singleton]
      exact .last t.isTerm_kinds
    | cons u terms =>
      rw [listKinds_cons]
      exact .next t.isTerm_kinds (ih (List.cons_ne_nil u terms))

/-- The text of a term spells its tokens, in front of anything that does not
prolong its word. -/
theorem spells (hid : Text.isWord t.id.toList = true) (hnext : EndsWord rest)
    (hrest : Spells rest kinds) : Spells (t.chars ++ rest) (t.kinds ++ kinds) := by
  have hword := hrest.word hid hnext
  rw [String.ofList_toList] at hword
  obtain ⟨id, value⟩ := t
  cases value with
  | false => exact hword.operator rfl
  | true => exact hword

theorem spells_list (hids : ∀ t ∈ terms, Text.isWord t.id.toList = true) (hnext : EndsWord rest)
    (hrest : Spells rest kinds) : Spells (listChars terms ++ rest) (listKinds terms ++ kinds) := by
  induction terms with
  | nil => exact hrest
  | cons t terms ih =>
    obtain ⟨hid, hids⟩ := List.forall_mem_cons.1 hids
    cases terms with
    | nil =>
      rw [listChars_singleton, listKinds_singleton]
      exact spells hid hnext hrest
    | cons u terms =>
      rw [listChars_cons, listKinds_cons, List.append_assoc, List.append_assoc]
      exact spells hid (.operator rfl) ((ih hids).operator rfl)

end Term

namespace Query

/-- The tokens of a query are that query. -/
theorem isQuery_kinds (h : q.hypotheses ≠ []) : IsQuery q.kinds q := by
  obtain ⟨hypotheses, evidence⟩ := q
  have hhypotheses := Term.areTerms_listKinds h
  cases evidence with
  | nil =>
    have hquery := IsQuery.unconditional (.inl rfl) hhypotheses
    simpa [kinds, hasEvidence] using hquery
  | cons t terms =>
    have hquery :=
      IsQuery.conditional (.inl rfl) hhypotheses
        (Term.areTerms_listKinds (List.cons_ne_nil t terms))
    simpa [kinds, hasEvidence] using hquery

theorem spells_opening {cs : List Char} (h : Spells cs kinds) :
    Spells ('P' :: '(' :: cs) (.word "P" :: .leftParen :: kinds) := by
  have hword : Spells (['P'] ++ '(' :: cs) (.word (String.ofList ['P']) :: .leftParen :: kinds) :=
    (h.operator rfl).word (by decide) (.operator rfl)
  exact hword

/-- And they are spelled by its text. -/
theorem spells (hids : ∀ t ∈ q.terms, Text.isWord t.id.toList = true) :
    Spells q.chars q.kinds := by
  obtain ⟨hypotheses, evidence⟩ := q
  have hhypotheses : ∀ t ∈ hypotheses, Text.isWord t.id.toList = true :=
    fun t ht => hids t (List.mem_append_left _ ht)
  have hevidence : ∀ t ∈ evidence, Text.isWord t.id.toList = true :=
    fun t ht => hids t (List.mem_append_right _ ht)
  have hclose : Spells [')'] [.rightParen] := Spells.nil.operator rfl
  cases evidence with
  | nil =>
    have hlist := Term.spells_list hhypotheses (.operator rfl) hclose
    simpa [chars, kinds, hasEvidence] using spells_opening hlist
  | cons t terms =>
    have hcondition :
        Spells ('|' :: (Term.listChars (t :: terms) ++ [')']))
          (.pipe :: (Term.listKinds (t :: terms) ++ [.rightParen])) :=
      (Term.spells_list hevidence (.operator rfl) hclose).operator rfl
    have hlist := Term.spells_list hhypotheses (.operator rfl) hcondition
    simpa [chars, kinds, hasEvidence] using spells_opening hlist

/-- The variables of a query that has been read are defined words. -/
theorem readable_of_parse {text : String} (h : parse defined text = .ok q) :
    ∀ t ∈ q.terms, Text.isWord t.id.toList = true ∧ defined t.id = true := by
  obtain ⟨-, hquery, hdefined⟩ := ofScan_eq_ok_iff.1 h
  intro t ht
  have hmem := List.mem_of_mem_tail (hquery.mem_tail_iff.2 ⟨t, ht, rfl⟩)
  exact ⟨Scan.isWord_of_mem hmem, hdefined t ht⟩

/-- The text of a query is read as this query if it has a hypothesis and its
variables are defined words, and not otherwise. -/
theorem parse_text_iff :
    parse defined q.text = .ok q ↔
      q.hypotheses ≠ [] ∧
        ∀ t ∈ q.terms, Text.isWord t.id.toList = true ∧ defined t.id = true := by
  constructor
  · intro h
    obtain ⟨-, hquery, -⟩ := ofScan_eq_ok_iff.1 h
    exact ⟨hquery.hypotheses_ne_nil, readable_of_parse h⟩
  · rintro ⟨hhypothesis, hterms⟩
    -- the text is scanned to the tokens it spells, which are a query
    obtain ⟨hkinds, hending⟩ := spells (fun t ht => (hterms t ht).1) Position.start
    have hscan : Scan.ofText q.text = Scan.ofCursor ⟨q.chars, .start⟩ := by
      rw [Scan.ofText, Cursor.ofText, text, String.toList_ofList]
    rw [parse, hscan]
    refine ofScan_eq_ok_iff.2 ⟨hending, ?_, fun t ht => (hterms t ht).2⟩
    rw [hkinds]
    exact isQuery_kinds hhypothesis

end Query

/-- An expression that has been read is a query with a hypothesis and defined
words, and its terms form it again. -/
theorem Expression.parse_text {text : String} {x : Expression}
    (h : Expression.parse defined text = .ok x) : Expression.parse defined x.text = .ok x := by
  obtain ⟨q, hparse, hterms⟩ := bind_eq_ok_iff.1 h
  have hreadable : ∀ t ∈ x.terms, Text.isWord t.id.toList = true ∧ defined t.id = true :=
    fun t ht => Query.readable_of_parse hparse t ((mem_terms_of_ofTerms hterms t).1 ht)
  have hquery : Query.parse defined x.text = .ok x.toQuery :=
    Query.parse_text_iff.2 ⟨hypotheses_ne_nil_of_ofTerms hterms, hreadable⟩
  exact bind_eq_ok_iff.2 ⟨x.toQuery, hquery, ofQuery_of_ofTerms hterms⟩

/-- Writing and reading undo each other. The text of a query is read as this query
if it has a hypothesis and its variables are defined words, and not otherwise; the
text of an expression that has been read is read as this expression again. -/
theorem Query.text_roundTrip (defined : String → Bool) :
    (∀ q, Query.parse defined q.text = .ok q ↔
      q.hypotheses ≠ [] ∧
        ∀ t ∈ q.terms, Text.isWord t.id.toList = true ∧ defined t.id = true) ∧
    ∀ text x, Expression.parse defined text = .ok x → Expression.parse defined x.text = .ok x :=
  ⟨fun _ => Query.parse_text_iff, fun _ _ h => Expression.parse_text h⟩

/-- With repetitions and a letter beyond ASCII: the query is read with both
mentions of `R`, and the expression that it forms is written with one. -/
theorem Query.greek_text_roundTrip :
    Query.parse (fun _ => true) "P(~Δ1,R,R|S)" =
        .ok ⟨[⟨"Δ1", false⟩, ⟨"R", true⟩, ⟨"R", true⟩], [⟨"S", true⟩]⟩ ∧
      Expression.parse (fun _ => true) "P(~Δ1,R|S)" =
        .ok ⟨⟨[⟨"Δ1", false⟩, ⟨"R", true⟩], [⟨"S", true⟩]⟩⟩ := by
  have hquery := ((Query.text_roundTrip fun _ => true).1
    ⟨[⟨"Δ1", false⟩, ⟨"R", true⟩, ⟨"R", true⟩], [⟨"S", true⟩]⟩).2 ⟨by decide, by decide +kernel⟩
  have hexpression := (Query.text_roundTrip fun _ => true).2 "P(~Δ1,R,R|S)"
    ⟨⟨[⟨"Δ1", false⟩, ⟨"R", true⟩], [⟨"S", true⟩]⟩⟩ (bind_eq_ok_iff.2 ⟨_, hquery, by decide⟩)
  exact ⟨hquery, hexpression⟩

end BeliefNet
