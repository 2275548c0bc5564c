import Mathlib
import BeliefNet.Query.Parser

/-!
# The grammar of queries

A query is the letter P and, in parentheses, a list of terms or two of them with
a bar between; a term is a word, with a tilde in front of it if the variable is
false (`IsTerm`, `AreTerms`, `IsQuery`). The reader takes one token after the
other (`Step`, `Steps`), and

* it gets behind the tokens that some query begins with (`viable_iff`);
* it comes to the end with those that are a query (`steps_closed_iff`).

What it has read at a stage is a beginning of a query (`Reads.steps`), from every
stage the end can be reached (`exists_steps_closed`), and every query is read
(`IsQuery.steps`).
-/

namespace BeliefNet

/-! ## The grammar -/

/-- A word, behind a tilde if the value is false. -/
inductive IsTerm : List TokenKind → Term → Prop where
  | affirmed (id : String) : IsTerm [.word id] ⟨id, true⟩
  | negated (id : String) : IsTerm [.not, .word id] ⟨id, false⟩

/-- One term or more, with commas between them. -/
inductive AreTerms : List TokenKind → List Term → Prop where
  | last {kinds : List TokenKind} {t : Term} (ht : IsTerm kinds t) : AreTerms kinds [t]
  | next {kinds rest : List TokenKind} {t : Term} {terms : List Term} (ht : IsTerm kinds t)
      (hrest : AreTerms rest terms) : AreTerms (kinds ++ .comma :: rest) (t :: terms)

/-- The letter in front of a query, in either case. -/
def IsLetterP (word : String) : Prop := word = "P" ∨ word = "p"

/-- The letter, and in parentheses the hypotheses and, behind a bar, the
evidence. -/
inductive IsQuery : List TokenKind → Query → Prop where
  | unconditional {letter : String} {kinds : List TokenKind} {hypotheses : List Term}
      (hletter : IsLetterP letter) (h : AreTerms kinds hypotheses) :
      IsQuery (.word letter :: .leftParen :: kinds ++ [.rightParen]) ⟨hypotheses, []⟩
  | conditional {letter : String} {kinds kinds' : List TokenKind} {hypotheses evidence : List Term}
      (hletter : IsLetterP letter) (h : AreTerms kinds hypotheses)
      (h' : AreTerms kinds' evidence) :
      IsQuery (.word letter :: .leftParen :: kinds ++ .pipe :: kinds' ++ [.rightParen])
        ⟨hypotheses, evidence⟩

/-- Some query begins with these tokens, and the variables that they name are
defined. The first word is the letter, so it names none. -/
def Viable (defined : String → Bool) (kinds : List TokenKind) : Prop :=
  (∃ rest q, IsQuery (kinds ++ rest) q) ∧ ∀ id, .word id ∈ kinds.tail → defined id = true

/-- The tokens of a scan without their positions. -/
def Scan.kinds (scan : Scan) : List TokenKind := scan.tokens.map (·.kind)

variable {defined : String → Bool} {kinds kinds' rest : List TokenKind} {kind : TokenKind}
  {t : Term} {terms : List Term} {q : Query} {id : String} {r r' r'' : Reading} {side : Side}

theorem IsTerm.mem_iff (h : IsTerm kinds t) : .word id ∈ kinds ↔ t.id = id := by
  cases h with
  | affirmed _ => simp [eq_comm]
  | negated _ => simp [eq_comm]

theorem AreTerms.mem_iff (h : AreTerms kinds terms) :
    .word id ∈ kinds ↔ ∃ t ∈ terms, t.id = id := by
  induction h with
  | last ht => simp [ht.mem_iff]
  | next ht _ ih => simp [ht.mem_iff, ih]

theorem AreTerms.ne_nil (h : AreTerms kinds terms) : terms ≠ [] := by
  cases h with
  | last _ => simp
  | next _ _ => simp

/-- A list grows at its end, too. -/
theorem AreTerms.concat (h : AreTerms kinds terms) (ht : IsTerm kinds' t) :
    AreTerms (kinds ++ .comma :: kinds') (terms ++ [t]) := by
  induction h with
  | last hfirst => exact .next hfirst (.last ht)
  | next hfirst _ ih =>
    rw [List.append_assoc, List.cons_append, List.cons_append]
    exact .next hfirst ih

/-- Behind the letter, the words of a query are the ids of its terms. -/
theorem IsQuery.mem_tail_iff (h : IsQuery kinds q) :
    .word id ∈ kinds.tail ↔ ∃ t ∈ q.terms, t.id = id := by
  cases h with
  | unconditional _ h => simp [Query.terms, h.mem_iff]
  | conditional _ h h' => simp [Query.terms, h.mem_iff, h'.mem_iff, or_and_right, exists_or]

theorem IsQuery.hypotheses_ne_nil (h : IsQuery kinds q) : q.hypotheses ≠ [] := by
  cases h with
  | unconditional _ h => exact h.ne_nil
  | conditional _ h _ => exact h.ne_nil

/-! ## The stages of the reader -/

/-- What one token does. -/
inductive Step (defined : String → Bool) : Reading → TokenKind → Reading → Prop where
  | letter {q : Query} {word : String} (hword : IsLetterP word) :
      Step defined ⟨.start, q⟩ (.word word) ⟨.letter, q⟩
  | leftParen {q : Query} : Step defined ⟨.letter, q⟩ .leftParen ⟨.term .hypotheses, q⟩
  | not {q : Query} {side : Side} : Step defined ⟨.term side, q⟩ .not ⟨.negation side, q⟩
  | affirmed {q : Query} {side : Side} {id : String} (hid : defined id = true) :
      Step defined ⟨.term side, q⟩ (.word id) ⟨.listed side, Reading.add q side ⟨id, true⟩⟩
  | negated {q : Query} {side : Side} {id : String} (hid : defined id = true) :
      Step defined ⟨.negation side, q⟩ (.word id) ⟨.listed side, Reading.add q side ⟨id, false⟩⟩
  | comma {q : Query} {side : Side} : Step defined ⟨.listed side, q⟩ .comma ⟨.term side, q⟩
  | pipe {q : Query} : Step defined ⟨.listed .hypotheses, q⟩ .pipe ⟨.term .evidence, q⟩
  | rightParen {q : Query} {side : Side} : Step defined ⟨.listed side, q⟩ .rightParen ⟨.closed, q⟩

/-- What several tokens do. -/
inductive Steps (defined : String → Bool) : Reading → List TokenKind → Reading → Prop where
  | nil {r : Reading} : Steps defined r [] r
  | cons {r r' r'' : Reading} {kind : TokenKind} {kinds : List TokenKind}
      (h : Step defined r kind r') (hrest : Steps defined r' kinds r'') :
      Steps defined r (kind :: kinds) r''

/-- The reader goes on exactly so. -/
theorem advance_eq_ok_iff {token : Token} :
    r.advance defined token = .ok r' ↔ Step defined r token.kind r' := by
  obtain ⟨kind, position⟩ := token
  obtain ⟨stage, q⟩ := r
  constructor
  · intro h
    simp only [Reading.advance, Reading.addTerm] at h
    split at h
    · split at h
      · cases h
        exact .letter ‹_›
      · cases h
    · cases h
      exact .leftParen
    · cases h
      exact .not
    · split at h
      · cases h
        exact .affirmed ‹_›
      · cases h
    · split at h
      · cases h
        exact .negated ‹_›
      · cases h
    · cases h
      exact .comma
    · cases h
      exact .pipe
    · cases h
      exact .rightParen
    · cases h
  · intro h
    cases h with
    | letter hword => exact if_pos hword
    | leftParen => rfl
    | not => rfl
    | affirmed hid => exact if_pos hid
    | negated hid => exact if_pos hid
    | comma => rfl
    | pipe => rfl
    | rightParen => rfl

theorem foldlM_advance_eq_ok_iff {tokens : List Token} :
    tokens.foldlM (Reading.advance defined) r = .ok r' ↔
      Steps defined r (tokens.map (·.kind)) r' := by
  induction tokens generalizing r with
  | nil =>
    constructor
    · rintro ⟨⟩
      exact .nil
    · rintro ⟨⟩
      rfl
  | cons token tokens ih =>
    rw [List.foldlM_cons, List.map_cons, bind_eq_ok_iff]
    constructor
    · rintro ⟨_, hadvance, hrest⟩
      exact .cons (advance_eq_ok_iff.1 hadvance) (ih.1 hrest)
    · intro h
      cases h with
      | cons hstep hrest => exact ⟨_, advance_eq_ok_iff.2 hstep, ih.2 hrest⟩

theorem Steps.append (h : Steps defined r kinds r') (h' : Steps defined r' kinds' r'') :
    Steps defined r (kinds ++ kinds') r'' := by
  induction h with
  | nil => exact h'
  | cons hstep _ ih => exact .cons hstep (ih h')

theorem Steps.split (h : Steps defined r (kinds ++ kinds') r'') :
    ∃ r', Steps defined r kinds r' ∧ Steps defined r' kinds' r'' := by
  induction kinds generalizing r with
  | nil => exact ⟨r, .nil, h⟩
  | cons kind kinds ih =>
    cases h with
    | cons hstep hrest =>
      obtain ⟨r', hfirst, hlast⟩ := ih hrest
      exact ⟨r', .cons hstep hfirst, hlast⟩

/-! ## What has been read at a stage -/

/-- The query with terms on a side; `before` are the hypotheses in front of
evidence. -/
def Side.query : Side → List Term → List Term → Query
  | .hypotheses, _, terms => ⟨terms, []⟩
  | .evidence, before, terms => ⟨before, terms⟩

theorem add_query (side : Side) (before terms : List Term) (t : Term) :
    Reading.add (side.query before terms) side t = side.query before (terms ++ [t]) := by
  cases side with
  | hypotheses => rfl
  | evidence => rfl

/-- The tokens in front of the terms of a side. -/
inductive Opens : Side → List TokenKind → List Term → Prop where
  | hypotheses {letter : String} (hletter : IsLetterP letter) :
      Opens .hypotheses [.word letter, .leftParen] []
  | evidence {letter : String} {kinds : List TokenKind} {hypotheses : List Term}
      (hletter : IsLetterP letter) (h : AreTerms kinds hypotheses) :
      Opens .evidence (.word letter :: .leftParen :: kinds ++ [.pipe]) hypotheses

/-- The tokens of a side where another term is to follow. -/
inductive AwaitsTerm : List TokenKind → List Term → Prop where
  | first : AwaitsTerm [] []
  | next {kinds : List TokenKind} {terms : List Term} (h : AreTerms kinds terms) :
      AwaitsTerm (kinds ++ [.comma]) terms

/-- What the reader has read, by its stage. -/
inductive Reads : List TokenKind → Reading → Prop where
  | start : Reads [] ⟨.start, ⟨[], []⟩⟩
  | letter {letter : String} (hletter : IsLetterP letter) :
      Reads [.word letter] ⟨.letter, ⟨[], []⟩⟩
  | term {side : Side} {opening kinds : List TokenKind} {before terms : List Term}
      (hopens : Opens side opening before) (h : AwaitsTerm kinds terms) :
      Reads (opening ++ kinds) ⟨.term side, side.query before terms⟩
  | negation {side : Side} {opening kinds : List TokenKind} {before terms : List Term}
      (hopens : Opens side opening before) (h : AwaitsTerm kinds terms) :
      Reads (opening ++ kinds ++ [.not]) ⟨.negation side, side.query before terms⟩
  | listed {side : Side} {opening kinds : List TokenKind} {before terms : List Term}
      (hopens : Opens side opening before) (h : AreTerms kinds terms) :
      Reads (opening ++ kinds) ⟨.listed side, side.query before terms⟩
  | closed {kinds : List TokenKind} {q : Query} (h : IsQuery kinds q) : Reads kinds ⟨.closed, q⟩

theorem AwaitsTerm.add (h : AwaitsTerm kinds terms) (ht : IsTerm kinds' t) :
    AreTerms (kinds ++ kinds') (terms ++ [t]) := by
  cases h with
  | first => exact .last ht
  | next h =>
    rw [List.append_assoc]
    exact h.concat ht

theorem Opens.close {opening : List TokenKind} {before : List Term}
    (hopens : Opens side opening before) (h : AreTerms kinds terms) :
    IsQuery (opening ++ kinds ++ [.rightParen]) (side.query before terms) := by
  cases hopens with
  | hypotheses hletter => exact .unconditional hletter h
  | evidence hletter hbefore =>
    simpa [Side.query] using IsQuery.conditional hletter hbefore h

/-- A side begins without terms. -/
theorem Reads.opened {opening : List TokenKind} {before : List Term}
    (hopens : Opens side opening before) :
    Reads opening ⟨.term side, side.query before []⟩ := by
  simpa using Reads.term hopens .first

/-- One token more is read. -/
theorem Reads.step (h : Reads kinds r) (hstep : Step defined r kind r') :
    Reads (kinds ++ [kind]) r' := by
  cases hstep with
  | letter hword =>
    cases h with
    | start => exact .letter hword
  | leftParen =>
    cases h with
    | letter hletter => exact opened (.hypotheses hletter)
  | not =>
    cases h with
    | term hopens h => exact .negation hopens h
  | affirmed _ =>
    cases h with
    | term hopens h =>
      rw [List.append_assoc, add_query]
      exact .listed hopens (h.add (.affirmed _))
  | negated _ =>
    cases h with
    | negation hopens h =>
      rw [List.append_assoc, List.append_assoc, add_query]
      exact .listed hopens (h.add (.negated _))
  | comma =>
    cases h with
    | listed hopens h =>
      rw [List.append_assoc]
      exact .term hopens (.next h)
  | pipe =>
    -- the hypotheses are complete and belong to what opens the evidence
    cases h with
    | listed hopens h =>
      cases hopens with
      | hypotheses hletter => exact opened (.evidence hletter h)
  | rightParen =>
    cases h with
    | listed hopens h => exact .closed (hopens.close h)

/-- And so are several. -/
theorem Reads.steps (h : Reads kinds r) (hsteps : Steps defined r kinds' r') :
    Reads (kinds ++ kinds') r' := by
  induction hsteps generalizing kinds with
  | nil => rwa [List.append_nil]
  | cons hstep _ ih => simpa using ih (h.step hstep)

/-! ## Every query is read -/

/-- The term that follows is added to the side. -/
theorem IsTerm.steps (h : IsTerm kinds t) (ht : defined t.id = true) (q : Query) (side : Side) :
    Steps defined ⟨.term side, q⟩ kinds ⟨.listed side, Reading.add q side t⟩ := by
  cases h with
  | affirmed _ => exact .cons (.affirmed ht) .nil
  | negated _ => exact .cons .not (.cons (.negated ht) .nil)

/-- So are the terms that follow. -/
theorem AreTerms.steps (h : AreTerms kinds terms) (hterms : ∀ t ∈ terms, defined t.id = true)
    (side : Side) (before done : List Term) :
    Steps defined ⟨.term side, side.query before done⟩ kinds
      ⟨.listed side, side.query before (done ++ terms)⟩ := by
  induction h generalizing done with
  | last ht =>
    rw [← add_query]
    exact ht.steps (hterms _ (List.mem_singleton_self _)) _ _
  | @next _ _ t terms ht _ ih =>
    have hfirst := ht.steps (hterms _ List.mem_cons_self) (side.query before done) side
    rw [add_query] at hfirst
    have hrest := ih (fun u hu => hterms u (List.mem_cons_of_mem _ hu)) (done ++ [t])
    rw [List.append_assoc, List.singleton_append] at hrest
    exact hfirst.append (.cons .comma hrest)

theorem IsQuery.steps (h : IsQuery kinds q) (hterms : ∀ t ∈ q.terms, defined t.id = true) :
    Steps defined .start kinds ⟨.closed, q⟩ := by
  cases h with
  | unconditional hletter h =>
    have hlist := h.steps (fun t ht => hterms t (List.mem_append_left _ ht)) .hypotheses [] []
    exact .cons (.letter hletter) (.cons .leftParen (hlist.append (.cons .rightParen .nil)))
  | @conditional _ _ _ hypotheses _ hletter h h' =>
    have hlist := h.steps (fun t ht => hterms t (List.mem_append_left _ ht)) .hypotheses [] []
    have hlist' :=
      h'.steps (fun t ht => hterms t (List.mem_append_right _ ht)) .evidence hypotheses []
    rw [List.append_assoc]
    exact .cons (.letter hletter) (.cons .leftParen
      (hlist.append (.cons .pipe (hlist'.append (.cons .rightParen .nil)))))

/-- From every stage the end can be reached, if every word is defined. -/
theorem exists_steps_closed (r : Reading) :
    ∃ rest q, Steps (fun _ => true) r rest ⟨.closed, q⟩ := by
  have hlisted : ∀ side q, Steps (fun _ => true) ⟨.listed side, q⟩ [.rightParen] ⟨.closed, q⟩ :=
    fun _ _ => .cons .rightParen .nil
  have hterm : ∀ side q, ∃ q', Steps (fun _ => true) ⟨.term side, q⟩ [.word "x", .rightParen]
      ⟨.closed, q'⟩ :=
    fun side q => ⟨_, .cons (.affirmed rfl) (hlisted side _)⟩
  obtain ⟨stage, q⟩ := r
  cases stage with
  | start =>
    obtain ⟨q', h⟩ := hterm .hypotheses q
    exact ⟨_, q', .cons (.letter (.inl rfl)) (.cons .leftParen h)⟩
  | letter =>
    obtain ⟨q', h⟩ := hterm .hypotheses q
    exact ⟨_, q', .cons .leftParen h⟩
  | term side =>
    obtain ⟨q', h⟩ := hterm side q
    exact ⟨_, q', h⟩
  | negation side => exact ⟨[.word "x", .rightParen], _, .cons (.negated rfl) (hlisted side _)⟩
  | listed side => exact ⟨_, q, hlisted side q⟩
  | closed => exact ⟨[], q, .nil⟩

/-! ## Which tokens can be read -/

/-- At every stage but the first, a word can be read only if it is defined. -/
theorem step_iff (hstage : r.stage ≠ .start) :
    Step defined r kind r' ↔
      Step (fun _ => true) r kind r' ∧ ∀ id, .word id = kind → defined id = true := by
  constructor
  · intro h
    cases h with
    | letter _ => exact absurd rfl hstage
    | leftParen => exact ⟨.leftParen, nofun⟩
    | not => exact ⟨.not, nofun⟩
    | affirmed hid => exact ⟨.affirmed rfl, by rintro _ ⟨⟩; exact hid⟩
    | negated hid => exact ⟨.negated rfl, by rintro _ ⟨⟩; exact hid⟩
    | comma => exact ⟨.comma, nofun⟩
    | pipe => exact ⟨.pipe, nofun⟩
    | rightParen => exact ⟨.rightParen, nofun⟩
  · rintro ⟨h, hdefined⟩
    cases h with
    | letter _ => exact absurd rfl hstage
    | leftParen => exact .leftParen
    | not => exact .not
    | affirmed _ => exact .affirmed (hdefined _ rfl)
    | negated _ => exact .negated (hdefined _ rfl)
    | comma => exact .comma
    | pipe => exact .pipe
    | rightParen => exact .rightParen

/-- The first stage does not come again. -/
theorem Step.stage_ne_start (h : Step defined r kind r') : r'.stage ≠ .start := by
  cases h <;> nofun

theorem steps_iff (hstage : r.stage ≠ .start) :
    Steps defined r kinds r' ↔
      Steps (fun _ => true) r kinds r' ∧ ∀ id, .word id ∈ kinds → defined id = true := by
  induction kinds generalizing r with
  | nil =>
    constructor
    · rintro ⟨⟩
      exact ⟨.nil, nofun⟩
    · rintro ⟨⟨⟩, -⟩
      exact .nil
  | cons kind kinds ih =>
    simp only [List.mem_cons, or_imp, forall_and]
    constructor
    · intro h
      cases h with
      | cons hstep hrest =>
        obtain ⟨hstep', hkind⟩ := (step_iff hstage).1 hstep
        obtain ⟨hrest', hkinds⟩ := (ih hstep.stage_ne_start).1 hrest
        exact ⟨.cons hstep' hrest', hkind, hkinds⟩
    · rintro ⟨h, hkind, hkinds⟩
      cases h with
      | cons hstep hrest =>
        exact .cons ((step_iff hstage).2 ⟨hstep, hkind⟩)
          ((ih hstep.stage_ne_start).2 ⟨hrest, hkinds⟩)

/-- From the start, the first word need not be defined. -/
theorem steps_start_iff :
    Steps defined .start kinds r ↔
      Steps (fun _ => true) .start kinds r ∧ ∀ id, .word id ∈ kinds.tail → defined id = true := by
  constructor
  · intro h
    cases h with
    | nil => exact ⟨.nil, nofun⟩
    | cons hstep hrest =>
      obtain ⟨hrest', hkinds⟩ := (steps_iff hstep.stage_ne_start).1 hrest
      cases hstep with
      | letter hword => exact ⟨.cons (.letter hword) hrest', hkinds⟩
  · rintro ⟨h, hkinds⟩
    cases h with
    | nil => exact .nil
    | cons hstep hrest =>
      have hrest' := (steps_iff hstep.stage_ne_start).2 ⟨hrest, hkinds⟩
      cases hstep with
      | letter hword => exact .cons (.letter hword) hrest'

/-- What has been read at the end is a query, and every query comes to the
end. -/
theorem steps_closed_iff :
    Steps defined .start kinds ⟨.closed, q⟩ ↔
      IsQuery kinds q ∧ ∀ t ∈ q.terms, defined t.id = true := by
  constructor
  · intro h
    have hquery : IsQuery kinds q := by
      cases Reads.start.steps h with
      | closed hquery => exact hquery
    refine ⟨hquery, fun t ht => ?_⟩
    exact (steps_start_iff.1 h).2 t.id (hquery.mem_tail_iff.2 ⟨t, ht, rfl⟩)
  · rintro ⟨hquery, hterms⟩
    exact hquery.steps hterms

/-- The reader gets behind the tokens that a query can begin with. -/
theorem viable_iff : Viable defined kinds ↔ ∃ r, Steps defined .start kinds r := by
  constructor
  · rintro ⟨⟨rest, q, hquery⟩, hwords⟩
    -- the words of `rest` need not be defined, so the whole is read as if all were
    obtain ⟨r, hsteps, -⟩ := (hquery.steps fun _ _ => rfl : Steps (fun _ => true) _ _ _).split
    exact ⟨r, steps_start_iff.2 ⟨hsteps, hwords⟩⟩
  · rintro ⟨r, hsteps⟩
    obtain ⟨hsteps', hwords⟩ := steps_start_iff.1 hsteps
    obtain ⟨rest, q, hclosed⟩ := exists_steps_closed r
    exact ⟨⟨rest, q, (steps_closed_iff.1 (hsteps'.append hclosed)).1⟩, hwords⟩

end BeliefNet
