import Mathlib
import BeliefNet.Proofs.Network.Evidence
import BeliefNet.Proofs.Query.RoundTrip

/-!
# Ids are the words of queries

What may name a variable is said twice: for a whole text, when a variable is defined
(`Text.isWord`), and by the scanner, which skips spacing, stops at operators and takes
the longest word. The two agree on every text (`tokenize_eq_word_iff`). So each id of a
network can stand in a query, a `P` or `p` not excepted, and a query with at least one
hypothesis is read from its text as what it is (`Reachable.ids_are_words`).
-/

namespace BeliefNet

variable {position : Position} {hypotheses evidence : List Term}

theorem kinds_tokenize {text : String} (h : (Scan.ofText text).ending = .complete position) :
    (tokenize text).map (·.map (·.kind)) = .ok ((Scan.ofText text).kinds ++ [.endOfInput]) := by
  simp only [tokenize, h, Except.map, List.map_append]
  rfl

/-- A text is scanned as one word, which is all of it, if and only if it is a word. -/
theorem tokenize_eq_word_iff (text : String) :
    (tokenize text).map (·.map (·.kind)) = .ok [.word text, .endOfInput] ↔
      Text.isWord text.toList = true := by
  constructor
  · intro h
    cases hending : (Scan.ofText text).ending with
    | complete position =>
      rw [kinds_tokenize hending, Except.ok.injEq] at h
      have hmem : .word text ∈ (Scan.ofText text).kinds ++ [.endOfInput] := by
        rw [h]
        exact List.mem_cons_self
      rcases List.mem_append.1 hmem with hword | hend
      · exact Scan.isWord_of_mem hword
      · cases List.mem_singleton.1 hend
    | unexpected c position =>
      unfold tokenize at h
      simp only [hending] at h
      cases h
  · intro h
    -- nothing follows that could prolong the word
    have hspells : Spells (text.toList ++ []) [.word (String.ofList text.toList)] :=
      Spells.nil.word h nofun
    rw [List.append_nil, String.ofList_toList] at hspells
    obtain ⟨hkinds, position, hending⟩ := hspells .start
    have hscan : (Scan.ofText text).kinds = [.word text] := hkinds
    rw [kinds_tokenize hending, hscan]
    rfl

namespace Query

/-- The text of a query without evidence. -/
theorem text_unconditional (hypotheses : List Term) :
    (⟨hypotheses, []⟩ : Query).text = "P(" ++ Term.listText hypotheses ++ ")" := by
  apply String.toList_inj.1
  simp [text, chars, hasEvidence, Term.listText]

/-- The text of a query with evidence. -/
theorem text_conditional (hypotheses : List Term) (h : evidence ≠ []) :
    (⟨hypotheses, evidence⟩ : Query).text =
      "P(" ++ Term.listText hypotheses ++ "|" ++ Term.listText evidence ++ ")" := by
  apply String.toList_inj.1
  simp [text, chars, hasEvidence, Term.listText, h]

end Query

namespace Network

variable {n : Network} {id : String}

/-- Whether a variable is accepted depends on its check alone. -/
theorem Operation.outcome_newVariable_fst (s : Session) (id : String) (label : Option String) :
    (Operation.outcome s (.newVariable id label)).1 = s.network.checkNew id := by
  show (withoutResult (Network.newVariable id label) s).1 = _
  exact fst_withoutResult_check_bind (fun _ _ => rfl) s

/-- An id that is not defined yet has to be a word, and nothing else. -/
theorem checkNew_of_not_contains (h : n.contains id = false) :
    n.checkNew id = if Text.isWord id.toList then .ok () else .error (.invalidId id) := by
  unfold checkNew
  rw [h]
  cases Text.isWord id.toList with
  | true => rfl
  | false => rfl

/-- Ids and the words of queries are the same language. A text that names no variable yet
is accepted as an id if and only if the scanner makes of it one word, which is the whole
text, and the end; otherwise it is refused as an id. All ids of a network are such words,
so terms of its variables, written as a query, are read as these terms, whatever the
variables are called. -/
theorem Reachable.ids_are_words (h : n.Reachable) :
    (∀ id label notices, n.contains id = false →
      ((Operation.outcome ⟨n, notices⟩ (.newVariable id label)).1 = .ok () ↔
        (tokenize id).map (·.map (·.kind)) = .ok [.word id, .endOfInput]) ∧
      ((tokenize id).map (·.map (·.kind)) ≠ .ok [.word id, .endOfInput] →
        (Operation.outcome ⟨n, notices⟩ (.newVariable id label)).1 = .error (.invalidId id))) ∧
    (∀ id, n.contains id = true →
      (tokenize id).map (·.map (·.kind)) = .ok [.word id, .endOfInput]) ∧
    ∀ hypotheses evidence, hypotheses ≠ [] →
      (∀ t ∈ hypotheses ++ evidence, n.contains t.id = true) →
      n.parseQuery ("P(" ++ Term.listText hypotheses ++ ")") = .ok ⟨hypotheses, []⟩ ∧
      (evidence ≠ [] →
        n.parseQuery ("P(" ++ Term.listText hypotheses ++ "|" ++ Term.listText evidence ++ ")") =
          .ok ⟨hypotheses, evidence⟩) := by
  have hwords := h.legible.words
  refine ⟨?_, ?_, ?_⟩
  · intro id label notices hnew
    have hcheck : n.checkNew id = _ := checkNew_of_not_contains hnew
    rw [Operation.outcome_newVariable_fst, hcheck, Ne, tokenize_eq_word_iff]
    by_cases hword : Text.isWord id.toList = true
    · rw [if_pos hword]
      exact ⟨⟨fun _ => hword, fun _ => rfl⟩, fun hnot => absurd hword hnot⟩
    · rw [if_neg hword]
      exact ⟨⟨nofun, fun h => absurd h hword⟩, fun _ => rfl⟩
  · intro id hid
    exact (tokenize_eq_word_iff id).2 (hwords id hid)
  · intro hypotheses evidence hhypothesis hdefined
    have hread : ∀ q : Query, q.hypotheses ≠ [] → (∀ t ∈ q.terms, n.contains t.id = true) →
        n.parseQuery q.text = .ok q := by
      intro q hq hterms
      exact Query.parse_text_iff.2 ⟨hq, fun t ht => ⟨hwords t.id (hterms t ht), hterms t ht⟩⟩
    constructor
    · rw [← Query.text_unconditional]
      refine hread ⟨hypotheses, []⟩ hhypothesis fun t ht => hdefined t ?_
      simpa [Query.terms] using Or.inl ht
    · intro hevidence
      rw [← Query.text_conditional hypotheses hevidence]
      exact hread ⟨hypotheses, evidence⟩ hhypothesis hdefined

/-- Two variables that are called like the letter in front of a query. -/
def letters : Network :=
  (Operation.run [.newVariable "P" none, .newVariable "p" none] ⟨empty, []⟩).network

theorem letters_ids_are_words :
    letters.Reachable ∧
      (∀ t ∈ ([⟨"P", false⟩, ⟨"p", true⟩] ++ [⟨"P", true⟩] : List Term),
        letters.contains t.id = true) ∧
      letters.parseQuery "P(~P,p|P)" = .ok ⟨[⟨"P", false⟩, ⟨"p", true⟩], [⟨"P", true⟩]⟩ ∧
      letters.contains " p" = false ∧
      (Operation.outcome ⟨letters, []⟩ (.newVariable " p" none)).1 = .error (.invalidId " p") := by
  have hreachable : letters.Reachable := ⟨_, rfl⟩
  have hdefined : ∀ t ∈ ([⟨"P", false⟩, ⟨"p", true⟩] ++ [⟨"P", true⟩] : List Term),
      letters.contains t.id = true := by
    decide +kernel
  have hnew : letters.contains " p" = false := by decide +kernel
  obtain ⟨haccepted, -, hread⟩ := hreachable.ids_are_words
  obtain ⟨-, hquery⟩ := hread _ _ (by simp) hdefined
  obtain ⟨-, hrefused⟩ := haccepted " p" none [] hnew
  refine ⟨hreachable, hdefined, hquery (by simp), hnew, hrefused ?_⟩
  rw [Ne, tokenize_eq_word_iff]
  decide +kernel

end Network

end BeliefNet
