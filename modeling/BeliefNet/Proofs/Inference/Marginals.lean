import Mathlib
import BeliefNet.Marginals
import BeliefNet.Proofs.Inference.Answer
import BeliefNet.Proofs.Network.Evidence
import BeliefNet.Proofs.Query.RoundTrip

/-!
# Marginals as queries

The probability of a variable given the evidence is computed without a text, but it
could be asked for in one: `Network.marginalText` names the variable and the evidence,
and in every network that operations can build it is read as the query that is answered
(`Legible.parseQuery_marginalText`). So the two agree, also in their errors
(`Reachable.marginals_eq_queries`).

The table of the marginals stops at the first variable without a probability
(`mapM_eq_ok_iff`, `mapM_eq_error_iff`).
-/

namespace BeliefNet

/-! ## Computations for all members of a list -/

section ListM

variable {α β : Type} {f : α → Except Error β} {as : List α} {bs : List β} {e : Error}

/-- All computations succeed if each of them does. -/
theorem mapM_eq_ok_iff : as.mapM f = .ok bs ↔ List.Forall₂ (fun a b => f a = .ok b) as bs := by
  induction as generalizing bs with
  | nil =>
    rw [List.mapM_nil, List.forall₂_nil_left_iff]
    exact ⟨fun h => by cases h; rfl, fun h => by rw [h]; rfl⟩
  | cons a as ih =>
    rw [List.mapM_cons, bind_eq_ok_iff, List.forall₂_cons_left_iff]
    constructor
    · rintro ⟨b, hb, h⟩
      obtain ⟨rest, hrest, h⟩ := bind_eq_ok_iff.1 h
      cases h
      exact ⟨b, rest, hb, ih.1 hrest, rfl⟩
    · rintro ⟨b, rest, hb, hrest, rfl⟩
      exact ⟨b, hb, bind_eq_ok_iff.2 ⟨rest, ih.2 hrest, rfl⟩⟩

theorem exists_mapM_eq_ok_iff : (∃ bs, as.mapM f = .ok bs) ↔ ∀ a ∈ as, ∃ b, f a = .ok b := by
  simp only [mapM_eq_ok_iff]
  induction as with
  | nil => exact ⟨fun _ => nofun, fun _ => ⟨[], .nil⟩⟩
  | cons a as ih =>
    rw [List.forall_mem_cons, ← ih]
    constructor
    · rintro ⟨bs, h⟩
      obtain ⟨b, rest, hb, hrest, -⟩ := List.forall₂_cons_left_iff.1 h
      exact ⟨⟨b, hb⟩, rest, hrest⟩
    · rintro ⟨⟨b, hb⟩, rest, hrest⟩
      exact ⟨b :: rest, .cons hb hrest⟩

/-- The first one that fails gives the error. -/
theorem mapM_eq_error_iff :
    as.mapM f = .error e ↔
      ∃ before a after, as = before ++ a :: after ∧ (∀ b ∈ before, ∃ c, f b = .ok c) ∧
        f a = .error e := by
  induction as with
  | nil => simp [pure, Except.pure]
  | cons a as ih =>
    rw [List.mapM_cons, bind_eq_error_iff]
    constructor
    · rintro (hfirst | ⟨b, hb, h⟩)
      · exact ⟨[], a, as, rfl, nofun, hfirst⟩
      · rcases bind_eq_error_iff.1 h with hrest | ⟨_, -, hnone⟩
        · obtain ⟨before, x, after, rfl, hbefore, hx⟩ := ih.1 hrest
          exact ⟨a :: before, x, after, rfl, List.forall_mem_cons.2 ⟨⟨b, hb⟩, hbefore⟩, hx⟩
        · cases hnone
    · rintro ⟨before, x, after, hsplit, hbefore, hx⟩
      cases before with
      | nil =>
        obtain ⟨rfl, rfl⟩ := List.cons.inj hsplit
        exact .inl hx
      | cons first before =>
        obtain ⟨rfl, rfl⟩ := List.cons.inj hsplit
        obtain ⟨⟨b, hb⟩, hbefore⟩ := List.forall_mem_cons.1 hbefore
        exact .inr ⟨b, hb, bind_eq_error_iff.2 (.inl (ih.2 ⟨before, x, after, rfl, hbefore, hx⟩))⟩

/-- A fold that fails has a step that does. -/
theorem exists_step_of_foldlM_eq_error {step : β → α → Except Error β} {b : β}
    (h : as.foldlM step b = .error e) : ∃ a ∈ as, ∃ b, step b a = .error e := by
  induction as generalizing b with
  | nil => cases h
  | cons a as ih =>
    rw [List.foldlM_cons] at h
    rcases bind_eq_error_iff.1 h with hfirst | ⟨next, -, hrest⟩
    · exact ⟨a, List.mem_cons_self, b, hfirst⟩
    · obtain ⟨a', hmem, hstep⟩ := ih hrest
      exact ⟨a', List.mem_cons_of_mem a hmem, hstep⟩

end ListM

namespace Network

variable {n : Network} {id : String}

/-! ## The text of a marginal -/

/-- The evidence with commas between its terms, a tilde before what is false. -/
def evidenceText (n : Network) : String :=
  ",".intercalate (n.evidence.map fun t => if t.value then t.id else "~" ++ t.id)

/-- The query for the probability of a variable given the evidence. -/
def marginalText (n : Network) (id : String) : String :=
  if n.evidence.isEmpty then "P(" ++ id ++ ")" else "P(" ++ id ++ "|" ++ n.evidenceText ++ ")"

theorem evidenceText_eq (n : Network) : n.evidenceText = Term.listText n.evidence := by
  have hterm : ∀ t : Term,
      (if t.value then t.id else "~" ++ t.id).toList = t.chars := by
    intro t
    unfold Term.chars
    split
    · rfl
    · rw [String.toList_append]
      rfl
  rw [← String.toList_inj, evidenceText, Term.listText, Term.listChars, String.toList_ofList,
    String.toList_intercalate, List.map_map]
  simp only [Function.comp_def, hterm]
  rfl

/-- It is the text of the query that is answered. -/
theorem marginalText_eq (n : Network) (id : String) :
    n.marginalText id = Query.text ⟨[⟨id, true⟩], n.evidence⟩ := by
  rw [← String.toList_inj, marginalText, evidenceText_eq, Query.text, String.toList_ofList,
    Query.chars, Term.listChars_singleton]
  cases hevidence : n.evidence with
  | nil => simp [Query.hasEvidence, Term.chars, String.toList_append]
  | cons t terms =>
    simp [Query.hasEvidence, Term.chars, Term.listText, String.toList_append]

theorem Legible.asks (h : n.Legible) (hid : n.contains id = true) :
    n.Asks ⟨[⟨id, true⟩], n.evidence⟩ := by
  refine ⟨List.cons_ne_nil _ _, fun t ht => ?_⟩
  rcases List.mem_cons.1 ht with rfl | hevidence
  · exact hid
  · exact h.observed t hevidence

/-- A variable and the evidence can be read from the text. -/
theorem Legible.parseQuery_marginalText (h : n.Legible) (hid : n.contains id = true) :
    n.parseQuery (n.marginalText id) = .ok ⟨[⟨id, true⟩], n.evidence⟩ := by
  have hasks := h.asks hid
  rw [parseQuery, marginalText_eq, Query.parse_text_iff]
  exact ⟨hasks.hypothesis, fun t ht => ⟨h.words t.id (hasks.defined t ht), hasks.defined t ht⟩⟩

/-- One computation is the other: both look for an incomplete table first, and then
answer the same query. -/
theorem Legible.probability_eq (h : n.Legible) (hid : n.contains id = true) :
    n.probability id = n.queryDouble (n.marginalText id) := by
  obtain ⟨v, hv⟩ := exists_require hid
  unfold probability queryDouble query
  rw [hv, h.parseQuery_marginalText hid]
  cases n.checkReady with
  | error e => rfl
  | ok _ =>
    simp only [bind, Except.bind]
    cases n.infer ⟨[⟨id, true⟩], n.evidence⟩ with
    | error e => rfl
    | ok p => rfl

/-! ## Evidence that is refused -/

theorem kind_of_checkReady {e : Error} (h : n.checkReady = .error e) :
    e.kind ≠ .impossibleEvidence := by
  unfold checkReady at h
  split at h
  · cases h
    nofun
  · cases h

theorem kind_of_entry {f : Filter} {v : Variable} {e : Error} (h : entry f v = .error e) :
    e.kind ≠ .impossibleEvidence := by
  unfold entry at h
  split at h
  · split at h
    · cases h
    · cases h
      nofun
  · cases h
    nofun

theorem kind_of_productFrom {f : Filter} {product : Probability} {nodes : List Variable}
    {e : Error} (h : productFrom f product nodes = .error e) : e.kind ≠ .impossibleEvidence := by
  induction nodes generalizing product with
  | nil => cases h
  | cons v nodes ih =>
    unfold productFrom at h
    rcases bind_eq_error_iff.1 h with hentry | ⟨d, -, h⟩
    · exact kind_of_entry hentry
    · dsimp only at h
      split at h
      · cases h
        nofun
      · split at h
        · cases h
        · exact ih h

/-- A joint probability fails for other reasons than the evidence. -/
theorem kind_of_joint {fixed : List Term} {e : Error} (h : n.joint fixed = .error e) :
    e.kind ≠ .impossibleEvidence := by
  unfold joint at h
  rcases bind_eq_error_iff.1 h with hready | ⟨_, -, h⟩
  · exact kind_of_checkReady hready
  dsimp only at h
  split at h
  · cases h
  split at h
  · cases h
    nofun
  obtain ⟨completion, -, total, h⟩ := exists_step_of_foldlM_eq_error h
  rcases bind_eq_error_iff.1 h with hfilter | ⟨f, -, h⟩
  · unfold Filter.ofTerms at hfilter
    split at hfilter
    · cases hfilter
      nofun
    · cases hfilter
  rcases bind_eq_error_iff.1 h with hproduct | ⟨term, -, h⟩
  · exact kind_of_productFrom hproduct
  · split at h
    · cases h
    · cases h
      nofun

/-- Evidence is refused with the query that is answered. -/
theorem eq_of_infer_eq_error {q : Query} {e : Error} (hq : n.Asks q) (h : n.infer q = .error e)
    (hkind : e.kind = .impossibleEvidence) : e = .impossibleEvidence q := by
  by_cases hconsistent : Term.Consistent q.terms
  · by_cases hnone : q.evidence = []
    · rw [infer_of_evidence_nil hq hconsistent hnone] at h
      cases hjoint : n.joint (Term.merged q.terms) with
      | error e' =>
        rw [hjoint] at h
        cases h
        exact absurd hkind (kind_of_joint hjoint)
      | ok p =>
        rw [hjoint] at h
        cases h
    · rw [infer_of_evidence hq hconsistent hnone] at h
      rcases bind_eq_error_iff.1 h with hnumerator | ⟨numerator, -, h⟩
      · exact absurd hkind (kind_of_joint hnumerator)
      rcases bind_eq_error_iff.1 h with hdenominator | ⟨denominator, -, h⟩
      · exact absurd hkind (kind_of_joint hdenominator)
      unfold answerGiven at h
      split at h
      · cases h
        rfl
      · split at h
        · cases h
        · cases h
          cases hkind
  · rw [infer_of_not_consistent hq hconsistent] at h
    cases h

/-- The message quotes the text of the marginal. -/
theorem Legible.message_of_impossible {e : Error} (h : n.Legible) (hid : n.contains id = true)
    (he : n.probability id = .error e) (hkind : e.kind = .impossibleEvidence) :
    e.message = "Evidence has zero probability: " ++ n.marginalText id := by
  unfold probability at he
  rcases bind_eq_error_iff.1 he with hrequire | ⟨_, -, he⟩
  · obtain ⟨v, hv⟩ := exists_require hid
    rw [hv] at hrequire
    cases hrequire
  rcases bind_eq_error_iff.1 he with hready | ⟨_, -, he⟩
  · exact absurd hkind (kind_of_checkReady hready)
  rcases bind_eq_error_iff.1 he with hinfer | ⟨_, -, he⟩
  · rw [eq_of_infer_eq_error (h.asks hid) hinfer hkind, marginalText_eq]
    rfl
  · cases he

/-! ## The table of the marginals -/

/-- The entry of a variable. -/
def marginalOf (n : Network) (v : Variable) : Except Error Marginal :=
  (n.probability v.id).map fun p => ⟨v.id, v.label, p⟩

theorem marginals_eq (n : Network) :
    n.marginals = (n.nodes.mapM n.marginalOf).map fun entries => ⟨n.evidenceText, entries⟩ := by
  have hmarginal : (fun v => do return (⟨v.id, v.label, ← n.probability v.id⟩ : Marginal)) =
      n.marginalOf := by
    funext v
    unfold marginalOf
    cases n.probability v.id with
    | error e => rfl
    | ok p => rfl
  unfold marginals
  rw [hmarginal, evidenceText_eq]
  cases n.nodes.mapM n.marginalOf with
  | error e => rfl
  | ok entries => rfl

theorem marginalOf_eq_ok_iff {v : Variable} {entry : Marginal} :
    n.marginalOf v = .ok entry ↔
      entry.id = v.id ∧ entry.label = v.label ∧ n.probability v.id = .ok entry.probability := by
  unfold marginalOf
  cases n.probability v.id with
  | error e => simp [Except.map]
  | ok p =>
    obtain ⟨id, label, probability⟩ := entry
    simp [Except.map, eq_comm]

theorem exists_marginalOf_iff {v : Variable} :
    (∃ entry, n.marginalOf v = .ok entry) ↔ ∃ p, n.probability v.id = .ok p := by
  simp only [marginalOf_eq_ok_iff]
  constructor
  · rintro ⟨entry, -, -, hp⟩
    exact ⟨_, hp⟩
  · rintro ⟨p, hp⟩
    exact ⟨⟨v.id, v.label, p⟩, rfl, rfl, hp⟩

theorem marginalOf_eq_error_iff {v : Variable} {e : Error} :
    n.marginalOf v = .error e ↔ n.probability v.id = .error e := by
  unfold marginalOf
  cases n.probability v.id with
  | error e => simp [Except.map]
  | ok p => simp [Except.map]

/-- In every network that operations can build, the probability of a variable given the
evidence is the answer to the query that names the variable and the evidence, its terms
in ascending order: the same double, or the same error, which quotes that query where the
evidence is impossible. The marginals are these probabilities in the order of the
variables, with the text of the evidence, if each of them has one; if not, the error is
that of the first variable that has none. -/
theorem Reachable.marginals_eq_queries (h : n.Reachable) :
    n.evidence.Pairwise (·.id < ·.id) ∧
    (∀ id, n.contains id = true → n.probability id = n.queryDouble (n.marginalText id)) ∧
    (∀ id e, n.contains id = true → n.probability id = .error e →
      e.kind = .impossibleEvidence →
      e.message = "Evidence has zero probability: " ++ n.marginalText id) ∧
    ((∃ m, n.marginals = .ok m) ↔ ∀ v ∈ n.nodes, ∃ p, n.probability v.id = .ok p) ∧
    (∀ m, n.marginals = .ok m →
      m.evidence = n.evidenceText ∧
      List.Forall₂ (fun v entry => entry.id = v.id ∧ entry.label = v.label ∧
        n.probability v.id = .ok entry.probability) n.nodes m.entries) ∧
    (∀ e, n.marginals = .error e ↔
      ∃ before v after, n.nodes = before ++ v :: after ∧
        (∀ u ∈ before, ∃ p, n.probability u.id = .ok p) ∧ n.probability v.id = .error e) := by
  have hlegible := h.legible
  refine ⟨hlegible.ascending, fun id hid => hlegible.probability_eq hid,
    fun id e hid he hkind => hlegible.message_of_impossible hid he hkind, ?_, fun m hm => ?_,
    fun e => ?_⟩
  · simp only [← exists_marginalOf_iff, ← exists_mapM_eq_ok_iff, marginals_eq]
    cases n.nodes.mapM n.marginalOf with
    | error e => simp [Except.map]
    | ok entries => simp [Except.map]
  · rw [marginals_eq] at hm
    cases hentries : n.nodes.mapM n.marginalOf with
    | error e =>
      rw [hentries] at hm
      cases hm
    | ok entries =>
      rw [hentries] at hm
      cases hm
      refine ⟨rfl, ?_⟩
      simpa only [marginalOf_eq_ok_iff] using mapM_eq_ok_iff.1 hentries
  · simp only [← exists_marginalOf_iff, ← marginalOf_eq_error_iff, ← mapM_eq_error_iff,
      marginals_eq]
    cases n.nodes.mapM n.marginalOf with
    | error e => simp [Except.map]
    | ok entries => simp [Except.map]

/-- The alarm is heard and there is no fault: each of the two can be asked for. -/
theorem alarm_marginals_eq_queries :
    let heard := (Operation.step ⟨alarm, []⟩ (.setEvidence ⟨"alarm", true⟩)).network
    let n := (Operation.step ⟨heard, []⟩ (.setEvidence ⟨"fault", false⟩)).network
    n.probability "fault" = n.queryDouble "P(fault|alarm,~fault)" ∧
    n.probability "alarm" = n.queryDouble "P(alarm|alarm,~fault)" ∧
    (∃ m, n.marginals = .ok m) := by
  intro heard n
  have hreachable : n.Reachable := (alarm_reachable.step _).step _
  obtain ⟨-, hqueries, -, hmarginals, -⟩ := hreachable.marginals_eq_queries
  have hfault : n.marginalText "fault" = "P(fault|alarm,~fault)" := by decide +kernel
  have halarm : n.marginalText "alarm" = "P(alarm|alarm,~fault)" := by decide +kernel
  rw [← hfault, ← halarm]
  refine ⟨hqueries "fault" (by decide +kernel), hqueries "alarm" (by decide +kernel), ?_⟩
  have hsome : ∀ v ∈ n.nodes, (n.probability v.id).toOption ≠ none := by decide +kernel
  refine hmarginals.2 fun v hv => ?_
  cases hp : n.probability v.id with
  | error e => exact absurd (by rw [hp]; rfl) (hsome v hv)
  | ok p => exact ⟨p, rfl⟩

end Network

end BeliefNet
