import Mathlib
import BeliefNet.Filter

/-!
# Terms without contradiction

Terms are consistent if they give no variable both values
(`Term.Consistent`). Such terms mean the same however they are collected: what
`merge` keeps has the same members (`exists_merge`), and every variable has the
same last value (`Consistent.last?_congr`), which is what a filter gives it
(`value?_foldl_assign`). Contradicting terms are what `merge` refuses
(`merge_eq_error`).
-/

namespace BeliefNet

namespace Term

variable {terms terms' : List Term} {t u : Term} {id : String}

/-- No variable has both values. -/
def Consistent (terms : List Term) : Prop :=
  ∀ id, ¬(⟨id, true⟩ ∈ terms ∧ ⟨id, false⟩ ∈ terms)

namespace Consistent

theorem value_eq (h : Consistent terms) (ht : t ∈ terms) (hu : u ∈ terms) (hid : t.id = u.id) :
    t.value = u.value := by
  obtain ⟨id, value⟩ := t
  obtain ⟨id', value'⟩ := u
  obtain rfl : id = id' := hid
  cases value with
  | true =>
    cases value' with
    | true => rfl
    | false => exact absurd ⟨ht, hu⟩ (h id)
  | false =>
    cases value' with
    | true => exact absurd ⟨hu, ht⟩ (h id)
    | false => rfl

theorem subset (h : Consistent terms) (hsub : terms' ⊆ terms) : Consistent terms' :=
  fun id hboth => h id ⟨hsub hboth.1, hsub hboth.2⟩

/-- A term about another variable contradicts nothing. -/
theorem insert (h : Consistent terms) (hnew : t.id ∉ terms.map (·.id))
    (hmem : ∀ u, u ∈ terms' → u ∈ terms ∨ u = t) : Consistent terms' := by
  rintro id ⟨htrue, hfalse⟩
  rcases hmem _ htrue with htrue | rfl
  · rcases hmem _ hfalse with hfalse | rfl
    · exact h id ⟨htrue, hfalse⟩
    · exact hnew (List.mem_map.2 ⟨_, htrue, rfl⟩)
  · rcases hmem _ hfalse with hfalse | hfalse
    · exact hnew (List.mem_map.2 ⟨_, hfalse, rfl⟩)
    · cases hfalse

/-- Ids that occur once leave no room for a contradiction. -/
theorem of_nodup (h : (terms.map (·.id)).Nodup) : Consistent terms := by
  rintro id ⟨htrue, hfalse⟩
  have heq := List.inj_on_of_nodup_map h htrue hfalse rfl
  cases heq

end Consistent

theorem consistent_iff :
    Consistent terms ↔ ∀ t ∈ terms, ∀ u ∈ terms, t.id = u.id → t.value = u.value := by
  constructor
  · intro h t ht u hu
    exact h.value_eq ht hu
  · rintro h id ⟨htrue, hfalse⟩
    exact absurd (h _ htrue _ hfalse rfl) (by simp)

instance (terms : List Term) : Decidable (Consistent terms) :=
  decidable_of_iff _ consistent_iff.symm

theorem not_consistent_iff :
    ¬Consistent terms ↔ ∃ t ∈ terms, ∃ u ∈ terms, t.id = u.id ∧ t.value ≠ u.value := by
  rw [consistent_iff]
  push Not
  rfl

/-- The order of the terms does not matter, nor how often they are repeated. -/
theorem consistent_congr (h : ∀ t, t ∈ terms ↔ t ∈ terms') :
    Consistent terms ↔ Consistent terms' := by
  unfold Consistent
  simp only [h]

theorem eq_nil_congr (h : ∀ t, t ∈ terms ↔ t ∈ terms') : terms = [] ↔ terms' = [] := by
  simp only [List.eq_nil_iff_forall_not_mem, h]

/-! ## Looking up -/

theorem value?_eq_none : value? terms id = none ↔ id ∉ terms.map (·.id) := by
  simp [value?]

theorem mem_of_value? {value : Bool} (h : value? terms id = some value) : ⟨id, value⟩ ∈ terms := by
  unfold value? at h
  rw [Option.map_eq_some_iff] at h
  obtain ⟨t, hfind, rfl⟩ := h
  have hid : t.id = id := by simpa using List.find?_some hfind
  rw [← hid]
  exact List.mem_of_find?_eq_some hfind

/-- Looking up an id of consistent terms finds the value they give it. -/
theorem Consistent.value? (h : Consistent terms) (ht : t ∈ terms) :
    value? terms t.id = some t.value := by
  cases hvalue : Term.value? terms t.id with
  | none => exact absurd (List.mem_map_of_mem ht) (value?_eq_none.1 hvalue)
  | some value =>
    have heq : value = t.value := h.value_eq (mem_of_value? hvalue) ht rfl
    rw [heq]

/-! ## Merging -/

/-- What `merge` does with one term. -/
def mergeStep (merged : List Term) (t : Term) : Except String (List Term) :=
  match value? merged t.id with
  | none => .ok (merged ++ [t])
  | some value => if value = t.value then .ok merged else .error t.id

/-- A step keeps the terms consistent, and loses none. -/
theorem mergeStep_of_consistent {merged : List Term} (hnodup : (merged.map (·.id)).Nodup)
    (h : Consistent (merged ++ [t])) :
    ∃ next, mergeStep merged t = .ok next ∧ (next.map (·.id)).Nodup ∧
      ∀ u, u ∈ next ↔ u ∈ merged ∨ u = t := by
  unfold mergeStep
  cases hvalue : value? merged t.id with
  | none =>
    refine ⟨merged ++ [t], rfl, ?_, fun u => by simp⟩
    have hnew := value?_eq_none.1 hvalue
    rw [List.map_append, List.nodup_append]
    refine ⟨hnodup, by simp, ?_⟩
    rintro id hid _ hmem rfl
    rw [List.map_singleton, List.mem_singleton] at hmem
    exact hnew (hmem ▸ hid)
  | some value =>
    have hmem := mem_of_value? hvalue
    have heq : value = t.value :=
      h.value_eq (List.mem_append_left _ hmem) (List.mem_append_right _ (List.mem_singleton_self t))
        rfl
    subst heq
    refine ⟨merged, by simp, hnodup, fun u => ⟨.inl, ?_⟩⟩
    rintro (hu | rfl)
    · exact hu
    · exact hmem

theorem exists_foldlM_mergeStep (merged : List Term) (hnodup : (merged.map (·.id)).Nodup)
    (h : Consistent (merged ++ terms)) :
    ∃ fixed, terms.foldlM mergeStep merged = .ok fixed ∧ (fixed.map (·.id)).Nodup ∧
      ∀ u, u ∈ fixed ↔ u ∈ merged ∨ u ∈ terms := by
  induction terms generalizing merged with
  | nil => exact ⟨merged, rfl, hnodup, fun u => by simp⟩
  | cons t terms ih =>
    obtain ⟨next, hstep, hnodup', hmem⟩ := mergeStep_of_consistent (t := t) hnodup
      (h.subset (List.append_subset.2 ⟨by simp, by simp⟩))
    have hnext : Consistent (next ++ terms) := by
      refine h.subset fun u hu => ?_
      rcases List.mem_append.1 hu with hu | hu
      · rcases (hmem u).1 hu with hu | rfl
        · simp [hu]
        · simp
      · simp [hu]
    obtain ⟨fixed, hfold, hnodup'', hmem'⟩ := ih next hnodup' hnext
    refine ⟨fixed, ?_, hnodup'', fun u => ?_⟩
    · rw [List.foldlM_cons, hstep]
      exact hfold
    · rw [hmem', hmem, List.mem_cons, or_assoc]

/-- Consistent terms are merged into terms with distinct ids and the same
members. -/
theorem exists_merge (h : Consistent terms) :
    ∃ fixed, merge terms = .ok fixed ∧ (fixed.map (·.id)).Nodup ∧ ∀ u, u ∈ fixed ↔ u ∈ terms := by
  obtain ⟨fixed, hfold, hnodup, hmem⟩ := exists_foldlM_mergeStep [] List.nodup_nil h
  exact ⟨fixed, hfold, hnodup, fun u => by simp [hmem]⟩

/-- Contradicting terms end the fold, at the first one that contradicts a term
before it. -/
theorem foldlM_mergeStep_eq_error (merged : List Term) (hnodup : (merged.map (·.id)).Nodup)
    (h : ¬Consistent (merged ++ terms)) :
    ∃ id, terms.foldlM mergeStep merged = .error id := by
  induction terms generalizing merged with
  | nil =>
    rw [List.append_nil] at h
    exact absurd (Consistent.of_nodup hnodup) h
  | cons t terms ih =>
    rw [List.foldlM_cons]
    by_cases hstep : Consistent (merged ++ [t])
    · -- no contradiction so far, so it is still to come
      obtain ⟨next, hok, hnodup', hmem⟩ := mergeStep_of_consistent hnodup hstep
      rw [hok]
      refine ih next hnodup' fun hnext => h (hnext.subset fun u hu => ?_)
      rw [List.mem_append, List.mem_cons] at hu
      rw [List.mem_append, hmem]
      tauto
    · -- the terms before `t` agree with each other, so it contradicts one of them
      refine ⟨t.id, ?_⟩
      obtain ⟨v, hv, w, hw, hid, hvalue⟩ := not_consistent_iff.1 hstep
      have hmerged := Consistent.of_nodup hnodup
      have hother : ∃ u ∈ merged, u.id = t.id ∧ u.value ≠ t.value := by
        rw [List.mem_append, List.mem_singleton] at hv hw
        rcases hv with hv | rfl
        · rcases hw with hw | rfl
          · exact absurd (hmerged.value_eq hv hw hid) hvalue
          · exact ⟨v, hv, hid, hvalue⟩
        · rcases hw with hw | rfl
          · exact ⟨w, hw, hid.symm, hvalue.symm⟩
          · exact absurd rfl hvalue
      obtain ⟨u, hu, huid, huvalue⟩ := hother
      have hlookup := hmerged.value? hu
      rw [huid] at hlookup
      have herror : mergeStep merged t = .error t.id := by
        unfold mergeStep
        rw [hlookup]
        exact if_neg huvalue
      rw [herror]
      rfl

/-- Contradicting terms are refused. -/
theorem merge_eq_error (h : ¬Consistent terms) : ∃ id, merge terms = .error id :=
  foldlM_mergeStep_eq_error [] List.nodup_nil h

theorem foldlM_mergeStep_of_nodup (merged : List Term)
    (h : ((merged ++ terms).map (·.id)).Nodup) :
    terms.foldlM mergeStep merged = .ok (merged ++ terms) := by
  induction terms generalizing merged with
  | nil =>
    rw [List.append_nil]
    rfl
  | cons t terms ih =>
    have hnew : value? merged t.id = none := by
      rw [value?_eq_none]
      intro hmem
      rw [List.map_append, List.nodup_append] at h
      exact h.2.2 _ hmem _ List.mem_cons_self rfl
    have hstep : mergeStep merged t = .ok (merged ++ [t]) := by
      unfold mergeStep
      rw [hnew]
    rw [List.append_cons] at h ⊢
    rw [List.foldlM_cons, hstep]
    exact ih _ h

/-- Terms with distinct ids are kept as they are. -/
theorem merge_of_nodup (h : (terms.map (·.id)).Nodup) : merge terms = .ok terms :=
  foldlM_mergeStep_of_nodup [] h

/-- The terms without repetitions. -/
def merged (terms : List Term) : List Term := (merge terms).toOption.getD []

theorem merge_eq_merged (h : Consistent terms) : merge terms = .ok (merged terms) := by
  obtain ⟨fixed, hmerge, -⟩ := exists_merge h
  unfold merged
  rw [hmerge]
  rfl

theorem mem_merged (h : Consistent terms) (t : Term) : t ∈ merged terms ↔ t ∈ terms := by
  obtain ⟨fixed, hmerge, -, hmem⟩ := exists_merge h
  unfold merged
  rw [hmerge]
  exact hmem t

theorem nodup_merged (h : Consistent terms) : ((merged terms).map (·.id)).Nodup := by
  obtain ⟨fixed, hmerge, hnodup, -⟩ := exists_merge h
  unfold merged
  rw [hmerge]
  exact hnodup

/-- There is nothing to drop a second time. -/
theorem merged_merged (h : Consistent terms) : merged (merged terms) = merged terms := by
  have hmerge := merge_of_nodup (nodup_merged h)
  unfold merged at hmerge ⊢
  rw [hmerge]
  rfl

theorem merged_eq_nil_iff (h : Consistent terms) : merged terms = [] ↔ terms = [] :=
  eq_nil_congr (mem_merged h)

theorem consistent_merged (h : Consistent terms) : Consistent (merged terms) :=
  .of_nodup (nodup_merged h)

/-! ## Assigning -/

theorem value?_assign (terms : List Term) (t : Term) (id : String) :
    value? (assign terms t) id = if t.id = id then some t.value else value? terms id := by
  induction terms with
  | nil =>
    by_cases hid : t.id = id
    · simp [assign, value?, hid]
    · simp [assign, value?, hid]
  | cons u terms ih =>
    unfold assign
    by_cases hu : u.id = t.id
    · rw [if_pos hu]
      by_cases hid : t.id = id
      · simp [value?, hid]
      · simp [value?, hid, hu]
    · rw [if_neg hu]
      by_cases hid : u.id = id
      · have : t.id ≠ id := fun h => hu (hid.trans h.symm)
        simp [value?, hid, this]
      · unfold value? at ih ⊢
        simp [hid, ih]

/-! ## The last value -/

/-- The value of the last term for an id. -/
def last? (terms : List Term) (id : String) : Option Bool := value? terms.reverse id

theorem last?_append (terms terms' : List Term) (id : String) :
    last? (terms ++ terms') id = (last? terms' id).or (last? terms id) := by
  unfold last? value?
  rw [List.reverse_append, List.find?_append, Option.map_or]

theorem last?_eq_none : last? terms id = none ↔ id ∉ terms.map (·.id) := by
  unfold last?
  rw [value?_eq_none, List.map_reverse, List.mem_reverse]

/-- A term that no later one is about leaves its value, and nothing else. -/
theorem last?_append_cons (ht : t.id ∉ terms'.map (·.id)) (terms : List Term) (id : String) :
    last? (terms ++ t :: terms') id =
      if t.id = id then some t.value else last? (terms ++ terms') id := by
  have hsingle : last? [t] id = if t.id = id then some t.value else none := by
    by_cases hid : t.id = id
    · simp [last?, value?, hid]
    · simp [last?, value?, hid]
  rw [List.append_cons, last?_append, last?_append, last?_append, hsingle]
  by_cases hid : t.id = id
  · subst hid
    simp [last?_eq_none.2 ht]
  · simp [hid]

/-- Assigning terms one after another leaves the last value of each id. -/
theorem value?_foldl_assign (merged terms : List Term) (id : String) :
    value? (terms.foldl assign merged) id = (last? terms id).or (value? merged id) := by
  induction terms using List.reverseRecOn with
  | nil => rfl
  | append_singleton terms t ih =>
    rw [List.foldl_concat, value?_assign, ih, last?_append_cons List.not_mem_nil, List.append_nil]
    split
    · rfl
    · rfl

theorem value?_foldl_assign_nil (terms : List Term) (id : String) :
    value? (terms.foldl assign []) id = last? terms id := by
  rw [value?_foldl_assign]
  exact Option.or_none

/-- The last value of an id of consistent terms is the one they give it. -/
theorem Consistent.last? (h : Consistent terms) (ht : t ∈ terms) :
    last? terms t.id = some t.value :=
  (h.subset fun _ hu => List.mem_reverse.1 hu).value? (List.mem_reverse.2 ht)

/-- The last values of consistent terms depend on what the terms are, not on how
they are listed. -/
theorem Consistent.last?_congr (h : Consistent terms) (hmem : ∀ t, t ∈ terms' ↔ t ∈ terms)
    (id : String) : Term.last? terms' id = Term.last? terms id := by
  have h' : Consistent terms' := (consistent_congr hmem).2 h
  by_cases hid : id ∈ terms.map (·.id)
  · obtain ⟨t, ht, rfl⟩ := List.mem_map.1 hid
    rw [h.last? ht, h'.last? ((hmem t).2 ht)]
  · have hid' : id ∉ terms'.map (·.id) := by
      intro hoccurs
      obtain ⟨t, ht, rfl⟩ := List.mem_map.1 hoccurs
      exact hid (List.mem_map_of_mem ((hmem t).1 ht))
    rw [last?_eq_none.2 hid, last?_eq_none.2 hid']

end Term

end BeliefNet
