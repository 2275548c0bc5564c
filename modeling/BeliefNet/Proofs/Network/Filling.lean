import Mathlib
import BeliefNet.Proofs.Network.History

/-!
# Filling rows

A call that fills a row succeeds if and only if its expression is that of a row
and its entry is a probability (`Operation.putDecimal_ok_iff` and its relatives).
What is in the tables makes no difference, nor does the order of the parents
(`Network.SameShape`). So calls that fill rows can be made in any order, with
their expressions in other words (`Operation.Rewritten`): they succeed together
(`Operation.succeed_rewritten`), and what is done is what each of them does
(`Operation.history_of_succeed`).
-/

namespace BeliefNet

/-- A double that can be put is put as a decimal. -/
theorem Table.put_eq {entry : Binary64} {decimal : Decimal} (hunit : entry.InUnit)
    (hdecimal : Decimal.parse? entry.text = some decimal) (t : Table) (e : Expression) :
    t.put e entry = t.putDecimal e decimal := by
  unfold Table.put
  rw [if_pos hunit, hdecimal]

namespace Network

variable {n n' : Network} {s s' : Session} {id text : String} {e e' : Expression}
  {entry : Decimal}

/-! ## Rows that can be filled -/

/-- The row of an expression can be filled with the entry. -/
structure Fillable (n : Network) (id : String) (e : Expression) (entry : Decimal) : Prop where
  contains : n.contains id = true
  row : e.IsRowOf id (n.parents id)
  inUnit : entry.InUnit

instance : Decidable (n.Fillable id e entry) :=
  decidable_of_iff (n.contains id = true ∧ e.IsRowOf id (n.parents id) ∧ entry.InUnit)
    ⟨fun ⟨hcontains, hrow, hunit⟩ => ⟨hcontains, hrow, hunit⟩,
      fun ⟨hcontains, hrow, hunit⟩ => ⟨hcontains, hrow, hunit⟩⟩

theorem table_of_find? {v : Variable} (h : n.find? id = some v) : n.table id = .ok v.table := by
  unfold table require
  rw [h]
  rfl

/-- Filling a row works whatever the tables hold. -/
theorem WellFormed.fillable_iff (h : n.WellFormed) :
    (∃ t, n.table id >>= (·.putDecimal e entry) = .ok t) ↔ n.Fillable id e entry := by
  constructor
  · rintro ⟨t, ht⟩
    obtain ⟨v, hv, hput⟩ := exists_of_table_bind ht
    obtain ⟨hmem, rfl⟩ := mem_of_find? hv
    obtain ⟨entries, htable, -⟩ := h.paired v hmem
    rw [htable] at hput
    obtain ⟨hunit, hrow⟩ := Table.isRowOf_of_putDecimal hput
    exact ⟨contains_iff.2 (List.mem_map_of_mem hmem), hrow, hunit⟩
  · rintro ⟨hcontains, hrow, hunit⟩
    obtain ⟨v, hv, hmem, rfl, -⟩ := h.exists_unique_find? hcontains
    obtain ⟨entries, htable, -⟩ := h.paired v hmem
    obtain ⟨a, ha, value, hsame⟩ := hrow.exists_same
    rw [table_of_find? hv, htable]
    exact ⟨_, Table.putDecimal_ofEntries (h.nodup_parents v.id) (h.not_mem_parents v.id) ha
      hsame hunit⟩

/-- The networks have the same variables, with the same parents in some order. -/
structure SameShape (n n' : Network) : Prop where
  contains : ∀ id, n.contains id = n'.contains id
  parents : ∀ id, (n.parents id).Perm (n'.parents id)

namespace SameShape

theorem symm (h : SameShape n n') : SameShape n' n where
  contains id := (h.contains id).symm
  parents id := (h.parents id).symm

theorem fillable (h : SameShape n n') (hsame : e.same e' = true) (hfill : n.Fillable id e entry) :
    n'.Fillable id e' entry where
  contains := (h.contains id).symm.trans hfill.contains
  row := hfill.row.congr hsame (h.parents id)
  inUnit := hfill.inUnit

theorem parse_eq (h : SameShape n n') (text : String) : n.parse text = n'.parse text := by
  unfold parse
  rw [funext h.contains]

end SameShape

/-- Filling a row keeps the shape. -/
theorem Effect.sameShape {done : Option Deed} (h : Effect n done n')
    (hfill : ∀ deed, done = some deed → ∃ id e entry, deed = .fill id e entry) :
    SameShape n n' := by
  cases h with
  | kept hnodes hedges =>
    constructor
    · intro id
      unfold contains
      rw [hnodes]
    · intro id
      unfold parents
      rw [hedges]
  | defined hnew =>
    obtain ⟨_, _, _, hdeed⟩ := hfill _ rfl
    cases hdeed
  | linked hedge =>
    obtain ⟨_, _, _, hdeed⟩ := hfill _ rfl
    cases hdeed
  | filled hv ht =>
    constructor
    · intro id
      exact (WellFormed.contains_withTable _ _ _ _).symm
    · intro id
      exact List.Perm.refl _

/-- A row that is named in other words is filled the same. -/
theorem Deed.put?_rewords (hsame : e.same e' = true) (own id : String) (entry : Decimal) :
    Option.Rel Put.Rewords (Deed.put? id (.fill own e entry))
      (Deed.put? id (.fill own e' entry)) := by
  unfold Deed.put?
  by_cases hid : own = id
  · simp only [if_pos hid]
    exact .some ⟨hsame, rfl⟩
  · simp only [if_neg hid]
    exact .none

namespace Operation

/-! ## Calls that fill rows -/

/-- Filling a row succeeds if the table allows it. -/
theorem withoutResult_fillTable (id : String) (f : Table → Except Error Table) (s : Session) :
    (withoutResult (fillTable id f) s).1 = .ok () ↔ ∃ t, s.network.table id >>= f = .ok t := by
  unfold fillTable
  rw [withoutResult_check_bind]
  cases s.network.table id >>= f with
  | error error => simp
  | ok t => exact ⟨fun _ => ⟨t, rfl⟩, fun _ => rfl⟩

theorem putDecimal_ok_iff (h : s.network.WellFormed) :
    ((putDecimal id e entry).outcome s).1 = .ok () ↔ s.network.Fillable id e entry :=
  (withoutResult_fillTable _ _ _).trans h.fillable_iff

theorem putEntry_ok_iff (h : s.network.WellFormed) {entry : Binary64} :
    ((putEntry id e entry).outcome s).1 = .ok () ↔ entry.InUnit ∧
      ∃ decimal, Decimal.parse? entry.text = some decimal ∧ s.network.Fillable id e decimal := by
  refine (withoutResult_fillTable _ _ _).trans ?_
  constructor
  · rintro ⟨t, ht⟩
    obtain ⟨v, hv, hput⟩ := exists_of_table_bind ht
    obtain ⟨decimal, hunit, hdecimal, hput⟩ := exists_of_put hput
    refine ⟨hunit, decimal, hdecimal, h.fillable_iff.1 ⟨t, ?_⟩⟩
    rw [table_of_find? hv]
    exact hput
  · rintro ⟨hunit, decimal, hdecimal, hfill⟩
    obtain ⟨t, ht⟩ := h.fillable_iff.2 hfill
    refine ⟨t, ?_⟩
    simp only [Table.put_eq hunit hdecimal]
    exact ht

theorem put_ok_iff {entry : Binary64} :
    ((put id text entry).outcome s).1 = .ok () ↔ ∃ e, s.network.parse text = .ok e ∧
      ((putEntry id e entry).outcome s).1 = .ok () := by
  show (withoutResult (Network.put id text entry) s).1 = .ok () ↔ _
  unfold Network.put
  rw [withoutResult_check_bind]
  cases s.network.parse text with
  | error error => simp
  | ok e => exact ⟨fun h => ⟨e, rfl, h⟩, fun ⟨_, heq, h⟩ => Except.ok.inj heq ▸ h⟩

/-- The operation fills a row. -/
def isPut : Operation → Bool
  | put .. | putEntry .. | putDecimal .. => true
  | _ => false

theorem deed_of_isPut {op : Operation} (h : op.isPut = true) {deed : Deed}
    (hdeed : op.deed n = some deed) : ∃ id e entry, deed = .fill id e entry := by
  cases op with
  | put id text entry =>
    obtain ⟨e, -, hdeed⟩ := Option.bind_eq_some_iff.1 hdeed
    obtain ⟨decimal, -, rfl⟩ := Option.map_eq_some_iff.1 hdeed
    exact ⟨id, e, decimal, rfl⟩
  | putEntry id e entry =>
    obtain ⟨decimal, -, rfl⟩ := Option.map_eq_some_iff.1 hdeed
    exact ⟨id, e, decimal, rfl⟩
  | putDecimal id e entry => exact ⟨id, e, entry, (Option.some.inj hdeed).symm⟩
  | _ => cases h

theorem sameShape_of_isPut {op : Operation} (h : op.isPut = true) (s : Session) :
    SameShape s.network (op.step s).network :=
  (effect_step s op).sameShape fun _ hdone => deed_of_isPut h (deed_of_done hdone)

theorem deed_congr (h : SameShape n n') (op : Operation) : op.deed n = op.deed n' := by
  cases op with
  | put id text entry => simp only [deed, h.parse_eq]
  | _ => rfl

/-! ## Other orders and other words -/

/-- The same call, with an expression of which the terms may stand in another
order. -/
inductive Rewritten (defined : String → Bool) : Operation → Operation → Prop where
  | put {id text text' : String} {entry : Binary64} {e e' : Expression}
      (htext : Expression.parse defined text = .ok e)
      (htext' : Expression.parse defined text' = .ok e') (hsame : e.same e' = true) :
      Rewritten defined (put id text entry) (put id text' entry)
  | putEntry {id : String} {entry : Binary64} {e e' : Expression} (hsame : e.same e' = true) :
      Rewritten defined (putEntry id e entry) (putEntry id e' entry)
  | putDecimal {id : String} {entry : Decimal} {e e' : Expression} (hsame : e.same e' = true) :
      Rewritten defined (putDecimal id e entry) (putDecimal id e' entry)

namespace Rewritten

variable {op op' : Operation}

theorem isPut {defined : String → Bool} (h : Rewritten defined op op') :
    op.isPut = true ∧ op'.isPut = true := by
  cases h with
  | _ => exact ⟨rfl, rfl⟩

/-- In a network of the same shape the other call succeeds as well. -/
theorem ok (h : Rewritten s.network.contains op op') (hn : s.network.WellFormed)
    (hn' : s'.network.WellFormed) (hshape : SameShape s.network s'.network)
    (hok : (op.outcome s).1 = .ok ()) : (op'.outcome s').1 = .ok () := by
  cases h with
  | @put id text text' entry e e' htext htext' hsame =>
    obtain ⟨e₁, hparse, hput⟩ := put_ok_iff.1 hok
    obtain rfl : e = e₁ := Except.ok.inj (htext.symm.trans hparse)
    obtain ⟨hunit, decimal, hdecimal, hfill⟩ := (putEntry_ok_iff hn).1 hput
    exact put_ok_iff.2 ⟨e', (hshape.parse_eq text').symm.trans htext',
      (putEntry_ok_iff hn').2 ⟨hunit, decimal, hdecimal, hshape.fillable hsame hfill⟩⟩
  | putEntry hsame =>
    obtain ⟨hunit, decimal, hdecimal, hfill⟩ := (putEntry_ok_iff hn).1 hok
    exact (putEntry_ok_iff hn').2 ⟨hunit, decimal, hdecimal, hshape.fillable hsame hfill⟩
  | putDecimal hsame =>
    exact (putDecimal_ok_iff hn').2 (hshape.fillable hsame ((putDecimal_ok_iff hn).1 hok))

/-- A call of which no word is changed. -/
theorem refl_of_ok (h : op.isPut = true) (hok : (op.outcome s).1 = .ok ()) :
    Rewritten s.network.contains op op := by
  cases op with
  | put id text entry =>
    obtain ⟨e, hparse, -⟩ := put_ok_iff.1 hok
    exact .put hparse hparse e.same_refl
  | putEntry id e entry => exact .putEntry e.same_refl
  | putDecimal id e entry => exact .putDecimal e.same_refl
  | _ => cases h

/-- The deeds are for the same row, in the words of either call. -/
theorem deed_rewords (h : Rewritten n.contains op op') (hshape : SameShape n n') (id : String) :
    Option.Rel Put.Rewords ((op.deed n).bind (Deed.put? id))
      ((op'.deed n').bind (Deed.put? id)) := by
  rw [← deed_congr hshape]
  cases h with
  | @put own text text' entry e e' htext htext' hsame =>
    have hparse : n.parse text = .ok e := htext
    have hparse' : n.parse text' = .ok e' := htext'
    simp only [Operation.deed, hparse, hparse']
    cases Decimal.parse? entry.text with
    | none => exact .none
    | some decimal => exact Deed.put?_rewords hsame own id decimal
  | @putEntry own entry e e' hsame =>
    simp only [Operation.deed]
    cases Decimal.parse? entry.text with
    | none => exact .none
    | some decimal => exact Deed.put?_rewords hsame own id decimal
  | @putDecimal own entry e e' hsame => exact Deed.put?_rewords hsame own id entry

/-- Call by call, what is rewritten fills a row, and so does what it is rewritten
to. -/
theorem forall_mem {defined : String → Bool} {ops ops' : List Operation}
    (h : List.Forall₂ (Rewritten defined) ops ops') :
    (∀ op ∈ ops, op.isPut = true) ∧ ∀ op' ∈ ops', ∃ op ∈ ops, Rewritten defined op op' := by
  induction h with
  | nil => simp
  | @cons op op' ops ops' hop _ ih =>
    rw [List.forall_mem_cons, List.forall_mem_cons]
    refine ⟨⟨hop.isPut.1, ih.1⟩, ⟨op, List.mem_cons_self, hop⟩, fun op₂ hop₂ => ?_⟩
    obtain ⟨op₁, hmem, hrewritten⟩ := ih.2 op₂ hop₂
    exact ⟨op₁, List.mem_cons_of_mem op hmem, hrewritten⟩

end Rewritten

/-- Whether a row can be filled depends on the shape of the network. -/
theorem ok_congr {op : Operation} (h : op.isPut = true) (hn : s.network.WellFormed)
    (hn' : s'.network.WellFormed) (hshape : SameShape s.network s'.network) :
    (op.outcome s).1 = .ok () ↔ (op.outcome s').1 = .ok () := by
  constructor
  · intro hok
    exact (Rewritten.refl_of_ok h hok).ok hn hn' hshape hok
  · intro hok
    exact (Rewritten.refl_of_ok h hok).ok hn' hn hshape.symm hok

variable {ops ops' : List Operation}

/-- Rows are filled one after another if each of them can be filled at first. -/
theorem succeed_iff (hn : s.network.WellFormed) (hops : ∀ op ∈ ops, op.isPut = true) :
    Succeed s ops ↔ ∀ op ∈ ops, (op.outcome s).1 = .ok () := by
  induction ops generalizing s with
  | nil => simp [Succeed]
  | cons op ops ih =>
    obtain ⟨hop, hops⟩ := List.forall_mem_cons.1 hops
    have hshape := sameShape_of_isPut hop s
    have hn' : (op.step s).network.WellFormed := hn.change (change_step s op)
    have hlater : (∀ op' ∈ ops, (op'.outcome s).1 = .ok ()) ↔
        ∀ op' ∈ ops, (op'.outcome (op.step s)).1 = .ok () :=
      forall₂_congr fun op' hop' => ok_congr (hops op' hop') hn hn' hshape
    unfold Succeed
    rw [List.forall_mem_cons, ih hn' hops, hlater]

/-- Rows can be filled in any order, and named in other words, also in another
network of the same shape. -/
theorem succeed_rewritten {mid : List Operation} (hn : s.network.WellFormed)
    (hn' : s'.network.WellFormed) (hshape : SameShape s.network s'.network)
    (hperm : ops.Perm mid) (hwords : List.Forall₂ (Rewritten s.network.contains) mid ops')
    (hsucceed : Succeed s ops) : Succeed s' ops' := by
  obtain ⟨hputs, hsource⟩ := Rewritten.forall_mem hwords
  have hok : ∀ op ∈ mid, (op.outcome s).1 = .ok () := fun op hop =>
    (succeed_iff hn fun op hop => hputs op (hperm.mem_iff.1 hop)).1 hsucceed op
      (hperm.mem_iff.2 hop)
  refine (succeed_iff hn' fun op' hop' => ?_).2 fun op' hop' => ?_
  · obtain ⟨op, -, hrewritten⟩ := hsource op' hop'
    exact hrewritten.isPut.2
  · obtain ⟨op, hop, hrewritten⟩ := hsource op' hop'
    exact hrewritten.ok hn hn' hshape (hok op hop)

/-- What is done is what each of the calls does. -/
theorem history_of_succeed (hops : ∀ op ∈ ops, op.isPut = true) (hsucceed : Succeed s ops) :
    history s ops = ops.filterMap fun op => op.deed s.network := by
  induction ops generalizing s with
  | nil => rfl
  | cons op ops ih =>
    obtain ⟨hop, hops⟩ := List.forall_mem_cons.1 hops
    obtain ⟨hok, hrest⟩ := hsucceed
    unfold history
    rw [done_of_ok hok, ih hops hrest]
    simp only [← deed_congr (sameShape_of_isPut hop s)]
    cases hdeed : op.deed s.network with
    | none => rw [List.filterMap_cons_none hdeed]; rfl
    | some deed => rw [List.filterMap_cons_some hdeed]; rfl

theorem fills_history (hops : ∀ op ∈ ops, op.isPut = true) : Deed.Fills (history s ops) := by
  intro deed hdeed
  obtain ⟨op, hop, n, hdeed⟩ := exists_of_mem_history hdeed
  exact deed_of_isPut (hops op hop) hdeed

end Operation

end Network

end BeliefNet
