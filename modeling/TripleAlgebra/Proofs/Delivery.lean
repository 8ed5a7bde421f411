import TripleAlgebra.Evaluation.Dispatch

/-! Events and solutions that deliver rows and no error, and what operators on events deliver. -/
namespace TripleAlgebra

namespace Event

/-- The items among the events are exactly these rows. -/
inductive Deliver : List Event → List Row → Prop
  | nil : Deliver [] []
  | act {es rows} (a : Act) (h : Deliver es rows) : Deliver (.act a :: es) rows
  | row {es rows} (r : Row) (h : Deliver es rows) : Deliver (.item (.ok r) :: es) (r :: rows)

@[simp] theorem items_item (i : Item) (es : List Event) :
    items (.item i :: es) = i :: items es := rfl

theorem deliver_iff {es : List Event} {rows : List Row} :
    Deliver es rows ↔ items es = rows.map .ok := by
  constructor
  · intro h
    induction h with
    | nil => rfl
    | act a _ ih => exact ih
    | row r _ ih => exact congrArg (Except.ok r :: ·) ih
  · intro h
    induction es generalizing rows with
    | nil =>
      have hr : rows = [] := List.map_eq_nil_iff.mp h.symm
      exact hr ▸ .nil
    | cons e es ih =>
      cases e with
      | act a => exact .act a (ih h)
      | item i =>
        cases rows with
        | nil => simp at h
        | cons r rows =>
          simp only [items_item, List.map_cons, List.cons.injEq] at h
          obtain ⟨rfl, ht⟩ := h
          exact .row r (ih ht)

theorem Deliver.unique {es : List Event} {rows rows' : List Row} (h : Deliver es rows)
    (h' : Deliver es rows') : rows = rows' := by
  induction h generalizing rows' with
  | nil => cases h'; rfl
  | act a _ ih => cases h' with | act _ h' => exact ih h'
  | row r _ ih => cases h' with | row _ h' => rw [ih h']

theorem Deliver.append {es fs : List Event} {rows rows' : List Row} (h : Deliver es rows)
    (h' : Deliver fs rows') : Deliver (es ++ fs) (rows ++ rows') := by
  induction h with
  | nil => exact h'
  | act a _ ih => exact .act a ih
  | row r _ ih => exact .row r ih

theorem deliver_ofRows (rows : List Row) : Deliver (ofRows rows) rows := by
  induction rows with
  | nil => exact .nil
  | cons r rows ih => exact .row r ih

theorem deliver_acts (as : List Act) : Deliver (as.map .act) [] := by
  induction as with
  | nil => exact .nil
  | cons a as ih => exact .act a ih

theorem deliver_ofEffects (es : List Effect) : Deliver (ofEffects es) [] := by
  induction es with
  | nil => exact .nil
  | cons e es ih => exact .act _ ih

theorem Deliver.settle {es : List Event} {rows : List Row} (h : Deliver es rows) :
    Deliver (settle es) rows := by
  induction h with
  | nil => exact .nil
  | act a _ ih => exact (deliver_ofEffects a.effects).append ih
  | row r _ ih => exact .row r ih

theorem Deliver.mapRows (f : Row → Row) {es : List Event} {rows : List Row}
    (h : Deliver es rows) : Deliver (mapRows f es) (rows.map f) := by
  induction h with
  | nil => exact .nil
  | act a _ ih => exact .act a ih
  | row r _ ih => exact .row (f r) ih

theorem Deliver.filterRows (keep : Row → Bool) {es : List Event} {rows : List Row}
    (h : Deliver es rows) : Deliver (filterRows keep es) (rows.filter keep) := by
  induction h with
  | nil => exact .nil
  | act a _ ih => exact .act a ih
  | row r _ ih =>
    by_cases hk : keep r = true
    · simpa [Event.filterRows, hk] using Deliver.row r ih
    · simpa [Event.filterRows, hk] using ih

theorem Deliver.fuse {es : List Event} {rows : List Row} (h : Deliver es rows) :
    Deliver (fuse es) rows := by
  induction h with
  | nil => exact .nil
  | act a _ ih => exact .act a ih
  | row r _ ih => exact .row r ih

theorem Deliver.expand {f : Row → List Event} {g : Row → List Row} {es : List Event}
    {rows : List Row} (h : Deliver es rows) (hf : ∀ r ∈ rows, Deliver (f r) (g r)) :
    Deliver (expand f es) (rows.flatMap g) := by
  induction h with
  | nil => exact .nil
  | act a _ ih => exact .act a (ih hf)
  | row r _ ih =>
    have htail := ih fun r' hr' => hf r' (by simp [hr'])
    exact (hf r (by simp)).append htail

/-- Each row is kept or dropped as a test of it answers. -/
theorem Deliver.expandFilter {f : Row → List Event} {keep : Row → Bool} {es : List Event}
    {rows : List Row} (h : Deliver es rows)
    (hf : ∀ r ∈ rows, Deliver (f r) (if keep r then [r] else [])) :
    Deliver (Event.expand f es) (rows.filter keep) := by
  have hg : rows.filter keep = rows.flatMap fun r => if keep r then [r] else [] := by
    clear h hf
    induction rows with
    | nil => rfl
    | cons r rows ih => cases hk : keep r <;> simp [hk, ih]
  rw [hg]
  exact h.expand hf

theorem Deliver.beforeFirstRow (once : List Effect) {es : List Event} {rows : List Row}
    (h : Deliver es rows) : Deliver (MinusPlan.beforeFirstRow once es) rows := by
  induction h with
  | nil => exact .nil
  | act a _ ih => exact .act a ih
  | row r h _ => exact .act _ (.row r h)

theorem Deliver.demand (n : Nat) {es : List Event} {rows : List Row} (h : Deliver es rows) :
    Deliver (demand n es).1 (rows.take n) := by
  induction h generalizing n with
  | nil => cases n <;> exact .nil
  | act a _ ih =>
    cases n with
    | zero => exact .nil
    | succ n => exact .act a (ih (n + 1))
  | row r _ ih =>
    cases n with
    | zero => exact .nil
    | succ n => exact .row r (ih n)

theorem Deliver.untilError {es : List Event} {rows : List Row} (h : Deliver es rows) :
    Deliver (untilError es).1 rows := by
  induction h with
  | nil => exact .nil
  | act a _ ih => exact .act a ih
  | row r _ ih => exact .row r ih

theorem slice_zero (start : Nat) (es : List Event) : slice start (some 0) es = [] := by
  cases es <;> simp [slice]

theorem slice_act {limit : Option Nat} (h : limit ≠ some 0) (start : Nat) (a : Act)
    (es : List Event) : slice start limit (.act a :: es) = .act a :: slice start limit es := by
  simp [slice, h]

theorem slice_skip {limit : Option Nat} (h : limit ≠ some 0) (start : Nat) (r : Row)
    (es : List Event) : slice (start + 1) limit (.item (.ok r) :: es) = slice start limit es := by
  simp [slice, h]

theorem slice_keep {limit : Option Nat} (h : limit ≠ some 0) (r : Row) (es : List Event) :
    slice 0 limit (.item (.ok r) :: es) =
      .item (.ok r) :: slice 0 (limit.map (· - 1)) es := by
  simp [slice, h]

/-- The rows from a start on, at most as many as the limit says. -/
def sliceRows (start : Nat) (limit : Option Nat) (rows : List Row) : List Row :=
  limit.elim (rows.drop start) fun n => (rows.drop start).take n

theorem Deliver.slice {es : List Event} {rows : List Row} (h : Deliver es rows) (start : Nat)
    (limit : Option Nat) : Deliver (slice start limit es) (sliceRows start limit rows) := by
  by_cases hl : limit = some 0
  · subst hl
    simpa [slice_zero, sliceRows] using Deliver.nil
  induction h generalizing start limit with
  | nil => cases limit <;> simpa [Event.slice, sliceRows] using Deliver.nil
  | act a _ ih =>
    rw [slice_act hl]
    exact .act a (ih start limit hl)
  | row r h ih =>
    cases start with
    | succ start =>
      rw [slice_skip hl]
      simpa [sliceRows] using ih start limit hl
    | zero =>
      rw [slice_keep hl]
      match limit, hl with
      | none, _ => exact .row r (by simpa [sliceRows] using ih 0 none (by simp))
      | some (n + 1), _ =>
        refine .row r ?_
        by_cases hn : n = 0
        · subst hn
          simpa [slice_zero] using Deliver.nil
        · simpa [sliceRows] using ih 0 (some n) (by simpa using hn)

end Event

/-- The rows that a set accepts one after the other. -/
def RowSet.select (s : RowSet) : List Row → List Row
  | [] => []
  | r :: rs =>
    match s.insert r with
    | (true, s) => r :: s.select rs
    | (false, s) => s.select rs

theorem Event.Deliver.distinct {es : List Event} {rows : List Row} (h : Deliver es rows)
    (s : RowSet) : Deliver (distinct s es) (s.select rows) := by
  induction h generalizing s with
  | nil => exact .nil
  | act a _ ih => exact .act a (ih s)
  | row r _ ih =>
    simp only [Event.distinct, RowSet.select]
    obtain ⟨accepted, s'⟩ := s.insert r
    cases accepted
    · exact ih s'
    · exact .row r (ih s')

/-- The solutions have the header, and their next consumption delivers exactly the rows. -/
structure Solutions.Yields (s : Solutions) (header : List Variable) (rows : List Row) : Prop where
  header_eq : s.header = header
  memo_eq : s.memo = none
  deliver : Event.Deliver s.run.events rows

namespace Solutions
variable {s : Solutions} {header : List Variable} {rows : List Row}

theorem Yields.started (h : s.Yields header rows) : Event.Deliver s.run.started rows :=
  (Event.deliver_acts s.run.opening).append h.deliver

theorem Yields.unique {rows' : List Row} (h : s.Yields header rows) (h' : s.Yields header rows') :
    rows = rows' := h.deliver.unique h'.deliver

theorem yields_ofRows (header : List Variable) (rows : List Row) :
    (ofRows header rows).Yields header rows := ⟨rfl, rfl, Event.deliver_ofRows rows⟩

theorem collect_ok (rows : List Row) : Event.collect (rows.map .ok) = .ok rows := by
  induction rows with
  | nil => rfl
  | cons r rows ih => simp [Event.collect, ih, Except.map]

/-- Gathering succeeds with the rows. -/
theorem Yields.gather (h : s.Yields header rows) : s.gather.value = .ok rows := by
  have hitems := Event.deliver_iff.mp h.deliver
  have hdone := Event.deliver_iff.mp h.deliver.untilError
  have hok : (rows.map (Except.ok : Row → Item)).filterMap Except.toOption = rows := by
    simp [List.filterMap_map, Function.comp_def, Except.toOption]
  cases hs : s.source <;>
    simp [Solutions.gather, known, h.memo_eq, hs, hitems, hdone, hok, collect_ok]

/-- The answer to whether there is a row. -/
theorem Yields.firstRow (h : s.Yields header rows) :
    (MinusPlan.firstRow s).2 = .ok (!rows.isEmpty) ∧ Event.Deliver (MinusPlan.firstRow s).1 [] := by
  have hitems := Event.deliver_iff.mp (h.started.demand 1)
  refine ⟨?_, Event.deliver_ofEffects _⟩
  cases rows <;> simp [MinusPlan.firstRow, hitems]

end Solutions

namespace Attempt

/-- The step succeeds with solutions that yield the rows under the header. -/
def Yields (x : Attempt Solutions) (header : List Variable) (rows : List Row) : Prop :=
  ∃ s, x.outcome = .ok s ∧ s.Yields header rows

variable {α β : Type} {x : Attempt Solutions} {header : List Variable} {rows : List Row}

theorem outcome_bind {x : Attempt α} {f : α → Attempt β} {a : α} (h : x.outcome = .ok a) :
    (x >>= f).outcome = (f a).outcome := by
  rw [bind_of_ok h]

theorem Yields.bind {f : Solutions → Attempt Solutions} {header' : List Variable}
    {rows' : List Row} (h : x.Yields header rows)
    (hf : ∀ s, s.Yields header rows → (f s).Yields header' rows') :
    (x >>= f).Yields header' rows' := by
  obtain ⟨s, hs, hy⟩ := h
  obtain ⟨t, ht, hy'⟩ := hf s hy
  exact ⟨t, (outcome_bind hs).trans ht, hy'⟩

theorem yields_pure {s : Solutions} (h : s.Yields header rows) :
    (Pure.pure s : Attempt Solutions).Yields header rows := ⟨s, rfl, h⟩

theorem Yields.unique {rows' : List Row} (h : x.Yields header rows) (h' : x.Yields header rows') :
    rows = rows' := by
  obtain ⟨s, hs, hy⟩ := h
  obtain ⟨t, ht, hy'⟩ := h'
  cases Except.ok.inj (hs.symm.trans ht)
  exact hy.unique hy'

end Attempt

/-- Delivery in either mode keeps the items. -/
theorem Solutions.yields_deliver (m : Mode) (header : List Variable) (hot : Bool) {r : Run}
    {rows : List Row} (h : Event.Deliver r.events rows) :
    (deliver m header hot r).Yields header rows := by
  cases m <;> cases hot <;> exact ⟨_, rfl, rfl, rfl, h⟩

end TripleAlgebra
