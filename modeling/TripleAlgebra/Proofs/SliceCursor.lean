import Mathlib.Data.Seq.Basic
import TripleAlgebra.Solutions.Event

/-! A cursor over a slice of a sequence, which may go on for ever: what it delivers, and how often it
asks for an item. -/
namespace TripleAlgebra
open Stream' (Seq)

namespace Items

/-- The rows before the first error without the first ones, and then the error, up to the limit. -/
def sliced (start : Nat) (limit : Option Nat) (is : List Item) : List Item :=
  let rest := (is.takeWhile (·.isOk)).drop start ++ (is.dropWhile (·.isOk)).take 1
  limit.elim rest rest.take

variable {start : Nat} {limit : Option Nat} {is : List Item}

@[simp] theorem sliced_nil : sliced start limit [] = [] := by
  cases limit <;> simp [sliced]

@[simp] theorem sliced_zero : sliced start (some 0) is = [] := by simp [sliced]

theorem sliced_error (h : limit ≠ some 0) (e : Problem) :
    sliced start limit (.error e :: is) = [.error e] := by
  match limit, h with
  | none, _ => simp [sliced, Except.isOk, Except.toBool]
  | some (l + 1), _ => simp [sliced, Except.isOk, Except.toBool]

@[simp] theorem sliced_skip (r : Row) :
    sliced (start + 1) limit (.ok r :: is) = sliced start limit is := rfl

theorem sliced_keep (h : limit ≠ some 0) (r : Row) :
    sliced 0 limit (.ok r :: is) = .ok r :: sliced 0 (limit.map (· - 1)) is := by
  match limit, h with
  | none, _ => rfl
  | some (l + 1), _ => rfl

/-- Rows that are all skipped. -/
theorem sliced_rows (rows : List Row) (h : rows.length ≤ start) :
    sliced start limit (rows.map .ok ++ is) = sliced (start - rows.length) limit is := by
  induction rows generalizing start with
  | nil => rfl
  | cons r rows ih =>
    cases start with
    | zero => simp at h
    | succ start =>
      rw [List.map_cons, List.cons_append, sliced_skip, ih (Nat.le_of_succ_le_succ h),
        List.length_cons, Nat.add_sub_add_right]

end Items

/-- The rows still to be skipped and, if there is a limit, the rows still to be kept. -/
structure SliceCounters where
  offset : Nat
  limit : Option Nat

namespace SliceCounters

def exhausted (p : SliceCounters) : Bool := p.limit = some 0

/-- A counter at zero cannot be decremented. -/
def decrement : Nat → Option Nat
  | 0 => none
  | n + 1 => some n

/-- What becomes of the next item, which may be skipped. There is no answer if a counter would fall
below zero. Errors are neither skipped nor counted. -/
def judge (p : SliceCounters) : Item → Option (Option Item × SliceCounters)
  | .error e => some (some (.error e), p)
  | .ok r =>
    if 0 < p.offset then (decrement p.offset).map fun offset => (none, { p with offset })
    else
      match p.limit with
      | none => some (some (.ok r), p)
      | some l => (decrement l).map fun l => (some (.ok r), { p with limit := some l })

theorem offset_lt_of_judge {p q : SliceCounters} {i : Item} (h : p.judge i = some (none, q)) :
    q.offset < p.offset := by
  obtain ⟨offset, limit⟩ := p
  cases i with
  | error e => cases h
  | ok r =>
    cases offset with
    | zero =>
      cases limit with
      | none => cases h
      | some l => cases l <;> cases h
    | succ offset =>
      cases h
      exact Nat.lt_succ_self offset

end SliceCounters

/-- A slice of a sequence, and how often the sequence has been asked for an item. -/
structure SliceIter where
  inner : Seq Item
  counters : SliceCounters
  asked : Nat := 0

namespace SliceIter

/-- The next item, if there is one. The sequence is not asked once the limit is reached. -/
def next (c : SliceIter) : Option (Option Item × SliceIter) :=
  if c.counters.exhausted then some (none, c)
  else
    match c.inner.destruct with
    | none => some (none, { c with asked := c.asked + 1 })
    | some (i, inner) =>
      match h : c.counters.judge i with
      | none => none
      | some (some i, counters) => some (some i, ⟨inner, counters, c.asked + 1⟩)
      | some (none, counters) => next ⟨inner, counters, c.asked + 1⟩
termination_by c.counters.offset
decreasing_by exact SliceCounters.offset_lt_of_judge h

/-- A sequence that begins with these rows. -/
def rowsThen (rows : List Row) (inner : Seq Item) : Seq Item :=
  (Seq.ofList (rows.map .ok)).append inner

/-- What a demand does: it reaches the end, an error or a row that is kept, and skips rows on its way
there. -/
inductive Demands : SliceIter → Option Item → SliceIter → Prop
  | exhausted {inner : Seq Item} {offset asked : Nat} :
    Demands ⟨inner, ⟨offset, some 0⟩, asked⟩ none ⟨inner, ⟨offset, some 0⟩, asked⟩
  | ended {offset asked : Nat} {limit : Option Nat} (hl : limit ≠ some 0) (rows : List Row)
      (h : rows.length ≤ offset) :
    Demands ⟨rowsThen rows .nil, ⟨offset, limit⟩, asked⟩ none
      ⟨.nil, ⟨offset - rows.length, limit⟩, asked + rows.length + 1⟩
  | failed {offset asked : Nat} {limit : Option Nat} (hl : limit ≠ some 0) (rows : List Row)
      (h : rows.length ≤ offset) (e : Problem) (rest : Seq Item) :
    Demands ⟨rowsThen rows (.cons (.error e) rest), ⟨offset, limit⟩, asked⟩ (some (.error e))
      ⟨rest, ⟨offset - rows.length, limit⟩, asked + rows.length + 1⟩
  | kept {asked : Nat} {limit : Option Nat} (hl : limit ≠ some 0) (rows : List Row) (r : Row)
      (rest : Seq Item) :
    Demands ⟨rowsThen rows (.cons (.ok r) rest), ⟨rows.length, limit⟩, asked⟩ (some (.ok r))
      ⟨rest, ⟨0, limit.map (· - 1)⟩, asked + rows.length + 1⟩

variable {inner : Seq Item} {offset asked : Nat} {limit : Option Nat}

@[simp] theorem rowsThen_nil : rowsThen [] inner = inner := by
  simp [rowsThen]

@[simp] theorem rowsThen_cons (r : Row) (rows : List Row) :
    rowsThen (r :: rows) inner = .cons (.ok r) (rowsThen rows inner) := by
  simp [rowsThen]

theorem take_rowsThen (rows : List Row) (m : Nat) :
    (rowsThen rows inner).take m = (rows.take m).map .ok ++ inner.take (m - rows.length) := by
  induction rows generalizing m with
  | nil => simp
  | cons r rows ih => cases m <;> simp [ih]

theorem next_exhausted : next ⟨inner, ⟨offset, some 0⟩, asked⟩ =
    some (none, ⟨inner, ⟨offset, some 0⟩, asked⟩) := by
  rw [next]
  rfl

theorem next_nil (h : limit ≠ some 0) : next ⟨.nil, ⟨offset, limit⟩, asked⟩ =
    some (none, ⟨.nil, ⟨offset, limit⟩, asked + 1⟩) := by
  rw [next]
  simp [SliceCounters.exhausted, h]

theorem next_error (h : limit ≠ some 0) (e : Problem) :
    next ⟨.cons (.error e) inner, ⟨offset, limit⟩, asked⟩ =
      some (some (.error e), ⟨inner, ⟨offset, limit⟩, asked + 1⟩) := by
  rw [next]
  simp [SliceCounters.exhausted, SliceCounters.judge, h]

theorem next_skip (h : limit ≠ some 0) (r : Row) :
    next ⟨.cons (.ok r) inner, ⟨offset + 1, limit⟩, asked⟩ =
      next ⟨inner, ⟨offset, limit⟩, asked + 1⟩ := by
  rw [next]
  simp [SliceCounters.exhausted, SliceCounters.judge, SliceCounters.decrement, h]

theorem next_keep (h : limit ≠ some 0) (r : Row) :
    next ⟨.cons (.ok r) inner, ⟨0, limit⟩, asked⟩ =
      some (some (.ok r), ⟨inner, ⟨0, limit.map (· - 1)⟩, asked + 1⟩) := by
  rw [next]
  match limit, h with
  | none, _ => simp [SliceCounters.exhausted, SliceCounters.judge]
  | some (l + 1), _ =>
    simp [SliceCounters.exhausted, SliceCounters.judge, SliceCounters.decrement]

theorem Demands.skip {i : Option Item} {c : SliceIter}
    (h : Demands ⟨inner, ⟨offset, limit⟩, asked + 1⟩ i c) (hl : limit ≠ some 0) (r : Row) :
    Demands ⟨.cons (.ok r) inner, ⟨offset + 1, limit⟩, asked⟩ i c := by
  have hasked (rows : List Row) :
      asked + 1 + rows.length + 1 = asked + (r :: rows).length + 1 := by
    rw [List.length_cons]
    omega
  have hoffset (rows : List Row) : offset - rows.length = offset + 1 - (r :: rows).length := by
    rw [List.length_cons, Nat.add_sub_add_right]
  cases h with
  | exhausted => exact absurd rfl hl
  | ended _ rows h =>
    rw [hasked, hoffset, ← rowsThen_cons]
    exact .ended hl (r :: rows) (Nat.succ_le_succ h)
  | failed _ rows h e rest =>
    rw [hasked, hoffset, ← rowsThen_cons]
    exact .failed hl (r :: rows) (Nat.succ_le_succ h) e rest
  | kept _ rows r' rest =>
    rw [hasked, ← rowsThen_cons]
    exact .kept hl (r :: rows) r' rest

theorem Demands.asked_le {i : Option Item} {c c' : SliceIter} (h : Demands c i c') :
    ∃ k, c'.asked = c.asked + k ∧ k ≤ c.counters.offset + 1 := by
  cases h with
  | exhausted => exact ⟨0, rfl, Nat.zero_le _⟩
  | ended _ rows h => exact ⟨rows.length + 1, Nat.add_assoc _ _ _, Nat.succ_le_succ h⟩
  | failed _ rows h e rest => exact ⟨rows.length + 1, Nat.add_assoc _ _ _, Nat.succ_le_succ h⟩
  | kept _ rows r rest => exact ⟨rows.length + 1, Nat.add_assoc _ _ _, Nat.le_refl _⟩

/-- Each demand is answered, and so no counter underflows. -/
theorem exists_next (c : SliceIter) : ∃ i c', c.next = some (i, c') ∧ Demands c i c' := by
  obtain ⟨inner, ⟨offset, limit⟩, asked⟩ := c
  by_cases hl : limit = some 0
  · subst hl
    exact ⟨none, _, next_exhausted, .exhausted⟩
  induction offset generalizing inner asked with
  | zero =>
    cases inner using Stream'.Seq.recOn with
    | nil => exact ⟨none, _, next_nil hl, by simpa using Demands.ended hl [] (Nat.le_refl 0)⟩
    | cons i rest =>
      cases i with
      | error e =>
        exact ⟨_, _, next_error hl e, by simpa using Demands.failed hl [] (Nat.le_refl 0) e rest⟩
      | ok r => exact ⟨_, _, next_keep hl r, by simpa using Demands.kept hl [] r rest⟩
  | succ offset ih =>
    have hnone : ([] : List Row).length ≤ offset + 1 := Nat.zero_le _
    cases inner using Stream'.Seq.recOn with
    | nil => exact ⟨none, _, next_nil hl, by simpa using Demands.ended hl [] hnone⟩
    | cons i rest =>
      cases i with
      | error e => exact ⟨_, _, next_error hl e, by simpa using Demands.failed hl [] hnone e rest⟩
      | ok r =>
        obtain ⟨i, c', hnext, h⟩ := ih rest (asked + 1)
        exact ⟨i, c', (next_skip hl r).trans hnext, h.skip hl r⟩

end SliceIter

/-- A slice that ends with its first error. It notices the end when it is asked for one more item. -/
structure FusedSlice where
  iter : SliceIter
  failed : Bool := false

namespace FusedSlice

def next (c : FusedSlice) : Option (Option Item × FusedSlice) :=
  c.iter.next.map fun
    | (none, iter) => (none, { c with iter })
    | (some i, iter) => if c.failed then (none, { c with iter }) else (some i, ⟨iter, !i.isOk⟩)

/-- The answers to so many demands, of which there are no more after the end. -/
def run (c : FusedSlice) : Nat → Option (List Item × FusedSlice)
  | 0 => some ([], c)
  | n + 1 =>
    match c.next with
    | none => none
    | some (none, c) => some ([], c)
    | some (some i, c) => (c.run n).map fun (is, c) => (i :: is, c)

variable {c c' : SliceIter} {n : Nat}

theorem run_end {failed : Bool} (h : c.next = some (none, c')) :
    run ⟨c, failed⟩ (n + 1) = some ([], ⟨c', failed⟩) := by
  simp [run, next, h]

theorem run_failed {i : Option Item} (h : c.next = some (i, c')) :
    run ⟨c, true⟩ (n + 1) = some ([], ⟨c', true⟩) := by
  cases i <;> simp [run, next, h]

theorem run_item {i : Item} (h : c.next = some (some i, c')) :
    run ⟨c, false⟩ (n + 1) = (run ⟨c', !i.isOk⟩ n).map fun (is, d) => (i :: is, d) := by
  simp [run, next, h]

/-- What so many demands deliver, and how often they ask the sequence. -/
structure Exact (inner : Seq Item) (offset : Nat) (limit : Option Nat) (n : Nat) (is : List Item)
    (asked : Nat) : Prop where
  items : ∀ m, offset + n ≤ m → is = (Items.sliced offset limit (inner.take m)).take n
  nothing : limit = some 0 → asked = 0
  prompt : (∀ i ∈ is.take (n - 1), i.isOk) →
    (∀ i ∈ inner.take (asked - 1), i.isOk) ∧ ∀ l, limit = some l → asked ≤ offset + l
  bounded : ∀ m e, .error e ∈ inner.take (m + 1) → asked ≤ max offset m + 2

theorem isOk_of_mem_rows {rows : List Row} {i : Item} (h : i ∈ rows.map .ok) : i.isOk := by
  obtain ⟨r, -, rfl⟩ := List.mem_map.mp h
  rfl

variable {inner rest : Seq Item} {offset : Nat} {limit : Option Nat} {rows : List Row}

open SliceIter

theorem exact_zero : Exact inner offset limit 0 [] 0 where
  items m _ := rfl
  nothing _ := rfl
  prompt _ := ⟨by simp, by simp⟩
  bounded m e _ := Nat.zero_le _

theorem exact_exhausted : Exact inner offset (some 0) n [] 0 where
  items m _ := by rw [Items.sliced_zero, List.take_nil]
  nothing _ := rfl
  prompt _ := ⟨by simp, by simp⟩
  bounded m e _ := Nat.zero_le _

theorem take_rowsThen_of_le {m : Nat} (h : m ≤ rows.length) :
    (rowsThen rows inner).take m = (rows.take m).map .ok := by
  rw [take_rowsThen, Nat.sub_eq_zero_of_le h, Seq.take_zero, List.append_nil]

theorem take_rowsThen_cons (i : Item) (m : Nat) :
    (rowsThen rows (.cons i rest)).take (rows.length + m + 1) = rows.map .ok ++ i :: rest.take m := by
  have hm : rows.length + m + 1 - rows.length = m + 1 := by omega
  rw [take_rowsThen, hm, Seq.take_succ_cons, List.take_of_length_le (by omega)]

/-- The limit is not reached before a row is kept. -/
theorem length_lt_of_limit (hl : limit ≠ some 0) (h : rows.length ≤ offset) {l : Nat}
    (hlimit : limit = some l) : rows.length + 1 ≤ offset + l := by
  have hpos : l ≠ 0 := fun hzero => hl (hzero ▸ hlimit)
  omega

theorem exact_ended (hl : limit ≠ some 0) (h : rows.length ≤ offset) :
    Exact (rowsThen rows .nil) offset limit (n + 1) [] (rows.length + 1) where
  items m _ := by
    have hlength : (rows.take m).length ≤ offset := (List.length_take_le' m rows).trans h
    rw [take_rowsThen, Seq.take_nil, Items.sliced_rows _ hlength, Items.sliced_nil, List.take_nil]
  nothing h := absurd h hl
  prompt _ := by
    refine ⟨fun i hi => ?_, fun l => length_lt_of_limit hl h⟩
    rw [Nat.add_sub_cancel, take_rowsThen_of_le (Nat.le_refl _)] at hi
    exact isOk_of_mem_rows hi
  bounded m e he := by
    rw [take_rowsThen, Seq.take_nil, List.append_nil] at he
    exact nomatch isOk_of_mem_rows he

/-- Behind an error the slice is asked at most once more, which may skip rows in vain. -/
theorem exact_failed (hl : limit ≠ some 0) (h : rows.length ≤ offset) (e : Problem) {asked : Nat}
    (hlast : n = 0 → asked = rows.length + 1) (hasked : asked ≤ offset + 2) :
    Exact (rowsThen rows (.cons (.error e) rest)) offset limit (n + 1) [.error e] asked where
  items m hm := by
    obtain ⟨k, rfl⟩ : ∃ k, m = rows.length + k + 1 := ⟨m - rows.length - 1, by omega⟩
    rw [take_rowsThen_cons, Items.sliced_rows _ h, Items.sliced_error hl, List.take_succ_cons,
      List.take_nil]
  nothing h := absurd h hl
  prompt hok := by
    cases n with
    | zero =>
      rw [hlast rfl]
      refine ⟨fun i hi => ?_, fun l => length_lt_of_limit hl h⟩
      rw [Nat.add_sub_cancel, take_rowsThen_of_le (Nat.le_refl _)] at hi
      exact isOk_of_mem_rows hi
    | succ n => exact nomatch hok (.error e) (by simp)
  bounded m _ _ := by
    have hmax := Nat.le_max_left offset m
    omega

theorem exact_kept (hl : limit ≠ some 0) (r : Row) {is : List Item} {asked : Nat}
    (h : Exact rest 0 (limit.map (· - 1)) n is asked) :
    Exact (rowsThen rows (.cons (.ok r) rest)) rows.length limit (n + 1) (.ok r :: is)
      (rows.length + 1 + asked) where
  items m hm := by
    obtain ⟨k, rfl⟩ : ∃ k, m = rows.length + k + 1 := ⟨m - rows.length - 1, by omega⟩
    rw [take_rowsThen_cons, Items.sliced_rows _ (Nat.le_refl _), Nat.sub_self,
      Items.sliced_keep hl, List.take_succ_cons, ← h.items k (by omega)]
  nothing h := absurd h hl
  prompt hok := by
    have hbefore : ∀ i ∈ is.take (n - 1), i.isOk := by
      intro i hi
      cases n with
      | zero => simp at hi
      | succ n => exact hok i (List.mem_cons_of_mem _ hi)
    obtain ⟨hrows, hlimit⟩ := h.prompt hbefore
    constructor
    · intro i hi
      cases asked with
      | zero =>
        rw [take_rowsThen_of_le (by omega)] at hi
        exact isOk_of_mem_rows hi
      | succ asked =>
        have hasked : rows.length + 1 + (asked + 1) - 1 = rows.length + asked + 1 := by omega
        rw [hasked, take_rowsThen_cons] at hi
        rcases List.mem_append.mp hi with hi | hi
        · exact isOk_of_mem_rows hi
        · rcases List.mem_cons.mp hi with rfl | hi
          · rfl
          · exact hrows i hi
    · rintro l rfl
      have hpos : l ≠ 0 := fun hzero => hl (congrArg some hzero)
      have hrest := hlimit (l - 1) rfl
      omega
  bounded m e he := by
    by_cases hm : m < rows.length
    · rw [take_rowsThen_of_le hm] at he
      exact nomatch isOk_of_mem_rows he
    · obtain ⟨k, rfl⟩ := Nat.exists_eq_add_of_le (Nat.not_lt.mp hm)
      rw [take_rowsThen_cons] at he
      rcases List.mem_append.mp he with he | he
      · exact nomatch isOk_of_mem_rows he
      · replace he := (List.mem_cons.mp he).resolve_left nofun
        cases k with
        | zero => simp at he
        | succ k =>
          have hbound := h.bounded k e he
          omega

theorem exact_run (inner : Seq Item) (offset : Nat) (limit : Option Nat) (asked n : Nat) :
    ∃ is d k, run ⟨⟨inner, ⟨offset, limit⟩, asked⟩, false⟩ n = some (is, d) ∧
      d.iter.asked = asked + k ∧ Exact inner offset limit n is k := by
  induction n generalizing inner offset limit asked with
  | zero => exact ⟨[], _, 0, rfl, rfl, exact_zero⟩
  | succ n ih =>
    obtain ⟨i, c', hnext, h⟩ := exists_next ⟨inner, ⟨offset, limit⟩, asked⟩
    cases h with
    | exhausted => exact ⟨[], _, 0, run_end hnext, rfl, exact_exhausted⟩
    | ended hl rows h => exact ⟨[], _, _, run_end hnext, Nat.add_assoc _ _ _, exact_ended hl h⟩
    | failed hl rows h e rest =>
      rw [run_item hnext]
      cases n with
      | zero =>
        exact ⟨[.error e], _, rows.length + 1, rfl, Nat.add_assoc _ _ _,
          exact_failed hl h e (fun _ => rfl) (by omega)⟩
      | succ n =>
        obtain ⟨i, c'', hvain, hdemands⟩ :=
          exists_next ⟨rest, ⟨offset - rows.length, limit⟩, asked + rows.length + 1⟩
        obtain ⟨k, hk, hle⟩ := hdemands.asked_le
        have hrun : run ⟨⟨rest, ⟨offset - rows.length, limit⟩, asked + rows.length + 1⟩, true⟩
            (n + 1) = some ([], ⟨c'', true⟩) := run_failed hvain
        refine ⟨[.error e], ⟨c'', true⟩, rows.length + 1 + k, ?_, ?_, ?_⟩
        · exact congrArg (Option.map _) hrun
        · dsimp only at hk ⊢
          omega
        · dsimp only at hle
          exact exact_failed hl h e nofun (by omega)
    | kept hl rows r rest =>
      obtain ⟨is, d, k, hrun, hasked, hexact⟩ :=
        ih rest 0 (limit.map (· - 1)) (asked + rows.length + 1)
      refine ⟨.ok r :: is, d, rows.length + 1 + k, ?_, ?_, exact_kept hl r hexact⟩
      · rw [run_item hnext]
        exact congrArg (Option.map _) hrun
      · omega

end FusedSlice

end TripleAlgebra
