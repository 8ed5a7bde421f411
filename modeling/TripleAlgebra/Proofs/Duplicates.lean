import Mathlib.Data.List.DropRight
import TripleAlgebra.Proofs.NestedLoops
import TripleAlgebra.Proofs.Restart

/-! Which rows are removed as duplicates. A full window forgets its oldest row before it looks at the
next one, so it compares with one row less than it has room for. -/
namespace TripleAlgebra
open Store

namespace Items

/-- The rows among items. -/
def rows (is : List Item) : List Row := is.filterMap Except.toOption

@[simp] theorem rows_nil : rows [] = [] := rfl

@[simp] theorem rows_append (is js : List Item) : rows (is ++ js) = rows is ++ rows js :=
  List.filterMap_append

@[simp] theorem rows_ok (r : Row) (is : List Item) : rows (.ok r :: is) = r :: rows is := rfl

@[simp] theorem rows_error (e : Problem) (is : List Item) : rows (.error e :: is) = rows is := rfl

@[simp] theorem rows_map_ok (rs : List Row) : rows (rs.map .ok) = rs :=
  Solutions.filterMap_toOption rs

theorem mem_rows {is : List Item} {r : Row} : r ∈ rows is ↔ .ok r ∈ is := by
  induction is with
  | nil => simp
  | cons i is ih => cases i <;> simp [ih]

end Items

namespace DuplicateRule
open Items

/-- The accepted rows that the next row is compared with. -/
def compared : DuplicateRule → List Row → List Row
  | .all, accepted => accepted
  | .window size, accepted => accepted.rtake (size.rows - 1)

theorem compared_subset (rule : DuplicateRule) (accepted : List Row) :
    rule.compared accepted ⊆ accepted := by
  cases rule with
  | all => exact List.Subset.refl _
  | window size => exact List.drop_subset _ _

/-- An error stays, and so does a row that differs from those that it is compared with. -/
def keep (rule : DuplicateRule) (kept : List Item) : Item → List Item
  | .ok r => if (rule.compared (rows kept)).contains r then kept else kept ++ [.ok r]
  | .error e => kept ++ [.error e]

/-- What is kept of items. -/
def kept (rule : DuplicateRule) (is : List Item) : List Item := is.foldl rule.keep []

variable {rule : DuplicateRule}

theorem keep_of_mem {is : List Item} {r : Row} (h : r ∈ rule.compared (rows is)) :
    rule.keep is (.ok r) = is := if_pos (List.contains_iff_mem.mpr h)

theorem keep_of_not_mem {is : List Item} {r : Row} (h : r ∉ rule.compared (rows is)) :
    rule.keep is (.ok r) = is ++ [.ok r] := if_neg (mt List.contains_iff_mem.mp h)

theorem kept_concat (is : List Item) (i : Item) :
    rule.kept (is ++ [i]) = rule.keep (rule.kept is) i := by
  rw [kept, List.foldl_append]
  rfl

theorem kept_sublist (is : List Item) : (rule.kept is).Sublist is := by
  induction is using List.reverseRecOn with
  | nil => exact .slnil
  | append_singleton is i ih =>
    rw [kept_concat]
    cases i with
    | error e => exact ih.append_right _
    | ok r =>
      by_cases hr : r ∈ rule.compared (rows (rule.kept is))
      · rw [keep_of_mem hr]
        exact ih.trans (List.sublist_append_left _ _)
      · rw [keep_of_not_mem hr]
        exact ih.append_right _

/-- A row that is removed equals one that stays. -/
theorem subset_kept (is : List Item) : is ⊆ rule.kept is := by
  induction is using List.reverseRecOn with
  | nil => exact List.nil_subset _
  | append_singleton is i ih =>
    have hkeep : rule.kept is ⊆ rule.keep (rule.kept is) i ∧ i ∈ rule.keep (rule.kept is) i := by
      cases i with
      | error e => exact ⟨List.subset_append_left _ _, by simp [keep]⟩
      | ok r =>
        by_cases hr : r ∈ rule.compared (rows (rule.kept is))
        · rw [keep_of_mem hr]
          exact ⟨List.Subset.refl _, mem_rows.mp (rule.compared_subset _ hr)⟩
        · rw [keep_of_not_mem hr]
          exact ⟨List.subset_append_left _ _, by simp⟩
    rw [kept_concat]
    exact List.append_subset.mpr
      ⟨List.Subset.trans ih hkeep.1, List.forall_mem_singleton.mpr hkeep.2⟩

theorem mem_kept {is : List Item} {i : Item} : i ∈ rule.kept is ↔ i ∈ is :=
  ⟨fun h => (kept_sublist is).subset h, fun h => subset_kept is h⟩

/-- Where all rows are compared with, the first occurrence of each row is left. -/
theorem rows_kept_all (is : List Item) :
    rows (DuplicateRule.all.kept is) = (rows is).eraseDups := by
  induction is using List.reverseRecOn with
  | nil => rfl
  | append_singleton is i ih =>
    rw [kept_concat]
    cases i with
    | error e => simpa [keep] using ih
    | ok r =>
      have hmem : r ∈ rows (DuplicateRule.all.kept is) ↔ r ∈ rows is := by
        rw [mem_rows, mem_kept, mem_rows]
      rw [rows_append, List.eraseDups_append, ← ih]
      by_cases hr : r ∈ rows is
      · simp [keep, compared, hmem.mpr hr, List.removeAll, hr]
      · simp [keep, compared, mt hmem.mp hr, List.removeAll, hr, List.eraseDups_cons]

end DuplicateRule

namespace RowSet
variable {rule : DuplicateRule} {s : RowSet} {accepted : List Row} {size : Nat}
  {queue members : List Row}

/-- The queue of a window holds the last accepted rows. After a row was rejected there is room for
one more. -/
structure Window (size : Nat) (accepted queue members : List Row) : Prop where
  queue_eq : queue = accepted.rtake (size + 1) ∨ queue = accepted.rtake size
  perm : members.Perm queue

/-- A set after these rows have been accepted. -/
inductive Remembers : DuplicateRule → List Row → RowSet → Prop
  | all {accepted members : List Row} (h : ∀ r, r ∈ members ↔ r ∈ accepted) :
    Remembers .all accepted (.all members)
  | nothing {size : WindowSize} {accepted : List Row} (hsize : size.rows = 0) :
    Remembers (.window size) accepted (.window 0 [] [])
  | window {size : WindowSize} {n : Nat} {accepted queue members : List Row}
    (hsize : size.rows = n + 1) (h : Window n accepted queue members) :
    Remembers (.window size) accepted (.window (n + 1) queue members)

theorem remembers_ofRule (rule : DuplicateRule) : Remembers rule [] (ofRule rule) := by
  cases rule with
  | all => exact .all fun r => Iff.rfl
  | window size =>
    rw [ofRule]
    cases hsize : size.rows with
    | zero => exact .nothing hsize
    | succ n => exact .window hsize ⟨.inl (List.rtake_nil _).symm, .refl _⟩

theorem length_rtake (accepted : List Row) (n : Nat) :
    (accepted.rtake n).length = min n accepted.length := by
  rw [List.rtake, List.length_drop]
  omega

/-- Whether or not the window was full, it now holds the rows that the next one is compared with. -/
theorem Window.evict (h : Window size accepted queue members) :
    (evict (size + 1) queue members).1 = accepted.rtake size ∧
      (evict (size + 1) queue members).2.Perm (accepted.rtake size) := by
  obtain ⟨hqueue, hperm⟩ := h
  have hlong := length_rtake accepted (size + 1)
  have hshort := length_rtake accepted size
  unfold RowSet.evict
  split
  · rename_i hfull
    have hqueue : queue = accepted.rtake (size + 1) := by
      refine hqueue.resolve_right fun hqueue => ?_
      rw [← hqueue] at hshort
      omega
    rw [← hqueue] at hlong
    have hstart : accepted.length - (size + 1) + 1 = accepted.length - size := by omega
    have htail : queue.tail = accepted.rtake size := by
      rw [hqueue, List.rtake, List.tail_drop, hstart, List.rtake]
    cases queue with
    | nil => simp at hfull
    | cons q qs =>
      have hrest : (members.erase q).Perm qs := by simpa using hperm.erase q
      exact ⟨htail, hrest.trans (.of_eq htail)⟩
  · rename_i hroom
    have hqueue : queue = accepted.rtake size := by
      rcases hqueue with hqueue | hqueue
      · rw [← hqueue] at hlong
        have hstart : accepted.length - (size + 1) = accepted.length - size := by omega
        rw [hqueue, List.rtake, hstart, List.rtake]
      · exact hqueue
    exact ⟨hqueue, hperm.trans (.of_eq hqueue)⟩

/-- A row is rejected if it is among those that it is compared with. Else it is accepted and
remembered. -/
theorem Remembers.insert_cases (h : Remembers rule accepted s) (r : Row) :
    (r ∈ rule.compared accepted ∧ ∃ s', s.insert r = (false, s') ∧ Remembers rule accepted s') ∨
      (r ∉ rule.compared accepted ∧
        ∃ s', s.insert r = (true, s') ∧ Remembers rule (accepted ++ [r]) s') := by
  cases h with
  | @all accepted members h =>
    by_cases hr : r ∈ accepted
    · exact .inl ⟨hr, _, if_pos ((h r).mpr hr), .all h⟩
    · exact .inr ⟨hr, _, if_neg (mt (h r).mp hr), .all fun r' => by simp [h, or_comm]⟩
  | nothing hsize =>
    exact .inr ⟨by simp [DuplicateRule.compared, hsize], _, rfl, .nothing hsize⟩
  | @window size n _ queue members hsize h =>
    obtain ⟨hqueue, hperm⟩ := h.evict
    have hinsert : (RowSet.window (n + 1) queue members).insert r =
        if r ∈ (evict (n + 1) queue members).2 then
          (false, .window (n + 1) (evict (n + 1) queue members).1 (evict (n + 1) queue members).2)
        else
          (true, .window (n + 1) ((evict (n + 1) queue members).1 ++ [r])
            (r :: (evict (n + 1) queue members).2)) := rfl
    have hcompared : (DuplicateRule.window size).compared accepted = accepted.rtake n := by
      rw [DuplicateRule.compared, hsize, Nat.add_sub_cancel]
    rw [hinsert, hqueue, hcompared]
    by_cases hr : r ∈ accepted.rtake n
    · exact .inl ⟨hr, _, if_pos (hperm.mem_iff.mpr hr), .window hsize ⟨.inr rfl, hperm⟩⟩
    · refine .inr ⟨hr, _, if_neg (mt hperm.mem_iff.mp hr), .window hsize ⟨.inl ?_, ?_⟩⟩
      · exact (List.rtake_concat_succ _ _ _).symm
      · exact (hperm.cons r).trans (List.perm_append_singleton r _).symm

/-- The set after it has looked at rows. -/
def after (s : RowSet) (rows : List Row) : RowSet := rows.foldl (fun s r => (s.insert r).2) s

@[simp] theorem after_cons (s : RowSet) (r : Row) (rows : List Row) :
    s.after (r :: rows) = (s.insert r).2.after rows := rfl

theorem Remembers.after (h : Remembers rule accepted s) (rows : List Row) :
    Remembers rule (accepted ++ s.select rows) (s.after rows) := by
  induction rows generalizing s accepted with
  | nil => exact (List.append_nil accepted).symm ▸ h
  | cons r rows ih =>
    rw [after_cons, select]
    obtain ⟨-, s', hinsert, hnext⟩ | ⟨-, s', hinsert, hnext⟩ := h.insert_cases r <;> rw [hinsert]
    · exact ih hnext
    · simpa using ih hnext

theorem accepts_append (s : RowSet) (before rows : List Row) :
    s.accepts (before ++ rows) = s.accepts before ++ (s.after before).accepts rows := by
  induction before generalizing s with
  | nil => rfl
  | cons r before ih => exact congrArg ((s.insert r).1 :: ·) (ih _)

theorem length_accepts (s : RowSet) (rows : List Row) : (s.accepts rows).length = rows.length := by
  induction rows generalizing s with
  | nil => rfl
  | cons r rows ih => exact congrArg (· + 1) (ih _)

/-- The answer for a row that comes after others. -/
theorem accepts_after (rule : DuplicateRule) (before after : List Row) (r : Row) :
    ((ofRule rule).accepts (before ++ r :: after))[before.length]? =
      some (decide (r ∉ rule.compared ((ofRule rule).select before))) := by
  have h := (remembers_ofRule rule).after before
  rw [List.nil_append] at h
  have hanswer : (((ofRule rule).after before).insert r).1 =
      decide (r ∉ rule.compared ((ofRule rule).select before)) := by
    obtain ⟨hr, s', hinsert, -⟩ | ⟨hr, s', hinsert, -⟩ := h.insert_cases r <;> simp [hinsert, hr]
  rw [accepts_append, List.getElem?_append_right (Nat.le_of_eq (length_accepts _ before)),
    length_accepts, Nat.sub_self, ← hanswer]
  rfl

/-! Windows are created only for so many rows as memory can be reserved for. -/

theorem window?_eq_none {n : Nat} (h : n ≥ 2 ^ 59) : window? n = none := by
  have hnot : ¬ n * Row.bytes ≤ reservableBytes := by
    simp only [Row.bytes, reservableBytes]
    omega
  rw [window?, WindowSize.ofNat?, dif_neg hnot, Option.map_none]

theorem exists_window? {n : Nat} (h : n < 2 ^ 59) :
    ∃ size : WindowSize, size.rows = n ∧ window? n = some (ofRule (.window size)) := by
  have hfits : n * Row.bytes ≤ reservableBytes := by
    simp only [Row.bytes, reservableBytes]
    omega
  exact ⟨⟨n, hfits⟩, rfl, by rw [window?, WindowSize.ofNat?, dif_pos hfits, Option.map_some]⟩

/-- The largest number of rows that can be asked for is too large. -/
theorem no_largest_window : ¬ ∃ window, window? (2 ^ 64 - 1) = some window ∧
    ∀ (before after : List Row) (r : Row),
      (window.accepts (before ++ r :: after))[before.length]? =
        some (decide (r ∉ (window.select before).rtake (2 ^ 64 - 1 - 1))) := by
  rintro ⟨window, hwindow, -⟩
  have hnone : window? (2 ^ 64 - 1) = none := rfl
  cases hnone.symm.trans hwindow

theorem accepts_of_no_room {size : WindowSize} (h : size.rows = 0) (rows : List Row) :
    (ofRule (.window size)).accepts rows = rows.map fun _ => true := by
  rw [ofRule, h]
  induction rows with
  | nil => rfl
  | cons r rows ih => exact congrArg (true :: ·) ih

/-- What a set lets pass is added to what was kept before. -/
theorem Remembers.items_distinct {kept : List Item} (h : Remembers rule (Items.rows kept) s)
    (es : List Event) :
    kept ++ Event.items (Event.distinct s es) = (Event.items es).foldl rule.keep kept := by
  induction es generalizing s kept with
  | nil => exact List.append_nil kept
  | cons e es ih =>
    rcases e with a | e | r
    · exact ih h
    · have hkept : Remembers rule (Items.rows (kept ++ [.error e])) s := by simpa using h
      simpa [Event.distinct, DuplicateRule.keep] using ih hkept
    · rw [Event.items_item, List.foldl_cons, Event.distinct]
      obtain ⟨hr, s', hinsert, hnext⟩ | ⟨hr, s', hinsert, hnext⟩ := h.insert_cases r <;>
        rw [hinsert]
      · rw [DuplicateRule.keep_of_mem hr]
        exact ih hnext
      · have hkept : Remembers rule (Items.rows (kept ++ [.ok r])) s' := by simpa using hnext
        rw [DuplicateRule.keep_of_not_mem hr, ← ih hkept]
        simp

theorem items_distinct_ofRule (rule : DuplicateRule) (es : List Event) :
    Event.items (Event.distinct (ofRule rule) es) = rule.kept (Event.items es) := by
  have hempty : Remembers rule (Items.rows []) (ofRule rule) := remembers_ofRule rule
  exact hempty.items_distinct es

/-- Each row is accepted at some time. -/
theorem mem_select {rows : List Row} {r : Row} : r ∈ (ofRule rule).select rows ↔ r ∈ rows := by
  have hdeliver := (Event.deliver_ofRows rows).distinct (ofRule rule)
  have hitems := Event.deliver_iff.mp hdeliver
  rw [items_distinct_ofRule, Event.items_ofRows] at hitems
  rw [← Items.rows_map_ok ((ofRule rule).select rows), ← hitems, Items.mem_rows,
    DuplicateRule.mem_kept, ← Items.mem_rows, Items.rows_map_ok]

end RowSet

namespace Plan
variable {c : Context}

theorem items_distinct (hc : c.Fresh) (p : Plan) : (distinct p).items c =
    (p.items c).map fun d => (p.vars, c.config.distinct.kept d.2) :=
  items_of_operand (p := distinct p) hc.registry_eq rfl
    (fun _ hs => (isFresh_dispatch hc hs).memo_eq)
    fun s => ⟨_, _, _, rfl, RowSet.items_distinct_ofRule _ s.run.events⟩

theorem items_weakDistinct (hc : c.Fresh) (p : Plan) : (weakDistinct p).items c =
    (p.items c).map fun d => (p.vars, c.config.weakDistinct.kept d.2) :=
  items_of_operand (p := weakDistinct p) hc.registry_eq rfl
    (fun _ hs => (isFresh_dispatch hc hs).memo_eq)
    fun s => ⟨_, _, _, rfl, RowSet.items_distinct_ofRule _ s.run.events⟩

/-- A set that remembers all rows accepts a row if no equal one came before. Windows for at least
`2 ^ 59` rows cannot be created. Any other window accepts a row if it differs from the accepted rows
that it is compared with, one less than the window has room for. What stays of the items of a plan,
in either mode, are its errors and the accepted rows: some of its items in their order, and each
distinct row among them. Where all rows are remembered these are the first occurrences. -/
theorem duplicates_follow_rule (hc : c.Fresh) :
    (∀ (before after : List Row) (r : Row),
      ((RowSet.ofRule .all).accepts (before ++ r :: after))[before.length]? =
        some (decide (r ∉ before))) ∧
    (∀ n ≥ 2 ^ 59, RowSet.window? n = none) ∧
    (∀ n < 2 ^ 59, ∃ window, RowSet.window? n = some window ∧
      (∀ (before after : List Row) (r : Row),
        (window.accepts (before ++ r :: after))[before.length]? =
          some (decide (r ∉ (window.select before).rtake (n - 1)))) ∧
      (n = 0 → ∀ rows, window.accepts rows = rows.map fun _ => true)) ∧
    (∀ p, (distinct p).items c =
      (p.items c).map fun d => (p.vars, c.config.distinct.kept d.2)) ∧
    (∀ p, (weakDistinct p).items c =
      (p.items c).map fun d => (p.vars, c.config.weakDistinct.kept d.2)) ∧
    (∀ is, Items.rows (DuplicateRule.all.kept is) = (Items.rows is).eraseDups) ∧
    ∀ (rule : DuplicateRule) (is : List Item), (rule.kept is).Sublist is ∧ is ⊆ rule.kept is := by
  refine ⟨fun before after r => ?_, fun n hn => RowSet.window?_eq_none hn, fun n hn => ?_,
    items_distinct hc, items_weakDistinct hc, DuplicateRule.rows_kept_all,
    fun rule is => ⟨DuplicateRule.kept_sublist is, DuplicateRule.subset_kept is⟩⟩
  · rw [RowSet.accepts_after, DuplicateRule.compared]
    simp only [RowSet.mem_select]
  · obtain ⟨size, rfl, hwindow⟩ := RowSet.exists_window? hn
    refine ⟨_, hwindow, fun before after r => RowSet.accepts_after _ before after r, ?_⟩
    intro hzero rows
    exact RowSet.accepts_of_no_room hzero rows

/-- Rows without columns around an error. A window of two compares the second one with the first, a
window of one with nothing. -/
theorem duplicates_follow_rule_windows :
    let store := TripleStore.stepwise (.ofTriples Contents.path.triples)
      (some ⟨.iri "p", some 1, "lost"⟩)
    let config : Config :=
      { defaultMode := .push, distinct := .window ⟨2, by decide⟩,
        weakDistinct := .window ⟨1, by decide⟩ }
    let c : Context := ⟨store, config, .builtin⟩
    let p := project (edge (.var ⟨"x"⟩) (.var ⟨"y"⟩)) []
    let lost : Item := .error (.storage (.other "lost"))
    c.Fresh ∧ (distinct p).items c = .ok ([], [.ok [], lost]) ∧
      (weakDistinct p).items c = .ok ([], [.ok [], lost, .ok []]) := by
  intro store config c p lost
  have hc : c.Fresh := TripleStore.fresh_stepwise _ _ _
  have hitems : p.items c = .ok ([], [.ok [], lost, .ok []]) := by
    rw [items, execute_eq_dispatchWithin rfl (dispatch c)]
    rfl
  obtain ⟨-, -, -, hdistinct, hweak, -⟩ := duplicates_follow_rule hc
  refine ⟨hc, (hdistinct p).trans ?_, (hweak p).trans ?_⟩
  · rw [hitems]
    rfl
  · rw [hitems]
    rfl

end Plan
end TripleAlgebra
