import TripleAlgebra.Proofs.Demands
import TripleAlgebra.Proofs.NestedLoops
import TripleAlgebra.Proofs.SliceCursor

/-! Slices do what a cursor over their operand does. -/
namespace TripleAlgebra
open Store
open Stream' (Seq)

/-- What a demand makes happen if the sequence comes from events: the acts of those that its answers
come from. -/
structure SliceIter.Performs (es : List Event) (offset : Nat) (limit : Option Nat) (asked k : Nat)
    (i : Option Item) (counters : SliceCounters) (before : List Act) : Prop where
  next : SliceIter.next ⟨Seq.ofList (Event.items es), ⟨offset, limit⟩, asked⟩ =
    some (i, ⟨Seq.ofList (Event.items (Event.demand k es).2), counters, asked + k⟩)
  slice : Event.slice offset limit es = before.map .act ++ i.elim [] fun i =>
    .item i :: Event.slice counters.offset counters.limit (Event.demand k es).2
  effects : Event.effects (before.map .act) = Event.effects (Event.demand k es).1

namespace SliceIter
variable {offset asked : Nat} {limit : Option Nat}

theorem performs_open (es : List Event) (hl : limit ≠ some 0) (offset asked : Nat) :
    ∃ k i counters before, Performs es offset limit asked (k + 1) i counters before := by
  induction es generalizing offset asked with
  | nil => exact ⟨0, none, _, [], next_nil hl, rfl, rfl⟩
  | cons e es ih =>
    rcases e with a | e | r
    · obtain ⟨k, i, counters, before, h⟩ := ih offset asked
      refine ⟨k, i, counters, a :: before, h.next, ?_, ?_⟩
      · rw [Event.slice_act hl, h.slice]
        rfl
      · exact congrArg (a.effects ++ ·) h.effects
    · refine ⟨0, some (.error e), ⟨offset, limit⟩, [], ?_, ?_, ?_⟩
      · simpa [Event.demand_succ_item] using next_error hl e
      · simp [Event.slice, hl, Event.demand_succ_item]
      · rw [Event.demand_succ_item, Event.demand_zero]
        rfl
    · cases offset with
      | zero =>
        refine ⟨0, some (.ok r), ⟨0, limit.map (· - 1)⟩, [], ?_, ?_, ?_⟩
        · simpa [Event.demand_succ_item] using next_keep hl r
        · simp [Event.slice_keep hl, Event.demand_succ_item]
        · rw [Event.demand_succ_item, Event.demand_zero]
          rfl
      | succ offset =>
        obtain ⟨k, i, counters, before, h⟩ := ih offset (asked + 1)
        refine ⟨k + 1, i, counters, before, ?_, ?_, h.effects⟩
        · rw [Event.items_item, Seq.ofList_cons, next_skip hl, h.next, Event.demand_succ_item]
          have hasked : asked + 1 + (k + 1) = asked + (k + 1 + 1) := by omega
          rw [hasked]
        · rw [Event.slice_skip hl, h.slice, Event.demand_succ_item]

theorem exists_performs (es : List Event) (offset : Nat) (limit : Option Nat) (asked : Nat) :
    ∃ k i counters before, Performs es offset limit asked k i counters before := by
  by_cases hl : limit = some 0
  · subst hl
    refine ⟨0, none, ⟨offset, some 0⟩, [], ?_, Event.slice_zero _ _, ?_⟩
    · simpa using next_exhausted
    · simp
  · obtain ⟨k, h⟩ := performs_open es hl offset asked
    exact ⟨k + 1, h⟩

end SliceIter

namespace FusedSlice
open SliceIter Event

/-- Behind an error one more item is asked for in vain, at the cost of what happens before it. -/
theorem run_vain (es : List Event) (offset : Nat) (limit : Option Nat) (asked n : Nat) :
    ∃ d k, run ⟨⟨Seq.ofList (items es), ⟨offset, limit⟩, asked⟩, true⟩ (n + 1) = some ([], d) ∧
      d.iter.asked = asked + k ∧
      effects (beforeItem (slice offset limit es)).1 = effects (demand k es).1 := by
  obtain ⟨k, i, counters, before, h⟩ := exists_performs es offset limit asked
  refine ⟨_, k, run_failed h.next, rfl, ?_⟩
  rw [h.slice, beforeItem_acts, effects_append, h.effects]
  cases i <;> exact List.append_nil _

/-- Demands to a slice of events. -/
theorem run_events (es : List Event) (offset : Nat) (limit : Option Nat) (asked n : Nat) :
    ∃ d k, run ⟨⟨Seq.ofList (items es), ⟨offset, limit⟩, asked⟩, false⟩ n =
        some (items (demand n (fuse (slice offset limit es))).1, d) ∧
      d.iter.asked = asked + k ∧
      effects (demand n (fuse (slice offset limit es))).1 = effects (demand k es).1 := by
  induction n generalizing es offset limit asked with
  | zero =>
    rw [demand_zero]
    exact ⟨_, 0, rfl, rfl, by rw [demand_zero]⟩
  | succ n ih =>
    obtain ⟨k, i, counters, before, h⟩ := exists_performs es offset limit asked
    rw [h.slice, fuse_acts, demand_acts, items_append, items_acts, List.nil_append,
      effects_append, h.effects]
    rcases i with _ | e | r
    · exact ⟨_, k, run_end h.next, rfl, List.append_nil _⟩
    · have hfuse : fuse ((some (Except.error e)).elim [] fun i =>
          .item i :: slice counters.offset counters.limit (demand k es).2) =
          .item (.error e) ::
            (beforeItem (slice counters.offset counters.limit (demand k es).2)).1 := rfl
      rw [hfuse, demand_succ_item, items_item]
      cases n with
      | zero =>
        rw [demand_zero]
        exact ⟨_, k, run_item h.next, rfl, List.append_nil _⟩
      | succ n =>
        obtain ⟨d, k', hrun, hasked, heffects⟩ :=
          run_vain (demand k es).2 counters.offset counters.limit (asked + k) n
        rw [demand_beforeItem, items_beforeItem]
        refine ⟨d, k + k', ?_, ?_, ?_⟩
        · rw [run_item h.next]
          exact congrArg (Option.map _) hrun
        · omega
        · rw [demand_add, effects_append, ← heffects]
          rfl
    · have hfuse : fuse ((some (Except.ok r)).elim [] fun i =>
          .item i :: slice counters.offset counters.limit (demand k es).2) =
          .item (.ok r) :: fuse (slice counters.offset counters.limit (demand k es).2) := rfl
      rw [hfuse, demand_succ_item, items_item]
      obtain ⟨d, k', hrun, hasked, heffects⟩ :=
        ih (demand k es).2 counters.offset counters.limit (asked + k)
      refine ⟨d, k + k', ?_, ?_, ?_⟩
      · rw [run_item h.next]
        exact congrArg (Option.map _) hrun
      · omega
      · rw [demand_add, effects_append, ← heffects]
        rfl

theorem take_ofList (is : List Item) (n : Nat) : (Seq.ofList is).take n = is.take n := by
  induction is generalizing n with
  | nil => simp
  | cons i is ih => cases n <;> simp [ih]

theorem items_fuse_slice (es : List Event) (start : Nat) (limit : Option Nat) :
    items (fuse (slice start limit es)) = Items.sliced start limit (items es) := by
  have htake (n : Nat) : (items (fuse (slice start limit es))).take n =
      (Items.sliced start limit (items es)).take n := by
    obtain ⟨d, _, hrun, -⟩ := run_events es start limit 0 n
    obtain ⟨is, d', _, hrun', -, hexact⟩ := exact_run (Seq.ofList (items es)) start limit 0 n
    obtain ⟨rfl, -⟩ := Prod.mk.inj (Option.some.inj (hrun.symm.trans hrun'))
    have hitems := hexact.items (start + n + (items es).length) (by omega)
    have hwhole : (items es).take (start + n + (items es).length) = items es :=
      List.take_of_length_le (by omega)
    rwa [items_demand, take_ofList, hwhole] at hitems
  have hall := htake ((items (fuse (slice start limit es))).length +
    (Items.sliced start limit (items es)).length)
  rwa [List.take_of_length_le (by omega), List.take_of_length_le (by omega)] at hall

end FusedSlice

namespace Plan
open FusedSlice

/-- A slice of a sequence, finite or not, delivers the rows before the first error without the first
ones, and then the error, up to the limit. No counter underflows. It asks for nothing under a limit of
zero. As long as it is not asked on after an error, it asks for no item behind an error and for none
behind the last row to keep. If it is asked on, it may skip rows behind the error and one more, all
in vain. In either mode the evaluators do what such demands make happen, and gathering stops in
time. -/
theorem slices_are_exact {c : Context} (hc : c.Fresh) (start : Nat) (count : Option Nat) :
    (∀ (inner : Seq Item) (n : Nat), ∃ is d,
      run ⟨⟨inner, ⟨start, count⟩, 0⟩, false⟩ n = some (is, d) ∧
      (∀ m, start + n ≤ m → is = (Items.sliced start count (inner.take m)).take n) ∧
      (count = some 0 → d.iter.asked = 0) ∧
      ((∀ i ∈ is.take (n - 1), i.isOk) → (∀ i ∈ inner.take (d.iter.asked - 1), i.isOk) ∧
        ∀ l, count = some l → d.iter.asked ≤ start + l) ∧
      ∀ m e, inner.get? m = some (.error e) → d.iter.asked ≤ max start m + 2) ∧
    (∀ (s : Solutions) (m : Mode) (header : List Variable), ∃ u,
      (s.slice m header start count).outcome = .ok u ∧ u.header = header ∧
      (∀ n, ∃ d, run ⟨⟨Seq.ofList (Event.items s.run.events), ⟨start, count⟩, 0⟩, false⟩ n =
          some ((u.take (some n)).value, d) ∧
        (s.slice m header start count).effects ++ (u.take (some n)).effects =
          s.run.opening.flatMap Act.effects ++
            Event.effects (Event.demand d.iter.asked s.run.events).1) ∧
      ∃ n, u.gather.effects = (u.take (some (n + 1))).effects ∧
        ∀ i ∈ (u.take (some (n + 1))).value.take n, i.isOk) ∧
    ∀ p : Plan,
      (∀ n, (limit p n).items c =
        (p.items c).map fun d => (p.vars, Items.sliced 0 (some n) d.2)) ∧
      (offset p start).items c =
        (p.items c).map (fun d => (p.vars, Items.sliced start none d.2)) ∧
      (slice p start count).items c =
        (p.items c).map fun d => (p.vars, Items.sliced start count d.2) := by
  refine ⟨fun inner n => ?_, fun s m header => ?_, fun p => ?_⟩
  · obtain ⟨is, d, k, hrun, hasked, hexact⟩ := exact_run inner start count 0 n
    rw [Nat.zero_add] at hasked
    subst hasked
    exact ⟨is, d, hrun, hexact.items, hexact.nothing, hexact.prompt, fun m e he =>
      hexact.bounded m e (Seq.get?_mem_take (Nat.lt_succ_self m) he)⟩
  · obtain ⟨u, hu, hheader, hmemo, hknown, hevents, hbegun⟩ :=
      Solutions.exists_deliver_begun m header s.isHot
        { s.run with events := Event.fuse (Event.slice start count s.run.events) }
    refine ⟨u, hu, hheader, fun n => ?_, Solutions.exists_take_gather hknown⟩
    obtain ⟨d, k, hrun, hasked, heffects⟩ := run_events s.run.events start count 0 n
    rw [Nat.zero_add] at hasked
    subst hasked
    refine ⟨d, ?_, ?_⟩
    · simp only [Solutions.take, Solutions.nextRun, hmemo, hevents]
      exact hrun
    · simp only [Solutions.take, Solutions.nextRun, hmemo, hevents, ← heffects]
      rw [← List.append_assoc]
      exact congrArg (· ++ _) hbegun
  · have hmemo : ∀ s, (dispatch c p).outcome = .ok s → s.memo = none :=
      fun s hs => (isFresh_dispatch hc hs).memo_eq
    have hitems (start : Nat) (count : Option Nat) (s : Solutions) :
        Event.items (Event.fuse (Event.slice start count s.run.events)) =
          Items.sliced start count (Event.items s.run.events) := items_fuse_slice _ _ _
    refine ⟨fun n => ?_, ?_, ?_⟩
    · exact items_of_operand (p := limit p n) hc.registry_eq rfl hmemo fun s =>
        ⟨_, _, _, rfl, hitems 0 (some n) s⟩
    · exact items_of_operand (p := offset p start) hc.registry_eq rfl hmemo fun s =>
        ⟨_, _, _, rfl, hitems start none s⟩
    · exact items_of_operand (p := slice p start count) hc.registry_eq rfl hmemo fun s =>
        ⟨_, _, _, rfl, hitems start count s⟩

/-- Rows without end, of which one is skipped and two are kept, and a slice of two rows around an
error. -/
theorem slices_are_exact_endless :
    let rows : Seq Item := Seq.ofStream (.const (.ok .empty))
    let store := TripleStore.stepwise (.ofTriples Contents.path.triples)
      (some ⟨.iri "p", some 1, "lost"⟩)
    let c : Context := ⟨store, { defaultMode := .push }, .builtin⟩
    let p := project (edge (.var ⟨"x"⟩) (.var ⟨"y"⟩)) []
    (∃ is d, run ⟨⟨rows, ⟨1, some 2⟩, 0⟩, false⟩ 5 = some (is, d) ∧
      is = [.ok .empty, .ok .empty] ∧ d.iter.asked ≤ 3) ∧
    c.Fresh ∧ (slice p 0 (some 2)).items c = .ok ([], [.ok [], .error (.storage (.other "lost"))]) := by
  intro rows store c p
  have hc : c.Fresh := TripleStore.fresh_stepwise _ _ _
  refine ⟨?_, hc, ?_⟩
  · obtain ⟨is, d, h, hitems, -, hprompt, -⟩ := (slices_are_exact hc 1 (some 2)).1 rows 5
    have his : is = [.ok .empty, .ok .empty] := hitems 6 (Nat.le_refl 6)
    obtain ⟨-, hlimit⟩ := hprompt (by rw [his]; decide)
    exact ⟨is, d, h, his, hlimit 2 rfl⟩
  · have hitems : p.items c = .ok ([], [.ok [], .error (.storage (.other "lost")), .ok []]) := by
      rw [items, execute_eq_dispatchWithin rfl (dispatch c)]
      rfl
    rw [((slices_are_exact hc 0 (some 2)).2.2 p).2.2, hitems]
    rfl

/-- An offset over a sequence that fails at once. The error is all that it delivers, but it is asked
on, skips a row behind the error and asks for another one. -/
theorem offset_asks_behind_error :
    let store := TripleStore.stepwise (.ofTriples Contents.path.triples)
      (some ⟨.iri "p", some 0, "lost"⟩)
    let c : Context := ⟨store, {}, .builtin⟩
    let p := edge (.var ⟨"x"⟩) (.var ⟨"y"⟩)
    let lost : Item := .error (.storage (.other "lost"))
    let row (t u : String) : Item := .ok [some (.iri t), some (.iri u)]
    ((offset p 1).execute c).outcome.map
      (fun s => ((s.take none).value, Effect.taken (s.take none).effects)) =
        .ok ([lost], [lost, row "a" "b", row "b" "c"]) := by
  intro store c p lost row
  rw [execute_eq_dispatchWithin rfl (dispatch c)]
  rfl

end Plan
end TripleAlgebra
