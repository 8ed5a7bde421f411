import TripleAlgebra.Proofs.Items
import TripleAlgebra.Solutions.History

/-! What solutions reply over a history of uses. Before a consumption, after one, and once rows are
remembered, each reply depends on a list of items only. -/
namespace TripleAlgebra

/-- Whether there is a row, as the first item tells. -/
def Event.found : List Item → Except Problem Bool
  | [] => .ok false
  | .ok _ :: _ => .ok true
  | .error e :: _ => .error e

theorem Event.found_eq {is : List Item} (h : ∀ e, is.head? ≠ some (.error e)) :
    found is = .ok (!is.isEmpty) := by
  cases is with
  | nil => rfl
  | cons i is =>
    cases i with
    | ok r => rfl
    | error e => exact absurd rfl (h e)

theorem Event.found_ok (rows : List Row) : found (rows.map .ok) = .ok (!rows.isEmpty) := by
  cases rows <;> rfl

/-- Rows that are known come without effects. -/
theorem Event.effects_ofRows (rows : List Row) : effects (ofRows rows) = [] := by
  simp [effects, acts, act?, ofRows, List.filterMap_map, Function.comp_def]

theorem Event.demand_ofRows (n : Nat) (rows : List Row) :
    (demand n (ofRows rows)).1 = ofRows (rows.take n) := by
  induction rows generalizing n with
  | nil => cases n <;> rfl
  | cons r rows ih =>
    cases n with
    | zero => rfl
    | succ n => exact congrArg (Event.item (.ok r) :: ·) (ih n)

namespace Use

/-- The reply of solutions that have the items to deliver. -/
def reply (hot : Bool) (is : List Item) : Use → Reply
  | .take _ none => .items is
  | .take _ (some n) => .items (is.take n)
  | .gather _ => .rows (Event.collect is)
  | .ask _ => .found (Event.found is)
  | .isHot => .hot hot

/-- Uses that consume nothing. -/
def peeks : Use → Bool
  | .ask _ | .isHot => true
  | .take _ _ | .gather _ => false

end Use

namespace Solutions
variable {s : Solutions} {is : List Item}

/-! Remembered rows answer every use. -/

theorem perform_remembered {rows : List Row} (h : s.memo = some rows) (u : Use) :
    s.perform u = ⟨[], u.reply false (rows.map .ok), s⟩ := by
  have hhot : s.isHot = false := by simp [isHot, h]
  have hknown : s.known = some rows := by simp [known, h]
  cases u with
  | take m n =>
    have hstay (done rest : List Event) : s.consumed done rest = s := by
      simp [consumed, hhot, hknown]
    cases n with
    | none =>
      simp [perform, take, Answer.map, Use.reply, nextRun, h, Run.ofRows, hstay,
        Event.effects_ofRows]
    | some n =>
      simp [perform, take, Answer.map, Use.reply, nextRun, h, Run.ofRows, hstay,
        Event.demand_ofRows, Event.effects_ofRows]
  | gather m => simp [perform, gather, Answer.map, Use.reply, hknown, Solutions.collect_ok]
  | ask m =>
    simp [perform, ask, Answer.map, Use.reply, hknown, Event.found_ok]
  | isHot => simp [perform, Use.reply, hhot]

theorem history_remembered {rows : List Row} (h : s.memo = some rows) (us : List Use) :
    s.history us = ⟨[], us.map (Use.reply false (rows.map .ok)), s⟩ := by
  induction us with
  | nil => rfl
  | cons u us ih => simp [history, perform_remembered h, ih]

/-! Solutions that are not remembered reply by the items of their next consumption. -/

/-- Nothing is remembered and the next consumption delivers the items. A table delivers rows. -/
structure Fresh (s : Solutions) (is : List Item) : Prop where
  memo_eq : s.memo = none
  items_eq : Event.items s.run.events = is
  rows : s.source = .table → ∃ rows : List Row, is = rows.map .ok

theorem filterMap_toOption (rows : List Row) :
    (rows.map Except.ok : List Item).filterMap Except.toOption = rows := by
  simp [List.filterMap_map, Function.comp_def, Except.toOption]

theorem known_table (hm : s.memo = none) (hs : s.source = .table) {rows : List Row}
    (h : Event.items s.run.events = rows.map .ok) : s.known = some rows := by
  simp only [known, hm, hs, h, filterMap_toOption]

theorem source_table (hm : s.memo = none) {rows : List Row} (h : s.known = some rows) :
    s.source = .table := by
  cases hs : s.source with
  | table => rfl
  | generator | iterator | stream => simp [known, hm, hs] at h

theorem Fresh.reply (h : s.Fresh is) (u : Use) : (s.perform u).value = u.reply s.isHot is := by
  obtain ⟨hm, rfl, htable⟩ := h
  cases u with
  | take m n =>
    cases n <;> simp [perform, take, Answer.map, Use.reply, nextRun, hm, Event.items_demand]
  | gather m =>
    cases hk : s.known with
    | none =>
      simp only [perform, gather, Answer.map, Use.reply, hk, Event.collect_untilError]
    | some rows =>
      obtain ⟨rows', hrows⟩ := htable (source_table hm hk)
      have hrows' := known_table hm (source_table hm hk) hrows
      obtain rfl : rows' = rows := Option.some.inj (hrows'.symm.trans hk)
      simp [perform, gather, Answer.map, Use.reply, hk, hrows, Solutions.collect_ok]
  | ask m =>
    cases hk : s.known with
    | none =>
      have hone := Event.items_demand 1 s.run.events
      have hask : s.ask.value = Event.found (Event.items s.run.events) := by
        unfold ask
        simp only [hk, hone]
        cases Event.items s.run.events with
        | nil => rfl
        | cons i is => cases i <;> rfl
      exact congrArg Reply.found hask
    | some rows =>
      obtain ⟨rows', hrows⟩ := htable (source_table hm hk)
      have hrows' := known_table hm (source_table hm hk) hrows
      obtain rfl : rows' = rows := Option.some.inj (hrows'.symm.trans hk)
      simp [perform, ask, Answer.map, Use.reply, hk, hrows, Event.found_ok]
  | isHot => rfl

/-! The source of solutions never changes, and a use forgets nothing. -/

@[simp] theorem consumed_source (s : Solutions) (done rest : List Event) :
    (s.consumed done rest).source = s.source := by
  unfold consumed
  split_ifs <;> rfl

@[simp] theorem consumed_memo (s : Solutions) (done rest : List Event) :
    (s.consumed done rest).memo = s.memo := by
  unfold consumed
  split_ifs <;> rfl

theorem perform_source (s : Solutions) (u : Use) : (s.perform u).next.source = s.source := by
  cases u with
  | take m n => simp [perform, take, Answer.map]
  | gather m =>
    simp only [perform, gather, Answer.map]
    split <;> simp
  | ask m =>
    simp only [perform, ask, Answer.map]
    repeat' split
    all_goals simp
  | isHot => rfl

theorem history_source (s : Solutions) (us : List Use) : (s.history us).next.source = s.source := by
  induction us generalizing s with
  | nil => rfl
  | cons u us ih => exact (ih _).trans (perform_source s u)

theorem perform_memo (hm : s.memo = none) {u : Use}
    (hu : ∀ rows, (s.perform u).value ≠ .rows (.ok rows)) : (s.perform u).next.memo = none := by
  cases u with
  | take m n => simp [perform, take, Answer.map, hm]
  | gather m =>
    have hreply : (s.perform (.gather m)).value = .rows s.gather.value := rfl
    cases hk : s.known with
    | some rows => exact absurd (by rw [hreply, gather, hk]) (hu rows)
    | none =>
      have hnext : s.gather.next.memo = s.gather.value.toOption := by simp only [gather, hk]
      cases hv : s.gather.value with
      | ok rows => exact absurd (hreply.trans (congrArg Reply.rows hv)) (hu rows)
      | error e => exact hnext.trans (by rw [hv]; rfl)
  | ask m =>
    simp only [perform, ask, Answer.map]
    repeat' split
    all_goals simp [hm]
  | isHot => exact hm

theorem history_memo (hm : s.memo = none) {us : List Use}
    (hus : ∀ rows, Reply.rows (.ok rows) ∉ (s.history us).value) :
    (s.history us).next.memo = none := by
  induction us generalizing s with
  | nil => exact hm
  | cons u us ih =>
    have hu : ∀ rows, (s.perform u).value ≠ .rows (.ok rows) := fun rows h =>
      hus rows (List.mem_cons.mpr (.inl h.symm))
    exact ih (perform_memo hm hu) fun rows h => hus rows (List.mem_cons_of_mem _ h)

/-! The life of a hot source. It offers its items until it is consumed, it has none afterwards, and
rows that have been gathered are remembered. -/

theorem isHot_eq (hm : s.memo = none) : s.isHot = s.source.isHot := by simp [isHot, hm]

theorem known_hot (hm : s.memo = none) (hs : s.source.isHot = true) : s.known = none := by
  cases hk : s.known with
  | none => rfl
  | some rows =>
    rw [source_table hm hk] at hs
    cases hs

/-- A hot source that has not been consumed. -/
structure Offers (s : Solutions) (is : List Item) : Prop where
  hot : s.source.isHot = true
  memo_eq : s.memo = none
  opening_eq : s.run.opening = []
  items_eq : Event.items s.run.events = is

theorem Offers.fresh (h : s.Offers is) : s.Fresh is where
  memo_eq := h.memo_eq
  items_eq := h.items_eq
  rows hs := by
    have hhot := h.hot
    rw [hs] at hhot
    cases hhot

theorem Offers.isHot_eq (h : s.Offers is) : s.isHot = true :=
  (Solutions.isHot_eq h.memo_eq).trans h.hot

theorem offers_ofItems {source : SourceKind} (hs : source.isHot = true) (header : List Variable)
    (is : List Item) : (ofItems header source is).Offers is :=
  ⟨hs, rfl, rfl, items_ofItems header source is⟩

/-- How many items the next peek takes. -/
def peekCost (s : Solutions) : Nat :=
  (Effect.taken (Event.effects (Event.demand 1 s.run.events).1)).length

theorem peekCost_ofItems (header : List Variable) (source : SourceKind) (is : List Item) :
    (ofItems header source is).peekCost ≤ 1 := by
  cases is with
  | nil => exact Nat.zero_le 1
  | cons i is =>
    simp [peekCost, ofItems, Event.demand, Event.effects, Event.acts, Event.act?, Act.effects,
      Effect.taken]

theorem Offers.ask_nil (h : s.Offers []) (m : Mode) :
    s.perform (.ask m) = ⟨Event.effects (Event.demand 1 s.run.events).1, .found (.ok false),
      { s with run := .empty }⟩ := by
  have hone := Event.items_demand 1 s.run.events
  rw [h.items_eq] at hone
  simp [perform, ask, Answer.map, known_hot h.memo_eq h.hot, hone, h.opening_eq, consumed,
    h.isHot_eq]

theorem Offers.ask_row {r : Row} (h : s.Offers (.ok r :: is)) (m : Mode) :
    s.perform (.ask m) = ⟨Event.effects (Event.demand 1 s.run.events).1, .found (.ok true),
      { s with run := ⟨[], .item (.ok r) :: (Event.demand 1 s.run.events).2⟩ }⟩ := by
  have hone := Event.items_demand 1 s.run.events
  rw [h.items_eq] at hone
  simp [perform, ask, Answer.map, known_hot h.memo_eq h.hot, hone, h.opening_eq, h.isHot_eq]

/-- A peek leaves the items in place. What it takes, later peeks need not take. -/
theorem Offers.peek (h : s.Offers is) (hfirst : ∀ e, is.head? ≠ some (.error e)) {u : Use}
    (hu : u.peeks = true) :
    (s.perform u).next.Offers is ∧
      (Effect.taken (s.perform u).effects).length + (s.perform u).next.peekCost ≤ s.peekCost := by
  cases u with
  | take m n => cases hu
  | gather m => cases hu
  | isHot => exact ⟨h, by simp [perform, Effect.taken]⟩
  | ask m =>
    cases is with
    | nil =>
      rw [h.ask_nil m]
      exact ⟨⟨h.hot, h.memo_eq, rfl, rfl⟩, Nat.le_refl _⟩
    | cons i is =>
      obtain ⟨r, rfl⟩ : ∃ r, i = .ok r := by
        cases i with
        | ok r => exact ⟨r, rfl⟩
        | error e => exact absurd rfl (hfirst e)
      -- the row is put back before what is left, so that nothing is taken for it again
      have hitems := congrArg Event.items (Event.demand_append 1 s.run.events)
      rw [Event.items_append, Event.items_demand, h.items_eq] at hitems
      have hzero : Effect.taken (Event.effects
          (Event.demand 1 (.item (.ok r) :: (Event.demand 1 s.run.events).2)).1) = [] := by
        simp [Event.demand, Event.effects, Event.acts, Event.act?, Effect.taken]
      rw [h.ask_row m]
      exact ⟨⟨h.hot, h.memo_eq, rfl, hitems⟩, by simp [peekCost, hzero]⟩

theorem Offers.history_peeks (h : s.Offers is) (hfirst : ∀ e, is.head? ≠ some (.error e))
    {us : List Use} (hus : ∀ u ∈ us, u.peeks = true) :
    (s.history us).next.Offers is ∧ (Effect.taken (s.history us).effects).length ≤ s.peekCost := by
  induction us generalizing s with
  | nil => exact ⟨h, Nat.zero_le _⟩
  | cons u us ih =>
    obtain ⟨hnext, hcost⟩ := h.peek hfirst (hus u List.mem_cons_self)
    obtain ⟨hlast, hrest⟩ := ih hnext fun v hv => hus v (List.mem_cons_of_mem u hv)
    refine ⟨hlast, ?_⟩
    have hsum : (Effect.taken (s.history (u :: us)).effects).length =
        (Effect.taken (s.perform u).effects).length +
          (Effect.taken ((s.perform u).next.history us).effects).length := by
      simp [history, Effect.taken]
    omega

/-- A hot source that has been consumed. Nothing but the lack of rows can be remembered of it. -/
def Exhausted (s : Solutions) : Prop :=
  s.source.isHot = true ∧ s.memo = none ∧ s.run = .empty ∨ s.memo = some []

/-- Rows that a hot source has gathered are remembered. -/
theorem gather_remembers (hs : s.source.isHot = true) {rows : List Row}
    (h : s.gather.value = .ok rows) : s.gather.next.memo = some rows := by
  cases hk : s.known with
  | none =>
    have hmemo : s.gather.next.memo = s.gather.value.toOption := by simp only [gather, hk]
    rw [hmemo, h]
    rfl
  | some found =>
    cases hm : s.memo with
    | none => exact absurd (known_hot hm hs) (by simp [hk])
    | some rows' =>
      have hgather : s.gather = ⟨[], .ok rows', s⟩ := by simp [gather, known, hm]
      rw [hgather] at h ⊢
      cases h
      exact hm

/-- A consumption that remembers nothing exhausts a hot source. -/
theorem exhausted_perform (hs : s.source.isHot = true) (hm : s.memo = none) {u : Use}
    (hu : (∃ m n, u = .take m n) ∨ ∃ e, (s.perform u).value = .rows (.error e)) :
    (s.perform u).next.Exhausted := by
  have hhot : s.isHot = true := (isHot_eq hm).trans hs
  have hconsumed (done rest : List Event) : s.consumed done rest = { s with run := .empty } := by
    simp [consumed, hhot]
  refine .inl ⟨(perform_source s u).symm ▸ hs, ?_⟩
  obtain ⟨m, n, rfl⟩ | ⟨e, he⟩ := hu
  · simp [Solutions.perform, take, Answer.map, hconsumed, hm]
  · cases u with
    | take m n => cases he
    | ask m => cases he
    | isHot => cases he
    | gather m =>
      have hvalue : s.gather.value = .error e := Reply.rows.inj he
      have hmemo := perform_memo hm (u := .gather m) fun rows h => by rw [he] at h; cases h
      refine ⟨hmemo, ?_⟩
      simp [Solutions.perform, gather, Answer.map, known_hot hm hs, hconsumed]

theorem Exhausted.perform (h : s.Exhausted) (u : Use) :
    (s.perform u).effects = [] ∧ (s.perform u).value = u.reply s.isHot [] ∧
      (s.perform u).next.Exhausted := by
  obtain ⟨hs, hm, hrun⟩ | hm := h
  · have hoffers : s.Offers [] := ⟨hs, hm, by rw [hrun]; rfl, by rw [hrun]; rfl⟩
    have hnone (n : Nat) : Event.demand n [] = ([], []) := by cases n <;> rfl
    refine ⟨?_, hoffers.fresh.reply u, ?_⟩
    · cases u with
      | take m n =>
        cases n <;> simp [Solutions.perform, take, Answer.map, nextRun, hm, hrun, Run.empty,
          hnone, Event.effects, Event.acts]
      | gather m =>
        simp [Solutions.perform, gather, Answer.map, known_hot hm hs, hrun, Run.empty,
          Event.untilError, Event.effects, Event.acts]
      | ask m =>
        rw [hoffers.ask_nil m]
        simp [hrun, Run.empty, hnone, Event.effects, Event.acts]
      | isHot => rfl
    · cases u with
      | take m n => exact exhausted_perform hs hm (.inl ⟨m, n, rfl⟩)
      | gather m =>
        have hvalue : s.gather.value = .ok [] := Reply.rows.inj (hoffers.fresh.reply (.gather m))
        exact .inr (gather_remembers hs hvalue)
      | ask m =>
        rw [hoffers.ask_nil m]
        exact .inl ⟨hs, hm, rfl⟩
      | isHot => exact .inl ⟨hs, hm, hrun⟩
  · have hhot : s.isHot = false := by simp [isHot, hm]
    rw [perform_remembered hm u, hhot]
    exact ⟨rfl, rfl, .inr hm⟩

theorem Exhausted.history (h : s.Exhausted) (us : List Use) :
    (s.history us).effects = [] ∧ (s.history us).next.Exhausted := by
  induction us generalizing s with
  | nil => exact ⟨rfl, h⟩
  | cons u us ih =>
    obtain ⟨heffects, -, hnext⟩ := h.perform u
    obtain ⟨hrest, hlast⟩ := ih hnext
    exact ⟨by simp [Solutions.history, heffects, hrest], hlast⟩

/-- Rows that have been gathered are remembered ever after. -/
theorem history_remembers (hs : s.source.isHot = true) {us : List Use} {rows : List Row}
    (h : Reply.rows (.ok rows) ∈ (s.history us).value) :
    (s.history us).next.memo = some rows := by
  induction us generalizing s with
  | nil => cases h
  | cons u us ih =>
    obtain hu | hus := List.mem_cons.mp h
    · have hmemo : (s.perform u).next.memo = some rows := by
        cases u with
        | take m n => cases hu
        | ask m => cases hu
        | isHot => cases hu
        | gather m => exact gather_remembers hs (Reply.rows.inj hu).symm
      rw [history, history_remembered hmemo]
      exact hmemo
    · exact ih ((perform_source s u).symm ▸ hs) hus

/-- The life of a hot source. Until it is consumed it can be asked any number of times for one item;
a consumption that remembers nothing leaves nothing; rows that were gathered once are delivered ever
after. -/
theorem hot_life (header : List Variable) (source : SourceKind) (is : List Item)
    (hs : source.isHot = true) :
    let s := ofItems header source is
    (∀ us : List Use, (∀ e, is.head? ≠ some (.error e)) → (∀ u ∈ us, u.peeks = true) →
      (Effect.taken (s.history us).effects).length ≤ 1 ∧
      (∀ m, ((s.history us).next.perform (.ask m)).value = .found (.ok !is.isEmpty)) ∧
      ∀ u, ((s.history us).next.perform u).value = u.reply true is) ∧
    (∀ (us : List Use) (u : Use), (∀ rows, .rows (.ok rows) ∉ (s.history us).value) →
      ((∃ m n, u = .take m n) ∨ ∃ e, ((s.history us).next.perform u).value = .rows (.error e)) →
      let after := ((s.history us).next.perform u).next
      ∀ vs : List Use, (after.history vs).effects = [] ∧
        ∀ v ≠ .isHot, ((after.history vs).next.perform v).value = v.reply true []) ∧
    ∀ (us : List Use) (rows : List Row), .rows (.ok rows) ∈ (s.history us).value →
      let after := (s.history us).next
      after.isHot = false ∧
        ∀ vs : List Use, (after.history vs).effects = [] ∧
          (after.history vs).value = vs.map (Use.reply false (rows.map .ok)) := by
  have hoffers := offers_ofItems hs header is
  refine ⟨fun us hfirst hus => ?_, fun us u hus hu => ?_, fun us rows hrows => ?_⟩
  · obtain ⟨hlast, hcost⟩ := hoffers.history_peeks hfirst hus
    have hreply (u : Use) := hlast.fresh.reply u
    simp only [hlast.isHot_eq] at hreply
    refine ⟨Nat.le_trans hcost (peekCost_ofItems header source is), fun m => ?_, hreply⟩
    rw [hreply, Use.reply, Event.found_eq hfirst]
  · have hsource : ((ofItems header source is).history us).next.source.isHot = true :=
      (congrArg SourceKind.isHot (history_source _ us)).trans hs
    have hafter := exhausted_perform hsource (history_memo hoffers.memo_eq hus) hu
    intro after vs
    obtain ⟨heffects, hlast⟩ := hafter.history vs
    refine ⟨heffects, fun v hv => (hlast.perform v).2.1.trans ?_⟩
    cases v with
    | take m n => cases n <;> rfl
    | gather m => rfl
    | ask m => rfl
    | isHot => exact absurd rfl hv
  · have hmemo := history_remembers hoffers.hot hrows
    refine ⟨by simp [isHot, hmemo], fun vs => ?_⟩
    rw [history_remembered hmemo]
    exact ⟨rfl, rfl⟩

/-- A row and then an error: two peeks, a gathering that fails, and a row that was gathered. -/
theorem hot_life_of_failing_stream :
    let s := ofItems [] .stream [.ok .empty, .error (.storage (.other "lost"))]
    let t := ofItems [] .iterator [.ok .empty]
    (Effect.taken (s.history [.ask .pull, .isHot, .ask .push]).effects).length ≤ 1 ∧
      ((s.history [.ask .pull, .isHot, .ask .push]).next.perform (.take .pull none)).value =
        .items [.ok .empty, .error (.storage (.other "lost"))] ∧
      (((s.history [.ask .push]).next.perform (.gather .pull)).next.history
        [.gather .push]).effects = [] ∧
      (t.history [.ask .pull, .gather .push]).next.isHot = false ∧
      ((t.history [.ask .pull, .gather .push]).next.history [.take .push (some 2)]).value =
        [.items [.ok .empty]] := by
  intro s t
  obtain ⟨hpeek, hspent, -⟩ :=
    hot_life [] .stream [.ok .empty, .error (.storage (.other "lost"))] rfl
  obtain ⟨-, -, hrows⟩ := hot_life [] .iterator [.ok .empty] rfl
  obtain ⟨hcost, -, hreply⟩ :=
    hpeek [.ask .pull, .isHot, .ask .push] (by simp) (by decide)
  obtain ⟨heffects, -⟩ := hspent [.ask .push] (.gather .pull)
    (by simp [history, perform, ask, Answer.map])
    (.inr ⟨.storage (.other "lost"), rfl⟩) [.gather .push]
  obtain ⟨hcold, hlater⟩ := hrows [.ask .pull, .gather .push] [.empty]
    (List.mem_cons_of_mem _ List.mem_cons_self)
  exact ⟨hcost, hreply (.take .pull none), heffects, hcold, (hlater [.take .push (some 2)]).2⟩

end Solutions
end TripleAlgebra
