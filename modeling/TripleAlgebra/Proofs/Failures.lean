import TripleAlgebra.Proofs.LifeCycle
import TripleAlgebra.Proofs.SameItems

/-! Effects that fail. A trace of effects heeds failures if the first of them is its last effect and
becomes its result. Events raise failures if each is followed at once by its error, which ends the
consumption; all operators on events keep it that way. -/
namespace TripleAlgebra

namespace TripleStore
variable {store : TripleStore} {α β : Type}

/-- The problem that an effect meets: a lookup is refused, or the item taken is an error. -/
def failure? (store : TripleStore) : Effect → Option Problem
  | .lookup t =>
    match store.lookup t with
    | .ok _ => none
    | .error e => some (.storage e)
  | .take (.ok _) => none
  | .take (.error e) => some e

/-- An effect that fails is the last one, and its problem is the result. -/
def Heeds (store : TripleStore) (result : Except Problem α) (xs : List Effect) : Prop :=
  ∀ before x after e, xs = before ++ x :: after → store.failure? x = some e →
    after = [] ∧ result = .error e

theorem heeds_nil (result : Except Problem α) : store.Heeds result [] := by
  intro before x after e h
  simp at h

theorem heeds_cons {result : Except Problem α} {x : Effect} {xs : List Effect}
    (hx : ∀ e, store.failure? x = some e → xs = [] ∧ result = .error e)
    (h : store.Heeds result xs) : store.Heeds result (x :: xs) := by
  intro before y after e he hy
  cases before with
  | nil =>
    obtain ⟨rfl, rfl⟩ := List.cons_eq_cons.mp he
    exact hx e hy
  | cons z before =>
    obtain ⟨-, rfl⟩ := List.cons_eq_cons.mp he
    exact h before y after e rfl hy

theorem Heeds.head {result : Except Problem α} {x : Effect} {xs : List Effect}
    (h : store.Heeds result (x :: xs)) (e : Problem) (hx : store.failure? x = some e) :
    xs = [] ∧ result = .error e := h [] x xs e rfl hx

theorem Heeds.tail {result : Except Problem α} {x : Effect} {xs : List Effect}
    (h : store.Heeds result (x :: xs)) : store.Heeds result xs :=
  fun before y after e he hy => h (x :: before) y after e (congrArg (x :: ·) he) hy

/-- Another result will do if it is the same in case of a failure. -/
theorem Heeds.mono {result : Except Problem α} {result' : Except Problem β} {xs : List Effect}
    (h : store.Heeds result xs) (hr : ∀ e, result = .error e → result' = .error e) :
    store.Heeds result' xs := by
  intro before x after e he hx
  obtain ⟨hafter, hresult⟩ := h before x after e he hx
  exact ⟨hafter, hr e hresult⟩

/-- A failure among the first effects leaves no others. -/
theorem Heeds.append {result : Except Problem α} {result' : Except Problem β}
    {xs ys : List Effect} (h : store.Heeds result xs) (h' : store.Heeds result' ys)
    (hstop : ∀ e, result = .error e → ys = [] ∧ result' = .error e) :
    store.Heeds result' (xs ++ ys) := by
  induction xs with
  | nil => exact h'
  | cons x xs ih =>
    refine heeds_cons (fun e hx => ?_) (ih h.tail)
    obtain ⟨rfl, hresult⟩ := h.head e hx
    exact hstop e hresult

end TripleStore

namespace Event
variable {store : TripleStore} {es fs : List Event}

/-- The error that comes next, if the next event is one. -/
def next : List Event → Except Problem Unit
  | .item (.error e) :: _ => .error e
  | _ => .ok ()

theorem next_eq_error {e : Problem} (h : next es = .error e) :
    ∃ rest, es = .item (.error e) :: rest := by
  unfold next at h
  split at h
  · cases h
    exact ⟨_, rfl⟩
  · cases h

/-- Up to the first error, what fails in an act is the next item. -/
inductive Raises (store : TripleStore) : List Event → Prop
  | nil : Raises store []
  | row (r : Row) {es : List Event} (h : Raises store es) : Raises store (.item (.ok r) :: es)
  | error (e : Problem) (es : List Event) : Raises store (.item (.error e) :: es)
  | act {a : Act} {es : List Event} (ha : store.Heeds (next es) a.effects)
      (h : Raises store es) : Raises store (.act a :: es)

theorem raises_ofItems (is : List Item) : Raises store (ofItems is) := by
  induction is with
  | nil => exact .nil
  | cons i is ih =>
    cases i with
    | ok r => exact .row r ih
    | error e => exact .error e _

theorem Raises.append (h : Raises store es) (h' : Raises store fs) : Raises store (es ++ fs) := by
  induction h with
  | nil => exact h'
  | row r _ ih => exact .row r ih
  | error e es => exact .error e _
  | act ha _ ih =>
    refine .act (ha.mono fun e he => ?_) ih
    obtain ⟨rest, rfl⟩ := next_eq_error he
    rfl

theorem raises_flatMap {α : Type} {xs : List α} {f : α → List Event}
    (h : ∀ x ∈ xs, Raises store (f x)) : Raises store (xs.flatMap f) := by
  induction xs with
  | nil => exact .nil
  | cons x xs ih =>
    rw [List.flatMap_cons]
    exact (h x List.mem_cons_self).append (ih fun y hy => h y (List.mem_cons_of_mem x hy))

theorem raises_ofRows (rows : List Row) : Raises store (ofRows rows) := by
  induction rows with
  | nil => exact .nil
  | cons r rows ih => exact .row r ih

/-- Effects that heed failures are followed by the error that they result in. -/
theorem raises_ofEffects {α : Type} {result : Except Problem α} {xs : List Effect}
    (h : store.Heeds result xs) (hfs : Raises store fs)
    (hnext : ∀ e, result = .error e → next fs = .error e) :
    Raises store (ofEffects xs ++ fs) := by
  induction xs with
  | nil => exact hfs
  | cons x xs ih =>
    refine .act (TripleStore.heeds_cons (fun e hx => ⟨rfl, ?_⟩) (TripleStore.heeds_nil _))
      (ih h.tail)
    obtain ⟨rfl, hresult⟩ := h.head e hx
    exact hnext e hresult

theorem effects_started (r : Run) :
    effects r.started = r.opening.flatMap Act.effects ++ effects r.events := by
  have hacts : acts (r.opening.map .act) = r.opening := by
    simp [acts, act?, List.filterMap_map, Function.comp_def]
  unfold Run.started effects
  rw [acts, List.filterMap_append, ← acts, hacts, List.flatMap_append]
  rfl

/-- An operator that leaves acts in their places and still raises failures. -/
structure PassesOn (store : TripleStore) (f : List Event → List Event) : Prop where
  act : ∀ a es, f (.act a :: es) = .act a :: f es
  raises : ∀ {es}, Raises store es → Raises store (f es)

/-- Operators that pass on an error as soon as it comes, and go on after a row as one of them. -/
theorem passesOn_family {ι : Type} {f : ι → List Event → List Event}
    (hact : ∀ i a es, f i (.act a :: es) = .act a :: f i es)
    (herror : ∀ i e es, ∃ rest, f i (.item (.error e) :: es) = .item (.error e) :: rest)
    (hnil : ∀ i, Raises store (f i []))
    (hrow : ∀ i r es, (∀ j, Raises store (f j es)) → Raises store (f i (.item (.ok r) :: es)))
    (i : ι) : PassesOn store (f i) := by
  refine ⟨hact i, fun {es} h => ?_⟩
  induction h generalizing i with
  | nil => exact hnil i
  | row r _ ih => exact hrow i r _ ih
  | error e es =>
    obtain ⟨rest, he⟩ := herror i e es
    exact he.symm ▸ .error e rest
  | act ha _ ih =>
    rw [hact]
    refine .act (ha.mono fun e he => ?_) (ih i)
    obtain ⟨rest, rfl⟩ := next_eq_error he
    obtain ⟨rest', he'⟩ := herror i e rest
    rw [he']
    rfl

theorem PassesOn.comp {f g : List Event → List Event} (hf : PassesOn store f)
    (hg : PassesOn store g) : PassesOn store fun es => f (g es) :=
  ⟨fun a es => by rw [hg.act, hf.act], fun h => hf.raises (hg.raises h)⟩

theorem PassesOn.started {f : List Event → List Event} (hf : PassesOn store f) (r : Run) :
    Run.started { r with events := f r.events } = f r.started := by
  obtain ⟨opening, events⟩ := r
  unfold Run.started
  induction opening with
  | nil => rfl
  | cons a as ih => exact (congrArg (Event.act a :: ·) ih).trans (hf.act a _).symm

theorem passesOn_mapRows (f : Row → Row) : PassesOn store (mapRows f) :=
  passesOn_family (f := fun _ : Unit => mapRows f) (fun _ _ _ => rfl) (fun _ _ _ => ⟨_, rfl⟩)
    (fun _ => .nil) (fun _ r _ h => .row (f r) (h ())) ()

theorem passesOn_filterRows (keep : Row → Bool) : PassesOn store (filterRows keep) := by
  refine passesOn_family (f := fun _ : Unit => filterRows keep) (fun _ _ _ => rfl)
    (fun _ _ _ => ⟨_, rfl⟩) (fun _ => .nil) (fun _ r es h => ?_) ()
  cases hk : keep r
  · simpa [filterRows, hk] using h ()
  · simpa [filterRows, hk] using Raises.row r (h ())

theorem passesOn_distinct (s : RowSet) : PassesOn store (distinct s) := by
  refine passesOn_family (f := distinct) (fun _ _ _ => rfl) (fun _ _ _ => ⟨_, rfl⟩)
    (fun _ => .nil) (fun s r es h => ?_) s
  rw [distinct]
  obtain ⟨accepted, s'⟩ := s.insert r
  cases accepted
  · exact h s'
  · exact .row r (h s')

/-- A slice that demands nothing never sees an error. -/
theorem passesOn_slice (start : Nat) {limit : Option Nat} (hl : limit ≠ some 0) :
    PassesOn store (slice start limit) := by
  refine passesOn_family (f := fun i : Nat × { l : Option Nat // l ≠ some 0 } => slice i.1 i.2.1)
    (fun i a es => slice_act i.2.2 i.1 a es) (fun i e es => ?_) (fun _ => .nil) (fun i r es h => ?_)
    (start, ⟨limit, hl⟩)
  · exact ⟨slice i.1 i.2.1 es, by simp [slice, i.2.2]⟩
  · obtain ⟨start, limit, hl⟩ := i
    dsimp only
    cases start with
    | succ start =>
      rw [slice_skip hl]
      exact h (start, ⟨limit, hl⟩)
    | zero =>
      rw [slice_keep hl]
      refine .row r ?_
      by_cases hrest : limit.map (· - 1) = some 0
      · rw [hrest, slice_zero]
        exact .nil
      · exact h (0, ⟨_, hrest⟩)

theorem passesOn_fuse : PassesOn store fuse :=
  passesOn_family (f := fun _ : Unit => fuse) (fun _ _ _ => rfl) (fun _ _ _ => ⟨_, rfl⟩)
    (fun _ => .nil) (fun _ r _ h => .row r (h ())) ()

theorem passesOn_untilError : PassesOn store fun es => (untilError es).1 :=
  passesOn_family (f := fun _ : Unit => fun es => (untilError es).1) (fun _ _ _ => rfl)
    (fun _ _ _ => ⟨_, rfl⟩) (fun _ => .nil) (fun _ r _ h => .row r (h ())) ()

theorem passesOn_expand {f : Row → List Event} (hf : ∀ r, Raises store (f r)) :
    PassesOn store (expand f) :=
  passesOn_family (f := fun _ : Unit => expand f) (fun _ _ _ => rfl) (fun _ _ _ => ⟨_, rfl⟩)
    (fun _ => .nil) (fun _ r _ h => (hf r).append (h ())) ()

@[simp] theorem demand_one_item (i : Item) (es : List Event) :
    (demand 1 (.item i :: es)).1 = [.item i] := by
  cases es <;> rfl

/-- What a single demand makes happen ends with its item. -/
theorem demand_one_eq (es : List Event) :
    (demand 1 es).1 = (acts (demand 1 es).1).map .act ++ ofItems (items (demand 1 es).1) := by
  induction es with
  | nil => rfl
  | cons e es ih =>
    cases e with
    | act a => exact congrArg (Event.act a :: ·) ih
    | item i =>
      rw [demand_one_item]
      rfl

theorem passesOn_demand (n : Nat) : PassesOn store fun es => (demand (n + 1) es).1 := by
  refine passesOn_family (f := fun n es => (demand (n + 1) es).1) (fun _ _ _ => rfl)
    (fun _ _ _ => ⟨_, rfl⟩) (fun _ => .nil) (fun n r es h => ?_) n
  cases n with
  | zero =>
    rw [demand_one_item]
    exact .row r .nil
  | succ n => exact .row r (h n)

theorem Raises.settle (h : Raises store es) : Raises store (settle es) := by
  induction h with
  | nil => exact .nil
  | row r _ ih => exact .row r ih
  | error e es => exact .error e _
  | act ha _ ih =>
    refine raises_ofEffects ha ih fun e he => ?_
    obtain ⟨rest, rfl⟩ := next_eq_error he
    rfl

/-- What a single demand makes happen, with all acts before the item. -/
theorem Raises.first {r : Run} (h : Raises store r.started) :
    Raises store (Run.started
      ⟨r.opening ++ acts (demand 1 r.events).1, ofItems (items (demand 1 r.events).1)⟩) := by
  have hfirst : PassesOn store fun es => (demand 1 es).1 := passesOn_demand 0
  have hdone : Run.started
      ⟨r.opening ++ acts (demand 1 r.events).1, ofItems (items (demand 1 r.events).1)⟩ =
      Run.started { r with events := (demand 1 r.events).1 } := by
    simp only [Run.started, List.map_append, List.append_assoc]
    rw [← demand_one_eq]
  rw [hdone, hfirst.started]
  exact hfirst.raises h

/-- The rows of one side are gathered before the first row of the other. -/
theorem passesOn_gathering {α : Type} {result : Except Problem α} {xs : List Effect}
    (hx : store.Heeds result xs) {f : Row → List Event} (hf : ∀ r, Raises store (f r))
    (hfail : ∀ e, result = .error e → ∀ r, ∃ rest, f r = .item (.error e) :: rest) :
    PassesOn store fun es => expand f (MinusPlan.beforeFirstRow xs es) := by
  -- before the first row and after it
  have hfamily : ∀ waiting : Bool, PassesOn store fun es =>
      expand f (if waiting then MinusPlan.beforeFirstRow xs es else es) := by
    refine passesOn_family (fun waiting _ _ => by cases waiting <;> rfl)
      (fun waiting _ _ => by cases waiting <;> exact ⟨_, rfl⟩)
      (fun waiting => by cases waiting <;> exact .nil) (fun waiting r es h => ?_)
    have hrest : Raises store (f r ++ expand f es) := (hf r).append (h false)
    cases waiting with
    | false => exact hrest
    | true =>
      have hstart : expand f (MinusPlan.beforeFirstRow xs (.item (.ok r) :: es)) =
          .act (.once xs) :: (f r ++ expand f es) := rfl
      rw [if_pos rfl, hstart]
      refine .act (hx.mono fun e he => ?_) hrest
      obtain ⟨rest, hrow⟩ := hfail e he r
      rw [hrow]
      rfl
  exact hfamily true

/-- What is gathered is the first error, if what happens until then has raised one. -/
theorem Raises.heeds_untilError (h : Raises store es) :
    store.Heeds (collect (items (untilError es).1)) (effects (untilError es).1) := by
  induction h with
  | nil => exact TripleStore.heeds_nil _
  | row r _ ih =>
    refine ih.mono fun e he => ?_
    exact congrArg (Except.map (r :: ·)) he
  | error e es => exact TripleStore.heeds_nil _
  | act ha _ ih =>
    refine ha.append ih fun e he => ?_
    obtain ⟨rest, rfl⟩ := next_eq_error he
    exact ⟨rfl, rfl⟩

theorem Raises.heeds_demand (h : Raises store es) :
    store.Heeds (found (items (demand 1 es).1)) (effects (demand 1 es).1) := by
  induction h with
  | nil => exact TripleStore.heeds_nil _
  | row r _ _ =>
    rw [demand_one_item]
    exact TripleStore.heeds_nil _
  | error e es =>
    rw [demand_one_item]
    exact TripleStore.heeds_nil _
  | act ha _ ih =>
    refine ha.append ih fun e he => ?_
    obtain ⟨rest, rfl⟩ := next_eq_error he
    rw [demand_one_item]
    exact ⟨rfl, rfl⟩

end Event

/-- What fails in the step is its result, and what results from it raises failures. -/
structure Attempt.Raises (store : TripleStore) (x : Attempt Solutions) : Prop where
  heeds : store.Heeds x.outcome x.effects
  raises : ∀ s, x.outcome = .ok s → Event.Raises store s.run.started

theorem JoinPlan.raises_nested {store : TripleStore} {limit : Nat} (p : JoinPlan limit)
    {run : (q : Plan) → q.rank < limit → Attempt Solutions} {steps : List (JoinStep limit)}
    (h : ∀ s ∈ steps, ∀ row, (run (s.specialise row) (s.rank_specialise_lt row)).Raises store)
    (row : Row) : Event.Raises store (p.nested run steps row) := by
  induction steps generalizing row with
  | nil => exact .row _ .nil
  | cons s rest ih =>
    have hattempt := h s List.mem_cons_self row
    have hrest := ih fun s' hs => h s' (List.mem_cons_of_mem s hs)
    rw [nested]
    refine Event.raises_ofEffects hattempt.heeds ?_ fun e he => by rw [he]; rfl
    split
    · exact .error _ _
    · rename_i sols ho
      have hloop := (Event.passesOn_expand fun r => hrest
        ((Layout.ofStep s row sols.header).combine row r)).raises (hattempt.raises sols ho).settle
      refine hloop.append ?_
      split_ifs
      · exact .row _ .nil
      · exact .nil

theorem JoinPlan.passesOn_events {store : TripleStore} {limit : Nat} (p : JoinPlan limit)
    {run : (q : Plan) → q.rank < limit → Attempt Solutions}
    (h : ∀ s ∈ p.steps, ∀ row, (run (s.specialise row) (s.rank_specialise_lt row)).Raises store)
    (header : List Variable) : Event.PassesOn store (p.events run header) := by
  have hevents : p.events run header = _ := funext fun es => p.events_eq run header es
  rw [hevents]
  exact Event.passesOn_untilError.comp (Event.passesOn_expand fun r => p.raises_nested h _)

namespace MinusPlan
variable {store : TripleStore} {p : MinusPlan}

theorem firstRow_eq (s : Solutions) :
    firstRow s = (Event.ofEffects (Event.effects (Event.demand 1 s.run.started).1),
      Event.found (Event.items (Event.demand 1 s.run.started).1)) := by
  unfold firstRow
  refine congrArg (Prod.mk _) ?_
  rcases Event.items (Event.demand 1 s.run.started).1 with _ | ⟨_ | _, _⟩ <;> rfl

theorem raises_firstRow {s : Solutions} (h : Event.Raises store s.run.started) {fs : List Event}
    (hfs : Event.Raises store fs)
    (hnext : ∀ e, (firstRow s).2 = .error e → Event.next fs = .error e) :
    Event.Raises store ((firstRow s).1 ++ fs) := by
  rw [firstRow_eq] at hnext ⊢
  exact Event.raises_ofEffects h.heeds_demand hfs hnext

theorem raises_search {es : List Event} (h : Event.Raises store es) (columns : List (Option Nat))
    (leftKey : Row) (overlapRequired : Bool) {fs : List Event} (hfs : Event.Raises store fs)
    (hnext : ∀ e, (search columns leftKey overlapRequired es).2 = .error e →
      Event.next fs = .error e) :
    Event.Raises store ((search columns leftKey overlapRequired es).1 ++ fs) := by
  induction h with
  | nil => exact hfs
  | row r _ ih =>
    rw [search] at hnext ⊢
    split at hnext
    · rename_i hc
      rw [if_pos hc]
      exact hfs
    · rename_i hc
      rw [if_neg hc]
      exact ih hnext
  | error e es => exact hfs
  | act ha _ ih =>
    refine .act (ha.mono fun e he => ?_) (ih hnext)
    obtain ⟨rest, rfl⟩ := Event.next_eq_error he
    exact hnext e rfl

/-- What is left to do with a row begins with the error that its probe ends in. -/
theorem raises_probe (row : Row) {x : Attempt Solutions} (hx : x.Raises store) {fs : List Event}
    (hfs : Event.Raises store fs)
    (hnext : ∀ e, (p.probe row x).2 = .error e → Event.next fs = .error e) :
    Event.Raises store ((p.probe row x).1 ++ fs) := by
  unfold probe at hnext ⊢
  dsimp only at hnext ⊢
  split at hnext
  · rename_i hkept
    rw [if_pos hkept]
    exact hfs
  · rename_i hprobed
    rw [if_neg hprobed]
    cases ho : x.outcome with
    | error e =>
      simp only [ho] at hnext
      refine Event.raises_ofEffects hx.heeds hfs fun e' he' => hnext e' ?_
      rw [ho] at he'
      cases he'
      rfl
    | ok s =>
      have hstarted := hx.raises s ho
      simp only [ho] at hnext ⊢
      rw [List.append_assoc]
      refine Event.raises_ofEffects hx.heeds ?_ fun e he => by rw [ho] at he; cases he
      split at hnext
      · rename_i hnone
        rw [if_pos hnone]
        exact raises_firstRow hstarted hfs hnext
      · rename_i hsome
        rw [if_neg hsome]
        exact raises_search hstarted.settle _ _ _ hfs hnext

theorem passesOn_boundEvents {run : (q : Plan) → q.rank ≤ p.right.rank → Attempt Solutions}
    (h : ∀ (b : Binding) hq, (run (b.apply p.right) hq).Raises store) :
    Event.PassesOn store (p.boundEvents run) := by
  refine Event.passesOn_fuse.comp (Event.passesOn_expand fun r => ?_)
  have hremoved {fs : List Event} (hfs : Event.Raises store fs)
      (hnext : ∀ e, (p.removesBound run r).2 = .error e → Event.next fs = .error e) :
      Event.Raises store ((p.removesBound run r).1 ++ fs) :=
    raises_probe r (h _ (Plan.rank_bind_le ..)) hfs hnext
  generalize p.removesBound run r = x at hremoved ⊢
  rcases x with ⟨done, e | _ | _⟩
  · exact hremoved (.error e []) fun e' he => by cases he; rfl
  · exact hremoved (.row r .nil) fun e he => by cases he
  · exact hremoved .nil fun e he => by cases he

theorem passesOn_setEvents (p : MinusPlan) {right : Solutions}
    (h : store.Heeds right.gather.value right.gather.effects) :
    Event.PassesOn store (p.setEvents right) := by
  refine Event.passesOn_fuse.comp (Event.passesOn_gathering h (fun r => ?_) fun e he r => ?_)
  · split
    · exact .error _ _
    · dsimp only
      split_ifs
      · exact .nil
      · exact .row _ .nil
  · exact ⟨[], by rw [he]⟩

end MinusPlan

theorem Event.raises_probe {store : TripleStore} (wanted : Bool) (row : Row)
    {x : Attempt Solutions} (hx : x.Raises store) : Raises store (probe wanted row x) := by
  unfold probe
  cases ho : x.outcome with
  | error e =>
    refine raises_ofEffects hx.heeds (.error e []) fun e' he' => ?_
    rw [ho] at he'
    cases he'
    rfl
  | ok s =>
    dsimp only
    rw [List.append_assoc]
    refine raises_ofEffects hx.heeds ?_ fun e he => by rw [ho] at he; cases he
    refine MinusPlan.raises_firstRow (hx.raises s ho) ?_ fun e he => by rw [he]; rfl
    split
    · exact .error _ _
    · split_ifs
      · exact .row _ .nil
      · exact .nil

theorem Event.passesOn_correlate {store : TripleStore} {inner : Plan}
    {run : (q : Plan) → q.rank ≤ inner.rank → Attempt Solutions}
    (h : ∀ (b : Binding) hq, (run (b.apply inner) hq).Raises store) (outer : List Variable)
    (wanted : Bool) : PassesOn store (correlate outer inner wanted run) := by
  have hcorrelate : correlate outer inner wanted run = _ :=
    funext fun es => correlate_eq_probe outer wanted es
  rw [hcorrelate]
  exact passesOn_fuse.comp (passesOn_expand fun r => raises_probe wanted r (h _ _))

/-- Gathering ends with the first failure. -/
theorem Solutions.heeds_gather {store : TripleStore} {s : Solutions}
    (h : Event.Raises store s.run.started) : store.Heeds s.gather.value s.gather.effects := by
  cases hk : s.known with
  | some rows =>
    have heffects : s.gather.effects = [] := by simp only [gather, hk]
    exact heffects ▸ TripleStore.heeds_nil _
  | none =>
    have hgather := h.heeds_untilError
    have hpasses : Event.PassesOn store fun es => (Event.untilError es).1 :=
      Event.passesOn_untilError
    rw [← hpasses.started, Event.items_started, Event.effects_started] at hgather
    simpa only [gather, hk] using hgather

end TripleAlgebra
