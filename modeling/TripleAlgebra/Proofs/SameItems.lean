import TripleAlgebra.Proofs.Calls

/-! Operators make the same items of operands with the same items, whatever else happens between
them. -/
namespace TripleAlgebra

namespace Event
variable {es fs : List Event}

theorem items_untilError_congr (h : items es = items fs) :
    items (untilError es).1 = items (untilError fs).1 := by
  rw [items_untilError, h, ← items_untilError]

theorem items_fuse_congr (h : items es = items fs) : items (fuse es) = items (fuse fs) := by
  rw [items_fuse, items_fuse, items_untilError_congr h]

theorem items_distinct_congr (h : items es = items fs) (s : RowSet) :
    items (distinct s es) = items (distinct s fs) := by
  rw [items_distinct, h, ← items_distinct]

theorem items_slice_congr (h : items es = items fs) (start : Nat) (limit : Option Nat) :
    items (slice start limit es) = items (slice start limit fs) := by
  rw [items_slice, h, ← items_slice]

theorem items_expand_congr {f g : Row → List Event} (h : items es = items fs)
    (hfg : ∀ r, items (f r) = items (g r)) : items (expand f es) = items (expand g fs) := by
  have hitem : expandItem f = expandItem g := by
    funext i
    cases i with
    | error e => rfl
    | ok r => exact hfg r
  rw [items_expand, items_expand, h, hitem]

end Event

/-- Both steps succeed with related results, or both fail with the same problem. -/
def Attempt.Agree {α β : Type} (R : α → β → Prop) (x : Attempt α) (y : Attempt β) : Prop :=
  (∃ a b, x.outcome = .ok a ∧ y.outcome = .ok b ∧ R a b) ∨
    ∃ e, x.outcome = .error e ∧ y.outcome = .error e

/-- Solutions under one header that deliver the same items. -/
structure Solutions.Same (s t : Solutions) : Prop where
  header_eq : s.header = t.header
  items_eq : Event.items s.run.events = Event.items t.run.events

namespace Attempt
variable {α β α' β' : Type} {R : α → β → Prop} {S : α' → β' → Prop}

theorem Agree.bind {x : Attempt α} {y : Attempt β} {f : α → Attempt α'} {g : β → Attempt β'}
    (h : x.Agree R y)
    (hfg : ∀ a b, x.outcome = .ok a → y.outcome = .ok b → R a b → (f a).Agree S (g b)) :
    (x >>= f).Agree S (y >>= g) := by
  rcases h with ⟨a, b, ha, hb, hab⟩ | ⟨e, hx, hy⟩
  · have h := hfg a b ha hb hab
    unfold Agree at h ⊢
    rwa [outcome_bind ha, outcome_bind hb]
  · exact .inr ⟨e, outcome_bind_error hx, outcome_bind_error hy⟩

theorem agree_refl (x : Attempt α) : x.Agree (· = ·) x := by
  unfold Agree
  cases x.outcome with
  | error e => exact .inr ⟨e, rfl, rfl⟩
  | ok a => exact .inl ⟨a, a, rfl, rfl, rfl⟩

theorem agree_pure {a : α} {b : β} (h : R a b) :
    (Pure.pure a : Attempt α).Agree R (Pure.pure b : Attempt β) := .inl ⟨a, b, rfl, rfl, h⟩

end Attempt

/-- Selecting all columns in their order keeps a row that has no others. -/
theorem Row.project_identity {columns : List (Option Nat)} {r : Row}
    (h : Variable.isIdentity columns r.length) : r.project columns = r := by
  have hc : columns = (List.range r.length).map some := by simpa [Variable.isIdentity] using h
  rw [hc, Row.project, List.map_map]
  apply List.ext_getElem
  · simp
  · intro i hi hi'
    simp [Row.value, hi']

namespace Solutions
variable {s t : Solutions} {m m' : Mode} {header : List Variable}

/-- Delivery in either mode keeps the items. -/
theorem agree_deliver {hot hot' : Bool} {r r' : Run}
    (h : Event.items r.events = Event.items r'.events) :
    (deliver m header hot r).Agree Same (deliver m' header hot' r') := by
  obtain ⟨s, hs, hr, he⟩ := exists_deliver m header hot r
  obtain ⟨t, ht, hr', he'⟩ := exists_deliver m' header hot' r'
  exact .inl ⟨s, t, hs, ht, hr.header_eq.trans hr'.header_eq.symm, by rw [he, he', h]⟩

theorem Same.agree_filter (h : s.Same t) (conditions : List Expression) :
    (s.filter m header conditions).Agree Same (t.filter m' header conditions) := by
  refine agree_deliver ?_
  rw [Event.items_filterRows, Event.items_filterRows, h.header_eq, h.items_eq]

theorem Same.agree_assign (h : s.Same t) (v : Variable) (e : Expression) :
    (s.assign m header v e).Agree Same (t.assign m' header v e) := by
  refine agree_deliver ?_
  rw [Event.items_mapRows, Event.items_mapRows, h.header_eq, h.items_eq]

theorem Same.agree_distinct (h : s.Same t) (rule : DuplicateRule) :
    (s.distinct m header rule).Agree Same (t.distinct m' header rule) :=
  agree_deliver (Event.items_distinct_congr h.items_eq _)

theorem Same.agree_slice (h : s.Same t) (start : Nat) (limit : Option Nat) :
    (s.slice m header start limit).Agree Same (t.slice m' header start limit) :=
  agree_deliver (Event.items_fuse_congr (Event.items_slice_congr h.items_eq _ _))

theorem Same.items_aligned (h : s.Same t) (header : List Variable) :
    Event.items (s.aligned header) = Event.items (t.aligned header) := by
  unfold aligned
  rw [h.header_eq]
  dsimp only
  split
  · exact h.items_eq
  · rw [Event.items_mapRows, Event.items_mapRows, h.items_eq]

theorem agree_union {ss ts : List Solutions} (h : List.Forall₂ Same ss ts) :
    (union m header ss).Agree Same (union m' header ts) := by
  refine agree_deliver ?_
  dsimp only
  induction h with
  | nil => rfl
  | cons h _ ih =>
    rw [List.flatMap_cons, List.flatMap_cons, Event.items_append, Event.items_append, ih,
      h.items_aligned]

/-- The answer of a test, whenever it is made. -/
theorem exists_test (s : Solutions) (m : Mode) (header : List Variable) :
    ∃ u, (s.test m header).outcome = .ok u ∧ u.header = header ∧ Event.items u.run.events =
      ((Event.items s.run.events).take 1).map (Except.map fun _ => .empty) := by
  have hanswer : Event.items (Event.mapRows (fun _ => Row.empty)
      (Event.ofItems (Event.items (Event.demand 1 s.run.events).1))) =
      ((Event.items s.run.events).take 1).map (Except.map fun _ => .empty) := by
    rw [Event.items_mapRows, Event.items_ofItems, Event.items_demand]
  unfold test
  cases m with
  | pull =>
    obtain ⟨u, hu, hr, he⟩ := exists_deliver .pull header s.isHot _
    exact ⟨u, hu, hr.header_eq, (congrArg Event.items he).trans hanswer⟩
  | push =>
    obtain ⟨u, hu, hr, he⟩ := exists_deliver .push header s.isHot _
    refine ⟨u, hu, hr.header_eq, (congrArg Event.items he).trans ?_⟩
    rw [Event.items_append, Event.items_acts]
    exact hanswer

theorem Same.agree_test (h : s.Same t) : (s.test m header).Agree Same (t.test m' header) := by
  obtain ⟨u, hu, hheader, hitems⟩ := exists_test s m header
  obtain ⟨u', hu', hheader', hitems'⟩ := exists_test t m' header
  refine .inl ⟨u, u', hu, hu', hheader.trans hheader'.symm, ?_⟩
  rw [hitems, hitems', h.items_eq]

/-- Whether or not columns that are in place are selected again makes no difference for rows without
other columns. -/
theorem exists_project (hw : Event.HasWidth s.header.length s.run.events) (m : Mode)
    (header : List Variable) : ∃ u, (s.project m header).outcome = .ok u ∧ u.header = header ∧
      Event.items u.run.events = (Event.items s.run.events).map
        (Except.map (·.project (Variable.columns s.header header))) := by
  unfold project
  dsimp only
  split
  · rename_i hid
    refine ⟨s, rfl, (Variable.eq_of_isIdentity hid.2).symm, ?_⟩
    have hid : ∀ i ∈ Event.items s.run.events,
        Except.map (·.project (Variable.columns s.header header)) i = id i := by
      rintro (e | r) hr
      · rfl
      · exact congrArg Except.ok (Row.project_identity (hw r hr ▸ hid.2))
    rw [List.map_congr_left hid, List.map_id]
  · obtain ⟨u, hu, hr, he⟩ := exists_deliver m header s.isHot { s.run with
      events := Event.mapRows (·.project (Variable.columns s.header header)) s.run.events }
    exact ⟨u, hu, hr.header_eq, (congrArg Event.items he).trans (Event.items_mapRows _ _)⟩

theorem Same.agree_project (h : s.Same t) (hs : Event.HasWidth s.header.length s.run.events)
    (ht : Event.HasWidth t.header.length t.run.events) :
    (s.project m header).Agree Same (t.project m' header) := by
  obtain ⟨u, hu, hheader, hitems⟩ := exists_project hs m header
  obtain ⟨u', hu', hheader', hitems'⟩ := exists_project ht m' header
  refine .inl ⟨u, u', hu, hu', hheader.trans hheader'.symm, ?_⟩
  rw [hitems, hitems', h.header_eq, h.items_eq]

end Solutions

namespace MinusPlan
variable {p : MinusPlan} {s t : Solutions} {x y : Attempt Solutions} {es fs : List Event}

theorem search_eq_ofItems (keyColumns : List (Option Nat)) (leftKey : Row)
    (overlapRequired : Bool) (es : List Event) :
    (search keyColumns leftKey overlapRequired es).2 =
      (search keyColumns leftKey overlapRequired (Event.ofItems (Event.items es))).2 := by
  induction es with
  | nil => rfl
  | cons e es ih =>
    rcases e with a | e | r
    · exact ih
    · rfl
    · rw [Event.items_item, Event.ofItems_cons, search, search]
      split
      · rfl
      · exact ih

theorem firstRow_congr (h : s.Same t) : (firstRow s).2 = (firstRow t).2 := by
  unfold firstRow
  simp only [Event.items_demand, Event.items_started, h.items_eq]

/-- Whether a row is removed depends on the items of the right side only. -/
theorem probe_congr (h : x.Agree Solutions.Same y) (row : Row) :
    (p.probe row x).2 = (p.probe row y).2 := by
  rcases h with ⟨s, t, hs, ht, h⟩ | ⟨e, hx, hy⟩
  · have hsearch (columns : List (Option Nat)) (key : Row) (b : Bool) :
        (search columns key b (Event.settle s.run.started)).2 =
          (search columns key b (Event.settle t.run.started)).2 := by
      rw [search_eq_ofItems, search_eq_ofItems _ _ _ (Event.settle t.run.started),
        Event.items_settle, Event.items_settle, Event.items_started, Event.items_started,
        h.items_eq]
    unfold probe
    simp only [hs, ht, h.header_eq]
    split
    · rfl
    · split
      · exact firstRow_congr h
      · exact hsearch _ _ _
  · unfold probe
    simp only [hx, hy]
    split <;> rfl

theorem items_boundEvents_congr {run run' : (q : Plan) → q.rank ≤ p.right.rank → Attempt Solutions}
    (h : ∀ (b : Binding) hq, (run (b.apply p.right) hq).Agree Solutions.Same
      (run' (b.apply p.right) hq)) (hes : Event.items es = Event.items fs) :
    Event.items (p.boundEvents run es) = Event.items (p.boundEvents run' fs) := by
  refine Event.items_fuse_congr (Event.items_expand_congr hes fun row => ?_)
  have hrow : (p.removesBound run row).2 = (p.removesBound run' row).2 := by
    rw [removesBound_eq_probe, removesBound_eq_probe]
    exact probe_congr (h _ _) row
  dsimp only
  rw [Event.items_append, Event.items_append, items_removesBound, items_removesBound, hrow]

theorem items_setEvents_congr {header : List Variable} (hs : s.Regular header)
    (ht : t.Regular header) (h : s.Same t) (hes : Event.items es = Event.items fs) :
    Event.items (p.setEvents s es) = Event.items (p.setEvents t fs) := by
  have hgather : s.gather.value = t.gather.value := by
    rw [hs.gather_eq, ht.gather_eq, h.items_eq]
  refine Event.items_fuse_congr (Event.items_expand_congr ?_ fun row => ?_)
  · rw [Event.items_beforeFirstRow, Event.items_beforeFirstRow, hes]
  · rw [hgather]

end MinusPlan

namespace Event
variable {es fs : List Event}

theorem items_probe_congr {x y : Attempt Solutions} (h : x.Agree Solutions.Same y) (wanted : Bool)
    (row : Row) : items (probe wanted row x) = items (probe wanted row y) := by
  have hdone (s : Solutions) : items (MinusPlan.firstRow s).1 = [] := items_ofEffects _
  rcases h with ⟨s, t, hs, ht, h⟩ | ⟨e, hx, hy⟩
  · simp only [probe, hs, ht, items_append, items_ofEffects, hdone, MinusPlan.firstRow_congr h]
  · simp only [probe, hx, hy, items_append, items_ofEffects]

theorem items_correlate_congr {inner : Plan}
    {run run' : (q : Plan) → q.rank ≤ inner.rank → Attempt Solutions}
    (h : ∀ (b : Binding) hq, (run (b.apply inner) hq).Agree Solutions.Same
      (run' (b.apply inner) hq)) (hes : items es = items fs) (outer : List Variable)
    (wanted : Bool) :
    items (correlate outer inner wanted run es) = items (correlate outer inner wanted run' fs) := by
  rw [correlate_eq_probe, correlate_eq_probe]
  exact items_fuse_congr (items_expand_congr hes fun row => items_probe_congr (h _ _) wanted row)

end Event

namespace JoinPlan
variable {limit : Nat} (p : JoinPlan limit)
  {run run' : (q : Plan) → q.rank < limit → Attempt Solutions}

/-- The nested loops over operands with the same items have the same items. -/
theorem items_nested_congr {steps : List (JoinStep limit)}
    (h : ∀ s ∈ steps, ∀ row, (run (s.specialise row) (s.rank_specialise_lt row)).Agree
      Solutions.Same (run' (s.specialise row) (s.rank_specialise_lt row))) (row : Row) :
    Event.items (p.nested run steps row) = Event.items (p.nested run' steps row) := by
  induction steps generalizing row with
  | nil => rfl
  | cons s rest ih =>
    have hrest := ih fun s' hs => h s' (List.mem_cons_of_mem _ hs)
    rw [nested, nested, Event.items_append, Event.items_append, Event.items_ofEffects,
      Event.items_ofEffects]
    rcases h s List.mem_cons_self row with ⟨a, b, ha, hb, hab⟩ | ⟨e, ha, hb⟩
    · have hevents : Event.items (Event.settle a.run.started) =
          Event.items (Event.settle b.run.started) := by
        rw [Event.items_settle, Event.items_settle, Event.items_started, Event.items_started,
          hab.items_eq]
      have hrow : Event.hasRow (Event.settle a.run.started) =
          Event.hasRow (Event.settle b.run.started) := by
        rw [Event.hasRow_eq, hevents, ← Event.hasRow_eq]
      simp only [ha, hb, hab.header_eq, hrow]
      rw [Event.items_append, Event.items_append,
        Event.items_expand_congr hevents fun r => hrest _]
    · simp only [ha, hb]

theorem items_events_congr
    (h : ∀ s ∈ p.steps, ∀ row, (run (s.specialise row) (s.rank_specialise_lt row)).Agree
      Solutions.Same (run' (s.specialise row) (s.rank_specialise_lt row)))
    {es fs : List Event} (hes : Event.items es = Event.items fs) (header : List Variable) :
    Event.items (p.events run header es) = Event.items (p.events run' header fs) := by
  rw [events_eq, events_eq]
  exact Event.items_untilError_congr
    (Event.items_expand_congr hes fun r => p.items_nested_congr h _)

end JoinPlan
end TripleAlgebra
