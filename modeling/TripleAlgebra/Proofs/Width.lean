import TripleAlgebra.Proofs.Items
import TripleAlgebra.Proofs.Rows

/-! The width of rows. They have a column for each variable of their plan, also where the store
fails in between. -/
namespace TripleAlgebra

namespace Event
variable {es : List Event} {n : Nat}

/-- Every row has so many columns. -/
def HasWidth (n : Nat) (es : List Event) : Prop := ∀ r, .ok r ∈ items es → r.length = n

theorem HasWidth.of_sublist (h : HasWidth n es) {fs : List Event} (hs : fs.Sublist es) :
    HasWidth n fs := fun r hr => h r (mem_items_of_sublist hs hr)

theorem HasWidth.filterRows (h : HasWidth n es) (keep : Row → Bool) :
    HasWidth n (filterRows keep es) := h.of_sublist List.filter_sublist

theorem HasWidth.fuse (h : HasWidth n es) : HasWidth n (fuse es) := by
  intro r hr
  rw [items_fuse] at hr
  exact h.of_sublist (untilError_sublist es) r hr

theorem hasWidth_mapRows {f : Row → Row} (h : ∀ r, .ok r ∈ items es → (f r).length = n) :
    HasWidth n (mapRows f es) := by
  intro r hr
  rw [items_mapRows] at hr
  obtain ⟨i, hi, he⟩ := List.mem_map.mp hr
  cases i with
  | error e => cases he
  | ok r' =>
    cases he
    exact h r' hi

/-- Rows that are kept have the width that they had. -/
theorem HasWidth.expand (h : HasWidth n es) {f : Row → List Event}
    (hf : ∀ r r', .ok r' ∈ items (f r) → r' = r) : HasWidth n (expand f es) := by
  intro r hr
  obtain ⟨r', hr', hm⟩ := mem_items_expand hr
  exact hf r' r hm ▸ h r' hr'

theorem HasWidth.correlate (h : HasWidth n es) (outer : List Variable) (inner : Plan)
    (wanted : Bool) (run : (q : Plan) → q.rank ≤ inner.rank → Attempt Solutions) :
    HasWidth n (correlate outer inner wanted run es) := by
  refine (h.expand fun r r' hr => ?_).fuse
  dsimp only at hr
  split at hr
  · simp at hr
  · rename_i s _
    have hdone : items (MinusPlan.firstRow s).1 = [] := items_ofEffects _
    rw [items_append, items_append, items_ofEffects, hdone] at hr
    split at hr
    · simp at hr
    · split at hr
      · simpa using hr
      · simp at hr

end Event

namespace MinusPlan
variable {p : MinusPlan} {es : List Event} {n : Nat}

theorem items_search (keyColumns : List (Option Nat)) (leftKey : Row) (overlapRequired : Bool)
    (es : List Event) : Event.items (search keyColumns leftKey overlapRequired es).1 = [] := by
  fun_induction search keyColumns leftKey overlapRequired es <;> simp_all

theorem items_removesBound (run : (q : Plan) → q.rank ≤ p.right.rank → Attempt Solutions)
    (row : Row) : Event.items (p.removesBound run row).1 = [] := by
  unfold removesBound
  dsimp only
  split
  · rfl
  · split
    · exact Event.items_ofEffects _
    · rw [Event.items_append, Event.items_ofEffects]
      split
      · exact Event.items_ofEffects _
      · exact items_search ..

theorem hasWidth_boundEvents (h : Event.HasWidth n es)
    (run : (q : Plan) → q.rank ≤ p.right.rank → Attempt Solutions) :
    Event.HasWidth n (p.boundEvents run es) := by
  refine (h.expand fun r r' hr => ?_).fuse
  dsimp only at hr
  rw [Event.items_append, items_removesBound] at hr
  split at hr
  · simp at hr
  · simp at hr
  · simpa using hr

theorem hasWidth_setEvents (h : Event.HasWidth n es) (right : Solutions) :
    Event.HasWidth n (p.setEvents right es) := by
  have hbefore : Event.HasWidth n (beforeFirstRow right.gather.effects es) := by
    intro r hr
    rw [Event.items_beforeFirstRow] at hr
    exact h r hr
  refine (hbefore.expand fun r r' hr => ?_).fuse
  dsimp only at hr
  split at hr
  · simp at hr
  · split at hr
    · simp at hr
    · simpa using hr

end MinusPlan

namespace JoinPlan
variable {limit : Nat} {p : JoinPlan limit}

/-- The nested loops append the fresh columns of each step. -/
theorem mem_items_nested (run : (q : Plan) → q.rank < limit → Attempt Solutions)
    {steps : List (JoinStep limit)} {row r : Row}
    (h : .ok r ∈ Event.items (p.nested run steps row)) :
    ∃ r', r = p.finish r' ∧ r'.length = row.length + (steps.flatMap (·.fresh)).length := by
  induction steps generalizing row with
  | nil => exact ⟨row, by simpa [nested] using h, by simp⟩
  | cons s rest ih =>
    rw [nested, Event.items_append, Event.items_ofEffects, List.nil_append] at h
    split at h
    · simp at h
    · rename_i sols _
      rw [Event.items_append] at h
      rcases List.mem_append.mp h with h | h
      · obtain ⟨found, _, hr⟩ := Event.mem_items_expand h
        obtain ⟨r', rfl, hlen⟩ := ih hr
        refine ⟨r', rfl, ?_⟩
        rw [hlen, JoinStep.length_combine_ofStep, List.flatMap_cons, List.length_append]
        omega
      · split at h
        · rename_i hlast
          have hrest : rest = [] := by
            simp only [Bool.and_eq_true, List.isEmpty_iff] at hlast
            exact hlast.1.2
          exact ⟨_, by simpa using h, by simp [hrest]⟩
        · cases h

theorem mem_items_events (run : (q : Plan) → q.rank < limit → Attempt Solutions)
    {header : List Variable} {es : List Event} {r : Row}
    (h : .ok r ∈ Event.items (p.events run header es)) :
    ∃ r', r = p.finish r' ∧ r'.length = (p.header ++ p.steps.flatMap (·.fresh)).length := by
  rw [events_eq] at h
  obtain ⟨r₀, _, hr⟩ :=
    Event.mem_items_expand (Event.mem_items_of_sublist (Event.untilError_sublist _) h)
  obtain ⟨r', rfl, hlen⟩ := mem_items_nested run hr
  refine ⟨r', rfl, ?_⟩
  rw [hlen, List.length_append]
  simp [Layout.ofHead, Variable.columns]

end JoinPlan

/-- Assigning a variable replaces its column or appends one. -/
theorem Row.length_withValue {vs : List Variable} {r : Row} (h : r.length = vs.length)
    (v : Variable) (x : Option Term) :
    (r.withValue ((Variable.column? vs v).getD vs.length) x).length =
      (Variable.append vs [v]).length := by
  rw [Variable.append_eq_filter (by simp)]
  unfold withValue
  cases hv : Variable.column? vs v with
  | none => simp [h, hv]
  | some i =>
    have hlt := Variable.column?_lt hv
    simp [h, hv, hlt]

/-- What the step results in, if it succeeds, has rows of so many columns. -/
def Attempt.HasWidth (x : Attempt Solutions) (n : Nat) : Prop :=
  ∀ s, x.outcome = .ok s → Event.HasWidth n s.run.events

namespace Attempt
variable {α : Type} {n : Nat}

theorem hasWidth_bind {x : Attempt α} {f : α → Attempt Solutions}
    (h : ∀ a, x.outcome = .ok a → (f a).HasWidth n) : (x >>= f).HasWidth n := by
  intro s hs
  obtain ⟨a, ha, hs⟩ := outcome_bind_iff.mp hs
  exact h a ha s hs

theorem hasWidth_pure {s : Solutions} (h : Event.HasWidth n s.run.events) :
    (Pure.pure s : Attempt Solutions).HasWidth n := by
  rintro _ ⟨⟩
  exact h

end Attempt

namespace Solutions
variable {s : Solutions} {m : Mode} {header : List Variable} {n : Nat}

theorem hasWidth_deliver (m : Mode) (header : List Variable) (hot : Bool) {r : Run}
    (h : Event.HasWidth n r.events) : (deliver m header hot r).HasWidth n := by
  intro s hs
  obtain ⟨s', hs', -, he⟩ := exists_deliver m header hot r
  cases hs.symm.trans hs'
  exact he ▸ h

theorem hasWidth_aligned (h : Event.HasWidth s.header.length s.run.events) :
    Event.HasWidth header.length (s.aligned header) := by
  unfold aligned
  dsimp only
  split
  · rename_i hid
    rwa [Variable.eq_of_isIdentity hid]
  · exact Event.hasWidth_mapRows fun _ _ => by simp [Variable.columns]

/-- Alternatives are brought to the width of their common header. -/
theorem hasWidth_union {ss : List Solutions}
    (h : ∀ s ∈ ss, Event.HasWidth s.header.length s.run.events) :
    (union m header ss).HasWidth header.length := by
  refine hasWidth_deliver _ _ _ fun r hr => ?_
  obtain ⟨s, hs, hr⟩ := List.mem_flatMap.mp (Event.mem_items.mp hr)
  exact hasWidth_aligned (h s hs) r (Event.mem_items.mpr hr)

theorem hasWidth_project (h : Event.HasWidth s.header.length s.run.events) :
    (s.project m header).HasWidth header.length := by
  unfold project
  dsimp only
  split
  · rename_i hid
    rw [Variable.eq_of_isIdentity hid.2]
    exact Attempt.hasWidth_pure h
  · exact hasWidth_deliver _ _ _ (Event.hasWidth_mapRows fun _ _ => by simp [Variable.columns])

theorem hasWidth_assign (h : Event.HasWidth s.header.length s.run.events) (v : Variable)
    (e : Expression) :
    (s.assign m header v e).HasWidth (Variable.append s.header [v]).length :=
  hasWidth_deliver _ _ _ (Event.hasWidth_mapRows fun r hr => Row.length_withValue (h r hr) v _)

/-- The answer of a test is the row without columns. -/
theorem hasWidth_test : (s.test m header).HasWidth 0 := by
  have hrows (is : List Item) :
      Event.HasWidth 0 (Event.mapRows (fun _ => .empty) (is.map .item)) :=
    Event.hasWidth_mapRows fun _ _ => rfl
  unfold test
  cases m with
  | pull => exact hasWidth_deliver _ _ _ (hrows _)
  | push =>
    refine hasWidth_deliver _ _ _ fun r hr => ?_
    rw [Event.items_append, Event.items_acts] at hr
    exact hrows _ r hr

theorem Yields.regular {rows : List Row} (h : s.Yields header rows) : s.Regular header := by
  refine ⟨h.header_eq, h.memo_eq, fun _ e he => ?_⟩
  have hitem := Event.mem_items.mpr he
  rw [Event.deliver_iff.mp h.deliver] at hitem
  simp at hitem

end Solutions

/-- The answers of the store are regular, and their rows have a column for each variable of the
pattern. -/
structure Context.Aligned (c : Context) : Prop extends c.Regular where
  width : ∀ t s, c.store.lookup t = .ok s → Event.HasWidth t.vars.length s.run.events

theorem Context.Reliable.aligned {c : Context} {stored : Pattern → List Row}
    (hc : c.Reliable stored) (hs : ∀ t, ∀ r ∈ stored t, r.length = t.vars.length) :
    c.Aligned where
  registry_eq := hc.registry_eq
  lookup t s h := by
    obtain ⟨s', hs', hy⟩ := hc.lookup t
    cases hs'.symm.trans h
    exact hy.regular
  width t s h r hr := by
    obtain ⟨s', hs', hy⟩ := hc.lookup t
    cases hs'.symm.trans h
    rw [Event.deliver_iff.mp hy.deliver] at hr
    exact hs t r (by simpa using hr)

namespace Plan
variable {c : Context} {stored : Pattern → List Row} {p : Plan}

theorem hasWidth_runJoin {m : Mode} {header : List Variable} {run : Dispatcher p}
    {head : { q : Plan // q.rank < p.rank }} {plan : JoinPlan p.rank} {n : Nat}
    (h : ∀ r : Row, r.length = (plan.header ++ plan.steps.flatMap (·.fresh)).length →
      (plan.finish r).length = n) :
    (runJoin m header run head plan).HasWidth n := by
  refine Attempt.hasWidth_bind fun s _ => Solutions.hasWidth_deliver _ _ _ fun r hr => ?_
  obtain ⟨r', rfl, hlen⟩ := JoinPlan.mem_items_events _ hr
  exact h r' hlen

theorem hasWidth_join (m : Mode) (ps : List Plan) (run : Dispatcher (join ps)) :
    (evaluateJoin c m (.join ps) run).HasWidth (join ps).vars.length := by
  have harr := arrangementOf_arranged c ps
  rw [← map_operandsOf] at harr
  rw [evaluateJoin_eq]
  generalize operandsOf c ps = operands at *
  cases operands with
  | nil => exact hasWidth_runJoin fun r hr => length_finish [] harr hr
  | cons head rest =>
    refine hasWidth_runJoin fun r hr => length_finish _ harr (hr.trans (congrArg List.length ?_))
    rw [union_vars_cons]
    exact JoinStep.fresh_ofOperands head.1.nodup_vars rest

theorem hasWidth_values (m : Mode) {vs : List Variable} (hn : vs.Nodup) (table : List Row)
    (run : Dispatcher (values p vs table)) :
    (evaluateValues m (.values p vs table) run).HasWidth (values p vs table).vars.length := by
  rw [evaluateValues_eq]
  refine Solutions.hasWidth_deliver _ _ _ fun r hr => ?_
  obtain ⟨r', rfl, hlen⟩ := JoinPlan.mem_items_events _ hr
  refine hlen.trans (congrArg List.length ?_)
  show vs ++ (JoinStep.ofOperands vs (tableOperands p vs table)).flatMap _ = _
  rw [JoinStep.fresh_ofOperands hn, vars_values hn]

theorem hasWidth_triple (hc : c.Aligned) (m : Mode) (t : Pattern) :
    (evaluateTriple c m t).HasWidth t.vars.length := by
  refine Attempt.hasWidth_bind fun s hs => ?_
  have hs := hc.width t s (Attempt.mapError_eq_ok_iff.mp hs)
  cases m with
  | pull => exact Attempt.hasWidth_pure hs
  | push => exact Solutions.hasWidth_deliver _ _ _ hs

theorem mem_evaluateAlternatives {run : Dispatcher p} {ps : List Plan}
    {h : ∀ q ∈ ps, q.rank < p.rank} {ss : List Solutions} {s : Solutions}
    (hss : (evaluateAlternatives run ps h).outcome = .ok ss) (hs : s ∈ ss) :
    ∃ q hq, q ∈ ps ∧ (run q hq).outcome = .ok s := by
  induction ps generalizing ss with
  | nil =>
    cases hss
    cases hs
  | cons q qs ih =>
    rw [evaluateAlternatives] at hss
    obtain ⟨s', hs', hss⟩ := Attempt.outcome_bind_iff.mp hss
    obtain ⟨ss', hss', hss⟩ := Attempt.outcome_bind_iff.mp hss
    cases hss
    rcases List.mem_cons.mp hs with rfl | hs
    · exact ⟨q, _, by simp, hs'⟩
    · obtain ⟨r, hr, hm, ho⟩ := ih hss' hs
      exact ⟨r, hr, by simp [hm], ho⟩

/-- Every evaluator results in rows of the width of its node if those below it do. -/
theorem hasWidth_evaluate (hc : c.Aligned) (hp : Tidy p) (m : Mode) {run : Dispatcher p}
    (hregular : ∀ q hq, (run q hq).Regular q.vars)
    (h : ∀ q hq, q ∈ p.children → (run q hq).HasWidth q.vars.length) :
    (evaluate c (.builtin p.kind.family m) p run).HasWidth p.vars.length := by
  have hown (q : Plan) (hq) (hm : q ∈ p.children) (s : Solutions)
      (hs : (run q hq).outcome = .ok s) : Event.HasWidth s.header.length s.run.events := by
    rw [(hregular q hq s hs).header_eq]
    exact h q hq hm s hs
  cases p with
  | triple t => exact hasWidth_triple hc m t
  | identity =>
    have hempty : Event.HasWidth 0 (Event.ofRows [.empty]) := by
      intro r hr
      have hr : r = .empty := by simpa using hr
      rw [hr]
      rfl
    cases m with
    | pull => exact Attempt.hasWidth_pure hempty
    | push => exact Solutions.hasWidth_deliver _ _ _ hempty
  | join ps => exact hasWidth_join m ps run
  | values q vs table => exact hasWidth_values m hp.nodup table run
  | leftJoin l r condition =>
    refine hasWidth_runJoin (p := leftJoin l r condition) fun row hrow =>
      hrow.trans (congrArg List.length ?_)
    show l.vars ++ [_].flatMap _ = (leftJoin l r condition).vars
    rw [List.flatMap_singleton, vars_leftJoin_fresh (rank_lt_leftJoin l r condition) condition]
  | union ps =>
    refine Attempt.hasWidth_bind fun ss hss => Solutions.hasWidth_union fun s hs => ?_
    obtain ⟨q, hq, hm, ho⟩ := mem_evaluateAlternatives hss hs
    exact hown q hq hm s ho
  | project q vs =>
    exact Attempt.hasWidth_bind fun s hs =>
      Solutions.hasWidth_project (hown q _ (by simp [children]) s hs)
  | assign q v e =>
    refine Attempt.hasWidth_bind fun s hs => ?_
    rw [vars_assign, ← (hregular q _ s hs).header_eq]
    exact Solutions.hasWidth_assign (hown q _ (by simp [children]) s hs) v e
  | filter q cs =>
    exact Attempt.hasWidth_bind fun s hs => Solutions.hasWidth_deliver _ _ _
      ((h q _ (by simp [children]) s hs).filterRows _)
  | distinct q | weakDistinct q =>
    exact Attempt.hasWidth_bind fun s hs => Solutions.hasWidth_deliver _ _ _
      ((h q _ (by simp [children]) s hs).of_sublist (Event.distinct_sublist _ _))
  | limit q n | offset q n | slice q n count =>
    exact Attempt.hasWidth_bind fun s hs => Solutions.hasWidth_deliver _ _ _
      ((h q _ (by simp [children]) s hs).of_sublist (Event.slice_sublist _ _ _)).fuse
  | semijoin q r | antijoin q r =>
    refine Attempt.hasWidth_bind fun s hs => Solutions.hasWidth_deliver _ _ _ ?_
    dsimp only
    exact (h q _ (by simp [children]) s hs).correlate _ _ _ _
  | minus l r b =>
    refine Attempt.hasWidth_bind fun s hs => ?_
    have hwidth := h l _ (by simp [children]) s hs
    dsimp only
    cases c.config.minus with
    | bind =>
      refine Solutions.hasWidth_deliver _ _ _ ?_
      dsimp only
      exact MinusPlan.hasWidth_boundEvents hwidth _
    | set =>
      refine Attempt.hasWidth_bind fun right _ => Solutions.hasWidth_deliver _ _ _ ?_
      exact MinusPlan.hasWidth_setEvents hwidth right
  | ask q => exact Attempt.hasWidth_bind fun s _ => Solutions.hasWidth_test

/-- The rows of a plan have a column for each of its variables, up to any failure. -/
theorem hasWidth_dispatch (hc : c.Aligned) (hp : Tidy p) :
    (dispatch c p).HasWidth p.vars.length := by
  induction p using inductChildren with
  | _ p ih =>
    intro s hs
    exact hasWidth_evaluate hc hp (c.config.mode p.kind)
      (fun q _ => regular_dispatch hc.toRegular q) (fun q _ hq => ih q hq (hp.child hq)) s
      ((outcome_dispatch hc.toRegular p).symm.trans hs)

/-- The rows of a plan have a column for each of its variables. -/
theorem length_of_mem_rows (hc : c.Reliable stored)
    (hs : ∀ t, ∀ r ∈ stored t, r.length = t.vars.length) (hp : Tidy p) {row : Row}
    (h : row ∈ p.rows c) : row.length = p.vars.length := by
  obtain ⟨s, ho, hy⟩ := answers_rows hc p
  refine hasWidth_dispatch (hc.aligned hs) hp s ho row ?_
  rw [Event.deliver_iff.mp hy.deliver]
  exact List.mem_map_of_mem h

end Plan
end TripleAlgebra
