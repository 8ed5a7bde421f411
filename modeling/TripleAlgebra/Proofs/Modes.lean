import TripleAlgebra.Proofs.Contents
import TripleAlgebra.Proofs.SameItems

/-! Whether rows are pulled or pushed does not change the items of a plan, also where the store
fails. -/
namespace TripleAlgebra
open Store

/-- The context, with other modes. -/
def Context.withModes (c : Context) (m : Mode) (modes : List (NodeKind × Mode)) : Context :=
  { c with config := { c.config with defaultMode := m, modes } }

theorem Context.Aligned.withModes {c : Context} (hc : c.Aligned) (m : Mode)
    (modes : List (NodeKind × Mode)) : (c.withModes m modes).Aligned := { hc with }

/-- A store that fails in some way still answers with rows of the right width. -/
theorem TripleStore.aligned_stepwise (s : Contents) (outage : Option Outage) (config : Config) :
    Context.Aligned ⟨.stepwise (.ofTriples s.triples) outage, config, .builtin⟩ where
  toRegular := regular_stepwise _ outage config
  width t u h := by
    obtain ⟨rows, items, hrows, rfl, hitems⟩ := exists_items_of_lookup h
    intro r hr
    rw [Solutions.items_ofItems] at hr
    obtain rfl : s.stored t = rows := Except.ok.inj ((s.rows_eq t).symm.trans hrows)
    exact (s.holds config).width t r (hitems r hr)

namespace Plan
open Solutions Attempt
variable {c : Context} {p : Plan}

/-- The header of a plan and all items of one consumption, unless its evaluation fails. -/
def items (c : Context) (p : Plan) : Except Problem (List Variable × List Item) :=
  (p.execute c).outcome.map fun s => (s.header, (s.take none).value)

/-- What a store answers is passed on in either mode. -/
theorem agree_evaluateTriple (c : Context) (m m' : Mode) (t : Pattern) :
    (evaluateTriple c m t).Agree Same (evaluateTriple c m' t) := by
  refine (agree_refl _).bind ?_
  rintro s _ - - rfl
  obtain ⟨u, hu, hr, he⟩ := exists_deliver .push s.header s.isHot s.run
  have hitems : Event.items u.run.events = Event.items s.run.events := congrArg Event.items he
  cases m with
  | pull =>
    cases m' with
    | pull => exact .inl ⟨s, s, rfl, rfl, rfl, rfl⟩
    | push => exact .inl ⟨s, u, rfl, hu, hr.header_eq.symm, hitems.symm⟩
  | push =>
    cases m' with
    | pull => exact .inl ⟨u, s, hu, rfl, hr.header_eq, hitems⟩
    | push => exact .inl ⟨u, u, hu, hu, rfl, rfl⟩

section Evaluation
variable {run run' : Dispatcher p}
  (h : ∀ q hq, p.Called q → (run q hq).Agree Same (run' q hq))
include h

theorem agree_runJoin {m m' : Mode} {header : List Variable}
    {head : { q : Plan // q.rank < p.rank }} {plan : JoinPlan p.rank} (hhead : p.Called head.1)
    (hsteps : ∀ s ∈ plan.steps, ∀ row, p.Called (s.specialise row)) :
    (runJoin m header run head plan).Agree Same (runJoin m' header run' head plan) := by
  refine (h _ _ hhead).bind fun s t _ _ hst => agree_deliver ?_
  dsimp only
  rw [hst.header_eq]
  exact plan.items_events_congr (fun s hs row => h _ _ (hsteps s hs row)) hst.items_eq _

theorem agree_evaluateAlternatives {ps : List Plan} (hps hps' : ∀ q ∈ ps, q.rank < p.rank)
    (hcalled : ∀ q ∈ ps, p.Called q) :
    (evaluateAlternatives run ps hps).Agree (List.Forall₂ Same)
      (evaluateAlternatives run' ps hps') := by
  induction ps with
  | nil => exact agree_pure .nil
  | cons q qs ih =>
    refine (h q _ (hcalled q (by simp))).bind fun s t _ _ hst => ?_
    refine (ih (fun r hr => hps r (by simp [hr])) (fun r hr => hps' r (by simp [hr]))
      fun r hr => hcalled r (by simp [hr])).bind fun ss ts _ _ hsts => ?_
    exact agree_pure (.cons hst hsts)

/-- In either mode an evaluator makes the same items of the same items. -/
theorem agree_evaluate (m m' : Mode) (modes : List (NodeKind × Mode)) (default : Mode)
    (hr : ∀ q hq, (run q hq).Regular q.vars) (hr' : ∀ q hq, (run' q hq).Regular q.vars)
    (hw : ∀ q hq, p.Called q → (run q hq).HasWidth q.vars.length)
    (hw' : ∀ q hq, p.Called q → (run' q hq).HasWidth q.vars.length) :
    (evaluate c (.builtin p.kind.family m) p run).Agree Same
      (evaluate (c.withModes default modes) (.builtin p.kind.family m') p run') := by
  have hchild (q : Plan) (hq) (hm : q ∈ p.children) : (run q hq).Agree Same (run' q hq) :=
    h q hq (.child hm)
  cases p with
  | triple t => exact agree_evaluateTriple c m m' t
  | identity => cases m <;> cases m' <;> exact .inl ⟨_, _, rfl, rfl, rfl, rfl⟩
  | join ps =>
    have hmem : ∀ q ∈ operandsOf c ps, q.1 ∈ (join ps).children := fun q => mem_of_mem_operandsOf
    show (evaluateJoin c m (.join ps) run).Agree Same
      (evaluateJoin (c.withModes default modes) m' (.join ps) run')
    have hsame : evaluateJoin (c.withModes default modes) m' (.join ps) run' =
        evaluateJoin c m' (.join ps) run' := rfl
    rw [hsame, evaluateJoin_eq, evaluateJoin_eq]
    generalize operandsOf c ps = operands at *
    cases operands with
    | nil => exact agree_runJoin h (.nothing (by simp only [rank]; omega)) fun s hs => nomatch hs
    | cons head rest =>
      exact agree_runJoin h (.child (hmem head (by simp))) fun s hs =>
        called_ofOperands (fun q hq => hmem q (by simp [hq])) hs
  | leftJoin l r condition =>
    have hl : (leftJoin l r condition).Called l := .child (by simp [children])
    exact agree_runJoin h hl fun s hs => called_leftJoin hs
  | values q vs table =>
    show (evaluateValues m (.values q vs table) run).Agree Same
      (evaluateValues m' (.values q vs table) run')
    rw [evaluateValues_eq, evaluateValues_eq]
    exact agree_deliver ((tablePlan q vs table).items_events_congr
      (fun s hs row => h _ _ (called_values hs row)) rfl vs)
  | union ps =>
    exact (agree_evaluateAlternatives h _ _ fun q hq => .child hq).bind
      fun ss ts _ _ hst => agree_union hst
  | filter q cs =>
    exact (hchild q _ (by simp [children])).bind fun s t _ _ hst => hst.agree_filter cs
  | project q vs =>
    refine (hchild q _ (by simp [children])).bind fun s t hs ht hst => hst.agree_project ?_ ?_
    · rw [(hr q _ s hs).header_eq]
      exact hw q _ (.child (by simp [children])) s hs
    · rw [(hr' q _ t ht).header_eq]
      exact hw' q _ (.child (by simp [children])) t ht
  | distinct q | weakDistinct q =>
    exact (hchild q _ (by simp [children])).bind fun s t _ _ hst => hst.agree_distinct _
  | limit q n => exact (hchild q _ (by simp [children])).bind fun s t _ _ hst => hst.agree_slice 0 _
  | offset q n =>
    exact (hchild q _ (by simp [children])).bind fun s t _ _ hst => hst.agree_slice n none
  | slice q n count =>
    exact (hchild q _ (by simp [children])).bind fun s t _ _ hst => hst.agree_slice n count
  | assign q v e =>
    exact (hchild q _ (by simp [children])).bind fun s t _ _ hst => hst.agree_assign v e
  | ask q => exact (hchild q _ (by simp [children])).bind fun s t _ _ hst => hst.agree_test
  | semijoin q r | antijoin q r =>
    refine (hchild q _ (by simp [children])).bind fun s t _ _ hst => agree_deliver ?_
    dsimp only
    exact Event.items_correlate_congr (fun b hq => h _ _ (called_apply (by simp [children])
      (by simp only [rank]; omega) b)) hst.items_eq _ _
  | minus l r b =>
    refine (hchild l _ (by simp [children])).bind fun s t _ _ hst => ?_
    have hrule : (c.withModes default modes).config.minus = c.config.minus := rfl
    simp only [hrule]
    cases c.config.minus with
    | bind =>
      refine agree_deliver ?_
      dsimp only
      exact MinusPlan.items_boundEvents_congr (p := .ofSides l r b) (fun x hq => h _ _
        (called_apply (q := r) (by simp [children]) (by simp only [rank]; omega) x)) hst.items_eq
    | set =>
      refine (hchild r _ (by simp [children])).bind fun s' t' hs' ht' hst' => agree_deliver ?_
      exact MinusPlan.items_setEvents_congr (hr r _ s' hs') (hr' r _ t' ht') hst' hst.items_eq

end Evaluation

/-- A tidy plan is evaluated to the same header and items in all modes. -/
theorem agree_dispatch (hc : c.Aligned) (hp : Tidy p) (default : Mode)
    (modes : List (NodeKind × Mode)) :
    (dispatch c p).Agree Same (dispatch (c.withModes default modes) p) := by
  have hc' := hc.withModes default modes
  have hr := regular_dispatch hc.toRegular
  have hr' := regular_dispatch hc'.toRegular
  induction p using inductBelow with
  | _ p ih =>
    have h := agree_evaluate (c := c) (p := p) (fun q hq hcalled => ih q hq (hp.called hcalled))
      (c.config.mode p.kind) ((c.withModes default modes).config.mode p.kind) modes default
      (fun q _ => hr q) (fun q _ => hr' q)
      (fun q _ hq => hasWidth_dispatch hc (hp.called hq))
      (fun q _ hq => hasWidth_dispatch hc' (hp.called hq))
    unfold Agree at h ⊢
    rwa [outcome_dispatch hc.toRegular, outcome_dispatch hc'.toRegular]

/-- The items of a plan are those that its evaluation delivers. -/
theorem items_eq_of_agree {c' : Context} (hc : c.Regular) (hc' : c'.Regular)
    (h : (dispatch c p).Agree Same (dispatch c' p)) : p.items c = p.items c' := by
  unfold items
  rw [execute_eq hc.registry_eq, execute_eq hc'.registry_eq]
  rcases h with ⟨s, t, hs, ht, hst⟩ | ⟨e, hx, hy⟩
  · rw [hs, ht]
    simp only [Except.map, take_none (regular_dispatch hc p s hs).memo_eq,
      take_none (regular_dispatch hc' p t ht).memo_eq, hst.header_eq, hst.items_eq]
  · rw [hx, hy]

/-- Over every store whose answers are aligned, however they fail, two configurations that differ in
their modes only give a plan without repeated table variables the same failure or the same items. -/
theorem modes_agree (store : TripleStore) (config : Config) {p : Plan}
    (hc : Context.Aligned ⟨store, config, .builtin⟩) (hp : Tidy p) (mode : Mode)
    (modes : List (NodeKind × Mode)) :
    p.items ⟨store, config, .builtin⟩ =
      p.items ⟨store, { config with defaultMode := mode, modes }, .builtin⟩ :=
  items_eq_of_agree hc.toRegular (hc.withModes mode modes).toRegular
    (agree_dispatch hc hp mode modes)

/-- Rows that are lost in the middle of an answer. -/
theorem modes_agree_outage :
    let outage : TripleStore.Outage := ⟨.iri "p", some 1, "lost"⟩
    let store := TripleStore.stepwise (.ofTriples Contents.path.triples) (some outage)
    let table := values identity [⟨"y"⟩] [[some (.iri "b")], [none]]
    let p := project (join [table, edge (.var ⟨"x"⟩) (.var ⟨"y"⟩)]) [⟨"y"⟩, ⟨"x"⟩]
    Context.Aligned ⟨store, {}, .builtin⟩ ∧ Tidy p ∧
    p.items ⟨store, {}, .builtin⟩ =
      p.items ⟨store, { defaultMode := .push, modes := [(.join, .pull)] }, .builtin⟩ := by
  intro outage store table p
  have hc : Context.Aligned ⟨store, {}, .builtin⟩ :=
    TripleStore.aligned_stepwise Contents.path (some outage) {}
  have hedge : Tidy (edge (.var ⟨"x"⟩) (.var ⟨"y"⟩)) :=
    .node (by simp [edge]) (by simp [children, edge])
  have htable : Tidy table := tidy_identity.values (by decide) _
  have hp : Tidy p := .node (by simp [p]) (List.forall_mem_singleton.mpr
    (.node (by simp) (by simp [children, hedge, htable])))
  exact ⟨hc, hp, modes_agree store {} hc hp .push [(.join, .pull)]⟩

theorem Answers.items_eq {stored : Pattern → List Row} (hc : c.Reliable stored) {rows : List Row}
    (h : Answers c p rows) : p.items c = .ok (p.vars, rows.map .ok) := by
  obtain ⟨s, hs, hy⟩ := h
  unfold items
  rw [execute_eq hc.registry_eq, hs]
  simp only [Except.map, take_none hy.memo_eq, hy.header_eq, Event.deliver_iff.mp hy.deliver]

/-- A table that lists a variable twice has rows with a column too many, which a pulled projection
to its only variable passes on and a pushed one drops. -/
theorem repeated_variable_modes_differ :
    let p := project (values identity [⟨"x"⟩, ⟨"x"⟩] [[some (.iri "a"), some (.iri "a")]]) [⟨"x"⟩]
    p.items (Contents.path.context { defaultMode := .pull }) =
        .ok ([⟨"x"⟩], [.ok [some (.iri "a"), some (.iri "a")]]) ∧
      p.items (Contents.path.context { defaultMode := .push }) =
        .ok ([⟨"x"⟩], [.ok [some (.iri "a")]]) := by
  intro p
  have htable (config : Config) : Answers (Contents.path.context config)
      (values identity [⟨"x"⟩, ⟨"x"⟩] [[some (.iri "a"), some (.iri "a")]])
      [[some (.iri "a"), some (.iri "a")]] :=
    answers_values (Contents.path.holds config).toReliable fun q _ =>
      answers_rows (Contents.path.holds config).toReliable q
  have hitems (config : Config) :=
    ((htable config).project (Contents.path.holds config).toReliable [⟨"x"⟩]).items_eq
      (Contents.path.holds config).toReliable
  exact ⟨hitems { defaultMode := .pull }, hitems { defaultMode := .push }⟩

end Plan
end TripleAlgebra
