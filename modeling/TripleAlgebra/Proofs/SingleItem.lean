import TripleAlgebra.Proofs.Answers
import TripleAlgebra.Proofs.Demands
import TripleAlgebra.Query.Answer

/-! Tests ask for one item of their operand, whoever consumes their answer in whatever way. -/
namespace TripleAlgebra
open Store

namespace Event

/-- The answer of a test by the first item of its operand. -/
def tested : List Item → List Item
  | [] => []
  | .ok _ :: _ => [.ok .empty]
  | .error e :: _ => [.error e]

theorem length_tested_le (is : List Item) : (tested is).length ≤ 1 := by
  unfold tested
  split <;> simp

@[simp] theorem found_tested (is : List Item) : found (tested is) = found is := by
  match is with
  | [] | .ok _ :: _ | .error _ :: _ => rfl

theorem ofItems_tested (is : List Item) :
    ofItems (tested is) = mapRows (fun _ => .empty) (ofItems (is.take 1)) := by
  match is with
  | [] | .ok _ :: _ | .error _ :: _ => rfl

end Event

namespace Solutions

/-- What a test makes happen on its operand: nothing if its rows are known, else a demand for one
item. -/
def testEffects (s : Solutions) : List Effect :=
  if s.known.isSome then [] else (s.take (some 1)).effects

/-- Pulled, the operand is asked when a consumption begins. Pushed, before the answer is sent. -/
theorem exists_test_eq (s : Solutions) (m : Mode) (header : List Variable) :
    ∃ opening before : List Act, (opening ++ before).flatMap Act.effects = s.testEffects ∧
      s.test m header = deliver m header s.isHot
        ⟨opening, before.map .act ++ Event.ofItems (Event.tested (Event.items s.run.events))⟩ := by
  rw [Event.ofItems_tested, ← Event.items_demand]
  unfold test testEffects
  cases hk : s.known with
  | some rows => cases m <;> exact ⟨[], [], rfl, rfl⟩
  | none =>
    have hacts : (s.run.opening ++ Event.acts (Event.demand 1 s.run.events).1).flatMap
        Act.effects = (s.take (some 1)).effects := by
      simp [take, nextRun, memo_of_known hk, Event.effects]
    cases m with
    | pull => exact ⟨_, [], (congrArg _ (List.append_nil _)).trans hacts, rfl⟩
    | push => exact ⟨[], _, hacts, rfl⟩

/-- A test answers by the first item, and its operand is asked for that item whenever the answer is
asked for. -/
theorem exists_test_perform (s : Solutions) (m : Mode) (header : List Variable) :
    ∃ u, (s.test m header).outcome = .ok u ∧ u.header = header ∧ u.IsFresh ∧
      Event.items u.run.events = Event.tested (Event.items s.run.events) ∧
      ∀ use : Use, use.demands →
        (s.test m header).effects ++ (u.perform use).effects = s.testEffects := by
  obtain ⟨opening, before, hacts, htest⟩ := s.exists_test_eq m header
  obtain ⟨u, hu, hheader, -, hknown, hevents, hbegun⟩ := exists_deliver_begun m header s.isHot
    ⟨opening, before.map .act ++ Event.ofItems (Event.tested (Event.items s.run.events))⟩
  have hone := Event.length_tested_le (Event.items s.run.events)
  rw [htest]
  refine ⟨u, hu, hheader, isFresh_deliver hu, ?_, fun use huse => ?_⟩
  · rw [hevents]
    simp
  · rw [effects_perform_short hknown hevents hone huse, ← List.append_assoc, hbegun, ← hacts,
      List.flatMap_append]

end Solutions

namespace Plan
variable {c : Context}

theorem dispatch_ask (hr : c.registry = .builtin) (p : Plan) :
    dispatch c (ask p) = dispatch c p >>= (Solutions.test (c.config.mode .ask) [] ·) := by
  refine dispatch_eq_evaluate hr fun u hu => ?_
  obtain ⟨s, -, hu⟩ := Attempt.outcome_bind_iff.mp hu
  obtain ⟨u', hu', hheader, -⟩ := s.exists_test_perform (c.config.mode .ask) []
  obtain rfl : u' = u := Except.ok.inj (hu'.symm.trans hu)
  exact hheader

theorem ask_fails (hr : c.registry = .builtin) {p : Plan} {e : Problem}
    (h : (p.execute c).outcome = .error e) :
    (ask p).execute c = ⟨(p.execute c).effects, .error e⟩ := by
  rw [execute_eq hr] at h ⊢
  rw [execute_eq hr, dispatch_ask hr, Attempt.bind_of_error h]

theorem ask_succeeds (hc : c.Fresh) {p : Plan} {s : Solutions}
    (h : (p.execute c).outcome = .ok s) :
    ∃ u, ((ask p).execute c).outcome = .ok u ∧ u.header = [] ∧
      (∀ use : Use,
        (u.perform use).value = use.reply u.isHot (Event.tested (s.take none).value)) ∧
      ∀ use : Use, use.demands → ((ask p).execute c).effects ++ (u.perform use).effects =
        (p.execute c).effects ++ s.testEffects := by
  have hr := hc.registry_eq
  obtain ⟨u, hu, hheader, hfresh, hitems, heffects⟩ :=
    s.exists_test_perform (c.config.mode .ask) []
  rw [execute_eq hr] at h ⊢
  rw [execute_eq hr, dispatch_ask hr, Attempt.bind_of_ok h]
  refine ⟨u, hu, hheader, fun use => ?_, fun use huse => ?_⟩
  · rw [Solutions.take_none (isFresh_dispatch hc h).memo_eq, ← hitems]
    exact hfresh.reply use
  · rw [List.append_assoc, heffects use huse]

end Plan

namespace Query
variable {c : Context} {q : Query}

/-- The answer of a test that has found a row, has found none or has failed. -/
def verdict (found : Except Problem Bool) : Except QueryProblem QueryAnswer :=
  (found.mapError .evaluation).map .boolean

theorem verdict_found_iff {is : List Item} :
    verdict (Event.found is) = .ok (.boolean true) ↔ ∃ r, is.head? = some (.ok r) := by
  match is with
  | .ok r :: _ => exact ⟨fun _ => ⟨r, rfl⟩, fun _ => rfl⟩
  | [] | .error _ :: _ => exact ⟨nofun, fun ⟨_, h⟩ => by cases h⟩

/-- The plan of a test is that of its pattern, with the test on top. -/
theorem plan_ask {p : Plan} (hq : q.form = .ask) (hp : q.plan = .ok p) :
    ∃ p', p = .ask p' ∧ q.pattern.plan = .ok p' := by
  unfold plan at hp
  rw [hq] at hp
  dsimp only at hp
  split at hp
  · cases hp
  · cases hpattern : q.pattern.plan with
    | error e => simp [hpattern, Except.map] at hp
    | ok p' =>
      rw [hpattern] at hp
      exact ⟨p', (Except.ok.inj hp).symm, rfl⟩

theorem answer_ask (hc : c.Fresh) (hq : q.form = .ask) {p : Plan} (hp : q.plan = .ok (.ask p)) :
    q.answer c = verdict ((p.execute c).outcome.bind fun s => Event.found (s.take none).value) := by
  have hanswer : q.answer c = do
      let u ← ((Plan.ask p).execute c).outcome.mapError .evaluation
      return .boolean (← u.ask.value.mapError .evaluation) := by
    simp only [answer, solutions, hc.registry_eq, Registry.validate_builtin, hp, hq]
    rfl
  rw [hanswer]
  cases hs : (p.execute c).outcome with
  | error e =>
    rw [Plan.ask_fails hc.registry_eq hs]
    rfl
  | ok s =>
    obtain ⟨u, hu, -, hvalue, -⟩ := Plan.ask_succeeds hc hs
    have hfound : u.ask.value = Event.found (s.take none).value := by
      rw [← Event.found_tested]
      exact Reply.found.inj (hvalue (.ask .pull))
    rw [hu]
    change (u.ask.value.mapError QueryProblem.evaluation).bind (fun b => .ok (.boolean b)) =
      verdict (Event.found (s.take none).value)
    rw [hfound]
    cases Event.found (s.take none).value <;> rfl

theorem answer_ask_true_iff (hc : c.Fresh) (hq : q.form = .ask) :
    q.answer c = .ok (.boolean true) ↔ ∃ p s r,
      q.plan = .ok (.ask p) ∧ q.pattern.plan = .ok p ∧ (p.execute c).outcome = .ok s ∧
      (s.take none).value.head? = some (.ok r) := by
  cases hp : q.plan with
  | error e =>
    have hanswer : q.answer c = .error (.lowering e) := by
      simp only [answer, hc.registry_eq, Registry.validate_builtin, hp]
      rfl
    simp [hanswer]
  | ok p' =>
    obtain ⟨p, rfl, hpattern⟩ := plan_ask hq hp
    rw [answer_ask hc hq hp]
    constructor
    · intro htrue
      cases hs : (p.execute c).outcome with
      | error e =>
        rw [hs] at htrue
        cases htrue
      | ok s =>
        rw [hs] at htrue
        obtain ⟨r, hr⟩ := verdict_found_iff.mp htrue
        exact ⟨p, s, r, rfl, hpattern, hs, hr⟩
    · rintro ⟨p, s, r, hplan, -, hs, hr⟩
      cases hplan
      rw [hs]
      exact verdict_found_iff.mpr ⟨r, hr⟩

end Query

/-- A test asks its operand for one item whoever consumes its answer, and the answer is a row without
columns, nothing or the error of the operand, as that item tells. A query that is a test is answered
by the first item of its pattern. -/
theorem Plan.ask_takes_one_item {c : Context} (hc : c.Fresh) :
    (∀ p : Plan,
      (∀ e, (p.execute c).outcome = .error e →
        (ask p).execute c = ⟨(p.execute c).effects, .error e⟩) ∧
      ∀ s, (p.execute c).outcome = .ok s → ∃ u,
        ((ask p).execute c).outcome = .ok u ∧ u.header = [] ∧
        (∀ use : Use,
          (u.perform use).value = use.reply u.isHot (Event.tested (s.take none).value)) ∧
        ∀ use : Use, use.demands → ((ask p).execute c).effects ++ (u.perform use).effects =
          (p.execute c).effects ++ s.testEffects) ∧
    ∀ q : Query, q.form = .ask →
      (q.answer c = .ok (.boolean true) ↔ ∃ p s r,
        q.plan = .ok (.ask p) ∧ q.pattern.plan = .ok p ∧ (p.execute c).outcome = .ok s ∧
        (s.take none).value.head? = some (.ok r)) ∧
      ∀ p, q.plan = .ok (.ask p) → q.answer c =
        Query.verdict ((p.execute c).outcome.bind fun s => Event.found (s.take none).value) :=
  ⟨fun _ => ⟨fun _ => ask_fails hc.registry_eq, fun _ => ask_succeeds hc⟩,
    fun q hq => ⟨q.answer_ask_true_iff hc hq, fun _ => q.answer_ask hc hq⟩⟩

/-- A pushed test of a pattern whose second row is lost, and the query for the pattern. -/
theorem Plan.ask_takes_one_item_lost :
    let store := TripleStore.stepwise (.ofTriples Contents.path.triples)
      (some ⟨.iri "p", some 1, "lost"⟩)
    let c : Context := ⟨store, { modes := [(.ask, .push)] }, .builtin⟩
    let t : Pattern := ⟨.var ⟨"x"⟩, .term (.iri "p"), .var ⟨"y"⟩⟩
    let row : Item := .ok [some (.iri "a"), some (.iri "b")]
    let q : Query := ⟨.ask, false, .triples [t]⟩
    c.Fresh ∧ (∃ u, ((ask (triple t)).execute c).outcome = .ok u ∧
      u.gather.value = .ok [.empty] ∧
      Effect.taken (((ask (triple t)).execute c).effects ++ u.gather.effects) = [row]) ∧
    q.answer c = .ok (.boolean true) := by
  intro store c t row q
  have hc : c.Fresh := TripleStore.fresh_stepwise _ _ _
  obtain ⟨hplans, hqueries⟩ := ask_takes_one_item hc
  have hitem : ((triple t).execute c).outcome.map (fun s => ((s.take none).value.head?,
      Effect.taken (((triple t).execute c).effects ++ s.testEffects))) = .ok (some row, [row]) := by
    rw [execute_eq_dispatchWithin rfl (dispatch c)]
    rfl
  cases hs : ((triple t).execute c).outcome with
  | error e => simp [hs, Except.map] at hitem
  | ok s =>
    rw [hs] at hitem
    obtain ⟨hhead, htaken⟩ := Prod.mk.inj (Except.ok.inj hitem)
    obtain ⟨is, hitems⟩ := List.head?_eq_some_iff.mp hhead
    obtain ⟨u, hu, -, hvalue, heffects⟩ := (hplans (triple t)).2 s hs
    refine ⟨hc, ⟨u, hu, ?_, ?_⟩, (hqueries q rfl).1.mpr ⟨triple t, s, _, ?_, ?_, hs, hhead⟩⟩
    · have hrows := hvalue (.gather .pull)
      rw [hitems] at hrows
      exact Reply.rows.inj hrows
    · have hgathered : ((ask (triple t)).execute c).effects ++ u.gather.effects =
          ((triple t).execute c).effects ++ s.testEffects := heffects (.gather .pull) rfl
      rw [hgathered]
      exact htaken
    · rfl
    · rfl

end TripleAlgebra
