import TripleAlgebra.Proofs.LifeCycle
import TripleAlgebra.Proofs.Termination

/-! Solutions that are not hot deliver the same items however often they are consumed, and none of
the operands that they draw on is hot. -/
namespace TripleAlgebra
open Store

theorem Event.collect_eq_ok {is : List Item} {rows : List Row} (h : collect is = .ok rows) :
    is = rows.map .ok := by
  have hdeliver : Deliver (ofItems is) rows := by
    rwa [← collect_untilError_iff, collect_untilError, items_ofItems]
  rw [← items_ofItems is]
  exact deliver_iff.mp hdeliver

namespace Solutions
variable {s : Solutions} {is : List Item}

/-- Every consumption delivers the items, before and after rows are remembered. -/
def Restarts (s : Solutions) (is : List Item) : Prop :=
  s.isHot = false ∧ (s.Fresh is ∨ ∃ rows, s.memo = some rows ∧ is = rows.map .ok)

theorem restarts_remembered {rows : List Row} (h : s.memo = some rows) :
    s.Restarts (rows.map .ok) := ⟨by simp [isHot, h], .inr ⟨rows, h, rfl⟩⟩

/-- A consumption of cold solutions leaves the items for the next one. -/
theorem Fresh.restarts_consumed (h : s.Fresh is) (hcold : s.isHot = false)
    {done rest : List Event} (hevents : Event.items (done ++ rest) = is) :
    (s.consumed done rest).Restarts is := by
  have hconsumed : (s.consumed done rest).isHot = s.isHot := by simp [isHot]
  refine ⟨hconsumed.trans hcold, .inl ?_⟩
  unfold consumed
  simp only [hcold, Bool.false_eq_true, if_false]
  split_ifs
  · exact h
  · exact ⟨h.memo_eq, by simpa using hevents, h.rows⟩

/-- Gathered rows are the items, if all of them are rows. -/
theorem Fresh.restarts_gathered (h : s.Fresh is) (hcold : s.isHot = false) :
    s.gather.next.Restarts is := by
  cases hk : s.known with
  | some rows =>
    have hnext : s.gather.next = s := by simp only [gather, hk]
    rw [hnext]
    exact ⟨hcold, .inl h⟩
  | none =>
    have hnext : s.gather.next =
        { s.consumed (Event.untilError s.run.events).1 (Event.untilError s.run.events).2 with
          memo := (Event.collect is).toOption } := by
      simp only [gather, hk, Event.collect_untilError, h.items_eq]
    rw [hnext]
    cases hc : Event.collect is with
    | ok rows =>
      rw [Event.collect_eq_ok hc]
      exact restarts_remembered rfl
    | error e =>
      have hconsumed := h.restarts_consumed hcold
        ((congrArg Event.items (Event.untilError_append s.run.events)).trans h.items_eq)
      have hmemo := (consumed_memo s (Event.untilError s.run.events).1
        (Event.untilError s.run.events).2).trans h.memo_eq
      have hsame (t : Solutions) (ht : t.memo = none) :
          { t with memo := (Except.error e : Except Problem (List Row)).toOption } = t := by
        obtain ⟨header, source, run, memo⟩ := t
        subst ht
        rfl
      rwa [hsame _ hmemo]

theorem Fresh.restarts_asked (h : s.Fresh is) (hcold : s.isHot = false) :
    s.ask.next.Restarts is := by
  cases hk : s.known with
  | some rows =>
    have hnext : s.ask.next = s := by simp only [ask, hk]
    rw [hnext]
    exact ⟨hcold, .inl h⟩
  | none =>
    have hnext : s.ask.next =
        s.consumed (Event.demand 1 s.run.events).1 (Event.demand 1 s.run.events).2 := by
      simp only [ask, hk, hcold, Bool.false_eq_true, if_false]
      split <;> rfl
    rw [hnext]
    exact h.restarts_consumed hcold
      ((congrArg Event.items (Event.demand_append 1 s.run.events)).trans h.items_eq)

/-- A use of cold solutions is answered by the items and changes nothing for the next one. -/
theorem Restarts.perform (h : s.Restarts is) (u : Use) :
    (s.perform u).value = u.reply false is ∧ (s.perform u).next.Restarts is := by
  obtain ⟨hcold, hfresh | ⟨rows, hm, rfl⟩⟩ := h
  · refine ⟨hcold ▸ hfresh.reply u, ?_⟩
    have hrun : Event.items s.nextRun.events = is := by
      rw [nextRun, hfresh.memo_eq]
      exact hfresh.items_eq
    cases u with
    | take m n =>
      cases n with
      | none => exact hfresh.restarts_consumed hcold (by rwa [List.append_nil])
      | some n => exact hfresh.restarts_consumed hcold (by rwa [Event.demand_append])
    | gather m => exact hfresh.restarts_gathered hcold
    | ask m => exact hfresh.restarts_asked hcold
    | isHot => exact ⟨hcold, .inl hfresh⟩
  · rw [perform_remembered hm u]
    exact ⟨rfl, restarts_remembered hm⟩

theorem Restarts.history (h : s.Restarts is) (us : List Use) :
    (s.history us).value = us.map (Use.reply false is) ∧ (s.history us).next.Restarts is := by
  induction us generalizing s with
  | nil => exact ⟨rfl, h⟩
  | cons u us ih =>
    obtain ⟨hvalue, hnext⟩ := h.perform u
    obtain ⟨hvalues, hlast⟩ := ih hnext
    exact ⟨congrArg₂ List.cons hvalue hvalues, hlast⟩

/-- A delivered result is hot if it draws on anything hot. -/
theorem cold_of_deliver {m : Mode} {header : List Variable} {hot : Bool} {r : Run}
    (h : (deliver m header hot r).outcome = .ok s) (hcold : s.isHot = false) : hot = false := by
  cases m with
  | push =>
    cases h
    cases hcold
  | pull =>
    cases hot with
    | false => rfl
    | true =>
      cases h
      cases hcold

/-- Solutions that nobody has gathered yet. A table holds rows only. -/
def IsFresh (s : Solutions) : Prop := s.Fresh (Event.items s.run.events)

theorem isFresh_ofItems (header : List Variable) (is : List Item) :
    (ofItems header .generator is).IsFresh := ⟨rfl, rfl, nofun⟩

theorem isFresh_ofRows (header : List Variable) (rows : List Row) :
    (ofRows header rows).IsFresh :=
  ⟨rfl, rfl, fun _ => ⟨rows, Event.items_ofRows rows⟩⟩

theorem isFresh_deliver {m : Mode} {header : List Variable} {hot : Bool} {r : Run}
    (h : (deliver m header hot r).outcome = .ok s) : s.IsFresh := by
  obtain ⟨s', hs', hregular, -⟩ := exists_deliver m header hot r
  cases h.symm.trans hs'
  refine ⟨hregular.memo_eq, rfl, fun hs => ⟨_, Event.deliver_iff.mp (hregular.clean hs).deliver⟩⟩

/-- Whether or not a delivered run has begun before it is consumed, it begins once. -/
theorem exists_deliver_begun (m : Mode) (header : List Variable) (hot : Bool) (r : Run) :
    ∃ u, (deliver m header hot r).outcome = .ok u ∧ u.header = header ∧ u.memo = none ∧
      u.known = none ∧ u.run.events = r.events ∧
      (deliver m header hot r).effects ++ u.run.opening.flatMap Act.effects =
        r.opening.flatMap Act.effects := by
  cases m <;> cases hot <;> refine ⟨_, rfl, rfl, rfl, rfl, rfl, ?_⟩
  case pull.false => rfl
  case pull.true | push.false | push.true => exact (List.append_nil _).trans (List.append_nil _)

end Solutions

/-- Every node has its own evaluator, and the store answers each pattern anew. -/
structure Context.Fresh (c : Context) : Prop where
  registry_eq : c.registry = .builtin
  lookup : ∀ t s, c.store.lookup t = .ok s → s.IsFresh

/-- A store that fails in some way still answers each pattern anew. -/
theorem TripleStore.fresh_stepwise (m : Store.Memory) (outage : Option Outage) (config : Config) :
    Context.Fresh ⟨.stepwise m outage, config, .builtin⟩ where
  registry_eq := rfl
  lookup := by
    intro t s h
    obtain ⟨-, items, -, rfl, -⟩ := exists_items_of_lookup h
    exact Solutions.isFresh_ofItems _ _

namespace Plan
variable {c : Context} {p q : Plan} {s : Solutions}

/-- The operands whose solutions are consumed along with those of the plan. Any other operand is
evaluated anew for rows of these, or gathered once. -/
def draws (c : Context) : Plan → List Plan
  | .triple _ | .identity | .values _ _ _ => []
  | .join ps => [((operandsOf c ps).map (·.1)).headD .identity]
  | .union ps => ps
  | .leftJoin p _ _ | .semijoin p _ | .antijoin p _ | .minus p _ _ | .filter p _ | .project p _
  | .distinct p | .weakDistinct p | .limit p _ | .offset p _ | .slice p _ _ | .assign p _ _
  | .ask p => [p]

/-- Where the solutions of a plan come from. What is delivered is hot if an operand is that the plan
draws on. -/
inductive Origin (c : Context) (p : Plan) (s : Solutions) : Prop
  | delivered (m : Mode) (header : List Variable) (hot : Bool) (r : Run)
      (h : (Solutions.deliver m header hot r).outcome = .ok s)
      (hhot : hot = false → ∀ q ∈ p.draws c, ∃ t, (dispatch c q).outcome = .ok t ∧ t.isHot = false)
  | passed (q : Plan) (hq : q ∈ p.children) (hdraws : p.draws c = [q])
      (h : (dispatch c q).outcome = .ok s)
  | stored (t : Pattern) (hp : p = .triple t) (h : c.store.lookup t = .ok s)
  | nothing (hp : p = .identity) (hs : s = .identity)

theorem origin_of_deliver (hdraws : p.draws c = [q]) {t : Solutions}
    (ht : (dispatch c q).outcome = .ok t) {m : Mode} {header : List Variable} {r : Run}
    (h : (Solutions.deliver m header t.isHot r).outcome = .ok s) : Origin c p s := by
  refine .delivered m header t.isHot r h fun hcold q' hq' => ?_
  rw [hdraws] at hq'
  obtain rfl := List.mem_singleton.mp hq'
  exact ⟨t, ht, hcold⟩

theorem origin_of_bind (hdraws : p.draws c = [q]) {f : Solutions → Attempt Solutions}
    (hf : ∀ t, (f t).outcome = .ok s →
      ∃ m header r, (Solutions.deliver m header t.isHot r).outcome = .ok s)
    (h : (dispatch c q >>= f).outcome = .ok s) : Origin c p s := by
  obtain ⟨t, ht, hs⟩ := Attempt.outcome_bind_iff.mp h
  obtain ⟨m, header, r, hs⟩ := hf t hs
  exact origin_of_deliver hdraws ht hs

theorem exists_of_evaluateAlternatives {run : Dispatcher p} {ps : List Plan}
    {h : ∀ q ∈ ps, q.rank < p.rank} {ss : List Solutions}
    (hss : (evaluateAlternatives run ps h).outcome = .ok ss) (hq : q ∈ ps) :
    ∃ t ∈ ss, (run q (.inl (h q hq))).outcome = .ok t := by
  induction ps generalizing ss with
  | nil => cases hq
  | cons q' qs ih =>
    rw [evaluateAlternatives] at hss
    obtain ⟨t, ht, hss⟩ := Attempt.outcome_bind_iff.mp hss
    obtain ⟨ts, hts, hss⟩ := Attempt.outcome_bind_iff.mp hss
    cases hss
    rcases List.mem_cons.mp hq with rfl | hq
    · exact ⟨t, List.mem_cons_self, ht⟩
    · obtain ⟨t', hmem, ht'⟩ := ih hts hq
      exact ⟨t', List.mem_cons_of_mem t hmem, ht'⟩

theorem origin (hr : c.registry = .builtin) (h : (dispatch c p).outcome = .ok s) :
    Origin c p s := by
  have hs := evaluate_of_dispatch hr h
  generalize c.config.mode p.kind = m at hs
  cases p with
  | triple t =>
    obtain ⟨s', hs', hs⟩ := Attempt.outcome_bind_iff.mp hs
    cases m with
    | pull =>
      cases hs
      exact .stored t rfl (Attempt.mapError_eq_ok_iff.mp hs')
    | push => exact .delivered _ _ _ _ hs fun _ q hq => nomatch hq
  | identity =>
    cases m with
    | pull =>
      cases hs
      exact .nothing rfl rfl
    | push => exact .delivered _ _ _ _ hs fun _ q hq => nomatch hq
  | values q vs rows => exact .delivered _ _ _ _ hs fun _ q hq => nomatch hq
  | join ps =>
    have hs : (evaluateJoin c m (.join ps) fun q _ => dispatch c q).outcome = .ok s := hs
    rw [evaluateJoin_eq] at hs
    have hdraws : (join ps).draws c = [((operandsOf c ps).map (·.1)).headD .identity] := rfl
    generalize operandsOf c ps = operands at hs hdraws
    cases operands with
    | nil => exact origin_of_bind hdraws (fun t ht => ⟨_, _, _, ht⟩) hs
    | cons head rest => exact origin_of_bind hdraws (fun t ht => ⟨_, _, _, ht⟩) hs
  | union ps =>
    obtain ⟨ss, hss, hs⟩ := Attempt.outcome_bind_iff.mp hs
    refine .delivered _ _ _ _ hs fun hcold q hq => ?_
    obtain ⟨t, hmem, ht⟩ := exists_of_evaluateAlternatives hss hq
    exact ⟨t, ht, by simpa using List.any_eq_false.mp hcold t hmem⟩
  | project q vs =>
    obtain ⟨t, ht, hs⟩ := Attempt.outcome_bind_iff.mp hs
    have hs : (t.project m (project q vs).vars).outcome = .ok s := hs
    unfold Solutions.project at hs
    dsimp only at hs
    split at hs
    · cases hs
      exact .passed q (by simp [children]) rfl ht
    · exact origin_of_deliver rfl ht hs
  | minus l r b =>
    refine origin_of_bind rfl (fun t ht => ?_) hs
    dsimp only at ht
    cases hminus : c.config.minus with
    | bind =>
      rw [hminus] at ht
      exact ⟨_, _, _, ht⟩
    | set =>
      rw [hminus] at ht
      obtain ⟨right, -, ht⟩ := Attempt.outcome_bind_iff.mp ht
      exact ⟨_, _, _, ht⟩
  | ask q =>
    refine origin_of_bind rfl (fun t ht => ?_) hs
    cases m <;> exact ⟨_, _, _, ht⟩
  | leftJoin q r condition | filter q cs | distinct q | weakDistinct q | limit q n | offset q n
  | slice q n count | assign q v e | semijoin q r | antijoin q r =>
    exact origin_of_bind rfl (fun t ht => ⟨_, _, _, ht⟩) hs

/-- The solutions of a plan have not been gathered. -/
theorem isFresh_dispatch (hc : c.Fresh) (h : (dispatch c p).outcome = .ok s) : s.IsFresh := by
  induction p using inductChildren generalizing s with
  | _ p ih =>
    cases origin hc.registry_eq h with
    | delivered m header hot r hs _ => exact Solutions.isFresh_deliver hs
    | passed q hq _ hs => exact ih q hq hs
    | stored t _ hs => exact hc.lookup t s hs
    | nothing _ hs => exact hs ▸ Solutions.isFresh_ofRows [] [.empty]

/-- Solutions that are not hot draw on none that are. -/
theorem cold_of_draws (hr : c.registry = .builtin) (h : (dispatch c p).outcome = .ok s)
    (hcold : s.isHot = false) (hq : q ∈ p.draws c) :
    ∃ t, (dispatch c q).outcome = .ok t ∧ t.isHot = false := by
  cases origin hr h with
  | delivered m header hot r hs hhot => exact hhot (Solutions.cold_of_deliver hs hcold) q hq
  | passed q' _ hdraws hs =>
    rw [hdraws] at hq
    obtain rfl := List.mem_singleton.mp hq
    exact ⟨s, hs, hcold⟩
  | stored t hp _ =>
    rw [hp] at hq
    cases hq
  | nothing hp _ =>
    rw [hp] at hq
    cases hq

theorem cold_of_reach (hr : c.registry = .builtin) (h : (dispatch c p).outcome = .ok s)
    (hcold : s.isHot = false) (hq : Relation.ReflTransGen (fun p q => q ∈ p.draws c) p q) :
    ∃ t, (dispatch c q).outcome = .ok t ∧ t.isHot = false := by
  induction hq with
  | refl => exact ⟨s, h, hcold⟩
  | tail _ hstep ih =>
    obtain ⟨t, ht, htcold⟩ := ih
    exact cold_of_draws hr ht htcold hstep

/-- A result that is not hot delivers the same items on every consumption, whatever uses came
before. No operand that it draws on, at any depth, is hot. -/
theorem cold_results_restart (hc : c.Fresh) (hs : (p.execute c).outcome = .ok s)
    (hcold : s.isHot = false) :
    (∀ us : List Use, (s.history us).value = us.map (Use.reply false (s.take none).value)) ∧
      ∀ q, Relation.ReflTransGen (fun p q => q ∈ p.draws c) p q →
        ∃ t, (dispatch c q).outcome = .ok t ∧ t.isHot = false := by
  rw [execute_eq hc.registry_eq] at hs
  have hfresh := isFresh_dispatch hc hs
  have hrestarts : s.Restarts (Event.items s.run.events) := ⟨hcold, .inl hfresh⟩
  refine ⟨fun us => ?_, fun q => cold_of_reach hc.registry_eq hs hcold⟩
  rw [Solutions.take_none hfresh.memo_eq]
  exact (hrestarts.history us).1

/-- A pulled difference from rows that are pushed, over a store that loses its second row. -/
theorem cold_results_restart_difference :
    let store := TripleStore.stepwise (.ofTriples Contents.path.triples)
      (some ⟨.iri "p", some 1, "lost"⟩)
    let c : Context := ⟨store, { minus := .set, modes := [(.distinct, .push)] }, .builtin⟩
    let l := edge (.var ⟨"x"⟩) (.var ⟨"y"⟩)
    let us : List Use := [.take .pull (some 1), .ask .push, .gather .pull, .take .push none]
    c.Fresh ∧ ∃ s, ((minus l (distinct l) false).execute c).outcome = .ok s ∧
      s.isHot = false ∧ (s.history us).value = us.map (Use.reply false (s.take none).value) ∧
      ∃ t, (dispatch c l).outcome = .ok t ∧ t.isHot = false := by
  intro store c l us
  have hc : c.Fresh := TripleStore.fresh_stepwise _ _ _
  have hhot : ((minus l (distinct l) false).execute c).outcome.map Solutions.isHot = .ok false := by
    rw [execute_eq_dispatchWithin rfl (dispatch c)]
    rfl
  cases hs : ((minus l (distinct l) false).execute c).outcome with
  | error e => simp [hs, Except.map] at hhot
  | ok s =>
    have hcold : s.isHot = false := by simpa [hs, Except.map] using hhot
    obtain ⟨hhistory, hdraws⟩ := cold_results_restart hc hs hcold
    exact ⟨hc, s, rfl, hcold, hhistory us, hdraws l (.single List.mem_cons_self)⟩

end Plan
end TripleAlgebra
