import TripleAlgebra.Proofs.Operands

/-! Evaluation over a store that may fail. The rows of a plan are those that its solutions deliver
without an error. -/
namespace TripleAlgebra

namespace Event
variable {es : List Event} {rows : List Row}

/-- Rows can be collected up to the first error exactly if there is none. -/
theorem collect_untilError_iff :
    collect (items (untilError es).1) = .ok rows ↔ Deliver es rows := by
  induction es generalizing rows with
  | nil =>
    constructor
    · intro h
      cases h
      exact .nil
    · rintro ⟨⟩
      rfl
  | cons e es ih =>
    rcases e with a | e | r
    · constructor
      · exact fun h => .act a (ih.mp h)
      · rintro (_ | ⟨_, h⟩)
        exact ih.mpr h
    · constructor
      · intro h
        cases h
      · rintro ⟨⟩
    · have hcollect : collect (items (untilError (.item (.ok r) :: es)).1) =
          (collect (items (untilError es).1)).map (r :: ·) := rfl
      rw [hcollect]
      constructor
      · intro h
        cases hrest : collect (items (untilError es).1) with
        | error e => simp [hrest, Except.map] at h
        | ok rest =>
          rw [hrest] at h
          cases h
          exact .row r (ih.mp hrest)
      · rintro (_ | _ | ⟨_, h⟩)
        rw [ih.mpr h]
        rfl

theorem Clean.deliver (h : Clean es) : Deliver es ((items es).filterMap Except.toOption) := by
  induction es with
  | nil => exact .nil
  | cons e es ih =>
    have htail : Clean es := fun x hx => h x (by simp [hx])
    rcases e with a | e | r
    · exact .act a (ih htail)
    · exact absurd (by simp) (h e)
    · exact .row r (ih htail)

theorem clean_ofRows (rows : List Row) : Clean (ofRows rows) := by
  intro e h
  simp [ofRows] at h

theorem deliver_fuse_iff : Deliver (fuse es) rows ↔ Deliver es rows := by
  refine ⟨fun h => ?_, Deliver.fuse⟩
  induction es generalizing rows with
  | nil => exact h
  | cons e es ih =>
    rcases e with a | e | r
    · obtain _ | ⟨_, h⟩ := h
      exact .act a (ih h)
    · cases h
    · obtain _ | _ | ⟨_, h⟩ := h
      exact .row r (ih h)

theorem deliver_beforeFirstRow_iff {once : List Effect} :
    Deliver (MinusPlan.beforeFirstRow once es) rows ↔ Deliver es rows := by
  refine ⟨fun h => ?_, Deliver.beforeFirstRow once⟩
  induction es generalizing rows with
  | nil => exact h
  | cons e es ih =>
    rcases e with a | e | r
    · obtain _ | ⟨_, h⟩ := h
      exact .act a (ih h)
    · cases h
    · obtain _ | ⟨_, h⟩ := h
      exact h

theorem deliver_append_iff {fs : List Event} : Deliver (es ++ fs) rows ↔
    ∃ rows₁ rows₂, Deliver es rows₁ ∧ Deliver fs rows₂ ∧ rows = rows₁ ++ rows₂ := by
  constructor
  · intro h
    induction es generalizing rows with
    | nil => exact ⟨[], rows, .nil, h, rfl⟩
    | cons e es ih =>
      rcases e with a | e | r
      · obtain _ | ⟨_, h⟩ := h
        obtain ⟨rows₁, rows₂, h₁, h₂, rfl⟩ := ih h
        exact ⟨rows₁, rows₂, .act a h₁, h₂, rfl⟩
      · cases h
      · obtain _ | _ | ⟨_, h⟩ := h
        obtain ⟨rows₁, rows₂, h₁, h₂, rfl⟩ := ih h
        exact ⟨r :: rows₁, rows₂, .row r h₁, h₂, rfl⟩
  · rintro ⟨rows₁, rows₂, h₁, h₂, rfl⟩
    exact h₁.append h₂

/-- Rows that are kept or dropped one by one come from rows that were delivered before. -/
theorem deliver_expand_iff {f : Row → List Event} {keep : Row → Bool}
    (hf : ∀ r, Deliver (f r) (if keep r then [r] else [])) :
    Deliver (expand f es) rows ↔ ∃ own, Deliver es own ∧ rows = own.filter keep := by
  constructor
  · intro h
    induction es generalizing rows with
    | nil =>
      cases h
      exact ⟨[], .nil, rfl⟩
    | cons e es ih =>
      rcases e with a | e | r
      · obtain _ | ⟨_, h⟩ := h
        obtain ⟨own, hown, rfl⟩ := ih h
        exact ⟨own, .act a hown, rfl⟩
      · cases h
      · rw [expand_row, deliver_append_iff] at h
        obtain ⟨rows₁, rows₂, h₁, h₂, rfl⟩ := h
        obtain ⟨own, hown, rfl⟩ := ih h₂
        refine ⟨r :: own, .row r hown, ?_⟩
        rw [h₁.unique (hf r), List.filter_cons]
        split <;> rfl
  · rintro ⟨own, hown, rfl⟩
    exact hown.expandFilter fun r _ => hf r

/-- Where every row becomes an error, there are no rows. -/
theorem deliver_expand_error_iff {e : Problem} :
    Deliver (expand (fun _ => [.item (.error e)]) es) rows ↔ Deliver es [] ∧ rows = [] := by
  constructor
  · intro h
    induction es with
    | nil =>
      cases h
      exact ⟨.nil, rfl⟩
    | cons x es ih =>
      rcases x with a | e | r
      · obtain _ | ⟨_, h⟩ := h
        exact ⟨.act a (ih h).1, (ih h).2⟩
      · cases h
      · cases h
  · rintro ⟨h, rfl⟩
    have hnone : Deliver (expand (fun _ => [.item (.error e)]) es) ([].filter fun _ => true) :=
      h.expandFilter fun r hr => nomatch hr
    exact hnone

end Event

/-- The solutions have the header and are not gathered yet. A table has no errors. -/
structure Solutions.Regular (s : Solutions) (header : List Variable) : Prop where
  header_eq : s.header = header
  memo_eq : s.memo = none
  clean : s.source = .table → Event.Clean s.run.events

/-- All rows are gathered exactly if they are delivered without an error. -/
theorem Solutions.Regular.gather_iff {s : Solutions} {header : List Variable} {rows : List Row}
    (h : s.Regular header) : s.gather.value = .ok rows ↔ Event.Deliver s.run.events rows := by
  have hstep (hs : s.known = none) :
      s.gather.value = .ok rows ↔ Event.Deliver s.run.events rows := by
    rw [← Event.collect_untilError_iff]
    simp only [gather, hs]
  cases hs : s.source with
  | table =>
    have hdeliver := (h.clean hs).deliver
    have hvalue : s.gather.value = .ok ((Event.items s.run.events).filterMap Except.toOption) := by
      simp only [gather, known, h.memo_eq, hs]
    rw [hvalue, Except.ok.injEq]
    exact ⟨fun he => he ▸ hdeliver, fun hd => hdeliver.unique hd⟩
  | generator | iterator | stream => exact hstep (by simp only [known, h.memo_eq, hs])

/-- Every node has its own evaluator, and the answers of the store are regular. The store may still
refuse to answer, and an answer may break off with an error. -/
structure Context.Regular (c : Context) : Prop where
  registry_eq : c.registry = .builtin
  lookup : ∀ t s, c.store.lookup t = .ok s → s.Regular t.vars

namespace Attempt
variable {α β : Type} {header : List Variable}

theorem mapError_eq_ok_iff {ε ε' : Type} {x : Except ε α} {f : ε → ε'} {a : α} :
    x.mapError f = .ok a ↔ x = .ok a := by
  cases x <;> simp [Except.mapError]

theorem outcome_bind_error {x : Attempt α} {f : α → Attempt β} {e : Problem}
    (h : x.outcome = .error e) : (x >>= f).outcome = .error e := by
  rw [bind_of_error h]

theorem outcome_bind_iff {x : Attempt α} {f : α → Attempt β} {b : β} :
    (x >>= f).outcome = .ok b ↔ ∃ a, x.outcome = .ok a ∧ (f a).outcome = .ok b := by
  constructor
  · intro h
    cases hx : x.outcome with
    | error e => cases h.symm.trans (outcome_bind_error hx)
    | ok a => exact ⟨a, rfl, (outcome_bind hx).symm.trans h⟩
  · rintro ⟨a, hx, h⟩
    exact (outcome_bind hx).trans h

/-- What the step results in, if it succeeds, is regular. -/
def Regular (x : Attempt Solutions) (header : List Variable) : Prop :=
  ∀ s, x.outcome = .ok s → s.Regular header

theorem regular_bind {x : Attempt α} {f : α → Attempt Solutions}
    (h : ∀ a, x.outcome = .ok a → (f a).Regular header) : (x >>= f).Regular header := by
  intro s hs
  obtain ⟨a, ha, hs⟩ := outcome_bind_iff.mp hs
  exact h a ha s hs

theorem regular_pure {s : Solutions} (h : s.Regular header) :
    (Pure.pure s : Attempt Solutions).Regular header := by
  rintro _ ⟨⟩
  exact h

end Attempt

/-- Delivery in either mode succeeds and keeps the events. -/
theorem Solutions.exists_deliver (m : Mode) (header : List Variable) (hot : Bool) (r : Run) :
    ∃ s, (deliver m header hot r).outcome = .ok s ∧ s.Regular header ∧
      s.run.events = r.events := by
  cases m <;> cases hot <;> exact ⟨_, rfl, ⟨rfl, rfl, nofun⟩, rfl⟩

theorem Solutions.regular_deliver (m : Mode) (header : List Variable) (hot : Bool) (r : Run) :
    (deliver m header hot r).Regular header := by
  intro s hs
  obtain ⟨s', hs', h, -⟩ := exists_deliver m header hot r
  cases hs.symm.trans hs'
  exact h

namespace Plan
variable {c : Context} {p : Plan}

theorem regular_runJoin {m : Mode} {header : List Variable} {run : Dispatcher p}
    {head : { q : Plan // q.rank < p.rank }} {plan : JoinPlan p.rank} :
    (runJoin m header run head plan).Regular header :=
  Attempt.regular_bind fun _ _ => Solutions.regular_deliver _ _ _ _

/-- Every evaluator results in regular solutions if those below it do. -/
theorem regular_evaluate (hc : c.Regular) (m : Mode) {run : Dispatcher p}
    (h : ∀ q hq, (run q hq).Regular q.vars) :
    (evaluate c (.builtin p.kind.family m) p run).Regular p.vars := by
  cases p with
  | triple t =>
    refine Attempt.regular_bind fun s hs => ?_
    have hs := hc.lookup t s (Attempt.mapError_eq_ok_iff.mp hs)
    cases m with
    | pull => exact Attempt.regular_pure hs
    | push => exact hs.header_eq ▸ Solutions.regular_deliver _ _ _ _
  | identity =>
    cases m with
    | pull => exact Attempt.regular_pure ⟨rfl, rfl, fun _ => Event.clean_ofRows [.empty]⟩
    | push => exact Solutions.regular_deliver _ _ _ _
  | join ps =>
    show (evaluateJoin c m (.join ps) run).Regular _
    simp only [evaluateJoin]
    split <;> exact regular_runJoin
  | leftJoin l r condition => exact regular_runJoin
  | values q vs rows => exact Solutions.regular_deliver _ _ _ _
  | project q vs =>
    refine Attempt.regular_bind fun s hs => ?_
    have hs := h q _ s hs
    show (s.project m (project q vs).vars).Regular _
    unfold Solutions.project
    dsimp only
    split
    · rename_i hid
      have hvs : (project q vs).vars = s.header := Variable.eq_of_isIdentity hid.2
      exact Attempt.regular_pure (hvs ▸ hs.header_eq.symm ▸ hs)
    · exact Solutions.regular_deliver _ _ _ _
  | minus l r b =>
    refine Attempt.regular_bind fun left _ => ?_
    dsimp only
    cases c.config.minus with
    | bind => exact Solutions.regular_deliver _ _ _ _
    | set => exact Attempt.regular_bind fun right _ => Solutions.regular_deliver _ _ _ _
  | ask q =>
    refine Attempt.regular_bind fun s _ => ?_
    unfold Solutions.test
    cases m <;> exact Solutions.regular_deliver _ _ _ _
  | union ps | filter q cs | distinct q | weakDistinct q | limit q n | offset q n | slice q n count
  | assign q v e | semijoin q r | antijoin q r =>
    exact Attempt.regular_bind fun _ _ => Solutions.regular_deliver _ _ _ _

theorem checkHeader_eq {s : Solutions} (h : s.Regular p.vars) : checkHeader c p s = pure s :=
  if_neg fun hne => hne.2 h.header_eq

/-- The solutions of a plan have its header. -/
theorem regular_dispatch (hc : c.Regular) (p : Plan) : (dispatch c p).Regular p.vars := by
  induction p using inductBelow with
  | _ p ih =>
    rw [dispatch]
    simp only [hc.registry_eq, Registry.find?_builtin]
    refine Attempt.regular_bind fun s hs => ?_
    have hs := regular_evaluate hc _ (fun q hq => ih q hq) s hs
    rw [checkHeader_eq hs]
    exact Attempt.regular_pure hs

/-- The check of the header lets every result pass. -/
theorem outcome_dispatch (hc : c.Regular) (p : Plan) : (dispatch c p).outcome =
    (evaluate c (.builtin p.kind.family (c.config.mode p.kind)) p fun q _ => dispatch c q).outcome := by
  have hregular : (evaluate c (.builtin p.kind.family (c.config.mode p.kind)) p
      fun q _ => dispatch c q).Regular p.vars :=
    regular_evaluate hc (c.config.mode p.kind) fun q _ => regular_dispatch hc q
  rw [dispatch]
  simp only [hc.registry_eq, Registry.find?_builtin]
  cases hx : (evaluate c (.builtin p.kind.family (c.config.mode p.kind)) p
      fun q _ => dispatch c q).outcome with
  | error e => exact Attempt.outcome_bind_error hx
  | ok s =>
    rw [Attempt.outcome_bind hx, checkHeader_eq (hregular s hx)]
    rfl

/-- Solutions that pass the check of the header come from the evaluator of their node. -/
theorem evaluate_of_dispatch (hr : c.registry = .builtin) {s : Solutions}
    (h : (dispatch c p).outcome = .ok s) :
    (evaluate c (.builtin p.kind.family (c.config.mode p.kind)) p
      fun q _ => dispatch c q).outcome = .ok s := by
  rw [dispatch] at h
  simp only [hr, Registry.find?_builtin] at h
  obtain ⟨s', hs', hcheck⟩ := Attempt.outcome_bind_iff.mp h
  unfold checkHeader at hcheck
  split at hcheck
  · cases hcheck
  · cases hcheck
    exact hs'

/-- An evaluator that delivers under the header of its node passes the check of the header. -/
theorem dispatch_eq_evaluate (hr : c.registry = .builtin)
    (h : ∀ s, (evaluate c (.builtin p.kind.family (c.config.mode p.kind)) p
      fun q _ => dispatch c q).outcome = .ok s → s.header = p.vars) :
    dispatch c p = evaluate c (.builtin p.kind.family (c.config.mode p.kind)) p
      fun q _ => dispatch c q := by
  rw [dispatch]
  simp only [hr, Registry.find?_builtin]
  cases hx : (evaluate c (.builtin p.kind.family (c.config.mode p.kind)) p
      fun q _ => dispatch c q).outcome with
  | error e =>
    rw [Attempt.bind_of_error hx]
    exact congrArg (Attempt.mk _) hx.symm
  | ok s =>
    have hcheck : checkHeader c p s = pure s := if_neg fun hne => hne.2 (h s hx)
    rw [Attempt.bind_of_ok hx, hcheck]
    show Attempt.mk (_ ++ []) (.ok s) = _
    rw [List.append_nil]
    exact congrArg (Attempt.mk _) hx.symm

/-- The evaluation of a plan succeeds with the rows that its solutions deliver. -/
theorem collect_eq_ok_iff (hc : c.Regular) {rows : List Row} : p.collect c = .ok rows ↔
    ∃ s, (dispatch c p).outcome = .ok s ∧ Event.Deliver s.run.events rows := by
  unfold collect
  rw [execute_eq hc.registry_eq]
  cases hs : (dispatch c p).outcome with
  | error e => simp [Except.bind]
  | ok s =>
    simp only [Except.bind, Except.ok.injEq, exists_eq_left']
    exact (regular_dispatch hc p s hs).gather_iff

end Plan

namespace TripleStore

/-- What a memory answers has no effects. -/
theorem regular_ofMemory (m : Store.Memory) (config : Config) :
    Context.Regular ⟨.ofMemory m, config, .builtin⟩ where
  registry_eq := rfl
  lookup := by
    intro t s h
    obtain ⟨rows, -, rfl⟩ := Store.Memory.exists_rows_of_query h
    exact ⟨rfl, rfl, fun _ => Event.clean_ofRows _⟩

/-- A store that fails in some way still answers regularly. -/
theorem regular_stepwise (m : Store.Memory) (outage : Option Outage) (config : Config) :
    Context.Regular ⟨.stepwise m outage, config, .builtin⟩ where
  registry_eq := rfl
  lookup := by
    intro t s h
    obtain ⟨-, items, -, rfl, -⟩ := exists_items_of_lookup h
    exact ⟨rfl, rfl, nofun⟩

end TripleStore
end TripleAlgebra
