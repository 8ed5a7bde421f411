import TripleAlgebra.Proofs.JoinSolutions

/-! The plans that are evaluated for another one. Its evaluation depends on them only. -/
namespace TripleAlgebra

namespace JoinPlan
variable {limit : Nat} (p : JoinPlan limit)
  {run run' : (q : Plan) → q.rank < limit → Attempt Solutions}

theorem nested_congr {steps : List (JoinStep limit)}
    (h : ∀ s ∈ steps, ∀ row, run (s.specialise row) (s.rank_specialise_lt row) =
      run' (s.specialise row) (s.rank_specialise_lt row)) (row : Row) :
    p.nested run steps row = p.nested run' steps row := by
  induction steps generalizing row with
  | nil => rfl
  | cons s rest ih =>
    have hrest := ih fun s' hs => h s' (List.mem_cons_of_mem _ hs)
    simp only [nested, h s List.mem_cons_self, hrest]

/-- The events of a join depend on its specialised operands only. -/
theorem events_congr
    (h : ∀ s ∈ p.steps, ∀ row, run (s.specialise row) (s.rank_specialise_lt row) =
      run' (s.specialise row) (s.rank_specialise_lt row))
    (header : List Variable) (es : List Event) :
    p.events run header es = p.events run' header es := by
  rw [events_eq, events_eq]
  simp only [p.nested_congr h]

end JoinPlan

namespace MinusPlan
variable (p : MinusPlan)

/-- Whether a left row is removed, by what the right side specialised for it results in. -/
def probe (row : Row) (x : Attempt Solutions) : List Event × Except Problem Bool :=
  let values := ((Binding.ofHeader p.substituted).load row p.substitutedColumns).values
  let leftKey := row.project p.comparedKey
  let overlapRequired := !p.boundOverlap && values.all Option.isNone
  if overlapRequired && leftKey.all Option.isNone then ([], .ok false)
  else
    match x.outcome with
    | .error e => (Event.ofEffects x.effects, .error e)
    | .ok s =>
      let (done, found) :=
        if p.compared.isEmpty then firstRow s
        else
          search (Variable.columns s.header p.compared) leftKey overlapRequired
            (Event.settle s.run.started)
      (Event.ofEffects x.effects ++ done, found)

theorem removesBound_eq_probe (run : (q : Plan) → q.rank ≤ p.right.rank → Attempt Solutions)
    (row : Row) :
    p.removesBound run row = p.probe row
      (run (((Binding.ofHeader p.substituted).load row p.substitutedColumns).apply p.right)
        (Plan.rank_bind_le ..)) := rfl

variable {p} {run run' : (q : Plan) → q.rank ≤ p.right.rank → Attempt Solutions}

theorem boundEvents_congr
    (h : ∀ (b : Binding) hq, run (b.apply p.right) hq = run' (b.apply p.right) hq)
    (es : List Event) : p.boundEvents run es = p.boundEvents run' es := by
  have hrow (row : Row) : p.removesBound run row = p.removesBound run' row :=
    congrArg (p.probe row) (h _ _)
  unfold boundEvents
  simp only [hrow]

end MinusPlan

namespace Event
variable {inner : Plan} {run run' : (q : Plan) → q.rank ≤ inner.rank → Attempt Solutions}

/-- What becomes of an outer row by what the inner plan specialised for it results in. -/
def probe (wanted : Bool) (row : Row) (x : Attempt Solutions) : List Event :=
  match x.outcome with
  | .error e => ofEffects x.effects ++ [.item (.error e)]
  | .ok s =>
    let (done, found) := MinusPlan.firstRow s
    ofEffects x.effects ++ done ++ match found with
      | .error e => [.item (.error e)]
      | .ok found => if found = wanted then [.item (.ok row)] else []

theorem correlate_eq_probe (outer : List Variable) (wanted : Bool) (es : List Event) :
    correlate outer inner wanted run es = fuse (expand (fun row => probe wanted row
      (run (((Binding.ofHeader outer).load row (List.range outer.length)).apply inner)
        (Plan.rank_bind_le ..))) es) := rfl

theorem correlate_congr
    (h : ∀ (b : Binding) hq, run (b.apply inner) hq = run' (b.apply inner) hq)
    (outer : List Variable) (wanted : Bool) (es : List Event) :
    correlate outer inner wanted run es = correlate outer inner wanted run' es := by
  rw [correlate_eq_probe, correlate_eq_probe]
  congr 2
  funext row
  exact congrArg (probe wanted row) (h _ _)

end Event

theorem Attempt.bind_congr {α β : Type} {x y : Attempt α} {f g : α → Attempt β} (hx : x = y)
    (hf : ∀ a, f a = g a) : x >>= f = y >>= g := by
  rw [hx, funext hf]

namespace Plan
variable {c : Context} {p q : Plan}

/-- Plans that are evaluated for another one: its children, by themselves or specialised for a row,
then possibly under a condition, and the empty solution for a join without operands. -/
inductive Called (p : Plan) : Plan → Prop
  | child {q : Plan} (h : q ∈ p.children) : Called p q
  | specialised {q : Plan} (h : q ∈ p.children) (hr : q.rank < p.rank) (s : Substitution)
      (condition : Option Expression) : Called p (substitute s (q.conditioned condition))
  | nothing (h : 0 < p.rank) : Called p .identity

theorem called_ofOperands {header : List Variable} {ps : List { q : Plan // q.rank < p.rank }}
    (hps : ∀ q ∈ ps, q.1 ∈ p.children) {s : JoinStep p.rank}
    (hs : s ∈ JoinStep.ofOperands header ps) (row : Row) : p.Called (s.specialise row) := by
  obtain ⟨q, hq, he⟩ := JoinStep.operand_of_mem_ofOperands hs
  rw [JoinStep.specialise, he]
  exact .specialised (hps q hq) q.2 _ none

theorem mem_of_mem_operandsOf {ps : List Plan} {q : { q : Plan // q.rank < (join ps).rank }}
    (h : q ∈ operandsOf c ps) : q.1 ∈ ps := by
  have hperm := (arrangementOf_arranged c ps).perm
  rw [← map_operandsOf] at hperm
  exact hperm.mem_iff.mp (List.mem_map_of_mem h)

theorem called_leftJoin {l r : Plan} {condition : Option Expression} {s}
    (hs : s ∈ (leftJoinPlan l r condition).steps) (row : Row) :
    (leftJoin l r condition).Called (s.specialise row) := by
  cases List.mem_singleton.mp hs
  rw [specialise_ofOperand]
  exact .specialised (by simp [children]) (rank_lt_leftJoin l r condition) _ condition

theorem called_apply (h : q ∈ p.children) (hr : q.rank < p.rank) (b : Binding) :
    p.Called (b.apply q) := .specialised h hr _ none

theorem called_values {vs : List Variable} {table : List Row} {s}
    (hs : s ∈ (tablePlan p vs table).steps) (row : Row) :
    (values p vs table).Called (s.specialise row) :=
  called_ofOperands (fun q hq => by simp [eq_of_mem_tableOperands hq, children]) hs row

theorem Tidy.of_pushed {s : Substitution} (h : Tidy (p.pushed s (p.early s))) :
    Tidy (substitute s p) := by
  rw [substitute_eq]
  split
  · exact h
  · exact .node (by simp [checkAfter]) (List.forall_mem_singleton.mpr
      (.node (by simp) (List.forall_mem_singleton.mpr h)))

/-- A table that is specialised still lists no variable twice. -/
theorem Tidy.specialised (h : Tidy p) (s : Substitution) : Tidy (substitute s p) := by
  induction p using inductChildren generalizing s with
  | _ p ih =>
    refine .of_pushed (.node ?_ fun q' hq' => ?_)
    · intro q vs table he
      cases p with
      | triple t =>
        rw [pushed] at he
        rcases substituteTriple?_getD ((Plan.triple t).early s) t with ⟨_, _, _, _, _, ht⟩ | ht
        · rw [ht] at he
          cases he
          exact Substitution.nodup_remaining t.nodup_vars
        · rw [ht] at he
          cases he
      | values p vs' rows =>
        rw [pushed] at he
        split at he
        · cases he
          exact h.nodup
        · cases he
          exact Substitution.nodup_remaining h.nodup
      | project p ws =>
        rw [pushed] at he
        split at he <;> cases he
      | _ => cases he
    · rcases mem_children_pushed hq' with rfl | ⟨q, hq, s', rfl⟩
      · exact tidy_identity
      · exact ih q hq (h.child hq) s'

theorem Tidy.conditioned (h : Tidy p) (condition : Option Expression) :
    Tidy (p.conditioned condition) := by
  cases condition with
  | none => exact h
  | some e => exact .node (by simp [Plan.conditioned]) (List.forall_mem_singleton.mpr h)

/-- What is evaluated for a tidy plan is tidy. -/
theorem Tidy.called (h : Tidy p) (hq : p.Called q) : Tidy q := by
  cases hq with
  | child hq => exact h.child hq
  | specialised hq _ s condition => exact ((h.child hq).conditioned condition).specialised s
  | nothing _ => exact tidy_identity

section Evaluation
variable {run run' : Dispatcher p} (h : ∀ q hq, p.Called q → run q hq = run' q hq)
include h

theorem runJoin_congr {m : Mode} {header : List Variable} {head : { q : Plan // q.rank < p.rank }}
    {plan : JoinPlan p.rank} (hhead : p.Called head.1)
    (hsteps : ∀ s ∈ plan.steps, ∀ row, p.Called (s.specialise row)) :
    runJoin m header run head plan = runJoin m header run' head plan :=
  Attempt.bind_congr (h _ _ hhead) fun s =>
    congrArg (fun events => Solutions.deliver m header s.isHot { s.run with events })
      (plan.events_congr (fun s hs row => h _ _ (hsteps s hs row)) _ _)

theorem evaluateAlternatives_congr {ps : List Plan} (hps : ∀ q ∈ ps, q.rank < p.rank)
    (hcalled : ∀ q ∈ ps, p.Called q) :
    evaluateAlternatives run ps hps = evaluateAlternatives run' ps hps := by
  induction ps with
  | nil => rfl
  | cons q qs ih =>
    have hrest := ih (fun r hr => hps r (by simp [hr])) fun r hr => hcalled r (by simp [hr])
    exact Attempt.bind_congr (h q _ (hcalled q (by simp))) fun s =>
      Attempt.bind_congr hrest fun ss => rfl

/-- An evaluator looks at the plans that are called only. -/
theorem evaluate_congr (c : Context) (m : Mode) :
    evaluate c (.builtin p.kind.family m) p run = evaluate c (.builtin p.kind.family m) p run' := by
  cases p with
  | triple t | identity => rfl
  | join ps =>
    have hmem : ∀ q ∈ operandsOf c ps, q.1 ∈ (join ps).children := fun q => mem_of_mem_operandsOf
    show evaluateJoin c m (.join ps) run = evaluateJoin c m (.join ps) run'
    rw [evaluateJoin_eq, evaluateJoin_eq]
    generalize operandsOf c ps = operands at *
    cases operands with
    | nil => exact runJoin_congr h (.nothing (by simp only [rank]; omega)) fun s hs => nomatch hs
    | cons head rest =>
      exact runJoin_congr h (.child (hmem head (by simp))) fun s hs =>
        called_ofOperands (fun q hq => hmem q (by simp [hq])) hs
  | leftJoin l r condition =>
    have hl : (leftJoin l r condition).Called l := .child (by simp [children])
    exact runJoin_congr h hl fun s hs => called_leftJoin hs
  | values q vs table =>
    show evaluateValues m (.values q vs table) run = evaluateValues m (.values q vs table) run'
    rw [evaluateValues_eq, evaluateValues_eq]
    exact congrArg (fun events => Solutions.deliver m (values q vs table).vars false ⟨[], events⟩)
      ((tablePlan q vs table).events_congr (fun s hs row => h _ _ (called_values hs row)) _ _)
  | union ps =>
    exact Attempt.bind_congr (evaluateAlternatives_congr h _ fun q hq => .child hq) fun ss => rfl
  | filter q cs | project q vs | distinct q | weakDistinct q | limit q n | offset q n
  | slice q n count | assign q v e | ask q =>
    exact Attempt.bind_congr (h q _ (.child (by simp [children]))) fun s => rfl
  | semijoin q r | antijoin q r =>
    refine Attempt.bind_congr (h q _ (.child (by simp [children]))) fun s => ?_
    refine congrArg (fun events => Solutions.deliver m _ s.isHot { s.run with events }) ?_
    exact Event.correlate_congr (fun b hq => h _ _ (called_apply (by simp [children])
      (by simp only [rank]; omega) b)) _ _ _
  | minus l r b =>
    refine Attempt.bind_congr (h l _ (.child (by simp [children]))) fun left => ?_
    dsimp only
    cases c.config.minus with
    | bind =>
      refine congrArg (fun events => Solutions.deliver m _ left.isHot { left.run with events }) ?_
      exact MinusPlan.boundEvents_congr (p := .ofSides l r b) (fun x hq => h _ _
        (called_apply (q := r) (by simp [children]) (by simp only [rank]; omega) x)) _
    | set => exact Attempt.bind_congr (h r _ (.child (by simp [children]))) fun right => rfl

end Evaluation
end Plan
end TripleAlgebra
