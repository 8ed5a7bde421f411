import TripleAlgebra.Evaluation.Correlated
import TripleAlgebra.Evaluation.Rows

/-! Evaluation of plans: every node goes to the evaluator that is registered for it. -/
namespace TripleAlgebra
namespace Plan

/-- Evaluates a plan that lies below another one. -/
abbrev Dispatcher (p : Plan) := (q : Plan) → q.Below p → Attempt Solutions

/-- The operands of a join in the order of their evaluation, and how to restore its columns. -/
def arranged (c : Context) (ps : List Plan) : List { q // q ∈ ps } × Option (List Nat) :=
  match c.weight?.bind fun w => reorder? w (.join ps) with
  | none => (ps.attach, none)
  | some r => (r.permutation.filterMap fun i => ps.attach[i]?, r.projection)

theorem rank_lt_join {q : Plan} {ps : List Plan} (h : q ∈ ps) : q.rank < (join ps).rank := by
  have := rank_le_rankEach h
  simp only [rank]
  omega

theorem rank_lt_union {q : Plan} {ps : List Plan} (h : q ∈ ps) : q.rank < (union ps).rank :=
  rank_lt_join h

/-- Evaluates the first operand and chains the others to it. -/
def runJoin (m : Mode) (header : List Variable) {p : Plan} (run : Dispatcher p)
    (head : { q : Plan // q.rank < p.rank }) (plan : JoinPlan p.rank) : Attempt Solutions := do
  let s ← run head.1 (.inl head.2)
  let events := plan.events (fun q h => run q (.inl h)) s.header s.run.events
  Solutions.deliver m header s.isHot { s.run with events }

def joinPlan (head : Plan) {limit : Nat} (ps : List { q : Plan // q.rank < limit })
    (projection : Option (List Nat)) : JoinPlan limit where
  header := head.vars
  steps := JoinStep.ofOperands head.vars ps
  projection

def evaluateJoin (c : Context) (m : Mode) : (p : Plan) → Dispatcher p → Attempt Solutions
  | .join ps, run =>
    let (operands, projection) := arranged c ps
    let operands := operands.map fun q =>
      (⟨q.1, rank_lt_join q.2⟩ : { q : Plan // q.rank < (join ps).rank })
    match operands with
    | [] =>
      runJoin m (join ps).vars run ⟨.identity, by simp only [rank]; omega⟩
        (joinPlan .identity [] projection)
    | head :: rest => runJoin m (join ps).vars run head (joinPlan head.1 rest projection)
  | .leftJoin l r condition, run =>
    runJoin m (leftJoin l r condition).vars run ⟨l, by simp only [rank]; omega⟩
      { header := l.vars
        steps := [.ofOperand l.vars r (by simp only [rank]; omega) condition]
        optional := true }
  | p, _ => .fail (.internal (.unexpectedNode p.kind))

def evaluateValues (m : Mode) : (p : Plan) → Dispatcher p → Attempt Solutions
  | .values q vs rows, run =>
    let operands : List { r : Plan // r.rank < (values q vs rows).rank } :=
      match q with
      | .identity => []
      | q => [⟨q, by simp only [rank]; omega⟩]
    let plan : JoinPlan (values q vs rows).rank :=
      { header := vs, steps := JoinStep.ofOperands vs operands }
    Solutions.deliver m (values q vs rows).vars false
      ⟨[], plan.events (fun q h => run q (.inl h)) vs (Event.ofRows rows)⟩
  | p, _ => .fail (.internal (.unexpectedNode p.kind))

def evaluateAlternatives {p : Plan} (run : Dispatcher p) :
    (ps : List Plan) → (∀ q ∈ ps, q.rank < p.rank) → Attempt (List Solutions)
  | [], _ => pure []
  | q :: qs, h => do
    let s ← run q (.inl (h q (by simp)))
    let ss ← evaluateAlternatives run qs fun r hr => h r (by simp [hr])
    return s :: ss

def evaluateMinus (c : Context) (m : Mode) : (p : Plan) → Dispatcher p → Attempt Solutions
  | .minus l r b, run => do
    let plan := MinusPlan.ofSides l r b
    let left ← run l (.inl (by simp only [rank]; omega))
    match c.config.minus with
    | .bind =>
      let events := plan.boundEvents
        (fun q h => run q (.inl (Nat.lt_of_le_of_lt h (by
          simp only [rank, plan, MinusPlan.ofSides]; omega))))
        left.run.events
      Solutions.deliver m (minus l r b).vars left.isHot { left.run with events }
    | .set =>
      let right ← run r (.inl (by simp only [rank]; omega))
      Solutions.deliver m (minus l r b).vars left.isHot
        { left.run with events := plan.setEvents right left.run.events }
  | p, _ => .fail (.internal (.unexpectedNode p.kind))

def evaluateCorrelated (m : Mode) : (p : Plan) → Dispatcher p → Attempt Solutions
  | .semijoin p q, run => do
    let outer ← run p (.inl (by simp only [rank]; omega))
    let events := Event.correlate p.vars q true
      (fun r h => run r (.inl (by simp only [rank]; omega))) outer.run.events
    Solutions.deliver m (semijoin p q).vars outer.isHot { outer.run with events }
  | .antijoin p q, run => do
    let outer ← run p (.inl (by simp only [rank]; omega))
    let events := Event.correlate p.vars q false
      (fun r h => run r (.inl (by simp only [rank]; omega))) outer.run.events
    Solutions.deliver m (antijoin p q).vars outer.isHot { outer.run with events }
  | p, _ => .fail (.internal (.unexpectedNode p.kind))

/-- Looks up the rows of a pattern. -/
def evaluateTriple (c : Context) (m : Mode) (t : Pattern) : Attempt Solutions := do
  let s ← (⟨[.lookup t], (c.store.lookup t).mapError .storage⟩ : Attempt Solutions)
  match m with
  | .pull => return s
  | .push => Solutions.deliver m s.header s.isHot s.run

def evaluateSlice (m : Mode) : (p : Plan) → Dispatcher p → Attempt Solutions
  | .limit q n, run => do
    (← run q (.inl (by simp [rank]))).slice m (limit q n).vars 0 (some n)
  | .offset q n, run => do
    (← run q (.inl (by simp [rank]))).slice m (offset q n).vars n none
  | .slice q n count, run => do
    (← run q (.inl (by simp [rank]))).slice m (slice q n count).vars n count
  | p, _ => .fail (.internal (.unexpectedNode p.kind))

/-- Evaluates a node, given the evaluation of the plans below it. An evaluator that gets a node of
another family fails. -/
def evaluate (c : Context) (e : Evaluator) (p : Plan) (run : Dispatcher p) : Attempt Solutions :=
  match e with
  | .fixed header => pure (.ofRows header [])
  | .builtin family m =>
    match family, p, run with
    | .triple, .triple t, _ => evaluateTriple c m t
    | .join, p, run => evaluateJoin c m p run
    | .union, .union ps, run => do
      Solutions.union m (union ps).vars
        (← evaluateAlternatives run ps fun _ h => rank_lt_union h)
    | .filter, .filter q conditions, run => do
      (← run q (.inr (by simp [rank]; omega))).filter m (filter q conditions).vars conditions
    | .project, .project q vs, run => do
      (← run q (.inr (by simp [rank]; omega))).project m (project q vs).vars
    | .distinct, .distinct q, run => do
      (← run q (.inl (by simp [rank]))).distinct m (distinct q).vars c.config.distinct
    | .distinct, .weakDistinct q, run => do
      (← run q (.inl (by simp [rank]))).distinct m (weakDistinct q).vars c.config.weakDistinct
    | .slice, p, run => evaluateSlice m p run
    | .values, p, run => evaluateValues m p run
    | .assign, .assign q v value, run => do
      (← run q (.inl (by simp [rank]))).assign m (assign q v value).vars v value
    | .correlated, p, run => evaluateCorrelated m p run
    | .minus, p, run => evaluateMinus c m p run
    | .ask, .ask q, run => do
      (← run q (.inl (by simp [rank]))).test m (ask q).vars
    | .identity, .identity, _ =>
      match m with
      | .pull => pure .identity
      | .push => Solutions.deliver m [] false ⟨[], Event.ofRows [.empty]⟩
    | _, p, _ => .fail (.internal (.unexpectedNode p.kind))

/-- Refuses solutions that are not under the header of their node. -/
def checkHeader (c : Context) (p : Plan) (s : Solutions) : Attempt Solutions :=
  if c.config.checksHeaders ∧ s.header ≠ p.vars then
    .fail (.internal (.wrongHeader p.kind s.header p.vars))
  else pure s

/-- Evaluates a plan by the evaluators that are registered for its nodes. -/
def dispatch (c : Context) (p : Plan) : Attempt Solutions :=
  let mode := c.config.mode p.kind
  match c.registry.find? p.kind mode with
  | none => .fail (.internal (.noEvaluator ⟨p.kind, mode⟩))
  | some e => do checkHeader c p (← evaluate c e p fun q _ => dispatch c q)
termination_by (p.rank, sizeOf p)
decreasing_by
  rename_i h
  rcases h with h | ⟨h, h'⟩
  · exact .left _ _ h
  · rw [h]; exact .right _ h'

/-- Evaluates a plan if every kind of node has its evaluator. -/
def execute (c : Context) (p : Plan) : Attempt Solutions :=
  match c.registry.validate c.config with
  | .error m => .fail (.internal (.invalidConfiguration m))
  | .ok () => p.dispatch c

end Plan
end TripleAlgebra
