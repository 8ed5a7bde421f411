import TripleAlgebra.Evaluation.Attempt
import TripleAlgebra.Join.Step

/-! Evaluation of a join by a stack of frames. Only the deepest frame is consumed; each of its rows
opens the next frame, and an exhausted frame gives way to the one below. -/
namespace TripleAlgebra

/-- Events of solutions that are evaluated for one consumption only. -/
def Event.settle : List Event → List Event :=
  List.flatMap fun
    | .act a => Event.ofEffects a.effects
    | .item i => [.item i]

/-- `events` are those of an operand that is evaluated for the row `outer`. -/
structure Frame where
  outer : Row
  layout : Layout
  events : List Event
  matched : Bool

/-- Sequences of at most `n` numbers. -/
def Counts : Nat → Type
  | 0 => Unit
  | n + 1 => Nat × Counts n

namespace Counts

/-- Earlier numbers weigh more, and a missing number weighs less than any. -/
def ofList : (n : Nat) → List Nat → Counts n
  | 0, _ => ()
  | n + 1, [] => (0, ofList n [])
  | n + 1, a :: as => (a + 1, ofList n as)

def Less : (n : Nat) → Counts n → Counts n → Prop
  | 0 => fun _ _ => False
  | n + 1 => Prod.Lex (· < ·) (Less n)

theorem wellFounded_less : (n : Nat) → WellFounded (Less n)
  | 0 => ⟨fun _ => ⟨_, fun _ h => h.elim⟩⟩
  | n + 1 => (Prod.lex Nat.lt_wfRel ⟨Less n, wellFounded_less n⟩).wf

instance (n : Nat) : WellFoundedRelation (Counts n) := ⟨Less n, wellFounded_less n⟩

theorem less_of_lt {n a b : Nat} {xs : List Nat} (h : xs.length < n) (hab : a < b) (ys : List Nat) :
    Less n (ofList n (xs ++ a :: ys)) (ofList n (xs ++ [b])) := by
  induction xs generalizing n with
  | nil =>
    cases n with
    | zero => cases h
    | succ n => exact .left _ _ (Nat.succ_lt_succ hab)
  | cons x xs ih =>
    cases n with
    | zero => cases h
    | succ n => exact .right _ (ih (Nat.lt_of_succ_lt_succ h))

theorem less_of_init {n a : Nat} {xs : List Nat} (h : xs.length < n) :
    Less n (ofList n xs) (ofList n (xs ++ [a])) := by
  induction xs generalizing n with
  | nil =>
    cases n with
    | zero => cases h
    | succ n => exact .left _ _ (Nat.succ_pos a)
  | cons x xs ih =>
    cases n with
    | zero => cases h
    | succ n => exact .right _ (ih (Nat.lt_of_succ_lt_succ h))

theorem less_of_nil {n a : Nat} {xs : List Nat} (h : xs.length < n) :
    Less n (ofList n []) (ofList n (xs ++ [a])) := by
  cases n with
  | zero => cases h
  | succ n =>
    cases xs with
    | nil => exact .left _ _ (Nat.succ_pos a)
    | cons x xs => exact .left _ _ (Nat.succ_pos x)

end Counts

namespace JoinPlan
variable {limit : Nat}

/-- What a step of the chain makes happen, and the frames afterwards, the deepest one first. -/
structure Advance where
  emitted : List Event
  bindings : List Binding
  frames : List Frame

/-- The row of an optional operand that has found nothing. -/
def unmatched (p : JoinPlan limit) (depth : Nat) (f : Frame) : List Event :=
  match p.optional && !f.matched, depth with
  | true, d + 1 =>
    match p.steps[d]?, p.steps[d + 1]? with
    | some s, none => [.item (.ok (p.finish (f.outer.extendUnbound s.fresh.length)))]
    | _, _ => []
  | _, _ => []

/-- Specialises the operand of a step for a row and evaluates it in a new frame. -/
def enter (run : (q : Plan) → q.rank < limit → Attempt Solutions) (bindings : List Binding)
    (below : List Frame) (s : JoinStep limit) (row : Row) : Advance :=
  let depth := below.length - 1
  let binding := (bindings[depth]?.getD s.binding).load row (s.bound.map (·.2))
  let attempt := run (binding.apply s.operand)
    (Nat.lt_of_le_of_lt (Plan.rank_bind_le ..) s.operand_lt)
  let effects := Event.ofEffects attempt.effects
  let bindings := bindings.set depth binding
  match attempt.outcome with
  | .error e => ⟨effects ++ [.item (.error e)], bindings, []⟩
  | .ok sols =>
    let layout := Layout.ofStep s row sols.header
    ⟨effects, bindings, ⟨row, layout, Event.settle sols.run.started, false⟩ :: below⟩

/-- Takes one event off the deepest frame. -/
def advance (p : JoinPlan limit) (run : (q : Plan) → q.rank < limit → Attempt Solutions)
    (bindings : List Binding) (f : Frame) (below : List Frame) : Advance :=
  match f.events with
  | [] => ⟨p.unmatched below.length f, bindings, below⟩
  | .act a :: es => ⟨[.act a], bindings, { f with events := es } :: below⟩
  | .item (.error e) :: _ => ⟨[.item (.error e)], bindings, []⟩
  | .item (.ok r) :: es =>
    let row := f.layout.combine f.outer r
    let frames := { f with events := es, matched := true } :: below
    match p.steps[below.length]? with
    | none => ⟨[.item (.ok (p.finish row))], bindings, frames⟩
    | some s => enter run bindings frames s row

/-- The number of events left in each frame, the deepest one last. -/
def remaining (frames : List Frame) : List Nat := (frames.map (·.events.length)).reverse

theorem advance_decreases (p : JoinPlan limit)
    (run : (q : Plan) → q.rank < limit → Attempt Solutions) (bindings : List Binding) (f : Frame)
    (below : List Frame) (h : (f :: below).length ≤ p.steps.length + 1) :
    let next := p.advance run bindings f below
    next.frames.length ≤ p.steps.length + 1 ∧
      Counts.Less (p.steps.length + 1) (.ofList _ (remaining next.frames))
        (.ofList _ (remaining (f :: below))) := by
  have hb : (remaining below).length < p.steps.length + 1 := by
    simpa [remaining, Nat.lt_succ_iff] using h
  have hcons (g : Frame) (gs : List Frame) :
      remaining (g :: gs) = remaining gs ++ [g.events.length] := by simp [remaining]
  simp only [List.length_cons] at h
  simp only [advance]
  split
  · exact ⟨by simp; omega, by rw [hcons]; exact Counts.less_of_init hb⟩
  · rename_i a es he
    refine ⟨by simpa using h, ?_⟩
    rw [hcons, hcons, he]
    exact Counts.less_of_lt hb (by simp) []
  · exact ⟨by simp, by rw [hcons]; exact Counts.less_of_nil hb⟩
  · rename_i r es he
    split
    · refine ⟨by simpa using h, ?_⟩
      rw [hcons, hcons, he]
      exact Counts.less_of_lt hb (by simp) []
    · rename_i s hs
      have hlt : below.length < p.steps.length := (List.getElem?_eq_some_iff.1 hs).1
      simp only [enter]
      split
      · exact ⟨by simp, by rw [hcons]; exact Counts.less_of_nil hb⟩
      · refine ⟨by simp; omega, ?_⟩
        rw [hcons, hcons, hcons, he, List.append_assoc]
        exact Counts.less_of_lt hb (by simp) _

/-- Runs the chain until no frame is left. -/
def drain (p : JoinPlan limit) (run : (q : Plan) → q.rank < limit → Attempt Solutions)
    (bindings : List Binding) (frames : List Frame) (h : frames.length ≤ p.steps.length + 1) :
    List Event :=
  match frames, h with
  | [], _ => []
  | f :: below, h =>
    let next := p.advance run bindings f below
    next.emitted ++
      p.drain run next.bindings next.frames (p.advance_decreases run bindings f below h).1
termination_by Counts.ofList (p.steps.length + 1) (remaining frames)
decreasing_by exact (p.advance_decreases run bindings f below h).2

/-- The events of a join whose first operand has the given ones under `header`. -/
def events (p : JoinPlan limit) (run : (q : Plan) → q.rank < limit → Attempt Solutions)
    (header : List Variable) (es : List Event) : List Event :=
  p.drain run (p.steps.map JoinStep.binding) [⟨[], .ofHead p.header header, es, false⟩]
    (Nat.succ_le_succ (Nat.zero_le _))

end JoinPlan
end TripleAlgebra
