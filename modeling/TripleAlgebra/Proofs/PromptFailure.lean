import TripleAlgebra.Proofs.Failures
import TripleAlgebra.Proofs.Termination

/-! The first failure of a store is the result of an evaluation, and nothing happens after it. A
pulled test is the exception: it takes its item when a consumption begins, whether or not its answer
is demanded. -/
namespace TripleAlgebra
open Store

namespace Plan
variable {p q : Plan}

mutual

/-- Whether a consumption may begin with a test. -/
def tests : Plan → Bool
  | .triple _ | .identity | .values _ _ _ => false
  | .ask _ => true
  | .join ps | .union ps => testsEach ps
  | .leftJoin p _ _ | .semijoin p _ | .antijoin p _ | .minus p _ _ | .filter p _ | .project p _
  | .distinct p | .weakDistinct p | .limit p _ | .offset p _ | .slice p _ _ | .assign p _ _ =>
    tests p

def testsEach : List Plan → Bool
  | [] => false
  | p :: ps => tests p || testsEach ps

end

theorem testsEach_eq_false {ps : List Plan} (h : testsEach ps = false) (hq : q ∈ ps) :
    q.tests = false := by
  induction ps with
  | nil => cases hq
  | cons p ps ih =>
    obtain ⟨hp, hps⟩ := Bool.or_eq_false_iff.mp h
    rcases List.mem_cons.mp hq with rfl | hq
    · exact hp
    · exact ih hps hq

theorem testsEach_map {f : Plan → Plan} {ps : List Plan} (h : ∀ q ∈ ps, (f q).tests = q.tests) :
    testsEach (ps.map f) = testsEach ps := by
  induction ps with
  | nil => rfl
  | cons p ps ih =>
    rw [List.map_cons, testsEach, testsEach, h p List.mem_cons_self,
      ih fun q hq => h q (List.mem_cons_of_mem p hq)]

/-- The answer of a test at the beginning is demanded before anything else happens. -/
def testsInTime : Plan → Prop
  | .union (_ :: qs) => ∀ q ∈ qs, q.tests = false
  | .limit q 0 | .slice q _ (some 0) => q.tests = false
  | _ => True

/-- Every operator of the plan makes its tests in time. -/
inductive InTime : Plan → Prop
  | node {p : Plan} (here : p.testsInTime) (below : ∀ q ∈ p.children, InTime q) : InTime p

theorem InTime.here (h : InTime p) : p.testsInTime := by
  cases h with
  | node here _ => exact here

theorem InTime.child (h : InTime p) (hq : q ∈ p.children) : InTime q := by
  cases h with
  | node _ below => exact below q hq

theorem inTime_identity : InTime identity := .node trivial (by simp [children])

theorem tests_pushed (ih : ∀ q ∈ p.children, ∀ s, (substitute s q).tests = q.tests)
    (all s : Substitution) : (p.pushed all s).tests = p.tests := by
  cases p with
  | triple t =>
    rw [pushed]
    rcases substituteTriple?_getD s t with ⟨_, _, _, _, _, ht⟩ | ht <;> rw [ht] <;> rfl
  | identity => rfl
  | join ps | union ps => exact testsEach_map fun q hq => ih q hq s
  | values q vs rows =>
    rw [pushed]
    split <;> rfl
  | project q vs =>
    rw [pushed]
    split
    · rfl
    · exact ih q (by simp [children]) _
  | ask q => rfl
  | leftJoin q r c | filter q cs | distinct q | weakDistinct q | limit q n | offset q n
  | slice q n count | assign q v e | semijoin q r | antijoin q r | minus q r b =>
    exact ih q (by simp [children]) _

theorem tests_substitute (p : Plan) (s : Substitution) : (substitute s p).tests = p.tests := by
  induction p using inductChildren generalizing s with
  | _ p ih =>
    rw [substitute_eq]
    split
    · exact tests_pushed ih _ _
    · exact tests_pushed ih _ _

theorem InTime.of_pushed {s : Substitution} (h : InTime (p.pushed s (p.early s))) :
    InTime (substitute s p) := by
  rw [substitute_eq]
  split
  · exact h
  · exact .node trivial (List.forall_mem_singleton.mpr
      (.node trivial (List.forall_mem_singleton.mpr h)))

theorem testsInTime_pushed (h : p.testsInTime) (all s : Substitution) :
    (p.pushed all s).testsInTime := by
  cases p with
  | triple t =>
    rw [pushed]
    rcases substituteTriple?_getD s t with ⟨_, _, _, _, _, ht⟩ | ht <;> rw [ht] <;> trivial
  | union ps =>
    cases ps with
    | nil => trivial
    | cons q qs =>
      intro r hr
      obtain ⟨r', hr', rfl⟩ := List.mem_map.mp hr
      exact (tests_substitute r' s).trans (h r' hr')
  | limit q n =>
    cases n with
    | zero => exact (tests_substitute q s).trans h
    | succ n => trivial
  | slice q n count =>
    rcases count with _ | _ | k
    · trivial
    · exact (tests_substitute q s).trans h
    · trivial
  | values q vs rows =>
    rw [pushed]
    split <;> trivial
  | project q vs =>
    rw [pushed]
    split <;> trivial
  | _ => trivial

theorem InTime.specialised (h : InTime p) (s : Substitution) : InTime (substitute s p) := by
  induction p using inductChildren generalizing s with
  | _ p ih =>
    refine .of_pushed (.node (testsInTime_pushed h.here _ _) fun q' hq' => ?_)
    rcases mem_children_pushed hq' with rfl | ⟨q, hq, s', rfl⟩
    · exact inTime_identity
    · exact ih q hq (h.child hq) s'

theorem InTime.conditioned (h : InTime p) (condition : Option Expression) :
    InTime (p.conditioned condition) := by
  cases condition with
  | none => exact h
  | some e => exact .node trivial (List.forall_mem_singleton.mpr h)

/-- What is evaluated for a plan makes its tests in time if the plan does. -/
theorem InTime.called (h : InTime p) (hq : p.Called q) : InTime q := by
  cases hq with
  | child hq => exact h.child hq
  | specialised hq _ s condition => exact ((h.child hq).conditioned condition).specialised s
  | nothing _ => exact inTime_identity

end Plan

/-- The answers of the store can be consumed any number of times: tables and generators. -/
def TripleStore.Cold (store : TripleStore) : Prop :=
  ∀ t s, store.lookup t = .ok s →
    (∃ header rows, s = .ofRows header rows) ∨ ∃ header is, s = .ofItems header .generator is

/-- Solutions that raise failures. Pulled ones are not hot, and they begin with effects only if they
may begin with a test. -/
structure Solutions.Prompt (store : TripleStore) (m : Mode) (tests : Bool) (s : Solutions) :
    Prop where
  raises : Event.Raises store s.run.started
  cold : m = .pull → s.isHot = false
  quiet : (m = .pull → tests = false) → s.run.opening = []

/-- What fails in the step is its result, and what results from it is prompt. -/
structure Attempt.Prompt (store : TripleStore) (m : Mode) (tests : Bool)
    (x : Attempt Solutions) : Prop where
  heeds : store.Heeds x.outcome x.effects
  prompt : ∀ s, x.outcome = .ok s → s.Prompt store m tests

namespace Attempt
variable {store : TripleStore} {m : Mode} {tests : Bool} {α β : Type}

theorem Prompt.raises {x : Attempt Solutions} (h : x.Prompt store m tests) : x.Raises store :=
  ⟨h.heeds, fun s hs => (h.prompt s hs).raises⟩

theorem heeds_bind {x : Attempt α} {f : α → Attempt β} (hx : store.Heeds x.outcome x.effects)
    (hf : ∀ a, x.outcome = .ok a → store.Heeds (f a).outcome (f a).effects) :
    store.Heeds (x >>= f).outcome (x >>= f).effects := by
  show store.Heeds (x.bind f).outcome (x.bind f).effects
  unfold bind
  cases ho : x.outcome with
  | error e =>
    rw [ho] at hx
    exact hx.mono fun e' he' => by cases he'; rfl
  | ok a => exact hx.append (hf a ho) fun e he => by rw [ho] at he; cases he

theorem prompt_bind {x : Attempt α} {f : α → Attempt Solutions}
    (hx : store.Heeds x.outcome x.effects)
    (hf : ∀ a, x.outcome = .ok a → (f a).Prompt store m tests) :
    (x >>= f).Prompt store m tests := by
  refine ⟨heeds_bind hx fun a ha => (hf a ha).heeds, fun s hs => ?_⟩
  obtain ⟨a, ha, hs⟩ := outcome_bind_iff.mp hs
  exact (hf a ha).prompt s hs

theorem prompt_pure {s : Solutions} (h : s.Prompt store m tests) :
    (Pure.pure s : Attempt Solutions).Prompt store m tests := by
  refine ⟨TripleStore.heeds_nil _, ?_⟩
  rintro _ ⟨⟩
  exact h

theorem Prompt.weaken {tests' : Bool} {x : Attempt Solutions} (h : x.Prompt store m tests)
    (ht : tests' = false → tests = false) : x.Prompt store m tests' :=
  ⟨h.heeds, fun s hs => ⟨(h.prompt s hs).raises, (h.prompt s hs).cold,
    fun hq => (h.prompt s hs).quiet fun hm => ht (hq hm)⟩⟩

end Attempt

namespace Solutions
variable {store : TripleStore} {m : Mode} {tests : Bool} {s : Solutions}

theorem prompt_deliver (header : List Variable) {hot : Bool} {r : Run}
    (hr : Event.Raises store r.started) (hcold : m = .pull → hot = false)
    (hquiet : (m = .pull → tests = false) → r.opening = []) :
    (deliver m header hot r).Prompt store m tests := by
  cases m with
  | pull =>
    obtain rfl := hcold rfl
    exact Attempt.prompt_pure ⟨hr, fun _ => rfl, hquiet⟩
  | push =>
    obtain ⟨opening, events⟩ := r
    obtain rfl : opening = [] := hquiet nofun
    refine ⟨TripleStore.heeds_nil _, ?_⟩
    rintro _ ⟨⟩
    exact ⟨hr, nofun, fun _ => rfl⟩

/-- An operator on the events of prompt solutions delivers prompt solutions. -/
theorem Prompt.through (h : s.Prompt store m tests) {f : List Event → List Event}
    (hf : Event.PassesOn store f) (header : List Variable) :
    (deliver m header s.isHot { s.run with events := f s.run.events }).Prompt store m tests :=
  prompt_deliver header (hf.started s.run ▸ hf.raises h.raises) h.cold h.quiet

theorem Prompt.project (h : s.Prompt store m tests) (header : List Variable) :
    (s.project m header).Prompt store m tests := by
  unfold Solutions.project
  dsimp only
  split
  · exact Attempt.prompt_pure h
  · exact h.through (Event.passesOn_mapRows _) header

/-- A slice that demands nothing must not follow a test. -/
theorem Prompt.slice (h : s.Prompt store m tests) (header : List Variable) (start : Nat)
    {limit : Option Nat} (hzero : limit = some 0 → m = .pull → tests = false) :
    (s.slice m header start limit).Prompt store m tests := by
  by_cases hl : limit = some 0
  · subst hl
    have hopening := h.quiet (hzero rfl)
    refine prompt_deliver header ?_ h.cold fun _ => hopening
    rw [Event.slice_zero]
    simp only [Run.started, hopening]
    exact .nil
  · exact h.through (Event.passesOn_fuse.comp (Event.passesOn_slice start hl)) header

/-- A test begins with what happens up to the first item, and its answer comes after that. -/
theorem Prompt.test (h : s.Prompt store m tests) (header : List Variable) :
    (s.test m header).Prompt store m true := by
  have hanswer (as : List Act) (is : List Item)
      (hfirst : Event.Raises store (Run.started ⟨as, Event.ofItems is⟩)) :
      Event.Raises store (Run.started ⟨as, Event.mapRows (fun _ => .empty) (Event.ofItems is)⟩) := by
    have hrow : Event.PassesOn store (Event.mapRows fun _ => .empty) := Event.passesOn_mapRows _
    rw [hrow.started ⟨as, Event.ofItems is⟩]
    exact hrow.raises hfirst
  have hknown := hanswer [] (Event.items (Event.demand 1 s.run.events).1) (Event.raises_ofItems _)
  have hunknown := hanswer _ _ h.raises.first
  unfold Solutions.test
  cases m with
  | pull =>
    cases s.known with
    | some rows => exact prompt_deliver header hknown h.cold fun hq => nomatch hq rfl
    | none => exact prompt_deliver header hunknown h.cold fun hq => nomatch hq rfl
  | push =>
    cases s.known with
    | some rows => exact prompt_deliver header hknown nofun fun _ => rfl
    | none => exact prompt_deliver header hunknown nofun fun _ => rfl

theorem Prompt.aligned (h : s.Prompt store m tests) (header : List Variable) :
    Event.Raises store (Run.started { s.run with events := s.aligned header }) := by
  unfold Solutions.aligned
  dsimp only
  split
  · exact h.raises
  · have hmap : Event.PassesOn store
        (Event.mapRows (·.project (Variable.columns s.header header))) := Event.passesOn_mapRows _
    rw [hmap.started]
    exact hmap.raises h.raises

/-- Only the first alternative may begin with a test. -/
theorem prompt_union {ss : List Solutions} (header : List Variable)
    (h : ∀ s ∈ ss, s.Prompt store m true) (hlater : ∀ s ∈ ss.tail, s.run.opening = [])
    (hquiet : (m = .pull → tests = false) → ∀ s ∈ ss, s.run.opening = []) :
    (union m header ss).Prompt store m tests := by
  refine prompt_deliver header ?_ (fun hm => ?_) fun hq => ?_
  · cases ss with
    | nil => exact .nil
    | cons s ss =>
      have hnone : ss.flatMap (·.run.opening) = [] := List.flatMap_eq_nil_iff.mpr hlater
      have hrest : Event.Raises store (ss.flatMap (aligned header)) := by
        refine Event.raises_flatMap fun t ht => ?_
        have haligned := (h t (List.mem_cons_of_mem s ht)).aligned header
        rwa [Run.started, hlater t ht] at haligned
      simp only [Run.started, List.flatMap_cons, hnone, List.append_nil, ← List.append_assoc]
      exact ((h s List.mem_cons_self).aligned header).append hrest
  · exact List.any_eq_false.mpr fun s hs => by simp [(h s hs).cold hm]
  · exact List.flatMap_eq_nil_iff.mpr (hquiet hq)

end Solutions

namespace Plan
variable {c : Context} {p : Plan} {m : Mode}

/-- What a cold store answers is prompt. -/
theorem prompt_answer (hc : c.store.Cold) {t : Pattern} {s : Solutions}
    (h : c.store.lookup t = .ok s) : s.Prompt c.store m false := by
  rcases hc t s h with ⟨header, rows, rfl⟩ | ⟨header, is, rfl⟩
  · exact ⟨Event.raises_ofRows rows, fun _ => rfl, fun _ => rfl⟩
  · refine ⟨?_, fun _ => rfl, fun _ => rfl⟩
    show Event.Raises c.store (is.flatMap fun i => [.act (.always (.take i)), .item i])
    refine Event.raises_flatMap fun i _ => ?_
    cases i with
    | ok r =>
      exact .act (TripleStore.heeds_cons (fun e he => nomatch he) (TripleStore.heeds_nil _))
        (.row r .nil)
    | error e =>
      refine .act (TripleStore.heeds_cons (fun e' he => ⟨rfl, ?_⟩) (TripleStore.heeds_nil _))
        (.error e [])
      cases he
      rfl

theorem prompt_triple (hc : c.store.Cold) (t : Pattern) :
    (evaluateTriple c m t).Prompt c.store m false := by
  refine Attempt.prompt_bind ?_ fun s hs => ?_
  · refine TripleStore.heeds_cons (fun e he => ⟨rfl, ?_⟩) (TripleStore.heeds_nil _)
    cases hlookup : c.store.lookup t with
    | ok s => simp [TripleStore.failure?, hlookup] at he
    | error e' =>
      simp only [TripleStore.failure?, hlookup] at he
      cases he
      rfl
  · have hs := prompt_answer (m := m) hc (Attempt.mapError_eq_ok_iff.mp hs)
    cases m with
    | pull => exact Attempt.prompt_pure hs
    | push => exact hs.through ⟨fun _ _ => rfl, fun h => h⟩ s.header

theorem prompt_runJoin {store : TripleStore} {header : List Variable} {run : Dispatcher p}
    {head : { q : Plan // q.rank < p.rank }} {plan : JoinPlan p.rank} {tests : Bool}
    (hhead : (run head.1 (.inl head.2)).Prompt store m tests)
    (hsteps : ∀ s ∈ plan.steps, ∀ row,
      (run (s.specialise row) (.inl (s.rank_specialise_lt row))).Raises store) :
    (runJoin m header run head plan).Prompt store m tests :=
  Attempt.prompt_bind hhead.heeds fun s hs =>
    (hhead.prompt s hs).through (plan.passesOn_events hsteps s.header) header

theorem heeds_evaluateAlternatives {store : TripleStore} {run : Dispatcher p} {ps : List Plan}
    (hps : ∀ q ∈ ps, q.rank < p.rank)
    (h : ∀ q hq, q ∈ ps → store.Heeds (run q hq).outcome (run q hq).effects) :
    store.Heeds (evaluateAlternatives run ps hps).outcome
      (evaluateAlternatives run ps hps).effects := by
  induction ps with
  | nil => exact TripleStore.heeds_nil _
  | cons q qs ih =>
    refine Attempt.heeds_bind (h q _ List.mem_cons_self) fun s _ => ?_
    refine Attempt.heeds_bind (ih _ fun r hr hm => ?_) fun ss _ => TripleStore.heeds_nil _
    exact h r hr (List.mem_cons_of_mem q hm)

/-- Every evaluator is prompt if those of the plans that are evaluated for it are. -/
theorem prompt_evaluate (hc : c.store.Cold) (hp : m = .pull → p.testsInTime) {run : Dispatcher p}
    (h : ∀ q hq, p.Called q → (run q hq).Prompt c.store m q.tests) :
    (evaluate c (.builtin p.kind.family m) p run).Prompt c.store m p.tests := by
  have hchild (q : Plan) (hq) (hm : q ∈ p.children) : (run q hq).Prompt c.store m q.tests :=
    h q hq (.child hm)
  cases p with
  | triple t => exact prompt_triple hc t
  | identity =>
    have hone : Event.Raises c.store (Event.ofRows [.empty]) := .row _ .nil
    cases m with
    | pull => exact Attempt.prompt_pure ⟨hone, fun _ => rfl, fun _ => rfl⟩
    | push =>
      have hnothing : (Solutions.deliver .push [] false ⟨[], Event.ofRows [.empty]⟩).Prompt c.store
          .push false := Solutions.prompt_deliver [] hone (fun _ => rfl) fun _ => rfl
      exact hnothing
  | join ps =>
    have hmem : ∀ q ∈ operandsOf c ps, q.1 ∈ (join ps).children := fun q => mem_of_mem_operandsOf
    show (evaluateJoin c m (.join ps) run).Prompt _ _ _
    rw [evaluateJoin_eq]
    generalize operandsOf c ps = operands at *
    cases operands with
    | nil =>
      have hnothing := h identity (.inl (rank_identity_lt_join ps))
        (.nothing (rank_identity_lt_join ps))
      have hjoin : (runJoin m (join ps).vars run ⟨.identity, rank_identity_lt_join ps⟩
          (joinPlan .identity [] (arranged c ps).2)).Prompt c.store m false :=
        prompt_runJoin hnothing fun s hs => absurd hs List.not_mem_nil
      exact hjoin.weaken fun _ => rfl
    | cons head rest =>
      have hjoin : (runJoin m (join ps).vars run head
          (joinPlan head.1 rest (arranged c ps).2)).Prompt c.store m head.1.tests :=
        prompt_runJoin (hchild head.1 (.inl head.2) (hmem head List.mem_cons_self))
          fun s hs row => (h _ _ (called_ofOperands
            (fun q hq => hmem q (List.mem_cons_of_mem head hq)) hs row)).raises
      exact hjoin.weaken fun ht => testsEach_eq_false ht (hmem head List.mem_cons_self)
  | leftJoin l r condition =>
    exact prompt_runJoin (hchild l _ (by simp [children]))
      fun s hs row => (h _ _ (called_leftJoin hs row)).raises
  | values q vs table =>
    show (evaluateValues m (.values q vs table) run).Prompt _ _ _
    rw [evaluateValues_eq]
    have hevents : Event.PassesOn c.store
        ((tablePlan q vs table).events (fun q h => run q (.inl h)) vs) :=
      (tablePlan q vs table).passesOn_events
        (fun s hs row => (h _ _ (called_values hs row)).raises) vs
    exact Solutions.prompt_deliver _ (hevents.raises (Event.raises_ofRows table)) (fun _ => rfl)
      fun _ => rfl
  | union ps =>
    refine Attempt.prompt_bind (heeds_evaluateAlternatives _ fun q hq hm => (hchild q hq hm).heeds)
      fun ss hss => ?_
    have hone (s) (hs : s ∈ ss) : ∃ q ∈ ps, s.Prompt c.store m q.tests := by
      obtain ⟨q, hq, hm, ho⟩ := mem_evaluateAlternatives hss hs
      exact ⟨q, hm, (hchild q hq hm).prompt s ho⟩
    refine Solutions.prompt_union _ (fun s hs => ?_) ?_ fun ht s hs => ?_
    · obtain ⟨q, -, hprompt⟩ := hone s hs
      exact ⟨hprompt.raises, hprompt.cold, fun hm => hprompt.quiet fun hpull => by simp [hpull] at hm⟩
    · cases ps with
      | nil =>
        cases hss
        exact fun s hs => absurd hs List.not_mem_nil
      | cons q qs =>
        rw [evaluateAlternatives] at hss
        obtain ⟨s, -, hss⟩ := Attempt.outcome_bind_iff.mp hss
        obtain ⟨ss', hss', hss⟩ := Attempt.outcome_bind_iff.mp hss
        cases hss
        intro t ht
        obtain ⟨r, hr, hm, ho⟩ := mem_evaluateAlternatives hss' ht
        exact ((hchild r hr (List.mem_cons_of_mem q hm)).prompt t ho).quiet fun hpull =>
          hp hpull r hm
    · obtain ⟨q, hq, hprompt⟩ := hone s hs
      exact hprompt.quiet fun hm => testsEach_eq_false (ht hm) hq
  | filter q cs =>
    have hq := hchild q (.inr (by simp [rank]; omega)) (by simp [children])
    exact Attempt.prompt_bind hq.heeds fun s hs =>
      (hq.prompt s hs).through (Event.passesOn_filterRows _) _
  | project q vs =>
    have hq := hchild q (.inr (by simp [rank]; omega)) (by simp [children])
    exact Attempt.prompt_bind hq.heeds fun s hs => (hq.prompt s hs).project _
  | distinct q | weakDistinct q =>
    have hq := hchild q (.inl (by simp [rank])) (by simp [children])
    exact Attempt.prompt_bind hq.heeds fun s hs =>
      (hq.prompt s hs).through (Event.passesOn_distinct _) _
  | assign q v e =>
    have hq := hchild q (.inl (by simp [rank])) (by simp [children])
    exact Attempt.prompt_bind hq.heeds fun s hs =>
      (hq.prompt s hs).through (Event.passesOn_mapRows _) _
  | limit q n =>
    have hq := hchild q (.inl (by simp [rank])) (by simp [children])
    refine Attempt.prompt_bind hq.heeds fun s hs => (hq.prompt s hs).slice _ 0 fun hz hm => ?_
    cases hz
    exact hp hm
  | offset q n =>
    have hq := hchild q (.inl (by simp [rank])) (by simp [children])
    exact Attempt.prompt_bind hq.heeds fun s hs => (hq.prompt s hs).slice _ n (by simp)
  | slice q n count =>
    have hq := hchild q (.inl (by simp [rank])) (by simp [children])
    refine Attempt.prompt_bind hq.heeds fun s hs => (hq.prompt s hs).slice _ n fun hz hm => ?_
    cases hz
    exact hp hm
  | semijoin q r | antijoin q r =>
    have hq := hchild q (.inl (by simp only [rank]; omega)) (by simp [children])
    exact Attempt.prompt_bind hq.heeds fun s hs => (hq.prompt s hs).through
      (Event.passesOn_correlate (fun b hb => (h _ _ (called_apply (by simp [children])
        (by simp only [rank]; omega) b)).raises) _ _) _
  | minus l r b =>
    have hl := hchild l (.inl (by simp only [rank]; omega)) (by simp [children])
    refine Attempt.prompt_bind hl.heeds fun s hs => ?_
    dsimp only
    cases c.config.minus with
    | bind =>
      exact (hl.prompt s hs).through (MinusPlan.passesOn_boundEvents (p := .ofSides l r b)
        fun x hx => (h _ _ (called_apply (q := r) (by simp [children])
          (by simp only [rank]; omega) x)).raises) _
    | set =>
      have hr := hchild r (.inl (by simp only [rank]; omega)) (by simp [children])
      exact Attempt.prompt_bind hr.heeds fun s' hs' => (hl.prompt s hs).through
        (MinusPlan.passesOn_setEvents _ (Solutions.heeds_gather (hr.prompt s' hs').raises)) _
  | ask q =>
    have hq := hchild q (.inl (by simp [rank])) (by simp [children])
    exact Attempt.prompt_bind hq.heeds fun s hs => (hq.prompt s hs).test _

/-- The evaluation of a plan is prompt if all plans are evaluated in one mode, and tests are pushed
or made in time. -/
theorem prompt_dispatch (hr : c.registry = .builtin) (hc : c.store.Cold)
    (hmodes : c.config.modes = []) (hp : c.config.defaultMode = .pull → p.InTime) :
    (dispatch c p).Prompt c.store c.config.defaultMode p.tests := by
  induction p using inductBelow with
  | _ p ih =>
    have hmode : c.config.mode p.kind = c.config.defaultMode := by simp [Config.mode, hmodes]
    have hevaluate : (evaluate c (.builtin p.kind.family c.config.defaultMode) p
        fun q _ => dispatch c q).Prompt c.store c.config.defaultMode p.tests :=
      prompt_evaluate hc (fun hm => (hp hm).here)
        fun q hq hcalled => ih q hq fun hm => (hp hm).called hcalled
    rw [dispatch]
    simp only [hr, Registry.find?_builtin, hmode]
    refine Attempt.prompt_bind hevaluate.heeds fun s hs => ?_
    unfold checkHeader
    split
    · exact ⟨TripleStore.heeds_nil _, fun s hs => by cases hs⟩
    · exact Attempt.prompt_pure (hevaluate.prompt s hs)

/-- Evaluates a plan and gathers its rows. -/
def gathered (c : Context) (p : Plan) : Attempt (List Row) := do
  let s ← p.execute c
  ⟨s.gather.effects, s.gather.value⟩

theorem outcome_gathered (c : Context) (p : Plan) : (p.gathered c).outcome = p.collect c := by
  unfold collect
  cases hs : (p.execute c).outcome with
  | error e => exact Attempt.outcome_bind_error hs
  | ok s => exact Attempt.outcome_bind hs

/-- A lookup that is refused or an error that is taken from an answer is the result, and nothing is
looked up or taken after it. This holds in either mode, with any strategies; but pulled tests have
to be made in time. -/
theorem first_failure_is_result {store : TripleStore} (hstore : store.Cold) {config : Config}
    (hmodes : config.modes = []) {p : Plan} (hp : config.defaultMode = .pull → p.InTime)
    {before after : List Effect} {x : Effect}
    (h : (p.gathered ⟨store, config, .builtin⟩).effects = before ++ x :: after) {e : Problem}
    (hx : store.failure? x = some e) :
    after = [] ∧ p.collect ⟨store, config, .builtin⟩ = .error e := by
  have hprompt := prompt_dispatch (c := ⟨store, config, .builtin⟩) rfl hstore hmodes hp
  rw [← execute_eq rfl] at hprompt
  have hheeds := Attempt.heeds_bind hprompt.heeds (f := fun s => ⟨s.gather.effects, s.gather.value⟩)
    fun s hs => Solutions.heeds_gather (hprompt.prompt s hs).raises
  rw [← outcome_gathered]
  exact hheeds before x after e h hx

end Plan

theorem TripleStore.cold_stepwise (m : Store.Memory) (outage : Option Outage) :
    (TripleStore.stepwise m outage).Cold := by
  intro t s h
  obtain ⟨-, items, -, rfl, -⟩ := exists_items_of_lookup h
  exact .inr ⟨_, _, rfl⟩

namespace Plan

/-- A test below a slice that demands its answer. The store fails in the first row. -/
theorem first_failure_is_result_test :
    let store := TripleStore.stepwise (.ofTriples Contents.path.triples)
      (some ⟨.iri "p", some 0, "lost"⟩)
    let t : Pattern := ⟨.var ⟨"x"⟩, .term (.iri "p"), .var ⟨"y"⟩⟩
    let p := limit (ask (.triple t)) 1
    let e : Problem := .storage (.other "lost")
    store.Cold ∧ p.InTime ∧
      (p.gathered ⟨store, {}, .builtin⟩).effects = [.lookup t, .take (.error e)] ∧
      p.collect ⟨store, {}, .builtin⟩ = .error e := by
  intro store t p e
  have hcold : store.Cold := TripleStore.cold_stepwise _ _
  have htriple : InTime (.triple t) := .node trivial (by simp [children])
  have hask : InTime (ask (.triple t)) := .node trivial (List.forall_mem_singleton.mpr htriple)
  have hp : p.InTime := .node trivial (List.forall_mem_singleton.mpr hask)
  have heffects : (p.gathered ⟨store, {}, .builtin⟩).effects =
      [.lookup t] ++ .take (.error e) :: [] := by
    rw [gathered, execute_eq_dispatchWithin rfl (dispatch ⟨store, {}, .builtin⟩)]
    rfl
  obtain ⟨-, hcollect⟩ := first_failure_is_result hcold rfl (fun _ => hp) heffects rfl
  exact ⟨hcold, hp, heffects, hcollect⟩

/-- A pulled test takes its item although nothing is demanded, and its error is lost. -/
theorem slice_swallows_failure :
    let store := TripleStore.stepwise (.ofTriples Contents.path.triples)
      (some ⟨.iri "p", some 0, "lost"⟩)
    let t : Pattern := ⟨.var ⟨"x"⟩, .term (.iri "p"), .var ⟨"y"⟩⟩
    let p := limit (ask (.triple t)) 0
    let e : Problem := .storage (.other "lost")
    store.Cold ∧ store.failure? (.take (.error e)) = some e ∧
      (p.gathered ⟨store, {}, .builtin⟩).effects = [.lookup t, .take (.error e)] ∧
      p.collect ⟨store, {}, .builtin⟩ = .ok [] := by
  intro store t p e
  have hcollect : p.collect ⟨store, {}, .builtin⟩ = .ok [] := by
    rw [collect, execute_eq_dispatchWithin rfl (dispatch ⟨store, {}, .builtin⟩)]
    rfl
  have heffects : (p.gathered ⟨store, {}, .builtin⟩).effects = [.lookup t, .take (.error e)] := by
    rw [gathered, execute_eq_dispatchWithin rfl (dispatch ⟨store, {}, .builtin⟩)]
    rfl
  exact ⟨TripleStore.cold_stepwise _ _, rfl, heffects, hcollect⟩

end Plan
end TripleAlgebra
