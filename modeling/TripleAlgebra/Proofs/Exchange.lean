import TripleAlgebra.Proofs.Items
import TripleAlgebra.Solutions.View

/-! What a subscription makes happen over a schedule of turns. The producer sends what is asked for
and nothing more, and the consumer receives what has been sent, in its order. -/
namespace TripleAlgebra

/-- The events of a source that takes each item before it delivers it. -/
def Event.taking (is : List Item) : List Event :=
  is.flatMap fun i => [.act (.always (.take i)), .item i]

theorem Event.items_taking (is : List Item) : items (taking is) = is := by
  induction is with
  | nil => rfl
  | cons i is ih => exact congrArg (i :: ·) ih

theorem Event.taken_taking (is : List Item) : Effect.taken (effects (taking is)) = is := by
  induction is with
  | nil => rfl
  | cons i is ih => exact congrArg (i :: ·) ih

theorem Event.taken_append (es fs : List Event) :
    Effect.taken (effects (es ++ fs)) =
      Effect.taken (effects es) ++ Effect.taken (effects fs) := by
  simp [effects, acts, Effect.taken]

namespace Subscription
variable {s : Subscription}

/-! A turn of the producer. A source that is never pending is a case of one that can be. -/

/-- Each item that is sent meets one demand. -/
theorem produceWithin_demand (n ready : Nat) (es : List Event) :
    (produceWithin n ready es).2.1 + (Event.items (produceWithin n ready es).1).length = n := by
  fun_induction produceWithin n ready es <;> simp_all [Event.items_item]
  all_goals omega

/-- A producer that finishes has sent all up to the first error, and nothing behind it. -/
theorem untilError_produceWithin (n ready : Nat) (es : List Event) :
    (Event.untilError es).1 = (produceWithin n ready es).1 ++
      if (produceWithin n ready es).2.2.1 then []
      else (Event.untilError (produceWithin n ready es).2.2.2).1 := by
  fun_induction produceWithin n ready es <;> simp_all [Event.untilError]

theorem produceWithin_of_length_lt {ready : Nat} {es : List Event} (n : Nat)
    (h : es.length < ready) : produceWithin n ready es = produceFrom n es := by
  induction es generalizing n ready with
  | nil =>
    obtain ⟨ready, rfl⟩ := Nat.exists_eq_add_of_lt h
    rfl
  | cons e es ih =>
    cases ready with
    | zero => cases h
    | succ ready =>
      have hrest (k : Nat) : produceWithin k ready es = produceFrom k es :=
        ih k (Nat.lt_of_succ_lt_succ h)
      rcases e with a | e | r <;> simp only [produceWithin, produceFrom, hrest]

theorem produceFrom_stops (n : Nat) (es : List Event) :
    (produceFrom n es).2.1 = 0 ∨ (produceFrom n es).2.2.1 = true := by
  fun_induction produceFrom n es <;> simp_all
  omega

theorem advanceWithin_of_length_lt {ready : Nat} (h : s.pending.length < ready) :
    s.advanceWithin ready = s.advance := by
  have hwaits : (!(produceFrom s.demand s.pending).2.2.1 &&
      decide ((produceFrom s.demand s.pending).2.1 = 0)) =
      !(produceFrom s.demand s.pending).2.2.1 := by
    rcases produceFrom_stops s.demand s.pending with hstops | hstops <;> simp [hstops]
  simp only [advanceWithin, advance, produceWithin_of_length_lt s.demand h, hwaits]

/-- Nothing is taken for an item that is not sent. -/
theorem produceFrom_taking (n : Nat) (is : List Item) : ∃ sent left,
    (produceFrom n (Event.taking is)).1 = Event.taking sent ∧
      (produceFrom n (Event.taking is)).2.2.2 = Event.taking left := by
  induction is generalizing n with
  | nil => exact ⟨[], [], rfl, rfl⟩
  | cons i is ih =>
    cases n with
    | zero => exact ⟨[], i :: is, rfl, rfl⟩
    | succ n =>
      cases i with
      | error e => exact ⟨[.error e], is, rfl, rfl⟩
      | ok r =>
        obtain ⟨sent, left, hsent, hleft⟩ := ih n
        exact ⟨.ok r :: sent, left, congrArg (Event.act _ :: Event.item _ :: ·) hsent, hleft⟩

/-- What the producer would still make happen if it were asked for everything. -/
def remaining (s : Subscription) : List Event :=
  if s.finished then [] else (Event.untilError s.pending).1

/-- A producer that waits without a signal has nothing to do. -/
def Awake (s : Subscription) : Prop :=
  s.finished = false → s.waiting = true → s.signalled = false → s.demand = 0 ∧ s.cancelled = false

/-- What a turn of the producer can do. It rests, it finishes because it is cancelled, or it sends
items. -/
theorem advance_cases (s : Subscription) :
    (s.advance = ([], s) ∧ (s.finished = true ∨ s.waiting = true ∧ s.signalled = false)) ∨
    (s.advance = ([], { s with finished := true }) ∧ s.finished = false ∧ s.cancelled = true) ∨
    (s.finished = false ∧ s.cancelled = false ∧
      s.advance = ((produceFrom s.demand s.pending).1,
        { s with
          pending := (produceFrom s.demand s.pending).2.2.2
          demand := (produceFrom s.demand s.pending).2.1
          finished := (produceFrom s.demand s.pending).2.2.1
          waiting := !(produceFrom s.demand s.pending).2.2.1
          signalled := false
          buffer := s.buffer ++ Event.items (produceFrom s.demand s.pending).1 })) := by
  unfold advance
  split_ifs with hrest hcancel
  · exact .inl ⟨rfl, by simpa using hrest⟩
  · exact .inr (.inl ⟨rfl, by simp_all, hcancel⟩)
  · exact .inr (.inr ⟨by simp_all, by simpa using hcancel, rfl⟩)

/-- What a turn of the producer can do if its source can be pending. -/
theorem advanceWithin_cases (s : Subscription) (ready : Nat) :
    (s.advanceWithin ready = ([], s) ∧
      (s.finished = true ∨ s.waiting = true ∧ s.signalled = false)) ∨
    (s.advanceWithin ready = ([], { s with finished := true }) ∧
      s.finished = false ∧ s.cancelled = true) ∨
    (s.finished = false ∧ s.cancelled = false ∧
      s.advanceWithin ready = ((produceWithin s.demand ready s.pending).1,
        { s with
          pending := (produceWithin s.demand ready s.pending).2.2.2
          demand := (produceWithin s.demand ready s.pending).2.1
          finished := (produceWithin s.demand ready s.pending).2.2.1
          waiting := !(produceWithin s.demand ready s.pending).2.2.1 &&
            decide ((produceWithin s.demand ready s.pending).2.1 = 0)
          signalled := false
          buffer := s.buffer ++ Event.items (produceWithin s.demand ready s.pending).1 })) := by
  unfold advanceWithin
  split_ifs with hrest hcancel
  · exact .inl ⟨rfl, by simpa using hrest⟩
  · exact .inr (.inl ⟨rfl, by simp_all, hcancel⟩)
  · exact .inr (.inr ⟨by simp_all, by simpa using hcancel, rfl⟩)

theorem advanceWithin_demand (s : Subscription) (ready : Nat) :
    (s.advanceWithin ready).2.demand + (Event.items (s.advanceWithin ready).1).length =
      s.demand := by
  obtain ⟨h, -⟩ | ⟨h, -⟩ | ⟨-, -, h⟩ := s.advanceWithin_cases ready <;> rw [h]
  · rfl
  · rfl
  · exact produceWithin_demand _ _ _

/-- A turn of the producer meets a demand for each item, and stops when no demand is left. -/
theorem advance_demand (s : Subscription) :
    s.advance.2.demand + (Event.items s.advance.1).length = s.demand := by
  rw [← advanceWithin_of_length_lt (Nat.lt_succ_self _)]
  exact s.advanceWithin_demand _

theorem Awake.advance_stops (h : s.Awake) :
    s.advance.2.demand = 0 ∨ s.advance.2.finished = true := by
  by_cases hf : s.finished = true
  · right
    obtain ⟨ha, -⟩ | ⟨ha, -⟩ | ⟨hnot, -⟩ := s.advance_cases
    · rw [ha, hf]
    · rw [ha]
    · simp [hf] at hnot
  · simp only [Bool.not_eq_true] at hf
    obtain ⟨ha, hfinished | ⟨hw, hs⟩⟩ | ⟨ha, -⟩ | ⟨-, -, ha⟩ := s.advance_cases <;> rw [ha]
    · exact .inr hfinished
    · exact .inl (h hf hw hs).1
    · exact .inr rfl
    · exact produceFrom_stops _ _

theorem Awake.advance_cancelled (h : s.Awake) (hc : s.cancelled = true) :
    s.advance.2.finished = true := by
  obtain ⟨ha, hfinished | ⟨hw, hs⟩⟩ | ⟨ha, -⟩ | ⟨-, hnot, -⟩ := s.advance_cases
  · rw [ha]
    exact hfinished
  · rw [ha]
    by_contra hf
    exact absurd hc (by simp [(h (Bool.eq_false_iff.mpr hf) hw hs).2])
  · rw [ha]
  · exact absurd hc (by simp [hnot])

/-! What every exchange keeps, whoever takes turns and in which order. -/

/-- `asked` rows have been asked for. All that was sent has been received or waits to be, and what
was made happen comes from the front of what remained. -/
structure Keeps (s : Subscription) (asked : Nat) (x : Exchange) : Prop where
  sent : s.buffer ++ x.produced = x.received ++ x.next.buffer
  demand_le : x.next.demand + x.produced.length ≤ s.demand + asked
  prefix_remaining : x.done ++ x.next.remaining <+: s.remaining
  remaining_eq : x.next.cancelled = false → x.done ++ x.next.remaining = s.remaining
  cancelled : s.cancelled = true → x.next.cancelled = true
  awake : s.Awake → x.next.Awake

theorem Keeps.andThen {x y : Exchange} {a b : Nat} (hx : s.Keeps a x) (hy : x.next.Keeps b y) :
    s.Keeps (a + b) (x.andThen y) where
  sent := by
    rw [Exchange.produced_andThen, Exchange.received_andThen, ← List.append_assoc, hx.sent,
      List.append_assoc, hy.sent, List.append_assoc]
    rfl
  demand_le := by
    have hfirst := hx.demand_le
    have hsecond := hy.demand_le
    rw [Exchange.produced_andThen, List.length_append]
    show y.next.demand + _ ≤ _
    omega
  prefix_remaining := by
    refine .trans ?_ hx.prefix_remaining
    show x.done ++ y.done ++ y.next.remaining <+: _
    rw [List.append_assoc]
    exact (List.prefix_append_right_inj _).mpr hy.prefix_remaining
  remaining_eq hc := by
    have hfirst : x.next.cancelled = false :=
      Bool.eq_false_iff.mpr fun h => Bool.eq_false_iff.mp hc (hy.cancelled h)
    rw [← hx.remaining_eq hfirst, ← hy.remaining_eq hc, ← List.append_assoc]
    rfl
  cancelled := hy.cancelled ∘ hx.cancelled
  awake := hy.awake ∘ hx.awake

theorem keeps_nothing (s : Subscription) : s.Keeps 0 ⟨[], [], s⟩ where
  sent := by simp [Exchange.produced, Exchange.received]
  demand_le := Nat.le_refl _
  prefix_remaining := List.prefix_rfl
  remaining_eq _ := rfl
  cancelled := id
  awake := id

theorem keeps_request (s : Subscription) (n : Nat) : s.Keeps n ⟨[], [], s.request n⟩ := by
  unfold request
  split
  · rename_i hn
    exact hn ▸ s.keeps_nothing
  · exact {
      sent := by simp [Exchange.produced, Exchange.received]
      demand_le := Nat.min_le_right _ _
      prefix_remaining := List.prefix_rfl
      remaining_eq := fun _ => rfl
      cancelled := id
      awake := fun _ _ _ hs => by cases hs }

theorem keeps_receive (s : Subscription) : s.Keeps 0 ⟨[], [s.receive.1], s.receive.2⟩ := by
  unfold receive
  split
  · rename_i i is hb
    exact {
      sent := by simp [Exchange.produced, Exchange.received, Receipt.item?, hb]
      demand_le := Nat.le_refl _
      prefix_remaining := List.prefix_rfl
      remaining_eq := fun _ => rfl
      cancelled := id
      awake := id }
  · have hnone : (if s.finished then Receipt.ended else .nothingYet).item? = none := by
      split <;> rfl
    exact { s.keeps_nothing with sent := by simp [Exchange.produced, Exchange.received, hnone] }

theorem keeps_cancel (s : Subscription) : s.Keeps 0 ⟨[], [], s.cancel⟩ where
  sent := by simp [cancel, Exchange.produced, Exchange.received]
  demand_le := Nat.le_refl _
  prefix_remaining := List.prefix_rfl
  remaining_eq _ := rfl
  cancelled _ := rfl
  awake _ _ _ hs := by cases hs

theorem keeps_produceWithin (s : Subscription) (ready : Nat) :
    s.Keeps 0 ⟨(s.advanceWithin ready).1, [], (s.advanceWithin ready).2⟩ := by
  have hdemand := s.advanceWithin_demand ready
  obtain ⟨h, -⟩ | ⟨h, hf, hc⟩ | ⟨hf, hc, h⟩ := s.advanceWithin_cases ready
  · rw [h]
    exact s.keeps_nothing
  · rw [h]
    exact { s.keeps_nothing with
      prefix_remaining := List.nil_prefix
      remaining_eq := fun hnot => by simp [hc] at hnot
      awake := fun _ hnot => by cases hnot }
  · have hsplit : (s.advanceWithin ready).1 ++ (s.advanceWithin ready).2.remaining =
        s.remaining := by
      rw [h]
      simp only [remaining, hf]
      exact (untilError_produceWithin _ _ _).symm
    exact {
      sent := by simp [h, Exchange.produced, Exchange.received]
      demand_le := Nat.le_of_eq hdemand
      prefix_remaining := hsplit ▸ List.prefix_rfl
      remaining_eq := fun _ => hsplit
      cancelled := fun hnot => by simp [hc] at hnot
      awake := fun _ _ hw _ => by
        rw [h] at hw ⊢
        simp only [Bool.and_eq_true, decide_eq_true_eq] at hw
        exact ⟨hw.2, hc⟩ }

theorem keeps_produce (s : Subscription) : s.Keeps 0 ⟨s.advance.1, [], s.advance.2⟩ := by
  rw [← advanceWithin_of_length_lt (Nat.lt_succ_self _)]
  exact s.keeps_produceWithin _

theorem keeps_turn (s : Subscription) (t : Turn) : s.Keeps t.asks (s.turn t) := by
  cases t with
  | request n => exact s.keeps_request n
  | receive => exact s.keeps_receive
  | cancel => exact s.keeps_cancel
  | produce => exact s.keeps_produce

theorem keeps_run (s : Subscription) (ts : List Turn) :
    s.Keeps (Turn.requested ts) (s.run ts) := by
  induction ts generalizing s with
  | nil => exact s.keeps_nothing
  | cons t ts ih => exact (s.keeps_turn t).andThen (ih _)

/-! Demands that stay within the limit are counted exactly. -/

/-- No request saturates the demand. -/
def WithinLimit (s : Subscription) : List Turn → Prop
  | [] => True
  | t :: ts => s.demand + t.asks ≤ demandLimit ∧ (s.turn t).next.WithinLimit ts

instance decidableWithinLimit (s : Subscription) : ∀ ts, Decidable (s.WithinLimit ts)
  | [] => isTrue trivial
  | t :: ts =>
    have := decidableWithinLimit (s.turn t).next ts
    inferInstanceAs (Decidable (_ ∧ _))

theorem turn_demand {t : Turn} (h : s.demand + t.asks ≤ demandLimit) :
    (s.turn t).next.demand + (s.turn t).produced.length = s.demand + t.asks := by
  cases t with
  | request n =>
    show (s.request n).demand + 0 = s.demand + n
    unfold request
    split
    · omega
    · exact Nat.min_eq_right h
  | receive =>
    show s.receive.2.demand + 0 = s.demand + 0
    unfold receive
    split <;> rfl
  | cancel => rfl
  | produce => exact s.advance_demand

theorem run_demand {ts : List Turn} (h : s.WithinLimit ts) :
    (s.run ts).next.demand + (s.run ts).produced.length = s.demand + Turn.requested ts := by
  induction ts generalizing s with
  | nil => rfl
  | cons t ts ih =>
    have hfirst := turn_demand h.1
    have hothers := ih h.2
    rw [run, Exchange.produced_andThen, List.length_append]
    show ((s.turn t).next.run ts).next.demand + _ = s.demand + (t.asks + Turn.requested ts)
    omega

/-! After a cancellation nothing is produced, and what has been sent is received. -/

theorem turn_cancelled (hc : s.cancelled = true) (t : Turn) :
    (s.turn t).done = [] ∧ (s.turn t).received = s.buffer.take ([t].count .receive) ∧
      (s.turn t).next.buffer = s.buffer.drop ([t].count .receive) := by
  cases t with
  | request n =>
    refine ⟨rfl, rfl, ?_⟩
    show (s.request n).buffer = s.buffer
    unfold request
    split <;> rfl
  | receive =>
    refine ⟨rfl, ?_⟩
    show [s.receive.1].filterMap Receipt.item? = s.buffer.take 1 ∧
      s.receive.2.buffer = s.buffer.drop 1
    unfold receive
    split
    · rename_i hb
      simp [hb, Receipt.item?]
    · rename_i hb
      split <;> simp [hb, Receipt.item?]
  | cancel => exact ⟨rfl, rfl, rfl⟩
  | produce =>
    show s.advance.1 = [] ∧ [] = s.buffer.take 0 ∧ s.advance.2.buffer = s.buffer.drop 0
    obtain ⟨h, -⟩ | ⟨h, -⟩ | ⟨-, hnot, -⟩ := s.advance_cases
    · simp [h]
    · simp [h]
    · simp [hc] at hnot

theorem run_cancelled (hc : s.cancelled = true) (ts : List Turn) :
    (s.run ts).done = [] ∧ (s.run ts).received = s.buffer.take (ts.count .receive) ∧
      (s.run ts).next.buffer = s.buffer.drop (ts.count .receive) := by
  induction ts generalizing s with
  | nil => exact ⟨rfl, rfl, rfl⟩
  | cons t ts ih =>
    obtain ⟨hdone, hreceived, hbuffer⟩ := turn_cancelled hc t
    obtain ⟨hdone', hreceived', hbuffer'⟩ := ih ((s.keeps_turn t).cancelled hc)
    have hcount : (t :: ts).count .receive = [t].count .receive + ts.count .receive := by
      rw [← List.singleton_append, List.count_append]
    rw [hbuffer] at hreceived' hbuffer'
    refine ⟨?_, ?_, ?_⟩
    · rw [run, Exchange.andThen, hdone, hdone', List.append_nil]
    · rw [run, Exchange.received_andThen, hreceived, hreceived', hcount, List.take_add]
    · rw [run, Exchange.andThen, hbuffer', hcount, List.drop_drop]

theorem turn_finished (hf : s.finished = true) (t : Turn) : (s.turn t).next.finished = true := by
  cases t with
  | request n =>
    show (s.request n).finished = true
    unfold request
    split <;> exact hf
  | receive =>
    show s.receive.2.finished = true
    unfold receive
    split <;> exact hf
  | cancel => exact hf
  | produce =>
    show s.advance.2.finished = true
    obtain ⟨h, -⟩ | ⟨h, -⟩ | ⟨hnot, -⟩ := s.advance_cases
    · rw [h, hf]
    · rw [h]
    · simp [hf] at hnot

theorem run_finished (hf : s.finished = true) (ts : List Turn) :
    (s.run ts).next.finished = true := by
  induction ts generalizing s with
  | nil => exact hf
  | cons t ts ih => exact ih (turn_finished hf t)

/-- A producer that is cancelled has finished once it had a turn. -/
theorem Awake.run_cancelled (h : s.Awake) (hc : s.cancelled = true) {ts : List Turn}
    (ht : .produce ∈ ts) : (s.run ts).next.finished = true := by
  induction ts generalizing s with
  | nil => cases ht
  | cons t ts ih =>
    rcases List.mem_cons.mp ht with rfl | ht
    · exact run_finished (h.advance_cancelled hc) ts
    · exact ih ((s.keeps_turn t).awake h) ((s.keeps_turn t).cancelled hc) ht

/-! What is taken from a source that takes each item before it delivers it. -/

theorem turn_taking {is : List Item} (h : s.pending = Event.taking is) (t : Turn) :
    ∃ sent left, (s.turn t).done = Event.taking sent ∧
      (s.turn t).next.pending = Event.taking left := by
  cases t with
  | request n =>
    refine ⟨[], is, rfl, ?_⟩
    show (s.request n).pending = _
    unfold request
    split <;> exact h
  | receive =>
    refine ⟨[], is, rfl, ?_⟩
    show s.receive.2.pending = _
    unfold receive
    split <;> exact h
  | cancel => exact ⟨[], is, rfl, h⟩
  | produce =>
    show ∃ sent left, s.advance.1 = _ ∧ s.advance.2.pending = _
    obtain ⟨ha, -⟩ | ⟨ha, -⟩ | ⟨-, -, ha⟩ := s.advance_cases <;> rw [ha]
    · exact ⟨[], is, rfl, h⟩
    · exact ⟨[], is, rfl, h⟩
    · rw [h]
      exact produceFrom_taking s.demand is

theorem run_taking {is : List Item} (h : s.pending = Event.taking is) (ts : List Turn) :
    ∃ sent, (s.run ts).done = Event.taking sent := by
  induction ts generalizing s is with
  | nil => exact ⟨[], rfl⟩
  | cons t ts ih =>
    obtain ⟨sent, left, hsent, hleft⟩ := turn_taking h t
    obtain ⟨others, hothers⟩ := ih hleft
    refine ⟨sent ++ others, ?_⟩
    rw [run, Exchange.andThen, hsent, hothers]
    exact List.flatMap_append.symm

/-- Over any schedule of turns the items that are received or wait to be are those that were produced,
a front part of the items up to the first error. What is asked for and not produced is the demand,
unless a request saturates it. A turn of the producer leaves no demand unless it finishes, which it
does at a cancellation or when all has been sent. After a cancellation nothing is produced, and what
waits is received before the end. -/
theorem exchange_meets_demand (s : Solutions) (ts : List Turn) :
    let start := (ofSolutions s).2
    let x := start.run ts
    let y := x.next.turn .produce
    let all := Event.items (Event.untilError s.nextRun.events).1
    x.received ++ x.next.buffer = x.produced ∧
    x.produced <+: all ∧
    (∀ header source is, s = .ofItems header source is →
      Effect.taken (Event.effects x.done) = x.produced) ∧
    x.next.demand + x.produced.length ≤ Turn.requested ts ∧
    (start.WithinLimit ts → x.next.demand + x.produced.length = Turn.requested ts) ∧
    y.next.demand + y.produced.length = x.next.demand ∧
    (y.next.demand = 0 ∨ y.next.finished = true) ∧
    (y.next.finished = true → y.next.cancelled = true ∨ x.produced ++ y.produced = all) ∧
    ∀ us, let z := x.next.cancel.run us
      z.done = [] ∧ z.received = x.next.buffer.take (us.count .receive) ∧
      (.produce ∈ us → x.next.buffer.length ≤ us.count .receive →
        z.next.receive.1 = .ended) := by
  intro start x y all
  have hx : start.Keeps (Turn.requested ts) x := start.keeps_run ts
  have hy : start.Keeps (Turn.requested ts) (x.andThen y) := hx.andThen (x.next.keeps_turn .produce)
  have hawake : x.next.Awake := hx.awake fun _ hw => by cases hw
  have hzero : start.demand = 0 := rfl
  refine ⟨hx.sent.symm, ?_, ?_, ?_, ?_, x.next.advance_demand, hawake.advance_stops, ?_,
    fun us => ?_⟩
  · obtain ⟨rest, hrest⟩ := hx.prefix_remaining
    have hall : start.remaining = (Event.untilError s.nextRun.events).1 := rfl
    refine ⟨Event.items (x.next.remaining ++ rest), ?_⟩
    rw [Exchange.produced, ← Event.items_append, ← List.append_assoc, hrest, hall]
  · rintro header source is rfl
    obtain ⟨sent, hsent⟩ : ∃ sent, x.done = Event.taking sent := run_taking rfl ts
    rw [Exchange.produced, hsent, Event.taken_taking, Event.items_taking]
  · simpa only [hzero, Nat.zero_add] using hx.demand_le
  · intro h
    simpa only [hzero, Nat.zero_add] using run_demand h
  · intro hfinished
    by_cases hc : y.next.cancelled = true
    · exact .inl hc
    · have hnone : y.next.remaining = [] := if_pos hfinished
      have hdone : x.done ++ y.done ++ y.next.remaining = (Event.untilError s.nextRun.events).1 :=
        hy.remaining_eq (Bool.eq_false_iff.mpr hc)
      rw [hnone, List.append_nil] at hdone
      right
      rw [Exchange.produced, Exchange.produced, ← Event.items_append, hdone]
  · obtain ⟨hdone, hreceived, hbuffer⟩ := run_cancelled (s := x.next.cancel) rfl us
    refine ⟨hdone, hreceived, fun hp hlength => ?_⟩
    have hfinished : (x.next.cancel.run us).next.finished = true :=
      Awake.run_cancelled (fun _ _ hs => by cases hs) rfl hp
    have hempty : (x.next.cancel.run us).next.buffer = [] :=
      hbuffer.trans (List.drop_eq_nil_of_le hlength)
    simp [receive, hempty, hfinished]

/-- Two rows, an error and a row behind it. The error comes with the third demand, and it waits
beside a row when the subscription is cancelled. -/
theorem exchange_meets_demand_of_failing_stream :
    let items : List Item := [.ok .empty, .ok .empty, .error (.storage (.other "lost")), .ok .empty]
    let start := (ofSolutions (.ofItems [] .stream items)).2
    let x := start.run [.request 1, .produce, .receive, .request 2, .produce]
    let us := [.receive, .request 3, .produce, .receive]
    start.WithinLimit [.request 1, .produce, .receive, .request 2, .produce] ∧
      x.next.demand + x.produced.length = 3 ∧
      Effect.taken (Event.effects x.done) = x.produced ∧
      x.produced.length = 3 ∧ x.next.finished = true ∧
      Turn.produce ∈ us ∧ x.next.buffer.length ≤ us.count .receive ∧
      (x.next.cancel.run us).next.receive.1 = .ended := by
  intro items start x us
  have hlimit : start.WithinLimit [.request 1, .produce, .receive, .request 2, .produce] := by
    decide
  obtain ⟨-, -, htaken, -, hdemand, -, -, -, hcancel⟩ := exchange_meets_demand
    (.ofItems [] .stream items) [.request 1, .produce, .receive, .request 2, .produce]
  exact ⟨hlimit, hdemand hlimit, htaken [] .stream items rfl, rfl, rfl, by simp [us], by decide,
    (hcancel us).2.2 (by simp [us]) (by decide)⟩

end Subscription
end TripleAlgebra
