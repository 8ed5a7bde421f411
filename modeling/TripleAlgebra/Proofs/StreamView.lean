import TripleAlgebra.Proofs.Exchange
import TripleAlgebra.Solutions.View

/-! A subscription that is consumed by polls alone. It delivers every item up to the first error and
then the end, and it is never more than one row ahead. -/
namespace TripleAlgebra
namespace Beat

/-- The consumer polls and the channel answers again and again, and the source is ready again and
again. -/
def Fair (σ : Nat → Beat) : Prop :=
  (∀ n, ∃ m ≥ n, ∃ second, σ m = .poll true second) ∧
    ∀ n, ∃ m ≥ n, ∃ ready, σ m = .produce (ready + 1)

theorem exists_ge_tail {p : Nat → Prop} (h : ∀ n, ∃ m ≥ n, p m) (n : Nat) :
    ∃ m ≥ n, p (m + 1) := by
  obtain ⟨m, hle, hm⟩ := h (n + 1)
  obtain ⟨k, rfl⟩ := Nat.exists_eq_add_of_le hle
  exact ⟨n + k, Nat.le_add_right n k, by rwa [Nat.add_right_comm] at hm⟩

theorem Fair.tail {σ : Nat → Beat} (h : Fair σ) : Fair (σ <| · + 1) :=
  ⟨exists_ge_tail h.1, exists_ge_tail h.2⟩

end Beat

namespace Subscription
open Event
variable {s : Subscription}

/-! What a beat keeps, whatever has been asked for. -/

/-- Nothing more is sent, and all that was sent is received. -/
def Done (s : Subscription) : Prop := s.finished = true ∧ s.buffer = []

theorem receiveIf_cases (s : Subscription) (answers : Bool) :
    (∃ i is, answers = true ∧ s.buffer = i :: is ∧
      s.receiveIf answers = (.item i, { s with buffer := is })) ∨
    (answers = true ∧ s.Done ∧ s.receiveIf answers = (.ended, s)) ∨
    ((answers = true → s.buffer = [] ∧ s.finished = false) ∧
      s.receiveIf answers = (.nothingYet, s)) := by
  cases answers with
  | false => exact .inr (.inr ⟨nofun, rfl⟩)
  | true =>
    rcases hb : s.buffer with _ | ⟨i, is⟩
    · cases hf : s.finished
      · exact .inr (.inr ⟨fun _ => ⟨rfl, rfl⟩, by simp [receiveIf, receive, hb, hf]⟩)
      · exact .inr (.inl ⟨rfl, ⟨hf, hb⟩, by simp [receiveIf, receive, hb, hf]⟩)
    · exact .inl ⟨i, is, rfl, rfl, by simp [receiveIf, receive, hb]⟩

/-- A poll receives at once, or nothing comes, it may ask for a row and looks again. -/
theorem poll_cases (s : Subscription) (first second : Bool) :
    (first = true ∧ (s.buffer ≠ [] ∨ s.finished = true) ∧
      s.poll first second = s.receiveIf first) ∨
    (first = true → s.buffer = [] ∧ s.finished = false) ∧
      s.poll first second = s.demandOne.receiveIf second := by
  obtain ⟨i, is, hanswers, hb, h⟩ | ⟨hanswers, hdone, h⟩ | ⟨hnothing, h⟩ :=
    s.receiveIf_cases first
  · exact .inl ⟨hanswers, .inl (by simp [hb]), by rw [poll, h]⟩
  · exact .inl ⟨hanswers, .inr hdone.1, by rw [poll, h]⟩
  · exact .inr ⟨hnothing, by rw [poll, h]⟩

/-- Receiving takes the first item that waits, if the channel answers. -/
theorem receiveIf_next (s : Subscription) (answers : Bool) :
    (s.receiveIf answers).2 = { s with buffer := s.buffer.drop answers.toNat } := by
  obtain ⟨header, pending, demand, cancelled, waiting, signalled, finished, buffer⟩ := s
  cases answers with
  | false => rfl
  | true => cases buffer <;> rfl

theorem demandOne_buffer (s : Subscription) : s.demandOne.buffer = s.buffer := by
  unfold demandOne request
  split <;> rfl

theorem demandOne_finished (s : Subscription) : s.demandOne.finished = s.finished := by
  unfold demandOne request
  split <;> rfl

theorem exists_keeps_demandOne (s : Subscription) : ∃ asked, s.Keeps asked ⟨[], [], s.demandOne⟩ := by
  unfold demandOne
  split
  · exact ⟨1, s.keeps_request 1⟩
  · exact ⟨0, s.keeps_nothing⟩

theorem keeps_receiveIf (s : Subscription) (answers : Bool) :
    s.Keeps 0 ⟨[], [(s.receiveIf answers).1], (s.receiveIf answers).2⟩ := by
  cases answers with
  | true => exact s.keeps_receive
  | false => exact { s.keeps_nothing with sent := by simp [Exchange.produced, Exchange.received,
      receiveIf, Receipt.item?] }

theorem exists_keeps_beat (s : Subscription) (b : Beat) : ∃ asked, s.Keeps asked (s.beat b) := by
  cases b with
  | poll first second =>
    show ∃ asked, s.Keeps asked ⟨[], [(s.poll first second).1], (s.poll first second).2⟩
    obtain ⟨-, -, h⟩ | ⟨-, h⟩ := s.poll_cases first second <;> rw [h]
    · exact ⟨0, s.keeps_receiveIf first⟩
    · obtain ⟨asked, hasks⟩ := s.exists_keeps_demandOne
      exact ⟨asked + 0, hasks.andThen (s.demandOne.keeps_receiveIf second)⟩
  | produce ready => exact ⟨0, s.keeps_produceWithin ready⟩

theorem exists_keeps_view (s : Subscription) (bs : List Beat) :
    ∃ asked, s.Keeps asked (s.view bs) := by
  induction bs generalizing s with
  | nil => exact ⟨0, s.keeps_nothing⟩
  | cons b bs ih =>
    obtain ⟨first, hfirst⟩ := s.exists_keeps_beat b
    obtain ⟨others, hothers⟩ := ih (s.beat b).next
    exact ⟨first + others, hfirst.andThen hothers⟩

/-! Beats cancel nothing, so a poll that finds nothing asks for a row unless one is asked for. -/

/-- What every beat of a subscription that is only polled keeps. -/
structure Polled (s : Subscription) : Prop where
  uncancelled : s.cancelled = false
  awake : s.Awake
  demand_le : s.demand ≤ 1

theorem polled_ofSolutions (s : Solutions) : (ofSolutions s).2.Polled where
  uncancelled := rfl
  awake := fun _ hw => by cases hw
  demand_le := Nat.zero_le 1

theorem advanceWithin_cancelled (s : Subscription) (ready : Nat) :
    (s.advanceWithin ready).2.cancelled = s.cancelled := by
  obtain ⟨h, -⟩ | ⟨h, -⟩ | ⟨-, -, h⟩ := s.advanceWithin_cases ready <;> rw [h]

theorem Polled.demandOne_cases (h : s.Polled) :
    s.demand = 0 ∧ s.demandOne = { s with demand := 1, signalled := true } ∨
    s.demand = 1 ∧ s.demandOne = s := by
  have hle := h.demand_le
  by_cases hz : s.demand = 0
  · exact .inl ⟨hz, by simp [demandOne, request, hz, h.uncancelled, demandLimit]⟩
  · exact .inr ⟨by omega, by simp [demandOne, hz]⟩

theorem Polled.demandOne (h : s.Polled) : s.demandOne.Polled := by
  obtain ⟨-, hd⟩ | ⟨-, hd⟩ := h.demandOne_cases <;> rw [hd]
  · exact ⟨h.uncancelled, fun _ _ hs => by simp at hs, Nat.le_refl 1⟩
  · exact h

theorem Polled.demand_demandOne (h : s.Polled) : s.demandOne.demand = 1 := by
  obtain ⟨-, hd⟩ | ⟨hone, hd⟩ := h.demandOne_cases <;> rw [hd]
  exact hone

theorem Polled.receiveIf (h : s.Polled) (answers : Bool) : (s.receiveIf answers).2.Polled := by
  rw [s.receiveIf_next]
  exact ⟨h.uncancelled, h.awake, h.demand_le⟩

theorem Polled.poll (h : s.Polled) (first second : Bool) : (s.poll first second).2.Polled := by
  obtain ⟨-, -, hp⟩ | ⟨-, hp⟩ := s.poll_cases first second <;> rw [hp]
  · exact h.receiveIf first
  · exact h.demandOne.receiveIf second

theorem Polled.beat (h : s.Polled) (b : Beat) : (s.beat b).next.Polled := by
  cases b with
  | poll first second => exact h.poll first second
  | produce ready =>
    have hdemand := s.advanceWithin_demand ready
    have hle := h.demand_le
    refine ⟨(s.advanceWithin_cancelled ready).trans h.uncancelled,
      (s.keeps_produceWithin ready).awake h.awake, ?_⟩
    show (s.advanceWithin ready).2.demand ≤ 1
    omega

theorem Polled.view (h : s.Polled) (bs : List Beat) : (s.view bs).next.Polled := by
  induction bs generalizing s with
  | nil => exact h
  | cons b bs ih => exact ih (h.beat b)

/-! One row at most is asked for or waits to be received, and one more for each poll behind a turn of
the producer that does not see what waits. -/

/-- A poll leaves at most `k` items that wait. Behind a turn of the producer a request may be met. -/
def Ahead (s : Subscription) (k : Nat) (turned : Bool) : Prop :=
  if turned then s.demand + s.buffer.length ≤ k + 1 else s.buffer.length ≤ k

theorem Ahead.weaken {k : Nat} {turned : Bool} (h : s.Ahead k turned) (hd : s.demand ≤ 1) :
    s.demand + s.buffer.length ≤ k + 1 := by
  cases turned with
  | true => exact h
  | false =>
    have hwaits : s.buffer.length ≤ k := h
    omega

/-- A poll that is answered at once leaves one item less, or there was none. -/
theorem buffer_poll_le (s : Subscription) (first second : Bool) :
    (s.poll first second).2.buffer.length ≤ s.buffer.length - first.toNat := by
  obtain ⟨-, -, hp⟩ | ⟨hnothing, hp⟩ := s.poll_cases first second
  · simp only [hp, s.receiveIf_next, List.length_drop, Nat.le_refl]
  · rw [hp, s.demandOne.receiveIf_next, List.length_drop, s.demandOne_buffer]
    cases first with
    | true =>
      rw [(hnothing rfl).1, List.length_nil]
      omega
    | false => exact Nat.sub_le _ _

theorem Ahead.poll {k : Nat} {turned : Bool} (h : s.Ahead k turned) (first second : Bool) :
    (s.poll first second).2.Ahead (k + if turned && !first then 1 else 0) false := by
  have hle := s.buffer_poll_le first second
  show (s.poll first second).2.buffer.length ≤ _
  cases turned with
  | true =>
    have hwaits : s.demand + s.buffer.length ≤ k + 1 := h
    cases first with
    | true =>
      have hless : (s.poll true second).2.buffer.length ≤ s.buffer.length - 1 := hle
      exact Nat.le_trans hless (by omega)
    | false =>
      have hmissed : s.buffer.length ≤ k + 1 := by omega
      exact Nat.le_trans hle hmissed
  | false =>
    have hwaits : s.buffer.length ≤ k := h
    rw [Bool.false_and, if_neg Bool.false_ne_true]
    omega

theorem ahead_advanceWithin (s : Subscription) (ready : Nat) :
    (s.advanceWithin ready).2.demand + (s.advanceWithin ready).2.buffer.length =
      s.demand + s.buffer.length := by
  have hdemand := s.advanceWithin_demand ready
  have hsent := congrArg List.length (s.keeps_produceWithin ready).sent
  rw [List.length_append, List.length_append] at hsent
  change _ + (items (s.advanceWithin ready).1).length =
    0 + (s.advanceWithin ready).2.buffer.length at hsent
  omega

theorem Polled.ahead_view (h : s.Polled) {k : Nat} {turned : Bool} (hk : s.Ahead k turned)
    (bs : List Beat) :
    (s.view bs).next.demand + (s.view bs).next.buffer.length ≤ k + Beat.missed turned bs + 1 := by
  induction bs generalizing s k turned with
  | nil => exact hk.weaken h.demand_le
  | cons b bs ih =>
    cases b with
    | poll first second =>
      have hview := ih (h.beat (.poll first second)) (hk.poll first second)
      rw [Nat.add_assoc k] at hview
      exact hview
    | produce ready =>
      have hturn : (s.beat (.produce ready)).next.Ahead k true :=
        Nat.le_trans (Nat.le_of_eq (s.ahead_advanceWithin ready)) (hk.weaken h.demand_le)
      exact ih (h.beat (.produce ready)) hturn

/-! The end stays. -/

theorem Done.receiveIf (h : s.Done) (answers : Bool) :
    s.receiveIf answers = (if answers then .ended else .nothingYet, s) := by
  cases answers <;> simp [Subscription.receiveIf, receive, h.1, h.2]

theorem done_of_receiveIf {answers : Bool} (h : (s.receiveIf answers).1 = .ended) : s.Done := by
  obtain ⟨i, is, -, -, hr⟩ | ⟨-, hdone, -⟩ | ⟨-, hr⟩ := s.receiveIf_cases answers
  · rw [hr] at h
    cases h
  · exact hdone
  · rw [hr] at h
    cases h

theorem poll_ended_iff (second : Bool) : (s.poll true second).1 = .ended ↔ s.Done := by
  constructor
  · intro hended
    obtain ⟨-, -, hp⟩ | ⟨hnothing, hp⟩ := s.poll_cases true second <;> rw [hp] at hended
    · exact done_of_receiveIf hended
    · have hfinished := s.demandOne_finished.symm.trans (done_of_receiveIf hended).1
      exact absurd hfinished (by simp [hnothing rfl])
  · intro hdone
    rw [poll, hdone.receiveIf]
    rfl

theorem Done.demandOne (h : s.Done) : s.demandOne.Done :=
  ⟨s.demandOne_finished.trans h.1, s.demandOne_buffer.trans h.2⟩

theorem Done.beat (h : s.Done) (b : Beat) : (s.beat b).next.Done ∧ (s.beat b).received = [] := by
  have hnone (answers : Bool) :
      (if answers then Receipt.ended else .nothingYet).item? = none := by cases answers <;> rfl
  cases b with
  | poll first second =>
    show (s.poll first second).2.Done ∧ [(s.poll first second).1].filterMap Receipt.item? = []
    obtain ⟨-, -, hp⟩ | ⟨-, hp⟩ := s.poll_cases first second
    · rw [hp, h.receiveIf]
      exact ⟨h, by simp [hnone]⟩
    · rw [hp, h.demandOne.receiveIf]
      exact ⟨h.demandOne, by simp [hnone]⟩
  | produce ready =>
    have hrests : s.advanceWithin ready = ([], s) := by simp [advanceWithin, h.1]
    show (s.advanceWithin ready).2.Done ∧ [] = []
    rw [hrests]
    exact ⟨h, rfl⟩

theorem Done.view (h : s.Done) (bs : List Beat) :
    (s.view bs).next.Done ∧ (s.view bs).received = [] := by
  induction bs generalizing s with
  | nil => exact ⟨h, rfl⟩
  | cons b bs ih =>
    obtain ⟨hnext, hnone⟩ := h.beat b
    obtain ⟨hlast, hothers⟩ := ih hnext
    refine ⟨hlast, ?_⟩
    rw [Subscription.view, Exchange.received_andThen, hnone, hothers]
    rfl

/-! Every beat leaves less to do or leaves all as it is but for the signal, and until the end there
is something to do for one of the two parties. -/

/-- An event to come is worth more than an item that waits, and an item more than a request. -/
def work (es : List Event) (is : List Item) (demand : Nat) (finished : Bool) : Nat :=
  4 * es.length + 2 * is.length + (if demand = 0 then 1 else 0) + (if finished then 0 else 1)

/-- What is left to do. -/
def left (s : Subscription) : Nat := work s.pending s.buffer s.demand s.finished

/-- There is something to do in this beat, and the channel does not fail when it begins. -/
def Helps (s : Subscription) : Beat → Prop
  | .poll first _ => first = true ∧ (s.buffer ≠ [] ∨ s.finished = false ∧ s.demand = 0)
  | .produce ready => s.finished = false ∧ 0 < s.demand ∧ 0 < ready

theorem work_append (es : List Event) (is js : List Item) (n : Nat) (finished : Bool) :
    work es (is ++ js) n finished = 2 * is.length + work es js n finished := by
  simp only [work, List.length_append]
  omega

theorem produceWithin_idle {n ready : Nat} (es : List Event) (h : n = 0 ∨ ready = 0) :
    produceWithin n ready es = ([], n, false, es) := by
  obtain rfl | rfl := h
  · fun_cases produceWithin 0 ready es <;> simp_all
  · rw [produceWithin]

/-- Whatever the producer does, it does not add to what is left. -/
theorem work_produceWithin_le (n ready : Nat) (es : List Event) :
    work (produceWithin n ready es).2.2.2 (items (produceWithin n ready es).1)
      (produceWithin n ready es).2.1 (produceWithin n ready es).2.2.1 ≤ work es [] n false := by
  fun_induction produceWithin n ready es <;> grind [items_nil, items_item, items_act, work]

/-- The first event is made happen, or the producer learns that there is none. -/
theorem work_produceWithin_lt {n ready : Nat} (es : List Event) (hn : 0 < n) (hr : 0 < ready) :
    work (produceWithin n ready es).2.2.2 (items (produceWithin n ready es).1)
      (produceWithin n ready es).2.1 (produceWithin n ready es).2.2.1 < work es [] n false := by
  obtain ⟨ready, rfl⟩ : ∃ r, ready = r + 1 := ⟨ready - 1, by omega⟩
  have hle := work_produceWithin_le n ready
  have hrest := work_produceWithin_le (n - 1) ready
  rcases es with _ | ⟨a | e | r, es⟩
  · simp [produceWithin, work, hn]
  · grind [produceWithin, work, items_act]
  · grind [produceWithin, work, items_nil, items_item]
  · grind [produceWithin, work, items_item]

theorem left_receiveIf (s : Subscription) (answers : Bool) :
    (s.receiveIf answers).2.left < s.left ∨
    (answers = true → s.buffer = []) ∧ (s.receiveIf answers).2 = s := by
  obtain ⟨i, is, -, hb, hr⟩ | ⟨-, hdone, hr⟩ | ⟨hnothing, hr⟩ := s.receiveIf_cases answers <;>
    rw [hr]
  · exact .inl (by simp [left, work, hb])
  · exact .inr ⟨fun _ => hdone.2, rfl⟩
  · exact .inr ⟨fun hanswers => (hnothing hanswers).1, rfl⟩

theorem Polled.poll_progress (h : s.Polled) (first second : Bool) :
    (s.poll first second).2.left < s.left ∨
    ¬ s.Helps (.poll first second) ∧ (s.poll first second).2 = s := by
  obtain ⟨hfirst, hsome, hp⟩ | ⟨hnothing, hp⟩ := s.poll_cases first second <;> rw [hp]
  · refine (s.left_receiveIf first).imp_right fun ⟨hempty, hsame⟩ => ⟨?_, hsame⟩
    have hb := hempty hfirst
    have hf : s.finished = true := hsome.resolve_left (· hb)
    simp [Helps, hb, hf]
  · obtain ⟨hz, hd⟩ | ⟨hone, hd⟩ := h.demandOne_cases
    · have hasks : s.demandOne.left < s.left := by
        rw [hd]
        simp [left, work, hz]
      left
      obtain hless | ⟨-, hsame⟩ := s.demandOne.left_receiveIf second
      · exact Nat.lt_trans hless hasks
      · rw [hsame]
        exact hasks
    · rw [hd]
      refine (s.left_receiveIf second).imp_right fun ⟨_, hsame⟩ => ⟨?_, hsame⟩
      rintro ⟨hfirst, hb | ⟨-, hz⟩⟩
      · exact hb (hnothing hfirst).1
      · omega

theorem Polled.advanceWithin_progress (h : s.Polled) (ready : Nat) :
    (s.advanceWithin ready).2.left < s.left ∨
    ¬ s.Helps (.produce ready) ∧
      ∃ waiting signalled, (s.advanceWithin ready).2 = { s with waiting, signalled } := by
  obtain ⟨ha, hrest⟩ | ⟨-, -, hc⟩ | ⟨hf, -, ha⟩ := s.advanceWithin_cases ready
  · refine .inr ⟨fun hhelps => ?_, s.waiting, s.signalled, by rw [ha]⟩
    obtain hfinished | ⟨hw, hs⟩ := hrest
    · exact absurd hfinished (by simp [hhelps.1])
    · exact absurd (h.awake hhelps.1 hw hs).1 (Nat.ne_of_gt hhelps.2.1)
  · exact absurd hc (by simp [h.uncancelled])
  · by_cases hhelps : 0 < s.demand ∧ 0 < ready
    · left
      have hless := work_produceWithin_lt s.pending hhelps.1 hhelps.2
      have hbefore : s.left = 2 * s.buffer.length + work s.pending [] s.demand false := by
        rw [← work_append, List.append_nil, ← hf]
        rfl
      rw [ha, hbefore]
      simp only [Subscription.left, work_append]
      omega
    · right
      have hidle := produceWithin_idle s.pending
        (show s.demand = 0 ∨ ready = 0 by omega)
      refine ⟨fun hnot => hhelps hnot.2, decide (s.demand = 0), false, ?_⟩
      rw [ha]
      simp [hidle, hf]

/-- A beat in which there is something to do leaves less to do. Any other changes at most when the
producer looks at its demand again. -/
theorem Polled.beat_progress (h : s.Polled) (b : Beat) :
    (s.beat b).next.left < s.left ∨
    ¬ s.Helps b ∧ ∃ waiting signalled, (s.beat b).next = { s with waiting, signalled } := by
  cases b with
  | poll first second =>
    exact (h.poll_progress first second).imp_right fun ⟨hnot, hsame⟩ => ⟨hnot, _, _, hsame⟩
  | produce ready => exact h.advanceWithin_progress ready

/-! Under a fair schedule something is done until all is done. -/

theorem exists_helps (h : ¬ s.Done) {σ : Nat → Beat} (hσ : Beat.Fair σ) : ∃ m, s.Helps (σ m) := by
  obtain ⟨m, -, second, hm⟩ := hσ.1 0
  by_cases hpoll : s.Helps (.poll true second)
  · exact ⟨m, hm ▸ hpoll⟩
  · obtain ⟨m, -, ready, hm⟩ := hσ.2 0
    simp only [Helps, ne_eq, true_and, not_or, not_not, not_and] at hpoll
    have hf : s.finished = false := by simpa [Done, hpoll.1] using h
    exact ⟨m, hm ▸ ⟨hf, Nat.pos_of_ne_zero (hpoll.2 hf), Nat.succ_pos ready⟩⟩

theorem exists_done_of_tail {σ : Nat → Beat}
    (h : ∃ n, ((s.beat (σ 0)).next.view ((List.range n).map (σ <| · + 1))).next.Done) :
    ∃ n, (s.view ((List.range n).map σ)).next.Done := by
  obtain ⟨n, hn⟩ := h
  refine ⟨n + 1, ?_⟩
  rw [List.range_succ_eq_map, List.map_cons, List.map_map]
  exact hn

/-- At some time nothing is left to do. The outer induction is on what is left, the inner one on the
beats in which there is nothing to do. -/
theorem Polled.exists_done (h : s.Polled) {σ : Nat → Beat} (hσ : Beat.Fair σ) :
    ∃ n, (s.view ((List.range n).map σ)).next.Done := by
  induction hleft : s.left using Nat.strongRecOn generalizing s σ with
  | ind work ihless =>
    by_cases hdone : s.Done
    · exact ⟨0, hdone⟩
    · obtain ⟨m, hm⟩ := exists_helps hdone hσ
      clear hdone
      induction m generalizing s σ with
      | zero =>
        obtain hless | ⟨hnot, -⟩ := h.beat_progress (σ 0)
        · exact exists_done_of_tail (ihless _ (hleft ▸ hless) (h.beat _) hσ.tail rfl)
        · exact absurd hm hnot
      | succ m ihsame =>
        obtain hless | ⟨-, waiting, signalled, hsame⟩ := h.beat_progress (σ 0)
        · exact exists_done_of_tail (ihless _ (hleft ▸ hless) (h.beat _) hσ.tail rfl)
        · have hnext := h.beat (σ 0)
          refine exists_done_of_tail ?_
          rw [hsame] at hnext ⊢
          have hhelps : Helps { s with waiting, signalled } (σ (m + 1)) := by
            cases hbeat : σ (m + 1) <;> rw [hbeat] at hm <;> exact hm
          exact ihsame hnext hσ.tail hleft hhelps

/-! What is taken from a source that takes each item before it delivers it. -/

/-- The rest of a source that takes each item before it delivers it, with items that it has taken
and that are not yet sent. -/
def holding (held is : List Item) : List Event := held.map .item ++ taking is

/-- What is taken is sent or held, and there is a demand for what is held. -/
theorem produceWithin_holding {n : Nat} (ready : Nat) {held : List Item} (is : List Item)
    (h : held.length ≤ n) : ∃ held' is',
    (produceWithin n ready (holding held is)).2.2.2 = holding held' is' ∧
      held'.length ≤ (produceWithin n ready (holding held is)).2.1 ∧
      held ++ Effect.taken (effects (produceWithin n ready (holding held is)).1) =
        items (produceWithin n ready (holding held is)).1 ++ held' := by
  induction ready generalizing n held is with
  | zero =>
    rw [produceWithin]
    exact ⟨held, is, rfl, h, by simp [effects, acts, Effect.taken]⟩
  | succ ready ih =>
    rcases held with _ | ⟨i, held⟩
    · rcases is with _ | ⟨i, is⟩
      · exact ⟨[], [], rfl, Nat.zero_le _, rfl⟩
      · by_cases hz : n = 0
        · exact ⟨[], i :: is, by subst hz; rfl, Nat.zero_le _, by subst hz; rfl⟩
        · have hone : [i].length ≤ n := Nat.pos_of_ne_zero hz
          obtain ⟨held', is', hrest, hle, hsent⟩ := ih is hone
          have hcons : produceWithin n (ready + 1) (holding [] (i :: is)) =
              (.act (.always (.take i)) :: (produceWithin n ready (holding [i] is)).1,
                (produceWithin n ready (holding [i] is)).2) := if_neg hz
          rw [hcons]
          exact ⟨held', is', hrest, hle, hsent⟩
    · have hz : n ≠ 0 := Nat.ne_of_gt (Nat.lt_of_lt_of_le (Nat.succ_pos _) h)
      have hle : held.length ≤ n - 1 := Nat.le_sub_one_of_lt h
      cases i with
      | error e =>
        have hcons : produceWithin n (ready + 1) (holding (.error e :: held) is) =
            ([.item (.error e)], n - 1, true, holding held is) := if_neg hz
        rw [hcons]
        exact ⟨held, is, rfl, hle, by simp [effects, acts, act?, Effect.taken, items_item]⟩
      | ok r =>
        obtain ⟨held', is', hrest, hle, hsent⟩ := ih is hle
        have hcons : produceWithin n (ready + 1) (holding (.ok r :: held) is) =
            (.item (.ok r) :: (produceWithin (n - 1) ready (holding held is)).1,
              (produceWithin (n - 1) ready (holding held is)).2) := if_neg hz
        rw [hcons]
        exact ⟨held', is', hrest, hle, congrArg (Except.ok r :: ·) hsent⟩

/-- What is taken in an exchange is sent or held, and there is a demand for what is held. -/
def Holds (held : List Item) (x : Exchange) : Prop := ∃ held' is,
  x.next.pending = holding held' is ∧ held'.length ≤ x.next.demand ∧
    held ++ Effect.taken (effects x.done) = x.produced ++ held'

/-- A poll takes no demand back. -/
theorem Polled.poll_asks (h : s.Polled) (first second : Bool) :
    (s.poll first second).2.pending = s.pending ∧ s.demand ≤ (s.poll first second).2.demand := by
  obtain ⟨-, -, hp⟩ | ⟨-, hp⟩ := s.poll_cases first second <;> rw [hp]
  · rw [s.receiveIf_next]
    exact ⟨rfl, Nat.le_refl _⟩
  · rw [s.demandOne.receiveIf_next]
    obtain ⟨hz, hd⟩ | ⟨-, hd⟩ := h.demandOne_cases <;> rw [hd]
    · exact ⟨rfl, by rw [hz]; exact Nat.zero_le 1⟩
    · exact ⟨rfl, Nat.le_refl _⟩

theorem Polled.holds_beat (h : s.Polled) {held is : List Item} (hs : s.pending = holding held is)
    (hle : held.length ≤ s.demand) (b : Beat) : Holds held (s.beat b) := by
  have hnone {receipts : List Receipt} {t : Subscription} (ht : t.pending = holding held is)
      (hd : s.demand ≤ t.demand) : Holds held ⟨[], receipts, t⟩ :=
    ⟨held, is, ht, Nat.le_trans hle hd, List.append_nil held⟩
  cases b with
  | poll first second =>
    obtain ⟨hpending, hdemand⟩ := h.poll_asks first second
    exact hnone (hpending.trans hs) hdemand
  | produce ready =>
    show Holds held ⟨(s.advanceWithin ready).1, [], (s.advanceWithin ready).2⟩
    obtain ⟨ha, -⟩ | ⟨ha, -⟩ | ⟨-, -, ha⟩ := s.advanceWithin_cases ready <;> rw [ha]
    · exact hnone hs (Nat.le_refl _)
    · exact hnone hs (Nat.le_refl _)
    · rw [hs]
      exact produceWithin_holding ready is hle

theorem Polled.holds_view (h : s.Polled) {held is : List Item} (hs : s.pending = holding held is)
    (hle : held.length ≤ s.demand) (bs : List Beat) : Holds held (s.view bs) := by
  induction bs generalizing s held is with
  | nil => exact ⟨held, is, hs, hle, List.append_nil held⟩
  | cons b bs ih =>
    obtain ⟨between, rest, hrest, hdemand, hfirst⟩ := h.holds_beat hs hle b
    obtain ⟨held', is', hrest', hdemand', hothers⟩ := ih (h.beat b) hrest hdemand
    refine ⟨held', is', hrest', hdemand', ?_⟩
    show held ++ Effect.taken (effects ((s.beat b).done ++ _)) = _
    rw [taken_append, ← List.append_assoc, hfirst, List.append_assoc, hothers, Subscription.view,
      Exchange.produced_andThen, List.append_assoc]

/-! What the consumer observes. -/

/-- Nothing is produced behind the first error. -/
theorem Keeps.produced_prefix {sols : Solutions} {asked : Nat} {x : Exchange}
    (h : (ofSolutions sols).2.Keeps asked x) :
    x.produced <+: items (untilError sols.nextRun.events).1 := by
  obtain ⟨rest, hrest⟩ := h.prefix_remaining
  have hall : x.done ++ x.next.remaining ++ rest = (untilError sols.nextRun.events).1 := hrest
  refine ⟨items (x.next.remaining ++ rest), ?_⟩
  rw [Exchange.produced, ← items_append, ← List.append_assoc, hall]

theorem Keeps.received_of_done {sols : Solutions} {asked : Nat} {x : Exchange}
    (h : (ofSolutions sols).2.Keeps asked x) (hc : x.next.cancelled = false) (hd : x.next.Done) :
    x.received = items (untilError sols.nextRun.events).1 := by
  have hsent : x.produced = x.received ++ x.next.buffer := h.sent
  have hall : x.done ++ x.next.remaining = (untilError sols.nextRun.events).1 :=
    h.remaining_eq hc
  have hnone : x.next.remaining = [] := if_pos hd.1
  rw [hd.2, List.append_nil] at hsent
  rw [hnone, List.append_nil] at hall
  rw [← hsent, Exchange.produced, hall]

/-- A poll that finds nothing leaves one row asked for, and a producer that will see to it. -/
theorem Polled.poll_nothingYet (h : s.Polled) {second : Bool}
    (hp : (s.poll true second).1 = .nothingYet) :
    let next := (s.poll true second).2
    next.demand = 1 ∧ next.finished = false ∧ (next.waiting = true → next.signalled = true) := by
  intro next
  have hnext : next.Polled := h.poll true second
  have hasked : next.demand = 1 ∧ next.finished = false := by
    obtain ⟨-, hsome, hpoll⟩ | ⟨hnothing, hpoll⟩ := s.poll_cases true second
    · obtain ⟨i, is, -, -, hr⟩ | ⟨-, -, hr⟩ | ⟨hnothing, -⟩ := s.receiveIf_cases true
      · rw [hpoll, hr] at hp
        cases hp
      · rw [hpoll, hr] at hp
        cases hp
      · simp [hnothing rfl] at hsome
    · show (s.poll true second).2.demand = 1 ∧ (s.poll true second).2.finished = false
      rw [hpoll, s.demandOne.receiveIf_next]
      exact ⟨h.demand_demandOne, s.demandOne_finished.trans (hnothing rfl).2⟩
  refine ⟨hasked.1, hasked.2, fun hw => eq_true_of_ne_false fun hs => ?_⟩
  have hzero := (hnext.awake hasked.2 hw hs).1
  omega

end Subscription
end TripleAlgebra
