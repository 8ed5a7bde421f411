import TripleAlgebra.Proofs.Exchange
import TripleAlgebra.Proofs.OnceEffects
import TripleAlgebra.Proofs.SingleItem

/-! Differences that gather their right rows. The right rows are gathered at most once in the life
of a result, when a left row is there, and a failure to gather them stands in for every left row. -/
namespace TripleAlgebra
open Store

namespace Event
variable {x y es : List Event}

/-- What happens before the first row. -/
def beforeRow : List Event → List Event
  | [] => []
  | .item (.ok _) :: _ => []
  | e :: es => e :: beforeRow es

theorem beforeFirstRow_of_noRow (h : hasRow es = false) (once : List Effect) :
    MinusPlan.beforeFirstRow once es = es := by
  induction es with
  | nil => rfl
  | cons e es ih =>
    rcases e with a | e | r
    · exact congrArg (Event.act a :: ·) (ih h)
    · exact congrArg (Event.item (.error e) :: ·) (ih h)
    · cases h

/-- Whatever is to happen once does so behind what happens before the first row. -/
theorem exists_beforeFirstRow (h : hasRow es = true) : ∃ rest, ∀ once,
    MinusPlan.beforeFirstRow once es = beforeRow es ++ .act (.once once) :: rest := by
  induction es with
  | nil => cases h
  | cons e es ih =>
    rcases e with a | e | r
    · obtain ⟨rest, hrest⟩ := ih h
      exact ⟨rest, fun once => congrArg (Event.act a :: ·) (hrest once)⟩
    · obtain ⟨rest, hrest⟩ := ih h
      exact ⟨rest, fun once => congrArg (Event.item (.error e) :: ·) (hrest once)⟩
    · exact ⟨.item (.ok r) :: es, fun _ => rfl⟩

theorem act_of_mem_beforeFirstRow {once : List Effect} {a : Act}
    (h : .act a ∈ MinusPlan.beforeFirstRow once es) : a = .once once ∨ .act a ∈ es := by
  induction es with
  | nil => cases h
  | cons e es ih =>
    rcases e with b | e | r
    · obtain h | h := List.mem_cons.mp h
      · exact .inr (h ▸ List.mem_cons_self)
      · exact (ih h).imp_right (List.mem_cons_of_mem _)
    · obtain h | h := List.mem_cons.mp h
      · cases h
      · exact (ih h).imp_right (List.mem_cons_of_mem _)
    · obtain h | h := List.mem_cons.mp h
      · exact .inl (Event.act.inj h)
      · exact .inr h

theorem noRow_beforeRow (es : List Event) (r : Row) : .ok r ∉ items (beforeRow es) := by
  induction es with
  | nil => exact List.not_mem_nil
  | cons e es ih =>
    rcases e with a | e | r'
    · exact ih
    · intro h
      obtain h | h := List.mem_cons.mp h
      · cases h
      · exact ih h
    · exact List.not_mem_nil

theorem expand_append_of_noRow (f : Row → List Event) (h : ∀ r, .ok r ∉ items x)
    (es : List Event) : expand f (x ++ es) = x ++ expand f es := by
  induction x with
  | nil => rfl
  | cons e x ih =>
    rcases e with a | e | r
    · exact congrArg (Event.act a :: ·) (ih h)
    · exact congrArg (Event.item (.error e) :: ·) (ih fun r hr => h r (List.mem_cons_of_mem _ hr))
    · exact absurd List.mem_cons_self (h r)

theorem beforeItem_subset (es : List Event) : (beforeItem es).1 ⊆ es := by
  induction es with
  | nil => exact List.Subset.refl _
  | cons e es ih =>
    cases e with
    | act a => exact List.cons_subset_cons _ ih
    | item i => exact List.nil_subset _

theorem fuse_subset (es : List Event) : fuse es ⊆ es := by
  induction es with
  | nil => exact List.Subset.refl _
  | cons e es ih =>
    rcases e with a | e | r
    · exact List.cons_subset_cons _ ih
    · exact List.cons_subset_cons _ (beforeItem_subset es)
    · exact List.cons_subset_cons _ ih

/-- Events around an act have become others, in which the act and what stands before it are left as
they are or play no part. -/
def Around (x y : List Event) (f : List Event → List Event) : Prop :=
  (∃ z, ∀ a, f (x ++ .act a :: y) = z) ∨ ∃ z, ∀ a, f (x ++ .act a :: y) = x ++ .act a :: z

theorem Around.cons {f f' : List Event → List Event} {e : Event}
    (hf : ∀ es, f' (e :: es) = e :: f es) (h : Around x y f) : Around (e :: x) y f' := by
  obtain ⟨z, h⟩ | ⟨z, h⟩ := h
  · exact .inl ⟨e :: z, fun a => by rw [List.cons_append, hf, h]⟩
  · exact .inr ⟨z, fun a => by rw [List.cons_append, hf, h, List.cons_append]⟩

theorem around_beforeItem (x y : List Event) : Around x y fun es => (beforeItem es).1 := by
  induction x with
  | nil => exact .inr ⟨(beforeItem y).1, fun _ => rfl⟩
  | cons e x ih =>
    cases e with
    | act b => exact ih.cons fun _ => rfl
    | item i => exact .inl ⟨[], fun _ => rfl⟩

theorem around_fuse (x y : List Event) : Around x y fuse := by
  induction x with
  | nil => exact .inr ⟨fuse y, fun _ => rfl⟩
  | cons e x ih =>
    rcases e with b | e | r
    · exact ih.cons fun _ => rfl
    · exact (around_beforeItem x y).cons fun _ => rfl
    · exact ih.cons fun _ => rfl

end Event

namespace MinusPlan
open Event
variable (p : MinusPlan) {right right' : Solutions} {es : List Event}

/-- What becomes of a left row once the right rows are gathered. -/
def judged (gathered : Except Problem (List Row)) (r : Row) : List Event :=
  match gathered with
  | .error e => [.item (.error e)]
  | .ok rows =>
    let table := MinusTable.ofKeys (rows.map (·.project p.rightKey))
    if table.removes (r.project p.leftKey) (!p.boundOverlap) then [] else [.item (.ok r)]

theorem act_notMem_judged (gathered : Except Problem (List Row)) (r : Row) (a : Act) :
    .act a ∉ p.judged gathered r := by
  unfold judged
  cases gathered with
  | error e => simp
  | ok rows =>
    dsimp only
    split <;> simp

theorem setEvents_eq (right : Solutions) (es : List Event) : p.setEvents right es =
    fuse (expand (p.judged right.gather.value) (beforeFirstRow right.gather.effects es)) := rfl

/-- Right sides that gather the same make the same happen, except that the effects of gathering come
behind what happens before the first left row. -/
theorem setEvents_around (hvalue : right.gather.value = right'.gather.value) (es : List Event) :
    p.setEvents right es = p.setEvents right' es ∨
      hasRow es = true ∧ ∃ z,
        p.setEvents right es = beforeRow es ++ .act (.once right.gather.effects) :: z ∧
        p.setEvents right' es = beforeRow es ++ .act (.once right'.gather.effects) :: z := by
  rw [setEvents_eq, setEvents_eq, ← hvalue]
  cases h : hasRow es with
  | false => exact .inl (by rw [beforeFirstRow_of_noRow h, beforeFirstRow_of_noRow h])
  | true =>
    obtain ⟨rest, hrest⟩ := exists_beforeFirstRow h
    simp only [hrest, expand_append_of_noRow _ (noRow_beforeRow es), expand_act]
    obtain ⟨z, hz⟩ | ⟨z, hz⟩ :=
      around_fuse (beforeRow es) (expand (p.judged right.gather.value) rest)
    · exact .inl ((hz _).trans (hz _).symm)
    · exact .inr ⟨trivial, z, hz _, hz _⟩

/-- Where the right rows cannot be gathered, the error takes the place of the first left row. -/
theorem items_setEvents_error {e : Problem} (h : right.gather.value = .error e) (es : List Event) :
    items (p.setEvents right es) =
      ((items es).take 1).map fun i => i.bind fun _ => .error e := by
  rw [setEvents_eq, h, items_fuse, items_untilError, items_expand, items_beforeFirstRow]
  cases items es with
  | nil => rfl
  | cons i is => cases i <;> rfl

theorem effects_setEvents_subset (right : Solutions) (es : List Event) :
    effects (p.setEvents right es) ⊆ effects es ++ right.gather.effects := by
  intro e he
  obtain ⟨a, ha, he⟩ := mem_effects.mp he
  obtain ⟨ev, hev, ha⟩ := List.mem_flatMap.mp (fuse_subset _ ha)
  have hact : ev = .act a := by
    rcases ev with b | e | r
    · exact (List.mem_singleton.mp ha).symm
    · cases List.mem_singleton.mp ha
    · exact absurd ha (act_notMem_judged p _ r a)
  rw [hact] at hev
  obtain rfl | hmem := act_of_mem_beforeFirstRow hev
  · exact List.mem_append_right _ he
  · exact List.mem_append_left _ (mem_effects.mpr ⟨a, hmem, he⟩)

end MinusPlan

namespace Event

/-- One demand after another makes the same happen as both together. -/
theorem demand_demand (a b : Nat) (es : List Event) : demand (a + b) es =
    ((demand a es).1 ++ (demand b (demand a es).2).1, (demand b (demand a es).2).2) := by
  have hfirst := demand_add a b es
  refine Prod.ext hfirst ?_
  have hall := demand_append (a + b) es
  rw [hfirst, List.append_assoc] at hall
  have hsplit : (demand a es).1 ++
      ((demand b (demand a es).2).1 ++ (demand b (demand a es).2).2) = es := by
    rw [demand_append, demand_append]
  exact List.append_cancel_left (List.append_cancel_left (hall.trans hsplit.symm))

end Event

namespace Subscription

theorem produceFrom_zero (es : List Event) :
    (produceFrom 0 es).1 = [] ∧ (produceFrom 0 es).2.2.2 = es := by
  match es with
  | [] | .act _ :: _ | .item (.error _) :: _ | .item (.ok _) :: _ => exact ⟨rfl, rfl⟩

/-- A producer that is asked for rows makes a demand happen. -/
theorem exists_demand_produceFrom (n : Nat) (es : List Event) : ∃ k,
    ((produceFrom (n + 1) es).1, (produceFrom (n + 1) es).2.2.2) = Event.demand (k + 1) es := by
  induction es generalizing n with
  | nil => exact ⟨0, rfl⟩
  | cons e es ih =>
    rcases e with a | e | r
    · obtain ⟨k, hk⟩ := ih n
      refine ⟨k, ?_⟩
      rw [Event.demand, ← hk]
      rfl
    · exact ⟨0, by rw [Event.demand, Event.demand_zero]; rfl⟩
    · have hrow : ((produceFrom (n + 1) (.item (.ok r) :: es)).1,
          (produceFrom (n + 1) (.item (.ok r) :: es)).2.2.2) =
          (.item (.ok r) :: (produceFrom n es).1, (produceFrom n es).2.2.2) := rfl
      cases n with
      | zero =>
        obtain ⟨hdone, hrest⟩ := produceFrom_zero es
        exact ⟨0, by rw [hrow, hdone, hrest, Event.demand, Event.demand_zero]⟩
      | succ n =>
        obtain ⟨k, hk⟩ := ih n
        exact ⟨k + 1, by rw [hrow, Event.demand, ← hk]⟩

theorem exists_demand_turn (s : Subscription) (t : Turn) : ∃ k,
    ((s.turn t).done, (s.turn t).next.pending) = Event.demand k s.pending := by
  have hnothing {u : Subscription} (h : u.pending = s.pending) :
      ∃ k, (([] : List Event), u.pending) = Event.demand k s.pending :=
    ⟨0, by rw [h, Event.demand_zero]⟩
  cases t with
  | request n =>
    refine hnothing ?_
    show (s.request n).pending = s.pending
    unfold request
    split <;> rfl
  | receive =>
    refine hnothing ?_
    show s.receive.2.pending = s.pending
    unfold receive
    split <;> rfl
  | cancel => exact hnothing rfl
  | produce =>
    show ∃ k, (s.advance.1, s.advance.2.pending) = _
    obtain ⟨h, -⟩ | ⟨h, -⟩ | ⟨-, -, h⟩ := s.advance_cases <;> rw [h]
    · exact hnothing rfl
    · exact hnothing rfl
    · cases s.demand with
      | zero =>
        obtain ⟨hdone, hrest⟩ := produceFrom_zero s.pending
        exact ⟨0, by rw [hdone, hrest, Event.demand_zero]⟩
      | succ n =>
        obtain ⟨k, hk⟩ := exists_demand_produceFrom n s.pending
        exact ⟨k + 1, hk⟩

/-- Whatever turns are taken, a subscription makes a demand happen. -/
theorem exists_demand_run (s : Subscription) (ts : List Turn) : ∃ k,
    ((s.run ts).done, (s.run ts).next.pending) = Event.demand k s.pending := by
  induction ts generalizing s with
  | nil => exact ⟨0, (Event.demand_zero _).symm⟩
  | cons t ts ih =>
    obtain ⟨a, ha⟩ := s.exists_demand_turn t
    obtain ⟨b, hb⟩ := ih (s.turn t).next
    obtain ⟨hdone, hpending⟩ := Prod.ext_iff.mp ha
    refine ⟨a + b, ?_⟩
    rw [Event.demand_demand, ← hdone, ← hpending, ← hb]
    rfl

/-- A subscription is as good as taking some items: it has the same effects, sends the same items
and leaves the same. -/
theorem exists_take_run (s : Solutions) (ts : List Turn) :
    let x := (ofSolutions s).2.run ts
    ∃ n, (ofSolutions s).1 ++ Event.effects x.done = (s.take (some n)).effects ∧
      x.produced = (s.take (some n)).value ∧
      s.consumed x.done x.next.pending = (s.take (some n)).next := by
  intro x
  obtain ⟨n, hn⟩ := (ofSolutions s).2.exists_demand_run ts
  obtain ⟨hdone, hpending⟩ := Prod.ext_iff.mp hn
  have hdone : x.done = (Event.demand n s.nextRun.events).1 := hdone
  have hpending : x.next.pending = (Event.demand n s.nextRun.events).2 := hpending
  refine ⟨n, ?_, ?_, ?_⟩
  · rw [hdone]
    rfl
  · rw [Exchange.produced, hdone]
    rfl
  · rw [hdone, hpending]
    rfl

end Subscription

namespace Solutions
open Event
variable {s t : Solutions} {is : List Item}

/-- The same items without what happens for them. -/
def atHand (s : Solutions) : Solutions :=
  { header := s.header, source := .generator, run := ⟨[], Event.ofItems (items s.run.events)⟩ }

theorem gather_atHand (h : s.IsFresh) :
    s.atHand.gather.value = s.gather.value ∧ s.atHand.gather.effects = [] := by
  have hfresh : s.atHand.Fresh (items s.run.events) := ⟨rfl, Event.items_ofItems _, nofun⟩
  have hvalue := (hfresh.reply (.gather .pull)).trans (h.reply (.gather .pull)).symm
  have heffects := (s.atHand.perform_effects_subset (.gather .pull)).1
  have hnone : effects s.atHand.run.started = [] := by
    show effects ([].map .act ++ Event.ofItems (items s.run.events)) = []
    exact effects_acts_ofItems
  rw [hnone] at heffects
  exact ⟨Reply.rows.inj hvalue, List.eq_nil_of_subset_nil heffects⟩

/-- Deliveries of the same run, but for an act that happens once, are twins. -/
theorem exists_twin_deliver (m : Mode) (header : List Variable) (hot : Bool) (opening : List Act)
    (g : List Effect) {before : List Event} (hrows : ∀ r, .ok r ∉ items before) (z : List Event) :
    ∃ s t, (deliver m header hot ⟨opening, before ++ .act (.once g) :: z⟩).outcome = .ok s ∧
      (deliver m header hot ⟨opening, before ++ .act (.once []) :: z⟩).outcome = .ok t ∧
      Twin g before s t := by
  have htwin (source : SourceKind) (hsource : source ≠ .table) (opening : List Act) :
      Twin g before ⟨header, source, ⟨opening, before ++ .act (.once g) :: z⟩, none⟩
        ⟨header, source, ⟨opening, before ++ .act (.once []) :: z⟩, none⟩ :=
    .apart ⟨header, source, ⟨opening, []⟩, none⟩ before z rfl hsource rfl hrows
  cases m with
  | push => cases hot <;> exact ⟨_, _, rfl, rfl, htwin .stream nofun []⟩
  | pull =>
    cases hot with
    | true => exact ⟨_, _, rfl, rfl, htwin .iterator nofun []⟩
    | false => exact ⟨_, _, rfl, rfl, htwin .generator nofun opening⟩

/-- What is delivered hot has begun. -/
theorem opening_of_deliver {m : Mode} {header : List Variable} {hot : Bool} {r : Run}
    (h : (deliver m header hot r).outcome = .ok s) (hhot : s.isHot = true) :
    s.run.opening = [] := by
  cases m <;> cases hot <;> cases h
  case pull.false => cases hhot
  all_goals rfl

/-- Solutions without rows are exhausted by whatever consumes them, if they are hot. -/
theorem Offers.exhausted (h : s.Offers is) (hrows : ∀ r, .ok r ∉ is) {u : Use} (hu : u ≠ .isHot) :
    (s.perform u).next.Exhausted := by
  have hfresh := h.fresh.reply u
  cases u with
  | take m n => exact exhausted_perform h.hot h.memo_eq (.inl ⟨m, n, rfl⟩)
  | gather m =>
    cases is with
    | nil => exact .inr (gather_remembers h.hot (Reply.rows.inj hfresh))
    | cons i is =>
      cases i with
      | ok r => exact absurd List.mem_cons_self (hrows r)
      | error e => exact exhausted_perform h.hot h.memo_eq (.inr ⟨e, hfresh⟩)
  | ask m =>
    have hnone (r : Row) : .ok r ∉ items (demand 1 s.run.events).1 := by
      rw [items_demand, h.items_eq]
      exact fun hr => hrows r (List.mem_of_mem_take hr)
    refine .inl ⟨(perform_source s _).symm ▸ h.hot, perform_memo h.memo_eq fun rows hr => ?_, ?_⟩
    · rw [hfresh] at hr
      cases hr
    · rw [perform, ask_eq (known_hot h.memo_eq h.hot)]
      show (s.askedNext _).run = _
      rw [askedNext_of_noRow hnone, consumed, if_pos h.isHot_eq]
  | isHot => exact absurd rfl hu

theorem Offers.reply_history (h : s.Offers is) (hrows : ∀ r, .ok r ∉ is) (us : List Use) (u : Use) :
    ((s.history us).next.perform u).value =
      u.reply (s.history us).next.isHot (if us.any (· ≠ .isHot) then [] else is) := by
  induction us with
  | nil => exact h.fresh.reply u
  | cons v us ih =>
    by_cases hv : v = .isHot
    · subst hv
      exact ih
    · have hany : (v :: us).any (· ≠ .isHot) = true := by simp [hv]
      rw [hany, if_pos rfl]
      exact (((h.exhausted hrows hv).history us).2.perform u).2.1

/-- Solutions without rows reply by their items on every consumption if they are cold, and on the
first one if they are hot. -/
theorem reply_history (h : s.Fresh is) (hopening : s.isHot → s.run.opening = [])
    (hrows : ∀ r, .ok r ∉ is) (us : List Use) (u : Use) :
    ((s.history us).next.perform u).value = u.reply (s.history us).next.isHot
      (if s.isHot && us.any (· ≠ .isHot) then [] else is) := by
  cases hhot : s.isHot with
  | false =>
    have hrestarts : s.Restarts is := ⟨hhot, .inl h⟩
    have hlast := (hrestarts.history us).2
    rw [(hlast.perform u).1, hlast.1]
    rfl
  | true =>
    have hoffers : s.Offers is :=
      ⟨(isHot_eq h.memo_eq).symm.trans hhot, h.memo_eq, hopening hhot, h.items_eq⟩
    exact hoffers.reply_history hrows us u

end Solutions
namespace Plan
variable {c : Context}

/-- The difference of the solutions of both sides. -/
def setDifference (c : Context) (l r : Plan) (b : Bool) (left right : Solutions) :
    Attempt Solutions :=
  Solutions.deliver (c.config.mode .minus) (minus l r b).vars left.isHot
    { left.run with events := (MinusPlan.ofSides l r b).setEvents right left.run.events }

/-- The left side is evaluated once, and then the right side once. -/
theorem dispatch_minus (hr : c.registry = .builtin) (hset : c.config.minus = .set) (l r : Plan)
    (b : Bool) : dispatch c (minus l r b) =
      dispatch c l >>= fun left =>
        dispatch c r >>= fun right => setDifference c l r b left right := by
  have heval : (evaluate c (.builtin (minus l r b).kind.family (c.config.mode (minus l r b).kind))
      (minus l r b) fun q _ => dispatch c q) =
      dispatch c l >>= fun left =>
        dispatch c r >>= fun right => setDifference c l r b left right := by
    show evaluateMinus c (c.config.mode .minus) (minus l r b) (fun q _ => dispatch c q) = _
    rw [evaluateMinus, hset]
    rfl
  rw [← heval]
  refine dispatch_eq_evaluate hr fun s hs => ?_
  rw [heval] at hs
  obtain ⟨left, -, hs⟩ := Attempt.outcome_bind_iff.mp hs
  obtain ⟨right, -, hs⟩ := Attempt.outcome_bind_iff.mp hs
  exact (Solutions.regular_deliver _ _ _ _ s hs).header_eq

/-- Gathering is one consumption at most. -/
theorem gather_effects_eq (s : Solutions) :
    s.gather.effects = [] ∨ ∃ n, s.gather.effects = (s.take (some n)).effects := by
  cases hknown : s.known with
  | some rows => exact .inl (by simp only [Solutions.gather, hknown])
  | none =>
    obtain ⟨n, hn, -⟩ := Solutions.exists_take_gather hknown
    exact .inr ⟨n + 1, hn⟩

/-- Differences from the right rows and from the same rows at hand are the same, or twins. -/
theorem exists_setDifference (l r : Plan) (b : Bool) (left : Solutions) {right : Solutions}
    (hright : right.IsFresh) :
    ∃ s t, (setDifference c l r b left right).outcome = .ok s ∧
      (setDifference c l r b left right.atHand).outcome = .ok t ∧
      (s = t ∨ Event.hasRow left.run.events = true ∧
        Solutions.Twin right.gather.effects (Event.beforeRow left.run.events) s t) := by
  obtain ⟨hvalue, hnone⟩ := Solutions.gather_atHand hright
  unfold setDifference
  obtain hsame | ⟨hrow, z, hs, ht⟩ :=
    (MinusPlan.ofSides l r b).setEvents_around hvalue.symm left.run.events
  · obtain ⟨s, hs, -⟩ := Solutions.exists_deliver (c.config.mode .minus) (minus l r b).vars
      left.isHot { left.run with
        events := (MinusPlan.ofSides l r b).setEvents right left.run.events }
    exact ⟨s, s, hs, hsame ▸ hs, .inl rfl⟩
  · rw [hs, ht, hnone]
    obtain ⟨s, t, hs, ht, htwin⟩ := Solutions.exists_twin_deliver (c.config.mode .minus)
      (minus l r b).vars left.isHot left.run.opening right.gather.effects
      (Event.noRow_beforeRow left.run.events) z
    exact ⟨s, t, hs, ht, .inr ⟨hrow, htwin⟩⟩

/-- What is known of the result of a difference. -/
theorem of_setDifference {l r : Plan} {b : Bool} {left right s : Solutions}
    (h : (setDifference c l r b left right).outcome = .ok s) :
    s.IsFresh ∧ (s.isHot = true → s.run.opening = []) ∧
      s.run.events = (MinusPlan.ofSides l r b).setEvents right left.run.events ∧
      (setDifference c l r b left right).effects ++ s.run.opening.flatMap Act.effects =
        left.run.opening.flatMap Act.effects := by
  obtain ⟨u, hu, -, -, -, hevents, hbegun⟩ := Solutions.exists_deliver_begun
    (c.config.mode .minus) (minus l r b).vars left.isHot
    { left.run with events := (MinusPlan.ofSides l r b).setEvents right left.run.events }
  obtain rfl : u = s := Except.ok.inj (hu.symm.trans h)
  exact ⟨Solutions.isFresh_deliver h, Solutions.opening_of_deliver h, hevents, hbegun⟩

/-- With the right rows at hand, all effects of the result are effects of the left side. -/
theorem effects_started_subset {l r : Plan} {b : Bool} {left right t : Solutions}
    (hright : right.IsFresh) (h : (setDifference c l r b left right.atHand).outcome = .ok t) :
    Event.effects t.run.started ⊆ Event.effects left.run.started := by
  obtain ⟨-, -, hevents, hbegun⟩ := of_setDifference h
  have hsub := MinusPlan.effects_setEvents_subset (.ofSides l r b) right.atHand left.run.events
  rw [(Solutions.gather_atHand hright).2, List.append_nil] at hsub
  rw [Event.effects_started, Event.effects_started, ← hbegun, hevents]
  intro e he
  obtain he | he := List.mem_append.mp he
  · exact List.mem_append_left _ (List.mem_append_right _ he)
  · exact List.mem_append_right _ (hsub he)

/-- A difference that gathers its right rows evaluates its right side once, when it is evaluated. In
the life of its result, whatever uses there are, the right rows are gathered once or not at all: in
one consumption, when all that comes before the first left row has happened. All else is as if they
were at hand, and has effects of the left side only. If the right rows cannot be gathered, the error
takes the place of the first left row in every consumption that has one. A subscription is as good
as taking some items. -/
theorem set_difference_gathers_once (hc : c.Fresh) (hset : c.config.minus = .set) (l r : Plan)
    (b : Bool) :
    (∀ e, (l.execute c).outcome = .error e →
      (minus l r b).execute c = ⟨(l.execute c).effects, .error e⟩) ∧
    ∀ left, (l.execute c).outcome = .ok left →
      (∀ e, (r.execute c).outcome = .error e →
        (minus l r b).execute c = ⟨(l.execute c).effects ++ (r.execute c).effects, .error e⟩) ∧
      ∀ right, (r.execute c).outcome = .ok right →
        let gathering := right.gather.effects
        (gathering = [] ∨ ∃ n, gathering = (right.take (some n)).effects) ∧
        ∃ begun s t,
          (minus l r b).execute c =
            ⟨(l.execute c).effects ++ (r.execute c).effects ++ begun, .ok s⟩ ∧
          begun ++ s.run.opening.flatMap Act.effects = left.run.opening.flatMap Act.effects ∧
          (setDifference c l r b left right.atHand).outcome = .ok t ∧
          (∀ us,
            (s.history us).value = (t.history us).value ∧
            (t.history us).effects ⊆ Event.effects left.run.started ∧
            ((s.history us).effects = (t.history us).effects ∨
              Event.hasRow left.run.events ∧
                Solutions.ComesOnce gathering (Event.beforeRow left.run.events) s t us)) ∧
          (∀ e, right.gather.value = .error e →
            let failed := ((left.take none).value.take 1).map fun i => i.bind fun _ => .error e
            ∀ us u, ((s.history us).next.perform u).value = u.reply (s.history us).next.isHot
              (if s.isHot && us.any (· ≠ .isHot) then [] else failed)) ∧
          ∀ us ts,
            let now := (s.history us).next
            let x := (Subscription.ofSolutions now).2.run ts
            ∃ n, (Subscription.ofSolutions now).1 ++ Event.effects x.done =
                (now.take (some n)).effects ∧
              x.produced = (now.take (some n)).value ∧
              now.consumed x.done x.next.pending = (now.take (some n)).next := by
  have hr := hc.registry_eq
  simp only [execute_eq hr, dispatch_minus hr hset]
  refine ⟨fun e he => Attempt.bind_of_error he, fun left hleft => ⟨fun e he => ?_,
    fun right hright => ⟨gather_effects_eq right, ?_⟩⟩⟩
  · rw [Attempt.bind_of_ok hleft, Attempt.bind_of_error he]
  have hrightFresh := isFresh_dispatch hc hright
  obtain ⟨s, t, hs, ht, htwin⟩ := exists_setDifference (c := c) l r b left hrightFresh
  obtain ⟨hfresh, hopening, hevents, hbegun⟩ := of_setDifference hs
  obtain ⟨-, -, hevents', hbegun'⟩ := of_setDifference ht
  refine ⟨(setDifference c l r b left right).effects, s, t, ?_, hbegun, ht, fun us => ?_,
    fun e he us u => ?_, fun us ts => Subscription.exists_take_run _ ts⟩
  · rw [Attempt.bind_of_ok hleft, Attempt.bind_of_ok hright, hs, List.append_assoc]
  · have hleftOnly : (t.history us).effects ⊆ Event.effects left.run.started :=
      List.Subset.trans (t.history_effects_subset us) (effects_started_subset hrightFresh ht)
    obtain rfl | ⟨hrow, htwin⟩ := htwin
    · exact ⟨rfl, hleftOnly, .inl rfl⟩
    · obtain ⟨hvalue, heffects⟩ := htwin.history us
      exact ⟨hvalue, hleftOnly, heffects.imp_right fun h => ⟨hrow, h⟩⟩
  · have hitems : Event.items s.run.events =
        ((left.take none).value.take 1).map fun i => i.bind fun _ => .error e := by
      rw [hevents, MinusPlan.items_setEvents_error _ he,
        Solutions.take_none (isFresh_dispatch hc hleft).memo_eq]
    have hrows (row : Row) : .ok row ∉ Event.items s.run.events := by
      rw [hitems]
      intro hrow
      obtain ⟨i, -, hi⟩ := List.mem_map.mp hrow
      cases i <;> cases hi
    have hreply := Solutions.reply_history hfresh hopening hrows us u
    rwa [hitems] at hreply

/-- Right rows the second of which is lost, and left rows. Whoever consumes the result, however
often, gets the error. -/
theorem set_difference_gathers_once_lost :
    let store := TripleStore.stepwise (.ofTriples Contents.path.triples)
      (some ⟨.iri "p", some 1, "lost"⟩)
    let c : Context := ⟨store, { minus := .set }, .builtin⟩
    let l := edge (.var ⟨"x"⟩) (.var ⟨"y"⟩)
    let lost := Problem.storage (.other "lost")
    let us : List Use := [.take .pull (some 0), .take .pull (some 1), .gather .pull, .ask .push]
    c.Fresh ∧ c.config.minus = .set ∧ ∃ left right s,
      (l.execute c).outcome = .ok left ∧ ((distinct l).execute c).outcome = .ok right ∧
      right.gather.value = .error lost ∧
      ((minus l (distinct l) false).execute c).outcome = .ok s ∧
      ((s.history us).next.perform (.take .pull none)).value = .items [.error lost] := by
  intro store c l lost us
  have hc : c.Fresh := TripleStore.fresh_stepwise _ _ _
  have hset : c.config.minus = .set := rfl
  have hleft : (l.execute c).outcome.map (fun s => (s.take none).value.head?) =
      .ok (some (.ok [some (.iri "a"), some (.iri "b")])) := by
    rw [execute_eq_dispatchWithin rfl (dispatch c)]
    rfl
  have hright : ((distinct l).execute c).outcome.map (fun s => s.gather.value) =
      .ok (.error lost) := by
    rw [execute_eq_dispatchWithin rfl (dispatch c)]
    rfl
  have hcold : ((minus l (distinct l) false).execute c).outcome.map Solutions.isHot =
      .ok false := by
    rw [execute_eq_dispatchWithin rfl (dispatch c)]
    rfl
  cases hl : (l.execute c).outcome with
  | error e => simp [hl, Except.map] at hleft
  | ok left =>
    cases hr : ((distinct l).execute c).outcome with
    | error e => simp [hr, Except.map] at hright
    | ok right =>
      obtain ⟨-, hsides⟩ := set_difference_gathers_once hc hset l (distinct l) false
      obtain ⟨-, begun, s, t, hs, -, -, -, hfails, -⟩ := (hsides left hl).2 right hr
      have hhead : (left.take none).value.head? =
          some (.ok [some (.iri "a"), some (.iri "b")]) := by
        simpa [hl, Except.map] using hleft
      have hlost : right.gather.value = .error lost := by simpa [hr, Except.map] using hright
      have hhot : s.isHot = false := by simpa [hs, Except.map] using hcold
      obtain ⟨is, hitems⟩ := List.head?_eq_some_iff.mp hhead
      have hreply := hfails lost hlost us (.take .pull none)
      rw [hhot, hitems] at hreply
      exact ⟨hc, hset, left, right, s, rfl, rfl, hlost, by rw [hs], hreply⟩

end Plan
end TripleAlgebra
