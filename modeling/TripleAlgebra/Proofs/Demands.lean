import TripleAlgebra.Proofs.Restart

/-! What demands for items make happen. -/
namespace TripleAlgebra

namespace Event
variable {as : List Act} {is : List Item}

@[simp] theorem effects_append (es fs : List Event) :
    effects (es ++ fs) = effects es ++ effects fs := by
  simp [effects, acts]

/-- What passes each act on at once passes all acts on. -/
theorem acts_first {f : List Event → List Event} (hf : ∀ a es, f (.act a :: es) = .act a :: f es)
    (as : List Act) (es : List Event) : f (as.map .act ++ es) = as.map .act ++ f es := by
  induction as with
  | nil => rfl
  | cons a as ih => exact (hf a _).trans (congrArg (.act a :: ·) ih)

theorem fuse_acts (as : List Act) (es : List Event) :
    fuse (as.map .act ++ es) = as.map .act ++ fuse es :=
  acts_first (fun _ _ => rfl) as es

theorem beforeItem_acts (as : List Act) (es : List Event) :
    (beforeItem (as.map .act ++ es)).1 = as.map .act ++ (beforeItem es).1 :=
  acts_first (f := fun es => (beforeItem es).1) (fun _ _ => rfl) as es

theorem untilError_acts (as : List Act) (es : List Event) :
    (untilError (as.map .act ++ es)).1 = as.map .act ++ (untilError es).1 :=
  acts_first (f := fun es => (untilError es).1) (fun _ _ => rfl) as es

theorem demand_acts (as : List Act) (es : List Event) (n : Nat) :
    (demand (n + 1) (as.map .act ++ es)).1 = as.map .act ++ (demand (n + 1) es).1 :=
  acts_first (f := fun es => (demand (n + 1) es).1) (fun _ _ => rfl) as es

theorem beforeItem_eq_acts (es : List Event) : ∃ as : List Act, (beforeItem es).1 = as.map .act := by
  induction es with
  | nil => exact ⟨[], rfl⟩
  | cons e es ih =>
    cases e with
    | act a =>
      obtain ⟨as, h⟩ := ih
      exact ⟨a :: as, congrArg (Event.act a :: ·) h⟩
    | item i => exact ⟨[], rfl⟩

theorem demand_nil (n : Nat) : demand n [] = ([], []) := by
  cases n <;> rfl

@[simp] theorem demand_zero (es : List Event) : demand 0 es = ([], es) := by
  cases es <;> rfl

theorem demand_succ_item (n : Nat) (i : Item) (es : List Event) :
    demand (n + 1) (.item i :: es) = (.item i :: (demand n es).1, (demand n es).2) := rfl

/-- A demand makes all happen where there is no item. -/
theorem demand_beforeItem (n : Nat) (es : List Event) :
    (demand (n + 1) (beforeItem es).1).1 = (beforeItem es).1 := by
  obtain ⟨as, h⟩ := beforeItem_eq_acts es
  have hall := demand_acts as [] n
  rwa [demand_nil, List.append_nil, ← h] at hall

/-- One demand after another. -/
theorem demand_add (a b : Nat) (es : List Event) :
    (demand (a + b) es).1 = (demand a es).1 ++ (demand b (demand a es).2).1 := by
  induction es generalizing a with
  | nil => simp [demand_nil]
  | cons e es ih =>
    cases a with
    | zero =>
      rw [Nat.zero_add]
      rfl
    | succ a =>
      rw [Nat.succ_add]
      cases e with
      | act x =>
        have hrest := ih (a + 1)
        rw [Nat.succ_add] at hrest
        exact congrArg (.act x :: ·) hrest
      | item i => exact congrArg (.item i :: ·) (ih a)

theorem effects_acts_ofItems : effects (as.map .act ++ ofItems is) = as.flatMap Act.effects := by
  have hacts : acts (as.map .act ++ ofItems is) = as := by
    simp [acts, act?, ofItems, List.filterMap_append, List.filterMap_map, Function.comp_def]
  rw [effects, hacts]

/-- If there is at most one item, each demand makes all happen. -/
theorem demand_short (h : is.length ≤ 1) (n : Nat) :
    (demand (n + 1) (as.map .act ++ ofItems is)).1 = as.map .act ++ ofItems is := by
  rw [demand_acts]
  match is, h with
  | [], _ => rfl
  | [i], _ => cases n <;> rfl

theorem untilError_short (h : is.length ≤ 1) :
    (untilError (as.map .act ++ ofItems is)).1 = as.map .act ++ ofItems is := by
  rw [untilError_acts]
  match is, h with
  | [], _ | [.ok r], _ | [.error e], _ => rfl

/-- What happens up to the first error is what some demands make happen, only the last of which
meets one. -/
theorem exists_demand_untilError (es : List Event) :
    ∃ n, (untilError es).1 = (demand (n + 1) es).1 ∧ ∀ i ∈ (items es).take n, i.isOk := by
  induction es with
  | nil => exact ⟨0, rfl, by simp⟩
  | cons e es ih =>
    obtain ⟨n, h, hrows⟩ := ih
    rcases e with a | e | r
    · exact ⟨n, congrArg (Event.act a :: ·) h, hrows⟩
    · refine ⟨0, ?_, by simp⟩
      rw [demand_succ_item, demand_zero]
      rfl
    · refine ⟨n + 1, congrArg (Event.item (.ok r) :: ·) h, fun i hi => ?_⟩
      rcases List.mem_cons.mp hi with rfl | hi
      · rfl
      · exact hrows i hi

end Event

/-- Uses that ask for an item. -/
def Use.demands : Use → Bool
  | .take _ none | .gather _ | .ask _ => true
  | .take _ (some n) => 0 < n
  | .isHot => false

namespace Solutions
variable {s : Solutions}

theorem memo_of_known (h : s.known = none) : s.memo = none := by
  cases hm : s.memo with
  | none => rfl
  | some rows => simp [known, hm] at h

/-- Gathering asks for no item behind an error. -/
theorem exists_take_gather (hknown : s.known = none) :
    ∃ n, s.gather.effects = (s.take (some (n + 1))).effects ∧
      ∀ i ∈ (s.take (some (n + 1))).value.take n, i.isOk := by
  obtain ⟨n, hdemand, hrows⟩ := Event.exists_demand_untilError s.run.events
  have hvalue : (s.take (some (n + 1))).value.take n = (Event.items s.run.events).take n := by
    simp only [take, nextRun, memo_of_known hknown, Event.items_demand, List.take_take]
    rw [Nat.min_eq_left (Nat.le_succ n)]
  refine ⟨n, ?_, ?_⟩
  · simp only [gather, hknown, take, nextRun, memo_of_known hknown, hdemand]
  · rwa [hvalue]

theorem effects_ask (h : s.known = none) : s.ask.effects =
    s.run.opening.flatMap Act.effects ++ Event.effects (Event.demand 1 s.run.events).1 := by
  unfold ask
  simp only [h]
  split <;> rfl

/-- Where there is at most one item, all uses that ask for one make the same happen. -/
theorem effects_perform_short {as : List Act} {is : List Item} (hknown : s.known = none)
    (hevents : s.run.events = as.map .act ++ Event.ofItems is) (h : is.length ≤ 1) {use : Use}
    (huse : use.demands) :
    (s.perform use).effects = s.run.opening.flatMap Act.effects ++ as.flatMap Act.effects := by
  have hmemo := memo_of_known hknown
  have hall : Event.effects (as.map .act ++ Event.ofItems is) = as.flatMap Act.effects :=
    Event.effects_acts_ofItems
  match use, huse with
  | .take _ none, _ => simp only [perform, Answer.map, take, nextRun, hmemo, hevents, hall]
  | .take _ (some (n + 1)), _ =>
    simp only [perform, Answer.map, take, nextRun, hmemo, hevents, Event.demand_short h, hall]
  | .gather _, _ =>
    simp only [perform, Answer.map, gather, hknown, hevents, Event.untilError_short h, hall]
  | .ask _, _ =>
    simp only [perform, Answer.map, effects_ask hknown, hevents, Event.demand_short h, hall]

end Solutions
end TripleAlgebra
