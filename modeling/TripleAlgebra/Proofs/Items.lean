import TripleAlgebra.Proofs.Regular

/-! The items that operators on events deliver. They depend on the items of the operands and on
nothing else that happens. -/
namespace TripleAlgebra

namespace Event
variable {es : List Event}

@[simp] theorem items_nil : items [] = [] := rfl

@[simp] theorem items_act (a : Act) (es : List Event) : items (.act a :: es) = items es := rfl

theorem mem_items {i : Item} : i ∈ items es ↔ .item i ∈ es := by
  simp only [items, List.mem_filterMap]
  constructor
  · rintro ⟨e, he, hi⟩
    cases e with
    | act a => cases hi
    | item j =>
      cases hi
      exact he
  · exact fun h => ⟨_, h, rfl⟩

@[simp] theorem items_acts (as : List Act) : items (as.map .act) = [] := by
  induction as with
  | nil => rfl
  | cons a as ih => exact ih

@[simp] theorem items_started (r : Run) : items r.started = items r.events := by
  simp [Run.started]

@[simp] theorem items_settle (es : List Event) : items (settle es) = items es := by
  induction es with
  | nil => rfl
  | cons e es ih =>
    cases e with
    | act a =>
      have hcons : settle (.act a :: es) = ofEffects a.effects ++ settle es := rfl
      rw [hcons, items_append, items_ofEffects, List.nil_append, ih]
      rfl
    | item i => exact congrArg (i :: ·) ih

/-- Items of which nothing else is known. -/
def ofItems (is : List Item) : List Event := is.map .item

@[simp] theorem items_ofItems (is : List Item) : items (ofItems is) = is := by
  induction is with
  | nil => rfl
  | cons i is ih => exact congrArg (i :: ·) ih

@[simp] theorem ofItems_cons (i : Item) (is : List Item) :
    ofItems (i :: is) = .item i :: ofItems is := rfl

theorem items_mapRows (f : Row → Row) (es : List Event) :
    items (mapRows f es) = (items es).map (Except.map f) := by
  induction es with
  | nil => rfl
  | cons e es ih =>
    rcases e with a | e | r
    · exact ih
    · exact congrArg (Except.error e :: ·) ih
    · exact congrArg (Except.ok (f r) :: ·) ih

/-- Rows pass by the test and errors always. -/
def passes (keep : Row → Bool) : Item → Bool
  | .ok r => keep r
  | .error _ => true

theorem items_filterRows (keep : Row → Bool) (es : List Event) :
    items (filterRows keep es) = (items es).filter (passes keep) := by
  induction es with
  | nil => rfl
  | cons e es ih =>
    rcases e with a | e | r
    · exact ih
    · exact congrArg (Except.error e :: ·) ih
    · cases hk : keep r
      · have hcons : filterRows keep (.item (.ok r) :: es) = filterRows keep es := by
          simp [filterRows, hk]
        rw [hcons, ih, items_item, List.filter_cons_of_neg (by simp [passes, hk])]
      · have hcons : filterRows keep (.item (.ok r) :: es) =
            .item (.ok r) :: filterRows keep es := by simp [filterRows, hk]
        rw [hcons, items_item, ih, items_item, List.filter_cons_of_pos (by simp [passes, hk])]

/-- What each row gives rise to, and the errors in their places. -/
def expandItem (f : Row → List Event) : Item → List Item
  | .ok r => items (f r)
  | .error e => [.error e]

theorem items_expand (f : Row → List Event) (es : List Event) :
    items (expand f es) = (items es).flatMap (expandItem f) := by
  induction es with
  | nil => rfl
  | cons e es ih =>
    rcases e with a | e | r
    · exact ih
    · exact congrArg (Except.error e :: ·) ih
    · rw [expand_row, items_append, ih, items_item, List.flatMap_cons]
      rfl

theorem mem_items_expand {f : Row → List Event} {r : Row} (h : .ok r ∈ items (expand f es)) :
    ∃ r', .ok r' ∈ items es ∧ .ok r ∈ items (f r') := by
  rw [items_expand] at h
  obtain ⟨i, hi, hr⟩ := List.mem_flatMap.mp h
  cases i with
  | error e => simp [expandItem] at hr
  | ok r' => exact ⟨r', hi, hr⟩

theorem hasRow_eq (es : List Event) : hasRow es = hasRow (ofItems (items es)) := by
  induction es with
  | nil => rfl
  | cons e es ih =>
    rcases e with a | e | r
    · exact ih
    · exact ih
    · rfl

theorem items_demand (n : Nat) (es : List Event) : items (demand n es).1 = (items es).take n := by
  induction es generalizing n with
  | nil => cases n <;> rfl
  | cons e es ih =>
    cases n with
    | zero => rfl
    | succ n =>
      cases e with
      | act a => exact ih (n + 1)
      | item i => exact congrArg (i :: ·) (ih n)

theorem items_untilError (es : List Event) :
    items (untilError es).1 = items (untilError (ofItems (items es))).1 := by
  induction es with
  | nil => rfl
  | cons e es ih =>
    rcases e with a | e | r
    · exact ih
    · rfl
    · exact congrArg (Except.ok r :: ·) ih

theorem items_beforeItem (es : List Event) : items (beforeItem es).1 = [] := by
  induction es with
  | nil => rfl
  | cons e es ih =>
    cases e with
    | act a => exact ih
    | item i => rfl

theorem items_fuse (es : List Event) : items (fuse es) = items (untilError es).1 := by
  induction es with
  | nil => rfl
  | cons e es ih =>
    rcases e with a | e | r
    · exact ih
    · exact congrArg (Except.error e :: ·) (items_beforeItem es)
    · exact congrArg (Except.ok r :: ·) ih

theorem items_beforeFirstRow (once : List Effect) (es : List Event) :
    items (MinusPlan.beforeFirstRow once es) = items es := by
  induction es with
  | nil => rfl
  | cons e es ih =>
    rcases e with a | e | r
    · exact ih
    · exact congrArg (Except.error e :: ·) ih
    · rfl

theorem items_distinct (s : RowSet) (es : List Event) :
    items (distinct s es) = items (distinct s (ofItems (items es))) := by
  induction es generalizing s with
  | nil => rfl
  | cons e es ih =>
    rcases e with a | e | r
    · exact ih s
    · exact congrArg (Except.error e :: ·) (ih s)
    · rw [items_item, ofItems_cons, distinct, distinct]
      obtain ⟨accepted, s'⟩ := s.insert r
      cases accepted
      · exact ih s'
      · exact congrArg (Except.ok r :: ·) (ih s')

theorem items_slice (start : Nat) (limit : Option Nat) (es : List Event) :
    items (slice start limit es) = items (slice start limit (ofItems (items es))) := by
  induction es generalizing start limit with
  | nil => rfl
  | cons e es ih =>
    by_cases hl : limit = some 0
    · subst hl
      rw [slice_zero, slice_zero]
    rcases e with a | e | r
    · rw [slice_act hl]
      exact ih start limit
    · have herror (es : List Event) : slice start limit (.item (.error e) :: es) =
          .item (.error e) :: slice start limit es := by simp [slice, hl]
      rw [items_item, ofItems_cons, herror, herror, items_item, items_item, ih]
    · rw [items_item, ofItems_cons]
      cases start with
      | succ start =>
        rw [slice_skip hl, slice_skip hl]
        exact ih start limit
      | zero =>
        rw [slice_keep hl, slice_keep hl, items_item, items_item, ih]

theorem slice_sublist (start : Nat) (limit : Option Nat) (es : List Event) :
    (slice start limit es).Sublist es := by
  fun_induction slice start limit es <;> simp_all

theorem distinct_sublist (s : RowSet) (es : List Event) : (distinct s es).Sublist es := by
  fun_induction distinct s es <;> simp_all

theorem untilError_sublist (es : List Event) : (untilError es).1.Sublist es := by
  have happ := List.sublist_append_left (untilError es).1 (untilError es).2
  rwa [untilError_append] at happ

theorem mem_items_of_sublist {fs : List Event} (h : fs.Sublist es) {i : Item}
    (hi : i ∈ items fs) : i ∈ items es :=
  mem_items.mpr (h.subset (mem_items.mp hi))

theorem collect_untilError (es : List Event) :
    collect (items (untilError es).1) = collect (items es) := by
  induction es with
  | nil => rfl
  | cons e es ih =>
    rcases e with a | e | r
    · exact ih
    · rfl
    · exact congrArg (Except.map (r :: ·)) ih

end Event

@[simp] theorem Solutions.items_ofItems (header : List Variable) (source : SourceKind)
    (items : List Item) : Event.items (ofItems header source items).run.events = items := by
  induction items with
  | nil => rfl
  | cons i items ih => exact congrArg (i :: ·) ih

/-- A complete consumption takes all items. -/
theorem Solutions.take_none {s : Solutions} (h : s.memo = none) :
    (s.take none).value = Event.items s.run.events := by
  simp [take, nextRun, h]

/-- What is gathered depends on the items only. -/
theorem Solutions.Regular.gather_eq {s : Solutions} {header : List Variable}
    (h : s.Regular header) : s.gather.value = Event.collect (Event.items s.run.events) := by
  have hstep (hs : s.known = none) :
      s.gather.value = Event.collect (Event.items s.run.events) := by
    rw [← Event.collect_untilError]
    simp only [gather, hs]
  cases hs : s.source with
  | table =>
    obtain ⟨rows, hd⟩ : ∃ rows, Event.Deliver s.run.events rows := ⟨_, (h.clean hs).deliver⟩
    rw [h.gather_iff.mpr hd, Event.deliver_iff.mp hd, Solutions.collect_ok]
  | generator | iterator | stream => exact hstep (by simp only [known, h.memo_eq, hs])
end TripleAlgebra
