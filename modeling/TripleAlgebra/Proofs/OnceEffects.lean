import TripleAlgebra.Proofs.Demands
import TripleAlgebra.Proofs.Failures

/-! Effects that happen only the first time. Over a history of uses, whatever kind they are of and
however early they end, such effects come once or not at all, and nothing else depends on them. -/
namespace TripleAlgebra

namespace Event
variable {x y es : List Event}

@[simp] theorem spent_append (es fs : List Event) : spent (es ++ fs) = spent es ++ spent fs :=
  List.filter_append es fs

@[simp] theorem spent_spent (es : List Event) : spent (spent es) = spent es := by
  unfold spent
  rw [List.filter_filter]
  exact List.filter_congr fun e _ => Bool.and_self _

theorem spent_once (g : List Effect) (es : List Event) : spent (.act (.once g) :: es) = spent es :=
  rfl

theorem mem_effects {e : Effect} : e ∈ effects es ↔ ∃ a, .act a ∈ es ∧ e ∈ a.effects := by
  simp only [effects, acts, List.mem_flatMap, List.mem_filterMap]
  constructor
  · rintro ⟨a, ⟨ev, hev, ha⟩, he⟩
    cases ev with
    | act b =>
      cases ha
      exact ⟨_, hev, he⟩
    | item i => cases ha
  · rintro ⟨a, ha, he⟩
    exact ⟨a, ⟨_, ha, rfl⟩, he⟩

theorem effects_subset {fs : List Event} (h : es ⊆ fs) : effects es ⊆ effects fs := by
  intro e he
  obtain ⟨a, ha, he⟩ := mem_effects.mp he
  exact mem_effects.mpr ⟨a, h ha, he⟩

/-- A consumption ends among the events `x` before an act, or among the events `y` behind it,
whichever act it is. -/
def EndsAround (x y : List Event) (cut : List Event → List Event × List Event) : Prop :=
  (∃ d e, d ++ e = x ∧ ∀ a, cut (x ++ .act a :: y) = (d, e ++ .act a :: y)) ∨
    ∃ d e, ∀ a, cut (x ++ .act a :: y) = (x ++ .act a :: d, e)

theorem EndsAround.cons {cut cut' : List Event → List Event × List Event} {e : Event}
    (hcut : ∀ es, cut' (e :: es) = (e :: (cut es).1, (cut es).2)) (h : EndsAround x y cut) :
    EndsAround (e :: x) y cut' := by
  obtain ⟨d, rest, rfl, h⟩ | ⟨d, rest, h⟩ := h
  · exact .inl ⟨e :: d, rest, rfl, fun a => by rw [List.cons_append, hcut, h]⟩
  · exact .inr ⟨d, rest, fun a => by rw [List.cons_append, hcut, h, List.cons_append]⟩

theorem endsAround_all (x y : List Event) : EndsAround x y fun es => (es, []) :=
  .inr ⟨y, [], fun _ => rfl⟩

theorem endsAround_demand (n : Nat) (x y : List Event) : EndsAround x y (demand n) := by
  induction x generalizing n with
  | nil =>
    cases n with
    | zero => exact .inl ⟨[], [], rfl, fun _ => rfl⟩
    | succ n => exact .inr ⟨_, _, fun _ => rfl⟩
  | cons e x ih =>
    cases n with
    | zero => exact .inl ⟨[], e :: x, rfl, fun _ => demand_zero _⟩
    | succ n =>
      cases e with
      | act a => exact (ih (n + 1)).cons fun _ => rfl
      | item i => exact (ih n).cons fun _ => rfl

theorem endsAround_untilError (x y : List Event) : EndsAround x y untilError := by
  induction x with
  | nil => exact .inr ⟨_, _, fun _ => rfl⟩
  | cons e x ih =>
    rcases e with a | e | r
    · exact ih.cons fun _ => rfl
    · exact .inl ⟨[.item (.error e)], x, rfl, fun _ => rfl⟩
    · exact ih.cons fun _ => rfl

/-- Where something is left behind the first error, there is one. -/
theorem collect_untilError_of_rest (h : (untilError es).2 ≠ []) :
    ∃ e, collect (items (untilError es).1) = .error e := by
  induction es with
  | nil => exact absurd rfl h
  | cons e es ih =>
    rcases e with a | e | r
    · exact ih h
    · exact ⟨e, rfl⟩
    · obtain ⟨e, he⟩ := ih h
      refine ⟨e, ?_⟩
      show (collect (items (untilError es).1)).map (r :: ·) = _
      rw [he]
      rfl

end Event

namespace Solutions
open Event
variable {s t : Solutions} {g : List Effect} {before x y : List Event}

/-- The solutions with an act that happens once among their events. -/
def withOnce (s : Solutions) (x : List Event) (g : List Effect) (y : List Event) : Solutions :=
  { s with run := ⟨s.run.opening, x ++ .act (.once g) :: y⟩ }

/-- Nothing or an act tells two solutions apart. It has effects in the first ones only, it has not
happened yet, and it stands behind the events `before`, from which nothing but acts that happen once
may be missing. -/
inductive Twin (g : List Effect) (before : List Event) : Solutions → Solutions → Prop
  | same (s : Solutions) : Twin g before s s
  | apart (s : Solutions) (x y : List Event) (hmemo : s.memo = none) (hsource : s.source ≠ .table)
      (hspent : spent x = spent before) (hrows : ∀ r, .ok r ∉ items x) :
      Twin g before (s.withOnce x g y) (s.withOnce x [] y)

/-- The effects of a use with the effects `g` among them, and without. -/
def Inserts (g : List Effect) (before : List Event) (t : Solutions) (es fs : List Effect) : Prop :=
  ∃ seen last, spent seen = spent before ∧ seen <+: t.run.events ∧
    es = t.run.opening.flatMap Act.effects ++ effects seen ++ g ++ last ∧
    fs = t.run.opening.flatMap Act.effects ++ effects seen ++ last

theorem known_withOnce (hmemo : s.memo = none) (hsource : s.source ≠ .table) (x : List Event)
    (g : List Effect) (y : List Event) : (s.withOnce x g y).known = none := by
  have hm : (s.withOnce x g y).memo = none := hmemo
  cases hk : (s.withOnce x g y).known with
  | none => rfl
  | some rows => exact absurd (source_table hm hk) hsource

theorem consumed_withOnce (hmemo : s.memo = none) (hsource : s.source ≠ .table)
    (done rest : List Event) : (s.withOnce x g y).consumed done rest =
      { s with
        run := if s.isHot then .empty else ⟨Act.spent s.run.opening, spent done ++ rest⟩ } := by
  have hhot : (s.withOnce x g y).isHot = s.isHot := rfl
  unfold consumed
  rw [hhot, known_withOnce hmemo hsource]
  cases s.isHot <;> rfl

/-- A consumption that ends before the act leaves it for later. One that does not has its effects,
and nothing tells the solutions apart afterwards. -/
theorem twin_consumed {cut : List Event → List Event × List Event} (hcut : EndsAround x y cut)
    (hmemo : s.memo = none) (hsource : s.source ≠ .table) (hspent : spent x = spent before)
    (hrows : ∀ r, .ok r ∉ items x) :
    let p := cut (s.withOnce x g y).run.events
    let q := cut (s.withOnce x [] y).run.events
    let s' := (s.withOnce x g y).consumed p.1 p.2
    let t' := (s.withOnce x [] y).consumed q.1 q.2
    items p.1 = items q.1 ∧
      (p.1 = q.1 ∧ p.2 ≠ [] ∧ (∀ r, .ok r ∉ items p.1) ∧ Twin g before s' t' ∨
        (∃ d, p.1 = x ++ .act (.once g) :: d ∧ q.1 = x ++ .act (.once []) :: d) ∧ p.2 = q.2 ∧
          s' = t') := by
  intro p q s' t'
  obtain ⟨d, e, rfl, h⟩ | ⟨d, e, h⟩ := hcut
  · have hp : p = (d, e ++ .act (.once g) :: y) := h _
    have hq : q = (d, e ++ .act (.once []) :: y) := h _
    refine ⟨by rw [hp, hq], .inl ⟨by rw [hp, hq], by simp [hp], fun r hr => hrows r ?_, ?_⟩⟩
    · rw [hp] at hr
      exact (items_append d e).symm ▸ List.mem_append_left _ hr
    · simp only [s', t', consumed_withOnce hmemo hsource, hp, hq]
      cases s.isHot with
      | true => exact .same _
      | false =>
        -- what is left goes before the act again
        have hleft (f : List Effect) :
            ({ s with run := ⟨Act.spent s.run.opening, spent d ++ (e ++ .act (.once f) :: y)⟩ } :
              Solutions) =
            Solutions.withOnce { s with run := ⟨Act.spent s.run.opening, []⟩ }
              (spent d ++ e) f y := by
          simp only [withOnce, List.append_assoc]
        simp only [Bool.false_eq_true, if_false, hleft]
        refine .apart _ _ _ hmemo hsource ?_ fun r hr => hrows r (by simpa using hr)
        rw [spent_append, spent_spent, ← spent_append, hspent]
  · have hp : p = (x ++ .act (.once g) :: d, e) := h _
    have hq : q = (x ++ .act (.once []) :: d, e) := h _
    refine ⟨by rw [hp, hq, items_append, items_append]; rfl,
      .inr ⟨⟨d, by rw [hp], by rw [hq]⟩, by rw [hp, hq], ?_⟩⟩
    simp only [s', t', consumed_withOnce hmemo hsource, hp, hq, spent_append, spent_once]

/-- The effects of a consumption are those in front of the act, those of the act, and others. -/
theorem inserts_consumed {p q : List Event} (hspent : spent x = spent before)
    (h : ∃ d, p = x ++ .act (.once g) :: d ∧ q = x ++ .act (.once []) :: d) :
    (s.withOnce x [] y).Inserts g before (s.run.opening.flatMap Act.effects ++ effects p)
      (s.run.opening.flatMap Act.effects ++ effects q) := by
  obtain ⟨d, rfl, rfl⟩ := h
  have hact (f : List Effect) :
      effects (x ++ .act (.once f) :: d) = effects x ++ f ++ effects d := by
    rw [effects_append, List.append_assoc]
    rfl
  refine ⟨x, effects d, hspent, List.prefix_append _ _, ?_, ?_⟩
  · rw [hact]
    simp only [List.append_assoc]
    rfl
  · rw [hact]
    simp only [List.append_assoc, List.nil_append]
    rfl

/-- How taking so many items ends. -/
def takeCut (n : Option Nat) : List Event → List Event × List Event :=
  match n with
  | some n => demand n
  | none => fun es => (es, [])

theorem endsAround_takeCut (n : Option Nat) (x y : List Event) : EndsAround x y (takeCut n) := by
  cases n with
  | none => exact endsAround_all x y
  | some n => exact endsAround_demand n x y

theorem takeCut_append (n : Option Nat) (es : List Event) :
    (takeCut n es).1 ++ (takeCut n es).2 = es := by
  cases n with
  | none => exact List.append_nil es
  | some n => exact demand_append n es

theorem take_eq (hmemo : s.memo = none) (n : Option Nat) : s.take n =
    ⟨s.run.opening.flatMap Act.effects ++ effects (takeCut n s.run.events).1,
      items (takeCut n s.run.events).1,
      s.consumed (takeCut n s.run.events).1 (takeCut n s.run.events).2⟩ := by
  cases n <;> simp [take, takeCut, nextRun, hmemo]

theorem gather_eq (hknown : s.known = none) :
    let p := untilError s.run.events
    s.gather = ⟨s.run.opening.flatMap Act.effects ++ effects p.1, collect (items p.1),
      { s.consumed p.1 p.2 with memo := (collect (items p.1)).toOption }⟩ := by
  simp only [gather, hknown]

theorem forget_eq (hmemo : s.memo = none) {e : Problem} :
    { s with memo := (Except.error e : Except Problem (List Row)).toOption } = s := by
  obtain ⟨header, source, run, memo⟩ := s
  subst hmemo
  rfl

/-- What a question for a row leaves. -/
def askedNext (s : Solutions) (p : List Event × List Event) : Solutions :=
  match items p.1 with
  | .ok r :: _ =>
    if s.isHot then { s with run := ⟨[], .item (.ok r) :: p.2⟩ } else s.consumed p.1 p.2
  | _ => s.consumed p.1 p.2

theorem ask_eq (hknown : s.known = none) :
    let p := demand 1 s.run.events
    s.ask = ⟨s.run.opening.flatMap Act.effects ++ effects p.1, found (items p.1),
      s.askedNext p⟩ := by
  unfold ask askedNext
  simp only [hknown]
  split
  · rename_i h
    rw [h]
    rfl
  · rename_i h
    rw [h]
    rfl
  · rename_i h
    rw [h]
    rfl

theorem askedNext_of_noRow {p : List Event × List Event} (h : ∀ r, .ok r ∉ items p.1) :
    s.askedNext p = s.consumed p.1 p.2 := by
  unfold askedNext
  split
  · rename_i r is hp
    exact absurd (by simp [hp]) (h r)
  · rfl

/-- A use of twins has the same reply for both. Either it leaves twins and has the same effects, or
it has the effects of the act and leaves the same. -/
theorem Twin.perform (h : Twin g before s t) (u : Use) :
    (s.perform u).value = (t.perform u).value ∧
      ((s.perform u).effects = (t.perform u).effects ∧
          Twin g before (s.perform u).next (t.perform u).next ∨
        t.Inserts g before (s.perform u).effects (t.perform u).effects ∧
          (s.perform u).next = (t.perform u).next) := by
  cases h with
  | same => exact ⟨rfl, .inl ⟨rfl, .same _⟩⟩
  | apart s x y hmemo hsource hspent hrows =>
    have hmemo' (f : List Effect) : (s.withOnce x f y).memo = none := hmemo
    have hknown (f : List Effect) := known_withOnce hmemo hsource x f y
    cases u with
    | take m n =>
      obtain ⟨hitems, h⟩ :=
        twin_consumed (g := g) (endsAround_takeCut n x y) hmemo hsource hspent hrows
      rw [Solutions.perform, Solutions.perform, take_eq (hmemo' g), take_eq (hmemo' [])]
      refine ⟨congrArg Reply.items hitems, ?_⟩
      obtain ⟨hsame, -, -, htwin⟩ | ⟨hact, -, hnext⟩ := h
      · exact .inl ⟨congrArg (_ ++ effects ·) hsame, htwin⟩
      · exact .inr ⟨inserts_consumed hspent hact, hnext⟩
    | gather m =>
      obtain ⟨hitems, h⟩ :=
        twin_consumed (g := g) (endsAround_untilError x y) hmemo hsource hspent hrows
      rw [Solutions.perform, Solutions.perform, gather_eq (hknown g), gather_eq (hknown [])]
      refine ⟨congrArg (Reply.rows <| collect ·) hitems, ?_⟩
      obtain ⟨hsame, hrest, -, htwin⟩ | ⟨hact, -, hnext⟩ := h
      · -- an error ends the gathering before the act, so that nothing is remembered
        obtain ⟨e, he⟩ := collect_untilError_of_rest hrest
        refine .inl ⟨congrArg (_ ++ effects ·) hsame, ?_⟩
        simp only [Answer.map]
        rw [← hitems, he, forget_eq ((consumed_memo _ _ _).trans (hmemo' g)),
          forget_eq ((consumed_memo _ _ _).trans (hmemo' []))]
        exact htwin
      · refine .inr ⟨inserts_consumed hspent hact, ?_⟩
        simp only [Answer.map]
        exact congrArg₂ (fun (t : Solutions) is => { t with memo := (collect is).toOption })
          hnext hitems
    | ask m =>
      obtain ⟨hitems, h⟩ :=
        twin_consumed (g := g) (endsAround_demand 1 x y) hmemo hsource hspent hrows
      rw [Solutions.perform, Solutions.perform, ask_eq (hknown g), ask_eq (hknown [])]
      refine ⟨congrArg (Reply.found <| found ·) hitems, ?_⟩
      obtain ⟨hsame, -, hnone, htwin⟩ | ⟨hact, hrest, hnext⟩ := h
      · refine .inl ⟨congrArg (_ ++ effects ·) hsame, ?_⟩
        simp only [Answer.map]
        rw [askedNext_of_noRow hnone, askedNext_of_noRow (hitems ▸ hnone)]
        exact htwin
      · refine .inr ⟨inserts_consumed hspent hact, ?_⟩
        simp only [Answer.map]
        unfold askedNext
        rw [hnext, hitems, hrest]
        rfl
    | isHot => exact ⟨rfl, .inl ⟨rfl, .apart s x y hmemo hsource hspent hrows⟩⟩

/-- In the history of `s` the effects `g` come once where that of `t` has none: some use makes
happen what stands before them, and then them. -/
def ComesOnce (g : List Effect) (before : List Event) (s t : Solutions) (us : List Use) : Prop :=
  ∃ us₁ u us₂ seen last, us = us₁ ++ u :: us₂ ∧
    spent seen = spent before ∧ seen <+: (t.history us₁).next.run.events ∧
    let begun := (t.history us₁).effects ++
      (t.history us₁).next.run.opening.flatMap Act.effects ++ effects seen
    (s.history us).effects = begun ++ g ++ last ∧ (t.history us).effects = begun ++ last

theorem Twin.history (h : Twin g before s t) (us : List Use) :
    (s.history us).value = (t.history us).value ∧
      ((s.history us).effects = (t.history us).effects ∨ ComesOnce g before s t us) := by
  induction us generalizing s t with
  | nil => exact ⟨rfl, .inl rfl⟩
  | cons u us ih =>
    obtain ⟨hvalue, ⟨hsame, htwin⟩ | ⟨hinserts, hnext⟩⟩ := h.perform u
    · obtain ⟨hvalues, hrest⟩ := ih htwin
      refine ⟨congrArg₂ List.cons hvalue hvalues, ?_⟩
      obtain hrest | ⟨us₁, v, us₂, seen, last, rfl, hspent, hseen, hs, ht⟩ := hrest
      · exact .inl (congrArg₂ (· ++ ·) hsame hrest)
      · refine .inr ⟨u :: us₁, v, us₂, seen, last, rfl, hspent, hseen, ?_, ?_⟩
        · simp only [Solutions.history, hs, hsame, List.append_assoc]
        · simp only [Solutions.history, ht, List.append_assoc]
    · refine ⟨congrArg₂ List.cons hvalue (by rw [hnext]), ?_⟩
      obtain ⟨seen, last, hspent, hseen, hs, ht⟩ := hinserts
      refine .inr ⟨[], u, us, seen, last ++ ((t.perform u).next.history us).effects, rfl, hspent,
        hseen, ?_, ?_⟩
      · simp only [Solutions.history, hs, hnext, List.nil_append, List.append_assoc]
      · simp only [Solutions.history, ht, List.nil_append, List.append_assoc]

/-! Every effect of a history is one of the next consumption. -/

theorem consumed_effects_subset {done rest : List Event} (h : done ++ rest = s.run.events) :
    effects (s.consumed done rest).run.started ⊆ effects s.run.started := by
  unfold consumed
  split_ifs
  · exact List.nil_subset _
  · exact List.Subset.refl _
  · apply effects_subset
    unfold Run.started
    rw [← h]
    intro e he
    simp only [List.mem_append] at he ⊢
    obtain hact | hdone | hrest := he
    · exact .inl (List.map_subset _ (List.filter_subset_self _) hact)
    · exact .inr (.inl (List.mem_of_mem_filter hdone))
    · exact .inr (.inr hrest)

theorem askedNext_effects_subset {p : List Event × List Event} (h : p.1 ++ p.2 = s.run.events) :
    effects (s.askedNext p).run.started ⊆ effects s.run.started := by
  unfold askedNext
  split
  · split_ifs
    · -- the row that is put back has no effects
      rw [effects_started s.run, ← h, effects_append]
      exact fun e he => List.mem_append_right _ (List.mem_append_right _ he)
    · exact consumed_effects_subset h
  · exact consumed_effects_subset h

theorem perform_effects_subset (s : Solutions) (u : Use) :
    (s.perform u).effects ⊆ effects s.run.started ∧
      effects (s.perform u).next.run.started ⊆ effects s.run.started := by
  have hbegun {p : List Event × List Event} (h : p.1 ++ p.2 = s.run.events) :
      s.run.opening.flatMap Act.effects ++ effects p.1 ⊆ effects s.run.started := by
    rw [effects_started, ← h, effects_append, ← List.append_assoc]
    exact List.subset_append_left _ _
  cases hmemo : s.memo with
  | some rows =>
    rw [perform_remembered hmemo]
    exact ⟨List.nil_subset _, List.Subset.refl _⟩
  | none =>
    cases u with
    | take m n =>
      rw [perform, take_eq hmemo]
      exact ⟨hbegun (takeCut_append n _), consumed_effects_subset (takeCut_append n _)⟩
    | gather m =>
      cases hknown : s.known with
      | some rows =>
        rw [perform, gather]
        simp only [hknown]
        exact ⟨List.nil_subset _, List.Subset.refl _⟩
      | none =>
        rw [perform, gather_eq hknown]
        exact ⟨hbegun (untilError_append _), consumed_effects_subset (untilError_append _)⟩
    | ask m =>
      cases hknown : s.known with
      | some rows =>
        rw [perform, ask]
        simp only [hknown]
        exact ⟨List.nil_subset _, List.Subset.refl _⟩
      | none =>
        rw [perform, ask_eq hknown]
        exact ⟨hbegun (demand_append _ _), askedNext_effects_subset (demand_append _ _)⟩
    | isHot => exact ⟨List.nil_subset _, List.Subset.refl _⟩

theorem history_effects_subset (s : Solutions) (us : List Use) :
    (s.history us).effects ⊆ effects s.run.started := by
  induction us generalizing s with
  | nil => exact List.nil_subset _
  | cons u us ih =>
    obtain ⟨heffects, hnext⟩ := s.perform_effects_subset u
    exact List.append_subset.mpr ⟨heffects, List.Subset.trans (ih _) hnext⟩

end Solutions
end TripleAlgebra
