import TripleAlgebra.Proofs.Adequacy
import TripleAlgebra.Proofs.SetDifference

/-! Both rules by which differences are evaluated keep the same rows, as long as they look at the
same left rows. -/
namespace TripleAlgebra

/-- The context, with another rule for its differences. -/
def Context.withMinus (c : Context) (m : MinusRule) : Context :=
  { c with config := { c.config with minus := m } }

theorem Context.Holds.withMinus {c : Context} {ts : List Triple} {stored : Pattern → List Row}
    (hc : c.Holds ts stored) (m : MinusRule) : (c.withMinus m).Holds ts stored := { hc with }

section Chains
variable {limit : Nat} {answer answer' : Plan → List Row}

/-- The rows of a chain depend on the rows of its specialised operands only. -/
theorem JoinPlan.nestedRows_congr (p : JoinPlan limit) {steps : List (JoinStep limit)}
    (h : ∀ s ∈ steps, ∀ row, answer (s.specialise row) = answer' (s.specialise row)) (row : Row) :
    p.nestedRows answer steps row = p.nestedRows answer' steps row := by
  induction steps generalizing row with
  | nil => rfl
  | cons s rest ih =>
    have hrest := ih fun s' hs => h s' (List.mem_cons_of_mem _ hs)
    simp only [nestedRows, h s List.mem_cons_self, hrest]

namespace Plan

theorem chained_congr {plan : JoinPlan limit}
    (h : ∀ s ∈ plan.steps, ∀ row, answer (s.specialise row) = answer' (s.specialise row))
    (header : List Variable) (rows : List Row) :
    chained plan answer header rows = chained plan answer' header rows := by
  unfold chained
  simp only [plan.nestedRows_congr h]

theorem joinRows_congr {operands : List { p : Plan // p.rank < limit }}
    (hnone : answer .identity = answer' .identity)
    (hown : ∀ p ∈ operands, answer p.1 = answer' p.1)
    (hbind : ∀ p ∈ operands, ∀ vs xs, answer (p.1.bind vs xs) = answer' (p.1.bind vs xs))
    (projection : Option (List Nat)) :
    joinRows answer projection operands = joinRows answer' projection operands := by
  cases operands with
  | nil =>
    rw [joinRows, joinRows, hnone]
    exact chained_congr (fun s hs => by cases hs) _ _
  | cons head rest =>
    rw [joinRows, joinRows, hown head List.mem_cons_self]
    refine chained_congr (fun s hs row => ?_) _ _
    obtain ⟨p, hp, he⟩ := JoinStep.operand_of_mem_ofOperands hs
    rw [JoinStep.specialise, he]
    exact hbind p (List.mem_cons_of_mem _ hp) _ _

end Plan
end Chains

namespace Plan
variable {c : Context} {ts : List Triple} {stored : Pattern → List Row} {p q l r : Plan} {b : Bool}
  {rule : DuplicateRule}

/-- Every difference of the plan has a right side into which the values of left rows may be
substituted. -/
inductive Settled (rule : DuplicateRule) : Plan → Prop
  | node {p : Plan}
      (here : ∀ l r b, p = .minus l r b → Safe rule (fun v => v ∈ l.vars ∧ v ∈ r.vars) r)
      (below : ∀ q ∈ p.children, Settled rule q) : Settled rule p

theorem Settled.child (h : Settled rule p) (hq : q ∈ p.children) : Settled rule q := by
  cases h with
  | node _ below => exact below q hq

theorem Settled.right (h : Settled rule (.minus l r b)) :
    Safe rule (fun v => v ∈ l.vars ∧ v ∈ r.vars) r := by
  cases h with
  | node here _ => exact here l r b rfl

theorem Safe.settled {E : Variable → Prop} (h : Safe rule E p) : Settled rule p := by
  induction h with
  | triple t => exact .node (by simp) (by simp [children])
  | identity => exact .node (by simp) (by simp [children])
  | join _ ih | union _ ih => exact .node (by simp) ih
  | leftJoin _ _ _ hl hr => exact .node (by simp) (by simp [children, hl, hr])
  | filter _ _ ih | project _ ih | distinct _ _ ih | values _ _ ih | assign _ _ ih | ask _ _ ih =>
    exact .node (by simp) (by simp [children, ih])
  | semijoin _ _ _ hp hq | antijoin _ _ _ hp hq =>
    exact .node (by simp) (by simp [children, hp, hq])
  | minus _ hr ihl ihr =>
    refine .node ?_ (by simp [children, ihl, ihr])
    rintro _ _ _ ⟨⟩
    exact hr

theorem Settled.minus (hl : Settled rule l)
    (hr : Safe rule (fun v => v ∈ l.vars ∧ v ∈ r.vars) r) : Settled rule (.minus l r b) := by
  refine .node ?_ (by simp [children, hl, hr.settled])
  rintro _ _ _ ⟨⟩
  exact hr

/-- A specialised plan still has such differences only. -/
theorem Settled.specialised (h : Settled rule p) (s : Substitution) :
    Settled rule (substitute s p) := by
  induction p using inductChildren generalizing s with
  | _ p ih =>
    have hpushed (s' : Substitution) : Settled rule (p.pushed s s') := by
      refine .node (fun l' r' b' he => ?_) fun q' hq' => ?_
      · cases p with
        | minus l r b =>
          cases he
          refine (h.right.specialised _).mono fun v hv => ?_
          exact ⟨(mem_vars_of_substitute hv.1).1, (mem_vars_of_substitute hv.2).1⟩
        | triple t =>
          rw [pushed] at he
          rcases substituteTriple?_getD s' t with ⟨_, _, _, _, _, ht⟩ | ht
          · rw [ht] at he
            cases he
          · rw [ht] at he
            cases he
        | project p vs | values p vs table =>
          rw [pushed] at he
          split at he <;> cases he
        | _ => cases he
      · rcases mem_children_pushed hq' with rfl | ⟨q, hq, s'', rfl⟩
        · exact .node (by simp) (by simp [children])
        · exact ih q hq (h.child hq) s''
    rw [substitute_eq]
    split
    · exact hpushed _
    · refine .node (by simp [checkAfter]) (List.forall_mem_singleton.mpr ?_)
      exact .node (by simp) (List.forall_mem_singleton.mpr (hpushed _))

/-- A plan with such differences has the same rows by either rule. -/
theorem answers_withMinus (hc : c.Holds ts stored) (hp : Settled c.config.distinct p)
    (m : MinusRule) : Answers (c.withMinus m) p (p.rows c) := by
  have hc' := hc.withMinus m
  have hr := hc.toReliable
  have hr' := hc'.toReliable
  have hrows (q : Plan) := answers_rows hr q
  have hrows' (q : Plan) := answers_rows hr' q
  induction p using inductBelow with
  | _ p ih =>
    have hsame {rs rs' : List Row} (h' : Answers (c.withMinus m) p rs') (h : Answers c p rs)
        (he : rs' = rs) : Answers (c.withMinus m) p (p.rows c) := h.rows_eq hr ▸ he ▸ h'
    have hown (q : Plan) (hq : q ∈ p.children) : Answers (c.withMinus m) q (q.rows c) :=
      ih q (below_of_mem_children hq) (hp.child hq)
    have heq (q : Plan) (hq : q.rank < p.rank) (hs : Settled c.config.distinct q) :
        q.rows (c.withMinus m) = q.rows c := (ih q (.inl hq) hs).rows_eq hr'
    -- operands of chains and inner plans are evaluated after rows have been substituted into them
    have hbind (q : Plan) (hq : q.rank < p.rank) (hs : Settled c.config.distinct q)
        (vs : List Variable) (xs : List (Option Term)) :
        (q.bind vs xs).rows (c.withMinus m) = (q.bind vs xs).rows c :=
      heq _ (Nat.lt_of_le_of_lt (rank_bind_le ..) hq) (hs.specialised _)
    cases p with
    | triple t => exact hsame (answers_triple hr' t) (answers_triple hr t) rfl
    | identity => exact hsame (answers_identity hr') (answers_identity hr) rfl
    | join ps =>
      have hops (q) (hq : q ∈ operandsOf c ps) : Settled c.config.distinct q.1 := by
        obtain ⟨q', -, rfl⟩ := List.mem_map.mp hq
        exact hp.child q'.2
      have hidentity : Settled c.config.distinct .identity := .node (by simp) (by simp [children])
      have hnone := heq .identity (by simp only [rank]; omega) hidentity
      refine hsame (answers_join hr' fun q _ => hrows' q) (answers_join hr fun q _ => hrows q) ?_
      exact joinRows_congr hnone (fun q hq => heq q.1 q.2 (hops q hq))
        (fun q hq => hbind q.1 q.2 (hops q hq)) _
    | leftJoin l r condition =>
      have hl := (hown l List.mem_cons_self).rows_eq hr'
      have hsettled : Settled c.config.distinct r := hp.child (by simp [children])
      refine hsame (answers_leftJoin hr' fun q _ => hrows' q)
        (answers_leftJoin hr fun q _ => hrows q) ?_
      rw [hl]
      refine chained_congr (fun s hs row => ?_) _ _
      refine hbind _ s.operand_lt ?_ _ _
      obtain rfl := List.mem_singleton.mp hs
      cases condition with
      | none => exact hsettled
      | some e =>
        exact .node (by simp [JoinStep.ofOperand]) (List.forall_mem_singleton.mpr hsettled)
    | union ps =>
      exact hsame (answers_union hr' hown) (answers_union hr fun q _ => hrows q) rfl
    | filter p cs =>
      exact hsame ((hown p List.mem_cons_self).filter hr' cs) ((hrows p).filter hr cs) rfl
    | project p vs =>
      exact hsame ((hown p List.mem_cons_self).project hr' vs) ((hrows p).project hr vs) rfl
    | distinct p =>
      exact hsame ((hown p List.mem_cons_self).distinct hr') ((hrows p).distinct hr) rfl
    | weakDistinct p =>
      exact hsame ((hown p List.mem_cons_self).weakDistinct hr') ((hrows p).weakDistinct hr) rfl
    | limit p n =>
      exact hsame ((hown p List.mem_cons_self).limit hr' n) ((hrows p).limit hr n) rfl
    | offset p n =>
      exact hsame ((hown p List.mem_cons_self).offset hr' n) ((hrows p).offset hr n) rfl
    | slice p n count =>
      exact hsame ((hown p List.mem_cons_self).slice hr' n count) ((hrows p).slice hr n count) rfl
    | values p vs table =>
      have hsettled : Settled c.config.distinct p := hp.child List.mem_cons_self
      refine hsame (answers_values hr' fun q _ => hrows' q)
        (answers_values hr fun q _ => hrows q) ?_
      refine chained_congr (fun s hs row => ?_) _ _
      obtain ⟨q, hq, he⟩ := JoinStep.operand_of_mem_ofOperands hs
      refine hbind _ s.operand_lt (he ▸ ?_) _ _
      cases p with
      | identity => cases hq
      | _ => exact List.mem_singleton.mp hq ▸ hsettled
    | assign p v e =>
      exact hsame ((hown p List.mem_cons_self).assign hr' v e) ((hrows p).assign hr v e) rfl
    | ask p =>
      exact hsame ((hown p List.mem_cons_self).ask hr') ((hrows p).ask hr) rfl
    | semijoin p q =>
      have houter := (hown p List.mem_cons_self).rows_eq hr'
      have hinner := hbind q (by simp only [rank]; omega) (hp.child (by simp [children]))
      refine hsame (hrows' _) (hrows _) ?_
      simp only [rows_semijoin hr', rows_semijoin hr, houter, hinner]
    | antijoin p q =>
      have houter := (hown p List.mem_cons_self).rows_eq hr'
      have hinner := hbind q (by simp only [rank]; omega) (hp.child (by simp [children]))
      refine hsame (hrows' _) (hrows _) ?_
      simp only [rows_antijoin hr', rows_antijoin hr, houter, hinner]
    | minus l r b =>
      have hleft := (hown l List.mem_cons_self).rows_eq hr'
      refine hsame (hrows' _) (hrows _) ?_
      rw [rows_minus hr', rows_minus hr, hleft]
      refine List.filter_congr fun row _ => congrArg _ (Bool.eq_iff_iff.mpr ?_)
      rw [removed_iff hc' hp.right fun q _ h => solutions_eq_meaning hc' h,
        removed_iff hc hp.right fun q _ h => solutions_eq_meaning hc h]

theorem rows_withMinus (hc : c.Holds ts stored) (hp : Settled c.config.distinct p)
    (m : MinusRule) : p.rows (c.withMinus m) = p.rows c :=
  (answers_withMinus hc hp m).rows_eq (hc.withMinus m).toReliable

/-- By either rule, a difference keeps the left rows that agree with no right row. -/
theorem rows_minus_eq (hc : c.Holds ts stored)
    (hr : Safe c.config.distinct (fun v => v ∈ l.vars ∧ v ∈ r.vars) r) :
    (minus l r b).rows c =
      (l.rows c).filter fun row => !row.isRemoved b l.vars r.vars (r.rows c) := by
  rw [rows_minus hc.toReliable]
  refine List.filter_congr fun row _ => congrArg _ (Bool.eq_iff_iff.mpr ?_)
  rw [removed_iff hc hr fun q _ h => solutions_eq_meaning hc h, Row.isRemoved_iff,
    ← solutions_eq_meaning hc hr]
  rfl

theorem removed_set (hset : c.config.minus = .set) (row : Row) :
    removed c l r b row = row.isRemoved b l.vars r.vars (r.rows c) := by
  unfold removed
  rw [hset]
  exact MinusPlan.removes_eq_isRemoved l r b (r.rows c) row

open Store

/-- Both rules remove the left rows that agree with a row that the right side has on its own. The
left rows may differ, as they may themselves come from a difference with another right side, but
not if each difference of the left side is safe for its shared variables. -/
theorem minus_rules_agree (s : Contents) (config : Config) (l : Plan) {r : Plan}
    (hr : r.BindSafe config.distinct) (b : Bool) :
    let bound := s.context { config with minus := .bind }
    let gathered := s.context { config with minus := .set }
    (∃ left left' right, l.collect bound = .ok left ∧ l.collect gathered = .ok left' ∧
      r.collect bound = .ok right ∧ r.collect gathered = .ok right ∧
      (minus l r b).collect bound =
        .ok (left.filter fun row => !row.isRemoved b l.vars r.vars right) ∧
      (minus l r b).collect gathered =
        .ok (left'.filter fun row => !row.isRemoved b l.vars r.vars right)) ∧
    (l.Settled config.distinct →
      (minus l r b).collect bound = (minus l r b).collect gathered) := by
  intro bound gathered
  have hc := s.holds config
  have hbound : bound = (s.context config).withMinus .bind := rfl
  have hgathered : gathered = (s.context config).withMinus .set := rfl
  have hcollect (m : MinusRule) (p : Plan) := collect_eq_rows (hc.withMinus m).toReliable p
  have hright (m : MinusRule) :
      r.rows ((s.context config).withMinus m) = r.rows (s.context config) :=
    rows_withMinus hc (hr.safe (E := fun _ => True)).settled m
  have hminus (m : MinusRule) := rows_minus_eq (b := b) (l := l) (hc.withMinus m) hr.safe
  rw [hbound, hgathered]
  simp only [hcollect, hminus, hright]
  refine ⟨⟨_, _, _, rfl, rfl, rfl, rfl, rfl, rfl⟩, fun hl => ?_⟩
  rw [rows_withMinus hc hl, rows_withMinus hc hl]

/-- The left side is a difference itself and keeps at most two rows of its own left side. -/
theorem minus_rules_agree_edges :
    let followed := edge (.var ⟨"y"⟩) (.var ⟨"z"⟩)
    let l := minus (slice (edge (.var ⟨"x"⟩) (.var ⟨"y"⟩)) 0 (some 2)) followed false
    let r := leftJoin (edge (.var ⟨"y"⟩) (.var ⟨"w"⟩)) (edge (.var ⟨"w"⟩) (.var ⟨"x"⟩)) none
    r.BindSafe .all ∧ l.Settled .all ∧
    (minus l r true).collect (Contents.path.context { minus := .bind }) =
      (minus l r true).collect (Contents.path.context { minus := .set }) := by
  intro followed l r
  have hr : r.BindSafe .all := .leftJoin (.triple _) (.triple _) (by simp)
  have hl : l.Settled .all := by
    refine Settled.minus (.node (by simp) (List.forall_mem_singleton.mpr ?_)) (.triple _)
    exact (Safe.triple _ (E := fun _ => True)).settled
  exact ⟨hr, hl, (minus_rules_agree Contents.path {} l hr true).2 hl⟩

/-- The inner difference has a slice on its right side. Its rule decides whether the slice is taken
of all edges or, for each edge, of that edge alone. -/
theorem minus_rules_differ_below_slice :
    let l := edge (.var ⟨"x"⟩) (.var ⟨"y"⟩)
    let r := edge (.var ⟨"z"⟩) (.var ⟨"w"⟩)
    let p := minus (minus l (slice l 0 (some 1)) false) r false
    r.BindSafe .all ∧
    p.collect (Contents.path.context { minus := .bind }) = .ok [] ∧
    p.collect (Contents.path.context { minus := .set }) =
      .ok [[some (.iri "b"), some (.iri "c")]] := by
  intro l r p
  have hc (m : MinusRule) := Contents.path.holds { minus := m }
  have hrows (m : MinusRule) := collect_eq_rows (hc m).toReliable
  have hl (m : MinusRule) : l.rows (Contents.path.context { minus := m }) =
      [[some (.iri "a"), some (.iri "b")], [some (.iri "b"), some (.iri "c")]] :=
    (rows_edge ..).trans (by decide)
  have hslice (m : MinusRule) (q : Plan) :
      (slice q 0 (some 1)).rows (Contents.path.context { minus := m }) =
        (q.rows (Contents.path.context { minus := m })).take 1 :=
    ((answers_rows (hc m).toReliable q).slice (hc m).toReliable 0 (some 1)).rows_eq
      (hc m).toReliable
  have houter (m : MinusRule) (q : Plan) :=
    rows_minus_eq (l := q) (r := r) (b := false) (hc m) (.triple _)
  have hbound : (minus l (slice l 0 (some 1)) false).rows
      (Contents.path.context { minus := .bind }) = [] := by
    -- a left row binds both variables of the slice, so the slice is left with that edge
    have hremoved (u t : Term) : removed (Contents.path.context { minus := .bind }) l
        (slice l 0 (some 1)) false [some u, some t] =
        !((slice (edge (.term u) (.term t)) 0 (some 1)).rows
          (Contents.path.context { minus := .bind })).isEmpty := rfl
    rw [rows_minus (hc .bind).toReliable, hl, List.filter_cons, List.filter_cons,
      hremoved, hremoved, hslice, hslice, rows_edge, rows_edge]
    decide
  have hgathered : (minus l (slice l 0 (some 1)) false).rows
      (Contents.path.context { minus := .set }) = [[some (.iri "b"), some (.iri "c")]] := by
    have hset : (Contents.path.context { minus := .set }).config.minus = .set := rfl
    simp only [rows_minus (hc .set).toReliable, removed_set hset, hslice, hl]
    decide
  refine ⟨.triple _, ?_, ?_⟩
  · rw [hrows, houter, hbound]
    rfl
  · rw [hrows, houter, hgathered, rows_edge]
    decide

end Plan
end TripleAlgebra
