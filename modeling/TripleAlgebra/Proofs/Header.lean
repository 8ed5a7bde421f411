import TripleAlgebra.Proofs.Substitution

/-! The header of a specialised plan: the substituted variables are gone, and what was certain to
be bound still is. -/
namespace TripleAlgebra

namespace Plan
variable {s : Substitution} {p : Plan} {v : Variable}

/-- Induction over the children of a plan. -/
@[elab_as_elim]
theorem inductChildren {motive : Plan → Prop}
    (step : ∀ p : Plan, (∀ q ∈ p.children, motive q) → motive p) (p : Plan) : motive p := by
  induction p using inductOperands with
  | triple | identity => exact step _ (by simp [children])
  | join ps ih | union ps ih => exact step _ ih
  | leftJoin l r c hl hr => exact step _ (by simp [children, hl, hr])
  | semijoin l r hl hr | antijoin l r hl hr => exact step _ (by simp [children, hl, hr])
  | minus l r b hl hr => exact step _ (by simp [children, hl, hr])
  | filter p cs ih | project p vs ih | distinct p ih | weakDistinct p ih =>
    exact step _ (by simp [children, ih])
  | limit p n ih | offset p n ih | slice p n c ih => exact step _ (by simp [children, ih])
  | values p vs rs ih | assign p v e ih | ask p ih => exact step _ (by simp [children, ih])

theorem vars_join (ps : List Plan) : (join ps).vars = Variable.union (ps.map vars) := by
  simp only [vars, varsEach_eq]

theorem vars_union (ps : List Plan) : (union ps).vars = Variable.union (ps.map vars) := by
  simp only [vars, varsEach_eq]

theorem mem_vars_union {ps : List Plan} : v ∈ (union ps).vars ↔ ∃ p ∈ ps, v ∈ p.vars := by
  simp [vars_union, Variable.mem_union]

theorem mem_vars_leftJoin {l r : Plan} {c : Option Expression} :
    v ∈ (leftJoin l r c).vars ↔ v ∈ l.vars ∨ v ∈ r.vars := by
  simp [vars, Variable.mem_union]

theorem mem_vars_values {vs : List Variable} {rows : List Row} :
    v ∈ (values p vs rows).vars ↔ v ∈ vs ∨ v ∈ p.vars := by
  simp [vars, Variable.mem_union]

theorem mem_vars_assign {w : Variable} {e : Expression} :
    v ∈ (assign p w e).vars ↔ v ∈ p.vars ∨ v = w := by
  simp [vars, Variable.mem_union]

theorem mem_vars_project {vs : List Variable} : v ∈ (project p vs).vars ↔ v ∈ vs := by
  simp [vars, Variable.mem_union]

theorem mem_certain_join {ps : List Plan} :
    v ∈ (join ps).certain ↔ ∃ p ∈ ps, v ∈ p.certain := by
  simp only [certain, certainEach_eq, varsEach_eq, List.mem_filter, Variable.mem_union,
    List.any_map, List.any_eq_true, List.mem_map, Function.comp_apply, decide_eq_true_eq]
  constructor
  · rintro ⟨_, h⟩
    exact h
  · rintro ⟨p, hp, h⟩
    exact ⟨⟨p.vars, ⟨p, hp, rfl⟩, certain_subset p h⟩, p, hp, h⟩

theorem mem_certain_union {ps : List Plan} :
    v ∈ (union ps).certain ↔ v ∈ (union ps).vars ∧ ∀ p ∈ ps, v ∈ p.certain := by
  simp [certain, vars, certainEach_eq, List.all_map]

theorem mem_certain_leftJoin {l r : Plan} {c : Option Expression} :
    v ∈ (leftJoin l r c).certain ↔ v ∈ l.certain := by
  simp only [certain, List.mem_filter, Variable.mem_union, decide_eq_true_eq, and_iff_right_iff_imp]
  intro h
  exact ⟨l.vars, by simp, certain_subset l h⟩

theorem mem_certain_project {vs : List Variable} :
    v ∈ (project p vs).certain ↔ v ∈ vs ∧ v ∈ p.certain := by
  simp [certain, Variable.mem_union]

theorem mem_certain_values {vs : List Variable} {rows : List Row} :
    v ∈ (values p vs rows).certain ↔ boundInRows vs rows v = true ∨ v ∈ p.certain := by
  simp only [certain, List.mem_filter, Variable.mem_union, Bool.or_eq_true, decide_eq_true_eq,
    and_iff_right_iff_imp]
  rintro (h | h)
  · refine ⟨vs, by simp, ?_⟩
    by_contra hn
    simp [boundInRows, Variable.column?_eq_none.mpr hn] at h
  · exact ⟨p.vars, by simp, certain_subset p h⟩

theorem mem_certain_assign {w : Variable} {e : Expression} :
    v ∈ (assign p w e).certain ↔ w ≠ v ∧ v ∈ p.certain := by
  simp only [certain, List.mem_filter, Variable.mem_union, Bool.and_eq_true, decide_eq_true_eq,
    and_iff_right_iff_imp]
  rintro ⟨_, h⟩
  exact ⟨p.vars, by simp, certain_subset p h⟩

theorem defers_eq_false : p.defers v = false → v ∈ p.vars → v ∈ p.certain := by
  intro h hv
  by_contra hc
  simp [defers, maybeUnbound, hv, hc] at h

theorem nodup_remaining_vars (s : Substitution) (p : Plan) : (s.remaining p.vars).Nodup :=
  Substitution.nodup_remaining p.nodup_vars

theorem vars_checkAfter (s : Substitution) (p : Plan) :
    (checkAfter s p).vars = s.remaining p.vars :=
  Variable.union_singleton (nodup_remaining_vars s p)

theorem vars_pushed {all s : Substitution} {p : Plan}
    (hd : ∀ v, (s.find? v).isSome → p.defers v = false)
    (ih : ∀ q ∈ p.children, ∀ s, (substitute s q).vars = s.remaining q.vars) :
    (p.pushed all s).vars = s.remaining p.vars := by
  have hmap (ps : List Plan) (h : ∀ q ∈ ps, ∀ s, (substitute s q).vars = s.remaining q.vars) :
      (ps.map (substitute s)).map vars = (ps.map vars).map s.remaining := by
    rw [List.map_map, List.map_map]
    exact List.map_congr_left fun q hq => h q hq s
  cases p with
  | triple t =>
    rcases substituteTriple?_getD s t with ⟨_, _, _, _, _, h⟩ | h
    · rw [pushed, h, vars, vars, vars]
      rw [Variable.union_fresh (Substitution.nodup_remaining t.nodup_vars) .nil (by simp)]
      simp
    · rw [pushed, h, vars, vars, t.vars_substitute]
  | identity => rfl
  | join ps => rw [pushed, vars_join, vars_join, Substitution.remaining_union, hmap ps ih]
  | union ps => rw [pushed, vars_union, vars_union, Substitution.remaining_union, hmap ps ih]
  | leftJoin l r c =>
    simp only [pushed, vars]
    rw [ih l (by simp [children]), ih r (by simp [children]), Substitution.remaining_union]
    rfl
  | filter p cs | distinct p | weakDistinct p | limit p n | offset p n | slice p n c =>
    exact ih p (by simp [children]) s
  | semijoin p q | antijoin p q | minus p q b => exact ih p (by simp [children]) s
  | ask p => rfl
  | project p vs =>
    have hvs : (s.restrict vs).remaining vs = s.remaining vs :=
      Substitution.remaining_congr fun v hv => by simp [Substitution.find?_restrict, hv]
    rw [pushed]
    split
    · rename_i h
      rw [List.isEmpty_iff.mp h, Substitution.remaining_nil] at hvs
      simp only [vars]
      rw [Substitution.remaining_union, List.map_singleton, ← hvs]
    · simp only [vars]
      rw [Substitution.remaining_union, List.map_singleton, hvs]
  | values p vs rows =>
    rw [pushed]
    split
    · rename_i h
      obtain ⟨hb, hp⟩ : boundColumns s vs = [] ∧ substitute? s p = none := by simpa using h
      have hvs : s.remaining vs = vs := by
        rw [Substitution.remaining, List.filter_eq_self]
        intro v hv
        rw [boundColumns_eq_nil.mp hb v hv, Option.isNone_none]
      have hpv : s.remaining p.vars = p.vars := by
        rw [← ih p (by simp [children]) s, substitute, hp, Option.getD_none]
      simp only [vars]
      rw [Substitution.remaining_union, List.map_cons, List.map_singleton, hvs, hpv]
    · simp only [vars, substituteTable]
      rw [ih p (by simp [children]), Substitution.remaining_union]
      rfl
  | assign p w e =>
    have hw : s.remaining [w] = [w] := by
      cases h : s.find? w with
      | none => simp [Substitution.remaining, h]
      | some t =>
        have hc := defers_eq_false (hd w (by simp [h])) (by simp [mem_vars_assign])
        exact absurd rfl (mem_certain_assign.mp hc).1
    simp only [pushed, vars]
    rw [ih p (by simp [children]), Substitution.remaining_union, List.map_cons,
      List.map_singleton, hw]

/-- The header of a specialised plan is what remains of the header. -/
theorem vars_substitute (p : Plan) (s : Substitution) :
    (substitute s p).vars = s.remaining p.vars := by
  induction p using inductChildren generalizing s with
  | _ p ih =>
    have hpushed : (p.pushed s (p.early s)).vars = (p.early s).remaining p.vars :=
      vars_pushed (fun v hv => by
      obtain ⟨t, ht⟩ := Option.isSome_iff_exists.mp hv
      exact early_not_defers ht) ih
    rw [substitute_eq]
    split
    · rename_i h
      rw [hpushed]
      apply Substitution.remaining_congr
      intro v _
      have hv := find?_late p s v
      rw [List.isEmpty_iff.mp h] at hv
      rw [find?_early]
      cases hd : p.defers v <;> simp_all
    · rw [vars_checkAfter, hpushed]
      simp only [Substitution.remaining, List.filter_filter]
      apply List.filter_congr
      intro v _
      rw [find?_early, find?_late]
      cases p.defers v <;> simp

/-- A row of a specialised table is what remains of a row of the table. -/
theorem assignment_kept (s : Substitution) (vs : List Variable) (r : Row) :
    Row.assignment (s.remaining vs)
        (r.project (((vs.zipIdx.filter fun e => (s.find? e.1).isNone).map (·.2)).map some)) =
      Assignment.without s.find? (r.assignment vs) := by
  suffices h : ∀ n w, Row.assignment (s.remaining vs) (r.project
      ((((vs.zipIdx n).filter fun e => (s.find? e.1).isNone).map (·.2)).map some)) w =
      if (s.find? w).isSome then none
      else (Variable.column? vs w).bind fun i => r.value (n + i) by
    funext w
    rw [h 0 w]
    simp [Assignment.without, Row.assignment]
  induction vs with
  | nil =>
    intro n w
    simp [Substitution.remaining, Assignment.empty]
  | cons v vs ih =>
    intro n w
    have hr : s.remaining (v :: vs) =
        (if (s.find? v).isNone then [v] else []) ++ s.remaining vs := by
      rw [Substitution.remaining, List.filter_cons]
      split <;> rfl
    rw [hr, List.zipIdx_cons, List.filter_cons, Variable.column?_cons]
    have hshift : (Option.map (· + 1) (Variable.column? vs w)).bind (fun i => r.value (n + i)) =
        (Variable.column? vs w).bind fun i => r.value (n + 1 + i) := by
      cases Variable.column? vs w <;> simp [Nat.add_comm, Nat.add_left_comm]
    cases hv : s.find? v with
    | none =>
      have hc : Row.project r ((((v, n) :: (vs.zipIdx (n + 1)).filter
          fun e => (s.find? e.1).isNone).map (·.2)).map some) =
          r.value n :: Row.project r ((((vs.zipIdx (n + 1)).filter
            fun e => (s.find? e.1).isNone).map (·.2)).map some) := rfl
      simp only [Option.isNone_none, if_true, List.singleton_append]
      rw [hc, Row.assignment_cons, ih]
      by_cases hw : v = w
      · subst hw
        simp [hv]
      · simp [hw, hshift]
    | some t =>
      simp only [Option.isNone_some, Bool.false_eq_true, if_false, List.nil_append]
      rw [ih]
      by_cases hw : v = w
      · subst hw
        simp [hv]
      · simp [hw, hshift]

theorem boundInRows_iff {vs : List Variable} {rows : List Row} :
    boundInRows vs rows v = true ↔ v ∈ vs ∧ ∀ r ∈ rows, (r.assignment vs v).isSome := by
  unfold boundInRows
  cases h : Variable.column? vs v with
  | none => simp [Variable.column?_eq_none.mp h]
  | some i =>
    have hv : v ∈ vs := Variable.column?_isSome.mp (by simp [h])
    simp [hv, Row.assignment_apply h]

theorem boundInRows_substituteTable {vs : List Variable} {rows : List Row}
    (h : boundInRows vs rows v = true) (hs : s.find? v = none) :
    boundInRows (substituteTable s vs rows).1 (substituteTable s vs rows).2 v = true := by
  obtain ⟨hv, hr⟩ := boundInRows_iff.mp h
  refine boundInRows_iff.mpr ⟨Substitution.mem_remaining.mpr ⟨hv, hs⟩, ?_⟩
  simp only [substituteTable, List.mem_map, List.mem_filter]
  rintro _ ⟨r, ⟨hm, _⟩, rfl⟩
  rw [assignment_kept, Assignment.without_apply_none hs]
  exact hr r hm

theorem mem_certain_pushed {all s : Substitution}
    (ih : ∀ q ∈ p.children, ∀ s v, v ∈ q.certain → Substitution.find? s v = none →
      v ∈ (substitute s q).certain)
    (hv : v ∈ p.certain) (hs : s.find? v = none) : v ∈ (p.pushed all s).certain := by
  cases p with
  | triple t =>
    have hm : v ∈ s.remaining t.vars := Substitution.mem_remaining.mpr ⟨hv, hs⟩
    rcases substituteTriple?_getD s t with ⟨_, _, _, _, _, h⟩ | h
    · rw [pushed, h]
      exact mem_certain_values.mpr (.inl (boundInRows_iff.mpr ⟨hm, by simp⟩))
    · rw [pushed, h, certain, t.vars_substitute]
      exact hm
  | identity => exact hv
  | join ps =>
    obtain ⟨q, hq, hc⟩ := mem_certain_join.mp hv
    exact mem_certain_join.mpr ⟨_, List.mem_map_of_mem hq, ih q hq s v hc hs⟩
  | union ps =>
    obtain ⟨hm, hc⟩ := mem_certain_union.mp hv
    obtain ⟨q, hq, _⟩ := mem_vars_union.mp hm
    have hall : ∀ q' ∈ ps.map (substitute s), v ∈ q'.certain := by
      intro q' hq'
      obtain ⟨q, hq, rfl⟩ := List.mem_map.mp hq'
      exact ih q hq s v (hc q hq) hs
    have hq' : substitute s q ∈ ps.map (substitute s) := List.mem_map_of_mem hq
    exact mem_certain_union.mpr
      ⟨mem_vars_union.mpr ⟨_, hq', certain_subset _ (hall _ hq')⟩, hall⟩
  | leftJoin l r c =>
    rw [mem_certain_leftJoin] at hv
    exact mem_certain_leftJoin.mpr (ih l (by simp [children]) s v hv hs)
  | filter p cs | distinct p | weakDistinct p | limit p n | offset p n | slice p n c =>
    simp only [certain] at hv
    simpa only [pushed, certain] using ih p (by simp [children]) s v hv hs
  | semijoin p q | antijoin p q | minus p q b =>
    simp only [certain] at hv
    simpa only [pushed, certain] using ih p (by simp [children]) s v hv hs
  | ask p => simp [certain] at hv
  | project p vs =>
    obtain ⟨hm, hc⟩ := mem_certain_project.mp hv
    rw [pushed]
    split
    · exact mem_certain_project.mpr ⟨hm, hc⟩
    · have hr : (s.restrict vs).find? v = none := by simp [Substitution.find?_restrict, hs]
      exact mem_certain_project.mpr
        ⟨Substitution.mem_remaining.mpr ⟨hm, hr⟩, ih p (by simp [children]) _ v hc hr⟩
  | values p vs rows =>
    rw [pushed]
    split
    · exact hv
    · rcases mem_certain_values.mp hv with h | h
      · exact mem_certain_values.mpr (.inl (boundInRows_substituteTable h hs))
      · exact mem_certain_values.mpr (.inr (ih p (by simp [children]) s v h hs))
  | assign p w e =>
    obtain ⟨hw, hc⟩ := mem_certain_assign.mp hv
    exact mem_certain_assign.mpr ⟨hw, ih p (by simp [children]) s v hc hs⟩

/-- A certain variable that is not substituted stays certain. -/
theorem mem_certain_substitute (p : Plan) {s : Substitution} {v : Variable} (hv : v ∈ p.certain)
    (hs : s.find? v = none) : v ∈ (substitute s p).certain := by
  induction p using inductChildren generalizing s v with
  | _ p ih =>
    have hearly : (p.early s).find? v = none := by simp [find?_early, hs]
    have hlate : (p.late s).find? v = none := by simp [find?_late, hs]
    have hp : v ∈ (p.pushed s (p.early s)).certain :=
      mem_certain_pushed (fun q hq s v hv hs => ih q hq hv hs) hv hearly
    rw [substitute_eq]
    split
    · exact hp
    · refine mem_certain_project.mpr ⟨Substitution.mem_remaining.mpr ⟨?_, hlate⟩, ?_⟩
      · exact certain_subset _ hp
      · simpa only [certain] using hp

end Plan
end TripleAlgebra
