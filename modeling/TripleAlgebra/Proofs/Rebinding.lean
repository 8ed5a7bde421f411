import TripleAlgebra.Proofs.Exposed

/-! Binding the variables of a plan: which plans it changes, what it keeps of them, and that nothing
is left to bind afterwards. -/
namespace TripleAlgebra

theorem Slot.substitute?_eq_none {s : Substitution} {x : Slot} :
    x.substitute? s = none ↔ ∀ v, x = .var v → s.find? v = none := by
  cases x <;> simp [Slot.substitute?]

theorem Expression.substituteEach?_eq_none_iff_vars {σ : Assignment} {es : List Expression} :
    substituteEach? σ es = none ↔ ∀ v ∈ es.flatMap vars, σ v = none := by
  rw [substituteEach?_eq_none, List.forall_mem_flatMap]
  exact forall₂_congr fun _ _ => substitute?_eq_none

namespace Plan
variable {s : Substitution} {p : Plan} {v : Variable}

/-! A plan changes exactly if a substituted variable is exposed in it. -/

theorem substituteTriple?_eq_none {t : Pattern} :
    substituteTriple? s t = none ↔ ∀ v ∈ t.vars, s.find? v = none := by
  have hslots : (∀ v ∈ t.vars, s.find? v = none) ↔ t.subject.substitute? s = none ∧
      t.predicate.substitute? s = none ∧ t.object.substitute? s = none := by
    simp [Pattern.mem_vars, Slot.substitute?_eq_none, or_imp, forall_and]
  rw [hslots]
  unfold substituteTriple?
  split
  · simp [*]
  · simp [*]
  · simp [Update.both_eq_none]

theorem find?_of_late_eq_nil (h : p.late s = []) (hd : p.defers v) : s.find? v = none := by
  have hv := find?_late p s v
  rw [h, if_pos hd] at hv
  exact hv.symm

theorem deferring_eq_none {push : Substitution → Option Plan}
    (hpush : p.late s = [] → (push s = none ↔ ∀ v ∈ p.exposed, s.find? v = none)) :
    deferring s p push = none ↔ ∀ v ∈ p.exposed, s.find? v = none := by
  rw [deferring_eq]
  split
  · rename_i h
    exact hpush (List.isEmpty_iff.mp h)
  · rename_i h
    obtain ⟨⟨v, t⟩, hv⟩ := List.exists_mem_of_ne_nil _ (mt List.isEmpty_iff.mpr h)
    obtain ⟨hs, hd⟩ := List.mem_filter.mp hv
    simp only [reduceCtorEq, false_iff]
    -- A deferred variable is an output variable, and those are exposed.
    intro hnone
    exact Substitution.find?_eq_none.mp
      (hnone v (vars_subset_exposed p (mem_vars_of_defers hd))) t hs

theorem wrap_eq_none (f : Plan → Plan) (hf : (f p).exposed = p.exposed)
    (hp : substitute? s p = none ↔ ∀ v ∈ p.exposed, s.find? v = none) :
    wrap s f p (fun s => substitute? s p) = none ↔ ∀ v ∈ (f p).exposed, s.find? v = none :=
  deferring_eq_none fun _ => by rw [Option.map_eq_none_iff, hf, hp]

theorem restrict_eq_nil_of_exposed {l : Plan} (h : ∀ v ∈ l.exposed, s.find? v = none) :
    s.restrict l.vars = [] :=
  Substitution.restrict_eq_nil.mpr fun v hv => h v (vars_subset_exposed l hv)

/-- A plan stays as it is exactly if no substituted variable is exposed in it. -/
theorem substitute?_eq_none {p : Plan} {s : Substitution} :
    substitute? s p = none ↔ ∀ v ∈ p.exposed, s.find? v = none := by
  induction p using inductOperands generalizing s with
  | triple t => exact deferring_eq_none fun _ => substituteTriple?_eq_none
  | identity => simp [substitute?, exposed]
  | join ps ih | union ps ih =>
    refine deferring_eq_none fun _ => ?_
    rw [Option.map_eq_none_iff, substituteEach?_eq_none, exposed, exposedEach_eq,
      List.forall_mem_flatMap]
    exact forall₂_congr fun q hq => ih q hq
  | leftJoin l r c hl hr =>
    refine deferring_eq_none fun _ => ?_
    have hc : Update.within (Expression.substitute? s.find?) c = none ↔
        ∀ v ∈ c.toList.flatMap Expression.vars, s.find? v = none := by
      cases c <;> simp [Update.within, Expression.substitute?_eq_none]
    simp only [Option.map_eq_none_iff, Update.both_eq_none, hl, hr, hc, exposed,
      List.forall_mem_append]
  | filter p cs ih =>
    refine deferring_eq_none fun _ => ?_
    simp only [Option.map_eq_none_iff, Update.both_eq_none, ih,
      Expression.substituteEach?_eq_none_iff_vars, exposed, List.forall_mem_append]
  | project p vs ih =>
    refine deferring_eq_none fun _ => ?_
    simp [exposed, ← Substitution.restrict_eq_nil]
  | values p vs rows ih =>
    refine deferring_eq_none fun _ => ?_
    rw [exposed, List.forall_mem_append, ← boundColumns_eq_nil, ← ih]
    simp
  | assign p w e ih =>
    refine deferring_eq_none fun hlate => ?_
    -- The target is never certain, so it is deferred if it is substituted.
    have hw : s.find? w = none := find?_of_late_eq_nil hlate (by
      simp [defers, maybeUnbound, mem_vars_assign, mem_certain_assign])
    simp only [Option.map_eq_none_iff, Update.both_eq_none, ih, Expression.substitute?_eq_none,
      exposed, List.forall_mem_cons, List.forall_mem_append, hw, true_and]
  | semijoin p q hp hq | antijoin p q hp hq =>
    refine deferring_eq_none fun _ => ?_
    simp only [Option.map_eq_none_iff, Update.both_eq_none, hp, hq, exposed,
      List.forall_mem_append]
  | minus l r b hl hr =>
    refine deferring_eq_none fun _ => ?_
    rw [Option.map_eq_none_iff, Update.both_eq_none, exposed, ← hl]
    refine and_iff_left_of_imp fun h => ?_
    rw [restrict_eq_nil_of_exposed (hl.mp h)]
    simp [Substitution.restrict, substitute?_nil, Update.both_eq_none]
  | distinct p ih => exact wrap_eq_none .distinct rfl ih
  | weakDistinct p ih => exact wrap_eq_none .weakDistinct rfl ih
  | limit p n ih => exact wrap_eq_none (.limit · n) rfl ih
  | offset p n ih => exact wrap_eq_none (.offset · n) rfl ih
  | slice p n c ih => exact wrap_eq_none (.slice · n c) rfl ih
  | ask p ih => exact wrap_eq_none .ask rfl ih

/-! What a substitution replaces is exposed no more. -/

theorem exposed_pushed (hlate : p.late s = [])
    (ih : ∀ q ∈ p.children, ∀ s v, v ∈ (substitute s q).exposed → Substitution.find? s v = none)
    (h : v ∈ (p.pushed s s).exposed) : s.find? v = none := by
  have hconditions (cs : List Expression)
      (hv : v ∈ (cs.map (Expression.substitute s.find?)).flatMap Expression.vars) :
      s.find? v = none := by
    simp only [List.mem_flatMap, List.mem_map] at hv
    obtain ⟨_, ⟨e, _, rfl⟩, hv⟩ := hv
    exact (Expression.mem_vars_substitute.mp hv).2
  cases p with
  | triple t =>
    rw [pushed] at h
    rcases substituteTriple?_getD s t with ⟨_, _, _, _, _, ht⟩ | ht
    · rw [ht, exposed, exposed, List.append_nil] at h
      exact (Substitution.mem_remaining.mp h).2
    · rw [ht, exposed, t.vars_substitute] at h
      exact (Substitution.mem_remaining.mp h).2
  | identity => cases h
  | join ps | union ps =>
    rw [pushed, exposed, exposedEach_eq] at h
    simp only [List.mem_flatMap, List.mem_map] at h
    obtain ⟨_, ⟨q, hq, rfl⟩, h⟩ := h
    exact ih q hq s v h
  | leftJoin l r c =>
    rw [pushed, exposed, List.mem_append, List.mem_append] at h
    rcases h with h | h | h
    · exact ih l (by simp [children]) s v h
    · exact ih r (by simp [children]) s v h
    · exact hconditions c.toList (by cases c <;> simp_all)
  | filter p cs =>
    rw [pushed, exposed, List.mem_append] at h
    exact h.elim (ih p (by simp [children]) s v) (hconditions cs)
  | project p vs =>
    rw [pushed] at h
    split at h
    · rename_i hnil
      exact Substitution.restrict_eq_nil.mp (List.isEmpty_iff.mp hnil) v h
    · obtain ⟨hv, hnone⟩ := Substitution.mem_remaining.mp h
      rwa [Substitution.find?_restrict_of_mem hv] at hnone
  | values p vs rows =>
    rw [pushed] at h
    split at h
    · rename_i hnone
      obtain ⟨hb, hp⟩ : boundColumns s vs = [] ∧ substitute? s p = none := by simpa using hnone
      rw [exposed, List.mem_append] at h
      exact h.elim (boundColumns_eq_nil.mp hb v) (substitute?_eq_none.mp hp v)
    · rw [exposed, List.mem_append] at h
      exact h.elim (fun hv => (Substitution.mem_remaining.mp hv).2)
        (ih p (by simp [children]) s v)
  | assign p w e =>
    rw [pushed, exposed, List.mem_cons, List.mem_append] at h
    rcases h with rfl | h | h
    · exact find?_of_late_eq_nil hlate (by
        simp [defers, maybeUnbound, mem_vars_assign, mem_certain_assign])
    · exact ih p (by simp [children]) s v h
    · exact (Expression.mem_vars_substitute.mp h).2
  | semijoin p q | antijoin p q =>
    rw [pushed, exposed, List.mem_append] at h
    exact h.elim (ih p (by simp [children]) s v) (ih q (by simp [children]) s v)
  | minus l r b => exact ih l (by simp [children]) s v h
  | distinct p | weakDistinct p | limit p n | offset p n | slice p n c | ask p =>
    exact ih p (by simp [children]) s v h

theorem exposed_substitute (h : v ∈ (substitute s p).exposed) : s.find? v = none := by
  induction p using inductChildren generalizing s v with
  | _ p ih =>
    rw [substitute_eq] at h
    split at h
    · rename_i hlate
      rw [early_eq_self hlate] at h
      exact exposed_pushed (List.isEmpty_iff.mp hlate) (fun q hq s v => ih q hq) h
    · -- The check after a plan is a projection, which exposes its header only.
      rename_i hlate
      have hv : v ∈ (substitute s p).vars := by
        rw [substitute_eq, if_neg hlate]
        exact mem_vars_project.mpr h
      rw [vars_substitute] at hv
      exact (Substitution.mem_remaining.mp hv).2

/-! Which operands a specialised plan keeps. -/

/-- What is substituted in each operand of a plan when `s` goes into the plan. -/
def reaching (s : Substitution) : Plan → List Substitution
  | .project _ vs => [s.restrict vs]
  | .minus l r _ => [s, (s.restrict l.vars).restrict r.vars]
  | p => p.children.map fun _ => s

theorem children_pushed {all : Substitution} (h : p.children ≠ []) :
    (p.pushed all s).children = List.zipWith substitute (p.reaching s) p.children := by
  cases p with
  | triple t | identity => exact absurd rfl h
  | join ps | union ps =>
    show ps.map (substitute s) = List.zipWith substitute (ps.map fun _ => s) ps
    rw [List.zipWith_map_left, List.zipWith_self]
  | project p vs =>
    rw [pushed]
    split
    · rename_i hnil
      simp [children, reaching, List.isEmpty_iff.mp hnil]
    · rfl
  | values p vs rows =>
    rw [pushed]
    split
    · rename_i hnone
      have hp : substitute? s p = none := by simpa using (Bool.and_eq_true_iff.mp hnone).2
      simp [children, reaching, substitute, hp]
    · rfl
  | leftJoin | filter | distinct | weakDistinct | limit | offset | slice | assign | semijoin
  | antijoin | minus | ask => rfl

theorem length_reaching (s : Substitution) (p : Plan) :
    (p.reaching s).length = p.children.length := by
  cases p <;> simp [reaching, children]

/-- Below the check of what is deferred, an operand of `p` has its place in `q` if what reaches it
changes nothing in it, and gives way to another plan if something changes. -/
def KeepsUnchanged (s : Substitution) (p q : Plan) : Prop :=
  ∃ body : Plan, q = (if (p.late s).isEmpty then body else checkAfter (p.late s) body) ∧
    ∀ (i : Nat) (o : Plan), p.children[i]? = some o →
      ∃ s', (p.reaching (p.early s))[i]? = some s' ∧
        (substitute? s' o = none → body.children[i]? = some o) ∧
        ∀ o', substitute? s' o = some o' → body.children[i]? = some o' ∧ o' ≠ o

theorem substitute?_ne_self {q : Plan} (h : substitute? s p = some q) : q ≠ p := by
  rintro rfl
  have hexposed : ∀ v ∈ q.exposed, s.find? v = none := fun v hv =>
    exposed_substitute (s := s) (p := q) (by rwa [substitute, h, Option.getD_some])
  rw [substitute?_eq_none.mpr hexposed] at h
  cases h

theorem keepsUnchanged_substitute (s : Substitution) (p : Plan) :
    KeepsUnchanged s p (substitute s p) := by
  refine ⟨p.pushed s (p.early s), substitute_eq s p, fun i o ho => ?_⟩
  have hi : i < (p.reaching (p.early s)).length := by
    rw [length_reaching]
    exact (List.getElem?_eq_some_iff.mp ho).1
  obtain ⟨s', hs⟩ : ∃ s', (p.reaching (p.early s))[i]? = some s' := ⟨_, List.getElem?_eq_getElem hi⟩
  have hplace : (p.pushed s (p.early s)).children[i]? = some (substitute s' o) := by
    rw [children_pushed (List.ne_nil_of_mem (List.mem_of_getElem? ho)), List.getElem?_zipWith, hs,
      ho]
  refine ⟨s', hs, fun hnone => ?_, fun o' ho' => ⟨?_, substitute?_ne_self ho'⟩⟩
  · rw [hplace, substitute, hnone, Option.getD_none]
  · rw [hplace, substitute, ho', Option.getD_some]

/-- The header of a bound plan is that of the plan, in its order, without the variables that are
bound to a term. -/
theorem vars_bind (p : Plan) (vs : List Variable) (ts : List (Option Term)) :
    (p.bind vs ts).vars =
        p.vars.filter (fun v => (vs.zip ts).all fun e => e.1 ≠ v || e.2.isNone) ∧
      (p.bind vs ts).vars.Nodup := by
  refine ⟨?_, nodup_vars _⟩
  rw [← Substitution.remaining_ofValues]
  exact vars_substitute p _

/-- A plan that binding changes is another plan, which keeps the operands in which nothing changes
and is not changed by the same binding once more. A plan that exposes none of the variables that are
bound to a term is kept itself. -/
theorem bind_changes_once (p : Plan) (vs : List Variable) (ts : List (Option Term)) :
    (p.bind? vs ts = none ↔ ∀ v ∈ p.exposed, ∀ t, (v, some t) ∉ vs.zip ts) ∧
      (∀ q, p.bind? vs ts = some q →
        q ≠ p ∧ KeepsUnchanged (Substitution.ofValues vs ts) p q) ∧
      (p.bind vs ts).bind? vs ts = none := by
  refine ⟨?_, fun q hq => ⟨substitute?_ne_self hq, ?_⟩, ?_⟩
  · rw [bind?, substitute?_eq_none]
    exact forall₂_congr fun _ _ => Substitution.find?_ofValues_eq_none
  · have hkeeps := keepsUnchanged_substitute (Substitution.ofValues vs ts) p
    rwa [substitute, show substitute? _ p = some q from hq, Option.getD_some] at hkeeps
  · exact substitute?_eq_none.mpr fun v hv => exposed_substitute hv

/-- The end of an optional edge is checked after the plan, its start goes into the left operand, and
the right operand is kept. -/
theorem bind_changes_once_optional_edge :
    let edge (u v : Slot) : Plan := .triple ⟨u, .term (.iri "p"), v⟩
    let p := leftJoin (edge (.var ⟨"x"⟩) (.var ⟨"y"⟩)) (edge (.var ⟨"y"⟩) (.var ⟨"z"⟩)) none
    let vs : List Variable := [⟨"x"⟩, ⟨"y"⟩, ⟨"z"⟩]
    let ts : List (Option Term) := [some (.iri "a"), none, some (.iri "c")]
    ∃ q, p.bind? vs ts = some q ∧ q ≠ p ∧ KeepsUnchanged (Substitution.ofValues vs ts) p q ∧
      q.bind? vs ts = none := by
  intro edge p vs ts
  obtain ⟨-, hchanged, hagain⟩ := bind_changes_once p vs ts
  obtain ⟨q, hq⟩ : ∃ q, p.bind? vs ts = some q := Option.isSome_iff_exists.mp (by decide)
  obtain ⟨hne, hkeeps⟩ := hchanged q hq
  rw [bind, hq, Option.getD_some] at hagain
  exact ⟨q, hq, hne, hkeeps, hagain⟩

end Plan
end TripleAlgebra
