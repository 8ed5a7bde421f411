import TripleAlgebra.Expression.Eval
import Mathlib.Data.List.Basic
import Mathlib.Tactic.ByContra

/-! Assignments as solutions: when two agree, what they say together, and what an expression says
on them when some of its variables have been replaced. -/
namespace TripleAlgebra
namespace Assignment

/-- Nothing is bound. -/
def empty : Assignment := fun _ => none

/-- What the first assignment binds, and what only the second one binds. -/
def merge (μ ν : Assignment) : Assignment := fun v => (μ v).or (ν v)

/-- Both agree on the variables that both bind. -/
def Compatible (μ ν : Assignment) : Prop := ∀ v t u, μ v = some t → ν v = some u → t = u

/-- Drops the variables that `σ` binds. -/
def without (σ μ : Assignment) : Assignment := fun v => if (σ v).isSome then none else μ v

def restrict (vs : List Variable) (μ : Assignment) : Assignment := fun v =>
  if v ∈ vs then μ v else none

/-- Only variables of the list are bound. -/
def Within (vs : List Variable) (μ : Assignment) : Prop := ∀ v, v ∉ vs → μ v = none

variable {μ ν ρ σ : Assignment}

@[simp] theorem merge_empty (μ : Assignment) : merge μ empty = μ := by
  funext v
  simp [merge, empty]

theorem merge_assoc (μ ν ρ : Assignment) : merge (merge μ ν) ρ = merge μ (merge ν ρ) := by
  funext v
  simp [merge, Option.or_assoc]

@[simp] theorem empty_compatible (μ : Assignment) : Compatible empty μ := by
  intro v t u h
  cases h

theorem Compatible.symm (h : Compatible μ ν) : Compatible ν μ := fun v t u ht hu =>
  (h v u t hu ht).symm

theorem compatible_comm : Compatible μ ν ↔ Compatible ν μ := ⟨.symm, .symm⟩

theorem Compatible.merge_comm (h : Compatible μ ν) : merge μ ν = merge ν μ := by
  funext v
  unfold merge
  cases hμ : μ v with
  | none => simp
  | some t =>
    cases hν : ν v with
    | none => rfl
    | some u => rw [h v t u hμ hν, Option.or_some]

theorem merge_apply_left {v : Variable} {t : Term} (h : μ v = some t) : merge μ ν v = some t := by
  simp [merge, h]

theorem Compatible.merge_apply_right (h : Compatible μ ν) {v : Variable} {t : Term}
    (hv : ν v = some t) : merge μ ν v = some t := by
  rw [h.merge_comm]
  exact merge_apply_left hv

/-- An assignment agrees with two that agree together exactly if it agrees with each of them. -/
theorem Compatible.merge_iff (h : Compatible μ ν) :
    Compatible (merge μ ν) ρ ↔ Compatible μ ρ ∧ Compatible ν ρ := by
  constructor
  · intro hm
    exact ⟨fun v t u ht hu => hm v t u (merge_apply_left ht) hu,
      fun v t u ht hu => hm v t u (h.merge_apply_right ht) hu⟩
  · rintro ⟨hμ, hν⟩ v t u ht hu
    rcases Option.or_eq_some_iff.mp ht with hl | ⟨_, hr⟩
    · exact hμ v t u hl hu
    · exact hν v t u hr hu

theorem without_apply_none {v : Variable} (h : σ v = none) : without σ μ v = μ v := by
  simp [without, h]

theorem without_eq_some {v : Variable} {t : Term} :
    without σ μ v = some t ↔ σ v = none ∧ μ v = some t := by
  cases h : σ v <;> simp [without, h]

@[simp] theorem without_empty (μ : Assignment) : without empty μ = μ := rfl

theorem merge_without (σ μ : Assignment) : merge σ (without σ μ) = merge σ μ := by
  funext v
  cases h : σ v <;> simp [merge, without, h]

/-- Dropping the variables that an agreeing assignment binds loses nothing beside it. -/
theorem merge_without_left {σ μ ν : Assignment} (h : ∀ v t, σ v = some t → μ v = some t) :
    merge μ (without σ ν) = merge μ ν := by
  funext v
  cases hs : σ v with
  | none => simp [merge, without, hs]
  | some t => simp [merge, h v t hs]

theorem without_merge (σ μ ν : Assignment) :
    without σ (merge μ ν) = merge (without σ μ) (without σ ν) := by
  funext v
  cases h : σ v <;> simp [merge, without, h]

theorem without_merge_self (μ ν : Assignment) : without μ (merge μ ν) = without μ ν := by
  funext v
  cases h : μ v <;> simp [merge, without, h]

theorem without_without (σ τ μ : Assignment) :
    without σ (without τ μ) = without (merge σ τ) μ := by
  funext v
  cases hs : σ v <;> cases ht : τ v <;> simp [merge, without, hs, ht]

theorem Within.mono {vs ws : List Variable} (h : Within vs μ) (hs : vs ⊆ ws) : Within ws μ :=
  fun v hv => h v fun hm => hv (hs hm)

theorem Within.mem {vs : List Variable} (h : Within vs μ) {v : Variable} {t : Term}
    (hv : μ v = some t) : v ∈ vs := by
  by_contra hn
  rw [h v hn] at hv
  cases hv

theorem within_empty (vs : List Variable) : Within vs empty := fun _ _ => rfl

theorem Within.merge {vs ws : List Variable} (hμ : Within vs μ) (hν : Within ws ν)
    {us : List Variable} (hv : vs ⊆ us) (hw : ws ⊆ us) : Within us (merge μ ν) := by
  intro v h
  simp [Assignment.merge, hμ.mono hv v h, hν.mono hw v h]

theorem within_restrict (vs : List Variable) (μ : Assignment) : Within vs (restrict vs μ) := by
  intro v h
  simp [restrict, h]

theorem Within.restrict_eq {vs : List Variable} (h : Within vs μ) : restrict vs μ = μ := by
  funext v
  unfold restrict
  split
  · rfl
  · exact (h v ‹_›).symm

end Assignment

namespace Expression
open Assignment

/-- The value of an expression depends on the variables that occur in it only. -/
theorem eval_congr {μ ν : Assignment} {e : Expression} (h : ∀ v ∈ e.vars, μ v = ν v) :
    eval μ e = eval ν e := by
  replace h : ∀ v ∈ e.occurrences, μ v = ν v := fun v hv => h v (mem_vars.mpr hv)
  induction e using inductMembers with
  | const t => rfl
  | var v | bound v => simp [h v (by simp [occurrences])]
  | unary op e ih => rw [eval_unary, eval_unary, ih h]
  | binary op l r hl hr =>
    simp only [occurrences, List.mem_append] at h
    rw [eval_binary, eval_binary, hl fun v hv => h v (.inl hv), hr fun v hv => h v (.inr hv)]
  | conditional c t e hc ht he =>
    simp only [occurrences, List.mem_append] at h
    rw [eval_conditional, eval_conditional, hc fun v hv => h v (.inl hv),
      ht fun v hv => h v (.inr (.inl hv)), he fun v hv => h v (.inr (.inr hv))]
  | member e es he hes =>
    simp only [occurrences, occurrencesEach_eq, List.mem_append, List.mem_flatMap] at h
    have hmap : es.map (eval μ) = es.map (eval ν) := List.map_congr_left fun x hx =>
      hes x hx fun v hv => h v (.inr ⟨x, hx, hv⟩)
    rw [eval_member, eval_member, he fun v hv => h v (.inl hv), hmap]
  | coalesce es hes | call _ es hes =>
    simp only [occurrences, occurrencesEach_eq, List.mem_flatMap] at h
    have hmap : es.map (eval μ) = es.map (eval ν) := List.map_congr_left fun x hx =>
      hes x hx fun v hv => h v ⟨x, hx, hv⟩
    simp only [eval_coalesce, eval_call, hmap]

/-- A substituted expression sees the substituted terms before what an assignment binds. -/
theorem eval_substitute (σ μ : Assignment) (e : Expression) :
    eval μ (substitute σ e) = eval (merge σ μ) e := by
  have hmap {es : List Expression} (h : ∀ x ∈ es, eval μ (substitute σ x) = eval (merge σ μ) x) :
      (es.map (substitute σ)).map (eval μ) = es.map (eval (merge σ μ)) := by
    simpa using h
  induction e using inductMembers with
  | const t => rfl
  | var v => cases h : σ v <;> simp [substitute, substitute?, h, merge, Partial.ofOption]
  | bound v => cases h : σ v <;> simp [substitute, substitute?, h, merge]
  | unary op e ih => rw [substitute_unary, eval_unary, eval_unary, ih]
  | binary op l r hl hr => rw [substitute_binary, eval_binary, eval_binary, hl, hr]
  | conditional c t e hc ht he =>
    rw [substitute_conditional, eval_conditional, eval_conditional, hc, ht, he]
  | member e es he hes =>
    rw [substitute_member, eval_member, eval_member, he, hmap hes]
  | coalesce es hes =>
    rw [substitute_coalesce, eval_coalesce, eval_coalesce, hmap hes]
  | call f es hes =>
    rw [substitute_call, eval_call, eval_call, hmap hes]

theorem substituteEach?_eq_none {σ : Assignment} {es : List Expression} :
    substituteEach? σ es = none ↔ ∀ e ∈ es, substitute? σ e = none := by
  induction es with
  | nil => simp [substituteEach?]
  | cons e es ih => simp [substituteEach?, Update.both_eq_none, ih]

/-- An expression stays as it is exactly if no variable with a value occurs in it. -/
theorem substitute?_eq_none {σ : Assignment} {e : Expression} :
    substitute? σ e = none ↔ ∀ v ∈ e.vars, σ v = none := by
  simp only [mem_vars]
  induction e using inductMembers with
  | var v | bound v => simp [substitute?, occurrences]
  | const t => simp [substitute?, occurrences]
  | unary op e ih => simp [substitute?, occurrences, ih]
  | binary op l r hl hr =>
    simp [substitute?, Update.both_eq_none, occurrences, hl, hr, or_imp, forall_and]
  | conditional c t e hc ht he =>
    simp [substitute?, Update.both_eq_none, occurrences, hc, ht, he, or_imp, forall_and]
  | member e es he hes =>
    have hlist : substituteEach? σ es = none ↔ ∀ v ∈ occurrencesEach es, σ v = none := by
      rw [substituteEach?_eq_none, forall₂_congr hes, occurrencesEach_eq, List.forall_mem_flatMap]
    simp [substitute?, Update.both_eq_none, occurrences, he, hlist, or_imp, forall_and]
  | coalesce es hes | call _ es hes =>
    rw [substitute?, Option.map_eq_none_iff, substituteEach?_eq_none, forall₂_congr hes,
      occurrences, occurrencesEach_eq, List.forall_mem_flatMap]

theorem occurrences_substitute (σ : Assignment) (e : Expression) :
    (substitute σ e).occurrences = e.occurrences.filter fun v => (σ v).isNone := by
  induction e using inductMembers with
  | const t => rfl
  | var v | bound v => cases h : σ v <;> simp [substitute, substitute?, h, occurrences]
  | unary op e ih => rw [substitute_unary, occurrences, ih, occurrences]
  | binary op l r hl hr =>
    rw [substitute_binary, occurrences, hl, hr, occurrences, List.filter_append]
  | conditional c t e hc ht he =>
    rw [substitute_conditional, occurrences, hc, ht, he, occurrences, List.filter_append,
      List.filter_append]
  | member e es he hes =>
    rw [substitute_member, occurrences, he, occurrences, List.filter_append, occurrencesEach_eq,
      occurrencesEach_eq, List.flatMap_map, List.filter_flatMap, List.flatMap_congr hes]
  | coalesce es hes =>
    rw [substitute_coalesce, occurrences, occurrences, occurrencesEach_eq, occurrencesEach_eq,
      List.flatMap_map, List.filter_flatMap, List.flatMap_congr hes]
  | call f es hes =>
    rw [substitute_call, occurrences, occurrences, occurrencesEach_eq, occurrencesEach_eq,
      List.flatMap_map, List.filter_flatMap, List.flatMap_congr hes]

/-- The variables of a substituted expression are those that have no value, in order. -/
theorem vars_substitute (σ : Assignment) (e : Expression) :
    (substitute σ e).vars = e.vars.filter fun v => (σ v).isNone := by
  rw [vars, vars, occurrences_substitute, Variable.filter_append, List.filter_nil]

theorem mem_vars_substitute {σ : Assignment} {e : Expression} {v : Variable} :
    v ∈ (substitute σ e).vars ↔ v ∈ e.vars ∧ σ v = none := by
  simp [vars_substitute]

theorem holds_congr {μ ν : Assignment} {e : Expression} (h : ∀ v ∈ e.vars, μ v = ν v) :
    holds μ e = holds ν e := by
  rw [holds, holds, truth, truth, eval_congr h]

theorem holds_substitute (σ μ : Assignment) (e : Expression) :
    holds μ (substitute σ e) = holds (merge σ μ) e := by
  rw [holds, holds, truth, truth, eval_substitute]

end Expression

namespace Assignment

/-- All conditions are true. -/
def Satisfies (cs : List Expression) (μ : Assignment) : Prop := ∀ e ∈ cs, Expression.holds μ e

theorem satisfies_congr {cs : List Expression} {μ ν : Assignment}
    (h : ∀ e ∈ cs, ∀ v ∈ e.vars, μ v = ν v) : Satisfies cs μ ↔ Satisfies cs ν :=
  forall_congr' fun e => forall_congr' fun he => by rw [Expression.holds_congr (h e he)]

theorem satisfies_substitute (σ : Assignment) (cs : List Expression) (μ : Assignment) :
    Satisfies (cs.map (Expression.substitute σ)) μ ↔ Satisfies cs (merge σ μ) := by
  simp [Satisfies, Expression.holds_substitute]

end Assignment
end TripleAlgebra
