import TripleAlgebra.Proofs.Bag
import TripleAlgebra.Proofs.Header
import Mathlib.Algebra.BigOperators.Group.Multiset.Defs

/-! The meaning of a plan as the bag of its solutions over a set of triples. Operators that depend
on an order have none. -/
namespace TripleAlgebra
open Assignment Classical

namespace Slot

/-- What a slot demands of a term. -/
def Accepts (μ : Assignment) (t : Term) : Slot → Prop
  | .var v => μ v = some t
  | .term u => u = t

end Slot

namespace Pattern

/-- Each variable has the term at its first position. -/
def binding (p : Pattern) (t : Triple) : Assignment := fun v =>
  if p.subject = .var v then some t.subject
  else if p.predicate = .var v then some t.predicate
  else if p.object = .var v then some t.object
  else none

/-- All positions hold what the pattern demands, and a repeated variable the same term. -/
structure Matches (p : Pattern) (t : Triple) : Prop where
  subject : p.subject.Accepts (p.binding t) t.subject
  predicate : p.predicate.Accepts (p.binding t) t.predicate
  object : p.object.Accepts (p.binding t) t.object

/-- The solutions of a pattern: one for each triple that matches. -/
noncomputable def solutions (ts : List Triple) (p : Pattern) : Bag :=
  ((ts.dedup : Multiset Triple).filter p.Matches).map p.binding

theorem mem_vars {p : Pattern} {v : Variable} :
    v ∈ p.vars ↔ p.subject = .var v ∨ p.predicate = .var v ∨ p.object = .var v := by
  have hslot (x : Slot) : v ∈ x.vars ↔ x = .var v := by
    cases x <;> simp [Slot.vars, eq_comm]
  simp [vars, Variable.mem_append, hslot]

theorem binding_isSome {p : Pattern} {t : Triple} {v : Variable} :
    (p.binding t v).isSome ↔ v ∈ p.vars := by
  rw [mem_vars]
  unfold binding
  split
  · simp [*]
  · split
    · simp [*]
    · split <;> simp [*]

theorem within_binding (p : Pattern) (t : Triple) : Within p.vars (p.binding t) := by
  intro v hv
  have h := binding_isSome (t := t).not.mpr hv
  simpa using h

end Pattern

namespace Plan
variable (ts : List Triple)

mutual

noncomputable def meaning : Plan → Bag
  | .triple t => t.solutions ts
  | .identity => {Assignment.empty}
  | .join ps => Bag.joinAll (meaningEach ps)
  | .union ps => (meaningEach ps).sum
  | .leftJoin l r c => Bag.leftJoin (Satisfies c.toList) (meaning l) (meaning r)
  | .filter p cs => (meaning p).filter (Satisfies cs)
  | .project p vs => (meaning p).map (restrict vs)
  | .distinct p => (meaning p).dedup
  | .values p vs rows => Bag.join (rows.map (Row.assignment vs) : List Assignment) (meaning p)
  | .assign p v e => (meaning p).map fun μ => Function.update μ v (Expression.eval μ e).toOption
  | .minus l r b => Bag.minus b (meaning l) (meaning r)
  | .semijoin p q => Bag.semijoin (meaning p) (meaning q)
  | .antijoin p q => Bag.antijoin (meaning p) (meaning q)
  | .ask p => Bag.ask (meaning p)
  | .weakDistinct _ | .limit .. | .offset .. | .slice .. => 0

noncomputable def meaningEach : List Plan → List Bag
  | [] => []
  | p :: ps => meaning p :: meaningEach ps

end

theorem meaningEach_eq (ps : List Plan) : meaningEach ts ps = ps.map (meaning ts) := by
  induction ps with
  | nil => rfl
  | cons p ps ih => rw [meaningEach, ih, List.map_cons]

variable {ts}
variable {p : Plan} {μ : Assignment}

theorem meaning_join (ps : List Plan) :
    (join ps).meaning ts = Bag.joinAll (ps.map (meaning ts)) := by
  rw [meaning, meaningEach_eq]

theorem meaning_union (ps : List Plan) :
    (union ps).meaning ts = (ps.map (meaning ts)).sum := by
  rw [meaning, meaningEach_eq]

theorem mem_sum_meaning {ps : List Plan} :
    μ ∈ (ps.map (meaning ts)).sum ↔ ∃ p ∈ ps, μ ∈ p.meaning ts := by
  induction ps with
  | nil => simp
  | cons p ps ih => simp [ih]

/-- A property of solutions that holds of all solutions of the operands, as far as each operand
passes it on, and that agreeing solutions pass on when they are merged. -/
theorem joinAll_induct {motive : List Bag → Assignment → Prop} (nil : motive [] Assignment.empty)
    (step : ∀ Ss S μ ν, motive Ss μ → ν ∈ S → Compatible μ ν → motive (Ss ++ [S]) (merge μ ν))
    {Ss : List Bag} (h : μ ∈ Bag.joinAll Ss) : motive Ss μ := by
  induction Ss using List.reverseRecOn generalizing μ with
  | nil =>
    have hμ : μ = Assignment.empty := Multiset.mem_singleton.mp h
    exact hμ ▸ nil
  | append_singleton Ss S ih =>
    rw [Bag.joinAll, List.foldl_append] at h
    obtain ⟨κ, hκ, ν, hν, hc, rfl⟩ := Bag.mem_join.mp h
    exact step Ss S κ ν (ih hκ) hν hc

/-- Solutions bind variables of the header only. -/
theorem within_meaning (p : Plan) (h : μ ∈ p.meaning ts) : Within p.vars μ := by
  induction p using inductOperands generalizing μ with
  | triple t =>
    rw [meaning, Pattern.solutions] at h
    obtain ⟨a, _, rfl⟩ := Multiset.mem_map.mp h
    exact t.within_binding a
  | identity =>
    rw [Multiset.mem_singleton.mp h]
    exact within_empty _
  | join ps ih =>
    rw [meaning_join] at h
    have hall : Within (Variable.union (ps.map vars)) μ := by
      have hm := joinAll_induct (motive := fun Ss μ =>
        (∀ S ∈ Ss, ∀ ν ∈ S, Within (Variable.union (ps.map vars)) ν) →
          Within (Variable.union (ps.map vars)) μ)
        (fun _ => within_empty _) (fun Ss S μ ν hμ hν _ hS =>
          (hμ fun S hs => hS S (by simp [hs])).merge (hS S (by simp) ν hν)
            (List.Subset.refl _) (List.Subset.refl _)) h
      apply hm
      intro S hS ν hν
      obtain ⟨q, hq, rfl⟩ := List.mem_map.mp hS
      exact (ih q hq hν).mono fun v hv =>
        Variable.mem_union.mpr ⟨q.vars, List.mem_map_of_mem hq, hv⟩
    rwa [vars_join]
  | union ps ih =>
    rw [meaning_union] at h
    obtain ⟨q, hq, hμ⟩ := mem_sum_meaning.mp h
    exact (ih q hq hμ).mono fun v hv => mem_vars_union.mpr ⟨q, hq, hv⟩
  | leftJoin l r c hl hr =>
    obtain ⟨κ, hκ, hμ⟩ := Multiset.mem_bind.mp h
    have hk : Within (leftJoin l r c).vars κ :=
      (hl hκ).mono fun v hv => mem_vars_leftJoin.mpr (.inl hv)
    unfold Bag.extend at hμ
    split at hμ
    · rwa [Multiset.mem_singleton.mp hμ]
    · obtain ⟨ν, hν, hp⟩ := Multiset.mem_bind.mp (Multiset.mem_of_mem_filter hμ)
      rw [(Bag.mem_pair.mp hp).2]
      exact hk.merge (hr hν) (List.Subset.refl _) fun v hv => mem_vars_leftJoin.mpr (.inr hv)
  | filter p cs ih => exact ih (Multiset.mem_of_mem_filter h)
  | project p vs ih =>
    obtain ⟨ν, _, rfl⟩ := Multiset.mem_map.mp h
    exact (within_restrict vs ν).mono fun v hv => mem_vars_project.mpr hv
  | distinct p ih => exact ih (Multiset.mem_dedup.mp h)
  | values p vs rows ih =>
    obtain ⟨κ, hκ, ν, hν, _, rfl⟩ := Bag.mem_join.mp h
    obtain ⟨r, _, rfl⟩ := List.mem_map.mp (Multiset.mem_coe.mp hκ)
    exact (Row.within_assignment vs r).merge (ih hν) (fun v hv => mem_vars_values.mpr (.inl hv))
      fun v hv => mem_vars_values.mpr (.inr hv)
  | assign p w e ih =>
    obtain ⟨ν, hν, rfl⟩ := Multiset.mem_map.mp h
    intro v hv
    rw [mem_vars_assign, not_or] at hv
    rw [Function.update_of_ne hv.2, ih hν v hv.1]
  | minus l r b hl _ => exact hl (Multiset.mem_of_mem_filter h)
  | semijoin p q hp _ | antijoin p q hp _ => exact hp (Multiset.mem_of_mem_filter h)
  | ask p =>
    rw [Bag.eq_empty_of_mem_ask h]
    exact within_empty _
  | weakDistinct | limit | offset | slice => cases h

/-- Solutions bind every certain variable. -/
theorem isSome_of_certain (p : Plan) (h : μ ∈ p.meaning ts) {v : Variable} (hv : v ∈ p.certain) :
    (μ v).isSome := by
  induction p using inductOperands generalizing μ with
  | triple t =>
    rw [meaning, Pattern.solutions] at h
    obtain ⟨a, _, rfl⟩ := Multiset.mem_map.mp h
    exact Pattern.binding_isSome.mpr hv
  | identity => simp [certain] at hv
  | join ps ih =>
    rw [meaning_join] at h
    obtain ⟨q, hq, hc⟩ := mem_certain_join.mp hv
    have hm := joinAll_induct (motive := fun Ss μ =>
      q.meaning ts ∈ Ss → (μ v).isSome) (by simp) (fun Ss S μ ν hμ hν hcomp hS => by
        rcases List.mem_append.mp hS with hS | hS
        · obtain ⟨t, ht⟩ := Option.isSome_iff_exists.mp (hμ hS)
          simp [merge_apply_left ht]
        · rw [← List.mem_singleton.mp hS] at hν
          obtain ⟨t, ht⟩ := Option.isSome_iff_exists.mp (ih q hq hν hc)
          simp [hcomp.merge_apply_right ht]) h
    exact hm (List.mem_map_of_mem hq)
  | union ps ih =>
    rw [meaning_union] at h
    obtain ⟨q, hq, hμ⟩ := mem_sum_meaning.mp h
    exact ih q hq hμ ((mem_certain_union.mp hv).2 q hq)
  | leftJoin l r c hl _ =>
    obtain ⟨κ, hκ, hμ⟩ := Multiset.mem_bind.mp h
    obtain ⟨t, ht⟩ := Option.isSome_iff_exists.mp (hl hκ (mem_certain_leftJoin.mp hv))
    simp [Bag.apply_of_mem_extend hμ ht]
  | filter p cs ih =>
    simp only [certain] at hv
    exact ih (Multiset.mem_of_mem_filter h) hv
  | project p vs ih =>
    obtain ⟨ν, hν, rfl⟩ := Multiset.mem_map.mp h
    obtain ⟨hm, hc⟩ := mem_certain_project.mp hv
    simpa [restrict, hm] using ih hν hc
  | distinct p ih =>
    simp only [certain] at hv
    exact ih (Multiset.mem_dedup.mp h) hv
  | values p vs rows ih =>
    obtain ⟨κ, hκ, ν, hν, hcomp, rfl⟩ := Bag.mem_join.mp h
    obtain ⟨r, hr, rfl⟩ := List.mem_map.mp (Multiset.mem_coe.mp hκ)
    rcases mem_certain_values.mp hv with hb | hc
    · obtain ⟨t, ht⟩ := Option.isSome_iff_exists.mp ((boundInRows_iff.mp hb).2 r hr)
      simp [merge_apply_left ht]
    · obtain ⟨t, ht⟩ := Option.isSome_iff_exists.mp (ih hν hc)
      simp [hcomp.merge_apply_right ht]
  | assign p w e ih =>
    obtain ⟨ν, hν, rfl⟩ := Multiset.mem_map.mp h
    obtain ⟨hw, hc⟩ := mem_certain_assign.mp hv
    rw [Function.update_of_ne hw.symm]
    exact ih hν hc
  | minus p q b hp _ | semijoin p q hp _ | antijoin p q hp _ =>
    simp only [certain] at hv
    exact hp (Multiset.mem_of_mem_filter h) hv
  | ask p => simp [certain] at hv
  | weakDistinct | limit | offset | slice => cases h

end Plan
end TripleAlgebra
