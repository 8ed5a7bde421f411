import TripleAlgebra.Proofs.Meaning
import TripleAlgebra.Proofs.Safe

/-! Specialising a plan keeps the solutions that agree with the substituted terms and drops the
substituted variables. -/
namespace TripleAlgebra
open Assignment Classical

theorem truth_boolean (b : Bool) : (Value.ofTerm (.boolean b)).truth = .ok b := by
  cases b <;> rfl

namespace Expression

theorem termTruth_map_boolean (b : Partial Bool) : termTruth (b.map .boolean) = b := by
  cases b with
  | error e => rfl
  | ok b => exact truth_boolean b

theorem truth_unboundOrSame (μ : Assignment) (v : Variable) (t : Term) :
    truth μ (unboundOrSame v t) = .ok ((μ v).all (· = t)) := by
  have hbound : termTruth (.ok (.boolean (μ v).isSome)) = .ok (μ v).isSome := truth_boolean _
  have hsame (u : Term) : termTruth (applyBinary .sameTerm (.ok u) (.ok t)) = .ok (u = t) :=
    truth_boolean _
  simp only [unboundOrSame, truth, eval_binary, eval_unary, eval_bound, eval_var, eval_const,
    applyUnary]
  rw [applyBinary, termTruth_map_boolean, termTruth_map_boolean, hbound]
  cases h : μ v with
  | none => rfl
  | some u =>
    simp only [Partial.ofOption]
    rw [hsame]
    by_cases hu : u = t <;> simp [hu, Kleene.not, Kleene.or]

/-- The condition holds where the variable is unbound or has the term. -/
theorem holds_unboundOrSame (μ : Assignment) (v : Variable) (t : Term) :
    holds μ (unboundOrSame v t) = true ↔ ∀ u, μ v = some u → u = t := by
  rw [holds, truth_unboundOrSame]
  cases μ v <;> simp

end Expression

namespace Bag
variable {S : Bag} {σ : Assignment}

theorem specialise_eq_self (h : ∀ μ ∈ S, ∀ v, (μ v).isSome → σ v = none) :
    specialise σ S = S := by
  have he : specialise σ S = specialise Assignment.empty S := specialise_congr h
  have hc : S.filter (Compatible Assignment.empty) = S :=
    Multiset.filter_eq_self.mpr fun μ _ => empty_compatible μ
  rw [he, specialise, hc]
  exact (Multiset.map_congr rfl fun μ _ => without_empty μ).trans (Multiset.map_id S)

theorem specialise_filter_congr {c d : Assignment → Prop}
    (h : ∀ μ ∈ S, Compatible σ μ → (c μ ↔ d μ)) :
    specialise σ (S.filter c) = specialise σ (S.filter d) := by
  unfold specialise
  rw [Multiset.filter_filter, Multiset.filter_filter]
  congr 1
  exact Multiset.filter_congr fun μ hμ => and_congr_right fun hσ => h μ hμ hσ

end Bag

namespace Slot
variable {s : Substitution} {t : Term} {v : Variable}

theorem substitute_term (s : Substitution) (t : Term) : substitute s (.term t) = .term t := rfl

theorem substitute_var_none (h : s.find? v = none) : substitute s (.var v) = .var v := by
  simp [substitute, substitute?, h]

theorem substitute_var_some (h : s.find? v = some t) : substitute s (.var v) = .term t := by
  simp [substitute, substitute?, h]

theorem substitute_eq_var {x : Slot} :
    x.substitute s = .var v ↔ x = .var v ∧ s.find? v = none := by
  cases x with
  | term t => simp [substitute_term]
  | var w =>
    cases h : s.find? w with
    | none =>
      rw [substitute_var_none h]
      exact ⟨fun he => ⟨he, Slot.var.inj he ▸ h⟩, And.left⟩
    | some t =>
      rw [substitute_var_some h]
      constructor
      · intro he
        cases he
      · rintro ⟨he, hn⟩
        rw [← Slot.var.inj he, h] at hn
        cases hn

end Slot

namespace Pattern
variable {s : Substitution} {p : Pattern} {t : Triple}

theorem binding_substitute (s : Substitution) (p : Pattern) (t : Triple) :
    (p.substitute s).binding t = without s.find? (p.binding t) := by
  funext v
  simp only [binding, substitute, Slot.substitute_eq_var, without]
  cases s.find? v <;> simp

/-- A position of a matching triple fits the substituted pattern as far as it fits the pattern. -/
theorem accepts_substitute {x : Slot} {u : Term} {μ : Assignment} (h : x.Accepts μ u)
    (hc : Compatible s.find? μ) : (x.substitute s).Accepts (without s.find? μ) u := by
  cases x with
  | term a => exact h
  | var v =>
    cases hs : s.find? v with
    | none =>
      rw [Slot.substitute_var_none hs]
      exact (without_apply_none hs).trans h
    | some a =>
      rw [Slot.substitute_var_some hs]
      exact hc v a u hs h

theorem accepts_of_substitute {x : Slot} {u : Term} {μ : Assignment}
    (h : (x.substitute s).Accepts (without s.find? μ) u)
    (hx : ∀ v a, x = .var v → s.find? v = some a → a = u → μ v = some u) : x.Accepts μ u := by
  cases x with
  | term a => exact h
  | var v =>
    cases hs : s.find? v with
    | none =>
      rw [Slot.substitute_var_none hs] at h
      exact (without_apply_none hs).symm.trans h
    | some a =>
      rw [Slot.substitute_var_some hs] at h
      exact hx v a rfl hs h

/-- A substituted pattern fixes the term at each position of a substituted variable. -/
theorem binding_of_matches_substitute (h : (p.substitute s).Matches t) {v : Variable} {a u : Term}
    (hs : s.find? v = some a) (hb : p.binding t v = some u) : a = u := by
  have hslot (x : Slot) (w : Term) (hx : x = .var v)
      (hacc : (x.substitute s).Accepts ((p.substitute s).binding t) w) : a = w := by
    rw [hx, Slot.substitute_var_some hs] at hacc
    exact hacc
  unfold binding at hb
  split at hb
  · exact Option.some.inj hb ▸ hslot _ _ ‹_› h.subject
  · split at hb
    · exact Option.some.inj hb ▸ hslot _ _ ‹_› h.predicate
    · split at hb
      · exact Option.some.inj hb ▸ hslot _ _ ‹_› h.object
      · cases hb

theorem matches_substitute :
    (p.substitute s).Matches t ↔ p.Matches t ∧ Compatible s.find? (p.binding t) := by
  constructor
  · intro h
    have hc : Compatible s.find? (p.binding t) := fun v a u hs hb =>
      binding_of_matches_substitute h hs hb
    have hx (x : Slot) (u : Term) (hv : ∀ v, x = .var v → v ∈ p.vars) (v : Variable) (a : Term)
        (he : x = .var v) (hs : s.find? v = some a) (ha : a = u) : p.binding t v = some u := by
      obtain ⟨w, hw⟩ := Option.isSome_iff_exists.mp
        ((binding_isSome (t := t)).mpr (hv v he))
      rw [hw, ← hc v a w hs hw, ha]
    obtain ⟨h1, h2, h3⟩ := h
    rw [binding_substitute] at h1 h2 h3
    refine ⟨⟨accepts_of_substitute h1 (hx _ _ fun v hv => ?_),
      accepts_of_substitute h2 (hx _ _ fun v hv => ?_),
      accepts_of_substitute h3 (hx _ _ fun v hv => ?_)⟩, hc⟩
    all_goals simp [mem_vars, hv]
  · rintro ⟨⟨h1, h2, h3⟩, hc⟩
    constructor <;> rw [binding_substitute]
    · exact accepts_substitute h1 hc
    · exact accepts_substitute h2 hc
    · exact accepts_substitute h3 hc

theorem solutions_substitute (ts : List Triple) (s : Substitution) (p : Pattern) :
    (p.substitute s).solutions ts = Bag.specialise s.find? (p.solutions ts) := by
  unfold solutions Bag.specialise
  rw [Multiset.filter_map, Multiset.map_map, Multiset.filter_filter]
  have hm (t : Triple) : (p.substitute s).Matches t ↔
      (Compatible s.find? ∘ p.binding) t ∧ p.Matches t := by
    rw [matches_substitute, and_comm]
    rfl
  rw [Multiset.filter_congr fun t _ => hm t]
  exact Multiset.map_congr rfl fun t _ => binding_substitute s p t

/-- Only IRIs are predicates. -/
theorem specialise_solutions_eq_zero {ts : List Triple}
    (hts : ∀ t ∈ ts, ∃ n, t.predicate = .iri n) {w : Variable} {u : Term}
    (hp : p.predicate = .var w) (hs : s.find? w = some u) (hu : ∀ n, u ≠ .iri n) :
    Bag.specialise s.find? (p.solutions ts) = 0 := by
  apply Bag.specialise_eq_zero
  intro μ hμ hc
  obtain ⟨t, ht, rfl⟩ := Multiset.mem_map.mp hμ
  obtain ⟨ht, hm⟩ := Multiset.mem_filter.mp ht
  obtain ⟨n, hn⟩ := hts t (List.mem_dedup.mp (Multiset.mem_coe.mp ht))
  have hb : p.binding t w = some t.predicate := by
    have h := hm.predicate
    rwa [hp] at h
  exact hu n ((hc w u _ hs hb).trans hn)

end Pattern

namespace Plan
variable {ts : List Triple} {rule : DuplicateRule} {E : Variable → Prop} {p q : Plan}
  {s : Substitution}

theorem satisfies_unboundOrSame (hs : s.Functional) (μ : Assignment) :
    Satisfies (s.map fun (v, t) => Expression.unboundOrSame v t) μ ↔ Compatible s.find? μ := by
  constructor
  · intro h v t u ht hu
    have he := h _ (List.mem_map_of_mem (Substitution.mem_of_find? ht))
    exact ((Expression.holds_unboundOrSame μ v t).mp he u hu).symm
  · intro h e he
    obtain ⟨⟨v, t⟩, hm, rfl⟩ := List.mem_map.mp he
    apply (Expression.holds_unboundOrSame μ v t).mpr
    intro u hu
    exact (h v t u (hs.find?_of_mem hm) hu).symm

theorem restrict_remaining {vs : List Variable} {μ : Assignment} (h : Within vs μ) :
    restrict (s.remaining vs) μ = without s.find? μ := by
  funext v
  by_cases hv : v ∈ vs
  · cases hf : s.find? v <;> simp [restrict, Substitution.mem_remaining, hv, hf, without]
  · simp [restrict, Substitution.mem_remaining, hv, h v hv, without]

/-- Checking what is substituted on solutions and then dropping it specialises them. -/
theorem checked_eq_specialise (hs : s.Functional) {vs : List Variable} {S : Bag}
    (h : ∀ μ ∈ S, Within vs μ) :
    (S.filter (Satisfies (s.map fun (v, t) => Expression.unboundOrSame v t))).map
      (restrict (s.remaining vs)) = Bag.specialise s.find? S := by
  rw [Bag.specialise, Multiset.filter_congr fun μ _ => satisfies_unboundOrSame hs μ]
  exact Multiset.map_congr rfl fun μ hμ => restrict_remaining (h μ (Multiset.mem_of_mem_filter hμ))

theorem meaning_checkAfter (hs : s.Functional) (p : Plan) :
    (checkAfter s p).meaning ts = Bag.specialise s.find? (p.meaning ts) := by
  rw [checkAfter, meaning, meaning]
  exact checked_eq_specialise hs fun μ hμ => within_meaning p hμ

theorem merge_late_early (p : Plan) (s : Substitution) :
    merge (p.late s).find? (p.early s).find? = s.find? := by
  funext v
  simp only [merge, find?_late, find?_early]
  cases p.defers v <;> simp

/-- It is enough to know what becomes of a plan when the substitution goes into its operands. -/
theorem meaning_of_pushed (hs : s.Functional) {S : Bag}
    (h : (p.pushed s (p.early s)).meaning ts = Bag.specialise (p.early s).find? S) :
    (substitute s p).meaning ts = Bag.specialise s.find? S := by
  rw [substitute_eq]
  split
  · rename_i hl
    have he : (p.early s).find? = s.find? := by
      rw [← merge_late_early p s, List.isEmpty_iff.mp hl]
      rfl
    rw [h, he]
  · have hdis (v : Variable) : (p.late s).find? v = none ∨ (p.early s).find? v = none := by
      rw [find?_late, find?_early]
      cases p.defers v <;> simp
    rw [meaning_checkAfter (functional_late p hs), h, Bag.specialise_specialise _ _ hdis,
      merge_late_early]

/-- A variable of the plan that goes into the operands is certain. -/
theorem certain_of_early {v : Variable} {t : Term} (h : (p.early s).find? v = some t)
    (hv : v ∈ p.vars) : v ∈ p.certain := defers_eq_false (early_not_defers h) hv

theorem find?_of_early {v : Variable} {t : Term} (h : (p.early s).find? v = some t) :
    s.find? v = some t := by
  rw [find?_early] at h
  split at h
  · cases h
  · exact h

theorem find?_of_late {v : Variable} {t : Term} (h : (p.late s).find? v = some t) :
    s.find? v = some t := by
  rw [find?_late] at h
  split at h
  · exact h
  · cases h

theorem exposed_early (hE : ∀ v, (s.find? v).isSome → E v) (p : Plan) (v : Variable)
    (hv : ((p.early s).find? v).isSome) : E v := by
  obtain ⟨t, ht⟩ := Option.isSome_iff_exists.mp hv
  exact hE v (by simp [find?_of_early ht])

/-- Substituting terms for variables of `E` into the plan specialises its solutions. -/
def Specialises (ts : List Triple) (E : Variable → Prop) (p : Plan) : Prop :=
  ∀ s : Substitution, s.Functional → (∀ v, (s.find? v).isSome → E v) →
    (substitute s p).meaning ts = Bag.specialise s.find? (p.meaning ts)

theorem Specialises.mono {F : Variable → Prop} (h : Specialises ts E p) (hF : ∀ v, F v → E v) :
    Specialises ts F p := fun s hs hs' => h s hs fun v hv => hF v (hs' v hv)

/-- The conditions of a filter see the substituted terms. -/
theorem Specialises.filter_eq (h : Specialises ts E p) (hs : s.Functional)
    (hE : ∀ v, (s.find? v).isSome → E v) (cs : List Expression) :
    (substitute s (filter p cs)).meaning ts =
      Bag.specialise s.find?
        ((p.meaning ts).filter fun μ => Satisfies cs (merge s.find? μ)) := by
  apply meaning_of_pushed hs
  rw [pushed, meaning, h _ (functional_early _ hs) (exposed_early hE _)]
  symm
  apply Bag.specialise_filter
  intro μ _ _
  rw [satisfies_substitute]
  have hm : merge s.find? (without ((filter p cs).early s).find? μ) = merge s.find? μ :=
    merge_without_left fun v t ht => find?_of_early ht
  rw [hm]

theorem assignment_substituteTable {vs : List Variable} (hv : vs.Nodup) (rows : List Row) :
    ((substituteTable s vs rows).2.map (Row.assignment (substituteTable s vs rows).1) : Bag) =
      Bag.specialise s.find? (rows.map (Row.assignment vs) : List Assignment) := by
  have hagree (r : Row) :
      (boundColumns s vs).all (fun e => (r.value e.1).all (· = e.2)) = true ↔
        Compatible s.find? (r.assignment vs) := by
    simp only [boundColumns, List.all_eq_true, List.mem_filterMap, Prod.exists,
      List.mk_mem_zipIdx_iff_getElem?, Option.map_eq_some_iff]
    constructor
    · intro h v t u ht hu
      obtain ⟨i, hi, hr⟩ := Option.bind_eq_some_iff.mp hu
      have hall := h (i, t) ⟨v, i, Variable.getElem?_of_column? hi, t, ht, rfl⟩
      simpa [hr, eq_comm] using hall
    · rintro h _ ⟨v, i, hi, t, ht, rfl⟩
      have hr := Row.assignment_apply (Variable.column?_of_getElem? hv hi) r
      cases hu : r.value i with
      | none => simp
      | some u => simp [h v t u ht (hr.trans hu)]
  unfold Bag.specialise
  rw [Multiset.filter_coe, Multiset.map_coe, List.filter_map, List.map_map]
  simp only [substituteTable]
  rw [List.map_map]
  rw [List.filter_congr (q := fun r => decide ((Compatible s.find? ∘ Row.assignment vs) r))
    fun r _ => Bool.eq_iff_iff.mpr ((hagree r).trans decide_eq_true_iff.symm)]
  exact congrArg _ (List.map_congr_left fun r _ => assignment_kept s vs r)

/-- An agreeing solution that binds the known variables of an expression sees what it sees. -/
theorem merge_eq_of_compatible {σ μ : Assignment} (hc : Compatible σ μ) {v : Variable}
    (h : (σ v).isSome → (μ v).isSome) : merge σ μ v = μ v := by
  unfold merge
  cases hs : σ v with
  | none => rfl
  | some t =>
    obtain ⟨u, hu⟩ := Option.isSome_iff_exists.mp (h (by simp [hs]))
    rw [hu, hc v t u hs hu]
    rfl

theorem Specialises.filter {cs : List Expression} (h : Specialises ts E p)
    (hc : ∀ e ∈ cs, ∀ v ∈ e.vars, E v → v ∈ p.certain) : Specialises ts E (.filter p cs) := by
  intro s hs hE
  rw [h.filter_eq hs hE cs, meaning]
  refine Bag.specialise_filter_congr fun μ hμ hcomp => satisfies_congr fun e he v hv => ?_
  apply merge_eq_of_compatible hcomp
  intro hk
  exact isSome_of_certain p hμ (hc e he v hv (hE v hk))

theorem specialises_triple (hts : ∀ t ∈ ts, ∃ n, t.predicate = .iri n) (t : Pattern) :
    Specialises ts E (.triple t) := by
  intro s hs hE
  apply meaning_of_pushed hs
  rcases substituteTriple?_getD ((Plan.triple t).early s) t with ⟨w, u, hw, hu, hn, h⟩ | h
  · rw [pushed, h, meaning, meaning]
    exact (t.specialise_solutions_eq_zero hts hw hu hn).symm
  · rw [pushed, h, meaning, meaning]
    exact t.solutions_substitute ts _

theorem specialises_join {ps : List Plan} (h : ∀ p ∈ ps, Specialises ts E p) :
    Specialises ts E (.join ps) := by
  intro s hs hE
  apply meaning_of_pushed hs
  rw [pushed, meaning_join, meaning_join, Bag.specialise_joinAll, List.map_map, List.map_map]
  apply congrArg
  apply List.map_congr_left
  intro p hp
  exact h p hp _ (functional_early _ hs) (exposed_early hE _)

theorem specialises_union {ps : List Plan} (h : ∀ p ∈ ps, Specialises ts E p) :
    Specialises ts E (.union ps) := by
  intro s hs hE
  apply meaning_of_pushed hs
  rw [pushed, meaning_union, meaning_union, Bag.specialise_sum, List.map_map, List.map_map]
  apply congrArg
  apply List.map_congr_left
  intro p hp
  exact h p hp _ (functional_early _ hs) (exposed_early hE _)

theorem specialises_leftJoin {l r : Plan} {c : Option Expression} (hl : Specialises ts E l)
    (hr : Specialises ts E r)
    (hc : ∀ e ∈ c, ∀ v ∈ e.vars, E v → v ∈ l.vars ∨ v ∈ r.vars) :
    Specialises ts E (.leftJoin l r c) := by
  intro s hs hE
  apply meaning_of_pushed hs
  have hexp := exposed_early hE (leftJoin l r c)
  have hf := functional_early (leftJoin l r c) hs
  generalize hk : (leftJoin l r c).early s = k at *
  have hcert {v : Variable} {t : Term} (ht : k.find? v = some t)
      (hv : v ∈ l.vars ∨ v ∈ r.vars) : v ∈ l.certain :=
    mem_certain_leftJoin.mp (certain_of_early (p := leftJoin l r c) (hk.symm ▸ ht)
      (mem_vars_leftJoin.mpr hv))
  rw [pushed, meaning, meaning, hl k hf hexp, hr k hf hexp]
  symm
  apply Bag.specialise_leftJoin
  · intro v t ht μ hμ
    by_cases hv : v ∈ l.vars ∨ v ∈ r.vars
    · exact .inl (isSome_of_certain l hμ (hcert ht hv))
    · rw [not_or] at hv
      exact .inr ⟨within_meaning l hμ v hv.1, fun ν hν => within_meaning r hν v hv.2⟩
  · intro μ hμ ν hν hσ hcomp
    have hlist : (c.map (Expression.substitute k.find?)).toList =
        c.toList.map (Expression.substitute k.find?) := by cases c <;> rfl
    rw [hlist, satisfies_substitute, merge_without]
    apply satisfies_congr
    intro e he v hv
    unfold merge
    cases ht : k.find? v with
    | none => rfl
    | some t =>
      have hin := hc e (Option.mem_toList.mp he) v hv (hexp v (by simp [ht]))
      obtain ⟨u, hu⟩ := Option.isSome_iff_exists.mp (isSome_of_certain l hμ (hcert ht hin))
      rw [hu, hσ v t u ht hu]
      rfl

theorem specialises_project {vs : List Variable} (h : Specialises ts (fun v => E v ∧ v ∈ vs) p) :
    Specialises ts E (.project p vs) := by
  intro s hs hE
  apply meaning_of_pushed hs
  have hexp := exposed_early hE (project p vs)
  have hf := functional_early (project p vs) hs
  generalize (project p vs).early s = k at *
  have hfind : (k.restrict vs).find? = Assignment.restrict vs k.find? := by
    funext v
    rw [Substitution.find?_restrict]
    rfl
  rw [pushed]
  split
  · rename_i hnil
    symm
    apply Bag.specialise_eq_self
    intro μ hμ v hv
    have hvs := mem_vars_project.mp ((within_meaning _ hμ).mem (Option.get_mem hv))
    have hn := Substitution.find?_restrict k vs v
    rw [List.isEmpty_iff.mp hnil, if_pos hvs] at hn
    exact hn.symm
  · rw [meaning, meaning, h _ (hf.restrict vs) fun v hv => ?_]
    · rw [hfind]
      symm
      apply Bag.specialise_restrict k.find? (p.meaning ts)
      intro v
      rw [Substitution.mem_remaining, Substitution.find?_restrict]
      exact and_congr_right fun hv => by rw [if_pos hv]
    · rw [Substitution.find?_restrict] at hv
      split at hv
      · exact ⟨hexp v hv, ‹_›⟩
      · cases hv

theorem Specialises.distinct (h : Specialises ts E p) : Specialises ts E (.distinct p) := by
  intro s hs hE
  apply meaning_of_pushed hs
  rw [pushed, meaning, meaning, h _ (functional_early _ hs) (exposed_early hE _)]
  symm
  apply Bag.specialise_dedup _ _
  intro μ hμ v t ht
  by_cases hv : v ∈ p.vars
  · have hc := certain_of_early (p := .distinct p) ht hv
    simp only [certain] at hc
    exact .inl (isSome_of_certain p hμ hc)
  · exact .inr fun ν hν => within_meaning p hν v hv

theorem specialises_values {vs : List Variable} {rows : List Row} (hv : vs.Nodup)
    (h : Specialises ts E p) : Specialises ts E (.values p vs rows) := by
  intro s hs hE
  apply meaning_of_pushed hs
  have hp := h _ (functional_early (values p vs rows) hs) (exposed_early hE _)
  generalize (values p vs rows).early s = k at *
  rw [pushed]
  split
  · rename_i hn
    obtain ⟨hb, hnone⟩ : boundColumns k vs = [] ∧ substitute? k p = none := by simpa using hn
    rw [meaning, Bag.specialise_join, ← hp, substitute, hnone, Option.getD_none]
    congr 1
    symm
    apply Bag.specialise_eq_self
    intro μ hμ v hμv
    obtain ⟨r, _, rfl⟩ := List.mem_map.mp (Multiset.mem_coe.mp hμ)
    have hvs := (Row.within_assignment vs r).mem (Option.get_mem hμv)
    obtain ⟨i, hi⟩ := List.mem_iff_getElem?.mp hvs
    have hfind := List.filterMap_eq_nil_iff.mp hb (v, i) (List.mk_mem_zipIdx_iff_getElem?.mpr hi)
    simpa using hfind
  · rw [meaning, meaning, hp, Bag.specialise_join, ← assignment_substituteTable hv]

theorem Specialises.assign {w : Variable} {e : Expression} (h : Specialises ts E p)
    (he : ∀ v ∈ e.vars, E v → v ∈ p.vars) : Specialises ts E (.assign p w e) := by
  intro s hs hE
  apply meaning_of_pushed hs
  have hexp := exposed_early hE (.assign p w e)
  have hp := h _ (functional_early (.assign p w e) hs) hexp
  have hcert {v : Variable} {t : Term} (ht : ((Plan.assign p w e).early s).find? v = some t)
      (hv : v ∈ p.vars ∨ v = w) : w ≠ v ∧ v ∈ p.certain :=
    mem_certain_assign.mp (certain_of_early ht (mem_vars_assign.mpr hv))
  generalize (Plan.assign p w e).early s = k at *
  have hw : k.find? w = none := by
    by_contra hn
    obtain ⟨t, ht⟩ := Option.ne_none_iff_exists'.mp hn
    exact (hcert ht (.inr rfl)).1 rfl
  rw [pushed, meaning, meaning, hp]
  unfold Bag.specialise
  rw [Multiset.filter_map, Multiset.map_map, Multiset.map_map]
  have hc (μ : Assignment) : Compatible k.find? μ ↔
      (Compatible k.find? ∘ fun μ => Function.update μ w (Expression.eval μ e).toOption) μ := by
    apply forall_congr'
    intro v
    by_cases hv : v = w
    · subst hv
      simp [hw]
    · simp [Function.update_of_ne hv]
  rw [Multiset.filter_congr fun μ _ => hc μ]
  apply Multiset.map_congr rfl
  intro μ hμ
  obtain ⟨hμ, hcomp⟩ := Multiset.mem_filter.mp hμ
  have hval : Expression.eval (without k.find? μ) (e.substitute k.find?) = Expression.eval μ e := by
    rw [Expression.eval_substitute, merge_without]
    apply Expression.eval_congr
    intro v hv
    apply merge_eq_of_compatible ((hc μ).mpr hcomp)
    intro hkv
    obtain ⟨t, ht⟩ := Option.isSome_iff_exists.mp hkv
    exact isSome_of_certain p hμ (hcert ht (.inl (he v hv (hexp v hkv)))).2
  simp only [Function.comp_apply, hval]
  funext v
  by_cases hv : v = w
  · subst hv
    simp [without, hw]
  · simp [Function.update_of_ne hv, without]

theorem specialises_minus {l r : Plan} {b : Bool} (hl : Specialises ts E l)
    (hr : Specialises ts (fun v => v ∈ l.vars ∧ v ∈ r.vars) r) :
    Specialises ts E (.minus l r b) := by
  intro s hs hE
  apply meaning_of_pushed hs
  have hexp := exposed_early hE (minus l r b)
  have hf := functional_early (minus l r b) hs
  have hdef {v : Variable} {t : Term} (ht : ((minus l r b).early s).find? v = some t)
      (hv : v ∈ l.vars) : v ∈ l.certain ∧ (v ∈ r.vars → v ∈ r.certain) := by
    have hd := early_not_defers ht
    refine ⟨by simpa only [certain] using defers_eq_false hd hv, fun hvr => ?_⟩
    by_contra hn
    simp [defers, maybeUnbound, hv, hvr, hn] at hd
  generalize (minus l r b).early s = k at *
  have hfind (v : Variable) (t : Term) : ((k.restrict l.vars).restrict r.vars).find? v = some t ↔
      v ∈ r.vars ∧ v ∈ l.vars ∧ k.find? v = some t := by
    simp [Substitution.find?_restrict]
  have hshared (v : Variable) (hv : (((k.restrict l.vars).restrict r.vars).find? v).isSome) :
      v ∈ l.vars ∧ v ∈ r.vars := by
    obtain ⟨t, ht⟩ := Option.isSome_iff_exists.mp hv
    obtain ⟨hvr, hvl, _⟩ := (hfind v t).mp ht
    exact ⟨hvl, hvr⟩
  rw [pushed, meaning, meaning, hl k hf hexp, hr _ ((hf.restrict _).restrict _) hshared]
  symm
  apply Bag.specialise_filter
  intro μ hμ hcomp
  refine not_congr ?_
  apply Bag.removes_specialise
  · intro v t ht
    obtain ⟨hvr, hvl, hk⟩ := (hfind v t).mp ht
    obtain ⟨hcl, hcr⟩ := hdef hk hvl
    obtain ⟨u, hu⟩ := Option.isSome_iff_exists.mp (isSome_of_certain l hμ hcl)
    exact ⟨by rw [hu, hcomp v t u hk hu], fun ν hν => isSome_of_certain r hν (hcr hvr)⟩
  · intro v t ht
    by_cases hvl : v ∈ l.vars
    · by_cases hvr : v ∈ r.vars
      · exact .inl ((hfind v t).mpr ⟨hvr, hvl, ht⟩)
      · exact .inr (.inr fun ν hν => within_meaning r hν v hvr)
    · exact .inr (.inl (within_meaning l hμ v hvl))
  · rw [Bool.or_eq_true]
    refine or_congr_right ?_
    rw [Bool.not_eq_true', List.isEmpty_eq_false_iff_exists_mem]
    constructor
    · rintro ⟨⟨v, t⟩, hm⟩
      exact ⟨v, by simp [((hf.restrict _).restrict _).find?_of_mem hm]⟩
    · rintro ⟨v, hv⟩
      obtain ⟨t, ht⟩ := Option.isSome_iff_exists.mp hv
      exact ⟨(v, t), Substitution.mem_of_find? ht⟩

/-- A known variable that occurs in the inner plan is bound by the outer solutions. -/
theorem bound_of_outer {k : Substitution} (hE : ∀ v, (k.find? v).isSome → E v)
    (hk : ∀ v t, k.find? v = some t → v ∈ p.vars → v ∈ p.certain)
    (hv : ∀ v ∈ q.vars, E v → v ∈ p.vars) :
    ∀ μ ∈ p.meaning ts, ∀ v t, k.find? v = some t →
      (μ v).isSome ∨ ∀ ν ∈ q.meaning ts, ν v = none := by
  intro μ hμ v t ht
  by_cases hq : v ∈ q.vars
  · exact .inl (isSome_of_certain p hμ (hk v t ht (hv v hq (hE v (by simp [ht])))))
  · exact .inr fun ν hν => within_meaning q hν v hq

theorem specialises_semijoin (hp : Specialises ts E p) (hq : Specialises ts E q)
    (hv : ∀ v ∈ q.vars, E v → v ∈ p.vars) : Specialises ts E (.semijoin p q) := by
  intro s hs hE
  apply meaning_of_pushed hs
  have hexp := exposed_early hE (semijoin p q)
  have hf := functional_early (semijoin p q) hs
  rw [pushed, meaning, meaning, hp _ hf hexp, hq _ hf hexp]
  symm
  apply Bag.specialise_semijoin
  exact bound_of_outer hexp (fun v t ht => certain_of_early (p := semijoin p q) ht) hv

theorem specialises_antijoin (hp : Specialises ts E p) (hq : Specialises ts E q)
    (hv : ∀ v ∈ q.vars, E v → v ∈ p.vars) : Specialises ts E (.antijoin p q) := by
  intro s hs hE
  apply meaning_of_pushed hs
  have hexp := exposed_early hE (antijoin p q)
  have hf := functional_early (antijoin p q) hs
  rw [pushed, meaning, meaning, hp _ hf hexp, hq _ hf hexp]
  symm
  apply Bag.specialise_antijoin
  exact bound_of_outer hexp (fun v t ht => certain_of_early (p := antijoin p q) ht) hv

/-- A test for any solution looks at no variable that is substituted. -/
theorem Specialises.ask (h : Specialises ts E p) (hv : ∀ v ∈ p.vars, ¬E v) :
    Specialises ts E (.ask p) := by
  intro s hs hE
  apply meaning_of_pushed hs
  have hexp := exposed_early hE (.ask p)
  have hself : Bag.specialise ((Plan.ask p).early s).find? (p.meaning ts) = p.meaning ts := by
    apply Bag.specialise_eq_self
    intro μ hμ v hμv
    by_contra hn
    exact hv v ((within_meaning p hμ).mem (Option.get_mem hμv))
      (hexp v (Option.isSome_iff_ne_none.mpr hn))
  rw [pushed, meaning, meaning, h _ (functional_early _ hs) hexp, hself]
  unfold Bag.ask
  split
  · rfl
  · exact (Bag.specialise_identity _).symm

/-- The solutions of a specialised plan are the specialised solutions of the plan. -/
theorem Safe.specialises (hts : ∀ t ∈ ts, ∃ n, t.predicate = .iri n) (h : Safe rule E p) :
    Specialises ts E p := by
  induction h with
  | triple t => exact specialises_triple hts t
  | identity => exact fun s hs _ => meaning_of_pushed hs (Bag.specialise_identity _).symm
  | join _ ih => exact specialises_join fun p hp => (ih p hp).mono fun v => .inl
  | union _ ih => exact specialises_union ih
  | leftJoin _ _ hc ihl ihr => exact specialises_leftJoin ihl (ihr.mono fun v => .inl) hc
  | filter _ hc ih => exact ih.filter hc
  | project _ ih => exact specialises_project ih
  | distinct _ _ ih => exact ih.distinct
  | values _ hv ih => exact specialises_values hv (ih.mono fun v => .inl)
  | assign _ he ih => exact ih.assign he
  | minus _ _ ihl ihr => exact specialises_minus ihl ihr
  | semijoin _ _ hv ihp ihq => exact specialises_semijoin ihp (ihq.mono fun v => .inl) hv
  | antijoin _ _ hv ihp ihq => exact specialises_antijoin ihp (ihq.mono fun v => .inl) hv
  | ask _ hv ih => exact ih.ask hv

end Plan
end TripleAlgebra
