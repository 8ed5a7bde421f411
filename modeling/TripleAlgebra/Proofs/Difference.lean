import TripleAlgebra.Proofs.JoinSolutions

/-! Both ways to evaluate a difference remove the rows that agree with a row of the right side. -/
namespace TripleAlgebra
open Assignment Classical

section Keys
variable {vs : List Variable} {μ ν : Assignment}

/-- Keys over the same variables are compared variable by variable. -/
theorem compatible_map {overlapRequired : Bool} :
    compatible (vs.map μ) (vs.map ν) overlapRequired = true ↔
      (∀ v ∈ vs, ∀ t u, μ v = some t → ν v = some u → t = u) ∧
        (overlapRequired = true → ∃ v ∈ vs, (μ v).isSome ∧ (ν v).isSome) := by
  unfold compatible
  rw [List.zip_map', List.filter_map]
  dsimp only
  rw [List.all_map, Bool.and_eq_true]
  refine and_congr ?_ ?_
  · rw [List.all_eq_true]
    constructor
    · intro h v hv t u ht hu
      have hall := h v (List.mem_filter.mpr ⟨hv, by simp [ht, hu]⟩)
      simpa [ht, hu] using hall
    · intro h v hm
      obtain ⟨hv, hboth⟩ := List.mem_filter.mp hm
      obtain ⟨hl, hr⟩ : (μ v).isSome ∧ (ν v).isSome := by simpa using hboth
      obtain ⟨t, ht⟩ := Option.isSome_iff_exists.mp hl
      obtain ⟨u, hu⟩ := Option.isSome_iff_exists.mp hr
      simp [ht, hu, h v hv t u ht hu]
  · cases overlapRequired with
    | false => simp
    | true => simp [List.filter_eq_nil_iff, Option.isSome_iff_ne_none]

namespace MinusTable

theorem isComplete_map : isComplete (vs.map μ) = true ↔ ∀ v ∈ vs, (μ v).isSome := by
  simp [isComplete]

/-- Equality of complete keys is agreement. -/
theorem map_eq_map_iff (hμ : ∀ v ∈ vs, (μ v).isSome) (hν : ∀ v ∈ vs, (ν v).isSome) :
    vs.map ν = vs.map μ ↔ ∀ v ∈ vs, ∀ t u, μ v = some t → ν v = some u → t = u := by
  rw [List.map_inj_left]
  refine forall_congr' fun v => forall_congr' fun hv => ?_
  obtain ⟨t, ht⟩ := Option.isSome_iff_exists.mp (hμ v hv)
  obtain ⟨u, hu⟩ := Option.isSome_iff_exists.mp (hν v hv)
  simp [ht, hu, eq_comm]

/-- The table removes a key exactly if one of its keys agrees with it. -/
theorem removes_ofKeys (S : List Assignment) (overlapRequired : Bool) :
    (ofKeys (S.map fun ν => vs.map ν)).removes (vs.map μ) overlapRequired = true ↔
      ∃ ν ∈ S, compatible (vs.map μ) (vs.map ν) overlapRequired = true := by
  have hcomplete (hμ : ∀ v ∈ vs, (μ v).isSome) {ν : Assignment} (hν : ∀ v ∈ vs, (ν v).isSome) :
      compatible (vs.map μ) (vs.map ν) overlapRequired = true ↔
        (((!overlapRequired) = true ∨ (!(vs.map μ).isEmpty) = true) ∧ vs.map ν = vs.map μ) := by
    rw [compatible_map, map_eq_map_iff hμ hν, and_comm]
    apply and_congr_left
    intro _
    cases overlapRequired with
    | false => simp
    | true =>
      cases vs with
      | nil => simp
      | cons v vs => simp [hμ v (by simp), hν v (by simp)]
  unfold removes ofKeys
  dsimp only
  simp only [Bool.or_eq_true, Bool.and_eq_true, List.any_append, isComplete_map]
  constructor
  · rintro (⟨⟨hμ, hover⟩, hmem⟩ | hany | hany)
    · rw [List.contains_iff_mem, List.mem_filter, List.mem_map] at hmem
      obtain ⟨⟨ν, hν, he⟩, hcomp⟩ := hmem
      rw [← he, isComplete_map] at hcomp
      exact ⟨ν, hν, (hcomplete hμ hcomp).mpr ⟨hover, he⟩⟩
    · obtain ⟨key, hkey, hc⟩ := List.any_eq_true.mp hany
      obtain ⟨ν, hν, rfl⟩ := List.mem_map.mp (List.mem_of_mem_filter hkey)
      exact ⟨ν, hν, hc⟩
    · split at hany
      · cases hany
      · obtain ⟨key, hkey, hc⟩ := List.any_eq_true.mp hany
        obtain ⟨ν, hν, rfl⟩ := List.mem_map.mp (List.mem_of_mem_filter hkey)
        exact ⟨ν, hν, hc⟩
  · rintro ⟨ν, hν, hc⟩
    have hin : vs.map ν ∈ S.map fun ν => vs.map ν := List.mem_map_of_mem hν
    by_cases hk : isComplete (vs.map ν) = true
    · by_cases hμ : isComplete (vs.map μ) = true
      · have hμ' := isComplete_map.mp hμ
        obtain ⟨hover, he⟩ := (hcomplete hμ' (isComplete_map.mp hk)).mp hc
        refine .inl ⟨⟨hμ', hover⟩, ?_⟩
        rw [List.contains_iff_mem, List.mem_filter, ← he]
        exact ⟨hin, hk⟩
      · refine .inr (.inr ?_)
        rw [if_neg fun h => hμ (isComplete_map.mpr h), List.any_eq_true]
        exact ⟨_, List.mem_filter.mpr ⟨hin, hk⟩, hc⟩
    · refine .inr (.inl (List.any_eq_true.mpr ⟨_, List.mem_filter.mpr ⟨hin, ?_⟩, hc⟩))
      simpa using hk

end MinusTable
end Keys

namespace Plan
variable {c : Context} {ts : List Triple} {stored : Pattern → List Row} {l r : Plan}
  {rule : DuplicateRule} {b : Bool} {μ : Assignment}

/-- The variables that both sides of a difference have. -/
def shared (l r : Plan) : List Variable := l.vars.filter (· ∈ r.vars)

theorem mem_shared {v : Variable} : v ∈ shared l r ↔ v ∈ l.vars ∧ v ∈ r.vars := by
  simp [shared]

/-- Solutions of both sides are compared on the shared variables. -/
theorem removes_iff_shared {T : Bag} (hμ : Within l.vars μ) (hT : ∀ ν ∈ T, Within r.vars ν) :
    Bag.Removes b T μ ↔
      ∃ ν ∈ T, compatible ((shared l r).map μ) ((shared l r).map ν) (!b) = true := by
  refine exists_congr fun ν => and_congr_right fun hν => ?_
  have hin {v : Variable} {t u : Term} (ht : μ v = some t) (hu : ν v = some u) : v ∈ shared l r :=
    mem_shared.mpr ⟨hμ.mem ht, (hT ν hν).mem hu⟩
  rw [compatible_map]
  refine and_congr ⟨fun h v _ => h v, fun h v t u ht hu => h v (hin ht hu) t u ht hu⟩ ?_
  cases b with
  | true => simp
  | false =>
    simp only [Bool.false_eq_true, false_or, Bool.not_false, true_implies]
    constructor
    · rintro ⟨v, hl, hr⟩
      obtain ⟨t, ht⟩ := Option.isSome_iff_exists.mp hl
      obtain ⟨u, hu⟩ := Option.isSome_iff_exists.mp hr
      exact ⟨v, hin ht hu, hl, hr⟩
    · rintro ⟨v, _, h⟩
      exact ⟨v, h⟩

theorem project_columns (vs ws : List Variable) (row : Row) :
    row.project (Variable.columns vs ws) = ws.map (row.assignment vs) := by
  rw [Row.project, Variable.columns, List.map_map]
  rfl

/-- The keys of right rows. -/
theorem map_rightKey (l r : Plan) (b : Bool) (right : List Row) :
    right.map (·.project (MinusPlan.ofSides l r b).rightKey) =
      (right.map (Row.assignment r.vars)).map fun ν => (shared l r).map ν := by
  rw [List.map_map]
  exact List.map_congr_left fun row _ => project_columns r.vars (shared l r) row

theorem project_leftKey (l r : Plan) (b : Bool) (row : Row) :
    row.project (MinusPlan.ofSides l r b).leftKey = (shared l r).map (row.assignment l.vars) :=
  project_columns l.vars (shared l r) row

/-- The table of all right rows removes what the difference removes. -/
theorem removes_table_iff (l r : Plan) (b : Bool) (right : List Row) (row : Row) :
    let plan := MinusPlan.ofSides l r b
    (MinusTable.ofKeys (right.map (·.project plan.rightKey))).removes
      (row.project plan.leftKey) (!plan.boundOverlap) = true ↔
      Bag.Removes b (right.map (Row.assignment r.vars) : List Assignment)
        (row.assignment l.vars) := by
  intro plan
  have hwithin : ∀ ν ∈ right.map (Row.assignment r.vars), Within r.vars ν := by
    intro ν hν
    obtain ⟨row, _, rfl⟩ := List.mem_map.mp hν
    exact Row.within_assignment r.vars row
  rw [map_rightKey, project_leftKey, MinusTable.removes_ofKeys,
    removes_iff_shared (Row.within_assignment l.vars row) hwithin]
  rfl

/-- The shared variables that every right row binds. -/
def sharedCertain (l r : Plan) : List Variable := (shared l r).filter (· ∈ r.certain)

/-- The shared variables that a right row may leave unbound. -/
def sharedOpen (l r : Plan) : List Variable := (shared l r).filter (· ∉ r.certain)

theorem mem_sharedCertain {v : Variable} :
    v ∈ sharedCertain l r ↔ v ∈ shared l r ∧ v ∈ r.certain := by
  simp [sharedCertain]

theorem mem_sharedOpen {v : Variable} :
    v ∈ sharedOpen l r ↔ v ∈ shared l r ∧ v ∉ r.certain := by
  simp [sharedOpen]

theorem map_value_columns {header vs : List Variable} (h : vs ⊆ header) (row : Row) :
    (vs.filterMap (Variable.column? header)).map row.value = vs.map (row.assignment header) := by
  induction vs with
  | nil => rfl
  | cons v vs ih =>
    have hv : v ∈ header := h (by simp)
    obtain ⟨i, hi⟩ := Option.isSome_iff_exists.mp (Variable.column?_isSome.mpr hv)
    rw [List.filterMap_cons, hi]
    dsimp only
    rw [List.map_cons, ih fun w hw => h (by simp [hw]), List.map_cons, Row.assignment_apply hi]

theorem bind_map_assignment (p : Plan) (vs header : List Variable) (row : Row) :
    p.bind vs (vs.map (row.assignment header)) = substitute (row.known header vs) p := by
  have hvalues : Substitution.ofValues vs (vs.map (row.assignment header)) =
      row.known header vs := by
    have hzip : vs.zip (vs.map (row.assignment header)) =
        vs.map fun v => (v, row.assignment header v) := by
      rw [← List.zip_map', List.map_id']
    rw [Substitution.ofValues, hzip, List.filterMap_map]
    rfl
  rw [← hvalues]
  rfl

/-- A left row is removed by a specialised right row that agrees on the open variables. -/
theorem removedBy_iff_exists (c : Context) (l r : Plan) (b : Bool) (row : Row) :
    (MinusPlan.ofSides l r b).removedBy (rows c) row = true ↔
      ∃ ν ∈ (substitute (row.known l.vars (sharedCertain l r)) r).solutions c,
        compatible ((sharedOpen l r).map (row.assignment l.vars)) ((sharedOpen l r).map ν)
          (!b && ((sharedCertain l r).map (row.assignment l.vars)).all Option.isNone) = true := by
  have hvalues : (MinusPlan.ofSides l r b).substitutedColumns.map row.value =
      (sharedCertain l r).map (row.assignment l.vars) :=
    map_value_columns (fun v hv => (mem_shared.mp (mem_sharedCertain.mp hv).1).1) row
  have hright : (MinusPlan.ofSides l r b).right.bind (MinusPlan.ofSides l r b).substituted
      ((sharedCertain l r).map (row.assignment l.vars)) =
      substitute (row.known l.vars (sharedCertain l r)) r :=
    bind_map_assignment r (sharedCertain l r) l.vars row
  have hkey : row.project (MinusPlan.ofSides l r b).comparedKey =
      (sharedOpen l r).map (row.assignment l.vars) := project_columns l.vars (sharedOpen l r) row
  have hcompared : (MinusPlan.ofSides l r b).compared = sharedOpen l r := rfl
  have hoverlap : (MinusPlan.ofSides l r b).boundOverlap = b := rfl
  unfold MinusPlan.removedBy
  dsimp only
  rw [hvalues, hright, hkey, hcompared, hoverlap]
  generalize (!b && ((sharedCertain l r).map (row.assignment l.vars)).all Option.isNone) = ov
  generalize substitute (row.known l.vars (sharedCertain l r)) r = right
  have hsol (P : Assignment → Prop) : (∃ ν ∈ right.solutions c, P ν) ↔
      ∃ row ∈ right.rows c, P (row.assignment right.vars) := by
    simp [solutions]
  rw [hsol]
  split
  · rename_i hskip
    obtain ⟨rfl, hnone⟩ : ov = true ∧ ∀ v ∈ sharedOpen l r, row.assignment l.vars v = none := by
      simpa using hskip
    simp only [Bool.false_eq_true, false_iff]
    rintro ⟨row', _, hc⟩
    obtain ⟨v, hv, hs, _⟩ := (compatible_map.mp hc).2 rfl
    simp [hnone v hv] at hs
  · rename_i hsome
    split
    · rename_i hempty
      rw [List.isEmpty_iff.mp hempty] at hsome ⊢
      have hov : ov = false := by simpa using hsome
      subst hov
      cases right.rows c <;> simp [compatible]
    · simp only [List.any_eq_true, project_columns]

/-- The right side specialised for a left row removes what the difference removes. -/
theorem removedBy_iff (hts : ∀ t ∈ ts, ∃ n, t.predicate = .iri n)
    (hsafe : Safe rule (fun v => v ∈ l.vars ∧ v ∈ r.vars) r)
    (hq : ∀ q : Plan, q.rank ≤ r.rank → Safe rule (fun _ => False) q →
      q.solutions c = q.meaning ts) (b : Bool) (row : Row) :
    (MinusPlan.ofSides l r b).removedBy (rows c) row = true ↔
      Bag.Removes b (r.meaning ts) (row.assignment l.vars) := by
  have hnodup : (sharedCertain l r).Nodup := (l.nodup_vars.filter _).filter _
  have hshared (v : Variable) (hv : ((row.known l.vars (sharedCertain l r)).find? v).isSome) :
      v ∈ l.vars ∧ v ∈ r.vars := by
    rw [Row.find?_known] at hv
    have hs := (within_restrict (sharedCertain l r) (row.assignment l.vars)).mem (Option.get_mem hv)
    exact mem_shared.mp (mem_sharedCertain.mp hs).1
  have hright : (substitute (row.known l.vars (sharedCertain l r)) r).solutions c =
      Bag.specialise (restrict (sharedCertain l r) (row.assignment l.vars)) (r.meaning ts) := by
    rw [hq _ (rank_substitute_le r _) ((hsafe.specialised _).mono fun _ h => h.elim),
      hsafe.specialises hts _ (Row.functional_known hnodup) hshared, Row.find?_known]
  rw [removedBy_iff_exists, hright, removes_iff_shared (Row.within_assignment l.vars row)
    fun ν hν => within_meaning r hν]
  generalize row.assignment l.vars = μ
  have hsplit {v : Variable} (hv : v ∈ shared l r) :
      v ∈ sharedCertain l r ∨ v ∈ sharedOpen l r := by
    by_cases h : v ∈ r.certain
    · exact .inl (mem_sharedCertain.mpr ⟨hv, h⟩)
    · exact .inr (mem_sharedOpen.mpr ⟨hv, h⟩)
  have hmem (P : Assignment → Prop) :
      (∃ ν' ∈ Bag.specialise (restrict (sharedCertain l r) μ) (r.meaning ts), P ν') ↔
        ∃ ν ∈ r.meaning ts, Compatible (restrict (sharedCertain l r) μ) ν ∧
          P (without (restrict (sharedCertain l r) μ) ν) := by
    constructor
    · rintro ⟨ν', hν', hP⟩
      obtain ⟨ν, hν, hc, rfl⟩ := Bag.mem_specialise.mp hν'
      exact ⟨ν, hν, hc, hP⟩
    · rintro ⟨ν, hν, hc, hP⟩
      exact ⟨_, Bag.mem_specialise.mpr ⟨ν, hν, hc, rfl⟩, hP⟩
  rw [hmem]
  refine exists_congr fun ν => and_congr_right fun hν => ?_
  have hopen : (sharedOpen l r).map (without (restrict (sharedCertain l r) μ) ν) =
      (sharedOpen l r).map ν := by
    apply List.map_congr_left
    intro v hv
    have hnot : v ∉ sharedCertain l r := fun h =>
      (mem_sharedOpen.mp hv).2 (mem_sharedCertain.mp h).2
    simp [without, restrict, hnot]
  rw [hopen, compatible_map, compatible_map]
  constructor
  · rintro ⟨hc, hagree, hover⟩
    refine ⟨fun v hv t u ht hu => ?_, fun hb => ?_⟩
    · rcases hsplit hv with h | h
      · exact hc v t u (by simpa [restrict, h] using ht) hu
      · exact hagree v h t u ht hu
    · by_cases hall : ((sharedCertain l r).map μ).all Option.isNone
      · obtain ⟨v, hv, h⟩ := hover (by rw [hb, hall]; rfl)
        exact ⟨v, (mem_sharedOpen.mp hv).1, h⟩
      · obtain ⟨v, hv, hs⟩ : ∃ v ∈ sharedCertain l r, (μ v).isSome := by
          simpa [Option.isSome_iff_ne_none] using hall
        obtain ⟨hsh, hcert⟩ := mem_sharedCertain.mp hv
        exact ⟨v, hsh, hs, isSome_of_certain r hν hcert⟩
  · rintro ⟨hagree, hover⟩
    refine ⟨fun v t u ht hu => ?_, fun v hv => hagree v (mem_sharedOpen.mp hv).1, fun hov => ?_⟩
    · by_cases h : v ∈ sharedCertain l r
      · exact hagree v (mem_sharedCertain.mp h).1 t u (by simpa [restrict, h] using ht) hu
      · simp [restrict, h] at ht
    · obtain ⟨hb, hall⟩ := Bool.and_eq_true_iff.mp hov
      obtain ⟨v, hv, hl, hr⟩ := hover hb
      refine ⟨v, (hsplit hv).resolve_left fun h => ?_, hl, hr⟩
      have hn := List.all_eq_true.mp hall _ (List.mem_map_of_mem h)
      rw [Option.isNone_iff_eq_none] at hn
      simp [hn] at hl

/-- Whether a difference removes a left row, by its rule. -/
def removed (c : Context) (l r : Plan) (b : Bool) (row : Row) : Bool :=
  let plan := MinusPlan.ofSides l r b
  match c.config.minus with
  | .bind => plan.removedBy (rows c) row
  | .set => (MinusTable.ofKeys ((r.rows c).map (·.project plan.rightKey))).removes
      (row.project plan.leftKey) (!plan.boundOverlap)

theorem rows_minus (hc : c.Reliable stored) (l r : Plan) (b : Bool) :
    (minus l r b).rows c = (l.rows c).filter fun row => !removed c l r b row :=
  ((answers_rows hc l).minus hc b fun q _ => answers_rows hc q).rows_eq hc

section Removed
variable (hc : c.Holds ts stored) (hsafe : Safe rule (fun v => v ∈ l.vars ∧ v ∈ r.vars) r)
  (hq : ∀ q : Plan, q.rank ≤ r.rank → Safe rule (fun _ => False) q →
    q.solutions c = q.meaning ts)
include hc hsafe hq

/-- Both rules remove what the difference removes. -/
theorem removed_iff (b : Bool) (row : Row) :
    removed c l r b row = true ↔ Bag.Removes b (r.meaning ts) (row.assignment l.vars) := by
  unfold removed
  cases c.config.minus with
  | set =>
    rw [← hq r (Nat.le_refl _) (hsafe.mono fun _ h => h.elim)]
    exact removes_table_iff l r b (r.rows c) row
  | bind => exact removedBy_iff hc.iri hsafe hq b row

/-- The rows of a difference are its solutions, by either rule. -/
theorem solutions_minus (hl : l.solutions c = l.meaning ts) :
    (minus l r b).solutions c = (minus l r b).meaning ts := by
  rw [solutions, rows_minus hc.toReliable, meaning, Bag.minus, ← hl, solutions,
    Multiset.filter_coe, List.filter_map]
  refine congrArg _ (congrArg _ (List.filter_congr fun row _ => ?_))
  rw [Bool.eq_iff_iff, Function.comp_apply, decide_eq_true_eq, Bool.not_eq_true',
    ← Bool.not_eq_true]
  exact not_congr (removed_iff hc hsafe hq b row)

end Removed

end Plan
end TripleAlgebra
