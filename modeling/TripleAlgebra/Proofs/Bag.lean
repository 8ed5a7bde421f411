import TripleAlgebra.Proofs.Assignment
import Mathlib.Data.Multiset.Bind
import Mathlib.Data.Multiset.Dedup
import Mathlib.Data.Multiset.Filter

/-! Bags of solutions, the operators of the algebra on them, and how each operator treats solutions
of which some variables are already known. -/
namespace TripleAlgebra
open Assignment Classical

/-- Solutions with their multiplicities. -/
abbrev Bag := Multiset Assignment

namespace Bag

/-- Two solutions together, if they agree. -/
noncomputable def pair (μ ν : Assignment) : Bag := if Compatible μ ν then {merge μ ν} else 0

noncomputable def join (S T : Bag) : Bag := S.bind fun μ => T.bind (pair μ)

/-- The join of a list of bags, from the left. -/
noncomputable def joinAll (Ss : List Bag) : Bag := Ss.foldl join {Assignment.empty}

/-- The solutions that agree with what is known, without the known variables. -/
noncomputable def specialise (σ : Assignment) (S : Bag) : Bag :=
  (S.filter (Compatible σ)).map (without σ)

/-- A solution with each one that agrees with it and satisfies the condition, or else alone. -/
noncomputable def extend (c : Assignment → Prop) (T : Bag) (μ : Assignment) : Bag :=
  if (T.bind (pair μ)).filter c = 0 then {μ} else (T.bind (pair μ)).filter c

noncomputable def leftJoin (c : Assignment → Prop) (S T : Bag) : Bag := S.bind (extend c T)

/-- Whether some solution agrees with `μ`, and binds one of its variables unless `b` is set. -/
def Removes (b : Bool) (T : Bag) (μ : Assignment) : Prop :=
  ∃ ν ∈ T, Compatible μ ν ∧ (b = true ∨ ∃ v, (μ v).isSome ∧ (ν v).isSome)

def Keeps (b : Bool) (T : Bag) (μ : Assignment) : Prop := ¬Removes b T μ

noncomputable def minus (b : Bool) (S T : Bag) : Bag := S.filter (Keeps b T)

/-- Whether some solution agrees with `μ`. -/
def Meets (T : Bag) (μ : Assignment) : Prop := ∃ ν ∈ T, Compatible μ ν

def Misses (T : Bag) (μ : Assignment) : Prop := ¬Meets T μ

noncomputable def semijoin (S T : Bag) : Bag := S.filter (Meets T)

noncomputable def antijoin (S T : Bag) : Bag := S.filter (Misses T)

/-- The empty solution, if there is a solution at all. -/
noncomputable def ask (S : Bag) : Bag := if S = 0 then 0 else {Assignment.empty}

variable {S T U : Bag} {σ τ μ ν ρ : Assignment}

theorem eq_empty_of_mem_ask (h : μ ∈ ask S) : μ = Assignment.empty := by
  unfold ask at h
  split at h
  · cases h
  · exact Multiset.mem_singleton.mp h

theorem pair_of_compatible (h : Compatible μ ν) : pair μ ν = {merge μ ν} := if_pos h

theorem pair_of_not (h : ¬Compatible μ ν) : pair μ ν = 0 := if_neg h

@[simp] theorem mem_pair : ρ ∈ pair μ ν ↔ Compatible μ ν ∧ ρ = merge μ ν := by
  unfold pair
  split <;> simp [*]

@[simp] theorem pair_empty (μ : Assignment) : pair μ Assignment.empty = {μ} := by
  rw [pair_of_compatible (empty_compatible μ).symm, merge_empty]

theorem pair_comm (μ ν : Assignment) : pair μ ν = pair ν μ := by
  by_cases h : Compatible μ ν
  · rw [pair_of_compatible h, pair_of_compatible h.symm, h.merge_comm]
  · rw [pair_of_not h, pair_of_not fun h' => h h'.symm]

/-- Of three solutions, it does not matter which two are put together first. -/
theorem pair_assoc (μ ν ρ : Assignment) :
    ((pair μ ν).bind fun κ => pair κ ρ) = (pair ν ρ).bind (pair μ) := by
  by_cases hμν : Compatible μ ν
  · rw [pair_of_compatible hμν, Multiset.singleton_bind]
    by_cases hνρ : Compatible ν ρ
    · rw [pair_of_compatible hνρ, Multiset.singleton_bind]
      by_cases hμρ : Compatible μ ρ
      · have hr : Compatible μ (merge ν ρ) := (hνρ.merge_iff.mpr ⟨hμν.symm, hμρ.symm⟩).symm
        rw [pair_of_compatible (hμν.merge_iff.mpr ⟨hμρ, hνρ⟩), pair_of_compatible hr, merge_assoc]
      · rw [pair_of_not fun h => hμρ (hμν.merge_iff.mp h).1,
          pair_of_not fun h => hμρ (hνρ.merge_iff.mp h.symm).2.symm]
    · rw [pair_of_not hνρ, Multiset.zero_bind, pair_of_not fun h => hνρ (hμν.merge_iff.mp h).2]
  · rw [pair_of_not hμν, Multiset.zero_bind]
    by_cases hνρ : Compatible ν ρ
    · rw [pair_of_compatible hνρ, Multiset.singleton_bind,
        pair_of_not fun h => hμν (hνρ.merge_iff.mp h.symm).1.symm]
    · rw [pair_of_not hνρ, Multiset.zero_bind]

theorem join_comm (S T : Bag) : join S T = join T S := by
  unfold join
  rw [Multiset.bind_bind]
  simp only [pair_comm]

theorem join_assoc (S T U : Bag) : join (join S T) U = join S (join T U) := by
  unfold join
  simp only [Multiset.bind_assoc]
  refine Multiset.bind_congr fun μ _ => Multiset.bind_congr fun ν _ => ?_
  rw [Multiset.bind_bind]
  exact Multiset.bind_congr fun ρ _ => pair_assoc μ ν ρ

instance : RightCommutative join where
  right_comm S T U := by rw [join_assoc, join_comm T U, ← join_assoc]

@[simp] theorem join_identity (S : Bag) : join S {Assignment.empty} = S := by
  simp only [join, Multiset.singleton_bind, pair_empty]
  exact (Multiset.bind_singleton S id).trans (Multiset.map_id S)

@[simp] theorem identity_join (S : Bag) : join {Assignment.empty} S = S := by
  rw [join_comm, join_identity]

/-- The order of the operands of a join does not matter. -/
theorem joinAll_perm {Ss Ts : List Bag} (h : Ss.Perm Ts) : joinAll Ss = joinAll Ts := h.foldl_eq _

theorem foldl_join (S : Bag) (Ts : List Bag) : Ts.foldl join S = join S (joinAll Ts) := by
  unfold joinAll
  induction Ts generalizing S with
  | nil => simp
  | cons T Ts ih =>
    rw [List.foldl_cons, List.foldl_cons, ih, ih (join _ T), identity_join, join_assoc]

theorem bind_pair (μ : Assignment) (T : Bag) :
    T.bind (pair μ) = (T.filter (Compatible μ)).map (merge μ) := by
  rw [Multiset.filter_eq_bind, Multiset.map_bind]
  apply Multiset.bind_congr
  intro ν _
  unfold pair
  split <;> simp

/-- The merges with a solution that satisfy a condition. -/
theorem filter_pair (c : Assignment → Prop) (T : Bag) (μ : Assignment) :
    (T.bind (pair μ)).filter c =
      (T.filter fun ν => Compatible μ ν ∧ c (merge μ ν)).map (merge μ) := by
  rw [bind_pair, Multiset.filter_map, Multiset.filter_filter]
  exact congrArg _ (Multiset.filter_congr fun ν _ => and_comm)

/-- A condition on merged solutions may be checked before they are merged. -/
theorem filter_bind_pair {c d : Assignment → Prop} (h : ∀ ν ∈ T, c ν ↔ d (merge μ ν)) :
    (T.filter c).bind (pair μ) = (T.bind (pair μ)).filter d := by
  rw [filter_pair, bind_pair, Multiset.filter_filter]
  exact congrArg _ (Multiset.filter_congr fun ν hν => and_congr_right fun _ => h ν hν)

theorem mem_join : ρ ∈ join S T ↔ ∃ μ ∈ S, ∃ ν ∈ T, Compatible μ ν ∧ ρ = merge μ ν := by
  simp [join]

theorem mem_specialise : ρ ∈ specialise σ S ↔ ∃ μ ∈ S, Compatible σ μ ∧ without σ μ = ρ := by
  simp [specialise, and_assoc]

/-- Solutions that are found for what is known of `μ` are merged with the whole of it. -/
theorem map_merge_specialise (hσ : ∀ v t, σ v = some t → μ v = some t)
    (hT : ∀ ν ∈ T, ∀ v, (ν v).isSome → σ v = μ v) :
    (specialise σ T).map (merge μ) = T.bind (pair μ) := by
  have hc (ν : Assignment) (hν : ν ∈ T) : Compatible σ ν ↔ Compatible μ ν := by
    constructor
    · exact fun h v t u ht hu => h v t u ((hT ν hν v (by simp [hu])).trans ht) hu
    · exact fun h v t u ht hu => h v t u (hσ v t ht) hu
  rw [specialise, Multiset.map_map, bind_pair, Multiset.filter_congr hc]
  exact Multiset.map_congr rfl fun ν _ => merge_without_left hσ

theorem map_merge_self (μ : Assignment) (T : Bag) :
    (specialise μ T).map (merge μ) = T.bind (pair μ) :=
  map_merge_specialise (fun _ _ h => h) fun _ _ _ _ => rfl

theorem map_without_bind_pair (μ : Assignment) (T : Bag) :
    (T.bind (pair μ)).map (without μ) = specialise μ T := by
  rw [← map_merge_self, Multiset.map_map]
  refine (Multiset.map_congr rfl fun ν hν => ?_).trans (Multiset.map_id _)
  obtain ⟨ρ, -, -, rfl⟩ := mem_specialise.mp hν
  rw [Function.comp_apply, merge_without, without_merge_self]
  rfl

/-- Merges with a solution tell what was added to it. -/
theorem bind_pair_inj : S.bind (pair μ) = T.bind (pair μ) ↔ specialise μ S = specialise μ T := by
  constructor
  · intro h
    rw [← map_without_bind_pair, h, map_without_bind_pair]
  · intro h
    rw [← map_merge_self, h, map_merge_self]

@[simp] theorem specialise_empty (S : Bag) : specialise Assignment.empty S = S := by
  unfold specialise
  rw [Multiset.filter_eq_self.mpr fun μ _ => empty_compatible μ]
  exact Multiset.map_id S

/-- What a solution is when some variables are known. -/
noncomputable def cut (σ μ : Assignment) : Bag := if Compatible σ μ then {without σ μ} else 0

theorem specialise_eq_bind (σ : Assignment) (S : Bag) : specialise σ S = S.bind (cut σ) := by
  unfold specialise
  rw [Multiset.filter_eq_bind, Multiset.map_bind]
  apply Multiset.bind_congr
  intro μ _
  unfold cut
  split <;> simp

theorem specialise_add (σ : Assignment) (S T : Bag) :
    specialise σ (S + T) = specialise σ S + specialise σ T := by
  simp [specialise]

@[simp] theorem specialise_identity (σ : Assignment) :
    specialise σ {Assignment.empty} = {Assignment.empty} := by
  have hw : without σ Assignment.empty = Assignment.empty := by
    funext v
    unfold without
    split <;> rfl
  have hc : Compatible σ Assignment.empty := (empty_compatible σ).symm
  rw [specialise, Multiset.filter_singleton, if_pos hc, Multiset.map_singleton, hw]

theorem cut_of_compatible (h : Compatible σ μ) : cut σ μ = {without σ μ} := if_pos h

theorem cut_of_not (h : ¬Compatible σ μ) : cut σ μ = 0 := if_neg h

/-- Solutions that agree with what is known agree with each other exactly if they do so on the
other variables. -/
theorem compatible_without (hμ : Compatible σ μ) (hν : Compatible σ ν) :
    Compatible (without σ μ) (without σ ν) ↔ Compatible μ ν := by
  constructor
  · intro h v t u ht hu
    cases hs : σ v with
    | none => exact h v t u (by rwa [without_apply_none hs]) (by rwa [without_apply_none hs])
    | some k => rw [← hμ v k t hs ht, hν v k u hs hu]
  · intro h v t u ht hu
    exact h v t u (without_eq_some.mp ht).2 (without_eq_some.mp hu).2

theorem pair_cut (σ μ ν : Assignment) :
    (pair μ ν).bind (cut σ) = (cut σ μ).bind fun μ => (cut σ ν).bind (pair μ) := by
  by_cases h : Compatible μ ν
  · rw [pair_of_compatible h, Multiset.singleton_bind]
    by_cases hμ : Compatible σ μ
    · rw [cut_of_compatible hμ, Multiset.singleton_bind]
      by_cases hν : Compatible σ ν
      · have hm : Compatible σ (merge μ ν) := (h.merge_iff.mpr ⟨hμ.symm, hν.symm⟩).symm
        rw [cut_of_compatible hν, Multiset.singleton_bind, cut_of_compatible hm,
          pair_of_compatible ((compatible_without hμ hν).mpr h), without_merge]
      · rw [cut_of_not hν, cut_of_not fun hm => hν (h.merge_iff.mp hm.symm).2.symm,
          Multiset.zero_bind]
    · rw [cut_of_not hμ, cut_of_not fun hm => hμ (h.merge_iff.mp hm.symm).1.symm,
        Multiset.zero_bind]
  · rw [pair_of_not h, Multiset.zero_bind]
    by_cases hμ : Compatible σ μ
    · by_cases hν : Compatible σ ν
      · rw [cut_of_compatible hμ, cut_of_compatible hν, Multiset.singleton_bind,
          Multiset.singleton_bind, pair_of_not fun h' => h ((compatible_without hμ hν).mp h')]
      · simp [cut_of_not hν]
    · rw [cut_of_not hμ, Multiset.zero_bind]

/-- What is known about a join may be given to both operands. -/
theorem specialise_join (σ : Assignment) (S T : Bag) :
    specialise σ (join S T) = join (specialise σ S) (specialise σ T) := by
  simp only [specialise_eq_bind, join, Multiset.bind_assoc]
  apply Multiset.bind_congr
  intro μ _
  simp only [pair_cut]
  rw [Multiset.bind_bind]

theorem specialise_joinAll (σ : Assignment) (Ss : List Bag) :
    specialise σ (joinAll Ss) = joinAll (Ss.map (specialise σ)) := by
  suffices h : ∀ S, specialise σ (Ss.foldl join S) =
      (Ss.map (specialise σ)).foldl join (specialise σ S) by
    simpa [joinAll] using h {Assignment.empty}
  induction Ss with
  | nil => intro S; rfl
  | cons T Ss ih =>
    intro S
    rw [List.foldl_cons, List.map_cons, List.foldl_cons, ih, specialise_join]

theorem specialise_sum (σ : Assignment) (Ss : List Bag) :
    specialise σ Ss.sum = (Ss.map (specialise σ)).sum := by
  induction Ss with
  | nil => rfl
  | cons S Ss ih => rw [List.sum_cons, List.map_cons, List.sum_cons, specialise_add, ih]

/-- Knowing some variables first and others later is knowing all. -/
theorem specialise_specialise (σ τ : Assignment) (h : ∀ v, σ v = none ∨ τ v = none) (S : Bag) :
    specialise σ (specialise τ S) = specialise (merge σ τ) S := by
  have hdis : Compatible σ τ := fun v t u ht hu => by rcases h v with h | h <;> simp_all
  unfold specialise
  rw [Multiset.filter_map, Multiset.map_map, Multiset.filter_filter]
  have hc (μ : Assignment) :
      (Compatible σ ∘ without τ) μ ∧ Compatible τ μ ↔ Compatible (merge σ τ) μ := by
    rw [hdis.merge_iff, Function.comp_apply]
    refine and_congr_left fun _ => ⟨fun hw v t u ht hu => ?_, fun hw v t u ht hu => ?_⟩
    · have hn : τ v = none := (h v).resolve_left (by simp [ht])
      exact hw v t u ht (by rwa [without_apply_none hn])
    · exact hw v t u ht (without_eq_some.mp hu).2
  simp only [hc]
  exact Multiset.map_congr rfl fun μ _ => without_without σ τ μ

theorem specialise_congr (h : ∀ μ ∈ S, ∀ v, (μ v).isSome → σ v = τ v) :
    specialise σ S = specialise τ S := by
  have hc (μ : Assignment) (hμ : μ ∈ S) : Compatible σ μ ↔ Compatible τ μ :=
    forall_congr' fun v => forall_congr' fun t => forall_congr' fun u => by
      constructor
      · exact fun hs ht hu => hs ((h μ hμ v (by simp [hu])).trans ht) hu
      · exact fun hs ht hu => hs ((h μ hμ v (by simp [hu])).symm.trans ht) hu
  unfold specialise
  rw [Multiset.filter_congr hc]
  apply Multiset.map_congr rfl
  intro μ hμ
  funext v
  cases hv : μ v with
  | none => simp [without, hv]
  | some t => simp [without, h μ (Multiset.mem_of_mem_filter hμ) v (by simp [hv])]

/-- What is known about a projection may be given to its operand as far as it is kept. -/
theorem specialise_restrict (σ : Assignment) {vs ws : List Variable} (S : Bag)
    (hw : ∀ v, v ∈ ws ↔ v ∈ vs ∧ σ v = none) :
    specialise σ (S.map (restrict vs)) = (specialise (restrict vs σ) S).map (restrict ws) := by
  unfold specialise
  rw [Multiset.filter_map, Multiset.map_map, Multiset.map_map]
  have hc (μ : Assignment) : (Compatible σ ∘ restrict vs) μ ↔ Compatible (restrict vs σ) μ := by
    constructor
    · intro h v t u ht hu
      by_cases hv : v ∈ vs
      · exact h v t u (by simpa [restrict, hv] using ht) (by simpa [restrict, hv] using hu)
      · simp [restrict, hv] at ht
    · intro h v t u ht hu
      by_cases hv : v ∈ vs
      · exact h v t u (by simpa [restrict, hv] using ht) (by simpa [restrict, hv] using hu)
      · simp [restrict, hv] at hu
  rw [Multiset.filter_congr fun μ _ => hc μ]
  apply Multiset.map_congr rfl
  intro μ _
  funext v
  by_cases hv : v ∈ vs <;> cases hs : σ v <;> simp [restrict, without, hv, hs, hw]

theorem specialise_filter (σ : Assignment) (c d : Assignment → Prop) (S : Bag)
    (h : ∀ μ ∈ S, Compatible σ μ → (d (without σ μ) ↔ c μ)) :
    specialise σ (S.filter c) = (specialise σ S).filter d := by
  unfold specialise
  rw [Multiset.filter_map, Multiset.filter_filter, Multiset.filter_filter]
  congr 1
  apply Multiset.filter_congr
  intro μ hμ
  rw [and_comm]
  exact and_congr_left fun hs => (h μ hμ hs).symm

/-- Duplicates may be removed before or after, if the known variables are bound wherever some
solution binds them. -/
theorem specialise_dedup (σ : Assignment) (S : Bag)
    (h : ∀ μ ∈ S, ∀ v t, σ v = some t → (μ v).isSome ∨ ∀ ν ∈ S, ν v = none) :
    specialise σ S.dedup = (specialise σ S).dedup := by
  have hinj : ∀ μ ∈ S.filter (Compatible σ), ∀ ν ∈ S.filter (Compatible σ),
      without σ μ = without σ ν → μ = ν := by
    intro μ hμ ν hν he
    obtain ⟨hμ, hcμ⟩ := Multiset.mem_filter.mp hμ
    obtain ⟨hν, hcν⟩ := Multiset.mem_filter.mp hν
    funext v
    cases hs : σ v with
    | none => simpa [without, hs] using congrFun he v
    | some t =>
      rcases h μ hμ v t hs with hb | hn
      · rcases h ν hν v t hs with hb' | hn
        · obtain ⟨u, hu⟩ := Option.isSome_iff_exists.mp hb
          obtain ⟨u', hu'⟩ := Option.isSome_iff_exists.mp hb'
          rw [hu, hu', ← hcμ v t u hs hu, ← hcν v t u' hs hu']
        · simp [hn μ hμ] at hb
      · rw [hn μ hμ, hn ν hν]
  have hdup : (specialise σ S.dedup).Nodup := by
    refine Multiset.Nodup.map_on (fun μ hμ ν hν => ?_) ((Multiset.nodup_dedup S).filter _)
    have hle := Multiset.filter_le_filter (Compatible σ) (Multiset.dedup_le S)
    exact hinj μ (Multiset.mem_of_le hle hμ) ν (Multiset.mem_of_le hle hν)
  apply (Multiset.Nodup.ext hdup (Multiset.nodup_dedup _)).mpr
  intro ρ
  simp only [mem_specialise, Multiset.mem_dedup]

theorem join_singleton (μ : Assignment) (T : Bag) : join {μ} T = T.bind (pair μ) :=
  Multiset.singleton_bind ..

theorem bind_foldl_join (S : Bag) (Ts : List Bag) :
    (S.bind fun μ => Ts.foldl join {μ}) = Ts.foldl join S := by
  rw [foldl_join]
  apply Multiset.bind_congr
  intro μ _
  rw [foldl_join, join_singleton]

theorem specialise_singleton (h : Compatible σ μ) : specialise σ {μ} = {without σ μ} := by
  rw [specialise, Multiset.filter_singleton, if_pos h, Multiset.map_singleton]

theorem specialise_eq_zero (h : ∀ μ ∈ S, ¬Compatible σ μ) : specialise σ S = 0 := by
  rw [specialise, Multiset.filter_eq_nil.mpr h, Multiset.map_zero]

theorem specialise_bind {ι : Type} (σ : Assignment) (A : Multiset ι) (f : ι → Bag) :
    specialise σ (A.bind f) = A.bind fun a => specialise σ (f a) := by
  simp only [specialise_eq_bind, Multiset.bind_assoc]

/-- An extension of a solution binds all that the solution binds. -/
theorem apply_of_mem_extend {c : Assignment → Prop} (h : ρ ∈ extend c T μ) {v : Variable} {t : Term}
    (hv : μ v = some t) : ρ v = some t := by
  unfold extend at h
  split at h
  · rw [Multiset.mem_singleton.mp h, hv]
  · obtain ⟨ν, _, hp⟩ := Multiset.mem_bind.mp (Multiset.mem_of_mem_filter h)
    rw [(mem_pair.mp hp).2, merge_apply_left hv]

theorem extend_specialise (hμ : Compatible σ μ) {c d : Assignment → Prop}
    (hb : ∀ v t, σ v = some t → μ v = some t ∨ μ v = none ∧ ∀ ν ∈ T, ν v = none)
    (hc : ∀ ν ∈ T, Compatible μ ν → (d (without σ (merge μ ν)) ↔ c (merge μ ν))) :
    specialise σ (extend c T μ) = extend d (specialise σ T) (without σ μ) := by
  have hfound : ((specialise σ T).bind (pair (without σ μ))).filter d =
      specialise σ ((T.bind (pair μ)).filter c) := by
    rw [← join_singleton, ← specialise_singleton hμ, ← specialise_join, join_singleton]
    symm
    apply specialise_filter
    intro ρ hρ _
    obtain ⟨ν, hν, hp⟩ := Multiset.mem_bind.mp hρ
    obtain ⟨hcomp, rfl⟩ := mem_pair.mp hp
    exact hc ν hν hcomp
  have hall : ∀ ρ ∈ (T.bind (pair μ)).filter c, Compatible σ ρ := by
    intro ρ hρ v t u ht hu
    obtain ⟨ν, hν, hp⟩ := Multiset.mem_bind.mp (Multiset.mem_of_mem_filter hρ)
    obtain ⟨_, rfl⟩ := mem_pair.mp hp
    rcases hb v t ht with h | ⟨h, hn⟩
    · rw [merge_apply_left h] at hu
      exact Option.some.inj hu
    · simp [merge, h, hn ν hν] at hu
  have hsize : specialise σ ((T.bind (pair μ)).filter c) = 0 ↔ (T.bind (pair μ)).filter c = 0 := by
    rw [specialise, Multiset.filter_eq_self.mpr hall, Multiset.map_eq_zero]
  unfold extend
  rw [hfound]
  by_cases h : (T.bind (pair μ)).filter c = 0
  · rw [if_pos h, if_pos (hsize.mpr h), specialise_singleton hμ]
  · rw [if_neg h, if_neg (hsize.not.mpr h)]

/-- What is known about a left join may be given to both operands if each known variable that
occurs is bound on the left. -/
theorem specialise_leftJoin (σ : Assignment) {c d : Assignment → Prop}
    (hb : ∀ v t, σ v = some t → ∀ μ ∈ S, (μ v).isSome ∨ μ v = none ∧ ∀ ν ∈ T, ν v = none)
    (hc : ∀ μ ∈ S, ∀ ν ∈ T, Compatible σ μ → Compatible μ ν →
      (d (without σ (merge μ ν)) ↔ c (merge μ ν))) :
    specialise σ (leftJoin c S T) = leftJoin d (specialise σ S) (specialise σ T) := by
  rw [leftJoin, leftJoin, specialise_bind, specialise_eq_bind σ S, Multiset.bind_assoc]
  apply Multiset.bind_congr
  intro μ hμ
  by_cases h : Compatible σ μ
  · rw [cut_of_compatible h, Multiset.singleton_bind]
    refine extend_specialise h (fun v t ht => ?_) fun ν hν => hc μ hμ ν hν h
    rcases hb v t ht μ hμ with hs | hn
    · obtain ⟨u, hu⟩ := Option.isSome_iff_exists.mp hs
      exact .inl (by rw [hu, h v t u ht hu])
    · exact .inr hn
  · rw [cut_of_not h, Multiset.zero_bind]
    refine specialise_eq_zero fun ρ hρ hσ => h fun v t u ht hu => ?_
    exact hσ v t u ht (apply_of_mem_extend hρ hu)

/-- Whether a solution is removed does not depend on the known variables, if those that are given
to the right side are bound on both sides. -/
theorem removes_specialise {b b' : Bool}
    (hτ : ∀ v t, τ v = some t → μ v = some t ∧ ∀ ν ∈ T, (ν v).isSome)
    (hσ : ∀ v t, σ v = some t → τ v = some t ∨ μ v = none ∨ ∀ ν ∈ T, ν v = none)
    (hb : b' = true ↔ b = true ∨ ∃ v, (τ v).isSome) :
    Removes b' (specialise τ T) (without σ μ) ↔ Removes b T μ := by
  have hkeep (ν : Assignment) (hν : ν ∈ T) (v : Variable) (t u : Term) (ht : μ v = some t)
      (hu : ν v = some u) (hn : τ v = none) : σ v = none := by
    by_contra hs
    obtain ⟨k, hk⟩ := Option.ne_none_iff_exists'.mp hs
    rcases hσ v k hk with h | h | h
    · simp [hn] at h
    · simp [ht] at h
    · simp [h ν hν] at hu
  constructor
  · rintro ⟨_, hmem, hcomp, hover⟩
    obtain ⟨ν, hν, hτν, rfl⟩ := mem_specialise.mp hmem
    refine ⟨ν, hν, fun v t u ht hu => ?_, ?_⟩
    · cases hv : τ v with
      | some k =>
        have hk : k = t := Option.some.inj ((hτ v k hv).1.symm.trans ht)
        exact hk ▸ hτν v k u hv hu
      | none =>
        have hs := hkeep ν hν v t u ht hu hv
        exact hcomp v t u (by rwa [without_apply_none hs]) (by rwa [without_apply_none hv])
    · rcases hover with h | ⟨v, hl, hr⟩
      · rcases hb.mp h with h | ⟨v, hv⟩
        · exact .inl h
        · obtain ⟨k, hk⟩ := Option.isSome_iff_exists.mp hv
          exact .inr ⟨v, by simp [(hτ v k hk).1], (hτ v k hk).2 ν hν⟩
      · obtain ⟨t, ht⟩ := Option.isSome_iff_exists.mp hl
        obtain ⟨u, hu⟩ := Option.isSome_iff_exists.mp hr
        exact .inr ⟨v, by simp [(without_eq_some.mp ht).2], by simp [(without_eq_some.mp hu).2]⟩
  · rintro ⟨ν, hν, hcomp, hover⟩
    refine ⟨without τ ν, mem_specialise.mpr ⟨ν, hν, ?_, rfl⟩, ?_, ?_⟩
    · exact fun v t u ht hu => hcomp v t u (hτ v t ht).1 hu
    · exact fun v t u ht hu =>
        hcomp v t u (without_eq_some.mp ht).2 (without_eq_some.mp hu).2
    · rcases hover with h | ⟨v, hl, hr⟩
      · exact .inl (hb.mpr (.inl h))
      · obtain ⟨t, ht⟩ := Option.isSome_iff_exists.mp hl
        obtain ⟨u, hu⟩ := Option.isSome_iff_exists.mp hr
        cases hv : τ v with
        | some k => exact .inl (hb.mpr (.inr ⟨v, by simp [hv]⟩))
        | none =>
          have hs := hkeep ν hν v t u ht hu hv
          exact .inr ⟨v, by simp [without_apply_none hs, ht], by simp [without_apply_none hv, hu]⟩

/-- Whether some solution agrees with `μ` does not depend on what is known, if `μ` binds each known
variable that occurs. -/
theorem meets_specialise (hμ : Compatible σ μ)
    (h : ∀ v t, σ v = some t → (μ v).isSome ∨ ∀ ν ∈ T, ν v = none) :
    Meets (specialise σ T) (without σ μ) ↔ Meets T μ := by
  constructor
  · rintro ⟨_, hmem, hcomp⟩
    obtain ⟨ν, hν, hσν, rfl⟩ := mem_specialise.mp hmem
    exact ⟨ν, hν, (compatible_without hμ hσν).mp hcomp⟩
  · rintro ⟨ν, hν, hcomp⟩
    have hσν : Compatible σ ν := by
      intro v t u ht hu
      rcases h v t ht with hs | hn
      · obtain ⟨x, hx⟩ := Option.isSome_iff_exists.mp hs
        exact (hμ v t x ht hx).trans (hcomp v x u hx hu)
      · simp [hn ν hν] at hu
    exact ⟨_, mem_specialise.mpr ⟨ν, hν, hσν, rfl⟩, (compatible_without hμ hσν).mpr hcomp⟩

/-- What is known about a semijoin may be given to both operands if each known variable that occurs
is bound by the outer solutions. -/
theorem specialise_semijoin
    (h : ∀ μ ∈ S, ∀ v t, σ v = some t → (μ v).isSome ∨ ∀ ν ∈ T, ν v = none) :
    specialise σ (semijoin S T) = semijoin (specialise σ S) (specialise σ T) :=
  specialise_filter σ (Meets T) (Meets (specialise σ T)) S fun μ hμ hc =>
    meets_specialise hc (h μ hμ)

theorem specialise_antijoin
    (h : ∀ μ ∈ S, ∀ v t, σ v = some t → (μ v).isSome ∨ ∀ ν ∈ T, ν v = none) :
    specialise σ (antijoin S T) = antijoin (specialise σ S) (specialise σ T) :=
  specialise_filter σ (Misses T) (Misses (specialise σ T)) S fun μ hμ hc =>
    not_congr (meets_specialise hc (h μ hμ))

end Bag
end TripleAlgebra
