import TripleAlgebra.Plan.Bind

/-! A measure of plans that no substitution increases. -/
namespace TripleAlgebra.Plan

mutual

/-- The number of operators other than filters, projections and the empty solution. -/
def rank : Plan → Nat
  | .triple _ => 1
  | .identity => 0
  | .join ps | .union ps => 1 + rankEach ps
  | .leftJoin l r _ | .minus l r _ | .semijoin l r | .antijoin l r => 1 + rank l + rank r
  | .filter p _ | .project p _ => rank p
  | .distinct p | .weakDistinct p | .limit p _ | .offset p _ | .slice p _ _ | .values p _ _
  | .assign p _ _ | .ask p => 1 + rank p

def rankEach : List Plan → Nat
  | [] => 0
  | p :: ps => rank p + rankEach ps

end

theorem rank_le_rankEach {p : Plan} {ps : List Plan} (h : p ∈ ps) : p.rank ≤ rankEach ps := by
  induction ps with
  | nil => cases h
  | cons q ps ih =>
    rcases List.mem_cons.1 h with rfl | h
    · simp [rankEach]
    · have := ih h
      simp only [rankEach]
      omega

theorem rankEach_map_le {f : Plan → Plan} {ps : List Plan} (h : ∀ p ∈ ps, (f p).rank ≤ p.rank) :
    rankEach (ps.map f) ≤ rankEach ps := by
  induction ps with
  | nil => simp
  | cons p ps ih =>
    have hp := h p (by simp)
    have hps := ih fun q hq => h q (by simp [hq])
    simp only [List.map_cons, rankEach]
    omega

@[simp] theorem rank_checkAfter (s : Substitution) (p : Plan) : (checkAfter s p).rank = p.rank := by
  simp [checkAfter, rank]

theorem rank_deferring_le {s : Substitution} {p : Plan} {push : Substitution → Option Plan}
    (h : ∀ s, ((push s).getD p).rank ≤ p.rank) : ((deferring s p push).getD p).rank ≤ p.rank := by
  simp only [deferring]
  split
  · exact h _
  · simpa using h _

theorem substituteEach?_getD (s : Substitution) (ps : List Plan) :
    (substituteEach? s ps).getD ps = ps.map (substitute s) := by
  induction ps with
  | nil => rfl
  | cons p ps ih =>
    simp only [substituteEach?, List.map_cons, ← ih, substitute]
    cases substitute? s p <;> cases substituteEach? s ps <;> rfl

private theorem rank_triple_le (s : Substitution) (t : Pattern) :
    ((substituteTriple? s t).getD (.triple t)).rank ≤ 1 := by
  unfold substituteTriple?
  split
  · simp [rank]
  · simp [rank]
  · cases Update.both _ _ _ _ <;> simp [rank]

private theorem rank_wrap_le (f : Plan → Plan) {p : Plan} (s : Substitution)
    (hf : ∀ q, (f q).rank = 1 + q.rank) (h : ∀ s, (substitute s p).rank ≤ p.rank) :
    ((wrap s f p fun s => substitute? s p).getD (f p)).rank ≤ (f p).rank := by
  refine rank_deferring_le fun s => ?_
  simpa [hf, substitute] using h s

private theorem rank_each_le {f : List Plan → Plan} {ps : List Plan} {s : Substitution}
    (hf : ∀ qs, (f qs).rank = 1 + rankEach qs) (h : ∀ p ∈ ps, (substitute s p).rank ≤ p.rank) :
    (((substituteEach? s ps).map f).getD (f ps)).rank ≤ (f ps).rank := by
  have hmap := rankEach_map_le h
  rw [Option.getD_map f ps, substituteEach?_getD, hf, hf]
  omega

private theorem rank_pair_le {f : Plan × Plan → Plan} {p q : Plan} {p' q' : Option Plan}
    (hf : ∀ p q, (f (p, q)).rank = 1 + p.rank + q.rank)
    (hp : (p'.getD p).rank ≤ p.rank) (hq : (q'.getD q).rank ≤ q.rank) :
    (((Update.both p p' q q').map f).getD (f (p, q))).rank ≤ (f (p, q)).rank := by
  rw [Update.getD_map_both, hf, hf]
  omega

private theorem rank_both_le {β : Type} {f : Plan × β → Plan} {p : Plan} {p' : Option Plan} {b : β}
    {b' : Option β} {n : Nat} (hf : ∀ q c, (f (q, c)).rank = n + q.rank)
    (h : (p'.getD p).rank ≤ p.rank) :
    (((Update.both p p' b b').map f).getD (f (p, b))).rank ≤ (f (p, b)).rank := by
  rw [Update.getD_map_both, hf, hf]
  omega

private theorem rank_two_le {β : Type} {f : Plan × Plan × β → Plan} {p q : Plan}
    {p' q' : Option Plan} {b : β} {b' : Option β}
    (hf : ∀ p q c, (f (p, q, c)).rank = 1 + p.rank + q.rank)
    (hp : (p'.getD p).rank ≤ p.rank) (hq : (q'.getD q).rank ≤ q.rank) :
    (((Update.both p p' (q, b) (Update.both q q' b b')).map f).getD (f (p, q, b))).rank ≤
      (f (p, q, b)).rank := by
  rw [Update.getD_map_both, Update.getD_both, hf, hf]
  omega

/-- Substitution does not increase the rank. -/
theorem rank_substitute_le (p : Plan) (s : Substitution) : (substitute s p).rank ≤ p.rank := by
  induction p using inductOperands generalizing s with
  | triple t => exact rank_deferring_le fun s => rank_triple_le s t
  | identity => exact Nat.le_refl _
  | join ps ih =>
    exact rank_deferring_le fun s => rank_each_le (fun _ => rfl) fun p hp => ih p hp s
  | union ps ih =>
    exact rank_deferring_le fun s => rank_each_le (fun _ => rfl) fun p hp => ih p hp s
  | leftJoin l r c hl hr =>
    exact rank_deferring_le fun s => rank_two_le (fun _ _ _ => rfl) (hl s) (hr s)
  | filter p cs ih =>
    exact rank_deferring_le fun s => rank_both_le (n := 0) (by simp [rank]) (ih s)
  | project p vs ih =>
    refine rank_deferring_le fun s => ?_
    simp only
    split
    · exact Nat.le_refl _
    · exact ih _
  | values p vs rows ih =>
    refine rank_deferring_le fun s => ?_
    simp only
    split
    · exact Nat.le_refl _
    · simpa [rank, substitute] using ih s
  | assign p v e ih =>
    exact rank_deferring_le fun s => rank_both_le (n := 1) (by simp [rank]) (ih s)
  | semijoin p q hp hq =>
    exact rank_deferring_le fun s => rank_pair_le (fun _ _ => rfl) (hp s) (hq s)
  | antijoin p q hp hq =>
    exact rank_deferring_le fun s => rank_pair_le (fun _ _ => rfl) (hp s) (hq s)
  | minus l r b hl hr =>
    exact rank_deferring_le fun s => rank_two_le (fun _ _ _ => rfl) (hl s) (hr _)
  | distinct p ih => exact rank_wrap_le .distinct s (fun _ => rfl) ih
  | weakDistinct p ih => exact rank_wrap_le .weakDistinct s (fun _ => rfl) ih
  | limit p n ih => exact rank_wrap_le (.limit · n) s (fun _ => rfl) ih
  | offset p n ih => exact rank_wrap_le (.offset · n) s (fun _ => rfl) ih
  | slice p n c ih => exact rank_wrap_le (.slice · n c) s (fun _ => rfl) ih
  | ask p ih => exact rank_wrap_le .ask s (fun _ => rfl) ih

theorem rank_bind_le (p : Plan) (vs : List Variable) (ts : List (Option Term)) :
    (p.bind vs ts).rank ≤ p.rank := rank_substitute_le p _

/-- Plans that may be evaluated on the way to the evaluation of another one: those of lower rank,
and the parts of filters and projections. -/
def Below (q p : Plan) : Prop := q.rank < p.rank ∨ (q.rank = p.rank ∧ sizeOf q < sizeOf p)

end TripleAlgebra.Plan
