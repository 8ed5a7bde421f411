import TripleAlgebra.Proofs.Meaning

/-! The variables for which a plan has a place when terms are substituted. No other variable makes
a difference to what a plan is specialised to. -/
namespace TripleAlgebra

namespace Expression

theorem substituteEach?_congr {σ τ : Assignment} {es : List Expression}
    (h : ∀ e ∈ es, substitute? σ e = substitute? τ e) :
    substituteEach? σ es = substituteEach? τ es := by
  induction es with
  | nil => rfl
  | cons e es ih =>
    rw [substituteEach?, substituteEach?, h e List.mem_cons_self,
      ih fun x hx => h x (List.mem_cons_of_mem e hx)]

/-- Substitution looks at the variables that occur in an expression only. -/
theorem substitute?_congr {σ τ : Assignment} {e : Expression} (h : ∀ v ∈ e.vars, σ v = τ v) :
    substitute? σ e = substitute? τ e := by
  replace h : ∀ v ∈ e.occurrences, σ v = τ v := fun v hv => h v (mem_vars.mpr hv)
  induction e using inductMembers with
  | const t => rfl
  | var v | bound v => simp [substitute?, h v (by simp [occurrences])]
  | unary op e ih => rw [substitute?, substitute?, ih h]
  | binary op l r hl hr =>
    simp only [occurrences, List.mem_append] at h
    rw [substitute?, substitute?, hl fun v hv => h v (.inl hv), hr fun v hv => h v (.inr hv)]
  | conditional c t e hc ht he =>
    simp only [occurrences, List.mem_append] at h
    rw [substitute?, substitute?, hc fun v hv => h v (.inl hv),
      ht fun v hv => h v (.inr (.inl hv)), he fun v hv => h v (.inr (.inr hv))]
  | member e es he hes =>
    simp only [occurrences, occurrencesEach_eq, List.mem_append, List.mem_flatMap] at h
    rw [substitute?, substitute?, he fun v hv => h v (.inl hv), substituteEach?_congr fun x hx =>
      hes x hx fun v hv => h v (.inr ⟨x, hx, hv⟩)]
  | coalesce es hes | call _ es hes =>
    simp only [occurrences, occurrencesEach_eq, List.mem_flatMap] at h
    rw [substitute?, substitute?, substituteEach?_congr fun x hx =>
      hes x hx fun v hv => h v ⟨x, hx, hv⟩]

end Expression

namespace Plan

mutual

/-- The variables at places into which terms are substituted. A projection hides all others than its
own, and the right side of a difference is reached for variables of the left side only. -/
def exposed : Plan → List Variable
  | .triple t => t.vars
  | .identity => []
  | .join ps | .union ps => exposedEach ps
  | .leftJoin l r c => exposed l ++ (exposed r ++ c.toList.flatMap Expression.vars)
  | .filter p cs => exposed p ++ cs.flatMap Expression.vars
  | .project _ vs => vs
  | .values p vs _ => vs ++ exposed p
  | .assign p v e => v :: (exposed p ++ e.vars)
  | .semijoin p q | .antijoin p q => exposed p ++ exposed q
  | .minus l _ _ => exposed l
  | .distinct p | .weakDistinct p | .limit p _ | .offset p _ | .slice p _ _ | .ask p => exposed p

def exposedEach : List Plan → List Variable
  | [] => []
  | p :: ps => exposed p ++ exposedEach ps

end

theorem exposedEach_eq (ps : List Plan) : exposedEach ps = ps.flatMap exposed := by
  induction ps with
  | nil => rfl
  | cons p ps ih => rw [exposedEach, ih, List.flatMap_cons]

theorem vars_subset_exposed (p : Plan) : p.vars ⊆ p.exposed := by
  induction p using inductOperands with
  | triple t => exact fun _ h => h
  | identity => exact fun _ h => h
  | join ps ih | union ps ih =>
    intro v hv
    simp only [vars, varsEach_eq, Variable.mem_union, List.mem_map] at hv
    obtain ⟨_, ⟨q, hq, rfl⟩, hv⟩ := hv
    rw [exposed, exposedEach_eq]
    exact List.mem_flatMap.mpr ⟨q, hq, ih q hq hv⟩
  | leftJoin l r c hl hr =>
    intro v hv
    rw [exposed, List.mem_append, List.mem_append]
    exact (mem_vars_leftJoin.mp hv).imp (@hl v) fun h => .inl (hr h)
  | project p vs ih => exact fun v hv => mem_vars_project.mp hv
  | values p vs rows ih =>
    exact fun v hv => List.mem_append.mpr ((mem_vars_values.mp hv).imp_right (@ih v))
  | assign p w e ih =>
    intro v hv
    rw [exposed, List.mem_cons, List.mem_append]
    exact (mem_vars_assign.mp hv).symm.imp_right fun h => .inl (ih h)
  | filter p cs ih => exact fun v hv => List.mem_append_left _ (ih hv)
  | semijoin p q ih _ | antijoin p q ih _ => exact fun v hv => List.mem_append_left _ (ih hv)
  | ask p ih => exact List.nil_subset _
  | minus l r b ih _ => exact ih
  | distinct p ih | weakDistinct p ih | limit p n ih | offset p n ih | slice p n c ih => exact ih

theorem mem_vars_of_defers {p : Plan} {v : Variable} (h : p.defers v) : v ∈ p.vars := by
  rcases Bool.or_eq_true_iff.mp h with h | h
  · exact (by simpa [maybeUnbound] using h : _ ∧ _).1
  · cases p with
    | minus l r b => exact (show v ∈ l.vars ∧ _ by simpa using h).1
    | _ => cases h

end Plan

namespace Substitution
variable {s : Substitution} {vs ws : List Variable}

theorem restrict_restrict_of_subset (h : ws ⊆ vs) :
    (s.restrict vs).restrict ws = s.restrict ws := by
  unfold restrict
  rw [List.filter_filter]
  refine List.filter_congr fun x _ => ?_
  by_cases hx : x.1 ∈ ws
  · simp [hx, h hx]
  · simp [hx]

theorem find?_restrict_of_mem {v : Variable} (h : v ∈ vs) :
    (s.restrict vs).find? v = s.find? v := by
  rw [find?_restrict, if_pos h]

end Substitution

namespace Plan
variable {s : Substitution} {vs : List Variable}

theorem deferring_restrict {p : Plan} (h : p.exposed ⊆ vs) (push : Substitution → Option Plan) :
    deferring (s.restrict vs) p push = deferring s p fun s' => push (s'.restrict vs) := by
  have hlate : p.late (s.restrict vs) = p.late s := by
    rw [late, Substitution.restrict, List.filter_filter]
    refine List.filter_congr fun x _ => ?_
    have hmem (hd : p.defers x.1) : x.1 ∈ vs := h (p.vars_subset_exposed (mem_vars_of_defers hd))
    simpa using hmem
  have hearly : p.early (s.restrict vs) = (p.early s).restrict vs := List.filter_comm ..
  rw [deferring_eq, deferring_eq, hlate, hearly]

theorem substituteEach?_congr {s s' : Substitution} {ps : List Plan}
    (h : ∀ p ∈ ps, substitute? s p = substitute? s' p) :
    substituteEach? s ps = substituteEach? s' ps := by
  induction ps with
  | nil => rfl
  | cons p ps ih =>
    rw [substituteEach?, substituteEach?, h p List.mem_cons_self,
      ih fun q hq => h q (List.mem_cons_of_mem p hq)]

theorem substituteTriple?_restrict {t : Pattern} (h : t.vars ⊆ vs) :
    substituteTriple? (s.restrict vs) t = substituteTriple? s t := by
  have hslot {x : Slot} (hx : ∀ v, x = .var v → v ∈ t.vars) :
      x.substitute? (s.restrict vs) = x.substitute? s := by
    cases x with
    | term u => rfl
    | var v =>
      rw [Slot.substitute?, Slot.substitute?, Substitution.find?_restrict_of_mem (h (hx v rfl))]
  have hremaining : (s.restrict vs).remaining t.vars = s.remaining t.vars :=
    Substitution.remaining_congr fun v hv => Substitution.find?_restrict_of_mem (h hv)
  unfold substituteTriple?
  rw [hslot fun v hv => Pattern.mem_vars.mpr (.inl hv),
    hslot fun v hv => Pattern.mem_vars.mpr (.inr (.inl hv)),
    hslot fun v hv => Pattern.mem_vars.mpr (.inr (.inr hv)), hremaining]

section
variable {ws : List Variable} (h : ws ⊆ vs)
include h

theorem find?_restrict_zipIdx {v : Variable} {i : Nat} (hv : (v, i) ∈ ws.zipIdx) :
    (s.restrict vs).find? v = s.find? v :=
  Substitution.find?_restrict_of_mem (h (List.fst_mem_of_mem_zipIdx hv))

theorem boundColumns_restrict : boundColumns (s.restrict vs) ws = boundColumns s ws := by
  refine List.filterMap_congr fun x hx => ?_
  simp only [find?_restrict_zipIdx h hx]

theorem substituteTable_restrict (rows : List Row) :
    substituteTable (s.restrict vs) ws rows = substituteTable s ws rows := by
  have hkept : ws.zipIdx.filter (fun x => ((s.restrict vs).find? x.1).isNone) =
      ws.zipIdx.filter fun x => (s.find? x.1).isNone :=
    List.filter_congr fun x hx => by rw [find?_restrict_zipIdx h hx]
  have hremaining : (s.restrict vs).remaining ws = s.remaining ws :=
    Substitution.remaining_congr fun v hv => Substitution.find?_restrict_of_mem (h hv)
  unfold substituteTable
  rw [boundColumns_restrict h, hremaining]
  exact congrArg (fun kept : List (Variable × Nat) => (s.remaining ws,
    (rows.filter _).map fun r => r.project ((kept.map (·.2)).map some))) hkept

end

theorem substitute?_expression_restrict {e : Expression} (h : e.vars ⊆ vs) :
    e.substitute? (s.restrict vs).find? = e.substitute? s.find? :=
  Expression.substitute?_congr fun _ hv => Substitution.find?_restrict_of_mem (h hv)

/-- Terms for variables that a plan does not expose are not substituted anywhere. -/
theorem substitute?_restrict (p : Plan) (h : p.exposed ⊆ vs) (s : Substitution) :
    substitute? (s.restrict vs) p = substitute? s p := by
  induction p using inductOperands generalizing s with
  | triple t =>
    rw [substitute?, substitute?, deferring_restrict h]
    simp only [substituteTriple?_restrict h]
  | identity => rfl
  | join ps ih | union ps ih =>
    rw [substitute?, substitute?, deferring_restrict h]
    rw [exposed, exposedEach_eq] at h
    have hps (p) (hp : p ∈ ps) : p.exposed ⊆ vs :=
      fun v hv => h (List.mem_flatMap.mpr ⟨p, hp, hv⟩)
    simp only [substituteEach?_congr fun p hp => ih p hp (hps p hp) _]
  | leftJoin l r c hl hr =>
    rw [substitute?, substitute?, deferring_restrict h]
    rw [exposed, List.append_subset, List.append_subset] at h
    have hc (s : Substitution) : Update.within (Expression.substitute? (s.restrict vs).find?) c =
        Update.within (Expression.substitute? s.find?) c := by
      cases c with
      | none => rfl
      | some e =>
        rw [Update.within, Update.within, substitute?_expression_restrict (by simpa using h.2.2)]
    simp only [hl h.1, hr h.2.1, hc]
  | filter p cs ih =>
    rw [substitute?, substitute?, deferring_restrict h]
    rw [exposed, List.append_subset] at h
    have hcs (e) (he : e ∈ cs) : e.vars ⊆ vs := fun v hv => h.2 (List.mem_flatMap.mpr ⟨e, he, hv⟩)
    simp only [ih h.1, Expression.substituteEach?_congr fun e he =>
      substitute?_expression_restrict (hcs e he)]
  | project p ws ih =>
    rw [substitute?, substitute?, deferring_restrict h]
    rw [exposed] at h
    simp only [Substitution.restrict_restrict_of_subset h]
  | values p ws rows ih =>
    rw [substitute?, substitute?, deferring_restrict h]
    rw [exposed, List.append_subset] at h
    simp only [ih h.2, boundColumns_restrict h.1, substituteTable_restrict h.1]
  | assign p v e ih =>
    rw [substitute?, substitute?, deferring_restrict h]
    rw [exposed, List.cons_subset, List.append_subset] at h
    simp only [ih h.2.1, substitute?_expression_restrict h.2.2]
  | semijoin p q hp hq | antijoin p q hp hq =>
    rw [substitute?, substitute?, deferring_restrict h]
    rw [exposed, List.append_subset] at h
    simp only [hp h.1, hq h.2]
  | minus l r b hl hr =>
    rw [substitute?, substitute?, deferring_restrict h]
    rw [exposed] at h
    have hvars : l.vars ⊆ vs := fun v hv => h (l.vars_subset_exposed hv)
    simp only [hl h, Substitution.restrict_restrict_of_subset hvars]
  | distinct p ih | weakDistinct p ih | limit p n ih | offset p n ih | slice p n c ih | ask p ih =>
    rw [substitute?, substitute?, wrap, deferring_restrict h]
    simp only [ih h]

end Plan
end TripleAlgebra
