import TripleAlgebra.Proofs.Header
import TripleAlgebra.Config

/-! Plans into which terms may be substituted. What is substituted may come from outside or from the
operands of an operator that evaluates another operand for each of its rows. -/
namespace TripleAlgebra

namespace Plan
variable {rule : DuplicateRule} {E F : Variable → Prop} {p : Plan}

/-- No node looks at an order of rows or asks for existence, duplicates are compared with all rows,
no table lists a variable twice, and an expression mentions only variables that are bound or at
least present where it is evaluated. -/
inductive BindSafe (rule : DuplicateRule) : Plan → Prop
  | triple (t : Pattern) : BindSafe rule (.triple t)
  | identity : BindSafe rule .identity
  | join {ps : List Plan} (h : ∀ p ∈ ps, BindSafe rule p) : BindSafe rule (.join ps)
  | union {ps : List Plan} (h : ∀ p ∈ ps, BindSafe rule p) : BindSafe rule (.union ps)
  | leftJoin {l r : Plan} {c : Option Expression} (hl : BindSafe rule l) (hr : BindSafe rule r)
      (hc : ∀ e ∈ c, ∀ v ∈ e.vars, v ∈ l.vars ∨ v ∈ r.vars) : BindSafe rule (.leftJoin l r c)
  | filter {p : Plan} {cs : List Expression} (h : BindSafe rule p)
      (hc : ∀ e ∈ cs, ∀ v ∈ e.vars, v ∈ p.certain) : BindSafe rule (.filter p cs)
  | project {p : Plan} (vs : List Variable) (h : BindSafe rule p) : BindSafe rule (.project p vs)
  | distinct {p : Plan} (h : BindSafe rule p) (hr : rule = .all) : BindSafe rule (.distinct p)
  | values {p : Plan} {vs : List Variable} (rows : List Row) (h : BindSafe rule p)
      (hv : vs.Nodup) : BindSafe rule (.values p vs rows)
  | assign {p : Plan} (v : Variable) {e : Expression} (h : BindSafe rule p)
      (he : ∀ v ∈ e.vars, v ∈ p.vars) : BindSafe rule (.assign p v e)
  | minus {l r : Plan} (b : Bool) (hl : BindSafe rule l) (hr : BindSafe rule r) :
      BindSafe rule (.minus l r b)

/-- The variables whose values an operand is given. -/
def given (p : Plan) : Option Expression → List Variable
  | none => p.vars
  | some e => Variable.union [p.vars, e.vars]

/-- The variables that an operand of a join has in common with another one. -/
def Passed (ps : List Plan) (p : Plan) (v : Variable) : Prop :=
  v ∈ p.vars ∧ 2 ≤ ps.countP (v ∈ ·.vars)

/-- The same demands for the variables of `E` only, which are those that may be substituted from
outside. Operands that are evaluated for the rows of others get the variables that they share with
them. A variable that is substituted into an inner pattern has to be one of the outer plan. -/
inductive Safe (rule : DuplicateRule) : (Variable → Prop) → Plan → Prop
  | triple {E : Variable → Prop} (t : Pattern) : Safe rule E (.triple t)
  | identity {E : Variable → Prop} : Safe rule E .identity
  | join {E : Variable → Prop} {ps : List Plan}
      (h : ∀ p ∈ ps, Safe rule (fun v => E v ∨ Passed ps p v) p) : Safe rule E (.join ps)
  | union {E : Variable → Prop} {ps : List Plan} (h : ∀ p ∈ ps, Safe rule E p) :
      Safe rule E (.union ps)
  | leftJoin {E : Variable → Prop} {l r : Plan} {c : Option Expression} (hl : Safe rule E l)
      (hr : Safe rule (fun v => E v ∨ v ∈ l.vars ∧ v ∈ r.given c) r)
      (hc : ∀ e ∈ c, ∀ v ∈ e.vars, E v → v ∈ l.vars ∨ v ∈ r.vars) : Safe rule E (.leftJoin l r c)
  | filter {E : Variable → Prop} {p : Plan} {cs : List Expression} (h : Safe rule E p)
      (hc : ∀ e ∈ cs, ∀ v ∈ e.vars, E v → v ∈ p.certain) : Safe rule E (.filter p cs)
  | project {E : Variable → Prop} {p : Plan} {vs : List Variable}
      (h : Safe rule (fun v => E v ∧ v ∈ vs) p) : Safe rule E (.project p vs)
  | distinct {E : Variable → Prop} {p : Plan} (h : Safe rule E p) (hr : rule = .all) :
      Safe rule E (.distinct p)
  | values {E : Variable → Prop} {p : Plan} {vs : List Variable} {rows : List Row}
      (h : Safe rule (fun v => E v ∨ v ∈ vs ∧ v ∈ p.vars) p) (hv : vs.Nodup) :
      Safe rule E (.values p vs rows)
  | assign {E : Variable → Prop} {p : Plan} {v : Variable} {e : Expression} (h : Safe rule E p)
      (he : ∀ v ∈ e.vars, E v → v ∈ p.vars) : Safe rule E (.assign p v e)
  | minus {E : Variable → Prop} {l r : Plan} {b : Bool} (hl : Safe rule E l)
      (hr : Safe rule (fun v => v ∈ l.vars ∧ v ∈ r.vars) r) : Safe rule E (.minus l r b)
  | semijoin {E : Variable → Prop} {p q : Plan} (hp : Safe rule E p)
      (hq : Safe rule (fun v => E v ∨ v ∈ p.vars) q) (hs : ∀ v ∈ q.vars, E v → v ∈ p.vars) :
      Safe rule E (.semijoin p q)
  | antijoin {E : Variable → Prop} {p q : Plan} (hp : Safe rule E p)
      (hq : Safe rule (fun v => E v ∨ v ∈ p.vars) q) (hs : ∀ v ∈ q.vars, E v → v ∈ p.vars) :
      Safe rule E (.antijoin p q)
  | ask {E : Variable → Prop} {p : Plan} (h : Safe rule E p) (hs : ∀ v ∈ p.vars, ¬E v) :
      Safe rule E (.ask p)

theorem BindSafe.safe (h : BindSafe rule p) : Safe rule E p := by
  induction h generalizing E with
  | triple t => exact .triple t
  | identity => exact .identity
  | join _ ih => exact .join fun p hp => ih p hp
  | union _ ih => exact .union fun p hp => ih p hp
  | leftJoin _ _ hc hl hr => exact .leftJoin hl hr fun e he v hv _ => hc e he v hv
  | filter _ hc ih => exact .filter ih fun e he v hv _ => hc e he v hv
  | project vs _ ih => exact .project ih
  | distinct _ hr ih => exact .distinct ih hr
  | values rows _ hv ih => exact .values ih hv
  | assign v _ he ih => exact .assign ih fun v hv _ => he v hv
  | minus b _ _ hl hr => exact .minus hl hr

theorem Safe.mono (h : Safe rule E p) (hs : ∀ v, F v → E v) : Safe rule F p := by
  induction h generalizing F with
  | triple t => exact .triple t
  | identity => exact .identity
  | join _ ih => exact .join fun p hp => ih p hp fun v hv => hv.imp_left (hs v)
  | union _ ih => exact .union fun p hp => ih p hp hs
  | leftJoin _ _ hc ihl ihr =>
    exact .leftJoin (ihl hs) (ihr fun v hv => hv.imp_left (hs v))
      fun e he v hv hF => hc e he v hv (hs v hF)
  | filter _ hc ih => exact .filter (ih hs) fun e he v hv hF => hc e he v hv (hs v hF)
  | project _ ih => exact .project (ih fun v hv => ⟨hs v hv.1, hv.2⟩)
  | distinct _ hr ih => exact .distinct (ih hs) hr
  | values _ hv ih => exact .values (ih fun v hv => hv.imp_left (hs v)) hv
  | assign _ he ih => exact .assign (ih hs) fun v hv hF => he v hv (hs v hF)
  | minus _ hr ihl _ => exact .minus (ihl hs) hr
  | semijoin _ _ hv ihp ihq =>
    exact .semijoin (ihp hs) (ihq fun v hv => hv.imp_left (hs v)) fun v hq hF => hv v hq (hs v hF)
  | antijoin _ _ hv ihp ihq =>
    exact .antijoin (ihp hs) (ihq fun v hv => hv.imp_left (hs v)) fun v hq hF => hv v hq (hs v hF)
  | ask _ hv ih => exact .ask (ih hs) fun v hp hF => hv v hp (hs v hF)

/-- Variables that are checked on the rows of a plan are gone afterwards. -/
theorem Safe.checked (h : Safe rule E p) (s : Substitution) : Safe rule E (checkAfter s p) := by
  refine .project (.filter (h.mono fun v hv => hv.1) ?_)
  intro e he v hv hE
  obtain ⟨⟨w, t⟩, hm, rfl⟩ := List.mem_map.mp he
  have hw : v = w := by
    simpa [Expression.mem_vars, Expression.unboundOrSame, Expression.occurrences] using hv
  subst hw
  have hn := (Substitution.mem_remaining.mp hE.2).2
  have hk := List.lookup_eq_none_iff.mp hn (v, t) hm
  simp at hk

variable {s : Substitution} {v : Variable}

theorem vars_substitute_iff (hs : s.find? v = none) :
    v ∈ (substitute s p).vars ↔ v ∈ p.vars := by
  rw [vars_substitute, Substitution.mem_remaining]
  exact and_iff_left hs

theorem mem_vars_of_substitute (h : v ∈ (substitute s p).vars) : v ∈ p.vars ∧ s.find? v = none := by
  rwa [vars_substitute, Substitution.mem_remaining] at h

/-- Variables of an inner plan that are substituted stay variables of the outer plan. -/
theorem vars_substitute_subset {q : Plan} (h : ∀ v ∈ q.vars, E v → v ∈ p.vars) :
    ∀ v ∈ (substitute s q).vars, E v → v ∈ (substitute s p).vars := by
  intro v hv hE
  obtain ⟨hv, hn⟩ := mem_vars_of_substitute hv
  exact (vars_substitute_iff hn).mpr (h v hv hE)

theorem mem_given {condition : Option Expression} :
    v ∈ p.given condition ↔ v ∈ p.vars ∨ ∃ e ∈ condition, v ∈ e.vars := by
  cases condition <;> simp [given, Variable.mem_union]

/-- A specialised plan is given no other variables. -/
theorem mem_given_of_substitute {condition : Option Expression}
    (h : v ∈ (substitute s p).given (condition.map (Expression.substitute s.find?))) :
    v ∈ p.given condition := by
  rw [mem_given] at h ⊢
  rcases h with h | ⟨e', he', hv⟩
  · exact .inl (mem_vars_of_substitute h).1
  · obtain ⟨e, he, rfl⟩ := Option.map_eq_some_iff.mp he'
    exact .inr ⟨e, he, (Expression.mem_vars_substitute.mp hv).1⟩

theorem Passed.of_substitute {ps : List Plan}
    (h : Passed (ps.map (substitute s)) (substitute s p) v) : Passed ps p v := by
  refine ⟨(mem_vars_of_substitute h.1).1, Nat.le_trans h.2 ?_⟩
  rw [List.countP_map]
  refine List.countP_mono_left fun q _ hq => ?_
  simp only [Function.comp_apply, decide_eq_true_eq] at hq ⊢
  exact (mem_vars_of_substitute hq).1

theorem Safe.of_pushed (h : Safe rule E (p.pushed s (p.early s))) :
    Safe rule E (substitute s p) := by
  rw [substitute_eq]
  split
  · exact h
  · exact h.checked _

/-- A specialised plan may be specialised further. -/
theorem Safe.specialised (h : Safe rule E p) (s : Substitution) :
    Safe rule E (substitute s p) := by
  induction h generalizing s with
  | triple t =>
    apply of_pushed
    rcases substituteTriple?_getD ((Plan.triple t).early s) t with ⟨_, _, _, _, _, h⟩ | h
    · rw [pushed, h]
      exact .values .identity (Substitution.nodup_remaining t.nodup_vars)
    · rw [pushed, h]
      exact .triple _
  | identity => exact of_pushed .identity
  | join _ ih =>
    refine of_pushed (.join fun q hq => ?_)
    obtain ⟨p, hp, rfl⟩ := List.mem_map.mp hq
    exact (ih p hp _).mono fun v hv => hv.imp_right Passed.of_substitute
  | union _ ih =>
    refine of_pushed (.union fun q hq => ?_)
    obtain ⟨p, hp, rfl⟩ := List.mem_map.mp hq
    exact ih p hp _
  | @leftJoin _ l r c _ _ hc ihl ihr =>
    refine of_pushed (.leftJoin (ihl _) ((ihr _).mono fun v hv => ?_) ?_)
    · exact hv.imp_right fun h => ⟨(mem_vars_of_substitute h.1).1, mem_given_of_substitute h.2⟩
    · intro e' he' v hv hE
      obtain ⟨e, he, rfl⟩ := Option.map_eq_some_iff.mp he'
      obtain ⟨hv, hn⟩ := Expression.mem_vars_substitute.mp hv
      rw [vars_substitute_iff hn, vars_substitute_iff hn]
      exact hc e he v hv hE
  | @filter _ p cs _ hc ih =>
    refine of_pushed (.filter (ih _) ?_)
    intro e' he' v hv hE
    obtain ⟨e, he, rfl⟩ := List.mem_map.mp he'
    obtain ⟨hv, hn⟩ := Expression.mem_vars_substitute.mp hv
    exact mem_certain_substitute p (hc e he v hv hE) (by simp [find?_early, hn])
  | @project E p vs h ih =>
    apply of_pushed
    rw [pushed]
    split
    · exact .project h
    · exact .project ((ih _).mono fun v hv => ⟨hv.1, (Substitution.mem_remaining.mp hv.2).1⟩)
  | distinct _ hr ih => exact of_pushed (.distinct (ih _) hr)
  | values h hv ih =>
    apply of_pushed
    rw [pushed]
    split
    · exact .values h hv
    · refine .values ((ih _).mono fun v hv => hv.imp_right fun h => ?_)
        (Substitution.nodup_remaining hv)
      exact ⟨(Substitution.mem_remaining.mp h.1).1, (mem_vars_of_substitute h.2).1⟩
  | assign _ he ih =>
    refine of_pushed (.assign (ih _) ?_)
    intro v hv hE
    obtain ⟨hv, hn⟩ := Expression.mem_vars_substitute.mp hv
    exact (vars_substitute_iff hn).mpr (he v hv hE)
  | minus _ _ ihl ihr =>
    refine of_pushed (.minus (ihl _) ((ihr _).mono fun v hv => ?_))
    exact ⟨(mem_vars_of_substitute hv.1).1, (mem_vars_of_substitute hv.2).1⟩
  | semijoin _ _ hv ihp ihq =>
    refine of_pushed (.semijoin (ihp _) ((ihq _).mono fun v h => ?_) (vars_substitute_subset hv))
    exact h.imp_right fun h => (mem_vars_of_substitute h).1
  | antijoin _ _ hv ihp ihq =>
    refine of_pushed (.antijoin (ihp _) ((ihq _).mono fun v h => ?_) (vars_substitute_subset hv))
    exact h.imp_right fun h => (mem_vars_of_substitute h).1
  | ask _ hv ih =>
    exact of_pushed (.ask (ih _) fun v hp => hv v (mem_vars_of_substitute hp).1)

end Plan
end TripleAlgebra
