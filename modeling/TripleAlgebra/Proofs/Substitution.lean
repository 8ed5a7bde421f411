import TripleAlgebra.Plan.Rank
import TripleAlgebra.Proofs.Columns
import Mathlib.Data.List.Induction

/-! Substitution taken apart: what goes into the operands of a plan and what is checked on its
rows. -/
namespace TripleAlgebra

namespace Variable

theorem filter_union (f : Variable → Bool) (lists : List (List Variable)) :
    (union lists).filter f = union (lists.map (·.filter f)) := by
  induction lists using List.reverseRecOn with
  | nil => rfl
  | append_singleton lists vs ih =>
    rw [union_concat, filter_append, ih, List.map_append, List.map_singleton, union_concat]

end Variable

theorem mem_of_lookup {α β : Type} [BEq α] [LawfulBEq α] {l : List (α × β)} {k : α} {x : β}
    (h : l.lookup k = some x) : (k, x) ∈ l := by
  obtain ⟨l₁, l₂, rfl, -⟩ := List.lookup_eq_some_iff.mp h
  simp

namespace Substitution
variable {s : Substitution} {v : Variable} {t : Term}

/-- No variable has two entries. -/
def Functional (s : Substitution) : Prop := (s.map (·.1)).Nodup

@[simp] theorem find?_nil (v : Variable) : find? [] v = none := rfl

theorem find?_cons (w : Variable) (t : Term) (s : Substitution) (v : Variable) :
    find? ((w, t) :: s) v = if v = w then some t else find? s v := by
  unfold find?
  rw [List.lookup_cons]
  by_cases h : v = w
  · simp [h]
  · simp [h, beq_eq_false_iff_ne.mpr h]

theorem mem_of_find? (h : s.find? v = some t) : (v, t) ∈ s := mem_of_lookup h

theorem find?_eq_none : s.find? v = none ↔ ∀ t, (v, t) ∉ s := by
  unfold find?
  rw [List.lookup_eq_none_iff]
  grind

theorem Functional.find?_of_mem (hs : s.Functional) (h : (v, t) ∈ s) : s.find? v = some t := by
  induction s with
  | nil => cases h
  | cons e s ih =>
    obtain ⟨w, u⟩ := e
    obtain ⟨hw, hs⟩ := List.nodup_cons.mp hs
    rw [find?_cons]
    rcases List.mem_cons.mp h with he | ht
    · obtain ⟨rfl, rfl⟩ := Prod.mk.inj he
      simp
    · have hne : v ≠ w := by
        rintro rfl
        exact hw (List.mem_map.mpr ⟨(v, t), ht, rfl⟩)
      rw [if_neg hne, ih hs ht]

theorem ofValues_cons (v : Variable) (vs : List Variable) (x : Option Term)
    (ts : List (Option Term)) :
    ofValues (v :: vs) (x :: ts) = (x.map (v, ·)).toList ++ ofValues vs ts := by
  cases x <;> rfl

theorem functional_ofValues {vs : List Variable} (hv : vs.Nodup) (ts : List (Option Term)) :
    (ofValues vs ts).Functional := by
  have hsub : ((ofValues vs ts).map (·.1)).Sublist vs := by
    clear hv
    induction vs generalizing ts with
    | nil => exact .refl _
    | cons v vs ih =>
      cases ts with
      | nil => exact List.nil_sublist _
      | cons x ts =>
        rw [ofValues_cons]
        cases x with
        | none => exact (ih ts).cons v
        | some t => exact (ih ts).cons_cons v
  exact hv.sublist hsub

theorem find?_ofValues_eq_none {vs : List Variable} {ts : List (Option Term)} :
    (ofValues vs ts).find? v = none ↔ ∀ t, (v, some t) ∉ vs.zip ts := by
  simp [find?_eq_none, ofValues]

theorem find?_filter (f : Variable → Bool) (s : Substitution) (v : Variable) :
    find? (s.filter fun e => f e.1) v = if f v then s.find? v else none := by
  induction s with
  | nil => simp
  | cons e s ih =>
    obtain ⟨w, u⟩ := e
    rw [List.filter_cons]
    by_cases hv : v = w
    · subst hv
      cases hf : f v <;> simp [find?_cons, ih, hf]
    · cases hf : f w <;> simp [find?_cons, hv, ih]

theorem Functional.filter (hs : s.Functional) (f : Variable × Term → Bool) :
    Functional (s.filter f) := by
  unfold Functional
  exact List.Nodup.sublist (List.filter_sublist.map _) hs

theorem find?_restrict (s : Substitution) (vs : List Variable) (v : Variable) :
    (s.restrict vs).find? v = if v ∈ vs then s.find? v else none := by
  unfold restrict
  rw [find?_filter (fun v => v ∈ vs)]
  simp

theorem restrict_eq_nil {vs : List Variable} :
    s.restrict vs = [] ↔ ∀ v ∈ vs, s.find? v = none := by
  simp only [restrict, List.filter_eq_nil_iff, find?_eq_none]
  grind

theorem Functional.restrict (hs : s.Functional) (vs : List Variable) :
    (s.restrict vs).Functional := hs.filter _

theorem remaining_congr {s s' : Substitution} {vs : List Variable}
    (h : ∀ v ∈ vs, s.find? v = s'.find? v) : s.remaining vs = s'.remaining vs :=
  List.filter_congr fun v hv => by rw [h v hv]

theorem mem_remaining {vs : List Variable} : v ∈ s.remaining vs ↔ v ∈ vs ∧ s.find? v = none := by
  simp [remaining]

theorem nodup_remaining {vs : List Variable} (h : vs.Nodup) : (s.remaining vs).Nodup :=
  h.filter _

theorem remaining_ofValues (vs : List Variable) (ts : List (Option Term)) (ws : List Variable) :
    (ofValues vs ts).remaining ws =
      ws.filter fun v => (vs.zip ts).all fun e => e.1 ≠ v || e.2.isNone := by
  apply List.filter_congr
  intro v _
  rw [Bool.eq_iff_iff, Option.isNone_iff_eq_none, find?_ofValues_eq_none, List.all_eq_true]
  constructor
  · rintro h ⟨w, x⟩ he
    cases x with
    | none => simp
    | some t =>
      have hne : w ≠ v := by
        rintro rfl
        exact h t he
      simp [hne]
  · intro h t ht
    simpa using h _ ht

theorem remaining_union (lists : List (List Variable)) :
    s.remaining (Variable.union lists) = Variable.union (lists.map s.remaining) :=
  Variable.filter_union _ _

theorem remaining_append (vs ws : List Variable) :
    s.remaining (Variable.append vs ws) = Variable.append (s.remaining vs) (s.remaining ws) :=
  Variable.filter_append _ _ _

@[simp] theorem remaining_nil (vs : List Variable) : remaining [] vs = vs := by
  simp [remaining]

end Substitution

/-- The slot with the term that replaces its variable. -/
def Slot.substitute (s : Substitution) (x : Slot) : Slot := (x.substitute? s).getD x

theorem Slot.vars_substitute (s : Substitution) (x : Slot) :
    (x.substitute s).vars = s.remaining x.vars := by
  cases x with
  | term t => rfl
  | var v =>
    cases h : s.find? v <;>
      simp [Slot.substitute, Slot.substitute?, Slot.vars, Substitution.remaining, h]

namespace Pattern

def substitute (s : Substitution) (t : Pattern) : Pattern :=
  ⟨t.subject.substitute s, t.predicate.substitute s, t.object.substitute s⟩

theorem vars_substitute (s : Substitution) (t : Pattern) :
    (t.substitute s).vars = s.remaining t.vars := by
  unfold vars
  rw [Substitution.remaining_append]
  simp [substitute, Slot.vars_substitute, Substitution.remaining]

end Pattern

namespace Expression

theorem substitute?_empty (e : Expression) : substitute? Assignment.empty e = none :=
  substitute?_eq_none.mpr fun _ _ => rfl

end Expression

namespace Plan
variable {s : Substitution} {p : Plan} {v : Variable}

/-- A pattern stays a pattern unless its predicate becomes something else than an IRI. -/
theorem substituteTriple?_getD (s : Substitution) (t : Pattern) :
    (∃ w u, t.predicate = .var w ∧ s.find? w = some u ∧ (∀ n, u ≠ .iri n) ∧
      (substituteTriple? s t).getD (.triple t) = .values .identity (s.remaining t.vars) []) ∨
    (substituteTriple? s t).getD (.triple t) = .triple (t.substitute s) := by
  unfold substituteTriple?
  split
  · rename_i b h
    cases hp : t.predicate with
    | term u => simp [hp, Slot.substitute?] at h
    | var w =>
      have hw : s.find? w = some (.blank b) := by simpa [hp, Slot.substitute?] using h
      exact .inl ⟨w, _, rfl, hw, by simp, rfl⟩
  · rename_i l h
    cases hp : t.predicate with
    | term u => simp [hp, Slot.substitute?] at h
    | var w =>
      have hw : s.find? w = some (.literal l) := by simpa [hp, Slot.substitute?] using h
      exact .inl ⟨w, _, rfl, hw, by simp, rfl⟩
  · right
    rw [Update.getD_map_both (fun x : Slot × Slot × Slot => triple ⟨x.1, x.2.1, x.2.2⟩)
      t.subject _ (t.predicate, t.object), Update.getD_both]
    rfl

theorem substituteEach?_eq_none {s : Substitution} {ps : List Plan} :
    substituteEach? s ps = none ↔ ∀ p ∈ ps, substitute? s p = none := by
  induction ps with
  | nil => simp [substituteEach?]
  | cons p ps ih => simp [substituteEach?, Update.both_eq_none, ih]

theorem deferring_nil (p : Plan) (push : Substitution → Option Plan) :
    deferring [] p push = push [] := rfl

/-- Where nothing is substituted, nothing changes. -/
theorem substitute?_nil (p : Plan) : substitute? [] p = none := by
  have hfind : Substitution.find? [] = Assignment.empty := rfl
  have heach (es : List Expression) : Expression.substituteEach? Assignment.empty es = none :=
    Expression.substituteEach?_eq_none.mpr fun e _ => Expression.substitute?_empty e
  have hwithin (c : Option Expression) :
      Update.within (Expression.substitute? Assignment.empty) c = none := by
    cases c <;> simp [Update.within, Expression.substitute?_empty]
  have hcolumns (vs : List Variable) : boundColumns [] vs = [] := by
    simp [boundColumns, Substitution.find?]
  induction p using inductOperands with
  | triple t =>
    have hslot (x : Slot) : x.substitute? [] = none := by cases x <;> rfl
    simp [substitute?, deferring_nil, substituteTriple?, hslot, Update.both_eq_none]
  | identity => rfl
  | join ps ih | union ps ih =>
    simp [substitute?, deferring_nil, substituteEach?_eq_none.mpr ih]
  | leftJoin l r c hl hr =>
    simp [substitute?, deferring_nil, hfind, hl, hr, hwithin, Update.both_eq_none]
  | filter p cs ih =>
    simp [substitute?, deferring_nil, hfind, ih, heach, Update.both_eq_none]
  | project p vs ih => rfl
  | values p vs rows ih => simp [substitute?, deferring_nil, ih, hcolumns]
  | assign p v e ih =>
    simp [substitute?, deferring_nil, hfind, ih, Expression.substitute?_empty, Update.both_eq_none]
  | semijoin p q hp hq | antijoin p q hp hq =>
    simp [substitute?, deferring_nil, hp, hq, Update.both_eq_none]
  | minus l r b hl hr =>
    simp [substitute?, deferring_nil, Substitution.restrict, hl, hr, Update.both_eq_none]
  | distinct p ih | weakDistinct p ih | limit p n ih | offset p n ih | slice p n c ih | ask p ih =>
    simp [substitute?, deferring_nil, ih]

theorem boundColumns_eq_nil {vs : List Variable} :
    boundColumns s vs = [] ↔ ∀ v ∈ vs, s.find? v = none := by
  simp only [boundColumns, List.filterMap_eq_nil_iff, Option.map_eq_none_iff]
  constructor
  · intro h v hv
    obtain ⟨i, hi⟩ := List.mem_iff_getElem?.mp hv
    exact h (v, i) (List.mk_mem_zipIdx_iff_getElem?.mpr hi)
  · intro h e he
    exact h e.1 (List.mem_of_getElem? (List.mem_zipIdx_iff_getElem?.mp he))

/-- What becomes of a plan when the substitution `s` goes into its operands. The conditions of a
filter see all the terms of `all`. -/
def pushed (all s : Substitution) : Plan → Plan
  | .triple t => (substituteTriple? s t).getD (.triple t)
  | .identity => .identity
  | .join ps => .join (ps.map (substitute s))
  | .union ps => .union (ps.map (substitute s))
  | .leftJoin l r c =>
    .leftJoin (substitute s l) (substitute s r) (c.map (Expression.substitute s.find?))
  | .filter p cs => .filter (substitute s p) (cs.map (Expression.substitute all.find?))
  | .project p vs =>
    if (s.restrict vs).isEmpty then .project p vs
    else .project (substitute (s.restrict vs) p) ((s.restrict vs).remaining vs)
  | .distinct p => .distinct (substitute s p)
  | .weakDistinct p => .weakDistinct (substitute s p)
  | .limit p n => .limit (substitute s p) n
  | .offset p n => .offset (substitute s p) n
  | .slice p n c => .slice (substitute s p) n c
  | .ask p => .ask (substitute s p)
  | .values p vs rows =>
    if (boundColumns s vs).isEmpty && (substitute? s p).isNone then .values p vs rows
    else .values (substitute s p) (substituteTable s vs rows).1 (substituteTable s vs rows).2
  | .assign p v e => .assign (substitute s p) v (e.substitute s.find?)
  | .semijoin p q => .semijoin (substitute s p) (substitute s q)
  | .antijoin p q => .antijoin (substitute s p) (substitute s q)
  | .minus l r b =>
    let shared := (s.restrict l.vars).restrict r.vars
    .minus (substitute s l) (substitute shared r) (b || !shared.isEmpty)

/-- The part of a substitution that is checked on the rows of the plan. -/
def late (p : Plan) (s : Substitution) : Substitution := s.filter fun e => p.defers e.1

/-- The part of a substitution that goes into the operands of the plan. -/
def early (p : Plan) (s : Substitution) : Substitution := s.filter fun e => !p.defers e.1

theorem find?_late (p : Plan) (s : Substitution) (v : Variable) :
    (p.late s).find? v = if p.defers v then s.find? v else none :=
  Substitution.find?_filter (fun v => p.defers v) s v

theorem find?_early (p : Plan) (s : Substitution) (v : Variable) :
    (p.early s).find? v = if p.defers v then none else s.find? v := by
  unfold early
  rw [Substitution.find?_filter (fun v => !p.defers v)]
  cases p.defers v <;> rfl

theorem functional_late (p : Plan) (hs : s.Functional) : (p.late s).Functional := hs.filter _

theorem functional_early (p : Plan) (hs : s.Functional) : (p.early s).Functional := hs.filter _

theorem early_not_defers {t : Term} (h : (p.early s).find? v = some t) : p.defers v = false := by
  rw [find?_early] at h
  cases hd : p.defers v <;> simp_all

theorem early_eq_self (h : (p.late s).isEmpty) : p.early s = s := by
  unfold early
  rw [List.filter_eq_self]
  intro e he
  have hnil := List.filter_eq_nil_iff.mp (List.isEmpty_iff.mp h) e he
  simpa using hnil

theorem deferring_eq (s : Substitution) (p : Plan) (push : Substitution → Option Plan) :
    deferring s p push = if (p.late s).isEmpty then push s
      else some (checkAfter (p.late s) ((push (p.early s)).getD p)) :=
  rfl

theorem deferring_getD (push : Substitution → Option Plan)
    (hpush : ∀ s', (push s').getD p = p.pushed s s') :
    (deferring s p push).getD p =
      if (p.late s).isEmpty then p.pushed s (p.early s)
      else checkAfter (p.late s) (p.pushed s (p.early s)) := by
  rw [deferring_eq]
  by_cases h : (p.late s).isEmpty
  · rw [if_pos h, if_pos h, hpush, early_eq_self h]
  · rw [if_neg h, if_neg h, Option.getD_some, hpush]

/-- What is deferred is checked on the rows of the plan into which the rest is pushed. -/
theorem substitute_eq (s : Substitution) (p : Plan) :
    substitute s p =
      if (p.late s).isEmpty then p.pushed s (p.early s)
      else checkAfter (p.late s) (p.pushed s (p.early s)) := by
  have hdefer := deferring_getD (s := s) (p := p)
  cases p with
  | triple t => exact hdefer _ fun s' => rfl
  | identity =>
    have h : late identity s = [] := by simp [late, defers, maybeUnbound, vars]
    simp [h, substitute, substitute?, pushed]
  | join ps => exact hdefer _ fun s' => by rw [Option.getD_map, substituteEach?_getD]; rfl
  | union ps => exact hdefer _ fun s' => by rw [Option.getD_map, substituteEach?_getD]; rfl
  | leftJoin l r c =>
    apply hdefer _
    intro s'
    rw [Update.getD_map_both (fun x : Plan × Plan × Option Expression => leftJoin x.1 x.2.1 x.2.2),
      Update.getD_both]
    cases c with
    | none => rfl
    | some c => simp only [Update.within, pushed, Option.getD_map, Option.map_some]; rfl
  | filter p cs =>
    apply hdefer _
    intro s'
    rw [Update.getD_map_both (fun x : Plan × List Expression => filter x.1 x.2),
      Expression.substituteEach?_getD]
    rfl
  | project p vs =>
    apply hdefer _
    intro s'
    simp only [pushed]
    split <;> rfl
  | distinct p | weakDistinct p | ask p => exact hdefer _ fun s' => by rw [Option.getD_map]; rfl
  | limit p n => exact hdefer _ fun s' => by rw [Option.getD_map (limit · n)]; rfl
  | offset p n => exact hdefer _ fun s' => by rw [Option.getD_map (offset · n)]; rfl
  | slice p n c => exact hdefer _ fun s' => by rw [Option.getD_map (slice · n c)]; rfl
  | values p vs rows =>
    apply hdefer _
    intro s'
    simp only [pushed]
    split <;> rfl
  | assign p w e =>
    apply hdefer _
    intro s'
    rw [Update.getD_map_both (fun x : Plan × Expression => assign x.1 w x.2)]
    rfl
  | semijoin p q =>
    apply hdefer _
    intro s'
    rw [Update.getD_map_both (fun x : Plan × Plan => semijoin x.1 x.2)]
    rfl
  | antijoin p q =>
    apply hdefer _
    intro s'
    rw [Update.getD_map_both (fun x : Plan × Plan => antijoin x.1 x.2)]
    rfl
  | minus l r b =>
    apply hdefer _
    intro s'
    simp only
    rw [Update.getD_map_both (fun x : Plan × Plan × Bool => minus x.1 x.2.1 x.2.2),
      Update.getD_both]
    simp only [pushed, substitute]
    congr 1
    split
    · rename_i h
      exact h.symm
    · rfl

@[simp] theorem substitute_nil (p : Plan) : substitute [] p = p := by
  rw [substitute, substitute?_nil, Option.getD_none]

/-- The operands into which a substitution goes are specialised or stay as they are. A pattern may
become a table. -/
theorem mem_children_pushed {all : Substitution} {q' : Plan}
    (h : q' ∈ (p.pushed all s).children) :
    q' = .identity ∨ ∃ q ∈ p.children, ∃ s', q' = substitute s' q := by
  cases p with
  | triple t =>
    rw [pushed] at h
    rcases substituteTriple?_getD s t with ⟨_, _, _, _, _, ht⟩ | ht
    · rw [ht] at h
      exact .inl (List.mem_singleton.mp h)
    · rw [ht] at h
      cases h
  | identity => cases h
  | join ps | union ps =>
    obtain ⟨q, hq, rfl⟩ := List.mem_map.mp h
    exact .inr ⟨q, hq, s, rfl⟩
  | leftJoin l r c | semijoin l r | antijoin l r =>
    rcases List.mem_pair.mp h with rfl | rfl
    · exact .inr ⟨l, by simp [children], s, rfl⟩
    · exact .inr ⟨r, by simp [children], s, rfl⟩
  | minus l r b =>
    rcases List.mem_pair.mp h with rfl | rfl
    · exact .inr ⟨l, by simp [children], s, rfl⟩
    · exact .inr ⟨r, by simp [children], _, rfl⟩
  | filter p cs | distinct p | weakDistinct p | limit p n | offset p n | slice p n count
  | assign p v e | ask p =>
    exact .inr ⟨p, by simp [children], s, List.mem_singleton.mp h⟩
  | project p vs | values p vs rows =>
    rw [pushed] at h
    refine .inr ⟨p, by simp [children], ?_⟩
    split at h
    · exact ⟨[], by simpa using List.mem_singleton.mp h⟩
    · exact ⟨_, List.mem_singleton.mp h⟩

end Plan
end TripleAlgebra
