import TripleAlgebra.Proofs.BoundRows
import TripleAlgebra.Proofs.SupportedQueries

/-! Plans that are merged as they are composed have the rows of the plain operators. -/
namespace TripleAlgebra
open Assignment Store

namespace Variable
variable {vs ws us : List Variable}

theorem append_append (vs ws us : List Variable) :
    append (append vs ws) us = append vs (append ws us) := by
  induction us using List.reverseRecOn with
  | nil => rfl
  | append_singleton us v ih =>
    have hconcat (xs us : List Variable) : append xs (us ++ [v]) =
        if v ∈ append xs us then append xs us else append xs us ++ [v] :=
      List.foldl_append
    rw [hconcat, hconcat, ih]
    by_cases hv : v ∈ append ws us
    · rw [if_pos hv, if_pos (mem_append.mpr (.inr hv))]
    · rw [if_neg hv, hconcat]

theorem union_append (lists lists' : List (List Variable)) :
    union (lists ++ lists') = append (union lists) (union lists') := by
  induction lists' using List.reverseRecOn with
  | nil => rw [List.append_nil]; rfl
  | append_singleton lists' vs ih =>
    rw [← List.append_assoc, union_concat, union_concat, ih, append_append]

theorem prefix_append (hn : ws.Nodup) : vs <+: append vs ws := by
  rw [append_eq_filter hn]
  exact List.prefix_append _ _

end Variable

namespace Row
open Variable

/-- Rows with their columns in the order of another header, as alternatives have them. -/
def align (source target : List Variable) (rows : List Row) : List Row :=
  if isIdentity (columns source target) source.length then rows
  else rows.map (·.project (columns source target))

variable {vs ws us : List Variable}

theorem align_self (hn : vs.Nodup) (rows : List Row) : align vs vs rows = rows :=
  if_pos (isIdentity_self hn)

theorem align_of_ne (h : ws ≠ vs) (rows : List Row) :
    align vs ws rows = rows.map (·.project (columns vs ws)) :=
  if_neg fun hid => h (eq_of_isIdentity hid)

theorem align_append (vs ws : List Variable) (rs rs' : List Row) :
    align vs ws (rs ++ rs') = align vs ws rs ++ align vs ws rs' := by
  unfold align
  split <;> simp

/-- Columns that are selected in two steps, the first of which loses no variable. -/
theorem project_project (h : vs ⊆ ws) (us : List Variable) (r : Row) :
    (r.project (columns vs ws)).project (columns ws us) = r.project (columns vs us) := by
  have hvalue (v : Variable) :
      ((column? ws v).bind fun i => (r.project (columns vs ws)).value i) =
        (column? vs v).bind r.value := by
    cases hv : column? ws v with
    | none => simp [column?_eq_none.mpr fun hm => column?_eq_none.mp hv (h hm)]
    | some i => simp [project, columns, value, getElem?_of_column? hv]
  simp only [project, columns, List.map_map, List.map_inj_left] at hvalue ⊢
  exact fun v _ => hvalue v

/-- Alternatives that are aligned with a first header and then with one that extends it. -/
theorem align_align (hn : vs.Nodup) (hw : ws.Nodup) (h : vs ⊆ ws) (hp : ws <+: us)
    (rows : List Row) : align ws us (align vs ws rows) = align vs us rows := by
  by_cases hwu : us = ws
  · subst hwu
    exact align_self hw _
  have huv : us ≠ vs := by
    rintro rfl
    exact hwu (hp.eq_of_length_le (hn.subperm h).length_le).symm
  by_cases hvw : ws = vs
  · subst hvw
    rw [align_self hn]
  rw [align_of_ne hwu, align_of_ne hvw, align_of_ne huv, List.map_map]
  exact List.map_congr_left fun r _ => project_project h us r

end Row

namespace Plan
variable {c : Context} {stored : Pattern → List Row} {p q : Plan}

/-- The same columns and the same rows in the same order. -/
structure SameRows (c : Context) (p q : Plan) : Prop where
  vars : p.vars = q.vars
  rows : p.collect c = q.collect c

/-- The same columns and each row as often. -/
structure SameBag (c : Context) (p q : Plan) : Prop where
  vars : p.vars = q.vars
  rows : ∃ rs rs', p.collect c = .ok rs ∧ q.collect c = .ok rs' ∧ rs.Perm rs'

theorem SameRows.trans {r : Plan} (h : SameRows c p q) (h' : SameRows c q r) : SameRows c p r :=
  ⟨h.vars.trans h'.vars, h.rows.trans h'.rows⟩

theorem SameRows.rows_eq (h : SameRows c p q) : p.rows c = q.rows c := by
  rw [Plan.rows, h.rows, Plan.rows]

section
variable (hc : c.Reliable stored)
include hc

theorem SameRows.of_rows (hv : p.vars = q.vars) (hr : p.rows c = q.rows c) : SameRows c p q where
  vars := hv
  rows := by rw [collect_eq_rows hc, collect_eq_rows hc, hr]

theorem rows_union (ps : List Plan) :
    (union ps).rows c = ps.flatMap fun q => Row.align q.vars (union ps).vars (q.rows c) :=
  (answers_union hc fun q _ => answers_rows hc q).rows_eq hc

/-- Alternatives that are aligned with the header of a union and then with one that extends it. -/
theorem align_rows_union (ps : List Plan) {header : List Variable}
    (h : (union ps).vars <+: header) :
    Row.align (union ps).vars header ((union ps).rows c) =
      ps.flatMap fun q => Row.align q.vars header (q.rows c) := by
  rw [rows_union hc]
  have hsub : ∀ a ∈ ps, a.vars ⊆ (union ps).vars := fun a ha v hv => mem_vars_union.mpr ⟨a, ha, hv⟩
  have hn := (union ps).nodup_vars
  generalize (union ps).vars = inner at h hsub hn
  induction ps with
  | nil => simp [Row.align]
  | cons a ps ih =>
    rw [List.flatMap_cons, List.flatMap_cons, Row.align_append,
      Row.align_align a.nodup_vars hn (hsub a (by simp)) h, ih fun b hb => hsub b (by simp [hb])]

theorem sameRows_union (ps : List Plan) (q : Plan) :
    SameRows c (union (ps ++ [q])) (union [union ps, q]) := by
  have hpair : (union [union ps, q]).vars = Variable.append (union ps).vars q.vars := by
    rw [vars_union, List.map_cons, List.map_singleton, Variable.union_pair (nodup_vars _)]
  have hvars : (union (ps ++ [q])).vars = (union [union ps, q]).vars := by
    rw [hpair, vars_union, vars_union, List.map_append, List.map_singleton, Variable.union_concat]
  refine .of_rows hc hvars ?_
  have hprefix : (union ps).vars <+: (union [union ps, q]).vars :=
    hpair ▸ Variable.prefix_append q.nodup_vars
  rw [rows_union hc (ps ++ [q]), rows_union hc [union ps, q], hvars, List.flatMap_append,
    List.flatMap_cons, List.flatMap_cons, List.flatMap_cons, align_rows_union hc ps hprefix]

theorem sameRows_unionWith (p q : Plan) : SameRows c (p.unionWith q) (union [p, q]) := by
  cases p with
  | union ps => exact sameRows_union hc ps q
  | _ => exact ⟨rfl, rfl⟩

theorem sameRows_filterBy (p : Plan) (e : Expression) :
    SameRows c (p.filterBy e) (filter p [e]) := by
  cases p with
  | filter p es =>
    refine .of_rows hc rfl ?_
    simp [filterBy, rows_filter hc, List.filter_filter, vars, Bool.and_comm]
  | _ => exact ⟨rfl, rfl⟩

/-- Conditions that are added one by one. -/
theorem sameRows_filterAll (p : Plan) (es : List Expression) :
    SameRows c (es.foldl filterBy p) (filter p es) := by
  induction es generalizing p with
  | nil => exact .of_rows hc rfl (by simp [rows_filter hc])
  | cons e es ih =>
    have hone := sameRows_filterBy hc p e
    have hrows := hone.rows_eq
    refine (ih (p.filterBy e)).trans (.of_rows hc hone.vars ?_)
    rw [rows_filter hc, rows_filter hc, hrows, hone.vars, rows_filter hc, List.filter_filter]
    simp [vars, Bool.and_comm]

theorem sameRows_sliceTo (p : Plan) (start : Nat) (count : Option Nat) :
    SameRows c (p.sliceTo start count) (slice p start count) := by
  have hslice := ((answers_rows hc p).slice hc start count).rows_eq hc
  match start, count with
  | 0, none => exact .of_rows hc rfl hslice.symm
  | 0, some n =>
    have hlimit := ((answers_rows hc p).limit hc n).rows_eq hc
    exact .of_rows hc rfl (hlimit.trans hslice.symm)
  | start + 1, none =>
    have hoffset := ((answers_rows hc p).offset hc (start + 1)).rows_eq hc
    exact .of_rows hc rfl (hoffset.trans hslice.symm)
  | start + 1, some n => exact ⟨rfl, rfl⟩

end

/-! Joins. -/

theorem vars_joinOperands (p : Plan) : Variable.union (p.joinOperands.map vars) = p.vars := by
  cases p with
  | join ps => exact (vars_join ps).symm
  | identity => rfl
  | _ => exact Variable.union_singleton (nodup_vars _)

theorem meaning_joinOperands (ts : List Triple) (p : Plan) :
    Bag.joinAll (p.joinOperands.map (meaning ts)) = p.meaning ts := by
  cases p with
  | join ps => exact (meaning_join ps).symm
  | identity => rfl
  | _ => exact Bag.identity_join _

theorem vars_joinWith (p q : Plan) : (p.joinWith q).vars = (join [p, q]).vars := by
  rw [joinWith, vars_join, vars_join, List.map_append, Variable.union_append, vars_joinOperands,
    vars_joinOperands, List.map_cons, List.map_singleton, Variable.union_pair p.nodup_vars]

theorem meaning_joinWith (ts : List Triple) (p q : Plan) :
    (p.joinWith q).meaning ts = (join [p, q]).meaning ts := by
  have hsplit (Ss Ts : List Bag) :
      Bag.joinAll (Ss ++ Ts) = Bag.join (Bag.joinAll Ss) (Bag.joinAll Ts) := by
    rw [Bag.joinAll, List.foldl_append, Bag.foldl_join]
    rfl
  have hpair : (join [p, q]).meaning ts = Bag.join (p.meaning ts) (q.meaning ts) := by
    rw [meaning_join, List.map_cons, List.map_singleton, Bag.joinAll, List.foldl_cons,
      List.foldl_cons, List.foldl_nil, Bag.identity_join]
  rw [joinWith, meaning_join, List.map_append, hsplit, meaning_joinOperands, meaning_joinOperands,
    hpair]

theorem BindSafe.joinOperands {rule : DuplicateRule} (h : BindSafe rule p) :
    ∀ q ∈ p.joinOperands, BindSafe rule q := by
  cases h with
  | join h => exact h
  | identity => simp [Plan.joinOperands]
  | _ => exact List.forall_mem_singleton.mpr (by constructor <;> assumption)

theorem BindSafe.joinWith {rule : DuplicateRule} (hp : BindSafe rule p) (hq : BindSafe rule q) :
    BindSafe rule (p.joinWith q) :=
  .join fun a ha => (List.mem_append.mp ha).elim (hp.joinOperands a) (hq.joinOperands a)

/-- Plans with one meaning have the same rows, but for their order. -/
theorem SameBag.of_meaning {ts : List Triple} (hc : c.Holds ts stored)
    (hp : BindSafe c.config.distinct p) (hq : BindSafe c.config.distinct q) (hv : p.vars = q.vars)
    (hm : p.meaning ts = q.meaning ts) : SameBag c p q := by
  have hp := hp.safe (E := fun _ => True)
  have hq := hq.safe (E := fun _ => True)
  have hrows := collect_eq_rows hc.toReliable
  refine ⟨hv, _, _, hrows p, hrows q, Row.perm_of_assignments p.nodup_vars
    (fun r hr => length_of_mem_rows hc.toReliable hc.width hp.tidy hr)
    (fun r hr => hv ▸ length_of_mem_rows hc.toReliable hc.width hq.tidy hr) ?_⟩
  have hsolutions : p.solutions c = q.solutions c := by
    rw [solutions_eq_meaning hc hp, solutions_eq_meaning hc hq, hm]
  exact hsolutions.trans (by rw [solutions, hv])

end Plan

/-! Conditions that are taken apart. -/

namespace Lowering
variable {α β γ δ : Type}

/-- Two lowerings fail with the same problem or succeed with results that are related. -/
def Agree (R : α → β → Prop) (m : Lowering α) (m' : Lowering β) : Prop :=
  ∀ ls, (∃ e, m ls = .error e ∧ m' ls = .error e) ∨
    ∃ a b ls', m ls = .ok (a, ls') ∧ m' ls = .ok (b, ls') ∧ R a b

namespace Agree
variable {R : α → β → Prop} {S : γ → δ → Prop}

theorem pure {a : α} {b : β} (h : R a b) : Agree R (Pure.pure a) (Pure.pure b) :=
  fun ls => .inr ⟨a, b, ls, rfl, rfl, h⟩

theorem same (m : Lowering α) : Agree Eq m m := by
  intro ls
  cases h : m ls with
  | error e => exact .inl ⟨e, rfl, rfl⟩
  | ok r => exact .inr ⟨r.1, r.1, r.2, rfl, rfl, rfl⟩

theorem bind {m : Lowering α} {m' : Lowering β} {f : α → Lowering γ} {f' : β → Lowering δ}
    (hm : Agree R m m') (hf : ∀ a b, R a b → Agree S (f a) (f' b)) :
    Agree S (m >>= f) (m' >>= f') := by
  intro ls
  rcases hm ls with ⟨e, h, h'⟩ | ⟨a, b, ls', h, h', hab⟩
  · exact .inl ⟨e, by simp [Bind.bind, StateT.bind, Except.bind, h],
      by simp [Bind.bind, StateT.bind, Except.bind, h']⟩
  · have hstep : (m >>= f) ls = f a ls' := by
      simp [Bind.bind, StateT.bind, Except.bind, h]
    have hstep' : (m' >>= f') ls = f' b ls' := by
      simp [Bind.bind, StateT.bind, Except.bind, h']
    rw [hstep, hstep']
    exact hf a b hab ls'

end Agree

end Lowering

/-- Demands on a row that together are the demand of one expression. -/
def Conjunct.Splits (cs : List Conjunct) (e : Expression) : Prop :=
  ∃ es : List Expression, cs = es.map .holds ∧ ∀ μ, es.all (·.holds μ) = e.holds μ

/-- A conjunction holds if both operands do, also where one of them fails. -/
theorem Expression.holds_and (μ : Assignment) (l r : Expression) :
    (binary .and l r).holds μ = (l.holds μ && r.holds μ) := by
  have htruth : (binary .and l r).truth μ = Kleene.and (l.truth μ) (r.truth μ) := by
    rw [truth, eval_binary, applyBinary, termTruth_map_boolean]
    rfl
  simp only [holds, htruth]
  rcases l.truth μ with _ | _ | _ <;> rcases r.truth μ with _ | _ | _ <;> rfl

namespace Condition

/-- A condition that asks for no pattern and is no conjunction is its own only part. -/
theorem readings_eq_atom {k : Condition} (h : k.existsFree) (hk : ∀ l r, k ≠ .binary .and l r) :
    k.readings = .atom k.readings.expression := by
  cases k with
  | unary op e =>
    cases op with
    | not =>
      cases e with
      | «exists» p => simp [existsFree, GraphPattern.survey_ne_nil] at h
      | _ => rfl
    | _ => rfl
  | binary op l r =>
    cases op with
    | and => exact absurd rfl (hk l r)
    | _ => rfl
  | «exists» p => simp [existsFree, GraphPattern.survey_ne_nil] at h
  | _ => rfl

/-- A condition that asks for no pattern is its conjuncts. -/
theorem agree_conjuncts (k : Condition) (h : k.existsFree) :
    Lowering.Agree Conjunct.Splits k.readings.conjuncts k.readings.expression := by
  fun_induction conjuncts k with
  | case1 l r ihl ihr =>
    obtain ⟨hl, hr⟩ : l.existsFree ∧ r.existsFree := by
      simpa [existsFree] using h
    refine (ihl hl).bind fun ls a ⟨es, hes, ha⟩ => (ihr hr).bind fun rs b ⟨fs, hfs, hb⟩ => .pure ?_
    refine ⟨es ++ fs, by simp [hes, hfs], fun μ => ?_⟩
    rw [List.all_append, ha, hb, Expression.holds_and]
  | case2 k hk =>
    rw [readings_eq_atom h hk]
    have hone : Lowering.Agree Conjunct.Splits
        (k.readings.expression >>= fun e => pure [Conjunct.holds e])
        (k.readings.expression >>= pure) :=
      (Lowering.Agree.same _).bind fun e f he => .pure ⟨[e], rfl, fun μ => by simp [he]⟩
    rwa [bind_pure] at hone

end Condition

namespace GraphPattern
variable {c : Context} {stored : Pattern → List Row}

/-- The plan of a filter whose condition is not taken apart. -/
def lowerFiltered (k : Condition) (g : GraphPattern) : Lowering Plan := do
  let p ← g.lower
  let e ← k.readings.expression
  return .filter p [e]

theorem sameRows_restrict (hc : c.Reliable stored) (p : Plan) {cs : List Conjunct}
    {e : Expression} (h : Conjunct.Splits cs e) :
    Plan.SameRows c (Conjunct.restrict p cs) (.filter p [e]) := by
  obtain ⟨es, rfl, hes⟩ := h
  have hrestrict : Conjunct.restrict p (es.map .holds) = es.foldl Plan.filterBy p := by
    have hkeep (q : Plan) : (es.map .holds).foldl Conjunct.correlate q = q := by
      rw [List.foldl_map]
      exact List.foldl_fixed' (fun _ => rfl) es
    rw [Conjunct.restrict, hkeep, List.foldl_map]
    rfl
  rw [hrestrict]
  refine (Plan.sameRows_filterAll hc p es).trans (.of_rows hc rfl ?_)
  simp [Plan.rows_filter hc, hes]

theorem agree_lower_filter (hc : c.Reliable stored) (k : Condition) (h : k.existsFree)
    (g : GraphPattern) :
    Lowering.Agree (Plan.SameRows c) (filter k g).lower (lowerFiltered k g) :=
  (Lowering.Agree.same g.lower).bind fun p _ hp => hp ▸
    (k.agree_conjuncts h).bind fun _ _ he => .pure (sameRows_restrict hc p he)

end GraphPattern

namespace Plan

/-- Merging plans as they are composed changes no row and no order. Only a join of joins, whose
operands are bound one by one, may give its rows in another order. -/
theorem composition_keeps_rows (s : Contents) (config : Config) (p q : Plan) (e : Expression)
    (start : Nat) (count : Option Nat) (k : Condition) (g : GraphPattern) :
    let c := s.context config
    SameRows c (p.unionWith q) (.union [p, q]) ∧
      SameRows c (p.filterBy e) (.filter p [e]) ∧
      SameRows c (p.sliceTo start count) (.slice p start count) ∧
      (k.existsFree →
        Lowering.Agree (SameRows c) (GraphPattern.filter k g).lower (g.lowerFiltered k)) ∧
      (p.BindSafe config.distinct → q.BindSafe config.distinct →
        SameBag c (p.joinWith q) (.join [p, q])) := by
  intro c
  have hc := s.holds config
  refine ⟨sameRows_unionWith hc.toReliable p q, sameRows_filterBy hc.toReliable p e,
    sameRows_sliceTo hc.toReliable p start count,
    fun hk => GraphPattern.agree_lower_filter hc.toReliable k hk g, fun hp hq => ?_⟩
  exact .of_meaning hc (hp.joinWith hq)
    (.join (List.forall_mem_cons.mpr ⟨hp, List.forall_mem_singleton.mpr hq⟩))
    (vars_joinWith p q) (meaning_joinWith _ p q)

/-- A join that takes over the operands of another one, and a condition with a part that fails. -/
theorem composition_keeps_rows_of_path :
    let p := join [edge (.var ⟨"x"⟩) (.var ⟨"y"⟩), edge (.var ⟨"y"⟩) (.var ⟨"z"⟩)]
    let q := edge (.var ⟨"z"⟩) (.var ⟨"u"⟩)
    let k := Condition.binary .and (.bound ⟨"x"⟩) (.binary .and (.var ⟨"v"⟩) (.bound ⟨"y"⟩))
    let g := GraphPattern.triples [⟨.var ⟨"x"⟩, .var ⟨"v"⟩, .var ⟨"y"⟩⟩]
    k.existsFree ∧ p.BindSafe .all ∧ q.BindSafe .all ∧
      Lowering.Agree (SameRows (Contents.path.context {}))
        (GraphPattern.filter k g).lower (g.lowerFiltered k) ∧
      SameBag (Contents.path.context {}) (p.joinWith q) (.join [p, q]) := by
  intro p q k g
  have hk : k.existsFree := by decide
  have hp : p.BindSafe .all := .join <|
    List.forall_mem_cons.mpr ⟨.triple _, List.forall_mem_singleton.mpr (.triple _)⟩
  have hq : q.BindSafe .all := .triple _
  obtain ⟨-, -, -, hfilter, hjoin⟩ :=
    composition_keeps_rows Contents.path {} p q (.bound ⟨"x"⟩) 0 none k g
  exact ⟨hk, hp, hq, hfilter hk, hjoin hp hq⟩

end Plan

end TripleAlgebra
