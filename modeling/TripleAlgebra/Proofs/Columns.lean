import TripleAlgebra.Join.Step
import TripleAlgebra.Proofs.Assignment
import Mathlib.Data.List.Basic

/-! Rows as assignments: what an operation on columns means for the variables of a header. -/
namespace TripleAlgebra

namespace Variable

@[simp] theorem column?_nil (v : Variable) : column? [] v = none := rfl

theorem column?_cons (w v : Variable) (vs : List Variable) :
    column? (w :: vs) v = if w = v then some 0 else (column? vs v).map (· + 1) := by
  simp [column?, List.idxOf?_cons]

@[simp] theorem column?_eq_none {vs : List Variable} {v : Variable} :
    column? vs v = none ↔ v ∉ vs := List.idxOf?_eq_none_iff

theorem column?_isSome {vs : List Variable} {v : Variable} :
    (column? vs v).isSome ↔ v ∈ vs := List.isSome_idxOf?

theorem getElem?_of_column? {vs : List Variable} {v : Variable} {i : Nat}
    (h : column? vs v = some i) : vs[i]? = some v := by
  induction vs generalizing i with
  | nil => cases h
  | cons w vs ih =>
    rw [column?_cons] at h
    split at h
    · rename_i hw
      cases h
      simp [hw]
    · obtain ⟨j, hj, rfl⟩ := Option.map_eq_some_iff.mp h
      simpa using ih hj

theorem column?_lt {vs : List Variable} {v : Variable} {i : Nat} (h : column? vs v = some i) :
    i < vs.length := (List.getElem?_eq_some_iff.mp (getElem?_of_column? h)).1

/-- In a header without repetitions, a variable stands in one column only. -/
theorem column?_of_getElem? {vs : List Variable} (hn : vs.Nodup) {v : Variable} {i : Nat}
    (h : vs[i]? = some v) : column? vs v = some i := by
  induction vs generalizing i with
  | nil => simp at h
  | cons w vs ih =>
    obtain ⟨hw, hvs⟩ := List.nodup_cons.mp hn
    rw [column?_cons]
    cases i with
    | zero => simp_all
    | succ i =>
      have hv : vs[i]? = some v := by simpa using h
      have hne : w ≠ v := by
        rintro rfl
        exact hw (List.mem_of_getElem? hv)
      rw [if_neg hne, ih hvs hv]
      rfl

/-- If all columns are in place, the headers are the same. -/
theorem eq_of_isIdentity {vs ws : List Variable} (h : isIdentity (columns vs ws) vs.length) :
    ws = vs := by
  have hc : columns vs ws = (List.range vs.length).map some := by simpa [isIdentity] using h
  have hlen : ws.length = vs.length := by simpa [columns] using congrArg List.length hc
  apply List.ext_getElem? fun i => ?_
  by_cases hi : i < vs.length
  · have hw : (columns vs ws)[i]? = some (some i) := by
      rw [hc, List.getElem?_map, List.getElem?_range hi]
      rfl
    rw [columns, List.getElem?_map, Option.map_eq_some_iff] at hw
    obtain ⟨w, hw, hi⟩ := hw
    rw [hw, getElem?_of_column? hi]
  · rw [List.getElem?_eq_none (by omega), List.getElem?_eq_none (by omega)]

theorem isIdentity_self {vs : List Variable} (hn : vs.Nodup) :
    isIdentity (columns vs vs) vs.length := by
  have hcolumns : columns vs vs = (List.range vs.length).map some := by
    apply List.ext_getElem (by simp [columns])
    intro i hi hi'
    have hi : i < vs.length := by simpa [columns] using hi
    simpa [columns] using column?_of_getElem? hn (List.getElem?_eq_getElem hi)
  simpa [isIdentity] using hcolumns

theorem append_eq_of_disjoint {vs ws : List Variable} (hn : ws.Nodup) (hd : ∀ w ∈ ws, w ∉ vs) :
    append vs ws = vs ++ ws := by
  unfold append
  induction ws generalizing vs with
  | nil => simp
  | cons w ws ih =>
    obtain ⟨hw, hws⟩ := List.nodup_cons.mp hn
    rw [List.foldl_cons, if_neg (hd w (by simp)), ih hws, List.append_assoc, List.singleton_append]
    intro u hu
    rw [List.mem_append, List.mem_singleton]
    rintro (h | rfl)
    · exact hd u (by simp [hu]) h
    · exact hw hu

/-- Appending adds the variables that are not there. -/
theorem append_eq_filter {vs ws : List Variable} (hn : ws.Nodup) :
    append vs ws = vs ++ ws.filter fun v => (column? vs v).isNone := by
  unfold append
  induction ws generalizing vs with
  | nil => simp
  | cons w ws ih =>
    obtain ⟨hw, hws⟩ := List.nodup_cons.mp hn
    rw [List.foldl_cons, List.filter_cons]
    by_cases h : w ∈ vs
    · rw [if_pos h, ih hws, if_neg]
      simpa using h
    · have hf : ws.filter (fun v => (column? (vs ++ [w]) v).isNone) =
          ws.filter fun v => (column? vs v).isNone := by
        apply List.filter_congr
        intro u hu
        have hne : u ≠ w := by
          rintro rfl
          exact hw hu
        rw [Bool.eq_iff_iff, Option.isNone_iff_eq_none, Option.isNone_iff_eq_none]
        simp [hne]
      rw [if_neg h, ih hws, hf, if_pos, List.append_assoc, List.singleton_append]
      simpa using h

theorem union_pair {vs ws : List Variable} (hv : vs.Nodup) : union [vs, ws] = append vs ws := by
  show append (append [] vs) ws = append vs ws
  rw [append_eq_of_disjoint hv (by simp), List.nil_append]

theorem union_singleton {vs : List Variable} (hv : vs.Nodup) : union [vs] = vs := by
  show append [] vs = vs
  rw [append_eq_of_disjoint hv (by simp), List.nil_append]

/-- The variables of a list extended by fresh ones. -/
theorem union_fresh {vs ws : List Variable} (hv : vs.Nodup) (hw : ws.Nodup)
    (hd : ∀ w ∈ ws, w ∉ vs) : union [vs, ws] = vs ++ ws := by
  rw [union_pair hv, append_eq_of_disjoint hw hd]

theorem union_concat (lists : List (List Variable)) (vs : List Variable) :
    union (lists ++ [vs]) = append (union lists) vs := by
  simp [union, List.foldl_append]

end Variable

namespace Row
open Variable Assignment

@[simp] theorem assignment_nil_header (r : Row) : r.assignment [] = Assignment.empty := rfl

@[simp] theorem value_cons_zero (x : Option Term) (r : Row) : value (x :: r) 0 = x := by
  simp [value]

@[simp] theorem value_cons_succ (x : Option Term) (r : Row) (i : Nat) :
    value (x :: r) (i + 1) = value r i := by
  simp [value]

theorem assignment_cons (v : Variable) (vs : List Variable) (x : Option Term) (r : Row)
    (w : Variable) :
    Row.assignment (v :: vs) (x :: r) w = if v = w then x else r.assignment vs w := by
  unfold assignment
  rw [column?_cons]
  split
  · simp
  · cases column? vs w <;> simp

theorem assignment_apply {vs : List Variable} {v : Variable} {i : Nat} (h : column? vs v = some i)
    (r : Row) : r.assignment vs v = r.value i := by
  simp [assignment, h]

theorem within_assignment (vs : List Variable) (r : Row) : Within vs (r.assignment vs) := by
  intro v hv
  simp [assignment, column?_eq_none.mpr hv]

@[simp] theorem assignment_unbound (vs : List Variable) (n : Nat) :
    (unbound n).assignment vs = Assignment.empty := by
  funext v
  cases h : column? vs v <;> simp [assignment, h, Assignment.empty]

theorem assignment_append {vs ws : List Variable} {r r' : Row} (h : r.length = vs.length) :
    (r ++ r').assignment (vs ++ ws) =
      fun v => if v ∈ vs then r.assignment vs v else r'.assignment ws v := by
  induction vs generalizing r with
  | nil =>
    have hr : r = [] := by simpa using h
    subst hr
    funext v
    simp
  | cons w vs ih =>
    cases r with
    | nil => simp at h
    | cons x r =>
      funext v
      rw [List.cons_append, List.cons_append, assignment_cons, ih (by simpa using h),
        assignment_cons]
      by_cases hw : w = v
      · simp [hw]
      · simp [hw, Ne.symm hw]

/-- The columns of some variables hold what the row gives to these variables. -/
theorem assignment_project (r : Row) (vs ws : List Variable) :
    (r.project (columns vs ws)).assignment ws = restrict ws (r.assignment vs) := by
  induction ws with
  | nil => rfl
  | cons w ws ih =>
    funext v
    have hc : r.project (columns vs (w :: ws)) =
        (column? vs w).bind r.value :: r.project (columns vs ws) := rfl
    rw [hc, assignment_cons, ih]
    by_cases hw : w = v
    · simp [restrict, hw, assignment]
    · simp [restrict, hw, Ne.symm hw]

/-- Rows of one header without repetitions differ in what they give to some variable. -/
theorem assignment_injective {vs : List Variable} (hn : vs.Nodup) {r r' : Row}
    (h : r.length = vs.length) (h' : r'.length = vs.length)
    (he : r.assignment vs = r'.assignment vs) : r = r' := by
  induction vs generalizing r r' with
  | nil =>
    rw [List.length_eq_zero_iff.mp h, List.length_eq_zero_iff.mp h']
  | cons v vs ih =>
    obtain ⟨hv, hvs⟩ := List.nodup_cons.mp hn
    match r, r', h, h' with
    | x :: r, y :: r', h, h' =>
      have hhead : x = y := by simpa [assignment_cons] using congrFun he v
      have htail : Row.assignment vs r = Row.assignment vs r' := by
        funext w
        by_cases hw : v = w
        · subst hw
          rw [within_assignment vs r v hv, within_assignment vs r' v hv]
        · simpa [assignment_cons, hw] using congrFun he w
      rw [hhead, ih hvs (by simpa using h) (by simpa using h') htail]

/-- A row of the header with what an assignment binds. -/
def ofAssignment (vs : List Variable) (μ : Assignment) : Row := vs.map μ

@[simp] theorem length_ofAssignment (vs : List Variable) (μ : Assignment) :
    (ofAssignment vs μ).length = vs.length := by simp [ofAssignment]

theorem assignment_ofAssignment {vs : List Variable} (μ : Assignment) :
    (ofAssignment vs μ).assignment vs = restrict vs μ := by
  induction vs with
  | nil => rfl
  | cons v vs ih =>
    funext w
    have ih := congrFun ih w
    simp only [ofAssignment] at ih
    simp only [ofAssignment, List.map_cons, assignment_cons, ih]
    by_cases hw : v = w
    · simp [restrict, hw]
    · simp [restrict, hw, Ne.symm hw]

theorem ofAssignment_assignment {vs : List Variable} (hn : vs.Nodup) {r : Row}
    (h : r.length = vs.length) : ofAssignment vs (r.assignment vs) = r := by
  apply assignment_injective hn (by simp) h
  rw [assignment_ofAssignment, (within_assignment vs r).restrict_eq]

theorem value_set {r : Row} {i : Nat} (h : i < r.length) (x : Option Term) (j : Nat) :
    Row.value (r.set i x) j = if i = j then x else r.value j := by
  unfold value
  rw [List.getElem?_set]
  split
  · simp
  · rfl

/-- Setting the column of a variable gives the value to this variable only. -/
theorem assignment_set {vs : List Variable} {v : Variable} {i : Nat} (hc : column? vs v = some i)
    {r : Row} (h : r.length = vs.length) (x : Option Term) :
    Row.assignment vs (r.set i x) = fun w => if w = v then x else r.assignment vs w := by
  have hlt : i < r.length := h ▸ column?_lt hc
  funext w
  by_cases hw : w = v
  · subst hw
    simp [assignment, hc, value_set hlt]
  · rw [if_neg hw]
    unfold assignment
    cases hj : column? vs w with
    | none => rfl
    | some j =>
      have hne : i ≠ j := by
        rintro rfl
        have hv := (getElem?_of_column? hj).symm.trans (getElem?_of_column? hc)
        exact hw (Option.some.inj hv)
      simp [value_set hlt, hne]

end Row

namespace Layout
open Variable Assignment

/-- One step of completing a row. -/
def fillColumn (row : Row) (r : Row) (c : Nat × Nat) : Row :=
  if (row.value c.2).isSome then r.set c.1 (row.value c.2) else r

theorem combine_eq (l : Layout) (outer row : Row) :
    l.combine outer row = l.fill.foldl (fillColumn row) outer ++ row.project l.append := rfl

theorem length_foldl_fillColumn (row : Row) (cs : List (Nat × Nat)) (outer : Row) :
    (cs.foldl (fillColumn row) outer).length = outer.length := by
  induction cs generalizing outer with
  | nil => rfl
  | cons c cs ih =>
    rw [List.foldl_cons, ih]
    unfold fillColumn
    split <;> simp

@[simp] theorem length_combine (l : Layout) (outer row : Row) :
    (l.combine outer row).length = outer.length + l.append.length := by
  simp [combine_eq, length_foldl_fillColumn]

/-- The columns that are completed: those of shared variables that the row leaves unbound. -/
def fillOf (header inner vs : List Variable) (outer : Row) : List (Nat × Nat) :=
  ((located header vs).filter fun (_, i) => (outer.value i).isNone).filterMap
    fun (v, i) => (column? inner v).map (i, ·)

theorem fillOf_cons (header inner : List Variable) (v : Variable) (vs : List Variable)
    (outer : Row) :
    fillOf header inner (v :: vs) outer =
      (match column? header v, column? inner v with
        | some i, some c => if (outer.value i).isNone then [(i, c)] else []
        | _, _ => []) ++ fillOf header inner vs outer := by
  unfold fillOf located
  cases hi : column? header v with
  | none => simp [hi]
  | some i =>
    cases hc : column? inner v <;> cases ho : outer.value i <;>
      simp [hi, hc, ho]

theorem assignment_fillColumn {header inner : List Variable} {v : Variable} {i c : Nat}
    (hi : column? header v = some i) (hc : column? inner v = some c) (row : Row) {r : Row}
    (h : r.length = header.length) :
    Row.assignment header (fillColumn row r (i, c)) = fun w =>
      if w = v ∧ (row.assignment inner w).isSome then row.assignment inner w
      else r.assignment header w := by
  have hv : row.assignment inner v = row.value c := Row.assignment_apply hc row
  unfold fillColumn
  by_cases hs : (row.value c).isSome
  · simp only [hs, if_true]
    rw [Row.assignment_set hi h]
    funext w
    by_cases hw : w = v
    · subst hw
      simp [hv, hs]
    · simp [hw]
  · simp only [hs]
    funext w
    by_cases hw : w = v
    · subst hw
      simp [hv, hs]
    · simp [hw]

/-- Completing a row binds the shared variables that it leaves unbound and the other row binds. -/
theorem assignment_fill {header inner vs : List Variable} {outer row r : Row}
    (h : r.length = header.length) :
    Row.assignment header ((fillOf header inner vs outer).foldl (fillColumn row) r) = fun w =>
      if w ∈ vs ∧ w ∈ header ∧ outer.assignment header w = none ∧
        (row.assignment inner w).isSome then row.assignment inner w
      else r.assignment header w := by
  induction vs generalizing r with
  | nil =>
    funext w
    simp [fillOf, located]
  | cons v vs ih =>
    rw [fillOf_cons, List.foldl_append]
    cases hi : column? header v with
    | none =>
      have hv := column?_eq_none.mp hi
      simp only [List.foldl_nil, ih h]
      funext w
      by_cases hw : w = v
      · subst hw
        simp [hv]
      · simp [hw]
    | some i =>
      have hv : v ∈ header := column?_isSome.mp (by simp [hi])
      cases hc : column? inner v with
      | none =>
        have hn : row.assignment inner v = none :=
          Row.within_assignment inner row v (column?_eq_none.mp hc)
        simp only [List.foldl_nil, ih h]
        funext w
        by_cases hw : w = v
        · subst hw
          simp [hn]
        · simp [hw]
      | some c =>
        have ho : outer.assignment header v = outer.value i := Row.assignment_apply hi outer
        by_cases hu : (outer.value i).isNone
        · simp only [hu, if_true, List.foldl_cons, List.foldl_nil]
          have hlen : (fillColumn row r (i, c)).length = header.length := by
            rw [← h]
            exact length_foldl_fillColumn row [(i, c)] r
          rw [ih hlen, assignment_fillColumn hi hc row h]
          funext w
          by_cases hw : w = v
          · subst hw
            simp_all
          · simp [hw]
        · have hskip : (if (outer.value i).isNone then [(i, c)] else []) = [] := if_neg hu
          simp only [hskip, List.foldl_nil, ih h]
          funext w
          by_cases hw : w = v
          · subst hw
            simp_all
          · simp [hw]

theorem length_head (vs : List Variable) (r : Row) :
    ((ofHead vs vs).combine [] r).length = vs.length := by
  simp [ofHead, columns]

/-- The first operand of a chain keeps its rows. -/
theorem assignment_head (vs : List Variable) (r : Row) :
    ((ofHead vs vs).combine [] r).assignment vs = r.assignment vs := by
  show (r.project (columns vs vs)).assignment vs = r.assignment vs
  rw [Row.assignment_project, (Row.within_assignment vs r).restrict_eq]

end Layout

namespace JoinStep
open Variable Assignment
variable {limit : Nat}

/-- A combined row binds what the row binds, and beside it what the other row binds among the
variables of the operand. -/
theorem assignment_combine_restrict {header : List Variable} {p : Plan} (hp : p.rank < limit)
    (condition : Option Expression) {outer : Row} (ho : outer.length = header.length)
    (row : Row) (inner : List Variable) :
    let s := ofOperand header p hp condition
    ((Layout.ofStep s outer inner).combine outer row).assignment (header ++ s.fresh) =
      merge (outer.assignment header) (restrict p.vars (row.assignment inner)) := by
  intro s
  have hfill : (Layout.ofStep s outer inner).fill = Layout.fillOf header inner p.vars outer := rfl
  have happ : (Layout.ofStep s outer inner).append = columns inner s.fresh := rfl
  have hlen := (Layout.length_foldl_fillColumn row
    (Layout.fillOf header inner p.vars outer) outer).trans ho
  rw [Layout.combine_eq, hfill, happ, Row.assignment_append hlen, Layout.assignment_fill ho,
    Row.assignment_project]
  funext v
  have hwo := Row.within_assignment header outer v
  by_cases hv : v ∈ header
  · simp only [hv, if_true, true_and, merge, restrict]
    cases hμ : outer.assignment header v with
    | some t => simp
    | none =>
      by_cases hp : v ∈ p.vars
      · cases row.assignment inner v <;> simp [hp]
      · simp [hp]
  · have hf : v ∈ s.fresh ↔ v ∈ p.vars := by simp [s, ofOperand, hv]
    simp only [hv, if_false, merge, hwo hv, Option.none_or, restrict, hf]

/-- A combined row binds what the row binds, and beside it what the other row binds. -/
theorem assignment_combine {header inner : List Variable} {p : Plan} (hp : p.rank < limit)
    (condition : Option Expression) {outer row : Row} (ho : outer.length = header.length)
    (hi : inner ⊆ p.vars) :
    let s := ofOperand header p hp condition
    ((Layout.ofStep s outer inner).combine outer row).assignment (header ++ s.fresh) =
      merge (outer.assignment header) (row.assignment inner) := by
  intro s
  rw [assignment_combine_restrict hp condition ho row inner,
    ((Row.within_assignment inner row).mono hi).restrict_eq]

theorem length_combine_ofStep (s : JoinStep limit) (outer row : Row) (inner : List Variable) :
    ((Layout.ofStep s outer inner).combine outer row).length = outer.length + s.fresh.length := by
  simp [Layout.ofStep, columns]

end JoinStep
end TripleAlgebra
