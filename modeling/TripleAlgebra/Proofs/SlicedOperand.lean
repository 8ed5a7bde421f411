import TripleAlgebra.Proofs.BoundRows

/-! A join whose second operand keeps rows by their position. The values of a row of the first
operand are substituted below the cut, which then counts other rows. -/
namespace TripleAlgebra
open Assignment Store Classical

/-- What an operator keeps by position. -/
inductive Cut
  | limit (n : Nat)
  | offset (n : Nat)
  | slice (n : Nat) (count : Option Nat)

namespace Cut

def plan : Cut → Plan → Plan
  | .limit n, p => .limit p n
  | .offset n, p => .offset p n
  | .slice n count, p => .slice p n count

def kept : Cut → List Row → List Row
  | .limit n => Event.sliceRows 0 (some n)
  | .offset n => Event.sliceRows n none
  | .slice n count => Event.sliceRows n count

variable {k : Cut} {p : Plan} {c : Context} {stored : Pattern → List Row}

theorem rows_plan (hc : c.Reliable stored) (k : Cut) (p : Plan) :
    (k.plan p).rows c = k.kept (p.rows c) := by
  have h := Plan.answers_rows hc p
  cases k with
  | limit n => exact (h.limit hc n).rows_eq hc
  | offset n => exact (h.offset hc n).rows_eq hc
  | slice n count => exact (h.slice hc n count).rows_eq hc

@[simp] theorem vars_plan (k : Cut) (p : Plan) : (k.plan p).vars = p.vars := by
  cases k <;> rfl

theorem defers_plan (k : Cut) (p : Plan) (v : Variable) :
    (k.plan p).defers v = p.maybeUnbound v := by
  cases k <;> simp [plan, Plan.defers, Plan.maybeUnbound, Plan.vars, Plan.certain]

theorem pushed_plan (k : Cut) (p : Plan) (all s : Substitution) :
    (k.plan p).pushed all s = k.plan (Plan.substitute s p) := by
  cases k <;> rfl

end Cut

namespace Plan
variable {c : Context} {ts : List Triple} {stored : Pattern → List Row} {p : Plan}
  {μ : Assignment}

theorem within_solutions (h : μ ∈ p.solutions c) : Within p.vars μ := by
  obtain ⟨r, -, rfl⟩ := List.mem_map.mp (Multiset.mem_coe.mp h)
  exact Row.within_assignment p.vars r

theorem solutions_checkAfter (hc : c.Holds ts stored) {s : Substitution} (hs : s.Functional)
    (p : Plan) : (checkAfter s p).solutions c = Bag.specialise s.find? (p.solutions c) := by
  rw [checkAfter, solutions_project hc, solutions_filter hc]
  exact checked_eq_specialise hs fun μ hμ => within_solutions hμ

/-- A plan specialised by what an assignment says about the variables that the plan certainly
binds. -/
def specialisedBy (μ : Assignment) (p : Plan) : Plan :=
  p.bind (p.vars.filter (· ∈ p.certain)) ((p.vars.filter (· ∈ p.certain)).map μ)

/-- A plan that certainly binds none of the variables of an assignment stays as it is. -/
theorem specialisedBy_eq_self (h : ∀ v ∈ p.certain, μ v = none) : p.specialisedBy μ = p := by
  have hnil : Substitution.ofValues (p.vars.filter (· ∈ p.certain))
      ((p.vars.filter (· ∈ p.certain)).map μ) = [] := by
    rw [Substitution.ofValues, ← List.map_prod_left_eq_zip, List.filterMap_map,
      List.filterMap_eq_nil_iff]
    intro v hv
    simp [h v (by simpa using (List.mem_filter.mp hv).2)]
  rw [specialisedBy, bind, bind?, hnil, substitute?_nil]
  rfl

/-- What goes below a cut are the values of certain variables. -/
theorem substitute_early (k : Cut) (p : Plan) (header : List Variable) (row : Row) :
    substitute ((k.plan p).early (row.known header p.vars)) p =
      p.specialisedBy (row.assignment header) := by
  have hcertain : p.vars.filter (!(k.plan p).defers ·) = p.vars.filter (· ∈ p.certain) := by
    refine List.filter_congr fun v hv => ?_
    rw [Cut.defers_plan, maybeUnbound, decide_eq_true hv, Bool.true_and]
    simp
  rw [early_known, hcertain, specialisedBy, bind_map_assignment]

/-- The solutions that a cut keeps of the specialised plan, merged with a row. -/
theorem solutions_cut (hc : c.Holds ts stored) (k : Cut) (p : Plan) (header : List Variable)
    (row : Row) :
    ((substitute (row.known header p.vars) (k.plan p)).solutions c).map
        (merge (row.assignment header)) =
      ((k.plan (p.specialisedBy (row.assignment header))).solutions c).bind
        (Bag.pair (row.assignment header)) := by
  let s := row.known header p.vars
  let q := k.plan p
  have hs : s.Functional := Row.functional_known p.nodup_vars
  have hlate : (substitute s q).solutions c = Bag.specialise (q.late s).find?
      ((k.plan (p.specialisedBy (row.assignment header))).solutions c) := by
    rw [substitute_eq, Cut.pushed_plan, substitute_early]
    split
    · rename_i hnil
      rw [List.isEmpty_iff.mp hnil]
      exact (Bag.specialise_empty _).symm
    · exact solutions_checkAfter hc (functional_late q hs) _
  rw [hlate]
  refine Bag.map_merge_specialise (fun v t ht => ?_) fun ν hν v hv => ?_
  · exact (Row.find?_known_eq_some.mp (find?_of_late ht)).2
  · have hin : v ∈ (k.plan (p.specialisedBy (row.assignment header))).vars :=
      (within_solutions hν).mem (Option.get_mem hv)
    rw [Cut.vars_plan, ← substitute_early k, vars_substitute, Substitution.mem_remaining] at hin
    obtain ⟨hmem, hfresh⟩ := hin
    have hvalue : s.find? v = row.assignment header v := Row.find?_known_of_mem hmem
    rw [find?_early] at hfresh
    rw [find?_late, ← hvalue]
    split
    · rfl
    · rw [if_neg ‹_›] at hfresh
      exact hfresh.symm

/-- What a join of two plans makes of a row of the first. -/
def pairBlock (c : Context) (a b : Plan) (row : Row) : List Row :=
  let row := row.project (Variable.columns a.vars a.vars)
  let s := JoinStep.ofOperand a.vars b (rank_lt_join (List.mem_pair.mpr (.inr rfl)) :
    b.rank < (join [a, b]).rank) none
  ((s.specialise row).rows c).map fun r =>
    (Layout.ofStep s row (s.specialise row).vars).combine row r

theorem rows_join_pair (hc : c.Reliable stored) (hw : c.weight? = none) (a b : Plan) :
    (join [a, b]).rows c = (a.rows c).flatMap (pairBlock c a b) := by
  have hjoin := (answers_join hc fun q _ => answers_rows hc q).rows_eq (p := join [a, b]) hc
  have hkept : arranged c [a, b] = ([a, b].attach, none) := by
    unfold arranged
    rw [hw]
    rfl
  have hops : operandsOf c [a, b] = [⟨a, rank_lt_join (List.mem_pair.mpr (.inl rfl))⟩,
      ⟨b, rank_lt_join (List.mem_pair.mpr (.inr rfl))⟩] := by
    rw [operandsOf, hkept]
    rfl
  rw [hjoin, hops, hkept]
  apply List.flatMap_congr
  intro row _
  rw [pairBlock, joinPlan, JoinStep.ofOperands, JoinPlan.nestedRows, List.map_eq_flatMap]
  exact List.append_nil _

theorem vars_join_pair (a b : Plan) : (join [a, b]).vars = Variable.append a.vars b.vars := by
  rw [vars, varsEach_eq]
  exact Variable.union_pair a.nodup_vars

theorem assignment_whole (vs : List Variable) (row : Row) :
    (row.project (Variable.columns vs vs)).assignment vs = row.assignment vs := by
  rw [Row.assignment_project, (Row.within_assignment vs row).restrict_eq]

theorem specialise_whole {a b : Plan} (hb : b.rank < (join [a, b]).rank) (row : Row) :
    (JoinStep.ofOperand a.vars b hb none).specialise
        (row.project (Variable.columns a.vars a.vars)) =
      substitute (row.known a.vars b.vars) b := by
  rw [specialise_ofOperand, Row.known, Row.known, assignment_whole]
  rfl

/-- The block of a row, column by column, from the second plan specialised by the row. -/
theorem pairBlock_eq {a b q : Plan} {row : Row}
    (h : substitute (row.known a.vars b.vars) b = q) :
    pairBlock c a b row =
      let whole := row.project (Variable.columns a.vars a.vars)
      let s := JoinStep.ofOperand a.vars b (rank_lt_join (List.mem_pair.mpr (.inr rfl)) :
        b.rank < (join [a, b]).rank) none
      (q.rows c).map fun r => (Layout.ofStep s whole q.vars).combine whole r := by
  rw [pairBlock]
  dsimp only
  rw [specialise_whole, h]

theorem solutions_pairBlock (a b : Plan) (row : Row) :
    ((pairBlock c a b row).map (Row.assignment (join [a, b]).vars) : Bag) =
      ((substitute (row.known a.vars b.vars) b).solutions c).map
        (merge (row.assignment a.vars)) := by
  have hb : b.rank < (join [a, b]).rank := rank_lt_join (List.mem_pair.mpr (.inr rfl))
  let whole := row.project (Variable.columns a.vars a.vars)
  let s := JoinStep.ofOperand a.vars b hb none
  have hwhole : whole.assignment a.vars = row.assignment a.vars := assignment_whole a.vars row
  have hplan : s.specialise whole = substitute (row.known a.vars b.vars) b :=
    specialise_whole hb row
  have hheader : (join [a, b]).vars = a.vars ++ s.fresh := by
    rw [vars_join_pair, Variable.append_eq_filter b.nodup_vars]
    rfl
  have hmerge (r : Row) : Row.assignment (a.vars ++ s.fresh)
      ((Layout.ofStep s whole (s.specialise whole).vars).combine whole r) =
      merge (row.assignment a.vars) (r.assignment (s.specialise whole).vars) := by
    rw [← hwhole]
    exact JoinStep.assignment_combine hb none (by simp [whole, Variable.columns])
      (vars_specialise_subset hb none)
  rw [← hplan, hheader, solutions, Multiset.map_coe, List.map_map]
  refine congrArg _ ((List.map_map ..).trans (List.map_congr_left fun r _ => hmerge r))

/-- For each row of the first plan, a join has the merges of the row with the rows that the cut
keeps of the second plan specialised by the row. They are the merges with the rows that the cut
keeps on its own exactly if, apart from the columns of the row, it keeps the same rows that agree
with the row. This is so if the row binds no variable that the second plan certainly binds. -/
theorem join_cut_rows (s : Contents) (config : Config) (hreorder : config.reorder = .disabled)
    (a b : Plan) (k : Cut) :
    ∃ rows own blocks, a.collect (s.context config) = .ok rows ∧
      (k.plan b).collect (s.context config) = .ok own ∧
      (join [a, k.plan b]).collect (s.context config) = .ok (List.flatten blocks) ∧
      List.Forall₂ (fun row block =>
        let μ := row.assignment a.vars
        let merged : Bag := (block.map (Row.assignment (join [a, k.plan b]).vars) : List Assignment)
        let alone : Bag := (own.map (Row.assignment b.vars) : List Assignment)
        ∃ specialised, (b.specialisedBy μ).collect (s.context config) = .ok specialised ∧
          let kept : Bag :=
            ((k.kept specialised).map (Row.assignment (b.specialisedBy μ).vars) : List Assignment)
          merged = kept.bind (Bag.pair μ) ∧
          (merged = alone.bind (Bag.pair μ) ↔ Bag.specialise μ kept = Bag.specialise μ alone) ∧
          ((∀ v ∈ b.certain, μ v = none) → merged = alone.bind (Bag.pair μ)))
        rows blocks := by
  have hc := s.holds config
  have hrows := collect_eq_rows hc.toReliable
  have hw : (s.context config).weight? = none := by
    unfold Context.weight?
    rw [show (s.context config).config.reorder = .disabled from hreorder]
  refine ⟨_, _, (a.rows (s.context config)).map (pairBlock (s.context config) a (k.plan b)),
    hrows a, hrows (k.plan b), ?_, ?_⟩
  · rw [hrows, rows_join_pair hc.toReliable hw]
    rfl
  · rw [List.forall₂_map_right_iff, List.forall₂_same]
    intro row _
    refine ⟨_, hrows _, ?_⟩
    have hblock := (solutions_pairBlock a (k.plan b) row).trans
      ((Cut.vars_plan k b).symm ▸ solutions_cut hc k b a.vars row)
    rw [solutions, Cut.rows_plan hc.toReliable, Cut.vars_plan] at hblock
    refine ⟨hblock, hblock ▸ Bag.bind_pair_inj, fun hnone => hblock.trans ?_⟩
    rw [specialisedBy_eq_self hnone, Cut.rows_plan hc.toReliable]

/-- A cut after an edge whose start is certain. -/
theorem join_cut_rows_edges :
    let config : Config := { reorder := .disabled }
    let a := edge (.var ⟨"x"⟩) (.term (.iri "c"))
    let b := edge (.var ⟨"x"⟩) (.var ⟨"y"⟩)
    config.reorder = .disabled ∧
    ∃ rows blocks, a.collect (Contents.path.context config) = .ok rows ∧
      (join [a, slice b 0 (some 1)]).collect (Contents.path.context config) =
        .ok (List.flatten blocks) ∧
      rows.length = blocks.length := by
  intro config a b
  obtain ⟨rows, _, blocks, hrows, -, hjoin, hall⟩ :=
    join_cut_rows Contents.path config rfl a b (.slice 0 (some 1))
  exact ⟨rfl, rows, blocks, hrows, hjoin, hall.length_eq⟩

/-- The first edge starts at `a` and the edge to `c` at `b`. They do not agree, but the join finds
the first edge that starts at `b`, which the slice does not have on its own. -/
theorem join_slice_finds_later_edge :
    let c := Contents.path.context { reorder := .disabled }
    let a := edge (.var ⟨"x"⟩) (.term (.iri "c"))
    let b := slice (edge (.var ⟨"x"⟩) (.var ⟨"y"⟩)) 0 (some 1)
    a.collect c = .ok [[some (.iri "b")]] ∧
    b.collect c = .ok [[some (.iri "a"), some (.iri "b")]] ∧
    (join [a, b]).collect c = .ok [[some (.iri "b"), some (.iri "c")]] ∧
    ([Row.assignment (join [a, b]).vars [some (.iri "b"), some (.iri "c")]] : Bag) ≠
      Bag.join ([Row.assignment a.vars [some (.iri "b")]] : List Assignment)
        ([Row.assignment b.vars [some (.iri "a"), some (.iri "b")]] : List Assignment) := by
  intro c a b
  have hc := (Contents.path.holds { reorder := .disabled }).toReliable
  have hrows := collect_eq_rows hc
  have hslice (p : Plan) : (slice p 0 (some 1)).rows c = (p.rows c).take 1 :=
    Cut.rows_plan hc (.slice 0 (some 1)) p
  have ha : a.rows c = [[some (.iri "b")]] := (rows_edge ..).trans (by decide)
  have hb : b.rows c = [[some (.iri "a"), some (.iri "b")]] := by
    rw [hslice, rows_edge]
    decide
  have hspecialised : (slice (edge (.term (.iri "b")) (.var ⟨"y"⟩)) 0 (some 1)).rows c =
      [[some (.iri "c")]] := by
    rw [hslice, rows_edge]
    decide
  refine ⟨ha ▸ hrows a, hb ▸ hrows b, ?_, ?_⟩
  · have hblock : pairBlock c a b [some (.iri "b")] = [[some (.iri "b"), some (.iri "c")]] := by
      show ((slice (edge (.term (.iri "b")) (.var ⟨"y"⟩)) 0 (some 1)).rows c).map _ = _
      rw [hspecialised]
      rfl
    rw [hrows, rows_join_pair hc rfl, ha, List.flatMap_singleton, hblock]
  · have hnot : ¬ Compatible (Row.assignment a.vars [some (.iri "b")])
        (Row.assignment b.vars [some (.iri "a"), some (.iri "b")]) := fun h =>
      absurd (h ⟨"x"⟩ (.iri "b") (.iri "a") rfl rfl) (by decide)
    simp [Bag.join, Bag.pair_of_not hnot]

end Plan
end TripleAlgebra
