import TripleAlgebra.Proofs.JoinedRows
import TripleAlgebra.Proofs.SlicedOperand

/-! A join of two plans in either order. The second plan is specialised by each row of the first, so
the order matters where one of them looks at a shared variable before it has a value itself. -/
namespace TripleAlgebra.Plan
open Assignment Store Classical

variable {c : Context} {ts : List Triple} {stored : Pattern → List Row} {ps qs : List Plan}

/-- Operands that are safe for what they share may be listed in any order. -/
theorem solutions_join_perm (hc : c.Holds ts stored)
    (h : ∀ p ∈ ps, Safe c.config.distinct (Passed ps p) p) (hp : qs.Perm ps) :
    (join qs).solutions c = Bag.joinAll (ps.map (solutions c)) := by
  have hown : ps.map (solutions c) = ps.map (meaning ts) :=
    List.map_congr_left fun p hm => solutions_eq_meaning hc (h p hm)
  have hpassed (p : Plan) (v : Variable) : Passed qs p v ↔ Passed ps p v := by
    rw [Passed, Passed, hp.countP_eq]
  have hjoin : Safe c.config.distinct (fun _ => False) (join qs) :=
    .join fun p hm => (h p (hp.mem_iff.mp hm)).mono fun v hv =>
      (hpassed p v).mp (hv.resolve_left id)
  rw [solutions_eq_meaning hc hjoin, meaning_join, hown]
  exact Bag.joinAll_perm (hp.map _)

theorem passed_pair {a b p : Plan} {v : Variable} (h : Passed [a, b] p v) :
    v ∈ a.vars ∧ v ∈ b.vars := by
  have hcount := h.2
  by_cases ha : v ∈ a.vars <;> by_cases hb : v ∈ b.vars <;> simp [ha, hb] at hcount ⊢

/-- For each row of the first plan, a join has the merges of the row with the rows of the second
plan specialised by it. If both plans are safe for the variables that they share, these are the
merges of a row of each plan that agree, in either order. -/
theorem join_in_either_order (s : Contents) (config : Config)
    (hreorder : config.reorder = .disabled) (a b : Plan) :
    (∃ own blocks, a.collect (s.context config) = .ok own ∧
      (join [a, b]).collect (s.context config) = .ok (List.flatten blocks) ∧
      List.Forall₂ (fun row block =>
        let μ := row.assignment a.vars
        let specialised := b.bind b.vars (b.vars.map μ)
        ∃ found, specialised.collect (s.context config) = .ok found ∧
          (block.map (Row.assignment (join [a, b]).vars) : Bag) =
            found.map fun r => merge μ (r.assignment specialised.vars)) own blocks) ∧
    (a.Safe config.distinct (fun v => v ∈ a.vars ∧ v ∈ b.vars) →
      b.Safe config.distinct (fun v => v ∈ a.vars ∧ v ∈ b.vars) →
      ∃ own own' rows rows', a.collect (s.context config) = .ok own ∧
        b.collect (s.context config) = .ok own' ∧
        (join [a, b]).collect (s.context config) = .ok rows ∧
        (join [b, a]).collect (s.context config) = .ok rows' ∧
        (rows.map (Row.assignment (join [a, b]).vars) : Bag) =
          rows'.map (Row.assignment (join [b, a]).vars) ∧
        (rows.map (Row.assignment (join [a, b]).vars) : Bag) =
          Bag.merges [own.map (Row.assignment a.vars), own'.map (Row.assignment b.vars)]) := by
  have hc := s.holds config
  have hrows := collect_eq_rows hc.toReliable
  constructor
  · have hw : (s.context config).weight? = none := by
      unfold Context.weight?
      rw [show (s.context config).config.reorder = .disabled from hreorder]
    refine ⟨_, (a.rows (s.context config)).map (pairBlock (s.context config) a b), hrows a, ?_, ?_⟩
    · rw [hrows, rows_join_pair hc.toReliable hw]
      rfl
    · rw [List.forall₂_map_right_iff, List.forall₂_same]
      intro row _
      refine ⟨_, hrows _, (solutions_pairBlock a b row).trans ?_⟩
      rw [← bind_map_assignment, solutions, Multiset.map_coe, List.map_map]
      rfl
  · intro ha hb
    have hsafe : ∀ p ∈ [a, b], Safe config.distinct (Passed [a, b] p) p := by
      intro p hp
      rcases List.mem_pair.mp hp with rfl | rfl
      · exact ha.mono fun v => passed_pair
      · exact hb.mono fun v => passed_pair
    have hforth := solutions_join_perm hc hsafe (.refl _)
    have hback := solutions_join_perm hc hsafe (.swap a b [])
    refine ⟨_, _, _, _, hrows a, hrows b, hrows _, hrows _, hforth.trans hback.symm, ?_⟩
    rw [← Bag.joinAll_eq_merges]
    exact hforth

/-- An edge and a plan that tests whether an edge of its own has an edge behind it. -/
theorem join_in_either_order_optional_edge :
    let config : Config := { reorder := .disabled }
    let a := edge (.var ⟨"y"⟩) (.var ⟨"z"⟩)
    let behind := edge (.var ⟨"y"⟩) (.var ⟨"w"⟩)
    let b := filter (leftJoin (edge (.var ⟨"x"⟩) (.var ⟨"y"⟩)) behind none) [.bound ⟨"w"⟩]
    config.reorder = .disabled ∧
    a.Safe .all (fun v => v ∈ a.vars ∧ v ∈ b.vars) ∧
    b.Safe .all (fun v => v ∈ a.vars ∧ v ∈ b.vars) ∧
    ∃ rows rows', (join [a, b]).collect (Contents.path.context config) = .ok rows ∧
      (join [b, a]).collect (Contents.path.context config) = .ok rows' ∧
      (rows.map (Row.assignment (join [a, b]).vars) : Bag) =
        rows'.map (Row.assignment (join [b, a]).vars) := by
  intro config a behind b
  have ha : a.Safe .all (fun v => v ∈ a.vars ∧ v ∈ b.vars) := .triple _
  have hb : b.Safe .all (fun v => v ∈ a.vars ∧ v ∈ b.vars) := by
    refine .filter (.leftJoin (.triple _) (.triple _) (by simp)) fun e he v hv hE => ?_
    obtain rfl := List.mem_singleton.mp he
    obtain rfl := List.mem_singleton.mp hv
    exact absurd hE.1 (by decide)
  obtain ⟨-, horder⟩ := join_in_either_order Contents.path config rfl a b
  obtain ⟨_, _, rows, rows', -, -, hrows, hrows', hsame, -⟩ := horder ha hb
  exact ⟨rfl, ha, hb, rows, rows', hrows, hrows', hsame⟩

/-- The second plan finds an edge that has an edge behind it, together with any edge. The end of the
edge behind is not a variable of the outer pattern, but the first plan gives it a value. -/
theorem join_exists_sees_other_operand :
    let c := Contents.path.context { reorder := .disabled }
    let a := edge (.var ⟨"v"⟩) (.term (.iri "b"))
    let followed := semijoin (edge (.var ⟨"x"⟩) (.var ⟨"y"⟩)) (edge (.var ⟨"y"⟩) (.var ⟨"v"⟩))
    let b := join [followed, edge (.var ⟨"v"⟩) (.var ⟨"w"⟩)]
    let row := [some (.iri "a"), some (.iri "b"), some (.iri "a"), some (.iri "b")]
    (join [a, b]).collect c = .ok [] ∧ (join [b, a]).collect c = .ok [row] ∧
    (([] : List Row).map (Row.assignment (join [a, b]).vars) : Bag) ≠
      [row].map (Row.assignment (join [b, a]).vars) := by
  intro c a followed b row
  have hc := (Contents.path.holds { reorder := .disabled }).toReliable
  have hrows := collect_eq_rows hc
  let outer := edge (.var ⟨"x"⟩) (.var ⟨"y"⟩)
  let other : Row := [some (.iri "a"), some (.iri "b"), some (.iri "b"), some (.iri "c")]
  have ha : a.rows c = [[some (.iri "a")]] := (rows_edge ..).trans (by decide)
  have houter : outer.rows c =
      [[some (.iri "a"), some (.iri "b")], [some (.iri "b"), some (.iri "c")]] :=
    (rows_edge ..).trans (by decide)
  have htest (x : Slot) (hx : x = .var ⟨"v"⟩ ∨ x = .term (.iri "a")) (u t : Term) :
      (edge (.var ⟨"y"⟩) x).bind outer.vars
        ((List.range outer.vars.length).map (Row.value [some u, some t])) = edge (.term t) x := by
    rcases hx with rfl | rfl <;> rfl
  have hfollowed : followed.rows c = [[some (.iri "a"), some (.iri "b")]] := by
    rw [rows_semijoin hc, houter, List.filter_cons, List.filter_cons, htest _ (.inl rfl),
      htest _ (.inl rfl), rows_edge, rows_edge]
    decide
  have hnone : (semijoin outer (edge (.var ⟨"y"⟩) (.term (.iri "a")))).rows c = [] := by
    rw [rows_semijoin hc, houter, List.filter_cons, List.filter_cons, htest _ (.inr rfl),
      htest _ (.inr rfl), rows_edge, rows_edge]
    decide
  have hb : b.rows c = [row, other] := by
    have hblock : pairBlock c followed (edge (.var ⟨"v"⟩) (.var ⟨"w"⟩))
        [some (.iri "a"), some (.iri "b")] = [row, other] := by
      have hbind : substitute (Row.known followed.vars (edge (.var ⟨"v"⟩) (.var ⟨"w"⟩)).vars
          [some (.iri "a"), some (.iri "b")]) (edge (.var ⟨"v"⟩) (.var ⟨"w"⟩)) =
          edge (.var ⟨"v"⟩) (.var ⟨"w"⟩) := rfl
      rw [pairBlock_eq hbind, rows_edge]
      decide
    rw [rows_join_pair hc rfl, hfollowed, List.flatMap_singleton, hblock]
  have hforth : (join [a, b]).rows c = [] := by
    have hblock : pairBlock c a b [some (.iri "a")] = [] := by
      -- the value of `v` reaches the inner pattern, which then asks for an edge that ends at `a`
      have hbind : substitute (Row.known a.vars b.vars [some (.iri "a")]) b =
          join [semijoin outer (edge (.var ⟨"y"⟩) (.term (.iri "a"))),
            edge (.term (.iri "a")) (.var ⟨"w"⟩)] := rfl
      rw [pairBlock_eq hbind, rows_join_pair hc rfl, hnone]
      rfl
    rw [rows_join_pair hc rfl, ha, List.flatMap_singleton, hblock]
  have hback : (join [b, a]).rows c = [row] := by
    have hrow : pairBlock c b a row = [row] := by
      have hbind : substitute (Row.known b.vars a.vars row) a =
          edge (.term (.iri "a")) (.term (.iri "b")) := rfl
      rw [pairBlock_eq hbind, rows_edge]
      decide
    have hother : pairBlock c b a other = [] := by
      have hbind : substitute (Row.known b.vars a.vars other) a =
          edge (.term (.iri "b")) (.term (.iri "b")) := rfl
      rw [pairBlock_eq hbind, rows_edge]
      decide
    rw [rows_join_pair hc rfl, hb, List.flatMap_cons, List.flatMap_singleton, hrow, hother]
    rfl
  exact ⟨hforth ▸ hrows _, hback ▸ hrows _, by simp⟩

end TripleAlgebra.Plan
