import TripleAlgebra.Proofs.Duplicates

/-! Tables that may list a variable more than once. Their rows keep a column for each listed
variable, while their header keeps one for each distinct variable. -/
namespace TripleAlgebra
open Assignment Store

namespace Items

theorem mem_of_mem_andThen {i : Item} {is js : List Item} (h : i ∈ andThen is js) :
    i ∈ is ∨ i ∈ js := by
  induction is with
  | nil => exact .inr h
  | cons j is ih =>
    cases j with
    | error e => exact .inl (by simp_all [andThen])
    | ok r =>
      obtain rfl | h := List.mem_cons.mp h
      · exact .inl (by simp)
      · exact (ih h).imp_left (List.mem_cons_of_mem _)

theorem exists_of_mem_forEach {f : Row → List Item} {is : List Item} {row : Row}
    (h : .ok row ∈ forEach f is) : ∃ r, .ok r ∈ is ∧ .ok row ∈ f r := by
  induction is with
  | nil => cases h
  | cons i is ih =>
    cases i with
    | error e => cases List.mem_singleton.mp h
    | ok r =>
      obtain h | h := mem_of_mem_andThen h
      · exact ⟨r, by simp, h⟩
      · obtain ⟨r', hr', h⟩ := ih h
        exact ⟨r', List.mem_cons_of_mem _ hr', h⟩

end Items

namespace Variable

theorem perm_union_dedup (vs : List Variable) : (union [vs]).Perm vs.dedup :=
  (List.perm_ext_iff_of_nodup (nodup_union _) vs.nodup_dedup).mpr fun v => by simp [mem_union]

theorem length_union_le (vs : List Variable) : (union [vs]).length ≤ vs.length :=
  (perm_union_dedup vs).length_eq ▸ vs.dedup_sublist.length_le

theorem length_union_eq_iff {vs : List Variable} :
    (union [vs]).length = vs.length ↔ vs.Nodup := by
  rw [(perm_union_dedup vs).length_eq, ← List.dedup_eq_self]
  exact ⟨vs.dedup_sublist.eq_of_length, congrArg List.length⟩

theorem column?_append_of_notMem {vs ws : List Variable} {v : Variable} (h : v ∉ vs) :
    column? (vs ++ ws) v = (column? ws v).map (vs.length + ·) := by
  induction vs with
  | nil => simp
  | cons w vs ih =>
    rw [List.mem_cons, not_or] at h
    rw [List.cons_append, column?_cons, if_neg (Ne.symm h.1), ih h.2, Option.map_map]
    exact Option.map_congr fun i => by simp; omega

end Variable

namespace JoinPlan
variable {limit : Nat} {c : Context} {p : JoinPlan limit}

/-- A row that passes through a step is combined with a row of its operand. -/
theorem exists_of_mem_loop (hp : p.optional = false) {s : JoinStep limit}
    {rest : List (JoinStep limit)} {outer row : Row} (h : .ok row ∈ p.loop c (s :: rest) outer) :
    ∃ header found r, (s.boundAfresh outer).delivered c = .ok (header, found) ∧ .ok r ∈ found ∧
      .ok row ∈ p.loop c rest ((Layout.ofStep s outer header).combine outer r) := by
  rw [loop] at h
  split at h
  · cases List.mem_singleton.mp h
  · rename_i header found hfound
    simp only [hp, Bool.false_and, Bool.false_eq_true, if_false] at h
    obtain h | h := Items.mem_of_mem_andThen h
    · obtain ⟨r, hr, h⟩ := Items.exists_of_mem_forEach h
      exact ⟨header, found, r, hfound, hr, h⟩
    · cases h

end JoinPlan

namespace Plan
variable {c : Context} {q : Plan} {vs : List Variable} {table : List Row}

/-- The variables that only the plan behind a table has. -/
def ownVars (vs : List Variable) (q : Plan) : List Variable :=
  q.vars.filter fun v => (Variable.column? vs v).isNone

theorem mem_ownVars {v : Variable} : v ∈ ownVars vs q ↔ v ∈ q.vars ∧ v ∉ vs := by
  simp [ownVars]

theorem vars_values_eq (vs : List Variable) (q : Plan) (table : List Row) :
    (values q vs table).vars = Variable.union [vs] ++ ownVars vs q := by
  show Variable.append (Variable.union [vs]) q.vars = _
  rw [Variable.append_eq_filter q.nodup_vars, ownVars]
  congr 1
  apply List.filter_congr
  intro v _
  rw [Bool.eq_iff_iff, Option.isNone_iff_eq_none, Option.isNone_iff_eq_none]
  simp [Variable.mem_union]

/-- A row of a table that is completed and extended by a row of the plan behind the table. -/
def tableRow (vs : List Variable) (q : Plan) (t : Row) (header : List Variable) (r : Row) : Row :=
  let s := JoinStep.ofOperand vs q (Nat.lt_succ_self _) none
  let head := (Layout.ofHead vs vs).combine [] t
  (Layout.ofStep s head header).combine head r

theorem length_tableRow (vs : List Variable) (q : Plan) (t : Row) (header : List Variable)
    (r : Row) : (tableRow vs q t header r).length = vs.length + (ownVars vs q).length := by
  rw [tableRow, JoinStep.length_combine_ofStep, Layout.length_head]
  rfl

/-- By the listed variables, a row binds what the row of the table binds, and beside it what the
other row binds among the variables of its plan. -/
theorem assignment_tableRow (vs : List Variable) (q : Plan) (t : Row) (header : List Variable)
    (r : Row) : (tableRow vs q t header r).assignment (vs ++ ownVars vs q) =
      merge (t.assignment vs) (restrict q.vars (r.assignment header)) := by
  have h := JoinStep.assignment_combine_restrict (Nat.lt_succ_self q.rank) none
    (Layout.length_head vs t) r header
  rwa [Layout.assignment_head] at h

/-- The own variables of the plan stand behind all listed ones. -/
theorem value_tableRow {v : Variable} {i : Nat} (h : Variable.column? (ownVars vs q) v = some i)
    (t : Row) (header : List Variable) (r : Row) :
    (tableRow vs q t header r).value (vs.length + i) = r.assignment header v := by
  have hmem : v ∈ ownVars vs q := Variable.column?_isSome.mp (by rw [h]; rfl)
  obtain ⟨hq, hv⟩ := mem_ownVars.mp hmem
  have hcolumn : Variable.column? (vs ++ ownVars vs q) v = some (vs.length + i) := by
    rw [Variable.column?_append_of_notMem hv, h]
    rfl
  have ht : t.assignment vs v = none := Row.within_assignment vs t v hv
  rw [← Row.assignment_apply hcolumn, assignment_tableRow, merge, ht, restrict, if_pos hq]
  rfl

theorem delivered_identity (hr : c.registry = .builtin) :
    identity.delivered c = .ok ([], [.ok .empty]) := by
  obtain ⟨s, hs, hregular, hitems⟩ : ∃ s,
      (evaluate c (.builtin identity.kind.family (c.config.mode identity.kind)) identity
        fun q _ => dispatch c q).outcome = .ok s ∧ s.Regular identity.vars ∧
        Event.items s.run.events = [.ok .empty] := by
    cases c.config.mode identity.kind with
    | pull => exact ⟨_, rfl, ⟨rfl, rfl, fun _ => Event.clean_ofRows [.empty]⟩, rfl⟩
    | push => exact ⟨_, rfl, ⟨rfl, rfl, nofun⟩, rfl⟩
  rw [delivered, dispatch]
  simp only [hr, Registry.find?_builtin]
  rw [Attempt.outcome_bind hs, checkHeader_eq hregular]
  exact congrArg Except.ok (Prod.ext hregular.header_eq hitems)

/-- Each row of a table over a plan stems from a row of the table and one of the plan that is
specialised for it. -/
theorem exists_of_mem_loops (hr : c.registry = .builtin) {row : Row}
    (h : .ok row ∈ (tablePlan q vs table).loops c vs (table.map .ok)) :
    ∃ t ∈ table, ∃ header found r,
      (substitute (t.known vs q.vars) q).delivered c = .ok (header, found) ∧ .ok r ∈ found ∧
        row = tableRow vs q t header r := by
  obtain ⟨t, ht, h⟩ := Items.exists_of_mem_forEach h
  have ht : t ∈ table := by simpa using ht
  refine ⟨t, ht, ?_⟩
  by_cases hq : q = identity
  · -- no plan is evaluated, and the row of the table is not extended
    subst hq
    cases List.mem_singleton.mp h
    exact ⟨[], _, .empty, delivered_identity hr, by simp, (List.append_nil _).symm⟩
  · have hsteps : (tablePlan q vs table).steps =
        [.ofOperand vs q (rank_lt_values q vs table) none] := by
      cases q <;> first | rfl | exact absurd rfl hq
    rw [hsteps] at h
    obtain ⟨header, found, r, hfound, hr, h⟩ := JoinPlan.exists_of_mem_loop rfl h
    have hknown : ((Layout.ofHead vs vs).combine [] t).known vs q.vars = t.known vs q.vars := by
      unfold Row.known
      rw [Layout.assignment_head]
    rw [JoinStep.boundAfresh_eq, specialise_ofOperand] at hfound
    refine ⟨header, found, r, ?_, hr, Except.ok.inj (List.mem_singleton.mp h)⟩
    rw [← hknown]
    exact hfound

theorem items_values (hr : c.registry = .builtin) : (values q vs table).items c =
    .ok ((values q vs table).vars, (tablePlan q vs table).loops c vs (table.map .ok)) := by
  have heval := evaluateValues_eq (c.config.mode .values) q vs table fun q _ => dispatch c q
  rw [items_of_deliver (c := c) (p := values q vs table) hr (congrArg Attempt.outcome heval),
    JoinPlan.items_events, Event.items_ofRows]

/-- The rows of a table over a plan follow the list of its variables and not its header. Over every
store and in every mode, they have one column more than the header for each repetition, they bind by
the list what a row of the table binds and beside it what a row of the plan binds, and what only the
plan binds stands behind its column by as much. There is no surplus exactly if no variable is
repeated. -/
theorem table_rows_follow_list (store : TripleStore) (config : Config) (q : Plan)
    (vs : List Variable) (table : List Row) :
    let c : Context := ⟨store, config, .builtin⟩
    let p := values q vs table
    let surplus := vs.length - (Variable.union [vs]).length
    (∃ is, p.items c = .ok (p.vars, is) ∧ ∀ row, .ok row ∈ is →
      row.length = p.vars.length + surplus ∧
      ∃ t ∈ table, ∃ header found r,
        (substitute (t.known vs q.vars) q).delivered c = .ok (header, found) ∧ .ok r ∈ found ∧
        row.assignment (vs ++ ownVars vs q) =
          merge (t.assignment vs) (restrict q.vars (r.assignment header)) ∧
        ∀ v ∈ ownVars vs q, ∃ i, Variable.column? p.vars v = some i ∧
          row.value (i + surplus) = r.assignment header v) ∧
    (surplus = 0 ↔ vs.Nodup) := by
  intro c p surplus
  have hle := Variable.length_union_le vs
  have hvars : p.vars = Variable.union [vs] ++ ownVars vs q := vars_values_eq vs q table
  refine ⟨⟨_, items_values rfl, fun row hrow => ?_⟩, ?_⟩
  · obtain ⟨t, ht, header, found, r, hfound, hr, rfl⟩ := exists_of_mem_loops rfl hrow
    refine ⟨?_, t, ht, header, found, r, hfound, hr, assignment_tableRow vs q t header r,
      fun v hv => ?_⟩
    · rw [length_tableRow, hvars, List.length_append]
      omega
    · obtain ⟨i, hi⟩ := Option.isSome_iff_exists.mp (Variable.column?_isSome.mpr hv)
      have hnot : v ∉ Variable.union [vs] := fun h =>
        (mem_ownVars.mp hv).2 (by simpa [Variable.mem_union] using h)
      refine ⟨(Variable.union [vs]).length + i, ?_, ?_⟩
      · rw [hvars, Variable.column?_append_of_notMem hnot, hi]
        rfl
      · have hplace : (Variable.union [vs]).length + i + surplus = vs.length + i := by omega
        rw [hplace, value_tableRow hi]
  · rw [← Variable.length_union_eq_iff]
    omega

/-- The edges that leave a node behind a table that lists the node twice. -/
theorem items_listed_twice :
    let q := edge (.var ⟨"x"⟩) (.var ⟨"y"⟩)
    let p := values q [⟨"x"⟩, ⟨"x"⟩] [[some (.iri "a"), some (.iri "a")]]
    p.items (Contents.path.context {}) =
      .ok (p.vars, [.ok [some (.iri "a"), some (.iri "a"), some (.iri "b")]]) := by
  intro q p
  have hc := (Contents.path.holds {}).toReliable
  have hedge : (edge (.term (.iri "a")) (.var ⟨"y"⟩)).rows (Contents.path.context {}) =
      [[some (.iri "b")]] := (rows_edge ..).trans (by decide)
  have hchained : chained (tablePlan q [⟨"x"⟩, ⟨"x"⟩] [[some (.iri "a"), some (.iri "a")]])
      (rows (Contents.path.context {})) [⟨"x"⟩, ⟨"x"⟩] [[some (.iri "a"), some (.iri "a")]] =
      [[some (.iri "a"), some (.iri "a"), some (.iri "b")]] := by
    show (((edge (.term (.iri "a")) (.var ⟨"y"⟩)).rows _).flatMap _ ++ []) ++ [] = _
    rw [hedge]
    rfl
  rw [(answers_values hc fun q _ => answers_rows hc q).items_eq hc, hchained]
  rfl

/-- Of the three columns of a row, the last one holds the node that the edge leads to. -/
theorem table_rows_follow_list_twice :
    let c := Contents.path.context {}
    let q := edge (.var ⟨"x"⟩) (.var ⟨"y"⟩)
    let t : Row := [some (.iri "a"), some (.iri "a")]
    let p := values q [⟨"x"⟩, ⟨"x"⟩] [t]
    let row : Row := [some (.iri "a"), some (.iri "a"), some (.iri "b")]
    p.items c = .ok (p.vars, [.ok row]) ∧ ⟨"y"⟩ ∈ ownVars [⟨"x"⟩, ⟨"x"⟩] q ∧
      row.length = p.vars.length + 1 ∧
      ∃ header found r,
        (substitute (t.known [⟨"x"⟩, ⟨"x"⟩] q.vars) q).delivered c = .ok (header, found) ∧
        .ok r ∈ found ∧ row.value 2 = r.assignment header ⟨"y"⟩ := by
  intro c q t p row
  obtain ⟨⟨is, his, hrows⟩, -⟩ :=
    table_rows_follow_list c.store {} q [⟨"x"⟩, ⟨"x"⟩] [t]
  have hitems : p.items c = .ok (p.vars, [.ok row]) := items_listed_twice
  have hy : ⟨"y"⟩ ∈ ownVars [⟨"x"⟩, ⟨"x"⟩] q := by decide
  obtain rfl : is = [.ok row] := congrArg Prod.snd (Except.ok.inj (his.symm.trans hitems))
  obtain ⟨hlength, u, hu, header, found, r, hfound, hr, -, hown⟩ := hrows row (by simp)
  obtain rfl : u = t := List.mem_singleton.mp hu
  obtain ⟨i, hi, hvalue⟩ := hown ⟨"y"⟩ hy
  obtain rfl : i = 1 := Option.some.inj (hi.symm.trans (by decide))
  exact ⟨hitems, hy, hlength, header, found, r, hfound, hr, hvalue⟩

/-- Where a table lists its variable twice, the variable of the plan behind it has the second value
of the table in its column and not the node that the edge leads to. -/
theorem repeated_variable_displaces_inner :
    let c := Contents.path.context {}
    let q := edge (.var ⟨"x"⟩) (.var ⟨"y"⟩)
    let p := values q [⟨"x"⟩, ⟨"x"⟩] [[some (.iri "a"), some (.iri "a")]]
    let row : Row := [some (.iri "a"), some (.iri "a"), some (.iri "b")]
    p.items c = .ok (p.vars, [.ok row]) ∧ row.length ≠ p.vars.length ∧
      (substitute [(⟨"x"⟩, .iri "a")] q).items c = .ok ([⟨"y"⟩], [.ok [some (.iri "b")]]) ∧
      row.assignment p.vars ⟨"y"⟩ ≠ some (.iri "b") := by
  intro c q p row
  have hc := (Contents.path.holds {}).toReliable
  have hedge : (edge (.term (.iri "a")) (.var ⟨"y"⟩)).rows c = [[some (.iri "b")]] :=
    (rows_edge ..).trans (by decide)
  have hinner : (edge (.term (.iri "a")) (.var ⟨"y"⟩)).items c =
      .ok ([⟨"y"⟩], [.ok [some (.iri "b")]]) := by
    rw [(answers_rows hc _).items_eq hc, hedge]
    rfl
  exact ⟨items_listed_twice, by decide, hinner, by decide⟩

end Plan
end TripleAlgebra
