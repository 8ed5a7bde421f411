import TripleAlgebra.Proofs.Journal
import TripleAlgebra.Proofs.LifeCycle

/-! The rows that a store answers a pattern with. -/
namespace TripleAlgebra.Store.Memory

/-- After any history of changes with no more terms than numbers, a pattern is answered by one row
for each triple of the history that matches it. A row has the terms at the first positions of the
variables, and the estimate is the number of rows. -/
theorem query_finds_matches (cs : List Change) (p : Pattern)
    (hfits : ((cs.flatMap Change.triples).flatMap termsOf).eraseDups.length ≤ maxId + 1) :
    let m := (journal {} cs).2
    ∃ found : List Triple, found.Nodup ∧
      (∀ t, t ∈ found ↔ t ∈ cs.flatMap Change.triples ∧ p.Matches t) ∧
      (∃ s, m.query p = .ok s ∧ s.header = p.vars ∧
        s.gather.value = .ok (found.map fun t => Row.ofAssignment p.vars (p.binding t))) ∧
      m.estimate p = found.length := by
  classical
  intro m
  obtain ⟨m', hjournal, hm⟩ := represents_empty.journal cs hfits
  obtain rfl : m' = m := (congrArg Prod.snd hjournal).symm
  have h : m.Represents (cs.flatMap Change.triples) := hm
  obtain ⟨found, hperm, hfound, hrows⟩ := h.exists_rows p
  refine ⟨found, hperm.nodup_iff.mpr ((List.nodup_dedup _).filter _), fun t => ?_, ?_, ?_⟩
  · rw [hperm.mem_iff]
    simp
  · let s : Solutions :=
      .ofRows p.vars (found.map fun t => Row.ofAssignment p.vars (p.binding t))
    have hquery : m.query p = .ok s := by
      rw [query, hrows]
      rfl
    have hknown : s.known = some (found.map fun t => Row.ofAssignment p.vars (p.binding t)) :=
      Solutions.known_table rfl rfl (Event.items_ofRows _)
    refine ⟨s, hquery, rfl, ?_⟩
    rw [Solutions.gather, hknown]
  · rw [estimate, hfound, List.length_map]

/-- A repeated variable finds the edge from a node to itself, which the history adds twice. -/
theorem query_finds_matches_loop :
    let cs : List Change := [.insert ⟨.iri "a", .iri "p", .iri "b"⟩,
      .extend [⟨.iri "b", .iri "p", .iri "b"⟩, ⟨.iri "b", .iri "p", .iri "b"⟩]]
    let p : Pattern := ⟨.var ⟨"x"⟩, .term (.iri "p"), .var ⟨"x"⟩⟩
    ((cs.flatMap Change.triples).flatMap termsOf).eraseDups.length ≤ maxId + 1 ∧
      (journal {} cs).2.estimate p = 1 ∧
      ∃ found : List Triple, found.Nodup ∧
        (∀ t, t ∈ found ↔ t ∈ cs.flatMap Change.triples ∧ p.Matches t) ∧
        (∃ s, (journal {} cs).2.query p = .ok s ∧ s.header = p.vars ∧
          s.gather.value = .ok (found.map fun t => Row.ofAssignment p.vars (p.binding t))) ∧
        (journal {} cs).2.estimate p = found.length :=
  ⟨by decide, by decide, query_finds_matches _ _ (by decide)⟩

end TripleAlgebra.Store.Memory
