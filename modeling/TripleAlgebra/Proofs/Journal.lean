import TripleAlgebra.Proofs.Contents
import TripleAlgebra.Store.Journal

/-! What a store holds after any history of changes. -/
namespace TripleAlgebra.Store

namespace Index.Lists
variable {i : Index}

theorem nodup_triples {E : Three Id → Prop} (h : i.Lists E) : i.triples.Nodup :=
  h.nodup_keys.map (restore_injective i.order)

theorem perm_triples {ts : List Triple}
    (h : i.Lists fun k => ∃ t ∈ ts, code (termsUsed ts) t = k) :
    i.triples.Perm (ts.dedup.map (code (termsUsed ts))) := by
  refine (List.perm_ext_iff_of_nodup h.nodup_triples ?_).mpr fun k => ?_
  · apply (List.nodup_dedup ts).map_on
    intro t ht u _ htu
    exact (knows_termsUsed (List.mem_dedup.mp ht)).code_inj.mp htu
  · rw [Index.triples, h.mem_restored, List.mem_map]
    simp only [List.mem_dedup]

end Index.Lists

/-- What a change answers when some triples are there already. A triple that a batch repeats counts
once. -/
def Change.outcome (ts : List Triple) : Change → Outcome
  | .insert t => .isNew (t ∉ ts)
  | .extend us => .added (us.filter (· ∉ ts)).dedup.length

/-- What changes answer one after the other. -/
def Change.outcomes (ts : List Triple) : List Change → List Outcome
  | [] => []
  | c :: cs => c.outcome ts :: outcomes (ts ++ c.triples) cs

namespace Memory
variable {m : Memory} {ts : List Triple}

theorem Represents.apply (h : m.Represents ts) (c : Change)
    (hfits : (termsUsed (ts ++ c.triples)).length ≤ maxId + 1) :
    ∃ m', m.apply c = (.ok (c.outcome ts), m') ∧ m'.Represents (ts ++ c.triples) := by
  cases c with
  | insert t =>
    obtain ⟨m', hinsert, h'⟩ := h.insert t hfits
    exact ⟨m', by simp [Memory.apply, hinsert, Change.outcome, Except.map], h'⟩
  | extend us =>
    obtain ⟨m', hextend, h'⟩ := h.extend us hfits
    exact ⟨m', by simp [Memory.apply, hextend, Change.outcome, Except.map], h'⟩

/-- While there are numbers, no change fails. -/
theorem Represents.journal (h : m.Represents ts) (cs : List Change)
    (hfits : (termsUsed (ts ++ cs.flatMap Change.triples)).length ≤ maxId + 1) :
    ∃ m', m.journal cs = ((Change.outcomes ts cs).map .ok, m') ∧
      m'.Represents (ts ++ cs.flatMap Change.triples) := by
  induction cs generalizing m ts with
  | nil => exact ⟨m, rfl, (List.append_nil ts).symm ▸ h⟩
  | cons c cs ih =>
    rw [List.flatMap_cons, ← List.append_assoc] at hfits ⊢
    obtain ⟨m', happly, hnext⟩ := h.apply c (length_termsUsed_le hfits)
    obtain ⟨m'', hjournal, hlast⟩ := ih hnext hfits
    exact ⟨m'', by simp [Memory.journal, happly, hjournal, Change.outcomes], hlast⟩

/-! A term that has a number keeps it. -/

variable {x : Term} {n : Id}

theorem id?_insert (h : m.ids.id? x = some n) (t : Triple) :
    (m.insert t).2.ids.id? x = some n := by
  have hencode := Dictionary.id?_encode h t
  obtain ⟨e, ids, he, hinsert⟩ | ⟨k, ids, he, hinsert⟩ := m.insert_cases t <;>
    rw [he] at hencode <;> rw [hinsert] <;> exact hencode

theorem id?_extend (h : m.ids.id? x = some n) (ts : List Triple) :
    (m.extend ts).2.ids.id? x = some n := by
  induction ts generalizing m with
  | nil => exact h
  | cons t ts ih =>
    have hinsert := id?_insert h t
    unfold Memory.extend
    rcases hm : m.insert t with ⟨e | fresh, m'⟩ <;> rw [hm] at hinsert
    · exact hinsert
    · exact ih hinsert

theorem id?_journal (h : m.ids.id? x = some n) (cs : List Change) :
    (m.journal cs).2.ids.id? x = some n := by
  induction cs generalizing m with
  | nil => exact h
  | cons c cs ih =>
    have happly : (m.apply c).2.ids.id? x = some n := by
      cases c with
      | insert t => exact id?_insert h t
      | extend ts => exact id?_extend h ts
    exact ih happly

/-! The contents of the indexes. -/

theorem decode_code {terms : List Term} {t : Triple} (hm : m.ids.Numbers terms)
    (h : Knows terms t) : m.decode (code terms t) = .ok t := by
  have hdecode {x : Term} (hx : x ∈ terms) : m.ids.decode (terms.idxOf x) = .ok x :=
    hm.decode_eq_ok.mpr (List.getElem?_idxOf hx)
  simp only [decode, code, hdecode h.subject, hdecode h.predicate, hdecode h.object]
  rfl

theorem Represents.perm_decode (h : m.Represents ts) {i : Index}
    (hi : i.Lists fun k => ∃ t ∈ ts, code (termsUsed ts) t = k) :
    (i.triples.map m.decode).Perm (ts.dedup.map .ok) := by
  refine (hi.perm_triples.map _).trans (.of_eq ?_)
  rw [List.map_map]
  apply List.map_congr_left
  intro t ht
  exact decode_code h.numbers (knows_termsUsed (List.mem_dedup.mp ht))

theorem Represents.size_eq (h : m.Represents ts) : m.size = ts.dedup.length := by
  have hlength := h.spo.perm_triples.length_eq
  rwa [Index.triples, List.length_map, List.length_map] at hlength

theorem Represents.triples_le (h : m.Represents ts) {k : Three Id} (hk : k ∈ m.spo.triples) :
    k.1 ≤ maxId ∧ k.2.1 ≤ maxId ∧ k.2.2 ≤ maxId := by
  obtain ⟨t, ht, rfl⟩ := h.spo.mem_restored.mp hk
  exact (knows_termsUsed ht).code_le h.fits

/-- A history of changes that uses no more terms than there are numbers. The indexes hold the same
triples in three orders, each triple of the history once, and the size is their number. Each change
has answered whether its triple was new, or how many triples of its batch were. The two maps of the
dictionary are inverse to each other, and they give the terms of the history the numbers from zero
on in the order of their first use, one each. A term keeps its number whatever changes follow. -/
theorem journal_keeps_contents (cs : List Change)
    (hfits : (termsUsed (cs.flatMap Change.triples)).length ≤ maxId + 1) :
    let ts := cs.flatMap Change.triples
    let m := (journal {} cs).2
    (m.spo.order = .spo ∧ m.pos.order = .pos ∧ m.osp.order = .osp) ∧
    m.spo.triples.Nodup ∧ m.pos.triples.Perm m.spo.triples ∧ m.osp.triples.Perm m.spo.triples ∧
    (m.spo.triples.map m.decode).Perm (ts.dedup.map .ok) ∧
    m.size = ts.dedup.length ∧
    (journal {} cs).1 = (Change.outcomes [] cs).map .ok ∧
    m.ids.next.toNat = (termsUsed ts).length ∧
    (∀ x n, m.ids.id? x = some n ↔ m.ids.decode n = .ok x) ∧
    (∀ n x, m.ids.decode n = .ok x ↔ (termsUsed ts)[n]? = some x) ∧
    (∀ x, (m.ids.id? x).isSome ↔ ∃ t ∈ ts, x ∈ termsOf t) ∧
    (∀ more x n, m.ids.id? x = some n → (m.journal more).2.ids.id? x = some n) ∧
    ∀ k ∈ m.spo.triples, k.1 ≤ maxId ∧ k.2.1 ≤ maxId ∧ k.2.2 ≤ maxId := by
  intro ts m
  obtain ⟨m', hjournal, hm⟩ := represents_empty.journal cs hfits
  obtain rfl : m' = m := (congrArg Prod.snd hjournal).symm
  have h : m.Represents ts := hm
  have hspo := h.spo.perm_triples
  have hdecode (n : Id) (x : Term) : m.ids.decode n = .ok x ↔ (termsUsed ts)[n]? = some x :=
    h.numbers.decode_eq_ok
  refine ⟨⟨h.spo_order, h.pos_order, h.osp_order⟩, h.spo.nodup_triples,
    h.pos.perm_triples.trans hspo.symm, h.osp.perm_triples.trans hspo.symm,
    h.perm_decode h.spo, h.size_eq, congrArg Prod.fst hjournal, h.numbers.next,
    fun x n => (h.numbers.id? x n).trans (hdecode n x).symm, hdecode, fun x => ?_,
    fun more x n hx => id?_journal hx more, fun k hk => h.triples_le hk⟩
  rw [← mem_termsUsed, ← not_iff_not, ← h.numbers.id?_eq_none]
  simp

end Memory

/-- A triple, and then a batch that repeats it and has the reversed triple twice. -/
def Change.repeats : List Change :=
  [.insert ⟨.iri "a", .iri "p", .iri "b"⟩,
    .extend [⟨.iri "a", .iri "p", .iri "b"⟩, ⟨.iri "b", .iri "p", .iri "a"⟩,
      ⟨.iri "b", .iri "p", .iri "a"⟩]]

theorem Memory.journal_keeps_contents_repeated :
    let m := (journal {} Change.repeats).2
    (termsUsed (Change.repeats.flatMap Change.triples)).length ≤ maxId + 1 ∧
      (journal {} Change.repeats).1 = [.ok (.isNew true), .ok (.added 1)] ∧ m.size = 2 ∧
      m.ids.id? (.iri "b") = some 2 ∧ m.ids.decode 2 = .ok (.iri "b") ∧
      (m.journal Change.repeats).2.ids.id? (.iri "b") = some 2 ∧
      ∀ k ∈ m.spo.triples, k.1 ≤ maxId ∧ k.2.1 ≤ maxId ∧ k.2.2 ≤ maxId := by
  have hlength : (termsUsed (Change.repeats.flatMap Change.triples)).length ≤ maxId + 1 := by
    decide
  obtain ⟨-, -, -, -, -, hsize, houtcomes, -, hinverse, -, -, hstay, hfits⟩ :=
    journal_keeps_contents Change.repeats hlength
  have hcount : (Change.repeats.flatMap Change.triples).dedup.length = 2 := by decide
  have hanswers : Change.outcomes [] Change.repeats = [.isNew true, .added 1] := by decide
  have hb : (journal {} Change.repeats).2.ids.id? (.iri "b") = some 2 := by decide
  rw [hanswers] at houtcomes
  exact ⟨hlength, houtcomes, hsize.trans hcount, hb, (hinverse _ _).mp hb, hstay _ _ _ hb, hfits⟩

end TripleAlgebra.Store
