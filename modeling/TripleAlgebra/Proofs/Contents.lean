import TripleAlgebra.Proofs.Dictionary
import TripleAlgebra.Proofs.Index
import TripleAlgebra.Proofs.JoinSolutions
import TripleAlgebra.Store.Lookup
import Mathlib.Data.Finset.Card
import Mathlib.Data.List.Perm.Basic

/-! The contents of a store, and that its answers are the solutions over them. -/
namespace TripleAlgebra.Store
open Assignment

section Codes
variable {terms : List Term} {ts : List Triple} {t u : Triple} {x : Term}

theorem Knows.code_inj (h : Knows terms t) : code terms t = code terms u ↔ t = u := by
  obtain ⟨s, p, o⟩ := t
  obtain ⟨s', p', o'⟩ := u
  simp [code, List.idxOf_inj h.subject, List.idxOf_inj h.predicate, List.idxOf_inj h.object]

theorem Knows.code_le (h : Knows terms t) (hfits : terms.length ≤ maxId + 1) :
    (code terms t).1 ≤ maxId ∧ (code terms t).2.1 ≤ maxId ∧ (code terms t).2.2 ≤ maxId := by
  have hle {x : Term} (hx : x ∈ terms) : terms.idxOf x ≤ maxId :=
    Nat.le_of_lt_succ ((List.idxOf_lt_length_of_mem hx).trans_le hfits)
  exact ⟨hle h.subject, hle h.predicate, hle h.object⟩

theorem Knows.mem_of_binding (h : Knows terms t) {p : Pattern} {v : Variable}
    (hx : p.binding t v = some x) : x ∈ terms := by
  unfold Pattern.binding at hx
  split_ifs at hx <;> cases hx
  · exact h.subject
  · exact h.predicate
  · exact h.object

/-- Triples that follow do not change the numbers of a triple. -/
theorem code_termsUsed_append (h : t ∈ ts) (us : List Triple) :
    code (termsUsed (ts ++ us)) t = code (termsUsed ts) t := by
  obtain ⟨more, hmore⟩ := isPrefix_termsUsed ts us
  have hknows := knows_termsUsed h
  rw [← hmore, code, code, List.idxOf_append_of_mem hknows.subject,
    List.idxOf_append_of_mem hknows.predicate, List.idxOf_append_of_mem hknows.object]

end Codes

/-- The first triple of a batch is counted if it has not been met, and is then met itself. -/
theorem length_news_cons (ts us : List Triple) (u : Triple) :
    ((u :: us).filter (· ∉ ts)).dedup.length =
      (us.filter (· ∉ ts ++ [u])).dedup.length + (decide (u ∉ ts)).toNat := by
  by_cases hu : u ∈ ts
  · have hsame : us.filter (· ∉ ts ++ [u]) = us.filter (· ∉ ts) := by
      apply List.filter_congr
      intro a _
      have hiff : a ∈ ts ++ [u] ↔ a ∈ ts := by
        rw [List.mem_append, List.mem_singleton]
        exact ⟨fun h => h.elim id fun h => h ▸ hu, .inl⟩
      simp only [hiff]
    rw [hsame, List.filter_cons_of_neg (by simpa using hu)]
    simp [hu]
  · have herase : (us.filter (· ∉ ts ++ [u])).toFinset =
        (insert u (us.filter (· ∉ ts)).toFinset).erase u := by
      ext a
      simp only [List.mem_toFinset, List.mem_filter, List.mem_append, List.mem_singleton,
        decide_eq_true_eq, Finset.mem_erase, Finset.mem_insert, not_or]
      tauto
    have hcard := Finset.card_erase_add_one
      (Finset.mem_insert_self u (us.filter (· ∉ ts)).toFinset)
    rw [← herase, List.card_toFinset, ← List.toFinset_cons, List.card_toFinset] at hcard
    rw [List.filter_cons_of_pos (by simpa using hu), ← hcard]
    simp [hu]

namespace Memory

/-- What an insertion can do: there is no number left for a term and the indexes stay, or the same
key is put into each of them. -/
theorem insert_cases (m : Memory) (t : Triple) :
    (∃ e ids, m.ids.encode t = (.error e, ids) ∧ m.insert t = (.error e, { m with ids })) ∨
    ∃ k ids, m.ids.encode t = (.ok k, ids) ∧ m.insert t = (.ok (m.osp.insert k).1,
      ⟨ids, (m.spo.insert k).2, (m.pos.insert k).2, (m.osp.insert k).2⟩) := by
  rcases h : m.ids.encode t with ⟨e | k, ids⟩
  · exact .inl ⟨e, ids, rfl, by simp [insert, h]⟩
  · exact .inr ⟨k, ids, rfl, by simp [insert, h]⟩

/-- A memory has numbered the terms of some triples, and holds the codes of these in an index of
each order. -/
structure Represents (m : Memory) (ts : List Triple) : Prop where
  numbers : m.ids.Numbers (termsUsed ts)
  fits : (termsUsed ts).length ≤ maxId + 1
  spo : m.spo.Lists fun k => ∃ t ∈ ts, code (termsUsed ts) t = k
  pos : m.pos.Lists fun k => ∃ t ∈ ts, code (termsUsed ts) t = k
  osp : m.osp.Lists fun k => ∃ t ∈ ts, code (termsUsed ts) t = k
  spo_order : m.spo.order = .spo
  pos_order : m.pos.order = .pos
  osp_order : m.osp.order = .osp

variable {m : Memory} {ts : List Triple} {t : Triple}

theorem represents_empty : Represents {} [] := by
  have hnone (order : IndexOrder) : (Index.empty order).Lists
      fun k => ∃ t ∈ ([] : List Triple), code [] t = k := by
    simpa using Index.lists_empty order
  exact ⟨Dictionary.numbers_empty, Nat.zero_le _, hnone .spo, hnone .pos, hnone .osp, rfl, rfl, rfl⟩

/-- While there are numbers, an insertion answers whether its triple is new. -/
theorem Represents.insert (h : m.Represents ts) (t : Triple)
    (hfits : (termsUsed (ts ++ [t])).length ≤ maxId + 1) :
    ∃ m', m.insert t = (.ok (decide (t ∉ ts)), m') ∧ m'.Represents (ts ++ [t]) := by
  have hset {i : Index} (hi : i.Lists fun k => ∃ u ∈ ts, code (termsUsed ts) u = k) :
      (i.insert (code (termsUsed (ts ++ [t])) t)).2.Lists
        fun k => ∃ u ∈ ts ++ [t], code (termsUsed (ts ++ [t])) u = k := by
    convert hi.insert (code (termsUsed (ts ++ [t])) t) using 2 with k
    simp only [List.mem_append, List.mem_singleton]
    constructor
    · rintro ⟨u, hu | rfl, rfl⟩
      · exact .inr ⟨u, hu, (code_termsUsed_append hu [t]).symm⟩
      · exact .inl rfl
    · rintro (rfl | ⟨u, hu, rfl⟩)
      · exact ⟨t, .inr rfl, rfl⟩
      · exact ⟨u, .inl hu, code_termsUsed_append hu [t]⟩
  have hmem : (∃ u ∈ ts, code (termsUsed ts) u = code (termsUsed (ts ++ [t])) t) ↔ t ∈ ts := by
    constructor
    · rintro ⟨u, hu, hcode⟩
      rw [← code_termsUsed_append hu [t]] at hcode
      exact (knows_termsUsed (List.mem_append_left [t] hu)).code_inj.mp hcode ▸ hu
    · exact fun ht => ⟨t, ht, (code_termsUsed_append ht [t]).symm⟩
  have hnew : (m.osp.insert (code (termsUsed (ts ++ [t])) t)).1 = decide (t ∉ ts) := by
    rw [Bool.eq_iff_iff, decide_eq_true_iff]
    exact (h.osp.insert_fresh _).trans (not_congr hmem)
  obtain ⟨ids, hencode, hnumbers⟩ := h.numbers.encode t hfits
  obtain ⟨e, ids', he, -⟩ | ⟨k, ids', he, hinsert⟩ := m.insert_cases t <;> rw [hencode] at he <;>
    cases he
  rw [hnew] at hinsert
  exact ⟨_, hinsert, hnumbers, hfits, hset h.spo, hset h.pos, hset h.osp, h.spo_order,
    h.pos_order, h.osp_order⟩

/-- While there are numbers, an extension counts the triples that are new. -/
theorem Represents.extend (h : m.Represents ts) (us : List Triple)
    (hfits : (termsUsed (ts ++ us)).length ≤ maxId + 1) :
    ∃ m', m.extend us = (.ok (us.filter (· ∉ ts)).dedup.length, m') ∧
      m'.Represents (ts ++ us) := by
  induction us generalizing m ts with
  | nil => exact ⟨m, rfl, (List.append_nil ts).symm ▸ h⟩
  | cons u us ih =>
    rw [List.append_cons] at hfits ⊢
    obtain ⟨m', hinsert, hnext⟩ := h.insert u (length_termsUsed_le hfits)
    obtain ⟨m'', hextend, hlast⟩ := ih hnext hfits
    refine ⟨m'', ?_, hlast⟩
    simp only [Memory.extend, hinsert, hextend, length_news_cons]
    rfl

/-- After triples have been added to an empty memory, it represents them. -/
theorem represents_ofTriples {ts : List Triple} (hfits : (termsUsed ts).length ≤ maxId + 1) :
    (ofTriples ts).Represents ts := by
  obtain ⟨m, hextend, hm⟩ := represents_empty.extend ts hfits
  rwa [ofTriples, hextend]

/-- Whichever index is chosen, it holds the codes of the triples. -/
theorem Represents.lists_choose (h : m.Represents ts) (e : Three (Option Id)) :
    (m.choose e).Lists fun k => ∃ t ∈ ts, code (termsUsed ts) t = k := by
  unfold choose
  dsimp only
  split_ifs
  · exact h.osp
  · exact h.pos
  · exact h.osp
  · exact h.spo

theorem Represents.nodup_scan (h : m.Represents ts) (e : Three (Option Id)) :
    ((m.choose e).scan e).Nodup :=
  (h.lists_choose e).nodup_scan e

theorem Represents.mem_scan (h : m.Represents ts)
    {e : Three (Option Id)} {k : Three Id} :
    k ∈ (m.choose e).scan e ↔ (∃ t ∈ ts, code (termsUsed ts) t = k) ∧ Index.fits e k := by
  refine (h.lists_choose e).mem_scan ?_
  rintro _ ⟨t, ht, rfl⟩
  exact (knows_termsUsed ht).code_le h.fits

variable {p : Pattern} {e : Three (Option Id)} {x : Slot} {u : Term} {terms : List Term}

/-- A term fits what a slot fixes when it is the term that the slot demands. -/
theorem encodeSlot_fits (hm : m.ids.Numbers terms) {n : Option Id}
    (hn : m.encodeSlot x = some n) :
    (∀ a ∈ n, a = terms.idxOf u) ↔ ∀ w, x = .term w → w = u := by
  cases x with
  | var v =>
    obtain rfl : none = n := Option.some.inj hn
    simp
  | term w =>
    obtain ⟨i, hi, rfl⟩ : ∃ i, m.ids.id? w = some i ∧ some i = n := by
      simpa [encodeSlot, Option.map_eq_some_iff] using hn
    obtain ⟨hw, rfl⟩ := hm.id?_eq_some.mp hi
    simp [List.idxOf_inj hw]

theorem encodeSlot_eq_none (hm : m.ids.Numbers terms) (hn : m.encodeSlot x = none) :
    ∃ w, x = .term w ∧ w ∉ terms := by
  cases x with
  | var v => cases hn
  | term w => exact ⟨w, rfl, hm.id?_eq_none.mp (by simpa [encodeSlot] using hn)⟩

theorem encode_eq_some (he : m.encode p = some e) : m.encodeSlot p.subject = some e.1 ∧
    m.encodeSlot p.predicate = some e.2.1 ∧ m.encodeSlot p.object = some e.2.2 := by
  simp only [encode, Option.bind_eq_bind, Option.bind_eq_some_iff, Option.pure_def,
    Option.some.injEq] at he
  obtain ⟨s, hs, q, hq, o, ho, rfl⟩ := he
  exact ⟨hs, hq, ho⟩

theorem component_code {v : Variable} (hu : p.binding t v = some u) :
    component p (code terms t) v = terms.idxOf u := by
  unfold Pattern.binding at hu
  unfold component
  split_ifs at hu ⊢ <;> cases hu <;> rfl

/-- Slots demand their terms, or that the components of a variable agree. -/
theorem accepts_iff (hknows : Knows terms t)
    (hx : ∀ v, x = .var v → v ∈ p.vars) : x.Accepts (p.binding t) u ↔ (∀ w, x = .term w → w = u) ∧
      ∀ v, x = .var v → component p (code terms t) v = terms.idxOf u := by
  cases x with
  | term w => simp [Slot.Accepts]
  | var v =>
    obtain ⟨u', hu'⟩ := Option.isSome_iff_exists.mp
      (Pattern.binding_isSome.mpr (hx v rfl) : (p.binding t v).isSome)
    simp [Slot.Accepts, hu', component_code hu', List.idxOf_inj (hknows.mem_of_binding hu')]

theorem isConsistent_iff {k : Three Id} : isConsistent p k ↔
    (∀ v, p.subject = .var v → component p k v = k.1) ∧
    (∀ v, p.predicate = .var v → component p k v = k.2.1) ∧
    ∀ v, p.object = .var v → component p k v = k.2.2 := by
  obtain ⟨x, y, z⟩ := p
  cases x <;> cases y <;> cases z <;> simp [isConsistent, and_assoc]

theorem matches_iff (hm : m.ids.Numbers terms) (h : Knows terms t) (he : m.encode p = some e) :
    p.Matches t ↔ Index.fits e (code terms t) ∧ isConsistent p (code terms t) := by
  obtain ⟨hs, hp, ho⟩ := encode_eq_some he
  have hsubject := accepts_iff (p := p) (u := t.subject) h
    fun v hv => Pattern.mem_vars.mpr (.inl hv)
  have hpredicate := accepts_iff (p := p) (u := t.predicate) h
    fun v hv => Pattern.mem_vars.mpr (.inr (.inl hv))
  have hobject := accepts_iff (p := p) (u := t.object) h
    fun v hv => Pattern.mem_vars.mpr (.inr (.inr hv))
  rw [Index.fits_iff, isConsistent_iff]
  constructor
  · rintro ⟨h₁, h₂, h₃⟩
    obtain ⟨h₁, h₁'⟩ := hsubject.mp h₁
    obtain ⟨h₂, h₂'⟩ := hpredicate.mp h₂
    obtain ⟨h₃, h₃'⟩ := hobject.mp h₃
    exact ⟨⟨(encodeSlot_fits hm hs).mpr h₁, (encodeSlot_fits hm hp).mpr h₂,
      (encodeSlot_fits hm ho).mpr h₃⟩, h₁', h₂', h₃'⟩
  · rintro ⟨⟨h₁, h₂, h₃⟩, h₁', h₂', h₃'⟩
    exact ⟨hsubject.mpr ⟨(encodeSlot_fits hm hs).mp h₁, h₁'⟩,
      hpredicate.mpr ⟨(encodeSlot_fits hm hp).mp h₂, h₂'⟩,
      hobject.mpr ⟨(encodeSlot_fits hm ho).mp h₃, h₃'⟩⟩

/-- A pattern that demands an unknown term matches no triple. -/
theorem not_matches (hm : m.ids.Numbers terms) (h : Knows terms t) (he : m.encode p = none) :
    ¬ p.Matches t := by
  have hslot {x : Slot} {u : Term} (hu : u ∈ terms) (hx : m.encodeSlot x = none)
      (hacc : x.Accepts (p.binding t) u) : False := by
    obtain ⟨w, rfl, hw⟩ := encodeSlot_eq_none hm hx
    exact hw (hacc ▸ hu)
  rintro ⟨h₁, h₂, h₃⟩
  simp only [encode, Option.bind_eq_bind] at he
  cases hs : m.encodeSlot p.subject with
  | none => exact hslot h.subject hs h₁
  | some s =>
    cases hq : m.encodeSlot p.predicate with
    | none => exact hslot h.predicate hq h₂
    | some q =>
      cases ho : m.encodeSlot p.object with
      | none => exact hslot h.object ho h₃
      | some o => simp [hs, hq, ho] at he

theorem Represents.nodup_found (h : m.Represents ts) (p : Pattern) : (m.found p).Nodup := by
  unfold found
  cases m.encode p with
  | none => exact .nil
  | some e => exact (h.nodup_scan e).filter _

theorem Represents.mem_found (h : m.Represents ts) {k : Three Id} :
    k ∈ m.found p ↔ ∃ t ∈ ts, p.Matches t ∧ code (termsUsed ts) t = k := by
  unfold found
  cases he : m.encode p with
  | none =>
    simp only [List.not_mem_nil, false_iff, not_exists, not_and]
    exact fun t ht hm => (not_matches h.numbers (knows_termsUsed ht) he hm).elim
  | some e =>
    dsimp only
    rw [List.mem_filter, h.mem_scan]
    constructor
    · rintro ⟨⟨⟨t, ht, rfl⟩, hfit⟩, hcons⟩
      exact ⟨t, ht, (matches_iff h.numbers (knows_termsUsed ht) he).mpr ⟨hfit, hcons⟩, rfl⟩
    · rintro ⟨t, ht, hm, rfl⟩
      obtain ⟨hfit, hcons⟩ := (matches_iff h.numbers (knows_termsUsed ht) he).mp hm
      exact ⟨⟨⟨t, ht, rfl⟩, hfit⟩, hcons⟩

open Classical in
/-- A pattern finds each matching triple once. -/
theorem Represents.perm_found (h : m.Represents ts) (p : Pattern) :
    (m.found p).Perm ((ts.dedup.filter p.Matches).map (code (termsUsed ts))) := by
  refine (List.perm_ext_iff_of_nodup (h.nodup_found p) ?_).mpr fun k => ?_
  · apply ((List.nodup_dedup ts).filter _).map_on
    intro t ht u _ htu
    have hmem := List.mem_dedup.mp (List.mem_filter.mp ht).1
    exact (knows_termsUsed hmem).code_inj.mp htu
  · rw [h.mem_found]
    simp [and_assoc]

/-! The numbers that a memory holds have terms. -/

theorem mapM_eq_ok {ε α β : Type} {f : α → Except ε β} {g : α → β} {l : List α}
    (h : ∀ a ∈ l, f a = .ok (g a)) : l.mapM f = .ok (l.map g) := by
  induction l with
  | nil => rfl
  | cons a l ih =>
    rw [List.mapM_cons, h a List.mem_cons_self, ih fun b hb => h b (List.mem_cons_of_mem a hb)]
    rfl

theorem row_code (hm : m.ids.Numbers terms) (h : Knows terms t) :
    m.row p (code terms t) = .ok (Row.ofAssignment p.vars (p.binding t)) := by
  refine mapM_eq_ok fun v hv => ?_
  obtain ⟨u, hu⟩ := Option.isSome_iff_exists.mp
    (Pattern.binding_isSome.mpr hv : (p.binding t v).isSome)
  have hdecode : m.ids.decode (terms.idxOf u) = .ok u :=
    hm.decode_eq_ok.mpr (List.getElem?_idxOf (h.mem_of_binding hu))
  rw [component_code hu, hdecode, hu]
  rfl

open Classical in
/-- A pattern is answered by one row for each triple that matches it. -/
theorem Represents.exists_rows (h : m.Represents ts) (p : Pattern) : ∃ found : List Triple,
    found.Perm (ts.dedup.filter p.Matches) ∧ m.found p = found.map (code (termsUsed ts)) ∧
      m.rows p = .ok (found.map fun t => Row.ofAssignment p.vars (p.binding t)) := by
  obtain ⟨found, hfound, hperm⟩ : Relation.Comp (fun ks ts' => ks = ts'.map (code (termsUsed ts)))
      List.Perm (m.found p) (ts.dedup.filter p.Matches) := by
    rw [List.eq_map_comp_perm]
    exact h.perm_found p
  refine ⟨found, hperm, hfound, ?_⟩
  have hrow (t : Triple) (ht : t ∈ found) :
      m.row p (code (termsUsed ts) t) = .ok (Row.ofAssignment p.vars (p.binding t)) := by
    have hmem := (List.mem_filter.mp (hperm.mem_iff.mp ht)).1
    exact row_code h.numbers (knows_termsUsed (List.mem_dedup.mp hmem))
  rw [rows, hfound, List.mapM_map]
  exact mapM_eq_ok hrow

/-- The rows of a pattern are its solutions over the triples that the memory represents. -/
theorem Represents.solutions (h : m.Represents ts) {p : Pattern} {rows : List Row}
    (hrows : m.rows p = .ok rows) :
    (rows.map (Row.assignment p.vars) : List Assignment) = p.solutions ts := by
  classical
  obtain ⟨found, hperm, -, heq⟩ := h.exists_rows p
  obtain rfl := Except.ok.inj (hrows.symm.trans heq)
  unfold Pattern.solutions
  rw [List.map_map, Multiset.filter_coe, Multiset.map_coe, Multiset.coe_eq_coe]
  refine .trans (.of_eq (List.map_congr_left fun t _ => ?_)) (hperm.map _)
  rw [Function.comp_apply, Row.assignment_ofAssignment, (Pattern.within_binding p t).restrict_eq]

end Memory

/-- The contents of a store: triples whose predicates are IRIs and whose terms all have numbers. -/
structure Contents where
  triples : List Triple
  iri : ∀ t ∈ triples, ∃ n, t.predicate = .iri n
  fits : (termsUsed triples).length ≤ maxId + 1

/-- What plans are evaluated in over the contents of a store. -/
def Contents.context (s : Contents) (config : Config) : Context :=
  ⟨.ofMemory (.ofTriples s.triples), config, .builtin⟩

/-- The rows that a store holds for a pattern. -/
def Contents.stored (s : Contents) (p : Pattern) : List Row :=
  match (Memory.ofTriples s.triples).rows p with
  | .ok rows => rows
  | .error _ => []

theorem Contents.represents (s : Contents) : (Memory.ofTriples s.triples).Represents s.triples :=
  Memory.represents_ofTriples s.fits

theorem Contents.rows_eq (s : Contents) (p : Pattern) :
    (Memory.ofTriples s.triples).rows p = .ok (s.stored p) := by
  obtain ⟨found, -, -, hrows⟩ := s.represents.exists_rows p
  rw [stored, hrows]

theorem Contents.holds (s : Contents) (config : Config) :
    (s.context config).Holds s.triples s.stored where
  registry_eq := rfl
  lookup t := by
    refine ⟨.ofRows t.vars (s.stored t), ?_, Solutions.yields_ofRows _ _⟩
    show (Memory.ofTriples s.triples).query t = _
    rw [Memory.query, s.rows_eq]
    rfl
  width t r hr := by
    obtain ⟨found, -, -, hrows⟩ := s.represents.exists_rows t
    rw [Except.ok.inj ((s.rows_eq t).symm.trans hrows)] at hr
    obtain ⟨u, -, rfl⟩ := List.mem_map.mp hr
    simp [Row.ofAssignment]
  solutions t := s.represents.solutions (s.rows_eq t)
  iri := s.iri

/-- Two edges, one behind the other. -/
def Contents.path : Contents where
  triples := [⟨.iri "a", .iri "p", .iri "b"⟩, ⟨.iri "b", .iri "p", .iri "c"⟩]
  iri := by simp
  fits := by decide

/-- The plan that looks for an edge. -/
def edge (u v : Slot) : Plan := .triple ⟨u, .term (.iri "p"), v⟩

theorem rows_edge (s : Contents) (config : Config) (u v : Slot) :
    (edge u v).rows (s.context config) = s.stored ⟨u, .term (.iri "p"), v⟩ :=
  (Plan.answers_triple (s.holds config).toReliable _).rows_eq (s.holds config).toReliable

end TripleAlgebra.Store
