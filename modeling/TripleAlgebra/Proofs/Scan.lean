import TripleAlgebra.Proofs.Journal
import Mathlib.Data.Prod.Lex

/-! A scan of an index finds what a search through all of its triples finds, in the order of the
index. In the index that a store chooses for a pattern, it does not even meet other triples. -/
namespace TripleAlgebra.Store

/-- A key as an element of the lexicographic order. -/
def lexKey (k : Three Id) : ℕ ×ₗ ℕ ×ₗ ℕ := toLex (k.1, toLex k.2)

theorem keyLt_iff_lexKey {a b : Three Id} : keyLt a b ↔ lexKey a < lexKey b := by
  rw [keyLt_iff, lexKey, lexKey, Prod.Lex.toLex_lt_toLex, Prod.Lex.toLex_lt_toLex]

/-! Patterns of encoded triples. -/

/-- The triple has each component that the pattern binds. -/
structure Agrees (p : Three (Option Id)) (t : Three Id) : Prop where
  subject : ∀ a ∈ p.1, a = t.1
  predicate : ∀ b ∈ p.2.1, b = t.2.1
  object : ∀ c ∈ p.2.2, c = t.2.2

/-- How many components a pattern binds. -/
def boundCount (p : Three (Option Id)) : Nat := [p.1, p.2.1, p.2.2].countP Option.isSome

/-- No component behind an unbound one is bound. -/
@[mk_iff]
structure Leading (p : Three (Option Id)) : Prop where
  second : p.1 = none → p.2.1 = none
  third : p.2.1 = none → p.2.2 = none

section
variable {p : Three (Option Id)} {k t : Three Id}

theorem agrees_iff : Agrees p t ↔ Index.fits p t := by
  rw [Index.fits_iff]
  exact ⟨fun h => ⟨h.subject, h.predicate, h.object⟩, fun ⟨h₁, h₂, h₃⟩ => ⟨h₁, h₂, h₃⟩⟩

theorem boundCount_reorder (order : IndexOrder) (p : Three (Option Id)) :
    boundCount (order.reorder p) = boundCount p := by
  obtain ⟨s, p, o⟩ := p
  cases order with
  | spo => rfl
  | pos => exact (@List.perm_append_comm _ [p, o] [s]).countP_eq _
  | osp => exact (@List.perm_append_comm _ [o] [s, p]).countP_eq _

/-- Whatever components a pattern binds, they are in front in one of the orders. -/
theorem exists_leading (p : Three (Option Id)) :
    ∃ order : IndexOrder, Leading (order.reorder p) := by
  obtain ⟨_ | s, _ | p, _ | o⟩ := p
  · exact ⟨.spo, fun _ => rfl, fun _ => rfl⟩
  · exact ⟨.osp, nofun, fun _ => rfl⟩
  · exact ⟨.pos, nofun, fun _ => rfl⟩
  · exact ⟨.pos, nofun, nofun⟩
  · exact ⟨.spo, nofun, fun _ => rfl⟩
  · exact ⟨.osp, nofun, nofun⟩
  · exact ⟨.spo, nofun, nofun⟩
  · exact ⟨.spo, nofun, nofun⟩

/-- Keys between the bounds of a pattern fit it if the bound components are in front. -/
theorem Leading.fits_of_between {p : Three (Option Nat)} {k : Three Nat} (hp : Leading p)
    (hlower : ¬ keyLt k (Index.bounds p).1) (hupper : ¬ keyLt (Index.bounds p).2 k) :
    Index.fits p k := by
  obtain ⟨p₁, p₂, p₃⟩ := p
  obtain ⟨h₂, h₃⟩ := hp
  rw [keyLt_iff] at hlower hupper
  rw [Index.fits_iff]
  cases p₁ with
  | none =>
    obtain rfl : p₂ = none := h₂ rfl
    obtain rfl : p₃ = none := h₃ rfl
    exact ⟨nofun, nofun, nofun⟩
  | some a =>
    cases p₂ with
    | none =>
      obtain rfl : p₃ = none := h₃ rfl
      dsimp only [Index.bounds] at hlower hupper
      refine ⟨?_, nofun, nofun⟩
      rintro _ ⟨⟩
      omega
    | some b =>
      cases p₃ with
      | none =>
        dsimp only [Index.bounds] at hlower hupper
        refine ⟨?_, ?_, nofun⟩ <;> rintro _ ⟨⟩ <;> omega
      | some c =>
        dsimp only [Index.bounds] at hlower hupper
        refine ⟨?_, ?_, ?_⟩ <;> rintro _ ⟨⟩ <;> omega

end

namespace Index

/-- An index of encoded triples that were inserted one after the other. -/
def ofCodes (order : IndexOrder) (codes : List (Three Id)) : Index :=
  codes.foldl (fun i t => (i.insert t).2) (.empty order)

/-- The triples that a scan meets, before those that do not agree with the pattern are left out. -/
def met (i : Index) (p : Three (Option Id)) : List (Three Id) :=
  (range (bounds (i.order.reorder p)).1 (bounds (i.order.reorder p)).2 i.keys).map i.order.restore

/-- The bounds of a scan use all bound components, and the scan has nothing to leave out. -/
structure Suits (i : Index) (p : Three (Option Id)) : Prop where
  score : i.score p = boundCount p
  agrees : ∀ t ∈ i.met p, Agrees p t
  scan : i.scan p = i.met p

variable {i : Index} {E : Three Id → Prop} {p : Three (Option Id)}

theorem ofCodes_concat (order : IndexOrder) (codes : List (Three Id)) (t : Three Id) :
    ofCodes order (codes ++ [t]) = ((ofCodes order codes).insert t).2 :=
  List.foldl_append

theorem order_ofCodes (order : IndexOrder) (codes : List (Three Id)) :
    (ofCodes order codes).order = order := by
  induction codes using List.reverseRecOn with
  | nil => rfl
  | append_singleton codes t ih =>
    rw [ofCodes_concat]
    exact ih

theorem lists_ofCodes (order : IndexOrder) (codes : List (Three Id)) :
    (ofCodes order codes).Lists (· ∈ codes) := by
  induction codes using List.reverseRecOn with
  | nil => exact ⟨.nil, fun _ => iff_of_false List.not_mem_nil List.not_mem_nil⟩
  | append_singleton codes t ih =>
    rw [ofCodes_concat]
    simpa [or_comm] using ih.insert t

/-- The triples of an index stand in the order of their keys. -/
theorem Lists.pairwise_triples (h : i.Lists E) :
    i.triples.Pairwise fun t u => lexKey (i.order.reorder t) < lexKey (i.order.reorder u) := by
  refine List.pairwise_map.mpr (h.sorted.imp fun {a b} hab => ?_)
  rw [IndexOrder.reorder_restore, IndexOrder.reorder_restore]
  exact keyLt_iff_lexKey.mp hab

theorem score_le (i : Index) (p : Three (Option Id)) : i.score p ≤ boundCount p := by
  rw [← boundCount_reorder i.order p, score]
  rcases i.order.reorder p with ⟨_ | a, _ | b, _ | c⟩ <;> simp [boundCount]

theorem score_eq_iff : i.score p = boundCount p ↔ Leading (i.order.reorder p) := by
  rw [← boundCount_reorder i.order p, score]
  rcases i.order.reorder p with ⟨_ | a, _ | b, _ | c⟩ <;> simp [boundCount, leading_iff]

theorem scan_eq_filter_met (i : Index) (p : Three (Option Id)) :
    i.scan p = (i.met p).filter (fits p) :=
  rfl

/-- A scan whose bounds use all bound components meets no other triples. -/
theorem suits_of_score (h : i.keys.Pairwise (keyLt · ·)) (hscore : i.score p = boundCount p) :
    i.Suits p := by
  have hagrees : ∀ t ∈ i.met p, Agrees p t := by
    intro t ht
    obtain ⟨k, hk, rfl⟩ := List.mem_map.mp ht
    rw [range_eq_filter h] at hk
    simp only [List.mem_filter, Bool.not_eq_true', Bool.eq_false_iff] at hk
    rw [agrees_iff, ← fits_reorder i.order, IndexOrder.reorder_restore]
    exact (score_eq_iff.mp hscore).fits_of_between hk.1.2 hk.2
  refine ⟨hscore, hagrees, ?_⟩
  rw [scan_eq_filter_met, List.filter_eq_self]
  exact fun t ht => agrees_iff.mp (hagrees t ht)

end Index

namespace Memory

/-- A memory into whose indexes encoded triples were inserted. -/
def ofCodes (ids : Dictionary) (codes : List (Three Id)) : Memory where
  ids
  spo := .ofCodes .spo codes
  pos := .ofCodes .pos codes
  osp := .ofCodes .osp codes

theorem ofCodes_concat (ids : Dictionary) (codes : List (Three Id)) (t : Three Id) :
    ofCodes ids (codes ++ [t]) = ⟨ids, ((ofCodes ids codes).spo.insert t).2,
      ((ofCodes ids codes).pos.insert t).2, ((ofCodes ids codes).osp.insert t).2⟩ := by
  simp only [ofCodes, Index.ofCodes_concat]

theorem exists_insert_ofCodes (ids : Dictionary) (codes : List (Three Id)) (t : Triple) :
    ∃ ids' codes', ((ofCodes ids codes).insert t).2 = ofCodes ids' codes' := by
  obtain ⟨e, ids', -, h⟩ | ⟨k, ids', -, h⟩ := (ofCodes ids codes).insert_cases t <;> rw [h]
  · exact ⟨ids', codes, rfl⟩
  · exact ⟨ids', codes ++ [k], (ofCodes_concat ids' codes k).symm⟩

theorem exists_extend_ofCodes (ids : Dictionary) (codes : List (Three Id)) (ts : List Triple) :
    ∃ ids' codes', ((ofCodes ids codes).extend ts).2 = ofCodes ids' codes' := by
  induction ts generalizing ids codes with
  | nil => exact ⟨ids, codes, rfl⟩
  | cons t ts ih =>
    obtain ⟨ids', codes', h⟩ := exists_insert_ofCodes ids codes t
    unfold extend
    rcases hinsert : (ofCodes ids codes).insert t with ⟨e | fresh, m⟩ <;> rw [hinsert] at h <;>
      obtain rfl : m = _ := h
    · exact ⟨ids', codes', rfl⟩
    · exact ih ids' codes'

/-- The indexes of a store hold the same encoded triples after any history of changes. -/
theorem exists_journal_ofCodes (ids : Dictionary) (codes : List (Three Id)) (cs : List Change) :
    ∃ ids' codes', ((ofCodes ids codes).journal cs).2 = ofCodes ids' codes' := by
  induction cs generalizing ids codes with
  | nil => exact ⟨ids, codes, rfl⟩
  | cons c cs ih =>
    have happly : ∃ ids' codes', ((ofCodes ids codes).apply c).2 = ofCodes ids' codes' := by
      cases c with
      | insert t => exact exists_insert_ofCodes ids codes t
      | extend ts => exact exists_extend_ofCodes ids codes ts
    obtain ⟨ids', codes', h⟩ := happly
    simpa only [journal, h] using ih ids' codes'

theorem exists_choose (ids : Dictionary) (codes : List (Three Id)) (p : Three (Option Id)) :
    ∃ order, (ofCodes ids codes).choose p = .ofCodes order codes := by
  unfold choose
  dsimp only
  split_ifs
  · exact ⟨.osp, rfl⟩
  · exact ⟨.pos, rfl⟩
  · exact ⟨.osp, rfl⟩
  · exact ⟨.spo, rfl⟩

theorem score_le_choose (m : Memory) (p : Three (Option Id)) :
    m.spo.score p ≤ (m.choose p).score p ∧ m.pos.score p ≤ (m.choose p).score p ∧
      m.osp.score p ≤ (m.choose p).score p := by
  unfold choose
  dsimp only
  split_ifs <;> omega

/-- The bounds of a scan in the chosen index use all bound components. -/
theorem score_choose (ids : Dictionary) (codes : List (Three Id)) (p : Three (Option Id)) :
    ((ofCodes ids codes).choose p).score p = boundCount p := by
  refine Nat.le_antisymm (Index.score_le _ p) ?_
  obtain ⟨hspo, hpos, hosp⟩ := (ofCodes ids codes).score_le_choose p
  obtain ⟨order, horder⟩ := exists_leading p
  have hscore : (Index.ofCodes order codes).score p = boundCount p := by
    rwa [Index.score_eq_iff, Index.order_ofCodes]
  rw [← hscore]
  cases order with
  | spo => exact hspo
  | pos => exact hpos
  | osp => exact hosp

theorem suits_choose (ids : Dictionary) (codes : List (Three Id)) (p : Three (Option Id)) :
    ((ofCodes ids codes).choose p).Suits p := by
  have hscore := score_choose ids codes p
  obtain ⟨order, h⟩ := exists_choose ids codes p
  rw [h] at hscore ⊢
  exact Index.suits_of_score (Index.lists_ofCodes order codes).sorted hscore

end Memory

/-- In each order, a scan finds the inserted triples that agree with the pattern, each once and in
the order of the index, as a search through the whole index does. The index that a store chooses
has all bound components in front, and a scan of it meets no other triples. -/
theorem scan_filters_index (codes : List (Three Id))
    (hcodes : ∀ t ∈ codes, t.1 ≤ maxId ∧ t.2.1 ≤ maxId ∧ t.2.2 ≤ maxId) (p : Three (Option Id)) :
    (∀ order, let i := Index.ofCodes order codes
      i.scan p = i.triples.filter (Index.fits p) ∧
      (∀ t, t ∈ i.scan p ↔ t ∈ codes ∧ Agrees p t) ∧
      (i.scan p).Nodup ∧
      (i.scan p).Pairwise fun t u => lexKey (order.reorder t) < lexKey (order.reorder u)) ∧
    (∀ ids, ((Memory.ofCodes ids codes).choose p).Suits p) ∧
    ∀ changes, ((Memory.journal {} changes).2.choose p).Suits p := by
  refine ⟨fun order => ?_, fun ids => Memory.suits_choose ids codes p, fun changes => ?_⟩
  · intro i
    have hi : i.Lists (· ∈ codes) := Index.lists_ofCodes order codes
    have hscan : i.scan p = i.triples.filter (Index.fits p) := hi.scan_eq_filter hcodes p
    refine ⟨hscan, fun t => ?_, hi.nodup_scan p, ?_⟩
    · rw [hi.mem_scan hcodes, agrees_iff]
    · have horder := hi.pairwise_triples.filter (Index.fits p)
      rw [← hscan] at horder
      rwa [Index.order_ofCodes] at horder
  · obtain ⟨ids, codes, h⟩ := Memory.exists_journal_ofCodes {} [] changes
    have hstart : (Memory.journal {} changes).2 = .ofCodes ids codes := h
    rw [hstart]
    exact Memory.suits_choose ids codes p

/-- Subject and object are bound to the least and the greatest number. -/
theorem scan_filters_index_extreme :
    let codes : List (Three Id) := [(0, maxId, maxId), (0, 0, maxId), (0, 7, 0), (1, 7, maxId)]
    let p : Three (Option Id) := (some 0, none, some maxId)
    (∀ t ∈ codes, t.1 ≤ maxId ∧ t.2.1 ≤ maxId ∧ t.2.2 ≤ maxId) ∧
      (∀ order, (Index.ofCodes order codes).scan p = [(0, 0, maxId), (0, maxId, maxId)]) ∧
      ((Memory.ofCodes {} codes).choose p).order = .osp ∧
      ((Memory.ofCodes {} codes).choose p).score p = 2 := by
  intro codes p
  have hcodes : ∀ t ∈ codes, t.1 ≤ maxId ∧ t.2.1 ≤ maxId ∧ t.2.2 ≤ maxId := by decide
  obtain ⟨hscan, hchoose, -⟩ := scan_filters_index codes hcodes p
  refine ⟨hcodes, fun order => ?_, by decide, (hchoose {}).score⟩
  rw [(hscan order).1]
  cases order <;> decide

end TripleAlgebra.Store
