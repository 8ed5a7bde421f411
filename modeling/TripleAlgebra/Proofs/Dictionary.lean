import TripleAlgebra.Proofs.Numbering
import TripleAlgebra.Store.Dictionary

/-! The two maps of a dictionary agree, and terms are numbered in the order of their first use. -/
namespace TripleAlgebra.Store

/-- The terms of a triple in the order in which they are met. -/
def termsOf (t : Triple) : List Term := [t.subject, t.predicate, t.object]

/-- The terms that triples use, in the order of their first use. -/
def termsUsed (ts : List Triple) : List Term := (ts.flatMap termsOf).eraseDups

/-- The numbers of the terms of a triple. -/
def code (terms : List Term) (t : Triple) : Three Id :=
  (terms.idxOf t.subject, terms.idxOf t.predicate, terms.idxOf t.object)

/-- All terms of a triple have numbers. -/
structure Knows (terms : List Term) (t : Triple) : Prop where
  subject : t.subject ∈ terms
  predicate : t.predicate ∈ terms
  object : t.object ∈ terms

theorem mem_termsUsed {ts : List Triple} {x : Term} :
    x ∈ termsUsed ts ↔ ∃ t ∈ ts, x ∈ termsOf t := by
  rw [termsUsed, List.mem_eraseDups, List.mem_flatMap]

theorem knows_termsUsed {ts : List Triple} {t : Triple} (h : t ∈ ts) : Knows (termsUsed ts) t := by
  have hmem {x : Term} (hx : x ∈ termsOf t) : x ∈ termsUsed ts := mem_termsUsed.mpr ⟨t, h, hx⟩
  exact ⟨hmem (by simp [termsOf]), hmem (by simp [termsOf]), hmem (by simp [termsOf])⟩

theorem isPrefix_termsUsed (ts us : List Triple) : termsUsed ts <+: termsUsed (ts ++ us) := by
  rw [termsUsed, termsUsed, List.flatMap_append]
  exact isPrefix_eraseDups _ _

theorem length_termsUsed_le {ts us : List Triple} {n : Nat}
    (h : (termsUsed (ts ++ us)).length ≤ n) : (termsUsed ts).length ≤ n :=
  Nat.le_trans (isPrefix_termsUsed ts us).length_le h

theorem getElem?_concat_eq_some {α : Type} {l : List α} {x y : α} {n : Nat} :
    (l ++ [x])[n]? = some y ↔ l[n]? = some y ∨ n = l.length ∧ x = y := by
  rw [List.getElem?_append, List.getElem?_singleton]
  split
  · have hne : n ≠ l.length := by omega
    simp [hne]
  · have hnone : l[n]? = none := List.getElem?_eq_none (by omega)
    have hlast : n - l.length = 0 ↔ n = l.length := by omega
    simp [hnone, hlast]

namespace Dictionary

/-- The maps of a dictionary number terms by their places in a list, in both directions. -/
structure Numbers (d : Dictionary) (terms : List Term) : Prop where
  next : d.next.toNat = terms.length
  id? : ∀ x n, d.id? x = some n ↔ terms[n]? = some x
  termOf : ∀ n x, d.termOf.lookup n = some x ↔ terms[n]? = some x

variable {d : Dictionary} {terms : List Term} {x : Term} {n : Id}

theorem numbers_empty : Numbers {} [] := ⟨rfl, by simp [id?], by simp⟩

/-! What a step can do: the term is known, it takes the next number in both maps, or there is no
number left. -/

theorem obtainId_of_known (h : d.id? x = some n) : d.obtainId x = (.ok n, d) := by
  simp [obtainId, h]

theorem obtainId_of_new (h : d.id? x = none) (hfits : d.next.toNat ≤ maxId) :
    d.obtainId x = (.ok d.next.toNat,
      ⟨d.next + 1, (d.next.toNat, x) :: d.termOf, (x, d.next.toNat) :: d.idOf⟩) := by
  simp [obtainId, h, hfits]

theorem obtainId_of_exhausted (h : d.id? x = none) (hfull : maxId < d.next.toNat) :
    d.obtainId x = (.error (exhausted d.next), { d with next := d.next + 1 }) := by
  simp [obtainId, h, Nat.not_le.mpr hfull]

/-- A number is not taken back, whether or not there is one for the next term. -/
theorem id?_obtainId (h : d.id? x = some n) (y : Term) : (d.obtainId y).2.id? x = some n := by
  cases hy : d.id? y with
  | some k => rw [obtainId_of_known hy, h]
  | none =>
    by_cases hfits : d.next.toNat ≤ maxId
    · have hne : x ≠ y := by
        rintro rfl
        simp [hy] at h
      rw [obtainId_of_new hy hfits, id?, List.lookup_cons, beq_false_of_ne hne]
      exact h
    · rw [obtainId_of_exhausted hy (Nat.lt_of_not_le hfits)]
      exact h

namespace Numbers

theorem decode_eq_ok (h : d.Numbers terms) : d.decode n = .ok x ↔ terms[n]? = some x := by
  rw [← h.termOf]
  unfold decode
  cases d.termOf.lookup n <;> simp

theorem nodup (h : d.Numbers terms) : terms.Nodup := by
  rw [List.nodup_iff_getElem?_ne_getElem?]
  intro i j hij hj heq
  have hx : terms[j]? = some terms[j] := List.getElem?_eq_getElem hj
  have hi := (h.id? _ _).mpr (heq.trans hx)
  have hj := (h.id? _ _).mpr hx
  have hsame : some i = some j := hi.symm.trans hj
  simp only [Option.some.injEq] at hsame
  omega

theorem id?_eq_none (h : d.Numbers terms) : d.id? x = none ↔ x ∉ terms := by
  rw [List.mem_iff_getElem?, Option.eq_none_iff_forall_ne_some]
  simp only [ne_eq, h.id?, not_exists]

theorem id?_eq_some (h : d.Numbers terms) : d.id? x = some n ↔ x ∈ terms ∧ terms.idxOf x = n := by
  rw [h.id?]
  constructor
  · intro hx
    obtain ⟨hn, rfl⟩ := List.getElem?_eq_some_iff.mp hx
    exact ⟨List.getElem_mem hn, h.nodup.idxOf_getElem n hn⟩
  · rintro ⟨hx, rfl⟩
    exact List.getElem?_idxOf hx

/-- A term that is not in the list is put behind the others in both maps. -/
theorem concat (h : d.Numbers terms) (hx : x ∉ terms) (hfits : terms.length ≤ maxId) :
    Numbers ⟨d.next + 1, (d.next.toNat, x) :: d.termOf, (x, d.next.toNat) :: d.idOf⟩
      (terms ++ [x]) where
  next := by
    have hbound : terms.length + 1 < 2 ^ 64 := by
      rw [maxId] at hfits
      omega
    rw [UInt64.toNat_add, h.next, List.length_append]
    exact Nat.mod_eq_of_lt hbound
  id? y n := by
    rw [getElem?_concat_eq_some, Dictionary.id?, List.lookup_cons, h.next]
    by_cases hy : y = x
    · subst hy
      have hnot : terms[n]? ≠ some y := fun hn => hx (List.mem_of_getElem? hn)
      simp [hnot, eq_comm]
    · rw [beq_false_of_ne hy]
      simp only [Ne.symm hy, and_false, or_false]
      exact h.id? y n
  termOf n y := by
    rw [getElem?_concat_eq_some, List.lookup_cons, h.next]
    by_cases hn : n = terms.length
    · subst hn
      simp
    · rw [beq_false_of_ne hn]
      simp only [hn, false_and, or_false]
      exact h.termOf n y

/-- A term gets the number of its first use, if there is one for it. -/
theorem obtainId {used : List Term} (h : d.Numbers used.eraseDups) (x : Term)
    (hfits : (used ++ [x]).eraseDups.length ≤ maxId + 1) : ∃ d',
    d.obtainId x = (.ok ((used ++ [x]).eraseDups.idxOf x), d') ∧
      d'.Numbers (used ++ [x]).eraseDups := by
  rw [eraseDups_concat] at hfits ⊢
  by_cases hx : x ∈ used
  · rw [if_pos hx]
    exact ⟨d, obtainId_of_known (h.id?_eq_some.mpr ⟨List.mem_eraseDups.mpr hx, rfl⟩), h⟩
  · have hnew : x ∉ used.eraseDups := mt List.mem_eraseDups.mp hx
    rw [if_neg hx] at hfits ⊢
    have hroom : used.eraseDups.length ≤ maxId := by
      rw [List.length_append] at hfits
      exact Nat.le_of_succ_le_succ hfits
    have hnumber : (used.eraseDups ++ [x]).idxOf x = d.next.toNat := by
      rw [List.idxOf_append_of_notMem hnew, List.idxOf_cons_self, h.next, Nat.add_zero]
    rw [hnumber]
    exact ⟨_, obtainId_of_new (h.id?_eq_none.mpr hnew) (h.next ▸ hroom), h.concat hnew hroom⟩

end Numbers

/-! The terms of a triple are numbered one after the other. -/

/-- The numbers of a triple are those of its terms, if there is one for each of them. -/
theorem Numbers.encode {ts : List Triple} (h : d.Numbers (termsUsed ts)) (t : Triple)
    (hfits : (termsUsed (ts ++ [t])).length ≤ maxId + 1) : ∃ d',
    d.encode t = (.ok (code (termsUsed (ts ++ [t])) t), d') ∧
      d'.Numbers (termsUsed (ts ++ [t])) := by
  unfold termsUsed at h
  have hall : termsUsed (ts ++ [t]) =
      (ts.flatMap termsOf ++ [t.subject] ++ [t.predicate] ++ [t.object]).eraseDups := by
    simp [termsUsed, termsOf]
  rw [hall] at hfits ⊢
  generalize ts.flatMap termsOf = used at h hfits
  have hroom {l l' : List Term} (hl : (l ++ l').eraseDups.length ≤ maxId + 1) :
      l.eraseDups.length ≤ maxId + 1 := Nat.le_trans (isPrefix_eraseDups l l').length_le hl
  obtain ⟨d₁, hs, h₁⟩ := h.obtainId t.subject (hroom (hroom hfits))
  obtain ⟨d₂, hp, h₂⟩ := h₁.obtainId t.predicate (hroom hfits)
  obtain ⟨d₃, ho, h₃⟩ := h₂.obtainId t.object hfits
  refine ⟨d₃, ?_, h₃⟩
  have hsubject := idxOf_eraseDups_append (l := used ++ [t.subject]) (x := t.subject)
    (by simp) ([t.predicate] ++ [t.object])
  have hpredicate := idxOf_eraseDups_append (l := used ++ [t.subject] ++ [t.predicate])
    (x := t.predicate) (by simp) [t.object]
  simp only [← List.append_assoc] at hsubject
  simp only [Dictionary.encode, hs, hp, ho, code, hsubject, hpredicate]

theorem id?_encode (h : d.id? x = some n) (t : Triple) : (d.encode t).2.id? x = some n := by
  have hs := id?_obtainId h t.subject
  unfold encode
  rcases hsubject : d.obtainId t.subject with ⟨_ | s, d₁⟩ <;> rw [hsubject] at hs
  · exact hs
  · have hp := id?_obtainId hs t.predicate
    dsimp only at hp ⊢
    rcases hpredicate : d₁.obtainId t.predicate with ⟨_ | p, d₂⟩ <;> rw [hpredicate] at hp
    · exact hp
    · have ho := id?_obtainId hp t.object
      dsimp only at ho ⊢
      rcases hobject : d₂.obtainId t.object with ⟨_ | o, d₃⟩ <;> rw [hobject] at ho
      · exact ho
      · exact ho

end Dictionary
end TripleAlgebra.Store
