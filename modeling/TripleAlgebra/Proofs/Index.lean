import TripleAlgebra.Store.Index
import Mathlib.Data.List.Nodup

/-! An index as the set of its triples. A scan finds those that fit, whatever the order. -/
namespace TripleAlgebra.Store

theorem keyLt_iff {a b : Three Nat} : keyLt a b ↔
    a.1 < b.1 ∨ a.1 = b.1 ∧ (a.2.1 < b.2.1 ∨ a.2.1 = b.2.1 ∧ a.2.2 < b.2.2) := by
  simp [keyLt]

theorem keyLt_irrefl (a : Three Id) : ¬ keyLt a a := by
  simp [keyLt_iff]

theorem keyLt_trans {a b c : Three Nat} (hab : keyLt a b) (hbc : keyLt b c) : keyLt a c := by
  rw [keyLt_iff] at *
  omega

theorem keyLt_of_not {a b : Three Nat} (h : ¬ keyLt a b) (hne : a ≠ b) : keyLt b a := by
  obtain ⟨a₁, a₂, a₃⟩ := a
  obtain ⟨b₁, b₂, b₃⟩ := b
  simp only [keyLt_iff, ne_eq, Prod.mk.injEq] at *
  omega

/-- Once a test of a list fails, it fails at all later members. -/
theorem takeWhile_eq_filter {α : Type} {p : α → Bool} {as : List α}
    (h : as.Pairwise fun a b => p b → p a) : as.takeWhile p = as.filter p := by
  induction as with
  | nil => rfl
  | cons a as ih =>
    have hp := List.pairwise_cons.mp h
    by_cases ha : p a
    · rw [List.takeWhile_cons_of_pos ha, List.filter_cons_of_pos ha, ih hp.2]
    · rw [List.takeWhile_cons_of_neg ha, List.filter_cons_of_neg ha, eq_comm,
        List.filter_eq_nil_iff]
      exact fun b hb hpb => ha (hp.1 b hb hpb)

theorem dropWhile_eq_filter {α : Type} {p : α → Bool} {as : List α}
    (h : as.Pairwise fun a b => p b → p a) : as.dropWhile p = as.filter fun a => !p a := by
  induction as with
  | nil => rfl
  | cons a as ih =>
    have hp := List.pairwise_cons.mp h
    by_cases ha : p a
    · rw [List.dropWhile_cons_of_pos ha, List.filter_cons_of_neg (by simp [ha]), ih hp.2]
    · rw [List.dropWhile_cons_of_neg ha, eq_comm, List.filter_eq_self]
      intro b hb
      rcases List.mem_cons.mp hb with rfl | hb
      · simp [ha]
      · simpa using fun hpb => ha (hp.1 b hb hpb)

namespace Index
variable {keys : List (Three Id)} {k x lower upper : Three Id} {i : Index} {p : Three (Option Id)}

theorem mem_insertKey : x ∈ (insertKey k keys).2 ↔ x = k ∨ x ∈ keys := by
  induction keys with
  | nil => simp [insertKey]
  | cons a as ih =>
    unfold insertKey
    split
    · exact List.mem_cons
    · split
      · simp [*]
      · simp only [List.mem_cons, ih]
        exact or_left_comm

theorem pairwise_insertKey (h : keys.Pairwise (keyLt · ·)) :
    (insertKey k keys).2.Pairwise (keyLt · ·) := by
  induction keys with
  | nil => exact List.pairwise_singleton _ _
  | cons a as ih =>
    have hp := List.pairwise_cons.mp h
    unfold insertKey
    split
    · rename_i hk
      refine List.pairwise_cons.mpr ⟨fun b hb => ?_, h⟩
      rcases List.mem_cons.mp hb with rfl | hb
      · exact hk
      · exact keyLt_trans hk (hp.1 b hb)
    · split
      · exact h
      · rename_i hk hne
        refine List.pairwise_cons.mpr ⟨fun b hb => ?_, ih hp.2⟩
        rcases mem_insertKey.mp hb with rfl | hb
        · exact keyLt_of_not hk hne
        · exact hp.1 b hb

/-- Whether a key is new. -/
theorem insertKey_fresh (h : keys.Pairwise (keyLt · ·)) :
    (insertKey k keys).1 = true ↔ k ∉ keys := by
  induction keys with
  | nil => simp [insertKey]
  | cons a as ih =>
    have hp := List.pairwise_cons.mp h
    unfold insertKey
    split
    · -- a key below the first one is below all
      rename_i hk
      simp only [true_iff]
      intro hmem
      rcases List.mem_cons.mp hmem with rfl | hmem
      · exact keyLt_irrefl k hk
      · exact keyLt_irrefl k (keyLt_trans hk (hp.1 k hmem))
    · split
      · simp [*]
      · rename_i hne
        simp only [List.mem_cons, hne, false_or]
        exact ih hp.2

/-- The keys between two bounds stand together. -/
theorem range_eq_filter (h : keys.Pairwise (keyLt · ·)) :
    range lower upper keys =
      (keys.filter fun k => !keyLt k lower).filter fun k => !keyLt upper k := by
  unfold range
  rw [dropWhile_eq_filter (h.imp fun hab hb => keyLt_trans hab hb)]
  refine takeWhile_eq_filter ((h.filter _).imp fun {a b} hab hb => ?_)
  simp only [Bool.not_eq_true', Bool.eq_false_iff] at *
  exact fun ha => hb (keyLt_trans ha hab)

theorem fits_reorder (order : IndexOrder) (p : Three (Option Id)) (k : Three Id) :
    fits (order.reorder p) (order.reorder k) = fits p k := by
  obtain ⟨p₁, p₂, p₃⟩ := p
  obtain ⟨k₁, k₂, k₃⟩ := k
  cases order
  · rfl
  · exact (Bool.and_comm _ _).trans (Bool.and_assoc _ _ _).symm
  · exact (Bool.and_assoc _ _ _).trans (Bool.and_comm _ _)

theorem fits_iff {p : Three (Option Nat)} {k : Three Nat} : fits p k ↔
    (∀ a ∈ p.1, a = k.1) ∧ (∀ b ∈ p.2.1, b = k.2.1) ∧ ∀ c ∈ p.2.2, c = k.2.2 := by
  simp [fits, Option.all_eq_true, and_assoc]

/-- Keys within the number space that fit a pattern are between its bounds. -/
theorem between_of_fits {p : Three (Option Nat)} {k : Three Nat} (hfits : fits p k)
    (hk : k.1 ≤ maxId ∧ k.2.1 ≤ maxId ∧ k.2.2 ≤ maxId) :
    ¬ keyLt k (bounds p).1 ∧ ¬ keyLt (bounds p).2 k := by
  obtain ⟨p₁, p₂, p₃⟩ := p
  obtain ⟨k₁, k₂, k₃⟩ := k
  obtain ⟨h₁, h₂, h₃⟩ := fits_iff.mp hfits
  rw [keyLt_iff, keyLt_iff]
  dsimp only at h₁ h₂ h₃ hk
  cases p₁ with
  | none => dsimp only [bounds]; omega
  | some a =>
    obtain rfl := h₁ a rfl
    cases p₂ with
    | none => dsimp only [bounds]; omega
    | some b =>
      obtain rfl := h₂ b rfl
      cases p₃ with
      | none => dsimp only [bounds]; omega
      | some c =>
        obtain rfl := h₃ c rfl
        dsimp only [bounds]
        omega

/-- An index holds the triples of a set, each once. -/
structure Lists (i : Index) (E : Three Id → Prop) : Prop where
  sorted : i.keys.Pairwise (keyLt · ·)
  mem : ∀ t, i.order.reorder t ∈ i.keys ↔ E t

theorem lists_empty (order : IndexOrder) : (empty order).Lists fun _ => False :=
  ⟨.nil, fun _ => List.mem_nil_iff _⟩

variable {E : Three Id → Prop}

theorem Lists.insert (h : i.Lists E) (t : Three Id) :
    (i.insert t).2.Lists fun u => u = t ∨ E u := by
  refine ⟨pairwise_insertKey h.sorted, fun u => ?_⟩
  have hinj : i.order.reorder u = i.order.reorder t ↔ u = t :=
    ⟨fun hut => by simpa using congrArg i.order.restore hut, congrArg _⟩
  exact mem_insertKey.trans (or_congr hinj (h.mem u))

theorem Lists.insert_fresh (h : i.Lists E) (t : Three Id) : (i.insert t).1 = true ↔ ¬ E t :=
  (insertKey_fresh h.sorted).trans (not_congr (h.mem t))

theorem Lists.nodup_keys (h : i.Lists E) : i.keys.Nodup :=
  h.sorted.imp fun {a b} hab he => by
    subst he
    exact keyLt_irrefl a hab

theorem restore_injective (order : IndexOrder) :
    Function.Injective (order.restore : Three Id → Three Id) := fun a b hab => by
  simpa using congrArg order.reorder hab

theorem Lists.nodup_scan (h : i.Lists E) (p : Three (Option Id)) : (i.scan p).Nodup := by
  simp only [scan, range_eq_filter h.sorted]
  exact (((h.nodup_keys.filter _).filter _).map (restore_injective i.order)).filter _

theorem Lists.mem_restored (h : i.Lists E) {t : Three Id} :
    t ∈ i.keys.map i.order.restore ↔ E t := by
  rw [← h.mem t, List.mem_map]
  constructor
  · rintro ⟨k, hk, rfl⟩
    simpa using hk
  · exact fun ht => ⟨_, ht, IndexOrder.restore_reorder _ _⟩

/-- A scan is a search through all keys. -/
theorem Lists.scan_eq_filter (h : i.Lists E)
    (hE : ∀ t, E t → t.1 ≤ maxId ∧ t.2.1 ≤ maxId ∧ t.2.2 ≤ maxId) (p : Three (Option Id)) :
    i.scan p = (i.keys.map i.order.restore).filter (fits p) := by
  simp only [scan, range_eq_filter h.sorted]
  rw [List.filter_map, List.filter_map, List.filter_filter, List.filter_filter]
  refine congrArg _ (List.filter_congr fun k hk => ?_)
  have hspace : k.1 ≤ maxId ∧ k.2.1 ≤ maxId ∧ k.2.2 ≤ maxId := by
    obtain ⟨h₁, h₂, h₃⟩ := hE _ (h.mem_restored.mp (List.mem_map_of_mem hk))
    revert h₁ h₂ h₃
    cases i.order
    · exact fun h₁ h₂ h₃ => ⟨h₁, h₂, h₃⟩
    · exact fun h₁ h₂ h₃ => ⟨h₂, h₃, h₁⟩
    · exact fun h₁ h₂ h₃ => ⟨h₃, h₁, h₂⟩
  cases hfits : fits p (i.order.restore k) with
  | false => simp [hfits]
  | true =>
    have hkey := fits_reorder i.order p (i.order.restore k)
    rw [IndexOrder.reorder_restore, hfits] at hkey
    obtain ⟨hlower, hupper⟩ := between_of_fits hkey hspace
    simp [hfits, hlower, hupper]

theorem Lists.mem_scan (h : i.Lists E)
    (hE : ∀ t, E t → t.1 ≤ maxId ∧ t.2.1 ≤ maxId ∧ t.2.2 ≤ maxId) {t : Three Id} :
    t ∈ i.scan p ↔ E t ∧ fits p t := by
  rw [h.scan_eq_filter hE, List.mem_filter, h.mem_restored]

end Index
end TripleAlgebra.Store
