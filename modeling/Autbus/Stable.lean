import Mathlib.Data.List.Sort

/-! Lists in the order of a key, those of one key in the order they came in. A new element
goes in front of the first one with a greater key. -/
namespace Autbus
namespace Stable

variable {β κ : Type*} [LinearOrder κ]

/-- `a` comes first: it has the smaller key, or the same one since longer. -/
def Before (key : β → κ) (since : β → ℕ) (a b : β) : Prop := key a < key b ∨ key a = key b ∧ since a < since b

abbrev insert (key : β → κ) (a : β) (l : List β) : List β := l.orderedInsert (fun a b => key a < key b) a

variable {key : β → κ} {since : β → ℕ}

theorem Before.le {a b : β} (h : Before key since a b) : key a ≤ key b := by
  rcases h with h | ⟨h,-⟩
  · exact h.le
  · exact h.le

theorem mem_insert {a b : β} {l : List β} : b ∈ insert key a l ↔ b = a ∨ b ∈ l := List.mem_orderedInsert _

theorem nodup_insert {a : β} {l : List β} (h : l.Nodup) (ha : a ∉ l) : (insert key a l).Nodup :=
  (List.perm_orderedInsert _ a l).nodup_iff.mpr (List.nodup_cons.mpr ⟨ha,h⟩)

/-- An element that came in last keeps the order. -/
theorem pairwise_insert {a : β} {l : List β} (h : l.Pairwise (Before key since))
    (ha : ∀ b ∈ l, since b < since a) : (insert key a l).Pairwise (Before key since) := by
  induction l with
  | nil => exact List.pairwise_singleton _ a
  | cons b l ih =>
    obtain ⟨hb,hl⟩ := List.pairwise_cons.mp h
    rw [insert,List.orderedInsert_cons]
    by_cases hab : key a < key b
    · rw [if_pos hab]
      refine List.pairwise_cons.mpr ⟨fun c hc => Or.inl ?_,h⟩
      rcases List.mem_cons.mp hc with rfl | hc
      · exact hab
      · exact lt_of_lt_of_le hab (hb c hc).le
    · rw [if_neg hab]
      refine List.pairwise_cons.mpr ⟨fun c hc => ?_,ih hl fun c hc => ha c (List.mem_cons_of_mem _ hc)⟩
      rcases mem_insert.mp hc with rfl | hc
      · rcases lt_or_eq_of_le (not_lt.mp hab) with hlt | heq
        · exact Or.inl hlt
        · exact Or.inr ⟨heq,ha b List.mem_cons_self⟩
      · exact hb c hc

/-- An element that came in at any time keeps the order of the keys. -/
theorem sorted_insert {a : β} {l : List β} (h : l.Pairwise fun a b => key a ≤ key b) :
    (insert key a l).Pairwise fun a b => key a ≤ key b := by
  induction l with
  | nil => exact List.pairwise_singleton _ a
  | cons b l ih =>
    obtain ⟨hb,hl⟩ := List.pairwise_cons.mp h
    rw [insert,List.orderedInsert_cons]
    by_cases hab : key a < key b
    · rw [if_pos hab]
      refine List.pairwise_cons.mpr ⟨fun c hc => ?_,h⟩
      rcases List.mem_cons.mp hc with rfl | hc
      · exact hab.le
      · exact hab.le.trans (hb c hc)
    · rw [if_neg hab]
      refine List.pairwise_cons.mpr ⟨fun c hc => ?_,ih hl⟩
      rcases mem_insert.mp hc with rfl | hc
      · exact not_lt.mp hab
      · exact hb c hc

theorem pairwise_congr {key' : β → κ} {since' : β → ℕ} {l : List β} (hk : ∀ a ∈ l, key' a = key a)
    (hs : ∀ a ∈ l, since' a = since a) (h : l.Pairwise (Before key since)) : l.Pairwise (Before key' since') := by
  refine h.imp_of_mem fun ha hb hab => ?_
  unfold Before
  rw [hk _ ha,hk _ hb,hs _ ha,hs _ hb]
  exact hab

theorem head_le {a : β} {l : List β} (h : (a::l).Pairwise (Before key since)) : ∀ b ∈ a::l, key a ≤ key b := by
  intro b hb
  rcases List.mem_cons.mp hb with rfl | hb
  · exact le_refl _
  · exact ((List.pairwise_cons.mp h).1 b hb).le

end Stable
end Autbus
