import Mathlib.Data.List.GetD

/-! Slots that are written in turn, against the values that were written. -/
namespace Autbus
namespace Rings

/-- The place that is `k` places before `next`, of `n` places in a ring. -/
def before (n next k : ℕ) : ℕ := if k ≤ next then next-k else next+n-k

variable {α : Type*} {d : α} {slots past : List α} {n next j k : ℕ}

theorem before_zero : before n next 0 = next := if_pos (Nat.zero_le _)

theorem before_lt (hnext : next < n) : before n next k < n := by
  unfold before
  split
  · exact Nat.lt_of_le_of_lt (Nat.sub_le _ _) hnext
  · omega

theorem before_inj (hj : j < n) (hk : k < n) (h : before n next j = before n next k) : j = k := by
  unfold before at h
  split at h <;> split at h <;> omega

/-- What is behind the next place after it was written. -/
theorem before_succ (hnext : next < n) (hk : k < n) : before n ((next+1) % n) (k+1) = before n next k := by
  unfold before
  by_cases hwrap : next+1 = n
  · rw [hwrap,Nat.mod_self,if_neg (by omega)]
    split <;> omega
  · rw [Nat.mod_eq_of_lt (by omega)]
    split <;> split <;> omega

/-- The slots hold the last values that were written, the newest one before the next place. -/
structure Holds (d : α) (slots : List α) (next : ℕ) (past : List α) : Prop where
  next_lt : next < slots.length
  slot : ∀ k < slots.length, slots.getD (before slots.length next (k+1)) d = past.getD k d

theorem Holds.empty (hn : 0 < n) : Holds d (.replicate n d) 0 [] where
  next_lt := by simpa using hn
  slot k hk := by
    have hlt : before (List.replicate n d).length 0 (k+1) < (List.replicate n d).length := before_lt (by simpa using hn)
    rw [List.getD_eq_getElem _ _ hlt,List.getElem_replicate,List.getD_nil]

/-- A value that is written is the newest one. -/
theorem Holds.push (h : Holds d slots next past) (x : α) :
    Holds d (slots.set next x) ((next+1) % slots.length) (x::past) where
  next_lt := by
    rw [List.length_set]
    exact Nat.mod_lt _ (Nat.zero_lt_of_lt h.next_lt)
  slot k hk := by
    rw [List.length_set] at hk ⊢
    rw [before_succ h.next_lt hk,List.getD_eq_getElem?_getD,List.getElem?_set]
    cases k with
    | zero => rw [before_zero,if_pos rfl,if_pos h.next_lt,List.getD_cons_zero,Option.getD_some]
    | succ k =>
      have hne : next ≠ before slots.length next (k+1) := by
        intro heq
        have hzero := before_inj (Nat.zero_lt_of_lt hk) hk (before_zero.trans heq)
        exact absurd hzero (Nat.succ_ne_zero k).symm
      rw [if_neg hne,← List.getD_eq_getElem?_getD,h.slot k (Nat.lt_of_succ_lt hk),List.getD_cons_succ]

end Rings
end Autbus
