import Mathlib.Data.List.Basic
import Mathlib.Order.Basic

/-! Blocks of a file, and histories, newest entry first, that are checked entry by entry. -/
namespace Autbus
namespace Blocks

section History

variable {E : Type*} {P Q : List E → E → Prop}

/-- Every entry suits those before it. -/
def Each (P : List E → E → Prop) : List E → Prop
  | [] => True
  | e::l => P l e ∧ Each P l

theorem each_iff {l : List E} : Each P l ↔ ∀ l₂ e l₁, l = l₂ ++ e::l₁ → P l₁ e := by
  induction l with
  | nil => exact ⟨fun _ l₂ e l₁ hl => absurd hl (by simp),fun _ => trivial⟩
  | cons a l ih =>
    constructor
    · rintro ⟨ha,hl⟩ l₂ e l₁ heq
      cases l₂ with
      | nil =>
        obtain ⟨rfl,rfl⟩ := List.cons.inj heq
        exact ha
      | cons b l₂ => exact ih.mp hl l₂ e l₁ (List.cons.inj heq).2
    · intro h
      exact ⟨h [] a l rfl,ih.mpr fun l₂ e l₁ heq => h (a::l₂) e l₁ (by rw [heq,List.cons_append])⟩

end History

section Chunks

variable {α : Type*} {k : ℕ} {xs : List α} {i : ℕ}

/-- Block `i` of a file, counted from 0, in blocks of `k`. -/
def chunk (k : ℕ) (xs : List α) (i : ℕ) : List α := (xs.drop (k*i)).take k

theorem length_chunk : (chunk k xs i).length = min k (xs.length-k*i) := by
  rw [chunk,List.length_take,List.length_drop]

/-- The first block that is not full. -/
theorem first_short_iff (hk : 0 < k) :
    ((chunk k xs i).length < k ∧ ∀ j < i, (chunk k xs j).length = k) ↔ i = xs.length/k := by
  simp only [length_chunk]
  constructor
  · rintro ⟨hshort,hfull⟩
    have hle : xs.length < k*(i+1) := by
      rw [Nat.mul_add]
      omega
    have hge : k*i ≤ xs.length := by
      cases i with
      | zero => simp
      | succ j =>
        have hj := hfull j (Nat.lt_succ_self j)
        rw [Nat.mul_add]
        omega
    rw [eq_comm,Nat.div_eq_iff hk]
    rw [Nat.mul_comm k] at hle hge
    rw [Nat.add_mul] at hle
    omega
  · rintro rfl
    have hmod := Nat.div_add_mod xs.length k
    have hlt := Nat.mod_lt xs.length hk
    refine ⟨by omega,fun j hj => ?_⟩
    have hmul : k*(j+1) ≤ k*(xs.length/k) := Nat.mul_le_mul_left k hj
    rw [Nat.mul_add] at hmul
    omega

end Chunks

end Blocks
end Autbus
