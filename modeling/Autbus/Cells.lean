import Mathlib.Data.Set.Lattice
import Mathlib.Order.Disjoint
import Mathlib.Algebra.Group.Nat.Defs
import Mathlib.Order.CompletePartialOrder

/-! Rows of bits read as sets of cells, and ledgers that share out a pool of cells
among holders. A ledger carries the disjointness of its parts as fields, so the
operations on it only ask for what they add. -/
namespace Autbus
namespace Cells

/-- `n` rows of `w` bits each. -/
abbrev Rows (n w : ℕ) := Fin n → BitVec w

variable {n w : ℕ}

/-- The cells whose bit is set. -/
def cells (R : Rows n w) : Set (Fin n × ℕ) := {c | (R c.1).getLsbD c.2 = true}

/-- The rows selected by `F` times the columns `[lo, lo+len)`. -/
def block (F : Fin n → Bool) (lo len : ℕ) : Set (Fin n × ℕ) :=
  {c | F c.1 = true ∧ lo ≤ c.2 ∧ c.2 < lo+len}

/-- Set the bits of `m` in every selected row. -/
def setIn (F : Fin n → Bool) (m : BitVec w) (R : Rows n w) : Rows n w :=
  fun i => if F i then R i ||| m else R i

/-- Clear the bits of `m` in every selected row. -/
def clearIn (F : Fin n → Bool) (m : BitVec w) (R : Rows n w) : Rows n w :=
  fun i => if F i then R i &&& ~~~m else R i

/-- The cells a mask covers in the selected rows. -/
def maskCells (F : Fin n → Bool) (m : BitVec w) : Set (Fin n × ℕ) :=
  {c | F c.1 = true ∧ m.getLsbD c.2 = true}

@[simp] theorem mem_cells (R : Rows n w) (i : Fin n) (s : ℕ) :
    (i,s) ∈ cells R ↔ (R i).getLsbD s = true := Iff.rfl

@[simp] theorem mem_block (F : Fin n → Bool) (lo len : ℕ) (i : Fin n) (s : ℕ) :
    (i,s) ∈ block F lo len ↔ F i = true ∧ lo ≤ s ∧ s < lo+len := Iff.rfl

/-- Blocks behind one another have no cell in common. -/
theorem block_disjoint {F G : Fin n → Bool} {lo len lo' len' : ℕ} (h : lo+len ≤ lo' ∨ lo'+len' ≤ lo) :
    Disjoint (block F lo len) (block G lo' len') := by
  rw [Set.disjoint_left]
  rintro ⟨i,s⟩ hc hc'
  rw [mem_block] at hc hc'
  omega

@[simp] theorem mem_maskCells (F : Fin n → Bool) (m : BitVec w) (i : Fin n) (s : ℕ) :
    (i,s) ∈ maskCells F m ↔ F i = true ∧ m.getLsbD s = true := Iff.rfl

theorem lt_of_mem_cells {R : Rows n w} {c : Fin n × ℕ} (h : c ∈ cells R) : c.2 < w :=
  BitVec.lt_of_getLsbD h

theorem cells_injective {R R' : Rows n w} (h : cells R = cells R') : R = R' := by
  funext i
  apply BitVec.eq_of_getLsbD_eq
  intro s _
  have hcell : (i,s) ∈ cells R ↔ (i,s) ∈ cells R' := by rw [h]
  exact Bool.eq_iff_iff.mpr hcell

theorem cells_setIn (F : Fin n → Bool) (m : BitVec w) (R : Rows n w) :
    cells (setIn F m R) = cells R ∪ maskCells F m := by
  ext ⟨i,s⟩
  cases hF : F i <;> simp [setIn,hF]

theorem cells_clearIn (F : Fin n → Bool) (m : BitVec w) (R : Rows n w) :
    cells (clearIn F m R) = cells R \ maskCells F m := by
  ext ⟨i,s⟩
  cases hF : F i with
  | false => simp [clearIn,hF]
  | true =>
    simp only [mem_cells,clearIn,hF,if_true,BitVec.getLsbD_and,BitVec.getLsbD_not,
      Bool.and_eq_true,Bool.not_eq_true',decide_eq_true_eq,Set.mem_sdiff,mem_maskCells,
      true_and,Bool.not_eq_true]
    constructor
    · rintro ⟨hr,-,hm⟩
      exact ⟨hr,hm⟩
    · rintro ⟨hr,hm⟩
      exact ⟨hr,BitVec.lt_of_getLsbD hr,hm⟩

/-- The low `len` bits of a word, as `(1 << len) - 1`. -/
def lowOnes (w len : ℕ) : BitVec w := (1#w <<< len) - 1#w

theorem lowOnes_toNat {len : ℕ} (h : len < w) : (lowOnes w len).toNat = 2^len-1 := by
  have hw : 1 < 2^w := Nat.one_lt_two_pow (by omega)
  have hl : 2^len < 2^w := Nat.pow_lt_pow_right (by decide) h
  have hp : 0 < 2^len := Nat.two_pow_pos _
  have hs : (1#w <<< len).toNat = 2^len := by
    rw [BitVec.toNat_shiftLeft,BitVec.toNat_ofNat,Nat.mod_eq_of_lt hw,Nat.shiftLeft_eq,
      Nat.one_mul,Nat.mod_eq_of_lt hl]
  have h1 : (1#w).toNat = 1 := by rw [BitVec.toNat_ofNat,Nat.mod_eq_of_lt hw]
  rw [lowOnes,BitVec.toNat_sub,hs,h1]
  rw [show 2^w-1+2^len = (2^len-1)+2^w by omega,Nat.add_mod_right]
  exact Nat.mod_eq_of_lt (by omega)

theorem lowOnes_of_le {len : ℕ} (h : w ≤ len) : lowOnes w len = BitVec.allOnes w := by
  have hz : 1#w <<< len = 0#w := by
    apply BitVec.eq_of_getLsbD_eq
    intro i hi
    simp only [BitVec.getLsbD_shiftLeft,BitVec.getLsbD_zero]
    have : i < len := by omega
    simp [this]
  rw [lowOnes,hz,BitVec.zero_sub]
  exact BitVec.neg_one_eq_allOnes

theorem getLsbD_lowOnes (len s : ℕ) :
    (lowOnes w len).getLsbD s = (decide (s < w) && decide (s < len)) := by
  by_cases h : len < w
  · rw [← BitVec.testBit_toNat,lowOnes_toNat h,Nat.testBit_two_pow_sub_one]
    by_cases hs : s < len
    · simp [hs,show s < w by omega]
    · simp [hs]
  · rw [lowOnes_of_le (by omega),BitVec.getLsbD_allOnes]
    by_cases hs : s < w
    · simp [hs,show s < len by omega]
    · simp [hs]

/-- A shifted run of ones covers the block of its columns, cut off at the word's end. -/
theorem maskCells_shift (F : Fin n → Bool) (lo len : ℕ) :
    maskCells F (lowOnes w len <<< lo) = block F lo len ∩ {c | c.2 < w} := by
  ext ⟨i,s⟩
  simp only [mem_maskCells,BitVec.getLsbD_shiftLeft,getLsbD_lowOnes,Set.mem_inter_iff,
    mem_block,Set.mem_ofPred_eq,Bool.and_eq_true,Bool.not_eq_true',decide_eq_true_eq,
    decide_eq_false_iff_not]
  constructor
  · rintro ⟨hF,⟨hs,hlo⟩,-,hlen⟩
    exact ⟨⟨hF,by omega,by omega⟩,hs⟩
  · rintro ⟨⟨hF,hlo,hhi⟩,hs⟩
    exact ⟨hF,⟨hs,by omega⟩,by omega,by omega⟩

/-! ### Ledgers -/

/-- Cells shared out among holders, with the pool that is left. -/
structure Ledger (K C : Type*) where
  held : K → Set C
  free : Set C
  apart : ∀ i j, i ≠ j → Disjoint (held i) (held j)
  unheld : ∀ i, Disjoint (held i) free

namespace Ledger

variable {K C : Type*} [DecidableEq K]

/-- Hand free cells to a holder. What it held before is neither held nor free afterwards. -/
def take (L : Ledger K C) (k : K) (S : Set C) (hS : S ⊆ L.free) : Ledger K C where
  held := Function.update L.held k S
  free := L.free \ S
  apart := by
    have hout : ∀ i, i ≠ k → Disjoint S (L.held i) := fun i _ =>
      (L.unheld i).symm.mono_left hS
    intro i j hij
    by_cases hi : i = k
    · subst hi
      simpa [Function.update_of_ne hij.symm] using hout j hij.symm
    · by_cases hj : j = k
      · subst hj
        simpa [Function.update_of_ne hi] using (hout i hi).symm
      · simpa [Function.update_of_ne hi,Function.update_of_ne hj] using L.apart i j hij
  unheld := by
    intro i
    by_cases hi : i = k
    · subst hi
      simpa using Set.disjoint_sdiff_right
    · simpa [Function.update_of_ne hi] using (L.unheld i).mono_right Set.sdiff_subset

/-- Return cells no other holder has, and strike their holder off. -/
def give (L : Ledger K C) (k : K) (S : Set C) (hS : ∀ i, i ≠ k → Disjoint (L.held i) S) :
    Ledger K C where
  held := Function.update L.held k ∅
  free := L.free ∪ S
  apart := by
    intro i j hij
    by_cases hi : i = k
    · subst hi
      simp
    · by_cases hj : j = k
      · subst hj
        simp
      · simpa [Function.update_of_ne hi,Function.update_of_ne hj] using L.apart i j hij
  unheld := by
    intro i
    by_cases hi : i = k
    · subst hi
      simp
    · rw [Function.update_of_ne hi]
      exact Set.disjoint_union_right.mpr ⟨L.unheld i,hS i hi⟩

/-- Lose free cells. -/
def leak (L : Ledger K C) (S : Set C) (hS : S ⊆ L.free) : Ledger K C where
  held := L.held
  free := S
  apart := L.apart
  unheld i := (L.unheld i).mono_right hS

end Ledger
end Cells
end Autbus
