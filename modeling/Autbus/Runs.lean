import Mathlib.Data.Nat.Bitwise

/-! Runs of ones in a word. To add the lowest set bit carries through the first run and no
further than the gap behind it. -/
namespace Autbus
namespace Runs

variable {w : ℕ}

/-- `n` ones from bit `p` on. -/
def Ones (x : BitVec w) (p n : ℕ) : Prop := ∀ s, p ≤ s → s < p+n → x.getLsbD s = true

section Ones

variable {x y : BitVec w} {p n k z s : ℕ}

theorem ones_and : Ones (x &&& y) p n ↔ Ones x p n ∧ Ones y p n := by
  constructor
  · intro h
    refine ⟨fun s hlo hhi => ?_,fun s hlo hhi => ?_⟩
    · have hs := h s hlo hhi
      rw [BitVec.getLsbD_and,Bool.and_eq_true] at hs
      exact hs.1
    · have hs := h s hlo hhi
      rw [BitVec.getLsbD_and,Bool.and_eq_true] at hs
      exact hs.2
  · rintro ⟨hx,hy⟩ s hlo hhi
    rw [BitVec.getLsbD_and,hx s hlo hhi,hy s hlo hhi,Bool.and_self]

theorem mod_of_gap (hz : x.getLsbD z = false) : x.toNat % 2^(z+1) = x.toNat % 2^z := by
  rw [← BitVec.testBit_toNat,Nat.testBit_eq_decide_div_mod_eq,decide_eq_false_iff_not] at hz
  have hzero : x.toNat/2^z % 2 = 0 := by omega
  rw [Nat.mod_pow_succ,hzero,Nat.mul_zero,Nat.add_zero]

/-- A gap stops the carry. -/
theorem getLsbD_add_gap (hz : x.getLsbD z = false) (hkz : k ≤ z) (hzs : z < s) :
    (x + (1#w <<< k)).getLsbD s = x.getLsbD s := by
  by_cases hs : s < w
  · have hbit : (1#w <<< k).toNat = 2^k := by
      rw [BitVec.toNat_shiftLeft,BitVec.toNat_ofNat,Nat.shiftLeft_eq,
        Nat.mod_eq_of_lt (Nat.one_lt_two_pow (by omega)),Nat.one_mul]
      exact Nat.mod_eq_of_lt (Nat.pow_lt_pow_right (by decide) (by omega))
    have hlow : x.toNat % 2^(z+1)+2^k < 2^(z+1) := by
      have hmod : x.toNat % 2^z < 2^z := Nat.mod_lt _ (Nat.two_pow_pos z)
      have hpow : 2^k ≤ 2^z := Nat.pow_le_pow_right (by decide) hkz
      rw [mod_of_gap hz,Nat.pow_succ]
      omega
    -- above the gap the two numbers agree
    have hdiv : (x.toNat+2^k)/2^(z+1) = x.toNat/2^(z+1) := by
      conv_lhs => rw [← Nat.div_add_mod x.toNat (2^(z+1)),Nat.add_assoc]
      rw [Nat.mul_add_div (Nat.two_pow_pos _),Nat.div_eq_of_lt hlow,Nat.add_zero]
    have hshift : ∀ y : ℕ, y.testBit s = (y/2^(z+1)).testBit (s-(z+1)) := by
      intro y
      rw [Nat.testBit_div_two_pow,Nat.sub_add_cancel hzs]
    rw [← BitVec.testBit_toNat,BitVec.toNat_add,hbit,Nat.testBit_mod_two_pow,decide_eq_true hs,Bool.true_and,
      hshift,hdiv,← hshift,BitVec.testBit_toNat]
  · rw [BitVec.getLsbD_of_ge _ _ (by omega),BitVec.getLsbD_of_ge _ _ (by omega)]

/-- To drop the first run loses no run that is longer. -/
theorem ones_dropLow (hlow : ∀ i < k, x.getLsbD i = false) (hshort : ¬Ones x k n) :
    Ones (x &&& (x + (1#w <<< k))) p n ↔ Ones x p n := by
  rw [ones_and]
  refine ⟨And.left,fun hp => ⟨hp,fun s hlo hhi => ?_⟩⟩
  obtain ⟨z,hkz,hzn,hz⟩ : ∃ z, k ≤ z ∧ z < k+n ∧ x.getLsbD z = false := by
    by_contra hno
    refine hshort fun z hkz hzn => ?_
    by_contra hz
    exact hno ⟨z,hkz,hzn,Bool.eq_false_of_not_eq_true hz⟩
  have hfirst : x.getLsbD p = true := hp p (le_refl p) (by omega)
  have hkp : k ≤ p := by
    by_contra hlt
    rw [hlow p (by omega)] at hfirst
    exact Bool.false_ne_true hfirst
  -- the gap of the short run lies before the long one
  have hzp : z < p := by
    by_contra hge
    rw [hp z (by omega) (by omega)] at hz
    exact Bool.false_ne_true hz.symm
  rw [getLsbD_add_gap hz hkz (by omega)]
  exact hp s hlo hhi

end Ones

end Runs
end Autbus
