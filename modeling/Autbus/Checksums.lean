import Autbus.Bytes

/-! Sums of 16-bit words with end-around carry, over the words of a run of bytes. Up to the two
zeros of that arithmetic they are the sums modulo 65535. -/
namespace Autbus
namespace Checksums

open Bytes

/-! ### Sums -/

/-- Add, with the carry brought round. -/
def onesAdd (a b : ℕ) : ℕ := (a+b) % 65536+(a+b)/65536

def onesSum (ws : List ℕ) : ℕ := ws.foldr onesAdd 0

variable {a b : ℕ} {ws : List ℕ}

theorem onesAdd_mod (a b : ℕ) : onesAdd a b % 65535 = (a+b) % 65535 := by
  unfold onesAdd
  omega

theorem onesAdd_le (ha : a ≤ 65535) (hb : b ≤ 65535) : onesAdd a b ≤ 65535 := by
  unfold onesAdd
  omega

theorem onesAdd_eq_zero : onesAdd a b = 0 ↔ a = 0 ∧ b = 0 := by
  unfold onesAdd
  omega

theorem onesSum_mod (ws : List ℕ) : onesSum ws % 65535 = ws.sum % 65535 := by
  induction ws with
  | nil => rfl
  | cons w ws ih =>
    calc onesSum (w::ws) % 65535 = (w+onesSum ws) % 65535 := onesAdd_mod w (onesSum ws)
      _ = (w+ws.sum) % 65535 := by rw [Nat.add_mod,ih,← Nat.add_mod]
      _ = (w::ws).sum % 65535 := by rw [List.sum_cons]

theorem onesSum_le (h : ∀ w ∈ ws, w ≤ 65535) : onesSum ws ≤ 65535 := by
  induction ws with
  | nil => exact Nat.zero_le _
  | cons w ws ih =>
    obtain ⟨hw,hws⟩ := List.forall_mem_cons.mp h
    exact onesAdd_le hw (ih hws)

theorem onesSum_eq_zero : onesSum ws = 0 ↔ ws.sum = 0 := by
  induction ws with
  | nil => simp [onesSum]
  | cons w ws ih =>
    rw [List.sum_cons,Nat.add_eq_zero_iff,← ih]
    exact onesAdd_eq_zero

/-- A sum is full when it is a multiple of 65535, but not nothing. -/
theorem onesSum_full_iff (h : ∀ w ∈ ws, w ≤ 65535) : onesSum ws = 65535 ↔ ws.sum ≠ 0 ∧ ws.sum % 65535 = 0 := by
  have hmod := onesSum_mod ws
  have hle := onesSum_le h
  have hzero : onesSum ws ≠ 0 ↔ ws.sum ≠ 0 := onesSum_eq_zero.not
  constructor
  · intro hfull
    refine ⟨hzero.mp (by omega),?_⟩
    rw [← hmod,hfull]
  · rintro ⟨hne,hdvd⟩
    have hpos := hzero.mpr hne
    omega

/-! ### Words -/

/-- The words of a run of bytes in the order of the network; a byte that is left over is padded. -/
def netWords : List UInt8 → List ℕ
  | a::b::l => (256*a.toNat+b.toNat)::netWords l
  | [a] => [256*a.toNat]
  | [] => []

/-- The words in the other order, without a byte that is left over. -/
def fullWords : List UInt8 → List ℕ
  | a::b::l => (a.toNat+256*b.toNat)::fullWords l
  | _ => []

/-- The byte that is left over. -/
def odd : List UInt8 → ℕ
  | _::_::l => odd l
  | [a] => a.toNat
  | [] => 0

theorem netWords_le (l : List UInt8) : ∀ w ∈ netWords l, w ≤ 65535 := by
  induction l using netWords.induct with
  | case1 a b l ih =>
    have ha := a.toNat_lt
    have hb := b.toNat_lt
    exact List.forall_mem_cons.mpr ⟨by omega,ih⟩
  | case2 a =>
    have ha := a.toNat_lt
    exact List.forall_mem_singleton.mpr (by omega)
  | case3 => exact nofun

/-- The order of the bytes is a factor. -/
theorem netWords_sum (l : List UInt8) : (netWords l).sum % 65535 = 256*((fullWords l).sum+odd l) % 65535 := by
  induction l using netWords.induct with
  | case1 a b l ih =>
    simp only [netWords,fullWords,odd,List.sum_cons]
    omega
  | case2 a => simp [netWords,fullWords,odd]
  | case3 => rfl

theorem netWords_sum_eq_zero (l : List UInt8) : (netWords l).sum = 0 ↔ (fullWords l).sum+odd l = 0 := by
  induction l using netWords.induct with
  | case1 a b l ih =>
    simp only [netWords,fullWords,odd,List.sum_cons]
    omega
  | case2 a =>
    simp only [netWords,fullWords,odd,List.sum_cons,List.sum_nil]
    omega
  | case3 => rfl

/-- Either order will do. -/
theorem onesSum_netWords_iff (l : List UInt8) : onesSum (netWords l) = 65535 ↔
    (fullWords l).sum+odd l ≠ 0 ∧ ((fullWords l).sum+odd l) % 65535 = 0 := by
  have hsum := netWords_sum l
  rw [onesSum_full_iff (netWords_le l),Ne,netWords_sum_eq_zero]
  refine and_congr_right fun _ => ?_
  omega

theorem odd_le (l : List UInt8) : odd l ≤ 255 := by
  induction l using netWords.induct with
  | case1 a b l ih => exact ih
  | case2 a => exact Nat.le_of_lt_succ a.toNat_lt
  | case3 => exact Nat.zero_le _

theorem fullWords_sum_le (l : List UInt8) : (fullWords l).sum ≤ 65535*(l.length/2) := by
  induction l using netWords.induct with
  | case1 a b l ih =>
    have ha := a.toNat_lt
    have hb := b.toNat_lt
    simp only [fullWords,List.sum_cons,List.length_cons]
    omega
  | case2 a => simp [fullWords]
  | case3 => simp [fullWords]

theorem fullWords_read (m : Mem) (a n : ℕ) : fullWords (read m a n) = (List.range (n/2)).map fun i => u16 m (a+2*i) := by
  induction n using Nat.twoStepInduction generalizing a with
  | zero => rfl
  | one => rfl
  | more n ih _ =>
    have hhalf : (n+2)/2 = n/2+1 := by omega
    rw [read_succ,read_succ,fullWords,ih,hhalf,List.range_succ_eq_map,List.map_cons,List.map_map]
    refine congrArg₂ _ rfl (List.map_congr_left fun i _ => congrArg (u16 m) ?_)
    simp only [Nat.succ_eq_add_one]
    omega

end Checksums
end Autbus
