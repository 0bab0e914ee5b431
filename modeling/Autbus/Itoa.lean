import Autbus.Numerals
import Mathlib.Data.Int.Notation
import Mathlib.Tactic.IntervalCases

/-! Numbers become text (`mprint.c`): `mini_itoa` and `mini_itoa64`. -/
namespace Autbus
namespace Itoa

open Numerals

/-- The radixes with which the loops over the digits end. -/
structure Radix where
  val : UInt32
  two_le : 2 ≤ val.toNat

def ten : Radix := ⟨10,by decide⟩
def sixteen : Radix := ⟨16,by decide⟩

/-- The character of a digit, or of what `%` has left there. -/
def digitChar (uppercase : Bool) (digit : ℤ) : UInt8 :=
  UInt8.ofInt (if digit < 10 then 48+digit else (if uppercase then 65 else 97)+digit-10)

/-- The digits of `mini_itoa`: the radix is unsigned, and so are the remainder and the quotient. -/
def digits (radix : Radix) (uppercase : Bool) (fuel : ℕ) (value : Int32) : Option (List UInt8) :=
  digitLoop (fun v : Int32 => digitChar uppercase (v.toUInt32%radix.val).toNat)
    (fun v => (v.toUInt32/radix.val).toInt32) (fun v => 0 < v) fuel value

/-- The radix as the signed 64-bit operand it is converted to. -/
def Radix.long (radix : Radix) : Int64 := Int64.ofNat radix.val.toNat

/-- The digits of `mini_itoa64`: the remainder and the quotient are signed. -/
def digits64 (radix : Radix) (uppercase : Bool) (fuel : ℕ) (value : Int64) : Option (List UInt8) :=
  digitLoop (fun v : Int64 => digitChar uppercase (v%radix.long).toInt) (fun v => v/radix.long) (fun v => 0 < v)
    fuel value

/-- Zeros, the sign, and the buffer turned around. -/
def layOut (negative : Bool) (zeroPad : ℕ) (digits : List UInt8) : List UInt8 :=
  turned (digits ++ List.replicate (zeroPad-digits.length) 48 ++ if negative then [45] else [])

/-! ### The loops end -/

section Loops
variable (radix : Radix) (uppercase : Bool)

theorem divides : Divides (fun v : Int32 => digitChar uppercase (v.toUInt32%radix.val).toNat)
    (fun v => (v.toUInt32/radix.val).toInt32) (fun v => 0 < v) radix.val.toNat (fun v => v.toUInt32.toNat)
    (fun d => digitChar uppercase d) (fun _ => True) where
  last v _ := by rw [UInt32.toNat_mod]
  quot v _ := by rw [UInt32.toUInt32_toInt32,UInt32.toNat_div]
  goes v _ := by
    have hlt : v.toUInt32.toNat/radix.val.toNat < 2^31 :=
      Nat.div_lt_of_lt_mul (Nat.lt_of_lt_of_le v.toUInt32.toNat_lt (by have := radix.two_le; omega))
    have hq : (v.toUInt32/radix.val).toNat = v.toUInt32.toNat/radix.val.toNat := UInt32.toNat_div _ _
    have hint : (v.toUInt32/radix.val).toInt32.toInt = (v.toUInt32.toNat/radix.val.toNat : ℕ) := by
      rw [← hq] at hlt ⊢
      exact BitVec.toInt_eq_toNat_of_lt (by change 2*(v.toUInt32/radix.val).toNat < 2^32; omega)
    rw [decide_eq_true_iff,Int32.lt_iff_toInt_lt,hint,Int32.toInt_zero]
    omega
  keep _ _ := trivial

theorem Radix.long_toInt : radix.long.toInt = radix.val.toNat :=
  Int64.toInt_ofNat_of_lt (Nat.lt_of_lt_of_le radix.val.toNat_lt (by decide))

theorem long_mod (v : Int64) : (v%radix.long).toInt = v.toInt.tmod radix.val.toNat := by
  rw [Int64.toInt_mod,radix.long_toInt]

theorem long_div (v : Int64) : (v/radix.long).toInt = v.toInt.tdiv radix.val.toNat := by
  have hradix : radix.long ≠ -1 := fun h => by
    have hint : (radix.val.toNat : ℤ) = -1 := by rw [← radix.long_toInt,h]; rfl
    omega
  rw [Int64.toInt_div_of_ne_right _ _ hradix,radix.long_toInt]

theorem long_div_of_nonneg {v : Int64} (hv : 0 ≤ v.toInt) :
    (v/radix.long).toInt = (v.toInt.toNat/radix.val.toNat : ℕ) := by
  rw [long_div,Int.tdiv_eq_ediv_of_nonneg hv,Int.natCast_div,Int.toNat_of_nonneg hv]

/-- On the numbers that are not negative the signed operations are right. -/
theorem divides64 : Divides (fun v : Int64 => digitChar uppercase (v%radix.long).toInt) (fun v => v/radix.long)
    (fun v => 0 < v) radix.val.toNat (fun v => v.toInt.toNat) (fun d => digitChar uppercase d)
    (fun v => 0 ≤ v.toInt) where
  last v hv := by rw [long_mod,Int.tmod_eq_emod_of_nonneg hv,Int.natCast_mod,Int.toNat_of_nonneg hv]
  quot v hv := by rw [long_div_of_nonneg radix hv,Int.toNat_natCast]
  goes v hv := by
    rw [decide_eq_true_iff,Int64.lt_iff_toInt_lt,long_div_of_nonneg radix hv,Int64.toInt_zero,Int.natCast_pos,
      Nat.pos_iff_ne_zero]
  keep v hv := by
    rw [long_div_of_nonneg radix hv]
    exact Int.natCast_nonneg _

theorem two_pow_le (k : ℕ) : 2^k ≤ radix.val.toNat^k := Nat.pow_le_pow_left radix.two_le k

theorem digits_eq (value : Int32) :
    digits radix uppercase 32 value =
      some ((lowFirst radix.val.toNat value.toUInt32.toNat).map fun d : ℕ => digitChar uppercase d) :=
  (divides radix uppercase).digitLoop_eq (v := value) radix.two_le trivial
    (Nat.lt_of_lt_of_le value.toUInt32.toNat_lt (two_pow_le radix 32))

theorem digits64_eq {value : Int64} (hv : 0 ≤ value.toInt) :
    digits64 radix uppercase 64 value =
      some ((lowFirst radix.val.toNat value.toInt.toNat).map fun d : ℕ => digitChar uppercase d) := by
  have hlt : value.toInt.toNat < 2^64 := by
    have := value.toInt_lt
    omega
  exact (divides64 radix uppercase).digitLoop_eq radix.two_le hv (Nat.lt_of_lt_of_le hlt (two_pow_le radix 64))

/-- On a negative number the loop makes one turn. -/
theorem digits64_of_neg {value : Int64} (hv : value.toInt < 0) :
    digits64 radix uppercase 64 value = some [digitChar uppercase (value%radix.long).toInt] := by
  refine digitLoop_stop (decide_eq_false fun h => ?_)
  rw [Int64.lt_iff_toInt_lt,long_div,Int64.toInt_zero] at h
  have hle : 0 ≤ (-value.toInt).tdiv radix.val.toNat := Int.tdiv_nonneg (by omega) (Int.natCast_nonneg _)
  rw [Int.neg_tdiv] at hle
  omega

theorem digits_isSome (value : Int32) : (digits radix uppercase 32 value).isSome := by rw [digits_eq]; rfl

theorem digits64_cases (value : Int64) :
    digits64 radix uppercase 64 value = some (if 0 ≤ value.toInt then
        (lowFirst radix.val.toNat value.toInt.toNat).map fun d : ℕ => digitChar uppercase d
      else [digitChar uppercase (value%radix.long).toInt]) := by
  by_cases hv : 0 ≤ value.toInt
  · rw [digits64_eq radix uppercase hv,if_pos hv]
  · rw [digits64_of_neg radix uppercase (by omega),if_neg hv]

theorem digits64_isSome (value : Int64) : (digits64 radix uppercase 64 value).isSome := by rw [digits64_cases]; rfl

end Loops

/-- `mini_itoa`: the characters it leaves in the buffer. -/
def miniItoa (value : Int32) (radix : Radix) (uppercase unsig : Bool) (zeroPad : ℕ) : List UInt8 :=
  if 16 < radix.val then []
  else
    let negative := decide (value < 0) && !unsig
    let value := if negative then -value else value
    layOut negative zeroPad ((digits radix uppercase 32 value).get (digits_isSome radix uppercase value))

/-- `mini_itoa64`, which differs in the type of `value`. -/
def miniItoa64 (value : Int64) (radix : Radix) (uppercase unsig : Bool) (zeroPad : ℕ) : List UInt8 :=
  if 16 < radix.val then []
  else
    let negative := decide (value < 0) && !unsig
    let value := if negative then -value else value
    layOut negative zeroPad ((digits64 radix uppercase 64 value).get (digits64_isSome radix uppercase value))

/-! ### What the text stands for -/

/-- The characters of the digits. -/
def glyph (uppercase : Bool) (d : ℕ) : UInt8 :=
  (if uppercase then
    ['0','1','2','3','4','5','6','7','8','9','A','B','C','D','E','F']
  else
    ['0','1','2','3','4','5','6','7','8','9','a','b','c','d','e','f'])[d]?.elim 0 Char.toUInt8

/-- The text is the number `n` in the given base, with a zero in front only where `w` digits ask for it. -/
def Shows (b w : ℕ) (uppercase : Bool) (n : ℕ) (text : List UInt8) : Prop :=
  ∃ ds,Writes b n w ds ∧ text = ds.map (glyph uppercase)

/-- The text is a signed decimal number. -/
def ShowsInt (w : ℕ) (z : ℤ) (text : List UInt8) : Prop :=
  ∃ t,Shows 10 w false z.natAbs t ∧ text = if z < 0 then '-'.toUInt8::t else t

theorem digitChar_eq (uppercase : Bool) {d : ℕ} (hd : d < 16) : digitChar uppercase d = glyph uppercase d := by
  cases uppercase <;> interval_cases d <;> rfl

variable {b n w : ℕ} {uppercase negative : Bool} {text : List UInt8}

theorem layOut_eq (h1 : 1 < b) (h16 : b ≤ 16) (negative : Bool) :
    layOut negative w ((lowFirst b n).map fun d : ℕ => digitChar uppercase d) =
      (if negative then [45] else []) ++ (numeral b n w).map (glyph uppercase) := by
  have hmap : (lowFirst b n).map (fun d : ℕ => digitChar uppercase d) = (lowFirst b n).map (glyph uppercase) :=
    List.map_congr_left fun d hd => digitChar_eq uppercase (Nat.lt_of_lt_of_le (lt_of_mem_lowFirst h1 hd) h16)
  have hzero : glyph uppercase 0 = 48 := by cases uppercase <;> rfl
  rw [layOut,turned_eq,hmap,numeral,List.length_map,List.map_reverse,List.map_append,List.map_replicate,hzero,
    List.reverse_append]
  cases negative <;> rfl

theorem layOut_shows (h1 : 1 < b) (h16 : b ≤ 16) :
    Shows b w uppercase n (layOut false w ((lowFirst b n).map fun d : ℕ => digitChar uppercase d)) :=
  ⟨numeral b n w,writes_numeral h1 n w,layOut_eq h1 h16 false⟩

theorem layOut_showsInt {z : ℤ} (hn : n = z.natAbs) (hz : negative = decide (z < 0)) :
    ShowsInt w z (layOut negative w ((lowFirst 10 n).map fun d : ℕ => digitChar false d)) := by
  subst hn
  refine ⟨(numeral 10 z.natAbs w).map (glyph false),⟨_,writes_numeral (by omega) _ w,rfl⟩,?_⟩
  rw [layOut_eq (by omega) (by omega),hz]
  by_cases h : z < 0
  · simp only [h,decide_true,if_true]
    rfl
  · simp [h]

theorem layOut_length (negative : Bool) (w : ℕ) (x : UInt8) :
    (layOut negative w [x]).length = max w 1 + if negative then 1 else 0 := by
  rw [layOut,turned_eq]
  cases negative <;> simp <;> omega

theorem Shows.lt_pow (h : Shows b w uppercase n text) (hb : 1 < b) : n < b^text.length := by
  obtain ⟨ds,hds,rfl⟩ := h
  rw [List.length_map]
  exact hds.lt_pow hb

/-- Nine digits are not enough for a number with the top bit. -/
theorem Shows.lt_top (h : Shows b w uppercase n text) (hb : 1 < b) (h16 : b ≤ 16) (hlen : text.length ≤ 9) :
    n < 2^63 :=
  calc
    n < b^text.length := h.lt_pow hb
    _ ≤ b^9 := Nat.pow_le_pow_right (by omega) hlen
    _ ≤ 16^9 := Nat.pow_le_pow_left h16 9
    _ ≤ 2^63 := by decide

section Values
variable {radix : Radix}

theorem miniItoa_eq (h16 : radix.val ≤ 16) (value : Int32) (unsig : Bool) (w : ℕ) :
    miniItoa value radix uppercase unsig w =
      let negative := decide (value < 0) && !unsig
      layOut negative w ((lowFirst radix.val.toNat (if negative then -value else value).toUInt32.toNat).map
        fun d : ℕ => digitChar uppercase d) := by
  rw [miniItoa,if_neg (UInt32.not_lt.mpr h16)]
  exact congrArg (layOut _ w) (Option.get_of_eq_some _ (digits_eq radix uppercase _))

theorem miniItoa64_eq (h16 : radix.val ≤ 16) (value : Int64) (unsig : Bool) (w : ℕ) :
    miniItoa64 value radix uppercase unsig w =
      let negative := decide (value < 0) && !unsig
      let value := if negative then -value else value
      layOut negative w (if 0 ≤ value.toInt then
          (lowFirst radix.val.toNat value.toInt.toNat).map fun d : ℕ => digitChar uppercase d
        else [digitChar uppercase (value%radix.long).toInt]) := by
  rw [miniItoa64,if_neg (UInt32.not_lt.mpr h16)]
  exact congrArg (layOut _ w) (Option.get_of_eq_some _ (digits64_cases radix uppercase _))

theorem toInt_toInt64 (v : UInt64) : v.toInt64.toInt = (v.toNat : ℤ).bmod (2^64) :=
  BitVec.toInt_eq_toNat_bmod v.toBitVec

/-- An unsigned number is written by `mini_itoa`, whatever its top bit. -/
theorem miniItoa_shows (radix : Radix) (h16 : radix.val ≤ 16) (v : UInt32) (w : ℕ) :
    Shows radix.val.toNat w uppercase v.toNat (miniItoa v.toInt32 radix uppercase true w) := by
  rw [miniItoa_eq h16]
  simpa using layOut_shows (b := radix.val.toNat) (n := v.toNat) radix.two_le (UInt32.le_iff_toNat_le.mp h16)

/-- So is a signed one, the lowest included: what negation leaves of it is read as unsigned. -/
theorem miniItoa_showsInt (v : Int32) (w : ℕ) : ShowsInt w v.toInt (miniItoa v ten false false w) := by
  rw [miniItoa_eq (by decide)]
  have hneg : decide (v < 0) = decide (v.toInt < 0) := by simp [Int32.lt_iff_toInt_lt]
  refine layOut_showsInt (z := v.toInt) ?_ (by simpa using hneg)
  have hv := v.toUInt32.toNat_lt
  have hint : v.toInt = (v.toUInt32.toNat : ℤ).bmod (2^32) := BitVec.toInt_eq_toNat_bmod v.toBitVec
  rw [Int.bmod_def] at hint
  have hsize : UInt32.size = 2^32 := rfl
  by_cases h : v.toInt < 0
  · simp only [hneg,h,decide_true,Bool.not_false,Bool.and_true,if_true,Int32.toUInt32_neg,UInt32.toNat_neg,
      hsize]
    split at hint <;> omega
  · simp only [hneg,h,decide_false,Bool.false_and,if_false,Bool.false_eq_true]
    split at hint <;> omega

theorem miniItoa64_shows_iff (radix : Radix) (h16 : radix.val ≤ 16) (v : UInt64) (hw : w ≤ 9) :
    Shows radix.val.toNat w uppercase v.toNat (miniItoa64 v.toInt64 radix uppercase true w) ↔ v.toNat < 2^63 := by
  have hb : radix.val.toNat ≤ 16 := UInt32.le_iff_toNat_le.mp h16
  have hv := v.toNat_lt
  rw [miniItoa64_eq h16]
  simp only [Bool.not_true,Bool.and_false,if_false,Bool.false_eq_true]
  by_cases h : v.toNat < 2^63
  · have hint : v.toInt64.toInt = v.toNat := by
      rw [toInt_toInt64]
      exact Int.bmod_eq_of_le (by omega) (by omega)
    rw [hint,if_pos (Int.natCast_nonneg _),Int.toNat_natCast]
    exact iff_of_true (layOut_shows radix.two_le hb) h
  · have hint : v.toInt64.toInt < 0 := by
      rw [toInt_toInt64,Int.bmod_def]
      split <;> omega
    rw [if_neg (Int.not_le.mpr hint)]
    refine iff_of_false (fun hs => h (hs.lt_top radix.two_le hb ?_)) h
    rw [layOut_length,if_neg Bool.false_ne_true]
    omega

theorem miniItoa64_showsInt_iff (v : Int64) (hw : w ≤ 9) :
    ShowsInt w v.toInt (miniItoa64 v ten false false w) ↔ v.toInt ≠ -2^63 := by
  have hlt := v.toInt_lt
  have hle := v.le_toInt
  have hneg : decide (v < 0) = decide (v.toInt < 0) := by simp [Int64.lt_iff_toInt_lt]
  rw [miniItoa64_eq (by decide)]
  by_cases h : v.toInt < 0
  · simp only [hneg,h,decide_true,Bool.not_false,Bool.and_true,if_true,Int64.toInt_neg]
    by_cases hmin : v.toInt = -2^63
    · have hint : (-v.toInt).bmod (2^64) = -2^63 := by rw [hmin]; rfl
      rw [hint,if_neg (by omega)]
      refine iff_of_false ?_ (fun hne => hne hmin)
      rintro ⟨t,ht,htext⟩
      have hlen := congrArg List.length htext
      rw [layOut_length,if_pos rfl,if_pos h,List.length_cons] at hlen
      have := ht.lt_top (by omega) (by omega) (by omega)
      omega
    · have hint : (-v.toInt).bmod (2^64) = -v.toInt := Int.bmod_eq_of_le (by omega) (by omega)
      rw [hint,if_pos (by omega)]
      exact iff_of_true (layOut_showsInt (by omega) (by simpa using h)) hmin
  · simp only [hneg,h,decide_false,Bool.false_and,if_false,Bool.false_eq_true]
    rw [if_pos (by omega)]
    exact iff_of_true (layOut_showsInt (by omega) (by simpa using h)) (by omega)

end Values

end Itoa
end Autbus
