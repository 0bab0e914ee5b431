import Mathlib.Data.Nat.Digits.Lemmas

/-! Numerals: the loop that takes the digits off a number, the exchanges that turn them around, and the zeros
in front of them. -/
namespace Autbus
namespace Numerals

/-- The digits of `n` in base `b`, the last one first. Zero has a digit, too. -/
def lowFirst (b n : ℕ) : List ℕ := if n = 0 then [0] else Nat.digits b n

/-- `n` written in base `b`, with at least `w` digits. -/
def numeral (b n w : ℕ) : List ℕ := (lowFirst b n ++ List.replicate (w-(lowFirst b n).length) 0).reverse

/-- The number that digits stand for in base `b`. -/
def value (b : ℕ) (ds : List ℕ) : ℕ := Nat.ofDigits b ds.reverse

/-- Digits that stand for `n` in base `b`, at least `w` of them. A zero is in front only where it fills up. -/
structure Writes (b n w : ℕ) (ds : List ℕ) : Prop where
  below : ∀ d ∈ ds,d < b
  stands : value b ds = n
  wide : max w 1 ≤ ds.length
  tight : ds.head? = some 0 → ds.length ≤ max w 1

variable {b n w : ℕ} {ds : List ℕ}

theorem lowFirst_ne_nil (b n : ℕ) : lowFirst b n ≠ [] := by
  by_cases h : n = 0
  · simp [lowFirst,h]
  · simpa [lowFirst,h] using Nat.digits_ne_nil_iff_ne_zero.mpr h

theorem lowFirst_eq (hb : 1 < b) (n : ℕ) :
    lowFirst b n = n%b::(if n/b = 0 then [] else lowFirst b (n/b)) := by
  by_cases h : n = 0
  · simp [lowFirst,h]
  · rw [lowFirst,if_neg h,Nat.digits_def' hb (Nat.pos_of_ne_zero h)]
    by_cases hd : n/b = 0
    · simp [hd]
    · simp [lowFirst,hd]

theorem lt_of_mem_lowFirst {d : ℕ} (hb : 1 < b) (hd : d ∈ lowFirst b n) : d < b := by
  by_cases h : n = 0
  · have hd0 : d = 0 := by simpa [lowFirst,h] using hd
    omega
  · rw [lowFirst,if_neg h] at hd
    exact Nat.digits_lt_base hb hd

theorem numeral_length (b n w : ℕ) : (numeral b n w).length = max w (lowFirst b n).length := by
  simp only [numeral,List.length_reverse,List.length_append,List.length_replicate]
  omega

/-- Digits and zeros in front of them are read back as the number. -/
@[simp] theorem value_numeral (b n w : ℕ) : value b (numeral b n w) = n := by
  rw [value,numeral,List.reverse_reverse,Nat.ofDigits_append_replicate_zero]
  by_cases h : n = 0
  · simp [lowFirst,h]
  · rw [lowFirst,if_neg h,Nat.ofDigits_digits]

theorem numeral_tight (h : (numeral b n w).head? = some 0) : (numeral b n w).length ≤ max w 1 := by
  rw [numeral_length]
  by_cases hn : n = 0
  · simp [lowFirst,hn]
  · by_cases hw : w < (lowFirst b n).length
    · rw [numeral,Nat.sub_eq_zero_of_le hw.le,List.replicate_zero,List.append_nil,List.head?_reverse,
        List.getLast?_eq_some_getLast (lowFirst_ne_nil b n)] at h
      have hlast : (lowFirst b n).getLast (lowFirst_ne_nil b n) ≠ 0 := by
        simpa [lowFirst,hn] using Nat.getLast_digit_ne_zero b hn
      exact absurd (Option.some.inj h) hlast
    · omega

theorem writes_numeral (hb : 1 < b) (n w : ℕ) : Writes b n w (numeral b n w) where
  below d hd := by
    rcases List.mem_append.mp (List.mem_reverse.mp hd) with hd | hd
    · exact lt_of_mem_lowFirst hb hd
    · rw [List.eq_of_mem_replicate hd]
      omega
  stands := value_numeral b n w
  wide := by
    have hlen : 0 < (lowFirst b n).length := List.length_pos_iff.mpr (lowFirst_ne_nil b n)
    rw [numeral_length]
    omega
  tight := numeral_tight

/-- As many digits as that are needed. -/
theorem Writes.lt_pow (h : Writes b n w ds) (hb : 1 < b) : n < b^ds.length := by
  have hlt : value b ds < b^ds.reverse.length :=
    Nat.ofDigits_lt_base_pow_length hb fun d hd => h.below d (List.mem_reverse.mp hd)
  rwa [h.stands,List.length_reverse] at hlt

/-! ### The loop -/

section Loop
variable {V D : Type*} {digit : V → D} {rest : V → V} {more : V → Bool}

/-- Digits are taken off a value as long as `more` of it is left; `none` where `fuel` turns are not enough. -/
def digitLoop (digit : V → D) (rest : V → V) (more : V → Bool) : ℕ → V → Option (List D)
  | 0, _ => none
  | fuel+1, v => (if more (rest v) then digitLoop digit rest more fuel (rest v) else some []).map (digit v::·)

/-- On the values in `P` the loop divides the number `m v` by `b`. -/
structure Divides (digit : V → D) (rest : V → V) (more : V → Bool) (b : ℕ) (m : V → ℕ) (d : ℕ → D)
    (P : V → Prop) : Prop where
  last : ∀ v,P v → digit v = d (m v%b)
  quot : ∀ v,P v → m (rest v) = m v/b
  goes : ∀ v,P v → (more (rest v) = true ↔ m v/b ≠ 0)
  keep : ∀ v,P v → P (rest v)

variable {m : V → ℕ} {d : ℕ → D} {P : V → Prop} {v : V} {fuel : ℕ}

theorem Divides.digitLoop_eq (h : Divides digit rest more b m d P) (hb : 1 < b) (hv : P v)
    (hfuel : m v < b^(fuel+1)) : digitLoop digit rest more (fuel+1) v = some ((lowFirst b (m v)).map d) := by
  induction fuel generalizing v with
  | zero =>
    have hdiv : m v/b = 0 := Nat.div_eq_of_lt (by simpa using hfuel)
    have hmore : more (rest v) = false := Bool.eq_false_iff.mpr fun hm => (h.goes v hv).mp hm hdiv
    rw [digitLoop,hmore,lowFirst_eq hb,hdiv,h.last v hv]
    rfl
  | succ fuel ih =>
    rw [digitLoop,lowFirst_eq hb,h.last v hv]
    by_cases hdiv : m v/b = 0
    · have hmore : more (rest v) = false := Bool.eq_false_iff.mpr fun hm => (h.goes v hv).mp hm hdiv
      simp [hmore,hdiv]
    · have hlt : m (rest v) < b^(fuel+1) := by
        rw [h.quot v hv]
        exact Nat.div_lt_of_lt_mul (by rwa [← Nat.pow_succ'])
      rw [(h.goes v hv).mpr hdiv,if_pos rfl,if_neg hdiv,ih (h.keep v hv) hlt,h.quot v hv]
      rfl

theorem digitLoop_stop (hmore : more (rest v) = false) : digitLoop digit rest more (fuel+1) v = some [digit v] := by
  simp [digitLoop,hmore]

end Loop

/-! ### Turning around -/

section Turn
variable {α : Type*} {l : List α} {i j k : ℕ}

/-- Two places change their contents. -/
def exchange (l : List α) (i j : ℕ) : List α :=
  match l[i]?,l[j]? with
  | some x,some y => (l.set i y).set j x
  | _,_ => l

/-- The places of the first half are exchanged with those that are as far from the end. -/
def turned (l : List α) : List α :=
  (List.range (l.length/2)).foldl (fun t i => exchange t i (l.length-i-1)) l

@[simp] theorem exchange_length (l : List α) (i j : ℕ) : (exchange l i j).length = l.length := by
  unfold exchange
  split <;> simp

theorem exchange_getElem? (hi : i < l.length) (hj : j < l.length) (k : ℕ) :
    (exchange l i j)[k]? = if k = j then l[i]? else if k = i then l[j]? else l[k]? := by
  have hx : exchange l i j = (l.set i l[j]).set j l[i] := by
    simp [exchange,List.getElem?_eq_getElem hi,List.getElem?_eq_getElem hj]
  rw [hx,List.getElem?_set,List.length_set,List.getElem?_set]
  by_cases hkj : j = k
  · subst hkj
    simp [hi,hj]
  · by_cases hki : i = k
    · subst hki
      simp [hkj,Ne.symm hkj,hi,hj]
    · simp [hkj,hki,Ne.symm hkj,Ne.symm hki]

/-- What `k` exchanges leave: the outer places are turned, the inner ones not yet. -/
theorem turned_prefix (l : List α) (hk : k ≤ l.length/2) :
    let t := (List.range k).foldl (fun t i => exchange t i (l.length-i-1)) l
    t.length = l.length ∧ ∀ i < l.length,t[i]? = if i < k ∨ l.length-k ≤ i then l[l.length-1-i]? else l[i]? := by
  induction k with
  | zero =>
    refine ⟨rfl,fun i hi => ?_⟩
    rw [if_neg (by omega)]
    rfl
  | succ k ih =>
    obtain ⟨hlen,hget⟩ := ih (by omega)
    simp only [List.range_succ,List.foldl_append,List.foldl_cons,List.foldl_nil]
    generalize (List.range k).foldl (fun t i => exchange t i (l.length-i-1)) l = t at hlen hget
    refine ⟨by rw [exchange_length,hlen],fun i hi => ?_⟩
    rw [exchange_getElem? (by omega) (by omega)]
    by_cases hlast : i = l.length-k-1
    · rw [if_pos hlast,if_pos (by omega),hget k (by omega),if_neg (by omega)]
      congr 1
      omega
    · rw [if_neg hlast]
      by_cases hfirst : i = k
      · rw [if_pos hfirst,if_pos (by omega),hget _ (by omega),if_neg (by omega)]
        congr 1
        omega
      · rw [if_neg hfirst,hget i hi]
        by_cases hout : i < k ∨ l.length-k ≤ i
        · rw [if_pos hout,if_pos (by omega)]
        · rw [if_neg hout,if_neg (by omega)]

@[simp] theorem turned_eq (l : List α) : turned l = l.reverse := by
  obtain ⟨hlen,hget⟩ := turned_prefix l (Nat.le_refl (l.length/2))
  refine List.ext_getElem? fun i => ?_
  by_cases hi : i < l.length
  · refine (hget i hi).trans ?_
    rw [List.getElem?_reverse hi]
    by_cases hout : i < l.length/2 ∨ l.length-l.length/2 ≤ i
    · rw [if_pos hout]
    · rw [if_neg hout]
      congr 1
      omega
  · rw [List.getElem?_eq_none (by rw [turned,hlen]; omega),
      List.getElem?_eq_none (by rw [List.length_reverse]; omega)]

end Turn

end Numerals
end Autbus
