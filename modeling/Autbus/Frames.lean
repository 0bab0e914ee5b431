import Autbus.Cells
import Mathlib.Tactic.IntervalCases

/-! The frame bitmap of `sysres.c`: eight frames of 64 symbols, one bit a symbol,
set while the symbol is free. An interval class is the set of frames that agree
modulo the interval; a freq code names one class. -/
namespace Autbus
namespace Frames

open Cells

/-- `resfrm`. -/
abbrev ResFrm := Rows 8 64

/-- There is a frame 0. -/
instance frames_neZero : NeZero 8 := ⟨by decide⟩

/-- Does the freq code select the frame? Only the low 4 bits of the code count. -/
def hcbResFrameTest (ecode : UInt8) (frm : Fin 8) : Bool :=
  match ecode.toNat % 16 with
  | 1 => true
  | 2 => frm.val % 2 = 0
  | 3 => frm.val % 2 ≠ 0
  | 4 => frm.val % 4 = 0
  | 5 => frm.val % 4 = 1
  | 6 => frm.val % 4 = 2
  | 7 => frm.val % 4 = 3
  | 8 => frm.val = 0
  | 9 => frm.val = 1
  | 10 => frm.val = 2
  | 11 => frm.val = 3
  | 12 => frm.val = 4
  | 13 => frm.val = 5
  | 14 => frm.val = 6
  | 15 => frm.val = 7
  | _ => false

/-- The CN keeps the first four symbols of every frame for itself. -/
def resfrmInit : ResFrm := fun _ => ~~~0xF#64

/-- `__builtin_ffsll`: one plus the index of the lowest set bit, 0 for zero. -/
def ffsll (x : BitVec 64) : ℕ :=
  match (List.range 64).find? (x.getLsbD ·) with
  | none => 0
  | some i => i+1

/-- The retry loop of `find_cont_bits`; each round drops a run of ones that is too
short. The outer `none` is the loop still going when the fuel is spent, an error its
return code. -/
def findContBitsLoop : ℕ → BitVec 64 → ℕ → Option (Except ℕ UInt8)
  | 0, _, _ => none
  | fuel+1, tval, tlen =>
    let iret := ffsll tval
    if iret = 0 then some (.error 1)
    else
      let iret := iret-1
      if 64 ≤ iret+tlen then some (.error 2)
      else
        let temp := lowOnes 64 tlen <<< iret
        if tval &&& temp ≠ temp then findContBitsLoop fuel (tval &&& (tval + (1#64 <<< iret))) tlen
        else some (.ok (UInt8.ofNat iret))

/-- Every round clears the lowest set bit, so 65 rounds always finish. -/
def findContBits (tval : BitVec 64) (tlen : ℕ) : Except ℕ UInt8 :=
  (findContBitsLoop 65 tval tlen).getD (.error 2)

/-- The return code: 0 for success. -/
def retCode : Except ℕ UInt8 → ℕ
  | .ok _ => 0
  | .error n => n

/-- `resfrm[c] & resfrm[c+k] & ..`, over the frames of class `c` of interval `k`. -/
def classBits (frm : ResFrm) (k c : ℕ) : BitVec 64 :=
  (List.finRange 8).foldl (fun t i => if i.val % k = c then t &&& frm i else t) (BitVec.allOnes 64)

/-- One round of the scan for `tidx` and `tmin`: a class counts when it starts
strictly lower. `tmin` starts at 0xFF. -/
def pickStep (frm : ResFrm) (k tlen : ℕ) (best : Option (ℕ × UInt8)) (c : ℕ) : Option (ℕ × UInt8) :=
  match findContBits (classBits frm k c) tlen with
  | .error _ => best
  | .ok tpos => if tpos < (best.map Prod.snd).getD 0xFF then some (c,tpos) else best

/-- The scan over the classes `0 .. k-1`. -/
def pickClass (frm : ResFrm) (k tlen : ℕ) : Option (ℕ × UInt8) :=
  (List.range k).foldl (pickStep frm k tlen) none

/-- `(1 << tlen) - 1` at type `int`, widened to 64 bits. From 31 on the C shift is
undefined; the value here is the one of the 32-bit shift the ARM build uses. -/
def intMask (tlen : ℕ) : BitVec 64 := (lowOnes 32 tlen).signExtend 64

/-- Clear `tlen` symbols from `tpos` on in the frames of a class. -/
def clearClass (frm : ResFrm) (k c tlen : ℕ) (tpos : UInt8) : ResFrm :=
  clearIn (fun i => i.val % k = c) (intMask tlen <<< tpos.toNat) frm

/-- What a call of `resfrm_alloc` leaves: the return code, what it stored through
`pfreq` and `ppos`, and the bitmap. -/
structure AllocResult where
  iret : ℕ
  out : Option (UInt8 × UInt8)
  frm : ResFrm

/-- The interval the request is rounded to. -/
def roundItvl (itvl : UInt8) : ℕ :=
  if 8 ≤ itvl then 8 else if 4 ≤ itvl then 4 else if 2 ≤ itvl then 2 else 1

/-- One branch of the switch: pick a class of interval `k`, take the symbols, or fail
with `code`. The return code of a success is `done`. -/
def allocBranch (frm : ResFrm) (k tlen code done : ℕ) : AllocResult :=
  match pickClass frm k tlen with
  | none => ⟨code,none,frm⟩
  | some (tidx,tmin) =>
    ⟨done,some (UInt8.ofNat (tidx+k),tmin),clearClass frm k tidx tlen tmin⟩

/-- `resfrm_alloc`. The branch for 8 does not reset `iret`, so a success returns
what the search in the last frame returned. -/
def resfrmAlloc (frm : ResFrm) (itvl tlen : UInt8) : AllocResult :=
  match roundItvl itvl with
  | 1 => allocBranch frm 1 tlen.toNat 10 0
  | 2 => allocBranch frm 2 tlen.toNat 11 0
  | 4 => allocBranch frm 4 tlen.toNat 12 0
  | 8 => allocBranch frm 8 tlen.toNat 13 (retCode (findContBits (frm 7) tlen.toNat))
  | _ => ⟨14,none,frm⟩

/-- `resfrm_free`. -/
def resfrmFree (frm : ResFrm) (freq tpos tlen : UInt8) : ResFrm :=
  setIn (hcbResFrameTest freq) (lowOnes 64 tlen.toNat <<< tpos.toNat) frm

/-- The (frame, symbol) cells of a freq code and a symbol range. -/
def footprint (freq pos len : UInt8) : Set (Fin 8 × ℕ) :=
  block (hcbResFrameTest freq) pos.toNat len.toNat

/-! ### What the bitmap functions do to the free cells -/

theorem ffsll_le (x : BitVec 64) : ffsll x ≤ 64 := by
  unfold ffsll
  split
  · omega
  · rename_i i hi
    have := List.mem_range.mp (List.mem_of_find?_eq_some hi)
    omega

theorem ffsll_pos {x : BitVec 64} (h : ffsll x ≠ 0) :
    x.getLsbD (ffsll x-1) = true ∧ ∀ i < ffsll x-1, x.getLsbD i = false := by
  unfold ffsll at h ⊢
  split
  · simp_all
  · rename_i k hk
    refine ⟨by simpa using List.find?_some hk,fun i hi => ?_⟩
    have := (List.find?_range_eq_some.mp hk).2.2 i (by omega)
    simpa using this

/-- Adding the lowest set bit clears it. -/
theorem getLsbD_add_low {x : BitVec 64} {k : ℕ} (hk : x.getLsbD k = true)
    (hlow : ∀ i < k, x.getLsbD i = false) : (x + (1#64 <<< k)).getLsbD k = false := by
  have hlt := BitVec.lt_of_getLsbD hk
  have hmod : x.toNat % 2^(k+1) = 2^k := by
    apply Nat.eq_of_testBit_eq
    intro i
    rw [Nat.testBit_mod_two_pow,Nat.testBit_two_pow,BitVec.testBit_toNat]
    by_cases hi : i < k
    · simp [hlow i hi,show k ≠ i by omega]
    · by_cases he : i = k
      · subst he; simp [hk]
      · simp [show ¬i < k+1 by omega,show k ≠ i by omega]
  have hs : (1#64 <<< k).toNat = 2^k := by
    rw [BitVec.toNat_shiftLeft,Nat.shiftLeft_eq]
    simp only [BitVec.toNat_ofNat]
    rw [Nat.mod_eq_of_lt (by decide : 1 < 2^64),Nat.one_mul]
    exact Nat.mod_eq_of_lt (Nat.pow_lt_pow_right (by decide) hlt)
  rw [← BitVec.testBit_toNat,BitVec.toNat_add,hs,Nat.testBit_mod_two_pow]
  have hz : (x.toNat+2^k) % 2^(k+1) = 0 := by
    rw [Nat.add_mod,hmod,Nat.mod_eq_of_lt (Nat.pow_lt_pow_right (by decide) (by omega)),
      ← Nat.two_mul,← Nat.pow_succ']
    exact Nat.mod_self _
  have ht : (x.toNat+2^k).testBit k = ((x.toNat+2^k) % 2^(k+1)).testBit k := by
    rw [Nat.testBit_mod_two_pow]; simp
  rw [ht,hz]; simp

/-- The lowest set bit moves up every round, so the fuel lasts. -/
theorem findContBitsLoop_finishes {fuel tlen : ℕ} {tval : BitVec 64} (k : ℕ) (hf : 65 ≤ fuel+k)
    (hk : ∀ i < k, tval.getLsbD i = false) (hfu : 0 < fuel) : findContBitsLoop fuel tval tlen ≠ none := by
  induction fuel generalizing k tval with
  | zero => omega
  | succ fuel ih =>
    simp only [findContBitsLoop]
    split
    · simp
    · rename_i hz
      split
      · simp
      · split
        · obtain ⟨hb,hlow⟩ := ffsll_pos hz
          have hlt := BitVec.lt_of_getLsbD hb
          have hkl : k ≤ ffsll tval-1 := by
            by_contra hc
            have := hk _ (by omega : ffsll tval-1 < k)
            simp [hb] at this
          refine ih (ffsll tval) (by omega) (fun i hi => ?_) (by omega)
          rw [BitVec.getLsbD_and]
          by_cases he : i = ffsll tval-1
          · subst he; rw [getLsbD_add_low hb hlow,Bool.and_false]
          · rw [hlow i (by omega),Bool.false_and]
        · simp

theorem findContBitsLoop_eq (tval : BitVec 64) (tlen : ℕ) :
    findContBitsLoop 65 tval tlen = some (findContBits tval tlen) := by
  have h := @findContBitsLoop_finishes 65 tlen tval 0 le_rfl (by simp) (by omega)
  obtain ⟨r,hr⟩ := Option.ne_none_iff_exists'.mp h
  rw [findContBits,hr,Option.getD_some]

/-- A position the search returns starts `tlen` set bits inside the word. -/
theorem findContBitsLoop_ok {fuel tlen : ℕ} {tval : BitVec 64} {pos : UInt8}
    (h : findContBitsLoop fuel tval tlen = some (.ok pos)) :
    pos.toNat+tlen < 64 ∧ ∀ s, pos.toNat ≤ s → s < pos.toNat+tlen → tval.getLsbD s = true := by
  induction fuel generalizing tval with
  | zero => simp [findContBitsLoop] at h
  | succ fuel ih =>
    simp only [findContBitsLoop] at h
    split at h
    · simp at h
    · rename_i hz
      split at h
      · simp at h
      · rename_i hlt
        split at h
        · -- a retry searches in a subset of the bits
          obtain ⟨hlen,hbits⟩ := ih h
          refine ⟨hlen,fun s hlo hhi => ?_⟩
          have hs := hbits s hlo hhi
          rw [BitVec.getLsbD_and,Bool.and_eq_true] at hs
          exact hs.1
        · rename_i hmask
          simp only [Option.some.injEq,Except.ok.injEq] at h
          subst h
          have hle := ffsll_le tval
          have hpos : (UInt8.ofNat (ffsll tval-1)).toNat = ffsll tval-1 := by
            rw [UInt8.toNat_ofNat']
            omega
          rw [hpos]
          refine ⟨by omega,fun s hlo hhi => ?_⟩
          have hm : (tval &&& lowOnes 64 tlen <<< (ffsll tval-1)).getLsbD s = true := by
            rw [not_not.mp hmask,BitVec.getLsbD_shiftLeft,getLsbD_lowOnes]
            simp only [Bool.and_eq_true,Bool.not_eq_true',decide_eq_true_eq,
              decide_eq_false_iff_not]
            omega
          rw [BitVec.getLsbD_and,Bool.and_eq_true] at hm
          exact hm.1

theorem findContBits_ok {tlen : ℕ} {tval : BitVec 64} {pos : UInt8}
    (h : findContBits tval tlen = .ok pos) :
    pos.toNat+tlen < 64 ∧ ∀ s, pos.toNat ≤ s → s < pos.toNat+tlen → tval.getLsbD s = true := by
  unfold findContBits at h
  cases hl : findContBitsLoop 65 tval tlen with
  | none => simp [hl] at h
  | some r =>
    rw [hl,Option.getD_some] at h
    exact findContBitsLoop_ok (h ▸ hl)

theorem classBits_getLsbD (frm : ResFrm) (k c s : ℕ) :
    (classBits frm k c).getLsbD s = true ↔ s < 64 ∧ ∀ i : Fin 8, i.val % k = c → (frm i).getLsbD s = true := by
  have hfold : ∀ (l : List (Fin 8)) (t : BitVec 64),
      (l.foldl (fun t i => if i.val % k = c then t &&& frm i else t) t).getLsbD s = true ↔
        t.getLsbD s = true ∧ ∀ i ∈ l, i.val % k = c → (frm i).getLsbD s = true := by
    intro l
    induction l with
    | nil => simp
    | cons i l ih =>
      intro t
      rw [List.foldl_cons,ih]
      by_cases hi : i.val % k = c
      · simp [hi,BitVec.getLsbD_and,and_assoc]
      · simp [hi]
  rw [classBits,hfold,BitVec.getLsbD_allOnes]
  simp

theorem pickStep_some {frm : ResFrm} {k tlen c d : ℕ} {best : Option (ℕ × UInt8)} {pos : UInt8}
    (h : pickStep frm k tlen best d = some (c,pos)) :
    best = some (c,pos) ∨ c = d ∧ findContBits (classBits frm k d) tlen = .ok pos := by
  unfold pickStep at h
  cases hf : findContBits (classBits frm k d) tlen with
  | error n => simp only [hf] at h; exact Or.inl h
  | ok tpos =>
    simp only [hf] at h
    split at h
    · simp only [Option.some.injEq,Prod.mk.injEq] at h
      exact Or.inr ⟨h.1.symm,congrArg Except.ok h.2⟩
    · exact Or.inl h

theorem pickClass_some {frm : ResFrm} {k tlen c : ℕ} {pos : UInt8}
    (h : pickClass frm k tlen = some (c,pos)) :
    c < k ∧ findContBits (classBits frm k c) tlen = .ok pos := by
  have hfold : ∀ (l : List ℕ) (b : Option (ℕ × UInt8)), l.foldl (pickStep frm k tlen) b = some (c,pos) →
      b = some (c,pos) ∨ c ∈ l ∧ findContBits (classBits frm k c) tlen = .ok pos := by
    intro l
    induction l with
    | nil => exact fun b hb => Or.inl hb
    | cons d l ih =>
      intro b hb
      rcases ih _ hb with hs | ⟨hc,hf⟩
      · rcases pickStep_some hs with hs | ⟨rfl,hf⟩
        · exact Or.inl hs
        · exact Or.inr ⟨by simp,hf⟩
      · exact Or.inr ⟨List.mem_cons_of_mem _ hc,hf⟩
  rcases hfold (List.range k) none h with hn | ⟨hc,hf⟩
  · simp at hn
  · exact ⟨List.mem_range.mp hc,hf⟩

/-- The freq code of a class selects its frames. -/
theorem hcbResFrameTest_class {k c : ℕ} (hk : k = 1 ∨ k = 2 ∨ k = 4 ∨ k = 8) (hc : c < k) :
    hcbResFrameTest (UInt8.ofNat (c+k)) = fun i => decide (i.val % k = c) := by
  funext i
  rcases hk with rfl | rfl | rfl | rfl <;> interval_cases c <;> revert i <;> decide

theorem getLsbD_intMask (tlen s : ℕ) :
    (intMask tlen).getLsbD s = true ↔ s < 64 ∧ (s < tlen ∨ 32 ≤ tlen) := by
  rw [intMask,BitVec.getLsbD_signExtend,BitVec.msb_eq_getLsbD_last,getLsbD_lowOnes,getLsbD_lowOnes]
  by_cases hs : s < 32
  · simp [hs]
    omega
  · simp [hs]
    omega

/-- What one allocation takes out of the bitmap. -/
def taken (freq pos : UInt8) (tlen : ℕ) : Set (Fin 8 × ℕ) :=
  maskCells (hcbResFrameTest freq) (intMask tlen <<< pos.toNat)

theorem footprint_subset_taken {freq pos len : UInt8} (h : pos.toNat+len.toNat ≤ 64) :
    footprint freq pos len ⊆ taken freq pos len.toNat := by
  rintro ⟨i,s⟩ ⟨hF,hlo,hhi⟩
  refine ⟨hF,?_⟩
  rw [BitVec.getLsbD_shiftLeft]
  have hm := (getLsbD_intMask len.toNat (s-pos.toNat)).mpr ⟨by omega,by omega⟩
  simp only [hm,Bool.and_true,Bool.and_eq_true,Bool.not_eq_true',decide_eq_true_eq,
    decide_eq_false_iff_not]
  omega

/-- Up to 31 symbols the mask covers the requested symbols only. -/
theorem taken_subset_footprint {freq pos len : UInt8} (h : len.toNat ≤ 31) :
    taken freq pos len.toNat ⊆ footprint freq pos len := by
  rintro ⟨i,s⟩ ⟨hF,hm⟩
  rw [BitVec.getLsbD_shiftLeft] at hm
  simp only [Bool.and_eq_true,Bool.not_eq_true',decide_eq_true_eq,decide_eq_false_iff_not] at hm
  have := (getLsbD_intMask _ _).mp hm.2
  exact ⟨hF,by omega,by omega⟩

theorem allocBranch_out {frm : ResFrm} {k code done : ℕ} {tlen freq pos : UInt8}
    (hk : k = 1 ∨ k = 2 ∨ k = 4 ∨ k = 8)
    (h : (allocBranch frm k tlen.toNat code done).out = some (freq,pos)) :
    pos.toNat+tlen.toNat < 64 ∧ footprint freq pos tlen ⊆ cells frm ∧
      cells (allocBranch frm k tlen.toNat code done).frm = cells frm \ taken freq pos tlen.toNat := by
  unfold allocBranch at h ⊢
  cases hp : pickClass frm k tlen.toNat with
  | none => simp [hp] at h
  | some r =>
    obtain ⟨c,m⟩ := r
    simp only [hp,Option.some.injEq,Prod.mk.injEq] at h ⊢
    obtain ⟨rfl,rfl⟩ := h
    obtain ⟨hc,hf⟩ := pickClass_some hp
    obtain ⟨hlen,hbits⟩ := findContBits_ok hf
    have hF := hcbResFrameTest_class hk hc
    refine ⟨hlen,?_,?_⟩
    · rintro ⟨i,s⟩ ⟨hi,hlo,hhi⟩
      rw [hF] at hi
      exact ((classBits_getLsbD frm k c s).mp (hbits s hlo hhi)).2 i (by simpa using hi)
    · rw [clearClass,cells_clearIn,taken,hF]

theorem roundItvl_cases (itvl : UInt8) :
    roundItvl itvl = 1 ∨ roundItvl itvl = 2 ∨ roundItvl itvl = 4 ∨ roundItvl itvl = 8 := by
  unfold roundItvl
  split
  · simp
  · split
    · simp
    · split <;> simp

/-- What is stored through `pfreq` and `ppos` names cells that were free, and exactly
the cells under the mask have been taken. -/
theorem resfrmAlloc_out {frm : ResFrm} {itvl tlen freq pos : UInt8}
    (h : (resfrmAlloc frm itvl tlen).out = some (freq,pos)) :
    pos.toNat+tlen.toNat < 64 ∧ footprint freq pos tlen ⊆ cells frm ∧
      cells (resfrmAlloc frm itvl tlen).frm = cells frm \ taken freq pos tlen.toNat := by
  unfold resfrmAlloc at h ⊢
  rcases roundItvl_cases itvl with hr | hr | hr | hr <;> simp only [hr] at h ⊢
  · exact allocBranch_out (by simp) h
  · exact allocBranch_out (by simp) h
  · exact allocBranch_out (by simp) h
  · exact allocBranch_out (by simp) h

/-- A call that stores nothing fails and leaves the bitmap alone. -/
theorem resfrmAlloc_out_none {frm : ResFrm} {itvl tlen : UInt8}
    (h : (resfrmAlloc frm itvl tlen).out = none) :
    (resfrmAlloc frm itvl tlen).iret ≠ 0 ∧ (resfrmAlloc frm itvl tlen).frm = frm := by
  have hbranch : ∀ k code done, code ≠ 0 → (allocBranch frm k tlen.toNat code done).out = none →
      (allocBranch frm k tlen.toNat code done).iret ≠ 0 ∧
        (allocBranch frm k tlen.toNat code done).frm = frm := by
    intro k code done hcode hn
    unfold allocBranch at hn ⊢
    cases hp : pickClass frm k tlen.toNat with
    | none => simpa using hcode
    | some r => simp [hp] at hn
  unfold resfrmAlloc at h ⊢
  rcases roundItvl_cases itvl with hr | hr | hr | hr <;> simp only [hr] at h ⊢
  · exact hbranch _ _ _ (by decide) h
  · exact hbranch _ _ _ (by decide) h
  · exact hbranch _ _ _ (by decide) h
  · exact hbranch _ _ _ (by decide) h

theorem cells_resfrmAlloc_subset (frm : ResFrm) (itvl tlen : UInt8) :
    cells (resfrmAlloc frm itvl tlen).frm ⊆ cells frm := by
  cases ho : (resfrmAlloc frm itvl tlen).out with
  | none => rw [(resfrmAlloc_out_none ho).2]
  | some r => rw [(resfrmAlloc_out ho).2.2]; exact Set.sdiff_subset

theorem cells_resfrmFree (frm : ResFrm) (freq pos len : UInt8) :
    cells (resfrmFree frm freq pos len) = cells frm ∪ (footprint freq pos len ∩ {c | c.2 < 64}) := by
  rw [resfrmFree,cells_setIn,maskCells_shift,footprint]

example : (resfrmAlloc (resfrmAlloc resfrmInit 8 8).frm 4 8).out = some (5,4) := by decide

end Frames
end Autbus
