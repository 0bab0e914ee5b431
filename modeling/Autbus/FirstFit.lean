import Autbus.Frames
import Autbus.Runs
import Mathlib.Order.Bounds.Basic

/-! What a request for symbols finds: the lowest place that any class of its interval has, in
the first class that has it there. The search leaves the last symbol of a frame unused. -/
namespace Autbus
namespace FirstFit

open Frames Cells Runs

/-- Room from `p` on, the last symbol left out. -/
def Fits (x : BitVec 64) (tlen p : ℕ) : Prop := p+tlen < 64 ∧ Ones x p tlen

/-- What the search makes of a word. -/
def Found (x : BitVec 64) (tlen : ℕ) : Except ℕ UInt8 → Prop
  | .ok pos => IsLeast {p | Fits x tlen p} pos.toNat
  | .error _ => ∀ p, ¬Fits x tlen p

section Word

variable {x : BitVec 64} {tlen k p : ℕ}

theorem mask_iff (hk : k+tlen ≤ 64) :
    x &&& lowOnes 64 tlen <<< k = lowOnes 64 tlen <<< k ↔ Ones x k tlen := by
  have hmask : ∀ s, (lowOnes 64 tlen <<< k).getLsbD s = true ↔ k ≤ s ∧ s < k+tlen := by
    intro s
    rw [BitVec.getLsbD_shiftLeft,getLsbD_lowOnes]
    simp only [Bool.and_eq_true,Bool.not_eq_true',decide_eq_true_eq,decide_eq_false_iff_not]
    omega
  constructor
  · intro h s hlo hhi
    have hs := (hmask s).mpr ⟨hlo,hhi⟩
    rw [← h,BitVec.getLsbD_and,Bool.and_eq_true] at hs
    exact hs.1
  · intro h
    apply BitVec.eq_of_getLsbD_eq
    intro s _
    rw [BitVec.getLsbD_and,Bool.and_eq_right_iff_imp]
    intro hs
    exact h s ((hmask s).mp hs).1 ((hmask s).mp hs).2

/-- Nothing fits below the lowest set bit. -/
theorem low_le (hlow : ∀ i < k, x.getLsbD i = false) (ht : 0 < tlen) (hp : Ones x p tlen) : k ≤ p := by
  by_contra hlt
  have hfirst : x.getLsbD p = true := hp p (le_refl p) (by omega)
  rw [hlow p (by omega)] at hfirst
  exact Bool.false_ne_true hfirst

theorem Found.congr {y : BitVec 64} {r : Except ℕ UInt8} (h : Found y tlen r)
    (hfits : ∀ p, Fits y tlen p ↔ Fits x tlen p) : Found x tlen r := by
  cases r with
  | ok pos =>
    refine ⟨(hfits _).mp h.1,fun p hp => ?_⟩
    exact h.2 ((hfits p).mpr hp)
  | error n => exact fun p hp => h p ((hfits p).mpr hp)

theorem findContBitsLoop_found {fuel : ℕ} {r : Except ℕ UInt8} (ht : 0 < tlen)
    (h : findContBitsLoop fuel x tlen = some r) : Found x tlen r := by
  induction fuel generalizing x with
  | zero => simp [findContBitsLoop] at h
  | succ fuel ih =>
    simp only [findContBitsLoop] at h
    split at h
    · next hz =>
      cases h
      rintro p ⟨-,hp⟩
      have hnone : (List.range 64).find? (x.getLsbD ·) = none := by
        unfold ffsll at hz
        split at hz
        · assumption
        · omega
      have hbit := hp p (le_refl p) (by omega)
      have hlt := BitVec.lt_of_getLsbD hbit
      have hclear := List.find?_range_eq_none.mp hnone p hlt
      rw [hbit] at hclear
      exact absurd hclear (by decide)
    · next hz =>
      obtain ⟨hbit,hlow⟩ := ffsll_pos hz
      split at h
      · next hend =>
        cases h
        rintro p ⟨hlt,hp⟩
        have hle := low_le hlow ht hp
        omega
      · next hend =>
        split at h
        · next hmask =>
          -- the first run is too short
          have hshort : ¬Ones x (ffsll x-1) tlen := fun hones => hmask ((mask_iff (by omega)).mpr hones)
          refine (ih h).congr fun p => ?_
          unfold Fits
          rw [ones_dropLow hlow hshort]
        · next hmask =>
          cases h
          have hle := ffsll_le x
          have hpos : (UInt8.ofNat (ffsll x-1)).toNat = ffsll x-1 := by
            rw [UInt8.toNat_ofNat']
            omega
          have hones := (mask_iff (by omega)).mp (not_not.mp hmask)
          have hleast : IsLeast {p | Fits x tlen p} (ffsll x-1) :=
            ⟨⟨by omega,hones⟩,fun p hp => low_le hlow ht hp.2⟩
          rw [← hpos] at hleast
          exact hleast

theorem findContBits_found (x : BitVec 64) (ht : 0 < tlen) : Found x tlen (findContBits x tlen) :=
  findContBitsLoop_found ht (findContBitsLoop_eq x tlen)

/-- The loop ends, and a position it ends with is the lowest one with `tlen` set bits. -/
theorem findContBitsLoop_lowest (tval : BitVec 64) (tlen : ℕ) (ht : 1 ≤ tlen) :
    (∃ fuel r, findContBitsLoop fuel tval tlen = some r) ∧
      ∀ fuel pos, findContBitsLoop fuel tval tlen = some (.ok pos) →
        Ones tval pos.toNat tlen ∧ pos.toNat+tlen ≤ 64 ∧ ∀ p < pos.toNat, ¬Ones tval p tlen := by
  refine ⟨⟨65,_,findContBitsLoop_eq tval tlen⟩,fun fuel pos h => ?_⟩
  obtain ⟨⟨hend,hones⟩,hleast⟩ := findContBitsLoop_found ht h
  refine ⟨hones,by omega,fun p hlt hp => ?_⟩
  have hle := hleast (show Fits tval tlen p from ⟨by omega,hp⟩)
  omega

/-- A run of one bit comes before the two that are looked for. -/
theorem short_run_skipped : (∃ fuel r, findContBitsLoop fuel 0b1101#64 2 = some r) ∧
    ∀ fuel pos, findContBitsLoop fuel 0b1101#64 2 = some (.ok pos) →
      Ones 0b1101#64 pos.toNat 2 ∧ pos.toNat+2 ≤ 64 ∧ ∀ p < pos.toNat, ¬Ones 0b1101#64 p 2 :=
  findContBitsLoop_lowest 0b1101#64 2 (by decide)

theorem findContBits_isOk (x : BitVec 64) (ht : 0 < tlen) :
    (∃ pos, findContBits x tlen = .ok pos) ↔ ∃ p, Fits x tlen p := by
  have hfound := findContBits_found x ht
  cases hr : findContBits x tlen with
  | ok pos =>
    rw [hr] at hfound
    exact ⟨fun _ => ⟨_,hfound.1⟩,fun _ => ⟨pos,rfl⟩⟩
  | error n =>
    rw [hr] at hfound
    exact ⟨fun ⟨pos,hpos⟩ => absurd hpos (by simp),fun ⟨p,hp⟩ => absurd hp (hfound p)⟩

end Word

/-! ### The classes of an interval -/

/-- Of the words before `n` the `c`-th has room at `p`: nowhere is there room lower down, nor
as low in a word before. -/
structure First (f : ℕ → BitVec 64) (n tlen c p : ℕ) : Prop where
  lt : c < n
  fits : Fits (f c) tlen p
  least : ∀ c' < n, ∀ p', Fits (f c') tlen p' → p < p' ∨ p = p' ∧ c ≤ c'

theorem First.unique {f : ℕ → BitVec 64} {n tlen c c' p p' : ℕ} (h : First f n tlen c p)
    (h' : First f n tlen c' p') : c = c' ∧ p = p' := by
  have hle := h.least c' h'.lt p' h'.fits
  have hge := h'.least c h.lt p h.fits
  omega

/-- The result of the scan over the words before `n`. -/
def Picked (f : ℕ → BitVec 64) (n tlen : ℕ) : Option (ℕ × UInt8) → Prop
  | none => ∀ c < n, ∀ p, ¬Fits (f c) tlen p
  | some (c,pos) => First f n tlen c pos.toNat

section Classes

variable {frm : ResFrm} {k tlen n : ℕ} {best : Option (ℕ × UInt8)}

theorem Picked.skip {f : ℕ → BitVec 64} (h : Picked f n tlen best) (hno : ∀ p, ¬Fits (f n) tlen p) :
    Picked f (n+1) tlen best := by
  cases best with
  | none =>
    intro c hc p hp
    rcases Nat.lt_succ_iff_lt_or_eq.mp hc with hc | rfl
    · exact h c hc p hp
    · exact hno p hp
  | some b =>
    refine ⟨Nat.lt_succ_of_lt h.lt,h.fits,fun c hc p hp => ?_⟩
    rcases Nat.lt_succ_iff_lt_or_eq.mp hc with hc | rfl
    · exact h.least c hc p hp
    · exact absurd hp (hno p)

theorem pickStep_picked (ht : 0 < tlen) (h : Picked (classBits frm k) n tlen best) :
    Picked (classBits frm k) (n+1) tlen (pickStep frm k tlen best n) := by
  have hfound := findContBits_found (classBits frm k n) ht
  unfold pickStep
  cases hr : findContBits (classBits frm k n) tlen with
  | error e =>
    rw [hr] at hfound
    exact h.skip hfound
  | ok tpos =>
    rw [hr] at hfound
    have hlt : tpos.toNat < 64 := by
      have hfits := hfound.1.1
      omega
    dsimp only
    cases best with
    | none =>
      have hmax : tpos < 0xFF := UInt8.lt_iff_toNat_lt.mpr (by simpa using by omega)
      rw [Option.map_none,Option.getD_none,if_pos hmax]
      refine ⟨Nat.lt_succ_self n,hfound.1,fun c hc p hp => ?_⟩
      rcases Nat.lt_succ_iff_lt_or_eq.mp hc with hc | rfl
      · exact absurd hp (h c hc p)
      · have hle := hfound.2 hp
        omega
    | some b =>
      obtain ⟨c₀,m⟩ := b
      rw [Option.map_some,Option.getD_some]
      split
      · next hm =>
        have hm := UInt8.lt_iff_toNat_lt.mp hm
        refine ⟨Nat.lt_succ_self n,hfound.1,fun c hc p hp => ?_⟩
        rcases Nat.lt_succ_iff_lt_or_eq.mp hc with hc | rfl
        · have hle := h.least c hc p hp
          dsimp only at hm
          omega
        · have hle := hfound.2 hp
          omega
      · next hm =>
        have hm : ¬tpos.toNat < m.toNat := fun hlt => hm (UInt8.lt_iff_toNat_lt.mpr hlt)
        refine ⟨Nat.lt_succ_of_lt h.lt,h.fits,fun c hc p hp => ?_⟩
        rcases Nat.lt_succ_iff_lt_or_eq.mp hc with hc | rfl
        · exact h.least c hc p hp
        · have hle := hfound.2 hp
          have hc₀ := h.lt
          omega

theorem pickClass_picked (frm : ResFrm) (k : ℕ) (ht : 0 < tlen) :
    Picked (classBits frm k) k tlen (pickClass frm k tlen) := by
  have hscan : ∀ n, Picked (classBits frm k) n tlen ((List.range n).foldl (pickStep frm k tlen) none) := by
    intro n
    induction n with
    | zero => exact fun c hc => absurd hc (Nat.not_lt_zero c)
    | succ n ih =>
      rw [List.range_succ,List.foldl_append,List.foldl_cons,List.foldl_nil]
      exact pickStep_picked ht ih
  exact hscan k

end Classes

/-! ### The places of a request -/

/-- The symbols `[p, p+tlen)` are free in all frames of a class of the interval. -/
def Room (frm : ResFrm) (k tlen p : ℕ) : Prop :=
  p+tlen ≤ 64 ∧ ∃ c < k, ∀ i : Fin 8, i.val % k = c → Ones (frm i) p tlen

/-- The call took the lowest place there is, and no other symbols. -/
structure Reserved (frm : ResFrm) (itvl tlen freq pos : UInt8) : Prop where
  free : ∀ i, hcbResFrameTest freq i = true → Ones (frm i) pos.toNat tlen.toNat
  cleared : cells (resfrmAlloc frm itvl tlen).frm = cells frm \ footprint freq pos tlen
  least : IsLeast {p | Room frm (roundItvl itvl) tlen.toNat p} pos.toNat

/-- Behind the place that the request gets its frames have no free symbol. -/
def Tail (frm : ResFrm) (k tlen : ℕ) : Prop :=
  ∀ c p, First (classBits frm k) k tlen c p → ∀ i : Fin 8, i.val % k = c →
    ∀ s, p+tlen ≤ s → (frm i).getLsbD s = false

section Request

variable {frm : ResFrm} {k tlen c p : ℕ} {itvl len freq pos : UInt8}

theorem ones_classBits (hend : p+tlen ≤ 64) :
    Ones (classBits frm k c) p tlen ↔ ∀ i : Fin 8, i.val % k = c → Ones (frm i) p tlen := by
  constructor
  · intro h i hi s hlo hhi
    exact ((classBits_getLsbD frm k c s).mp (h s hlo hhi)).2 i hi
  · intro h s hlo hhi
    exact (classBits_getLsbD frm k c s).mpr ⟨by omega,fun i hi => h i hi s hlo hhi⟩

/-- The place that is found is the lowest one: the place at the very end lies above all others. -/
theorem First.room (h : First (classBits frm k) k tlen c p) : IsLeast {p | Room frm k tlen p} p := by
  have hend := h.fits.1
  refine ⟨⟨by omega,c,h.lt,(ones_classBits (by omega)).mp h.fits.2⟩,?_⟩
  rintro q ⟨hq,d,hd,hones⟩
  by_cases hlast : q+tlen < 64
  · have hle := h.least d hd q ⟨hlast,(ones_classBits hq).mpr hones⟩
    omega
  · omega

/-- One branch of the switch, whatever the interval. -/
theorem resfrmAlloc_branch (frm : ResFrm) (itvl len : UInt8) : ∃ code, code ≠ 0 ∧
    resfrmAlloc frm itvl len = allocBranch frm (roundItvl itvl) len.toNat code
      (if roundItvl itvl = 8 then retCode (findContBits (frm 7) len.toNat) else 0) := by
  unfold resfrmAlloc
  rcases roundItvl_cases itvl with hr | hr | hr | hr <;> rw [hr]
  · exact ⟨10,by decide,rfl⟩
  · exact ⟨11,by decide,rfl⟩
  · exact ⟨12,by decide,rfl⟩
  · exact ⟨13,by decide,rfl⟩

theorem resfrmAlloc_some : (resfrmAlloc frm itvl len).out = some (freq,pos) ↔
    ∃ c, pickClass frm (roundItvl itvl) len.toNat = some (c,pos) ∧ freq = UInt8.ofNat (c+roundItvl itvl) := by
  obtain ⟨code,-,halloc⟩ := resfrmAlloc_branch frm itvl len
  rw [halloc]
  unfold allocBranch
  cases hpick : pickClass frm (roundItvl itvl) len.toNat with
  | none => simp
  | some b =>
    obtain ⟨c,m⟩ := b
    simp only [Option.some.injEq,Prod.mk.injEq]
    constructor
    · rintro ⟨rfl,rfl⟩
      exact ⟨c,⟨rfl,rfl⟩,rfl⟩
    · rintro ⟨d,⟨rfl,rfl⟩,rfl⟩
      exact ⟨rfl,rfl⟩

/-- From 32 symbols on everything behind the place is taken too. -/
theorem mem_taken_wide (h : 32 ≤ len.toNat) (i : Fin 8) (s : ℕ) :
    (i,s) ∈ taken freq pos len.toNat ↔ hcbResFrameTest freq i = true ∧ pos.toNat ≤ s ∧ s < 64 := by
  unfold taken
  rw [mem_maskCells,BitVec.getLsbD_shiftLeft]
  simp only [Bool.and_eq_true,Bool.not_eq_true',decide_eq_true_eq,decide_eq_false_iff_not,getLsbD_intMask]
  refine and_congr_right fun _ => ?_
  omega

theorem cleared_iff (hend : pos.toNat+len.toNat ≤ 64) :
    cells frm \ taken freq pos len.toNat = cells frm \ footprint freq pos len ↔ len.toNat ≤ 31 ∨
      ∀ i, hcbResFrameTest freq i = true → ∀ s, pos.toNat+len.toNat ≤ s → (frm i).getLsbD s = false := by
  have hsub : footprint freq pos len ⊆ taken freq pos len.toNat := footprint_subset_taken hend
  by_cases hlen : len.toNat ≤ 31
  · rw [Set.Subset.antisymm (taken_subset_footprint hlen) hsub]
    exact ⟨fun _ => Or.inl hlen,fun _ => rfl⟩
  · constructor
    · refine fun h => Or.inr fun i hi s hs => ?_
      by_contra hbit
      have hbit : (frm i).getLsbD s = true := Bool.eq_true_of_not_eq_false hbit
      have hlt := BitVec.lt_of_getLsbD hbit
      have hout : (i,s) ∈ cells frm \ footprint freq pos len := by
        refine ⟨hbit,?_⟩
        rintro ⟨-,-,hhi⟩
        dsimp only at hhi
        omega
      rw [← h] at hout
      exact hout.2 ((mem_taken_wide (by omega) i s).mpr ⟨hi,by omega,hlt⟩)
    · rintro (hle | hclear)
      · exact absurd hle hlen
      · refine Set.Subset.antisymm (Set.sdiff_subset_sdiff_right hsub) ?_
        rintro ⟨i,s⟩ ⟨hbit,hout⟩
        refine ⟨hbit,fun htaken => ?_⟩
        obtain ⟨hi,hlo,-⟩ := (mem_taken_wide (by omega) i s).mp htaken
        have hs : pos.toNat+len.toNat ≤ s := by
          by_contra hhi
          exact hout ⟨hi,hlo,by dsimp only; omega⟩
        have hbit : (frm i).getLsbD s = true := hbit
        rw [hclear i hi s hs] at hbit
        exact Bool.false_ne_true hbit

/-- What is known of a place that is given out. -/
theorem resfrmAlloc_first (hlen : 1 ≤ len.toNat) (h : (resfrmAlloc frm itvl len).out = some (freq,pos)) :
    ∃ c, First (classBits frm (roundItvl itvl)) (roundItvl itvl) len.toNat c pos.toNat ∧
      ∀ i : Fin 8, hcbResFrameTest freq i = true ↔ i.val % roundItvl itvl = c := by
  obtain ⟨c,hpick,rfl⟩ := resfrmAlloc_some.mp h
  have hfirst : Picked (classBits frm (roundItvl itvl)) (roundItvl itvl) len.toNat
      (pickClass frm (roundItvl itvl) len.toNat) := pickClass_picked frm _ hlen
  rw [hpick] at hfirst
  refine ⟨c,hfirst,fun i => ?_⟩
  rw [hcbResFrameTest_class (roundItvl_cases itvl) hfirst.lt,decide_eq_true_iff]

theorem reserved_iff (hlen : 1 ≤ len.toNat) :
    (∀ freq pos, (resfrmAlloc frm itvl len).out = some (freq,pos) → Reserved frm itvl len freq pos) ↔
      len.toNat ≤ 31 ∨ Tail frm (roundItvl itvl) len.toNat := by
  have hcell : ∀ freq pos, (resfrmAlloc frm itvl len).out = some (freq,pos) →
      (cells (resfrmAlloc frm itvl len).frm = cells frm \ footprint freq pos len ↔
        len.toNat ≤ 31 ∨ Tail frm (roundItvl itvl) len.toNat) := by
    intro freq pos hout
    obtain ⟨hend,-,hcells⟩ := resfrmAlloc_out hout
    obtain ⟨c,hfirst,hframes⟩ := resfrmAlloc_first hlen hout
    rw [hcells,cleared_iff (by omega)]
    refine or_congr_right ⟨fun h d q hq i hi => ?_,fun h i hi => ?_⟩
    · obtain ⟨rfl,rfl⟩ := hfirst.unique hq
      exact h i ((hframes i).mpr hi)
    · exact h c _ hfirst i ((hframes i).mp hi)
  constructor
  · intro h
    cases hout : (resfrmAlloc frm itvl len).out with
    | none =>
      -- nothing is found, so there is no place to speak of
      refine Or.inr fun c p hfirst => ?_
      have hpicked : Picked (classBits frm (roundItvl itvl)) (roundItvl itvl) len.toNat
          (pickClass frm (roundItvl itvl) len.toNat) := pickClass_picked frm _ hlen
      cases hpick : pickClass frm (roundItvl itvl) len.toNat with
      | none =>
        rw [hpick] at hpicked
        exact absurd hfirst.fits (hpicked c hfirst.lt p)
      | some b =>
        have hsome := resfrmAlloc_some.mpr ⟨b.1,hpick,rfl⟩
        rw [hout] at hsome
        exact absurd hsome (by simp)
    | some b => exact (hcell b.1 b.2 hout).mp (h b.1 b.2 hout).cleared
  · intro h freq pos hout
    obtain ⟨c,hfirst,hframes⟩ := resfrmAlloc_first hlen hout
    have hend := hfirst.fits.1
    refine ⟨fun i hi => ?_,(hcell freq pos hout).mpr h,hfirst.room⟩
    exact (ones_classBits (by omega)).mp hfirst.fits.2 i ((hframes i).mp hi)

/-- Eight symbols from the first free one on. -/
theorem eight_reserved : (resfrmAlloc resfrmInit 2 8).out = some (2,4) ∧ Reserved resfrmInit 2 8 2 4 := by
  have hout : (resfrmAlloc resfrmInit 2 8).out = some (2,4) := by decide
  exact ⟨hout,(reserved_iff (by decide)).mpr (Or.inl (by decide)) 2 4 hout⟩

/-- A request for 32 symbols takes the rest of the frames. -/
theorem half_overtaken :
    ¬∀ freq pos, (resfrmAlloc resfrmInit 1 32).out = some (freq,pos) → Reserved resfrmInit 1 32 freq pos := by
  intro h
  have hcleared := (h 1 4 (by decide)).cleared
  have hfree : (resfrmInit 0).getLsbD 40 = true := by decide
  have hgone : (resfrmAlloc resfrmInit 1 32).frm 0 = 0 := by decide
  have hbit : ((0 : Fin 8),40) ∈ cells resfrmInit \ footprint 1 4 32 := by
    refine ⟨hfree,?_⟩
    rintro ⟨-,-,hhi⟩
    exact absurd hhi (by decide)
  rw [← hcleared,mem_cells,hgone] at hbit
  exact absurd hbit (by decide)

/-! ### The return code -/

theorem findContBitsLoop_error {fuel tlen n : ℕ} {x : BitVec 64}
    (h : findContBitsLoop fuel x tlen = some (.error n)) : n ≠ 0 := by
  induction fuel generalizing x with
  | zero => simp [findContBitsLoop] at h
  | succ fuel ih =>
    simp only [findContBitsLoop] at h
    split at h
    · cases h
      decide
    · split at h
      · cases h
        decide
      · split at h
        · exact ih h
        · cases h

theorem retCode_zero (x : BitVec 64) (tlen : ℕ) :
    retCode (findContBits x tlen) = 0 ↔ ∃ pos, findContBits x tlen = .ok pos := by
  have hloop := findContBitsLoop_eq x tlen
  cases hr : findContBits x tlen with
  | ok pos => exact ⟨fun _ => ⟨pos,rfl⟩,fun _ => rfl⟩
  | error n =>
    rw [hr] at hloop
    exact ⟨fun hn => absurd hn (findContBitsLoop_error hloop),fun ⟨pos,hpos⟩ => absurd hpos (by simp)⟩

theorem pickClass_isSome (frm : ResFrm) (k tlen : ℕ) : (pickClass frm k tlen).isSome = true ↔
    ∃ c < k, ∃ pos, findContBits (classBits frm k c) tlen = .ok pos := by
  have hscan : ∀ n, ((List.range n).foldl (pickStep frm k tlen) none).isSome = true ↔
      ∃ c < n, ∃ pos, findContBits (classBits frm k c) tlen = .ok pos := by
    intro n
    induction n with
    | zero => exact ⟨fun h => absurd h Bool.false_ne_true,fun ⟨c,hc,_⟩ => absurd hc (Nat.not_lt_zero c)⟩
    | succ n ih =>
      rw [List.range_succ,List.foldl_append,List.foldl_cons,List.foldl_nil]
      have hstep : ∀ best, (pickStep frm k tlen best n).isSome = true ↔
          best.isSome = true ∨ ∃ pos, findContBits (classBits frm k n) tlen = .ok pos := by
        intro best
        unfold pickStep
        cases hr : findContBits (classBits frm k n) tlen with
        | error e => simp
        | ok tpos =>
          have hlt := (findContBits_ok hr).1
          cases best with
          | none =>
            have hmax : tpos < 0xFF := UInt8.lt_iff_toNat_lt.mpr (by simpa using by omega)
            simp [hmax]
          | some b =>
            dsimp only
            split
            · simp
            · simp
      rw [hstep,ih]
      constructor
      · rintro (⟨c,hc,hok⟩ | hok)
        · exact ⟨c,Nat.lt_succ_of_lt hc,hok⟩
        · exact ⟨n,Nat.lt_succ_self n,hok⟩
      · rintro ⟨c,hc,hok⟩
        rcases Nat.lt_succ_iff_lt_or_eq.mp hc with hc | rfl
        · exact Or.inl ⟨c,hc,hok⟩
        · exact Or.inr hok
  exact hscan k

/-- In interval 8 each frame is a class of its own. -/
theorem classBits_eight (frm : ResFrm) (i : Fin 8) : classBits frm 8 i.val = frm i := by
  have hmod : ∀ j : Fin 8, j.val % 8 = i.val ↔ j = i := by
    intro j
    rw [Nat.mod_eq_of_lt j.isLt,Fin.val_inj]
  apply BitVec.eq_of_getLsbD_eq
  intro s hs
  rw [Bool.eq_iff_iff,classBits_getLsbD]
  constructor
  · rintro ⟨-,h⟩
    exact h i ((hmod i).mpr rfl)
  · intro h
    refine ⟨hs,fun j hj => ?_⟩
    rw [(hmod j).mp hj]
    exact h

theorem resfrmAlloc_isSome : (resfrmAlloc frm itvl len).out.isSome = true ↔
    ∃ c < roundItvl itvl, ∃ pos, findContBits (classBits frm (roundItvl itvl) c) len.toNat = .ok pos := by
  rw [← pickClass_isSome]
  constructor
  · intro h
    obtain ⟨⟨freq,pos⟩,hout⟩ := Option.isSome_iff_exists.mp h
    obtain ⟨c,hpick,-⟩ := resfrmAlloc_some.mp hout
    rw [hpick]
    rfl
  · intro h
    obtain ⟨⟨c,pos⟩,hpick⟩ := Option.isSome_iff_exists.mp h
    rw [resfrmAlloc_some.mpr ⟨c,hpick,rfl⟩]
    rfl

/-- 0 for a success, in interval 8 only when the last frame would have done as well. -/
theorem resfrmAlloc_iret : (resfrmAlloc frm itvl len).iret = 0 ↔ (resfrmAlloc frm itvl len).out.isSome = true ∧
    (roundItvl itvl = 8 → ∃ pos, findContBits (frm 7) len.toNat = .ok pos) := by
  obtain ⟨code,hcode,halloc⟩ := resfrmAlloc_branch frm itvl len
  rw [halloc]
  unfold allocBranch
  cases pickClass frm (roundItvl itvl) len.toNat with
  | none => simpa using hcode
  | some b =>
    dsimp only
    by_cases height : roundItvl itvl = 8
    · rw [if_pos height,retCode_zero]
      simp [height]
    · simp [height]

/-- Symbols were free before the call and are not afterwards, and the caller knows which. -/
def Takes (frm : ResFrm) (itvl len : UInt8) : Prop :=
  ∃ freq pos, (resfrmAlloc frm itvl len).out = some (freq,pos) ∧ footprint freq pos len ⊆ cells frm ∧
    Disjoint (footprint freq pos len) (cells (resfrmAlloc frm itvl len).frm)

theorem takes_iff : Takes frm itvl len ↔ (resfrmAlloc frm itvl len).out.isSome = true := by
  constructor
  · rintro ⟨freq,pos,hout,-⟩
    rw [hout]
    rfl
  · intro h
    obtain ⟨⟨freq,pos⟩,hout⟩ := Option.isSome_iff_exists.mp h
    obtain ⟨hend,hfree,hcells⟩ := resfrmAlloc_out hout
    refine ⟨freq,pos,hout,hfree,?_⟩
    rw [hcells]
    exact Set.disjoint_sdiff_right.mono_left (footprint_subset_taken (by omega))

theorem reports_iff (frm : ResFrm) (itvl len : UInt8) :
    (((resfrmAlloc frm itvl len).iret = 0 ↔ Takes frm itvl len) ∧
        ((resfrmAlloc frm itvl len).iret ≠ 0 → (resfrmAlloc frm itvl len).frm = frm)) ↔
      (roundItvl itvl = 8 → (∃ i, ∃ pos, findContBits (frm i) len.toNat = .ok pos) →
        ∃ pos, findContBits (frm 7) len.toNat = .ok pos) := by
  rw [takes_iff,resfrmAlloc_iret]
  constructor
  · rintro ⟨hcode,-⟩ height ⟨i,hi⟩
    have hsome : (resfrmAlloc frm itvl len).out.isSome = true := by
      rw [resfrmAlloc_isSome,height]
      refine ⟨i.val,i.isLt,?_⟩
      rw [classBits_eight]
      exact hi
    exact (hcode.mpr hsome).2 height
  · intro h
    have hlast : (resfrmAlloc frm itvl len).out.isSome = true →
        roundItvl itvl = 8 → ∃ pos, findContBits (frm 7) len.toNat = .ok pos := by
      intro hsome height
      rw [resfrmAlloc_isSome,height] at hsome
      obtain ⟨c,hc,hok⟩ := hsome
      rw [classBits_eight frm ⟨c,hc⟩] at hok
      exact h height ⟨⟨c,hc⟩,hok⟩
    refine ⟨Iff.intro And.left fun hsome => ⟨hsome,hlast hsome⟩,fun hcode => ?_⟩
    have hnone : ¬(resfrmAlloc frm itvl len).out.isSome = true := fun hsome =>
      hcode (resfrmAlloc_iret.mpr ⟨hsome,hlast hsome⟩)
    exact (resfrmAlloc_out_none (Option.not_isSome_iff_eq_none.mp hnone)).2

/-- Nothing is free in the last frame. -/
def lastFull : ResFrm := fun i => if i = 7 then 0 else resfrmInit i

theorem lastFull_misreported : ¬(((resfrmAlloc lastFull 8 8).iret = 0 ↔ Takes lastFull 8 8) ∧
    ((resfrmAlloc lastFull 8 8).iret ≠ 0 → (resfrmAlloc lastFull 8 8).frm = lastFull)) := by
  rintro ⟨-,hsame⟩
  have hframe : (resfrmAlloc lastFull 8 8).frm 0 = lastFull 0 := congrFun (hsame (by decide)) 0
  exact absurd hframe (by decide)

/-- There is room before the last symbol, in interval 8 in the last frame too. -/
def Served (frm : ResFrm) (k tlen : ℕ) : Prop :=
  (∃ p, p+tlen < 64 ∧ Room frm k tlen p) ∧ (k = 8 → ∃ p, Fits (frm 7) tlen p)

theorem iret_served (hlen : 1 ≤ len.toNat) :
    (resfrmAlloc frm itvl len).iret = 0 ↔ Served frm (roundItvl itvl) len.toNat := by
  rw [resfrmAlloc_iret,resfrmAlloc_isSome]
  simp only [findContBits_isOk _ hlen]
  refine and_congr_left fun _ => ?_
  constructor
  · rintro ⟨c,hc,p,hend,hones⟩
    exact ⟨p,hend,by omega,c,hc,(ones_classBits (by omega)).mp hones⟩
  · rintro ⟨p,hend,-,c,hc,hones⟩
    exact ⟨c,hc,p,hend,(ones_classBits (by omega)).mpr hones⟩

theorem fails_iff (hlen : 1 ≤ len.toNat) :
    ((resfrmAlloc frm itvl len).iret ≠ 0 → ¬∃ p, Room frm (roundItvl itvl) len.toNat p) ↔
      ((∃ p, Room frm (roundItvl itvl) len.toNat p) → Served frm (roundItvl itvl) len.toNat) := by
  rw [Ne,iret_served hlen]
  exact not_imp_not

/-- With every symbol taken a request fails for want of room. -/
theorem nothing_fails : (resfrmAlloc (fun _ => 0) 4 1).iret ≠ 0 ∧ ¬∃ p, Room (fun _ => 0) 4 1 p := by
  have hfail : (resfrmAlloc (fun _ => 0) 4 1).iret ≠ 0 := by decide
  have hserved : (∃ p, Room (fun _ => 0) (roundItvl 4) (1 : UInt8).toNat p) →
      Served (fun _ => 0) (roundItvl 4) (1 : UInt8).toNat := by
    rintro ⟨p,-,c,hc,hones⟩
    have hbit := hones ⟨c,Nat.lt_of_lt_of_le hc (by decide)⟩ (Nat.mod_eq_of_lt hc) p (le_refl p) (Nat.lt_succ_self p)
    exact absurd (BitVec.getLsbD_zero.symm.trans hbit) Bool.false_ne_true
  exact ⟨hfail,(fails_iff (by decide)).mpr hserved hfail⟩

/-- All that is free at the start, asked for at once. -/
theorem rest_refused :
    ¬((resfrmAlloc resfrmInit 1 60).iret ≠ 0 → ¬∃ p, Room resfrmInit (roundItvl 1) (60 : UInt8).toNat p) := by
  intro h
  refine h (by decide) ⟨4,by decide,0,by decide,fun i _ s hlo hhi => ?_⟩
  have hbits : ∀ s < 64, 4 ≤ s → (resfrmInit i).getLsbD s = true := by
    unfold resfrmInit
    decide
  exact hbits s hhi hlo

end Request

end FirstFit
end Autbus
