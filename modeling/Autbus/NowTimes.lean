import Autbus.TimeSync
import Mathlib.Tactic.Ring

/-! The time of now (`phb1.c`): the time that was noted, and what has passed on the bus since. There are
two versions of it. -/
namespace Autbus
namespace NowTimes

open TimeSync

/-- What `read_reg` reads. -/
abbrev Regs := UInt32 → UInt32

/-- `write_reg`. -/
def writeReg (a v : UInt32) (regs : Regs) : Regs := Function.update regs a v

def yearFlash : UInt32 := 0x701f00
def monthFlash : UInt32 := 0x701f04
def dayFlash : UInt32 := 0x701f08
def hourFlash : UInt32 := 0x701f0C
def minuteFlash : UInt32 := 0x701f10
def secondFlash : UInt32 := 0x701f14
def timCntFlash : UInt32 := 0x701f18
def frmhighflash : UInt32 := 0x701f1C
def frmlowFlash : UInt32 := 0x701f20
def symbFlash : UInt32 := 0x701f24
def smpFlash : UInt32 := 0x701f28
def tnMsp : UInt32 := 0x701f3c
def tnTimerWrite : UInt32 := 0x701f40
def tnTimerRead : UInt32 := 0x701f44
def cnTimerWrite : UInt32 := 0x701f48
def cnTimerRead : UInt32 := 0x701f4c
def smReg : UInt32 := 0xA00010
def fmReg : UInt32 := 0xA00014

/-- `timeval_t`. -/
structure Timeval where
  tvMsec : UInt64
  tvUsec : UInt64
  deriving DecidableEq

/-- `cm_smb` and `cm_frm`: the nanoseconds of a symbol and of a frame. -/
structure Cm where
  cmSmb : UInt32
  cmFrm : UInt32
  deriving DecidableEq

/-- The `switch` over the mode; without a case the variables stay as they are. -/
def modeCm (msp : UInt8) (cm : Cm) : Cm :=
  if msp = 0 then ⟨62500,4000000⟩
  else if msp = 1 then ⟨31250,2000000⟩
  else if msp = 2 then ⟨15625,1000000⟩
  else if msp = 3 then ⟨7812,512000⟩
  else cm

/-- The time that was noted: the date, and where the bus was then. -/
def readUtc (regs : Regs) : TimeUtc where
  year := (regs yearFlash).toUInt16
  month := (regs monthFlash).toUInt8
  day := (regs dayFlash).toUInt8
  hour := (regs hourFlash).toUInt8
  minute := (regs minuteFlash).toUInt8
  second := (regs secondFlash).toUInt8
  frame := (regs frmhighflash).toUInt64 <<< 32 ||| (regs frmlowFlash).toUInt64
  symbol := (regs symbFlash).toUInt8
  smpol := (regs smpFlash).toUInt16

/-- Where the bus is now. -/
structure Now where
  nowFrme : UInt64
  nowSymbol : UInt8
  nowSymp : UInt16
  deriving DecidableEq

/-- The fields of the frame and the symbol register. -/
def nowOf (fm sm : UInt32) : Now where
  nowFrme := fm.toUInt64 <<< 8 ||| (sm >>> 20).toUInt64
  nowSymbol := ((sm >>> 12) &&& 0x3F).toUInt8
  nowSymp := (sm &&& 0x7FF).toUInt16

/-- `frmns` as it is computed with `cm_frm` and `cm_smb`. The products with a symbol have 32 bits. -/
def frmnsCm (cm : Cm) (tmp : UInt32) (now : Now) (tim : TimeUtc) : UInt64 :=
  tmp.toUInt64+((now.nowFrme*cm.cmFrm.toUInt64+(now.nowSymbol.toUInt32*cm.cmSmb).toUInt64+
      UInt64.ofInt (now.nowSymp.toNat*40))-
    (tim.frame*cm.cmFrm.toUInt64+(tim.symbol.toUInt32*cm.cmSmb).toUInt64+UInt64.ofInt (tim.smpol.toNat*40)))

/-- `frmns` of the CN in `timer_api`: the numbers of mode 0 stand in it, and the second part is an `int`. -/
def frmnsApi (tmp : UInt32) (now : Now) (tim : TimeUtc) : UInt64 :=
  tmp.toUInt64+(now.nowFrme-tim.frame)*4000000+
    UInt64.ofInt ((now.nowSymp.toNat*40+now.nowSymbol.toNat*62500)-(tim.symbol.toNat*62500+tim.smpol.toNat*40))

/-- `timval`: the carry of the microseconds into the milliseconds. -/
def timvalOf (tepDayMs frmns : UInt64) : Timeval :=
  let tvUsec := frmns/1000
  if 1000 < tvUsec then ⟨tepDayMs+tvUsec/1000,tvUsec%1000⟩ else ⟨tepDayMs,tvUsec⟩

/-- What a call returns, and what it leaves behind. -/
structure Ret where
  timval : Timeval
  regs : Regs
  timerNextCcp : UInt64

variable (msp : UInt8) (cm : Cm) (timval : Timeval) (timerNextCcp : UInt64) (regs : Regs)

/-- `timer_api` in mode `msp`; `cm` and `timval` are what its variables hold before they are set. -/
def timerApi : Ret :=
  let cm := modeCm msp cm
  let tn : Timeval × Regs :=
    if regs tnTimerWrite ≠ 0 then
      let regs := writeReg tnTimerRead 0 regs
      let tim := readUtc regs
      let frmns := frmnsCm cm (regs timCntFlash) (nowOf (regs fmReg) (regs smReg)) tim
      (timvalOf (timeToMs tim) frmns,writeReg tnTimerRead 6 regs)
    else (timval,regs)
  let regs := tn.2
  if regs cnTimerWrite ≠ 0 then
    let regs := writeReg cnTimerRead 0 regs
    let tim := readUtc regs
    let frmns := frmnsApi (regs timCntFlash) (nowOf (regs fmReg) (regs smReg)) tim
    ⟨timvalOf (timeToMs tim) frmns,writeReg cnTimerRead 6 regs,timerNextCcp⟩
  else ⟨tn.1,regs,timerNextCcp⟩

/-- The branch of a TN in `timer_software`, which also sets the timer of the next pulse. -/
def softwareTn : Ret × Cm :=
  let regs := writeReg tnTimerRead 0 regs
  let cm := modeCm (regs tnMsp).toUInt8 cm
  let tim := readUtc regs
  let tmp := regs timCntFlash
  let fm := regs fmReg
  let regs := writeReg 0x440000 0xb regs
  let frmns := frmnsCm cm tmp (nowOf fm (regs smReg)) tim
  let timerNextCcp := 100000000-frmns%1000000000/10+200
  let regs := writeReg 0x440034 timerNextCcp.toUInt32 regs
  (⟨timvalOf (timeToMs tim) frmns,writeReg tnTimerRead 6 regs,timerNextCcp⟩,cm)

/-- `timer_software`; the CN's mode is `msp`, a TN reads its own from a register. -/
def timerSoftware : Ret :=
  let tn := if regs tnTimerWrite ≠ 0 then softwareTn cm regs else (⟨timval,regs,timerNextCcp⟩,cm)
  let regs := tn.1.regs
  if regs cnTimerWrite ≠ 0 then
    let regs := writeReg cnTimerRead 0 regs
    let cm := modeCm msp tn.2
    let tim := readUtc regs
    let frmns := frmnsCm cm (regs timCntFlash) (nowOf (regs fmReg) (regs smReg)) tim
    ⟨timvalOf (timeToMs tim) frmns,writeReg cnTimerRead 6 regs,tn.1.timerNextCcp⟩
  else tn.1

/-! ### What has passed -/

/-- The nanoseconds from the noted time to now, for these durations of a frame and of a symbol. -/
def passed (cm : Cm) (regs : Regs) : ℤ :=
  let now := nowOf (regs fmReg) (regs smReg)
  let tim := readUtc regs
  (regs timCntFlash).toNat+((now.nowFrme.toNat : ℤ)-tim.frame.toNat)*cm.cmFrm.toNat+
    ((now.nowSymbol.toNat : ℤ)-tim.symbol.toNat)*cm.cmSmb.toNat+((now.nowSymp.toNat : ℤ)-tim.smpol.toNat)*40

/-- The whole microseconds of them in a mode, as a word of 64 bits holds them. -/
def micros (msp : UInt8) (regs : Regs) : ℤ := passed (modeCm msp ⟨0,0⟩) regs%2^64/1000

variable {msp cm timval timerNextCcp regs} {tmp : UInt32} {now : Now} {tim : TimeUtc}

theorem ofInt_sub (x y : ℤ) : UInt64.ofInt (x-y) = UInt64.ofInt x-UInt64.ofInt y := by
  rw [Int.sub_eq_add_neg,UInt64.ofInt_add,UInt64.ofInt_neg,UInt64.sub_eq_add_neg]

theorem toUInt64_eq (x : UInt32) : x.toUInt64 = UInt64.ofInt x.toNat := by
  rw [ofInt_natCast,UInt64.ofNat_uInt32ToNat]

theorem eq_ofInt (x : UInt64) : x = UInt64.ofInt x.toNat := by rw [ofInt_natCast,UInt64.ofNat_toNat]

/-- A product with a symbol is not too large for its 32 bits. -/
theorem symbol_mul (symbol : UInt8) {smb : UInt32} (h : smb ≤ 62500) :
    (symbol.toUInt32*smb).toUInt64 = UInt64.ofInt (symbol.toNat*smb.toNat) := by
  have hsymbol := symbol.toNat_lt
  have hsmb : smb.toNat ≤ 62500 := UInt32.le_iff_toNat_le.mp h
  have hlt : symbol.toNat*smb.toNat < 2^32 := by
    have hle := Nat.mul_le_mul (Nat.le_of_lt_succ hsymbol) hsmb
    omega
  rw [toUInt64_eq,UInt32.toNat_mul,UInt8.toNat_toUInt32,Nat.mod_eq_of_lt hlt]
  norm_cast

theorem frmnsCm_eq (hcm : cm.cmSmb ≤ 62500) :
    frmnsCm cm (regs timCntFlash) (nowOf (regs fmReg) (regs smReg)) (readUtc regs) = UInt64.ofInt (passed cm regs) := by
  unfold frmnsCm passed
  dsimp only
  generalize nowOf (regs fmReg) (regs smReg) = now
  generalize readUtc regs = tim
  rw [symbol_mul _ hcm,symbol_mul _ hcm,toUInt64_eq,toUInt64_eq]
  nth_rewrite 1 [eq_ofInt now.nowFrme]
  nth_rewrite 1 [eq_ofInt tim.frame]
  simp only [← UInt64.ofInt_add,← UInt64.ofInt_mul,← ofInt_sub]
  congr 1
  ring

theorem frmnsApi_eq : frmnsApi (regs timCntFlash) (nowOf (regs fmReg) (regs smReg)) (readUtc regs) =
    UInt64.ofInt (passed ⟨62500,4000000⟩ regs) := by
  unfold frmnsApi passed
  dsimp only
  generalize nowOf (regs fmReg) (regs smReg) = now
  generalize readUtc regs = tim
  have hfrm : (4000000 : UInt64) = UInt64.ofInt 4000000 := rfl
  rw [toUInt64_eq,hfrm]
  nth_rewrite 1 [eq_ofInt now.nowFrme]
  nth_rewrite 1 [eq_ofInt tim.frame]
  simp only [← UInt64.ofInt_add,← UInt64.ofInt_mul,← ofInt_sub]
  congr 1
  have hfrm : (4000000 : UInt32).toNat = 4000000 := rfl
  have hsmb : (62500 : UInt32).toNat = 62500 := rfl
  rw [hfrm,hsmb]
  push_cast
  ring

theorem nowSymbol_lt (fm sm : UInt32) : (nowOf fm sm).nowSymbol.toNat < 64 := by
  have hand : ((sm >>> 12) &&& 0x3F).toNat ≤ 63 := by
    rw [UInt32.toNat_and]
    exact Nat.and_le_right
  have hmod : (nowOf fm sm).nowSymbol.toNat = ((sm >>> 12) &&& 0x3F).toNat%2^8 := UInt32.toNat_toUInt8 _
  omega

/-- Outside mode 0 the two durations come to the same only as long as the bus stays in the symbol that was noted. -/
theorem micros_eq_iff_still (hmsp : msp = 1 ∨ msp = 2 ∨ msp = 3) (hsymbol : (readUtc regs).symbol < 64)
    (hfit : ∀ m,m = 0 ∨ m = msp → 0 ≤ passed (modeCm m ⟨0,0⟩) regs ∧ passed (modeCm m ⟨0,0⟩) regs < 2^64) :
    micros msp regs = micros 0 regs ↔ (nowOf (regs fmReg) (regs smReg)).nowFrme = (readUtc regs).frame ∧
      (nowOf (regs fmReg) (regs smReg)).nowSymbol = (readUtc regs).symbol := by
  have hnow := nowSymbol_lt (regs fmReg) (regs smReg)
  have hzero := hfit 0 (.inl rfl)
  have hmode := hfit msp (.inr rfl)
  have hcm₀ : modeCm 0 ⟨0,0⟩ = ⟨62500,4000000⟩ := rfl
  have hsymbol : (readUtc regs).symbol.toNat < 64 := UInt8.lt_iff_toNat_lt.mp hsymbol
  unfold micros
  rw [Int.emod_eq_of_lt hzero.1 hzero.2,Int.emod_eq_of_lt hmode.1 hmode.2,← UInt64.toNat_inj,← UInt8.toNat_inj,hcm₀]
  clear hfit hzero hmode
  unfold passed
  rcases hmsp with rfl | rfl | rfl
  · have hcm : modeCm 1 ⟨0,0⟩ = ⟨31250,2000000⟩ := rfl
    rw [hcm]
    simp only [UInt32.reduceToNat]
    omega
  · have hcm : modeCm 2 ⟨0,0⟩ = ⟨15625,1000000⟩ := rfl
    rw [hcm]
    simp only [UInt32.reduceToNat]
    omega
  · have hcm : modeCm 3 ⟨0,0⟩ = ⟨7812,512000⟩ := rfl
    rw [hcm]
    simp only [UInt32.reduceToNat]
    refine ⟨fun h => ?_,fun h => by omega⟩
    have hframe : (nowOf (regs fmReg) (regs smReg)).nowFrme.toNat = (readUtc regs).frame.toNat := by omega
    omega

/-! ### The carry -/

theorem timvalOf_lt {t a : UInt64} : (timvalOf t a).tvUsec < 1000 ↔ a/1000 ≠ 1000 := by
  unfold timvalOf
  dsimp only
  rw [Ne,← UInt64.toNat_inj]
  split
  · next h =>
    simp only [UInt64.lt_iff_toNat_lt,UInt64.toNat_mod,UInt64.reduceToNat] at h ⊢
    omega
  · next h =>
    simp only [UInt64.lt_iff_toNat_lt,UInt64.reduceToNat] at h ⊢
    omega

/-- The carry loses nothing. -/
theorem timvalOf_inj {t a b : UInt64} : timvalOf t a = timvalOf t b ↔ a/1000 = b/1000 := by
  refine ⟨fun h => ?_,fun h => by unfold timvalOf; rw [h]⟩
  unfold timvalOf at h
  dsimp only at h
  generalize a/1000 = u at h ⊢
  generalize b/1000 = v at h ⊢
  have hcarry : ∀ {w : UInt64},1000 < w → t+w/1000 ≠ t := by
    intro w hw heq
    have hzero : w/1000 = 0 := by simpa using heq
    have hnat := congrArg UInt64.toNat hzero
    simp only [UInt64.lt_iff_toNat_lt,UInt64.toNat_div,UInt64.reduceToNat] at hw hnat
    omega
  split at h
  · next hu =>
    split at h
    · next hv =>
      obtain ⟨hms,hus⟩ := Timeval.mk.inj h
      have hdiv := congrArg UInt64.toNat ((UInt64.add_right_inj t).mp hms)
      have hmod := congrArg UInt64.toNat hus
      simp only [UInt64.toNat_div,UInt64.toNat_mod,UInt64.reduceToNat] at hdiv hmod
      exact UInt64.toNat_inj.mp (by omega)
    · exact absurd (Timeval.mk.inj h).1 (hcarry hu)
  · split at h
    · next hv => exact absurd (Timeval.mk.inj h).1.symm (hcarry hv)
    · exact (Timeval.mk.inj h).2

theorem ofInt_div_toNat (x : ℤ) : ((UInt64.ofInt x/1000).toNat : ℤ) = x%2^64/1000 := by
  have hpos : 0 ≤ x%2^64 := Int.emod_nonneg x (by norm_num)
  have hlt : x%2^64 < 2^64 := Int.emod_lt_of_pos x (by norm_num)
  unfold UInt64.ofInt
  rw [UInt64.toNat_div,UInt64.toNat_ofNat']
  simp only [UInt64.reduceToNat]
  omega

/-! ### The CN -/

theorem timerApi_cn (hcn : regs cnTimerWrite ≠ 0) (htn : regs tnTimerWrite = 0) :
    (timerApi msp cm timval timerNextCcp regs).timval =
      timvalOf (timeToMs (readUtc regs)) (UInt64.ofInt (passed (modeCm 0 ⟨0,0⟩) regs)) := by
  have hfrmns : UInt64.ofInt (passed (modeCm 0 ⟨0,0⟩) regs) = _ := frmnsApi_eq.symm
  unfold timerApi
  dsimp only
  rw [if_neg (not_not.mpr htn),if_pos hcn,hfrmns]
  -- the write to `cn_timer_read` changes none of the registers that are read
  rfl

theorem timerSoftware_cn (hmsp : msp ≤ 3) (hcn : regs cnTimerWrite ≠ 0) (htn : regs tnTimerWrite = 0) :
    (timerSoftware msp cm timval timerNextCcp regs).timval =
      timvalOf (timeToMs (readUtc regs)) (UInt64.ofInt (passed (modeCm msp ⟨0,0⟩) regs)) := by
  have hmode : modeCm msp cm = modeCm msp ⟨0,0⟩ ∧ (modeCm msp ⟨0,0⟩).cmSmb ≤ 62500 := by
    have hcases : msp = 0 ∨ msp = 1 ∨ msp = 2 ∨ msp = 3 := by
      simp only [UInt8.le_iff_toNat_le,← UInt8.toNat_inj,UInt8.reduceToNat] at hmsp ⊢
      omega
    rcases hcases with rfl | rfl | rfl | rfl <;> exact ⟨rfl,by decide⟩
  rw [← frmnsCm_eq hmode.2]
  unfold timerSoftware
  rw [if_neg (not_not.mpr htn)]
  dsimp only
  rw [if_pos hcn,hmode.1]
  rfl

/-- The two versions return one time, and its microseconds are less than a millisecond. -/
def Agree (api software : Timeval) : Prop := api = software ∧ api.tvUsec < 1000

instance (api software : Timeval) : Decidable (Agree api software) :=
  inferInstanceAs (Decidable (api = software ∧ api.tvUsec < 1000))

/-- The two versions of the time agree where the durations of mode 0 give the same microseconds as those of the
mode, save for the thousand that is not carried. -/
theorem agree_iff (msp : UInt8) (cm cm' : Cm) (timval timval' : Timeval) (timerNextCcp : UInt64) (regs : Regs)
    (hmsp : msp ≤ 3) (hcn : regs cnTimerWrite ≠ 0) (htn : regs tnTimerWrite = 0) :
    Agree (timerApi msp cm timval timerNextCcp regs).timval (timerSoftware msp cm' timval' timerNextCcp regs).timval ↔
      micros msp regs = micros 0 regs ∧ micros 0 regs ≠ 1000 := by
  unfold Agree
  rw [timerApi_cn hcn htn,timerSoftware_cn hmsp hcn htn,timvalOf_inj,timvalOf_lt,Ne,← UInt64.toNat_inj,
    ← UInt64.toNat_inj]
  unfold micros
  rw [← ofInt_div_toNat,← ofInt_div_toNat]
  simp only [UInt64.reduceToNat]
  norm_cast
  rw [eq_comm]

/-- A time that a CN noted at the start of frame 0, a delay of the bus, and the symbol register of now. -/
def noted (timCnt sm : UInt32) : Regs := fun a =>
  if a = yearFlash then 2022
  else if a = monthFlash then 5
  else if a = dayFlash then 26
  else if a = cnTimerWrite then 6
  else if a = timCntFlash then timCnt
  else if a = smReg then sm
  else 0

/-- A frame later in mode 0. -/
theorem frame_agree : Agree (timerApi 0 ⟨0,0⟩ ⟨0,0⟩ 0 (noted 0 0x100000)).timval
    (timerSoftware 0 ⟨0,0⟩ ⟨0,0⟩ 0 (noted 0 0x100000)).timval :=
  (agree_iff 0 ⟨0,0⟩ ⟨0,0⟩ ⟨0,0⟩ ⟨0,0⟩ 0 (noted 0 0x100000) (by decide) (by decide) (by decide)).mpr ⟨rfl,by decide⟩

/-- A frame later in mode 1, and a thousand microseconds in mode 0. -/
theorem frame_disagree : ¬Agree (timerApi 1 ⟨0,0⟩ ⟨0,0⟩ 0 (noted 0 0x100000)).timval
      (timerSoftware 1 ⟨0,0⟩ ⟨0,0⟩ 0 (noted 0 0x100000)).timval ∧
    ¬Agree (timerApi 0 ⟨0,0⟩ ⟨0,0⟩ 0 (noted 1000000 0)).timval
      (timerSoftware 0 ⟨0,0⟩ ⟨0,0⟩ 0 (noted 1000000 0)).timval := by decide +kernel

end NowTimes
end Autbus
