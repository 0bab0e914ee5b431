import Autbus.Consistency

/-! The preset resources: what the console accepts and where `config_cn_res` lays them out,
one after the other from symbol 4 on, whatever their frames are. -/
namespace Autbus
namespace Presets

open Cells Frames ResTables Placement Edits Nodes

/-- `debug_cmd_cfg_pre_res` saves the preset unless this is more than 56. -/
def accepted (pre : PreRes) : Prop := ¬56 < pre.len.toNat*pre.num.toNat/pre.freq.toNat

instance (pre : PreRes) : Decidable (accepted pre) := inferInstanceAs (Decidable (¬_))

/-- `config_cn_res` on empty tables. -/
def laidConfig (pre : PreRes) : ResmgrConfig := configCnRes emptyConfig pre

/-- The presets become that many resources, each behind the one before it and in the frame. -/
structure LaidOut (pre : PreRes) : Prop where
  created : ∀ r, Enabled (laidConfig pre) r ↔ r ≠ 0 ∧ r.toNat ≤ pre.num.toNat
  straight : ∀ r, Enabled (laidConfig pre) r → r ≠ 1 →
    ((laidConfig pre).resCfgTbl r).pos.toNat =
      ((laidConfig pre).resCfgTbl (r-1)).pos.toNat+((laidConfig pre).resCfgTbl (r-1)).len.toNat
  ends : ∀ r, Enabled (laidConfig pre) r →
    ((laidConfig pre).resCfgTbl r).pos.toNat+((laidConfig pre).resCfgTbl r).len.toNat ≤ 64
  apart : ∀ q r, Enabled (laidConfig pre) q → Enabled (laidConfig pre) r → q ≠ r →
    Disjoint (fixedFoot (laidConfig pre) q) (fixedFoot (laidConfig pre) r)

/-- The resource number `k`, counted from 0. -/
def laid (pre : PreRes) (k : ℕ) : ResConfig where
  resid := UInt8.ofNat (k+1)
  chan := pre.chan
  freq := pre.freq
  len := pre.len
  cfgState := configEnable
  send2all := 0
  pos := UInt8.ofNat (4+k*pre.len.toNat)

/-- The table with the first `n` of them. -/
def laidTbl (pre : PreRes) (n : ℕ) (r : UInt8) : ResConfig :=
  if r ≠ 0 ∧ r.toNat ≤ n then laid pre (r.toNat-1) else zeroRes

/-! ### The loop -/

theorem ofNat_toNat_lt {k : ℕ} (h : k < 256) : (UInt8.ofNat k).toNat = k := by
  rw [UInt8.toNat_ofNat']
  exact Nat.mod_eq_of_lt h

/-- One more preset goes behind the ones there. -/
theorem addRes_laid {pre : PreRes} {n : ℕ} (hn : n+1 < 256) {cfg : ResmgrConfig}
    (h : cfg.resCfgTbl = laidTbl pre n) :
    (addResConfig cfg (UInt8.ofNat (n+1)) ⟨0,pre.chan,pre.freq,pre.len,0,0,0⟩).1.resCfgTbl = laidTbl pre (n+1) := by
  have hid : (UInt8.ofNat (n+1)).toNat = n+1 := ofNat_toNat_lt hn
  have h0 : UInt8.ofNat (n+1) ≠ 0 := by
    intro hz
    rw [hz] at hid
    cases hid
  unfold addResConfig
  rw [if_neg h0]
  dsimp only
  rw [if_neg (not_not.mpr rfl)]
  funext r
  by_cases hr : r = UInt8.ofNat (n+1)
  · subst hr
    rw [Function.update_self]
    have hlaid : laidTbl pre (n+1) (UInt8.ofNat (n+1)) = laid pre n := by
      unfold laidTbl
      rw [if_pos ⟨h0,hid.le⟩,hid]
      rfl
    rw [hlaid]
    by_cases h1 : UInt8.ofNat (n+1) = 1
    · have hn0 : n = 0 := by
        rw [h1] at hid
        have : (1 : UInt8).toNat = 1 := rfl
        omega
      subst hn0
      rw [if_pos h1]
      unfold laid
      simp
    · have hn0 : n ≠ 0 := by
        rintro rfl
        exact h1 rfl
      have hprev : UInt8.ofNat (n+1)-1 = UInt8.ofNat n := by
        apply UInt8.toNat_inj.mp
        rw [UInt8.toNat_sub_of_le _ _ (UInt8.le_iff_toNat_le.mpr (by rw [hid]; exact Nat.le_add_left 1 n)),hid,
          ofNat_toNat_lt (by omega)]
        rfl
      have hbefore : cfg.resCfgTbl (UInt8.ofNat n) = laid pre (n-1) := by
        have hidn : (UInt8.ofNat n).toNat = n := ofNat_toNat_lt (by omega)
        rw [h]
        unfold laidTbl
        rw [hidn,if_pos]
        refine ⟨?_,le_refl n⟩
        intro hz
        rw [hz] at hidn
        exact hn0 hidn.symm
      have hpos : UInt8.ofNat (4+(n-1)*pre.len.toNat)+pre.len = UInt8.ofNat (4+n*pre.len.toNat) := by
        obtain ⟨m,rfl⟩ := Nat.exists_eq_succ_of_ne_zero hn0
        apply UInt8.toNat_inj.mp
        rw [UInt8.toNat_add,UInt8.toNat_ofNat',UInt8.toNat_ofNat',Nat.mod_add_mod,Nat.succ_sub_one,Nat.succ_mul,
          Nat.add_assoc]
      rw [if_neg h1,hprev,hbefore]
      unfold laid
      dsimp only
      rw [hpos]
  · rw [Function.update_of_ne hr,h]
    unfold laidTbl
    have hne : r.toNat ≠ n+1 := fun he => hr (UInt8.toNat_inj.mp (he.trans hid.symm))
    have hiff : (r ≠ 0 ∧ r.toNat ≤ n) ↔ (r ≠ 0 ∧ r.toNat ≤ n+1) := by
      refine and_congr_right fun _ => ?_
      omega
    simp only [hiff]

theorem laidConfig_tbl (pre : PreRes) : (laidConfig pre).resCfgTbl = laidTbl pre pre.num.toNat := by
  have hnone : (emptyConfig).resCfgTbl = laidTbl pre 0 := by
    funext r
    refine (if_neg ?_).symm
    rintro ⟨h0,hle⟩
    exact h0 (UInt8.toNat_inj.mp (Nat.le_zero.mp hle))
  have hlt := pre.num.toNat_lt
  unfold laidConfig configCnRes
  split
  · next h0 =>
    rw [h0]
    exact hnone
  next h0 =>
  have hpos : pre.num.toNat ≠ 0 := fun hz => h0 (UInt8.toNat_inj.mp hz)
  dsimp only
  have hloop : ∀ n, n+1 < 256 →
      ((List.range n).foldl (fun cfg i =>
        (addResConfig cfg (UInt8.ofNat (2+i)) ⟨0,pre.chan,pre.freq,pre.len,0,0,0⟩).1)
        (addResConfig emptyConfig 1 ⟨0,pre.chan,pre.freq,pre.len,0,0,0⟩).1).resCfgTbl = laidTbl pre (n+1) := by
    intro n
    induction n with
    | zero => exact fun hn => addRes_laid hn hnone
    | succ n ih =>
      intro hn
      rw [List.range_succ,List.foldl_append,List.foldl_cons,List.foldl_nil,Nat.add_comm 2 n]
      exact addRes_laid hn (ih (by omega))
  rw [hloop _ (by omega)]
  congr 1
  omega

/-! ### Where they lie -/

theorem laid_enabled {pre : PreRes} {r : UInt8} :
    Enabled (laidConfig pre) r ↔ r ≠ 0 ∧ r.toNat ≤ pre.num.toNat := by
  unfold Enabled
  rw [laidConfig_tbl]
  unfold laidTbl
  split
  · next h => exact ⟨fun _ => h,fun _ => rfl⟩
  · next h => exact ⟨fun hz => absurd hz (by decide),fun hc => absurd hc h⟩

theorem laid_res {pre : PreRes} {r : UInt8} (h : Enabled (laidConfig pre) r) :
    (laidConfig pre).resCfgTbl r = laid pre (r.toNat-1) := by
  rw [laidConfig_tbl]
  exact if_pos (laid_enabled.mp h)

/-- Below 256 symbols the positions do not wrap. -/
theorem laid_pos {pre : PreRes} {k : ℕ} (h : 4+k*pre.len.toNat < 256) :
    (laid pre k).pos.toNat = 4+k*pre.len.toNat := ofNat_toNat_lt h

/-- In the frame they end at `4+num*len`. -/
theorem laid_end {pre : PreRes} {k : ℕ} (hfit : pre.num.toNat*pre.len.toNat ≤ 60) (hk : k < pre.num.toNat) :
    4+k*pre.len.toNat+pre.len.toNat ≤ 64 := by
  have hmul : (k+1)*pre.len.toNat ≤ pre.num.toNat*pre.len.toNat := Nat.mul_le_mul_right _ hk
  rw [Nat.succ_mul] at hmul
  omega

theorem laidOut_of_fit {pre : PreRes} (hfit : pre.num.toNat*pre.len.toNat ≤ 60) : LaidOut pre := by
  have hplace : ∀ r, Enabled (laidConfig pre) r →
      r.toNat ≠ 0 ∧ ((laidConfig pre).resCfgTbl r).pos.toNat = 4+(r.toNat-1)*pre.len.toNat ∧
      4+(r.toNat-1)*pre.len.toNat+pre.len.toNat ≤ 64 := by
    intro r hr
    obtain ⟨h0,hle⟩ := laid_enabled.mp hr
    have hpos : r.toNat ≠ 0 := fun hz => h0 (UInt8.toNat_inj.mp hz)
    have hend := laid_end hfit (k := r.toNat-1) (by omega)
    rw [laid_res hr]
    exact ⟨hpos,laid_pos (by omega),hend⟩
  have hlen : ∀ r, Enabled (laidConfig pre) r → ((laidConfig pre).resCfgTbl r).len = pre.len := by
    intro r hr
    rw [laid_res hr]
    rfl
  refine ⟨fun r => laid_enabled,?_,?_,?_⟩
  · intro r hr h1
    obtain ⟨h0,hpos,-⟩ := hplace r hr
    have hr1 : r.toNat ≠ 1 := fun he => h1 (UInt8.toNat_inj.mp he)
    have hsub : (r-1).toNat = r.toNat-1 :=
      UInt8.toNat_sub_of_le _ _ (UInt8.le_iff_toNat_le.mpr (Nat.one_le_iff_ne_zero.mpr h0))
    have hprev : Enabled (laidConfig pre) (r-1) := by
      have hle := (laid_enabled.mp hr).2
      refine laid_enabled.mpr ⟨?_,by omega⟩
      intro hz
      rw [hz] at hsub
      have : (0 : UInt8).toNat = 0 := rfl
      omega
    obtain ⟨-,hpos',-⟩ := hplace (r-1) hprev
    obtain ⟨m,hm⟩ : ∃ m, r.toNat = m+2 := ⟨r.toNat-2,by omega⟩
    rw [hpos,hpos',hlen _ hprev,hsub,hm]
    show 4+(m+1)*pre.len.toNat = 4+m*pre.len.toNat+pre.len.toNat
    rw [Nat.succ_mul,Nat.add_assoc]
  · intro r hr
    obtain ⟨-,hpos,hend⟩ := hplace r hr
    rw [hpos,hlen r hr]
    exact hend
  · intro q r hq hr hne
    obtain ⟨hq0,hqpos,-⟩ := hplace q hq
    obtain ⟨hr0,hrpos,-⟩ := hplace r hr
    unfold fixedFoot footprint
    apply block_disjoint
    rw [hqpos,hrpos,hlen q hq,hlen r hr]
    have hnat : q.toNat ≠ r.toNat := fun he => hne (UInt8.toNat_inj.mp he)
    rcases Nat.lt_or_gt_of_ne hnat with hlt | hlt
    · have hmul : (q.toNat-1+1)*pre.len.toNat ≤ (r.toNat-1)*pre.len.toNat := Nat.mul_le_mul_right _ (by omega)
      rw [Nat.succ_mul] at hmul
      omega
    · have hmul : (r.toNat-1+1)*pre.len.toNat ≤ (q.toNat-1)*pre.len.toNat := Nat.mul_le_mul_right _ (by omega)
      rw [Nat.succ_mul] at hmul
      omega

theorem fit_of_laidOut {pre : PreRes} (h : LaidOut pre) : pre.num.toNat*pre.len.toNat ≤ 60 := by
  have hlt := pre.num.toNat_lt
  -- without a wrap each one lies behind all before it
  have hpos : ∀ k, k < pre.num.toNat →
      ((laidConfig pre).resCfgTbl (UInt8.ofNat (k+1))).pos.toNat = 4+k*pre.len.toNat := by
    intro k
    induction k with
    | zero =>
      intro hk
      have hen : Enabled (laidConfig pre) 1 := laid_enabled.mpr ⟨by decide,hk⟩
      have h1 : UInt8.ofNat (0+1) = 1 := rfl
      rw [h1,laid_res hen]
      have hpos : (laid pre 0).pos.toNat = 4+0*pre.len.toNat := laid_pos (by rw [Nat.zero_mul]; decide)
      exact hpos
    | succ k ih =>
      intro hk
      have hid : (UInt8.ofNat (k+1+1)).toNat = k+1+1 := ofNat_toNat_lt (by omega)
      have hidk : (UInt8.ofNat (k+1)).toNat = k+1 := ofNat_toNat_lt (by omega)
      have hen : Enabled (laidConfig pre) (UInt8.ofNat (k+1+1)) := by
        refine laid_enabled.mpr ⟨?_,by omega⟩
        intro hz
        rw [hz] at hid
        cases hid
      have henk : Enabled (laidConfig pre) (UInt8.ofNat (k+1)) := by
        refine laid_enabled.mpr ⟨?_,by omega⟩
        intro hz
        rw [hz] at hidk
        cases hidk
      have hsub : UInt8.ofNat (k+1+1)-1 = UInt8.ofNat (k+1) := by
        apply UInt8.toNat_inj.mp
        rw [UInt8.toNat_sub_of_le _ _ (UInt8.le_iff_toNat_le.mpr (by rw [hid]; exact Nat.le_add_left 1 (k+1))),
          hid,hidk]
        rfl
      have hne : UInt8.ofNat (k+1+1) ≠ 1 := by
        intro h1
        rw [h1] at hid
        have : (1 : UInt8).toNat = 1 := rfl
        omega
      rw [h.straight _ hen hne,hsub,ih (by omega),laid_res henk,Nat.succ_mul,Nat.add_assoc]
      rfl
  by_cases h0 : pre.num.toNat = 0
  · rw [h0,Nat.zero_mul]
    exact Nat.zero_le _
  · obtain ⟨n,hn⟩ := Nat.exists_eq_succ_of_ne_zero h0
    have hid : (UInt8.ofNat (n+1)).toNat = n+1 := ofNat_toNat_lt (by omega)
    have hen : Enabled (laidConfig pre) (UInt8.ofNat (n+1)) := by
      refine laid_enabled.mpr ⟨?_,by omega⟩
      intro hz
      rw [hz] at hid
      cases hid
    have hend := h.ends _ hen
    rw [hpos n (by omega),laid_res hen] at hend
    have hlen : (laid pre ((UInt8.ofNat (n+1)).toNat-1)).len = pre.len := rfl
    rw [hlen] at hend
    rw [hn,Nat.succ_eq_add_one,Nat.succ_mul]
    omega

/-- Presets lie in the frame and apart if and only if all of them together have room behind
the first 4 symbols, counted as if they were sent in every frame. -/
theorem laidOut_iff (pre : PreRes) : LaidOut pre ↔ pre.num.toNat*pre.len.toNat ≤ 60 :=
  ⟨fit_of_laidOut,laidOut_of_fit⟩

/-- For resources in every frame the check of the console is enough. -/
theorem accepted_laidOut {pre : PreRes} (hfreq : pre.freq = 1) (h : accepted pre) : LaidOut pre := by
  unfold accepted at h
  rw [hfreq] at h
  have h1 : (1 : UInt8).toNat = 1 := rfl
  rw [h1,Nat.div_one,Nat.mul_comm] at h
  exact laidOut_of_fit (by omega)

/-- Two resources of 40 symbols in every second frame are accepted. -/
def wide : PreRes := ⟨2,0,2,40,1⟩

theorem wide_outside : accepted wide ∧ ¬LaidOut wide := by
  refine ⟨by decide,fun h => ?_⟩
  have hend := h.ends 2 (by decide)
  exact absurd hend (by decide)

end Presets
end Autbus
