import Autbus.Consistency

/-! The resource configuration in flash. Saving and loading both shorten the resources that
reach symbol 61 in mode 3, by one symbol each time. -/
namespace Autbus
namespace Saves

open ResTables Placement Trace

/-- `get_resmgr` on a resource: zero unless enabled or disabled. -/
def tidyRes (r : ResConfig) : ResConfig :=
  if r.cfgState ≠ configEnable ∧ r.cfgState ≠ configDisable then zeroRes else r

/-- `get_resmgr` on a node: zero unless enabled. -/
def tidyNode (nc : NodeConfig) : NodeConfig := if nc.cfgState ≠ configEnable then zeroNode else nc

/-- Apply a change to the entries of the resource table. -/
def onTable (f : ResConfig → ResConfig) (cfg : ResmgrConfig) : ResmgrConfig :=
  {cfg with resCfgTbl := fun r => if r.toNat < maxResCfgId then f (cfg.resCfgTbl r) else cfg.resCfgTbl r}

/-- `get_resmgr`. -/
def getResmgr (cfg : ResmgrConfig) : ResmgrConfig :=
  {onTable tidyRes cfg with nodeCfgTbl := fun i => tidyNode (cfg.nodeCfgTbl i)}

/-- A resource full of `'r'`: the mark of a valid image. -/
def marked : ResConfig := ⟨0x72,0x72,0x72,0x72,0x72,0x72,0x72⟩

/-- An enabled resource that reaches symbol 61 loses its last symbol. -/
def shortenRes (r : ResConfig) : ResConfig :=
  if 61 ≤ r.pos.toNat+r.len.toNat ∧ r.cfgState = configEnable then {r with len := r.len-1} else r

/-- The loop over the table in mode 3. -/
def shorten (msp : UInt8) (cfg : ResmgrConfig) : ResmgrConfig := if msp = 3 then onTable shortenRes cfg else cfg

/-- `set_resmgr`: the tables are cleared, then copied from the image. -/
def setResmgr (image : Option ResmgrConfig) (cfg : ResmgrConfig) : ResmgrConfig :=
  match image with
  | none => {onTable (fun _ => zeroRes) cfg with nodeCfgTbl := fun _ => zeroNode}
  | some image =>
    ⟨fun r => if r.toNat < maxResCfgId then image.resCfgTbl r else cfg.resCfgTbl r,image.nodeCfgTbl⟩

/-- The tables in memory, and in flash as they were written last. -/
structure Stored where
  cfg : ResmgrConfig
  flash : ResmgrConfig

/-- `flash_save_rescfg`. -/
def flashSaveRescfg (msp : UInt8) (s : Stored) : Stored :=
  let presmgr := getResmgr s.cfg
  let presmgr := {presmgr with resCfgTbl := Function.update presmgr.resCfgTbl 0 marked}
  let presmgr := shorten msp presmgr
  ⟨presmgr,presmgr⟩

/-- `flash_load_rescfg` with its return code; the flash is read in full. -/
def flashLoadRescfg (msp : UInt8) (s : Stored) : Stored × ℤ :=
  let presmgr := getResmgr (setResmgr none s.cfg)
  let presmgr := shorten msp (setResmgr (some s.flash) presmgr)
  if presmgr.resCfgTbl 0 ≠ marked then ({s with cfg := setResmgr none presmgr},-1)
  else ({s with cfg := presmgr},0)

inductive Op
  | save
  | load
  deriving DecidableEq

def step (msp : UInt8) (s : Stored) : Op → Option Stored
  | .save => some (flashSaveRescfg msp s)
  | .load => some (flashLoadRescfg msp s).1

/-- The same resources from entry 1 on, and the same nodes. -/
structure Same (cfg cfg' : ResmgrConfig) : Prop where
  res : ∀ r, r ≠ 0 → r.toNat < maxResCfgId → cfg'.resCfgTbl r = cfg.resCfgTbl r
  nodes : cfg'.nodeCfgTbl = cfg.nodeCfgTbl

/-- Saves and loads that follow a save leave the tables as the save left them. -/
def Kept (msp : UInt8) (s : Stored) : Prop :=
  ∀ ops t, Run (step msp) anyStep (flashSaveRescfg msp s) ops t → Same (flashSaveRescfg msp s).cfg t.cfg

/-- The resource ends at symbol 61 at the latest, and is not an empty one that starts there. -/
def EndsBy (r : ResConfig) : Prop := r.pos.toNat+r.len.toNat ≤ 61 ∧ ¬(r.pos = 61 ∧ r.len = 0)

instance (r : ResConfig) : Decidable (EndsBy r) := inferInstanceAs (Decidable (_ ∧ _))

/-! ### One resource -/

@[simp] theorem tidyRes_idem (r : ResConfig) : tidyRes (tidyRes r) = tidyRes r := by
  unfold tidyRes
  by_cases h : r.cfgState ≠ configEnable ∧ r.cfgState ≠ configDisable
  · rw [if_pos h]
    exact ite_self _
  · rw [if_neg h,if_neg h]

@[simp] theorem tidyNode_idem (nc : NodeConfig) : tidyNode (tidyNode nc) = tidyNode nc := by
  unfold tidyNode
  by_cases h : nc.cfgState ≠ configEnable
  · rw [if_pos h]
    exact ite_self _
  · rw [if_neg h,if_neg h]

@[simp] theorem shortenRes_cfgState (r : ResConfig) : (shortenRes r).cfgState = r.cfgState := by
  unfold shortenRes
  split <;> rfl

/-- Shortening leaves nothing to tidy up. -/
theorem tidyRes_shorten {r : ResConfig} (h : tidyRes r = r) : tidyRes (shortenRes r) = shortenRes r := by
  by_cases hbad : r.cfgState ≠ configEnable ∧ r.cfgState ≠ configDisable
  · have hshort : shortenRes r = r := if_neg fun hc => hbad.1 hc.2
    rw [hshort,h]
  · refine if_neg ?_
    rw [shortenRes_cfgState]
    exact hbad

theorem shortenRes_pos {r : ResConfig} (h : 61 ≤ r.pos.toNat+r.len.toNat) (hen : r.cfgState = configEnable) :
    shortenRes r = {r with len := r.len-1} := if_pos ⟨h,hen⟩

/-- The length after the subtraction, which wraps. -/
theorem len_pred (l : UInt8) : (l-1).toNat = if l = 0 then 255 else l.toNat-1 := by
  split
  · next h =>
    rw [h]
    rfl
  · next h =>
    have hpos : 1 ≤ l.toNat := Nat.one_le_iff_ne_zero.mpr fun hz => h (UInt8.toNat_inj.mp hz)
    exact UInt8.toNat_sub_of_le _ _ (UInt8.le_iff_toNat_le.mpr hpos)

theorem len_changed (l : UInt8) : l-1 ≠ l := by
  intro h
  have hn := congrArg UInt8.toNat h
  rw [len_pred] at hn
  split at hn
  · next h0 =>
    rw [h0] at hn
    cases hn
  · next h0 =>
    have hpos : l.toNat ≠ 0 := fun hz => h0 (UInt8.toNat_inj.mp hz)
    omega

/-- A second shortening changes nothing when one symbol was enough. -/
theorem shortenRes_twice (r : ResConfig) :
    shortenRes (shortenRes r) = shortenRes r ↔ (r.cfgState = configEnable → EndsBy r) := by
  by_cases hen : r.cfgState = configEnable
  · by_cases hreach : 61 ≤ r.pos.toNat+r.len.toNat
    · rw [shortenRes_pos hreach hen]
      have hfix : shortenRes {r with len := r.len-1} = {r with len := r.len-1} ↔
          ¬61 ≤ r.pos.toNat+(r.len-1).toNat := by
        constructor
        · intro h hagain
          rw [shortenRes_pos (r := {r with len := r.len-1}) hagain hen] at h
          exact len_changed (r.len-1) (congrArg ResConfig.len h)
        · exact fun h => if_neg fun hc => h hc.1
      rw [hfix,len_pred]
      refine Iff.trans ?_ (forall_prop_of_true hen).symm
      unfold EndsBy
      by_cases h0 : r.len = 0
      · rw [if_pos h0,h0]
        rw [h0] at hreach
        have hz : (0 : UInt8).toNat = 0 := rfl
        rw [hz] at hreach ⊢
        constructor
        · intro h
          omega
        · rintro ⟨hle,hne⟩
          have hpos : r.pos = 61 := UInt8.toNat_inj.mp (show r.pos.toNat = 61 by omega)
          exact absurd ⟨hpos,rfl⟩ hne
      · have hl : r.len.toNat ≠ 0 := fun hz => h0 (UInt8.toNat_inj.mp hz)
        rw [if_neg h0]
        constructor
        · exact fun h => ⟨by omega,fun hc => h0 hc.2⟩
        · rintro ⟨hle,-⟩
          omega
    · have hshort : shortenRes r = r := if_neg fun hc => hreach hc.1
      rw [hshort]
      refine ⟨fun _ _ => ⟨by omega,?_⟩,fun _ => hshort⟩
      rintro ⟨hpos,-⟩
      rw [hpos] at hreach
      have h61 : (61 : UInt8).toNat = 61 := rfl
      omega
  · have hshort : shortenRes r = r := if_neg fun hc => hen hc.2
    rw [hshort]
    exact ⟨fun _ h => absurd h hen,fun _ => hshort⟩

/-- What mode 3 does to a resource, and no other mode. -/
def cut (msp : UInt8) (r : ResConfig) : ResConfig := if msp = 3 then shortenRes r else r

theorem tidyRes_cut {msp : UInt8} {r : ResConfig} (h : tidyRes r = r) : tidyRes (cut msp r) = cut msp r := by
  unfold cut
  split
  · exact tidyRes_shorten h
  · exact h

theorem tidyRes_enabled {r : ResConfig} : (tidyRes r).cfgState = configEnable ↔ r.cfgState = configEnable := by
  unfold tidyRes
  split
  · next h => exact ⟨fun hz => absurd hz (by decide),fun hen => absurd hen h.1⟩
  · exact Iff.rfl

theorem tidyRes_of_enabled {r : ResConfig} (h : r.cfgState = configEnable) : tidyRes r = r :=
  if_neg fun hc => hc.1 h

/-- What a save writes is not shortened by the next load. -/
theorem cut_twice {msp : UInt8} {r : ResConfig} :
    cut msp (cut msp (tidyRes r)) = cut msp (tidyRes r) ↔ (msp = 3 → r.cfgState = configEnable → EndsBy r) := by
  unfold cut
  by_cases h3 : msp = 3
  · rw [if_pos h3,if_pos h3,shortenRes_twice,tidyRes_enabled]
    constructor
    · intro h _ hen
      have := h hen
      rwa [tidyRes_of_enabled hen] at this
    · intro h hen
      rw [tidyRes_of_enabled hen]
      exact h h3 hen
  · rw [if_neg h3,if_neg h3]
    exact ⟨fun _ h => absurd h h3,fun _ => rfl⟩

/-! ### The tables -/

theorem onTable_res {f : ResConfig → ResConfig} {cfg : ResmgrConfig} {r : UInt8} (h : r.toNat < maxResCfgId) :
    (onTable f cfg).resCfgTbl r = f (cfg.resCfgTbl r) := if_pos h

theorem image_res {image cfg : ResmgrConfig} {r : UInt8} (h : r.toNat < maxResCfgId) :
    (setResmgr (some image) cfg).resCfgTbl r = image.resCfgTbl r := if_pos h

theorem shorten_res {msp : UInt8} {cfg : ResmgrConfig} {r : UInt8} (h : r.toNat < maxResCfgId) :
    (shorten msp cfg).resCfgTbl r = cut msp (cfg.resCfgTbl r) := by
  unfold shorten cut
  split
  · exact onTable_res h
  · rfl

@[simp] theorem shorten_nodes (msp : UInt8) (cfg : ResmgrConfig) :
    (shorten msp cfg).nodeCfgTbl = cfg.nodeCfgTbl := by
  unfold shorten
  split <;> rfl

theorem cut_marked (msp : UInt8) : cut msp marked = marked := by
  unfold cut
  split
  · exact if_neg fun hc => absurd hc.2 (by decide)
  · rfl

theorem save_res {msp : UInt8} {s : Stored} {r : UInt8} (h0 : r ≠ 0) (h : r.toNat < maxResCfgId) :
    (flashSaveRescfg msp s).cfg.resCfgTbl r = cut msp (tidyRes (s.cfg.resCfgTbl r)) := by
  unfold flashSaveRescfg
  dsimp only
  rw [shorten_res h]
  dsimp only
  rw [Function.update_of_ne h0]
  exact congrArg (cut msp) (onTable_res h)

theorem save_nodes (msp : UInt8) (s : Stored) :
    (flashSaveRescfg msp s).cfg.nodeCfgTbl = fun i => tidyNode (s.cfg.nodeCfgTbl i) := by
  unfold flashSaveRescfg
  dsimp only
  rw [shorten_nodes]
  rfl

theorem save_marked (msp : UInt8) (s : Stored) : (flashSaveRescfg msp s).cfg.resCfgTbl 0 = marked := by
  unfold flashSaveRescfg
  dsimp only
  rw [shorten_res (by decide)]
  dsimp only
  rw [Function.update_self]
  exact cut_marked msp

/-- A valid image is loaded, and cut. -/
theorem load_valid {msp : UInt8} {s : Stored} (h : s.flash.resCfgTbl 0 = marked) :
    (flashLoadRescfg msp s).1 =
      {s with cfg := shorten msp (setResmgr (some s.flash) (getResmgr (setResmgr none s.cfg)))} := by
  unfold flashLoadRescfg
  dsimp only
  have hmark : (shorten msp (setResmgr (some s.flash) (getResmgr (setResmgr none s.cfg)))).resCfgTbl 0 = marked := by
    rw [shorten_res (by decide)]
    rw [image_res (by decide),h]
    exact cut_marked msp
  rw [if_neg (not_not.mpr hmark)]

theorem load_res {msp : UInt8} {s : Stored} (h : s.flash.resCfgTbl 0 = marked) {r : UInt8}
    (hr : r.toNat < maxResCfgId) : (flashLoadRescfg msp s).1.cfg.resCfgTbl r = cut msp (s.flash.resCfgTbl r) := by
  rw [load_valid h]
  dsimp only
  rw [shorten_res hr,image_res hr]

theorem load_nodes {msp : UInt8} {s : Stored} (h : s.flash.resCfgTbl 0 = marked) :
    (flashLoadRescfg msp s).1.cfg.nodeCfgTbl = s.flash.nodeCfgTbl := by
  rw [load_valid h]
  exact shorten_nodes ..

/-! ### Runs -/

/-- Tables that a save writes and a load reads as they are. -/
structure Fixed (msp : UInt8) (cfg : ResmgrConfig) : Prop where
  tidy : ∀ r, r ≠ 0 → r.toNat < maxResCfgId → tidyRes (cfg.resCfgTbl r) = cfg.resCfgTbl r
  cut : ∀ r, r ≠ 0 → r.toNat < maxResCfgId → cut msp (cfg.resCfgTbl r) = cfg.resCfgTbl r
  nodes : ∀ i, tidyNode (cfg.nodeCfgTbl i) = cfg.nodeCfgTbl i

/-- Memory and flash hold the same tables, the image in flash is valid. -/
structure Holds (cfg : ResmgrConfig) (s : Stored) : Prop where
  memory : Same cfg s.cfg
  flash : Same cfg s.flash
  marked : s.flash.resCfgTbl 0 = marked

theorem Holds.save {msp : UInt8} {cfg : ResmgrConfig} {s : Stored} (h : Holds cfg s) (hf : Fixed msp cfg) :
    Holds cfg (flashSaveRescfg msp s) := by
  have hsame : Same cfg (flashSaveRescfg msp s).cfg := by
    constructor
    · intro r h0 hr
      rw [save_res h0 hr,h.memory.res r h0 hr,hf.tidy r h0 hr,hf.cut r h0 hr]
    · rw [save_nodes,h.memory.nodes]
      funext i
      exact hf.nodes i
  exact ⟨hsame,hsame,save_marked msp s⟩

theorem Holds.load {msp : UInt8} {cfg : ResmgrConfig} {s : Stored} (h : Holds cfg s) (hf : Fixed msp cfg) :
    Holds cfg (flashLoadRescfg msp s).1 := by
  have hflash : (flashLoadRescfg msp s).1.flash = s.flash := by rw [load_valid h.marked]
  refine ⟨⟨?_,?_⟩,hflash ▸ h.flash,hflash ▸ h.marked⟩
  · intro r h0 hr
    rw [load_res h.marked hr,h.flash.res r h0 hr,hf.cut r h0 hr]
  · rw [load_nodes h.marked,h.flash.nodes]

theorem save_holds (msp : UInt8) (s : Stored) : Holds (flashSaveRescfg msp s).cfg (flashSaveRescfg msp s) :=
  ⟨⟨fun _ _ _ => rfl,rfl⟩,⟨fun _ _ _ => rfl,rfl⟩,save_marked msp s⟩

theorem save_fixed {msp : UInt8} {s : Stored}
    (h : ∀ r, r ≠ 0 → r.toNat < maxResCfgId → cut msp (cut msp (tidyRes (s.cfg.resCfgTbl r))) =
      cut msp (tidyRes (s.cfg.resCfgTbl r))) : Fixed msp (flashSaveRescfg msp s).cfg where
  tidy r h0 hr := by
    rw [save_res h0 hr]
    exact tidyRes_cut (tidyRes_idem _)
  cut r h0 hr := by
    rw [save_res h0 hr]
    exact h r h0 hr
  nodes i := by
    rw [save_nodes]
    exact tidyNode_idem _

/-- What is in memory after a save stays through loads and further saves if and only if in
mode 3 every enabled resource ends by symbol 61, so that one cut is enough. -/
theorem kept_iff (msp : UInt8) (s : Stored) :
    Kept msp s ↔
      (msp = 3 → ∀ r, r ≠ 0 → r.toNat < maxResCfgId → Enabled s.cfg r → EndsBy (s.cfg.resCfgTbl r)) := by
  constructor
  · intro h h3 r h0 hr hen
    have hload := (h [.load] _ (.cons .nil trivial rfl)).res r h0 hr
    have hflash : (flashSaveRescfg msp s).flash = (flashSaveRescfg msp s).cfg := rfl
    rw [load_res (save_marked msp s) hr,hflash,save_res h0 hr] at hload
    exact cut_twice.mp hload h3 hen
  · intro h ops t hrun
    have hf : Fixed msp (flashSaveRescfg msp s).cfg :=
      save_fixed fun r h0 hr => cut_twice.mpr fun h3 hen => h h3 r h0 hr hen
    have hholds : Holds (flashSaveRescfg msp s).cfg t := by
      refine hrun.invariant (I := fun _ t => Holds (flashSaveRescfg msp s).cfg t) (save_holds msp s) ?_
      intro ops t op t' _ ht _ hstep
      cases op with
      | save =>
        rw [← Option.some.inj hstep]
        exact ht.save hf
      | load =>
        rw [← Option.some.inj hstep]
        exact ht.load hf
    exact hholds.memory

/-- Resource 1 reaches symbol 62. -/
def reaching : ResmgrConfig :=
  {emptyConfig with
    resCfgTbl := Function.update emptyConfig.resCfgTbl 1
      {zeroRes with resid := 1,freq := 1,len := 22,cfgState := configEnable,pos := 40}}

/-- Saved with 21 symbols, loaded with 20. -/
theorem reaching_shrinks : ¬Kept 3 ⟨reaching,emptyConfig⟩ := by
  intro h
  have hload := (h [.load] _ (.cons .nil trivial rfl)).res 1 (by decide) (by decide)
  exact absurd hload (by decide)

end Saves
end Autbus
