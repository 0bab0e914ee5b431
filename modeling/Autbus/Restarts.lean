import Autbus.Keeper

/-! The settings after a start (`tty_mux`). From then on the `devcfg` in memory is valid, and is the one in the
flash, in every state that the board comes to. -/
namespace Autbus
namespace Settings

open Bytes Flash Trace
open Commands (PreResConfig preResMagic)

/-- The `devcfg` in memory is valid, and kept as it is. -/
structure Keeper.Agreed (t : Keeper) : Prop where
  kept : t.settings .dev = read t.ram.devcfg 0 248
  valid : u32 t.ram.devcfg 244 = flashDevCrc

/-- Nothing else in the program writes to `devcfg`. -/
def keepsDevcfg (t : Keeper) : Event → Bool
  | .elsewhere r => read r.devcfg 0 248 = read t.ram.devcfg 0 248
  | _ => true

variable {b : Build} {d : Driver} {s : Board} {t t' : Keeper}

theorem u32_congr {m m' : Mem} {a : ℕ} (h : read m' a 4 = read m a 4) : u32 m' a = u32 m a := by
  obtain ⟨hlow,hhigh⟩ := read_split (n := 2) (k := 2) h
  rw [u32,u32,u16_congr hlow,u16_congr hhigh]

namespace Keeper.Agreed

/-- What changes neither the `devcfg` in memory nor the one that is kept. -/
theorem congr (h : t.Agreed) (hram : read t'.ram.devcfg 0 248 = read t.ram.devcfg 0 248)
    (hkept : t'.settings .dev = t.settings .dev) : t'.Agreed := by
  have hcrc : read t'.ram.devcfg 244 4 = read t.ram.devcfg 244 4 :=
    read_congr fun i hi => by
      have hbyte := read_inj hram (show 244+i < 248 by omega)
      rwa [Nat.zero_add] at hbyte
  exact ⟨hkept.trans (h.kept.trans hram.symm),(u32_congr hcrc).trans h.valid⟩

theorem of_eq (h : t.Agreed) (hram : t'.ram.devcfg = t.ram.devcfg) (hkept : t'.settings .dev = t.settings .dev) :
    t'.Agreed := h.congr (by rw [hram]) hkept

theorem save (h : t.Agreed) {k : Key} (hk : k ≠ .dev) (xs : List UInt8) : (t.save k xs).Agreed :=
  h.of_eq rfl (Keeper.save_of_ne t hk.symm xs)

theorem forget (h : t.Agreed) (locks : Bool) {k : Key} (hk : k ≠ .dev) : (t.forget locks k).Agreed := by
  unfold Keeper.forget
  split
  · exact h
  · exact h.of_eq rfl (Function.update_of_ne hk.symm _ _)

end Keeper.Agreed

/-- A load leaves a valid `devcfg` in memory and in the flash, whatever was there. -/
theorem loadDev_agreed (hsize : (t.settings .dev).length = 248) : t.loadDev.Agreed := by
  have hlen : devDefaults.length = 248 := by decide +kernel
  unfold Keeper.loadDev
  dsimp only
  split
  · have hread := read_store (t.load .dev Ram.readDevcfg).ram.devcfg 0 devDefaults
    rw [hlen] at hread
    refine ⟨?_,?_⟩
    · rw [Keeper.save_ram,Keeper.setRam_ram,Ram.devcfg_readDevcfg,hread]
      exact Keeper.save_self _ _ _
    · rw [Keeper.save_ram,Keeper.setRam_ram,Ram.devcfg_readDevcfg]
      exact devDefaults_crc _
  · next hvalid =>
    have hread := read_store t.ram.devcfg 0 (t.settings .dev)
    rw [hsize] at hread
    refine ⟨?_,not_not.mp hvalid⟩
    rw [Keeper.load_ram,Keeper.load_settings,Ram.devcfg_readDevcfg,hread]

/-- The other loads leave it alone. -/
theorem loadAtb_agreed (h : t.Agreed) (locks : Bool) : (t.loadAtb locks).Agreed := by
  have hload : (t.load .atb Ram.readAtbcfg).Agreed := h.of_eq rfl rfl
  unfold Keeper.loadAtb
  dsimp only
  split
  · exact hload.of_eq rfl rfl
  split
  · exact hload.forget locks (by decide)
  · exact hload

theorem takePreRes_devcfg (r : Ram) (bs : List UInt8) : (r.takePreRes bs).devcfg = r.devcfg := by
  unfold Ram.takePreRes
  dsimp only
  split <;> rfl

theorem setUi_devcfg (r : Ram) (u : HostUi.Ui) : (r.setUi u).devcfg = r.devcfg := rfl

theorem takeRescfg_devcfg (r : Ram) (bs : List UInt8) : (r.takeRescfg bs).devcfg = r.devcfg := by
  unfold Ram.takeRescfg Ram.clearResmgr
  rw [apply_ite Ram.devcfg,setUi_devcfg,setUi_devcfg,ite_self]

theorem loadPre_agreed (h : t.Agreed) : t.loadPre.Agreed :=
  h.of_eq (takePreRes_devcfg _ _) rfl

theorem loadRes_agreed (h : t.Agreed) : t.loadRes.Agreed := by
  unfold Keeper.loadRes
  refine h.of_eq ?_ ?_
  · rw [Keeper.load_ram,Keeper.setRam_ram,takeRescfg_devcfg]
    exact setUi_devcfg _ _
  · rw [Keeper.load_settings,Keeper.setRam_settings]

/-- After a start the `devcfg` in memory is the one in the flash. -/
theorem boot_agreed (locks : Bool) (b : Build) (r : Ram) (hsize : (t.settings .dev).length = 248) :
    (t.boot locks b r).Agreed := by
  have hup : ((t.powerUp r).settings .dev).length = 248 := hsize
  unfold Keeper.boot
  dsimp only
  generalize t.powerUp r = t₀ at hup ⊢
  have hmac : ((if b.drvNandFlash = true then t₀.loadMac else t₀).settings .dev).length = 248 := by
    split
    · exact hup
    · exact hup
  generalize (if b.drvNandFlash = true then t₀.loadMac else t₀) = t₁ at hmac ⊢
  have hdev : t₁.loadDebug.loadDev.Agreed := loadDev_agreed hmac
  have hall := loadRes_agreed (loadAtb_agreed (loadPre_agreed hdev) locks)
  split
  · exact hall
  · exact hall.of_eq (by rw [Keeper.setRam_ram,setUi_devcfg]) (by rw [Keeper.setRam_settings])

/-! ### Runs -/

/-- A port lies in front of the mark. -/
theorem portField_le {p : UInt8} {f : ℕ × ℕ} (h : portField p = some f) : f.1+f.2 ≤ 244 := by
  unfold portField at h
  split at h <;> first | (obtain rfl := Option.some.inj h; decide) | cases h

theorem setPort_valid (r : Ram) : u32 r.setPort.devcfg 244 = u32 r.devcfg 244 := by
  unfold Ram.setPort
  dsimp only
  split
  · next f hf => exact u32_congr (read_copy_frame (Or.inr (portField_le hf)))
  · rfl

theorem saveDev_agreed (t : Keeper) : t.saveDev.Agreed := by
  refine loadDev_agreed ?_
  rw [Keeper.save_self]
  exact read_length _ _ _

/-- A valid `devcfg` that is saved stays in memory as it is. -/
theorem saveDev_devcfg (hvalid : u32 t.ram.devcfg 244 = flashDevCrc) : t.saveDev.ram.devcfg = t.ram.devcfg := by
  have hsame : ((t.save .dev (read t.ram.devcfg 0 248)).load .dev Ram.readDevcfg).ram.devcfg = t.ram.devcfg := by
    rw [load_save,Keeper.setRam_ram,Ram.devcfg_readDevcfg,store_read]
  unfold Keeper.saveDev Keeper.loadDev
  dsimp only
  rw [hsame,if_neg (not_not.mpr hvalid),hsame]

theorem Keeper.Agreed.setUi (h : t.Agreed) (u : HostUi.Ui) : (t.setRam (t.ram.setUi u)).Agreed :=
  h.of_eq (by rw [Keeper.setRam_ram,setUi_devcfg]) (by rw [Keeper.setRam_settings])

theorem saveAtb_agreed (h : t.Agreed) (locks : Bool) : (t.saveAtb locks).Agreed := by
  have hsave := (h.setUi t.ram.ui.flashSaveAtbcfg).save (k := .atb) (by decide)
    (read (t.ram.ui.flashSaveAtbcfg.mem .atbcfg) 0 HostUi.atbcfgSize)
  unfold Keeper.saveAtb
  dsimp only
  split
  · exact (hsave.forget locks (by decide)).forget locks (by decide)
  · exact hsave

/-- Every event keeps the two alike; a start makes them so. -/
theorem step_agreed (h : Same b s t) {locks : Bool} {e : Event} (ha : t.Agreed ∨ ∃ r, e = .reboot r)
    (ht : checked keepsDevcfg (Keeper.step locks b) t e = some t') : t'.Agreed := by
  have hsize : (t.settings .dev).length = 248 := by
    rw [← h.settings]
    exact read_length _ _ _
  rw [checked] at ht
  split at ht
  swap
  · cases ht
  next hkeeps =>
  rcases ha with ha | ⟨r,rfl⟩
  swap
  · obtain rfl := Option.some.inj ht
    exact boot_agreed locks b r hsize
  cases e with
  | elsewhere r =>
    obtain rfl := Option.some.inj ht
    exact ha.congr (of_decide_eq_true hkeeps) rfl
  | saveAtb =>
    obtain rfl := Option.some.inj ht
    exact saveAtb_agreed ha locks
  | saveRes =>
    obtain rfl := Option.some.inj ht
    exact (ha.setUi _).save (k := .res) (by decide) _
  | savePre =>
    obtain rfl := Option.some.inj ht
    have hram : (t.setRam {t.ram with preRes := {t.ram.preRes with magic := preResMagic}}).Agreed := ha.of_eq rfl rfl
    exact hram.save (k := .pre) (by decide) _
  | erasePre =>
    obtain rfl := Option.some.inj ht
    have hram : (t.setRam {t.ram with preRes := {t.ram.preRes with magic := preResMagic}}).unlock.Agreed :=
      ha.of_eq rfl rfl
    exact hram.forget locks (by decide)
  | loadAtb =>
    obtain rfl := Option.some.inj ht
    exact loadAtb_agreed ha locks
  | smac mac =>
    obtain rfl := Option.some.inj ht
    have hram : (t.setRam {t.ram with maccfg := store t.ram.maccfg 0 (read mac 0 6)}).Agreed := ha.of_eq rfl rfl
    exact hram.save (k := .mac) (by decide) _
  | cfg msg =>
    obtain rfl := Option.some.inj ht
    exact ha.save (by decide) _
  | svd r =>
    unfold Keeper.step at ht
    dsimp only at ht
    split at ht
    · obtain rfl := Option.some.inj ht
      exact boot_agreed locks b r hsize
    · obtain rfl := Option.some.inj ht
      exact saveDev_agreed _
  | reburn r | reboot r =>
    obtain rfl := Option.some.inj ht
    exact boot_agreed locks b r hsize
  | otastart | upgradeClose | flashRead | flashUnlock =>
    obtain rfl := Option.some.inj ht
    exact ha.of_eq rfl rfl
  | upgradeOpen fname =>
    unfold Keeper.step at ht
    dsimp only at ht
    split at ht
    · obtain rfl := Option.some.inj ht
      exact ha
    · obtain rfl := Option.some.inj ht
      exact ha.of_eq rfl rfl
  | otadata | flashWrite | flashErase | upgradeWrite =>
    unfold Keeper.step at ht
    dsimp only at ht
    split at ht
    · obtain rfl := Option.some.inj ht
      exact ha.of_eq rfl rfl
    · cases ht

/-- The `devcfg` in memory is valid and the one in the flash, and a port that the host sets next is kept in both. -/
structure Agrees (d : Driver) (b : Build) (fuel : ℕ) (s : Board) : Prop where
  kept : read s.chip.cells (b.ofs .dev) 248 = read s.ram.devcfg 0 248
  valid : u32 s.ram.devcfg 244 = flashDevCrc
  port : ∀ r, s.ram.ui.mem .devSet 0 ≠ 36 → ∃ s', s.uimsgSvd d b fuel r = some s' ∧
    s'.ram.devcfg = s.ram.setPort.devcfg ∧ read s'.chip.cells (b.ofs .dev) 248 = read s.ram.setPort.devcfg 0 248

theorem Keeper.Agreed.agrees (hu : d.Usual) (hb : d.block ∣ b.gap) {fuel : ℕ} (hfuel : 2 ≤ fuel) (h : Same b s t)
    (ha : t.Agreed) : Agrees d b fuel s := by
  refine ⟨?_,?_,fun r hport => ?_⟩
  · rw [h.ram,← ha.kept]
    exact h.settings .dev
  · rw [h.ram]
    exact ha.valid
  · rw [h.ram] at hport ⊢
    obtain ⟨s',hs',hsame⟩ := svd_same hu hb h hfuel r (if_neg hport)
    have hvalid : u32 (t.setRam t.ram.setPort).ram.devcfg 244 = flashDevCrc := by
      rw [Keeper.setRam_ram,setPort_valid]
      exact ha.valid
    have hdev := saveDev_devcfg hvalid
    have hkept := (saveDev_agreed (t.setRam t.ram.setPort)).kept
    rw [hdev,Keeper.setRam_ram] at hkept
    refine ⟨s',hs',?_,(hsame.settings .dev).trans hkept⟩
    rw [hsame.ram,hdev,Keeper.setRam_ram]

/-- Debug data, an image, the mode of the network, and another start. -/
def laterDays : List Event :=
  [.cfg fun i => UInt8.ofNat i,.upgradeOpen "upgrade.bin",.upgradeWrite [1,2,3],.upgradeClose,.saveAtb,
    .reboot newBoard.ram]

end Settings
end Autbus
