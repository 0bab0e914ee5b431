import Autbus.Settings

/-! What the flash is for: a table of settings, and the image that was uploaded. The table knows no offsets, no
erased blocks and no position. The board does what the table does, as long as nobody writes over the settings
through the commands for raw flash or blocks that lie behind the upgrade area, and each part of an upgrade
follows the one before. -/
namespace Autbus
namespace Settings

open Bytes Flash Trace
open Commands (PreResConfig preResMagic)
open HostUi (Ui atbcfgSize resmgrSize)
open HostTasks (upgradeAddr upgradeSize)

/-- The settings, the memory, and the image that was uploaded if it is still all there. `atEnd` tells that the
next part of the image goes behind it. -/
structure Keeper where
  settings : Key → List UInt8
  ram : Ram
  unlocked : Bool
  inprog : UInt32
  image : Option (List UInt8)
  atEnd : Bool

def Key.all : List Key := [.debug,.res,.atb,.dev,.mac,.pre]

/-- The distance of the settings in the flash. -/
def Build.gap (b : Build) : ℕ := if b.nandFlash then 0x40000 else 0x20000

/-- The bytes lie in no setting. -/
def Away (b : Build) (a n : ℕ) : Prop := ∀ k ∈ Key.all, a+n ≤ b.ofs k ∨ b.ofs k+k.size ≤ a

instance (b : Build) (a n : ℕ) : Decidable (Away b a n) := List.decidableBAll _ _

namespace Keeper

def setRam (t : Keeper) (r : Ram) : Keeper := {t with ram := r}

/-- Keep a setting. -/
def save (t : Keeper) (k : Key) (xs : List UInt8) : Keeper :=
  {t with settings := Function.update t.settings k xs,unlocked := true,atEnd := false}

/-- Forget a setting, unless the chip is locked. -/
def forget (locks : Bool) (t : Keeper) (k : Key) : Keeper :=
  if locks ∧ ¬t.unlocked then t
  else {t with settings := Function.update t.settings k (List.replicate k.size 0xFF)}

def unlock (t : Keeper) : Keeper := {t with unlocked := true}

/-- The position is elsewhere. -/
def away (t : Keeper) : Keeper := {t with atEnd := false}

/-- The upgrade area is used otherwise. -/
def spoil (t : Keeper) : Keeper := {t with image := none,atEnd := false}

def saveRes (t : Keeper) : Keeper :=
  let ui := t.ram.ui.flashSaveRescfg
  (t.setRam (t.ram.setUi ui)).save .res (read (ui.mem .resmgr) 0 resmgrSize)

/-- A dynamic bandwidth takes the place of the resources that were set. -/
def saveAtb (locks : Bool) (t : Keeper) : Keeper :=
  let ui := t.ram.ui.flashSaveAtbcfg
  let t := (t.setRam (t.ram.setUi ui)).save .atb (read (ui.mem .atbcfg) 0 atbcfgSize)
  if ui.mem .atbcfg 7 = 1 then (t.forget locks .pre).forget locks .res else t

def savePre (t : Keeper) : Keeper :=
  let preRes := {t.ram.preRes with magic := preResMagic}
  (t.setRam {t.ram with preRes := preRes}).save .pre preRes.bytes

def erasePre (locks : Bool) (t : Keeper) : Keeper :=
  (t.setRam {t.ram with preRes := {t.ram.preRes with magic := preResMagic}}).unlock.forget locks .pre

/-- Read a setting. -/
def load (t : Keeper) (k : Key) (f : Ram → List UInt8 → Ram) : Keeper := (t.setRam (f t.ram (t.settings k))).away

def loadDebug (t : Keeper) : Keeper := t.load .debug fun r bs => {r with legid := store r.legid 0 bs}

def loadMac (t : Keeper) : Keeper := t.load .mac fun r bs => {r with maccfg := store r.maccfg 0 bs}

def loadPre (t : Keeper) : Keeper := t.load .pre Ram.takePreRes

/-- The `atbcfg` that was saved, if it is valid. -/
def loadAtb (locks : Bool) (t : Keeper) : Keeper :=
  let t := t.load .atb Ram.readAtbcfg
  if u32 t.ram.atbcfg 8 ≠ flashCrc then t.setRam t.ram.clearAtbcfg
  else if t.ram.atbcfg 7 = 1 then t.forget locks .pre
  else t

def loadRes (t : Keeper) : Keeper := (t.setRam t.ram.freshResmgr).load .res Ram.takeRescfg

/-- The `devcfg` that was saved, or else the default, which is saved. -/
def loadDev (t : Keeper) : Keeper :=
  let t := t.load .dev Ram.readDevcfg
  if u32 t.ram.devcfg 244 ≠ flashDevCrc then (t.setRam (t.ram.readDevcfg devDefaults)).save .dev devDefaults else t

def saveDev (t : Keeper) : Keeper := (t.save .dev (read t.ram.devcfg 0 248)).loadDev

def saveMac (t : Keeper) (mac : Mem) : Keeper :=
  let maccfg := store t.ram.maccfg 0 (read mac 0 6)
  (t.setRam {t.ram with maccfg := maccfg}).save .mac (read maccfg 0 6)

/-- The power comes back; `r` is what the memory holds then. -/
def powerUp (t : Keeper) (r : Ram) : Keeper := {t with ram := r,unlocked := false,inprog := 0,atEnd := false}

/-- Everything back in memory. -/
def boot (locks : Bool) (b : Build) (r : Ram) (t : Keeper) : Keeper :=
  let t := t.powerUp r
  let t := if b.drvNandFlash then t.loadMac else t
  let t := t.loadDebug.loadDev.loadPre
  let valid := u32 (t.load .atb Ram.readAtbcfg).ram.atbcfg 8 = flashCrc
  let t := (t.loadAtb locks).loadRes
  if valid then t else t.setRam (t.ram.setUi (t.ram.ui.store .atbcfg 6 [2]))

/-- What an event does to the settings and the image. Nothing is said of parts of an upgrade that do not follow
the one before or do not fit, of blocks behind the upgrade area, and of raw writes over the settings. -/
def step (locks : Bool) (b : Build) (t : Keeper) : Event → Option Keeper
  | .elsewhere r => some (t.setRam r)
  | .saveAtb => some (t.saveAtb locks)
  | .saveRes => some t.saveRes
  | .savePre => some t.savePre
  | .erasePre => some (t.erasePre locks)
  | .loadAtb => some (t.loadAtb locks)
  | .smac mac => some (t.saveMac mac)
  | .cfg msg => some (t.save .debug (read msg 4 4))
  | .svd r =>
    if t.ram.ui.mem .devSet 0 = 36 then some (t.boot locks b r) else some (t.setRam t.ram.setPort).saveDev
  | .otastart => some t.unlock.spoil
  | .otadata => if Away b (HostTasks.Dev.blockAddr t.ram.ui.otaDataSn) 1024 then some t.spoil else none
  | .upgradeOpen fname =>
    if fname ≠ "upgrade.bin" ∨ t.inprog ≠ 0 then some t
    else some {t with unlocked := true,inprog := 0x111,image := some [],atEnd := true}
  | .upgradeWrite buf =>
    if t.atEnd = true ∧ (t.image.getD []).length+buf.length ≤ 0x040000 then
      some {t with image := t.image.map fun im => im ++ buf}
    else none
  | .upgradeClose => some {t with inprog := 0}
  | .flashRead _ _ => some t.away
  | .flashWrite addr tlen _ => if Away b addr tlen then some t.spoil else none
  | .flashErase addr tlen =>
    if b.gap ∣ addr ∧ Away b addr (roundUp b.gap tlen) then some t.spoil else none
  | .flashUnlock => some t.unlock
  | .reburn r => some (t.boot locks b r)
  | .reboot r => some (t.boot locks b r)

@[simp] theorem save_ram (t : Keeper) (k : Key) (xs : List UInt8) : (t.save k xs).ram = t.ram := rfl

theorem save_self (t : Keeper) (k : Key) (xs : List UInt8) : (t.save k xs).settings k = xs := Function.update_self _ _ _

theorem save_of_ne (t : Keeper) {k k' : Key} (h : k' ≠ k) (xs : List UInt8) :
    (t.save k xs).settings k' = t.settings k' := Function.update_of_ne h _ _

@[simp] theorem setRam_ram (t : Keeper) (r : Ram) : (t.setRam r).ram = r := rfl

@[simp] theorem setRam_settings (t : Keeper) (r : Ram) : (t.setRam r).settings = t.settings := rfl

@[simp] theorem load_ram (t : Keeper) (k : Key) (f : Ram → List UInt8 → Ram) :
    (t.load k f).ram = f t.ram (t.settings k) := rfl

@[simp] theorem load_settings (t : Keeper) (k : Key) (f : Ram → List UInt8 → Ram) :
    (t.load k f).settings = t.settings := rfl

end Keeper

/-- The upgrade area holds the image, and is erased behind it. -/
structure Uploaded (m : Mem) (im : List UInt8) : Prop where
  fits : im.length ≤ upgradeSize
  stored : read m upgradeAddr im.length = im
  blank : Blank m (upgradeAddr+im.length) (upgradeSize-im.length)

/-- The next part of the image goes behind it. -/
structure AtEnd (s : Board) (im : List UInt8) : Prop where
  unlocked : s.chip.unlocked = true
  pos : s.chip.pos = upgradeAddr+im.length
  ofs : s.uploadOfs.toNat = im.length

/-- The flash holds the settings at their offsets, and the image. -/
structure Same (b : Build) (s : Board) (t : Keeper) : Prop where
  settings : ∀ k, read s.chip.cells (b.ofs k) k.size = t.settings k
  ram : s.ram = t.ram
  unlocked : s.chip.unlocked = t.unlocked
  inprog : s.inprog = t.inprog
  image : ∀ im, t.image = some im → Uploaded s.chip.cells im
  atEnd : t.atEnd = true → ∃ im, t.image = some im ∧ AtEnd s im

/-! ### The layout -/

variable {b : Build} {d : Driver} {s : Board} {t : Keeper}

theorem Key.mem_all (k : Key) : k ∈ Key.all := by
  cases k <;> decide

/-- The settings lie in blocks of their own. -/
def Key.place : Key → ℕ
  | .debug => 0
  | .res => 1
  | .atb => 2
  | .dev => 4
  | .mac => 5
  | .pre => 7

theorem place_inj {k k' : Key} (h : k.place = k'.place) : k = k' := by
  cases k <;> cases k' <;> first | rfl | exact absurd h (by decide)

theorem ofs_eq (b : Build) (k : Key) : b.ofs k = ((if b.nandFlash then 256 else 14)+k.place)*b.gap := by
  unfold Build.ofs Build.gap
  cases b.nandFlash <;> cases k <;> rfl

theorem gap_dvd_ofs (b : Build) (k : Key) : b.gap ∣ b.ofs k := by
  rw [ofs_eq]
  exact Nat.dvd_mul_left _ _

theorem ofs_apart (b : Build) {k k' : Key} (h : k ≠ k') : b.ofs k+b.gap ≤ b.ofs k' ∨ b.ofs k'+b.gap ≤ b.ofs k := by
  have hstep : ∀ {i j : ℕ}, i < j → i*b.gap+b.gap ≤ j*b.gap := by
    intro i j hij
    rw [← Nat.succ_mul]
    exact Nat.mul_le_mul_right _ hij
  rw [ofs_eq,ofs_eq]
  rcases Nat.lt_or_gt_of_ne fun he => h (place_inj he) with hlt | hgt
  · exact Or.inl (hstep (Nat.add_lt_add_left hlt _))
  · exact Or.inr (hstep (Nat.add_lt_add_left hgt _))

theorem behind_upgrade (b : Build) (k : Key) : upgradeAddr+upgradeSize ≤ b.ofs k := by
  unfold Build.ofs
  cases b.nandFlash <;> cases k <;> decide

theorem sector_le_gap (b : Build) : 0x1000 ≤ b.gap := by
  unfold Build.gap
  cases b.nandFlash <;> decide

theorem size_le_sector (k : Key) : k.size ≤ 0x1000 := by
  cases k <;> decide

theorem gap_dvd_upgrade (b : Build) : b.gap ∣ upgradeAddr ∧ b.gap ∣ upgradeSize := by
  unfold Build.gap
  cases b.nandFlash <;> decide

/-! ### One setting after the other -/

/-- The next part of the image finds what the chip and the count of bytes were. -/
theorem Same.ends {s' : Board} (h : Same b s t) (hopen : s'.chip.unlocked = s.chip.unlocked)
    (hpos : s'.chip.pos = s.chip.pos) (hofs : s'.uploadOfs = s.uploadOfs) (hend : t.atEnd = true) :
    ∃ im, t.image = some im ∧ AtEnd s' im := by
  obtain ⟨im,himage,hat⟩ := h.atEnd hend
  exact ⟨im,himage,hopen.trans hat.unlocked,hpos.trans hat.pos,hofs ▸ hat.ofs⟩

theorem Same.setRam (h : Same b s t) (r : Ram) : Same b {s with ram := r} (t.setRam r) :=
  ⟨h.settings,rfl,h.unlocked,h.inprog,h.image,h.ends rfl rfl rfl⟩

theorem Same.unlock (h : Same b s t) : Same b s.unlock t.unlock := by
  refine ⟨h.settings,h.ram,rfl,h.inprog,h.image,fun hend => ?_⟩
  obtain ⟨im,himage,hat⟩ := h.atEnd hend
  exact ⟨im,himage,rfl,hat.pos,hat.ofs⟩

theorem Same.away (h : Same b s t) (p : ℕ) : Same b {s with chip := {s.chip with pos := p}} t.away :=
  ⟨h.settings,h.ram,h.unlocked,h.inprog,h.image,nofun⟩

/-- What lies outside of the upgrade area does not matter to the image. -/
theorem Uploaded.keep {m m' : Mem} {im : List UInt8} {a n : ℕ} (h : Uploaded m im) (hout : Outside a n m m')
    (ha : upgradeAddr+upgradeSize ≤ a ∨ a+n ≤ upgradeAddr) : Uploaded m' im := by
  have hfits := h.fits
  refine ⟨hfits,?_,hout.blank h.blank (by omega)⟩
  rw [hout.read (by omega)]
  exact h.stored

/-- The block of one setting changes. -/
theorem Same.cells (h : Same b s t) {m : Mem} {k : Key} {xs : List UInt8}
    (hout : Outside (b.ofs k) b.gap s.chip.cells m) (hxs : read m (b.ofs k) k.size = xs) :
    Same b {s with chip := {s.chip with cells := m}} {t with settings := Function.update t.settings k xs} := by
  refine ⟨fun k' => ?_,h.ram,h.unlocked,h.inprog,fun im him => (h.image im him).keep hout (Or.inl (behind_upgrade b k)),
    h.ends rfl rfl rfl⟩
  by_cases hk : k' = k
  · subst hk
    show _ = Function.update t.settings k' xs k'
    rw [Function.update_self]
    exact hxs
  · have hsize := (size_le_sector k').trans (sector_le_gap b)
    have hapart := ofs_apart b hk
    show _ = Function.update t.settings k xs k'
    rw [Function.update_of_ne hk,hout.read (by omega)]
    exact h.settings k'

section Calls

variable (hu : d.Usual) (hb : d.block ∣ b.gap)
include hu hb

omit hu in
theorem block_pos : 0 < d.block := Nat.pos_of_dvd_of_pos hb ((by decide : 0 < 0x1000).trans_le (sector_le_gap b))

/-- A save replaces its setting and no other. -/
theorem put_same (h : Same b s t) {k : Key} {n : ℕ} {xs : List UInt8} (hxs : xs.length = k.size)
    (hn : k.size ≤ n) (hgap : n ≤ b.gap) :
    Same b (s.put d b k n xs).1 (t.save k xs) ∧ (s.put d b k n xs).2 = k.size := by
  have hofs := hb.trans (gap_dvd_ofs b k)
  have hwhole := (hxs.trans_le hn).trans (le_roundUp (block_pos hb) n)
  obtain ⟨hread,hret⟩ := rewrite_taken hu s.chip (n := n) hofs (hxs.trans_le hn)
  have hout := (rewrite_outside hu s.chip hofs hwhole).mono (Nat.le_refl _)
    (Nat.add_le_add_left (roundUp_le hb hgap) _)
  have hopen : (s.chip.rewrite d (b.ofs k) n xs).1.unlocked = true := by
    unfold Chip.rewrite Chip.write Chip.erase
    split <;> rfl
  rw [hxs] at hread hret
  refine ⟨?_,hret⟩
  have hmoved := (h.unlock.away (s.chip.rewrite d (b.ofs k) n xs).1.pos).cells hout hread
  have hchip : (s.chip.rewrite d (b.ofs k) n xs).1 =
      ⟨(s.chip.rewrite d (b.ofs k) n xs).1.cells,(s.chip.rewrite d (b.ofs k) n xs).1.pos,true⟩ := by rw [← hopen]
  unfold Board.put
  dsimp only
  rw [hchip]
  exact hmoved

/-- A setting is forgotten where its sectors are erased. -/
theorem eraseKey_same (h : Same b s t) (k : Key) {n : ℕ} (hn : k.size ≤ n) (hgap : n ≤ b.gap) :
    Same b (s.eraseKey d b k n) (t.forget d.locks k) := by
  have hofs := hb.trans (gap_dvd_ofs b k)
  have hout := (erase_outside hu s.chip (n := n) hofs).mono (Nat.le_refl _)
    (Nat.add_le_add_left (roundUp_le hb hgap) _)
  unfold Board.eraseKey Keeper.forget
  by_cases hlock : d.locks = true ∧ ¬s.chip.unlocked = true
  · rw [if_pos (h.unlocked ▸ hlock),Chip.erase,if_pos hlock]
    exact h
  · have hblank := read_blank ((erase_blank hu s.chip (n := n) hofs hlock).mono (Nat.le_refl _)
      (Nat.add_le_add_left hn _))
    have hmoved := h.cells hout hblank
    rw [if_neg (h.unlocked ▸ hlock)]
    rw [Chip.erase,if_neg hlock] at hmoved ⊢
    exact hmoved

omit hb in
/-- A load reads the setting. -/
theorem get_same (h : Same b s t) (k : Key) :
    Same b (s.get d b k).1 t.away ∧ (s.get d b k).2 = (t.settings k,(k.size : ℤ)) := by
  refine ⟨h.away _,?_⟩
  rw [← h.settings k]
  exact hu.reads _ _ _

omit hb in
/-- Where the bytes that are read go. -/
theorem load_same (h : Same b s t) (k : Key) (f : Ram → List UInt8 → Ram) :
    Same b {(s.get d b k).1 with ram := f (s.get d b k).1.ram (s.get d b k).2.1} (t.load k f) := by
  obtain ⟨hget,hret⟩ := get_same hu h k
  have hram : f (s.get d b k).1.ram (s.get d b k).2.1 = f t.ram (t.settings k) := by
    rw [hret]
    exact congrArg (f · _) hget.ram
  rw [hram]
  exact hget.setRam _

/-! ### The functions -/

theorem saveRes_same (h : Same b s t) : Same b (s.flashSaveRescfg d b).1 t.saveRes := by
  have hsectors : (resmgrSize/0x1000+1)*0x1000 = 0x1000 := by decide
  obtain ⟨chip,ram,uploadOfs,inprog⟩ := s
  obtain rfl : ram = t.ram := h.ram
  have hput := put_same hu hb (h.setRam (t.ram.setUi t.ram.ui.flashSaveRescfg)) (k := .res)
    (read_length (t.ram.ui.flashSaveRescfg.mem .resmgr) 0 resmgrSize) (size_le_sector .res) (sector_le_gap b)
  unfold Board.flashSaveRescfg Board.saved
  dsimp only
  rw [hsectors]
  exact hput.1

theorem saveAtb_same (h : Same b s t) : Same b (s.flashSaveAtbcfg d b).1 (t.saveAtb d.locks) := by
  have hsectors : (resmgrSize/0x1000+1)*0x1000 = 0x1000 := by decide
  have hsector := sector_le_gap b
  obtain ⟨chip,ram,uploadOfs,inprog⟩ := s
  obtain rfl : ram = t.ram := h.ram
  obtain ⟨hput,hret⟩ := put_same hu hb (h.setRam (t.ram.setUi t.ram.ui.flashSaveAtbcfg)) (k := .atb)
    (read_length (t.ram.ui.flashSaveAtbcfg.mem .atbcfg) 0 atbcfgSize) (size_le_sector .atb) hsector
  have hsize : ((Key.atb.size : ℕ) : ℤ) = atbcfgSize := rfl
  unfold Board.flashSaveAtbcfg Keeper.saveAtb
  dsimp only at hput hret ⊢
  rw [hsize] at hret
  rw [if_neg (not_not.mpr hret)]
  split
  · rw [hsectors]
    exact eraseKey_same hu hb (eraseKey_same hu hb hput .pre (size_le_sector _) hsector) .res (size_le_sector _) hsector
  · exact hput

theorem savePre_same (h : Same b s t) : Same b (s.flashSavePreRes d b).1 t.savePre := by
  obtain ⟨chip,ram,uploadOfs,inprog⟩ := s
  obtain rfl : ram = t.ram := h.ram
  exact (put_same hu hb (h.setRam _) (Commands.length_bytes _) (size_le_sector .pre) (sector_le_gap b)).1

theorem erasePre_same (h : Same b s t) : Same b (s.flashErasePreRes d b) (t.erasePre d.locks) := by
  obtain ⟨chip,ram,uploadOfs,inprog⟩ := s
  obtain rfl : ram = t.ram := h.ram
  exact eraseKey_same hu hb (h.setRam _).unlock .pre (size_le_sector .pre) (sector_le_gap b)

theorem saveMac_same (h : Same b s t) (mac : Mem) : Same b (s.debugCmdSmac d b mac) (t.saveMac mac) := by
  obtain ⟨chip,ram,uploadOfs,inprog⟩ := s
  obtain rfl : ram = t.ram := h.ram
  exact (put_same hu hb (h.setRam _) (read_length _ _ _) (size_le_sector .mac) (sector_le_gap b)).1

theorem saveDebug_same (h : Same b s t) (msg : Mem) :
    Same b (s.flashSaveDebugcfg d b (read msg 4 4)).1 (t.save .debug (read msg 4 4)) :=
  (put_same hu hb h (read_length _ _ _) (size_le_sector .debug) (sector_le_gap b)).1

/-- The resources of a dynamic bandwidth are erased without unlocking the chip. -/
theorem loadAtb_same (h : Same b s t) : Same b (s.flashLoadAtbcfg d b).1 (t.loadAtb d.locks) ∧
    ((s.flashLoadAtbcfg d b).2 = 0 ↔ u32 (t.load .atb Ram.readAtbcfg).ram.atbcfg 8 = flashCrc) := by
  have hload := load_same hu h .atb Ram.readAtbcfg
  have hsize : (s.get d b .atb).2.2 = (atbcfgSize : ℤ) := congrArg Prod.snd (get_same hu h .atb).2
  have hram := hload.ram
  dsimp only at hram
  unfold Board.flashLoadAtbcfg Keeper.loadAtb
  dsimp only
  rw [if_neg (not_not.mpr hsize),hram]
  by_cases hcrc : u32 (t.load .atb Ram.readAtbcfg).ram.atbcfg 8 = flashCrc
  · rw [if_neg (not_not.mpr hcrc),if_neg (not_not.mpr hcrc)]
    rw [hram] at hload
    split
    · exact ⟨eraseKey_same hu hb hload .pre (size_le_sector _) (sector_le_gap b),iff_of_true rfl hcrc⟩
    · exact ⟨hload,iff_of_true rfl hcrc⟩
  · rw [if_pos hcrc,if_pos hcrc]
    exact ⟨hload.setRam _,iff_of_false (show (-1 : ℤ) ≠ 0 by decide) hcrc⟩

omit hu hb in
theorem rescfgRead_fst {r : Board × List UInt8 × ℤ} (h : r.2.2 = (resmgrSize : ℤ)) :
    (Board.rescfgRead r).1 = {r.1 with ram := r.1.ram.takeRescfg r.2.1} := by
  rw [Board.rescfgRead,if_neg (not_not.mpr h)]

omit hb in
theorem loadRes_same (h : Same b s t) : Same b (s.flashLoadRescfg d b).1 t.loadRes := by
  obtain ⟨chip,ram,uploadOfs,inprog⟩ := s
  obtain rfl : ram = t.ram := h.ram
  have hstart := h.setRam t.ram.freshResmgr
  rw [Board.flashLoadRescfg,rescfgRead_fst (congrArg Prod.snd (get_same hu hstart .res).2)]
  exact load_same hu hstart .res Ram.takeRescfg

omit hu hb in
/-- The default is valid. -/
theorem devDefaults_crc (m : Mem) : u32 (store m 0 devDefaults) 244 = flashDevCrc := by
  have hsplit : devDefaults = devDefaults.take 244 ++ le32 flashDevCrc := by decide +kernel
  have hlen : (devDefaults.take 244).length = 244 := by decide +kernel
  refine u32_of_read (by decide) ?_
  have hread := read_store (store m 0 (devDefaults.take 244)) 244 (le32 flashDevCrc)
  have happ := store_append m 0 (devDefaults.take 244) (le32 flashDevCrc)
  rw [hlen,Nat.zero_add,← hsplit] at happ
  rwa [happ] at hread

omit hu hb in
/-- What was saved is what is loaded. -/
theorem load_save (t : Keeper) (k : Key) (xs : List UInt8) (f : Ram → List UInt8 → Ram) :
    (t.save k xs).load k f = (t.save k xs).setRam (f t.ram xs) := by
  rw [Keeper.load,Keeper.save_self]
  rfl

omit hu hb in
/-- The default, once saved, is loaded as it is. -/
theorem loadDev_default (t : Keeper) :
    ((t.setRam (t.ram.readDevcfg devDefaults)).save .dev devDefaults).loadDev =
      (t.setRam (t.ram.readDevcfg devDefaults)).save .dev devDefaults := by
  have hsame : store (store t.ram.devcfg 0 devDefaults) 0 devDefaults = store t.ram.devcfg 0 devDefaults := by
    conv_lhs =>
      arg 3
      rw [← read_store t.ram.devcfg 0 devDefaults]
    exact store_read _ _ _
  unfold Keeper.loadDev
  rw [load_save]
  unfold Keeper.setRam Keeper.save Ram.readDevcfg
  dsimp only
  rw [hsame,if_neg (not_not.mpr (devDefaults_crc _))]

omit hu hb in
theorem default_valid (t : Keeper) : u32 (((t.setRam (t.ram.readDevcfg devDefaults)).save .dev devDefaults).load .dev
    Ram.readDevcfg).ram.devcfg 244 = flashDevCrc := by
  rw [load_save,Keeper.setRam_ram,Ram.devcfg_readDevcfg]
  exact devDefaults_crc _

omit hb in
/-- A valid `devcfg` is loaded at once. -/
theorem loadDev_valid (h : Same b s t) (fuel : ℕ)
    (hcrc : u32 (t.load .dev Ram.readDevcfg).ram.devcfg 244 = flashDevCrc) :
    ∃ r, s.flashLoadDevcfg d b (fuel+1) = some r ∧ Same b r.1 t.loadDev := by
  have hload := load_same hu h .dev Ram.readDevcfg
  have hsize : (s.get d b .dev).2.2 = 248 := congrArg Prod.snd (get_same hu h .dev).2
  have hram := hload.ram
  dsimp only at hram
  rw [Board.flashLoadDevcfg]
  unfold Keeper.loadDev
  dsimp only
  rw [if_neg (not_not.mpr hcrc),if_neg (not_not.mpr hsize),hram,if_neg (not_not.mpr hcrc)]
  exact ⟨_,rfl,hram ▸ hload⟩

/-- Loading and saving `devcfg` call each other twice at most. -/
theorem loadDev_same (h : Same b s t) {fuel : ℕ} (hfuel : 2 ≤ fuel) :
    ∃ r, s.flashLoadDevcfg d b fuel = some r ∧ Same b r.1 t.loadDev := by
  obtain ⟨fuel,rfl⟩ := Nat.exists_eq_add_of_le hfuel
  rw [Nat.add_comm]
  by_cases hcrc : u32 (t.load .dev Ram.readDevcfg).ram.devcfg 244 = flashDevCrc
  · exact loadDev_valid hu h (fuel+1) hcrc
  have hload := load_same hu h .dev Ram.readDevcfg
  have hsize : (s.get d b .dev).2.2 = 248 := congrArg Prod.snd (get_same hu h .dev).2
  have hram := hload.ram
  dsimp only at hram
  have hlen : devDefaults.length = 248 := by decide +kernel
  have hread : read (store (t.load .dev Ram.readDevcfg).ram.devcfg 0 devDefaults) 0 248 = devDefaults := by
    rw [← hlen]
    exact read_store _ _ _
  obtain ⟨hput,hret⟩ := put_same hu hb (hload.setRam ((t.load .dev Ram.readDevcfg).ram.readDevcfg devDefaults))
    (k := .dev) hlen (size_le_sector .dev) (sector_le_gap b)
  obtain ⟨r,hr,hsame⟩ := loadDev_valid hu hput fuel (default_valid _)
  rw [loadDev_default] at hsame
  rw [Board.flashLoadDevcfg]
  unfold Keeper.loadDev Board.flashSaveDevcfg
  dsimp only
  rw [if_neg (not_not.mpr hsize),hram,if_pos hcrc,if_pos hcrc]
  have hwritten : ((Key.dev.size : ℕ) : ℤ) = 248 := rfl
  rw [hwritten] at hret
  dsimp only at hret hr
  rw [Ram.devcfg_readDevcfg,hread,if_neg (not_not.mpr hret),hr]
  exact ⟨_,rfl,hsame⟩

omit hu hb in
/-- What is in the flash stays. -/
theorem powerUp_same (h : Same b s t) (r : Ram) :
    Same b {s with chip := s.chip.powerUp,ram := r,inprog := 0} (t.powerUp r) :=
  ⟨h.settings,rfl,rfl,rfl,h.image,nofun⟩

/-- What the board has in memory when it has started is what the settings are. -/
theorem boot_same (h : Same b s t) {fuel : ℕ} (hfuel : 2 ≤ fuel) (r : Ram) :
    ∃ s', s.ttyMux d b fuel r = some s' ∧ Same b s' (t.boot d.locks b r) := by
  have hup := powerUp_same h r
  have hmac := load_same hu hup .mac fun r bs => {r with maccfg := store r.maccfg 0 bs}
  unfold Board.ttyMux Keeper.boot
  dsimp only
  generalize t.powerUp r = t₀ at hup hmac ⊢
  generalize Board.mk s.chip.powerUp r s.uploadOfs 0 = s₀ at hup hmac ⊢
  have hafter : Same b (if b.drvNandFlash = true then (s₀.flashLoadMaccfg d b).1 else s₀)
      (if b.drvNandFlash = true then t₀.loadMac else t₀) := by
    split
    · exact hmac
    · exact hup
  generalize (if b.drvNandFlash = true then (s₀.flashLoadMaccfg d b).1 else s₀) = s₁ at hafter ⊢
  generalize (if b.drvNandFlash = true then t₀.loadMac else t₀) = t₁ at hafter ⊢
  have hdebug := load_same hu hafter .debug fun r bs => {r with legid := store r.legid 0 bs}
  obtain ⟨q,hq,hdev⟩ := loadDev_same hu hb hdebug hfuel
  have hpre : Same b (q.1.flashLoadPreRes d b).1 t₁.loadDebug.loadDev.loadPre := load_same hu hdev .pre Ram.takePreRes
  obtain ⟨hatb,hvalid⟩ := loadAtb_same hu hb hpre
  have hres := loadRes_same hu hatb
  refine ⟨_,congrArg (Option.map _) hq,?_⟩
  dsimp only
  by_cases hcrc : u32 (t₁.loadDebug.loadDev.loadPre.load .atb Ram.readAtbcfg).ram.atbcfg 8 = flashCrc
  · rw [if_neg (not_not.mpr (hvalid.mpr hcrc)),if_pos hcrc]
    exact hres
  · rw [if_pos fun h0 => hcrc (hvalid.mp h0),if_neg hcrc,hres.ram]
    exact hres.setRam _

/-- A message from the host sets a port of `devcfg` and saves it, or starts the board again. -/
theorem svd_same (h : Same b s t) {fuel : ℕ} (hfuel : 2 ≤ fuel) (r : Ram) {t' : Keeper}
    (ht : Keeper.step d.locks b t (.svd r) = some t') : ∃ s', s.uimsgSvd d b fuel r = some s' ∧ Same b s' t' := by
  unfold Keeper.step at ht
  unfold Board.uimsgSvd
  rw [h.ram]
  dsimp only at ht ⊢
  split at ht
  · next hreboot =>
    obtain rfl := Option.some.inj ht
    rw [if_pos hreboot]
    exact boot_same hu hb h hfuel r
  · next hport =>
    obtain rfl := Option.some.inj ht
    obtain ⟨hput,hret⟩ := put_same hu hb (h.setRam t.ram.setPort) (k := .dev)
      (read_length t.ram.setPort.devcfg 0 248) (size_le_sector .dev) (sector_le_gap b)
    obtain ⟨q,hq,hdev⟩ := loadDev_same hu hb hput hfuel
    have hwritten : ((Key.dev.size : ℕ) : ℤ) = 248 := rfl
    rw [hwritten] at hret
    unfold Board.flashSaveDevcfg
    dsimp only
    rw [if_neg hport,if_neg (not_not.mpr hret),hq]
    exact ⟨_,rfl,hdev⟩

/-! ### The upgrade area -/

omit hu hb in
/-- The upgrade area, or another place where no settings are, changes. -/
theorem Same.spoil (h : Same b s t) {c : Chip} (hopen : c.unlocked = s.chip.unlocked)
    (hread : ∀ k, read c.cells (b.ofs k) k.size = read s.chip.cells (b.ofs k) k.size) :
    Same b {s with chip := c} t.spoil :=
  ⟨fun k => (hread k).trans (h.settings k),h.ram,hopen.trans h.unlocked,h.inprog,nofun,nofun⟩

omit hu hb in
theorem Away.read {m m' : Mem} {a n : ℕ} (h : Away b a n) (hout : Outside a n m m') (k : Key) :
    read m' (b.ofs k) k.size = read m (b.ofs k) k.size :=
  hout.read (h k k.mem_all).symm

/-- Before the settings there is room for what is erased. -/
theorem erase_before (c : Chip) {a n q : ℕ} (ha : b.gap ∣ a) (hn : roundUp d.block n ≤ q)
    (hq : a+q ≤ upgradeAddr+upgradeSize) (k : Key) :
    read (c.erase d a n).cells (b.ofs k) k.size = read c.cells (b.ofs k) k.size := by
  have hbehind := behind_upgrade b k
  exact (erase_outside hu c (hb.trans ha)).read (Or.inr (by omega))

theorem otastart_same (h : Same b s t) : Same b (s.uimsgOtastart d) t.unlock.spoil := by
  obtain ⟨haddr,hsize⟩ := gap_dvd_upgrade b
  refine h.unlock.spoil ?_ (erase_before hu hb s.unlock.chip haddr (roundUp_le (hb.trans hsize) (le_refl _)) (le_refl _))
  unfold Chip.erase
  split <;> rfl

omit hb in
theorem write_same (h : Same b s t) {addr : ℕ} {xs : List UInt8} (haway : Away b addr xs.length) :
    Same b {s with chip := ((s.chip.seek addr).write d xs).1} t.spoil :=
  h.spoil rfl (haway.read (write_outside hu (s.chip.seek addr) xs))

theorem flashErase_same (h : Same b s t) {addr tlen : ℕ} (haddr : b.gap ∣ addr)
    (haway : Away b addr (roundUp b.gap tlen)) : Same b (s.flashErase d addr tlen) t.spoil := by
  have hgap := (by decide : 0 < 0x1000).trans_le (sector_le_gap b)
  have hle : roundUp d.block tlen ≤ roundUp b.gap tlen := roundUp_le (hb.trans (dvd_roundUp _ _)) (le_roundUp hgap _)
  have hout := (erase_outside hu s.chip (n := tlen) (hb.trans haddr)).mono (Nat.le_refl _) (Nat.add_le_add_left hle _)
  refine h.spoil ?_ (haway.read hout)
  unfold Chip.erase
  split <;> rfl

/-- A new image begins at the start of the erased area. -/
theorem upgradeOpen_same (h : Same b s t) (fname : String) {t' : Keeper}
    (ht : Keeper.step d.locks b t (.upgradeOpen fname) = some t') : Same b (s.upgradeFileOpen d fname) t' := by
  obtain ⟨haddr,hsize⟩ := gap_dvd_upgrade b
  unfold Keeper.step at ht
  unfold Board.upgradeFileOpen
  rw [h.inprog]
  dsimp only at ht
  split at ht
  · next hrefused =>
    obtain rfl := Option.some.inj ht
    rw [if_pos hrefused]
    exact h
  · next hopened =>
    obtain rfl := Option.some.inj ht
    rw [if_neg hopened]
    have hopen : (s.unlock.chip.erase d 0x100000 0x040000).unlocked = true := by
      unfold Chip.erase
      split <;> rfl
    have hread := erase_before hu hb s.unlock.chip haddr (roundUp_le (hb.trans hsize) (le_refl _)) (le_refl _)
    have hblank := erase_blank hu s.unlock.chip (n := upgradeSize) (hb.trans haddr) fun hlock => hlock.2 rfl
    refine ⟨fun k => (hread k).trans (h.settings k),h.ram,hopen,rfl,fun im him => ?_,fun _ => ⟨[],rfl,hopen,rfl,rfl⟩⟩
    obtain rfl := Option.some.inj him
    exact ⟨Nat.zero_le _,rfl,hblank⟩

omit hb in
/-- The next part of the image is written behind it, into erased bytes. -/
theorem upgradeWrite_same (h : Same b s t) (buf : List UInt8) {t' : Keeper}
    (ht : Keeper.step d.locks b t (.upgradeWrite buf) = some t') : Same b (s.upgradeFileWrite d buf).1 t' := by
  unfold Keeper.step at ht
  dsimp only at ht
  split at ht
  · next hroom =>
    obtain rfl := Option.some.inj ht
    obtain ⟨im,him,hat⟩ := h.atEnd hroom.1
    have hfits : im.length+buf.length ≤ 0x040000 := by
      have hlen := hroom.2
      rw [him] at hlen
      exact hlen
    have hup := h.image im him
    have hsize : upgradeSize = 0x040000 := rfl
    have hstart : Blank s.chip.cells s.chip.pos buf.length := by
      rw [hat.pos]
      exact hup.blank.mono (Nat.le_refl _) (by omega)
    obtain ⟨hread,hret,hpos⟩ := write_taken hu s.chip hat.unlocked hstart
    have hout := write_outside hu s.chip buf
    rw [hat.pos] at hread hpos hout
    have hsum : (s.uploadOfs+UInt32.ofNat buf.length).toNat = (im ++ buf).length := by
      rw [UInt32.toNat_add,hat.ofs,UInt32.toNat_ofNat',List.length_append]
      omega
    have hlimit : ¬524288 < s.uploadOfs+UInt32.ofNat buf.length := by
      rw [UInt32.lt_iff_toNat_lt,hsum,List.length_append,show (524288 : UInt32).toNat = 524288 from rfl]
      omega
    have hall : UInt32.ofInt (s.chip.write d buf).2 = UInt32.ofNat buf.length := by
      rw [hret]
      rw [UInt32.ofInt]
      exact UInt32.toNat_inj.mp (by rw [UInt32.toNat_ofNat',UInt32.toNat_ofNat']; omega)
    unfold Board.upgradeFileWrite
    dsimp only
    rw [if_neg hlimit,if_neg (not_not.mpr hall)]
    have hkeep : ∀ k, read (s.chip.write d buf).1.cells (b.ofs k) k.size = t.settings k := by
      intro k
      have hbehind := behind_upgrade b k
      rw [hout.read (Or.inr (by omega))]
      exact h.settings k
    have hstored : read (s.chip.write d buf).1.cells upgradeAddr (im ++ buf).length = im ++ buf := by
      rw [List.length_append,read_add,hread,hout.read (Or.inl (Nat.le_refl _)),hup.stored]
    have hblank : Blank (s.chip.write d buf).1.cells (upgradeAddr+(im ++ buf).length)
        (upgradeSize-(im ++ buf).length) := by
      rw [List.length_append]
      exact hout.blank (hup.blank.mono (by omega) (by omega)) (Or.inr (by omega))
    rw [him]
    refine ⟨hkeep,h.ram,h.unlocked,h.inprog,fun im' him' => ?_,fun _ => ⟨_,rfl,hat.unlocked,?_,hsum⟩⟩
    · obtain rfl := Option.some.inj him'
      exact ⟨by rw [List.length_append]; omega,hstored,hblank⟩
    · rw [List.length_append,← Nat.add_assoc]
      exact hpos
  · cases ht

/-- The blocks of a program lie in front of the upgrade area. -/
theorem eraseProgram_same (h : Same b s t) {a : ℕ} (ha : b.gap ∣ a) (hle : a+b.gap ≤ upgradeAddr) :
    Same b {s with chip := s.chip.erase d a 0x1000} t := by
  have hout := (erase_outside hu s.chip (n := 0x1000) (hb.trans ha)).mono (Nat.le_refl _)
    (Nat.add_le_add_left (roundUp_le hb (sector_le_gap b)) _)
  have hflags : (s.chip.erase d a 0x1000).unlocked = s.chip.unlocked ∧ (s.chip.erase d a 0x1000).pos = s.chip.pos := by
    unfold Chip.erase
    split <;> exact ⟨rfl,rfl⟩
  refine ⟨fun k => ?_,h.ram,hflags.1.trans h.unlocked,h.inprog,
    fun im him => (h.image im him).keep hout (Or.inr hle),h.ends hflags.1 hflags.2 rfl⟩
  have hbehind := behind_upgrade b k
  exact (hout.read (Or.inr (by omega))).trans (h.settings k)

theorem reburn_same (h : Same b s t) {fuel : ℕ} (hfuel : 2 ≤ fuel) (r : Ram) :
    ∃ s', s.debugCmdReburn d b fuel r = some s' ∧ Same b s' (t.boot d.locks b r) := by
  have hgap : b.gap ∣ 0x80000 ∧ 0x80000+b.gap ≤ upgradeAddr := by
    unfold Build.gap
    cases b.nandFlash <;> decide
  have hfirst := eraseProgram_same hu hb h.unlock (Nat.dvd_zero _) (by omega)
  have hboth := eraseProgram_same hu hb hfirst hgap.1 hgap.2
  have hup : t.unlock.powerUp r = t.powerUp r := rfl
  have hboot : t.unlock.boot d.locks b r = t.boot d.locks b r := by rw [Keeper.boot,hup,← Keeper.boot]
  rw [← hboot]
  exact boot_same hu hb hboth hfuel r

end Calls

/-! ### Runs -/

section Runs

variable (hu : d.Usual) (hb : d.block ∣ b.gap)
include hu hb

/-- Each event does to the flash what it does to the settings. -/
theorem step_keeps {fuel : ℕ} (hfuel : 2 ≤ fuel) (h : Same b s t) {e : Event} {t' : Keeper}
    (ht : Keeper.step d.locks b t e = some t') : ∃ s', step d b fuel s e = some s' ∧ Same b s' t' := by
  cases e with
  | svd r => exact svd_same hu hb h hfuel r ht
  | upgradeOpen fname => exact ⟨_,rfl,upgradeOpen_same hu hb h fname ht⟩
  | upgradeWrite buf => exact ⟨_,rfl,upgradeWrite_same hu h buf ht⟩
  | otadata =>
    unfold Keeper.step at ht
    dsimp only at ht
    split at ht
    · next haway =>
      obtain rfl := Option.some.inj ht
      refine ⟨_,rfl,write_same hu h ?_⟩
      rw [read_length,h.ram]
      exact haway
    · cases ht
  | flashWrite addr tlen pttn =>
    unfold Keeper.step at ht
    dsimp only at ht
    split at ht
    · next haway =>
      obtain rfl := Option.some.inj ht
      refine ⟨_,rfl,write_same hu h ?_⟩
      rw [List.length_replicate]
      exact haway
    · cases ht
  | flashErase addr tlen =>
    unfold Keeper.step at ht
    dsimp only at ht
    split at ht
    · next haway =>
      obtain rfl := Option.some.inj ht
      exact ⟨_,rfl,flashErase_same hu hb h haway.1 haway.2⟩
    · cases ht
  | reburn r =>
    obtain rfl := Option.some.inj ht
    exact reburn_same hu hb h hfuel r
  | reboot r =>
    obtain rfl := Option.some.inj ht
    exact boot_same hu hb h hfuel r
  | elsewhere r =>
    obtain rfl := Option.some.inj ht
    exact ⟨_,rfl,h.setRam r⟩
  | saveAtb =>
    obtain rfl := Option.some.inj ht
    exact ⟨_,rfl,saveAtb_same hu hb h⟩
  | saveRes =>
    obtain rfl := Option.some.inj ht
    exact ⟨_,rfl,saveRes_same hu hb h⟩
  | savePre =>
    obtain rfl := Option.some.inj ht
    exact ⟨_,rfl,savePre_same hu hb h⟩
  | erasePre =>
    obtain rfl := Option.some.inj ht
    exact ⟨_,rfl,erasePre_same hu hb h⟩
  | loadAtb =>
    obtain rfl := Option.some.inj ht
    exact ⟨_,rfl,(loadAtb_same hu hb h).1⟩
  | smac mac =>
    obtain rfl := Option.some.inj ht
    exact ⟨_,rfl,saveMac_same hu hb h mac⟩
  | cfg msg =>
    obtain rfl := Option.some.inj ht
    exact ⟨_,rfl,saveDebug_same hu hb h msg⟩
  | otastart =>
    obtain rfl := Option.some.inj ht
    exact ⟨_,rfl,otastart_same hu hb h⟩
  | upgradeClose =>
    obtain rfl := Option.some.inj ht
    exact ⟨_,rfl,h.settings,h.ram,h.unlocked,rfl,h.image,h.ends rfl rfl rfl⟩
  | flashRead addr tlen =>
    obtain rfl := Option.some.inj ht
    exact ⟨_,rfl,h.away _⟩
  | flashUnlock =>
    obtain rfl := Option.some.inj ht
    exact ⟨_,rfl,h.unlock⟩

/-- Whatever the flash holds at first, in every run the board does what the table of settings does: a save
replaces its own setting, uploads and blocks of an upgrade replace none, a start brings back what was saved
last, or the default, and saving and loading `devcfg` come to an end. -/
theorem run_keeps {fuel : ℕ} (hfuel : 2 ≤ fuel) (h : Same b s t) (es : List Event) {t' : Keeper}
    (ht : exec (Keeper.step d.locks b) t es = some t') : ∃ s', exec (step d b fuel) s es = some s' ∧ Same b s' t' := by
  have hstep : ∀ {s : Board} {t t' : Keeper} {e : Event}, Same b s t → Keeper.step d.locks b t e = some t' →
      ∃ s', step d b fuel s e = some s' ∧ Same b s' t' := fun h he => step_keeps hu hb hfuel h he
  exact exec_follows hstep h es ht

end Runs

/-- The table of what the flash holds. -/
def tableOf (b : Build) (s : Board) : Keeper :=
  ⟨fun k => read s.chip.cells (b.ofs k) k.size,s.ram,s.chip.unlocked,s.inprog,none,false⟩

theorem same_tableOf (b : Build) (s : Board) : Same b s (tableOf b s) := ⟨fun _ => rfl,rfl,rfl,rfl,nofun,nofun⟩

/-- A new board: nothing in the flash. -/
def newBoard : Board :=
  let zero := fun _ => 0
  ⟨⟨fun _ => 0xFF,0,false⟩,⟨.idle zero,zero,zero,zero,⟨0,0,0,0,0,0⟩⟩,0,0⟩

def norBuild : Build := ⟨false,false⟩

/-- The board receives an image in two parts with the resources forgotten between them, keeps its debug data,
and starts again. -/
def firstDays : List Event :=
  [.upgradeOpen "upgrade.bin",.upgradeWrite [1,2,3],.erasePre,.upgradeWrite [4,5],.upgradeClose,
    .cfg fun i => UInt8.ofNat i,.reboot newBoard.ram]

theorem firstDays_kept : ∃ t s, exec (step nor norBuild 2) newBoard firstDays = some s ∧ Same norBuild s t ∧
    t.settings .debug = [4,5,6,7] ∧ t.image = some [1,2,3,4,5] := by
  have hrun : (exec (Keeper.step nor.locks norBuild) (tableOf norBuild newBoard) firstDays).map (fun t =>
      (t.settings .debug,t.image)) = some ([4,5,6,7],some [1,2,3,4,5]) := by decide +kernel
  obtain ⟨t,ht,hres⟩ := Option.map_eq_some_iff.mp hrun
  obtain ⟨s,hs,hsame⟩ := run_keeps nor_usual (by decide) (le_refl 2) (same_tableOf norBuild newBoard) firstDays ht
  obtain ⟨hdebug,himage⟩ := Prod.mk.inj hres
  exact ⟨t,s,hs,hsame,hdebug,himage⟩

end Settings
end Autbus
