import Autbus.Flash
import Autbus.HostTasks
import Autbus.Commands

/-! The settings in the flash (`atbui.c`) and the upgrade area in front of them (`tmux.c`). The functions that
save, load and erase settings and those that receive an upgrade work on one chip, through one position; for all
of them the flash is a table of settings and the image that was uploaded. -/
namespace Autbus
namespace Settings

open Bytes Flash Trace
open Commands (PreResConfig preResMagic)
open HostUi (Ui atbcfgSize resmgrSize)
open HostTasks (upgradeAddr upgradeSize)

/-- What is kept in the flash. -/
inductive Key
  | debug | res | atb | dev | mac | pre
  deriving DecidableEq

/-- The size of what is saved: `MAC_LEN` is 6, `devcfg_t` has 248 bytes. -/
def Key.size : Key → ℕ
  | .debug => 4
  | .res => resmgrSize
  | .atb => atbcfgSize
  | .dev => 248
  | .mac => 6
  | .pre => 9

/-- `INCLUDE_NandFlash` and `INCLUDE_DrvNandFlash`. -/
structure Build where
  nandFlash : Bool
  drvNandFlash : Bool

/-- `CFG_DEBUG_OFFSET` and so on. -/
def Build.ofs (b : Build) : Key → ℕ
  | .debug => if b.nandFlash then 0x4000000 else 0x1C0000
  | .res => if b.nandFlash then 0x4040000 else 0x1E0000
  | .atb => if b.nandFlash then 0x4080000 else 0x200000
  | .dev => if b.nandFlash then 0x4100000 else 0x240000
  | .mac => if b.nandFlash then 0x4140000 else 0x260000
  | .pre => if b.nandFlash then 0x41C0000 else 0x2A0000

/-- The copies in memory: `atbcfg` and the resource configuration are buffers of the host interface; `legid` is
what `tty_mux` reads the debug data to. -/
structure Ram where
  ui : Ui
  devcfg : Mem
  maccfg : Mem
  legid : Mem
  preRes : PreResConfig

/-- The chip, the memory, and of `tmux_context_t` the fields of an upgrade. -/
structure Board where
  chip : Chip
  ram : Ram
  uploadOfs : UInt32
  inprog : UInt32

/-- `FLASH_CRC`. -/
def flashCrc : ℕ := 0x11223344

/-- `FLASH_DEV_CRC`. -/
def flashDevCrc : ℕ := 0x43241234

/-- The `devcfg` that `flash_load_devcfg` puts in place of one that is not valid. -/
def devDefaults : List UInt8 :=
  let rs485cfg := le32 115200 ++ le32 8 ++ le32 1 ++ le32 0
  let name := [0x75,0x6e,0x6b,0x6e,0x6f,0x77,0x6e,0]
  rs485cfg ++ rs485cfg ++ rs485cfg ++ (le32 3 ++ le32 3 ++ le32 3) ++ List.replicate 144 0 ++
    (name ++ List.replicate 32 0) ++ le32 flashDevCrc

/-- `pre_res_config_t` out of its bytes. -/
def preResOf (b : List UInt8) : PreResConfig :=
  ⟨b.getD 0 0,b.getD 1 0,b.getD 2 0,b.getD 3 0,UInt32.ofNat (u32 (ofList b) 4),b.getD 8 0⟩

/-- Where the port of a setting from the host lies in `devcfg`, with its size. -/
def portField : UInt8 → Option (ℕ × ℕ)
  | 0 => some (0,16)
  | 1 => some (16,16)
  | 2 => some (32,16)
  | 3 => some (48,4)
  | 4 => some (52,4)
  | 5 => some (56,4)
  | 6 => some (60,144)
  | 7 => some (204,40)
  | _ => none

/-! ### The memory -/

namespace Ram

def atbcfg (r : Ram) : Mem := r.ui.mem .atbcfg

def setUi (r : Ram) (u : Ui) : Ram := {r with ui := u}

/-- What is read to `atbcfg`. -/
def readAtbcfg (r : Ram) (bs : List UInt8) : Ram := r.setUi (r.ui.store .atbcfg 0 bs)

/-- No valid `atbcfg`: all zero, in the role of a TN. -/
def clearAtbcfg (r : Ram) : Ram := r.setUi ((r.ui.store .atbcfg 0 (List.replicate atbcfgSize 0)).store .atbcfg 6 [2])

/-- `set_resmgr(NULL)`. -/
def clearResmgr (r : Ram) : Ram := r.setUi (r.ui.store .resmgr 0 (List.replicate resmgrSize 0))

/-- `set_resmgr(NULL)`, then `get_resmgr`. -/
def freshResmgr (r : Ram) : Ram := r.clearResmgr.setUi r.clearResmgr.ui.getResmgr

/-- What `flash_load_rescfg` does to the bytes it has read. -/
def takeRescfg (r : Ram) (bs : List UInt8) : Ram :=
  let u := r.ui.store .resmgr 0 bs
  let u :=
    if u.mem .atbcfg 0 = 3 then
      (List.range 254).foldl (fun u i =>
        let m := u.mem .resmgr
        if 61 ≤ (m (7*i+6)).toNat+(m (7*i+3)).toNat ∧ m (7*i+4) = 2 then
          u.store .resmgr (7*i+3) [m (7*i+3)-1]
        else u) u
    else u
  if read (u.mem .resmgr) 0 7 ≠ List.replicate 7 0x72 then (r.setUi u).clearResmgr else r.setUi u

/-- What `flash_load_pre_res` does to the bytes it has read, which are the first ones of the structure. -/
def takePreRes (r : Ram) (bs : List UInt8) : Ram :=
  let preRes := preResOf (bs ++ r.preRes.bytes.drop bs.length)
  if preRes.magic ≠ preResMagic then {r with preRes := {preRes with num := 0,state := 0}}
  else {r with preRes := {preRes with state := 1}}

def readDevcfg (r : Ram) (bs : List UInt8) : Ram := {r with devcfg := store r.devcfg 0 bs}

theorem devcfg_readDevcfg (r : Ram) (bs : List UInt8) : (r.readDevcfg bs).devcfg = store r.devcfg 0 bs := rfl

/-- The setting of a port, which the host sends from the fifth byte on. -/
def setPort (r : Ram) : Ram :=
  let buf := r.ui.mem .devSet
  match portField (buf 0) with
  | some f => {r with devcfg := copy r.devcfg f.1 buf 4 f.2}
  | none => r

end Ram

/-! ### Saving and loading -/

namespace Board

variable (d : Driver) (b : Build)

/-- Unlock, erase, seek and write, with what `write` returns. -/
def put (s : Board) (k : Key) (n : ℕ) (xs : List UInt8) : Board × ℤ :=
  let r := s.chip.rewrite d (b.ofs k) n xs
  ({s with chip := r.1},r.2)

/-- A save returns what `write` has returned when it is not the size. -/
def saved (size : ℕ) (r : Board × ℤ) : Board × ℤ := (r.1,if r.2 ≠ size then r.2 else 0)

/-- Seek and read. -/
def get (s : Board) (k : Key) : Board × List UInt8 × ℤ :=
  let r := (s.chip.seek (b.ofs k)).read d k.size
  ({s with chip := r.1},r.2)

def eraseKey (s : Board) (k : Key) (n : ℕ) : Board := {s with chip := s.chip.erase d (b.ofs k) n}

def unlock (s : Board) : Board := {s with chip := s.chip.unlock}

def flashSaveDebugcfg (s : Board) (ptr : List UInt8) : Board × ℤ := saved 4 (s.put d b .debug 0x1000 ptr)

def flashSaveMaccfg (s : Board) (ptr : List UInt8) : Board × ℤ := saved 6 (s.put d b .mac 0x1000 ptr)

/-- `flash_save_rescfg`, with as many sectors as the structure needs. -/
def flashSaveRescfg (s : Board) : Board × ℤ :=
  let ui := s.ram.ui.flashSaveRescfg
  let s := {s with ram := s.ram.setUi ui}
  saved resmgrSize (s.put d b .res ((resmgrSize/0x1000+1)*0x1000) (read (ui.mem .resmgr) 0 resmgrSize))

/-- `flash_save_atbcfg`. With a dynamic bandwidth the resources in the flash are erased. -/
def flashSaveAtbcfg (s : Board) : Board × ℤ :=
  let ui := s.ram.ui.flashSaveAtbcfg
  let s := {s with ram := s.ram.setUi ui}
  let r := s.put d b .atb 0x1000 (read (ui.mem .atbcfg) 0 atbcfgSize)
  if r.2 ≠ (atbcfgSize : ℤ) then r
  else if ui.mem .atbcfg 7 = 1 then
    ((r.1.eraseKey d b .pre 0x1000).eraseKey d b .res ((resmgrSize/0x1000+1)*0x1000),0)
  else (r.1,0)

def flashSavePreRes (s : Board) : Board × ℤ :=
  let preRes := {s.ram.preRes with magic := preResMagic}
  let s := {s with ram := {s.ram with preRes := preRes}}
  saved 9 (s.put d b .pre 0x1000 preRes.bytes)

def flashErasePreRes (s : Board) : Board :=
  let s := {s with ram := {s.ram with preRes := {s.ram.preRes with magic := preResMagic}}}
  s.unlock.eraseKey d b .pre 0x1000

def flashLoadDebugcfg (s : Board) : Board × ℤ :=
  let r := s.get d b .debug
  let s := {r.1 with ram := {r.1.ram with legid := store r.1.ram.legid 0 r.2.1}}
  (s,if r.2.2 ≠ 4 then -1 else 0)

/-- `flash_load_maccfg`; the registration of the address is left out. -/
def flashLoadMaccfg (s : Board) : Board × ℤ :=
  let r := s.get d b .mac
  let s := {r.1 with ram := {r.1.ram with maccfg := store r.1.ram.maccfg 0 r.2.1}}
  (s,if r.2.2 ≠ 6 then -1 else 0)

def flashLoadPreRes (s : Board) : Board × ℤ :=
  let r := s.get d b .pre
  let s := {r.1 with ram := r.1.ram.takePreRes r.2.1}
  (s,if s.ram.preRes.state = 1 then 0 else -1)

/-- `flash_load_atbcfg`. The chip is not unlocked before it is erased. -/
def flashLoadAtbcfg (s : Board) : Board × ℤ :=
  let r := s.get d b .atb
  let s := {r.1 with ram := r.1.ram.readAtbcfg r.2.1}
  if r.2.2 ≠ (atbcfgSize : ℤ) then (s,-1)
  else if u32 s.ram.atbcfg 8 ≠ flashCrc then ({s with ram := s.ram.clearAtbcfg},-1)
  else if s.ram.atbcfg 7 = 1 then (s.eraseKey d b .pre 0x1000,0)
  else (s,0)

/-- `flash_load_rescfg` from the check of what `read` returns on. -/
def rescfgRead (r : Board × List UInt8 × ℤ) : Board × ℤ :=
  if r.2.2 ≠ (resmgrSize : ℤ) then ({r.1 with ram := r.1.ram.setUi (r.1.ram.ui.store .resmgr 0 r.2.1)},-1)
  else
    let s := {r.1 with ram := r.1.ram.takeRescfg r.2.1}
    (s,if read (s.ram.ui.mem .resmgr) 0 7 ≠ List.replicate 7 0x72 then -1 else 0)

def flashLoadRescfg (s : Board) : Board × ℤ := rescfgRead ({s with ram := s.ram.freshResmgr}.get d b .res)

/-- `flash_save_devcfg`, which loads what it has written. -/
def flashSaveDevcfg (load : Board → Option (Board × ℤ)) (s : Board) : Option (Board × ℤ) :=
  let r := s.put d b .dev 0x1000 (read s.ram.devcfg 0 248)
  if r.2 ≠ 248 then some r else (load r.1).map fun q => (q.1,0)

/-- `flash_load_devcfg`, which saves the default when what it has read is not valid. The number bounds how deep
the two call each other. -/
def flashLoadDevcfg : ℕ → Board → Option (Board × ℤ)
  | 0, _ => none
  | fuel+1, s =>
    let r := s.get d b .dev
    let s := {r.1 with ram := r.1.ram.readDevcfg r.2.1}
    if r.2.2 ≠ 248 then some (s,-1)
    else if u32 s.ram.devcfg 244 ≠ flashDevCrc then
      let s := {s with ram := s.ram.readDevcfg devDefaults}
      (flashSaveDevcfg d b (fun s => flashLoadDevcfg fuel s) s).map fun q => (q.1,0)
    else some (s,0)

/-- What `tty_mux` loads when the power comes back; `r` is what the memory holds then. -/
def ttyMux (fuel : ℕ) (r : Ram) (s : Board) : Option Board :=
  let s := {s with chip := s.chip.powerUp,ram := r,inprog := 0}
  let s := if b.drvNandFlash then (s.flashLoadMaccfg d b).1 else s
  let s := (s.flashLoadDebugcfg d b).1
  (flashLoadDevcfg d b fuel s).map fun q =>
    let s := (q.1.flashLoadPreRes d b).1
    let q := s.flashLoadAtbcfg d b
    let s := (q.1.flashLoadRescfg d b).1
    if q.2 ≠ 0 then {s with ram := s.ram.setUi (s.ram.ui.store .atbcfg 6 [2])} else s

/-! ### Commands and messages -/

/-- `debug_cmd_smac` on six bytes. -/
def debugCmdSmac (mac : Mem) (s : Board) : Board :=
  let maccfg := store s.ram.maccfg 0 (read mac 0 6)
  ({s with ram := {s.ram with maccfg := maccfg}}.flashSaveMaccfg d b (read maccfg 0 6)).1

/-- `debug_cmd_reburn`: the first blocks of both programs are erased, then the device starts again. -/
def debugCmdReburn (fuel : ℕ) (r : Ram) (s : Board) : Option Board :=
  let s := s.unlock
  {s with chip := (s.chip.erase d 0 0x1000).erase d 0x80000 0x1000}.ttyMux d b fuel r

/-- The message `svd` in `uimsg_proc`; `E_CFG_REBOOT` is 36. -/
def uimsgSvd (fuel : ℕ) (r : Ram) (s : Board) : Option Board :=
  if s.ram.ui.mem .devSet 0 = 36 then s.ttyMux d b fuel r
  else
    let s := {s with ram := s.ram.setPort}
    (flashSaveDevcfg d b (fun s => flashLoadDevcfg d b fuel s) s).map Prod.fst

/-- The message `otastart`. -/
def uimsgOtastart (s : Board) : Board :=
  let s := s.unlock
  {s with chip := s.chip.erase d upgradeAddr upgradeSize}

/-- The message `otadata`. -/
def uimsgOtadata (s : Board) : Board :=
  let addr := HostTasks.Dev.blockAddr s.ram.ui.otaDataSn
  {s with chip := ((s.chip.seek addr).write d (read (s.ram.ui.mem .uiDat) 4 1024)).1}

/-- `upgrade_file_open`; for `reboot.bin` only a timer is started. -/
def upgradeFileOpen (fname : String) (s : Board) : Board :=
  if fname ≠ "upgrade.bin" ∨ s.inprog ≠ 0 then s
  else
    let s := s.unlock
    {s with chip := (s.chip.erase d 0x100000 0x040000).seek 0x100000,uploadOfs := 0,inprog := 0x111}

/-- `upgrade_file_write`. -/
def upgradeFileWrite (buf : List UInt8) (s : Board) : Board × ℤ :=
  let tsiz := UInt32.ofNat buf.length
  if 524288 < s.uploadOfs+tsiz then (s,-11)
  else
    let r := s.chip.write d buf
    let s := {s with chip := r.1}
    if UInt32.ofInt r.2 ≠ tsiz then (s,-12) else ({s with uploadOfs := s.uploadOfs+tsiz},0)

def upgradeFileClose (s : Board) : Board := {s with inprog := 0}

/-- `flash read`; what it prints is left out. -/
def flashRead (addr tlen : ℕ) (s : Board) : Board := {s with chip := ((s.chip.seek addr).read d tlen).1}

def flashWrite (addr tlen : ℕ) (pttn : UInt8) (s : Board) : Board :=
  {s with chip := ((s.chip.seek addr).write d (List.replicate tlen pttn)).1}

def flashErase (addr tlen : ℕ) (s : Board) : Board := {s with chip := s.chip.erase d addr tlen}

end Board

/-- What happens to the board. Everything else that the program does changes the copies in memory only. -/
inductive Event
  | elsewhere (r : Ram)
  | saveAtb | saveRes | savePre | erasePre | loadAtb
  | smac (mac : Mem)
  | cfg (msg : Mem)
  | svd (r : Ram)
  | otastart | otadata
  | upgradeOpen (fname : String)
  | upgradeWrite (buf : List UInt8)
  | upgradeClose
  | flashRead (addr tlen : ℕ)
  | flashWrite (addr tlen : ℕ) (pttn : UInt8)
  | flashErase (addr tlen : ℕ)
  | flashUnlock
  | reburn (r : Ram)
  | reboot (r : Ram)

/-- One event; it fails when saving and loading `devcfg` call each other too deep. -/
def step (d : Driver) (b : Build) (fuel : ℕ) (s : Board) : Event → Option Board
  | .elsewhere r => some {s with ram := r}
  | .saveAtb => some (s.flashSaveAtbcfg d b).1
  | .saveRes => some (s.flashSaveRescfg d b).1
  | .savePre => some (s.flashSavePreRes d b).1
  | .erasePre => some (s.flashErasePreRes d b)
  | .loadAtb => some (s.flashLoadAtbcfg d b).1
  | .smac mac => some (s.debugCmdSmac d b mac)
  | .cfg msg => some (s.flashSaveDebugcfg d b (read msg 4 4)).1
  | .svd r => s.uimsgSvd d b fuel r
  | .otastart => some (s.uimsgOtastart d)
  | .otadata => some (s.uimsgOtadata d)
  | .upgradeOpen fname => some (s.upgradeFileOpen d fname)
  | .upgradeWrite buf => some (s.upgradeFileWrite d buf).1
  | .upgradeClose => some s.upgradeFileClose
  | .flashRead addr tlen => some (s.flashRead d addr tlen)
  | .flashWrite addr tlen pttn => some (s.flashWrite d addr tlen pttn)
  | .flashErase addr tlen => some (s.flashErase d addr tlen)
  | .flashUnlock => some s.unlock
  | .reburn r => s.debugCmdReburn d b fuel r
  | .reboot r => s.ttyMux d b fuel r

end Settings
end Autbus
