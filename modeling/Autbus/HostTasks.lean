import Autbus.HostParse

/-! The tasks of the CN that serve the host: the receivers of its requests, the alarm
service, the timer tick that carries out the kept command, the upgrade services, and the
reader of the message queue. Each call runs to its end before the next one. -/
namespace Autbus
namespace HostTasks

open Bytes HostFrames HostUi HostParse Trace

/-- What is written to `/mesg/uimsg`. -/
inductive UiMsg
  | cfg
  | svd
  | otastart
  | otadata
  | otareply (cmd : UiCmd)
  deriving DecidableEq

def UiMsg.isReply : UiMsg → Bool
  | .otareply _ => true
  | _ => false

/-- What `uimsg_proc` does to the upgrade area of the flash. -/
inductive FlashOp
  | erase (addr size : ℕ)
  | write (addr : ℕ) (dat : List UInt8)
  deriving DecidableEq

/-- `APP_FLASH_UPGRADE_ADDR`. -/
def upgradeAddr : ℕ := 0x100000

/-- `APP_FLASH_UPGRADE_SIZE`. -/
def upgradeSize : ℕ := 1024*256

/-- `rxtxbuf`, `atbui_cmd`, the queue, and of the context the node id, the own MAC and the
Ethernet descriptor. What goes to the flash is kept like the frames that are sent. -/
structure Dev where
  rx : RxBuf
  ui : Ui
  rebootDelay : UInt8
  msgui : List UiMsg
  nodeid : UInt8
  mac : List UInt8
  efd : ℕ
  flash : List FlashOp

namespace Dev

/-- Nothing noted down yet of the call to come. -/
def fresh (d : Dev) : Dev := { d with ui := { d.ui with out := [], log := [] }, flash := [] }

/-- `write` on `msguifd`. -/
def put (d : Dev) (m : UiMsg) : Dev := { d with msgui := d.msgui ++ [m] }

/-! ### Requests of the host -/

/-- A frame to the device, from `eth_recv` on. -/
def hostRequest (d : Dev) (env : ℕ → Handover) (efd : ℤ) (f : Frame) : Dev :=
  let r := ethRecv d.rx (shift f.mem 12)
  if r.iret = 0 then
    let ui := { d.ui with mem := Function.update d.ui.mem .rbuf r.rx.rbuf }
    { d with rx := r.rx.restart, ui := ui.atbUiParse env efd r.rx.ridx }
  else { d with rx := r.rx }

/-- One round of `atb_ui_process`. -/
def atbUiProcess (d : Dev) (env : ℕ → Handover) (f : Frame) : Dev :=
  if f.ForUs then
    let ui := { d.ui with dstmac := read f.mem 6 6, uiforwardNodeid := 0 }
    { d with ui }.hostRequest env d.efd f
  else d

def atbUiRpcRecv (d : Dev) (env : ℕ → Handover) (f : Frame) : Dev :=
  if f.ForUs then
    let ui := { d.ui with dstmac := read f.mem 6 6 }
    { d with ui }.hostRequest env (-1) f
  else d

/-- `sysres_srv_ui_data` on the CN; `srcnid` is `get_srcnid()`. -/
def sysresSrvUiData (d : Dev) (srcnid : UInt8) (env : ℕ → Handover) (f : Frame) : Dev :=
  if 1300 < f.length then d
  else { d with ui := { d.ui with uiforwardNodeid := srcnid } }.atbUiRpcRecv env f

/-- `sysres_srv_tn_info` on the CN. The request is a `tnreport_t`. -/
def sysresSrvTnInfo (d : Dev) (srcnid : UInt8) (f : Frame) : Dev :=
  if 1300 < f.length then d
  else
    let preport := f.mem
    { d with ui := { d.ui with
      uiforwardNodeid := srcnid
      nodes := d.ui.nodes.map fun pnd =>
        if pnd.nindx = preport 0 then { pnd with sigerr := preport 1, report := preport 2 } else pnd } }

/-! ### Upgrade services -/

/-- The MAC list of an upgrade names the device. The count is an `int`. -/
def named (mac : List UInt8) (ptr : Mem) : Bool :=
  let cnt := u32 ptr 0
  cnt < 2^31 && (List.range cnt).any fun i => read ptr (4+6*i) 6 = mac

/-- `sysres_srv_ota_start` on the list at `ptr`, which is the request or `ui_dat_buf`. -/
def otaStart (d : Dev) (ptr : Mem) : Dev :=
  { d with ui := { d.ui with
    otaDataSn := 1
    otaFlag := if named d.mac ptr then 1 else d.ui.otaFlag } }.put .otastart

def sysresSrvOtaStart (d : Dev) : Option Frame → Dev
  | some f => d.otaStart (if 0 < f.length then f.mem else d.ui.mem .uiDat)
  | none => d.otaStart (d.ui.mem .uiDat)

/-- `sysres_srv_ota_data` from the comparison of the numbers on. -/
def otaData (d : Dev) (ptr : Mem) : Dev :=
  let cnt := u16 ptr 0
  if cnt ≠ d.ui.otaDataSn.toNat then { d with ui := { d.ui with otaFlag := 0, otaDataSn := 0 } }
  else { d with ui := { d.ui with otaDataSn := d.ui.otaDataSn+1 } }.put .otadata

def sysresSrvOtaData (d : Dev) (req : Option Frame) : Dev :=
  if d.ui.otaFlag = 0 then d
  else
    match req with
    | some f =>
      if 0 < f.length then
        let dat := Bytes.copy (d.ui.mem .uiDat) 0 f.mem 0 f.length
        { d with ui := { d.ui with mem := Function.update d.ui.mem .uiDat dat } }.otaData f.mem
      else d.otaData (d.ui.mem .uiDat)
    | none => d.otaData (d.ui.mem .uiDat)

def sysresSrvOtaEnd (d : Dev) : Dev := if d.ui.otaFlag = 0 then d else { d with rebootDelay := 15 }

/-! ### The timer tick -/

/-- `ui_dat_buf` is filled: with signal, debug or throughput data that the device collects
or that it asked another node for. -/
def collect (d : Dev) (dat : Mem) : Dev :=
  { d with ui := { d.ui with mem := Function.update d.ui.mem .uiDat dat } }

/-- `dev_set_buf` is filled with a port's configuration. -/
def collectDev (d : Dev) (dat : Mem) : Dev :=
  { d with ui := { d.ui with mem := Function.update d.ui.mem .devSet dat } }

/-- `sysres_srv_debug_set`. The request, or else `ui_dat_buf`, is marked and becomes the
message. -/
def sysresSrvDebugSet (d : Dev) (req : Option Frame) : Dev :=
  let d' := { d with ui := d.ui.store .uiDat 0 [0x63,0x66,0x67] }
  match req with
  | some f => if 0 < f.length then d.put .cfg else d'.put .cfg
  | none => d'.put .cfg

/-- `sysres_srv_device_set` from the comparison with `E_CFG_REBOOT` on, which is 36: from there
on the nodes it is for are listed. -/
def deviceSet (d : Dev) : Dev :=
  let pu8 := d.ui.mem .devSet
  if 36 ≤ u32 pu8 0 then
    if (List.range (pu8 4).toNat).any fun i => d.nodeid = pu8 (i+5) then d.put .svd else d
  else d.put .svd

def sysresSrvDeviceSet (d : Dev) : Option Frame → Dev
  | some f => (d.collectDev (Bytes.copy (d.ui.mem .devSet) 0 f.mem 4 devSetSize)).deviceSet
  | none => { d with ui := d.ui.copy .devSet 0 .devSet 4 devSetSize }.deviceSet

/-- The end of an upgrade command: the reply goes out at once when it goes to a TN, else its
sending is left to `uimsg_proc`. -/
def otaAnswer (d : Dev) (env : ℕ → Handover) (cmd : UiCmd) : Dev :=
  if d.ui.uiforwardNodeid ≠ 0 then
    { d with ui := d.ui.ethSend env d.efd .otaReply d.ui.otaReplyLen.toNat }
  else d.put (.otareply cmd)

/-- What a tick takes from outside: the fate of the frames it sends and the data that the
commands collect. -/
structure Env where
  send : ℕ → Handover
  dat : Mem

/-- The command of a tick, `E_UI_CMD_NONE` left aside. For other nodes the commands are
passed on by RPC. -/
def command (d : Dev) (env : Env) : UiCmd → Dev
  | .getAtbSig => if d.ui.sigNodeid = 0 then d.collect env.dat else d
  | .getDebugData => if d.ui.dbggetNodeid = 0 then d.collect env.dat else d
  | .getBpsData => if d.ui.dbggetNodeid = 0 then d.collect env.dat else d
  | .getDeviceData => if d.ui.devgetNodeid = 0 then d.collectDev env.dat else d
  | .setDebugData => if d.ui.dbgsetNodeid = 0 then d.sysresSrvDebugSet none else d
  | .setDeviceData => if d.ui.devsetNodeid = 0 ∨ d.ui.devsetNodeid = 255 then d.sysresSrvDeviceSet none else d
  | .otaStart => (d.sysresSrvOtaStart none).otaAnswer env.send .otaStart
  | .otaData => (d.sysresSrvOtaData none).otaAnswer env.send .otaData
  | .otaEnd => d.sysresSrvOtaEnd.otaAnswer env.send .otaEnd
  | .updateTxgain => d
  | .setDyn => d
  | .none => d

/-- `sys_timer_tick` from the switch over the command on. -/
def sysTimerTick (d : Dev) (env : Env) : Dev :=
  let d := d.command env d.ui.cmd
  { d with ui := { d.ui with cmd := .none } }

/-! ### The message queue -/

/-- Where the block is written whose number is one below `sn`. The subtraction is one of
`int`, the sum one of `uint32_t`. -/
def blockAddr (sn : UInt16) : ℕ := (((upgradeAddr : ℤ)+((sn.toNat : ℤ)-2)*1024)%2^32).toNat

/-- One message in `uimsg_proc`. -/
def uimsg (d : Dev) (env : ℕ → Handover) : UiMsg → Dev
  | .otastart => { d with flash := .erase upgradeAddr upgradeSize::d.flash }
  | .otadata =>
    { d with flash := .write (blockAddr d.ui.otaDataSn) (read (d.ui.mem .uiDat) 4 1024)::d.flash }
  | .otareply cmd =>
    if cmd = d.ui.otaReplyCmd then
      { d with ui := d.ui.ethSend env d.efd .otaReply d.ui.otaReplyLen.toNat }
    else d
  | .cfg => d
  | .svd => d

/-- One round of `uimsg_proc`. -/
def uimsgProc (d : Dev) (env : ℕ → Handover) : Dev :=
  match d.msgui with
  | [] => d
  | m::ms => { d with msgui := ms }.uimsg env m

end Dev

/-! ### Events -/

/-- A TN has a node id other than 0, which is the CN's. -/
abbrev TnId := { n : UInt8 // n ≠ 0 }

/-- Everything that happens to the device. -/
inductive Event
  | eth (f : Frame) (env : ℕ → Handover)
  | uiData (tn : TnId) (f : Frame) (env : ℕ → Handover)
  | tnInfo (tn : TnId) (f : Frame)
  | tick (env : Dev.Env)
  | otaStart (f : Frame)
  | otaData (f : Frame)
  | otaEnd
  | debugSet (f : Frame)
  | deviceSet (f : Frame)
  | collect (dat : Mem)
  | uimsg (env : ℕ → Handover)

namespace Dev

/-- The calls, each with nothing noted down of the ones before it. -/
def call (d : Dev) : Event → Dev
  | .eth f env => d.fresh.atbUiProcess env f
  | .uiData tn f env => d.fresh.sysresSrvUiData tn env f
  | .tnInfo tn f => d.fresh.sysresSrvTnInfo tn f
  | .tick env => d.fresh.sysTimerTick env
  | .otaStart f => d.fresh.sysresSrvOtaStart (some f)
  | .otaData f => d.fresh.sysresSrvOtaData (some f)
  | .otaEnd => d.fresh.sysresSrvOtaEnd
  | .debugSet f => d.fresh.sysresSrvDebugSet (some f)
  | .deviceSet f => d.fresh.sysresSrvDeviceSet (some f)
  | .collect dat => d.fresh.collect dat
  | .uimsg env => d.fresh.uimsgProc env

end Dev

/-! ### Whom a message is for

The source keeps with a command or a message neither who asked for it nor which block it is
about. To state this, a run takes it down beside the state. -/

/-- Who sends a request. -/
inductive Origin
  | host
  | tn (id : TnId)
  deriving DecidableEq

def Origin.id : Origin → UInt8
  | .host => 0
  | .tn n => n

def Origin.dest : Origin → Dest
  | .host => .eth
  | .tn n => .rpc n

def Event.origin : Event → Option Origin
  | .eth _ _ => some .host
  | .uiData tn _ _ => some (.tn tn)
  | _ => none

/-- About a message: who asked for the command that led to it, and number and data of the
block that the device had before it. -/
structure Note where
  asker : Origin
  sn : ℕ
  dat : List UInt8

/-- The block a call works on. -/
def Dev.block (d : Dev) : Event → Mem
  | .otaData f => if 0 < f.length then f.mem else d.ui.mem .uiDat
  | _ => d.ui.mem .uiDat

/-- The device, who asked for its command, and a note for each message in the queue. -/
structure Tracked where
  dev : Dev
  asker : Origin
  notes : List Note
  sync : notes.length = dev.msgui.length

namespace Dev

theorem hostRequest_msgui (d : Dev) (env : ℕ → Handover) (efd : ℤ) (f : Frame) :
    (d.hostRequest env efd f).msgui = d.msgui := by
  unfold hostRequest
  simp only
  split <;> rfl

theorem atbUiProcess_msgui (d : Dev) (env : ℕ → Handover) (f : Frame) :
    (d.atbUiProcess env f).msgui = d.msgui := by
  unfold atbUiProcess
  split
  · rw [hostRequest_msgui]
  · rfl

theorem sysresSrvUiData_msgui (d : Dev) (n : UInt8) (env : ℕ → Handover) (f : Frame) :
    (d.sysresSrvUiData n env f).msgui = d.msgui := by
  unfold sysresSrvUiData atbUiRpcRecv
  split
  · rfl
  split
  · rw [hostRequest_msgui]
  · rfl

theorem sysresSrvTnInfo_msgui (d : Dev) (n : UInt8) (f : Frame) :
    (d.sysresSrvTnInfo n f).msgui = d.msgui := by
  unfold sysresSrvTnInfo
  split <;> rfl

/-- Messages are put into the queue, but no reply. -/
def Puts (d d' : Dev) : Prop := ∃ ms, d'.msgui = d.msgui ++ ms ∧ ∀ m ∈ ms, m.isReply = false

theorem Puts.of_eq {d d' : Dev} (h : d'.msgui = d.msgui) : Puts d d' := ⟨[],by rw [h,List.append_nil],by simp⟩

theorem Puts.one {d d' : Dev} (m : UiMsg) (h : d'.msgui = d.msgui ++ [m]) (hm : m.isReply = false) :
    Puts d d' := ⟨[m],h,by simpa using hm⟩

theorem Puts.grows {d d' : Dev} (h : Puts d d') : d.msgui <+: d'.msgui := by
  obtain ⟨ms,hms,-⟩ := h
  exact ⟨ms,hms.symm⟩

/-- Nothing is sent, and the command and what decides where the next frame goes stay. -/
structure Unsent (d d' : Dev) : Prop where
  puts : Puts d d'
  cmd : d'.ui.cmd = d.ui.cmd
  fwd : d'.ui.uiforwardNodeid = d.ui.uiforwardNodeid
  out : d'.ui.out = d.ui.out
  efd : d'.efd = d.efd

theorem Unsent.refl (d : Dev) : Unsent d d := ⟨.of_eq rfl,rfl,rfl,rfl,rfl⟩

theorem unsent_sysresSrvOtaStart (d : Dev) (req : Option Frame) : Unsent d (d.sysresSrvOtaStart req) := by
  cases req <;> exact ⟨.one .otastart rfl rfl,rfl,rfl,rfl,rfl⟩

theorem unsent_otaData (d : Dev) (ptr : Mem) : Unsent d (d.otaData ptr) := by
  unfold otaData
  simp only
  split
  · exact ⟨.of_eq rfl,rfl,rfl,rfl,rfl⟩
  · exact ⟨.one .otadata rfl rfl,rfl,rfl,rfl,rfl⟩

theorem unsent_sysresSrvOtaData (d : Dev) (req : Option Frame) : Unsent d (d.sysresSrvOtaData req) := by
  unfold sysresSrvOtaData
  split
  · exact .refl d
  cases req with
  | none => exact unsent_otaData d _
  | some f =>
    dsimp only
    split
    · obtain ⟨⟨ms,hms,hno⟩,hcmd,hfwd,hout,hefd⟩ := unsent_otaData _ _
      exact ⟨⟨ms,hms,hno⟩,hcmd,hfwd,hout,hefd⟩
    · exact unsent_otaData d _

theorem unsent_sysresSrvOtaEnd (d : Dev) : Unsent d d.sysresSrvOtaEnd := by
  unfold sysresSrvOtaEnd
  split
  · exact .refl d
  · exact ⟨.of_eq rfl,rfl,rfl,rfl,rfl⟩

theorem unsent_sysresSrvDebugSet (d : Dev) (req : Option Frame) : Unsent d (d.sysresSrvDebugSet req) := by
  cases req with
  | none => exact ⟨.one .cfg rfl rfl,rfl,rfl,rfl,rfl⟩
  | some f =>
    simp only [sysresSrvDebugSet]
    split <;> exact ⟨.one .cfg rfl rfl,rfl,rfl,rfl,rfl⟩

theorem unsent_deviceSet (d : Dev) : Unsent d d.deviceSet := by
  unfold deviceSet
  simp only
  split
  · split
    · exact ⟨.one .svd rfl rfl,rfl,rfl,rfl,rfl⟩
    · exact .refl d
  · exact ⟨.one .svd rfl rfl,rfl,rfl,rfl,rfl⟩

theorem unsent_sysresSrvDeviceSet (d : Dev) (req : Option Frame) : Unsent d (d.sysresSrvDeviceSet req) := by
  cases req with
  | none =>
    obtain ⟨hputs,hcmd,hfwd,hout,hefd⟩ := unsent_deviceSet { d with ui := d.ui.copy .devSet 0 .devSet 4 devSetSize }
    exact ⟨hputs,hcmd,hfwd,hout,hefd⟩
  | some f =>
    obtain ⟨hputs,hcmd,hfwd,hout,hefd⟩ :=
      unsent_deviceSet (d.collectDev (Bytes.copy (d.ui.mem .devSet) 0 f.mem 4 devSetSize))
    exact ⟨hputs,hcmd,hfwd,hout,hefd⟩

/-- The service of an upgrade command. -/
def otaService (d : Dev) : UiCmd → Dev
  | .otaStart => d.sysresSrvOtaStart none
  | .otaData => d.sysresSrvOtaData none
  | .otaEnd => d.sysresSrvOtaEnd
  | _ => d

theorem unsent_otaService (d : Dev) (cmd : UiCmd) : Unsent d (d.otaService cmd) := by
  cases cmd with
  | otaStart => exact unsent_sysresSrvOtaStart d none
  | otaData => exact unsent_sysresSrvOtaData d none
  | otaEnd => exact unsent_sysresSrvOtaEnd d
  | _ => exact .refl d

/-- An upgrade command is carried out and answered. -/
theorem command_ota {cmd : UiCmd} (h : IsOta cmd) (d : Dev) (env : Env) :
    d.command env cmd = (d.otaService cmd).otaAnswer env.send cmd := by
  rcases h with rfl | rfl | rfl <;> rfl

theorem command_other {cmd : UiCmd} (h : ¬IsOta cmd) (d : Dev) (env : Env) : Unsent d (d.command env cmd) := by
  cases cmd with
  | otaStart | otaData | otaEnd => exact absurd (by decide) h
  | none | updateTxgain | setDyn => exact .refl d
  | getAtbSig | getDebugData | getBpsData | getDeviceData =>
    simp only [command]
    split
    · exact ⟨.of_eq rfl,rfl,rfl,rfl,rfl⟩
    · exact .refl d
  | setDebugData =>
    simp only [command]
    split
    · exact unsent_sysresSrvDebugSet d none
    · exact .refl d
  | setDeviceData =>
    simp only [command]
    split
    · exact unsent_sysresSrvDeviceSet d none
    · exact .refl d

theorem otaAnswer_grows (d : Dev) (env : ℕ → Handover) (cmd : UiCmd) :
    d.msgui <+: (d.otaAnswer env cmd).msgui := by
  unfold otaAnswer
  split
  · exact List.prefix_rfl
  · exact List.prefix_append _ _

theorem command_grows (d : Dev) (env : Env) (cmd : UiCmd) : d.msgui <+: (d.command env cmd).msgui := by
  by_cases h : IsOta cmd
  · rw [command_ota h]
    exact (unsent_otaService d cmd).puts.grows.trans (otaAnswer_grows _ _ _)
  · exact (command_other h d env).puts.grows

theorem uimsg_msgui (d : Dev) (env : ℕ → Handover) (m : UiMsg) : (d.uimsg env m).msgui = d.msgui := by
  cases m with
  | otareply cmd =>
    simp only [uimsg]
    split <;> rfl
  | cfg | svd | otastart | otadata => rfl

theorem uimsgProc_msgui (d : Dev) (env : ℕ → Handover) : (d.uimsgProc env).msgui = d.msgui.tail := by
  unfold uimsgProc
  split
  · next h => rw [h,List.tail_nil]
  · next m ms h => rw [uimsg_msgui,h,List.tail_cons]

/-- All calls but the reader's leave the queue as it is or prolong it. -/
theorem call_grows (d : Dev) {e : Event} (h : ∀ env, e ≠ .uimsg env) : d.msgui <+: (d.call e).msgui := by
  cases e with
  | eth f env =>
    rw [call,atbUiProcess_msgui]
    exact List.prefix_rfl
  | uiData tn f env =>
    rw [call,sysresSrvUiData_msgui]
    exact List.prefix_rfl
  | tnInfo tn f =>
    rw [call,sysresSrvTnInfo_msgui]
    exact List.prefix_rfl
  | tick env => exact command_grows d.fresh env _
  | otaStart f => exact (unsent_sysresSrvOtaStart d.fresh _).puts.grows
  | otaData f => exact (unsent_sysresSrvOtaData d.fresh _).puts.grows
  | otaEnd => exact (unsent_sysresSrvOtaEnd d.fresh).puts.grows
  | debugSet f => exact (unsent_sysresSrvDebugSet d.fresh _).puts.grows
  | deviceSet f => exact (unsent_sysresSrvDeviceSet d.fresh _).puts.grows
  | collect dat => exact List.prefix_rfl
  | uimsg env => exact absurd rfl (h env)

end Dev

namespace Tracked

/-- Who asked for the command there is after the call. -/
def askerAfter (s : Tracked) (e : Event) : Origin :=
  if s.dev.ui.cmd = .none ∧ (s.dev.call e).ui.cmd ≠ .none then e.origin.getD s.asker else s.asker

def note (s : Tracked) (e : Event) : Note :=
  ⟨s.asker,u16 (s.dev.block e) 0,read (s.dev.block e) 4 1024⟩

/-- The reader takes a note away with its message, the other calls write one for each
message they put. -/
def notesAfter (s : Tracked) (e : Event) : List Note :=
  match e with
  | .uimsg _ => s.notes.tail
  | e => s.notes ++ List.replicate ((s.dev.call e).msgui.length-s.dev.msgui.length) (s.note e)

theorem notesAfter_length (s : Tracked) (e : Event) :
    (s.notesAfter e).length = (s.dev.call e).msgui.length := by
  have hput : ∀ e, (∀ env, e ≠ .uimsg env) →
      (s.notes ++ List.replicate ((s.dev.call e).msgui.length-s.dev.msgui.length) (s.note e)).length =
        (s.dev.call e).msgui.length := by
    intro e he
    have hle := (s.dev.call_grows he).length_le
    rw [List.length_append,List.length_replicate,s.sync]
    omega
  cases e with
  | uimsg env =>
    rw [notesAfter,Dev.call,Dev.uimsgProc_msgui,List.length_tail,List.length_tail,s.sync]
    rfl
  | eth | uiData | tnInfo | tick | otaStart | otaData | otaEnd | debugSet | deviceSet | collect =>
    exact hput _ fun env h => by cases h

def next (s : Tracked) (e : Event) : Tracked :=
  ⟨s.dev.call e,s.askerAfter e,s.notesAfter e,s.notesAfter_length e⟩

@[simp] theorem next_dev (s : Tracked) (e : Event) : (s.next e).dev = s.dev.call e := rfl

@[simp] theorem next_notes (s : Tracked) (e : Event) : (s.next e).notes = s.notesAfter e := rfl

end Tracked

def step (s : Tracked) (e : Event) : Option Tracked := some (s.next e)

/-- A device with nothing to do. -/
def idle (nodeid : UInt8) : Tracked where
  dev :=
    { rx := emptyRx
      ui := Ui.idle fun _ => 0
      rebootDelay := 0
      msgui := []
      nodeid := nodeid
      mac := [2,0,0,0,0,1]
      efd := 3
      flash := [] }
  asker := .host
  notes := []
  sync := rfl

end HostTasks
end Autbus
