import Autbus.HostFrames

/-! The host interface of the CN: `atbui_cmd`, the buffers and configuration structures of
`atbui.c`, and `atb_ui_parse` with the functions it calls. Buffers are kept as memory, and
every access to one is noted down, so that bounds can be stated. -/
namespace Autbus
namespace HostUi

open Bytes HostFrames

/-- The requests of `E_MSG_TYPE`. -/
inductive Msg
  | setAtbCfg | getAtbCfg | setNodeName | getNodeInfo | getResConfig | setResConfig
  | getNodeBasicInfo | getAtbSig | getBps | getDebug | setDebug | otaStart | otaData | otaEnd
  | getDevice | setDevice
  deriving DecidableEq

/-- The requests are numbered from 0x10 on, each followed by its reply. -/
def Msg.code : Msg → ℕ
  | .setAtbCfg => 0x10
  | .getAtbCfg => 0x12
  | .setNodeName => 0x14
  | .getNodeInfo => 0x16
  | .getResConfig => 0x18
  | .setResConfig => 0x1A
  | .getNodeBasicInfo => 0x1C
  | .getAtbSig => 0x1E
  | .getBps => 0x20
  | .getDebug => 0x22
  | .setDebug => 0x24
  | .otaStart => 0x26
  | .otaData => 0x28
  | .otaEnd => 0x2A
  | .getDevice => 0x2C
  | .setDevice => 0x2E

def Msg.all : List Msg :=
  [.setAtbCfg,.getAtbCfg,.setNodeName,.getNodeInfo,.getResConfig,.setResConfig,.getNodeBasicInfo,
    .getAtbSig,.getBps,.getDebug,.setDebug,.otaStart,.otaData,.otaEnd,.getDevice,.setDevice]

/-- The case labels of the switch. -/
def Msg.ofCode (n : ℕ) : Option Msg := Msg.all.find? fun m => m.code = n

/-- `E_UI_CMD`. -/
inductive UiCmd
  | none | getAtbSig | updateTxgain | setDebugData | getBpsData | getDebugData | setDeviceData
  | getDeviceData | otaStart | otaData | otaEnd | setDyn
  deriving DecidableEq

/-- The memory that requests are read from and written to. -/
inductive Buf
  | rbuf | sbuf | uiDat | devSet | otaReply | atbcfg | resmgr
  deriving DecidableEq

/-- `sizeof(resmgr_config_t)`: 254 resources of 7 bytes and 64 nodes of 32 bytes. -/
def resmgrSize : ℕ := 254*7+64*32

/-- `sizeof(atbcfg_t)`. -/
def atbcfgSize : ℕ := 12

/-- `UI_BUF_SIZE`. -/
def uiBufSize : ℕ := 1200

/-- `DEV_SET_SIZE`. -/
def devSetSize : ℕ := 256

/-- How far a buffer reaches; of `rbuf` the bytes of the message only. -/
def Buf.size (len : ℕ) : Buf → ℕ
  | .rbuf => len
  | .sbuf => bufSize
  | .uiDat => uiBufSize
  | .devSet => devSetSize
  | .otaReply => devSetSize
  | .atbcfg => atbcfgSize
  | .resmgr => resmgrSize

structure Access where
  buf : Buf
  write : Bool
  span : Span
  deriving DecidableEq

/-- The fields of `node_info_t` that the host is told. -/
structure NodeRec where
  aver : Mem
  bver : Mem
  nodetype : Mem
  name : Mem
  nindx : UInt8
  sigerr : UInt8
  report : UInt8
  role : UInt8
  nodeaddr : UInt8
  listen : UInt8
  mac : Mem
  state : UInt8
  lostcnt : UInt8
  clearcnt : UInt8
  onlinetime : UInt64
  losttime : UInt64

/-- Where a frame goes: out of the Ethernet port, or to a TN by RPC. -/
inductive Dest
  | eth
  | rpc (nodeid : UInt8)
  deriving DecidableEq

structure Sent where
  dest : Dest
  frame : List UInt8

/-- What becomes of a frame: no packet to put it in, refused by the port, or taken. -/
inductive Handover
  | nobuf
  | refused
  | taken
  deriving DecidableEq

/-- `atbui_cmd` with the other data that requests reach, the accesses made and the frames
sent, the newest first. -/
structure Ui where
  mem : Buf → Mem
  cmd : UiCmd
  sigNodeid : UInt8
  dbggetNodeid : UInt8
  dbgsetNodeid : UInt8
  devgetNodeid : UInt8
  devsetNodeid : UInt8
  uiforwardNodeid : UInt8
  otaFlag : UInt8
  otaReplyCmd : UiCmd
  otaReplyLen : UInt8
  otaDataSn : UInt16
  nodes : List NodeRec
  systime : UInt64
  dstmac : List UInt8
  log : List Access
  out : List Sent

namespace Ui

/-- Read without keeping what is read. -/
def look (u : Ui) (b : Buf) (a n : ℕ) : Ui := { u with log := ⟨b,false,⟨a,n⟩⟩::u.log }

/-- Write given bytes. -/
def store (u : Ui) (b : Buf) (a : ℕ) (xs : List UInt8) : Ui :=
  { u with
    mem := Function.update u.mem b (Bytes.store (u.mem b) a xs)
    log := ⟨b,true,⟨a,xs.length⟩⟩::u.log }

/-- `memcpy` from one buffer to another. -/
def copy (u : Ui) (dst : Buf) (a : ℕ) (src : Buf) (b n : ℕ) : Ui :=
  { u with
    mem := Function.update u.mem dst (Bytes.copy (u.mem dst) a (u.mem src) b n)
    log := ⟨dst,true,⟨a,n⟩⟩::⟨src,false,⟨b,n⟩⟩::u.log }

/-- `memcpy(rxtxbuf.sbuf, &rtype, 2)`. -/
def reply (u : Ui) (m : Msg) : Ui := u.store .sbuf 0 (le16 (m.code+1))

/-- The hand-over of the frames of `ui_eth_send` one by one, up to the first that fails. A
frame for a TN goes into an RPC request and is not refused. -/
def handOver (fwd : UInt8) (efd : ℤ) (env : ℕ → Handover) : ℕ → List (List UInt8) → List Sent × Bool
  | _, [] => ([],true)
  | i, f::fs =>
    let toTn := fwd ≠ 0 ∨ efd < 0
    match env i with
    | .nobuf => ([],false)
    | .refused =>
      if toTn then
        let r := handOver fwd efd env (i+1) fs
        (⟨.rpc fwd,f⟩::r.1,r.2)
      else ([],false)
    | .taken =>
      let r := handOver fwd efd env (i+1) fs
      (⟨if toTn then .rpc fwd else .eth,f⟩::r.1,r.2)

/-- `set_report`: mark the node through which the host is connected. -/
def setReport (nodeid : UInt8) (pnd : NodeRec) : NodeRec :=
  if pnd.nindx = nodeid then { pnd with report := 2 }
  else if pnd.report = 2 then { pnd with report := 0 }
  else pnd

/-- `ui_eth_send` on a buffer. The destination byte is cleared when all frames are gone. -/
def ethSend (u : Ui) (env : ℕ → Handover) (efd : ℤ) (b : Buf) (slen : ℕ) : Ui :=
  let slen := slen % 65536
  if bufSize-4 < slen then u
  else
    let s := uiEthSend u.dstmac (u.mem b) slen
    let r := handOver u.uiforwardNodeid efd env 0 s.frames
    { u with
      mem := Function.update u.mem b s.pdat
      log := ⟨b,false,⟨0,slen+4⟩⟩::⟨b,true,⟨slen,4⟩⟩::⟨b,false,⟨0,slen⟩⟩::u.log
      out := r.1.reverse ++ u.out
      nodes := if env 0 = .nobuf then u.nodes else u.nodes.map (setReport u.uiforwardNodeid)
      uiforwardNodeid := if r.2 then 0 else u.uiforwardNodeid }

/-! ### The node list -/

def le64 (n : UInt64) : List UInt8 := le32 (n.toNat % 2^32) ++ le32 (n.toNat/2^32)

/-- A node that is lost shows when, another one for how long it has been there.
`CFG_NODE_ADD_FINISH` is 8. -/
def runtime (systime : UInt64) (pnd : NodeRec) : UInt64 :=
  if 8 < pnd.state then pnd.losttime else systime-pnd.onlinetime

/-- The fields `ui_get_nodes` writes of a `nodeinfo_t`, with their offsets. -/
def nodeinfoFields (systime : UInt64) (pnd : NodeRec) : List (ℕ × List UInt8) :=
  [(97,[pnd.nindx]),(96,[pnd.role]),(98,[pnd.state]),(14,read pnd.name 0 32),(8,read pnd.mac 0 6),
    (46,read pnd.aver 0 16),(62,read pnd.bver 0 16),(78,read pnd.nodetype 0 16),(94,[pnd.nodeaddr]),
    (95,[pnd.listen]),(100,[pnd.sigerr]),(101,[pnd.report]),(0,le64 (runtime systime pnd)),
    (99,[pnd.lostcnt])]

/-- The fields `ui_get_names` writes of a `basic_nodeinfo_t`. -/
def basicFields (systime : UInt64) (pnd : NodeRec) : List (ℕ × List UInt8) :=
  [(96,[pnd.nindx]),(95,[pnd.role]),(97,[pnd.state]),(14,read pnd.name 0 32),(8,read pnd.mac 0 6),
    (46,read pnd.aver 0 16),(62,read pnd.bver 0 16),(78,read pnd.nodetype 0 16),
    (0,le64 (runtime systime pnd))]

/-- A node that is shown a fourth time loses its marks. -/
def showMarks (pnd : NodeRec) : NodeRec :=
  if pnd.clearcnt < 3 then { pnd with clearcnt := pnd.clearcnt+1 }
  else { pnd with clearcnt := 0, sigerr := 0, report := 0 }

def putFields (ofs : ℕ) (fields : List (ℕ × List UInt8)) (u : Ui) : Ui :=
  fields.foldl (fun u f => u.store .sbuf (ofs+f.1) f.2) u

/-- The list loop, from the `i`-th record on; the count in front follows it. -/
def putNodes (size : ℕ) (fields : UInt64 → NodeRec → List (ℕ × List UInt8)) : ℕ → List NodeRec → Ui → Ui
  | _, [], u => u
  | i, pnd::pnds, u =>
    putNodes size fields (i+1) pnds
      ((putFields (6+size*i) (fields u.systime pnd) u).store .sbuf 2 (le32 (i+1)))

/-- `sizeof(nodeinfo_t)`. -/
def nodeinfoSize : ℕ := 102

/-- `sizeof(basic_nodeinfo_t)`. -/
def basicSize : ℕ := 98

def uiGetNodes (u : Ui) : Ui :=
  let u := putNodes nodeinfoSize nodeinfoFields 0 u.nodes (u.store .sbuf 2 (le32 0))
  { u with nodes := u.nodes.map showMarks }

def uiGetNames (u : Ui) : Ui := putNodes basicSize basicFields 0 u.nodes (u.store .sbuf 2 (le32 0))

/-- `ui_update_nodecfg(atbui_cmd.dev_set_buf)`; `E_CFG_NODE` is 7. -/
def uiUpdateNodecfg (u : Ui) : Ui :=
  let pbuf := u.mem .devSet
  if u32 pbuf 4 ≠ 7 then u
  else { u with nodes := u.nodes.map fun pnd =>
    if pnd.nindx = pbuf 0 then
      { pnd with name := Bytes.copy pnd.name 0 pbuf 8 32, nodeaddr := pbuf 40, listen := pbuf 44 }
    else pnd }

/-! ### The configuration structures -/

def setResmgr (u : Ui) : Ui :=
  (u.store .resmgr 0 (List.replicate resmgrSize 0)).copy .resmgr 0 .rbuf 2 resmgrSize

/-- `get_resmgr` clears the entries that are not configured: nodes that are not enabled,
resources that are neither enabled (2) nor disabled (1). -/
def getResmgr (u : Ui) : Ui :=
  let u := (List.range 64).foldl (fun u i =>
    if u.mem .resmgr (254*7+32*i+6) ≠ 2 then u.store .resmgr (254*7+32*i) (List.replicate 32 0) else u) u
  (List.range 254).foldl (fun u i =>
    if u.mem .resmgr (7*i+4) ≠ 2 ∧ u.mem .resmgr (7*i+4) ≠ 1 then
      u.store .resmgr (7*i) (List.replicate 7 0)
    else u) u

/-- `flash_save_rescfg` up to the write to flash: the first entry becomes the mark of a
valid configuration, and in mode 3 resources that reach symbol 61 are shortened. -/
def flashSaveRescfg (u : Ui) : Ui :=
  let u := u.getResmgr.store .resmgr 0 (List.replicate 7 0x72)
  if u.mem .atbcfg 0 = 3 then
    (List.range 254).foldl (fun u i =>
      let r := u.mem .resmgr
      if 61 ≤ (r (7*i+6)).toNat+(r (7*i+3)).toNat ∧ r (7*i+4) = 2 then
        u.store .resmgr (7*i+3) [r (7*i+3)-1]
      else u) u
  else u

/-- `flash_save_atbcfg` up to the write to flash. -/
def flashSaveAtbcfg (u : Ui) : Ui := u.store .atbcfg 8 (le32 0x11223344)

/-! ### Requests -/

/-- A request for data that is fetched later; the answer is what was fetched last. -/
def getData (u : Ui) (env : ℕ → Handover) (efd : ℤ) (m : Msg) (cmd : UiCmd) (target : UInt8 → Ui → Ui) : Ui :=
  let u := if u.cmd = .none then target (u.mem .rbuf 2) { u.look .rbuf 2 1 with cmd := cmd } else u
  let u := u.reply m
  let u := u.copy .sbuf 2 .uiDat 0 uiBufSize
  u.ethSend env efd .sbuf (2+uiBufSize)

def getAtbSig (u : Ui) (env : ℕ → Handover) (efd : ℤ) : Ui :=
  u.getData env efd .getAtbSig .getAtbSig fun n u => { u with sigNodeid := n }

def getBps (u : Ui) (env : ℕ → Handover) (efd : ℤ) : Ui :=
  u.getData env efd .getBps .getBpsData fun n u => { u with dbggetNodeid := n }

def getDebug (u : Ui) (env : ℕ → Handover) (efd : ℤ) : Ui :=
  u.getData env efd .getDebug .getDebugData fun n u => { u with dbggetNodeid := n }

/-- An upgrade request: kept with its reply until the next tick. While another command
waits it is dropped. -/
def otaRequest (u : Ui) (m : Msg) (cmd : UiCmd) (len : ℕ) : Ui :=
  if u.cmd = .none then
    let u := { u with cmd := cmd }
    let u := u.copy .uiDat 0 .rbuf 2 (subU32 len 2)
    let u := u.reply m
    let u := u.copy .otaReply 0 .sbuf 0 2
    { u with otaReplyCmd := cmd, otaReplyLen := 2 }
  else u

def otaStart (u : Ui) (len : ℕ) : Ui := u.otaRequest .otaStart .otaStart len

def otaData (u : Ui) (len : ℕ) : Ui := u.otaRequest .otaData .otaData len

def otaEnd (u : Ui) (len : ℕ) : Ui := u.otaRequest .otaEnd .otaEnd len

def setAtbCfg (u : Ui) (env : ℕ → Handover) (efd : ℤ) : Ui :=
  let u := u.copy .atbcfg 0 .rbuf 2 atbcfgSize
  let u := if u.cmd = .none then { u with cmd := .updateTxgain } else u
  let u := u.reply .setAtbCfg
  (u.ethSend env efd .sbuf 2).flashSaveAtbcfg

def getAtbCfg (u : Ui) (env : ℕ → Handover) (efd : ℤ) : Ui :=
  let u := (u.reply .getAtbCfg).copy .sbuf 2 .atbcfg 0 atbcfgSize
  u.ethSend env efd .sbuf (2+atbcfgSize)

def getNodeInfo (u : Ui) (env : ℕ → Handover) (efd : ℤ) : Ui :=
  let cnt := u.nodes.length
  (u.reply .getNodeInfo).uiGetNodes.ethSend env efd .sbuf (2+(cnt*nodeinfoSize+4))

def getNodeBasicInfo (u : Ui) (env : ℕ → Handover) (efd : ℤ) : Ui :=
  let cnt := u.nodes.length
  (u.reply .getNodeBasicInfo).uiGetNames.ethSend env efd .sbuf (2+(cnt*basicSize+4))

def getResConfig (u : Ui) (env : ℕ → Handover) (efd : ℤ) : Ui :=
  let u := (u.reply .getResConfig).getResmgr.copy .sbuf 2 .resmgr 0 resmgrSize
  u.ethSend env efd .sbuf (2+resmgrSize)

def setResConfig (u : Ui) (env : ℕ → Handover) (efd : ℤ) : Ui :=
  ((u.setResmgr.reply .setResConfig).ethSend env efd .sbuf 2).flashSaveRescfg

/-- The answer is what was fetched last; the port asked for goes to the start of the buffer. -/
def getDevice (u : Ui) (env : ℕ → Handover) (efd : ℤ) : Ui :=
  let u := (u.reply .getDevice).copy .sbuf 2 .devSet 0 devSetSize
  let u :=
    if u.cmd = .none then
      { (u.look .rbuf 2 1).copy .devSet 0 .rbuf 6 4 with
        cmd := .getDeviceData, devgetNodeid := u.mem .rbuf 2 }
    else u
  u.ethSend env efd .sbuf (2+devSetSize)

def setDevice (u : Ui) (env : ℕ → Handover) (efd : ℤ) : Ui :=
  let u :=
    if u.cmd = .none then
      let u := { u.look .rbuf 2 4 with devsetNodeid := u.mem .rbuf 2, cmd := .setDeviceData }
      let u := u.copy .devSet 0 .rbuf 2 devSetSize
      let u := u.copy .uiDat 0 .rbuf 2 devSetSize
      u.uiUpdateNodecfg
    else u
  (u.reply .setDevice).ethSend env efd .sbuf 2

/-- The data are copied whether or not the command is taken. -/
def setDebug (u : Ui) (env : ℕ → Handover) (efd : ℤ) (len : ℕ) : Ui :=
  let u :=
    if u.cmd = .none then
      { u.look .rbuf 2 1 with cmd := .setDebugData, dbgsetNodeid := u.mem .rbuf 2 }
    else u
  let u := u.copy .uiDat 0 .rbuf 3 (subU32 len 3)
  (u.reply .setDebug).ethSend env efd .sbuf 2

/-- `atb_ui_parse` on the message in `rbuf`. -/
def atbUiParse (u : Ui) (env : ℕ → Handover) (efd : ℤ) (len : ℕ) : Ui :=
  let type := u16 (u.mem .rbuf) 0
  let u := u.look .rbuf 0 2
  match Msg.ofCode type with
  | some .setAtbCfg => u.setAtbCfg env efd
  | some .getAtbCfg => u.getAtbCfg env efd
  | some .getNodeInfo => u.getNodeInfo env efd
  | some .getNodeBasicInfo => u.getNodeBasicInfo env efd
  | some .getResConfig => u.getResConfig env efd
  | some .setResConfig => u.setResConfig env efd
  | some .getAtbSig => u.getAtbSig env efd
  | some .getBps => u.getBps env efd
  | some .getDebug => u.getDebug env efd
  | some .getDevice => u.getDevice env efd
  | some .setDevice => u.setDevice env efd
  | some .setDebug => u.setDebug env efd len
  | some .otaStart => u.otaStart len
  | some .otaData => u.otaData len
  | some .otaEnd => u.otaEnd len
  | some .setNodeName => u
  | none => u

/-- No command waits, no node is known, all memory but the message is zero. -/
def idle (msg : Mem) : Ui where
  mem b := if b = .rbuf then msg else fun _ => 0
  cmd := .none
  sigNodeid := 0
  dbggetNodeid := 0
  dbgsetNodeid := 0
  devgetNodeid := 0
  devsetNodeid := 0
  uiforwardNodeid := 0
  otaFlag := 0
  otaReplyCmd := .none
  otaReplyLen := 0
  otaDataSn := 0
  nodes := []
  systime := 0
  dstmac := [0x66,0x55,0x44,0x33,0x22,0x11]
  log := []
  out := []

end Ui
end HostUi
end Autbus
