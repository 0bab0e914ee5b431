import Autbus.ResTables

/-! The CN side of `sysres.c`: the list of node records, the acknowledgement bits of a
broadcast, and the functions that carry a node through its join and its departure. Each
function takes the record it works on by value and returns what it changes. -/
namespace Autbus
namespace Nodes

open Cells Frames ResTables

/-- `RES_STAGE_E`. -/
inductive ResStage
  | init | downloadResId | waitAck | addRcvRes | addTrsRes | addFinish | fail | delRes | delFinish
  deriving DecidableEq

/-- `node_info_t`, without the texts, times and reports that only the displays read. -/
structure NodeInfo where
  role : UInt8
  nindx : UInt8
  mac : Mac
  state : ResStage
  online : Bool
  offline : Bool
  lostcnt : UInt8
  deriving DecidableEq

/-- `pre_res_config_t`. -/
structure PreRes where
  num : UInt8
  chan : UInt8
  freq : UInt8
  len : UInt8
  state : UInt8
  deriving DecidableEq

/-- `ack_flag`: one bit for each node id. -/
abbrev AckFlag := Rows 8 32

/-- The CN's data. `rcvall`, `trsResId`, `rcvResId` and `mac` are those of its `pctx`. -/
structure Cn where
  cfg : ResmgrConfig
  resState : ResStateTbl
  resfrm : ResFrm
  ackFlag : AckFlag
  ncn : List NodeInfo
  reqSessn : BitVec 32
  resHold : Fin 32 → UInt8
  preRes : PreRes
  mac : Mac
  rcvall : UInt8
  trsResId : Fin 8 → UInt8
  rcvResId : Fin 16 → UInt8

/-- Control messages to the B side: `hcb_trs_fixres` and `hcb_rcv_fixres` under their
message types. -/
inductive Ctrl
  | addTrs (chan freq pos len : UInt8)
  | delTrs (chan freq pos len : UInt8)
  | addRcv (snode freq pos len : UInt8)
  | delRcv (snode freq pos len : UInt8)
  | commit
  deriving DecidableEq

/-- The callbacks a request is bound to; `other` stands for those that touch no node
record. -/
inductive Cbk
  | resId | addRcv | addTrs | delRes | other
  deriving DecidableEq

/-- `rpc_req_t`. `parg` is the position of the node record in the list; `armed` tells
whether the retry timer runs. -/
structure Request where
  dstnd : UInt8
  srvid : BitVec 32
  sessn : BitVec 32
  cbkf : Cbk
  parg : ℕ
  retry : ℤ
  armed : Bool
  deriving DecidableEq

/-- What follows the request in an `r` message. -/
inductive Payload
  | resId (nc : NodeConfig)
  | rcv (res : Fixres RcvResData)
  | trs (res : Fixres TrsResData)
  | del (res : Fixres DelResData)

/-! ### Acknowledgement bits -/

def initAckFlag : AckFlag := fun _ => 0

def setBit (f : AckFlag) (nid : UInt8) : AckFlag :=
  setIn (fun i => i.val = nid.toNat / 32) (1#32 <<< (nid.toNat % 32)) f

def clearBit (f : AckFlag) (nid : UInt8) : AckFlag :=
  clearIn (fun i => i.val = nid.toNat / 32) (1#32 <<< (nid.toNat % 32)) f

/-- `is_ack_zero`: all words ored together. -/
def isAckZero (f : AckFlag) : BitVec 32 := (List.finRange 8).foldl (fun t i => t ||| f i) 0

/-- The TNs a broadcast waits for. -/
def awaited (pnd : NodeInfo) : Bool :=
  0 < pnd.nindx ∧ pnd.offline = false ∧ pnd.state = .addFinish

/-- The bits set before a broadcast. -/
def broadcastFlags (ncn : List NodeInfo) : AckFlag :=
  ncn.foldl (fun f pnd => if awaited pnd then setBit f pnd.nindx else f) initAckFlag

/-! ### Requests -/

/-- `rpc_request_create` and `rpc_request_set_callbk`. -/
def rpcRequestCreate (cn : Cn) (dnode : UInt8) (srvid : BitVec 32) (cbkf : Cbk) (parg : ℕ) :
    Cn × Request :=
  ({cn with reqSessn := cn.reqSessn+1},⟨dnode,srvid,cn.reqSessn,cbkf,parg,3,false⟩)

/-- What a function of the manager leaves: the data, the new state of the node record
when it sets one, and the messages it hands to `send_message`. -/
structure Action where
  cn : Cn
  state : Option ResStage
  ctrl : List Ctrl
  req : Option (Request × Payload)

/-- `res_download_res_id`. -/
def resDownloadResId (cn : Cn) (pnd : NodeInfo) (k : ℕ) : Action :=
  let pncfg := (getNodeResId cn.cfg pnd.mac).getD {zeroNode with mac := 0x666666666666#48}
  let (cn,irpc) := rpcRequestCreate cn pnd.nindx 0x12 .resId k
  ⟨cn,none,[],some (irpc,.resId pncfg)⟩

/-- `res_add_rcv_res`. -/
def resAddRcvRes (cn : Cn) (pnd : NodeInfo) (k : ℕ) : Action :=
  let res := getRcvResConfig cn.cfg cn.resState pnd.mac
  if res = [] then ⟨cn,some .addTrsRes,[],none⟩
  else
    let (cn,irpc) := rpcRequestCreate cn pnd.nindx 0x14 .addRcv k
    ⟨cn,none,[],some (irpc,.rcv ⟨0,res⟩)⟩

/-- Give one transmit resource its place: the configured one, or a new one from the
bitmap when none is configured. -/
def placeOne (frm : ResFrm) (t : TrsResData) : ResFrm × Option TrsResData :=
  if t.pos ≠ 0 then (frm,some t)
  else
    let a := resfrmAlloc frm t.freq t.len
    if a.iret ≠ 0 then (a.frm,none)
    else (a.frm,a.out.map fun o => {t with freq := o.1,pos := o.2})

/-- What the allocation loop leaves: the resources it placed, and whether it got to
the end of the list. -/
structure Placed where
  resState : ResStateTbl
  resfrm : ResFrm
  res : List TrsResData
  ok : Bool

/-- The allocation loop of `res_add_cn` and `res_add_trs_res`. -/
def placeTrs (cfg : ResmgrConfig) (nindx : UInt8) : ResStateTbl → ResFrm → List TrsResData → Placed
  | rs, frm, [] => ⟨rs,frm,[],true⟩
  | rs, frm, t::ts =>
    match placeOne frm t with
    | (frm,none) => ⟨rs,frm,[],false⟩
    | (frm,some t) =>
      let p := placeTrs cfg nindx (activeRes cfg rs t.resid nindx t.freq t.pos) frm ts
      {p with res := t::p.res}

/-- The CN's own check whether it receives a resource: once when it receives everything
or the resource is sent to all, else once for every receive slot with the id. -/
def cnReceives (cn : Cn) (resid send2all : UInt8) (m : Ctrl) : List Ctrl :=
  if cn.rcvall ≠ 0 ∨ send2all ≠ 0 then [m]
  else ((List.finRange 16).filter fun j => cn.rcvResId j = resid).map fun _ => m

/-- `res_add_trs_res`. -/
def resAddTrsRes (cn : Cn) (pnd : NodeInfo) (k : ℕ) : Action :=
  let trs := getTrsResConfig cn.cfg pnd.mac
  if trs = [] then ⟨cn,some .addFinish,[],none⟩
  else
    let p := placeTrs cn.cfg pnd.nindx cn.resState cn.resfrm trs
    let cn := {cn with resState := p.resState,resfrm := p.resfrm}
    if !p.ok then ⟨cn,some .addFinish,[],none⟩
    else
      let ctrl := p.res.flatMap fun t =>
        cnReceives cn t.resid t.send2all (.addRcv pnd.nindx t.freq t.pos t.len)
      let cn := {cn with ackFlag := broadcastFlags cn.ncn}
      let (cn,irpc) := rpcRequestCreate cn 0xFF 0x13 .addTrs k
      ⟨cn,none,ctrl,some (irpc,.trs ⟨pnd.nindx,p.res⟩)⟩

/-- The release loop of `res_delete_node`. -/
def releaseDel (rs : ResStateTbl) (frm : ResFrm) : List DelResData → ResStateTbl × ResFrm
  | [] => (rs,frm)
  | d::ds => releaseDel (deactiveRes rs d.resid) (resfrmFree frm d.freq d.pos d.len) ds

/-- `res_delete_node`. -/
def resDeleteNode (cn : Cn) (pnd : NodeInfo) (k : ℕ) : Action :=
  let del := getDelResConfig cn.cfg cn.resState pnd.mac
  if del = [] then ⟨cn,some .delFinish,[],none⟩
  else
    let (rs,frm) := releaseDel cn.resState cn.resfrm del
    let cn := {cn with resState := rs,resfrm := frm}
    let ctrl := del.flatMap fun d =>
      cnReceives cn d.resid d.send2all (.delRcv pnd.nindx d.freq d.pos d.len)
    let cn := {cn with ackFlag := broadcastFlags cn.ncn}
    if isAckZero cn.ackFlag = 0 then ⟨cn,some .delFinish,ctrl,none⟩
    else
      let (cn,irpc) := rpcRequestCreate cn 0xFF 0x15 .delRes k
      ⟨cn,none,ctrl,some (irpc,.del ⟨pnd.nindx,del⟩)⟩

/-- `res_add_cn`. -/
def resAddCn (cn : Cn) (pnd : NodeInfo) : Action :=
  match getNodeResId cn.cfg pnd.mac with
  | none => ⟨cn,some .addFinish,[],none⟩
  | some nc =>
    let cn := {cn with rcvall := nc.rcvall,trsResId := nc.trsResId,rcvResId := nc.rcvResId}
    let rcv := (getRcvResConfig cn.cfg cn.resState pnd.mac).map fun r =>
      Ctrl.addRcv r.snode r.freq r.pos r.len
    let p := placeTrs cn.cfg pnd.nindx cn.resState cn.resfrm (getTrsResConfig cn.cfg pnd.mac)
    let trs := (p.res.filter fun t => (findSlot cn.trsResId t.resid).isSome).map fun t =>
      Ctrl.addTrs t.chan t.freq t.pos t.len
    ⟨{cn with resState := p.resState,resfrm := p.resfrm},none,rcv ++ trs,none⟩

/-! ### Reports from the network -/

/-- `config_cn_res`: the preset resources, numbered from 1. -/
def configCnRes (cfg : ResmgrConfig) (pre : PreRes) : ResmgrConfig :=
  if pre.num = 0 then cfg
  else
    let res : ResConfig := ⟨0,pre.chan,pre.freq,pre.len,0,0,0⟩
    (List.range (pre.num.toNat-1)).foldl
      (fun cfg i => (addResConfig cfg (UInt8.ofNat (2+i)) res).1) (addResConfig cfg 1 res).1

/-- `res_new_cn`; `ok` is the outcome of the allocation. -/
def resNewCn (ok : Bool) (ptr : UnsetPtr) (cn : Cn) : Cn :=
  if !ok then cn
  else
    let cn := if cn.preRes.state ≠ 1 then cn
      else {cn with
        cfg := (addTrsRes ptr (configCnRes cn.cfg cn.preRes) 1 cn.mac 1).1,resHold := fun _ => 0}
    {cn with ncn := cn.ncn ++ [⟨0,0,cn.mac,.init,true,false,0⟩]}

/-- The preset branch of `res_new_tn`: hold a free slot and make its resource the
node's transmit resource. -/
def holdSlot (ptr : UnsetPtr) (nindx : UInt8) (mac : Mac) (cn : Cn) : Cn :=
  match (List.finRange 32).find? fun i => cn.resHold i = 0 with
  | none => cn
  | some i => {cn with
      resHold := Function.update cn.resHold i nindx,
      cfg := (addTrsRes ptr cn.cfg (UInt8.ofNat (i.val+2)) mac 1).1}

/-- The record of a node that is reported again. -/
def renew (nindx : UInt8) (mac : Mac) (pnd : NodeInfo) : NodeInfo :=
  {pnd with
    state := if pnd.state = .delFinish then .init else pnd.state,
    role := 2,nindx := nindx,online := true,mac := mac}

/-- `res_new_tn`; `ok` is the outcome of the allocation of a new record. -/
def resNewTn (ok : Bool) (ptr : UnsetPtr) (nindx : UInt8) (mac : Mac) (cn : Cn) : Cn :=
  let cn := if cn.preRes.state = 1 then holdSlot ptr nindx mac cn else cn
  match cn.ncn.findIdx? fun pnd => pnd.mac = mac with
  | some k => {cn with ncn := cn.ncn.modify k (renew nindx mac)}
  | none => if !ok then cn else {cn with ncn := cn.ncn ++ [⟨2,nindx,mac,.init,true,false,0⟩]}

/-- The record of a node that is reported lost. -/
def lose (pnd : NodeInfo) : NodeInfo := {pnd with offline := true,lostcnt := pnd.lostcnt+1}

/-- `res_delete_tn`: the MAC of the report is not looked at. -/
def resDeleteTn (nid : UInt8) (cn : Cn) : Cn :=
  match cn.ncn.findIdx? fun pnd => pnd.nindx = nid with
  | none => cn
  | some k => {cn with
      ncn := cn.ncn.modify k lose,
      ackFlag := clearBit cn.ackFlag nid,
      resHold := fun i => if cn.resHold i = nid then 0 else cn.resHold i}

/-! ### Callbacks -/

/-- Set the state of the record at position `k`. -/
def setState (k : ℕ) (st : ResStage) (cn : Cn) : Cn :=
  {cn with ncn := cn.ncn.modify k fun pnd => {pnd with state := st}}

/-- `res_id_rpc_cbk`; `ibuf` is the first byte of the answer, `none` for a null pointer. -/
def resIdRpcCbk (k : ℕ) (ibuf : Option UInt8) (cn : Cn) : Cn × ℕ :=
  match ibuf with
  | none => (setState k .fail cn,1)
  | some _ => (setState k .addRcvRes cn,0)

/-- `res_add_rcv_rpc_cbk`. -/
def resAddRcvRpcCbk (k : ℕ) (ibuf : Option UInt8) (cn : Cn) : Cn × ℕ :=
  match ibuf with
  | none => (setState k .fail cn,1)
  | some _ => (setState k .addTrsRes cn,0)

/-- The two broadcast callbacks end the same way: done once no bit is left. -/
def finishBroadcast (k : ℕ) (done : ResStage) (cn : Cn) : Cn × ℕ :=
  if isAckZero cn.ackFlag = 0 then (setState k done cn,0) else (cn,1)

/-- A broadcast that gets no answer fails while bits are left. -/
def failBroadcast (k : ℕ) (cn : Cn) : Cn :=
  if isAckZero cn.ackFlag ≠ 0 then setState k .fail cn else cn

/-- `res_add_trs_rpc_cbk`: an empty answer counts as none. -/
def resAddTrsRpcCbk (k ilen : ℕ) (ibuf : Option UInt8) (cn : Cn) : Cn × ℕ :=
  finishBroadcast k .addFinish <| match ibuf with
    | some b => if ilen ≠ 0 then {cn with ackFlag := clearBit cn.ackFlag b} else failBroadcast k cn
    | none => failBroadcast k cn

/-- `res_del_res_rpc_cbk`. -/
def resDelResRpcCbk (k : ℕ) (ibuf : Option UInt8) (cn : Cn) : Cn × ℕ :=
  finishBroadcast k .delFinish <| match ibuf with
    | some b => {cn with ackFlag := clearBit cn.ackFlag b}
    | none => failBroadcast k cn

/-- Call the callback of a request. -/
def callCbk (q : Request) (ilen : ℕ) (ibuf : Option UInt8) (cn : Cn) : Cn × ℕ :=
  match q.cbkf with
  | .resId => resIdRpcCbk q.parg ibuf cn
  | .addRcv => resAddRcvRpcCbk q.parg ibuf cn
  | .addTrs => resAddTrsRpcCbk q.parg ilen ibuf cn
  | .delRes => resDelResRpcCbk q.parg ibuf cn
  | .other => (cn,0)

end Nodes
end Autbus
