import Autbus.Frames
import Mathlib.Data.List.FinRange
import Mathlib.Data.Fintype.Pi

/-! The tables of `resmgr.c`: the resource and node configuration, the record of the
active resources, the lists read from them and the commands that edit them.

`add_trs_res` and `clear_node_config` read a table pointer before it is set. What such a
pointer finds is an argument of the functions here: the table it is meant for, or a byte
somewhere else. -/
namespace Autbus
namespace ResTables

/-- Six MAC bytes, the first one the most significant. -/
abbrev Mac := BitVec 48

def maxConfigNodeCnt : ℕ := 64
def maxResCfgId : ℕ := 254
def maxTrsResCnt : ℕ := 8
def maxRcvResCnt : ℕ := 16

instance nodes_neZero : NeZero 64 := ⟨by decide⟩

instance rcvs_neZero : NeZero 16 := ⟨by decide⟩

def broadcastResId : UInt8 := 0xFF
def unusedResId : UInt8 := 0

def configUnvalid : UInt8 := 0
def configDisable : UInt8 := 1
def configEnable : UInt8 := 2

/-- `res_config_t`. -/
structure ResConfig where
  resid : UInt8
  chan : UInt8
  freq : UInt8
  len : UInt8
  cfgState : UInt8
  send2all : UInt8
  pos : UInt8
  deriving DecidableEq, Inhabited

/-- `node_config_t`. -/
structure NodeConfig where
  mac : Mac
  cfgState : UInt8
  rcvall : UInt8
  trsResId : Fin 8 → UInt8
  rcvResId : Fin 16 → UInt8
  deriving DecidableEq

/-- `resmgr_config_t`. A table of the source has the slots below `maxResCfgId`; the two
ids above it stand for what lies behind the table. -/
structure ResmgrConfig where
  resCfgTbl : UInt8 → ResConfig
  nodeCfgTbl : Fin 64 → NodeConfig

/-- `res_state_t`. -/
structure ResState where
  snode : UInt8
  pos : UInt8
  freq : UInt8
  state : UInt8
  deriving DecidableEq, Inhabited

abbrev ResStateTbl := UInt8 → ResState

/-- `memset` to zero. -/
def zeroRes : ResConfig := ⟨0,0,0,0,0,0,0⟩
def zeroNode : NodeConfig := ⟨0,0,0,fun _ => 0,fun _ => 0⟩
def zeroState : ResState := ⟨0,0,0,0⟩
def emptyConfig : ResmgrConfig := ⟨fun _ => zeroRes,fun _ => zeroNode⟩

/-- `trs_res_data_t`. -/
structure TrsResData where
  resid : UInt8
  chan : UInt8
  freq : UInt8
  pos : UInt8
  len : UInt8
  send2all : UInt8
  deriving DecidableEq

/-- `rcv_res_data_t`. -/
structure RcvResData where
  resid : UInt8
  snode : UInt8
  freq : UInt8
  pos : UInt8
  len : UInt8
  deriving DecidableEq

/-- `del_res_data_t`. -/
structure DelResData where
  resid : UInt8
  freq : UInt8
  pos : UInt8
  len : UInt8
  send2all : UInt8
  deriving DecidableEq

/-- `hcb_fixres_t` with one of its three lists; `rescnt` is the length. -/
structure Fixres (α : Type) where
  snode : UInt8
  res : List α
  deriving DecidableEq

/-- The first entry of the node table that is not invalid and has the MAC. -/
def findNode (cfg : ResmgrConfig) (mac : Mac) : Option (Fin 64) :=
  (List.finRange 64).find? fun i =>
    (cfg.nodeCfgTbl i).cfgState ≠ configUnvalid ∧ (cfg.nodeCfgTbl i).mac = mac

/-- The transmit ids of the node, slot by slot, unused slots left out. -/
def trsIds (nc : NodeConfig) : List UInt8 :=
  ((List.finRange 8).map nc.trsResId).filter (· ≠ unusedResId)

def rcvIds (nc : NodeConfig) : List UInt8 :=
  ((List.finRange 16).map nc.rcvResId).filter (· ≠ unusedResId)

/-- The ids `1 .. MAX_RES_CFG_ID-1` of the loops over the resource table. -/
def tblIds : List UInt8 := (List.range' 1 253).map UInt8.ofNat

def trsEntry (cfg : ResmgrConfig) (tresid : UInt8) : TrsResData :=
  let r := cfg.resCfgTbl tresid
  ⟨r.resid,r.chan,r.freq,r.pos,r.len,r.send2all⟩

def rcvEntry (cfg : ResmgrConfig) (rs : ResStateTbl) (tresid : UInt8) : RcvResData :=
  ⟨(cfg.resCfgTbl tresid).resid,(rs tresid).snode,(rs tresid).freq,(rs tresid).pos,
    (cfg.resCfgTbl tresid).len⟩

def delEntry (cfg : ResmgrConfig) (rs : ResStateTbl) (tresid : UInt8) : DelResData :=
  ⟨tresid,(rs tresid).freq,(rs tresid).pos,(cfg.resCfgTbl tresid).len,
    (cfg.resCfgTbl tresid).send2all⟩

/-- The transmit ids of the node with the MAC. -/
def nodeTrsIds (cfg : ResmgrConfig) (mac : Mac) : List UInt8 :=
  match findNode cfg mac with
  | none => []
  | some i => trsIds (cfg.nodeCfgTbl i)

/-- Those of them whose resource is enabled. -/
def enabledTrs (cfg : ResmgrConfig) (mac : Mac) : List UInt8 :=
  (nodeTrsIds cfg mac).filter fun t => (cfg.resCfgTbl t).cfgState = configEnable

/-- `get_trs_res_config`; the return code is 0 when the list is not empty. -/
def getTrsResConfig (cfg : ResmgrConfig) (mac : Mac) : List TrsResData :=
  (enabledTrs cfg mac).map (trsEntry cfg)

/-- `get_rcv_res_config`: the active resources the node receives, at most 16 of them.
The return code is 0 when the list is not empty. -/
def getRcvResConfig (cfg : ResmgrConfig) (rs : ResStateTbl) (mac : Mac) : List RcvResData :=
  let (rcvall,own) : UInt8 × List UInt8 := match findNode cfg mac with
    | none => (0,[])
    | some i =>
      let nc := cfg.nodeCfgTbl i
      (nc.rcvall,if nc.rcvall ≠ 0 then (tblIds.filter fun t => (rs t).state ≠ 0).take maxRcvResCnt
        else (rcvIds nc).filter fun t => (rs t).state ≠ 0)
  -- a node that receives everything already has the resources sent to all
  let all := if rcvall = 0 then (tblIds.filter fun t =>
      (rs t).state ≠ 0 ∧ (cfg.resCfgTbl t).send2all ≠ 0).take (maxRcvResCnt-own.length) else []
  (own ++ all).map (rcvEntry cfg rs)

/-- `get_del_res_config`: the active resources among the node's transmit ids. -/
def getDelResConfig (cfg : ResmgrConfig) (rs : ResStateTbl) (mac : Mac) : List DelResData :=
  ((nodeTrsIds cfg mac).filter fun t => (rs t).state ≠ 0).map (delEntry cfg rs)

/-- `get_node_res_id`. -/
def getNodeResId (cfg : ResmgrConfig) (mac : Mac) : Option NodeConfig :=
  (findNode cfg mac).map cfg.nodeCfgTbl

/-- `active_res`. -/
def activeRes (cfg : ResmgrConfig) (rs : ResStateTbl) (resid snode freq pos : UInt8) : ResStateTbl :=
  if resid = 0 then rs
  else if (cfg.resCfgTbl resid).cfgState ≠ configEnable then rs
  else Function.update rs resid ⟨snode,pos,freq,1⟩

/-- `deactive_res`. -/
def deactiveRes (rs : ResStateTbl) (resid : UInt8) : ResStateTbl :=
  if resid = 0 then rs else Function.update rs resid {rs resid with state := 0}

/-! ### Edits of the configuration -/

/-- Where a table pointer points that is read before it is set. -/
inductive UnsetPtr
  /-- At the table the function is about. -/
  | table
  /-- Elsewhere; the byte is what it finds in place of a `cfg_state`. -/
  | elsewhere (cfgState : UInt8)
  deriving DecidableEq

/-- The `cfg_state` it reads, `own` being that of the table. -/
def UnsetPtr.reads (own : UInt8) : UnsetPtr → UInt8
  | .table => own
  | .elsewhere cfgState => cfgState

/-- `add_res_config`. -/
def addResConfig (cfg : ResmgrConfig) (resid : UInt8) (res : ResConfig) : ResmgrConfig × ℕ :=
  if resid = 0 then (cfg,1)
  else
    let r := {res with send2all := 0,cfgState := configEnable,resid := resid}
    let prev := cfg.resCfgTbl (resid-1)
    let r := if r.pos ≠ 0 then r
      else if resid = 1 then {r with pos := 4} else {r with pos := prev.pos+prev.len}
    ({cfg with resCfgTbl := Function.update cfg.resCfgTbl resid r},0)

/-- Strike an id off the transmit slots. -/
def dropTrs (resid : UInt8) (nc : NodeConfig) : NodeConfig :=
  {nc with trsResId := fun j => if nc.trsResId j = resid then unusedResId else nc.trsResId j}

/-- Strike an id off the receive slots. -/
def dropRcv (resid : UInt8) (nc : NodeConfig) : NodeConfig :=
  {nc with rcvResId := fun j => if nc.rcvResId j = resid then unusedResId else nc.rcvResId j}

/-- Apply a change to the entries that are not invalid. -/
def onValid (f : NodeConfig → NodeConfig) (nc : NodeConfig) : NodeConfig :=
  if nc.cfgState = configUnvalid then nc else f nc

/-- One round of `clear_node_config`. -/
def clearEntry (nc : NodeConfig) : NodeConfig :=
  if nc.cfgState ≠ configUnvalid ∧ nc.rcvall = 0 ∧ trsIds nc = [] ∧ rcvIds nc = [] then
    {nc with cfgState := configUnvalid} else nc

/-- `clear_node_config`: the scan goes through a pointer that is never set. -/
def clearNodeConfig (pncfg : UnsetPtr) (cfg : ResmgrConfig) : ResmgrConfig :=
  match pncfg with
  | .table => {cfg with nodeCfgTbl := fun i => clearEntry (cfg.nodeCfgTbl i)}
  | .elsewhere _ => cfg

/-- `del_res_config`. -/
def delResConfig (pncfg : UnsetPtr) (cfg : ResmgrConfig) (resid : UInt8) : ResmgrConfig × ℕ :=
  if resid = 0 then (cfg,1)
  else
    let r := {cfg.resCfgTbl resid with cfgState := configUnvalid}
    (clearNodeConfig pncfg
      ⟨Function.update cfg.resCfgTbl resid r,
        fun i => onValid (fun nc => dropRcv resid (dropTrs resid nc)) (cfg.nodeCfgTbl i)⟩,0)

/-- The first slot that holds `v`. -/
def findSlot {n : ℕ} (ids : Fin n → UInt8) (v : UInt8) : Option (Fin n) :=
  (List.finRange n).find? fun j => ids j = v

/-- Put an id into the first unused transmit slot, unless it is there already. -/
def putTrs (resid : UInt8) (nc : NodeConfig) : NodeConfig × ℕ :=
  if (findSlot nc.trsResId resid).isSome then (nc,0)
  else match findSlot nc.trsResId unusedResId with
    | none => (nc,1)
    | some j => ({nc with trsResId := Function.update nc.trsResId j resid},0)

/-- Set `send2all` and see that no node keeps the id as a transmit resource. -/
def strikeTrs (cfg : ResmgrConfig) (resid send2all : UInt8) : ResmgrConfig :=
  ⟨Function.update cfg.resCfgTbl resid
      {cfg.resCfgTbl resid with send2all := if send2all ≠ 0 then 1 else 0},
    fun i => onValid (dropTrs resid) (cfg.nodeCfgTbl i)⟩

/-- The entry for a node that has none yet. -/
def newEntry (resid : UInt8) (mac : Mac) : NodeConfig :=
  {zeroNode with
    mac := mac,trsResId := Function.update zeroNode.trsResId 0 resid,cfgState := configEnable}

/-- File the id under the node's entry, or under a new one in the first invalid place. -/
def fileTrs (cfg : ResmgrConfig) (resid : UInt8) (mac : Mac) : ResmgrConfig × ℕ :=
  match findNode cfg mac with
  | some i =>
    let (nc,ret) := putTrs resid (dropRcv resid (cfg.nodeCfgTbl i))
    ({cfg with nodeCfgTbl := Function.update cfg.nodeCfgTbl i nc},ret)
  | none =>
    match (List.finRange 64).find? fun i => (cfg.nodeCfgTbl i).cfgState = configUnvalid with
    | none => (cfg,2)
    | some i => ({cfg with nodeCfgTbl := Function.update cfg.nodeCfgTbl i (newEntry resid mac)},0)

/-- `add_trs_res`: the first check reads `cfg_state` through a pointer not yet set. -/
def addTrsRes (prescfg : UnsetPtr) (cfg : ResmgrConfig) (resid : UInt8) (mac : Mac)
    (send2all : UInt8) : ResmgrConfig × ℕ :=
  if resid = 0 then (cfg,1)
  else if prescfg.reads (cfg.resCfgTbl resid).cfgState ≠ configEnable then (cfg,1)
  else if (cfg.resCfgTbl resid).cfgState = configUnvalid then (cfg,1)
  else fileTrs (strikeTrs cfg resid send2all) resid mac

/-- Put an id into the first unused receive slot, unless the node sends or receives it
already. -/
def putRcv (resid : UInt8) (nc : NodeConfig) : NodeConfig × ℕ :=
  if resid = broadcastResId then ({nc with rcvall := 1},0)
  else if (findSlot nc.trsResId resid).isSome then (nc,0)
  else if (findSlot nc.rcvResId resid).isSome then (nc,0)
  else match findSlot nc.rcvResId unusedResId with
    | none => (nc,1)
    | some j => ({nc with rcvResId := Function.update nc.rcvResId j resid},0)

/-- The entry for a node that has none yet. -/
def newReceiver (resid : UInt8) (mac : Mac) : NodeConfig :=
  if resid = 0xff then {zeroNode with mac := mac,rcvall := 1,cfgState := configEnable}
  else {zeroNode with
    mac := mac,rcvResId := Function.update zeroNode.rcvResId 0 resid,cfgState := configEnable}

/-- `add_rcv_res`. -/
def addRcvRes (cfg : ResmgrConfig) (resid : UInt8) (mac : Mac) : ResmgrConfig × ℕ :=
  if resid = 0 then (cfg,1)
  else if (cfg.resCfgTbl resid).cfgState ≠ configEnable ∧ resid ≠ broadcastResId then (cfg,1)
  else match findNode cfg mac with
    | some i =>
      let (nc,ret) := putRcv resid (cfg.nodeCfgTbl i)
      ({cfg with nodeCfgTbl := Function.update cfg.nodeCfgTbl i nc},ret)
    | none =>
      match (List.finRange 64).find? fun i => (cfg.nodeCfgTbl i).cfgState = configUnvalid with
      | none => (cfg,2)
      | some i => ({cfg with nodeCfgTbl := Function.update cfg.nodeCfgTbl i (newReceiver resid mac)},0)

/-- `del_trs_res`. -/
def delTrsRes (pncfg : UnsetPtr) (cfg : ResmgrConfig) (resid : UInt8) (mac : Mac) : ResmgrConfig × ℕ :=
  if resid = 0 then (cfg,1)
  else match findNode cfg mac with
    | none => (cfg,1)
    | some i =>
      let nc := cfg.nodeCfgTbl i
      match findSlot nc.trsResId resid with
      | none => (cfg,1)
      | some j =>
        let nc := {nc with trsResId := Function.update nc.trsResId j unusedResId}
        (clearNodeConfig pncfg {cfg with nodeCfgTbl := Function.update cfg.nodeCfgTbl i nc},0)

/-- `del_rcv_res`. -/
def delRcvRes (pncfg : UnsetPtr) (cfg : ResmgrConfig) (resid : UInt8) (mac : Mac) : ResmgrConfig × ℕ :=
  if resid = 0 then (cfg,1)
  else match findNode cfg mac with
    | none => (cfg,1)
    | some i =>
      let nc := cfg.nodeCfgTbl i
      match findSlot nc.rcvResId resid with
      | none => (cfg,1)
      | some j =>
        let nc := {nc with rcvResId := Function.update nc.rcvResId j unusedResId}
        (clearNodeConfig pncfg {cfg with nodeCfgTbl := Function.update cfg.nodeCfgTbl i nc},0)

/-- `del_node_config`: the entry is given up first, then the resources it lists are deleted. -/
def delNodeConfig (pncfg : UnsetPtr) (cfg : ResmgrConfig) (mac : Mac) : ResmgrConfig × ℕ :=
  match findNode cfg mac with
  | none => (cfg,1)
  | some i =>
    let nc := {cfg.nodeCfgTbl i with cfgState := configUnvalid}
    ((List.finRange 8).foldl (fun cfg j =>
      let resid := (cfg.nodeCfgTbl i).trsResId j
      if resid ≠ unusedResId then (delResConfig pncfg cfg resid).1 else cfg)
      {cfg with nodeCfgTbl := Function.update cfg.nodeCfgTbl i nc},0)

end ResTables
end Autbus
