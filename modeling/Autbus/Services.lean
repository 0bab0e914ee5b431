import Autbus.Nodes
import Autbus.SrvRpc

/-! The TN side of `sysres.c`: the services a TN offers to the resource manager, and the
bytes of their messages. A message of the manager holds a `node_config_t` or an
`hcb_fixres_t`; what follows the used part is whatever the sender's buffer held. -/
namespace Autbus
namespace Services

open ResTables Nodes SrvRpc

/-- `TN_RES_STATE_E`. -/
def resNodeOnline : UInt8 := 5
def resNodeCfg : UInt8 := 6

/-- `sysm_context_t` of a TN with the `listenautbus` of its device configuration.
`texts` are the version and name texts of its answer, `bside` the messages
`sysmgr_send` wrote to the B side, in order. -/
structure TnCtx where
  state : UInt8
  nodeid : UInt8
  nodeaddr : UInt8
  mac : Mac
  rcvall : UInt8
  trsResId : Fin 8 → UInt8
  rcvResId : Fin 16 → UInt8
  listenautbus : UInt8
  texts : Fin 80 → UInt8
  bside : List Ctrl

/-! ### Messages -/

def trsBytes (t : TrsResData) : Bytes := [t.resid,t.chan,t.freq,t.pos,t.len,t.send2all]
def rcvBytes (r : RcvResData) : Bytes := [r.resid,r.snode,r.freq,r.pos,r.len]
def delBytes (d : DelResData) : Bytes := [d.resid,d.freq,d.pos,d.len,d.send2all]

def trsAt (b : Bytes) (i : ℕ) : TrsResData :=
  ⟨byteAt b i,byteAt b (i+1),byteAt b (i+2),byteAt b (i+3),byteAt b (i+4),byteAt b (i+5)⟩

def rcvAt (b : Bytes) (i : ℕ) : RcvResData :=
  ⟨byteAt b i,byteAt b (i+1),byteAt b (i+2),byteAt b (i+3),byteAt b (i+4)⟩

def delAt (b : Bytes) (i : ℕ) : DelResData :=
  ⟨byteAt b i,byteAt b (i+1),byteAt b (i+2),byteAt b (i+3),byteAt b (i+4)⟩

/-- `hcb_fixres_t`: the count, the source node, the entries. -/
def fixresBytes {α : Type} (entry : α → Bytes) (x : Fixres α) : Bytes :=
  UInt8.ofNat x.res.length::x.snode::x.res.flatMap entry

/-- The entries a service reads, `size` bytes each. -/
def fixresOf {α : Type} (size : ℕ) (entryAt : Bytes → ℕ → α) (b : Bytes) : Fixres α :=
  ⟨byteAt b 1,(List.range (byteAt b 0).toNat).map fun i => entryAt b (2+size*i)⟩

/-- The six bytes of a MAC. -/
def macBytes (mac : Mac) : Bytes :=
  (List.range 6).map fun i => UInt8.ofBitVec ((mac >>> (8*(5-i))).setWidth 8)

def macAt (b : Bytes) (i : ℕ) : Mac :=
  (List.range 6).foldl (fun m j => m <<< 8 ||| (byteAt b (i+j)).toBitVec.setWidth 48) 0

/-- `node_config_t`. -/
def nodeBytes (nc : NodeConfig) : Bytes :=
  macBytes nc.mac ++ nc.cfgState::nc.rcvall::(List.ofFn nc.trsResId ++ List.ofFn nc.rcvResId)

def nodeOf (b : Bytes) : NodeConfig :=
  ⟨macAt b 0,byteAt b 6,byteAt b 7,fun j => byteAt b (8+j),fun j => byteAt b (16+j)⟩

/-- What the manager puts into an `r` message behind the request. -/
def payloadBytes : Payload → Bytes
  | .resId nc => nodeBytes nc
  | .rcv res => fixresBytes rcvBytes res
  | .trs res => fixresBytes trsBytes res
  | .del res => fixresBytes delBytes res

/-! ### The services -/

/-- The TN's own check whether it receives a resource: at most one message a resource. -/
def tnReceives (ctx : TnCtx) (resid send2all : UInt8) (m : Ctrl) : List Ctrl :=
  if ctx.rcvall ≠ 0 ∨ send2all ≠ 0 then [m]
  else if (findSlot ctx.rcvResId resid).isSome then [m] else []

/-- The messages of `sysres_srv_add_trs_res`. -/
def addTrsMsgs (ctx : TnCtx) (res : Fixres TrsResData) : List Ctrl :=
  res.res.flatMap fun t =>
    if res.snode = ctx.nodeid then
      if (findSlot ctx.trsResId t.resid).isSome then [.addTrs t.chan t.freq t.pos t.len] else []
    else tnReceives ctx t.resid t.send2all (.addRcv res.snode t.freq t.pos t.len)

/-- The messages of `sysres_srv_del_res`. Neither branch sets the first byte of its
message; `stack` is what the buffer holds there. -/
def delMsgs (stack : UInt8) (ctx : TnCtx) (res : Fixres DelResData) : List Ctrl :=
  res.res.flatMap fun d =>
    if res.snode = ctx.nodeid then
      if (findSlot ctx.trsResId d.resid).isSome then [.delTrs stack d.freq d.pos d.len] else []
    else tnReceives ctx d.resid d.send2all (.delRcv stack d.freq d.pos d.len)

def addRcvMsgs (res : Fixres RcvResData) : List Ctrl :=
  res.res.map fun r => .addRcv r.snode r.freq r.pos r.len

/-- A service that does nothing before the TN is configured, and else answers with the
node id and sends messages to the B side. -/
def configured (msgs : TnCtx → Bytes → List Ctrl) : Service TnCtx := fun _ ctx _ ibuf =>
  if ctx.state ≠ resNodeCfg then (ctx,[])
  else ({ctx with bside := ctx.bside ++ msgs ctx ibuf},[[ctx.nodeid]])

/-- `sysres_srv_add_trs_res`. -/
def sysresSrvAddTrsRes : Service TnCtx :=
  configured fun ctx ibuf => addTrsMsgs ctx (fixresOf 6 trsAt ibuf)

/-- `sysres_srv_del_res`. -/
def sysresSrvDelRes (stack : UInt8) : Service TnCtx :=
  configured fun ctx ibuf => delMsgs stack ctx (fixresOf 5 delAt ibuf)

/-- `sysres_srv_add_rcv_res`. -/
def sysresSrvAddRcvRes : Service TnCtx :=
  configured fun _ ibuf => addRcvMsgs (fixresOf 5 rcvAt ibuf)

/-- The MAC in a `0x12` message to a node without a configuration. -/
def noConfigMac : Mac := 0x666666666666#48

/-- The answer of `sysres_srv_add_res_id`. -/
def resIdAnswer (ctx : TnCtx) : Bytes :=
  ctx.nodeid::ctx.nodeaddr::(List.ofFn ctx.texts ++ [ctx.listenautbus,0])

/-- The part of the context `sysres_srv_add_res_id` takes over. What the message says
about `rcvall` is overwritten by the TN's own listen switch. -/
def takeConfig (ctx : TnCtx) (pncfg : NodeConfig) : TnCtx :=
  if ctx.mac ≠ pncfg.mac then
    {ctx with rcvall := 0,rcvResId := fun _ => 0,trsResId := fun _ => 0,state := resNodeCfg}
  else
    {ctx with
      rcvall := if ctx.listenautbus = 0x77 then 1 else 0,
      rcvResId := pncfg.rcvResId,trsResId := pncfg.trsResId,state := resNodeCfg}

/-- `sysres_srv_add_res_id`. -/
def sysresSrvAddResId : Service TnCtx := fun _ ctx _ ibuf =>
  let pncfg := nodeOf ibuf
  if ctx.mac ≠ pncfg.mac ∧ noConfigMac ≠ pncfg.mac then (ctx,[])
  else (takeConfig ctx pncfg,[resIdAnswer ctx])

/-- The services of a TN that the resource manager calls. -/
def tnServices (stack : UInt8) : List (BitVec 32 × Service TnCtx) :=
  [(0x15,sysresSrvDelRes stack),(0x14,sysresSrvAddRcvRes),(0x13,sysresSrvAddTrsRes),
    (0x12,sysresSrvAddResId)]

/-! ### A service of the CN -/

/-- What `sysres_srv_tn_info` keeps of a TN. -/
structure TnReport where
  nindx : UInt8
  sigerr : UInt8
  report : UInt8
  deriving DecidableEq

structure CnCtx where
  nodeid : UInt8
  uiforwardNodeid : UInt8
  ncn : List TnReport
  deriving DecidableEq

/-- `sysres_srv_tn_info`. The answer is four bytes of the stack. -/
def sysresSrvTnInfo (stack : Bytes) : Service CnCtx := fun srcnd ctx ilen ibuf =>
  if ilen > 1300 then (ctx,[])
  else
    let put := fun pnd : TnReport =>
      if pnd.nindx = byteAt ibuf 0 then {pnd with sigerr := byteAt ibuf 1,report := byteAt ibuf 2} else pnd
    ({ctx with
      uiforwardNodeid := srcnd,
      ncn := if ctx.nodeid = 0 then ctx.ncn.map put else ctx.ncn},[stack.take 4])

/-! ### What is written is what is read -/

@[simp] theorem byteAt_append_add (a b : Bytes) (i : ℕ) : byteAt (a ++ b) (a.length+i) = byteAt b i := by
  rw [byteAt,byteAt,List.getD_eq_getElem?_getD,List.getElem?_append_right (Nat.le_add_right _ _),
    Nat.add_sub_cancel_left,List.getD_eq_getElem?_getD]

@[simp] theorem byteAt_append (a b : Bytes) : byteAt (a ++ b) a.length = byteAt b 0 :=
  byteAt_append_add a b 0

/-- Entries of one size are found at multiples of it. -/
theorem entries_at {α : Type} {size : ℕ} {entry : α → Bytes} {entryAt : Bytes → ℕ → α}
    (hsize : ∀ x, (entry x).length = size)
    (hat : ∀ x a b, entryAt (a ++ (entry x ++ b)) a.length = x) (xs : List α) (pre rest : Bytes) :
    ((List.range xs.length).map fun i => entryAt (pre ++ (xs.flatMap entry ++ rest)) (pre.length+size*i)) =
      xs := by
  induction xs generalizing pre with
  | nil => rfl
  | cons x xs ih =>
    rw [List.length_cons,List.range_succ_eq_map,List.map_cons,List.map_map]
    have hx : entryAt (pre ++ ((x::xs).flatMap entry ++ rest)) (pre.length+size*0) = x := by
      rw [List.flatMap_cons,List.append_assoc]
      exact hat x pre _
    have hxs := ih (pre ++ entry x)
    rw [hx]
    congr 1
    refine Eq.trans ?_ hxs
    apply List.map_congr_left
    intro i _
    simp only [Function.comp_apply,List.flatMap_cons,List.append_assoc,List.length_append,hsize]
    congr 1
    rw [Nat.mul_succ]
    omega

theorem fixresOf_bytes {α : Type} {size : ℕ} {entry : α → Bytes} {entryAt : Bytes → ℕ → α}
    (hsize : ∀ x, (entry x).length = size)
    (hat : ∀ x a b, entryAt (a ++ (entry x ++ b)) a.length = x) (x : Fixres α) (rest : Bytes)
    (hlen : x.res.length < 256) : fixresOf size entryAt (fixresBytes entry x ++ rest) = x := by
  have hcnt : (UInt8.ofNat x.res.length).toNat = x.res.length := by
    rw [UInt8.toNat_ofNat']
    exact Nat.mod_eq_of_lt hlen
  have hent := entries_at hsize hat x.res [UInt8.ofNat x.res.length,x.snode] rest
  rw [fixresOf,fixresBytes]
  change Fixres.mk x.snode ((List.range (UInt8.ofNat x.res.length).toNat).map _) = x
  rw [hcnt]
  exact congrArg (Fixres.mk x.snode) hent

theorem fixresOf_trs (x : Fixres TrsResData) (rest : Bytes) (hlen : x.res.length < 256) :
    fixresOf 6 trsAt (payloadBytes (.trs x) ++ rest) = x := by
  have hsize : ∀ y, (trsBytes y).length = 6 := fun _ => rfl
  have hat : ∀ y a b, trsAt (a ++ (trsBytes y ++ b)) a.length = y := by
    intro y a b
    simp only [trsAt,byteAt_append,byteAt_append_add]
    rfl
  exact fixresOf_bytes hsize hat x rest hlen

theorem fixresOf_rcv (x : Fixres RcvResData) (rest : Bytes) (hlen : x.res.length < 256) :
    fixresOf 5 rcvAt (payloadBytes (.rcv x) ++ rest) = x := by
  have hsize : ∀ y, (rcvBytes y).length = 5 := fun _ => rfl
  have hat : ∀ y a b, rcvAt (a ++ (rcvBytes y ++ b)) a.length = y := by
    intro y a b
    simp only [rcvAt,byteAt_append,byteAt_append_add]
    rfl
  exact fixresOf_bytes hsize hat x rest hlen

theorem fixresOf_del (x : Fixres DelResData) (rest : Bytes) (hlen : x.res.length < 256) :
    fixresOf 5 delAt (payloadBytes (.del x) ++ rest) = x := by
  have hsize : ∀ y, (delBytes y).length = 5 := fun _ => rfl
  have hat : ∀ y a b, delAt (a ++ (delBytes y ++ b)) a.length = y := by
    intro y a b
    simp only [delAt,byteAt_append,byteAt_append_add]
    rfl
  exact fixresOf_bytes hsize hat x rest hlen

theorem macAt_bytes (mac : Mac) (rest : Bytes) : macAt (macBytes mac ++ rest) 0 = mac := by
  have hmac : macAt (macBytes mac ++ rest) 0 =
      (List.range 6).foldl
        (fun (m : Mac) j => m <<< 8 ||| ((mac >>> (8*(5-j))).setWidth 8).setWidth 48) 0 := rfl
  apply BitVec.eq_of_getLsbD_eq
  intro i hi
  simp only [hmac,List.range_succ,List.range_zero,List.nil_append,List.cons_append,List.foldl_cons,
    List.foldl_nil,BitVec.getLsbD_or,BitVec.getLsbD_shiftLeft,BitVec.getLsbD_setWidth,
    BitVec.getLsbD_ushiftRight,BitVec.ofNat_eq_ofNat,BitVec.getLsbD_zero]
  interval_cases i <;> simp

theorem byteAt_ofFn {n : ℕ} (f : Fin n → UInt8) (rest : Bytes) (j : Fin n) :
    byteAt (List.ofFn f ++ rest) j = f j := by
  rw [byteAt,List.getD_eq_getElem?_getD,List.getElem?_append_left (by simp),List.getElem?_ofFn]
  simp

theorem nodeOf_bytes (nc : NodeConfig) (rest : Bytes) :
    nodeOf (payloadBytes (.resId nc) ++ rest) = nc := by
  change nodeOf (nodeBytes nc ++ rest) = nc
  have hsplit : nodeBytes nc ++ rest = macBytes nc.mac ++ ([nc.cfgState,nc.rcvall] ++
      (List.ofFn nc.trsResId ++ (List.ofFn nc.rcvResId ++ rest))) := by
    simp [nodeBytes]
  have hmac : (macBytes nc.mac).length = 6 := rfl
  have hat : ∀ i, byteAt (nodeBytes nc ++ rest) (6+i) = byteAt ([nc.cfgState,nc.rcvall] ++
      (List.ofFn nc.trsResId ++ (List.ofFn nc.rcvResId ++ rest))) i := by
    intro i
    rw [hsplit,← hmac,byteAt_append_add]
  have hlist : ∀ i, byteAt (nodeBytes nc ++ rest) (8+i) =
      byteAt (List.ofFn nc.trsResId ++ (List.ofFn nc.rcvResId ++ rest)) i := by
    intro i
    rw [show 8+i = 6+(2+i) by omega,hat]
    exact byteAt_append_add [nc.cfgState,nc.rcvall] _ i
  have htrs : ∀ j : Fin 8, byteAt (nodeBytes nc ++ rest) (8+j) = nc.trsResId j := by
    intro j
    rw [hlist,byteAt_ofFn]
  have hrcv : ∀ j : Fin 16, byteAt (nodeBytes nc ++ rest) (16+j) = nc.rcvResId j := by
    intro j
    have hlen : (List.ofFn nc.trsResId).length = 8 := List.length_ofFn
    have hskip := byteAt_append_add (List.ofFn nc.trsResId) (List.ofFn nc.rcvResId ++ rest) j
    rw [hlen] at hskip
    rw [show 16+j.val = 8+(8+j.val) by omega,hlist,hskip,byteAt_ofFn]
  have hm : macAt (nodeBytes nc ++ rest) 0 = nc.mac := by
    rw [hsplit]
    exact macAt_bytes nc.mac _
  rw [nodeOf,hm,hat 0,hat 1]
  simp only [htrs,hrcv]
  rfl

end Services
end Autbus
