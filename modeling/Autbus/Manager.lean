import Autbus.Trace
import Autbus.Nodes
import Autbus.SrvRpc

/-! The resource manager of the CN as a whole: the loop of `entry_resmgr`, the message
queue to the other thread, the requests with their timers, and the reports from the B
side. One event is one round of the loop, or one thing the other thread does. -/
namespace Autbus
namespace Manager

open ResTables Nodes Trace
open SrvRpc (Send)

/-- `NODE_STAGE_E`; `boot` is the first loop, which waits for the CN. -/
inductive Stage
  | boot | idle | online | offline
  deriving DecidableEq

/-- A message in `/mesg/resmsg`. -/
inductive Msg
  | c (m : Ctrl)
  | r (q : Request) (p : Payload)

/-- `cur` is the position of `pnd` in the list, `reqs` is `req_list`. -/
structure Sys where
  cn : Cn
  stage : Stage
  cur : ℕ
  pushflg : Bool
  queue : List Msg
  reqs : List Request

/-- The outcomes in one round of the manager: the allocation of a request, the writes of
its control messages and of its `r` message. -/
structure Env where
  create : Bool
  cWrite : ℕ → Bool
  rWrite : Bool

/-- The outcomes in `rpc_request_send`: of `malloc`, of the packet, of `timer_create`. -/
structure SendEnv where
  malloc : Bool
  net : Send
  timer : Bool

/-! ### The manager's rounds -/

/-- The control messages that `send_message` gets through. -/
def written (env : Env) (ms : List Ctrl) : List Msg :=
  (ms.zipIdx.filter fun x => env.cWrite x.2).map fun x => .c x.1

/-- Carry out what a function of the manager asked for at record `k`. `rpc_request_create`
fills in its block without a check, so a failed allocation is a fault: the run ends. -/
def perform (env : Env) (k : ℕ) (s : Sys) (a : Action) : Option Sys :=
  let cn := match a.state with
    | none => a.cn
    | some st => setState k st a.cn
  match a.req with
  | none => some {s with cn := cn,queue := s.queue ++ written env a.ctrl}
  | some (q,p) =>
    if !env.create then none
    else some {s with
      cn := cn,
      queue := s.queue ++ written env a.ctrl ++ if env.rWrite then [.r q p] else []}

/-- Set `CFG_NODE_WAIT_ACK`, then call one of the functions for the record. -/
def await (env : Env) (f : Cn → NodeInfo → ℕ → Action) (pnd : NodeInfo) (s : Sys) : Option Sys :=
  let cn := setState s.cur .waitAck s.cn
  perform env s.cur {s with cn := cn} (f cn {pnd with state := .waitAck} s.cur)

/-- The record is down: it has not joined, or has left. -/
def isDown (pnd : NodeInfo) : Bool := pnd.state = .init ∨ pnd.state = .delFinish

/-- A record the idle manager starts a join with. -/
def joins (pnd : NodeInfo) : Bool := pnd.role ≠ 0 ∧ isDown pnd ∧ pnd.online

/-- A record the idle manager starts a departure with. -/
def leaves (pnd : NodeInfo) : Bool := pnd.role ≠ 0 ∧ ¬isDown pnd ∧ pnd.offline

/-- Change the record at position `k`. -/
def update (k : ℕ) (f : NodeInfo → NodeInfo) (s : Sys) : Sys :=
  {s with cn := {s.cn with ncn := s.cn.ncn.modify k f}}

/-- A round of the first loop. -/
def bootRound (env : Env) (s : Sys) : Option Sys :=
  match s.cn.ncn.findIdx? fun pnd => pnd.role = 0 ∧ pnd.online with
  | none => some s
  | some k =>
    let s := update k (fun pnd => {pnd with online := false,state := .addFinish}) s
    match s.cn.ncn[k]? with
    | none => some s
    | some pnd => (perform env k s (resAddCn s.cn pnd)).map fun s => {s with stage := .idle,pushflg := false}

/-- The scan of the idle manager. -/
def idleRound (env : Env) (s : Sys) : Sys :=
  match s.cn.ncn.findIdx? fun pnd => joins pnd || leaves pnd with
  | some k =>
    if (s.cn.ncn[k]?).any joins then
      {update k (fun pnd => {pnd with online := false,state := .downloadResId}) s with
        stage := .online,cur := k}
    else
      {update k (fun pnd => {pnd with offline := false,state := .delRes}) s with
        stage := .offline,cur := k}
  | none =>
    if s.pushflg then
      {s with pushflg := false,queue := s.queue ++ written env [.commit]}
    else s

def onlineRound (env : Env) (pnd : NodeInfo) (s : Sys) : Option Sys :=
  match pnd.state with
  | .downloadResId => await env resDownloadResId pnd s
  | .addRcvRes => await env resAddRcvRes pnd s
  | .addTrsRes => await env resAddTrsRes pnd s
  | .addFinish => some {s with pushflg := true,stage := .idle}
  | .fail => some {s with stage := .idle}
  | _ => some s

def offlineRound (env : Env) (pnd : NodeInfo) (s : Sys) : Option Sys :=
  match pnd.state with
  | .delRes => await env resDeleteNode pnd s
  | .delFinish => some {s with pushflg := true,stage := .idle}
  | .fail => some {s with stage := .idle}
  | _ => some s

/-- One round of `entry_resmgr`. -/
def managerRound (env : Env) (s : Sys) : Option Sys :=
  match s.stage with
  | .boot => bootRound env s
  | .idle => some (idleRound env s)
  | .online =>
    match s.cn.ncn[s.cur]? with
    | none => some s
    | some pnd => onlineRound env pnd s
  | .offline =>
    match s.cn.ncn[s.cur]? with
    | none => some s
    | some pnd => offlineRound env pnd s

/-! ### The other thread -/

/-- `rpc_request_send`: the return code and `req_list`. Without a timer the call faults. -/
def rpcRequestSend (env : SendEnv) (q : Request) (reqs : List Request) : Option (ℕ × List Request) :=
  if !env.malloc then some (2,reqs)
  else if env.net ≠ .sent then some (3,reqs)
  else if !env.timer then none
  else some (0,{q with armed := true}::reqs)

/-- One round of `resmsg_proc`; a control message goes on to the B side. -/
def resmsgProc (env : SendEnv) (s : Sys) : Option Sys :=
  match s.queue with
  | [] => none
  | .c _::queue => some {s with queue := queue}
  | .r q _::queue => (rpcRequestSend env q s.reqs).map fun x => {s with queue := queue,reqs := x.2}

/-- A request of the other thread itself: created, given a retry count, sent. -/
def rpcOther (create : Bool) (dnode : UInt8) (srvid : BitVec 32) (retry : ℤ) (env : SendEnv) (s : Sys) :
    Option Sys :=
  if !create then none
  else
    let (cn,q) := rpcRequestCreate s.cn dnode srvid .other 0
    (rpcRequestSend env {q with retry := retry} s.reqs).map fun x => {s with cn := cn,reqs := x.2}

/-- `rpc_req_search`: the position in `req_list`. -/
def rpcReqSearch (srvid sessn : BitVec 32) (reqs : List Request) : Option ℕ :=
  reqs.findIdx? fun q => q.srvid = srvid ∧ q.sessn = sessn

/-- The response branch of `rpc_proc_input`; `node` is the first byte of the answer. -/
def respond (srvid sessn : BitVec 32) (ilen : ℕ) (node : UInt8) (s : Sys) : Sys :=
  match rpcReqSearch srvid sessn s.reqs with
  | none => s
  | some i =>
    match s.reqs[i]? with
    | none => s
    | some q =>
      let (cn,ret) := callCbk q ilen (some node) s.cn
      {s with cn := cn,reqs := if ret = 0 then s.reqs.eraseIdx i else s.reqs}

/-- Give up on a request. -/
def giveUp (i : ℕ) (q : Request) (s : Sys) : Sys :=
  {s with cn := (callCbk q 0 none s.cn).1,reqs := s.reqs.eraseIdx i}

/-- `rqc_request_tout` of the request at position `i`. -/
def requestTout (i : ℕ) (net : Send) (s : Sys) : Option Sys :=
  match s.reqs[i]? with
  | none => none
  | some q =>
    let q := {q with retry := q.retry-1}
    if q.retry < 0 then some (giveUp i q s)
    else if net ≠ .sent then some (giveUp i q s)
    else some {s with reqs := s.reqs.set i q}

inductive Event
  /-- `HCB_MSG_RPT_ONLINE` of the CN. -/
  | rptOnline (ok : Bool) (ptr : UnsetPtr)
  /-- `HCB_MSG_RPT_NWNODE`, with the request of `rpc_set_dyn`. -/
  | nwNode (nid : UInt8) (mac : Mac) (ok : Bool) (ptr : UnsetPtr) (create : Bool) (env : SendEnv)
  /-- `HCB_MSG_RPT_LSNODE`. -/
  | lsNode (nid : UInt8)
  | rpc (create : Bool) (dnode : UInt8) (srvid : BitVec 32) (retry : ℤ) (env : SendEnv)
  /-- The configuration is edited. -/
  | config (cfg : ResmgrConfig)
  | manager (env : Env)
  | resmsg (env : SendEnv)
  | response (srvid sessn : BitVec 32) (ilen : ℕ) (node : UInt8)
  | timeout (i : ℕ) (net : Send)

def step (s : Sys) : Event → Option Sys
  | .rptOnline ok ptr => some {s with cn := resNewCn ok ptr s.cn}
  | .nwNode nid mac ok ptr create env =>
    rpcOther create nid 0x26 0 env {s with cn := resNewTn ok ptr nid mac s.cn}
  | .lsNode nid => some {s with cn := resDeleteTn nid s.cn}
  | .rpc create dnode srvid retry env => rpcOther create dnode srvid retry env s
  | .config cfg => some {s with cn := {s.cn with cfg := cfg}}
  | .manager env => managerRound env s
  | .resmsg env => resmsgProc env s
  | .response srvid sessn ilen node => some (respond srvid sessn ilen node s)
  | .timeout i net => requestTout i net s

/-- After start: no node, no message, no request. -/
structure Booted (s : Sys) : Prop where
  ncn : s.cn.ncn = []
  stage : s.stage = .boot
  queue : s.queue = []
  reqs : s.reqs = []

/-- A CN with nothing configured, before its first round. -/
def blankCn (mac : Mac) : Cn where
  cfg := emptyConfig
  resState := fun _ => zeroState
  resfrm := Frames.resfrmInit
  ackFlag := initAckFlag
  ncn := []
  reqSessn := 0
  resHold := fun _ => 0
  preRes := ⟨0,0,0,0,0⟩
  mac := mac
  rcvall := 0
  trsResId := fun _ => 0
  rcvResId := fun _ => 0

def start (cn : Cn) : Sys := ⟨cn,.boot,0,false,[],[]⟩

theorem blank_booted (mac : Mac) : Booted (start (blankCn mac)) := ⟨rfl,rfl,rfl,rfl⟩

/-- Everything goes through, except for the `r` message when `r` is false. -/
def roundOk (r : Bool) : Env := ⟨true,fun _ => true,r⟩
def sendOk : SendEnv := ⟨true,.sent,true⟩

def round : Event := .manager (roundOk true)

/-- A TN is reported online. -/
def arrives (nid : UInt8) (mac : Mac) : Event := .nwNode nid mac true .table true sendOk

end Manager
end Autbus
