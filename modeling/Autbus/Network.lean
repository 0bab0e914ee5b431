import Autbus.Acks
import Autbus.Turns
import Autbus.Assignment

/-! The CN and its TNs together. The TNs on the network are known by their node id. A request
the CN sends reaches every TN it is addressed to; the answers may come late, in any order and
more than once, as a TN that is sent a request again answers it from its memory. -/
namespace Autbus
namespace Network

open ResTables Nodes Placement Manager Services Assignment Reception Trace
open SrvRpc (Bytes Send byteAt rpcSrvSearch)

/-- An answer on its way: the request it is for, its length and its first byte. -/
structure Answer where
  srvid : BitVec 32
  sessn : BitVec 32
  ilen : ℕ
  node : UInt8

/-- `air` holds the answers to the request that was sent last. -/
structure Net where
  sys : Sys
  tns : UInt8 → Option TnCtx
  air : List Answer

/-- What a request finds: the stack bytes of the TNs, and what the message buffer holds behind
the message. -/
structure Delivery where
  stack : UInt8 → UInt8
  rest : Bytes

/-- A request at the TN with the id `nid`. -/
def serve (d : Delivery) (q : Request) (p : Payload) (nid : UInt8) (tn : TnCtx) : TnCtx × List Bytes :=
  if q.dstnd ≠ nid ∧ q.dstnd ≠ 0xFF then (tn,[])
  else match rpcSrvSearch (tnServices (d.stack nid)) q.srvid with
    | none => (tn,[])
    | some cbkf => cbkf 0 tn (payloadBytes p ++ d.rest).length (payloadBytes p ++ d.rest)

def nodeIds : List UInt8 := (List.range 256).map UInt8.ofNat

/-- What the TNs answer. -/
def answers (d : Delivery) (q : Request) (p : Payload) (tns : UInt8 → Option TnCtx) : List Answer :=
  nodeIds.flatMap fun nid => match tns nid with
    | none => []
    | some tn => (serve d q p nid tn).2.map fun a => ⟨q.srvid,q.sessn,a.length,byteAt a 0⟩

/-- The request reaches the TNs. -/
def deliver (d : Delivery) (q : Request) (p : Payload) (s : Net) : Net :=
  {s with
    tns := fun nid => (s.tns nid).map fun tn => (serve d q p nid tn).1,
    air := answers d q p s.tns}

/-- A TN that has come up: nothing is configured and nothing sent to its B side. -/
def online (nid : UInt8) (tn : TnCtx) : TnCtx := {tn with state := resNodeOnline,nodeid := nid,bside := []}

inductive Event
  | cnOnline (ok : Bool)
  /-- A TN is on the network and reported; its device is no longer anywhere else. -/
  | newTn (nid : UInt8) (tn : TnCtx) (ok : Bool)
  /-- The TN with the id is gone and reported. -/
  | lost (nid : UInt8)
  /-- A round of the manager. -/
  | round
  /-- The other thread takes a message from the queue and sends it. -/
  | send (d : Delivery)
  /-- An answer arrives. -/
  | answer (i : ℕ)
  | timeout (i : ℕ) (net : Send)

/-- What the event is to the CN. -/
def atCn (s : Net) : Event → Option Manager.Event
  | .cnOnline ok => some (.rptOnline ok .table)
  | .newTn nid tn ok => some (.nwNode nid tn.mac ok .table true sendOk)
  | .lost nid => some (.lsNode nid)
  | .round => some round
  | .send _ => some (.resmsg sendOk)
  | .answer i => s.air[i]?.map fun a => .response a.srvid a.sessn a.ilen a.node
  | .timeout i net => some (.timeout i net)

/-- What the event is to the TNs; `m` is the message the other thread takes. -/
def atTns (m : Option Msg) (s : Net) : Event → Net
  | .newTn nid tn _ =>
    {s with tns := Function.update (fun n => (s.tns n).filter fun x => x.mac ≠ tn.mac) nid (some (online nid tn))}
  | .lost nid => {s with tns := Function.update s.tns nid none}
  | .send d => match m with
    | some (.r q p) => deliver d q p s
    | _ => s
  | _ => s

def step (s : Net) (e : Event) : Option Net :=
  (atCn s e).bind fun m => (Manager.step s.sys m).map fun sys => atTns s.sys.queue.head? {s with sys := sys} e

/-! ### The CN's part -/

theorem atTns_sys (m : Option Msg) (s : Net) (e : Event) : (atTns m s e).sys = s.sys := by
  cases e with
  | send d =>
    cases m with
    | none => rfl
    | some x => cases x <;> rfl
  | _ => rfl

theorem step_cases {s t : Net} {e : Event} (h : step s e = some t) :
    ∃ m sys, atCn s e = some m ∧ Manager.step s.sys m = some sys ∧
      t = atTns s.sys.queue.head? {s with sys := sys} e ∧ t.sys = sys := by
  obtain ⟨m,hm,h⟩ := Option.bind_eq_some_iff.mp h
  obtain ⟨sys,hsys,rfl⟩ := Option.map_eq_some_iff.mp h
  exact ⟨m,sys,hm,hsys,rfl,atTns_sys _ _ e⟩

/-- What the CN does in a run of the network is a run of the manager and the other thread. -/
theorem run_sys {G : List Event → Net → Event → Prop} {s₀ s : Net} {es : List Event} (h : Run step G s₀ es s) :
    ∃ ms, Run Manager.step anyStep s₀.sys ms s.sys := by
  induction h with
  | nil => exact ⟨[],.nil⟩
  | cons hr _ hs ih =>
    obtain ⟨ms,hms⟩ := ih
    obtain ⟨m,sys,-,hsys,-,ht⟩ := step_cases hs
    exact ⟨m::ms,.cons hms trivial (ht ▸ hsys)⟩

/-! ### Rounds -/

/-- The requests in the message queue. -/
def posted (queue : List Msg) : List (Request × Payload) := queue.filterMap fun
  | .r q p => some (q,p)
  | .c _ => none

theorem posted_append (l m : List Msg) : posted (l ++ m) = posted l ++ posted m := List.filterMap_append

@[simp] theorem posted_written (env : Env) (ms : List Ctrl) : posted (written env ms) = [] := by
  rw [posted,written,List.filterMap_map]
  apply List.filterMap_eq_nil_iff.mpr
  intro x _
  rfl

/-- What the manager's function for the record hands back. -/
def action (w : Work) (pnd : NodeInfo) (s : Sys) : Action :=
  w.run (setState s.cur .waitAck s.cn) {pnd with state := .waitAck} s.cur

/-- The record is done at once, or its request goes into the queue. -/
inductive Worked (w : Work) (pnd : NodeInfo) (s : Sys) : Sys → Prop
  | ends (ms : List Ctrl) :
      (action w pnd s).req = none →
      Worked w pnd s {s with
        cn := setState s.cur w.done (action w pnd s).cn,queue := s.queue ++ written (roundOk true) ms}
  | asks (ms : List Ctrl) (q : Request) (p : Payload) :
      (action w pnd s).req = some (q,p) → q.cbkf = w.cbk → q.parg = s.cur →
      Worked w pnd s {s with
        cn := (action w pnd s).cn,queue := s.queue ++ written (roundOk true) ms ++ [.r q p]}

theorem await_worked {w : Work} {pnd : NodeInfo} {s t : Sys} (h : await (roundOk true) w.run pnd s = some t) :
    Worked w pnd s t := by
  rcases Work.run_cases (setState s.cur .waitAck s.cn) {pnd with state := .waitAck} s.cur w
    with ⟨-,he⟩ | ⟨-,q,hask⟩
  · rw [await,perform,he.state,he.req] at h
    obtain rfl := Option.some.inj h
    exact .ends _ he.req
  · obtain ⟨⟨q',p⟩,hreq,hq⟩ := Option.map_eq_some_iff.mp hask.req
    obtain rfl : q' = q := hq
    rw [await,perform,hask.state,hreq] at h
    simp only [roundOk,Bool.not_true,Bool.false_eq_true,if_false,if_true,Option.some.injEq] at h
    subst h
    exact .asks _ q' p hreq hask.cbkf hask.parg

theorem managerRound_work {env : Env} {w : Work} {pnd : NodeInfo} {s : Sys} (hstage : s.stage = w.stage)
    (hget : s.cn.ncn[s.cur]? = some pnd) (hst : pnd.state = w.before) :
    managerRound env s = await env w.run pnd s := by
  cases w with
  | resId | rcv | trs =>
    simp only [Work.stage,Work.before] at hstage hst
    simp only [managerRound,hstage,hget,onlineRound,hst]
    rfl
  | del =>
    simp only [Work.stage,Work.before] at hstage hst
    simp only [managerRound,hstage,hget,offlineRound,hst]
    rfl

/-- The parts of the manager's data that say what is configured and what is active. -/
structure SameTables (cn cn' : Cn) : Prop where
  cfg : cn'.cfg = cn.cfg
  resState : cn'.resState = cn.resState
  preRes : cn'.preRes = cn.preRes

theorem SameTables.trans {a b c : Cn} (h : SameTables a b) (h' : SameTables b c) : SameTables a c :=
  ⟨h'.cfg.trans h.cfg,h'.resState.trans h.resState,h'.preRes.trans h.preRes⟩

theorem setState_tables (k : ℕ) (st : ResStage) (cn : Cn) : SameTables cn (setState k st cn) := ⟨rfl,rfl,rfl⟩

/-- Nothing is handed on but control messages. -/
structure Quiet (s t : Sys) : Prop where
  queue : ∃ ms, t.queue = s.queue ++ written (roundOk true) ms
  reqs : t.reqs = s.reqs

theorem Quiet.posted {s t : Sys} (h : Quiet s t) : posted t.queue = posted s.queue := by
  obtain ⟨ms,hq⟩ := h.queue
  rw [hq,posted_append,posted_written,List.append_nil]

theorem Quiet.jobs {s t : Sys} (h : Quiet s t) : jobs t.queue t.reqs = jobs s.queue s.reqs := by
  obtain ⟨ms,hq⟩ := h.queue
  rw [hq,h.reqs,jobs_written]

theorem quiet_self {s t : Sys} (hq : t.queue = s.queue) (hr : t.reqs = s.reqs) : Quiet s t := by
  refine ⟨⟨[],?_⟩,hr⟩
  rw [hq]
  exact (List.append_nil _).symm

/-- What a round can do that works on no record. -/
inductive Passed (s t : Sys) : Prop
  | rest : t.cn = s.cn → t.stage = s.stage → t.cur = s.cur → Passed s t
  | boot (k : ℕ) (pnd : NodeInfo) :
      s.stage = .boot → s.cn.ncn[k]? = some pnd → pnd.role = 0 →
      t.cn.ncn = s.cn.ncn.modify k (fun pnd => {pnd with online := false,state := .addFinish}) →
      SameTables {s.cn with resState := (placeTrs s.cn.cfg pnd.nindx s.cn.resState s.cn.resfrm
        (getTrsResConfig s.cn.cfg pnd.mac)).resState} t.cn →
      t.stage = .idle → Passed s t
  | join (k : ℕ) (pnd : NodeInfo) :
      s.stage = .idle → s.cn.ncn[k]? = some pnd → joins pnd = true →
      t.cn = (update k (fun pnd => {pnd with online := false,state := .downloadResId}) s).cn →
      t.stage = .online → t.cur = k → Passed s t
  | leave (k : ℕ) (pnd : NodeInfo) :
      s.stage = .idle → s.cn.ncn[k]? = some pnd → leaves pnd = true →
      t.cn = (update k (fun pnd => {pnd with offline := false,state := .delRes}) s).cn →
      t.stage = .offline → t.cur = k → Passed s t
  | closed (pnd : NodeInfo) :
      s.cn.ncn[s.cur]? = some pnd → (pnd.state = .addFinish ∨ pnd.state = .delFinish ∨ pnd.state = .fail) →
      t.cn = s.cn → t.stage = .idle → Passed s t

theorem resAddCn_preRes (cn : Cn) (pnd : NodeInfo) : (resAddCn cn pnd).cn.preRes = cn.preRes := by
  rw [resAddCn]
  cases getNodeResId cn.cfg pnd.mac <;> rfl

/-- The first loop brings the CN's own resources up. -/
theorem bootRound_passed {s t : Sys} (hs : s.stage = .boot) (h : bootRound (roundOk true) s = some t) :
    Passed s t ∧ Quiet s t := by
  rw [bootRound] at h
  cases hf : s.cn.ncn.findIdx? fun pnd => pnd.role = 0 ∧ pnd.online with
  | none =>
    rw [hf] at h
    obtain rfl := Option.some.inj h
    exact ⟨.rest rfl rfl rfl,quiet_self rfl rfl⟩
  | some k =>
    obtain ⟨hk,hp,-⟩ := List.findIdx?_eq_some_iff_getElem.mp hf
    have hget := List.getElem?_eq_getElem hk
    have hrole : (s.cn.ncn[k]).role = 0 := (of_decide_eq_true hp).1
    let u := update k (fun pnd => {pnd with online := false,state := .addFinish}) s
    let pnd : NodeInfo := {s.cn.ncn[k] with online := false,state := .addFinish}
    have hup : u.cn.ncn[k]? = some pnd := by
      change (s.cn.ncn.modify k _)[k]? = _
      rw [List.getElem?_modify,hget]
      simp [pnd]
    have hup' : (update k (fun pnd => {pnd with online := false,state := .addFinish}) s).cn.ncn[k]? =
      some pnd := hup
    simp only [hf,hup'] at h
    obtain ⟨v,hv,rfl⟩ := Option.map_eq_some_iff.mp h
    obtain ⟨hncn,-,hreq,hst⟩ := resAddCn_spec u.cn pnd
    have htab : SameTables {s.cn with resState := (placeTrs s.cn.cfg pnd.nindx s.cn.resState s.cn.resfrm
        (getTrsResConfig s.cn.cfg pnd.mac)).resState} (resAddCn u.cn pnd).cn :=
      ⟨resAddCn_cfg u.cn pnd,(resAddCn_res u.cn pnd).1,resAddCn_preRes u.cn pnd⟩
    have hset : ((resAddCn u.cn pnd).cn.ncn.modify k fun pnd => {pnd with state := .addFinish}) = u.cn.ncn := by
      rw [hncn]
      change (s.cn.ncn.modify k _).modify k _ = s.cn.ncn.modify k _
      rw [List.modify_modify_eq]
      rfl
    change perform (roundOk true) k u (resAddCn u.cn pnd) = some v at hv
    rcases hst with hst | hst
    · rw [perform,hreq,hst] at hv
      obtain rfl := Option.some.inj hv
      exact ⟨.boot k _ hs hget hrole hncn htab rfl,⟨_,rfl⟩,rfl⟩
    · rw [perform,hreq,hst] at hv
      obtain rfl := Option.some.inj hv
      exact ⟨.boot k _ hs hget hrole hset ⟨htab.cfg,htab.resState,htab.preRes⟩ rfl,⟨_,rfl⟩,rfl⟩

/-- A round works on the record that has its turn, or sends nothing. -/
theorem round_cases {s t : Sys} (h : managerRound (roundOk true) s = some t) :
    (∃ w pnd, s.stage = w.stage ∧ s.cn.ncn[s.cur]? = some pnd ∧ pnd.state = w.before ∧ Worked w pnd s t) ∨
      (Passed s t ∧ Quiet s t) := by
  cases hstage : s.stage with
  | boot =>
    rw [managerRound,hstage] at h
    exact Or.inr (bootRound_passed hstage h)
  | idle | online | offline =>
    cases managerRound_round h with
    | skip => exact Or.inr ⟨.rest rfl rfl rfl,quiet_self rfl rfl⟩
    | boot k cn ms pnd hb => cases hstage.symm.trans hb
    | join k pnd h1 h2 h3 => exact Or.inr ⟨.join k pnd h1 h2 h3 rfl rfl rfl,quiet_self rfl rfl⟩
    | leave k pnd h1 h2 h3 => exact Or.inr ⟨.leave k pnd h1 h2 h3 rfl rfl rfl,quiet_self rfl rfl⟩
    | push h1 h2 => exact Or.inr ⟨.rest rfl rfl rfl,⟨_,rfl⟩,rfl⟩
    | work w pnd sys h1 h2 h3 _ =>
      rw [managerRound_work h1 h2 h3] at h
      exact Or.inl ⟨w,pnd,hstage.symm.trans h1,h2,h3,await_worked h⟩
    | finish pnd h1 h2 =>
      refine Or.inr ⟨.closed pnd h1 ?_ rfl rfl,quiet_self rfl rfl⟩
      rcases h2 with ⟨-,h2⟩ | ⟨-,h2⟩
      · exact Or.inl h2
      · exact Or.inr (Or.inl h2)
    | fail pnd h1 h2 h3 => exact Or.inr ⟨.closed pnd h1 (Or.inr (Or.inr h3)) rfl rfl,quiet_self rfl rfl⟩

/-! ### A request at a TN -/

section Serve

variable {d : Delivery} {q : Request} {n : UInt8} {tn : TnCtx}

theorem serve_other {p : Payload} (hn : q.dstnd ≠ n) (hb : q.dstnd ≠ 0xFF) : serve d q p n tn = (tn,[]) :=
  if_pos ⟨hn,hb⟩

theorem serve_for {p : Payload} {cbkf : SrvRpc.Service TnCtx} (hn : q.dstnd = n ∨ q.dstnd = 0xFF)
    (hs : rpcSrvSearch (tnServices (d.stack n)) q.srvid = some cbkf) :
    serve d q p n tn = cbkf 0 tn (payloadBytes p ++ d.rest).length (payloadBytes p ++ d.rest) := by
  have hno : ¬(q.dstnd ≠ n ∧ q.dstnd ≠ 0xFF) := fun h => hn.elim h.1 h.2
  rw [serve,if_neg hno,hs]

theorem serve_resId {nc : NodeConfig} (hs : q.srvid = 0x12) (hn : q.dstnd = n) :
    serve d q (.resId nc) n tn =
      if tn.mac ≠ nc.mac ∧ noConfigMac ≠ nc.mac then (tn,[]) else (takeConfig tn nc,[resIdAnswer tn]) := by
  have hsrv : rpcSrvSearch (tnServices (d.stack n)) q.srvid = some sysresSrvAddResId := by
    rw [hs]
    rfl
  rw [serve_for (Or.inl hn) hsrv,sysresSrvAddResId]
  simp only [nodeOf_bytes]

theorem serve_rcv {res : Fixres RcvResData} (hs : q.srvid = 0x14) (hn : q.dstnd = n)
    (hlen : res.res.length < 256) :
    serve d q (.rcv res) n tn = if tn.state ≠ resNodeCfg then (tn,[])
      else ({tn with bside := tn.bside ++ addRcvMsgs res},[[tn.nodeid]]) := by
  have hsrv : rpcSrvSearch (tnServices (d.stack n)) q.srvid = some sysresSrvAddRcvRes := by
    rw [hs]
    rfl
  rw [serve_for (Or.inl hn) hsrv,sysresSrvAddRcvRes,configured]
  simp only [fixresOf_rcv res d.rest hlen]

theorem serve_trs {res : Fixres TrsResData} (hs : q.srvid = 0x13) (hb : q.dstnd = 0xFF)
    (hlen : res.res.length < 256) :
    serve d q (.trs res) n tn = if tn.state ≠ resNodeCfg then (tn,[])
      else ({tn with bside := tn.bside ++ addTrsMsgs tn res},[[tn.nodeid]]) := by
  have hsrv : rpcSrvSearch (tnServices (d.stack n)) q.srvid = some sysresSrvAddTrsRes := by
    rw [hs]
    rfl
  rw [serve_for (Or.inr hb) hsrv,sysresSrvAddTrsRes,configured]
  simp only [fixresOf_trs res d.rest hlen]

theorem serve_del {res : Fixres DelResData} (hs : q.srvid = 0x15) (hb : q.dstnd = 0xFF)
    (hlen : res.res.length < 256) :
    serve d q (.del res) n tn = if tn.state ≠ resNodeCfg then (tn,[])
      else ({tn with bside := tn.bside ++ delMsgs (d.stack n) tn res},[[tn.nodeid]]) := by
  have hsrv : rpcSrvSearch (tnServices (d.stack n)) q.srvid = some (sysresSrvDelRes (d.stack n)) := by
    rw [hs]
    rfl
  rw [serve_for (Or.inr hb) hsrv,sysresSrvDelRes,configured]
  simp only [fixresOf_del res d.rest hlen]

/-- A TN keeps its MAC and its id. -/
theorem serve_same (p : Payload) :
    (serve d q p n tn).1.mac = tn.mac ∧ (serve d q p n tn).1.nodeid = tn.nodeid := by
  have hconf : ∀ (msgs : TnCtx → Bytes → List Ctrl) (l : ℕ) (b : Bytes),
      (configured msgs 0 tn l b).1.mac = tn.mac ∧ (configured msgs 0 tn l b).1.nodeid = tn.nodeid := by
    intro msgs l b
    rw [configured]
    split <;> exact ⟨rfl,rfl⟩
  have htake : ∀ nc : NodeConfig, (takeConfig tn nc).mac = tn.mac ∧ (takeConfig tn nc).nodeid = tn.nodeid := by
    intro nc
    rw [takeConfig]
    split <;> exact ⟨rfl,rfl⟩
  rw [serve]
  split
  · exact ⟨rfl,rfl⟩
  · cases hf : rpcSrvSearch (tnServices (d.stack n)) q.srvid with
    | none => exact ⟨rfl,rfl⟩
    | some cbkf =>
      obtain ⟨x,hx,rfl⟩ := Option.map_eq_some_iff.mp hf
      have hmem := List.mem_of_find?_eq_some hx
      simp only [tnServices,List.mem_cons,List.not_mem_nil,or_false] at hmem
      rcases hmem with rfl | rfl | rfl | rfl
      · exact hconf _ _ _
      · exact hconf _ _ _
      · exact hconf _ _ _
      · simp only [sysresSrvAddResId]
        split
        · exact ⟨rfl,rfl⟩
        · exact htake _

/-- No answer is empty. -/
theorem serve_answers {p : Payload} {a : Bytes} (ha : a ∈ (serve d q p n tn).2) : a.length ≠ 0 := by
  have hconf : ∀ (msgs : TnCtx → Bytes → List Ctrl) (l : ℕ) (b : Bytes),
      a ∈ (configured msgs 0 tn l b).2 → a.length ≠ 0 := by
    intro msgs l b hm
    rw [configured] at hm
    split at hm
    · cases hm
    · rw [List.mem_singleton.mp hm]
      exact Nat.one_ne_zero
  rw [serve] at ha
  split at ha
  · cases ha
  · cases hf : rpcSrvSearch (tnServices (d.stack n)) q.srvid with
    | none =>
      rw [hf] at ha
      cases ha
    | some cbkf =>
      rw [hf] at ha
      obtain ⟨x,hx,rfl⟩ := Option.map_eq_some_iff.mp hf
      have hmem := List.mem_of_find?_eq_some hx
      simp only [tnServices,List.mem_cons,List.not_mem_nil,or_false] at hmem
      rcases hmem with rfl | rfl | rfl | rfl
      · exact hconf _ _ _ ha
      · exact hconf _ _ _ ha
      · exact hconf _ _ _ ha
      · simp only [sysresSrvAddResId] at ha
        split at ha
        · cases ha
        · rw [List.mem_singleton.mp ha]
          exact Nat.succ_ne_zero _

theorem mem_answers {p : Payload} {tns : UInt8 → Option TnCtx} {x : Answer} (hx : x ∈ answers d q p tns) :
    ∃ n tn, tns n = some tn ∧ ∃ a ∈ (serve d q p n tn).2, x = ⟨q.srvid,q.sessn,a.length,byteAt a 0⟩ := by
  obtain ⟨n,-,hx⟩ := List.mem_flatMap.mp hx
  cases hn : tns n with
  | none =>
    rw [hn] at hx
    cases hx
  | some tn =>
    rw [hn] at hx
    obtain ⟨a,ha,rfl⟩ := List.mem_map.mp hx
    exact ⟨n,tn,hn,a,ha,rfl⟩

end Serve

/-! ### The record that has its turn -/

/-- The request an action asks for, with its destination and its service. -/
structure Sends (a : Action) (dstnd : UInt8) (srvid : BitVec 32) (p : Payload) : Prop where
  req : ∃ q, a.req = some (q,p) ∧ q.dstnd = dstnd ∧ q.srvid = srvid

section Action

variable (pnd : NodeInfo) (s : Sys)

theorem action_resId :
    SameTables s.cn (action .resId pnd s).cn ∧
      Sends (action .resId pnd s) pnd.nindx 0x12 (.resId (configFor s.cn.cfg pnd.mac)) :=
  ⟨⟨rfl,rfl,rfl⟩,_,rfl,rfl,rfl⟩

theorem action_rcv :
    SameTables s.cn (action .rcv pnd s).cn ∧
      ((getRcvResConfig s.cn.cfg s.cn.resState pnd.mac = [] ∧ (action .rcv pnd s).req = none) ∨
        Sends (action .rcv pnd s) pnd.nindx 0x14
          (.rcv ⟨0,getRcvResConfig s.cn.cfg s.cn.resState pnd.mac⟩)) := by
  simp only [action,Work.run,resAddRcvRes]
  split
  · next h => exact ⟨⟨rfl,rfl,rfl⟩,Or.inl ⟨h,rfl⟩⟩
  · exact ⟨⟨rfl,rfl,rfl⟩,Or.inr ⟨_,rfl,rfl,rfl⟩⟩

/-- What the allocation loop makes of the node's transmit resources. -/
def placed : Placed :=
  placeTrs s.cn.cfg pnd.nindx s.cn.resState s.cn.resfrm (getTrsResConfig s.cn.cfg pnd.mac)

theorem action_trs :
    SameTables {s.cn with resState := (placed pnd s).resState} (action .trs pnd s).cn ∧
      ((getTrsResConfig s.cn.cfg pnd.mac = [] ∨ (placed pnd s).ok = false) ∧ (action .trs pnd s).req = none ∨
        (placed pnd s).ok = true ∧ Sends (action .trs pnd s) 0xFF 0x13 (.trs ⟨pnd.nindx,(placed pnd s).res⟩)) := by
  have hcfg := resAddTrsRes_cfg (setState s.cur .waitAck s.cn) {pnd with state := .waitAck} s.cur
  have hres := (resAddTrsRes_res (setState s.cur .waitAck s.cn) {pnd with state := .waitAck} s.cur).1
  refine ⟨⟨hcfg,hres,?_⟩,?_⟩
  · simp only [action,Work.run,resAddTrsRes]
    split
    · rfl
    · split <;> rfl
  · simp only [action,Work.run,resAddTrsRes,placed]
    split
    · next h => exact Or.inl ⟨Or.inl h,rfl⟩
    · split
      · next h => exact Or.inl ⟨Or.inr ((Bool.not_eq_true' _).mp h),rfl⟩
      · next h => exact Or.inr ⟨Bool.eq_true_of_not_eq_false fun hf => h ((Bool.not_eq_true' _).mpr hf),_,rfl,rfl,rfl⟩

theorem action_del :
    SameTables {s.cn with resState := (releaseDel s.cn.resState s.cn.resfrm
        (getDelResConfig s.cn.cfg s.cn.resState pnd.mac)).1} (action .del pnd s).cn ∧
      ((getDelResConfig s.cn.cfg s.cn.resState pnd.mac = [] ∨
          isAckZero (broadcastFlags (setState s.cur .waitAck s.cn).ncn) = 0) ∧ (action .del pnd s).req = none ∨
        Sends (action .del pnd s) 0xFF 0x15
          (.del ⟨pnd.nindx,getDelResConfig s.cn.cfg s.cn.resState pnd.mac⟩)) := by
  have hcfg := resDeleteNode_cfg (setState s.cur .waitAck s.cn) {pnd with state := .waitAck} s.cur
  have hres := (resDeleteNode_res (setState s.cur .waitAck s.cn) {pnd with state := .waitAck} s.cur).1
  refine ⟨⟨hcfg,hres,?_⟩,?_⟩
  · simp only [action,Work.run,resDeleteNode]
    split
    · rfl
    · split <;> rfl
  · simp only [action,Work.run,resDeleteNode]
    split
    · next h => exact Or.inl ⟨Or.inl h,rfl⟩
    · split
      · next h => exact Or.inl ⟨Or.inr h,rfl⟩
      · exact Or.inr ⟨_,rfl,rfl,rfl⟩

end Action

/-! ### The other thread -/

/-- A message leaves the queue, and goes out when it is a request. -/
theorem send_cases {d : Delivery} {s t : Net} (h : step s (.send d) = some t) :
    (∃ m queue, s.sys.queue = .c m::queue ∧ t = {s with sys := {s.sys with queue := queue}}) ∨
      ∃ q p queue, s.sys.queue = .r q p::queue ∧ t = deliver d q p {s with
        sys := {s.sys with queue := queue,reqs := {q with armed := true}::s.sys.reqs}} := by
  obtain ⟨m,sys,hm,hsys,rfl,-⟩ := step_cases h
  obtain rfl := Option.some.inj hm
  change resmsgProc sendOk s.sys = some sys at hsys
  rw [resmsgProc] at hsys
  cases hq : s.sys.queue with
  | nil =>
    rw [hq] at hsys
    cases hsys
  | cons m queue =>
    rw [hq] at hsys
    cases m with
    | c m =>
      obtain rfl := Option.some.inj hsys
      exact Or.inl ⟨m,queue,rfl,rfl⟩
    | r q p =>
      obtain rfl := Option.some.inj hsys
      exact Or.inr ⟨q,p,queue,rfl,rfl⟩

end Network
end Autbus
