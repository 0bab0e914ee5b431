import Autbus.Services

/-! What a node answers to its requests. The session remembers the request delivered
last by its service and session numbers only, and keeps one stored answer. -/
namespace Autbus
namespace Answers

open Trace SrvRpc Services

variable {σ : Type} (srvs : List (BitVec 32 × Service σ)) (onResp : σ → RpcHdr → Bytes → σ)
  (tnd : UInt8)

/-- The request has a service. -/
def registered (k : UInt8 × BitVec 32 × BitVec 32) : Bool := (rpcSrvSearch srvs k.2.1).isSome

/-- The packet is a response to the request. -/
structure For (r : Req) (p : Respond) : Prop where
  dnode : p.dnode = r.srcnd
  srvid : p.srvid &&& ~~~respondBit = r.srvid
  sessn : p.sessn = r.sessn

variable {srvs onResp tnd}

/-! ### One round -/

theorem clear_respondBit {x : BitVec 32} (h : x &&& respondBit = 0#32) : (x ||| respondBit) &&& ~~~respondBit = x := by
  apply BitVec.eq_of_getLsbD_eq
  intro i hi
  have hbit := congrArg (fun y => y.getLsbD i) h
  simp only [BitVec.getLsbD_and,BitVec.getLsbD_or,BitVec.getLsbD_not,hi,
    decide_true,Bool.true_and] at hbit ⊢
  cases hx : x.getLsbD i <;> simp_all

theorem reqOf_srvid {ipkt : Bytes} {r : Req} (h : reqOf tnd ipkt = some r) : r.srvid &&& respondBit = 0#32 := by
  unfold reqOf at h
  cases ha : accepted tnd ipkt with
  | none => simp [ha] at h
  | some x =>
    obtain ⟨src,hdr,msg⟩ := x
    by_cases hb : hdr.srvid &&& respondBit = 0#32
    · simp only [ha,hb,if_true,Option.some.injEq] at h
      exact h ▸ hb
    · simp [ha,hb] at h

/-- A packet that carries no request changes at most the source node and the context. -/
theorem procInput_none {net : ℕ → Send} {ipkt : Bytes} {n : Node σ} (h : reqOf tnd ipkt = none) :
    (rpcProcInput srvs onResp tnd net ipkt n).2 = [] ∧
      ∃ src, (rpcProcInput srvs onResp tnd net ipkt n).1.session = {n.session with srcnd := src} := by
  unfold reqOf at h
  unfold rpcProcInput
  cases ha : accepted tnd ipkt with
  | none => exact ⟨rfl,n.session.srcnd,rfl⟩
  | some x =>
    obtain ⟨src,hdr,msg⟩ := x
    by_cases hb : hdr.srvid &&& respondBit = 0#32
    · simp [ha,hb] at h
    · simp only [if_neg hb,true_and]
      exact ⟨src,rfl⟩

def withSource (n : Node σ) (src : UInt8) : Node σ := {n with session := {n.session with srcnd := src}}

theorem procInput_some {net : ℕ → Send} {ipkt : Bytes} {n : Node σ} {r : Req}
    (h : reqOf tnd ipkt = some r) :
    rpcProcInput srvs onResp tnd net ipkt n = procRequest srvs net r (withSource n r.srcnd) := by
  unfold reqOf at h
  unfold rpcProcInput
  cases ha : accepted tnd ipkt with
  | none => simp [ha] at h
  | some x =>
    obtain ⟨src,hdr,msg⟩ := x
    by_cases hb : hdr.srvid &&& respondBit = 0#32
    · simp only [ha,hb,if_true,Option.some.injEq] at h
      subst h
      simp only [hb,if_true,withSource]
    · simp [ha,hb] at h

/-- The remembered request again: the stored answer goes out to whoever asks. -/
theorem procRequest_repeat {net : ℕ → Send} {n : Node σ} {r : Req} (h : n.session.pair = r.pair) :
    procRequest srvs net r n = (n,(rpcMakeRespond (net 0) n.session 0).2.map .sent) := by
  simp only [SrvSession.pair,Req.pair,Prod.mk.injEq] at h
  simp [procRequest,h.1,h.2]

/-- The session set for a request that is not remembered. -/
def newSession (s : SrvSession) (r : Req) : SrvSession :=
  {s with srvid := r.srvid,sessn := r.sessn,tlen := 0}

theorem procRequest_fresh {net : ℕ → Send} {n : Node σ} {r : Req} (h : n.session.pair ≠ r.pair) :
    procRequest srvs net r n = match rpcSrvSearch srvs r.srvid with
      | some cbkf =>
        (⟨(respondAll net (newSession n.session r) (cbkf n.session.srcnd n.ctx r.msglen r.msg).2).1,
            (cbkf n.session.srcnd n.ctx r.msglen r.msg).1⟩,
          .ran r (cbkf n.session.srcnd n.ctx r.msglen r.msg).2::
            (respondAll net (newSession n.session r) (cbkf n.session.srcnd n.ctx r.msglen r.msg).2).2.map .sent)
      | none => (⟨newSession n.session r,n.ctx⟩,
          (rpcMakeRespond (net 0) (newSession n.session r) 0).2.map .sent) := by
  have hne : ¬(n.session.srvid = r.srvid ∧ n.session.sessn = r.sessn) := by
    intro hh
    exact h (Prod.ext hh.1 hh.2)
  rw [procRequest,if_neg hne]
  rfl

/-- What a delivery of a remembered request sends. -/
theorem deliver_repeat {net : ℕ → Send} {ipkt : Bytes} {n : Node σ} {r : Req}
    (hr : reqOf tnd ipkt = some r) (h : n.session.pair = r.pair) :
    rpcProcInput srvs onResp tnd net ipkt n = (withSource n r.srcnd,
      (rpcMakeRespond (net 0) (withSource n r.srcnd).session 0).2.map .sent) := by
  have hp : (withSource n r.srcnd).session.pair = r.pair := h
  rw [procInput_some hr,procRequest_repeat hp]

/-- A new request with a service: it runs on the request's own message, and every packet
answers the request. -/
theorem deliver_run {net : ℕ → Send} {ipkt : Bytes} {n : Node σ} {r : Req} {cbkf : Service σ}
    (hr : reqOf tnd ipkt = some r) (h : n.session.pair ≠ r.pair)
    (hs : rpcSrvSearch srvs r.srvid = some cbkf) :
    ∃ ps : List Respond, (rpcProcInput srvs onResp tnd net ipkt n).2 =
        .ran r (cbkf r.srcnd n.ctx r.msglen r.msg).2::ps.map .sent ∧
      (∀ p ∈ ps, AnswerTo (newSession (withSource n r.srcnd).session r) (cbkf r.srcnd n.ctx r.msglen r.msg).2 p) ∧
      Serves (cbkf r.srcnd n.ctx r.msglen r.msg).2 (newSession (withSource n r.srcnd).session r)
        (rpcProcInput srvs onResp tnd net ipkt n).1.session := by
  have hp : (withSource n r.srcnd).session.pair ≠ r.pair := h
  rw [procInput_some hr,procRequest_fresh hp,hs]
  have hall := respondAll_serves net (newSession (withSource n r.srcnd).session r)
    (Or.inl rfl : Holds _ (cbkf r.srcnd n.ctx r.msglen r.msg).2) (List.Subset.refl _)
  exact ⟨_,rfl,hall.2,hall.1⟩

/-- A new request without a service gets an empty answer. -/
theorem deliver_unserved {net : ℕ → Send} {ipkt : Bytes} {n : Node σ} {r : Req}
    (hr : reqOf tnd ipkt = some r) (h : n.session.pair ≠ r.pair)
    (hs : rpcSrvSearch srvs r.srvid = none) :
    rpcProcInput srvs onResp tnd net ipkt n = (⟨newSession (withSource n r.srcnd).session r,n.ctx⟩,
      (rpcMakeRespond (net 0) (newSession (withSource n r.srcnd).session r) 0).2.map .sent) := by
  have hp : (withSource n r.srcnd).session.pair ≠ r.pair := h
  rw [procInput_some hr,procRequest_fresh hp,hs]
  rfl

/-! ### The session along a run -/

/-- What the session has to do with the run so far. -/
structure Session (srvs : List (BitVec 32 × Service σ)) (tnd : UInt8) (es : List (Event σ))
    (s : Logged σ) : Prop where
  memory : s.node.session.pair = ((requests tnd es).head?.map Req.pair).getD (-1,-1)
  stored : s.node.session.tlen = 0 ∨ ∃ q as, (runs s.log).head? = some (q,as) ∧
    q.pair = s.node.session.pair ∧ s.node.session.pmsg.take s.node.session.tlen ∈ as
  ran : (runs s.log).map (fun x => x.1.key) =
    Slot.ran Prod.snd (registered srvs) ((requests tnd es).map Req.key)

/-- The memory of the session is the one-slot memory over the requests delivered. -/
theorem Session.repeats_iff {es : List (Event σ)} {s : Logged σ} (h : Session srvs tnd es s) {r : Req}
    (hr : r.srvid &&& respondBit = 0#32) :
    s.node.session.pair = r.pair ↔
      Slot.repeats Prod.snd ((requests tnd es).map Req.key) r.key = true := by
  rw [h.memory,Slot.repeats,decide_eq_true_eq,List.head?_map,Option.map_map]
  cases hq : (requests tnd es).head? with
  | none =>
    have hne : r.srvid ≠ -1 := by
      intro he
      rw [he] at hr
      exact absurd hr (by decide)
    simp only [Option.map_none,Option.getD_none]
    exact ⟨fun he => absurd (congrArg Prod.fst he).symm hne,fun he => by cases he⟩
  | some q => simp [Req.key]

@[simp] theorem runs_reverse_sent (ps : List Respond) : runs (ps.map Entry.sent).reverse = [] := by
  rw [← List.map_reverse,runs_sent]

theorem Session.step {es : List (Event σ)} {s s' : Logged σ} {e : Event σ} (h : Session srvs tnd es s)
    (hs : step srvs onResp tnd s e = some s') : Session srvs tnd (e::es) s' := by
  obtain rfl := Option.some.inj hs
  cases e with
  | context ctx => exact ⟨h.memory,h.stored,h.ran⟩
  | deliver ipkt net =>
    dsimp only
    cases hr : reqOf tnd ipkt with
    | none =>
      obtain ⟨hout,src,hses⟩ := @procInput_none σ srvs onResp tnd net ipkt s.node hr
      have hreq : requests tnd (.deliver ipkt net::es) = requests tnd es := by
        simp [requests,Event.req,hr]
      rw [hout]
      refine ⟨?_,?_,?_⟩
      · rw [hses,hreq]
        exact h.memory
      · rw [hses]
        exact h.stored
      · rw [hreq]
        exact h.ran
    | some r =>
      have hreq : requests tnd (.deliver ipkt net::es) = r::requests tnd es := by
        simp [requests,Event.req,hr]
      have hbit := reqOf_srvid hr
      by_cases hp : s.node.session.pair = r.pair
      · have hrep := (h.repeats_iff hbit).mp hp
        rw [deliver_repeat hr hp]
        refine ⟨?_,?_,?_⟩
        · rw [hreq]
          exact hp
        · simp only [runs_append,runs_reverse_sent,List.nil_append]
          exact h.stored
        · rw [hreq,List.map_cons,Slot.ran,hrep]
          simpa using h.ran
      · have hrep : Slot.repeats Prod.snd ((requests tnd es).map Req.key) r.key = false := by
          rw [← Bool.not_eq_true,← h.repeats_iff hbit]
          exact hp
        cases hsrv : rpcSrvSearch srvs r.srvid with
        | none =>
          have hreg : registered srvs r.key = false := by simp [registered,Req.key,Req.pair,hsrv]
          rw [deliver_unserved hr hp hsrv]
          refine ⟨?_,Or.inl rfl,?_⟩
          · rw [hreq]
            rfl
          · rw [hreq,List.map_cons,Slot.ran,hrep,hreg]
            simpa using h.ran
        | some cbkf =>
          have hreg : registered srvs r.key = true := by simp [registered,Req.key,Req.pair,hsrv]
          obtain ⟨ps,hout,-,hser⟩ := @deliver_run σ srvs onResp tnd net ipkt s.node r cbkf hr hp hsrv
          have hruns : runs ((rpcProcInput srvs onResp tnd net ipkt s.node).2.reverse ++ s.log) =
              (r,(cbkf r.srcnd s.node.ctx r.msglen r.msg).2)::runs s.log := by
            rw [hout]
            simp
          refine ⟨?_,?_,?_⟩
          · rw [hreq]
            exact hser.pair
          · rcases hser.holds with ht | ht
            · exact Or.inl ht
            · exact Or.inr ⟨r,_,by rw [hruns]; rfl,hser.pair.symm,ht⟩
          · rw [hreq,hruns,List.map_cons,List.map_cons,Slot.ran,hrep,hreg]
            simpa using h.ran

theorem run_session {es : List (Event σ)} {s₀ s : Logged σ} (h0 : Fresh s₀)
    (hrun : Run (step srvs onResp tnd) anyStep s₀ es s) : Session srvs tnd es s := by
  refine hrun.invariant ⟨?_,Or.inl h0.tlen,?_⟩ fun es s e t _ hI _ hs => hI.step hs
  · rw [SrvSession.pair,h0.srvid,h0.sessn]
    rfl
  · rw [h0.log]
    rfl

/-! ### A TN and a CN to try this on -/

def bootSession : SrvSession := ⟨0,-1,-1,0,[]⟩

def tnBooted (state : UInt8) : Logged TnCtx :=
  ⟨⟨bootSession,⟨state,5,0,0x020000000002#48,0,fun _ => 0,fun _ => 0,0,fun _ => 0,[]⟩⟩,[]⟩

def cnBooted : Logged CnCtx := ⟨⟨bootSession,⟨0,0,[⟨5,0,0⟩,⟨6,0,0⟩]⟩⟩,[]⟩

/-- The packet of a request with small numbers, as it is taken in. -/
def reqPkt (src dst srvid sessn : UInt8) (msg : Bytes) : Bytes :=
  [0x18,0,0,src,dst,srvid,0,0,0,sessn,0,0,0,0,0,UInt8.ofNat msg.length,0] ++ msg

def noResp {σ : Type} (ctx : σ) (_ : RpcHdr) (_ : Bytes) : σ := ctx

def netUp (_ : ℕ) : Send := .sent

/-- The CN asks the TN to add no resource of node 9, twice. -/
def askTwice : List (Event TnCtx) :=
  [.deliver (reqPkt 0 5 0x13 7 [0,9]) netUp,.deliver (reqPkt 0 5 0x13 7 [0,9]) netUp]

theorem tnBooted_fresh (state : UInt8) : Fresh (tnBooted state) := ⟨rfl,rfl,rfl,rfl⟩

/-! ### At most one run for a request -/

/-- How often the service ran for the request with the key. -/
def runCount (k : UInt8 × BitVec 32 × BitVec 32) (l : List Entry) : ℕ :=
  ((runs l).map fun x => x.1.key).count k

/-- Every service runs at most once for a request exactly when a request that already
ran is delivered again only right after a request with the same service and session. -/
theorem runs_once_iff {es : List (Event σ)} {s₀ s : Logged σ} (h0 : Fresh s₀)
    (hrun : Run (step srvs onResp tnd) anyStep s₀ es s) :
    (∀ k, runCount k s.log ≤ 1) ↔
      Slot.Calm Prod.snd (registered srvs) ((requests tnd es).map Req.key) := by
  have hS := run_session h0 hrun
  rw [← Slot.ran_nodup_iff,← hS.ran,List.nodup_iff_count_le_one]
  rfl

/-- A request asked twice in a row is run once. -/
theorem askTwice_once :
    ∃ s, Run (step (tnServices 0) noResp 5) anyStep (tnBooted resNodeCfg) askTwice s ∧
      ∀ k, runCount k s.log ≤ 1 := by
  have hrun : Run (step (tnServices 0) noResp 5) anyStep (tnBooted resNodeCfg) askTwice _ :=
    .cons (.cons .nil trivial rfl) trivial rfl
  refine ⟨_,hrun,(runs_once_iff (tnBooted_fresh _) hrun).mpr ?_⟩
  refine ⟨fun _ => ?_,fun h => ?_,trivial⟩
  · decide
  · exact absurd h List.not_mem_nil

/-- The CN repeats a request after another one got in between: it runs twice. -/
theorem interleaved_twice :
    ∃ es s k, Fresh (tnBooted resNodeCfg) ∧
      Run (step (tnServices 0) noResp 5) anyStep (tnBooted resNodeCfg) es s ∧ 1 < runCount k s.log := by
  obtain ⟨s,hrun,hp⟩ := run_of_exec_map (step (tnServices 0) noResp 5) (tnBooted resNodeCfg)
    [.deliver (reqPkt 0 5 0x15 1 [0,9]) netUp,.deliver (reqPkt 0 5 0x13 2 [0,8]) netUp,
      .deliver (reqPkt 0 5 0x15 1 [0,9]) netUp]
    (fun s => decide (1 < runCount (0,0x15,1) s.log)) (by decide)
  exact ⟨_,s,_,tnBooted_fresh _,hrun,of_decide_eq_true hp⟩

/-! ### Responses that a service earned -/

section Conditions

variable (srvs : List (BitVec 32 × Service σ)) (onResp : σ → RpcHdr → Bytes → σ) (tnd : UInt8)

/-- Only requests to registered services are delivered. -/
def Registered (_ : List (Event σ)) (_ : Logged σ) (e : Event σ) : Prop :=
  ∀ r, e.req tnd = some r → registered srvs r.key = true

/-- Every packet sent in the step answers a request whose service ran and called
`rpc_respond_send`. -/
def Earned (_ : List (Event σ)) (s : Logged σ) (e : Event σ) : Prop :=
  ∀ p, .sent p ∈ (handle srvs onResp tnd s.node e).2 →
    ∃ q as, .ran q as ∈ (handle srvs onResp tnd s.node e).2 ++ s.log ∧ For q p ∧ as ≠ []

/-- A request that finds its service and session remembered, while packets get out, is
one whose service ran before and called `rpc_respond_send`. -/
def AnsweredBefore (_ : List (Event σ)) (s : Logged σ) : Event σ → Prop
  | .context _ => True
  | .deliver ipkt net => ∀ r, reqOf tnd ipkt = some r → s.node.session.pair = r.pair → net 0 = .sent →
      ∃ q as, .ran q as ∈ s.log ∧ q.key = r.key ∧ as ≠ []

/-- The first delivery of a request runs its service on its own message, and what is
sent is empty or was answered by the run the session is set for, to that run's node. -/
def OwnAnswer (es : List (Event σ)) (s : Logged σ) (e : Event σ) : Prop :=
  (∀ r, e.req tnd = some r → registered srvs r.key = true → r.key ∉ (requests tnd es).map Req.key →
    ∃ as, .ran r as ∈ (handle srvs onResp tnd s.node e).2) ∧
  ∀ p, .sent p ∈ (handle srvs onResp tnd s.node e).2 → p.msg = [] ∨
    ∃ q as, (runs ((handle srvs onResp tnd s.node e).2.reverse ++ s.log)).head? = some (q,as) ∧
      For q p ∧ p.msg ∈ as

/-- A request that finds its service and session remembered has been delivered before,
and comes from the node the stored answer is for, if one is stored and can get out. -/
def NoClash (es : List (Event σ)) (s : Logged σ) : Event σ → Prop
  | .context _ => True
  | .deliver ipkt net => ∀ r, reqOf tnd ipkt = some r → s.node.session.pair = r.pair →
      (registered srvs r.key = true → r.key ∈ (requests tnd es).map Req.key) ∧
      (net 0 = .sent → s.node.session.pmsg.take s.node.session.tlen ≠ [] →
        ∃ q as, (runs s.log).head? = some (q,as) ∧ q.srcnd = r.srcnd)

end Conditions

theorem mem_makeRespond {net : Send} {s : SrvSession} {p : Respond} :
    p ∈ (rpcMakeRespond net s 0).2 ↔
      net = .sent ∧ p = ⟨s.srcnd,s.srvid ||| respondBit,s.sessn,0,s.pmsg.take s.tlen⟩ := by
  cases net <;> simp [rpcMakeRespond]

/-- A run entry is no packet. -/
theorem ran_not_mem_sent {r : Req} {as : List Bytes} {ps : List Respond} :
    .ran r as ∉ ps.map Entry.sent := by
  simp

theorem for_of_answers {n : Node σ} {r : Req} {as : List Bytes} {p : Respond}
    (hbit : r.srvid &&& respondBit = 0#32)
    (h : AnswerTo (newSession (withSource n r.srcnd).session r) as p) : For r p := by
  refine ⟨h.dnode,?_,h.sessn⟩
  rw [h.srvid]
  exact clear_respondBit hbit

/-- The packet of a repeat, and the runs it can answer. -/
theorem for_repeat {s : SrvSession} {r q : Req} {msg : Bytes} (hbit : r.srvid &&& respondBit = 0#32)
    (hp : s.pair = r.pair) : For q ⟨r.srcnd,s.srvid ||| respondBit,s.sessn,0,msg⟩ ↔ q.key = r.key := by
  simp only [SrvSession.pair,Req.pair,Prod.mk.injEq] at hp
  have hclear : (s.srvid ||| respondBit) &&& ~~~respondBit = r.srvid := by
    rw [hp.1]
    exact clear_respondBit hbit
  constructor
  · rintro ⟨h1,h2,h3⟩
    exact Prod.ext h1.symm (Prod.ext (h2.symm.trans hclear) (h3.symm.trans hp.2))
  · intro h
    simp only [Req.key,Req.pair,Prod.mk.injEq] at h
    exact ⟨h.1.symm,hclear.trans h.2.1.symm,hp.2.trans h.2.2.symm⟩

theorem earned_iff_answered {es : List (Event σ)} {s : Logged σ} {e : Event σ}
    (hreg : Registered srvs tnd es s e) :
    Earned srvs onResp tnd es s e ↔ AnsweredBefore tnd es s e := by
  cases e with
  | context ctx => simp [Earned,AnsweredBefore,handle]
  | deliver ipkt net =>
    simp only [Earned,AnsweredBefore,handle]
    cases hr : reqOf tnd ipkt with
    | none =>
      have hout := (@procInput_none σ srvs onResp tnd net ipkt s.node hr).1
      simp [hout]
    | some r =>
      have hbit := reqOf_srvid hr
      by_cases hp : s.node.session.pair = r.pair
      · rw [deliver_repeat hr hp]
        constructor
        · intro h q hq _ hnet
          obtain rfl := Option.some.inj hq
          obtain ⟨q,as,hmem,hfor,has⟩ := h _ (List.mem_map_of_mem (mem_makeRespond.mpr ⟨hnet,rfl⟩))
          have hlog : Entry.ran q as ∈ s.log :=
            (List.mem_append.mp hmem).resolve_left ran_not_mem_sent
          exact ⟨q,as,hlog,(for_repeat hbit hp).mp hfor,has⟩
        · intro h p hsent
          obtain ⟨p',hp',he⟩ := List.mem_map.mp hsent
          cases he
          obtain ⟨hnet,rfl⟩ := mem_makeRespond.mp hp'
          obtain ⟨q,as,hlog,hkey,has⟩ := h r rfl hp hnet
          exact ⟨q,as,List.mem_append_right _ hlog,(for_repeat hbit hp).mpr hkey,has⟩
      · have hserved := hreg r hr
        cases hsrv : rpcSrvSearch srvs r.srvid with
        | none => simp [registered,Req.key,Req.pair,hsrv] at hserved
        | some cbkf =>
          obtain ⟨ps,hout,hps,-⟩ := @deliver_run σ srvs onResp tnd net ipkt s.node r cbkf hr hp hsrv
          rw [hout]
          refine ⟨fun _ q hq hq' => ?_,fun _ p hsent => ?_⟩
          · obtain rfl := Option.some.inj hq
            exact absurd hq' hp
          · rcases List.mem_cons.mp hsent with he | hsent
            · cases he
            · obtain ⟨p',hp',he⟩ := List.mem_map.mp hsent
              cases he
              have hans := hps p hp'
              exact ⟨r,_,List.mem_append_left _ (by simp),for_of_answers hbit hans,List.ne_nil_of_mem hans.msg⟩

theorem run_earned_iff {es : List (Event σ)} {s₀ s : Logged σ}
    (hrun : Run (step srvs onResp tnd) (Registered srvs tnd) s₀ es s) :
    Run (step srvs onResp tnd) (Earned srvs onResp tnd) s₀ es s ↔
      Run (step srvs onResp tnd) (AnsweredBefore tnd) s₀ es s :=
  hrun.forall_iff fun _ _ _ _ _ _ hreg _ => earned_iff_answered hreg

/-- The request of `askTwice`. -/
def askReq : Req := ⟨0,0x13,7,2,[0,9]⟩

theorem askReq_of : reqOf 5 (reqPkt 0 5 0x13 7 [0,9]) = some askReq := rfl

theorem askTwice_registered {es : List (Event TnCtx)} {s : Logged TnCtx} :
    Registered (tnServices 0) 5 es s (.deliver (reqPkt 0 5 0x13 7 [0,9]) netUp) := by
  intro r hr
  obtain rfl := Option.some.inj (askReq_of.symm.trans hr)
  rfl

/-- A configured TN answers both times. -/
theorem askTwice_earned :
    ∃ s, Run (step (tnServices 0) noResp 5) (Registered (tnServices 0) 5) (tnBooted resNodeCfg)
        askTwice s ∧
      Run (step (tnServices 0) noResp 5) (Earned (tnServices 0) noResp 5) (tnBooted resNodeCfg)
        askTwice s := by
  have hrun : Run (step (tnServices 0) noResp 5) (Registered (tnServices 0) 5) (tnBooted resNodeCfg)
      askTwice _ :=
    .cons (.cons .nil askTwice_registered rfl) askTwice_registered rfl
  refine ⟨_,hrun,(run_earned_iff hrun).mpr (.cons (.cons .nil ?_ rfl) ?_ rfl)⟩
  · intro r hr hp
    obtain rfl := Option.some.inj (askReq_of.symm.trans hr)
    exact absurd hp (by decide)
  · intro r hr _ _
    obtain rfl := Option.some.inj (askReq_of.symm.trans hr)
    exact ⟨askReq,[[5]],by decide,rfl,by decide⟩

/-- A TN that is not configured yet says nothing, and acknowledges the retransmission. -/
theorem silent_acknowledged :
    ∃ es s, Run (step (tnServices 0) noResp 5) (Registered (tnServices 0) 5) (tnBooted resNodeOnline) es s ∧
      ¬Run (step (tnServices 0) noResp 5) (Earned (tnServices 0) noResp 5) (tnBooted resNodeOnline) es s := by
  have hask : Run (step (tnServices 0) noResp 5) (Registered (tnServices 0) 5) (tnBooted resNodeOnline)
      [.deliver (reqPkt 0 5 0x13 7 [0,9]) netUp] _ := .cons .nil askTwice_registered rfl
  refine ⟨_,_,.cons hask askTwice_registered rfl,fun h => ?_⟩
  cases h with
  | cons h he hs =>
    obtain rfl := hask.det h
    obtain ⟨q,as,hmem,-,has⟩ := he ⟨0,0x80000013,7,0,[]⟩ (by decide)
    change Entry.ran q as ∈ [.sent ⟨0,0x80000013,7,0,[]⟩,.ran askReq []] at hmem
    have hrun : q = askReq ∧ as = [] := by simpa using hmem
    exact has hrun.2

/-! ### Requests of two nodes under the same numbers -/

/-- A repeat of the last request is answered from the store. -/
theorem own_repeat {es : List (Event σ)} {s : Logged σ} (hS : Session srvs tnd es s)
    {ipkt : Bytes} {net : ℕ → Send} {r : Req} (hr : reqOf tnd ipkt = some r) (hp : s.node.session.pair = r.pair) :
    OwnAnswer srvs onResp tnd es s (.deliver ipkt net) ↔ NoClash srvs tnd es s (.deliver ipkt net) := by
  simp only [OwnAnswer,NoClash,handle,Event.req,hr]
  have hbit := reqOf_srvid hr
  rw [deliver_repeat hr hp]
  simp only [runs_append,runs_reverse_sent,List.nil_append]
  constructor
  · rintro ⟨hfirst,hsent⟩ q hq -
    obtain rfl := Option.some.inj hq
    refine ⟨fun hsrv => ?_,fun hnet hmsg => ?_⟩
    · by_contra hnew
      obtain ⟨as,has⟩ := hfirst r rfl hsrv hnew
      exact ran_not_mem_sent has
    · have hmem := hsent _ (List.mem_map_of_mem (mem_makeRespond.mpr ⟨hnet,rfl⟩))
      obtain ⟨q,as,hhead,hfor,-⟩ := hmem.resolve_left hmsg
      exact ⟨q,as,hhead,hfor.dnode.symm⟩
  · intro h
    obtain ⟨hold,hown⟩ := h r rfl hp
    refine ⟨?_,?_⟩
    · intro q hq hsrv hnew
      obtain rfl := Option.some.inj hq
      exact absurd (hold hsrv) hnew
    · intro p hsent
      obtain ⟨p',hp',he⟩ := List.mem_map.mp hsent
      cases he
      obtain ⟨hnet,rfl⟩ := mem_makeRespond.mp hp'
      by_cases hmsg : s.node.session.pmsg.take s.node.session.tlen = []
      · exact Or.inl hmsg
      · obtain ⟨q,as,hhead,hsrc⟩ := hown hnet hmsg
        rcases hS.stored with ht | ⟨q',as',hhead',hpair,hin⟩
        · simp [ht] at hmsg
        · rw [hhead] at hhead'
          obtain ⟨rfl,rfl⟩ := Prod.mk.inj (Option.some.inj hhead')
          refine Or.inr ⟨q,as,hhead,(for_repeat hbit hp).mpr ?_,hin⟩
          exact Prod.ext hsrc (hpair.trans hp)

/-- A request for a service that is not there is answered with nothing. -/
theorem own_unserved {es : List (Event σ)} {s : Logged σ}
    {ipkt : Bytes} {net : ℕ → Send} {r : Req} (hr : reqOf tnd ipkt = some r) (hp : s.node.session.pair ≠ r.pair)
    (hsrv : rpcSrvSearch srvs r.srvid = none) :
    OwnAnswer srvs onResp tnd es s (.deliver ipkt net) ↔ NoClash srvs tnd es s (.deliver ipkt net) := by
  simp only [OwnAnswer,NoClash,handle,Event.req,hr]
  have hreg : registered srvs r.key = false := by simp [registered,Req.key,Req.pair,hsrv]
  rw [deliver_unserved hr hp hsrv]
  refine ⟨fun _ q hq hq' => ?_,fun _ => ⟨?_,?_⟩⟩
  · obtain rfl := Option.some.inj hq
    exact absurd hq' hp
  · intro q hq hq'
    obtain rfl := Option.some.inj hq
    rw [hreg] at hq'
    cases hq'
  · intro p hsent
    obtain ⟨p',hp',he⟩ := List.mem_map.mp hsent
    cases he
    obtain ⟨-,rfl⟩ := mem_makeRespond.mp hp'
    exact Or.inl rfl

/-- A new request runs its service, whose answers go out. -/
theorem own_served {es : List (Event σ)} {s : Logged σ}
    {ipkt : Bytes} {net : ℕ → Send} {r : Req} {cbkf : Service σ} (hr : reqOf tnd ipkt = some r)
    (hp : s.node.session.pair ≠ r.pair) (hsrv : rpcSrvSearch srvs r.srvid = some cbkf) :
    OwnAnswer srvs onResp tnd es s (.deliver ipkt net) ↔ NoClash srvs tnd es s (.deliver ipkt net) := by
  simp only [OwnAnswer,NoClash,handle,Event.req,hr]
  have hbit := reqOf_srvid hr
  obtain ⟨ps,hout,hps,-⟩ := @deliver_run σ srvs onResp tnd net ipkt s.node r cbkf hr hp hsrv
  rw [hout]
  refine ⟨fun _ q hq hq' => ?_,fun _ => ⟨?_,?_⟩⟩
  · obtain rfl := Option.some.inj hq
    exact absurd hq' hp
  · intro q hq _ _
    obtain rfl := Option.some.inj hq
    exact ⟨_,List.mem_cons_self⟩
  · intro p hsent
    rcases List.mem_cons.mp hsent with he | hsent
    · cases he
    · obtain ⟨p',hp',he⟩ := List.mem_map.mp hsent
      cases he
      have hans := hps p hp'
      exact Or.inr ⟨r,_,by simp,for_of_answers hbit hans,hans.msg⟩

theorem own_iff_noClash {es : List (Event σ)} {s : Logged σ} {e : Event σ} (hS : Session srvs tnd es s) :
    OwnAnswer srvs onResp tnd es s e ↔ NoClash srvs tnd es s e := by
  cases e with
  | context ctx => simp [OwnAnswer,NoClash,handle,Event.req]
  | deliver ipkt net =>
    cases hr : reqOf tnd ipkt with
    | none =>
      have hout := (@procInput_none σ srvs onResp tnd net ipkt s.node hr).1
      simp [OwnAnswer,NoClash,handle,Event.req,hr,hout]
    | some r =>
      by_cases hp : s.node.session.pair = r.pair
      · exact own_repeat hS hr hp
      · cases hsrv : rpcSrvSearch srvs r.srvid with
        | none => exact own_unserved hr hp hsrv
        | some cbkf => exact own_served hr hp hsrv

theorem run_ownAnswer_iff {es : List (Event σ)} {s₀ s : Logged σ} (h0 : Fresh s₀)
    (hrun : Run (step srvs onResp tnd) anyStep s₀ es s) :
    Run (step srvs onResp tnd) (OwnAnswer srvs onResp tnd) s₀ es s ↔
      Run (step srvs onResp tnd) (NoClash srvs tnd) s₀ es s :=
  hrun.forall_iff fun _ _ _ _ hr _ _ _ => own_iff_noClash (run_session h0 hr)

/-- The service of the CN that takes reports of the TNs. -/
def tnInfoServices : List (BitVec 32 × Service CnCtx) := [(0x27,sysresSrvTnInfo [0,0,0,0])]

theorem cnBooted_fresh : Fresh cnBooted := ⟨rfl,rfl,rfl,rfl⟩

/-- A report of TN 5, and what TN 6 sends under another number. -/
def report5 : Req := ⟨5,0x27,0,3,[5,1,0]⟩
def report6 : Req := ⟨6,0x27,1,3,[6,1,0]⟩

theorem report5_of : reqOf 0 (reqPkt 5 0 0x27 0 [5,1,0]) = some report5 := rfl
theorem report6_of : reqOf 0 (reqPkt 6 0 0x27 1 [6,1,0]) = some report6 := rfl

/-- Reports of two TNs under different numbers are kept apart. -/
theorem reports_apart :
    ∃ es s, Run (step tnInfoServices noResp 0) anyStep cnBooted es s ∧ es.length = 2 ∧
      Run (step tnInfoServices noResp 0) (OwnAnswer tnInfoServices noResp 0) cnBooted es s := by
  have hrun : Run (step tnInfoServices noResp 0) anyStep cnBooted
      [.deliver (reqPkt 6 0 0x27 1 [6,1,0]) netUp,.deliver (reqPkt 5 0 0x27 0 [5,1,0]) netUp] _ :=
    .cons (.cons .nil trivial rfl) trivial rfl
  refine ⟨_,_,hrun,rfl,(run_ownAnswer_iff cnBooted_fresh hrun).mpr (.cons (.cons .nil ?_ rfl) ?_ rfl)⟩
  · intro r hr hp
    obtain rfl := Option.some.inj (report5_of.symm.trans hr)
    exact absurd hp (by decide)
  · intro r hr hp
    obtain rfl := Option.some.inj (report6_of.symm.trans hr)
    exact absurd hp (by decide)

/-- Two TNs whose first reports carry the number 0: the second report is not looked at,
and its sender gets the answer to the first. -/
theorem reports_clash :
    ∃ es s, Fresh cnBooted ∧ Run (step tnInfoServices noResp 0) anyStep cnBooted es s ∧
      ¬Run (step tnInfoServices noResp 0) (OwnAnswer tnInfoServices noResp 0) cnBooted es s := by
  have hfirst : Run (step tnInfoServices noResp 0) anyStep cnBooted
      [.deliver (reqPkt 5 0 0x27 0 [5,1,0]) netUp] _ := .cons .nil trivial rfl
  have hlast : Run (step tnInfoServices noResp 0) anyStep cnBooted
      [.deliver (reqPkt 6 0 0x27 0 [6,1,0]) netUp,.deliver (reqPkt 5 0 0x27 0 [5,1,0]) netUp] _ :=
    .cons hfirst trivial rfl
  refine ⟨_,_,cnBooted_fresh,hlast,fun h => ?_⟩
  cases h with
  | cons h he hs =>
    obtain rfl := hfirst.det h
    obtain ⟨as,hran⟩ := he.1 ⟨6,0x27,0,3,[6,1,0]⟩ (by decide) (by decide +kernel) (by decide +kernel)
    change Entry.ran _ as ∈ [.sent ⟨6,0x80000027,0,0,[0,0,0,0]⟩] at hran
    simp at hran

end Answers
end Autbus
