import Autbus.Answers
import Autbus.Numbering
import Autbus.Wire

/-! Nodes that call each other over the Autbus. Each of them makes requests and serves the requests
of others (`sysrpc.c`). A packet that went out reaches any node at any time, as often as it likes or
never, so that whatever the network loses, repeats, delays or changes the order of is covered. -/
namespace Autbus
namespace Stations

open Trace SrvRpc Answers
open Requests (Sys Rpc Script Packet Act Numbered Changes rpcReqSearch)

/-- The number of a node, which is not the one for all nodes. -/
abbrev NodeId := {n : UInt8 // n ≠ 0xff}

/-- The two sides of `sysrpc.c` in one node. -/
structure Station (σ : Type) where
  sys : Sys
  rpc : Logged σ

abbrev Net (σ : Type) := NodeId → Station σ

/-- What `rpc_make_request` has sent. -/
def requestsOut (l : List Requests.Entry) : List Packet := l.filterMap fun
  | .tx _ pkt => some pkt
  | _ => none

/-- What `rpc_make_respond` has sent. -/
def respondsOut (l : List Entry) : List Packet := l.filterMap fun
  | .sent p => some (Wire.respond p)
  | .ran _ _ => none

def Station.out {σ : Type} (st : Station σ) : List Packet := requestsOut st.sys.2.log ++ respondsOut st.rpc.log

/-- A node acts by itself, its timers fire, its context changes, or it gets a packet that was sent. -/
inductive Event (σ : Type)
  | act (i : NodeId) (a : Act)
  | queueEvent (i : NodeId) (curr : UInt64) (xs : List Script)
  | context (i : NodeId) (ctx : σ)
  | deliver (i j : NodeId) (pkt : Packet) (a b : UInt8) (net : ℕ → Send) (x : Script)

section Net

variable {σ : Type} (srvs : NodeId → List (BitVec 32 × Service σ)) (onResp : NodeId → σ → RpcHdr → Bytes → σ)

/-- A round of `rpc_proc_input`, both for a request and for a response. -/
def rpcProcInput (j : NodeId) (ipkt : Bytes) (net : ℕ → Send) (x : Script) (st : Station σ) : Option (Station σ) :=
  (Requests.rpcProcInput j ipkt x st.sys).bind fun sys =>
    (SrvRpc.step (srvs j) (onResp j) j st.rpc (.deliver ipkt net)).map fun rpc => ⟨sys,rpc⟩

def step (s : Net σ) : Event σ → Option (Net σ)
  | .act i a => (a.run (s i).sys).map fun sys => Function.update s i {s i with sys := sys}
  | .queueEvent i curr xs => (Timers.eventLoop Requests.Cbk.run curr xs (s i).sys).map fun sys =>
      Function.update s i {s i with sys := sys}
  | .context i ctx => (SrvRpc.step (srvs i) (onResp i) i (s i).rpc (.context ctx)).map fun rpc =>
      Function.update s i {s i with rpc := rpc}
  | .deliver i j pkt a b net x =>
    if pkt ∈ (s i).out then
      (rpcProcInput srvs onResp j (Wire.received a b i pkt) net x (s j)).map (Function.update s j)
    else none

/-- After `rpc_init` everywhere. -/
structure Booted (s : Net σ) : Prop where
  sys : ∀ i, (s i).sys = Requests.init
  rpc : ∀ i, Fresh (s i).rpc

/-- A request that bears the numbers of the one a node ran last comes from the same node. -/
def NoClash (_ : List (Event σ)) (s : Net σ) : Event σ → Prop
  | .deliver i j pkt _ _ _ _ => ∀ q as, (runs (s j).rpc.log).head? = some (q,as) →
      q.pair = (pkt.hdr.srvid,pkt.hdr.sessn) → q.srcnd = i
  | _ => True

end Net

variable {σ : Type} {srvs : NodeId → List (BitVec 32 × Service σ)} {onResp : NodeId → σ → RpcHdr → Bytes → σ}

theorem mem_requestsOut {l : List Requests.Entry} {pkt : Packet} : pkt ∈ requestsOut l ↔ ∃ req, .tx req pkt ∈ l := by
  rw [requestsOut,List.mem_filterMap]
  constructor
  · rintro ⟨e,he,heq⟩
    cases e with
    | tx req pkt' =>
      obtain rfl := Option.some.inj heq
      exact ⟨req,he⟩
    | _ => cases heq
  · rintro ⟨req,he⟩
    exact ⟨_,he,rfl⟩

theorem mem_respondsOut {l : List Entry} {pkt : Packet} :
    pkt ∈ respondsOut l ↔ ∃ p, .sent p ∈ l ∧ pkt = Wire.respond p := by
  rw [respondsOut,List.mem_filterMap]
  constructor
  · rintro ⟨e,he,heq⟩
    cases e with
    | sent p => exact ⟨p,he,(Option.some.inj heq).symm⟩
    | ran r as => cases heq
  · rintro ⟨p,he,rfl⟩
    exact ⟨_,he,rfl⟩

/-! ### One node serves -/

/-- What a service run or a respond has to do with the request it is for. -/
theorem serve_ran {tnd : UInt8} {srvs : List (BitVec 32 × Service σ)} {onResp : σ → RpcHdr → Bytes → σ}
    {net : ℕ → Send} {ipkt : Bytes} {n : Node σ} {q : Req} {as : List Bytes}
    (h : .ran q as ∈ (SrvRpc.rpcProcInput srvs onResp tnd net ipkt n).2) : reqOf tnd ipkt = some q := by
  cases hr : reqOf tnd ipkt with
  | none =>
    rw [(procInput_none hr).1] at h
    cases h
  | some r =>
    by_cases hp : n.session.pair = r.pair
    · rw [deliver_repeat hr hp] at h
      exact absurd h ran_not_mem_sent
    · cases hs : rpcSrvSearch srvs r.srvid with
      | none =>
        rw [deliver_unserved hr hp hs] at h
        exact absurd h ran_not_mem_sent
      | some cbkf =>
        obtain ⟨ps,hout,-,-⟩ := @deliver_run σ srvs onResp tnd net ipkt n r cbkf hr hp hs
        rw [hout] at h
        rcases List.mem_cons.mp h with heq | h
        · rw [(Entry.ran.inj heq).1]
        · exact absurd h ran_not_mem_sent

/-- A respond bears the numbers of the request. Its message is empty, or an answer of the run that
the request starts or, for a request that is remembered, of the run before. -/
theorem serve_sent {tnd : UInt8} {srvs : List (BitVec 32 × Service σ)} {onResp : σ → RpcHdr → Bytes → σ}
    {net : ℕ → Send} {ipkt : Bytes} {es : List (SrvRpc.Event σ)} {s : Logged σ} {r : Req} {p : Respond}
    (hS : Session srvs tnd es s) (hr : reqOf tnd ipkt = some r)
    (h : .sent p ∈ (SrvRpc.rpcProcInput srvs onResp tnd net ipkt s.node).2) :
    (p.dnode = r.srcnd ∧ p.srvid = r.srvid ||| respondBit ∧ p.sessn = r.sessn) ∧
      (p.msg = [] ∨
        (∃ as, .ran r as ∈ (SrvRpc.rpcProcInput srvs onResp tnd net ipkt s.node).2 ∧ p.msg ∈ as) ∨
        ∃ q as, (runs s.log).head? = some (q,as) ∧ q.pair = r.pair ∧ p.msg ∈ as) := by
  by_cases hp : s.node.session.pair = r.pair
  · rw [deliver_repeat hr hp] at h
    obtain ⟨p',hp',heq⟩ := List.mem_map.mp h
    cases heq
    obtain ⟨-,rfl⟩ := mem_makeRespond.mp hp'
    obtain ⟨hsrvid,hsessn⟩ := Prod.mk.inj hp
    refine ⟨⟨rfl,congrArg (· ||| respondBit) hsrvid,hsessn⟩,?_⟩
    rcases hS.stored with ht | ⟨q,as,hhead,hpair,hmem⟩
    · exact Or.inl (by simp [withSource,ht])
    · exact Or.inr (Or.inr ⟨q,as,hhead,hpair.trans hp,hmem⟩)
  · cases hs : rpcSrvSearch srvs r.srvid with
    | none =>
      rw [deliver_unserved hr hp hs] at h
      obtain ⟨p',hp',heq⟩ := List.mem_map.mp h
      cases heq
      obtain ⟨-,rfl⟩ := mem_makeRespond.mp hp'
      exact ⟨⟨rfl,rfl,rfl⟩,Or.inl rfl⟩
    | some cbkf =>
      obtain ⟨ps,hout,hps,-⟩ := @deliver_run σ srvs onResp tnd net ipkt s.node r cbkf hr hp hs
      rw [hout] at h ⊢
      rcases List.mem_cons.mp h with heq | h
      · cases heq
      · obtain ⟨p',hp',heq⟩ := List.mem_map.mp h
        cases heq
        have hans := hps p hp'
        exact ⟨⟨hans.dnode,hans.srvid,hans.sessn⟩,Or.inr (Or.inl ⟨_,List.mem_cons_self,hans.msg⟩)⟩

/-! ### Where everything comes from -/

/-- The packet is for the node. -/
def Reaches (p : Packet) (j : NodeId) : Prop := p.dnode = j ∨ p.dnode = 0xff

/-- The request as it comes out of its packet. -/
def reqFrom (i : NodeId) (p : Packet) : Req := ⟨i,p.hdr.srvid,p.hdr.sessn,p.hdr.msglen.toNat,p.msg⟩

/-- The respond goes to the node `i`, under the numbers of its packet. -/
structure RespondTo (i : NodeId) (p : Packet) (rp : Respond) : Prop where
  dnode : rp.dnode = i
  srvid : rp.srvid = p.hdr.srvid ||| respondBit
  sessn : rp.sessn = p.hdr.sessn

section Origins

variable (s : Net σ)

/-- The node `i` sent the packet. -/
def Asked (i : NodeId) (req : ℕ) (p : Packet) : Prop := .tx req p ∈ (s i).sys.2.log

/-- A service of `j` was run for a packet that some node sent. -/
def RanFrom (j : NodeId) (q : Req) : Prop := ∃ (i : NodeId) (req : ℕ) (p : Packet), Asked s i req p ∧ Reaches p j ∧ q = reqFrom i p

/-- A respond of `j` is for a packet that some node sent, with an answer to it. -/
def SentFrom (j : NodeId) (rp : Respond) : Prop :=
  ∃ (i : NodeId) (req : ℕ) (p : Packet), Asked s i req p ∧ Reaches p j ∧ RespondTo i p rp ∧
    (rp.msg = [] ∨ ∃ (q : Req) (as : List Bytes), .ran q as ∈ (s j).rpc.log ∧ q.srcnd = i ∧
      q.pair = (p.hdr.srvid,p.hdr.sessn) ∧ rp.msg ∈ as)

/-- What the callback of a request of `i` got is in a respond to its packet. -/
def CalledFrom (i : NodeId) (req : ℕ) (len : BitVec 16) (msg : Bytes) : Prop :=
  ∃ j p rp, Asked s i req p ∧ .sent rp ∈ (s j).rpc.log ∧ RespondTo i p rp ∧ rp.msg = msg ∧
    len = BitVec.ofNat 16 msg.length

/-- The numbers of the services leave the top bit out. -/
def Plain : Prop := ∀ i req p, Asked s i req p → p.hdr.srvid &&& respondBit = 0#32

/-- What is told of the nodes only grows. -/
structure Grown (s t : Net σ) : Prop where
  sys : ∀ i, (s i).sys.2.log ⊆ (t i).sys.2.log
  rpc : ∀ j, (s j).rpc.log ⊆ (t j).rpc.log

end Origins

section Grown

variable {s t : Net σ} {i j : NodeId}

theorem Plain.of_grown (h : Plain t) (hg : Grown s t) : Plain s := fun i req p hp => h i req p (hg.sys i hp)

theorem RanFrom.grow {q : Req} (h : RanFrom s j q) (hg : Grown s t) : RanFrom t j q := by
  obtain ⟨i,req,p,hp,h⟩ := h
  exact ⟨i,req,p,hg.sys i hp,h⟩

theorem SentFrom.grow {rp : Respond} (h : SentFrom s j rp) (hg : Grown s t) : SentFrom t j rp := by
  obtain ⟨i,req,p,hp,hreach,hto,hmsg⟩ := h
  refine ⟨i,req,p,hg.sys i hp,hreach,hto,hmsg.imp_right ?_⟩
  rintro ⟨q,as,hran,hq⟩
  exact ⟨q,as,hg.rpc j hran,hq⟩

theorem CalledFrom.grow {req : ℕ} {len : BitVec 16} {msg : Bytes} (h : CalledFrom s i req len msg) (hg : Grown s t) :
    CalledFrom t i req len msg := by
  obtain ⟨j,p,rp,hp,hrp,h⟩ := h
  exact ⟨j,p,rp,hg.sys i hp,hg.rpc j hrp,h⟩

/-- A node does something. -/
theorem grown_update {st : Station σ} (hsys : (s j).sys.2.log ⊆ st.sys.2.log) (hrpc : (s j).rpc.log ⊆ st.rpc.log) :
    Grown s (Function.update s j st) := by
  constructor
  all_goals
    intro i
    by_cases hi : i = j
  · subst hi
    rwa [Function.update_self]
  · rw [Function.update_of_ne hi]
    exact List.Subset.refl _
  · subst hi
    rwa [Function.update_self]
  · rw [Function.update_of_ne hi]
    exact List.Subset.refl _

end Grown

/-! ### The invariant -/

structure Inv (srvs : NodeId → List (BitVec 32 × Service σ)) (s : Net σ) : Prop where
  numbered : ∀ i, Numbered (s i).sys.2
  session : ∀ j, ∃ es, Session (srvs j) j es (s j).rpc
  ran : ∀ j q as, .ran q as ∈ (s j).rpc.log → RanFrom s j q
  sent : ∀ j rp, .sent rp ∈ (s j).rpc.log → SentFrom s j rp
  called : ∀ i req len msg ret, .called req (some (len,msg)) ret ∈ (s i).sys.2.log → CalledFrom s i req len msg

/-- One node does something, and what is new of it has its origin. -/
theorem Inv.update {s : Net σ} (h : Inv srvs s) {j : NodeId} {st : Station σ} (hsys : (s j).sys.2.log ⊆ st.sys.2.log)
    (hrpc : (s j).rpc.log ⊆ st.rpc.log) (hnum : Numbered st.sys.2) (hses : ∃ es, Session (srvs j) j es st.rpc)
    (hran : ∀ q as, .ran q as ∈ st.rpc.log → .ran q as ∈ (s j).rpc.log ∨ RanFrom (Function.update s j st) j q)
    (hsent : ∀ rp, .sent rp ∈ st.rpc.log → .sent rp ∈ (s j).rpc.log ∨ SentFrom (Function.update s j st) j rp)
    (hcalled : ∀ req len msg ret, .called req (some (len,msg)) ret ∈ st.sys.2.log →
      .called req (some (len,msg)) ret ∈ (s j).sys.2.log ∨ CalledFrom (Function.update s j st) j req len msg) :
    Inv srvs (Function.update s j st) := by
  have hg := grown_update hsys hrpc
  constructor
  · intro i
    by_cases hi : i = j
    · subst hi
      rwa [Function.update_self]
    · rw [Function.update_of_ne hi]
      exact h.numbered i
  · intro i
    by_cases hi : i = j
    · subst hi
      rwa [Function.update_self]
    · rw [Function.update_of_ne hi]
      exact h.session i
  · intro i q as hmem
    by_cases hi : i = j
    · subst hi
      rw [Function.update_self] at hmem
      exact (hran q as hmem).elim (fun hold => (h.ran i q as hold).grow hg) id
    · rw [Function.update_of_ne hi] at hmem
      exact (h.ran i q as hmem).grow hg
  · intro i rp hmem
    by_cases hi : i = j
    · subst hi
      rw [Function.update_self] at hmem
      exact (hsent rp hmem).elim (fun hold => (h.sent i rp hold).grow hg) id
    · rw [Function.update_of_ne hi] at hmem
      exact (h.sent i rp hmem).grow hg
  · intro i req len msg ret hmem
    by_cases hi : i = j
    · subst hi
      rw [Function.update_self] at hmem
      exact (hcalled req len msg ret hmem).elim (fun hold => (h.called i req len msg ret hold).grow hg) id
    · rw [Function.update_of_ne hi] at hmem
      exact (h.called i req len msg ret hmem).grow hg

/-- The requester's half of a node acts, or its context changes. -/
theorem Inv.quiet {s : Net σ} (h : Inv srvs s) {j : NodeId} {st : Station σ} (hsys : Changes (s j).sys.2 st.sys.2)
    (hrpc : st.rpc.log = (s j).rpc.log) (hses : ∃ es, Session (srvs j) j es st.rpc) :
    Inv srvs (Function.update s j st) := by
  refine h.update hsys.log (hrpc ▸ List.Subset.refl _) ((h.numbered j).changes hsys) hses ?_ ?_ ?_
  · exact fun q as hmem => Or.inl (hrpc ▸ hmem)
  · exact fun rp hmem => Or.inl (hrpc ▸ hmem)
  · exact fun req len msg ret hmem => Or.inl (hsys.called hmem)

theorem reqOf_received {i j : NodeId} {a b : UInt8} {p : Packet} {r : Req}
    (h : reqOf j (Wire.received a b i p) = some r) : Reaches p j ∧ r = reqFrom i p := by
  unfold reqOf at h
  rw [Wire.accepted_received] at h
  split at h
  · cases h
  · next src hdr msg hacc =>
    split at hacc
    · next hreach =>
      cases hacc
      split at h
      · exact ⟨hreach,(Option.some.inj h).symm⟩
      · cases h
    · cases hacc

theorem mem_runs {l : List Entry} {q : Req} {as : List Bytes} (h : (runs l).head? = some (q,as)) : .ran q as ∈ l := by
  obtain ⟨e,he,heq⟩ := List.mem_filterMap.mp (List.mem_of_mem_head? h)
  cases e with
  | ran r bs =>
    cases heq
    exact he
  | sent p => cases heq

/-- A respond has the top bit, a request does not. -/
theorem respond_top {i : NodeId} {p : Packet} {rp : Respond} (h : RespondTo i p rp) : rp.srvid &&& respondBit ≠ 0#32 := by
  intro hbit
  have htop := congrArg (fun y => y.getLsbD 31) (h.srvid ▸ hbit)
  simp [respondBit] at htop

/-- A packet that is taken for a request is one. -/
theorem Inv.asked {s : Net σ} (h : Inv srvs s) {i j : NodeId} {pkt : Packet} {a b : UInt8} {r : Req}
    (hout : pkt ∈ (s i).out) (hr : reqOf j (Wire.received a b i pkt) = some r) :
    ∃ req, Asked s i req pkt ∧ Reaches pkt j ∧ r = reqFrom i pkt := by
  obtain ⟨hreach,rfl⟩ := reqOf_received hr
  rcases List.mem_append.mp hout with hout | hout
  · obtain ⟨req,hreq⟩ := mem_requestsOut.mp hout
    exact ⟨req,hreq,hreach,rfl⟩
  · obtain ⟨rp,hrp,rfl⟩ := mem_respondsOut.mp hout
    obtain ⟨i',req,p,-,-,hto,-⟩ := h.sent i rp hrp
    exact absurd (reqOf_srvid hr) (respond_top hto)

/-- A packet that is taken for a response is a respond, and the request that it finds is the one it
is for. -/
theorem Inv.answer {s : Net σ} (h : Inv srvs s) (hplain : Plain s) {i j : NodeId} {pkt : Packet} {req : ℕ}
    (hout : pkt ∈ (s i).out) (hreach : Reaches pkt j) (hbit : pkt.hdr.srvid &&& respondBit ≠ 0#32)
    (hreq : rpcReqSearch (s j).sys.2 (pkt.hdr.srvid &&& 0x7FFFFFFF#32) pkt.hdr.sessn = some req) :
    CalledFrom s j req pkt.hdr.msglen pkt.msg := by
  rcases List.mem_append.mp hout with hout | hout
  · obtain ⟨req',hreq'⟩ := mem_requestsOut.mp hout
    exact absurd (hplain i req' pkt hreq') hbit
  · obtain ⟨rp,hrp,rfl⟩ := mem_respondsOut.mp hout
    obtain ⟨i',req',p',hp',-,hto,-⟩ := h.sent i rp hrp
    obtain ⟨preq,hpreq,htx⟩ := (h.numbered j).listed req (List.mem_of_find?_eq_some hreq)
    have hfound := List.find?_some hreq
    rw [hpreq] at hfound
    obtain ⟨hsrvid,hsessn⟩ := of_decide_eq_true hfound
    have hdnode : rp.dnode = j := hreach.resolve_right fun hall => i'.2 (hto.dnode.symm.trans hall)
    have hclear : rp.srvid &&& 0x7FFFFFFF#32 = p'.hdr.srvid := by
      rw [hto.srvid]
      exact clear_respondBit (hplain i' req' p' hp')
    have hnum : preq.packet.hdr.srvid = p'.hdr.srvid := hsrvid.trans hclear
    exact ⟨i,preq.packet,rp,htx,hrp,⟨hdnode,hto.srvid.trans (congrArg (· ||| respondBit) hnum.symm),hsessn.symm⟩,rfl,rfl⟩

/-- A packet comes in, under the conditions of `NoClash` and `Plain`. -/
theorem Inv.deliver {s t : Net σ} {es : List (Event σ)} {i j : NodeId} {pkt : Packet} {a b : UInt8} {net : ℕ → Send}
    {x : Script} (h : Inv srvs s) (hplain : Plain s) (hclash : NoClash es s (.deliver i j pkt a b net x))
    (ht : step srvs onResp s (.deliver i j pkt a b net x) = some t) : Inv srvs t := by
  rw [step] at ht
  split at ht
  · next hout =>
    obtain ⟨st,hst,rfl⟩ := Option.map_eq_some_iff.mp ht
    obtain ⟨sys,hsys,hst⟩ := Option.bind_eq_some_iff.mp hst
    obtain ⟨rpc,hrpc,rfl⟩ := Option.map_eq_some_iff.mp hst
    obtain ⟨es',hses⟩ := h.session j
    have hlog : rpc.log = (SrvRpc.rpcProcInput (srvs j) (onResp j) j net (Wire.received a b i pkt) (s j).rpc.node).2.reverse ++
        (s j).rpc.log := by rw [← Option.some.inj hrpc]; rfl
    have hgrpc : (s j).rpc.log ⊆ rpc.log := hlog ▸ List.subset_append_right _ _
    have hnum : Numbered sys.2 ∧ (s j).sys.2.log ⊆ sys.2.log ∧
        ∀ req len msg ret, .called req (some (len,msg)) ret ∈ sys.2.log →
          .called req (some (len,msg)) ret ∈ (s j).sys.2.log ∨ CalledFrom s j req len msg := by
      rcases Requests.input_cases hsys with hc | ⟨src,phdr,msg,req,hacc,hbit,hreq,hc⟩
      · exact ⟨(h.numbered j).changes hc,hc.log,fun req len msg ret hmem => Or.inl (hc.called hmem)⟩
      · rw [Wire.accepted_received] at hacc
        split at hacc
        · next hreach =>
          cases hacc
          refine ⟨((h.numbered j).note (by simp)).changes hc,
            List.Subset.trans (List.subset_cons_self _ _) hc.log,fun req' len msg ret hmem => ?_⟩
          rcases List.mem_cons.mp (hc.called hmem) with heq | hmem
          · cases heq
            exact Or.inr (h.answer hplain hout hreach hbit hreq)
          · exact Or.inl hmem
        · cases hacc
    obtain ⟨hnum,hgsys,hcalled⟩ := hnum
    have hg : Grown s (Function.update s j ⟨sys,rpc⟩) := grown_update hgsys hgrpc
    refine h.update hgsys hgrpc hnum ⟨_,hses.step hrpc⟩ ?_ ?_ ?_
    · intro q as hmem
      rw [hlog,List.mem_append,List.mem_reverse] at hmem
      rcases hmem with hnew | hold
      · obtain ⟨req,hreq,hreach,hq⟩ := h.asked hout (serve_ran hnew)
        exact Or.inr (RanFrom.grow ⟨i,req,pkt,hreq,hreach,hq⟩ hg)
      · exact Or.inl hold
    · intro rp hmem
      have hmem' := hmem
      rw [hlog,List.mem_append,List.mem_reverse] at hmem'
      rcases hmem' with hnew | hold
      · cases hr : reqOf j (Wire.received a b i pkt) with
        | none =>
          rw [(procInput_none hr).1] at hnew
          cases hnew
        | some r =>
          obtain ⟨req,hreq,hreach,rfl⟩ := h.asked hout hr
          obtain ⟨⟨hdnode,hsrvid,hsessn⟩,hmsg⟩ := serve_sent hses hr hnew
          refine Or.inr ⟨i,req,pkt,hg.sys i hreq,hreach,⟨hdnode,hsrvid,hsessn⟩,hmsg.imp_right ?_⟩
          rw [Function.update_self]
          rintro (⟨as,hran,hmsg⟩ | ⟨q,as,hhead,hpair,hmsg⟩)
          · refine ⟨reqFrom i pkt,as,?_,rfl,rfl,hmsg⟩
            rw [hlog]
            exact List.mem_append_left _ (List.mem_reverse.mpr hran)
          · exact ⟨q,as,hgrpc (mem_runs hhead),hclash q as hhead hpair,hpair,hmsg⟩
      · exact Or.inl hold
    · intro req len msg ret hmem
      exact (hcalled req len msg ret hmem).imp_right fun hc => hc.grow hg
  · cases ht

theorem step_grown {s t : Net σ} {e : Event σ} (ht : step srvs onResp s e = some t) : Grown s t := by
  cases e with
  | act i a =>
    obtain ⟨sys,hsys,rfl⟩ := Option.map_eq_some_iff.mp ht
    exact grown_update (Requests.changes_act hsys).log (List.Subset.refl _)
  | queueEvent i curr xs =>
    obtain ⟨sys,hsys,rfl⟩ := Option.map_eq_some_iff.mp ht
    exact grown_update (Requests.changes_queueEvent hsys).log (List.Subset.refl _)
  | context i ctx =>
    rw [step,Option.map_eq_some_iff] at ht
    obtain ⟨rpc,hrpc,rfl⟩ := ht
    obtain rfl := Option.some.inj hrpc
    exact grown_update (List.Subset.refl _) (List.Subset.refl _)
  | deliver i j pkt a b net x =>
    rw [step] at ht
    split at ht
    · obtain ⟨st,hst,rfl⟩ := Option.map_eq_some_iff.mp ht
      obtain ⟨sys,hsys,hst⟩ := Option.bind_eq_some_iff.mp hst
      obtain ⟨rpc,hrpc,rfl⟩ := Option.map_eq_some_iff.mp hst
      obtain rfl := Option.some.inj hrpc
      refine grown_update ?_ (List.subset_append_right _ _)
      rcases Requests.input_cases hsys with hc | ⟨_,_,_,_,-,-,-,hc⟩
      · exact hc.log
      · exact List.Subset.trans (List.subset_cons_self _ _) hc.log
    · cases ht

theorem Inv.step {s t : Net σ} {es : List (Event σ)} {e : Event σ} (h : Inv srvs s) (hplain : Plain s)
    (hclash : NoClash es s e) (ht : step srvs onResp s e = some t) : Inv srvs t := by
  cases e with
  | act i a =>
    obtain ⟨sys,hsys,rfl⟩ := Option.map_eq_some_iff.mp ht
    exact h.quiet (Requests.changes_act hsys) rfl (h.session i)
  | queueEvent i curr xs =>
    obtain ⟨sys,hsys,rfl⟩ := Option.map_eq_some_iff.mp ht
    exact h.quiet (Requests.changes_queueEvent hsys) rfl (h.session i)
  | context i ctx =>
    rw [Stations.step,Option.map_eq_some_iff] at ht
    obtain ⟨rpc,hrpc,rfl⟩ := ht
    obtain ⟨es',hses⟩ := h.session i
    refine h.quiet .refl ?_ ⟨_,hses.step hrpc⟩
    obtain rfl := Option.some.inj hrpc
    rfl
  | deliver i j pkt a b net x => exact h.deliver hplain hclash ht

theorem inv_booted {s : Net σ} (h : Booted s) : Inv srvs s := by
  have hlog : ∀ i, (s i).sys.2.log = [] := fun i => by rw [h.sys i]; rfl
  constructor
  · intro i
    rw [h.sys i]
    exact Numbered.init
  · exact fun j => ⟨[],@run_session σ (srvs j) (fun ctx _ _ => ctx) _ _ _ _ (h.rpc j) .nil⟩
  · intro j q as hmem
    rw [(h.rpc j).log] at hmem
    cases hmem
  · intro j rp hmem
    rw [(h.rpc j).log] at hmem
    cases hmem
  · intro i req len msg ret hmem
    rw [hlog i] at hmem
    cases hmem

theorem run_inv {es : List (Event σ)} {s₀ s : Net σ} (h0 : Booted s₀)
    (hrun : Run (step srvs onResp) NoClash s₀ es s) (hplain : Plain s) : Inv srvs s := by
  refine hrun.invariant (I := fun _ s => Plain s → Inv srvs s) (fun _ => inv_booted h0) ?_ hplain
  intro es s e t _ hI hclash ht hplain
  have hplain' : Plain s := hplain.of_grown (step_grown ht)
  exact (hI hplain').step hplain' hclash ht

/-- Where one node alone makes requests, no two of them clash. -/
theorem run_noClash {es : List (Event σ)} {s₀ s : Net σ} {i : NodeId} (h0 : Booted s₀)
    (hrun : Run (step srvs onResp) anyStep s₀ es s) (hplain : Plain s)
    (hone : ∀ i', i' ≠ i → ∀ req p, ¬Asked s i' req p) : Run (step srvs onResp) NoClash s₀ es s := by
  induction hrun with
  | nil => exact .nil
  | @cons es s e t _ _ ht ih =>
    have hg := step_grown ht
    have hplain := hplain.of_grown hg
    have hone : ∀ i', i' ≠ i → ∀ req p, ¬Asked s i' req p := fun i' hi req p hp => hone i' hi req p (hg.sys i' hp)
    have hrun := ih hplain hone
    have hinv := run_inv h0 hrun hplain
    refine .cons hrun ?_ ht
    cases e with
    | deliver i' j pkt a b net x =>
      intro q as hhead hpair
      obtain ⟨k,req,p,hp,-,rfl⟩ := hinv.ran j q as (mem_runs hhead)
      have hk : k = i := by_contra fun hk => hone k hk req p hp
      have hout : pkt ∈ (s i').out := by
        rw [step] at ht
        split at ht
        · assumption
        · cases ht
      rcases List.mem_append.mp hout with hout | hout
      · obtain ⟨req',hp'⟩ := mem_requestsOut.mp hout
        have hi' : i' = i := by_contra fun hi => hone i' hi req' pkt hp'
        rw [hi',← hk]
        rfl
      · obtain ⟨rp,hrp,rfl⟩ := mem_respondsOut.mp hout
        obtain ⟨k',req',p',-,-,hto,-⟩ := hinv.sent i' rp hrp
        have hsrvid : p.hdr.srvid = rp.srvid := (Prod.mk.inj hpair).1
        exact absurd (hsrvid ▸ hplain k req p hp) (respond_top hto)
    | _ => trivial

/-- The callback of a request of `i` got the answer of one of the nodes the request is for: to its
own message, from a run of the service it asks for, or an empty one. -/
structure Answered (s : Net σ) (i : NodeId) (req : ℕ) (len : BitVec 16) (msg : Bytes) : Prop where
  len : len = BitVec.ofNat 16 msg.length
  from_asked : ∃ (j : NodeId) (p : Packet), Asked s i req p ∧ Reaches p j ∧
    (msg = [] ∨ ∃ as, .ran (reqFrom i p) as ∈ (s j).rpc.log ∧ msg ∈ as)

theorem Inv.answered {s : Net σ} (h : Inv srvs s) {i : NodeId} (hfew : (s i).sys.2.created ≤ 2^32)
    {req : ℕ} {len : BitVec 16} {msg : Bytes} {ret : ℤ}
    (hcall : .called req (some (len,msg)) ret ∈ (s i).sys.2.log) : Answered s i req len msg := by
  obtain ⟨j,p,rp,hp,hrp,hto,rfl,hlen⟩ := h.called i req len msg ret hcall
  refine ⟨hlen,j,p,hp,?_⟩
  obtain ⟨i',req',p',hp',hreach,hto',hmsg⟩ := h.sent j rp hrp
  obtain rfl : i' = i := Subtype.ext (hto'.dnode.symm.trans hto.dnode)
  obtain ⟨rfl,rfl⟩ := (h.numbered i').session_inj hfew hp' hp (hto'.sessn.symm.trans hto.sessn)
  refine ⟨hreach,hmsg.imp_right ?_⟩
  rintro ⟨q,as,hran,hsrc,hpair,hmem⟩
  obtain ⟨i'',req'',p'',hp'',-,rfl⟩ := h.ran j q as hran
  obtain rfl : i'' = i' := Subtype.ext hsrc
  obtain ⟨-,rfl⟩ := (h.numbered i'').session_inj hfew hp'' hp (Prod.mk.inj hpair).2
  exact ⟨as,hran,hmem⟩

/-- Whatever the network does to the packets, what a callback gets is the answer to its request. -/
theorem run_answered {es : List (Event σ)} {s₀ s : Net σ} (h0 : Booted s₀)
    (hrun : Run (step srvs onResp) NoClash s₀ es s) (hplain : Plain s) {i : NodeId}
    (hfew : (s i).sys.2.created ≤ 2^32) {req : ℕ} {len : BitVec 16} {msg : Bytes} {ret : ℤ}
    (hcall : .called req (some (len,msg)) ret ∈ (s i).sys.2.log) : Answered s i req len msg :=
  (run_inv h0 hrun hplain).answered hfew hcall

/-! ### A respond that gets lost -/

def cn : NodeId := ⟨0,by decide⟩

def tn : NodeId := ⟨5,by decide⟩

def booted (_ : NodeId) : Station Services.TnCtx := ⟨Requests.init,tnBooted Services.resNodeCfg⟩

/-- What the CN asks, and what the TN answers. -/
def asks : Packet := ⟨5,⟨0x13,0,0,2⟩,[0,9]⟩

def tells : Packet := Wire.respond ⟨0,0x80000013,0,0,[5]⟩

def silent : Script := ⟨[],0,.sent,1000000⟩

/-- The respond to the first packet is lost, the one to the second packet arrives. -/
def lostRespond : List (Event Services.TnCtx) :=
  [.act cn (.create 5 0x13),.act cn (.send 0 [0,9] true .sent (some 7) 0),.deliver cn tn asks 0 0 netUp silent,
    .queueEvent cn 1000000 [silent],.deliver cn tn asks 0 0 netUp silent,.deliver tn cn tells 0 0 netUp silent]

theorem booted_booted : Booted booted := ⟨fun _ => rfl,fun _ => tnBooted_fresh _⟩

/-- What holds of the packets of every number holds of those of every node. -/
theorem forall_node {P : NodeId → Prop} (h : ∀ (k : Fin 256) (hk : UInt8.ofFin k ≠ 0xff), P ⟨.ofFin k,hk⟩) (i : NodeId) :
    P i := h i.1.toFin i.2

theorem lostRespond_answered : ∃ s : Net Services.TnCtx, Answered s cn 0 1 [5] ∧ (s cn).sys.2.reqList = [] := by
  have hexec : ((exec (step (fun _ => Services.tnServices 0) fun _ => noResp) booted lostRespond).map fun s =>
      decide ((.called 0 (some (1,[5])) 0 ∈ (s cn).sys.2.log ∧ (s cn).sys.2.reqList = [] ∧
          (s cn).sys.2.created ≤ 2^32) ∧
        ∀ (k : Fin 256) (hk : UInt8.ofFin k ≠ 0xff),
          (∀ p ∈ requestsOut (s ⟨.ofFin k,hk⟩).sys.2.log, p.hdr.srvid &&& respondBit = 0#32) ∧
            (UInt8.ofFin k ≠ 0 → requestsOut (s ⟨.ofFin k,hk⟩).sys.2.log = []))) = some true := by
    decide +kernel
  obtain ⟨s,hrun,hs⟩ := run_of_exec_map _ booted _ _ hexec
  obtain ⟨⟨hcall,hlist,hfew⟩,hall⟩ := of_decide_eq_true hs
  have hout := forall_node (P := fun i => (∀ p ∈ requestsOut (s i).sys.2.log, p.hdr.srvid &&& respondBit = 0#32) ∧
    (i.1 ≠ 0 → requestsOut (s i).sys.2.log = [])) hall
  have hplain : Plain s := fun i req p hp => (hout i).1 p (mem_requestsOut.mpr ⟨req,hp⟩)
  have hone : ∀ i', i' ≠ cn → ∀ req p, ¬Asked s i' req p := by
    intro i' hi req p hp
    have hnil := (hout i').2 fun h0 => hi (Subtype.ext h0)
    exact List.ne_nil_of_mem (mem_requestsOut.mpr ⟨req,hp⟩) hnil
  exact ⟨s,run_answered booted_booted (run_noClash booted_booted hrun hplain hone) hplain hfew hcall,hlist⟩

end Stations
end Autbus
