import Autbus.Trace
import Autbus.Slot
import Mathlib.Data.List.Basic

/-! The service side of `sysrpc.c`: one remembered session, the answer of a service
stored in it, and the loop that takes packets in. A response packet reaches the
requester's callbacks, which answer nothing; they act on the context only. -/
namespace Autbus
namespace SrvRpc

open Trace

abbrev Bytes := List UInt8

def byteAt (b : Bytes) (i : ℕ) : UInt8 := b.getD i 0

def le16 (b : Bytes) (i : ℕ) : BitVec 16 := (byteAt b (i+1)).toBitVec ++ (byteAt b i).toBitVec

def le32 (b : Bytes) (i : ℕ) : BitVec 32 := le16 b (i+2) ++ le16 b i

/-- `rpc_hdr_t`. The top bit of `srvid` is 0 for a request, 1 for a response. -/
structure RpcHdr where
  srvid : BitVec 32
  sessn : BitVec 32
  status : BitVec 16
  msglen : BitVec 16
  deriving DecidableEq

/-- `rpc_srv_session_t`; `pmsg` is what was last copied into its buffer. -/
structure SrvSession where
  srcnd : UInt8
  srvid : BitVec 32
  sessn : BitVec 32
  tlen : ℕ
  pmsg : Bytes

/-- A packet of `rpc_make_respond`. -/
structure Respond where
  dnode : UInt8
  srvid : BitVec 32
  sessn : BitVec 32
  status : BitVec 16
  msg : Bytes
  deriving DecidableEq

/-- A request as `rpc_proc_input` takes it out of its packet. -/
structure Req where
  srcnd : UInt8
  srvid : BitVec 32
  sessn : BitVec 32
  msglen : ℕ
  msg : Bytes
  deriving DecidableEq

/-- What the memory of the session compares. -/
def Req.pair (r : Req) : BitVec 32 × BitVec 32 := (r.srvid,r.sessn)

/-- What identifies a request. -/
def Req.key (r : Req) : UInt8 × BitVec 32 × BitVec 32 := (r.srcnd,r.pair)

def SrvSession.pair (s : SrvSession) : BitVec 32 × BitVec 32 := (s.srvid,s.sessn)

def respondBit : BitVec 32 := 0x80000000#32

/-- A service, given what `get_srcnid` returns: the new context and the messages it
hands to `rpc_respond_send`. -/
abbrev Service (σ : Type) := UInt8 → σ → ℕ → Bytes → σ × List Bytes

/-- What the node did. -/
inductive Entry
  | ran (r : Req) (answers : List Bytes)
  | sent (p : Respond)
  deriving DecidableEq

structure Node (σ : Type) where
  session : SrvSession
  ctx : σ

/-- The outcome of `pkt_alloc` and `send`. -/
inductive Send
  | sent | noPkt | notSent
  deriving DecidableEq

/-- `rpc_make_respond`: the return code and the packet that got out. -/
def rpcMakeRespond (net : Send) (s : SrvSession) (status : BitVec 16) : ℕ × List Respond :=
  match net with
  | .noPkt => (1,[])
  | .notSent => (3,[])
  | .sent => (0,[⟨s.srcnd,s.srvid ||| respondBit,s.sessn,status,s.pmsg.take s.tlen⟩])

/-- `rpc_respond_send`. -/
def rpcRespondSend (net : Send) (s : SrvSession) (pmsg : Bytes) : ℕ × SrvSession × List Respond :=
  if s.tlen ≠ 0 then (1,s,[])
  else if pmsg.length > 1500 then (2,s,[])
  else
    let s := {s with tlen := pmsg.length,pmsg := pmsg}
    (0,s,(rpcMakeRespond net s 0).2)

/-- The calls of `rpc_respond_send` a service makes, one after the other. -/
def respondAll : (ℕ → Send) → SrvSession → List Bytes → SrvSession × List Respond
  | _, s, [] => (s,[])
  | net, s, a::as =>
    let (_,s,out) := rpcRespondSend (net 0) s a
    let (s,rest) := respondAll (fun i => net (i+1)) s as
    (s,out ++ rest)

/-- `rpc_srv_search` in `srv_list`. -/
def rpcSrvSearch {σ : Type} (srvs : List (BitVec 32 × Service σ)) (srvid : BitVec 32) :
    Option (Service σ) :=
  (srvs.find? fun s => s.1 = srvid).map Prod.snd

/-- The checks on a packet, and its parts: the source node, the header, the rest. -/
def accepted (tnd : UInt8) (ipkt : Bytes) : Option (UInt8 × RpcHdr × Bytes) :=
  if ipkt.length < 17 then none
  else if byteAt ipkt 0 ≠ 0x18 then none
  else if byteAt ipkt 4 ≠ tnd ∧ byteAt ipkt 4 ≠ 0xff then none
  else some (byteAt ipkt 3,⟨le32 ipkt 5,le32 ipkt 9,le16 ipkt 13,le16 ipkt 15⟩,ipkt.drop 17)

/-- The request a packet carries, if it is accepted and no response. -/
def reqOf (tnd : UInt8) (ipkt : Bytes) : Option Req :=
  match accepted tnd ipkt with
  | none => none
  | some (src,hdr,msg) =>
    if hdr.srvid &&& respondBit = 0#32 then some ⟨src,hdr.srvid,hdr.sessn,hdr.msglen.toNat,msg⟩ else none

section Node

variable {σ : Type} (srvs : List (BitVec 32 × Service σ)) (onResp : σ → RpcHdr → Bytes → σ)
  (tnd : UInt8)

/-- The branch of `rpc_proc_input` for a request, with what the node did, in order. The
source node is already stored. -/
def procRequest (net : ℕ → Send) (r : Req) (n : Node σ) : Node σ × List Entry :=
  if n.session.srvid = r.srvid ∧ n.session.sessn = r.sessn then
    (n,(rpcMakeRespond (net 0) n.session 0).2.map .sent)
  else
    let s := {n.session with srvid := r.srvid,sessn := r.sessn,tlen := 0}
    match rpcSrvSearch srvs r.srvid with
    | some cbkf =>
      let (ctx,answers) := cbkf n.session.srcnd n.ctx r.msglen r.msg
      let (s,out) := respondAll net s answers
      (⟨s,ctx⟩,.ran r answers::out.map .sent)
    | none => (⟨s,n.ctx⟩,(rpcMakeRespond (net 0) s 0).2.map .sent)

/-- One round of `rpc_proc_input`. -/
def rpcProcInput (net : ℕ → Send) (ipkt : Bytes) (n : Node σ) : Node σ × List Entry :=
  match accepted tnd ipkt with
  | none => (n,[])
  | some (src,hdr,msg) =>
    let n := {n with session := {n.session with srcnd := src}}
    if hdr.srvid &&& respondBit = 0#32 then
      procRequest srvs net ⟨src,hdr.srvid,hdr.sessn,hdr.msglen.toNat,msg⟩ n
    else ({n with ctx := onResp n.ctx hdr msg},[])

/-- A packet comes in, or the rest of the node changes what the services look at. -/
inductive Event (σ : Type)
  | deliver (ipkt : Bytes) (net : ℕ → Send)
  | context (ctx : σ)

/-- A node with what it did so far, the newest first. -/
structure Logged (σ : Type) where
  node : Node σ
  log : List Entry

/-- The node after an event, and what it did. -/
def handle (n : Node σ) : Event σ → Node σ × List Entry
  | .deliver ipkt net => rpcProcInput srvs onResp tnd net ipkt n
  | .context ctx => ({n with ctx := ctx},[])

def step (s : Logged σ) (e : Event σ) : Option (Logged σ) :=
  let (n,out) := handle srvs onResp tnd s.node e
  some ⟨n,out.reverse ++ s.log⟩

/-- After `rpc_init`. -/
structure Fresh (s : Logged σ) : Prop where
  srvid : s.node.session.srvid = -1
  sessn : s.node.session.sessn = -1
  tlen : s.node.session.tlen = 0
  log : s.log = []

def Event.req : Event σ → Option Req
  | .deliver ipkt _ => reqOf tnd ipkt
  | .context _ => none

/-- The requests delivered so far, the newest first. -/
def requests (es : List (Event σ)) : List Req := es.filterMap (Event.req tnd)

end Node

/-- The service runs among the entries. -/
def runs (l : List Entry) : List (Req × List Bytes) := l.filterMap fun
  | .ran r answers => some (r,answers)
  | .sent _ => none

@[simp] theorem runs_sent (ps : List Respond) : runs (ps.map .sent) = [] := by
  simp [runs]

@[simp] theorem runs_append (l m : List Entry) : runs (l ++ m) = runs l ++ runs m :=
  List.filterMap_append

@[simp] theorem runs_ran (r : Req) (as : List Bytes) (l : List Entry) :
    runs (.ran r as::l) = (r,as)::runs l := rfl

/-! ### What the session keeps of the answers -/

/-- The session holds nothing, or one of the answers in `as`. -/
def Holds (s : SrvSession) (as : List Bytes) : Prop := s.tlen = 0 ∨ s.pmsg.take s.tlen ∈ as

/-- A packet for the request of the session, with one of the answers in `as`. -/
structure AnswerTo (s : SrvSession) (as : List Bytes) (p : Respond) : Prop where
  dnode : p.dnode = s.srcnd
  srvid : p.srvid = s.srvid ||| respondBit
  sessn : p.sessn = s.sessn
  msg : p.msg ∈ as

/-- The same request as before, with a stored answer out of `as`. -/
structure Serves (as : List Bytes) (s s' : SrvSession) : Prop where
  srcnd : s'.srcnd = s.srcnd
  pair : s'.pair = s.pair
  holds : Holds s' as

theorem AnswerTo.of_serves {s s' : SrvSession} {as : List Bytes} {p : Respond} (h : AnswerTo s' as p)
    (hs : Serves as s s') : AnswerTo s as p := by
  have hpair := hs.pair
  simp only [SrvSession.pair,Prod.mk.injEq] at hpair
  exact ⟨h.dnode.trans hs.srcnd,hpair.1 ▸ h.srvid,h.sessn.trans hpair.2,h.msg⟩

theorem rpcMakeRespond_sent {net : Send} {s : SrvSession} {st : BitVec 16} {p : Respond}
    (h : p ∈ (rpcMakeRespond net s st).2) :
    p = ⟨s.srcnd,s.srvid ||| respondBit,s.sessn,st,s.pmsg.take s.tlen⟩ := by
  cases net with
  | sent => exact List.mem_singleton.mp h
  | noPkt => simp [rpcMakeRespond] at h
  | notSent => simp [rpcMakeRespond] at h

theorem rpcRespondSend_serves {net : Send} {s : SrvSession} {a : Bytes} {as : List Bytes}
    (h : Holds s as) (ha : a ∈ as) :
    Serves as s (rpcRespondSend net s a).2.1 ∧ ∀ p ∈ (rpcRespondSend net s a).2.2, AnswerTo s as p := by
  unfold rpcRespondSend
  by_cases ht : s.tlen = 0
  · by_cases hl : a.length > 1500
    · simpa [ht,hl] using Serves.mk rfl rfl h
    · simp only [ht,hl,ne_eq,not_true_eq_false,if_false]
      refine ⟨⟨rfl,rfl,Or.inr (by simpa using ha)⟩,?_⟩
      intro p hp
      rw [rpcMakeRespond_sent hp]
      exact ⟨rfl,rfl,rfl,by simpa using ha⟩
  · simpa [ht] using Serves.mk rfl rfl h

/-- All calls of one service: the request stays, the packets answer it. -/
theorem respondAll_serves {as bs : List Bytes} (net : ℕ → Send) (s : SrvSession) (h : Holds s as)
    (hb : bs ⊆ as) :
    Serves as s (respondAll net s bs).1 ∧ ∀ p ∈ (respondAll net s bs).2, AnswerTo s as p := by
  induction bs generalizing net s with
  | nil => exact ⟨⟨rfl,rfl,h⟩,by simp [respondAll]⟩
  | cons b bs ih =>
    obtain ⟨hs,hp⟩ := @rpcRespondSend_serves (net 0) s b as h (hb (by simp))
    have hrest := ih (fun i => net (i+1)) (rpcRespondSend (net 0) s b).2.1 hs.holds
      (fun x hx => hb (List.mem_cons_of_mem _ hx))
    rw [respondAll]
    refine ⟨⟨hrest.1.srcnd.trans hs.srcnd,hrest.1.pair.trans hs.pair,hrest.1.holds⟩,?_⟩
    intro p hmem
    rcases List.mem_append.mp hmem with hmem | hmem
    · exact hp p hmem
    · exact (hrest.2 p hmem).of_serves hs

end SrvRpc
end Autbus
