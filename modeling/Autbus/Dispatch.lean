import Autbus.Bytes
import Autbus.Requests

/-! What `rpc_proc_input` calls for a packet, and which bytes of the packet it points at. The
length is the one that the packet states itself. -/
namespace Autbus
namespace Dispatch

open Autbus.Bytes (Span)
open SrvRpc (Bytes Service SrvSession Node RpcHdr byteAt le16 accepted respondBit rpcSrvSearch)
open Requests (Rpc rpcReqSearch)

inductive Target
  | service (srvid : BitVec 32)
  | request (preq : ℕ)
  deriving DecidableEq

/-- A call of `cbkf`, with the bytes that its message pointer and its length describe. -/
structure Handed where
  cbkf : Target
  msg : Span
  deriving DecidableEq

variable {σ : Type}

/-- One round of `rpc_proc_input`: the call it makes, by the session before it. The header lies
behind 5 bytes and the message behind its 12. -/
def rpcProcInput (srvList : List (BitVec 32 × Service σ)) (session : SrvSession) (reqs : Rpc) (tnd : UInt8)
    (ipkt : Bytes) : Option Handed :=
  match accepted tnd ipkt with
  | none => none
  | some (_,phdr,_) =>
    let msg : Span := ⟨5+12,phdr.msglen.toNat⟩
    if phdr.srvid &&& respondBit = 0#32 then
      if session.srvid = phdr.srvid ∧ session.sessn = phdr.sessn then none
      else (rpcSrvSearch srvList phdr.srvid).map fun _ => ⟨.service phdr.srvid,msg⟩
    else (rpcReqSearch reqs (phdr.srvid &&& 0x7FFFFFFF#32) phdr.sessn).map fun preq => ⟨.request preq,msg⟩

/-- A packet for this node, with all of the bytes that are handed over. -/
structure Sound (tnd : UInt8) (ipkt : Bytes) (h : Handed) : Prop where
  type : byteAt ipkt 0 = 0x18
  dnode : byteAt ipkt 4 = tnd ∨ byteAt ipkt 4 = 0xff
  inside : h.msg.start+h.msg.len ≤ ipkt.length

/-- The packet passes the checks and is for somebody: a new request for a service there is, or
the respond to a request that waits. -/
def Expected (srvList : List (BitVec 32 × Service σ)) (session : SrvSession) (reqs : Rpc) (tnd : UInt8)
    (ipkt : Bytes) : Prop :=
  ∃ src phdr msg, accepted tnd ipkt = some (src,phdr,msg) ∧
    (phdr.srvid &&& respondBit = 0#32 ∧ ¬(session.srvid = phdr.srvid ∧ session.sessn = phdr.sessn) ∧
        (rpcSrvSearch srvList phdr.srvid).isSome = true ∨
      phdr.srvid &&& respondBit ≠ 0#32 ∧
        (rpcReqSearch reqs (phdr.srvid &&& 0x7FFFFFFF#32) phdr.sessn).isSome = true)

section Input

variable {srvList : List (BitVec 32 × Service σ)} {session : SrvSession} {reqs : Rpc} {tnd : UInt8} {ipkt : Bytes}
  {h : Handed}

/-- The checks, and the fields of the header. -/
theorem accepted_cases {src : UInt8} {phdr : RpcHdr} {msg : Bytes} (ha : accepted tnd ipkt = some (src,phdr,msg)) :
    17 ≤ ipkt.length ∧ byteAt ipkt 0 = 0x18 ∧ (byteAt ipkt 4 = tnd ∨ byteAt ipkt 4 = 0xff) ∧
      phdr.msglen = le16 ipkt 15 ∧ msg = ipkt.drop 17 := by
  unfold accepted at ha
  split at ha
  · cases ha
  · next hlen =>
    split at ha
    · cases ha
    · next htype =>
      split at ha
      · cases ha
      · next hdst =>
        cases ha
        refine ⟨Nat.not_lt.mp hlen,not_not.mp htype,?_,rfl,rfl⟩
        by_contra hno
        exact hdst ⟨fun heq => hno (Or.inl heq),fun heq => hno (Or.inr heq)⟩

theorem rpcProcInput_cases (hh : rpcProcInput srvList session reqs tnd ipkt = some h) :
    ∃ src phdr msg, accepted tnd ipkt = some (src,phdr,msg) ∧ h.msg = ⟨17,phdr.msglen.toNat⟩ ∧
      (phdr.srvid &&& respondBit = 0#32 ∧ ¬(session.srvid = phdr.srvid ∧ session.sessn = phdr.sessn) ∧
          (rpcSrvSearch srvList phdr.srvid).isSome = true ∧ h.cbkf = .service phdr.srvid ∨
        phdr.srvid &&& respondBit ≠ 0#32 ∧
          ∃ preq, rpcReqSearch reqs (phdr.srvid &&& 0x7FFFFFFF#32) phdr.sessn = some preq ∧ h.cbkf = .request preq) := by
  unfold rpcProcInput at hh
  cases ha : accepted tnd ipkt with
  | none =>
    rw [ha] at hh
    cases hh
  | some a =>
    obtain ⟨src,phdr,msg⟩ := a
    rw [ha] at hh
    dsimp only at hh
    refine ⟨src,phdr,msg,rfl,?_⟩
    split at hh
    · next hreq =>
      split at hh
      · cases hh
      · next hnew =>
        obtain ⟨srv,hsrv,rfl⟩ := Option.map_eq_some_iff.mp hh
        exact ⟨rfl,Or.inl ⟨hreq,hnew,by rw [hsrv]; rfl,rfl⟩⟩
    · next hresp =>
      obtain ⟨preq,hpreq,rfl⟩ := Option.map_eq_some_iff.mp hh
      exact ⟨rfl,Or.inr ⟨hresp,preq,hpreq,rfl⟩⟩

/-- A call is made when somebody expects the packet. -/
theorem rpcProcInput_isSome :
    (rpcProcInput srvList session reqs tnd ipkt).isSome = true ↔ Expected srvList session reqs tnd ipkt := by
  constructor
  · intro hsome
    obtain ⟨h,hh⟩ := Option.isSome_iff_exists.mp hsome
    obtain ⟨src,phdr,msg,ha,-,⟨hreq,hnew,hsrv,-⟩ | ⟨hresp,preq,hpreq,-⟩⟩ := rpcProcInput_cases hh
    · exact ⟨src,phdr,msg,ha,Or.inl ⟨hreq,hnew,hsrv⟩⟩
    · exact ⟨src,phdr,msg,ha,Or.inr ⟨hresp,by rw [hpreq]; rfl⟩⟩
  · rintro ⟨src,phdr,msg,ha,⟨hreq,hnew,hsrv⟩ | ⟨hresp,hpreq⟩⟩
    · unfold rpcProcInput
      rw [ha]
      dsimp only
      rw [if_pos hreq,if_neg hnew,Option.isSome_map]
      exact hsrv
    · unfold rpcProcInput
      rw [ha]
      dsimp only
      rw [if_neg hresp,Option.isSome_map]
      exact hpreq

theorem sound_iff : (∀ h, rpcProcInput srvList session reqs tnd ipkt = some h → Sound tnd ipkt h) ↔
    (Expected srvList session reqs tnd ipkt → 17+(le16 ipkt 15).toNat ≤ ipkt.length) := by
  constructor
  · intro hsound hexp
    obtain ⟨h,hh⟩ := Option.isSome_iff_exists.mp (rpcProcInput_isSome.mpr hexp)
    obtain ⟨src,phdr,msg,ha,hmsg,-⟩ := rpcProcInput_cases hh
    obtain ⟨-,-,-,hlen,-⟩ := accepted_cases ha
    have hinside := (hsound h hh).inside
    rw [hmsg,hlen] at hinside
    exact hinside
  · intro hlen h hh
    obtain ⟨src,phdr,msg,ha,hmsg,-⟩ := rpcProcInput_cases hh
    obtain ⟨-,htype,hdst,hmsglen,-⟩ := accepted_cases ha
    have hinside := hlen (rpcProcInput_isSome.mp (by rw [hh]; rfl))
    refine ⟨htype,hdst,?_⟩
    rw [hmsg,hmsglen]
    exact hinside

/-- The services of `SrvRpc` run on what is handed to them. -/
theorem runs_rpcProcInput (onResp : σ → RpcHdr → Bytes → σ) (net : ℕ → SrvRpc.Send) (n : Node σ) (srvid : BitVec 32)
    (msg : Span) :
    rpcProcInput srvList n.session reqs tnd ipkt = some ⟨.service srvid,msg⟩ →
      ∃ r answers, SrvRpc.runs (SrvRpc.rpcProcInput srvList onResp tnd net ipkt n).2 = [(r,answers)] ∧
        r.srvid = srvid ∧ r.msglen = msg.len ∧ r.msg = ipkt.drop msg.start := by
  intro hh
  obtain ⟨src,phdr,rest,ha,hmsg,⟨hreq,hnew,hsrv,htarget⟩ | ⟨-,preq,-,htarget⟩⟩ := rpcProcInput_cases hh
  · obtain ⟨-,-,-,-,hrest⟩ := accepted_cases ha
    obtain ⟨cbkf,hcbkf⟩ := Option.isSome_iff_exists.mp hsrv
    cases htarget
    dsimp only at hmsg
    refine ⟨⟨src,phdr.srvid,phdr.sessn,phdr.msglen.toNat,rest⟩,(cbkf src n.ctx phdr.msglen.toNat rest).2,?_,rfl,
      by rw [hmsg],by rw [hmsg]; exact hrest⟩
    unfold SrvRpc.rpcProcInput
    rw [ha]
    dsimp only
    rw [if_pos hreq]
    unfold SrvRpc.procRequest
    dsimp only
    rw [if_neg hnew,hcbkf]
    dsimp only
    rw [SrvRpc.runs_ran,SrvRpc.runs_sent]
  · cases htarget

/-- The callbacks of `Requests` are called with what is handed to them. -/
theorem called_rpcProcInput {s : Requests.Sys} {x : Requests.Script} {preq : ℕ} {msg : Span}
    (hh : rpcProcInput srvList session s.2 tnd ipkt = some ⟨.request preq,msg⟩) :
    Requests.rpcProcInput tnd ipkt x s =
      (Requests.acts x.acts
        (s.1,s.2.note (.called preq (some (BitVec.ofNat 16 msg.len,ipkt.drop msg.start)) x.ret))).bind
          fun s => if x.ret = 0 then Requests.rpcDeleteRequest preq s else some s := by
  obtain ⟨src,phdr,rest,ha,hmsg,⟨-,-,-,htarget⟩ | ⟨hresp,preq',hpreq,htarget⟩⟩ := rpcProcInput_cases hh
  · cases htarget
  · obtain ⟨-,-,-,-,hrest⟩ := accepted_cases ha
    cases htarget
    dsimp only at hmsg
    unfold Requests.rpcProcInput
    rw [ha]
    dsimp only
    rw [if_neg hresp,hpreq,hmsg,hrest]
    dsimp only
    rw [BitVec.ofNat_toNat,BitVec.setWidth_eq]

end Input

/-- A request of 17 bytes for service 0x20 that announces 1024 more. -/
def announced : Bytes := [0x18,0,0,2,5] ++ [0x20,0,0,0] ++ [1,0,0,0] ++ [0,0] ++ [0,4]

/-- After `rpc_init`. -/
def freshSession : SrvSession := ⟨0,-1,-1,0,[]⟩

def otaData : List (BitVec 32 × Service Unit) := [(0x20,fun _ _ _ _ => ((),[]))]

theorem announced_beyond :
    ¬∀ h, rpcProcInput otaData freshSession Requests.init.2 5 announced = some h → Sound 5 announced h := by
  intro h
  have hinside := (h ⟨.service 0x20,⟨17,1024⟩⟩ (by decide)).inside
  exact absurd hinside (by decide)

end Dispatch
end Autbus
