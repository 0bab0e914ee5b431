import Autbus.Requests

/-! The bytes of an RPC packet (`sysrpc.c`): `rpc_make_request` and `rpc_make_respond` write the
destination and a header in front of the message, the interface that receives the packet puts four
more bytes there, and `rpc_proc_input` reads the whole. -/
namespace Autbus
namespace Wire

open SrvRpc (Bytes RpcHdr Respond Req byteAt le16 le32 accepted reqOf respondBit)
open Requests (Packet)

/-- A `uint16_t` in memory. -/
def bytes16 (x : BitVec 16) : Bytes := [⟨x.setWidth 8⟩,⟨(x >>> 8).setWidth 8⟩]

/-- A `uint32_t` in memory. -/
def bytes32 (x : BitVec 32) : Bytes := bytes16 (x.setWidth 16) ++ bytes16 ((x >>> 16).setWidth 16)

/-- `rpc_hdr_t` in memory. -/
def hdrBytes (h : RpcHdr) : Bytes := bytes32 h.srvid ++ bytes32 h.sessn ++ bytes16 h.status ++ bytes16 h.msglen

/-- What is handed to `send`. -/
def bytes (p : Packet) : Bytes := p.dnode::(hdrBytes p.hdr ++ p.msg)

/-- A respond with its header. -/
def respond (p : Respond) : Packet :=
  ⟨p.dnode,⟨p.srvid,p.sessn,p.status,BitVec.ofNat 16 p.msg.length⟩,p.msg⟩

/-- The packet as it is received: the type, the two bytes of the interface's own, the node that
sent it. -/
def received (a b src : UInt8) (p : Packet) : Bytes := [0x18,a,b,src] ++ bytes p

theorem le16_bytes16 (pre : Bytes) (x : BitVec 16) (rest : Bytes) :
    le16 (pre ++ (bytes16 x ++ rest)) pre.length = x := by
  have h0 : byteAt (pre ++ (bytes16 x ++ rest)) pre.length = ⟨x.setWidth 8⟩ := by
    simp [byteAt,bytes16]
  have h1 : byteAt (pre ++ (bytes16 x ++ rest)) (pre.length+1) = ⟨(x >>> 8).setWidth 8⟩ := by
    simp [byteAt,bytes16]
  rw [le16,h0,h1]
  apply BitVec.eq_of_getLsbD_eq
  intro i hi
  rw [BitVec.getLsbD_append]
  by_cases hlt : i < 8
  · simp [hlt]
  · have hi' : i-8 < 8 := by omega
    simp [hlt,hi',show 8+(i-8) = i by omega]

theorem le32_bytes32 (pre : Bytes) (x : BitVec 32) (rest : Bytes) :
    le32 (pre ++ (bytes32 x ++ rest)) pre.length = x := by
  have h0 : le16 (pre ++ (bytes32 x ++ rest)) pre.length = x.setWidth 16 := by
    rw [bytes32,List.append_assoc]
    exact le16_bytes16 pre _ _
  have h1 : le16 (pre ++ (bytes32 x ++ rest)) (pre.length+2) = (x >>> 16).setWidth 16 := by
    have h := le16_bytes16 (pre ++ bytes16 (x.setWidth 16)) ((x >>> 16).setWidth 16) rest
    rw [bytes32]
    simpa [bytes16] using h
  rw [le32,h0,h1]
  apply BitVec.eq_of_getLsbD_eq
  intro i hi
  rw [BitVec.getLsbD_append]
  by_cases hlt : i < 16
  · simp [hlt]
  · have hi' : i-16 < 16 := by omega
    simp [hlt,hi',show 16+(i-16) = i by omega]

/-- What was written is what is read, by the node the packet is for and by no other one. -/
theorem accepted_received (tnd a b src : UInt8) (p : Packet) :
    accepted tnd (received a b src p) =
      if p.dnode = tnd ∨ p.dnode = 0xff then some (src,p.hdr,p.msg) else none := by
  have hlen : ¬(received a b src p).length < 17 := by
    simp [received,bytes,hdrBytes,bytes32,bytes16]
  have hsrvid : le32 (received a b src p) 5 = p.hdr.srvid := by
    have h := le32_bytes32 [0x18,a,b,src,p.dnode] p.hdr.srvid
      (bytes32 p.hdr.sessn ++ bytes16 p.hdr.status ++ bytes16 p.hdr.msglen ++ p.msg)
    simpa [received,bytes,hdrBytes] using h
  have hsessn : le32 (received a b src p) 9 = p.hdr.sessn := by
    have h := le32_bytes32 ([0x18,a,b,src,p.dnode] ++ bytes32 p.hdr.srvid) p.hdr.sessn
      (bytes16 p.hdr.status ++ bytes16 p.hdr.msglen ++ p.msg)
    simpa [received,bytes,hdrBytes,bytes32,bytes16] using h
  have hstatus : le16 (received a b src p) 13 = p.hdr.status := by
    have h := le16_bytes16 ([0x18,a,b,src,p.dnode] ++ bytes32 p.hdr.srvid ++ bytes32 p.hdr.sessn) p.hdr.status
      (bytes16 p.hdr.msglen ++ p.msg)
    simpa [received,bytes,hdrBytes,bytes32,bytes16] using h
  have hmsglen : le16 (received a b src p) 15 = p.hdr.msglen := by
    have h := le16_bytes16 ([0x18,a,b,src,p.dnode] ++ bytes32 p.hdr.srvid ++ bytes32 p.hdr.sessn ++
      bytes16 p.hdr.status) p.hdr.msglen p.msg
    simpa [received,bytes,hdrBytes,bytes32,bytes16] using h
  have hmsg : (received a b src p).drop 17 = p.msg := rfl
  rw [accepted,if_neg hlen,if_neg (by simp [received,byteAt]),hsrvid,hsessn,hstatus,hmsglen,hmsg]
  have hdst : byteAt (received a b src p) 4 = p.dnode := rfl
  have hsrc : byteAt (received a b src p) 3 = src := rfl
  rw [hdst,hsrc]
  by_cases h : p.dnode = tnd ∨ p.dnode = 0xff
  · rw [if_pos h,if_neg fun hno => h.elim hno.1 hno.2]
  · rw [if_neg h,if_pos (not_or.mp h)]

end Wire
end Autbus
