import Autbus.Bundles

/-! UDP datagrams on their way to the sockets that listen (`minip.c`). A packet is clipped for each
socket it is given to, and all of them are given the same packet. -/
namespace Autbus
namespace Datagrams

open Bytes Bundles

/-- `__builtin_bswap16`. -/
def bswap16 (x : UInt16) : UInt16 := x <<< 8 ||| x >>> 8

theorem swap_swap (y : BitVec 16) : (y <<< 8 ||| y >>> 8) <<< 8 ||| (y <<< 8 ||| y >>> 8) >>> 8 = y := by
  apply BitVec.eq_of_getLsbD_eq
  intro i hi
  simp only [BitVec.getLsbD_or,BitVec.getLsbD_shiftLeft,BitVec.getLsbD_ushiftRight]
  have hhigh : y.getLsbD (8+(8+i)) = false := BitVec.getLsbD_of_ge _ _ (by omega)
  by_cases h8 : i < 8
  · simp [h8,hi,hhigh,show 8+i < 16 by omega]
  · have h : 8+(i-8) = i := by omega
    simp [h8,hi,h,hhigh,show i-8 < 8 by omega]

@[simp] theorem bswap16_bswap16 (x : UInt16) : bswap16 (bswap16 x) = x :=
  UInt16.toBitVec_inj.mp (swap_swap x.toBitVec)

/-- `__builtin_bswap32`. -/
def bswap32 (x : UInt32) : UInt32 :=
  let mid : UInt32 := 0xFF00
  x <<< 24 ||| (x &&& mid) <<< 8 ||| x >>> 8 &&& mid ||| x >>> 24

/-- The 16 bits at an address, in the order of the network. -/
def word (m : Mem) (a : ℕ) : UInt16 := UInt16.ofNat (u16 m a)

/-- `udp_cbk_t` with its argument, as far as the packet is concerned: a callback may move the ends of
the packet. -/
structure Cbk where
  run : Pbuf → Pbuf
  reads : ∀ p, (run p).mem = p.mem

/-- `minip_ip_sock_t`; ports and address are in the order of the network, 0 stands for any. -/
structure MinipIpSock where
  srcPort : UInt16
  dstPort : UInt16
  dstIp : UInt32
  cbfunc : Option Cbk

/-- `minsock_udp_listen` for a socket that is not on the list. -/
def minsockUdpListen (udpListenList : List MinipIpSock) (psock : MinipIpSock) : List MinipIpSock :=
  if udpListenList.any fun ptemp => ptemp.srcPort = psock.srcPort ∧ ptemp.dstPort = psock.dstPort ∧
      ptemp.dstIp = psock.dstIp then udpListenList
  else if psock.dstPort ≠ 0 then psock::udpListenList
  else udpListenList ++ [psock]

/-- A call of a callback. -/
structure Call where
  psock : MinipIpSock
  ipkt : Pbuf
  srcip : UInt32
  srcport : UInt16

/-- The header of a datagram. -/
structure UdpHdr where
  srcPort : UInt16
  dstPort : UInt16
  len : UInt16

def udpHdr (p : Pbuf) : UdpHdr := ⟨word p.mem p.addr,word p.mem (p.addr+2),word p.mem (p.addr+4)⟩

/-- Local port and remote filters fit. -/
def MinipIpSock.Fits (psock : MinipIpSock) (srcip : UInt32) (pudp : UdpHdr) : Prop :=
  pudp.dstPort = psock.srcPort ∧ (psock.dstIp = 0 ∨ psock.dstIp = srcip) ∧
    (psock.dstPort = 0 ∨ psock.dstPort = pudp.srcPort)

instance (psock : MinipIpSock) (srcip : UInt32) (pudp : UdpHdr) : Decidable (psock.Fits srcip pudp) :=
  inferInstanceAs (Decidable (_ ∧ _ ∧ _))

section Handle

variable (api : PktApi) (pktTrim : Pbuf → ℕ → Pbuf)

/-- The loop of `minip_handle_udp`. -/
def deliver (srcip : UInt32) (pudp : UdpHdr) : List MinipIpSock → Pbuf → List Call
  | [],_ => []
  | psock::l,ipkt =>
    if pudp.dstPort ≠ psock.srcPort then deliver srcip pudp l ipkt
    else if psock.dstIp ≠ 0 ∧ psock.dstIp ≠ srcip then deliver srcip pudp l ipkt
    else if psock.dstPort ≠ 0 ∧ psock.dstPort ≠ pudp.srcPort then deliver srcip pudp l ipkt
    else
      match psock.cbfunc with
      | none => deliver srcip pudp l ipkt
      | some cbfunc =>
        let ipkt := api.pktClip ipkt 8
        ⟨psock,ipkt,bswap32 srcip,bswap16 pudp.srcPort⟩::deliver srcip pudp l (cbfunc.run ipkt)

/-- `minip_handle_udp`: what it returns and the calls it makes. -/
def minipHandleUdp (udpListenList : List MinipIpSock) (srcip : UInt32) (ipkt : Pbuf) : ℤ × List Call :=
  let pudp := udpHdr ipkt
  let tlen := (bswap16 pudp.len).toNat
  if ipkt.length < tlen then (1,[])
  else (0,deliver api srcip pudp udpListenList (pktTrim ipkt (ipkt.length-tlen)))

/-- `pkt_trim` takes bytes off the end. -/
def TrimUsual : Prop := ∀ p n, n ≤ p.length → pktTrim p n = ⟨p.mem,p.addr,p.length-n⟩

/-- The bytes of a datagram behind its header. -/
def payload (ipkt : Pbuf) : Pbuf := ⟨ipkt.mem,ipkt.addr+8,(bswap16 (udpHdr ipkt).len).toNat-8⟩

/-- Only sockets that fit are called, and each is given the payload. -/
structure Right (udpListenList : List MinipIpSock) (srcip : UInt32) (ipkt : Pbuf) (calls : List Call) : Prop where
  fits : ∀ c ∈ calls, c.psock ∈ udpListenList ∧ c.psock.Fits srcip (udpHdr ipkt)
  payload : ∀ c ∈ calls, c.ipkt = payload ipkt

/-- The callbacks of the sockets that fit. -/
def takers (srcip : UInt32) (pudp : UdpHdr) (l : List MinipIpSock) : List Cbk :=
  (l.filter fun psock => psock.Fits srcip pudp).filterMap MinipIpSock.cbfunc

/-- What the callbacks of a list are given, one after the other. -/
def given : List Cbk → Pbuf → List Pbuf
  | [],_ => []
  | cb::cbs,p => api.pktClip p 8::given cbs (cb.run (api.pktClip p 8))

/-- When eight bytes are clipped off what a callback leaves of the payload, the payload is there again;
the last callback may leave what it likes. -/
def Restored (p : Pbuf) (cbs : List Cbk) : Prop := ∀ cb ∈ cbs.dropLast, api.pktClip (cb.run p) 8 = p

variable {api pktTrim} {srcip : UInt32} {pudp : UdpHdr} {l : List MinipIpSock} {p q : Pbuf} {cbs : List Cbk}

theorem deliver_cons (psock : MinipIpSock) : deliver api srcip pudp (psock::l) p =
    if psock.Fits srcip pudp then
      match psock.cbfunc with
      | none => deliver api srcip pudp l p
      | some cb => ⟨psock,api.pktClip p 8,bswap32 srcip,bswap16 pudp.srcPort⟩
        ::deliver api srcip pudp l (cb.run (api.pktClip p 8))
    else deliver api srcip pudp l p := by
  rw [deliver]
  by_cases hport : pudp.dstPort = psock.srcPort
  · rw [if_neg (not_not.mpr hport)]
    by_cases hip : psock.dstIp = 0 ∨ psock.dstIp = srcip
    · rw [if_neg (by tauto)]
      by_cases hdst : psock.dstPort = 0 ∨ psock.dstPort = pudp.srcPort
      · have hfits : psock.Fits srcip pudp := ⟨hport,hip,hdst⟩
        rw [if_neg (by tauto),if_pos hfits]
      · have hfits : ¬psock.Fits srcip pudp := fun h => hdst h.2.2
        rw [if_pos (by tauto),if_neg hfits]
    · have hfits : ¬psock.Fits srcip pudp := fun h => hip h.2.1
      rw [if_pos (by tauto),if_neg hfits]
  · have hfits : ¬psock.Fits srcip pudp := fun h => hport h.1
    rw [if_pos hport,if_neg hfits]

theorem deliver_fits : ∀ c ∈ deliver api srcip pudp l p, c.psock ∈ l ∧ c.psock.Fits srcip pudp := by
  induction l generalizing p with
  | nil => simp [deliver]
  | cons psock l ih =>
    have hrest : ∀ {q c}, c ∈ deliver api srcip pudp l q → c.psock ∈ psock::l ∧ c.psock.Fits srcip pudp :=
      fun hc => ⟨List.mem_cons_of_mem _ (ih _ hc).1,(ih _ hc).2⟩
    intro c hc
    rw [deliver_cons] at hc
    split at hc
    · next hfits =>
      split at hc
      · exact hrest hc
      · rcases List.mem_cons.mp hc with rfl | hc
        · exact ⟨List.mem_cons_self,hfits⟩
        · exact hrest hc
    · exact hrest hc

theorem deliver_given : (deliver api srcip pudp l p).map Call.ipkt = given api (takers srcip pudp l) p := by
  induction l generalizing p with
  | nil => rfl
  | cons psock l ih =>
    rw [deliver_cons]
    by_cases hfits : psock.Fits srcip pudp
    · cases hcb : psock.cbfunc with
      | none => simp [takers,hfits,hcb,ih]
      | some cb => simp [takers,hfits,hcb,ih,given]
    · simp [takers,hfits,ih]

/-- Each callback is given `q` when the first one is and the others restore it. -/
theorem given_iff (hq : api.pktClip p 8 = q) : (∀ r ∈ given api cbs p, r = q) ↔ Restored api q cbs := by
  induction cbs generalizing p with
  | nil => simp [given,Restored]
  | cons cb cbs ih =>
    rw [given,List.forall_mem_cons,hq]
    cases cbs with
    | nil => simp [given,Restored]
    | cons cb' cbs =>
      have hcons : Restored api q (cb::cb'::cbs) ↔ api.pktClip (cb.run q) 8 = q ∧ Restored api q (cb'::cbs) := by
        simp [Restored]
      rw [hcons]
      constructor
      · rintro ⟨-,hrest⟩
        have hnext : api.pktClip (cb.run q) 8 = q := hrest _ List.mem_cons_self
        exact ⟨hnext,(ih hnext).mp hrest⟩
      · rintro ⟨hnext,hrest⟩
        exact ⟨rfl,(ih hnext).mpr hrest⟩

/-- What a callback leaves of the packet it is given is not lengthened by clipping it again. -/
theorem not_restored (h : api.Usual) {cb : Cbk} (hshort : (cb.run q).length ≤ q.length) (hlong : 8 ≤ (cb.run q).length) :
    api.pktClip (cb.run q) 8 ≠ q := by
  intro heq
  have hlen := congrArg Pbuf.length heq
  rw [h.clip _ 8 hlong] at hlen
  dsimp only at hlen
  omega

/-- Of a datagram whose length field is in order every socket that is called gets the payload just when
the callbacks before the last one restore it, in particular when there is no more than one. -/
theorem minipHandleUdp_right_iff (h : api.Usual) (htrim : TrimUsual pktTrim) (udpListenList : List MinipIpSock)
    (srcip : UInt32) (ipkt : Pbuf) (hge : 8 ≤ (bswap16 (udpHdr ipkt).len).toNat)
    (hle : (bswap16 (udpHdr ipkt).len).toNat ≤ ipkt.length) :
    Right udpListenList srcip ipkt (minipHandleUdp api pktTrim udpListenList srcip ipkt).2 ↔
      Restored api (payload ipkt) (takers srcip (udpHdr ipkt) udpListenList) := by
  have hclip : api.pktClip (pktTrim ipkt (ipkt.length-(bswap16 (udpHdr ipkt).len).toNat)) 8 = payload ipkt := by
    rw [htrim _ _ (Nat.sub_le _ _),Nat.sub_sub_self hle,h.clip _ 8 hge]
    rfl
  unfold minipHandleUdp
  dsimp only
  rw [if_neg (Nat.not_lt.mpr hle)]
  rw [← given_iff hclip,← deliver_given,List.forall_mem_map]
  exact ⟨fun hr => hr.payload,fun hp => ⟨deliver_fits,hp⟩⟩

end Handle

/-! ### Two sockets on one port -/

/-- Bytes are taken off the end. -/
def plainTrim (p : Pbuf) (n : ℕ) : Pbuf := ⟨p.mem,p.addr,p.length-n⟩

/-- A callback that only reads. -/
def reader : Cbk := ⟨id,fun _ => rfl⟩

/-- A socket for everybody on a port, and one on this port for one peer. -/
def anyPeer : MinipIpSock := ⟨0x4500,0,0,some reader⟩

def onePeer : MinipIpSock := ⟨0x4500,0x3930,0x6464A8C0,some reader⟩

/-- Sixteen bytes from this peer to the port, and a padding of two. -/
def datagram : Pbuf := ⟨ofList [0x30,0x39,0,0x45,0,16,0,0,1,2,3,4,5,6,7,8,0,0],0,18⟩

theorem anyPeer_right :
    Right [anyPeer] 0x6464A8C0 datagram (minipHandleUdp plainApi plainTrim [anyPeer] 0x6464A8C0 datagram).2 := by
  refine (minipHandleUdp_right_iff plainApi_usual (fun _ _ _ => rfl) _ _ _ (by decide) (by decide)).mpr ?_
  have htakers : takers 0x6464A8C0 (udpHdr datagram) [anyPeer] = [reader] := rfl
  rw [htakers]
  simp [Restored]

/-- The second one is given the payload without its first eight bytes. -/
theorem twoPeers_not_right :
    ¬Right (minsockUdpListen [anyPeer] onePeer) 0x6464A8C0 datagram
      (minipHandleUdp plainApi plainTrim (minsockUdpListen [anyPeer] onePeer) 0x6464A8C0 datagram).2 := by
  intro h
  have hall : ∀ n ∈ (minipHandleUdp plainApi plainTrim (minsockUdpListen [anyPeer] onePeer) 0x6464A8C0
      datagram).2.map (fun c => c.ipkt.length), n = 8 := by
    intro n hn
    obtain ⟨c,hc,rfl⟩ := List.mem_map.mp hn
    rw [h.payload c hc]
    rfl
  exact absurd (hall 0 (by decide)) (by decide)

end Datagrams
end Autbus
