import Autbus.Headers
import Autbus.Resolution

/-! Stations on one Ethernet (`minip.c`). Each of them sends datagrams, asks for the addresses of its
neighbours and answers when it is asked. A frame that left reaches any station at any time, padded,
as often as it likes or never. -/
namespace Autbus
namespace Segment

open Trace Bytes Bundles Datagrams FrameReads Headers
open Neighbours (Mac Net Pkt Note EthType ArpEntry PrependUsual)

/-- What was given to `minsock_udp_send_to`; ports and address are in the order of the network. -/
structure Datagram where
  dstip : UInt32
  dstport : UInt16
  srcport : UInt16
  payload : List UInt8

/-- A station: the packets that were handed over, its sockets, the frames that left, and what was heard
and said, the newest first. -/
structure Station where
  arp : Neighbours.Sys
  pkts : ℕ → Pbuf
  udpListenList : List MinipIpSock
  out : List (List UInt8)
  heard : List Call
  said : List Datagram

/-- An address that was read. -/
def macOf (l : List UInt8) : Mac := Vector.ofFn fun i => l.getD i 0

/-- What `pkt_alloc` and `send` answer, and which packet a reply is made in. -/
structure Answers where
  room : Bool
  ref : ℕ
  rpkt : Option Pkt
  iret : ℤ

section Code

variable (api : PktApi) (pktTrim : Pbuf → ℕ → Pbuf) (pktPrepend : Pkt → ℕ → Option Pkt) (net : Net) (minipMac : Mac)

/-- The frame of a packet that is sent; `dstip` is what an ARP request asks for. -/
def frameOf (pkts : ℕ → Pbuf) (dstip : UInt32) : Note → Option (List UInt8)
  | .sent t dmac .ipv4 => some (minipBuildMacHdr api minipMac.toList (pkts t) dmac.toList 0x0800).bytes
  | .sent t dmac .arp =>
    let rarp := arpRequest api minipMac.toList net.inetadr (pkts t) dstip
    some (minipBuildMacHdr api minipMac.toList rarp dmac.toList 0x0806).bytes
  | _ => none

/-- What a call did to the table leaves as frames. -/
def emit (st : Station) (dstip : UInt32) (arp : Neighbours.Sys) : Station :=
  let notes := arp.log.take (arp.log.length-st.arp.log.length)
  { st with arp := arp,out := notes.filterMap (frameOf api net minipMac st.pkts dstip) ++ st.out }

/-- `minip_send_ipv4`. -/
def minipSendIpv4 (st : Station) (ref : ℕ) (tpkt : Pbuf) (dstip : UInt32) (proto : UInt8) (rpkt : Option Pkt)
    (iret : ℤ) : Option Station :=
  let tpkt := minipBuildIpv4Hdr api net.inetadr tpkt dstip proto
  let st := { st with pkts := Function.update st.pkts ref tpkt }
  (Neighbours.step pktPrepend st.arp (.sendIface net ⟨ref,tpkt.addr⟩ dstip rpkt iret)).map
    (emit api net minipMac st (net.hop dstip))

/-- A datagram from a socket. -/
def sendUdp (st : Station) (ref : ℕ) (tpkt : Pbuf) (d : Datagram) (rpkt : Option Pkt) (iret : ℤ) : Option Station :=
  (minipSendIpv4 api pktPrepend net minipMac st ref (minipBuildUdpHdr api tpkt d.srcport d.dstport) d.dstip 17 rpkt
    iret).map fun st => { st with said := d::st.said }

/-- `minsock_udp_send_to`. -/
def minsockUdpSendTo (st : Station) (psock : MinipIpSock) (dstip : UInt32) (dstport : UInt16) (ref : ℕ) (tpkt : Pbuf)
    (rpkt : Option Pkt) (iret : ℤ) : Option Station :=
  let dstport := bswap16 dstport
  let dstip := bswap32 dstip
  sendUdp api pktPrepend net minipMac st ref tpkt ⟨dstip,dstport,psock.srcPort,tpkt.bytes⟩ rpkt iret

/-- `minsock_udp_send`. -/
def minsockUdpSend (st : Station) (psock : MinipIpSock) (ref : ℕ) (tpkt : Pbuf) (rpkt : Option Pkt) (iret : ℤ) :
    Option Station :=
  sendUdp api pktPrepend net minipMac st ref tpkt ⟨psock.dstIp,psock.dstPort,psock.srcPort,tpkt.bytes⟩ rpkt iret

/-- What a handler does to the station. -/
def respond (x : Answers) (st : Station) : Effect → Option Station
  | .arpReply smac sha spa =>
    let tpkt := arpReply api minipMac.toList net.inetadr sha spa
    let frame := (minipBuildMacHdr api minipMac.toList tpkt smac 0x0806).bytes
    some (if x.iret = 1 then { st with out := frame::st.out } else st)
  | .arpUpdate spa sha => (Neighbours.step pktPrepend st.arp (.arpUpdate spa (macOf sha) x.iret)).map
      (emit api net minipMac st 0)
  | .icmp srcAddr pkt => minipSendIpv4 api pktPrepend net minipMac st x.ref pkt srcAddr 1 x.rpkt x.iret
  | .udp calls => some { st with heard := calls ++ st.heard }

def respondAll (x : Answers) : Station → List Effect → Option Station
  | st,[] => some st
  | st,e::es => (respond api pktPrepend net minipMac x st e).bind fun st => respondAll x st es

/-- `minip_input`, with all that comes of it. -/
def input (x : Answers) (st : Station) (ipkt : Pbuf) : Option Station :=
  respondAll api pktPrepend net minipMac x st
    (minipInput api pktTrim ⟨net.inetadr,minipMac.toList,st.udpListenList,x.room,x.iret⟩ ipkt).effects

end Code

section System

variable {ι : Type} [DecidableEq ι]

/-- A station sends, changes its sockets, or gets a frame that left another one. -/
inductive Event (ι : Type)
  | sendTo (i : ι) (psock : MinipIpSock) (dstip : UInt32) (dstport : UInt16) (tpkt : Pbuf) (x : Answers)
  | send (i : ι) (psock : MinipIpSock) (tpkt : Pbuf) (x : Answers)
  | sockets (i : ι) (udpListenList : List MinipIpSock)
  | receive (i j : ι) (frame pad : List UInt8) (ipkt : Pbuf) (x : Answers)

variable (api : PktApi) (pktTrim : Pbuf → ℕ → Pbuf) (pktPrepend : Pkt → ℕ → Option Pkt) (net : ι → Net) (mac : ι → Mac)

def step (s : ι → Station) : Event ι → Option (ι → Station)
  | .sendTo i psock dstip dstport tpkt x =>
    (minsockUdpSendTo api pktPrepend (net i) (mac i) (s i) psock dstip dstport x.ref tpkt x.rpkt x.iret).map
      (Function.update s i)
  | .send i psock tpkt x =>
    (minsockUdpSend api pktPrepend (net i) (mac i) (s i) psock x.ref tpkt x.rpkt x.iret).map (Function.update s i)
  | .sockets i l => some (Function.update s i { s i with udpListenList := l })
  | .receive i j frame pad ipkt x =>
    if frame ∈ (s i).out ∧ ipkt.bytes = frame ++ pad then
      (input api pktTrim pktPrepend (net j) (mac j) x (s j) ipkt).map (Function.update s j)
    else none

/-- After `minip_init`. -/
def booted (num : ℕ) (pkts : ι → ℕ → Pbuf) : ι → Station := fun i => ⟨Neighbours.minipArpInit num,pkts i,[],[],[],[]⟩

/-- A payload has room for the headers in front, and a length that they can tell; no two sockets of a
station have the same port. -/
def Proper (_ : List (Event ι)) (_ : ι → Station) : Event ι → Prop
  | .sendTo _ _ _ _ tpkt _ => 42 ≤ tpkt.addr ∧ tpkt.length+28 < 65536
  | .send _ _ tpkt _ => 42 ≤ tpkt.addr ∧ tpkt.length+28 < 65536
  | .sockets _ l => (l.map MinipIpSock.srcPort).Nodup
  | .receive _ _ _ _ _ _ => True

end System

/-! ### What holds of a station -/

section Holds

variable {ι : Type} (net : ι → Net) (mac : ι → Mac) (said : ι → List Datagram)

/-- A station with the address has this hardware address. -/
def HasMac (ip : UInt32) (m : Mac) : Prop := ∃ k,(net k).inetadr = ip ∧ mac k = m

/-- Where a frame for a next hop goes. -/
def Reaches (hop : UInt32) (m : Mac) : Prop :=
  hop = 0xffffffff ∧ m = Neighbours.broadcastMac ∨ HasMac net mac hop m

/-- An IPv4 packet of a station. Its datagrams are what was said. -/
def Packet (i : ι) (dstip : UInt32) (bytes : List UInt8) : Prop :=
  ∃ proto tlen body, bytes = ipv4Bytes (net i).inetadr dstip proto tlen body ∧
    (proto = 17 → ∃ d ∈ said i, d.dstip = dstip ∧ d.payload.length+8 < 65536 ∧
      body = udpBytes d.srcport d.dstport d.payload)

/-- A frame of a station: ARP with its own addresses, or an IPv4 packet on the way to its next hop. -/
inductive Frame (i : ι) : List UInt8 → Prop
  | arp {dst tha : List UInt8} (oper : UInt16) (tpa : UInt32) (hdst : dst.length = 6) (htha : tha.length = 6) :
    Frame i (ethFrame dst (mac i).toList 0x0806 (arpBytes oper (mac i).toList (net i).inetadr tha tpa))
  | ipv4 {m : Mac} {dstip : UInt32} {bytes : List UInt8} (hm : Reaches net mac ((net i).hop dstip) m)
    (hpacket : Packet net said i dstip bytes) : Frame i (ethFrame m.toList (mac i).toList 0x0800 bytes)

/-- What a callback was called with is what a station said: the payload, and the address and the port of
the sender. It was said to this station and to a port that the socket has, and the socket takes it from
this sender. -/
structure From (i j : ι) (d : Datagram) (c : Call) : Prop where
  payload : c.ipkt.bytes = d.payload
  srcip : c.srcip = bswap32 (net i).inetadr
  srcport : c.srcport = bswap16 d.srcport
  port : c.psock.srcPort = d.dstport
  peer : (c.psock.dstIp = 0 ∨ c.psock.dstIp = (net i).inetadr) ∧ (c.psock.dstPort = 0 ∨ c.psock.dstPort = d.srcport)
  toUs : (net j).inetadr = 0 ∨ (net j).inetadr = d.dstip
  hop : HasMac net mac ((net i).hop d.dstip) (mac j)

def Heard (j : ι) (c : Call) : Prop := ∃ i,∃ d ∈ said i, From net mac i j d c

/-- The table is right, each packet waits for its next hop, and what left and what was heard is in order. -/
structure Ok (num : ℕ) (i : ι) (st : Station) : Prop where
  arp : 0 < num → Neighbours.Inv num st.arp
  table : ∀ e ∈ st.arp.arpList, ∀ m, e.flag = .valid → e.info = .mac m → HasMac net mac e.ipadr m
  waiting : ∀ e ∈ st.arp.arpList, ∀ p, e.info = .tpkt p → 14 ≤ p.offset ∧ (st.pkts p.ref).addr = p.offset ∧
    ∃ dstip,(net i).hop dstip = e.ipadr ∧ Packet net said i dstip (st.pkts p.ref).bytes
  out : ∀ f ∈ st.out, Frame net mac said i f
  heard : ∀ c ∈ st.heard, Heard net mac said i c
  ports : (st.udpListenList.map MinipIpSock.srcPort).Nodup

/-- What may come of a frame that is received. -/
inductive Reaction (j : ι) : Effect → Prop
  | arpReply {smac sha : List UInt8} (spa : UInt32) (hsmac : smac.length = 6) (hsha : sha.length = 6) :
    Reaction j (.arpReply smac sha spa)
  | arpUpdate {spa : UInt32} {sha : List UInt8} (h : HasMac net mac spa (macOf sha)) : Reaction j (.arpUpdate spa sha)
  | icmp (srcAddr : UInt32) {pkt : Pbuf} (hroom : 34 ≤ pkt.addr) : Reaction j (.icmp srcAddr pkt)
  | udp {calls : List Call} (h : ∀ c ∈ calls, Heard net mac said j c) : Reaction j (.udp calls)

end Holds

section Lemmas

variable {ι : Type} {net : ι → Net} {mac : ι → Mac} {said said' : ι → List Datagram} {api : PktApi}
  {pktTrim : Pbuf → ℕ → Pbuf} {pktPrepend : Pkt → ℕ → Option Pkt} {num : ℕ} {i j : ι} {st st' : Station}

@[simp] theorem mac_length (m : Mac) : m.toList.length = 6 := Vector.length_toList

theorem mac_inj {m m' : Mac} (h : m.toList = m'.toList) : m = m' := Vector.toList_inj.mp h

theorem macOf_toList (m : Mac) : macOf m.toList = m := by
  ext i hi
  simp [macOf]

/-! #### More may be said -/

section Mono

variable (hsaid : ∀ k, said k ⊆ said' k)
include hsaid

theorem Packet.mono {dstip : UInt32} {bytes : List UInt8} (h : Packet net said i dstip bytes) :
    Packet net said' i dstip bytes := by
  obtain ⟨proto,tlen,body,hbytes,hudp⟩ := h
  refine ⟨proto,tlen,body,hbytes,fun hproto => ?_⟩
  obtain ⟨d,hd,hrest⟩ := hudp hproto
  exact ⟨d,hsaid i hd,hrest⟩

theorem Frame.mono {f : List UInt8} (h : Frame net mac said i f) : Frame net mac said' i f := by
  cases h with
  | arp oper tpa hdst htha => exact .arp oper tpa hdst htha
  | ipv4 hm hpacket => exact .ipv4 hm (hpacket.mono hsaid)

theorem Heard.mono {c : Call} (h : Heard net mac said j c) : Heard net mac said' j c := by
  obtain ⟨i,d,hd,hfrom⟩ := h
  exact ⟨i,d,hsaid i hd,hfrom⟩

theorem Ok.mono (h : Ok net mac said num i st) : Ok net mac said' num i st where
  arp := h.arp
  table := h.table
  waiting e he p hp := by
    obtain ⟨hroom,haddr,dstip,hhop,hpacket⟩ := h.waiting e he p hp
    exact ⟨hroom,haddr,dstip,hhop,hpacket.mono hsaid⟩
  out f hf := (h.out f hf).mono hsaid
  heard c hc := (h.heard c hc).mono hsaid
  ports := h.ports

end Mono

/-! #### What is sent -/

theorem frameOf_ipv4 (hu : api.Usual) {pkts : ℕ → Pbuf} {hop : UInt32} {t : ℕ} {m : Mac} (hroom : 14 ≤ (pkts t).addr) :
    frameOf api (net i) (mac i) pkts hop (.sent t m .ipv4) =
      some (ethFrame m.toList (mac i).toList 0x0800 (pkts t).bytes) := by
  rw [frameOf,bytes_macHdr hu hroom (mac_length _) (mac_length _)]
  rfl

theorem frameOf_arp (hu : api.Usual) {pkts : ℕ → Pbuf} {hop : UInt32} {t : ℕ} {m : Mac} :
    frameOf api (net i) (mac i) pkts hop (.sent t m .arp) = some (ethFrame m.toList (mac i).toList 0x0806
      (arpBytes 1 (mac i).toList (net i).inetadr (.replicate 6 0) hop)) := by
  have hbytes : (arpRequest api (mac i).toList (net i).inetadr (pkts t) hop).bytes = _ :=
    bytes_arpPkt hu rfl (mac_length _) (List.length_replicate ..)
  have hroom : 14 ≤ (arpRequest api (mac i).toList (net i).inetadr (pkts t) hop).addr := by
    simp [arpRequest,arpPkt,hu.append]
  rw [frameOf,bytes_macHdr hu hroom (mac_length _) (mac_length _),hbytes]
  rfl

/-- The frames that a call left are those that were sent. -/
theorem emit_out {hop : UInt32} {arp : Neighbours.Sys} {P : ℕ → Mac → EthType → Prop} {Q : List UInt8 → Prop}
    (hadds : Neighbours.Adds st.arp arp P) (hout : ∀ f ∈ st.out, Q f)
    (hframe : ∀ t m type f, P t m type → frameOf api (net i) (mac i) st.pkts hop (.sent t m type) = some f → Q f) :
    ∀ f ∈ (emit api (net i) (mac i) st hop arp).out, Q f := by
  obtain ⟨notes,hlog,hP⟩ := hadds
  have htake : arp.log.take (arp.log.length-st.arp.log.length) = notes := by
    rw [hlog,List.length_append,Nat.add_sub_cancel,List.take_left']
    rfl
  intro f hf
  simp only [emit,htake,List.mem_append,List.mem_filterMap] at hf
  rcases hf with ⟨n,hn,hf⟩ | hf
  · cases n with
    | sent t m type => exact hframe t m type f (hP t m type hn) hf
    | _ => cases hf
  · exact hout f hf

theorem minipSendIpv4_said {net : Net} {minipMac : Mac} {ref : ℕ} {tpkt : Pbuf} {dstip : UInt32} {proto : UInt8}
    {rpkt : Option Pkt} {iret : ℤ}
    (hs : minipSendIpv4 api pktPrepend net minipMac st ref tpkt dstip proto rpkt iret = some st') :
    st'.said = st.said := by
  obtain ⟨arp,-,rfl⟩ := Option.map_eq_some_iff.mp hs
  rfl

/-- A packet is sent or waits. -/
theorem minipSendIpv4_ok (hu : api.Usual) (hp : PrependUsual pktPrepend) (h : Ok net mac said num i st) {ref : ℕ}
    {tpkt : Pbuf} {dstip : UInt32} {proto : UInt8} {rpkt : Option Pkt} {iret : ℤ} (hroom : 34 ≤ tpkt.addr)
    (hudp : proto = 17 → ∃ d ∈ said i, d.dstip = dstip ∧ d.payload.length+8 < 65536 ∧
      tpkt.bytes = udpBytes d.srcport d.dstport d.payload)
    (hs : minipSendIpv4 api pktPrepend (net i) (mac i) st ref tpkt dstip proto rpkt iret = some st') :
    Ok net mac said num i st' := by
  unfold minipSendIpv4 at hs
  dsimp only at hs
  have hbytes : (minipBuildIpv4Hdr api (net i).inetadr tpkt dstip proto).bytes = _ := bytes_ipv4Hdr hu (by omega)
  have haddr : (minipBuildIpv4Hdr api (net i).inetadr tpkt dstip proto).addr = tpkt.addr-20 := by
    simp [minipBuildIpv4Hdr,hu.prepend tpkt 20 (by omega)]
  have hpacket : Packet net said i dstip (minipBuildIpv4Hdr api (net i).inetadr tpkt dstip proto).bytes :=
    ⟨proto,UInt16.ofNat tpkt.length,tpkt.bytes,hbytes,hudp⟩
  generalize minipBuildIpv4Hdr api (net i).inetadr tpkt dstip proto = q at hs haddr hpacket
  obtain ⟨arp,harp,rfl⟩ := Option.map_eq_some_iff.mp hs
  unfold Neighbours.step at harp
  split at harp
  case isFalse => cases harp
  case isTrue hfresh =>
    obtain ⟨x,hx,rfl⟩ := Option.map_eq_some_iff.mp harp
    obtain ⟨hadds,hentries⟩ := Neighbours.minipSendIface_adds hp (by dsimp only; omega) hx
    have hother : ∀ e ∈ st.arp.arpList, ∀ p, e.info = .tpkt p → p.ref ≠ ref := by
      intro e he p hinfo heq
      refine hfresh.1 (List.mem_flatMap.mpr ⟨e,he,?_⟩)
      simp [Neighbours.ArpEntry.waiting,hinfo,heq]
    refine ⟨fun hnum => ?_,?_,?_,?_,h.heard,h.ports⟩
    · obtain ⟨y,hy,hinv⟩ := Neighbours.minipSendIface_inv hp (net i) dstip rpkt iret (h.arp hnum) hnum hfresh.1
        (by dsimp only; omega)
      obtain rfl := Option.some.inj (hx.symm.trans hy)
      exact hinv
    · intro e he m hflag hinfo
      rcases hentries e he with hwaits | ⟨e₀,he₀,hip,hinfo₀,hvalid⟩
      · rw [hwaits.2.1] at hflag
        cases hflag
      · rw [← hip]
        exact h.table e₀ he₀ m (hvalid hflag) (hinfo₀.trans hinfo)
    · intro e he p hinfo
      rcases hentries e he with ⟨hip,-,hinfo'⟩ | ⟨e₀,he₀,hip,hinfo₀,-⟩
      · cases hinfo.symm.trans hinfo'
        simp only [emit,Function.update_self]
        exact ⟨by omega,trivial,dstip,hip.symm,hpacket⟩
      · have hne := hother e₀ he₀ p (hinfo₀.trans hinfo)
        simp only [emit,Function.update_of_ne hne]
        rw [← hip]
        exact h.waiting e₀ he₀ p (hinfo₀.trans hinfo)
    · refine emit_out hadds h.out fun t m type f hP hf => ?_
      cases type with
      | arp =>
        rw [frameOf_arp hu] at hf
        obtain rfl := Option.some.inj hf
        exact .arp 1 _ (mac_length _) (List.length_replicate ..)
      | ipv4 =>
        obtain ⟨ht,hm⟩ := hP
        have hpkt : (Function.update st.pkts ref q) t = q := by rw [ht,Function.update_self]
        rw [frameOf_ipv4 hu (by dsimp only; rw [hpkt]; omega)] at hf
        obtain rfl := Option.some.inj hf
        dsimp only
        rw [hpkt]
        refine .ipv4 ?_ hpacket
        rcases hm with hall | ⟨e,he,hip,hflag,hinfo⟩
        · exact Or.inl hall
        · exact Or.inr (hip ▸ h.table e he m hflag hinfo)

/-- A payload from a socket, with a header that is the datagram. -/
theorem sendUdp_ok (hu : api.Usual) (hp : PrependUsual pktPrepend) (h : Ok net mac said num i st) {ref : ℕ} {tpkt : Pbuf}
    {d : Datagram} {rpkt : Option Pkt} {iret : ℤ} (hroom : 42 ≤ tpkt.addr) (hfits : tpkt.length+28 < 65536)
    (hd : d ∈ said i) (hpayload : d.payload = tpkt.bytes)
    (hs : sendUdp api pktPrepend (net i) (mac i) st ref tpkt d rpkt iret = some st') : Ok net mac said num i st' := by
  obtain ⟨u,hu',rfl⟩ := Option.map_eq_some_iff.mp hs
  have hlen : d.payload.length = tpkt.length := by rw [hpayload,bytes_length]
  have hbytes : (minipBuildUdpHdr api tpkt d.srcport d.dstport).bytes = udpBytes d.srcport d.dstport d.payload := by
    rw [bytes_udpHdr hu (by omega),udpBytes,hlen,hpayload]
  have haddr : (minipBuildUdpHdr api tpkt d.srcport d.dstport).addr = tpkt.addr-8 := by
    simp [minipBuildUdpHdr,hu.prepend tpkt 8 (by omega)]
  have hok := minipSendIpv4_ok hu hp h (by omega) (fun _ => ⟨d,hd,rfl,by omega,hbytes⟩) hu'
  exact ⟨hok.arp,hok.table,hok.waiting,hok.out,hok.heard,hok.ports⟩

/-- An address that is right is learned. -/
theorem arpUpdate_ok (hu : api.Usual) (hp : PrependUsual pktPrepend) (h : Ok net mac said num i st) {spa : UInt32}
    {m : Mac} {iret : ℤ} {arp : Neighbours.Sys} (hm : HasMac net mac spa m)
    (hs : Neighbours.step pktPrepend st.arp (.arpUpdate spa m iret) = some arp) :
    Ok net mac said num i (emit api (net i) (mac i) st 0 arp) := by
  have hfresh : Neighbours.Fresh st.arp (.arpUpdate spa m iret) := trivial
  rw [Neighbours.step,if_pos hfresh] at hs
  obtain ⟨hadds,hentries⟩ := Neighbours.minipArpUpdate_adds hp (fun e he p hinfo => (h.waiting e he p hinfo).1) hs
  refine ⟨fun hnum => ?_,?_,?_,?_,h.heard,h.ports⟩
  · obtain ⟨u,hu',hinv⟩ := Neighbours.minipArpUpdate_inv hp spa m iret (h.arp hnum)
    obtain rfl := Option.some.inj (hs.symm.trans hu')
    exact hinv
  · intro e he m' hflag hinfo
    rcases hentries e he with ⟨hip,hinfo'⟩ | ⟨e₀,he₀,hip,hinfo₀,hvalid⟩
    · cases hinfo.symm.trans hinfo'
      rw [hip]
      exact hm
    · rw [← hip]
      exact h.table e₀ he₀ m' (hvalid hflag) (hinfo₀.trans hinfo)
  · intro e he p hinfo
    rcases hentries e he with ⟨-,hinfo'⟩ | ⟨e₀,he₀,hip,hinfo₀,-⟩
    · cases hinfo.symm.trans hinfo'
    · rw [← hip]
      exact h.waiting e₀ he₀ p (hinfo₀.trans hinfo)
  · refine emit_out hadds h.out fun t m' type f hP hf => ?_
    obtain ⟨rfl,rfl,e,he,p,hip,hinfo,rfl⟩ := hP
    obtain ⟨hroom,haddr,dstip,hhop,hpacket⟩ := h.waiting e he p hinfo
    rw [frameOf_ipv4 hu (by rw [haddr]; exact hroom)] at hf
    obtain rfl := Option.some.inj hf
    refine .ipv4 (Or.inr ?_) hpacket
    rw [hhop,hip]
    exact hm

/-! #### What is received -/

/-- An answer to a request has room for the headers in front. -/
theorem minipHandleIcmp_addr (hu : api.Usual) {ipkt pkt : Pbuf} {room : Bool} {iret : ℤ}
    (h : pkt ∈ (Pings.minipHandleIcmp api ipkt room iret).2) : 34 ≤ pkt.addr := by
  unfold Pings.minipHandleIcmp at h
  dsimp only at h
  split at h
  · cases h
  · split at h
    · cases h
    · split at h
      · cases h
      · obtain rfl := Option.some.inj h
        rw [hu.append]
        exact hu.alloc_room 34

/-- No more than one socket takes a datagram when their ports differ. -/
theorem takers_le (l : List MinipIpSock) (h : (l.map MinipIpSock.srcPort).Nodup) (srcip : UInt32) (pudp : UdpHdr) :
    (takers srcip pudp l).length ≤ 1 := by
  refine (List.length_filterMap_le _ _).trans ?_
  induction l with
  | nil => exact Nat.zero_le _
  | cons psock l ih =>
    obtain ⟨hnew,hrest⟩ := List.nodup_cons.mp h
    rw [List.filter_cons]
    split
    · next hfits =>
      have hport : pudp.dstPort = psock.srcPort := (of_decide_eq_true hfits).1
      have hnone : l.filter (fun psock => psock.Fits srcip pudp) = [] := by
        refine List.filter_eq_nil_iff.mpr fun psock' hmem hfits' => hnew ?_
        rw [← hport,(of_decide_eq_true hfits').1]
        exact List.mem_map_of_mem hmem
      rw [hnone]
      rfl
    · exact ih hrest

section Reactions

variable (hu : api.Usual) (htrim : TrimUsual pktTrim) (hmac : ∀ k, mac k ≠ Neighbours.broadcastMac)
  {l : List MinipIpSock} {room : Bool} {iret : ℤ} {pad : List UInt8}
include hu htrim

/-- An IPv4 packet to the interface. -/
theorem minipHandleIpv4_reactions (hports : (l.map MinipIpSock.srcPort).Nodup) {dstip : UInt32} {bytes : List UInt8}
    {p : Pbuf} (hpacket : Packet net said i dstip bytes) (hhop : HasMac net mac ((net i).hop dstip) (mac j))
    (hp : p.bytes = bytes ++ pad) : ∀ e ∈ (minipHandleIpv4 api pktTrim ⟨(net j).inetadr,(mac j).toList,l,room,iret⟩
      p).effects, Reaction net mac said j e := by
  obtain ⟨proto,tlen,body,rfl,hudp⟩ := hpacket
  have hbytes : p.bytes = ipv4Bytes (net i).inetadr dstip proto tlen (body ++ pad) := by
    rw [hp]
    simp [ipv4Bytes]
  obtain ⟨hproto,hsrc,hdst⟩ := ipv4_fields hbytes
  have hclip := clip_ipv4 hu hbytes
  have hlen : 20 ≤ p.length := by
    rw [← bytes_length,hbytes]
    simp [ipv4Bytes,be16]
    omega
  have hmem : (api.pktClip p 20).mem = p.mem := by rw [hu.clip p 20 hlen]
  rw [minipHandleIpv4_effects hbytes]
  split
  · intro e he
    cases he
  · unfold dispatch
    dsimp only
    rw [hmem,hproto,hsrc,hdst]
    intro e he
    split at he
    · split at he
      · cases he
      · split at he
        · cases he
        · obtain ⟨pkt,hpkt,rfl⟩ := List.mem_map.mp he
          exact .icmp _ (minipHandleIcmp_addr hu (Option.mem_toList.mp hpkt))
    · split at he
      · next hproto17 =>
        split at he
        · cases he
        · next hus =>
          obtain rfl := List.mem_singleton.mp he
          obtain ⟨d,hd,rfl,hfits,rfl⟩ := hudp hproto17
          refine .udp fun c hc => ?_
          obtain ⟨⟨-,hfit⟩,hpayload,hsrcip,hsrcport⟩ :=
            minipHandleUdp_calls hu htrim hclip hfits (takers_le l hports _ _) c hc
          rw [MinipIpSock.Fits,udpHdr_bytes hclip] at hfit
          refine ⟨i,d,hd,hpayload,hsrcip,hsrcport,hfit.1.symm,hfit.2,?_,hhop⟩
          by_cases hzero : (net j).inetadr = 0
          · exact Or.inl hzero
          · exact Or.inr (Classical.not_not.mp fun hne => hus ⟨hzero,fun heq => hne heq.symm⟩)
      · cases he

include hmac

/-- A frame that left a station, with what was padded to it. -/
theorem minipInput_reactions (hports : (l.map MinipIpSock.srcPort).Nodup) {f : List UInt8} {ipkt : Pbuf}
    (hframe : Frame net mac said i f) (hf : ipkt.bytes = f ++ pad) :
    ∀ e ∈ (minipInput api pktTrim ⟨(net j).inetadr,(mac j).toList,l,room,iret⟩ ipkt).effects,
      Reaction net mac said j e := by
  cases hframe with
  | @arp dst tha oper tpa hdst htha =>
    have hbytes : ipkt.bytes = ethFrame dst (mac i).toList 0x0806
        (arpBytes oper (mac i).toList (net i).inetadr tha tpa ++ pad) := by
      rw [hf]
      simp [ethFrame]
    have hhost : (mac j).toList ≠ FrameReads.broadcastMac := fun heq => hmac j (mac_inj heq)
    rw [minipInput_arp hdst (mac_length _) hbytes hhost]
    split
    · rw [minipHandleArp_effects (mac_length _) htha (clip_frame hu hdst (mac_length _) hbytes)]
      intro e he
      split at he
      · split at he
        · cases he
        · obtain rfl := List.mem_singleton.mp he
          exact .arpReply _ (read_length _ _ _) (mac_length _)
      · split at he
        · split at he
          · cases he
          · obtain rfl := List.mem_singleton.mp he
            exact .arpUpdate ⟨i,rfl,(macOf_toList _).symm⟩
        · cases he
    · intro e he
      cases he
  | @ipv4 m dstip bytes hm hpacket =>
    have hbytes : ipkt.bytes = ethFrame m.toList (mac i).toList 0x0800 (bytes ++ pad) := by
      rw [hf]
      simp [ethFrame]
    rw [minipInput_ipv4 (mac_length _) (mac_length _) hbytes]
    split
    · next hown =>
      obtain rfl := mac_inj hown
      rcases hm with ⟨-,hall⟩ | hhop
      · exact absurd hall (hmac j)
      · exact minipHandleIpv4_reactions hu htrim hports hpacket hhop
          (clip_frame hu (mac_length _) (mac_length _) hbytes)
    · intro e he
      cases he

end Reactions

/-- What comes of a frame leaves a station in order. -/
theorem respond_ok (hu : api.Usual) (hp : PrependUsual pktPrepend) (h : Ok net mac said num j st) {x : Answers} {e : Effect}
    (he : Reaction net mac said j e) (hs : respond api pktPrepend (net j) (mac j) x st e = some st') :
    Ok net mac said num j st' ∧ st'.said = st.said := by
  cases he with
  | @arpReply smac sha spa hsmac hsha =>
    have hempty : (api.pktAlloc 14).length = 0 := hu.alloc_length 14
    have hroom : 14 ≤ (arpReply api (mac j).toList (net j).inetadr sha spa).addr := by
      have halloc := hu.alloc_room 14
      simpa [arpReply,arpPkt,hu.append] using halloc
    have hframe : (minipBuildMacHdr api (mac j).toList (arpReply api (mac j).toList (net j).inetadr sha spa) smac
        0x0806).bytes = ethFrame smac (mac j).toList 0x0806 (arpBytes 2 (mac j).toList (net j).inetadr sha spa) := by
      rw [bytes_macHdr hu hroom (mac_length _) hsmac,arpReply,bytes_arpPkt hu hempty (mac_length _) hsha]
      rfl
    unfold respond at hs
    dsimp only at hs
    rw [hframe] at hs
    obtain rfl := Option.some.inj hs
    split
    · refine ⟨⟨h.arp,h.table,h.waiting,fun f hf => ?_,h.heard,h.ports⟩,rfl⟩
      rcases List.mem_cons.mp hf with rfl | hf
      · exact .arp 2 spa hsmac hsha
      · exact h.out f hf
    · exact ⟨h,rfl⟩
  | arpUpdate hm =>
    obtain ⟨arp,harp,rfl⟩ := Option.map_eq_some_iff.mp hs
    exact ⟨arpUpdate_ok hu hp h hm harp,rfl⟩
  | icmp srcAddr hroom =>
    have hicmp : (1 : UInt8) ≠ 17 := by decide
    exact ⟨minipSendIpv4_ok hu hp h hroom (fun hproto => absurd hproto hicmp) hs,minipSendIpv4_said hs⟩
  | udp hcalls =>
    obtain rfl := Option.some.inj hs
    refine ⟨⟨h.arp,h.table,h.waiting,h.out,fun c hc => ?_,h.ports⟩,rfl⟩
    rcases List.mem_append.mp hc with hc | hc
    · exact hcalls c hc
    · exact h.heard c hc

theorem respondAll_ok (hu : api.Usual) (hp : PrependUsual pktPrepend) {x : Answers} {es : List Effect}
    (h : Ok net mac said num j st) (hes : ∀ e ∈ es, Reaction net mac said j e)
    (hs : respondAll api pktPrepend (net j) (mac j) x st es = some st') :
    Ok net mac said num j st' ∧ st'.said = st.said := by
  induction es generalizing st with
  | nil =>
    obtain rfl := Option.some.inj hs
    exact ⟨h,rfl⟩
  | cons e es ih =>
    obtain ⟨u,hu',hrest⟩ := Option.bind_eq_some_iff.mp hs
    obtain ⟨hok,hsaid⟩ := respond_ok hu hp h (hes e List.mem_cons_self) hu'
    obtain ⟨hok',hsaid'⟩ := ih hok (fun e he => hes e (List.mem_cons_of_mem _ he)) hrest
    exact ⟨hok',hsaid'.trans hsaid⟩

end Lemmas

/-! ### Whole runs -/

section Runs

variable {ι : Type} {net : ι → Net} {mac : ι → Mac} {api : PktApi} {pktTrim : Pbuf → ℕ → Pbuf}
  {pktPrepend : Pkt → ℕ → Option Pkt} {s t : ι → Station} {i : ι} {st : Station} {es : List (Event ι)} {num : ℕ}
  {pkts : ι → ℕ → Pbuf}

/-- What all of them said. -/
def talk (s : ι → Station) (i : ι) : List Datagram := (s i).said

/-- All is well with each of them. -/
def Kept (net : ι → Net) (mac : ι → Mac) (num : ℕ) (s : ι → Station) : Prop := ∀ k, Ok net mac (talk s) num k (s k)

theorem booted_kept : Kept net mac num (booted num pkts) := by
  intro k
  refine ⟨fun _ => Neighbours.init_inv,?_,?_,nofun,nofun,List.nodup_nil⟩
  · intro e he m hflag hinfo
    rw [List.eq_of_mem_replicate he] at hflag
    cases hflag
  · intro e he p hinfo
    rw [List.eq_of_mem_replicate he] at hinfo
    cases hinfo

variable [DecidableEq ι]

/-- One of them does something, and said no less than before. -/
theorem Kept.update (h : Kept net mac num s) (hsaid : (s i).said ⊆ st.said)
    (hok : ∀ said, (∀ k, talk s k ⊆ said k) → st.said ⊆ said i → Ok net mac said num i (s i) → Ok net mac said num i st) :
    Kept net mac num (Function.update s i st) := by
  have hmono : ∀ k, talk s k ⊆ talk (Function.update s i st) k := by
    intro k
    by_cases hk : k = i
    · subst hk
      rw [talk,talk,Function.update_self]
      exact hsaid
    · rw [talk,talk,Function.update_of_ne hk]
      exact List.Subset.refl _
  intro k
  by_cases hk : k = i
  · subst hk
    rw [Function.update_self]
    refine hok _ hmono ?_ ((h k).mono hmono)
    rw [talk,Function.update_self]
    exact List.Subset.refl _
  · rw [Function.update_of_ne hk]
    exact (h k).mono hmono

/-- A datagram that a socket sends. -/
theorem sendUdp_kept (hu : api.Usual) (hp : PrependUsual pktPrepend) (h : Kept net mac num s) {ref : ℕ} {tpkt : Pbuf} {d : Datagram} {rpkt : Option Pkt} {iret : ℤ}
    (hroom : 42 ≤ tpkt.addr) (hfits : tpkt.length+28 < 65536) (hpayload : d.payload = tpkt.bytes)
    (hs : (sendUdp api pktPrepend (net i) (mac i) (s i) ref tpkt d rpkt iret).map (Function.update s i) = some t) :
    Kept net mac num t := by
  obtain ⟨st,hst,rfl⟩ := Option.map_eq_some_iff.mp hs
  obtain ⟨u,hu',heq⟩ := Option.map_eq_some_iff.mp hst
  have hsaid : st.said = d::(s i).said := by
    rw [← heq,← (minipSendIpv4_said hu')]
  refine h.update (hsaid ▸ List.subset_cons_self _ _) fun said _ hsub hok => ?_
  exact sendUdp_ok hu hp hok hroom hfits (hsub (hsaid ▸ List.mem_cons_self)) hpayload hst

variable (hu : api.Usual) (htrim : TrimUsual pktTrim) (hp : PrependUsual pktPrepend)
  (hmac : ∀ k, mac k ≠ Neighbours.broadcastMac)
include hu htrim hp hmac

theorem step_kept (h : Kept net mac num s) {e : Event ι} (hproper : Proper es s e)
    (hs : step api pktTrim pktPrepend net mac s e = some t) : Kept net mac num t := by
  cases e with
  | sendTo i psock dstip dstport tpkt x => exact sendUdp_kept hu hp h hproper.1 hproper.2 rfl hs
  | send i psock tpkt x => exact sendUdp_kept hu hp h hproper.1 hproper.2 rfl hs
  | sockets i l =>
    obtain rfl := Option.some.inj hs
    exact h.update (List.Subset.refl _) fun said _ _ hok => ⟨hok.arp,hok.table,hok.waiting,hok.out,hok.heard,hproper⟩
  | receive i j f pad ipkt x =>
    rw [step] at hs
    split at hs
    · next hmem =>
      obtain ⟨st,hst,rfl⟩ := Option.map_eq_some_iff.mp hs
      have hreact : ∀ said, (∀ k, talk s k ⊆ said k) → ∀ e ∈ (minipInput api pktTrim
          ⟨(net j).inetadr,(mac j).toList,(s j).udpListenList,x.room,x.iret⟩ ipkt).effects,
          Reaction net mac said j e := fun said hsub =>
        minipInput_reactions hu htrim hmac (h j).ports (((h i).out f hmem.1).mono hsub) hmem.2
      have hsaid := (respondAll_ok hu hp (h j) (hreact _ fun _ => List.Subset.refl _) hst).2
      refine h.update (hsaid ▸ List.Subset.refl _) fun said hsub _ hok => ?_
      exact (respondAll_ok hu hp hok (hreact said hsub) hst).1
    · cases hs

theorem run_kept (hr : Run (step api pktTrim pktPrepend net mac) Proper (booted num pkts) es s) : Kept net mac num s :=
  hr.invariant (I := fun _ s => Kept net mac num s) booted_kept fun _ _ _ _ _ h hproper hs =>
    step_kept hu htrim hp hmac h hproper hs

/-- An address in a table is the one of a station that has the IP address, and every IPv4 frame leaves for
the station that is its next hop. -/
theorem run_resolved (hr : Run (step api pktTrim pktPrepend net mac) Proper (booted num pkts) es s) (i : ι) :
    (∀ e ∈ (s i).arp.arpList, ∀ m, e.flag = .valid → e.info = .mac m → HasMac net mac e.ipadr m) ∧
      ∀ f ∈ (s i).out, Frame net mac (talk s) i f :=
  ⟨(run_kept hu htrim hp hmac hr i).table,(run_kept hu htrim hp hmac hr i).out⟩

end Runs

/-! ### Two stations -/

def pairNet (b : Bool) : Net := ⟨if b then 0x0264a8c0 else 0x0164a8c0,0x00ffffff,0x0164a8c0⟩

def pairMac (b : Bool) : Mac := .replicate 6 (if b then 2 else 1)

theorem pairMac_ne (b : Bool) : pairMac b ≠ Neighbours.broadcastMac := by revert b; decide

/-- A frame as it comes in. -/
def wire (l : List UInt8) : Pbuf := ⟨ofList l,0,l.length⟩

def askFrame : List UInt8 := ethFrame (.replicate 6 0xff) (pairMac false).toList 0x0806
  (arpBytes 1 (pairMac false).toList (pairNet false).inetadr (.replicate 6 0) (pairNet true).inetadr)

def answerFrame : List UInt8 := ethFrame (pairMac false).toList (pairMac true).toList 0x0806
  (arpBytes 2 (pairMac true).toList (pairNet true).inetadr (pairMac false).toList (pairNet false).inetadr)

def dataFrame : List UInt8 := ethFrame (pairMac true).toList (pairMac false).toList 0x0800
  (ipv4Bytes (pairNet false).inetadr (pairNet true).inetadr 17 11 (udpBytes 0x3930 0x4500 [1,2,3]))

/-- Three bytes to a station whose address is not known, which hears them twice. -/
def threeBytes : List (Event Bool) :=
  let yes : Answers := ⟨true,7,some ⟨1,0⟩,1⟩
  let hears : Event Bool := .receive false true dataFrame [0,0,0] (wire (dataFrame ++ [0,0,0])) yes
  [.sockets true [anyPeer],
    .sendTo false ⟨0x3930,0,0,none⟩ 0xc0a86402 0x0045 ⟨ofList (.replicate 42 0 ++ [1,2,3]),42,3⟩ { yes with ref := 0 },
    .receive false true askFrame [] (wire askFrame) yes,.receive true false answerFrame [] (wire answerFrame) yes,hears,hears]

instance (es : List (Event Bool)) (s : Bool → Station) (e : Event Bool) : Decidable (Proper es s e) :=
  match e with
  | .sendTo _ _ _ _ _ _ => inferInstanceAs (Decidable (_ ∧ _))
  | .send _ _ _ _ => inferInstanceAs (Decidable (_ ∧ _))
  | .sockets _ _ => inferInstanceAs (Decidable (List.Nodup _))
  | .receive _ _ _ _ _ _ => inferInstanceAs (Decidable True)

/-- What such a run comes to. -/
theorem threeBytes_run : ∃ s, Run (step plainApi plainTrim Neighbours.plainPrepend pairNet pairMac) Proper
    (booted 2 fun _ _ => wire []) threeBytes.reverse s ∧
      (s true).heard.map (fun c => (c.ipkt.bytes,c.srcip,c.srcport)) =
        .replicate 2 ([1,2,3],0xc0a86401,0x3039) ∧ (s false).out.length = 2 := by
  obtain ⟨s,hr,hs⟩ := run_of_exec_map (checked (fun s e => decide (Proper [] s e))
      (step plainApi plainTrim Neighbours.plainPrepend pairNet pairMac)) (booted 2 fun _ _ => wire []) threeBytes
    (fun s => decide ((s true).heard.map (fun c => (c.ipkt.bytes,c.srcip,c.srcport)) =
      .replicate 2 ([1,2,3],0xc0a86401,0x3039) ∧ (s false).out.length = 2)) (by decide +kernel)
  refine ⟨s,hr.of_checked fun es s e h => ?_,of_decide_eq_true hs⟩
  have hproper := of_decide_eq_true h
  cases e <;> exact hproper

theorem threeBytes_resolved : ∃ s, Run (step plainApi plainTrim Neighbours.plainPrepend pairNet pairMac) Proper
    (booted 2 fun _ _ => wire []) threeBytes.reverse s ∧ (s false).out.length = 2 ∧
      (∀ e ∈ (s false).arp.arpList, ∀ m, e.flag = .valid → e.info = .mac m → HasMac pairNet pairMac e.ipadr m) ∧
        ∀ f ∈ (s false).out, Frame pairNet pairMac (talk s) false f := by
  obtain ⟨s,hr,-,hout⟩ := threeBytes_run
  exact ⟨s,hr,hout,run_resolved plainApi_usual (fun _ _ _ => rfl) Neighbours.plainPrepend_usual pairMac_ne hr false⟩

end Segment
end Autbus
