import Autbus.Datagrams
import Autbus.Pings

/-! What is read of a frame that comes in (`minip.c`), from `minip_input` down to the handlers of ARP,
IPv4, ICMP and UDP. A read is noted with its address, whether or not it is inside the frame. -/
namespace Autbus
namespace FrameReads

open Bytes Bundles Datagrams Pings

/-- The addresses of the interface, who listens, and the answers of `pkt_alloc` and `minip_send_ipv4`. -/
structure Host where
  inetadr : UInt32
  minipMac : List UInt8
  udpListenList : List MinipIpSock
  room : Bool
  iret : ℤ

def broadcastMac : List UInt8 := .replicate 6 0xff

/-- What a frame leads to. -/
inductive Effect
  | arpReply (smac sha : List UInt8) (spa : UInt32)
  | arpUpdate (spa : UInt32) (sha : List UInt8)
  | icmp (srcAddr : UInt32) (pkt : Pbuf)
  | udp (calls : List Call)

/-- What a handler returns and does, and what it reads of the frame. -/
structure Out where
  iret : ℤ
  effects : List Effect
  reads : List Span

def Out.next (out out' : Out) : Out := ⟨out'.iret,out.effects ++ out'.effects,out.reads ++ out'.reads⟩

/-- An address in a packet. -/
def addr32 (m : Mem) (a : ℕ) : UInt32 := UInt32.ofNat (u32 m a)

section Code

variable (api : PktApi) (pktTrim : Pbuf → ℕ → Pbuf) (host : Host)

/-- What `minip_handle_udp` reads, with one round of its loop for each socket. -/
def udpReads (srcip : UInt32) (ipkt : Pbuf) : List Span :=
  let pudp := udpHdr ipkt
  let ports (psock : MinipIpSock) : List Span :=
    if pudp.dstPort ≠ psock.srcPort then [⟨ipkt.addr+2,2⟩]
    else if psock.dstIp ≠ 0 ∧ psock.dstIp ≠ srcip then [⟨ipkt.addr+2,2⟩]
    else if psock.dstPort = 0 ∧ psock.cbfunc.isNone then [⟨ipkt.addr+2,2⟩]
    else [⟨ipkt.addr+2,2⟩,⟨ipkt.addr,2⟩]
  if ipkt.length < (bswap16 pudp.len).toNat then [⟨ipkt.addr+4,2⟩]
  else ⟨ipkt.addr+4,2⟩::host.udpListenList.flatMap ports

/-- What `minip_handle_icmp` reads. -/
def icmpReads (ipkt : Pbuf) : List Span :=
  if ipkt.length < 8 then []
  else if ipkt.mem ipkt.addr ≠ 8 ∨ !host.room then [⟨ipkt.addr,1⟩]
  else [⟨ipkt.addr,1⟩,⟨ipkt.addr,ipkt.length⟩]

/-- `minip_handle_arp`; `smac` is where the source address of the frame is. -/
def minipHandleArp (smac : ℕ) (ipkt : Pbuf) : Out :=
  let iarp := ipkt.addr
  let oper := bswap16 (word ipkt.mem (iarp+6))
  let sha := read ipkt.mem (iarp+8) 6
  let spa := addr32 ipkt.mem (iarp+14)
  if oper = 1 then
    if addr32 ipkt.mem (iarp+24) ≠ host.inetadr ∨ !host.room then ⟨0,[],[⟨iarp+6,2⟩,⟨iarp+24,4⟩]⟩
    else ⟨0,[.arpReply (read ipkt.mem smac 6) sha spa],
      [⟨iarp+6,2⟩,⟨iarp+24,4⟩,⟨iarp+8,6⟩,⟨iarp+14,4⟩,⟨smac,6⟩]⟩
  else if oper = 2 then
    if addr32 ipkt.mem (iarp+24) ≠ host.inetadr then ⟨0,[],[⟨iarp+6,2⟩,⟨iarp+24,4⟩]⟩
    else ⟨0,[.arpUpdate spa sha],[⟨iarp+6,2⟩,⟨iarp+24,4⟩,⟨iarp+14,4⟩,⟨iarp+8,6⟩]⟩
  else ⟨0,[],[⟨iarp+6,2⟩]⟩

/-- The end of `minip_handle_ipv4`: the packet goes to the handler of its protocol. -/
def dispatch (ip : ℕ) (ipkt : Pbuf) : Out :=
  let proto := ipkt.mem (ip+9)
  let srcAddr := addr32 ipkt.mem (ip+12)
  let forUs : Prop := addr32 ipkt.mem (ip+16) = host.inetadr
  if proto = 1 then
    if host.inetadr = 0 then ⟨0,[],[⟨ip+9,1⟩]⟩
    else if ¬forUs then ⟨0,[],[⟨ip+9,1⟩,⟨ip+16,4⟩]⟩
    else ⟨0,(minipHandleIcmp api ipkt host.room host.iret).2.toList.map (.icmp srcAddr),
      [⟨ip+9,1⟩,⟨ip+16,4⟩,⟨ip+12,4⟩] ++ icmpReads host ipkt⟩
  else if proto = 17 then
    if host.inetadr ≠ 0 ∧ ¬forUs then ⟨0,[],[⟨ip+9,1⟩,⟨ip+16,4⟩]⟩
    else ⟨0,[.udp (minipHandleUdp api pktTrim host.udpListenList srcAddr ipkt).2],
      [⟨ip+9,1⟩,⟨ip+16,4⟩,⟨ip+12,4⟩] ++ udpReads host srcAddr ipkt⟩
  else ⟨0,[],[⟨ip+9,1⟩]⟩

/-- `minip_handle_ipv4`. -/
def minipHandleIpv4 (ipkt : Pbuf) : Out :=
  let ip := ipkt.addr
  let verIhl := (ipkt.mem ip).toNat
  let hlen := verIhl % 16*4
  let frags := (bswap16 (word ipkt.mem (ip+6))).toNat
  if ipkt.length < 20 then ⟨1,[],[]⟩
  else if verIhl/16 ≠ 4 then ⟨2,[],[⟨ip,1⟩]⟩
  else if ipkt.length < 14+hlen then ⟨3,[],[⟨ip,1⟩]⟩
  else if frags % 16384 ≠ 0 then ⟨4,[],[⟨ip,1⟩,⟨ip+6,2⟩]⟩
  else
    let out := dispatch api pktTrim host ip (api.pktClip ipkt hlen)
    { out with reads := [⟨ip,1⟩,⟨ip+6,2⟩] ++ out.reads }

/-- The type of a frame. -/
def etype (ipkt : Pbuf) : UInt16 := bswap16 (word ipkt.mem (ipkt.addr+12))

/-- The destination of a frame. -/
def dstMac (ipkt : Pbuf) : List UInt8 := read ipkt.mem ipkt.addr 6

/-- The first half of `minip_input`, for frames to the interface; the packet is left as its handler gets it. -/
def toOwn (ipkt : Pbuf) : Pbuf × Out :=
  let out : Out := ⟨0,[],[⟨ipkt.addr+12,2⟩,⟨ipkt.addr,6⟩]⟩
  let clip := api.pktClip ipkt 14
  if dstMac ipkt = host.minipMac then
    if etype ipkt = 0x0800 then (clip,out.next (minipHandleIpv4 api pktTrim host clip))
    else if etype ipkt = 0x0806 then (clip,out.next (minipHandleArp host (ipkt.addr+6) clip))
    else (ipkt,out)
  else (ipkt,out)

/-- `minip_input`. -/
def minipInput (ipkt : Pbuf) : Out :=
  let (left,out) := toOwn api pktTrim host ipkt
  if dstMac ipkt = broadcastMac ∧ etype ipkt = 0x0806 then
    out.next (minipHandleArp host (ipkt.addr+6) (api.pktClip left 14))
  else out

end Code

/-! ### Inside the frame -/

/-- A read inside a packet. -/
def InFrame (ipkt : Pbuf) (s : Span) : Prop := ipkt.addr ≤ s.start ∧ s.start+s.len ≤ ipkt.addr+ipkt.length

instance (ipkt : Pbuf) (s : Span) : Decidable (InFrame ipkt s) := inferInstanceAs (Decidable (_ ∧ _))

def Safe (ipkt : Pbuf) (out : Out) : Prop := ∀ s ∈ out.reads, InFrame ipkt s

/-- The operation of an ARP packet is inside the frame, and so is the packet when it is one of two. -/
def ArpFits (ipkt iarp : Pbuf) : Prop :=
  let oper := bswap16 (word iarp.mem (iarp.addr+6))
  InFrame ipkt ⟨iarp.addr+6,2⟩ ∧ (oper = 1 ∨ oper = 2 → InFrame ipkt ⟨iarp.addr+6,22⟩)

instance (ipkt iarp : Pbuf) : Decidable (ArpFits ipkt iarp) := inferInstanceAs (Decidable (_ ∧ _))

/-- A frame has a header, and what is taken for an ARP packet fits into it. A frame that is both to the
interface and to all is taken for two. -/
def Fits (api : PktApi) (host : Host) (ipkt : Pbuf) : Prop :=
  let own := dstMac ipkt = host.minipMac
  let all := dstMac ipkt = broadcastMac
  let clip := api.pktClip ipkt 14
  14 ≤ ipkt.length ∧ (etype ipkt = 0x0806 →
    (own ∨ all → ArpFits ipkt clip) ∧ (own ∧ all → ArpFits ipkt (api.pktClip clip 14)))

instance (api : PktApi) (host : Host) (ipkt : Pbuf) : Decidable (Fits api host ipkt) :=
  inferInstanceAs (Decidable (_ ∧ (_ → _)))

section Safe

variable {api : PktApi} {pktTrim : Pbuf → ℕ → Pbuf} {host : Host} {ipkt q : Pbuf} {out out' : Out}

theorem safe_next : Safe ipkt (out.next out') ↔ Safe ipkt out ∧ Safe ipkt out' := by
  simp only [Safe,Out.next,List.forall_mem_append]

theorem safe_handleArp_iff (hlen : 14 ≤ ipkt.length) :
    Safe ipkt (minipHandleArp host (ipkt.addr+6) q) ↔ ArpFits ipkt q := by
  unfold minipHandleArp ArpFits Safe InFrame
  dsimp only
  generalize bswap16 (word q.mem (q.addr+6)) = oper
  by_cases h1 : oper = 1
  · subst h1
    rw [if_pos rfl]
    split
    · simp
      omega
    · simp
      omega
  · by_cases h2 : oper = 2
    · subst h2
      rw [if_neg (by decide),if_pos rfl]
      split
      · simp
        omega
      · simp
        omega
    · rw [if_neg h1,if_neg h2]
      simp [h1,h2]

/-- Inside a packet that lies inside another one. -/
structure Part (ipkt q : Pbuf) : Prop where
  start : ipkt.addr ≤ q.addr
  stop : q.addr+q.length ≤ ipkt.addr+ipkt.length

theorem icmpReads_inside (h : Part ipkt q) : ∀ s ∈ icmpReads host q, InFrame ipkt s := by
  obtain ⟨hstart,hstop⟩ := h
  unfold icmpReads InFrame
  split
  · simp
  · split
    · simp
      omega
    · simp
      omega

theorem udpReads_inside (srcip : UInt32) (h : Part ipkt q) (hlen : 8 ≤ q.length) :
    ∀ s ∈ udpReads host srcip q, InFrame ipkt s := by
  obtain ⟨hstart,hstop⟩ := h
  have hport : InFrame ipkt ⟨q.addr,2⟩ := ⟨hstart,by dsimp only; omega⟩
  have hdst : InFrame ipkt ⟨q.addr+2,2⟩ := ⟨by dsimp only; omega,by dsimp only; omega⟩
  have hlen : InFrame ipkt ⟨q.addr+4,2⟩ := ⟨by dsimp only; omega,by dsimp only; omega⟩
  unfold udpReads
  dsimp only
  split
  · simpa using hlen
  · refine List.forall_mem_cons.mpr ⟨hlen,fun s hs => ?_⟩
    obtain ⟨psock,-,hs⟩ := List.mem_flatMap.mp hs
    split at hs
    · obtain rfl := List.mem_singleton.mp hs
      exact hdst
    · split at hs
      · obtain rfl := List.mem_singleton.mp hs
        exact hdst
      · split at hs
        · obtain rfl := List.mem_singleton.mp hs
          exact hdst
        · rcases List.mem_cons.mp hs with rfl | hs
          · exact hdst
          · obtain rfl := List.mem_singleton.mp hs
            exact hport

/-- The handlers stay inside when the header of the packet is there. -/
theorem safe_dispatch {ip : ℕ} (hpart : Part ipkt q) (hlen : 8 ≤ q.length) (hip : InFrame ipkt ⟨ip,20⟩) :
    Safe ipkt (dispatch api pktTrim host ip q) := by
  have hhead : ∀ o n, o+n ≤ 20 → InFrame ipkt ⟨ip+o,n⟩ := by
    intro o n hle
    obtain ⟨hstart,hstop⟩ := hip
    exact ⟨by dsimp only at *; omega,by dsimp only at *; omega⟩
  have hproto := hhead 9 1 (by decide)
  have hdst := hhead 16 4 (by decide)
  have hsrc := hhead 12 4 (by decide)
  unfold Safe dispatch
  dsimp only
  split
  · split
    · simpa using hproto
    · split
      · simpa using ⟨hproto,hdst⟩
      · simpa using ⟨hproto,hdst,hsrc,icmpReads_inside hpart⟩
  · split
    · split
      · simpa using ⟨hproto,hdst⟩
      · simpa using ⟨hproto,hdst,hsrc,udpReads_inside _ hpart hlen⟩
    · simpa using hproto

theorem safe_handleIpv4 (hu : api.Usual) (hpart : Part ipkt q) :
    Safe ipkt (minipHandleIpv4 api pktTrim host q) := by
  obtain ⟨hstart,hstop⟩ := hpart
  unfold minipHandleIpv4
  dsimp only
  split
  · exact nofun
  · next hlen =>
    have hver : InFrame ipkt ⟨q.addr,1⟩ := ⟨hstart,by dsimp only; omega⟩
    have hfrags : InFrame ipkt ⟨q.addr+6,2⟩ := ⟨by dsimp only; omega,by dsimp only; omega⟩
    split
    · simpa [Safe] using hver
    · split
      · simpa [Safe] using hver
      · next hroom =>
        split
        · simpa [Safe] using ⟨hver,hfrags⟩
        · -- the check asks for the Ethernet header once more, so that fourteen bytes are left
          have hclip := hu.clip q ((q.mem q.addr).toNat % 16*4) (by omega)
          have hrest : Safe ipkt (dispatch api pktTrim host q.addr
              (api.pktClip q ((q.mem q.addr).toNat % 16*4))) := by
            refine safe_dispatch ?_ ?_ ⟨hstart,by dsimp only; omega⟩
            · rw [hclip]
              exact ⟨by dsimp only; omega,by dsimp only; omega⟩
            · rw [hclip]
              dsimp only
              omega
          exact List.forall_mem_append.mpr ⟨by simpa using ⟨hver,hfrags⟩,hrest⟩

theorem length_of_safe (h : Safe ipkt (toOwn api pktTrim host ipkt).2) : 14 ≤ ipkt.length := by
  have htype : ∃ out, (toOwn api pktTrim host ipkt).2.reads = ⟨ipkt.addr+12,2⟩::out := by
    unfold toOwn
    dsimp only
    split
    · split
      · exact ⟨_,rfl⟩
      · split
        · exact ⟨_,rfl⟩
        · exact ⟨_,rfl⟩
    · exact ⟨_,rfl⟩
  obtain ⟨out,hout⟩ := htype
  have hin : InFrame ipkt ⟨ipkt.addr+12,2⟩ := h _ (hout ▸ List.mem_cons_self)
  have hstop := hin.2
  dsimp only at hstop
  omega

theorem safe_toOwn_iff (hu : api.Usual) (hlen : 14 ≤ ipkt.length) : Safe ipkt (toOwn api pktTrim host ipkt).2 ↔
    (dstMac ipkt = host.minipMac → etype ipkt = 0x0806 → ArpFits ipkt (api.pktClip ipkt 14)) := by
  have hbegin : Safe ipkt ⟨0,[],[⟨ipkt.addr+12,2⟩,⟨ipkt.addr,6⟩]⟩ := by
    simp [Safe,InFrame]
    omega
  have hclip : Part ipkt (api.pktClip ipkt 14) := by
    rw [hu.clip ipkt 14 hlen]
    exact ⟨by dsimp only; omega,by dsimp only; omega⟩
  unfold toOwn
  dsimp only
  split
  · next hown =>
    split
    · next hip =>
      refine iff_of_true (safe_next.mpr ⟨hbegin,safe_handleIpv4 hu hclip⟩) fun _ harp => ?_
      rw [hip] at harp
      exact absurd harp (by decide)
    · split
      · next harp =>
        rw [safe_next,safe_handleArp_iff hlen]
        exact ⟨fun h _ _ => h.2,fun h => ⟨hbegin,h hown harp⟩⟩
      · next harp => exact iff_of_true hbegin fun _ h => absurd h harp
  · next hown => exact iff_of_true hbegin fun h => absurd h hown

/-- What is left of an ARP packet by the first half. -/
theorem toOwn_left (harp : etype ipkt = 0x0806) : (toOwn api pktTrim host ipkt).1 =
    if dstMac ipkt = host.minipMac then api.pktClip ipkt 14 else ipkt := by
  have hip : etype ipkt ≠ 0x0800 := by
    rw [harp]
    decide
  unfold toOwn
  dsimp only
  rw [if_neg hip,if_pos harp]
  split <;> rfl

/-- Only bytes of the frame are read exactly when it fits. -/
theorem minipInput_safe_iff (hu : api.Usual) (pktTrim : Pbuf → ℕ → Pbuf) (host : Host) (ipkt : Pbuf) :
    Safe ipkt (minipInput api pktTrim host ipkt) ↔ Fits api host ipkt := by
  unfold minipInput Fits
  dsimp only
  by_cases hlen : 14 ≤ ipkt.length
  · have hown : Safe ipkt (toOwn api pktTrim host ipkt).2 ↔ _ := safe_toOwn_iff hu hlen
    by_cases harp : etype ipkt = 0x0806
    · by_cases hall : dstMac ipkt = broadcastMac
      · rw [if_pos ⟨hall,harp⟩,safe_next,safe_handleArp_iff hlen,hown,toOwn_left harp]
        by_cases hmac : dstMac ipkt = host.minipMac
        · rw [if_pos hmac]
          tauto
        · rw [if_neg hmac]
          tauto
      · simp [hown,hall,harp,hlen]
    · simp [hown,harp,hlen]
  · refine iff_of_false (fun hsafe => hlen ?_) fun h => hlen h.1
    have hbegun : Safe ipkt (toOwn api pktTrim host ipkt).2 := by
      split at hsafe
      · exact (safe_next.mp hsafe).1
      · exact hsafe
    exact length_of_safe hbegun

/-- Where the interface has an address of its own, an ARP packet takes 42 bytes, and one of another
operation 22. -/
theorem fits_iff (hu : api.Usual) (hmac : host.minipMac ≠ broadcastMac) : Fits api host ipkt ↔ 14 ≤ ipkt.length ∧
    (etype ipkt = 0x0806 → dstMac ipkt = host.minipMac ∨ dstMac ipkt = broadcastMac → 22 ≤ ipkt.length ∧
      let oper := bswap16 (word ipkt.mem (ipkt.addr+20))
      (oper = 1 ∨ oper = 2 → 42 ≤ ipkt.length)) := by
  have hboth : ¬(dstMac ipkt = host.minipMac ∧ dstMac ipkt = broadcastMac) := fun h => hmac (h.1.symm.trans h.2)
  unfold Fits
  refine and_congr_right fun hlen => forall_congr' fun _ => ?_
  have hfits : ArpFits ipkt (api.pktClip ipkt 14) ↔ 22 ≤ ipkt.length ∧
      (bswap16 (word ipkt.mem (ipkt.addr+20)) = 1 ∨ bswap16 (word ipkt.mem (ipkt.addr+20)) = 2 → 42 ≤ ipkt.length) := by
    rw [hu.clip ipkt 14 hlen]
    unfold ArpFits InFrame
    dsimp only
    generalize bswap16 (word ipkt.mem (ipkt.addr+14+6)) = oper
    constructor
    · rintro ⟨h1,h2⟩
      exact ⟨by omega,fun ho => by have := h2 ho; omega⟩
    · rintro ⟨h1,h2⟩
      exact ⟨by omega,fun ho => by have := h2 ho; omega⟩
  rw [hfits]
  exact ⟨fun h => h.1,fun h => ⟨h,fun hb => absurd hb hboth⟩⟩

end Safe

def plainHost : Host := ⟨0x0264a8c0,[0,0x27,0x13,0xcc,0xcc,0xcc],[],true,0⟩

/-- A frame to all that says it is an ARP packet, with `n` bytes behind the header. -/
def arpFrame (n : ℕ) : Pbuf :=
  ⟨ofList (broadcastMac ++ [0,1,2,3,4,5,8,6,0,1,8,0,6,4,0,1]),0,14+n⟩

theorem arpFrame_safe : Safe (arpFrame 28) (minipInput plainApi plainTrim plainHost (arpFrame 28)) :=
  (minipInput_safe_iff plainApi_usual plainTrim plainHost (arpFrame 28)).mpr (by decide)

theorem arpFrame_not_safe : ¬Safe (arpFrame 8) (minipInput plainApi plainTrim plainHost (arpFrame 8)) := by
  intro h
  have htpa : ⟨38,4⟩ ∈ (minipInput plainApi plainTrim plainHost (arpFrame 8)).reads := by decide
  exact absurd (h _ htpa) (by decide)

end FrameReads
end Autbus
