import Autbus.Segment

/-! That datagrams arrive (`minip.c`): whatever happened before, a datagram for a neighbour needs no more
than a request for its address, the answer, and its own frame. -/
namespace Autbus

namespace Neighbours

section Located

variable {pktPrepend : Pkt → ℕ → Option Pkt} {num : ℕ} {s : Sys} {tpkt : Pkt} {addr hop : UInt32}
  {l before behind : List ArpEntry} {parp : ArpEntry}

theorem locate_before (h : locate addr l = some (before,parp,behind)) : ∀ e ∈ before, e.ipadr ≠ addr := by
  induction l generalizing before with
  | nil => cases h
  | cons e l ih =>
    rw [locate] at h
    split at h
    · simp only [Option.some.injEq,Prod.mk.injEq] at h
      simp [← h.1]
    · next hne =>
      obtain ⟨⟨b,p,a⟩,hx,hb⟩ := Option.map_eq_some_iff.mp h
      simp only [Prod.mk.injEq] at hb
      obtain ⟨rfl,rfl,rfl⟩ := hb
      exact List.forall_mem_cons.mpr ⟨hne,ih hx⟩

theorem locate_middle (h : ∀ e ∈ before, e.ipadr ≠ addr) (hparp : parp.ipadr = addr) :
    locate addr (before ++ parp::behind) = some (before,parp,behind) := by
  induction before with
  | nil => simp [locate,hparp]
  | cons e before ih =>
    obtain ⟨he,hrest⟩ := List.forall_mem_cons.mp h
    simp [locate,he,ih hrest]

/-- A packet that can be sent is sent. -/
theorem minipSendEth_sent (hp : PrependUsual pktPrepend) (hroom : 14 ≤ tpkt.offset) (dmac : Mac) (type : EthType) :
    (minipSendEth pktPrepend s tpkt dmac type 1).2 = s.note (.sent tpkt.ref dmac type) := by
  rw [minipSendEth,hp tpkt 14 hroom]
  rfl

/-- The packet is the one that waits for the address, and somebody is asked for it. -/
def Asks (s s' : Sys) (tpkt : Pkt) (hop : UInt32) : Prop :=
  (∃ t notes, s'.log = notes ++ s.log ∧ .sent t broadcastMac .arp ∈ notes) ∧
    ∃ before behind, locate hop s'.arpList = some (before,⟨hop,.intry,.tpkt tpkt⟩,behind)

theorem notes_cons {u : Sys} {notes : List Note} (n : Note) (hu : u.log = notes ++ s.log) :
    (u.note n).log = (n::notes) ++ s.log := congrArg (n::·) hu

theorem park_asks (hp : PrependUsual pktPrepend) {u : Sys} {rpkt : Pkt} {notes : List Note}
    (hu : u.log = notes ++ s.log) (h : ∀ e ∈ before, e.ipadr ≠ hop) :
    Asks s (park pktPrepend u tpkt hop before behind rpkt 1).2 tpkt hop := by
  have hsent : (park pktPrepend u tpkt hop before behind rpkt 1).2 =
      { u with arpList := before ++ ⟨hop,.intry,.tpkt tpkt⟩::behind,
               log := .sent rpkt.ref broadcastMac .arp::.parked tpkt.ref hop::u.log } :=
    minipSendEth_sent hp (by decide : 14 ≤ 32) broadcastMac .arp
  rw [hsent]
  refine ⟨⟨rpkt.ref,.sent rpkt.ref broadcastMac .arp::.parked tpkt.ref hop::notes,?_,List.mem_cons_self⟩,
    before,behind,locate_middle h rfl⟩
  simp [hu]

theorem retry_asks (hp : PrependUsual pktPrepend) {u : Sys} {rpkt : Pkt} {notes : List Note}
    (hu : u.log = notes ++ s.log) (h : ∀ e ∈ before, e.ipadr ≠ hop) {x : ℤ × Sys}
    (hx : retry pktPrepend u tpkt hop before parp behind (some rpkt) 1 = some x) : Asks s x.2 tpkt hop := by
  unfold retry at hx
  split at hx
  · obtain rfl := Option.some.inj hx
    exact park_asks hp (notes_cons _ hu) h
  · cases hx
  · obtain rfl := Option.some.inj hx
    exact park_asks hp (notes_cons _ hu) h

/-- A packet for a neighbour leaves for the address in the table, or waits for it. -/
theorem minipSendIface_asks (hp : PrependUsual pktPrepend) {net : Net} {dstip : UInt32} {rpkt : Pkt}
    (hroom : 14 ≤ tpkt.offset) (hall : net.hop dstip ≠ 0xffffffff) {x : ℤ × Sys}
    (hx : minipSendIface pktPrepend s net tpkt dstip (some rpkt) 1 = some x) :
    (∃ m, (∃ e ∈ s.arpList, e.ipadr = net.hop dstip ∧ e.flag = .valid ∧ e.info = .mac m) ∧
      x.2.log = [.sent tpkt.ref m .ipv4,.handed tpkt.ref (net.hop dstip)] ++ s.log) ∨ Asks s x.2 tpkt (net.hop dstip) := by
  unfold minipSendIface minipArpLookup at hx
  dsimp only [Sys.note] at hx
  have hlog : (.handed tpkt.ref (net.hop dstip)::s.log) = [.handed tpkt.ref (net.hop dstip)] ++ s.log := rfl
  rw [if_neg hall] at hx
  cases hfound : locate (net.hop dstip) s.arpList with
  | none =>
    rw [hfound,Option.map_none] at hx
    dsimp only at hx
    split at hx
    · cases hx
    · exact Or.inr (retry_asks hp hlog (by simp) hx)
  | some y =>
    obtain ⟨before,parp,behind⟩ := y
    obtain ⟨heq,hip⟩ := locate_some hfound
    rw [hfound,Option.map_some] at hx
    dsimp only at hx
    split at hx
    · next m hflag hinfo =>
      obtain rfl := Option.some.inj hx
      refine Or.inl ⟨m,⟨parp,by simp [heq],hip,hflag,hinfo⟩,?_⟩
      rw [minipSendEth_sent hp hroom]
      rfl
    · cases hx
    · exact Or.inr (retry_asks hp hlog (locate_before hfound) hx)

/-- The packet that waits leaves for the address that is learned. -/
theorem minipArpUpdate_sent (pmac : Mac) (hp : PrependUsual pktPrepend) (hroom : 14 ≤ tpkt.offset)
    (h : locate addr s.arpList = some (before,⟨addr,.intry,.tpkt tpkt⟩,behind)) :
    ∃ s', minipArpUpdate pktPrepend s addr pmac 1 = some s' ∧
      s'.log = [.sent tpkt.ref pmac .ipv4,.learned addr pmac] ++ s.log := by
  unfold minipArpUpdate
  dsimp only [Sys.note]
  rw [h]
  refine ⟨_,rfl,?_⟩
  dsimp only
  rw [minipSendEth_sent hp hroom]
  rfl

end Located

end Neighbours

namespace Segment

open Trace Bytes Bundles Datagrams FrameReads Headers
open Neighbours (Mac Net Pkt Note EthType ArpEntry PrependUsual locate)

section Frames

variable {ι : Type} (net : ι → Net) (mac : ι → Mac)

/-- Who has the address? -/
def ask (i : ι) (hop : UInt32) : List UInt8 := ethFrame Neighbours.broadcastMac.toList (mac i).toList 0x0806
  (arpBytes 1 (mac i).toList (net i).inetadr (.replicate 6 0) hop)

/-- The answer of `j`. -/
def told (j i : ι) : List UInt8 := ethFrame (mac i).toList (mac j).toList 0x0806
  (arpBytes 2 (mac j).toList (net j).inetadr (mac i).toList (net i).inetadr)

def ipv4Of (i : ι) (d : Datagram) : List UInt8 :=
  ipv4Bytes (net i).inetadr d.dstip 17 (UInt16.ofNat (d.payload.length+8)) (udpBytes d.srcport d.dstport d.payload)

def frameTo (i : ι) (m : Mac) (d : Datagram) : List UInt8 := ethFrame m.toList (mac i).toList 0x0800 (ipv4Of net i d)

/-- The datagram is the one that waits for its next hop. -/
def Awaits (i : ι) (d : Datagram) (st : Station) : Prop :=
  ∃ ref before behind, locate ((net i).hop d.dstip) st.arp.arpList =
    some (before,⟨(net i).hop d.dstip,.intry,.tpkt ⟨ref,(st.pkts ref).addr⟩⟩,behind) ∧
      14 ≤ (st.pkts ref).addr ∧ (st.pkts ref).bytes = ipv4Of net i d

end Frames

section Calls

variable {ι : Type} {net : ι → Net} {mac : ι → Mac} {api : PktApi} {pktTrim : Pbuf → ℕ → Pbuf}
  {pktPrepend : Pkt → ℕ → Option Pkt} {num : ℕ} {said : ι → List Datagram} {i j : ι} {st st' : Station} {x : Answers}
  {d : Datagram}

/-- What was sent is among the frames that left. -/
theorem emit_mem {hop : UInt32} {arp : Neighbours.Sys} {notes : List Note} {n : Note} {f : List UInt8}
    (hlog : arp.log = notes ++ st.arp.log) (hn : n ∈ notes)
    (hf : frameOf api (net i) (mac i) st.pkts hop n = some f) : f ∈ (emit api (net i) (mac i) st hop arp).out := by
  have htake : arp.log.take (arp.log.length-st.arp.log.length) = notes := by
    rw [hlog,List.length_append,Nat.add_sub_cancel,List.take_left']
    rfl
  simp only [emit,htake,List.mem_append,List.mem_filterMap]
  exact Or.inl ⟨n,hn,hf⟩

/-- A datagram for a neighbour leaves for an address in the table, or waits for it. -/
theorem sendUdp_out (hu : api.Usual) (hp : PrependUsual pktPrepend) (hnum : 0 < num) (h : Ok net mac said num i st)
    {ref : ℕ} {tpkt : Pbuf} {rpkt : Pkt} (hroom : 42 ≤ tpkt.addr) (hpayload : d.payload = tpkt.bytes)
    (hall : (net i).hop d.dstip ≠ 0xffffffff)
    (hfresh : ref ∉ Neighbours.waiting st.arp.arpList ∧
      rpkt.ref ≠ ref ∧ rpkt.ref ∉ Neighbours.waiting st.arp.arpList) :
    ∃ st', sendUdp api pktPrepend (net i) (mac i) st ref tpkt d (some rpkt) 1 = some st' ∧ st'.heard = st.heard ∧
      ((∃ m, HasMac net mac ((net i).hop d.dstip) m ∧ frameTo net mac i m d ∈ st'.out) ∨
        ask net mac i ((net i).hop d.dstip) ∈ st'.out ∧ Awaits net i d st') := by
  have hlen : d.payload.length = tpkt.length := by rw [hpayload,bytes_length]
  have hbytes : (minipBuildUdpHdr api tpkt d.srcport d.dstport).bytes = udpBytes d.srcport d.dstport d.payload := by
    rw [bytes_udpHdr hu (by omega),udpBytes,hlen,hpayload]
  have haddr : (minipBuildUdpHdr api tpkt d.srcport d.dstport).addr = tpkt.addr-8 ∧
      (minipBuildUdpHdr api tpkt d.srcport d.dstport).length = tpkt.length+8 := by
    simp [minipBuildUdpHdr,hu.prepend tpkt 8 (by omega)]
  unfold sendUdp
  generalize minipBuildUdpHdr api tpkt d.srcport d.dstport = u at hbytes haddr ⊢
  have hipv4 : (minipBuildIpv4Hdr api (net i).inetadr u d.dstip 17).bytes = ipv4Of net i d := by
    rw [bytes_ipv4Hdr hu (by omega),hbytes,haddr.2,← hlen]
    rfl
  have hqaddr : 14 ≤ (minipBuildIpv4Hdr api (net i).inetadr u d.dstip 17).addr := by
    have hu20 : 20 ≤ u.addr := by omega
    simp only [minipBuildIpv4Hdr,poke_addr,hu.prepend u 20 hu20]
    omega
  unfold minipSendIpv4
  dsimp only
  generalize minipBuildIpv4Hdr api (net i).inetadr u d.dstip 17 = q at hipv4 hqaddr ⊢
  have hqroom : 14 ≤ (⟨ref,q.addr⟩ : Pkt).offset := hqaddr
  obtain ⟨y,hy,-⟩ := Neighbours.minipSendIface_inv hp (net i) d.dstip (some rpkt) 1 (h.arp hnum) hnum hfresh.1 hqroom
  have hevent : Neighbours.Fresh st.arp (.sendIface (net i) ⟨ref,q.addr⟩ d.dstip (some rpkt) 1) :=
    ⟨hfresh.1,fun r hr => Option.some.inj hr ▸ hfresh.2⟩
  have hstep : Neighbours.step pktPrepend st.arp (.sendIface (net i) ⟨ref,q.addr⟩ d.dstip (some rpkt) 1) = some y.2 := by
    rw [Neighbours.step,if_pos hevent,Neighbours.act,hy,Option.map_some]
  have hpkt : (Function.update st.pkts ref q) ref = q := Function.update_self ..
  rw [hstep]
  refine ⟨_,rfl,rfl,?_⟩
  rcases Neighbours.minipSendIface_asks hp hqroom hall hy with ⟨m,⟨e,he,hip,hflag,hinfo⟩,hlog⟩ | ⟨⟨t,notes,hlog,ht⟩,hwait⟩
  · refine Or.inl ⟨m,hip ▸ h.table e he m hflag hinfo,?_⟩
    refine emit_mem hlog List.mem_cons_self ?_
    dsimp only
    rw [frameOf_ipv4 hu (by rw [hpkt]; exact hqaddr),hpkt,hipv4]
    rfl
  · refine Or.inr ⟨emit_mem hlog ht (frameOf_arp hu),?_⟩
    obtain ⟨before,behind,hlocate⟩ := hwait
    refine ⟨ref,before,behind,?_,?_,?_⟩
    · simpa [emit,hpkt] using hlocate
    · simpa [emit,hpkt] using hqaddr
    · simpa [emit,hpkt] using hipv4

/-- The station that has the address answers. -/
theorem input_ask (hu : api.Usual) (hmac : ∀ k, mac k ≠ Neighbours.broadcastMac) {ipkt : Pbuf} (hroom : x.room = true)
    (hsend : x.iret = 1) (hf : ipkt.bytes = ask net mac i (net j).inetadr) :
    input api pktTrim pktPrepend (net j) (mac j) x st ipkt = some { st with out := told net mac j i::st.out } := by
  have hhost : (mac j).toList ≠ FrameReads.broadcastMac := fun heq => hmac j (mac_inj heq)
  have hclip := clip_frame hu (mac_length _) (mac_length _) hf
  have hbytes : (api.pktClip ipkt 14).bytes =
      arpBytes 1 (mac i).toList (net i).inetadr (.replicate 6 0) (net j).inetadr ++ [] := by
    rw [hclip,List.append_nil]
  have hmem : (api.pktClip ipkt 14).mem = ipkt.mem := by
    have hlen : 14 ≤ ipkt.length := by
      rw [← bytes_length,hf]
      simp [ask,ethFrame,be16]
      omega
    rw [hu.clip ipkt 14 hlen]
  have heffects : (minipInput api pktTrim ⟨(net j).inetadr,(mac j).toList,st.udpListenList,x.room,x.iret⟩
      ipkt).effects = [.arpReply (mac i).toList (mac i).toList (net i).inetadr] := by
    have hall : Neighbours.broadcastMac.toList = FrameReads.broadcastMac := rfl
    rw [minipInput_arp (mac_length _) (mac_length _) hf hhost,if_pos (Or.inr hall),
      minipHandleArp_effects (mac_length _) (List.length_replicate ..) hbytes,if_pos rfl,if_neg (by simp [hroom]),hmem,
      srcMac_frame (mac_length _) (mac_length _) hf]
  have hempty : (api.pktAlloc 14).length = 0 := hu.alloc_length 14
  have haddr : 14 ≤ (arpReply api (mac j).toList (net j).inetadr (mac i).toList (net i).inetadr).addr := by
    have halloc := hu.alloc_room 14
    simpa [arpReply,arpPkt,hu.append] using halloc
  have hframe : (minipBuildMacHdr api (mac j).toList (arpReply api (mac j).toList (net j).inetadr (mac i).toList
      (net i).inetadr) (mac i).toList 0x0806).bytes = told net mac j i := by
    rw [bytes_macHdr hu haddr (mac_length _) (mac_length _),arpReply,bytes_arpPkt hu hempty (mac_length _) (mac_length _)]
    rfl
  unfold input
  rw [heffects]
  simp only [respondAll,respond,hsend,if_true,hframe,Option.bind_some]

/-- The datagram that waits leaves when the address is told. -/
theorem input_told (hu : api.Usual) (hp : PrependUsual pktPrepend) (hmac : ∀ k, mac k ≠ Neighbours.broadcastMac)
    {ipkt : Pbuf} (hhop : (net i).hop d.dstip = (net j).inetadr) (hd : Awaits net i d st) (hsend : x.iret = 1)
    (hf : ipkt.bytes = told net mac j i) :
    ∃ st', input api pktTrim pktPrepend (net i) (mac i) x st ipkt = some st' ∧ frameTo net mac i (mac j) d ∈ st'.out := by
  have hhost : (mac i).toList ≠ FrameReads.broadcastMac := fun heq => hmac i (mac_inj heq)
  have hclip := clip_frame hu (mac_length _) (mac_length _) hf
  have hbytes : (api.pktClip ipkt 14).bytes =
      arpBytes 2 (mac j).toList (net j).inetadr (mac i).toList (net i).inetadr ++ [] := by
    rw [hclip,List.append_nil]
  have heffects : (minipInput api pktTrim ⟨(net i).inetadr,(mac i).toList,st.udpListenList,x.room,x.iret⟩
      ipkt).effects = [.arpUpdate (net j).inetadr (mac j).toList] := by
    rw [minipInput_arp (mac_length _) (mac_length _) hf hhost,if_pos (Or.inl rfl),
      minipHandleArp_effects (mac_length _) (mac_length _) hbytes,if_neg (by decide),if_pos rfl,if_neg (by simp)]
  obtain ⟨ref,before,behind,hlocate,haddr,hpkt⟩ := hd
  rw [hhop] at hlocate
  obtain ⟨arp,harp,hlog⟩ := Neighbours.minipArpUpdate_sent (mac j) hp haddr hlocate
  have hstep : Neighbours.step pktPrepend st.arp (.arpUpdate (net j).inetadr (mac j) 1) = some arp := harp
  unfold input
  rw [heffects]
  simp only [respondAll,respond,hsend,macOf_toList,hstep,Option.map_some,Option.bind_some]
  refine ⟨_,rfl,emit_mem hlog List.mem_cons_self ?_⟩
  rw [frameOf_ipv4 hu haddr,hpkt]
  rfl

/-- When no two sockets have the same port, the one that fits is the only one that is called. -/
theorem minipHandleUdp_one (hu : api.Usual) (htrim : TrimUsual pktTrim) {l : List MinipIpSock}
    (hports : (l.map MinipIpSock.srcPort).Nodup) {srcip : UInt32} {p : Pbuf} {pad : List UInt8} {psock : MinipIpSock}
    (h : p.bytes = udpBytes d.srcport d.dstport d.payload ++ pad) (hfits : d.payload.length+8 < 65536)
    (hmem : psock ∈ l) (htakes : psock.Fits srcip (udpHdr p)) (hcb : psock.cbfunc.isSome) :
    ∃ c, (minipHandleUdp api pktTrim l srcip p).2 = [c] ∧ c.psock = psock ∧ c.ipkt.bytes = d.payload ∧
      c.srcip = bswap32 srcip ∧ c.srcport = bswap16 d.srcport := by
  have hone := takers_le l hports srcip (udpHdr p)
  have hcalls := minipHandleUdp_calls hu htrim h hfits hone
  obtain ⟨cb,hcb⟩ := Option.isSome_iff_exists.mp hcb
  have htaker : cb ∈ takers srcip (udpHdr p) l :=
    List.mem_filterMap.mpr ⟨psock,List.mem_filter.mpr ⟨hmem,decide_eq_true htakes⟩,hcb⟩
  have hlen : (minipHandleUdp api pktTrim l srcip p).2.length = 1 := by
    have hle : ¬p.length < (bswap16 (udpHdr p).len).toNat := by
      rw [udpLen_bytes h hfits,← bytes_length,h]
      simp [udpBytes,be16]
      omega
    obtain ⟨cb',hcb'⟩ := List.length_eq_one_iff.mp (Nat.le_antisymm hone (List.length_pos_of_mem htaker))
    have hgiven : ((deliver api srcip (udpHdr p) l (pktTrim p (p.length-(bswap16 (udpHdr p).len).toNat))).map
        Call.ipkt).length = (given api (takers srcip (udpHdr p) l) _).length := congrArg List.length deliver_given
    rw [List.length_map,hcb'] at hgiven
    unfold minipHandleUdp
    dsimp only
    rw [if_neg hle]
    exact hgiven
  obtain ⟨c,hc⟩ := List.length_eq_one_iff.mp hlen
  obtain ⟨⟨hl,hfit⟩,hpayload,hsrcip,hsrcport⟩ := hcalls c (by simp [hc])
  refine ⟨c,hc,List.inj_on_of_nodup_map hports hl hmem ?_,hpayload,hsrcip,hsrcport⟩
  exact hfit.1.symm.trans htakes.1

/-- A datagram to the station is heard, when padding makes up for what it is too short. -/
theorem input_frame (hu : api.Usual) (htrim : TrimUsual pktTrim) {ipkt : Pbuf} {pad : List UInt8} {psock : MinipIpSock}
    (hports : (st.udpListenList.map MinipIpSock.srcPort).Nodup) (hdst : d.dstip = (net j).inetadr)
    (hfits : d.payload.length+8 < 65536) (hlong : 6 ≤ d.payload.length+pad.length)
    (hhop : HasMac net mac ((net i).hop d.dstip) (mac j)) (hmem : psock ∈ st.udpListenList)
    (htakes : psock.srcPort = d.dstport ∧ (psock.dstIp = 0 ∨ psock.dstIp = (net i).inetadr) ∧
      (psock.dstPort = 0 ∨ psock.dstPort = d.srcport)) (hcb : psock.cbfunc.isSome)
    (hf : ipkt.bytes = frameTo net mac i (mac j) d ++ pad) :
    ∃ c, input api pktTrim pktPrepend (net j) (mac j) x st ipkt = some { st with heard := c::st.heard } ∧
      c.psock = psock ∧ From net mac i j d c := by
  have hbytes : ipkt.bytes = ethFrame (mac j).toList (mac i).toList 0x0800 (ipv4Of net i d ++ pad) := by
    rw [hf]
    simp [frameTo,ethFrame]
  have hclip := clip_frame hu (mac_length _) (mac_length _) hbytes
  have hipv4 : (api.pktClip ipkt 14).bytes = ipv4Bytes (net i).inetadr d.dstip 17 (UInt16.ofNat (d.payload.length+8))
      (udpBytes d.srcport d.dstport d.payload ++ pad) := by
    rw [hclip]
    simp [ipv4Of,ipv4Bytes]
  have hudp := clip_ipv4 hu hipv4
  obtain ⟨hproto,hsrc,hdstip⟩ := ipv4_fields hipv4
  have hmem20 : (api.pktClip (api.pktClip ipkt 14) 20).mem = (api.pktClip ipkt 14).mem := by
    have hlen : 20 ≤ (api.pktClip ipkt 14).length := by
      rw [← bytes_length,hipv4]
      simp [ipv4Bytes,be16]
      omega
    rw [hu.clip _ 20 hlen]
  have hhdr : psock.Fits (net i).inetadr (udpHdr (api.pktClip (api.pktClip ipkt 14) 20)) := by
    rw [udpHdr_bytes hudp]
    exact ⟨htakes.1.symm,htakes.2⟩
  obtain ⟨c,hcalls,hpsock,hpayload,hsrcip,hsrcport⟩ :=
    minipHandleUdp_one hu htrim hports hudp hfits hmem hhdr hcb
  have hlong' : ¬(udpBytes d.srcport d.dstport d.payload ++ pad).length < 14 := by
    simp [udpBytes,be16]
    omega
  have heffects : (minipInput api pktTrim ⟨(net j).inetadr,(mac j).toList,st.udpListenList,x.room,x.iret⟩
      ipkt).effects = [.udp [c]] := by
    rw [minipInput_ipv4 (mac_length _) (mac_length _) hbytes,if_pos rfl,minipHandleIpv4_effects hipv4,if_neg hlong',
      dispatch]
    dsimp only
    rw [hmem20,hproto,hsrc,hdstip,hdst,if_neg (by decide),if_pos rfl,if_neg (by simp),hcalls]
  refine ⟨c,?_,hpsock,hpayload,hsrcip,hsrcport,hpsock ▸ htakes.1,hpsock ▸ htakes.2,Or.inr hdst.symm,hhop⟩
  unfold input
  rw [heffects]
  rfl

end Calls

section Runs

variable {ι : Type} [DecidableEq ι] {net : ι → Net} {mac : ι → Mac} {api : PktApi} {pktTrim : Pbuf → ℕ → Pbuf}
  {pktPrepend : Pkt → ℕ → Option Pkt} {s s' : ι → Station} {i j : ι} {es : List (Event ι)} {num : ℕ} {x : Answers}
  {pkts : ι → ℕ → Pbuf} {d : Datagram} {psock : MinipIpSock}

/-- A frame that left gets to a station. -/
def gets (i j : ι) (f pad : List UInt8) (x : Answers) : Event ι := .receive i j f pad (wire (f ++ pad)) x

omit [DecidableEq ι] in
theorem proper_gets {f pad : List UInt8} : Proper es s (gets i j f pad x) := trivial

theorem wire_bytes (l : List UInt8) : (wire l).bytes = l := read_ofList l

theorem step_gets {st : Station} {f pad : List UInt8} (hf : f ∈ (s i).out)
    (hs : input api pktTrim pktPrepend (net j) (mac j) x (s j) (wire (f ++ pad)) = some st) :
    step api pktTrim pktPrepend net mac s (gets i j f pad x) = some (Function.update s j st) := by
  have hmem : f ∈ (s i).out ∧ (wire (f ++ pad)).bytes = f ++ pad := ⟨hf,wire_bytes _⟩
  rw [gets,step,if_pos hmem,hs]
  rfl

/-- A socket of a station that takes the datagram, when its next hop is this station. -/
structure Takes (net : ι → Net) (i j : ι) (d : Datagram) (psock : MinipIpSock) : Prop where
  dstip : d.dstip = (net j).inetadr
  hop : (net i).hop d.dstip = d.dstip
  port : psock.srcPort = d.dstport
  peer : (psock.dstIp = 0 ∨ psock.dstIp = (net i).inetadr) ∧ (psock.dstPort = 0 ∨ psock.dstPort = d.srcport)
  cbfunc : psock.cbfunc.isSome

/-- The frame of the datagram is there. -/
theorem arrives (hu : api.Usual) (htrim : TrimUsual pktTrim) (pktPrepend : Pkt → ℕ → Option Pkt) (x : Answers) (s : ι → Station)
    (hports : ((s j).udpListenList.map MinipIpSock.srcPort).Nodup) (ht : Takes net i j d psock)
    (hmem : psock ∈ (s j).udpListenList) (hfits : d.payload.length+8 < 65536)
    (hf : frameTo net mac i (mac j) d ∈ (s i).out) :
    ∃ t c, step api pktTrim pktPrepend net mac s (gets i j (frameTo net mac i (mac j) d) (.replicate 6 0) x) = some t ∧
      (t j).heard = c::(s j).heard ∧ c.psock = psock ∧ From net mac i j d c := by
  have hhop : HasMac net mac ((net i).hop d.dstip) (mac j) := ⟨j,by rw [ht.hop,ht.dstip],rfl⟩
  have hlong : 6 ≤ d.payload.length+(List.replicate 6 (0 : UInt8)).length := by simp
  obtain ⟨c,hinput,hpsock,hfrom⟩ := @input_frame ι net mac api pktTrim pktPrepend i j (s j) x d hu htrim _ _ _ hports
    ht.dstip hfits hlong hhop hmem ⟨ht.port,ht.peer⟩ ht.cbfunc (wire_bytes _)
  refine ⟨_,c,step_gets hf hinput,?_,hpsock,hfrom⟩
  rw [Function.update_self]

/-- The question gets there, the answer comes back, and the datagram is sent. -/
theorem resolves (hu : api.Usual) (hp : PrependUsual pktPrepend) (hmac : ∀ k, mac k ≠ Neighbours.broadcastMac)
    (x : Answers) (s : ι → Station) (hroom : x.room = true) (hsend : x.iret = 1)
    (hij : i ≠ j) (hhop : (net i).hop d.dstip = (net j).inetadr)
    (hask : ask net mac i (net j).inetadr ∈ (s i).out) (hawaits : Awaits net i d (s i)) :
    ∃ t u, step api pktTrim pktPrepend net mac s (gets i j (ask net mac i (net j).inetadr) [] x) = some t ∧
      step api pktTrim pktPrepend net mac t (gets j i (told net mac j i) [] x) = some u ∧
      frameTo net mac i (mac j) d ∈ (u i).out ∧ (u j).heard = (s j).heard ∧
        (u j).udpListenList = (s j).udpListenList := by
  have hasked := @input_ask ι net mac api pktTrim pktPrepend i j (s j) x hu hmac _ hroom hsend (wire_bytes _)
  obtain ⟨st,hst,hframe⟩ := @input_told ι net mac api pktTrim pktPrepend i j (s i) x d hu hp hmac _ hhop hawaits hsend
    (wire_bytes _)
  let t := Function.update s j { s j with out := told net mac j i::(s j).out }
  have htj : t j = { s j with out := told net mac j i::(s j).out } := Function.update_self ..
  have hti : t i = s i := Function.update_of_ne hij _ _
  refine ⟨t,Function.update t i st,step_gets hask ?_,step_gets ?_ ?_,?_,?_,?_⟩
  · rw [List.append_nil]
    exact hasked
  · rw [htj]
    exact List.mem_cons_self
  · rw [hti,List.append_nil]
    exact hst
  · rw [Function.update_self]
    exact hframe
  · rw [Function.update_of_ne (Ne.symm hij),htj]
  · rw [Function.update_of_ne (Ne.symm hij),htj]

end Runs

/-- Three bytes in a packet with room in front. -/
def threeByte : Pbuf := ⟨ofList (.replicate 42 0 ++ [1,2,3]),42,3⟩

end Segment
end Autbus
