import Autbus.FrameReads

/-! What `minip.c` puts in front of a packet on its way out, and what `minip_input` makes of the
frame on the other side. -/
namespace Autbus
namespace Headers

open Bytes Bundles Datagrams FrameReads

section Code

variable (api : PktApi)

/-- `minip_build_udp_hdr`; the ports are in the order of the network. -/
def minipBuildUdpHdr (tpkt : Pbuf) (srcport dstport : UInt16) : Pbuf :=
  let tlen := UInt16.ofNat tpkt.length
  let pudp := api.pktPrepend tpkt 8
  let pudp := (pudp.poke 0 (le16 srcport.toNat)).poke 2 (le16 dstport.toNat)
  (pudp.poke 4 (le16 (bswap16 (8+tlen)).toNat)).poke 6 (le16 0)

/-- `minip_build_ipv4_hdr`. -/
def minipBuildIpv4Hdr (inetadr : UInt32) (tpkt : Pbuf) (dst : UInt32) (proto : UInt8) : Pbuf :=
  let tlen := UInt16.ofNat tpkt.length
  let ipv4 := api.pktPrepend tpkt 20
  let ipv4 := (ipv4.poke 0 [0x45]).poke 1 [0]
  let ipv4 := (ipv4.poke 2 (le16 (bswap16 (20+tlen)).toNat)).poke 4 (le16 0)
  let ipv4 := ((ipv4.poke 6 (le16 0)).poke 8 [64]).poke 9 [proto]
  ((ipv4.poke 16 (le32 dst.toNat)).poke 12 (le32 inetadr.toNat)).poke 10 (le16 0)

/-- `minip_build_mac_hdr`. -/
def minipBuildMacHdr (minipMac : List UInt8) (tpkt : Pbuf) (dst : List UInt8) (type : UInt16) : Pbuf :=
  let ehdr := api.pktPrepend tpkt 14
  ((ehdr.poke 0 dst).poke 6 minipMac).poke 12 (le16 (bswap16 type).toNat)

/-- The ARP packet of `minip_send_arp` and of `minip_handle_arp`, in a packet that is empty. -/
def arpPkt (tpkt : Pbuf) (oper : UInt16) (sha : List UInt8) (spa : UInt32) (tha : List UInt8) (tpa : UInt32) : Pbuf :=
  let rarp := api.pktAppend tpkt 28
  let rarp := (rarp.poke 6 (le16 (bswap16 oper).toNat)).poke 0 (le16 (bswap16 1).toNat)
  let rarp := ((rarp.poke 2 (le16 (bswap16 0x0800).toNat)).poke 4 [6]).poke 5 [4]
  (((rarp.poke 8 sha).poke 14 (le32 spa.toNat)).poke 18 tha).poke 24 (le32 tpa.toNat)

/-- What `minip_send_arp` makes of the packet that it gets. -/
def arpRequest (minipMac : List UInt8) (inetadr : UInt32) (tpkt : Pbuf) (dstip : UInt32) : Pbuf :=
  arpPkt api { tpkt with addr := 32,length := 0 } 1 minipMac inetadr (.replicate 6 0) dstip

/-- The answer of `minip_handle_arp` to the request of `sha` and `spa`. -/
def arpReply (minipMac : List UInt8) (inetadr : UInt32) (sha : List UInt8) (spa : UInt32) : Pbuf :=
  arpPkt api (api.pktAlloc 14) 2 minipMac inetadr sha spa

end Code

/-! ### The bytes -/

theorem bytes_length (p : Pbuf) : p.bytes.length = p.length := read_length _ _ _

/-- A write inside a packet. -/
theorem bytes_poke {p : Pbuf} {i : ℕ} {xs : List UInt8} (h : i+xs.length ≤ p.length) :
    (p.poke i xs).bytes = p.bytes.take i ++ (xs ++ p.bytes.drop (i+xs.length)) := by
  obtain ⟨k,hk⟩ := Nat.exists_eq_add_of_le h
  have htake : p.bytes.take i = read p.mem p.addr i := read_take _ _ (by omega)
  have hdrop : p.bytes.drop (i+xs.length) = read p.mem (p.addr+(i+xs.length)) k := by
    rw [Pbuf.bytes,read_drop _ _ h,hk,Nat.add_sub_cancel_left]
  rw [htake,hdrop,Pbuf.bytes,Pbuf.poke]
  dsimp only
  rw [hk,Nat.add_assoc,read_add,read_add,read_store,read_store_frame (Or.inl (Nat.le_refl _)),
    read_store_frame (Or.inr (Nat.le_refl _)),Nat.add_assoc]

@[simp] theorem poke_length (p : Pbuf) (i : ℕ) (xs : List UInt8) : (p.poke i xs).length = p.length := rfl

@[simp] theorem poke_addr (p : Pbuf) (i : ℕ) (xs : List UInt8) : (p.poke i xs).addr = p.addr := rfl

/-- Room in front becomes the front of the packet. -/
theorem bytes_prepend {api : PktApi} (hu : api.Usual) {p : Pbuf} {n : ℕ} (h : n ≤ p.addr) :
    ∃ xs : List UInt8, xs.length = n ∧ (api.pktPrepend p n).bytes = xs ++ p.bytes := by
  refine ⟨read p.mem (p.addr-n) n,read_length _ _ _,?_⟩
  rw [hu.prepend p n h,Pbuf.bytes,Pbuf.bytes]
  dsimp only
  rw [Nat.add_comm p.length n,read_add,Nat.sub_add_cancel h]

/-- Sixteen bits in the order of the network. -/
def be16 (x : UInt16) : List UInt8 := le16 (bswap16 x).toNat

theorem bytes_macHdr {api : PktApi} (hu : api.Usual) {minipMac dst : List UInt8} {tpkt : Pbuf} {type : UInt16}
    (hroom : 14 ≤ tpkt.addr) (hmac : minipMac.length = 6) (hdst : dst.length = 6) :
    (minipBuildMacHdr api minipMac tpkt dst type).bytes = dst ++ (minipMac ++ (be16 type ++ tpkt.bytes)) := by
  obtain ⟨xs,hxs,hbytes⟩ := bytes_prepend hu hroom
  have hlen : (api.pktPrepend tpkt 14).length = tpkt.length+14 := by rw [hu.prepend tpkt 14 hroom]
  unfold minipBuildMacHdr
  dsimp only
  rw [bytes_poke (by simp [hlen]),bytes_poke (by simp [hlen,hmac]),bytes_poke (by simp [hlen,hdst]),hbytes]
  simp [hdst,hmac,hxs,be16,List.take_append,List.drop_append,List.take_of_length_le,List.drop_of_length_le]

theorem bytes_udpHdr {api : PktApi} (hu : api.Usual) {tpkt : Pbuf} {srcport dstport : UInt16} (hroom : 8 ≤ tpkt.addr) :
    (minipBuildUdpHdr api tpkt srcport dstport).bytes = le16 srcport.toNat ++ (le16 dstport.toNat ++
      (be16 (8+UInt16.ofNat tpkt.length) ++ ([0,0] ++ tpkt.bytes))) := by
  obtain ⟨xs,hxs,hbytes⟩ := bytes_prepend hu hroom
  have hlen : (api.pktPrepend tpkt 8).length = tpkt.length+8 := by rw [hu.prepend tpkt 8 hroom]
  unfold minipBuildUdpHdr
  dsimp only
  rw [bytes_poke (by simp [hlen]),bytes_poke (by simp [hlen]),bytes_poke (by simp [hlen]),
    bytes_poke (by simp [hlen]),hbytes]
  simp [hxs,be16,List.take_append,List.drop_append,List.drop_of_length_le]
  rfl

theorem bytes_ipv4Hdr {api : PktApi} (hu : api.Usual) {inetadr dst : UInt32} {tpkt : Pbuf} {proto : UInt8}
    (hroom : 20 ≤ tpkt.addr) : (minipBuildIpv4Hdr api inetadr tpkt dst proto).bytes =
      [0x45,0] ++ (be16 (20+UInt16.ofNat tpkt.length) ++ ([0,0,0,0,64,proto,0,0] ++
        (le32 inetadr.toNat ++ (le32 dst.toNat ++ tpkt.bytes)))) := by
  obtain ⟨xs,hxs,hbytes⟩ := bytes_prepend hu hroom
  have hlen : (api.pktPrepend tpkt 20).length = tpkt.length+20 := by rw [hu.prepend tpkt 20 hroom]
  unfold minipBuildIpv4Hdr
  dsimp only
  rw [bytes_poke (by simp [hlen]),bytes_poke (by simp [hlen]),bytes_poke (by simp [hlen]),
    bytes_poke (by simp [hlen]),bytes_poke (by simp [hlen]),bytes_poke (by simp [hlen]),bytes_poke (by simp [hlen]),
    bytes_poke (by simp [hlen]),bytes_poke (by simp [hlen]),bytes_poke (by simp [hlen]),hbytes]
  simp [hxs,be16,List.take_append,List.drop_append,List.drop_of_length_le]
  rfl

/-- An ARP packet. -/
def arpBytes (oper : UInt16) (sha : List UInt8) (spa : UInt32) (tha : List UInt8) (tpa : UInt32) : List UInt8 :=
  [0,1,8,0,6,4] ++ (be16 oper ++ (sha ++ (le32 spa.toNat ++ (tha ++ le32 tpa.toNat))))

theorem bytes_arpPkt {api : PktApi} (hu : api.Usual) {tpkt : Pbuf} {oper : UInt16} {sha tha : List UInt8}
    {spa tpa : UInt32} (hempty : tpkt.length = 0) (hsha : sha.length = 6) (htha : tha.length = 6) :
    (arpPkt api tpkt oper sha spa tha tpa).bytes = arpBytes oper sha spa tha tpa := by
  have hlen : (api.pktAppend tpkt 28).length = 28 := by rw [hu.append,hempty]
  generalize hxs : (api.pktAppend tpkt 28).bytes = xs
  have hxs' : xs.length = 28 := by rw [← hxs,bytes_length,hlen]
  unfold arpPkt arpBytes
  dsimp only
  rw [bytes_poke (by simp [hlen]),bytes_poke (by simp [hlen,htha]),bytes_poke (by simp [hlen]),
    bytes_poke (by simp [hlen,hsha]),bytes_poke (by simp [hlen]),bytes_poke (by simp [hlen]),bytes_poke (by simp [hlen]),
    bytes_poke (by simp [hlen]),bytes_poke (by simp [hlen]),hxs]
  simp [hxs',hsha,htha,be16,List.take_append,List.drop_append,List.take_of_length_le,List.drop_of_length_le]
  rfl

/-! ### What is read -/

section Read

variable {p : Pbuf} {n : ℕ} {xs : List UInt8} (pre post : List UInt8)

theorem read_at (hn : pre.length = n) (h : p.bytes = pre ++ (xs ++ post)) : read p.mem (p.addr+n) xs.length = xs := by
  have hlen : p.length = n+(xs.length+post.length) := by
    rw [← bytes_length,h,List.length_append,List.length_append,hn]
  rw [Pbuf.bytes,hlen,read_add,read_add] at h
  have htail := (List.append_inj h (by simp [hn])).2
  exact (List.append_inj htail (by simp)).1

theorem byte_at {x : UInt8} (hn : pre.length = n) (h : p.bytes = pre ++ ([x] ++ post)) : p.mem (p.addr+n) = x := by
  have hread := read_at pre post hn h
  simpa [Bytes.read] using hread

theorem word_at {x : UInt16} (hn : pre.length = n) (h : p.bytes = pre ++ (le16 x.toNat ++ post)) :
    word p.mem (p.addr+n) = x := by
  rw [word,u16_of_read x.toNat_lt (read_at pre post hn h)]
  exact UInt16.ofNat_toNat

theorem addr32_at {x : UInt32} (hn : pre.length = n) (h : p.bytes = pre ++ (le32 x.toNat ++ post)) :
    addr32 p.mem (p.addr+n) = x := by
  rw [addr32,u32_of_read x.toNat_lt (read_at pre post hn h)]
  exact UInt32.ofNat_toNat

theorem bytes_clip {api : PktApi} (hu : api.Usual) (hn : pre.length = n) (h : p.bytes = pre ++ post) :
    (api.pktClip p n).bytes = post := by
  have hlen : p.length = n+post.length := by rw [← bytes_length,h,List.length_append,hn]
  rw [hu.clip p n (by omega)]
  rw [Pbuf.bytes,hlen,read_add] at h
  rw [Pbuf.bytes]
  dsimp only
  rw [hlen,Nat.add_sub_cancel_left]
  exact (List.append_inj h (by simp [hn])).2

end Read

/-- A frame as it is on the wire. -/
def ethFrame (dst src : List UInt8) (type : UInt16) (body : List UInt8) : List UInt8 :=
  dst ++ (src ++ (be16 type ++ body))

section Frame

variable {f : Pbuf} {dst src body : List UInt8} {type : UInt16}

theorem dstMac_frame (hdst : dst.length = 6) (h : f.bytes = ethFrame dst src type body) : dstMac f = dst := by
  have hread := read_at [] _ rfl h
  rw [hdst] at hread
  exact hread

theorem srcMac_frame (hdst : dst.length = 6) (hsrc : src.length = 6) (h : f.bytes = ethFrame dst src type body) :
    read f.mem (f.addr+6) 6 = src := by
  have hread := read_at _ _ hdst h
  rwa [hsrc] at hread

theorem etype_frame (hdst : dst.length = 6) (hsrc : src.length = 6) (h : f.bytes = ethFrame dst src type body) :
    etype f = type := by
  have hword : word f.mem (f.addr+12) = bswap16 type := by
    refine word_at (dst ++ src) body (by simp [hdst,hsrc]) ?_
    rw [h,ethFrame,be16,List.append_assoc]
  rw [etype,hword,bswap16_bswap16]

theorem clip_frame {api : PktApi} (hu : api.Usual) (hdst : dst.length = 6) (hsrc : src.length = 6)
    (h : f.bytes = ethFrame dst src type body) : (api.pktClip f 14).bytes = body := by
  refine bytes_clip (dst ++ (src ++ be16 type)) body hu (by simp [hdst,hsrc,be16]) ?_
  rw [h,ethFrame]
  simp

end Frame

/-- An IPv4 packet. -/
def ipv4Bytes (src dst : UInt32) (proto : UInt8) (tlen : UInt16) (body : List UInt8) : List UInt8 :=
  [0x45,0] ++ (be16 (20+tlen) ++ ([0,0,0,0,64,proto,0,0] ++ (le32 src.toNat ++ (le32 dst.toNat ++ body))))

section Ipv4

variable {api : PktApi} {pktTrim : Pbuf → ℕ → Pbuf} {host : Host} {p : Pbuf} {src dst : UInt32} {proto : UInt8}
  {tlen : UInt16} {body : List UInt8}

/-- The header is in order; the check of the length asks for 14 bytes more than it. -/
theorem minipHandleIpv4_effects (h : p.bytes = ipv4Bytes src dst proto tlen body) :
    (minipHandleIpv4 api pktTrim host p).effects =
      if body.length < 14 then [] else (dispatch api pktTrim host p.addr (api.pktClip p 20)).effects := by
  have hlen : p.length = 20+body.length := by
    rw [← bytes_length,h]
    simp [ipv4Bytes,be16]
    omega
  have hver : p.mem p.addr = 0x45 := byte_at [] _ rfl h
  have hfrags : word p.mem (p.addr+6) = 0 := by
    refine word_at ([0x45,0] ++ be16 (20+tlen) ++ [0,0])
      ([64,proto,0,0] ++ (le32 src.toNat ++ (le32 dst.toNat ++ body))) (by simp [be16]) ?_
    rw [h]
    simp [ipv4Bytes,be16,le16]
  unfold minipHandleIpv4
  dsimp only
  rw [hver,hfrags,if_neg (by omega),if_neg (by decide)]
  have hihl : (0x45 : UInt8).toNat % 16*4 = 20 := rfl
  have hnofrags : ¬(bswap16 0).toNat % 16384 ≠ 0 := by decide
  rw [hihl,hlen,if_neg hnofrags]
  by_cases hshort : body.length < 14
  · rw [if_pos hshort,if_pos (by omega)]
  · rw [if_neg hshort,if_neg (by omega)]

/-- The fields of the header that decide where the packet goes. -/
theorem ipv4_fields (h : p.bytes = ipv4Bytes src dst proto tlen body) :
    p.mem (p.addr+9) = proto ∧ addr32 p.mem (p.addr+12) = src ∧ addr32 p.mem (p.addr+16) = dst := by
  refine ⟨?_,?_,?_⟩
  · refine byte_at ([0x45,0] ++ be16 (20+tlen) ++ [0,0,0,0,64])
      ([0,0] ++ (le32 src.toNat ++ (le32 dst.toNat ++ body))) (by simp [be16]) ?_
    rw [h]
    simp [ipv4Bytes]
  · refine addr32_at ([0x45,0] ++ be16 (20+tlen) ++ [0,0,0,0,64,proto,0,0])
      (le32 dst.toNat ++ body) (by simp [be16]) ?_
    rw [h]
    simp [ipv4Bytes]
  · refine addr32_at ([0x45,0] ++ be16 (20+tlen) ++ [0,0,0,0,64,proto,0,0] ++ le32 src.toNat)
      body (by simp [be16]) ?_
    rw [h]
    simp [ipv4Bytes]

theorem clip_ipv4 (hu : api.Usual) (h : p.bytes = ipv4Bytes src dst proto tlen body) :
    (api.pktClip p 20).bytes = body := by
  refine bytes_clip ([0x45,0] ++ be16 (20+tlen) ++ [0,0,0,0,64,proto,0,0] ++ le32 src.toNat ++ le32 dst.toNat)
    body hu (by simp [be16]) ?_
  rw [h]
  simp [ipv4Bytes]

end Ipv4

/-- A UDP datagram, with the ports in the order of the network. -/
def udpBytes (srcport dstport : UInt16) (payload : List UInt8) : List UInt8 :=
  le16 srcport.toNat ++ (le16 dstport.toNat ++ (be16 (8+UInt16.ofNat payload.length) ++ ([0,0] ++ payload)))

section Udp

variable {api : PktApi} {pktTrim : Pbuf → ℕ → Pbuf} {p : Pbuf} {srcport dstport : UInt16} {payload pad : List UInt8}

theorem udpHdr_bytes (h : p.bytes = udpBytes srcport dstport payload ++ pad) :
    udpHdr p = ⟨srcport,dstport,bswap16 (8+UInt16.ofNat payload.length)⟩ := by
  have hsrc : word p.mem p.addr = srcport := by
    refine word_at [] (le16 dstport.toNat ++
      (be16 (8+UInt16.ofNat payload.length) ++ ([0,0] ++ payload)) ++ pad) (n := 0) rfl ?_
    rw [h]
    simp [udpBytes]
  have hdst : word p.mem (p.addr+2) = dstport := by
    refine word_at (le16 srcport.toNat)
      (be16 (8+UInt16.ofNat payload.length) ++ ([0,0] ++ payload) ++ pad) rfl ?_
    rw [h]
    simp [udpBytes]
  have hlen : word p.mem (p.addr+4) = bswap16 (8+UInt16.ofNat payload.length) := by
    refine word_at (le16 srcport.toNat ++ le16 dstport.toNat) ([0,0] ++ payload ++ pad) rfl ?_
    rw [h]
    simp [udpBytes,be16]
  rw [udpHdr,hsrc,hdst,hlen]

/-- The length that the header tells. -/
theorem udpLen_bytes (h : p.bytes = udpBytes srcport dstport payload ++ pad) (hfits : payload.length+8 < 65536) :
    (bswap16 (udpHdr p).len).toNat = 8+payload.length := by
  rw [udpHdr_bytes h,bswap16_bswap16,UInt16.toNat_add,UInt16.toNat_ofNat']
  have h8 : (8 : UInt16).toNat = 8 := rfl
  omega

/-- The payload, behind the header and without the padding. -/
theorem payload_bytes (h : p.bytes = udpBytes srcport dstport payload ++ pad) (hfits : payload.length+8 < 65536) :
    (Datagrams.payload p).bytes = payload := by
  have hread : read p.mem (p.addr+8) payload.length = payload := by
    refine read_at (le16 srcport.toNat ++ le16 dstport.toNat ++ be16 (8+UInt16.ofNat payload.length) ++ [0,0]) pad rfl ?_
    rw [h]
    simp [udpBytes]
  rw [Datagrams.payload,Pbuf.bytes,udpLen_bytes h hfits]
  dsimp only
  rw [Nat.add_sub_cancel_left]
  exact hread

/-- Where a datagram comes from, in the order of the host. -/
theorem deliver_from {srcip : UInt32} {pudp : UdpHdr} {l : List MinipIpSock} {p : Pbuf} :
    ∀ c ∈ deliver api srcip pudp l p, c.srcip = bswap32 srcip ∧ c.srcport = bswap16 pudp.srcPort := by
  induction l generalizing p with
  | nil => simp [deliver]
  | cons psock l ih =>
    intro c hc
    rw [deliver_cons] at hc
    split at hc
    · split at hc
      · exact ih c hc
      · rcases List.mem_cons.mp hc with rfl | hc
        · exact ⟨rfl,rfl⟩
        · exact ih c hc
    · exact ih c hc

/-- Every socket that fits is called, with the payload and where it comes from, when no more than one
of them takes it. -/
theorem minipHandleUdp_calls (hu : api.Usual) (htrim : TrimUsual pktTrim) {l : List MinipIpSock} {srcip : UInt32}
    (h : p.bytes = udpBytes srcport dstport payload ++ pad) (hfits : payload.length+8 < 65536)
    (hone : (takers srcip (udpHdr p) l).length ≤ 1) :
    ∀ c ∈ (minipHandleUdp api pktTrim l srcip p).2,
      (c.psock ∈ l ∧ c.psock.Fits srcip (udpHdr p)) ∧ c.ipkt.bytes = payload ∧
        c.srcip = bswap32 srcip ∧ c.srcport = bswap16 srcport := by
  have hlen := udpLen_bytes h hfits
  have hle : 8+payload.length ≤ p.length := by
    rw [← bytes_length,h]
    simp [udpBytes,be16]
    omega
  have hclip : api.pktClip (pktTrim p (p.length-(bswap16 (udpHdr p).len).toNat)) 8 = Datagrams.payload p := by
    rw [htrim _ _ (Nat.sub_le _ _),hlen,Nat.sub_sub_self hle,hu.clip _ 8 (Nat.le_add_right _ _),Datagrams.payload,hlen]
  have hrestored : Restored api (Datagrams.payload p) (takers srcip (udpHdr p) l) := by
    intro cb hcb
    rw [List.dropLast_eq_take,show (takers srcip (udpHdr p) l).length-1 = 0 by omega,List.take_zero] at hcb
    cases hcb
  unfold minipHandleUdp
  dsimp only
  rw [if_neg (by omega)]
  intro c hc
  have hipkt : c.ipkt = Datagrams.payload p := by
    refine (given_iff hclip).mpr hrestored _ ?_
    rw [← deliver_given]
    exact List.mem_map_of_mem hc
  refine ⟨deliver_fits c hc,?_,?_⟩
  · rw [hipkt]
    exact payload_bytes h hfits
  · obtain ⟨hsrc,hport⟩ := deliver_from c hc
    rw [udpHdr_bytes h] at hport
    exact ⟨hsrc,hport⟩

end Udp

/-! ### A frame that comes in -/

section Input

variable {api : PktApi} {pktTrim : Pbuf → ℕ → Pbuf} {host : Host} {f : Pbuf} {dst smac body : List UInt8}

/-- An IPv4 frame is taken when it is to the interface. -/
theorem minipInput_ipv4 (hdst : dst.length = 6) (hsmac : smac.length = 6)
    (h : f.bytes = ethFrame dst smac 0x0800 body) : (minipInput api pktTrim host f).effects =
      if dst = host.minipMac then (minipHandleIpv4 api pktTrim host (api.pktClip f 14)).effects else [] := by
  have htype : etype f = 0x0800 := etype_frame hdst hsmac h
  have hmac : dstMac f = dst := dstMac_frame hdst h
  have harp : ¬(dst = broadcastMac ∧ (0x0800 : UInt16) = 0x0806) := fun hall => absurd hall.2 (by decide)
  unfold minipInput toOwn
  dsimp only
  rw [htype,hmac,if_neg harp,if_pos rfl]
  by_cases hown : dst = host.minipMac
  · rw [if_pos hown,if_pos hown]
    rfl
  · rw [if_neg hown,if_neg hown]

/-- An ARP frame is taken when it is to the interface or to all. -/
theorem minipInput_arp (hdst : dst.length = 6) (hsmac : smac.length = 6)
    (h : f.bytes = ethFrame dst smac 0x0806 body) (hhost : host.minipMac ≠ broadcastMac) :
    (minipInput api pktTrim host f).effects =
      if dst = host.minipMac ∨ dst = broadcastMac then
        (minipHandleArp host (f.addr+6) (api.pktClip f 14)).effects else [] := by
  have htype : etype f = 0x0806 := etype_frame hdst hsmac h
  have hmac : dstMac f = dst := dstMac_frame hdst h
  have hip : (0x0806 : UInt16) ≠ 0x0800 := by decide
  unfold minipInput toOwn
  dsimp only
  rw [htype,hmac]
  by_cases hown : dst = host.minipMac
  · have hall : dst ≠ broadcastMac := hown ▸ hhost
    simp [hown,hip,hown ▸ hall,Out.next]
  · by_cases hall : dst = broadcastMac
    · simp [hall ▸ hown,hall,Out.next]
    · simp [hown,hall]

end Input

section Arp

variable {host : Host} {p : Pbuf} {oper : UInt16} {sha tha pad : List UInt8} {spa tpa : UInt32} {smac : ℕ}

/-- What an ARP packet leads to. -/
theorem minipHandleArp_effects (hsha : sha.length = 6) (htha : tha.length = 6)
    (h : p.bytes = arpBytes oper sha spa tha tpa ++ pad) : (minipHandleArp host smac p).effects =
      if oper = 1 then
        if tpa ≠ host.inetadr ∨ !host.room then [] else [.arpReply (read p.mem smac 6) sha spa]
      else if oper = 2 then if tpa ≠ host.inetadr then [] else [.arpUpdate spa sha]
      else [] := by
  have hoper : word p.mem (p.addr+6) = bswap16 oper := by
    refine word_at [0,1,8,0,6,4] (sha ++ (le32 spa.toNat ++ (tha ++ le32 tpa.toNat)) ++ pad) rfl ?_
    rw [h]
    simp [arpBytes,be16]
  have hread : read p.mem (p.addr+8) 6 = sha := by
    have hread : read p.mem (p.addr+8) sha.length = sha := by
      refine read_at ([0,1,8,0,6,4] ++ be16 oper) (le32 spa.toNat ++ (tha ++ le32 tpa.toNat) ++ pad) rfl ?_
      rw [h]
      simp [arpBytes]
    rwa [hsha] at hread
  have hspa : addr32 p.mem (p.addr+14) = spa := by
    refine addr32_at ([0,1,8,0,6,4] ++ be16 oper ++ sha) (tha ++ le32 tpa.toNat ++ pad)
      (by simp [be16,hsha]) ?_
    rw [h]
    simp [arpBytes]
  have htpa : addr32 p.mem (p.addr+24) = tpa := by
    refine addr32_at ([0,1,8,0,6,4] ++ be16 oper ++ sha ++ le32 spa.toNat ++ tha) pad
      (by simp [be16,hsha,htha]) ?_
    rw [h]
    simp [arpBytes]
  unfold minipHandleArp
  dsimp only
  rw [hoper,bswap16_bswap16,hread,hspa,htpa]
  split
  · split <;> rfl
  · split
    · split <;> rfl
    · rfl

end Arp

end Headers
end Autbus
