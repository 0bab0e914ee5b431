import Autbus.Records
import Autbus.Trace

/-! Small Ethernet packets travel the Autbus in bundles (`phb1_demo.c`): `recv_pack` and the
timer make them, `recv_unpack` takes them apart. The packet functions are not part of the
repository; what they are used for is written down as `PktApi.Usual`. -/
namespace Autbus
namespace Bundles

open Bytes Trace

/-! ### Packets -/

/-- A `pbuf_t`: a window of `length` bytes into the packet's memory. `pkt_to_addr` is `addr`. -/
structure Pbuf where
  mem : Mem
  addr : ℕ
  length : ℕ

def Pbuf.bytes (p : Pbuf) : List UInt8 := read p.mem p.addr p.length

/-- `memcpy` to the packet or assignment through a pointer into it, `i` bytes into the window. -/
def Pbuf.poke (p : Pbuf) (i : ℕ) (xs : List UInt8) : Pbuf := { p with mem := store p.mem (p.addr+i) xs }

def Pbuf.fill (p : Pbuf) (i : ℕ) (src : Pbuf) (n : ℕ) : Pbuf :=
  { p with mem := copy p.mem (p.addr+i) src.mem src.addr n }

structure PktApi where
  pktAlloc : ℕ → Pbuf
  pktPrepend : Pbuf → ℕ → Pbuf
  pktAppend : Pbuf → ℕ → Pbuf
  pktClip : Pbuf → ℕ → Pbuf

/-- A new packet is empty and has the room in front that was asked for; the other functions
move the ends of the window. -/
structure PktApi.Usual (api : PktApi) : Prop where
  alloc_length : ∀ n, (api.pktAlloc n).length = 0
  alloc_room : ∀ n, n ≤ (api.pktAlloc n).addr
  prepend : ∀ p n, n ≤ p.addr → api.pktPrepend p n = ⟨p.mem,p.addr-n,p.length+n⟩
  append : ∀ p n, api.pktAppend p n = ⟨p.mem,p.addr,p.length+n⟩
  clip : ∀ p n, n ≤ p.length → api.pktClip p n = ⟨p.mem,p.addr+n,p.length-n⟩

/-- `DEV_ETH`. -/
def devEth : UInt8 := 1

/-- The constants that come from the platform. -/
structure Consts where
  maxBurstPktSize : ℕ
  pbufMaxsize : ℕ
  xheaderId : UInt8
  xheaderIdmask : UInt8
  xheaderChnnlmask : UInt8

/-- A packet holds a longest Ethernet packet and a bundle, which is below 2048 bytes; the
mask leaves the channel out of the id. -/
structure Consts.Fit (c : Consts) : Prop where
  burst_le : c.maxBurstPktSize ≤ c.pbufMaxsize
  maxsize_ge : 1514 ≤ c.pbufMaxsize
  maxsize_le : c.pbufMaxsize ≤ 2048
  id_mask : (c.xheaderId+devEth) &&& c.xheaderIdmask = c.xheaderId

/-- `XHEADER_LEN`: an id byte, a count byte and 16 bits of length. -/
def xheaderLen : ℕ := 4

variable (c : Consts) (api : PktApi)

/-! ### Packing -/

/-- A packet put behind the ones in the bundle. -/
def link (curpkt ipkt : Pbuf) : Pbuf :=
  let ipkt := api.pktPrepend ipkt 2
  let ipkt := ipkt.poke 0 (le16 (ipkt.length-2))
  let curpkt := curpkt.fill curpkt.length ipkt ipkt.length
  let curpkt := { curpkt with length := curpkt.length+ipkt.length }
  curpkt.poke 1 [curpkt.mem (curpkt.addr+1)+1]

/-- A bundle of one packet. -/
def first (revid : UInt8) (ipkt : Pbuf) : Pbuf :=
  let curpkt := (api.pktAlloc xheaderLen).fill 0 ipkt ipkt.length
  let curpkt := api.pktPrepend (api.pktAppend curpkt ipkt.length) xheaderLen
  let curpkt := (curpkt.poke 0 [c.xheaderId+revid]).poke 1 [1]
  curpkt.poke 2 (le16 (curpkt.length-xheaderLen))

/-- What `recv_pack` returns and leaves: the bundle it keeps and the one it gives out. -/
structure Packed where
  iret : ℤ
  ethpkt : Option Pbuf
  outpkt : Option Pbuf

/-- The second half of `recv_pack`: a bundle is begun. -/
def begin (revid : UInt8) (ipkt : Pbuf) (iret : ℤ) (outpkt : Option Pbuf) : Packed :=
  let curpkt := first c api revid ipkt
  if c.maxBurstPktSize ≤ curpkt.length ∧ iret ≤ 0 then ⟨curpkt.length,none,some curpkt⟩
  else ⟨iret,some curpkt,outpkt⟩

def recvPack (revid : UInt8) (ethpkt : Option Pbuf) (ipkt : Pbuf) : Packed :=
  match ethpkt with
  | some curpkt =>
    if curpkt.length+ipkt.length+2 < c.maxBurstPktSize then ⟨-1,some (link api curpkt ipkt),none⟩
    else begin c api revid ipkt curpkt.length (some curpkt)
  | none => begin c api revid ipkt (-1) none

/-- The bundle that is kept, and what was given to the Autbus so far. -/
structure Packer where
  ethpkt : Option Pbuf
  sent : List Pbuf

/-- A packet from the Ethernet port has 14 to 1514 bytes, and room in front for a length. -/
structure EthPkt where
  pkt : Pbuf
  length_ge : 14 ≤ pkt.length
  length_le : pkt.length ≤ 1514
  room : 2 ≤ pkt.addr

/-- One round of `test_dump_eth` with packing. -/
def testDumpEth (s : Packer) (ipkt : Pbuf) : Packer :=
  let r := recvPack c api devEth s.ethpkt ipkt
  if r.iret ≤ 0 then ⟨r.ethpkt,s.sent⟩ else ⟨r.ethpkt,s.sent ++ r.outpkt.toList⟩

def timerSendEth (s : Packer) : Packer :=
  match s.ethpkt with
  | none => s
  | some curpkt => ⟨none,s.sent ++ [curpkt]⟩

inductive Event
  | eth (p : EthPkt)
  | timer

def step (s : Packer) : Event → Option Packer
  | .eth p => some (testDumpEth c api s p.pkt)
  | .timer => some (timerSendEth s)

/-! ### Unpacking -/

/-- The ways `recv_unpack` ends when it has a packet: it throws it away, takes the first
packet out of it, or gives it out as the last one. -/
inductive Unpacked
  | bad
  | split (outpkt ppkpkt : Pbuf)
  | last (outpkt : Pbuf)

/-- `recv_unpack` on the packet it has received or kept. `srcbuf` points to where the packet
began also after the packet is clipped. -/
def recvUnpack (keephdr : Bool) (ipkt : Pbuf) : Unpacked :=
  let srcbuf := ipkt.addr
  if ipkt.mem srcbuf &&& c.xheaderIdmask = c.xheaderId then
    if 1 < ipkt.mem (srcbuf+1) then
      let len := u16 ipkt.mem (srcbuf+2)
      if len = 0 ∨ c.pbufMaxsize < len then .bad
      else
        let txpkt := ((api.pktAlloc 0).fill 0 ipkt (len+xheaderLen)).poke 1 [1]
        let txpkt := { txpkt with length := len+xheaderLen }
        let txpkt := if keephdr then txpkt else api.pktClip txpkt xheaderLen
        let ipkt := api.pktClip ipkt (len+xheaderLen-2)
        let ipkt := ipkt.poke 0 [ipkt.mem srcbuf]
        let ipkt := ipkt.poke 1 [ipkt.mem (srcbuf+1)-1]
        .split txpkt ipkt
    else .last (if keephdr then ipkt else api.pktClip ipkt xheaderLen)
  else .bad

/-- Up to `n` calls of `recv_unpack` until the bundle is used up. -/
def unpackAll : ℕ → Pbuf → Option (List Pbuf)
  | 0, _ => none
  | n+1, ipkt =>
    match recvUnpack c api false ipkt with
    | .bad => none
    | .split outpkt ipkt => (unpackAll n ipkt).map (outpkt::·)
    | .last outpkt => some [outpkt]

/-! ### What a bundle holds -/

/-- A bundle of the packets `ps`: behind id and count each one follows its length, the
first one too. -/
structure Holds (b : Pbuf) (ps : List (List UInt8)) : Prop where
  id : b.mem b.addr &&& c.xheaderIdmask = c.xheaderId
  count : (b.mem (b.addr+1)).toNat = ps.length
  recs : Records.At b.mem (b.addr+2) ps
  length : b.length = 2+Records.size ps

variable {c api}

theorem first_holds (hc : c.Fit) (h : api.Usual) (p : EthPkt) : Holds c (first c api devEth p.pkt) [p.pkt.bytes] := by
  have hroom := h.alloc_room xheaderLen
  have hlen := p.length_le
  generalize hcur : api.pktAlloc xheaderLen = cur at hroom
  have hzero : cur.length = 0 := hcur ▸ h.alloc_length xheaderLen
  have hfirst : first c api devEth p.pkt =
      ⟨store (Function.update (Function.update (copy cur.mem cur.addr p.pkt.mem p.pkt.addr p.pkt.length)
        (cur.addr-4) (c.xheaderId+devEth)) (cur.addr-4+1) 1) (cur.addr-4+2) (le16 p.pkt.length),
        cur.addr-4,p.pkt.length+4⟩ := by
    have hroom' : xheaderLen ≤ (api.pktAppend (cur.fill 0 p.pkt p.pkt.length) p.pkt.length).addr := by
      rw [h.append]
      exact hroom
    rw [first,hcur]
    rw [h.prepend _ _ hroom',h.append]
    simp [Pbuf.fill,Pbuf.poke,hzero,xheaderLen,store_one]
  rw [xheaderLen] at hroom
  obtain ⟨a,ha⟩ := Nat.exists_eq_add_of_le' hroom
  rw [hfirst,ha,Nat.add_sub_cancel]
  constructor
  · simp [store,hc.id_mask]
  · simp [store]
  · refine Records.at_single.mpr ⟨?_,?_⟩
    · rw [u16_store_le16 _ _ (by omega),Pbuf.bytes,read_length]
    · rw [Pbuf.bytes,read_length]
      refine (read_store_frame (Or.inr (Nat.le_refl (a+2+2)))).trans ?_
      rw [read_update_frame (Or.inr (show a+1 < a+2+2 by omega)),
        read_update_frame (Or.inr (show a < a+2+2 by omega))]
      exact read_copy _ _ _ _ _
  · simp [Pbuf.bytes]
    omega

theorem link_holds (h : api.Usual) {b : Pbuf} {ps : List (List UInt8)} (hb : Holds c b ps)
    (hcount : ps.length < 255) (p : EthPkt) : Holds c (link api b p.pkt) (ps ++ [p.pkt.bytes]) := by
  have hlen := p.length_le
  obtain ⟨a,ha⟩ := Nat.exists_eq_add_of_le' p.room
  let rec' := store p.pkt.mem a (le16 p.pkt.length)
  let mem := copy b.mem (b.addr+b.length) rec' a (p.pkt.length+2)
  have hlink : link api b p.pkt =
      ⟨Function.update mem (b.addr+1) (mem (b.addr+1)+1),b.addr,b.length+(p.pkt.length+2)⟩ := by
    rw [link]
    simp only
    rw [h.prepend _ _ p.room,ha,Nat.add_sub_cancel]
    simp [Pbuf.fill,Pbuf.poke,store_one,mem,rec']
  have hhead : ∀ i < 2, mem (b.addr+i) = b.mem (b.addr+i) := by
    intro i hi
    have hbl := hb.length
    have hout : ¬(b.addr+b.length ≤ b.addr+i ∧ b.addr+i < b.addr+b.length+(p.pkt.length+2)) := by omega
    exact if_neg hout
  have hrec : Records.At rec' a [p.pkt.bytes] := by
    refine Records.at_single.mpr ⟨?_,?_⟩
    · rw [u16_store_le16 _ _ (by omega),Pbuf.bytes,read_length]
    · rw [Pbuf.bytes,read_length,ha]
      exact read_store_frame (Or.inr (Nat.le_refl (a+2)))
  have hlast : read mem (b.addr+b.length) (p.pkt.length+2) = read rec' a (p.pkt.length+2) := read_copy _ _ _ _ _
  rw [hlink]
  constructor
  · have h0 := hhead 0 (by omega)
    rw [Nat.add_zero] at h0
    simp only [Function.update_of_ne (show b.addr ≠ b.addr+1 by omega),h0,hb.id]
  · have h1 := hhead 1 (by omega)
    simp only [Function.update_self,h1]
    rw [toNat_succ (by rw [hb.count]; omega),hb.count,List.length_append,List.length_singleton]
  · have hmem : Records.At mem (b.addr+2) (ps ++ [p.pkt.bytes]) := by
      refine Records.at_append.mpr ⟨hb.recs.move ?_,hrec.move ?_⟩
      · exact read_copy_frame (Or.inl (by rw [hb.length]; omega))
      · rw [Nat.add_assoc,← hb.length]
        simpa [Pbuf.bytes] using hlast
    exact hmem.move (read_update_frame (Or.inr (show b.addr+1 < b.addr+2 by omega)))
  · simp [hb.length,Pbuf.bytes,Nat.add_assoc]

/-! ### Taking a bundle apart -/

theorem unpack_last (h : api.Usual) {b : Pbuf} {x : List UInt8} (hb : Holds c b [x]) :
    ∃ p, recvUnpack c api false b = .last p ∧ p.bytes = x := by
  have hone : ¬1 < b.mem (b.addr+1) := by
    have hcount := hb.count
    rw [List.length_singleton] at hcount
    rw [UInt8.lt_iff_toNat_lt,hcount]
    decide
  have hlen := hb.length
  have hrec := (Records.at_single.mp hb.recs).2
  rw [Records.size_cons,Records.size_nil] at hlen
  have hclip := h.clip b xheaderLen (by rw [xheaderLen]; omega)
  refine ⟨api.pktClip b xheaderLen,?_,?_⟩
  · rw [recvUnpack,if_pos hb.id,if_neg hone]
    rfl
  · rw [hclip,Pbuf.bytes]
    simp only [xheaderLen]
    rw [show b.length-4 = x.length by omega]
    exact hrec

theorem unpack_split (h : api.Usual) {b : Pbuf} {x y : List UInt8} {ys : List (List UInt8)}
    (hb : Holds c b (x::y::ys)) (h0 : x ≠ []) (hmax : x.length ≤ c.pbufMaxsize) :
    ∃ p b', recvUnpack c api false b = .split p b' ∧ p.bytes = x ∧ Holds c b' (y::ys) := by
  have hmany : 1 < b.mem (b.addr+1) := by
    have hcount := hb.count
    rw [UInt8.lt_iff_toNat_lt,hcount]
    simp
  obtain ⟨h16,hdat,hrest⟩ := hb.recs
  have hpos := List.length_pos_of_ne_nil h0
  have hok : ¬(u16 b.mem (b.addr+2) = 0 ∨ c.pbufMaxsize < u16 b.mem (b.addr+2)) := by
    rw [h16]
    omega
  have hlen := hb.length
  rw [Records.size_cons] at hlen
  let a := b.addr+(x.length+2)
  let txmem := store (copy (api.pktAlloc 0).mem (api.pktAlloc 0).addr b.mem b.addr (x.length+4))
    ((api.pktAlloc 0).addr+1) [1]
  let mem := Function.update (Function.update b.mem a (b.mem b.addr)) (a+1) (b.mem (b.addr+1)-1)
  -- the new header lies over the last two bytes of the packet taken out, its count behind the old one
  have hsrc : Function.update b.mem a (b.mem b.addr) (b.addr+1) = b.mem (b.addr+1) :=
    Function.update_of_ne (by omega) _ _
  have hsplit : recvUnpack c api false b =
      .split ⟨txmem,(api.pktAlloc 0).addr+4,x.length⟩ ⟨mem,a,b.length-(x.length+2)⟩ := by
    have hclip := h.clip b (x.length+4-2) (by omega)
    rw [show x.length+4-2 = x.length+2 by omega] at hclip
    rw [recvUnpack,if_pos hb.id,if_pos hmany]
    simp only
    rw [if_neg hok,h16]
    simp only [xheaderLen,Bool.false_eq_true,if_false]
    rw [h.clip _ 4 (Nat.le_add_left _ _),show x.length+4-2 = x.length+2 by omega,hclip]
    simp [Pbuf.fill,Pbuf.poke,store_one,txmem,mem,a]
  refine ⟨_,_,hsplit,?_,?_⟩
  · have hcopy := read_copy (api.pktAlloc 0).mem (api.pktAlloc 0).addr b.mem b.addr (4+x.length)
    have hbody := (read_split hcopy).2
    rw [Nat.add_comm 4 x.length] at hbody
    rw [Pbuf.bytes]
    refine (read_store_frame (Or.inr (show (api.pktAlloc 0).addr+1+1 ≤ (api.pktAlloc 0).addr+4 by omega))).trans ?_
    exact hbody.trans hdat
  · constructor
    · simp only [mem,Function.update_of_ne (show a ≠ a+1 by omega),Function.update_self,hb.id]
    · have hcount := hb.count
      simp only [mem,Function.update_self]
      rw [UInt8.toNat_sub_of_le _ _ (UInt8.le_of_lt hmany),hcount]
      rfl
    · refine hrest.move ?_
      rw [show b.addr+2+(x.length+2) = a+2 by omega]
      refine (read_update_frame (Or.inr (show a+1 < a+2 by omega))).trans ?_
      exact read_update_frame (Or.inr (show a < a+2 by omega))
    · simp only
      omega

/-- The lengths that Ethernet packets have. -/
def EthLen (x : List UInt8) : Prop := 14 ≤ x.length ∧ x.length ≤ 1514

theorem EthPkt.ethLen (p : EthPkt) : EthLen p.pkt.bytes := by
  rw [EthLen,Pbuf.bytes,read_length]
  exact ⟨p.length_ge,p.length_le⟩

/-- A bundle is used up by as many calls as it holds packets, which give them out in order. -/
theorem unpackAll_holds (hc : c.Fit) (h : api.Usual) {n : ℕ} {ps : List (List UInt8)} (hne : ps ≠ [])
    (hlen : ∀ x ∈ ps, EthLen x) (hn : ps.length ≤ n) {b : Pbuf} (hb : Holds c b ps) :
    ∃ outs, unpackAll c api n b = some outs ∧ outs.map Pbuf.bytes = ps := by
  induction ps generalizing n b with
  | nil => exact absurd rfl hne
  | cons x ps ih =>
    obtain ⟨n,rfl⟩ : ∃ k, n = k+1 := ⟨n-1,by rw [List.length_cons] at hn; omega⟩
    cases ps with
    | nil =>
      obtain ⟨p,hp,hbytes⟩ := unpack_last h hb
      exact ⟨[p],by rw [unpackAll,hp],by simp [hbytes]⟩
    | cons y ys =>
      have hx := hlen x List.mem_cons_self
      have hmax := hc.maxsize_ge
      have hne : x ≠ [] := List.ne_nil_of_length_pos (by have := hx.1; omega)
      obtain ⟨p,b',hp,hbytes,hb'⟩ := unpack_split h hb hne (hx.2.trans hmax)
      obtain ⟨outs,houts,hmap⟩ := ih (List.cons_ne_nil y ys) (fun z hz => hlen z (List.mem_cons_of_mem _ hz))
        (Nat.le_of_succ_le_succ hn) hb'
      refine ⟨p::outs,?_,by rw [List.map_cons,hbytes,hmap]⟩
      rw [unpackAll,hp]
      simp only
      rw [houts,Option.map_some]

/-! ### Runs -/

/-- The packets of a run, the newest event first. -/
def packets (es : List Event) : List (List UInt8) :=
  es.reverse.filterMap fun
    | .eth p => some p.pkt.bytes
    | .timer => none

theorem packets_eth (p : EthPkt) (es : List Event) : packets (.eth p::es) = packets es ++ [p.pkt.bytes] := by
  simp [packets]

theorem packets_timer (es : List Event) : packets (.timer::es) = packets es := by
  simp [packets]

/-- A bundle on its way: at least one packet, and not too many to be counted. -/
structure Bundle (c : Consts) (b : Pbuf) (ps : List (List UInt8)) : Prop where
  holds : Holds c b ps
  ne_nil : ps ≠ []
  ethLen : ∀ x ∈ ps, EthLen x
  length_le : ps.length ≤ 127

theorem Bundle.first (hc : c.Fit) (h : api.Usual) (p : EthPkt) : Bundle c (first c api devEth p.pkt) [p.pkt.bytes] where
  holds := first_holds hc h p
  ne_nil := List.cons_ne_nil _ _
  ethLen x hx := List.mem_singleton.mp hx ▸ p.ethLen
  length_le := by simp

/-- Each packet takes 16 bytes and more, so a bundle that stays below the limit holds few. -/
theorem Bundle.link (hc : c.Fit) (h : api.Usual) {b : Pbuf} {ps : List (List UInt8)} (hb : Bundle c b ps) (p : EthPkt)
    (hfit : b.length+p.pkt.length+2 < c.maxBurstPktSize) :
    Bundle c (link api b p.pkt) (ps ++ [p.pkt.bytes]) := by
  have hlen : ∀ x ∈ ps ++ [p.pkt.bytes], EthLen x := by
    intro x hx
    rcases List.mem_append.mp hx with hx | hx
    · exact hb.ethLen x hx
    · exact List.mem_singleton.mp hx ▸ p.ethLen
  refine ⟨link_holds h hb.holds (by have := hb.length_le; omega) p,by simp,hlen,?_⟩
  have hsize := Records.le_size fun x hx => (hlen x hx).1
  have hb2 := hb.holds.length
  have hburst := hc.burst_le.trans hc.maxsize_le
  have hbytes : p.pkt.bytes.length = p.pkt.length := read_length _ _ _
  rw [Records.size_append,Records.size_cons,Records.size_nil] at hsize
  omega

def Pending (c : Consts) : Option Pbuf → List (List UInt8) → Prop
  | none, ps => ps = []
  | some b, ps => Bundle c b ps

/-- What a call of `recv_pack` does to the packets under way: it keeps the new one with them,
or gives out a bundle of the older ones or all. -/
structure Keeps (c : Consts) (r : Packed) (ps : List (List UInt8)) : Prop where
  keep : r.iret ≤ 0 → Pending c r.ethpkt ps
  give : ¬r.iret ≤ 0 → ∃ b qs rs, r.outpkt = some b ∧ Bundle c b qs ∧ Pending c r.ethpkt rs ∧ qs ++ rs = ps

theorem begin_keeps (hc : c.Fit) (h : api.Usual) (p : EthPkt) :
    Keeps c (begin c api devEth p.pkt (-1) none) [p.pkt.bytes] := by
  have hb := Bundle.first hc h p
  rw [begin]
  split
  · refine ⟨fun hle => ?_,fun _ => ⟨_,_,[],rfl,hb,rfl,List.append_nil _⟩⟩
    have hlen := hb.holds.length
    have hle : ((first c api devEth p.pkt).length : ℤ) ≤ 0 := hle
    omega
  · exact ⟨fun _ => hb,fun hgt => absurd (by simp) hgt⟩

theorem recvPack_keeps (hc : c.Fit) (h : api.Usual) {ethpkt : Option Pbuf} {ps : List (List UInt8)}
    (hps : Pending c ethpkt ps) (p : EthPkt) :
    Keeps c (recvPack c api devEth ethpkt p.pkt) (ps ++ [p.pkt.bytes]) := by
  cases ethpkt with
  | none =>
    obtain rfl : ps = [] := hps
    exact begin_keeps hc h p
  | some b =>
    have hb : Bundle c b ps := hps
    rw [recvPack]
    split
    · next hfit => exact ⟨fun _ => hb.link hc h p hfit,fun hgt => absurd (by simp) hgt⟩
    · have hpos : ¬((b.length : ℤ) ≤ 0) := by
        have hlen := hb.holds.length
        omega
      rw [begin]
      simp only [hpos,and_false,if_false]
      exact ⟨fun hle => absurd hle hpos,fun _ => ⟨b,ps,_,rfl,hb,Bundle.first hc h p,rfl⟩⟩

/-- What was sent and what is kept make up the packets so far. -/
structure Packs (c : Consts) (s : Packer) (xs : List (List UInt8)) : Prop where
  split : ∃ pss ps, List.Forall₂ (Bundle c) s.sent pss ∧ Pending c s.ethpkt ps ∧ pss.flatten ++ ps = xs

theorem forall₂_concat {α β : Type*} {R : α → β → Prop} {as : List α} {bs : List β} {a : α} {b : β}
    (h : List.Forall₂ R as bs) (hab : R a b) : List.Forall₂ R (as ++ [a]) (bs ++ [b]) :=
  List.rel_append h (.cons hab .nil)

theorem Packs.testDumpEth (hc : c.Fit) (h : api.Usual) {s : Packer} {xs : List (List UInt8)} (hs : Packs c s xs)
    (p : EthPkt) : Packs c (testDumpEth c api s p.pkt) (xs ++ [p.pkt.bytes]) := by
  obtain ⟨pss,ps,hpss,hps,rfl⟩ := hs.split
  have hr := recvPack_keeps hc h hps p
  rw [Bundles.testDumpEth]
  split
  · next hle => exact ⟨pss,_,hpss,hr.keep hle,(List.append_assoc _ _ _).symm⟩
  · next hgt =>
    obtain ⟨b,qs,rs,hout,hqs,hrs,hall⟩ := hr.give hgt
    rw [hout]
    refine ⟨pss ++ [qs],rs,forall₂_concat hpss hqs,hrs,?_⟩
    simp [List.append_assoc,hall]

theorem Packs.timerSendEth {s : Packer} {xs : List (List UInt8)} (hs : Packs c s xs) :
    Packs c (timerSendEth s) xs := by
  obtain ⟨pss,ps,hpss,hps,rfl⟩ := hs.split
  rw [Bundles.timerSendEth]
  cases he : s.ethpkt with
  | none => exact ⟨pss,ps,hpss,hps,rfl⟩
  | some b =>
    have hb : Bundle c b ps := by
      rw [he] at hps
      exact hps
    exact ⟨pss ++ [ps],[],forall₂_concat hpss hb,rfl,by simp⟩

/-- No packet yet. -/
def idle : Packer := ⟨none,[]⟩

theorem run_packs (hc : c.Fit) (h : api.Usual) {es : List Event} {s : Packer} (hr : Run (step c api) anyStep idle es s) :
    Packs c s (packets es) := by
  refine hr.invariant (I := fun es s => Packs c s (packets es)) ⟨[],[],.nil,rfl,rfl⟩ ?_
  intro es s e t _ hs _ ht
  cases e with
  | eth p =>
    cases ht
    rw [packets_eth]
    exact hs.testDumpEth hc h p
  | timer =>
    cases ht
    rw [packets_timer]
    exact hs.timerSendEth

theorem Pending.bundles {o : Option Pbuf} {ps : List (List UInt8)} (h : Pending c o ps) :
    ∃ pss, List.Forall₂ (Bundle c) o.toList pss ∧ pss.flatten = ps := by
  cases o with
  | none =>
    obtain rfl : ps = [] := h
    exact ⟨[],.nil,rfl⟩
  | some b => exact ⟨[ps],.cons h .nil,by simp⟩

theorem unpackAll_bundles (hc : c.Fit) (h : api.Usual) {bs : List Pbuf} {pss : List (List (List UInt8))}
    (hb : List.Forall₂ (Bundle c) bs pss) :
    ∃ outs, bs.mapM (unpackAll c api 255) = some outs ∧ outs.flatten.map Pbuf.bytes = pss.flatten := by
  induction hb with
  | nil => exact ⟨[],rfl,rfl⟩
  | cons hb _ ih =>
    obtain ⟨o,ho,hmap⟩ := unpackAll_holds hc h hb.ne_nil hb.ethLen (hb.length_le.trans (show 127 ≤ 255 by decide)) hb.holds
    obtain ⟨outs,houts,hflat⟩ := ih
    refine ⟨o::outs,?_,by simp [hmap,hflat]⟩
    rw [List.mapM_cons,ho,houts]
    rfl

/-- Whenever the timer fires, the bundles that were sent, taken apart one by one, and the one
that is kept hold the packets that came in, unchanged and in order. -/
theorem unpack_packed (hc : c.Fit) (h : api.Usual) {es : List Event} {s : Packer}
    (hr : Run (step c api) anyStep idle es s) :
    ∃ outs kept, s.sent.mapM (unpackAll c api 255) = some outs ∧
      s.ethpkt.toList.mapM (unpackAll c api 255) = some kept ∧
      (outs.flatten ++ kept.flatten).map Pbuf.bytes = packets es := by
  obtain ⟨pss,ps,hpss,hps,hall⟩ := (run_packs hc h hr).split
  obtain ⟨qss,hqss,rfl⟩ := hps.bundles
  obtain ⟨outs,houts,hflat⟩ := unpackAll_bundles hc h hpss
  obtain ⟨kept,hkept,hkflat⟩ := unpackAll_bundles hc h hqss
  exact ⟨outs,kept,houts,hkept,by rw [List.map_append,hflat,hkflat,hall]⟩

/-- Packet functions that do what they are used for. -/
def plainApi : PktApi where
  pktAlloc n := ⟨fun _ => 0,n,0⟩
  pktPrepend p n := ⟨p.mem,p.addr-n,p.length+n⟩
  pktAppend p n := ⟨p.mem,p.addr,p.length+n⟩
  pktClip p n := ⟨p.mem,p.addr+n,p.length-n⟩

theorem plainApi_usual : plainApi.Usual where
  alloc_length _ := rfl
  alloc_room n := Nat.le_refl n
  prepend _ _ _ := rfl
  append _ _ := rfl
  clip _ _ _ := rfl

def plainConsts : Consts where
  maxBurstPktSize := 750
  pbufMaxsize := 1536
  xheaderId := 0x50
  xheaderIdmask := 0xF8
  xheaderChnnlmask := 0x07

theorem plainConsts_fit : plainConsts.Fit where
  burst_le := by decide
  maxsize_ge := by decide
  maxsize_le := by decide
  id_mask := by decide

/-- A shortest packet, filled with one byte. -/
def shortPkt (b : UInt8) : EthPkt where
  pkt := ⟨fun _ => b,2,14⟩
  length_ge := Nat.le_refl 14
  length_le := show 14 ≤ 1514 by decide
  room := Nat.le_refl 2

/-- Two packets in a bundle, and one more after the timer. -/
def burst : List Event := [.eth (shortPkt 3),.timer,.eth (shortPkt 2),.eth (shortPkt 1)]

theorem burst_unpacked :
    ∃ s, Run (step plainConsts plainApi) anyStep idle burst s ∧
      ∃ outs kept, s.sent.mapM (unpackAll plainConsts plainApi 255) = some outs ∧
        s.ethpkt.toList.mapM (unpackAll plainConsts plainApi 255) = some kept ∧
        (outs.flatten ++ kept.flatten).map Pbuf.bytes = packets burst := by
  have hrun : Run (step plainConsts plainApi) anyStep idle burst _ :=
    .cons (.cons (.cons (.cons .nil trivial rfl) trivial rfl) trivial rfl) trivial rfl
  exact ⟨_,hrun,unpack_packed plainConsts_fit plainApi_usual hrun⟩

end Bundles
end Autbus
