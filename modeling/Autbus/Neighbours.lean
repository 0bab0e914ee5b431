import Autbus.Blocks
import Autbus.Ledger
import Autbus.Trace
import Mathlib.Data.Int.Notation
import Mathlib.Data.List.Count
import Mathlib.Data.List.Nodup

/-! The table of neighbours (`minip.c`). A packet to a neighbour whose hardware address is not known
waits in the table, in the place where the address will be; one that waited before it goes out as the
ARP request. -/
namespace Autbus
namespace Neighbours

open Blocks Ledger Trace

abbrev Mac := Vector UInt8 6

def broadcastMac : Mac := .replicate 6 0xff

/-- The types of a frame that are sent. -/
inductive EthType
  | ipv4
  | arp
  deriving DecidableEq

/-- A packet on its way out: which one it is, and how much room is in front of its data. -/
structure Pkt where
  ref : ℕ
  offset : ℕ
  deriving DecidableEq

/-- `AFG_INTRY`, `AFG_VALID` or 0. -/
inductive Flag
  | none
  | intry
  | valid
  deriving DecidableEq

/-- What the union of an entry was last written as. -/
inductive Info
  | tpkt (tpkt : Pkt)
  | mac (mac : Mac)
  deriving DecidableEq

/-- `arp_entry`. -/
structure ArpEntry where
  ipadr : UInt32
  flag : Flag
  info : Info
  deriving DecidableEq

/-- What becomes of the packets, and the addresses that are learned. -/
inductive Note
  | handed (tpkt : ℕ) (dstip : UInt32)
  | parked (tpkt : ℕ) (dstip : UInt32)
  | recycled (tpkt : ℕ)
  | alloc (rpkt : ℕ)
  | sent (tpkt : ℕ) (dmac : Mac) (type : EthType)
  | freed (tpkt : ℕ) (type : EthType)
  | learned (addr : UInt32) (pmac : Mac)
  deriving DecidableEq

/-- `arp_list` with a log, the newest note first. -/
structure Sys where
  arpList : List ArpEntry
  log : List Note

def Sys.note (s : Sys) (n : Note) : Sys := { s with log := n::s.log }

/-- `inetadr`, `netmask` and `gateway`. -/
structure Net where
  inetadr : UInt32
  netmask : UInt32
  gateway : UInt32

/-- The next hop. -/
def Net.hop (net : Net) (dstip : UInt32) : UInt32 :=
  if dstip &&& net.netmask ≠ net.inetadr &&& net.netmask then net.gateway else dstip

section Code

variable (pktPrepend : Pkt → ℕ → Option Pkt)

/-- `minip_send_eth`, where `iret` is what `send` returns. -/
def minipSendEth (s : Sys) (tpkt : Pkt) (dmac : Mac) (type : EthType) (iret : ℤ) : ℤ × Sys :=
  match pktPrepend tpkt 14 with
  | none => (-4,s)
  | some tpkt =>
    if iret = 1 then (0,s.note (.sent tpkt.ref dmac type))
    else (-5,s.note (.freed tpkt.ref type))

/-- `minip_send_arp`. -/
def minipSendArp (s : Sys) (tpkt : Pkt) (iret : ℤ) : Sys :=
  (minipSendEth pktPrepend s { tpkt with offset := 32 } broadcastMac .arp iret).2

/-- The first entry with an address, between those before and those behind it. -/
def locate (addr : UInt32) : List ArpEntry → Option (List ArpEntry × ArpEntry × List ArpEntry)
  | [] => none
  | parp::l =>
    if parp.ipadr = addr then some ([],parp,l)
    else (locate addr l).map fun x => (parp::x.1,x.2.1,x.2.2)

/-- `minip_arp_update`; it does not go on when it would take an address for a packet. -/
def minipArpUpdate (s : Sys) (addr : UInt32) (pmac : Mac) (iret : ℤ) : Option Sys :=
  let s := s.note (.learned addr pmac)
  match locate addr s.arpList with
  | none => some s
  | some (before,parp,behind) =>
    let arpList := { parp with flag := .valid,info := .mac pmac }::(before ++ behind)
    match parp.flag,parp.info with
    | .intry,.tpkt tpkt => some { (minipSendEth pktPrepend s tpkt pmac .ipv4 iret).2 with arpList := arpList }
    | .intry,.mac _ => none
    | _,_ => some { s with arpList := arpList }

/-- What `minip_arp_lookup` returns: the entry for all addresses, or one of the list. -/
inductive Parp
  | tmpArp
  | node (before : List ArpEntry) (parp : ArpEntry) (behind : List ArpEntry)

/-- `minip_arp_lookup`. -/
def minipArpLookup (arpList : List ArpEntry) (addr : UInt32) : Option Parp :=
  if addr = 0xffffffff then some .tmpArp
  else (locate addr arpList).map fun x => .node x.1 x.2.1 x.2.2

/-- The end of `minip_send_iface`: the packet waits in the entry, another one asks for the address. -/
def park (s : Sys) (tpkt : Pkt) (dstip : UInt32) (before behind : List ArpEntry) (rpkt : Pkt) (iret : ℤ) :
    ℤ × Sys :=
  let parp : ArpEntry := ⟨dstip,.intry,.tpkt tpkt⟩
  let s := { s with arpList := before ++ parp::behind }
  (-100,minipSendArp pktPrepend (s.note (.parked tpkt.ref dstip)) rpkt iret)

/-- An entry without an address in `minip_send_iface`: the packet that waits there is dropped for an ARP
request, or `rpkt` is the answer of `pkt_alloc`. -/
def retry (s : Sys) (tpkt : Pkt) (dstip : UInt32) (before : List ArpEntry) (parp : ArpEntry)
    (behind : List ArpEntry) (rpkt : Option Pkt) (iret : ℤ) : Option (ℤ × Sys) :=
  match parp.flag,parp.info with
  | .intry,.tpkt rpkt => some (park pktPrepend (s.note (.recycled rpkt.ref)) tpkt dstip before behind rpkt iret)
  | .intry,.mac _ => none
  | _,_ =>
    match rpkt with
    | none =>
      let s := { s with arpList := before ++ { parp with flag := .none }::behind }
      some (1,s.note (.freed tpkt.ref .ipv4))
    | some rpkt => some (park pktPrepend (s.note (.alloc rpkt.ref)) tpkt dstip before behind rpkt iret)

/-- `minip_send_iface`. -/
def minipSendIface (s : Sys) (net : Net) (tpkt : Pkt) (dstip : UInt32) (rpkt : Option Pkt) (iret : ℤ) :
    Option (ℤ × Sys) :=
  let dstip := net.hop dstip
  let s := s.note (.handed tpkt.ref dstip)
  match minipArpLookup s.arpList dstip with
  | some .tmpArp => some (minipSendEth pktPrepend s tpkt broadcastMac .ipv4 iret)
  | some (.node before parp behind) =>
    match parp.flag,parp.info with
    | .valid,.mac mac => some (minipSendEth pktPrepend s tpkt mac .ipv4 iret)
    | .valid,.tpkt _ => none
    | _,_ => retry pktPrepend s tpkt dstip before parp behind rpkt iret
  | none =>
    match s.arpList.getLast? with
    | none => none
    | some parp => retry pktPrepend s tpkt dstip [] parp s.arpList.dropLast rpkt iret

/-- `minip_arp_init`. -/
def minipArpInit (num : ℕ) : Sys := ⟨.replicate num ⟨0,.none,.mac (.replicate 6 0)⟩,[]⟩

/-! ### Runs -/

/-- The packets that wait, by what the entries hold. -/
def ArpEntry.waiting (parp : ArpEntry) : List ℕ :=
  match parp.info with
  | .tpkt tpkt => [tpkt.ref]
  | .mac _ => []

def waiting (l : List ArpEntry) : List ℕ := l.flatMap ArpEntry.waiting

/-- A packet is handed over, with the answers of `pkt_alloc` and `send`, or an ARP reply is received. -/
inductive Event
  | sendIface (net : Net) (tpkt : Pkt) (dstip : UInt32) (rpkt : Option Pkt) (iret : ℤ)
  | arpUpdate (addr : UInt32) (pmac : Mac) (iret : ℤ)

/-- What is handed over and what is new does not wait in the table. -/
def Fresh (s : Sys) : Event → Prop
  | .sendIface _ tpkt _ rpkt _ =>
    tpkt.ref ∉ waiting s.arpList ∧ ∀ r ∈ rpkt, r.ref ≠ tpkt.ref ∧ r.ref ∉ waiting s.arpList
  | .arpUpdate _ _ _ => True

instance (s : Sys) (e : Event) : Decidable (Fresh s e) :=
  match e with
  | .sendIface _ _ _ _ _ => inferInstanceAs (Decidable (_ ∧ _))
  | .arpUpdate _ _ _ => inferInstanceAs (Decidable True)

def act (s : Sys) : Event → Option Sys
  | .sendIface net tpkt dstip rpkt iret => (minipSendIface pktPrepend s net tpkt dstip rpkt iret).map Prod.snd
  | .arpUpdate addr pmac iret => minipArpUpdate pktPrepend s addr pmac iret

def step (s : Sys) (e : Event) : Option Sys := if Fresh s e then act pktPrepend s e else none

end Code

/-! ### What holds in every run -/

/-- A packet in hand, with the type it will go out as. -/
structure Hand where
  tpkt : ℕ
  type : EthType
  deriving DecidableEq

def data (t : ℕ) : Hand := ⟨t,.ipv4⟩

def request (r : ℕ) : Hand := ⟨r,.arp⟩

@[simp] theorem data_inj {t u : ℕ} : data t = data u ↔ t = u := by simp [data]

@[simp] theorem request_ne_data (r t : ℕ) : request r ≠ data t := by simp [request,data]

/-- What a note means for the packets in hand. -/
def Note.books : Note → List (Ledger.Event (Hand))
  | .handed tpkt _ => [.take (data tpkt)]
  | .alloc rpkt => [.take (request rpkt)]
  | .recycled tpkt => [.take (request tpkt),.give (data tpkt)]
  | .sent tpkt _ type => [.give ⟨tpkt,type⟩]
  | .freed tpkt type => [.give ⟨tpkt,type⟩]
  | .parked _ _ => []
  | .learned _ _ => []

def books (log : List Note) : List (Ledger.Event (Hand)) := log.flatMap Note.books

/-- The next hop a packet was parked for since it was handed over. -/
def hopOf (t : ℕ) : List Note → Option UInt32
  | [] => none
  | .handed tpkt _::log => if tpkt = t then none else hopOf t log
  | .parked tpkt dstip::log => if tpkt = t then some dstip else hopOf t log
  | _::log => hopOf t log

/-- A packet that was parked is sent when the address of its next hop was just learned, and to that
address. -/
def ToLearned (log : List Note) : Note → Prop
  | .sent tpkt dmac .ipv4 => ∀ dstip, hopOf tpkt log = some dstip → log.head? = some (.learned dstip dmac)
  | _ => True

/-- Packets are accounted for: what was handed over waits or was disposed of, once for each time. -/
structure Accounted (s : Sys) : Prop where
  inHand : (held (books s.log)).isSome
  once : ∀ t, (books s.log).count (.take (data t)) =
    (waiting s.arpList).count t+(books s.log).count (.give (data t))
  waiting : (waiting s.arpList).Nodup
  requests : ∀ r, (books s.log).count (.take (request r)) = (books s.log).count (.give (request r))
  unique : ∀ addr, addr ≠ 0 → s.arpList.countP (fun parp => parp.ipadr = addr) ≤ 1
  toLearned : Each ToLearned s.log

/-- Two entries have the same address only when it is zero. -/
def Apart (a b : ArpEntry) : Prop := a.ipadr = b.ipadr → a.ipadr = 0

/-- The flag says what the union holds; what waits has room for a header and waits for its next hop. -/
def ArpEntry.Sound (log : List Note) (parp : ArpEntry) : Prop :=
  match parp.info with
  | .tpkt tpkt => parp.flag = .intry ∧ 14 ≤ tpkt.offset ∧ hopOf tpkt.ref log = some parp.ipadr
  | .mac _ => parp.flag ≠ .intry

/-- All is well with the entries of a list, when there are other packets in hand. -/
structure Kept (l : List ArpEntry) (log : List Note) (hand : List (Hand)) : Prop where
  apart : l.Pairwise Apart
  sound : ∀ parp ∈ l, parp.Sound log
  holds : Holds (books log) (hand ++ (waiting l).map data)
  toLearned : Each ToLearned log

section Kept

variable {l l' : List ArpEntry} {log : List Note} {hand : List (Hand)} {parp : ArpEntry} {t r : ℕ}
  {type : EthType} {n : Note}

theorem Apart.symm {a b : ArpEntry} (h : Apart a b) : Apart b a := fun hab => hab.trans (h hab.symm)

theorem waiting_cons : waiting (parp::l) = parp.waiting ++ waiting l := rfl

theorem data_mem_iff : data t ∈ (waiting l).map data ↔ t ∈ waiting l := by simp

theorem request_notMem : request r ∉ (waiting l).map data := by
  simp [Ne.symm (request_ne_data r _)]

/-- To be sound is about the packet that waits. -/
theorem ArpEntry.Sound.congr {log' : List Note} (h : parp.Sound log)
    (hl : ∀ t ∈ parp.waiting, hopOf t log' = hopOf t log) : parp.Sound log' := by
  obtain ⟨ipadr,flag,info⟩ := parp
  cases info with
  | mac m => exact h
  | tpkt p => exact ⟨h.1,h.2.1,(hl p.ref (List.mem_singleton_self _)).trans h.2.2⟩

namespace Kept

theorem perm (h : Kept l log hand) (hp : l.Perm l') : Kept l' log hand where
  apart := (hp.pairwise_iff fun hab => hab.symm).mp h.apart
  sound parp hparp := h.sound parp (hp.mem_iff.mpr hparp)
  holds := h.holds.perm (((hp.flatMap_right _).map data).append_left hand)
  toLearned := h.toLearned

/-- An entry leaves the list, and what waits in it is in hand. -/
theorem out (h : Kept (parp::l) log hand) : Kept l log (parp.waiting.map data ++ hand) where
  apart := h.apart.of_cons
  sound e he := h.sound e (List.mem_cons_of_mem _ he)
  holds := by
    have hbooks := h.holds
    rw [waiting_cons,List.map_append,← List.append_assoc] at hbooks
    exact hbooks.perm (List.perm_append_comm.append_right _)
  toLearned := h.toLearned

/-- An entry comes into the list, with what waits in it. -/
theorem into (h : Kept l log (parp.waiting.map data ++ hand)) (hapart : ∀ e ∈ l, Apart parp e)
    (hsound : parp.Sound log) : Kept (parp::l) log hand where
  apart := List.pairwise_cons.mpr ⟨hapart,h.apart⟩
  sound e he := by
    rcases List.mem_cons.mp he with rfl | he
    · exact hsound
    · exact h.sound e he
  holds := by
    rw [waiting_cons,List.map_append,← List.append_assoc]
    exact h.holds.perm (List.perm_append_comm.append_right _)
  toLearned := h.toLearned

/-- A note that no packet of the list is in. -/
theorem note {hand' : List (Hand)} (h : Kept l log hand)
    (hhop : ∀ t ∈ waiting l, hopOf t (n::log) = hopOf t log) (hto : ToLearned log n)
    (hbooks : Holds (books (n::log)) (hand' ++ (waiting l).map data)) : Kept l (n::log) hand' where
  apart := h.apart
  sound e he := (h.sound e he).congr fun t ht => hhop t (List.mem_flatMap.mpr ⟨e,he,ht⟩)
  holds := hbooks
  toLearned := ⟨hto,h.toLearned⟩

theorem handed (h : Kept l log []) (dstip : UInt32) (ht : t ∉ waiting l) :
    Kept l (.handed t dstip::log) [data t] := by
  refine h.note (fun u hu => if_neg ?_) trivial (h.holds.take (data_mem_iff.not.mpr ht))
  rintro rfl
  exact ht hu

theorem parked (h : Kept l log hand) (dstip : UInt32) (ht : t ∉ waiting l) :
    Kept l (.parked t dstip::log) hand := by
  refine h.note (fun u hu => if_neg ?_) trivial h.holds
  rintro rfl
  exact ht hu

theorem learned (h : Kept l log hand) (addr : UInt32) (pmac : Mac) : Kept l (.learned addr pmac::log) hand :=
  h.note (fun _ _ => rfl) trivial h.holds

theorem alloc (h : Kept l log hand) (hr : request r ∉ hand) : Kept l (.alloc r::log) (request r::hand) :=
  h.note (fun _ _ => rfl) trivial (h.holds.take fun hmem => (List.mem_append.mp hmem).elim hr request_notMem)

theorem recycled (h : Kept l log (data r::hand)) (hr : request r ∉ hand) :
    Kept l (.recycled r::log) (request r::hand) :=
  h.note (fun _ _ => rfl) trivial
    (h.holds.give.take fun hmem => (List.mem_append.mp hmem).elim hr request_notMem)

theorem sent {dmac : Mac} (h : Kept l log (⟨t,type⟩::hand)) (hto : ToLearned log (.sent t dmac type)) :
    Kept l (.sent t dmac type::log) hand :=
  h.note (fun _ _ => rfl) hto h.holds.give

theorem freed (h : Kept l log (⟨t,type⟩::hand)) : Kept l (.freed t type::log) hand :=
  h.note (fun _ _ => rfl) trivial h.holds.give

theorem notMem (h : Kept l log hand) (ht : data t ∈ hand) : t ∉ waiting l := fun hmem =>
  (List.nodup_append.mp h.holds.nodup).2.2 _ ht _ (data_mem_iff.mpr hmem) rfl

end Kept

end Kept

section Steps

variable {pktPrepend : Pkt → ℕ → Option Pkt} {s : Sys} {l before behind : List ArpEntry} {parp : ArpEntry}
  {tpkt : Pkt} {dstip addr : UInt32} {hand : List (Hand)} {num : ℕ}

theorem locate_some (h : locate addr l = some (before,parp,behind)) :
    l = before ++ parp::behind ∧ parp.ipadr = addr := by
  induction l generalizing before with
  | nil => simp [locate] at h
  | cons e l ih =>
    rw [locate] at h
    split at h
    · next he =>
      simp only [Option.some.injEq,Prod.mk.injEq] at h
      obtain ⟨rfl,rfl,rfl⟩ := h
      exact ⟨rfl,he⟩
    · obtain ⟨⟨b,e',a⟩,hx,hb⟩ := Option.map_eq_some_iff.mp h
      simp only [Prod.mk.injEq] at hb
      obtain ⟨rfl,rfl,rfl⟩ := hb
      obtain ⟨rfl,haddr⟩ := ih hx
      exact ⟨rfl,haddr⟩

theorem locate_none (h : locate addr l = none) : ∀ e ∈ l, e.ipadr ≠ addr := by
  induction l with
  | nil => simp
  | cons e l ih =>
    rw [locate] at h
    split at h
    · cases h
    · next he =>
      exact List.forall_mem_cons.mpr ⟨he,ih (Option.map_eq_none_iff.mp h)⟩

/-- `pkt_prepend` finds room for what is no larger than the room. -/
def PrependUsual (pktPrepend : Pkt → ℕ → Option Pkt) : Prop :=
  ∀ p n, n ≤ p.offset → pktPrepend p n = some ⟨p.ref,p.offset-n⟩

theorem minipSendEth_arpList (dmac : Mac) (type : EthType) (iret : ℤ) :
    (minipSendEth pktPrepend s tpkt dmac type iret).2.arpList = s.arpList := by
  rw [minipSendEth]
  split
  · rfl
  · split <;> rfl

/-- All is well, and no packet is in hand. -/
structure Inv (num : ℕ) (s : Sys) : Prop where
  length : s.arpList.length = num
  kept : Kept s.arpList s.log []

variable (hp : PrependUsual pktPrepend)
include hp

theorem minipSendEth_kept {dmac : Mac} {type : EthType} (iret : ℤ) (h : Kept l s.log (⟨tpkt.ref,type⟩::hand))
    (hroom : 14 ≤ tpkt.offset) (hto : ToLearned s.log (.sent tpkt.ref dmac type)) :
    Kept l (minipSendEth pktPrepend s tpkt dmac type iret).2.log hand := by
  rw [minipSendEth,hp tpkt 14 hroom]
  dsimp only
  split
  · exact h.sent hto
  · exact h.freed

/-- A packet that asks for an address is no packet that waited. -/
theorem minipSendArp_inv {rpkt : Pkt} (iret : ℤ) (hlen : s.arpList.length = num)
    (h : Kept s.arpList s.log [request rpkt.ref]) : Inv num (minipSendArp pktPrepend s rpkt iret) where
  length := by rw [minipSendArp,minipSendEth_arpList,hlen]
  kept := by
    rw [minipSendArp,minipSendEth_arpList]
    exact minipSendEth_kept hp iret h (by decide : 14 ≤ 32) trivial

theorem park_inv {rpkt : Pkt} (iret : ℤ) (h : Kept (before ++ behind) s.log [request rpkt.ref,data tpkt.ref])
    (hlen : (before ++ parp::behind).length = num) (hroom : 14 ≤ tpkt.offset)
    (hapart : ∀ e ∈ before ++ behind, dstip = e.ipadr → dstip = 0) :
    Inv num (park pktPrepend s tpkt dstip before behind rpkt iret).2 := by
  have hlen' : (before ++ (⟨dstip,.intry,.tpkt tpkt⟩ : ArpEntry)::behind).length = num := by
    simpa using hlen
  refine minipSendArp_inv hp iret hlen' ?_
  have hnot : tpkt.ref ∉ waiting (before ++ behind) := h.notMem (by simp)
  have hparked := (h.parked dstip hnot).perm (List.Perm.refl _)
  have hinto : Kept (⟨dstip,.intry,.tpkt tpkt⟩::(before ++ behind)) (.parked tpkt.ref dstip::s.log)
      [request rpkt.ref] := by
    refine Kept.into ⟨h.apart,hparked.sound,hparked.holds.perm ?_,hparked.toLearned⟩ hapart ?_
    · exact (List.Perm.swap _ _ _).append_right _
    · exact ⟨rfl,hroom,if_pos rfl⟩
  exact hinto.perm List.perm_middle.symm

/-- An entry that has no address takes the packet, and another one asks for the address. -/
theorem retry_inv (rpkt : Option Pkt) (iret : ℤ)
    (h : Kept (before ++ parp::behind) s.log [data tpkt.ref]) (hlen : (before ++ parp::behind).length = num)
    (hroom : 14 ≤ tpkt.offset) (hapart : ∀ e ∈ before ++ behind, dstip = e.ipadr → dstip = 0) :
    ∃ x, retry pktPrepend s tpkt dstip before parp behind rpkt iret = some x ∧ Inv num x.2 := by
  have hout := (h.perm List.perm_middle).out
  have hparp := h.sound parp (by simp)
  obtain ⟨ipadr,flag,info⟩ := parp
  cases info with
  | tpkt old =>
    obtain rfl : flag = .intry := hparp.1
    exact ⟨_,rfl,park_inv hp iret (hout.recycled (by simp)) hlen hroom hapart⟩
  | mac m =>
    have hflag : flag ≠ .intry := hparp
    cases rpkt with
    | none =>
      have hleft : retry pktPrepend s tpkt dstip before ⟨ipadr,flag,.mac m⟩ behind none iret =
          some (1,⟨before ++ ⟨ipadr,.none,.mac m⟩::behind,.freed tpkt.ref .ipv4::s.log⟩) := by
        cases flag with
        | intry => exact absurd rfl hflag
        | none => rfl
        | valid => rfl
      refine ⟨_,hleft,by simpa using hlen,?_⟩
      have hinto : Kept (⟨ipadr,.none,.mac m⟩::(before ++ behind)) (.freed tpkt.ref .ipv4::s.log) [] :=
        Kept.into hout.freed (List.pairwise_cons.mp (h.perm List.perm_middle).apart).1 nofun
      exact hinto.perm List.perm_middle.symm
    | some rpkt =>
      have hleft : retry pktPrepend s tpkt dstip before ⟨ipadr,flag,.mac m⟩ behind (some rpkt) iret =
          some (park pktPrepend (s.note (.alloc rpkt.ref)) tpkt dstip before behind rpkt iret) := by
        cases flag with
        | intry => exact absurd rfl hflag
        | none => rfl
        | valid => rfl
      exact ⟨_,hleft,park_inv hp iret (hout.alloc (by simp [ArpEntry.waiting])) hlen hroom hapart⟩

theorem minipSendIface_inv (net : Net) (dstip : UInt32) (rpkt : Option Pkt) (iret : ℤ) (h : Inv num s)
    (hnum : 0 < num) (hfresh : tpkt.ref ∉ waiting s.arpList) (hroom : 14 ≤ tpkt.offset) :
    ∃ x, minipSendIface pktPrepend s net tpkt dstip rpkt iret = some x ∧ Inv num x.2 := by
  obtain ⟨hlen,hkept⟩ := h
  have hhanded := hkept.handed (net.hop dstip) hfresh
  -- it was not parked, so that any address will do
  have hdirect : ∀ dmac, Inv num (minipSendEth pktPrepend (s.note (.handed tpkt.ref (net.hop dstip))) tpkt dmac
      .ipv4 iret).2 := by
    intro dmac
    refine ⟨by rw [minipSendEth_arpList]; exact hlen,?_⟩
    rw [minipSendEth_arpList]
    refine minipSendEth_kept hp iret hhanded hroom fun hop hhop => ?_
    have hnone : hopOf tpkt.ref (.handed tpkt.ref (net.hop dstip)::s.log) = none := if_pos rfl
    exact absurd (hnone.symm.trans hhop) (by simp)
  unfold minipSendIface minipArpLookup
  dsimp only [Sys.note]
  generalize net.hop dstip = hop at *
  by_cases hall : hop = 0xffffffff
  · rw [if_pos hall]
    exact ⟨_,rfl,hdirect broadcastMac⟩
  · rw [if_neg hall]
    cases hfound : locate hop s.arpList with
    | none =>
      obtain ⟨parp,hlast⟩ : ∃ parp, s.arpList.getLast? = some parp := by
        refine Option.isSome_iff_exists.mp (List.getLast?_isSome.mpr fun hnil => ?_)
        rw [hnil,List.length_nil] at hlen
        omega
      have hsplit : s.arpList.Perm ([] ++ parp::s.arpList.dropLast) := by
        have heq := List.dropLast_append_getLast? parp hlast
        conv_lhs => rw [← heq]
        exact List.perm_append_singleton _ _
      rw [Option.map_none,hlast]
      refine retry_inv hp rpkt iret (hhanded.perm hsplit) (hsplit.length_eq.symm.trans hlen) hroom ?_
      intro e he heq
      exact absurd heq.symm (locate_none hfound e (List.dropLast_subset _ he))
    | some x =>
      obtain ⟨before,parp,behind⟩ := x
      obtain ⟨heq,rfl⟩ := locate_some hfound
      have hparp := hhanded.sound parp (by simp [heq])
      rw [heq] at hhanded hlen
      have hretry := retry_inv (s := s.note (.handed tpkt.ref parp.ipadr)) hp rpkt iret hhanded hlen hroom
        (List.pairwise_cons.mp (hhanded.perm List.perm_middle).apart).1
      obtain ⟨ipadr,flag,info⟩ := parp
      cases flag with
      | none => exact hretry
      | intry => exact hretry
      | valid =>
        cases info with
        | tpkt old => exact absurd hparp.1 (by simp)
        | mac m => exact ⟨_,rfl,hdirect m⟩

theorem minipArpUpdate_inv (addr : UInt32) (pmac : Mac) (iret : ℤ) (h : Inv num s) :
    ∃ s', minipArpUpdate pktPrepend s addr pmac iret = some s' ∧ Inv num s' := by
  obtain ⟨hlen,hkept⟩ := h
  have hlearned := hkept.learned addr pmac
  unfold minipArpUpdate
  dsimp only [Sys.note]
  cases hfound : locate addr s.arpList with
  | none => exact ⟨_,rfl,hlen,hlearned⟩
  | some x =>
    obtain ⟨before,parp,behind⟩ := x
    obtain ⟨heq,rfl⟩ := locate_some hfound
    have hparp := hlearned.sound parp (by simp [heq])
    rw [heq] at hlearned hlen
    have hlen' : ∀ m : Mac, (⟨parp.ipadr,.valid,.mac m⟩::(before ++ behind) : List ArpEntry).length = num := by
      intro m
      simpa [Nat.add_assoc] using hlen
    have hapart := (List.pairwise_cons.mp (hlearned.perm List.perm_middle).apart).1
    have hout := (hlearned.perm List.perm_middle).out
    obtain ⟨ipadr,flag,info⟩ := parp
    cases info with
    | tpkt tpkt =>
      obtain ⟨hflag,hroom,hhop⟩ := hparp
      obtain rfl : flag = .intry := hflag
      refine ⟨_,rfl,hlen' pmac,Kept.into ?_ hapart nofun⟩
      refine minipSendEth_kept hp iret hout hroom fun dstip hdst => ?_
      -- it was parked for the address that was just learned
      obtain rfl := Option.some.inj (hhop.symm.trans hdst)
      rfl
    | mac m =>
      have hflag : flag ≠ .intry := hparp
      have hinto : Inv num ⟨⟨ipadr,.valid,.mac pmac⟩::(before ++ behind),.learned ipadr pmac::s.log⟩ :=
        ⟨hlen' pmac,Kept.into hout hapart nofun⟩
      cases flag with
      | intry => exact absurd rfl hflag
      | none => exact ⟨_,rfl,hinto⟩
      | valid => exact ⟨_,rfl,hinto⟩

end Steps

/-! ### Every run -/

/-- Packets are handed over with room for a header. -/
def Roomy (_ : List Event) (_ : Sys) : Event → Prop
  | .sendIface _ tpkt _ _ _ => 14 ≤ tpkt.offset
  | .arpUpdate _ _ _ => True

instance (es : List Event) (s : Sys) (e : Event) : Decidable (Roomy es s e) :=
  match e with
  | .sendIface _ tpkt _ _ _ => inferInstanceAs (Decidable (14 ≤ tpkt.offset))
  | .arpUpdate _ _ _ => inferInstanceAs (Decidable True)

section Run

variable {pktPrepend : Pkt → ℕ → Option Pkt} {num : ℕ} {s : Sys} {es : List Event}

theorem init_inv : Inv num (minipArpInit num) where
  length := List.length_replicate
  kept := by
    have hnone : waiting (minipArpInit num).arpList = [] := by
      simp [waiting,minipArpInit,ArpEntry.waiting,List.flatMap_replicate]
    refine ⟨List.pairwise_replicate.mpr (Or.inr fun _ => rfl),fun parp hparp => ?_,?_,trivial⟩
    · rw [List.eq_of_mem_replicate hparp]
      exact nofun
    · rw [hnone]
      exact ⟨[],rfl,List.Perm.refl _⟩

/-- A step goes on and keeps all well. -/
theorem step_inv (hp : PrependUsual pktPrepend) (hnum : 0 < num) (h : Inv num s) {e : Event} (hroom : Roomy es s e)
    (hfresh : Fresh s e) : ∃ t, step pktPrepend s e = some t ∧ Inv num t := by
  cases e with
  | sendIface net tpkt dstip rpkt iret =>
    obtain ⟨x,hx,hinv⟩ := minipSendIface_inv hp net dstip rpkt iret h hnum hfresh.1 hroom
    refine ⟨x.2,?_,hinv⟩
    rw [step,if_pos hfresh,act,hx,Option.map_some]
  | arpUpdate addr pmac iret =>
    obtain ⟨t,ht,hinv⟩ := minipArpUpdate_inv hp addr pmac iret h
    exact ⟨t,(if_pos hfresh).trans ht,hinv⟩

theorem run_inv (hp : PrependUsual pktPrepend) (hnum : 0 < num)
    (hr : Run (step pktPrepend) Roomy (minipArpInit num) es s) : Inv num s := by
  refine hr.invariant (I := fun _ s => Inv num s) init_inv fun es s e t _ hinv hroom ht => ?_
  have hfresh : Fresh s e := by
    by_contra hno
    rw [step,if_neg hno] at ht
    cases ht
  obtain ⟨t',ht',hinv'⟩ := step_inv hp hnum hinv hroom hfresh
  rw [ht] at ht'
  exact Option.some.inj ht' ▸ hinv'

theorem countP_apart {l : List ArpEntry} (h : l.Pairwise Apart) {addr : UInt32} (haddr : addr ≠ 0) :
    l.countP (fun parp => parp.ipadr = addr) ≤ 1 := by
  induction l with
  | nil => simp
  | cons e l ih =>
    obtain ⟨he,hl⟩ := List.pairwise_cons.mp h
    by_cases hea : e.ipadr = addr
    · have hzero : l.countP (fun parp => parp.ipadr = addr) = 0 := by
        refine List.countP_eq_zero.mpr fun parp hparp heq => haddr ?_
        rw [← hea]
        exact he parp hparp (hea.trans (of_decide_eq_true heq).symm)
      simp [hea,hzero]
    · simpa [hea] using ih hl

theorem Inv.accounted (h : Inv num s) : Accounted s := by
  have hholds : Holds (books s.log) ((waiting s.arpList).map data) := h.kept.holds
  have hinj : Function.Injective data := fun _ _ hab => data_inj.mp hab
  refine ⟨?_,fun t => ?_,List.Nodup.of_map data hholds.nodup,fun r => ?_,fun addr => ?_,h.kept.toLearned⟩
  · obtain ⟨u,hu,-⟩ := hholds
    rw [hu,Option.isSome_some]
  · refine (hholds.count _).trans (congrArg (· + _) ?_)
    exact List.count_map_of_injective (waiting s.arpList) data hinj t
  · refine (hholds.count _).trans ?_
    rw [List.count_eq_zero.mpr request_notMem,Nat.zero_add]
  · exact countP_apart h.kept.apart

/-- In every run packets are accounted for, and every call and every reply goes on. -/
theorem run_accounted (hp : PrependUsual pktPrepend) (hnum : 0 < num)
    (hr : Run (step pktPrepend) Roomy (minipArpInit num) es s) :
    Accounted s ∧ ∀ e, Roomy es s e → Fresh s e → (step pktPrepend s e).isSome := by
  have hinv := run_inv hp hnum hr
  refine ⟨hinv.accounted,fun e hroom hfresh => ?_⟩
  obtain ⟨t,ht,-⟩ := step_inv hp hnum hinv hroom hfresh
  rw [ht,Option.isSome_some]

end Run

/-- Room is counted. -/
def plainPrepend (p : Pkt) (n : ℕ) : Option Pkt := if n ≤ p.offset then some ⟨p.ref,p.offset-n⟩ else none

theorem plainPrepend_usual : PrependUsual plainPrepend := fun _ _ h => if_pos h

/-- Two packets to one neighbour, and its answer; the first one goes out as the second request. -/
def twoSends : List Event :=
  let net : Net := ⟨0x0264a8c0,0x00ffffff,0x0164a8c0⟩
  [.sendIface net ⟨1,64⟩ 0x0364a8c0 (some ⟨2,32⟩) 1,.sendIface net ⟨3,64⟩ 0x0364a8c0 none 1,
    .arpUpdate 0x0364a8c0 (.replicate 6 7) 1]

theorem twoSends_accounted : ∃ s, Run (step plainPrepend) Roomy (minipArpInit 2) twoSends.reverse s ∧
    s.log.head? = some (.sent 3 (.replicate 6 7) .ipv4) ∧ Accounted s := by
  obtain ⟨s,hr,hs⟩ := run_of_exec_map (checked (fun s e => decide (Roomy [] s e)) (step plainPrepend)) (minipArpInit 2)
    twoSends (fun s => decide (s.log.head? = some (.sent 3 (.replicate 6 7) .ipv4))) (by decide)
  have hrun := hr.of_checked (H := Roomy) fun es s e h => of_decide_eq_true h
  exact ⟨s,hrun,of_decide_eq_true hs,(run_accounted plainPrepend_usual (by decide) hrun).1⟩

end Neighbours
end Autbus
