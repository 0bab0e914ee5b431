import Autbus.Bundles

/-! What becomes of the packets from the Autbus: `test_dump_dpdata` of `phb1_demo.c` with
`recv_unpack` and `traffic_statistics`. Everything done with a packet is noted down. -/
namespace Autbus
namespace Disposal

open Bytes Trace
open Bundles hiding step idle Event

/-! ### Who has a packet -/

/-- What is done with a packet: it is looked at or changed, refused by the one it is sent
to, accepted, or freed. -/
inductive Deed
  | access
  | refused
  | accepted
  | freed
  deriving DecidableEq

/-- The packet is gone. -/
def Deed.disposes : Deed → Bool
  | .access => false
  | .refused => false
  | .accepted => true
  | .freed => true

structure Act where
  pkt : ℕ
  deed : Deed

/-- Packet `i` has not been disposed of. The newest act stands first. -/
def Open (log : List Act) (i : ℕ) : Prop := ∀ a ∈ log, a.pkt = i → a.deed.disposes = false

/-- Packet `i` has been disposed of once, and this was the last that was done with it. -/
def Settled : List Act → ℕ → Prop
  | [], _ => False
  | a::log, i => if a.pkt = i then a.deed.disposes = true ∧ Open log i else Settled log i

/-- Of the packets below `next` those in `O` are still held, the others settled. -/
structure Books (log : List Act) (next : ℕ) (O : ℕ → Prop) : Prop where
  known : ∀ a ∈ log, a.pkt < next
  held : ∀ i, O i → i < next ∧ Open log i
  done : ∀ i < next, ¬O i → Settled log i

namespace Books

variable {log : List Act} {next i : ℕ} {O O' : ℕ → Prop} {d : Deed}

theorem congr (h : Books log next O) (hO : ∀ i, O i ↔ O' i) : Books log next O' where
  known := h.known
  held i hi := h.held i ((hO i).mpr hi)
  done i hi hn := h.done i hi fun ho => hn ((hO i).mp ho)

theorem known_cons (h : Books log next O) (hi : O i) : ∀ a ∈ (⟨i,d⟩::log : List Act), a.pkt < next := by
  intro a ha
  rcases List.mem_cons.mp ha with rfl | ha
  · exact (h.held i hi).1
  · exact h.known a ha

/-- A packet that is held is used. -/
theorem use (h : Books log next O) (hi : O i) (hd : d.disposes = false) : Books (⟨i,d⟩::log) next O where
  known := h.known_cons hi
  held j hj := by
    refine ⟨(h.held j hj).1,?_⟩
    intro a ha hpkt
    rcases List.mem_cons.mp ha with rfl | ha
    · exact hd
    · exact (h.held j hj).2 a ha hpkt
  done j hj hn := by
    have hne : i ≠ j := by
      rintro rfl
      exact hn hi
    rw [Settled,if_neg hne]
    exact h.done j hj hn

/-- A packet that is held is disposed of. -/
theorem dispose (h : Books log next O) (hi : O i) (hd : d.disposes = true) :
    Books (⟨i,d⟩::log) next fun j => O j ∧ j ≠ i where
  known := h.known_cons hi
  held j hj := by
    refine ⟨(h.held j hj.1).1,?_⟩
    intro a ha hpkt
    rcases List.mem_cons.mp ha with rfl | ha
    · exact absurd hpkt.symm hj.2
    · exact (h.held j hj.1).2 a ha hpkt
  done j hj hn := by
    rw [Settled]
    by_cases hij : i = j
    · subst hij
      rw [if_pos rfl]
      exact ⟨hd,(h.held i hi).2⟩
    · rw [if_neg hij]
      exact h.done j hj fun ho => hn ⟨ho,Ne.symm hij⟩

/-- A new packet is held. -/
theorem grow (h : Books log next O) : Books log (next+1) fun j => O j ∨ j = next where
  known a ha := Nat.lt_succ_of_lt (h.known a ha)
  held j hj := by
    rcases hj with hj | rfl
    · exact ⟨Nat.lt_succ_of_lt (h.held j hj).1,(h.held j hj).2⟩
    · refine ⟨Nat.lt_succ_self _,?_⟩
      intro a ha hpkt
      exact absurd hpkt (Nat.ne_of_lt (h.known a ha))
  done j hj hn := by
    have hne : j ≠ next := fun he => hn (Or.inr he)
    exact h.done j (by omega) fun ho => hn (Or.inl ho)

end Books

/-! ### The forwarding of the Autbus -/

/-- A packet in hand. -/
structure Pkt where
  id : ℕ
  buf : Pbuf

/-- Of `phb_context_t`: whether packets are bundled, the descriptors, and the bundle being
taken apart. Packets are numbered in the order in which they come into being. -/
structure Phb where
  packed : Bool
  efd : ℤ
  cfd : ℤ
  rs485fd : Fin 3 → ℤ
  dpdatpkt : Option Pkt
  next : ℕ
  log : List Act

/-- What a round of the loop meets: the configuration, the node id, what `recv` has, and
whether the frame sent back and the one sent on are accepted. -/
structure Round where
  listenautbus : UInt8
  tnnodeid : UInt8
  rcv : Option Pbuf
  back : Bool
  out : Bool

namespace Phb

def act (s : Phb) (i : ℕ) (d : Deed) : Phb := { s with log := ⟨i,d⟩::s.log }

def pktFree (s : Phb) (i : ℕ) : Phb := s.act i .freed

/-- `send`, and `pkt_free` when it does not return 1. -/
def sendOrFree (s : Phb) (ok : Bool) (i : ℕ) : Phb :=
  if ok then s.act i .accepted else (s.act i .refused).pktFree i

/-- A packet comes into being. -/
def new (s : Phb) : Phb := { s with next := s.next+1 }

def recv (s : Phb) : Option Pbuf → Phb × Option Pkt
  | none => (s,none)
  | some buf => (s.new,some ⟨s.next,buf⟩)

variable (c : Consts) (api : PktApi)

/-- `recv_unpack` with the packet it has. -/
def unpackKept (s : Phb) (ipkt : Pkt) : Phb × Option Pkt :=
  let s := s.act ipkt.id .access
  match recvUnpack c api true ipkt.buf with
  | .bad => ({ s.pktFree ipkt.id with dpdatpkt := none },none)
  | .split txpkt rest =>
    ({ s.new.act s.next .access with dpdatpkt := some ⟨ipkt.id,rest⟩ },some ⟨s.next,txpkt⟩)
  | .last outpkt => ({ s with dpdatpkt := none },some ⟨ipkt.id,outpkt⟩)

/-- `recv_unpack(pctx->dfd, 1, &pctx->dpdatpkt, &ipkt)`. -/
def unpack (s : Phb) (rcv : Option Pbuf) : Phb × Option Pkt :=
  match s.dpdatpkt with
  | some ipkt => s.unpackKept c api ipkt
  | none =>
    match rcv with
    | none => (s,none)
    | some buf => s.new.unpackKept c api ⟨s.next,buf⟩

/-- `"atbtimedelaytick"`. -/
def pflag : List UInt8 :=
  [0x61,0x74,0x62,0x74,0x69,0x6d,0x65,0x64,0x65,0x6c,0x61,0x79,0x74,0x69,0x63,0x6b]

/-- A packet that measures delays. -/
def IsTick (p : Pbuf) : Prop := p.length = pflag.length+2+xheaderLen ∧ read p.mem (p.addr+4) 16 = pflag

instance (p : Pbuf) : Decidable (IsTick p) := inferInstanceAs (Decidable (_ ∧ _))

def trafficStatistics (s : Phb) (tnnodeid : UInt8) (back : Bool) (ipkt : Pkt) : Phb :=
  let s := s.act ipkt.id .access
  if IsTick ipkt.buf then
    if tnnodeid = 0 then s.sendOrFree back ipkt.id
    else if ipkt.buf.mem (ipkt.buf.addr+20) = tnnodeid then s.pktFree ipkt.id
    else s.pktFree ipkt.id
  else s

/-- The descriptor for a channel. -/
def otherfd (s : Phb) (channel : ℕ) : ℤ :=
  match channel with
  | 1 => s.efd
  | 2 => s.cfd
  | 3 => s.rs485fd 0
  | 4 => s.rs485fd 1
  | 5 => s.rs485fd 2
  | _ => -1

/-- The channel of a packet, `DEV_NUM` if it has none. -/
def channel (ipkt : Pbuf) : ℕ :=
  let tbuf := ipkt.mem ipkt.addr
  if tbuf &&& c.xheaderIdmask = c.xheaderId then (tbuf &&& c.xheaderChnnlmask).toNat else 6

/-- `test_dump_dpdata` from the reading of the channel on. -/
def forward (s : Phb) (out : Bool) (ipkt : Pkt) : Phb :=
  let s := s.act ipkt.id .access
  if 0 ≤ s.otherfd (channel c ipkt.buf) then (s.act ipkt.id .access).sendOrFree out ipkt.id
  else s.pktFree ipkt.id

/-- The next packet, in a bundle or not. -/
def fetch (s : Phb) (rcv : Option Pbuf) : Phb × Option Pkt :=
  if s.packed then s.unpack c api rcv else s.recv rcv

/-- One round of the loop of `test_dump_dpdata`. -/
def testDumpDpdata (s : Phb) (r : Round) : Phb :=
  if r.listenautbus = 0x77 then
    match s.recv r.rcv with
    | (s,none) => s
    | (s,some ipkt) => s.sendOrFree r.out ipkt.id
  else
    match s.fetch c api r.rcv with
    | (s,none) => s
    | (s,some ipkt) => (s.trafficStatistics r.tnnodeid r.back ipkt).forward c r.out ipkt

end Phb

def step (c : Consts) (api : PktApi) (s : Phb) (r : Round) : Option Phb := some (s.testDumpDpdata c api r)

/-! ### Between rounds -/

variable {c : Consts} {api : PktApi}

/-- The bundle that is being taken apart stays from one round to the next. -/
def Kept (s : Phb) (i : ℕ) : Prop := ∃ p ∈ s.dpdatpkt, p.id = i

/-- Every packet but the kept bundle has been disposed of once, as the last thing done with
it; the kept bundle has not been. -/
def Clean (s : Phb) : Prop := Books s.log s.next (Kept s)

theorem kept_some {s : Phb} {p : Pkt} {i : ℕ} (h : s.dpdatpkt = some p) : Kept s i ↔ i = p.id := by
  simp [Kept,h,eq_comm]

theorem kept_none {s : Phb} {i : ℕ} (h : s.dpdatpkt = none) : Kept s i ↔ False := by
  simp [Kept,h]

/-- A packet has been fetched: it is held beside the kept bundle, and is not that bundle. -/
structure InHand (x : Phb × Option Pkt) : Prop where
  books : Books x.1.log x.1.next fun i => Kept x.1 i ∨ ∃ p ∈ x.2, p.id = i
  apart : ∀ p ∈ x.2, ¬Kept x.1 p.id

theorem InHand.clean {t : Phb} (h : InHand (t,none)) : Clean t :=
  h.books.congr (by simp)

theorem InHand.some_books {t : Phb} {p : Pkt} (h : InHand (t,some p)) :
    Books t.log t.next fun i => Kept t i ∨ i = p.id :=
  h.books.congr (by simp [eq_comm])

theorem inHand_none {s : Phb} (hs : Clean s) : InHand (s,none) := ⟨hs.congr (by simp),by simp⟩

theorem inHand_recv {s : Phb} (hs : Clean s) (rcv : Option Pbuf) : InHand (s.recv rcv) := by
  cases rcv with
  | none => exact inHand_none hs
  | some buf =>
    refine ⟨hs.grow.congr fun i => ?_,?_⟩
    · simp [Phb.recv,Kept,Phb.new,eq_comm]
    · intro p hp hk
      obtain rfl : ⟨s.next,buf⟩ = p := Option.some.inj hp
      exact Nat.lt_irrefl _ (hs.held _ hk).1

theorem inHand_unpackKept {s : Phb} {ipkt : Pkt} (hs : Books s.log s.next fun i => i = ipkt.id) :
    InHand (s.unpackKept c api ipkt) := by
  have hlt := (hs.held _ rfl).1
  have huse : Books (s.act ipkt.id .access).log s.next fun i => i = ipkt.id := hs.use rfl rfl
  unfold Phb.unpackKept
  simp only
  cases recvUnpack c api true ipkt.buf with
  | bad =>
    have hfree := huse.dispose (d := .freed) rfl rfl
    exact ⟨hfree.congr (by simp [Kept]),by simp⟩
  | split txpkt rest =>
    have hnew := huse.grow.use (d := .access) (Or.inr rfl) rfl
    refine ⟨hnew.congr ?_,?_⟩
    · intro i
      simp [Kept,Phb.act,eq_comm]
    · simp only [Option.mem_def,Option.some.injEq,Kept,forall_eq',exists_eq_left']
      exact Nat.ne_of_lt hlt
  | last outpkt => exact ⟨huse.congr (by simp [Kept,eq_comm]),by simp [Kept]⟩

theorem inHand_fetch {s : Phb} (hs : Clean s) (rcv : Option Pbuf) : InHand (s.fetch c api rcv) := by
  unfold Phb.fetch
  split
  · unfold Phb.unpack
    cases hd : s.dpdatpkt with
    | some ipkt => exact inHand_unpackKept (hs.congr fun i => kept_some hd)
    | none =>
      cases rcv with
      | none => exact inHand_none hs
      | some buf =>
        refine inHand_unpackKept (hs.grow.congr fun i => ?_)
        simp [kept_none hd]
  · exact inHand_recv hs rcv

/-! ### A round -/

theorem sendOrFree_books {s : Phb} {O : ℕ → Prop} {i : ℕ} (hs : Books s.log s.next O) (hi : O i) (ok : Bool) :
    Books (s.sendOrFree ok i).log (s.sendOrFree ok i).next fun j => O j ∧ j ≠ i := by
  unfold Phb.sendOrFree
  split
  · exact hs.dispose hi rfl
  · exact (hs.use hi rfl).dispose hi rfl

/-- The last act of a round is on the packet in hand, and disposes of it. -/
structure Ends (s t : Phb) (i : ℕ) : Prop where
  log : ∃ d l, t.log = ⟨i,d⟩::l ∧ d.disposes = true ∧ s.log <:+ l
  next : t.next = s.next
  kept : t.dpdatpkt = s.dpdatpkt

theorem sendOrFree_ends (s : Phb) (ok : Bool) (i : ℕ) : Ends s (s.sendOrFree ok i) i := by
  unfold Phb.sendOrFree
  split
  · exact ⟨⟨_,_,rfl,rfl,List.suffix_rfl⟩,rfl,rfl⟩
  · exact ⟨⟨_,_,rfl,rfl,List.suffix_cons _ _⟩,rfl,rfl⟩

theorem forward_ends (s : Phb) (out : Bool) (ipkt : Pkt) : Ends s (s.forward c out ipkt) ipkt.id := by
  unfold Phb.forward
  simp only
  split
  · obtain ⟨⟨d,l,hlog,hd,hl⟩,hnext,hkept⟩ :=
      sendOrFree_ends ((s.act ipkt.id .access).act ipkt.id .access) out ipkt.id
    refine ⟨⟨d,l,hlog,hd,?_⟩,hnext,hkept⟩
    exact ((List.suffix_cons _ _).trans (List.suffix_cons _ _)).trans hl
  · exact ⟨⟨_,_,rfl,rfl,List.suffix_cons _ _⟩,rfl,rfl⟩

theorem forward_books {s : Phb} {O : ℕ → Prop} {ipkt : Pkt} (hs : Books s.log s.next O) (hi : O ipkt.id)
    (out : Bool) :
    Books (s.forward c out ipkt).log (s.forward c out ipkt).next fun j => O j ∧ j ≠ ipkt.id := by
  have huse : Books (s.act ipkt.id .access).log s.next O := hs.use hi rfl
  unfold Phb.forward
  simp only
  split
  · exact sendOrFree_books (s := (s.act ipkt.id .access).act ipkt.id .access) (huse.use hi rfl) hi out
  · exact huse.dispose hi rfl

/-- The packet in hand is gone, the kept bundle stays. -/
theorem clean_of_books {s t : Phb} {ipkt : Pkt} (h : InHand (s,some ipkt)) (hkept : t.dpdatpkt = s.dpdatpkt)
    (ht : Books t.log t.next fun j => (Kept s j ∨ j = ipkt.id) ∧ j ≠ ipkt.id) : Clean t := by
  refine ht.congr fun i => ?_
  have hk : Kept t i ↔ Kept s i := by rw [Kept,Kept,hkept]
  rw [hk]
  constructor
  · rintro ⟨hi | hi,hne⟩
    · exact hi
    · exact absurd hi hne
  · intro hi
    refine ⟨Or.inl hi,?_⟩
    rintro rfl
    exact h.apart ipkt rfl hi

/-- A packet that `traffic_statistics` does not know is left to the forwarding. -/
theorem clean_of_not_tick {s : Phb} {ipkt : Pkt} (h : InHand (s,some ipkt)) (ht : ¬Phb.IsTick ipkt.buf)
    (n : UInt8) (back out : Bool) : Clean ((s.trafficStatistics n back ipkt).forward c out ipkt) := by
  have hstat : s.trafficStatistics n back ipkt = s.act ipkt.id .access := by
    unfold Phb.trafficStatistics
    simp only
    rw [if_neg ht]
  rw [hstat]
  have huse : Books (s.act ipkt.id .access).log s.next _ := h.some_books.use (Or.inr rfl) rfl
  have hend := forward_ends (c := c) (s.act ipkt.id .access) out ipkt
  exact clean_of_books h hend.kept (forward_books (s := s.act ipkt.id .access) huse (Or.inr rfl) out)

/-- A packet that `traffic_statistics` knows is disposed of there, whatever the node id. -/
theorem trafficStatistics_ends {s : Phb} {ipkt : Pkt} (ht : Phb.IsTick ipkt.buf) (n : UInt8) (back : Bool) :
    Ends s (s.trafficStatistics n back ipkt) ipkt.id := by
  unfold Phb.trafficStatistics
  simp only
  rw [if_pos ht]
  split
  · obtain ⟨⟨d,l,hlog,hd,hl⟩,hnext,hkept⟩ := sendOrFree_ends (s.act ipkt.id .access) back ipkt.id
    exact ⟨⟨d,l,hlog,hd,(List.suffix_cons _ _).trans hl⟩,hnext,hkept⟩
  · split <;> exact ⟨⟨_,_,rfl,rfl,List.suffix_cons _ _⟩,rfl,rfl⟩

/-- The forwarding goes on with it, and disposes of it again. -/
theorem not_clean_of_tick {s : Phb} {ipkt : Pkt} (h : InHand (s,some ipkt)) (ht : Phb.IsTick ipkt.buf)
    (n : UInt8) (back out : Bool) : ¬Clean ((s.trafficStatistics n back ipkt).forward c out ipkt) := by
  intro hclean
  have hstat := trafficStatistics_ends (s := s) ht n back
  have hend := forward_ends (c := c) (s.trafficStatistics n back ipkt) out ipkt
  obtain ⟨d₁,l₁,hlog₁,hd₁,-⟩ := hstat.log
  obtain ⟨d₂,l₂,hlog₂,-,hl₂⟩ := hend.log
  have hlt : ipkt.id < s.next := (h.some_books.held _ (Or.inr rfl)).1
  have hsettled := hclean.done ipkt.id (by rw [hend.next,hstat.next]; exact hlt)
    (by rw [Kept,hend.kept,hstat.kept]; exact h.apart ipkt rfl)
  rw [hlog₂,Settled,if_pos rfl] at hsettled
  have hfirst : (⟨ipkt.id,d₁⟩ : Act) ∈ l₂ := hl₂.subset (by rw [hlog₁]; exact List.mem_cons_self)
  have hopen := hsettled.2 _ hfirst rfl
  rw [hd₁] at hopen
  cases hopen

/-! ### Runs -/

/-- After the round every packet is either disposed of, once and for good, or kept. -/
def Tidy (c : Consts) (api : PktApi) (_ : List Round) (s : Phb) (r : Round) : Prop :=
  Clean (s.testDumpDpdata c api r)

/-- Outside the listening mode, the packet of the round is none that measures delays. -/
def NoTick (c : Consts) (api : PktApi) (_ : List Round) (s : Phb) (r : Round) : Prop :=
  r.listenautbus ≠ 0x77 → ∀ p ∈ (s.fetch c api r.rcv).2, ¬Phb.IsTick p.buf

theorem clean_listen {s : Phb} (hs : Clean s) {r : Round} (hr : r.listenautbus = 0x77) :
    Clean (s.testDumpDpdata c api r) := by
  rw [Phb.testDumpDpdata,if_pos hr]
  have hhand := inHand_recv hs r.rcv
  cases hrec : s.recv r.rcv with
  | mk t o =>
    rw [hrec] at hhand
    cases o with
    | none => exact hhand.clean
    | some ipkt =>
      exact clean_of_books hhand (sendOrFree_ends t r.out ipkt.id).kept
        (sendOrFree_books hhand.some_books (Or.inr rfl) r.out)

theorem tidy_iff_noTick {es : List Round} {s : Phb} {r : Round} (hs : Clean s) :
    Tidy c api es s r ↔ NoTick c api es s r := by
  by_cases hr : r.listenautbus = 0x77
  · exact iff_of_true (clean_listen hs hr) fun hne => absurd hr hne
  rw [Tidy,NoTick,Phb.testDumpDpdata,if_neg hr]
  simp only [ne_eq,hr,not_false_eq_true,true_imp_iff]
  have hhand : InHand (s.fetch c api r.rcv) := inHand_fetch hs r.rcv
  cases hf : s.fetch c api r.rcv with
  | mk t o =>
    rw [hf] at hhand
    cases o with
    | none => exact iff_of_true hhand.clean (by simp)
    | some ipkt =>
      simp only [Option.mem_def,Option.some.injEq,forall_eq']
      constructor
      · intro hclean ht
        exact not_clean_of_tick hhand ht _ _ _ hclean
      · intro ht
        exact clean_of_not_tick hhand ht _ _ _

/-- The context before the first packet. -/
def start (packed : Bool) (efd cfd : ℤ) (rs485fd : Fin 3 → ℤ) : Phb := ⟨packed,efd,cfd,rs485fd,none,0,[]⟩

theorem clean_start (packed : Bool) (efd cfd : ℤ) (rs485fd : Fin 3 → ℤ) :
    Clean (start packed efd cfd rs485fd) where
  known a ha := by cases ha
  held i hi := by
    rw [kept_none rfl] at hi
    exact hi.elim
  done i hi := absurd hi (Nat.not_lt_zero i)

theorem run_clean {s₀ s : Phb} {es : List Round} (h0 : Clean s₀) (h : Run (step c api) (Tidy c api) s₀ es s) :
    Clean s := by
  cases h with
  | nil => exact h0
  | cons _ htidy hstep =>
    cases hstep
    exact htidy

/-- In a run every packet is disposed of once and not touched afterwards if and only if no
packet that measures delays is fetched outside the listening mode. -/
theorem run_tidy_iff {packed : Bool} {efd cfd : ℤ} {rs485fd : Fin 3 → ℤ} {es : List Round} {s : Phb}
    (h : Run (step c api) anyStep (start packed efd cfd rs485fd) es s) :
    Run (step c api) (Tidy c api) (start packed efd cfd rs485fd) es s ↔
      Run (step c api) (NoTick c api) (start packed efd cfd rs485fd) es s :=
  h.forall_iff fun _ _ _ _ _ hp _ _ => tidy_iff_noTick (run_clean (clean_start packed efd cfd rs485fd) hp)

/-- The CN, without bundling and with its Ethernet port only. -/
def cn : Phb := start false 3 (-1) fun _ => -1

/-- A round on the CN in which all that is sent is accepted. -/
def roundOf (bytes : List UInt8) : Round := ⟨0,0,some ⟨ofList bytes,0,bytes.length⟩,true,true⟩

/-- A frame for the Ethernet port. -/
def frameRound : Round := roundOf [0x51,1,14,0,1,2,3,4,5,6,7,8,9,10,11,12,13,14]

/-- TN 5 measures its delay. -/
def tickRound : Round := roundOf ([0x51,1,18,0] ++ Phb.pflag ++ [5,0])

theorem frame_tidy :
    ∃ s, Run (step plainConsts plainApi) anyStep cn [frameRound] s ∧
      Run (step plainConsts plainApi) (Tidy plainConsts plainApi) cn [frameRound] s := by
  have hrun : Run (step plainConsts plainApi) anyStep cn [frameRound] _ := .cons .nil trivial rfl
  refine ⟨_,hrun,(run_tidy_iff hrun).mpr (.cons .nil ?_ rfl)⟩
  intro _ p hp
  cases hp
  decide

/-- The packet is sent back and then also sent on. -/
theorem tick_sent_twice :
    ∃ s, Run (step plainConsts plainApi) anyStep cn [tickRound] s ∧
      s.log.map Act.deed = [.accepted,.access,.access,.accepted,.access] ∧
      ¬Run (step plainConsts plainApi) (Tidy plainConsts plainApi) cn [tickRound] s := by
  refine ⟨_,.cons .nil trivial rfl,by decide,?_⟩
  intro h
  cases h with
  | cons hr htidy hstep =>
    cases hr
    have hquiet : NoTick plainConsts plainApi [] cn tickRound :=
      (tidy_iff_noTick (clean_start false 3 (-1) fun _ => -1)).mp htidy
    exact hquiet (by decide) ⟨0,_⟩ rfl (by decide)

end Disposal
end Autbus
