import Autbus.Tftp
import Autbus.Blocks

/-! The session that sends a file. The buffer holds the block read last; it is sent once it is
read, again by the timer, and again for an ACK that is late. The blocks are counted by the
reads, the counter of the session has 16 bits. -/
namespace Autbus
namespace Downloads

open Tftp Trace Blocks

inductive Event
  | packet (ipkt : Bytes)
  | expiry

variable {F : Type}

/-- The file, the session and the log. -/
abbrev State (F : Type) := F × Fate ReadPriv × Log

/-- Nothing reaches a session that is closed. -/
def step (pread : Pread F) (s : State F) (e : Event) : Option (State F) :=
  match s.2.1,e with
  | .going pssen,.packet ipkt => some (tftpReadSockCbk pread pssen.sock ipkt pssen s.1 (.recv ipkt::s.2.2))
  | .going pssen,.expiry => some (s.1,tftpReadTimerCbk pssen (.expired::s.2.2))
  | _,_ => none

/-- `pread` does not fail: it delivers what is left of the file, 512 bytes at a time. -/
def Delivers (pread : Pread F) (rest : F → Bytes) : Prop :=
  ∀ file, (pread file 512).1 = ((rest file).take 512).length ∧ (pread file 512).2.1 = (rest file).take 512 ∧
    rest (pread file 512).2.2 = (rest file).drop 512

/-! ### What the log tells -/

/-- How many blocks have been read. -/
def reads (l : Log) : ℕ := l.countP fun e => match e with
  | .pread _ _ _ => true
  | _ => false

/-- Block `n`, the first one being block 1. -/
def part (xs : Bytes) (n : ℕ) : Bytes := chunk 512 xs (n-1)

/-- An ACK with the number of block `n`. -/
structure Acks (n : ℕ) (ipkt : Bytes) : Prop where
  header : 4 ≤ ipkt.length
  opcode : ntohs ipkt 0 = opcodeAck
  number : (ntohs ipkt 2).toNat = n%65536

/-- Block `n` is the first one that is not full. -/
def FirstShort (xs : Bytes) (n : ℕ) : Prop :=
  0 < n ∧ (part xs n).length < 512 ∧ ∀ j, 0 < j → j < n → (part xs j).length = 512

/-- DATA with a number carries the block of this number, the last one read. -/
def SentOk (xs : Bytes) (l : Log) (e : Entry) : Prop := ∀ sock m dat, e = .send sock (.data m dat) →
  0 < reads l ∧ m.toNat = reads l%65536 ∧ dat = part xs (reads l)

/-- The blocks are read one after the other, each but the first on the ACK of the one before. -/
def ReadOk (xs : Bytes) (l : Log) (e : Entry) : Prop := ∀ ffd iret buf, e = .pread ffd iret buf →
  buf = part xs (reads l+1) ∧ (reads l = 0 ∨ ∃ ipkt l₁, l = .recv ipkt::l₁ ∧ Acks (reads l) ipkt)

/-- The ACK of the first short block has been received while this block was under way. -/
def Ended (xs : Bytes) (l : Log) : Prop :=
  ∃ l₂ ipkt l₁, l = l₂ ++ .recv ipkt::l₁ ∧ Acks (reads l₁) ipkt ∧ FirstShort xs (reads l₁)

def Failed (l : Log) : Prop := ∃ sock ecode emsg, .send sock (.error ecode emsg) ∈ l

/-- What the log of a session says of the file. -/
structure Served (xs : Bytes) (l : Log) : Prop where
  sent : ∀ l₂ sock m dat l₁, l = l₂ ++ .send sock (.data m dat)::l₁ →
    0 < reads l₁ ∧ m.toNat = reads l₁%65536 ∧ dat = part xs (reads l₁)
  read : ∀ l₂ ffd iret buf l₁, l = l₂ ++ .pread ffd iret buf::l₁ →
    buf = part xs (reads l₁+1) ∧
      (reads l₁ = 0 ∨ ∃ ipkt l₀, l₁ = .recv ipkt::l₀ ∧ Acks (reads l₁) ipkt)
  closed : (.free ∈ l ∧ ¬Failed l) ↔ Ended xs l
  empty : ∀ n, FirstShort xs n → xs.length%512 = 0 → part xs n = []

/-- The block with which a session is occupied. -/
structure Holds (xs : Bytes) (n : ℕ) (priv : ReadPriv) : Prop where
  pos : 0 < n
  rsn : priv.rsn = UInt16.ofNat n
  tlen : priv.tlen = (part xs n).length
  tary : priv.tary.take (part xs n).length = part xs n
  full : ∀ j, 0 < j → j < n → (part xs j).length = 512

structure Inv (rest : F → Bytes) (xs : Bytes) (s : State F) : Prop where
  sent : Each (SentOk xs) s.2.2
  read : Each (ReadOk xs) s.2.2
  sane : s.2.1 ≠ .misused
  going : ∀ pssen, s.2.1 = .going pssen → Holds xs (reads s.2.2) pssen.priv ∧
    rest s.1 = xs.drop (512*reads s.2.2) ∧ .free ∉ s.2.2 ∧ ¬Failed s.2.2 ∧ ¬Ended xs s.2.2
  closed : s.2.1 = .closed → .free ∈ s.2.2 ∧ (Failed s.2.2 ↔ ¬Ended xs s.2.2)

section Lemmas

variable {xs : Bytes} {l : Log} {e : Entry} {n : ℕ}

/-- When the file fills its blocks the last one is empty. -/
theorem FirstShort.empty (h : FirstShort xs n) (hmod : xs.length%512 = 0) : part xs n = [] := by
  obtain ⟨hpos,hshort,hfull⟩ := h
  have hlast : n-1 = xs.length/512 := (first_short_iff (by decide)).mp
    ⟨hshort,fun j hj => hfull (j+1) (Nat.succ_pos j) (by omega)⟩
  apply List.length_eq_zero_iff.mp
  rw [part,length_chunk]
  omega

theorem ended_cons : Ended xs (e::l) ↔
    (∃ ipkt, e = .recv ipkt ∧ Acks (reads l) ipkt ∧ FirstShort xs (reads l)) ∨ Ended xs l := by
  constructor
  · rintro ⟨l₂,ipkt,l₁,heq,hack⟩
    cases l₂ with
    | nil =>
      obtain ⟨rfl,rfl⟩ := List.cons.inj heq
      exact Or.inl ⟨ipkt,rfl,hack⟩
    | cons a l₂ => exact Or.inr ⟨l₂,ipkt,l₁,(List.cons.inj heq).2,hack⟩
  · rintro (⟨ipkt,rfl,hack⟩ | ⟨l₂,ipkt,l₁,rfl,hack⟩)
    · exact ⟨[],ipkt,l,rfl,hack⟩
    · exact ⟨e::l₂,ipkt,l₁,rfl,hack⟩

/-- What is not a packet does not end the transfer. -/
theorem ended_other (he : ∀ ipkt, e ≠ .recv ipkt) : Ended xs (e::l) ↔ Ended xs l := by
  rw [ended_cons]
  exact or_iff_right fun ⟨ipkt,heq,_⟩ => he ipkt heq

theorem ended_recv {ipkt : Bytes} (hack : ¬Acks (reads l) ipkt) : Ended xs (.recv ipkt::l) ↔ Ended xs l := by
  rw [ended_cons]
  refine or_iff_right ?_
  rintro ⟨p,⟨⟩,hp,-⟩
  exact hack hp

theorem failed_other (he : ∀ sock ecode emsg, e ≠ .send sock (.error ecode emsg)) : Failed (e::l) ↔ Failed l := by
  unfold Failed
  simp only [List.mem_cons]
  constructor
  · rintro ⟨sock,ecode,emsg,heq | hmem⟩
    · exact absurd heq.symm (he sock ecode emsg)
    · exact ⟨sock,ecode,emsg,hmem⟩
  · rintro ⟨sock,ecode,emsg,hmem⟩
    exact ⟨sock,ecode,emsg,Or.inr hmem⟩

end Lemmas

/-! The cleanup is none of these. -/

section Cleanup

variable (pssen : Session ReadPriv) (xs : Bytes) (l : Log)

theorem sent_close : Each (SentOk xs) (tftpCloseSession pssen l) = Each (SentOk xs) l := by
  refine each_close (fun l e he => ?_) pssen l
  rintro sock m dat rfl
  cases he

theorem read_close : Each (ReadOk xs) (tftpCloseSession pssen l) = Each (ReadOk xs) l := by
  refine each_close (fun l e he => ?_) pssen l
  rintro ffd iret buf rfl
  cases he

theorem ended_close : Ended xs (tftpCloseSession pssen l) = Ended xs l := by
  refine tftpCloseSession_same (Ended xs) (fun e l he => propext (ended_other ?_)) pssen l
  rintro ipkt rfl
  cases he

theorem failed_close : Failed (tftpCloseSession pssen l) = Failed l := by
  refine tftpCloseSession_same Failed (fun e l he => propext (failed_other ?_)) pssen l
  rintro sock ecode emsg rfl
  cases he

theorem free_close : .free ∈ tftpCloseSession pssen l := List.mem_cons_self

end Cleanup

/-! ### Steps -/

section Step

variable {pread : Pread F} {rest : F → Bytes} {xs : Bytes} {s : State F} {file : F} {pssen : Session ReadPriv}
  {ipkt : Bytes} {sock : ℤ} {l : Log}

theorem inv_closed (hs : Each (SentOk xs) l) (hr : Each (ReadOk xs) l) (hf : Failed l ↔ ¬Ended xs l) :
    Inv rest xs (file,.closed,tftpCloseSession pssen l) := by
  refine ⟨?_,?_,by simp,by simp,fun _ => ⟨free_close pssen l,?_⟩⟩
  · rw [sent_close]
    exact hs
  · rw [read_close]
    exact hr
  · rw [failed_close,ended_close]
    exact hf

theorem inv_abandoned {ecode : UInt16} {emsg : String} (hs : Each (SentOk xs) l) (hr : Each (ReadOk xs) l)
    (he : ¬Ended xs l) : Inv rest xs (file,abandon pssen sock ecode emsg l) := by
  refine inv_closed ⟨?_,hs⟩ ⟨?_,hr⟩ ?_
  · rintro sock m dat ⟨⟩
  · rintro ffd iret buf ⟨⟩
  · have hfailed : Failed (.send sock (tftpBuildErrorPkt ecode (some emsg))::l) :=
      ⟨sock,ecode,emsg,List.mem_cons_self⟩
    rw [ended_other (by simp)]
    exact iff_of_true hfailed he

/-- The block is sent again. -/
theorem Holds.sentOk {priv : ReadPriv} {l' : Log} (h : Holds xs (reads l) priv) (hl : reads l' = reads l) :
    SentOk xs l' (.send sock (.data priv.rsn (priv.tary.take priv.tlen.toNat))) := by
  rintro sock m dat ⟨⟩
  rw [hl,h.rsn,h.tlen,Int.toNat_natCast,h.tary]
  exact ⟨h.pos,UInt16.toNat_ofNat',rfl⟩

theorem Inv.expiry (h : Inv rest xs s) (hs : s.2.1 = .going pssen) :
    Inv rest xs (s.1,tftpReadTimerCbk pssen (.expired::s.2.2)) := by
  obtain ⟨hholds,hrest,hfree,hfailed,hended⟩ := h.going pssen hs
  have hsent : Each (SentOk xs) (.expired::s.2.2) := ⟨by rintro sock m dat ⟨⟩,h.sent⟩
  have hread : Each (ReadOk xs) (.expired::s.2.2) := ⟨by rintro ffd iret buf ⟨⟩,h.read⟩
  unfold tftpReadTimerCbk
  dsimp only
  split
  · exact inv_abandoned hsent hread (by rwa [ended_other (by simp)])
  · refine ⟨⟨hholds.sentOk rfl,hsent⟩,⟨by rintro ffd iret buf ⟨⟩,hread⟩,by simp,?_,by simp⟩
    rintro p ⟨⟩
    refine ⟨⟨hholds.pos,hholds.rsn,hholds.tlen,hholds.tary,hholds.full⟩,hrest,by simpa using hfree,?_,?_⟩
    · rwa [failed_other (by simp),failed_other (by simp)]
    · rwa [ended_other (by simp),ended_other (by simp)]

theorem acks_number {n : ℕ} : (ntohs ipkt 2).toNat = n%65536 ↔ ntohs ipkt 2 = UInt16.ofNat n := by
  rw [← UInt16.toNat_inj,UInt16.toNat_ofNat']

theorem part_length_le (xs : Bytes) (n : ℕ) : (part xs n).length ≤ 512 := List.length_take_le _ _

theorem reads_pread (ffd iret : ℤ) (buf : Bytes) (l : Log) : reads (.pread ffd iret buf::l) = reads l+1 :=
  List.countP_cons_of_pos rfl

/-- What a session has sent again or has let pass. -/
theorem Inv.stays (h : Inv rest xs s) (hs : s.2.1 = .going pssen) (hack : ¬Acks (reads s.2.2) ipkt) :
    Inv rest xs (s.1,.going pssen,.recv ipkt::s.2.2) := by
  obtain ⟨hholds,hrest,hfree,hfailed,hended⟩ := h.going pssen hs
  refine ⟨⟨by rintro sock m dat ⟨⟩,h.sent⟩,⟨by rintro ffd iret buf ⟨⟩,h.read⟩,by simp,?_,by simp⟩
  rintro p ⟨⟩
  refine ⟨hholds,hrest,by simpa using hfree,?_,?_⟩
  · rwa [failed_other (by simp)]
  · rwa [ended_recv hack]

/-- A block is sent, for the first time or again. -/
theorem Inv.send (h : Inv rest xs s) (hs : s.2.1 = .going pssen) (ttmr : ℤ) (itv irt : UInt32) :
    Inv rest xs (s.1,.going pssen,.send sock (.data pssen.priv.rsn (pssen.priv.tary.take pssen.priv.tlen.toNat))
      ::.timerStart ttmr itv irt::s.2.2) := by
  obtain ⟨hholds,hrest,hfree,hfailed,hended⟩ := h.going pssen hs
  refine ⟨⟨hholds.sentOk rfl,by rintro sock m dat ⟨⟩,h.sent⟩,
    ⟨by rintro ffd iret buf ⟨⟩,by rintro ffd iret buf ⟨⟩,h.read⟩,by simp,?_,by simp⟩
  rintro p ⟨⟩
  refine ⟨hholds,hrest,by simpa using hfree,?_,?_⟩
  · rwa [failed_other (by simp),failed_other (by simp)]
  · rwa [ended_other (by simp),ended_other (by simp)]

/-- The session when the next block is in its buffer. -/
def next (pssen : Session ReadPriv) (iret : ℤ) (buf : Bytes) : Session ReadPriv :=
  {pssen with priv := {pssen.priv with
    tary := buf ++ pssen.priv.tary.drop buf.length,tlen := iret,rsn := pssen.priv.rsn+1}}

/-- What `pread` puts into the buffer is the block behind those read. -/
theorem Holds.next {n : ℕ} (h : Holds xs n pssen.priv) (hfull : (part xs n).length = 512) (iret : ℤ)
    (hiret : iret = (part xs (n+1)).length) : Holds xs (n+1) (next pssen iret (part xs (n+1))).priv := by
  refine ⟨Nat.succ_pos n,?_,hiret,List.take_left,fun j hj hlt => ?_⟩
  · change pssen.priv.rsn+1 = _
    rw [h.rsn]
    exact (UInt16.ofNat_add n 1).symm
  · rcases Nat.lt_succ_iff_lt_or_eq.mp hlt with hlt | rfl
    · exact h.full j hj hlt
    · exact hfull

theorem Inv.advance (hd : Delivers pread rest) (h : Inv rest xs s) (hs : s.2.1 = .going pssen)
    (hack : Acks (reads s.2.2) ipkt) (hfull : (part xs (reads s.2.2)).length = 512) :
    Inv rest xs ((pread s.1 512).2.2,.going (next pssen (pread s.1 512).1 (pread s.1 512).2.1),
      .pread pssen.ffd (pread s.1 512).1 (pread s.1 512).2.1::.recv ipkt::s.2.2) := by
  obtain ⟨hholds,hrest,hfree,hfailed,hended⟩ := h.going pssen hs
  obtain ⟨hiret,hbuf,hleft⟩ := hd s.1
  have hpart : (rest s.1).take 512 = part xs (reads s.2.2+1) := by
    rw [hrest]
    rfl
  rw [hpart] at hiret hbuf
  have hreads : reads (.pread pssen.ffd (pread s.1 512).1 (pread s.1 512).2.1::.recv ipkt::s.2.2) = reads s.2.2+1 :=
    reads_pread _ _ _ _
  have hnotlast : ¬FirstShort xs (reads s.2.2) := fun hf => absurd hf.2.1 (by omega)
  refine ⟨⟨by rintro sock m dat ⟨⟩,by rintro sock m dat ⟨⟩,h.sent⟩,
    ⟨?_,by rintro ffd iret buf ⟨⟩,h.read⟩,by simp,?_,by simp⟩
  · rintro ffd iret buf ⟨⟩
    exact ⟨hbuf,Or.inr ⟨ipkt,s.2.2,rfl,hack⟩⟩
  · rintro p ⟨⟩
    refine ⟨?_,?_,by simpa using hfree,?_,?_⟩
    · rw [hreads,hbuf]
      exact hholds.next hfull _ hiret
    · rw [hreads,hleft,hrest,List.drop_drop,Nat.mul_succ]
    · rwa [failed_other (by simp),failed_other (by simp)]
    · rw [ended_other (by simp),ended_cons]
      rintro (⟨p,-,-,hf⟩ | hend)
      · exact hnotlast hf
      · exact hended hend

theorem Inv.packet (hd : Delivers pread rest) (h : Inv rest xs s) (hs : s.2.1 = .going pssen) :
    Inv rest xs (tftpReadSockCbk pread sock ipkt pssen s.1 (.recv ipkt::s.2.2)) := by
  obtain ⟨hholds,hrest,hfree,hfailed,hended⟩ := h.going pssen hs
  unfold tftpReadSockCbk
  split
  · next hlen => exact h.stays hs fun hack => absurd hack.header (Nat.not_le.mpr hlen)
  next hlen =>
  split
  · next hop =>
    have hstay := h.stays hs fun hack => hop hack.opcode
    exact inv_abandoned hstay.sent hstay.read (hstay.going pssen rfl).2.2.2.2
  next hop =>
  dsimp only
  split
  · next hnum =>
    rw [hholds.rsn] at hnum
    have hack : Acks (reads s.2.2) ipkt := ⟨Nat.not_lt.mp hlen,not_not.mp hop,acks_number.mpr hnum⟩
    split
    · next hshort =>
      rw [hholds.tlen] at hshort
      have hfirst : FirstShort xs (reads s.2.2) := ⟨hholds.pos,by omega,hholds.full⟩
      have hend : Ended xs (.recv ipkt::s.2.2) := ended_cons.mpr (Or.inl ⟨ipkt,rfl,hack,hfirst⟩)
      refine inv_closed ⟨by rintro sock m dat ⟨⟩,h.sent⟩ ⟨by rintro ffd iret buf ⟨⟩,h.read⟩ ?_
      rw [failed_other (by simp)]
      exact iff_of_false hfailed (not_not.mpr hend)
    · next hfull =>
      rw [hholds.tlen] at hfull
      have hle := part_length_le xs (reads s.2.2)
      have hnext := h.advance hd hs hack (by omega)
      have hok : ¬(pread s.1 512).1 < 0 := by
        rw [(hd s.1).1]
        omega
      rw [if_neg hok]
      exact hnext.send rfl pssen.ttmr 10000 10000
  next hnum =>
  have hstay := h.stays hs fun hack => hnum (by rw [acks_number.mp hack.number,hholds.rsn])
  split
  · exact hstay.send rfl pssen.ttmr 10000 10000
  · exact inv_abandoned hstay.sent hstay.read (hstay.going pssen rfl).2.2.2.2

theorem Inv.kept {t : State F} {e : Event} (hd : Delivers pread rest) (h : Inv rest xs s)
    (ht : step pread s e = some t) : Inv rest xs t := by
  unfold step at ht
  split at ht
  · next pssen ipkt hs =>
    cases ht
    exact h.packet hd hs
  · next pssen hs =>
    cases ht
    exact h.expiry hs
  · cases ht

end Step

/-- The run lemma. -/
theorem Inv.run {pread : Pread F} {rest : F → Bytes} {xs : Bytes} {s₀ s : State F} {es : List Event}
    (hd : Delivers pread rest) (h₀ : Inv rest xs s₀) (h : Run (step pread) anyStep s₀ es s) : Inv rest xs s :=
  h.invariant (I := fun _ s => Inv rest xs s) h₀ fun _ _ _ _ _ hi _ ht => hi.kept hd ht

theorem Inv.served {rest : F → Bytes} {xs : Bytes} {s : State F} (h : Inv rest xs s) : Served xs s.2.2 := by
  refine ⟨fun l₂ sock m dat l₁ hl => each_iff.mp h.sent l₂ _ l₁ hl sock m dat rfl,
    fun l₂ ffd iret buf l₁ hl => each_iff.mp h.read l₂ _ l₁ hl ffd iret buf rfl,?_,fun n hn => hn.empty⟩
  cases hfate : s.2.1 with
  | going pssen =>
    obtain ⟨-,-,hfree,-,hended⟩ := h.going pssen hfate
    exact iff_of_false (fun hq => hfree hq.1) hended
  | closed =>
    obtain ⟨hfree,hiff⟩ := h.closed hfate
    rw [hiff,not_not]
    exact and_iff_right hfree
  | misused => exact absurd hfate h.sane

section Server

variable {pread : Pread F} {rest : F → Bytes} {x : Supply} {file file' : F} {sock : ℤ} {ipkt : Bytes}
  {srcip : UInt32} {srcport : UInt16} {pssen : Session ReadPriv} {l : Log}

/-- A session as the server opens it. -/
theorem inv_opened (hd : Delivers pread rest)
    (h : tftpSrvSockCbk pread x file sock ipkt srcip srcport = (.reading pssen file',l)) :
    Inv rest (rest file) (file',.going pssen,l) := by
  obtain ⟨fname,iret,buf,hpread,hpos,rfl,rfl⟩ := tftpSrvSockCbk_reading pread h
  obtain ⟨hiret,hbuf,hleft⟩ := hd file
  rw [hpread] at hiret hbuf hleft
  have hpart : (rest file).take 512 = part (rest file) 1 := rfl
  rw [hpart] at hiret hbuf
  dsimp only at hiret hbuf hleft
  subst hbuf
  let before : Log := [.timerCreate x.ttmr,.udpConnect x.sock srcip srcport,.udpNew x.sock,.malloc,
    .rrqOpen fname x.ffd]
  have hsent : Each (SentOk (rest file)) before :=
    each_iff.mpr fun l₂ e l₁ hl sock m dat he => by
      have hmem : e ∈ before := hl ▸ by simp
      simp [before,he] at hmem
  have hread : Each (ReadOk (rest file)) before :=
    each_iff.mpr fun l₂ e l₁ hl ffd iret buf he => by
      have hmem : e ∈ before := hl ▸ by simp
      simp [before,he] at hmem
  have hfirst : Inv rest (rest file) (file',.going ⟨x.ffd,x.sock,x.ttmr,⟨0,1,0,iret,
      part (rest file) 1 ++ x.tary.drop (part (rest file) 1).length⟩⟩,
      .pread x.ffd iret (part (rest file) 1)::before) := by
    refine ⟨⟨by rintro sock m dat ⟨⟩,hsent⟩,⟨?_,hread⟩,by simp,?_,by simp⟩
    · rintro ffd iret buf ⟨⟩
      exact ⟨rfl,Or.inl rfl⟩
    · rintro p ⟨⟩
      refine ⟨⟨Nat.one_pos,rfl,hiret,List.take_left,fun j hj hlt => absurd hlt (Nat.not_lt.mpr hj)⟩,hleft,by simp [before],
        ?_,?_⟩
      · rintro ⟨sock,ecode,emsg,hmem⟩
        simp [before] at hmem
      · rintro ⟨l₂,ipkt,l₁,hl,-⟩
        dsimp only at hl
        have hmem : .recv ipkt ∈ .pread x.ffd iret (part (rest file) 1)::before := by simp [hl]
        simp [before] at hmem
  exact hfirst.send rfl x.ttmr 10000 10000

/-- A session serves the file that was opened for it. -/
theorem served_of_run {s : State F} {es : List Event} (hd : Delivers pread rest)
    (h : tftpSrvSockCbk pread x file sock ipkt srcip srcport = (.reading pssen file',l))
    (hr : Run (step pread) anyStep (file',.going pssen,l) es s) : Served (rest file) s.2.2 :=
  ((inv_opened hd h).run hd hr).served

end Server

/-- A file that is read from its front. -/
def preadFront : Pread Bytes := fun file tsiz => ((file.take tsiz).length,file.take tsiz,file.drop tsiz)

/-- A request to read the file `f`. -/
def rrq : Bytes := htons opcodeRrq ++ [0x66,0] ++ octet ++ [0]

/-- The session for it, when the file has three bytes. -/
def sending : Session ReadPriv := ⟨3,5,7,⟨0,1,0,3,[1,2,3]⟩⟩

def sendingLog : Log := [.send 5 (.data 1 [1,2,3]),.timerStart 7 10000 10000,.pread 3 3 [1,2,3],.timerCreate 7,
  .udpConnect 5 9 69,.udpNew 5,.malloc,.rrqOpen [0x66] 3]

theorem three_bytes_served : ∃ s : State Bytes, .free ∈ s.2.2 ∧ Served [1,2,3] s.2.2 := by
  have hd : Delivers preadFront id := fun _ => ⟨rfl,rfl,rfl⟩
  have hopen : tftpSrvSockCbk preadFront ⟨3,true,[],5,7⟩ [1,2,3] 4 rrq 9 69 = (.reading sending [],sendingLog) := rfl
  have hrun : Run (step preadFront) anyStep ([],.going sending,sendingLog) [.packet (Pkt.ack 1).bytes,.expiry]
      ([],.closed,tftpCloseSession {sending with priv := {sending.priv with retry := 1}}
        (.recv (Pkt.ack 1).bytes::.send 5 (.data 1 [1,2,3])::.expired::sendingLog)) :=
    .cons (.cons .nil trivial rfl) trivial rfl
  have hserved := served_of_run hd hopen hrun
  exact ⟨_,by decide,hserved⟩

end Downloads
end Autbus
