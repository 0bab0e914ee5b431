import Autbus.Downloads
import Autbus.Uploads

/-! When a session of `tftp.c` gives up. The timer counts its expiries in `retry`; a packet that
brings the transfer on is an accepted DATA block, or the ACK of the current block. -/
namespace Autbus
namespace Expiries

open Tftp Trace Blocks

/-- The last packet of a session that gives up. -/
def retryMax : Pkt := tftpBuildErrorPkt 200 (some "retry max")

def expiries (l : Log) : ℕ := l.count .expired

section Strikes

variable (adv : Log → Bytes → Prop) [∀ l ipkt, Decidable (adv l ipkt)]

/-- The expiries since the last packet that brought the transfer on. -/
def strikes : Log → ℕ
  | [] => 0
  | .expired::l => strikes l+1
  | .recv ipkt::l => if adv l ipkt then 0 else strikes l
  | _::l => strikes l

/-- A session gives up after three of them. -/
def Patient (l : Log) : Prop := Each (fun l e => ∀ sock, e = .send sock retryMax → 3 ≤ strikes adv l) l

/-- No packet brings the transfer on once the timer has expired. -/
def Stalled (l : Log) : Prop := Each (fun l e => ∀ ipkt, e = .recv ipkt → adv l ipkt → .expired ∉ l) l

/-- A session that has seen three expiries was stalled from the first one on. -/
def Straight (l : Log) : Prop := 3 ≤ expiries l → Stalled adv l

variable {adv} {l : Log} {e : Entry} {P : Type} {pssen : Session P}

theorem strikes_le (l : Log) : strikes adv l ≤ expiries l := by
  induction l with
  | nil => simp [strikes]
  | cons e l ih =>
    cases e with
    | expired => simpa [strikes,expiries] using ih
    | recv ipkt =>
      simp only [strikes,expiries,List.count_cons_of_ne (show Entry.recv ipkt ≠ .expired by simp)]
      split
      · exact Nat.zero_le _
      · exact ih
    | _ => simpa [strikes,expiries] using ih

theorem strikes_eq_iff (l : Log) : strikes adv l = expiries l ↔ Stalled adv l := by
  induction l with
  | nil => exact iff_of_true rfl trivial
  | cons e l ih =>
    cases e with
    | expired => simpa [strikes,expiries,Stalled,Each] using ih
    | recv ipkt =>
      have hcount : expiries (.recv ipkt::l) = expiries l := List.count_cons_of_ne (by simp)
      have hall : Stalled adv (.recv ipkt::l) ↔ (adv l ipkt → .expired ∉ l) ∧ Stalled adv l := by
        simp [Stalled,Each]
      rw [hall,hcount,strikes,← ih]
      by_cases hadv : adv l ipkt
      · have hle : strikes adv l ≤ expiries l := strikes_le l
        rw [if_pos hadv,← List.count_eq_zero]
        change 0 = expiries l ↔ (adv l ipkt → expiries l = 0) ∧ _
        constructor
        · intro h
          exact ⟨fun _ => h.symm,by omega⟩
        · intro h
          exact (h.1 hadv).symm
      · simp [hadv]
    | _ => simpa [strikes,expiries,Stalled,Each] using ih

/-- What is neither an expiry nor a packet changes no count. -/
theorem strikes_other (h : e ≠ .expired) (h' : ∀ ipkt, e ≠ .recv ipkt) : strikes adv (e::l) = strikes adv l := by
  cases e with
  | expired => exact absurd rfl h
  | recv ipkt => exact absurd rfl (h' ipkt)
  | _ => rfl

theorem strikes_close : strikes adv (tftpCloseSession pssen l) = strikes adv l := by
  refine tftpCloseSession_same (strikes adv) (fun e l he => strikes_other ?_ ?_) pssen l
  · rintro rfl
    cases he
  · rintro ipkt rfl
    cases he

theorem expiries_close : expiries (tftpCloseSession pssen l) = expiries l := by
  refine tftpCloseSession_same expiries (fun e l he => List.count_cons_of_ne ?_) pssen l
  rintro rfl
  cases he

theorem patient_close : Patient adv (tftpCloseSession pssen l) = Patient adv l := by
  refine each_close (fun l e he => ?_) pssen l
  rintro sock rfl
  cases he

theorem Patient.cons (h : Patient adv l) (he : ∀ sock, e ≠ .send sock retryMax) : Patient adv (e::l) :=
  ⟨fun sock heq => absurd heq (he sock),h⟩

/-- A session that is closed for another reason. -/
theorem Patient.abandon (h : Patient adv l) {sock : ℤ} {ecode : UInt16} {emsg : String}
    (he : tftpBuildErrorPkt ecode (some emsg) ≠ retryMax) : Patient adv (abandon pssen sock ecode emsg l).2 := by
  show Patient adv (tftpCloseSession _ _)
  rw [patient_close]
  exact h.cons (by simpa using he)

end Strikes

/-! ### The session that receives a file -/

section Writing

/-- The DATA packet that is accepted next. -/
abbrev accepts (l : Log) (ipkt : Bytes) : Prop := Uploads.Follows (Uploads.accepted l).length ipkt

/-- The timer counts no more than the expiries since the last accepted block. -/
structure Writing (s : Uploads.State) : Prop where
  patient : Patient accepts s.2
  going : ∀ pssen, s.1 = .going pssen → pssen.priv.retry ≤ strikes accepts s.2

variable {s : Uploads.State} {pssen : Session WritePriv}

theorem writing_closed {l : Log} (h : Patient accepts l) : Writing (.closed,tftpCloseSession pssen l) :=
  ⟨by rwa [patient_close],by simp⟩

theorem writing_abandon {l : Log} (h : Patient accepts l) {sock : ℤ} {ecode : UInt16} {emsg : String}
    (he : tftpBuildErrorPkt ecode (some emsg) ≠ retryMax) : Writing (abandon pssen sock ecode emsg l) :=
  ⟨h.abandon he,by simp [abandon]⟩

/-- A session whose timer is set anew has nothing counted. -/
theorem writing_reset {l : Log} (h : Patient accepts l) (hretry : pssen.priv.retry = 0) : Writing (.going pssen,l) := by
  refine ⟨h,?_⟩
  rintro p ⟨⟩
  rw [hretry]
  exact Int.natCast_nonneg _

theorem Writing.expiry (h : Writing s) (hs : s.1 = .going pssen) :
    Writing (tftpWriteTimerCbk pssen (.expired::s.2)) := by
  have hretry := h.going pssen hs
  have hpatient : Patient accepts (.expired::s.2) := h.patient.cons (by simp)
  unfold tftpWriteTimerCbk
  dsimp only
  split
  · next hmax =>
    refine writing_closed ⟨fun sock _ => ?_,hpatient⟩
    simp only [strikes]
    omega
  · refine ⟨hpatient.cons (by simp [retryMax,tftpBuildErrorPkt]),?_⟩
    rintro p ⟨⟩
    simp only [strikes]
    omega

theorem Writing.packet (h : Writing s) (sock : ℤ) (ipkt : Bytes) (iret : ℤ) :
    Writing (tftpWriteSockCbk sock ipkt iret pssen (.recv ipkt::s.2)) := by
  have hrecv : Patient accepts (.recv ipkt::s.2) := h.patient.cons (by simp)
  have hack : ∀ {l : Log} {sock n}, Patient accepts l → Patient accepts (.send sock (.ack n)::l) := fun hl =>
    hl.cons (by simp [retryMax,tftpBuildErrorPkt])
  unfold tftpWriteSockCbk
  split
  · exact writing_abandon hrecv (by decide)
  · dsimp only
    split
    · exact writing_closed hrecv
    · have hstart : Patient accepts (.timerStart pssen.ttmr 10000 10000::.recv ipkt::s.2) := hrecv.cons (by simp)
      have hwrite : Patient accepts (.pwrite pssen.ffd (ipkt.drop 4) iret::.timerStart pssen.ttmr 10000 10000
          ::.recv ipkt::s.2) := hstart.cons (by simp)
      split
      · exact writing_reset (hack hstart) rfl
      · split
        -- a full block
        · split
          · exact writing_abandon hwrite (by decide)
          · exact writing_reset (hack hwrite) rfl
        · split
          · exact writing_abandon hstart (by decide)
          · split
            · exact writing_abandon hwrite (by decide)
            -- the last block
            · split
              · exact writing_closed (hack (hwrite.cons (by simp)))
              · exact writing_closed (hack (hstart.cons (by simp)))

theorem Writing.run {s₀ : Uploads.State} {es : List Uploads.Event} (h₀ : Writing s₀)
    (h : Run Uploads.step anyStep s₀ es s) : Writing s := by
  refine h.invariant (I := fun _ => Writing) h₀ ?_
  rintro - ⟨fate,l⟩ e t - hi - ht
  cases fate with
  | going pssen =>
    cases e with
    | packet ipkt iret =>
      obtain rfl := Option.some.inj ht
      exact hi.packet pssen.sock ipkt iret
    | expiry =>
      obtain rfl := Option.some.inj ht
      exact hi.expiry rfl
  | closed => cases ht
  | misused => cases ht

end Writing

/-! ### The session that sends a file -/

section Reading

/-- The ACK of the block that is under way. -/
abbrev acks (l : Log) (ipkt : Bytes) : Prop :=
  4 ≤ ipkt.length ∧ ntohs ipkt 0 = opcodeAck ∧ ntohs ipkt 2 = UInt16.ofNat (Downloads.reads l)

/-- The session has not given up, and has seen two expiries at most. -/
structure Calm (l : Log) : Prop where
  sends : ∀ sock, .send sock retryMax ∉ l
  few : expiries l ≤ 2

/-- `retry` counts all expiries. -/
structure Counts (l : Log) (pssen : Session ReadPriv) : Prop where
  retry : pssen.priv.retry = expiries l
  rsn : pssen.priv.rsn = UInt16.ofNat (Downloads.reads l)

variable {F : Type} {pread : Pread F} {s : Downloads.State F} {pssen : Session ReadPriv} {l : Log} {e : Entry}

theorem Calm.patient (h : Calm l) : Patient acks l := by
  refine each_iff.mpr ?_
  rintro l₂ e l₁ rfl sock rfl
  exact absurd (by simp) (h.sends sock)

theorem Calm.cons (h : Calm l) (hs : ∀ sock, e ≠ .send sock retryMax) (he : e ≠ .expired) : Calm (e::l) := by
  refine ⟨fun sock hmem => ?_,?_⟩
  · rcases List.mem_cons.mp hmem with heq | hmem
    · exact hs sock heq.symm
    · exact h.sends sock hmem
  · rw [expiries,List.count_cons_of_ne he]
    exact h.few

theorem Calm.close (h : Calm l) : Calm (tftpCloseSession pssen l) := by
  refine ⟨fun sock => ?_,?_⟩
  · have hsame := tftpCloseSession_same (fun l => Entry.send sock retryMax ∈ l) (fun e l he => ?_) pssen l
    · exact fun hmem => h.sends sock (hsame.mp hmem)
    · refine propext (List.mem_cons.trans (or_iff_right ?_))
      rintro rfl
      cases he
  · rw [expiries_close]
    exact h.few

/-- A session under way, closed for another reason, or given up at its third expiry. -/
inductive Reading : Downloads.State F → Prop
  | going {file l pssen} (hcalm : Calm l) (hcounts : Counts l pssen) : Reading (file,.going pssen,l)
  | ended {file fate l} (hcalm : Calm l) (hfate : ∀ pssen, fate ≠ .going pssen) : Reading (file,fate,l)
  | givenUp {file l} (hthree : expiries l = 3) (hpatient : Patient acks l ↔ 3 ≤ strikes acks l) :
    Reading (file,.closed,l)

theorem reading_abandon {file : F} {sock : ℤ} {ecode : UInt16} {emsg : String} (h : Calm l)
    (he : tftpBuildErrorPkt ecode (some emsg) ≠ retryMax) : Reading (file,abandon pssen sock ecode emsg l) :=
  .ended (Calm.close (h.cons (by simpa using he) (by simp))) (by simp)

theorem reading_expiry {file : F} (hcalm : Calm l) (hcounts : Counts l pssen) :
    Reading (file,tftpReadTimerCbk pssen (.expired::l)) := by
  have hretry := hcounts.retry
  have hcount : expiries (.expired::l) = expiries l+1 := List.count_cons_self
  unfold tftpReadTimerCbk
  dsimp only
  split
  · next hmax =>
    have hfew := hcalm.few
    refine .givenUp ?_ ?_
    · rw [expiries_close]
      change expiries (.expired::l) = 3
      omega
    · rw [patient_close,strikes_close]
      refine ⟨fun h => h.1 pssen.sock rfl,fun h => ⟨fun _ _ => h,?_⟩⟩
      exact hcalm.patient.cons (by simp)
  · have hsends : ∀ sock, Entry.expired ≠ .send sock retryMax := by simp
    refine .going (Calm.cons ⟨fun sock hmem => ?_,?_⟩ (by simp [retryMax,tftpBuildErrorPkt]) (by simp)) ⟨?_,hcounts.rsn⟩
    · exact hcalm.sends sock ((List.mem_cons.mp hmem).resolve_left (by simp))
    · omega
    · change pssen.priv.retry+1 = (expiries (.expired::l) : ℤ)
      omega

theorem reading_packet {file : F} (sock : ℤ) (ipkt : Bytes) (hcalm : Calm l) (hcounts : Counts l pssen) :
    Reading (tftpReadSockCbk pread sock ipkt pssen file (.recv ipkt::l)) := by
  have hrecv : Calm (.recv ipkt::l) := hcalm.cons (by simp) (by simp)
  have hdata : ∀ {l : Log} {sock n dat}, Calm l → Calm (.send sock (.data n dat)::.timerStart pssen.ttmr 10000 10000::l) :=
    fun hl => (hl.cons (by simp) (by simp)).cons (by simp [retryMax,tftpBuildErrorPkt]) (by simp)
  unfold tftpReadSockCbk
  split
  · exact .going hrecv ⟨hcounts.retry,hcounts.rsn⟩
  · split
    · exact reading_abandon hrecv (by decide)
    · dsimp only
      split
      · split
        · exact .ended hrecv.close (by simp)
        · have hread : ∀ iret buf, Calm (.pread pssen.ffd iret buf::.recv ipkt::l) := fun _ _ =>
            hrecv.cons (by simp) (by simp)
          split
          · exact .ended ((hread _ _).cons (by simp [retryMax,tftpBuildErrorPkt]) (by simp)).close (by simp)
          · have hrsn : pssen.priv.rsn+1 = UInt16.ofNat (Downloads.reads l+1) := by
              rw [hcounts.rsn]
              exact (UInt16.ofNat_add _ 1).symm
            have hreads := Downloads.reads_pread pssen.ffd (pread file 512).1 (pread file 512).2.1 l
            exact .going (hdata (hread _ _)) ⟨hcounts.retry,hrsn.trans (congrArg UInt16.ofNat hreads.symm)⟩
      · split
        · exact .going (hdata hrecv) ⟨hcounts.retry,hcounts.rsn⟩
        · exact reading_abandon hrecv (by decide)

theorem Reading.run {s₀ : Downloads.State F} {es : List Downloads.Event} (h₀ : Reading s₀)
    (h : Run (Downloads.step pread) anyStep s₀ es s) : Reading s := by
  refine h.invariant (I := fun _ => Reading) h₀ ?_
  rintro - s e t - hi - ht
  cases hi with
  | going hcalm hcounts =>
    cases e with
    | packet ipkt =>
      obtain rfl := Option.some.inj ht
      exact reading_packet _ ipkt hcalm hcounts
    | expiry =>
      obtain rfl := Option.some.inj ht
      exact reading_expiry hcalm hcounts
  | @ended file fate l hcalm hfate =>
    cases fate with
    | going pssen => exact absurd rfl (hfate pssen)
    | closed => cases ht
    | misused => cases ht
  | givenUp hthree hpatient => cases ht

/-- The expiries it gave up after came one after the other when the session was stalled from the
first one on. -/
theorem Reading.patient_iff (h : Reading s) : Patient acks s.2.2 ↔ Straight acks s.2.2 := by
  have hcalm : ∀ {l : Log}, Calm l → (Patient acks l ↔ Straight acks l) := fun hl =>
    iff_of_true hl.patient fun h3 => absurd hl.few (by omega)
  cases h with
  | going hl hcounts => exact hcalm hl
  | ended hl hfate => exact hcalm hl
  | @givenUp file l hthree hpatient =>
    have hle : strikes acks l ≤ expiries l := strikes_le l
    refine hpatient.trans ?_
    unfold Straight
    rw [← strikes_eq_iff]
    dsimp only
    omega

end Reading

/-! ### Both -/

section Server

variable {F : Type}

theorem writing_opened {pread : Pread F} {x : Supply} {file : F} {sock : ℤ} {ipkt : Bytes} {srcip : UInt32}
    {srcport : UInt16} {pssen : Session WritePriv} {l : Log}
    (h : tftpSrvSockCbk pread x file sock ipkt srcip srcport = (.writing pssen,l)) : Writing (.going pssen,l) := by
  obtain ⟨rfl,fname,rfl⟩ := tftpSrvSockCbk_writing pread h
  refine writing_reset ?_ rfl
  simp [Patient,Each,retryMax,tftpBuildErrorPkt]

theorem reading_opened {pread : Pread F} {x : Supply} {file file' : F} {sock : ℤ} {ipkt : Bytes} {srcip : UInt32}
    {srcport : UInt16} {pssen : Session ReadPriv} {l : Log}
    (h : tftpSrvSockCbk pread x file sock ipkt srcip srcport = (.reading pssen file',l)) :
    Reading (file',.going pssen,l) := by
  obtain ⟨fname,iret,buf,-,-,rfl,rfl⟩ := tftpSrvSockCbk_reading pread h
  exact .going ⟨by simp [retryMax,tftpBuildErrorPkt],by simp [expiries]⟩ ⟨by simp [expiries],by simp [Downloads.reads]⟩

/-- A session that receives a file gives up only after three expiries without an accepted block. One
that sends a file does so just when no ACK of the current block has come between its expiries. -/
theorem retryMax_patient_iff (pread : Pread F) (x : Supply) (file : F) (sock : ℤ) (ipkt : Bytes) (srcip : UInt32)
    (srcport : UInt16) :
    (∀ pssen l es s, tftpSrvSockCbk pread x file sock ipkt srcip srcport = (.writing pssen,l) →
      Run Uploads.step anyStep (.going pssen,l) es s → Patient accepts s.2) ∧
    ∀ pssen file' l es s, tftpSrvSockCbk pread x file sock ipkt srcip srcport = (.reading pssen file',l) →
      Run (Downloads.step pread) anyStep (file',.going pssen,l) es s → (Patient acks s.2.2 ↔ Straight acks s.2.2) :=
  ⟨fun _ _ _ _ hopen hrun => ((writing_opened hopen).run hrun).patient,
    fun _ _ _ _ _ hopen hrun => ((reading_opened hopen).run hrun).patient_iff⟩

end Server

/-- Blocks of 512 bytes without end. -/
def endless : Pread Unit := fun _ _ => (512,[],())

/-- A request to read the file `f`. -/
def request : Bytes := htons opcodeRrq ++ [0x66,0] ++ octet ++ [0]

/-- Each of three blocks is lost once, and each arrives after that. -/
def losses : List Downloads.Event :=
  [.expiry,.packet (Pkt.ack 2).bytes,.expiry,.packet (Pkt.ack 1).bytes,.expiry]

/-- The third loss ends the transfer, though the two before it were made up for. -/
theorem losses_not_patient : ∃ pssen l s,
    tftpSrvSockCbk endless ⟨3,true,[],5,7⟩ () 4 request 9 69 = (.reading pssen (),l) ∧
      Run (Downloads.step endless) anyStep ((),.going pssen,l) losses s ∧ ¬Patient acks s.2.2 := by
  refine ⟨_,_,_,rfl,.cons (.cons (.cons (.cons (.cons .nil trivial rfl) trivial rfl) trivial rfl) trivial rfl)
    trivial rfl,fun h => ?_⟩
  -- behind the four entries of the close
  have hgiven := h.2.2.2.2.1 5 rfl
  exact absurd hgiven (by decide)

end Expiries
end Autbus
