import Autbus.Tftp
import Autbus.Blocks

/-! The session that receives a file. The block counter has 16 bits; which packets are accepted
is said without it, by counting the packets accepted so far. -/
namespace Autbus
namespace Uploads

open Tftp Trace Blocks

/-- A packet, with what `pwrite` returns if it is called, or the timer of the session. -/
inductive Event
  | packet (ipkt : Bytes) (iret : ℤ)
  | expiry

abbrev State := Fate WritePriv × Log

/-- Nothing reaches a session that is closed. -/
def step (s : State) (e : Event) : Option State :=
  match s.1,e with
  | .going pssen,.packet ipkt iret => some (tftpWriteSockCbk pssen.sock ipkt iret pssen (.recv ipkt::s.2))
  | .going pssen,.expiry => some (tftpWriteTimerCbk pssen (.expired::s.2))
  | _,_ => none

/-! ### What the log tells -/

def payload (ipkt : Bytes) : Bytes := ipkt.drop 4

/-- A DATA packet that fits behind `n` blocks. -/
structure Follows (n : ℕ) (ipkt : Bytes) : Prop where
  header : 4 ≤ ipkt.length
  opcode : ntohs ipkt 0 = opcodeData
  number : ntohs ipkt 2 = UInt16.ofNat (n+1)
  size : (payload ipkt).length ≤ 512

instance (n : ℕ) (ipkt : Bytes) : Decidable (Follows n ipkt) :=
  decidable_of_iff (4 ≤ ipkt.length ∧ ntohs ipkt 0 = opcodeData ∧ ntohs ipkt 2 = UInt16.ofNat (n+1) ∧
      (payload ipkt).length ≤ 512)
    ⟨fun h => ⟨h.1,h.2.1,h.2.2.1,h.2.2.2⟩,fun h => ⟨h.header,h.opcode,h.number,h.size⟩⟩

/-- The packets that reached the session, the first one first. -/
def received : Log → List Bytes
  | [] => []
  | .recv ipkt::l => received l ++ [ipkt]
  | _::l => received l

/-- Those of them that are accepted: each fits behind the ones before it. -/
def accepted : Log → List Bytes
  | [] => []
  | .recv ipkt::l => if Follows (accepted l).length ipkt then accepted l ++ [ipkt] else accepted l
  | _::l => accepted l

/-- What was given to `pwrite`. -/
def given : Log → List Bytes
  | [] => []
  | .pwrite _ buf _::l => given l ++ [buf]
  | _::l => given l

/-- What `pwrite` returned 0 for. -/
def confirmed : Log → List Bytes
  | [] => []
  | .pwrite _ buf iret::l => if iret = 0 then confirmed l ++ [buf] else confirmed l
  | _::l => confirmed l

/-- The blocks to be written: those with a payload. -/
def blocks (ps : List Bytes) : List Bytes := (ps.map payload).filter fun dat => dat ≠ []

/-- An ACK has the number of the last accepted block, and all of them are written. -/
def AckOk (l : Log) (e : Entry) : Prop := ∀ sock n, e = .send sock (.ack n) →
  n = UInt16.ofNat (accepted l).length ∧ confirmed l = blocks (accepted l)

structure Inv (s : State) : Prop where
  written : given s.2 = blocks (accepted s.2)
  acks : Each AckOk s.2
  going : ∀ pssen, s.1 = .going pssen →
    pssen.priv.rsn = UInt16.ofNat (accepted s.2).length ∧ confirmed s.2 = blocks (accepted s.2)

section Lemmas

variable {l : Log} {ipkt : Bytes} {n : ℕ}

theorem blocks_snoc (ps : List Bytes) (ipkt : Bytes) :
    blocks (ps ++ [ipkt]) = if payload ipkt = [] then blocks ps else blocks ps ++ [payload ipkt] := by
  unfold blocks
  rw [List.map_append,List.filter_append]
  by_cases h : payload ipkt = []
  · simp [h]
  · simp [h]

theorem flatten_blocks (ps : List Bytes) : (blocks ps).flatten = (ps.map payload).flatten := by
  induction ps with
  | nil => rfl
  | cons p ps ih =>
    unfold blocks at ih ⊢
    by_cases h : payload p = []
    · simpa [h] using ih
    · simpa [h] using ih

theorem accepted_sublist (l : Log) : (accepted l).Sublist (received l) := by
  induction l with
  | nil => exact .slnil
  | cons e l ih =>
    cases e with
    | recv ipkt =>
      simp only [accepted,received]
      split
      · exact ih.append (.refl _)
      · exact ih.trans (List.sublist_append_left _ _)
    | _ => exact ih

theorem accepted_number {i : ℕ} (h : (accepted l)[i]? = some ipkt) : ntohs ipkt 2 = UInt16.ofNat (i+1) := by
  induction l with
  | nil => simp [accepted] at h
  | cons e l ih =>
    cases e with
    | recv p =>
      simp only [accepted] at h
      split at h
      · next hf =>
        rw [List.getElem?_append] at h
        split at h
        · exact ih h
        · next hge =>
          rw [List.getElem?_singleton] at h
          split at h
          · next hi =>
            obtain rfl := Option.some.inj h
            rw [hf.number]
            congr 2
            omega
          · cases h
      · exact ih h
    | _ => exact ih h

/-! The cleanup is none of these. -/

variable (pssen : Session WritePriv)

@[simp] theorem accepted_close : accepted (tftpCloseSession pssen l) = accepted l :=
  tftpCloseSession_same accepted (fun e _ he => by cases e <;> first | rfl | cases he) pssen l

@[simp] theorem given_close : given (tftpCloseSession pssen l) = given l :=
  tftpCloseSession_same given (fun e _ he => by cases e <;> first | rfl | cases he) pssen l

@[simp] theorem acks_close : Each AckOk (tftpCloseSession pssen l) = Each AckOk l := by
  refine each_close (fun l e he => ?_) pssen l
  rintro sock n rfl
  cases he

end Lemmas

/-! ### Steps -/

/-- A closed session: what was written and acknowledged stays. -/
theorem inv_closed {pssen : Session WritePriv} {l : Log} (hw : given l = blocks (accepted l)) (ha : Each AckOk l) :
    Inv (.closed,tftpCloseSession pssen l) :=
  ⟨by simpa using hw,by simpa using ha,fun _ h => by cases h⟩

/-- Every entry but an ACK is in order. -/
theorem each_cons {l : Log} {e : Entry} (he : ∀ sock n, e ≠ .send sock (.ack n)) (h : Each AckOk l) :
    Each AckOk (e::l) := ⟨fun sock n heq => absurd heq (he sock n),h⟩

theorem inv_abandoned {pssen : Session WritePriv} {sock : ℤ} {ecode : UInt16} {emsg : String} {l : Log}
    (hw : given l = blocks (accepted l)) (ha : Each AckOk l) : Inv (abandon pssen sock ecode emsg l) :=
  inv_closed hw (each_cons (by simp [tftpBuildErrorPkt]) ha)

/-- An ACK of the last accepted block. -/
theorem inv_acked {pssen : Session WritePriv} {sock : ℤ} {n : UInt16} {l : Log} (hw : given l = blocks (accepted l))
    (ha : Each AckOk l) (hn : pssen.priv.rsn = n)
    (hok : n = UInt16.ofNat (accepted l).length ∧ confirmed l = blocks (accepted l)) :
    Inv (.going pssen,.send sock (.ack n)::l) := by
  refine ⟨hw,⟨?_,ha⟩,?_⟩
  · rintro _ _ ⟨⟩
    exact hok
  · rintro p ⟨⟩
    exact ⟨hn.trans hok.1,hok.2⟩

section Step

variable {s : State} {pssen : Session WritePriv} {ipkt : Bytes} {iret : ℤ}

theorem Inv.expiry (h : Inv s) (hs : s.1 = .going pssen) : Inv (tftpWriteTimerCbk pssen (.expired::s.2)) := by
  unfold tftpWriteTimerCbk
  dsimp only
  split
  · exact inv_abandoned h.written (each_cons (by simp) h.acks)
  · exact inv_acked h.written (each_cons (by simp) h.acks) rfl (h.going pssen hs)

/-- A packet that is not accepted changes nothing of what the log tells. -/
theorem Inv.recv (h : Inv s) (hf : ¬Follows (accepted s.2).length ipkt) : Inv (s.1,.recv ipkt::s.2) := by
  have hacc : accepted (.recv ipkt::s.2) = accepted s.2 := if_neg hf
  refine ⟨?_,each_cons (by simp) h.acks,fun pssen hs => ?_⟩
  · rw [hacc]
    exact h.written
  · rw [hacc]
    exact h.going pssen hs

theorem accepted_recv {l : Log} (hf : Follows (accepted l).length ipkt) :
    accepted (.recv ipkt::l) = accepted l ++ [ipkt] := if_pos hf

theorem ofNat_succ (n : ℕ) : UInt16.ofNat (n+1) = UInt16.ofNat n+1 := UInt16.ofNat_add n 1

section Block

variable {ffd ttmr : ℤ} {itv irt : UInt32}

/-- The log when an accepted block with a payload has been given to `pwrite`. -/
def afterWrite (ffd ttmr : ℤ) (itv irt : UInt32) (ipkt : Bytes) (iret : ℤ) (l : Log) : Log :=
  .pwrite ffd (payload ipkt) iret::.timerStart ttmr itv irt::.recv ipkt::l

theorem accepted_afterWrite {l : Log} (hf : Follows (accepted l).length ipkt) :
    accepted (afterWrite ffd ttmr itv irt ipkt iret l) = accepted l ++ [ipkt] := accepted_recv hf

theorem Inv.afterWrite_given (h : Inv s) (ffd iret : ℤ) (hf : Follows (accepted s.2).length ipkt)
    (hne : payload ipkt ≠ []) : given (afterWrite ffd ttmr itv irt ipkt iret s.2) =
      blocks (accepted (afterWrite ffd ttmr itv irt ipkt iret s.2)) := by
  rw [accepted_afterWrite hf,blocks_snoc,if_neg hne,← h.written]
  rfl

theorem Inv.afterWrite_acks (h : Inv s) : Each AckOk (afterWrite ffd ttmr itv irt ipkt iret s.2) :=
  each_cons (by simp) (each_cons (by simp) (each_cons (by simp) h.acks))

/-- When `pwrite` has returned 0 the block may be acknowledged. -/
theorem Inv.afterWrite_ack (h : Inv s) (hs : s.1 = .going pssen) (ffd : ℤ) (hf : Follows (accepted s.2).length ipkt)
    (hne : payload ipkt ≠ []) :
    ntohs ipkt 2 = UInt16.ofNat (accepted (afterWrite ffd ttmr itv irt ipkt 0 s.2)).length ∧
      confirmed (afterWrite ffd ttmr itv irt ipkt 0 s.2) =
        blocks (accepted (afterWrite ffd ttmr itv irt ipkt 0 s.2)) := by
  rw [accepted_afterWrite hf]
  refine ⟨by rw [hf.number,List.length_append,List.length_singleton],?_⟩
  rw [blocks_snoc,if_neg hne,← (h.going pssen hs).2]
  rfl

/-- The final ACK of a block that has been given to `pwrite`. -/
theorem Inv.last (h : Inv s) (hs : s.1 = .going pssen) (ffd sock : ℤ) (n : UInt16) (ofs : UInt32)
    (next : Session WritePriv) (hf : Follows (accepted s.2).length ipkt) (hne : payload ipkt ≠ []) :
    Inv (.closed,tftpCloseSession next
      (.send sock (.ack (ntohs ipkt 2))::.printf n ofs::afterWrite ffd ttmr itv irt ipkt 0 s.2)) := by
  refine inv_closed (h.afterWrite_given ffd 0 hf hne) ⟨?_,each_cons (by simp) h.afterWrite_acks⟩
  rintro _ _ ⟨⟩
  exact h.afterWrite_ack hs ffd hf hne

/-- The final ACK of an empty block: nothing is written for it. -/
theorem Inv.last_empty (h : Inv s) (hs : s.1 = .going pssen) (sock : ℤ) (n : UInt16) (ofs : UInt32)
    (next : Session WritePriv) (hf : Follows (accepted s.2).length ipkt) (hempty : payload ipkt = []) :
    Inv (.closed,tftpCloseSession next
      (.send sock (.ack (ntohs ipkt 2))::.printf n ofs::.timerStart ttmr itv irt::.recv ipkt::s.2)) := by
  have hacc : accepted (.recv ipkt::s.2) = accepted s.2 ++ [ipkt] := accepted_recv hf
  have hblocks : blocks (accepted s.2 ++ [ipkt]) = blocks (accepted s.2) := by rw [blocks_snoc,if_pos hempty]
  refine inv_closed ?_ ⟨?_,each_cons (by simp) (each_cons (by simp) (each_cons (by simp) h.acks))⟩
  · change given s.2 = blocks (accepted (.recv ipkt::s.2))
    rw [hacc,hblocks,h.written]
  · rintro _ _ ⟨⟩
    change ntohs ipkt 2 = UInt16.ofNat (accepted (.recv ipkt::s.2)).length ∧
      confirmed s.2 = blocks (accepted (.recv ipkt::s.2))
    rw [hacc,hblocks,List.length_append,List.length_singleton]
    exact ⟨hf.number,(h.going pssen hs).2⟩

end Block

theorem Inv.packet (h : Inv s) (hs : s.1 = .going pssen) (sock : ℤ) :
    Inv (tftpWriteSockCbk sock ipkt iret pssen (.recv ipkt::s.2)) := by
  have hrsn := (h.going pssen hs).1
  unfold tftpWriteSockCbk
  split
  · next hlen =>
    have hr := h.recv fun hf => absurd hf.header (Nat.not_le.mpr hlen)
    exact inv_abandoned hr.written hr.acks
  next hlen =>
  dsimp only
  split
  · next hop =>
    have hr := h.recv fun hf => hop hf.opcode
    exact inv_closed hr.written hr.acks
  next hop =>
  split
  · next hnum =>
    have hr := h.recv fun hf => hnum (by rw [hf.number,hrsn,ofNat_succ])
    exact inv_acked hr.written (each_cons (by simp) hr.acks) rfl (hr.going pssen hs)
  next hnum =>
  have hfollows : (payload ipkt).length ≤ 512 → Follows (accepted s.2).length ipkt := fun hsize =>
    ⟨Nat.not_lt.mp hlen,not_not.mp hop,by rw [not_not.mp hnum,hrsn,ofNat_succ],hsize⟩
  have hne : 0 < (payload ipkt).length → payload ipkt ≠ [] := List.ne_nil_of_length_pos
  split
  · next hfull =>
    have hf := hfollows (Nat.le_of_eq hfull)
    have hne := hne (by rw [payload,hfull]; decide)
    split
    · exact inv_abandoned (h.afterWrite_given pssen.ffd iret hf hne) h.afterWrite_acks
    · next hok =>
      obtain rfl := not_not.mp hok
      exact inv_acked (h.afterWrite_given pssen.ffd 0 hf hne) h.afterWrite_acks rfl
        (h.afterWrite_ack hs pssen.ffd hf hne)
  next hfull =>
  split
  · next hlong =>
    have hr := h.recv fun hf => absurd hf.size (Nat.not_le.mpr hlong)
    exact inv_abandoned hr.written (each_cons (by simp) hr.acks)
  next hlong =>
  have hf := hfollows (Nat.not_lt.mp hlong)
  split
  · next hfail =>
    exact inv_abandoned (h.afterWrite_given pssen.ffd iret hf (hne hfail.1)) h.afterWrite_acks
  next hdone =>
  by_cases hlast : 0 < (payload ipkt).length
  · have hok : iret = 0 := by
      by_contra hiret
      exact hdone ⟨hlast,hiret⟩
    subst hok
    have hne := hne hlast
    rw [payload] at hlast
    rw [if_pos hlast]
    exact h.last hs pssen.ffd sock _ _ _ hf hne
  · have hempty : payload ipkt = [] := List.length_eq_zero_iff.mp (by omega)
    rw [payload] at hlast
    rw [if_neg hlast]
    exact h.last_empty hs sock _ _ _ hf hempty

theorem Inv.kept {t : State} {e : Event} (h : Inv s) (ht : step s e = some t) : Inv t := by
  unfold step at ht
  split at ht
  · next pssen ipkt iret hs =>
    cases ht
    exact h.packet hs pssen.sock
  · next pssen hs =>
    cases ht
    exact h.expiry hs
  · cases ht

end Step

/-- The run lemma. -/
theorem Inv.run {s₀ s : State} {es : List Event} (h₀ : Inv s₀) (h : Run step anyStep s₀ es s) : Inv s :=
  h.invariant (I := fun _ s => Inv s) h₀ fun _ _ _ _ _ hi _ ht => hi.kept ht

/-- What the log of a session says of the file. -/
structure Stored (l : Log) : Prop where
  bytes : (given l).flatten = ((accepted l).map payload).flatten
  once : (accepted l).Sublist (received l)
  numbered : ∀ i ipkt, (accepted l)[i]? = some ipkt → (ntohs ipkt 2).toNat = (i+1)%65536
  acked : ∀ l₂ sock n l₁, l = l₂ ++ .send sock (.ack n)::l₁ →
    n.toNat = (accepted l₁).length%65536 ∧ confirmed l₁ = blocks (accepted l₁)

theorem Inv.stored {s : State} (h : Inv s) : Stored s.2 := by
  refine ⟨by rw [h.written,flatten_blocks],accepted_sublist _,?_,?_⟩
  · intro i ipkt hi
    rw [accepted_number hi,UInt16.toNat_ofNat']
  · intro l₂ sock n l₁ hl
    obtain ⟨rfl,hconf⟩ := each_iff.mp h.acks l₂ _ l₁ hl sock n rfl
    exact ⟨by rw [UInt16.toNat_ofNat'],hconf⟩

section Server

variable {F : Type} {pread : Pread F} {x : Supply} {file : F} {sock : ℤ} {ipkt : Bytes} {srcip : UInt32}
  {srcport : UInt16} {pssen : Session WritePriv} {l : Log}

/-- A session as the server opens it. -/
theorem inv_opened (h : tftpSrvSockCbk pread x file sock ipkt srcip srcport = (.writing pssen,l)) :
    Inv (.going pssen,l) := by
  obtain ⟨rfl,fname,rfl⟩ := tftpSrvSockCbk_writing pread h
  refine inv_acked rfl ?_ rfl ⟨rfl,rfl⟩
  exact each_cons (by simp) (each_cons (by simp) (each_cons (by simp) (each_cons (by simp)
    (each_cons (by simp) (each_cons (by simp) trivial)))))

theorem stored_of_run {s : State} {es : List Event}
    (h : tftpSrvSockCbk pread x file sock ipkt srcip srcport = (.writing pssen,l))
    (hr : Run step anyStep (.going pssen,l) es s) : Stored s.2 :=
  ((inv_opened h).run hr).stored

end Server

/-- A request to write the file `f`. -/
def wrq : Bytes := htons opcodeWrq ++ [0x66,0] ++ octet ++ [0]

/-- The session for it, which waits for the first block. -/
def waiting : Session WritePriv := ⟨3,5,7,⟨0,0,0⟩⟩

def waitingLog : Log := [.send 5 (.ack 0),.timerStart 7 10000 10000,.timerCreate 7,.udpConnect 5 9 69,.udpNew 5,
  .malloc,.wrqOpen [0x66] 3]

theorem one_block_stored : ∃ s : State, given s.2 = [[1,2,3]] ∧ Stored s.2 := by
  have hopen : tftpSrvSockCbk (fun _ _ => (0,[],())) ⟨3,true,[],5,7⟩ () 4 wrq 9 69 =
      (.writing waiting,waitingLog) := rfl
  have hrun : Run step anyStep (.going waiting,waitingLog) [.packet (Pkt.data 1 [1,2,3]).bytes 0,.expiry]
      (tftpWriteSockCbk 5 (Pkt.data 1 [1,2,3]).bytes 0 {waiting with priv := ⟨1,0,0⟩}
        (.recv (Pkt.data 1 [1,2,3]).bytes::.send 5 (.ack 0)::.expired::waitingLog)) :=
    .cons (.cons .nil trivial rfl) trivial rfl
  exact ⟨_,by decide,stored_of_run hopen hrun⟩

end Uploads
end Autbus
