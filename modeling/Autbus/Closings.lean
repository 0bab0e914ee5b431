import Autbus.Tftp

/-! What the callbacks of a session in `tftp.c` still do after `tftp_close_session`. -/
namespace Autbus
namespace Closings

open Tftp

/-- Reads, writes, packets and the timer. -/
def operates : Entry → Bool
  | .send _ _ | .sendTo _ _ _ _ | .timerCreate _ | .timerStart _ _ _ | .timerDelete _ => true
  | .pread _ _ _ | .pwrite _ _ _ => true
  | _ => false

/-- Once the memory is freed, nothing of that is done. -/
def Quiet : Log → Prop := Blocks.Each fun l e => .free ∈ l → operates e = false

/-- What follows `pread` in `tftp_read_sock_cbk`. -/
def sendNext (sock iret : ℤ) (pssen : Session ReadPriv) (l : Log) : Log :=
  let priv := {pssen.priv with tlen := iret,rsn := pssen.priv.rsn+1}
  .send sock (.data priv.rsn (priv.tary.take priv.tlen.toNat))::.timerStart pssen.ttmr 10000 10000::l

section Callbacks

variable {F : Type} (pread : Pread F)

/-- `tftp_read_sock_cbk` to its end; `left` is what the memory of a session holds after it is freed. -/
def readSockLog (left : Session ReadPriv) (sock : ℤ) (ipkt : Bytes) (pssen : Session ReadPriv) (file : F) (l : Log) :
    Log :=
  if ipkt.length < 4 then l
  else if ntohs ipkt 0 ≠ opcodeAck then (abandon pssen sock errorUnknownXfer "type err" l).2
  else
    let temp := ntohs ipkt 2
    if temp = pssen.priv.rsn then
      if pssen.priv.tlen < 512 then tftpCloseSession pssen l
      else
        let (iret,buf,_) := pread file 512
        let l := .pread pssen.ffd iret buf::l
        -- the session is closed after an error, but the callback does not return
        if iret < 0 then sendNext sock iret left (abandon pssen sock errorAccess "io err" l).2
        else sendNext sock iret {pssen with priv := {pssen.priv with
          tary := buf ++ pssen.priv.tary.drop buf.length}} l
    else if temp+1 = pssen.priv.rsn then
      .send sock (.data pssen.priv.rsn (pssen.priv.tary.take pssen.priv.tlen.toNat))
        ::.timerStart pssen.ttmr 10000 10000::l
    else (abandon pssen sock errorUnknownXfer "sn xxx" l).2

/-- A callback with its session, the packet, and what the functions of the file come back with. -/
inductive Callback (F : Type)
  | writeTimer (pssen : Session WritePriv)
  | writeSock (sock : ℤ) (ipkt : Bytes) (iret : ℤ) (pssen : Session WritePriv)
  | readTimer (pssen : Session ReadPriv)
  | readSock (left : Session ReadPriv) (sock : ℤ) (ipkt : Bytes) (pssen : Session ReadPriv) (file : F)

/-- What a callback does, from its start. -/
def Callback.log : Callback F → Log
  | .writeTimer pssen => (tftpWriteTimerCbk pssen []).2
  | .writeSock sock ipkt iret pssen => (tftpWriteSockCbk sock ipkt iret pssen []).2
  | .readTimer pssen => (tftpReadTimerCbk pssen []).2
  | .readSock left sock ipkt pssen file => readSockLog pread left sock ipkt pssen file []

/-- The block asked for is followed by another one, which cannot be read. -/
def Unreadable (ipkt : Bytes) (pssen : Session ReadPriv) (file : F) : Prop :=
  4 ≤ ipkt.length ∧ ntohs ipkt 0 = opcodeAck ∧ ntohs ipkt 2 = pssen.priv.rsn ∧ 512 ≤ pssen.priv.tlen ∧
    (pread file 512).1 < 0

/-- The callbacks that go wrong. -/
def Callback.Unreadable : Callback F → Prop
  | .readSock _ _ ipkt pssen file => Closings.Unreadable pread ipkt pssen file
  | _ => False

variable {pread}

/-- Up to the close, or to the end, it is `tftp_read_sock_cbk` as its session sees it. -/
theorem readSockLog_eq {left : Session ReadPriv} {sock : ℤ} {ipkt : Bytes} {pssen : Session ReadPriv} {file : F}
    {l : Log} : readSockLog pread left sock ipkt pssen file l =
      match tftpReadSockCbk pread sock ipkt pssen file l with
      | (_,.misused,l) => sendNext sock (pread file 512).1 left l
      | (_,_,l) => l := by
  unfold readSockLog tftpReadSockCbk
  by_cases hlen : ipkt.length < 4
  · rw [if_pos hlen,if_pos hlen]
  · rw [if_neg hlen,if_neg hlen]
    by_cases hop : ntohs ipkt 0 ≠ opcodeAck
    · rw [if_pos hop,if_pos hop]
      rfl
    · rw [if_neg hop,if_neg hop]
      dsimp only
      split
      · next hrsn =>
        split
        · rfl
        · obtain ⟨iret,buf,file'⟩ := pread file 512
          dsimp only
          split <;> rfl
      · split <;> rfl

section Close

variable {P : Type} {pssen : Session P} {sock : ℤ} {ecode : UInt16} {emsg : String} {l : Log}

theorem quiet_open (h : .free ∉ l) : Quiet l :=
  Blocks.each_iff.mpr fun l₂ e l₁ hl hfree => absurd (by rw [hl]; simp [hfree]) h

theorem Quiet.inert {e : Entry} (h : Quiet l) (he : operates e = false) : Quiet (e::l) := ⟨fun _ => he,h⟩

/-- A callback may end with a close. -/
theorem quiet_close (h : .free ∉ l) : Quiet (tftpCloseSession pssen l) := by
  unfold tftpCloseSession
  refine (quiet_open ?_).inert rfl
  unfold release
  split <;> split <;> split <;> simp [h]

theorem quiet_abandon (h : .free ∉ l) : Quiet (abandon pssen sock ecode emsg l).2 :=
  quiet_close (by simp [h])

end Close

theorem not_quiet_sendNext {sock iret : ℤ} {pssen : Session ReadPriv} {l : Log} (h : .free ∈ l) :
    ¬Quiet (sendNext sock iret pssen l) := fun hq => Bool.noConfusion (hq.2.1 h)

theorem quiet_writeTimer (pssen : Session WritePriv) : Quiet (tftpWriteTimerCbk pssen []).2 := by
  unfold tftpWriteTimerCbk
  dsimp only
  split
  · exact quiet_abandon List.not_mem_nil
  · exact quiet_open (by simp)

theorem quiet_readTimer (pssen : Session ReadPriv) : Quiet (tftpReadTimerCbk pssen []).2 := by
  unfold tftpReadTimerCbk
  dsimp only
  split
  · exact quiet_abandon List.not_mem_nil
  · exact quiet_open (by simp)

theorem quiet_writeSock (sock : ℤ) (ipkt : Bytes) (iret : ℤ) (pssen : Session WritePriv) :
    Quiet (tftpWriteSockCbk sock ipkt iret pssen []).2 := by
  unfold tftpWriteSockCbk
  split
  · exact quiet_abandon List.not_mem_nil
  · dsimp only
    split
    · exact quiet_close List.not_mem_nil
    · split
      · exact quiet_open (by simp)
      · split
        -- a full block
        · split
          · exact quiet_abandon (by simp)
          · exact quiet_open (by simp)
        · split
          · exact quiet_abandon (by simp)
          · split
            · exact quiet_abandon (by simp)
            -- the last block
            · split
              · exact quiet_close (by simp)
              · exact quiet_close (by simp)

/-- The session that sends a file is used after its close when its file cannot be read. -/
theorem quiet_readSock_iff (left : Session ReadPriv) (sock : ℤ) (ipkt : Bytes) (pssen : Session ReadPriv) (file : F) :
    Quiet (readSockLog pread left sock ipkt pssen file []) ↔ ¬Unreadable pread ipkt pssen file := by
  unfold readSockLog
  split
  · next hlen => exact iff_of_true (quiet_open List.not_mem_nil) fun h => absurd h.1 (Nat.not_le.mpr hlen)
  · next hlen =>
    split
    · next hop => exact iff_of_true (quiet_abandon List.not_mem_nil) fun h => hop h.2.1
    · next hop =>
      dsimp only
      split
      · next hrsn =>
        split
        · next htlen => exact iff_of_true (quiet_close List.not_mem_nil) fun h => absurd h.2.2.2.1 (Int.not_le.mpr htlen)
        · next htlen =>
          split
          · next hiret =>
            refine iff_of_false (not_quiet_sendNext List.mem_cons_self) (not_not.mpr ?_)
            exact ⟨Nat.not_lt.mp hlen,not_not.mp hop,hrsn,Int.not_lt.mp htlen,hiret⟩
          · next hiret => exact iff_of_true (quiet_open (by simp [sendNext])) fun h => hiret h.2.2.2.2
      · next hrsn =>
        split
        · exact iff_of_true (quiet_open (by simp)) fun h => hrsn h.2.2.1
        · exact iff_of_true (quiet_abandon List.not_mem_nil) fun h => hrsn h.2.2.1

/-- A callback does nothing more with a session it has closed, unless the next block of its file
cannot be read. -/
theorem callback_quiet_iff (c : Callback F) : Quiet (c.log pread) ↔ ¬c.Unreadable pread := by
  cases c with
  | writeTimer pssen => exact iff_of_true (quiet_writeTimer pssen) not_false
  | writeSock sock ipkt iret pssen => exact iff_of_true (quiet_writeSock sock ipkt iret pssen) not_false
  | readTimer pssen => exact iff_of_true (quiet_readTimer pssen) not_false
  | readSock left sock ipkt pssen file => exact quiet_readSock_iff left sock ipkt pssen file

end Callbacks

/-- A file that cannot be read, a session that has sent its first block, and the packet that
confirms it. -/
def broken : Pread Unit := fun _ _ => (-1,[],())

def sending : Session ReadPriv := ⟨3,5,7,⟨0,1,0,512,List.replicate 512 0⟩⟩

/-- The timer and the socket are used after they are freed. -/
theorem broken_not_quiet :
    ¬Quiet ((Callback.readSock sending 5 (Pkt.ack 1).bytes sending ()).log broken) := by
  intro h
  have hstart : operates (.timerStart 7 10000 10000) = false := h.2.1 List.mem_cons_self
  exact absurd hstart (by decide)

end Closings
end Autbus
