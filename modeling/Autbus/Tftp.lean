import Autbus.Blocks
import Autbus.Trace
import Mathlib.Data.List.Basic
import Mathlib.Data.Int.Notation

/-! The file transfer of `tftp.c`: the packets, the two kinds of session with what a packet
or their timer makes them do, and the server that opens them. What is done is kept in a log,
the newest entry first. -/
namespace Autbus
namespace Tftp

abbrev Bytes := List UInt8

/-- `__ntohs` of the two bytes at `i`. -/
def ntohs (b : Bytes) (i : ℕ) : UInt16 := UInt16.ofNat (256*(b.getD i 0).toNat+(b.getD (i+1) 0).toNat)

/-- `__htons`. -/
def htons (x : UInt16) : Bytes := [UInt8.ofNat (x.toNat/256),UInt8.ofNat x.toNat]

/-! ### Packets -/

def opcodeRrq : UInt16 := 1
def opcodeWrq : UInt16 := 2
def opcodeData : UInt16 := 3
def opcodeAck : UInt16 := 4
def opcodeError : UInt16 := 5

def errorUndef : UInt16 := 0
def errorAccess : UInt16 := 2
def errorFull : UInt16 := 3
def errorIllegalOp : UInt16 := 4
def errorUnknownXfer : UInt16 := 5

/-- The packets built here. -/
inductive Pkt
  | data (snblk : UInt16) (pdat : Bytes)
  | ack (snblk : UInt16)
  | error (ecode : UInt16) (emsg : String)
  deriving DecidableEq

/-- `tftp_build_error_pkt`, where no message stands for `NULL`. -/
def tftpBuildErrorPkt (ecode : UInt16) (emsg : Option String) : Pkt := .error ecode (emsg.getD "None")

/-- As it is sent. -/
def Pkt.bytes : Pkt → Bytes
  | .data snblk pdat => htons opcodeData ++ htons snblk ++ pdat
  | .ack snblk => htons opcodeAck ++ htons snblk
  | .error ecode emsg => htons opcodeError ++ htons ecode ++ emsg.toList.map (fun c => UInt8.ofNat c.toNat) ++ [0]

/-! ### Sessions -/

/-- `tftp_session`, `priv` being what follows it. -/
structure Session (P : Type) where
  ffd : ℤ
  sock : ℤ
  ttmr : ℤ
  priv : P
  deriving DecidableEq

structure WritePriv where
  retry : ℤ
  rsn : UInt16
  ofs : UInt32
  deriving DecidableEq

structure ReadPriv where
  retry : ℤ
  rsn : UInt16
  ofs : UInt32
  tlen : ℤ
  tary : Bytes
  deriving DecidableEq

/-- What reaches a session and what it does. A packet is handed to `tftp_send_ack` and its likes,
what these return is not looked at. -/
inductive Entry
  | recv (ipkt : Bytes)
  | expired
  | send (sock : ℤ) (pkt : Pkt)
  | sendTo (sock : ℤ) (dstip : UInt32) (dstport : UInt16) (pkt : Pkt)
  | timerCreate (ttmr : ℤ)
  | timerStart (ttmr : ℤ) (itv irt : UInt32)
  | timerDelete (ttmr : ℤ)
  | udpNew (sock : ℤ)
  | udpConnect (sock : ℤ) (dstip : UInt32) (dstport : UInt16)
  | udpFree (sock : ℤ)
  | malloc
  | free
  | wrqOpen (fname : Bytes) (iret : ℤ)
  | rrqOpen (fname : Bytes) (iret : ℤ)
  | pread (ffd : ℤ) (iret : ℤ) (buf : Bytes)
  | pwrite (ffd : ℤ) (buf : Bytes) (iret : ℤ)
  | pclose (ffd : ℤ)
  | printf (nblk : UInt16) (total : UInt32)
  deriving DecidableEq

abbrev Log := List Entry

/-- What a callback leaves of its session; `misused` when it goes on with one that is closed. -/
inductive Fate (P : Type)
  | going (pssen : Session P)
  | closed
  | misused
  deriving DecidableEq

/-- The cleanup of a handle that is there. -/
def release (handle : ℤ) (e : Entry) (l : Log) : Log := if 0 ≤ handle then e::l else l

section Close

variable {P : Type}

/-- `tftp_close_session`. -/
def tftpCloseSession (pssen : Session P) (l : Log) : Log :=
  let l := release pssen.ffd (.pclose pssen.ffd) l
  let l := release pssen.ttmr (.timerDelete pssen.ttmr) l
  let l := release pssen.sock (.udpFree pssen.sock) l
  .free::l

/-- What closing a session puts into the log. -/
def Entry.cleanup : Entry → Bool
  | .pclose _ | .timerDelete _ | .udpFree _ | .free => true
  | _ => false

/-- Where the cleanup does not count, closing changes nothing. -/
theorem tftpCloseSession_same {β : Type*} (f : Log → β) (hf : ∀ e l, Entry.cleanup e = true → f (e::l) = f l)
    (pssen : Session P) (l : Log) : f (tftpCloseSession pssen l) = f l := by
  have hr : ∀ handle e l, Entry.cleanup e = true → f (release handle e l) = f l := by
    intro handle e l he
    unfold release
    split
    · exact hf e l he
    · rfl
  rw [tftpCloseSession,hf _ _ rfl,hr _ _ _ rfl,hr _ _ _ rfl,hr _ _ _ rfl]

/-- The entries of the cleanup suit whatever is before them. -/
theorem each_close {Q : Log → Entry → Prop} (hQ : ∀ l e, Entry.cleanup e = true → Q l e) (pssen : Session P)
    (l : Log) : Blocks.Each Q (tftpCloseSession pssen l) = Blocks.Each Q l :=
  tftpCloseSession_same (Blocks.Each Q) (fun e l he => propext (and_iff_right (hQ l e he))) pssen l

/-- A session is closed after an error. -/
def abandon (pssen : Session P) (sock : ℤ) (ecode : UInt16) (emsg : String) (l : Log) :
    Fate P × Log :=
  (.closed,tftpCloseSession pssen (.send sock (tftpBuildErrorPkt ecode (some emsg))::l))

end Close

/-- What the open function, `malloc`, `minsock_udp_new` and `timer_create` come back with for a
request. `tary` is in the memory that `malloc` gives. -/
structure Supply where
  ffd : ℤ
  mem : Bool
  tary : Bytes
  sock : ℤ
  ttmr : ℤ

/-- `tftp_new_session`: the return code and the session, whose `priv` is not yet set. -/
def tftpNewSession (x : Supply) (srcip : UInt32) (srcport : UInt16) (l : Log) : ℤ × Option (Session Unit) × Log :=
  if ¬x.mem then (-1,none,l)
  else
    let l := .malloc::l
    if x.sock < 0 then (-2,none,tftpCloseSession ⟨-1,x.sock,-1,()⟩ l)
    else
      let l := .udpConnect x.sock srcip srcport::.udpNew x.sock::l
      if x.ttmr < 0 then (307,none,tftpCloseSession ⟨-1,x.sock,x.ttmr,()⟩ l)
      else (0,some ⟨-1,x.sock,x.ttmr,()⟩,.timerCreate x.ttmr::l)

/-! ### The session that receives a file -/

/-- `tftp_write_timer_cbk`. -/
def tftpWriteTimerCbk (pssen : Session WritePriv) (l : Log) : Fate WritePriv × Log :=
  let pssen := {pssen with priv := {pssen.priv with retry := pssen.priv.retry+1}}
  if 3 ≤ pssen.priv.retry then abandon pssen pssen.sock 200 "retry max" l
  else (.going pssen,.send pssen.sock (.ack pssen.priv.rsn)::l)

/-- `tftp_write_sock_cbk`; `iret` is what `pwrite` returns if it is called. -/
def tftpWriteSockCbk (sock : ℤ) (ipkt : Bytes) (iret : ℤ) (pssen : Session WritePriv) (l : Log) :
    Fate WritePriv × Log :=
  if ipkt.length < 4 then abandon pssen sock errorIllegalOp "small packet" l
  else
    let opcode := ntohs ipkt 0
    let nblk := ntohs ipkt 2
    if opcode ≠ opcodeData then (.closed,tftpCloseSession pssen l)
    else
      let pssen := {pssen with priv := {pssen.priv with retry := 0}}
      let l := .timerStart pssen.ttmr 10000 10000::l
      if nblk ≠ pssen.priv.rsn+1 then (.going pssen,.send sock (.ack pssen.priv.rsn)::l)
      else
        let dat := ipkt.drop 4
        -- a block that is not empty is counted before it is written
        let next := {pssen with priv := {pssen.priv with
          rsn := nblk,ofs := pssen.priv.ofs+UInt32.ofNat dat.length}}
        let written := .pwrite pssen.ffd dat iret::l
        if dat.length = 512 then
          if iret ≠ 0 then abandon next sock errorFull "write fail" written
          else (.going next,.send pssen.sock (.ack nblk)::written)
        else if 512 < dat.length then abandon pssen sock errorUnknownXfer "size beyond 512" l
        else if 0 < dat.length ∧ iret ≠ 0 then abandon next sock errorFull "write fail" written
        else
          let (pssen,l) := if 0 < dat.length then (next,written) else (pssen,l)
          (.closed,tftpCloseSession pssen (.send sock (.ack nblk)::.printf nblk pssen.priv.ofs::l))

/-! ### The session that sends a file -/

/-- `tftp_read_timer_cbk`. -/
def tftpReadTimerCbk (pssen : Session ReadPriv) (l : Log) : Fate ReadPriv × Log :=
  let pssen := {pssen with priv := {pssen.priv with retry := pssen.priv.retry+1}}
  if 3 ≤ pssen.priv.retry then abandon pssen pssen.sock 200 "retry max" l
  else (.going pssen,.send pssen.sock (.data pssen.priv.rsn (pssen.priv.tary.take pssen.priv.tlen.toNat))::l)

section Read

/-- `pread` of `tsiz` bytes: what it returns, what it puts into the buffer, and the file after it. -/
abbrev Pread (F : Type) := F → ℕ → ℤ × Bytes × F

variable {F : Type} (pread : Pread F)

/-- `tftp_read_sock_cbk`. -/
def tftpReadSockCbk (sock : ℤ) (ipkt : Bytes) (pssen : Session ReadPriv) (file : F) (l : Log) :
    F × Fate ReadPriv × Log :=
  if ipkt.length < 4 then (file,.going pssen,l)
  else if ntohs ipkt 0 ≠ opcodeAck then (file,abandon pssen sock errorUnknownXfer "type err" l)
  else
    let temp := ntohs ipkt 2
    if temp = pssen.priv.rsn then
      if pssen.priv.tlen < 512 then (file,.closed,tftpCloseSession pssen l)
      else
        let (iret,buf,file) := pread file 512
        let l := .pread pssen.ffd iret buf::l
        if iret < 0 then
          -- what follows is done to the closed session all the same
          (file,.misused,(abandon pssen sock errorAccess "io err" l).2)
        else
          let priv := {pssen.priv with
            tary := buf ++ pssen.priv.tary.drop buf.length,tlen := iret,rsn := pssen.priv.rsn+1}
          (file,.going {pssen with priv},
            .send sock (.data priv.rsn (priv.tary.take priv.tlen.toNat))::.timerStart pssen.ttmr 10000 10000::l)
    else if temp+1 = pssen.priv.rsn then
      (file,.going pssen,.send sock (.data pssen.priv.rsn (pssen.priv.tary.take pssen.priv.tlen.toNat))
        ::.timerStart pssen.ttmr 10000 10000::l)
    else (file,abandon pssen sock errorUnknownXfer "sn xxx" l)

/-! ### The server -/

def strnlen (s : Bytes) : ℕ := (s.takeWhile fun c => c ≠ 0).length

def octet : Bytes := [0x6f,0x63,0x74,0x65,0x74]

/-- The checks of a request: its opcode and the name of the file, or the code of the answer. -/
def parseRequest (ipkt : Bytes) : Except ℤ (UInt16 × Bytes) :=
  if ipkt.length < 4 then .error errorUndef.toNat
  else
    let opcode := ntohs ipkt 0
    if opcode ≠ opcodeWrq ∧ opcode ≠ opcodeRrq then .error errorIllegalOp.toNat
    else
      let pmsg := ipkt.drop 2
      let tlen := strnlen pmsg
      if pmsg.length ≤ tlen then .error 101
      else
        let popt := pmsg.drop (tlen+1)
        if popt.length < 2 then .error 102
        else if popt.length ≤ strnlen popt then .error 103
        else if popt.take (strnlen popt) ≠ octet then .error 105
        else .ok (opcode,pmsg.take tlen)

/-- What becomes of a request; `misused` when a session is used that there is not. -/
inductive Opened (F : Type)
  | refused
  | writing (pssen : Session WritePriv)
  | reading (pssen : Session ReadPriv) (file : F)
  | misused

/-- The end of `tftp_srv_sock_cbk`. -/
def refuse (sock : ℤ) (srcip : UInt32) (srcport : UInt16) (iret : ℤ) (l : Log) : Opened F × Log :=
  if iret ≠ 0 then (.refused,.sendTo sock srcip srcport (tftpBuildErrorPkt (UInt16.ofInt iret) none)::l)
  else (.refused,l)

/-- `tftp_srv_sock_cbk`; `file` is what the open function opens. -/
def tftpSrvSockCbk (x : Supply) (file : F) (sock : ℤ) (ipkt : Bytes) (srcip : UInt32) (srcport : UInt16) :
    Opened F × Log :=
  match parseRequest ipkt with
  | .error iret => refuse sock srcip srcport iret []
  | .ok (opcode,pmsg) =>
    if opcode = opcodeWrq then
      let l := [.wrqOpen pmsg x.ffd]
      if x.ffd < 0 then refuse sock srcip srcport (200-x.ffd) l
      else
        match tftpNewSession x srcip srcport l with
        | (iret,none,l) => if iret < 0 then refuse sock srcip srcport (200-iret) l else (.misused,l)
        | (_,some pssen,l) =>
          (.writing ⟨x.ffd,pssen.sock,pssen.ttmr,⟨0,0,0⟩⟩,
            .send pssen.sock (.ack 0)::.timerStart pssen.ttmr 10000 10000::l)
    else
      let l := [.rrqOpen pmsg x.ffd]
      if x.ffd < 0 then refuse sock srcip srcport (200-x.ffd) l
      else
        match tftpNewSession x srcip srcport l with
        | (iret,none,l) => if iret < 0 then refuse sock srcip srcport (200-iret) l else (.misused,l)
        | (_,some pssen,l) =>
          let (iret,buf,file) := pread file 512
          let l := .pread x.ffd iret buf::l
          let tary := buf ++ x.tary.drop buf.length
          if iret < 0 then
            refuse sock srcip srcport (300-iret)
              (tftpCloseSession ⟨x.ffd,pssen.sock,pssen.ttmr,()⟩ l)
          else
            (.reading ⟨x.ffd,pssen.sock,pssen.ttmr,⟨0,1,0,iret,tary⟩⟩ file,
              .send pssen.sock (.data 1 (tary.take iret.toNat))::.timerStart pssen.ttmr 10000 10000::l)

/-- A new session is there with its socket and its timer. -/
theorem tftpNewSession_some {x : Supply} {srcip : UInt32} {srcport : UInt16} {l l' : Log} {iret : ℤ}
    {pssen : Session Unit} (h : tftpNewSession x srcip srcport l = (iret,some pssen,l')) :
    pssen = ⟨-1,x.sock,x.ttmr,()⟩ ∧
      l' = .timerCreate x.ttmr::.udpConnect x.sock srcip srcport::.udpNew x.sock::.malloc::l := by
  unfold tftpNewSession at h
  split at h
  · simp at h
  · dsimp only at h
    split at h
    · simp at h
    · split at h
      · simp at h
      · simp only [Prod.mk.injEq,Option.some.injEq] at h
        exact ⟨h.2.1.symm,h.2.2.symm⟩

theorem refuse_refused (sock : ℤ) (srcip : UInt32) (srcport : UInt16) (iret : ℤ) (l : Log) :
    (refuse (F := F) sock srcip srcport iret l).1 = .refused := by
  unfold refuse
  split <;> rfl

section Server

variable {x : Supply} {file file' : F} {sock : ℤ} {ipkt : Bytes} {srcip : UInt32} {srcport : UInt16} {l : Log}

/-- What a request leads to, with the whole log when it is a session. -/
theorem tftpSrvSockCbk_cases {o : Opened F × Log}
    (h : tftpSrvSockCbk pread x file sock ipkt srcip srcport = o) :
    o.1 = .refused ∨ o.1 = .misused ∨
      (∃ fname, o = (.writing ⟨x.ffd,x.sock,x.ttmr,⟨0,0,0⟩⟩,
        [.send x.sock (.ack 0),.timerStart x.ttmr 10000 10000,.timerCreate x.ttmr,
          .udpConnect x.sock srcip srcport,.udpNew x.sock,.malloc,.wrqOpen fname x.ffd])) ∨
      ∃ fname iret buf file', pread file 512 = (iret,buf,file') ∧ 0 ≤ iret ∧
        o = (.reading ⟨x.ffd,x.sock,x.ttmr,⟨0,1,0,iret,buf ++ x.tary.drop buf.length⟩⟩ file',
          [.send x.sock (.data 1 ((buf ++ x.tary.drop buf.length).take iret.toNat)),
            .timerStart x.ttmr 10000 10000,.pread x.ffd iret buf,.timerCreate x.ttmr,
            .udpConnect x.sock srcip srcport,.udpNew x.sock,.malloc,.rrqOpen fname x.ffd]) := by
  subst h
  unfold tftpSrvSockCbk
  split
  · exact .inl (refuse_refused ..)
  · next opcode pmsg hreq =>
    split
    · dsimp only
      split
      · exact .inl (refuse_refused ..)
      · split
        · split
          · exact .inl (refuse_refused ..)
          · exact .inr (.inl rfl)
        · next iret ps l' hnew =>
          obtain ⟨rfl,rfl⟩ := tftpNewSession_some hnew
          exact .inr (.inr (.inl ⟨pmsg,rfl⟩))
    · dsimp only
      split
      · exact .inl (refuse_refused ..)
      · split
        · split
          · exact .inl (refuse_refused ..)
          · exact .inr (.inl rfl)
        · next iret ps l' hnew =>
          obtain ⟨rfl,rfl⟩ := tftpNewSession_some hnew
          split
          · exact .inl (refuse_refused ..)
          · next hneg => exact .inr (.inr (.inr ⟨pmsg,_,_,_,rfl,Int.not_lt.mp hneg,rfl⟩))

/-- How a session that receives a file begins. -/
theorem tftpSrvSockCbk_writing {pssen : Session WritePriv}
    (h : tftpSrvSockCbk pread x file sock ipkt srcip srcport = (.writing pssen,l)) :
    pssen = ⟨x.ffd,x.sock,x.ttmr,⟨0,0,0⟩⟩ ∧ ∃ fname,
      l = [.send x.sock (.ack 0),.timerStart x.ttmr 10000 10000,.timerCreate x.ttmr,
        .udpConnect x.sock srcip srcport,.udpNew x.sock,.malloc,.wrqOpen fname x.ffd] := by
  rcases tftpSrvSockCbk_cases pread h with hp | hp | ⟨fname,ho⟩ | ⟨fname,iret,buf,file',-,-,ho⟩
  · cases hp
  · cases hp
  · cases ho
    exact ⟨rfl,fname,rfl⟩
  · cases ho

/-- How a session that sends a file begins. -/
theorem tftpSrvSockCbk_reading {pssen : Session ReadPriv}
    (h : tftpSrvSockCbk pread x file sock ipkt srcip srcport = (.reading pssen file',l)) :
    ∃ fname iret buf, pread file 512 = (iret,buf,file') ∧ 0 ≤ iret ∧
      pssen = ⟨x.ffd,x.sock,x.ttmr,⟨0,1,0,iret,buf ++ x.tary.drop buf.length⟩⟩ ∧
      l = [.send x.sock (.data 1 ((buf ++ x.tary.drop buf.length).take iret.toNat)),.timerStart x.ttmr 10000 10000,
        .pread x.ffd iret buf,.timerCreate x.ttmr,.udpConnect x.sock srcip srcport,.udpNew x.sock,.malloc,
        .rrqOpen fname x.ffd] := by
  rcases tftpSrvSockCbk_cases pread h with hp | hp | ⟨fname,ho⟩ | ⟨fname,iret,buf,file'',hread,hiret,ho⟩
  · cases hp
  · cases hp
  · cases ho
  · cases ho
    exact ⟨fname,iret,buf,hread,hiret,rfl,rfl⟩

end Server

end Read

end Tftp
end Autbus
