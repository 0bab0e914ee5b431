import Autbus.Ledger
import Autbus.Tftp

/-! What a request of `tftp.c` takes until its session stands, and what is left of it when that
fails. The ports are those of `minip.c`: a bitmap of 128, whose functions are not part of the
repository. -/
namespace Autbus
namespace Setups

open Tftp Ledger

inductive Resource
  | file (ffd : ℤ)
  | session
  | port (idx : ℕ)
  | sock (sock : ℤ)
  | timer (ttmr : ℤ)
  deriving DecidableEq

/-- What a request comes by: the result of the open function, the memory of the session, the port
that `bitmap_ffs` finds, the memory of the socket and of the timer. -/
structure Means where
  ffd : ℤ
  mem : Bool
  tary : Bytes
  idx : Option (Fin 128)
  psock : Option ℤ
  ptqn : Option ℤ

/-- `minip_port_alloc`. -/
def minipPortAlloc (temp : Fin 128) : UInt16 × List (Event Resource) :=
  (UInt16.ofNat (temp+20000),[.take (.port temp)])

/-- `minip_port_free`. -/
def minipPortFree (spt : UInt16) : List (Event Resource) :=
  if spt < 20000 then [] else [.give (.port (spt-20000).toNat)]

/-- `minsock_udp_new(0)`: what it returns, the port of the socket, and what it does. -/
def minsockUdpNew (idx : Option (Fin 128)) (psock : Option ℤ) : ℤ × UInt16 × List (Event Resource) :=
  match idx with
  | none => (-8,0,[])
  | some temp =>
    let (srcport,es) := minipPortAlloc temp
    match psock with
    | none => (-1,0,minipPortFree srcport ++ es)
    | some psock => (psock,srcport,.take (.sock psock)::es)

/-- `minsock_udp_free` of a socket on `srcPort`. -/
def minsockUdpFree (srcPort : UInt16) (sock : ℤ) : List (Event Resource) :=
  .give (.sock sock)::minipPortFree srcPort

/-- `timer_create`. -/
def timerCreate (ptqn : Option ℤ) : ℤ := ptqn.getD (-1)

section Means

variable (x : Means)

def Means.supply : Supply := ⟨x.ffd,x.mem,x.tary,(minsockUdpNew x.idx x.psock).1,timerCreate x.ptqn⟩

/-- What an entry of the log does to the resources. The memory of a session is followed by
`minsock_udp_new`, whose own entry is missing when it fails. The socket that the error is sent on
is the one of the server. -/
def Means.did : Entry → List (Event Resource)
  | .wrqOpen _ iret | .rrqOpen _ iret => if 0 ≤ iret then [.take (.file iret)] else []
  | .malloc => (minsockUdpNew x.idx x.psock).2.2 ++ [.take .session]
  | .udpConnect sock _ _ | .send sock _ => [.use (.sock sock)]
  | .timerCreate ttmr => [.take (.timer ttmr)]
  | .timerStart ttmr _ _ => [.use (.timer ttmr)]
  | .pread ffd _ _ | .pwrite ffd _ _ => [.use (.file ffd)]
  | .pclose ffd => [.give (.file ffd)]
  | .timerDelete ttmr => [.give (.timer ttmr)]
  | .udpFree sock => minsockUdpFree (minsockUdpNew x.idx x.psock).2.1 sock
  | .free => [.give .session]
  | .recv _ | .expired | .sendTo _ _ _ _ | .udpNew _ | .printf _ _ => []

/-- The entry of the open function. -/
def Opens (e : Entry) : Prop := ∃ fname, e = .wrqOpen fname x.ffd ∨ e = .rrqOpen fname x.ffd

/-- The file is closed once if it was opened, and nothing else is left either. -/
structure Undone (l : Log) : Prop where
  closed : 0 ≤ x.ffd → ∀ e ∈ l, Opens x e → l.count (.pclose x.ffd) = 1
  settled : Settled (l.flatMap x.did)

/-- A request leaves a session, or everything is undone. -/
def CleansUp {F : Type} (o : Opened F × Log) : Prop :=
  match o.1 with
  | .writing _ | .reading _ _ => True
  | .refused => Undone x o.2
  | .misused => False

/-- Memory, socket and timer of the session are there. -/
def Equipped : Prop := x.mem = true ∧ 0 ≤ x.supply.sock ∧ 0 ≤ x.supply.ttmr

end Means

/-- The port given back is the one taken. -/
theorem minipPortFree_alloc (temp : Fin 128) : minipPortFree (minipPortAlloc temp).1 = [.give (.port temp)] := by
  revert temp
  decide

section Request

variable {F : Type} (pread : Pread F) (x : Means) (file : F) (sock : ℤ) (ipkt : Bytes) (srcip : UInt32)
  (srcport : UInt16)

/-- The request passes its checks. -/
def Read : Prop := ∃ r, parseRequest ipkt = .ok r

/-- What is in the log when the session stands. -/
def setUp (e : Entry) : Log :=
  [.timerCreate x.supply.ttmr,.udpConnect x.supply.sock srcip srcport,.udpNew x.supply.sock,.malloc,e]

/-- The ways a request goes. -/
inductive Outcome : Opened F × Log → Prop
  | unread (iret : ℤ) (hreq : parseRequest ipkt = .error iret) : Outcome (refuse sock srcip srcport iret [])
  | unopened (e : Entry) (iret : ℤ) (he : Opens x e) (hffd : x.ffd < 0) : Outcome (refuse sock srcip srcport iret [e])
  | noMem (e : Entry) (iret : ℤ) (he : Opens x e) (hreq : Read ipkt) (hffd : 0 ≤ x.ffd) (hmem : x.mem = false) :
    Outcome (refuse sock srcip srcport iret [e])
  | noSock (e : Entry) (iret : ℤ) (he : Opens x e) (hreq : Read ipkt) (hffd : 0 ≤ x.ffd)
      (hsock : x.supply.sock < 0) :
    Outcome (refuse sock srcip srcport iret [.free,.malloc,e])
  | noTimer (l : Log) (hreq : Read ipkt) (hffd : 0 ≤ x.ffd) (httmr : x.supply.ttmr < 0) : Outcome (.misused,l)
  | writing (pssen : Session WritePriv) (l : Log) (hready : Equipped x) : Outcome (.writing pssen,l)
  | reading (pssen : Session ReadPriv) (file : F) (l : Log) (hready : Equipped x) : Outcome (.reading pssen file,l)
  | noData (e : Entry) (iret err : ℤ) (buf : Bytes) (he : Opens x e) (hffd : 0 ≤ x.ffd) (hready : Equipped x) :
    Outcome (refuse sock srcip srcport err (.free::.udpFree x.supply.sock::.timerDelete x.supply.ttmr::
      .pclose x.ffd::.pread x.ffd iret buf::setUp x srcip srcport e))

variable {x sock ipkt srcip srcport} {o : Opened F × Log}

/-- A session that is not made: for want of memory, of a socket or of a timer. -/
theorem tftpNewSession_none {l l' : Log} {iret : ℤ}
    (h : tftpNewSession x.supply srcip srcport l = (iret,none,l')) :
    x.mem = false ∧ iret < 0 ∧ l' = l ∨ x.supply.sock < 0 ∧ iret < 0 ∧ l' = .free::.malloc::l ∨
      x.supply.ttmr < 0 ∧ 0 ≤ iret := by
  unfold tftpNewSession at h
  split at h
  · next hmem =>
    obtain ⟨rfl,-,rfl⟩ := by simpa only [Prod.mk.injEq] using h
    exact .inl ⟨Bool.eq_false_iff.mpr hmem,by decide,rfl⟩
  · dsimp only at h
    split at h
    · next hsock =>
      obtain ⟨rfl,-,rfl⟩ := by simpa only [Prod.mk.injEq] using h
      refine .inr (.inl ⟨hsock,by decide,?_⟩)
      unfold tftpCloseSession release
      dsimp only
      rw [if_neg (Int.not_le.mpr hsock)]
      rfl
    · split at h
      · next httmr =>
        obtain ⟨rfl,-⟩ := by simpa only [Prod.mk.injEq] using h
        exact .inr (.inr ⟨httmr,by decide⟩)
      · simp at h

/-- A session that is made has all it needs. -/
theorem tftpNewSession_equipped {l l' : Log} {iret : ℤ} {pssen : Session Unit}
    (h : tftpNewSession x.supply srcip srcport l = (iret,some pssen,l')) : Equipped x := by
  unfold tftpNewSession at h
  split at h
  · simp at h
  · next hmem =>
    dsimp only at h
    split at h
    · simp at h
    · next hsock =>
      split at h
      · simp at h
      · next httmr => exact ⟨not_not.mp hmem,Int.not_lt.mp hsock,Int.not_lt.mp httmr⟩

/-- With the file open, but no session: without a timer the code of the failure is positive, and the
request goes on. -/
theorem Outcome.of_none {e : Entry} {l : Log} {iret : ℤ} (he : Opens x e) (hreq : Read ipkt) (hffd : 0 ≤ x.ffd)
    (h : tftpNewSession x.supply srcip srcport [e] = (iret,none,l)) :
    Outcome (F := F) x sock ipkt srcip srcport
      (if iret < 0 then refuse sock srcip srcport (200-iret) l else (.misused,l)) := by
  rcases tftpNewSession_none h with ⟨hmem,hneg,rfl⟩ | ⟨hsock,hneg,rfl⟩ | ⟨httmr,hpos⟩
  · rw [if_pos hneg]
    exact .noMem e _ he hreq hffd hmem
  · rw [if_pos hneg]
    exact .noSock e _ he hreq hffd hsock
  · rw [if_neg (Int.not_lt.mpr hpos)]
    exact .noTimer l hreq hffd httmr

theorem tftpSrvSockCbk_outcome :
    Outcome x sock ipkt srcip srcport (tftpSrvSockCbk pread x.supply file sock ipkt srcip srcport) := by
  unfold tftpSrvSockCbk
  split
  · next hreq => exact .unread _ hreq
  · next opcode pmsg hreq =>
    have hreq : Read ipkt := ⟨_,hreq⟩
    split
    · have he : Opens x (.wrqOpen pmsg x.ffd) := ⟨pmsg,.inl rfl⟩
      dsimp only
      split
      · next hffd => exact .unopened _ _ he hffd
      · next hffd =>
        have hffd := Int.not_lt.mp hffd
        split
        · next hnew => exact .of_none he hreq hffd hnew
        · next hnew => exact .writing _ _ (tftpNewSession_equipped hnew)
    · have he : Opens x (.rrqOpen pmsg x.ffd) := ⟨pmsg,.inr rfl⟩
      dsimp only
      split
      · next hffd => exact .unopened _ _ he hffd
      · next hffd =>
        have hffd := Int.not_lt.mp hffd
        split
        · next hnew => exact .of_none he hreq hffd hnew
        · next hnew =>
          have hready := tftpNewSession_equipped hnew
          obtain ⟨rfl,rfl⟩ := tftpNewSession_some hnew
          split
          · next hiret =>
            unfold tftpCloseSession release
            dsimp only
            rw [if_pos hffd,if_pos hready.2.2,if_pos hready.2.1]
            exact .noData _ _ _ _ he hffd hready
          · exact .reading _ _ _ hready

/-! ### What is left -/

/-- The answer does nothing to what the request has taken. -/
theorem refuse_same {β : Type*} (f : Log → β)
    (hf : ∀ dstip dstport pkt l, f (.sendTo sock dstip dstport pkt::l) = f l) (iret : ℤ) (l : Log) :
    f (refuse (F := F) sock srcip srcport iret l).2 = f l := by
  unfold refuse
  split
  · exact hf _ _ _ l
  · rfl

theorem undone_sendTo {dstip : UInt32} {dstport : UInt16} {pkt : Pkt} {l : Log} :
    Undone x (.sendTo sock dstip dstport pkt::l) ↔ Undone x l := by
  have hcount : (Entry.sendTo sock dstip dstport pkt::l).count (.pclose x.ffd) = l.count (.pclose x.ffd) :=
    List.count_cons_of_ne (by simp)
  constructor
  · rintro ⟨hclosed,hsettled⟩
    refine ⟨fun hffd e he hopens => ?_,hsettled⟩
    rw [← hcount]
    exact hclosed hffd e (List.mem_cons_of_mem _ he) hopens
  · rintro ⟨hclosed,hsettled⟩
    refine ⟨fun hffd e he hopens => ?_,hsettled⟩
    rw [hcount]
    rcases List.mem_cons.mp he with rfl | he
    · obtain ⟨fname,heq | heq⟩ := hopens <;> cases heq
    · exact hclosed hffd e he hopens

theorem cleansUp_refuse (iret : ℤ) (l : Log) :
    CleansUp x (refuse (F := F) sock srcip srcport iret l) ↔ Undone x l := by
  unfold CleansUp
  rw [refuse_refused]
  exact iff_of_eq (refuse_same (Undone x) (fun _ _ _ _ => propext undone_sendTo) iret l)

/-- What a file was opened as. -/
def opened (ffd : ℤ) : Entry → Bool
  | .wrqOpen _ iret | .rrqOpen _ iret => iret = ffd
  | _ => false

/-- Sockets and ports are no files. -/
theorem not_mem_minipPortFree {spt : UInt16} {ffd : ℤ} :
    .take (.file ffd) ∉ minipPortFree spt ∧ .give (.file ffd) ∉ minipPortFree spt := by
  unfold minipPortFree
  split <;> simp

theorem not_mem_minsockUdpNew {idx : Option (Fin 128)} {psock : Option ℤ} {ffd : ℤ} :
    .take (.file ffd) ∉ (minsockUdpNew idx psock).2.2 ∧ .give (.file ffd) ∉ (minsockUdpNew idx psock).2.2 := by
  unfold minsockUdpNew
  split
  · simp
  · cases psock with
    | none => simp [minipPortAlloc,not_mem_minipPortFree]
    | some sock => simp [minipPortAlloc]

theorem count_did_take {ffd : ℤ} (hffd : 0 ≤ ffd) (l : Log) :
    (l.flatMap x.did).count (.take (.file ffd)) = l.countP (opened ffd) := by
  have hopen : ∀ iret : ℤ, (if 0 ≤ iret then [Event.take (Resource.file iret)] else []).count (.take (.file ffd)) =
      if iret = ffd then 1 else 0 := by
    intro iret
    by_cases heq : iret = ffd
    · rw [heq,if_pos hffd,if_pos rfl,List.count_singleton_self]
    · rw [if_neg heq,List.count_eq_zero]
      split <;> simp [Ne.symm heq]
  induction l with
  | nil => rfl
  | cons e l ih =>
    rw [List.flatMap_cons,List.count_append,ih,List.countP_cons,Nat.add_comm]
    congr 1
    cases e with
    | wrqOpen fname iret | rrqOpen fname iret => exact (hopen iret).trans (by simp [opened])
    | malloc => exact List.count_eq_zero.mpr (by simp [Means.did,not_mem_minsockUdpNew])
    | udpFree sock => exact List.count_eq_zero.mpr (by simp [Means.did,minsockUdpFree,not_mem_minipPortFree])
    | _ => rfl

theorem count_did_give (ffd : ℤ) (l : Log) :
    (l.flatMap x.did).count (.give (.file ffd)) = l.count (.pclose ffd) := by
  induction l with
  | nil => rfl
  | cons e l ih =>
    rw [List.flatMap_cons,List.count_append,ih,List.count_cons,Nat.add_comm]
    congr 1
    cases e with
    | wrqOpen fname iret | rrqOpen fname iret =>
      refine List.count_eq_zero.mpr ?_
      dsimp only [Means.did]
      split <;> simp
    | malloc => exact List.count_eq_zero.mpr (by simp [Means.did,not_mem_minsockUdpNew])
    | udpFree sock => exact List.count_eq_zero.mpr (by simp [Means.did,minsockUdpFree,not_mem_minipPortFree])
    | pclose ffd' => simp [Means.did,List.count_singleton]
    | _ => rfl

/-- What is settled has every file closed as often as it was opened. -/
theorem closed_as_opened {ffd : ℤ} {l : Log} (h : Settled (l.flatMap x.did)) (hffd : 0 ≤ ffd) :
    l.count (.pclose ffd) = l.countP (opened ffd) := by
  rw [← count_did_give (x := x),h.count,count_did_take hffd]

/-- A socket there is has its port. -/
theorem Equipped.minsockUdpNew (h : Equipped x) :
    ∃ temp, minsockUdpNew x.idx x.psock =
      (x.supply.sock,(minipPortAlloc temp).1,[.take (.sock x.supply.sock),.take (.port temp)]) := by
  have hsock : 0 ≤ (Setups.minsockUdpNew x.idx x.psock).1 := h.2.1
  unfold Means.supply
  dsimp only
  unfold Setups.minsockUdpNew at hsock ⊢
  cases hidx : x.idx with
  | none =>
    rw [hidx] at hsock
    exact absurd hsock (by simp)
  | some temp =>
    cases hpsock : x.psock with
    | none =>
      rw [hidx,hpsock] at hsock
      exact absurd hsock (by simp)
    | some psock => exact ⟨temp,rfl⟩

theorem did_opens {e : Entry} (he : Opens x e) (hffd : 0 ≤ x.ffd) : x.did e = [.take (.file x.ffd)] := by
  obtain ⟨fname,rfl | rfl⟩ := he <;> exact if_pos hffd

/-- What is held when the session stands, and is given back by closing it. -/
theorem undone_noData {e : Entry} {iret : ℤ} {buf : Bytes} (he : Opens x e) (hffd : 0 ≤ x.ffd) (h : Equipped x) :
    Undone x (.free::.udpFree x.supply.sock::.timerDelete x.supply.ttmr::.pclose x.ffd::.pread x.ffd iret buf::
      setUp x srcip srcport e) := by
  obtain ⟨temp,hsock⟩ := h.minsockUdpNew
  have hopen := did_opens he hffd
  have hsettled : Settled ((.free::.udpFree x.supply.sock::.timerDelete x.supply.ttmr::.pclose x.ffd::
      .pread x.ffd iret buf::setUp x srcip srcport e).flatMap x.did) := by
    have hup : (setUp x srcip srcport e).flatMap x.did = [.take (.timer x.supply.ttmr),.use (.sock x.supply.sock),
        .take (.sock x.supply.sock),.take (.port temp),.take .session,.take (.file x.ffd)] := by
      simp only [setUp,List.flatMap_cons,List.flatMap_nil,hopen]
      simp [Means.did,hsock]
    simp only [List.flatMap_cons,hup]
    simp [Means.did,hsock,minsockUdpFree,minipPortFree_alloc,Settled,held,hold]
  refine ⟨fun _ _ _ _ => ?_,hsettled⟩
  rw [closed_as_opened hsettled hffd]
  obtain ⟨fname,rfl | rfl⟩ := he <;> simp [setUp,opened]

theorem did_refuse (iret : ℤ) (l : Log) :
    (refuse (F := F) sock srcip srcport iret l).2.flatMap x.did = l.flatMap x.did :=
  refuse_same (List.flatMap x.did) (fun _ _ _ _ => rfl) iret l

/-- A socket that is not made leaves no port behind. -/
theorem held_minsockUdpNew_neg {idx : Option (Fin 128)} {psock : Option ℤ} (hpsock : ∀ a, psock = some a → 0 ≤ a)
    (hneg : (minsockUdpNew idx psock).1 < 0) {l : List (Event Resource)} {s : List Resource} (hl : held l = some s)
    (hno : ∀ temp, .port temp ∉ s) : held ((minsockUdpNew idx psock).2.2 ++ l) = some s := by
  unfold minsockUdpNew at hneg ⊢
  cases idx with
  | none => exact hl
  | some temp =>
    cases psock with
    | none =>
      dsimp only
      rw [minipPortFree_alloc]
      have htake := held_take hl (hno temp)
      exact (held_give htake List.mem_cons_self).trans (by simp)
    | some psock => exact absurd (hpsock psock rfl) (Int.not_le.mpr hneg)

/-- Whatever a request is refused for, at most its file is left, as long as no socket has a negative
address. -/
theorem refused_leaves (h : Outcome x sock ipkt srcip srcport o) (hrefused : o.1 = .refused)
    (hpsock : ∀ psock, x.psock = some psock → 0 ≤ psock) :
    ∃ s, held (o.2.flatMap x.did) = some s ∧ ∀ r ∈ s, r = .file x.ffd := by
  cases h with
  | unread iret hreq =>
    rw [did_refuse]
    exact ⟨[],rfl,by simp⟩
  | unopened e iret he hffd =>
    rw [did_refuse]
    refine ⟨[],?_,by simp⟩
    obtain ⟨fname,rfl | rfl⟩ := he <;> simp [Means.did,Int.not_le.mpr hffd,held]
  | noMem e iret he hreq hffd hmem =>
    rw [did_refuse]
    refine ⟨[.file x.ffd],?_,by simp⟩
    simp [did_opens he hffd,held,hold]
  | noSock e iret he hreq hffd hsock =>
    rw [did_refuse]
    refine ⟨[.file x.ffd],?_,by simp⟩
    simp only [List.flatMap_cons,List.flatMap_nil,List.append_nil,did_opens he hffd]
    have hmem : held [.take .session,.take (.file x.ffd)] = some [Resource.session,.file x.ffd] := rfl
    have hnew := held_minsockUdpNew_neg hpsock hsock hmem (by simp)
    simp only [Means.did,List.append_assoc,List.singleton_append]
    exact (held_give hnew List.mem_cons_self).trans (by simp)
  | noTimer l hreq hffd httmr => cases hrefused
  | writing pssen l hready => cases hrefused
  | reading pssen file l hready => cases hrefused
  | noData e iret err buf he hffd hready =>
    rw [did_refuse]
    exact ⟨[],(undone_noData he hffd hready).settled,by simp⟩

/-- An open file that is not closed. -/
theorem not_undone {e : Entry} {l : Log} (he : Opens x e) (hffd : 0 ≤ x.ffd) (hmem : e ∈ l)
    (hno : ∀ e' ∈ l, e' ≠ e → e' ≠ .pclose x.ffd) : ¬Undone x l := by
  intro hundone
  have hclosed : .pclose x.ffd ∈ l := List.count_pos_iff.mp (by rw [hundone.closed hffd e hmem he]; decide)
  refine hno _ hclosed (fun heq => ?_) rfl
  obtain ⟨fname,rfl | rfl⟩ := he <;> cases heq

/-- The request leaves a session or nothing at all just when memory, socket and timer are there,
or it opens no file. -/
theorem tftpSrvSockCbk_cleansUp_iff :
    CleansUp x (tftpSrvSockCbk pread x.supply file sock ipkt srcip srcport) ↔
      (∀ r, parseRequest ipkt = .ok r → 0 ≤ x.ffd → Equipped x) := by
  have h : Outcome x sock ipkt srcip srcport (tftpSrvSockCbk pread x.supply file sock ipkt srcip srcport) :=
    tftpSrvSockCbk_outcome pread file
  revert h
  generalize tftpSrvSockCbk pread x.supply file sock ipkt srcip srcport = o
  intro h
  cases h with
  | unread iret hreq =>
    rw [cleansUp_refuse]
    refine iff_of_true ⟨fun _ e he => absurd he List.not_mem_nil,rfl⟩ fun r hr => ?_
    rw [hreq] at hr
    cases hr
  | unopened e iret he hffd =>
    rw [cleansUp_refuse]
    have hneg := Int.not_le.mpr hffd
    refine iff_of_true ⟨fun hpos => absurd hpos hneg,?_⟩ fun _ _ hpos => absurd hpos hneg
    obtain ⟨fname,rfl | rfl⟩ := he <;> simp [Means.did,hneg,Settled,held]
  | noMem e iret he hreq hffd hmem =>
    rw [cleansUp_refuse]
    refine iff_of_false (not_undone he hffd (List.mem_singleton_self e) (by simp)) fun h => ?_
    obtain ⟨r,hr⟩ := hreq
    have := (h r hr hffd).1
    rw [hmem] at this
    cases this
  | noSock e iret he hreq hffd hsock =>
    rw [cleansUp_refuse]
    refine iff_of_false (not_undone he hffd (by simp) (by simp)) fun h => ?_
    obtain ⟨r,hr⟩ := hreq
    exact absurd (h r hr hffd).2.1 (Int.not_le.mpr hsock)
  | noTimer l hreq hffd httmr =>
    refine iff_of_false not_false fun h => ?_
    obtain ⟨r,hr⟩ := hreq
    exact absurd (h r hr hffd).2.2 (Int.not_le.mpr httmr)
  | writing pssen l hready => exact iff_of_true trivial fun _ _ _ => hready
  | reading pssen file l hready => exact iff_of_true trivial fun _ _ _ => hready
  | noData e iret err buf he hffd hready =>
    rw [cleansUp_refuse]
    exact iff_of_true (undone_noData he hffd hready) fun _ _ _ => hready

end Request

/-- A request to write "upgrade.bin". -/
def upgrade : Bytes :=
  [0,2,0x75,0x70,0x67,0x72,0x61,0x64,0x65,0x2e,0x62,0x69,0x6e,0,0x6f,0x63,0x74,0x65,0x74,0]

/-- Everything is there for it, but for the memory of the session, or of the timer. -/
def noMem : Means := ⟨1,false,[],some 0,some 5,some 7⟩

def noTimer : Means := ⟨1,true,[],some 0,some 5,none⟩

/-- An empty file. -/
def empty : Pread Unit := fun _ _ => (0,[],())

/-- Without memory the file stays open, and without a timer a session is used that there is not. -/
theorem upgrade_not_cleansUp :
    ¬CleansUp noMem (tftpSrvSockCbk empty noMem.supply () 3 upgrade 9 69) ∧
      ¬CleansUp noTimer (tftpSrvSockCbk empty noTimer.supply () 3 upgrade 9 69) := by
  constructor
  · intro h
    have hone := h.closed (by decide) (.wrqOpen (upgrade.extract 2 13) 1) (by decide) ⟨_,.inl rfl⟩
    exact absurd hone (by decide)
  · exact not_false

end Setups
end Autbus
