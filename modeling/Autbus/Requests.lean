import Autbus.SrvRpc
import Autbus.Timers

/-! The requester's side of `sysrpc.c`. A request is known by its number, in the order in which
they were created. It ends in one of two places, the input of a response and the callback of
its own timer, where the timer is not deleted before the callback has returned. -/
namespace Autbus
namespace Requests

open Timers (Queue Call Wf Timer Same)
open SrvRpc (Bytes RpcHdr Send accepted respondBit)

/-- What a timer calls: `rqc_request_tout` for a request, or something else. -/
inductive Cbk
  | request (preq : ℕ)
  | other
  deriving DecidableEq

/-- `rpc_req_t`; `pmsg` is the copy of the message, `tid` the timer of a request that was sent. -/
structure Req where
  dstnd : UInt8
  srvid : BitVec 32
  sessn : BitVec 32
  retry : ℤ
  tmout : UInt32
  pmsg : Option Bytes
  tid : Option ℕ
  deriving DecidableEq

/-- A packet of `rpc_make_request`. -/
structure Packet where
  dnode : UInt8
  hdr : RpcHdr
  msg : Bytes
  deriving DecidableEq

/-- What happened to a request: `rpc_request_send` took it, a packet got out or did not, its
timer fired, its callback was called and returned `ret`. The callback of a timeout gets `(0,NULL)`. -/
inductive Entry
  | sent (preq : ℕ) (retry : ℤ)
  | tx (preq : ℕ) (pkt : Packet)
  | unsent (preq : ℕ)
  | expired (preq : ℕ)
  | called (preq : ℕ) (resp : Option (BitVec 16 × Bytes)) (ret : ℤ)
  deriving DecidableEq

/-- The requests, with what happened so far, the newest first. -/
structure Rpc where
  reqs : ℕ → Option Req
  reqList : List ℕ
  reqSessn : BitVec 32
  created : ℕ
  log : List Entry

abbrev Sys := Queue Cbk × Rpc

namespace Rpc

def put (r : Rpc) (preq : ℕ) (p : Req) : Rpc := {r with reqs := Function.update r.reqs preq (some p)}

def note (r : Rpc) (e : Entry) : Rpc := {r with log := e::r.log}

/-- What came of a packet. -/
def transmit (r : Rpc) (preq : ℕ) : Option Packet → Rpc
  | some pkt => r.note (.tx preq pkt)
  | none => r.note (.unsent preq)

end Rpc

/-- After `rpc_init` and `timer_queue_init`. -/
def init : Sys := (Timers.init,⟨fun _ => none,[],0,0,[]⟩)

/-- `rpc_request_create`, with its defaults. -/
def rpcRequestCreate (r : Rpc) (dnode : UInt8) (srvid : BitVec 32) : Rpc :=
  {r.put r.created ⟨dnode,srvid,r.reqSessn,3,1000000,none,none⟩ with
    reqSessn := r.reqSessn+1,created := r.created+1}

/-- `rpc_request_set_retry`, before the request is sent. -/
def rpcRequestSetRetry (r : Rpc) (req : ℕ) (retry : ℤ) (tmout : UInt32) : Option Rpc :=
  match r.reqs req with
  | none => none
  | some preq => if preq.tid.isSome then none else some (r.put req {preq with retry := retry,tmout := tmout})

/-- `rpc_make_request`: the return code and the packet that got out. -/
def rpcMakeRequest (net : Send) (preq : Req) : ℕ × Option Packet :=
  match net with
  | .noPkt => (1,none)
  | .notSent => (2,none)
  | .sent =>
    let msg := preq.pmsg.getD []
    (0,some ⟨preq.dstnd,⟨preq.srvid,preq.sessn,0,BitVec.ofNat 16 msg.length⟩,msg⟩)

/-- `rpc_delete_request`. -/
def rpcDeleteRequest (req : ℕ) (s : Sys) : Option Sys :=
  match (s.2.reqs req).bind Req.tid with
  | none => none
  | some tid =>
    (Timers.timerDelete s.1 tid).map fun q =>
      (q,{s.2 with reqs := Function.update s.2.reqs req none,reqList := s.2.reqList.erase req})

/-- `rpc_request_send`, once for a request, with its return code. `mem` tells whether there is
memory for the message, `block` is the timer that it gets. -/
def rpcRequestSend (req : ℕ) (pmsg : Bytes) (mem : Bool) (net : Send) (block : Option ℕ) (now : UInt64)
    (s : Sys) : Option (ℕ × Sys) :=
  match s.2.reqs req with
  | none => none
  | some preq =>
    if preq.tid.isSome then none
    else if ¬mem then some (2,s.1,s.2.put req {preq with pmsg := none})
    else
      let preq := {preq with pmsg := some pmsg}
      let (iret,pkt) := rpcMakeRequest net preq
      let r := (s.2.put req preq).transmit req pkt
      if iret ≠ 0 then some (3,s.1,r)
      else
        match block with
        | none => none
        | some tid =>
          let r := {r.note (.sent req preq.retry) with reqList := req::r.reqList}
          (Timers.timerCreate s.1 (some tid) (.request req)).bind fun q =>
            (Timers.timerStart q tid now preq.tmout 0).map fun q => (0,q,r.put req {preq with tid := some tid})

/-- What callbacks and the rest of the program do here. The timer of a request is known to the
request only. -/
inductive Act
  | create (dnode : UInt8) (srvid : BitVec 32)
  | setRetry (req : ℕ) (retry : ℤ) (tmout : UInt32)
  | send (req : ℕ) (pmsg : Bytes) (mem : Bool) (net : Send) (block : Option ℕ) (now : UInt64)
  | timer (c : Call Cbk)

/-- The call is about a timer that belongs to no request. -/
def Foreign (q : Queue Cbk) : Call Cbk → Prop
  | .create _ cbkf => cbkf = .other
  | .start tid _ _ _ => (q.heap tid).map Timer.cbkf = some .other
  | .stop tid => (q.heap tid).map Timer.cbkf = some .other
  | .delete tid => (q.heap tid).map Timer.cbkf = some .other

instance (q : Queue Cbk) (c : Call Cbk) : Decidable (Foreign q c) := by
  cases c <;> unfold Foreign <;> infer_instance

def Act.run (s : Sys) : Act → Option Sys
  | .create dnode srvid => some (s.1,rpcRequestCreate s.2 dnode srvid)
  | .setRetry req retry tmout => (rpcRequestSetRetry s.2 req retry tmout).map fun r => (s.1,r)
  | .send req pmsg mem net block now => (rpcRequestSend req pmsg mem net block now s).map Prod.snd
  | .timer c => if Foreign s.1 c then (c.run s.1).map fun q => (q,s.2) else none

def acts : List Act → Sys → Option Sys
  | [],s => some s
  | a::as,s => (a.run s).bind (acts as)

/-- What a callback does and returns. The callback of a request's timer also learns whether its
packet gets out and what it reads from `fd_timer`. -/
structure Script where
  acts : List Act
  ret : ℤ
  net : Send
  now : UInt64

/-- The end of `rqc_request_tout`, in both of its failing branches. -/
def giveUp (req : ℕ) (x : Script) (s : Sys) : Option Sys :=
  (acts x.acts (s.1,s.2.note (.called req none x.ret))).bind (rpcDeleteRequest req)

/-- `rqc_request_tout`. -/
def rqcRequestTout (req : ℕ) (x : Script) (s : Sys) : Option Sys :=
  match s.2.reqs req with
  | none => none
  | some preq =>
    let preq := {preq with retry := preq.retry-1}
    let r := (s.2.put req preq).note (.expired req)
    if preq.retry < 0 then giveUp req x (s.1,r)
    else
      let (iret,pkt) := rpcMakeRequest x.net preq
      let r := r.transmit req pkt
      if iret ≠ 0 then giveUp req x (s.1,r)
      else
        match preq.tid with
        | none => none
        | some tid => (Timers.timerStart s.1 tid x.now preq.tmout 0).map fun q => (q,r)

/-- What a timer calls. -/
def Cbk.run : Cbk → ℕ → Script → Sys → Option Sys
  | .request req,_,x,s => rqcRequestTout req x s
  | .other,_,x,s => Requests.acts x.acts s

/-- `rpc_req_search` in `req_list`. -/
def rpcReqSearch (r : Rpc) (srvid sessn : BitVec 32) : Option ℕ :=
  r.reqList.find? fun req => (r.reqs req).any fun preq => preq.srvid = srvid ∧ preq.sessn = sessn

/-- One round of `rpc_proc_input`. A request is answered by a service, which acts here too. -/
def rpcProcInput (tnd : UInt8) (ipkt : Bytes) (x : Script) (s : Sys) : Option Sys :=
  match accepted tnd ipkt with
  | none => some s
  | some (_,phdr,msg) =>
    if phdr.srvid &&& respondBit = 0#32 then Requests.acts x.acts s
    else
      match rpcReqSearch s.2 (phdr.srvid &&& 0x7FFFFFFF#32) phdr.sessn with
      | none => some s
      | some preq =>
        (Requests.acts x.acts (s.1,s.2.note (.called preq (some (phdr.msglen,msg)) x.ret))).bind fun s =>
          if x.ret = 0 then rpcDeleteRequest preq s else some s

inductive Event
  | act (a : Act)
  | input (tnd : UInt8) (ipkt : Bytes) (x : Script)
  | queueEvent (curr : UInt64) (xs : List Script)

def step (s : Sys) : Event → Option Sys
  | .act a => a.run s
  | .input tnd ipkt x => rpcProcInput tnd ipkt x s
  | .queueEvent curr xs => Timers.eventLoop Cbk.run curr xs s

/-! ### The life of a request, as the log tells it -/

/-- The entry is about the request. -/
def Entry.preq : Entry → ℕ
  | .sent preq _ => preq
  | .tx preq _ => preq
  | .unsent preq => preq
  | .expired preq => preq
  | .called preq _ _ => preq

/-- Where the request is after that many timeouts. -/
inductive Phase
  | pending (x : ℕ)
  | done (x : ℕ)

/-- The entries of a request sent with `retry`, among those of others. -/
inductive Story (req : ℕ) (retry : ℤ) : List Entry → Phase → Prop
  | sent {l pkt} : (∀ e ∈ l, e.preq = req → e = .unsent req) →
      Story req retry (.sent req retry::.tx req pkt::l) (.pending 0)
  | other {l ph e} : Story req retry l ph → e.preq ≠ req → Story req retry (e::l) ph
  | kept {l x resp ret} : Story req retry l (.pending x) → ret ≠ 0 →
      Story req retry (.called req (some resp) ret::l) (.pending x)
  | again {l x pkt} : Story req retry l (.pending x) → x < retry →
      Story req retry (.tx req pkt::.expired req::l) (.pending (x+1))
  | answered {l x resp} : Story req retry l (.pending x) →
      Story req retry (.called req (some resp) 0::l) (.done x)
  | timedOut {l x ret} : Story req retry l (.pending x) → retry ≤ x →
      Story req retry (.called req none ret::.expired req::l) (.done (x+1))
  | dropped {l x ret} : Story req retry l (.pending x) → x < retry →
      Story req retry (.called req none ret::.unsent req::.expired req::l) (.done (x+1))

/-- How often the request went out. -/
def transmissions (req : ℕ) (l : List Entry) : ℕ := l.countP fun e => match e with
  | .tx preq _ => preq = req
  | _ => false

/-- How often its timer fired. -/
def expiries (req : ℕ) (l : List Entry) : ℕ := l.count (.expired req)

/-- What its callback was called with, the last call first. -/
def callsOf (req : ℕ) (l : List Entry) : List (Option (BitVec 16 × Bytes)) := l.filterMap fun e => match e with
  | .called preq resp _ => if preq = req then some resp else none
  | _ => none

/-- The callback of the request has returned 0 on a response, or the timeout call was made. -/
def Closing (req : ℕ) (e : Entry) : Prop := (∃ resp, e = .called req (some resp) 0) ∨ ∃ ret, e = .called req none ret

section Counts

variable {req : ℕ} {l : List Entry} {e : Entry}

theorem transmissions_of_ne (h : e.preq ≠ req) : transmissions req (e::l) = transmissions req l := by
  cases e <;> simp_all [transmissions,Entry.preq]

theorem expiries_of_ne (h : e.preq ≠ req) : expiries req (e::l) = expiries req l := by
  refine List.count_cons_of_ne ?_
  rintro rfl
  exact h rfl

theorem callsOf_of_ne (h : e.preq ≠ req) : callsOf req (e::l) = callsOf req l := by
  cases e <;> simp_all [callsOf,Entry.preq]

theorem transmissions_silent (h : ∀ e ∈ l, e.preq = req → e = .unsent req) : transmissions req l = 0 := by
  refine List.countP_eq_zero.mpr fun e he htx => ?_
  cases e with
  | tx preq pkt => exact absurd (h _ he (of_decide_eq_true htx)) (by simp)
  | _ => simp at htx

theorem expiries_silent (h : ∀ e ∈ l, e.preq = req → e = .unsent req) : expiries req l = 0 :=
  List.count_eq_zero.mpr fun hmem => absurd (h _ hmem rfl) (by simp)

theorem callsOf_silent (h : ∀ e ∈ l, e.preq = req → e = .unsent req) : callsOf req l = [] := by
  refine List.filterMap_eq_nil_iff.mpr fun e he => ?_
  cases e with
  | called preq resp ret =>
    by_cases heq : preq = req
    · exact absurd (h _ he heq) (by simp)
    · simp [heq]
  | _ => rfl

end Counts

def Phase.expiries : Phase → ℕ
  | .pending x => x
  | .done x => x

/-- No response of the request reached its callback. -/
def Unanswered (req : ℕ) (l : List Entry) : Prop := ∀ resp ret, .called req (some resp) ret ∉ l

namespace Story

variable {req : ℕ} {retry : ℤ} {l : List Entry} {ph : Phase}

theorem retry_eq (h : Story req retry l ph) {r : ℤ} (hr : .sent req r ∈ l) : r = retry := by
  induction h with
  | sent hl =>
    rcases List.mem_cons.mp hr with heq | hr
    · exact (Entry.sent.inj heq).2
    · have hr := (List.mem_cons.mp hr).resolve_left (by simp)
      exact absurd (hl _ hr rfl) (by simp)
  | other _ hne ih =>
    rcases List.mem_cons.mp hr with rfl | hr
    · exact absurd rfl hne
    · exact ih hr
  | _ =>
    rename_i ih
    exact ih (by simpa using hr)

theorem expiries_eq (h : Story req retry l ph) : Requests.expiries req l = ph.expiries := by
  induction h with
  | sent hl => simpa [Requests.expiries,Phase.expiries] using expiries_silent hl
  | other _ hne ih => rw [expiries_of_ne hne,ih]
  | _ =>
    rename_i ih
    simp_all [Requests.expiries,Phase.expiries]

/-- A request that is pending has gone out once and once for every timeout. -/
theorem pending (h : Story req retry l ph) {x : ℕ} (hph : ph = .pending x) (hr : 0 ≤ retry) :
    transmissions req l = x+1 ∧ x ≤ retry ∧ (Unanswered req l → callsOf req l = []) := by
  induction h generalizing x with
  | sent hl =>
    cases hph
    refine ⟨?_,by simpa using hr,fun _ => ?_⟩
    · simpa [transmissions] using transmissions_silent hl
    · simpa [callsOf] using callsOf_silent hl
  | other _ hne ih =>
    obtain ⟨htx,hx,hcalls⟩ := ih hph
    refine ⟨by rw [transmissions_of_ne hne,htx],hx,fun hun => ?_⟩
    rw [callsOf_of_ne hne]
    exact hcalls fun resp ret hmem => hun resp ret (List.mem_cons_of_mem _ hmem)
  | kept _ _ ih =>
    obtain ⟨htx,hx,-⟩ := ih hph
    exact ⟨htx,hx,fun hun => absurd List.mem_cons_self (hun _ _)⟩
  | again _ hlt ih =>
    cases hph
    obtain ⟨htx,-,hcalls⟩ := ih rfl
    refine ⟨?_,by push_cast; omega,fun hun => hcalls fun resp ret hmem => ?_⟩
    · simpa [transmissions] using htx
    · exact hun resp ret (List.mem_cons_of_mem _ (List.mem_cons_of_mem _ hmem))
  | _ => cases hph

/-- A request that is done went out no more often than it was allowed to; without an answer it
went out as often and was told so once. -/
theorem done (h : Story req retry l ph) {x : ℕ} (hph : ph = .done x) (hr : 0 ≤ retry) (hnet : .unsent req ∉ l) :
    transmissions req l ≤ retry+1 ∧ x ≤ retry+1 ∧
      (Unanswered req l → x = retry+1 ∧ transmissions req l = retry+1 ∧ callsOf req l = [none]) := by
  induction h with
  | other _ hne ih =>
    obtain ⟨htx,hx,hcalls⟩ := ih hph fun hmem => hnet (List.mem_cons_of_mem _ hmem)
    rw [transmissions_of_ne hne,callsOf_of_ne hne]
    exact ⟨htx,hx,fun hun => hcalls fun resp ret hmem => hun resp ret (List.mem_cons_of_mem _ hmem)⟩
  | @answered l y resp hl =>
    cases hph
    obtain ⟨htx,hx,-⟩ := hl.pending rfl hr
    have htx' : transmissions req (.called req (some resp) 0::l) = x+1 := htx
    refine ⟨by rw [htx']; push_cast; omega,by omega,fun hun => absurd List.mem_cons_self (hun _ _)⟩
  | @timedOut l y ret hl hge =>
    cases hph
    obtain ⟨htx,hx,hcalls⟩ := hl.pending rfl hr
    have htx' : transmissions req (.called req none ret::.expired req::l) = y+1 := htx
    refine ⟨by rw [htx']; push_cast; omega,by push_cast; omega,fun hun => ⟨by push_cast; omega,?_,?_⟩⟩
    · rw [htx']
      push_cast
      omega
    · have hnil : callsOf req l = [] := hcalls fun resp ret hmem =>
        hun resp ret (List.mem_cons_of_mem _ (List.mem_cons_of_mem _ hmem))
      simpa [callsOf] using hnil
  | dropped _ _ => exact absurd (List.mem_cons_of_mem _ List.mem_cons_self) hnet
  | _ => cases hph

theorem not_closing (h : Story req retry l ph) {x : ℕ} (hph : ph = .pending x) {e : Entry} (he : e ∈ l) :
    ¬Closing req e := by
  rintro (⟨resp,rfl⟩ | ⟨ret,rfl⟩)
  all_goals
    induction h generalizing x with
    | sent hl => exact absurd (hl _ (by simpa using he) rfl) (by simp)
    | other _ hne ih =>
      rcases List.mem_cons.mp he with rfl | he
      · exact hne rfl
      · exact ih hph he
    | kept _ hne ih =>
      rcases List.mem_cons.mp he with heq | he
      · simp_all
      · exact ih hph he
    | again _ _ ih => exact ih rfl (by simpa using he)
    | _ => cases hph

theorem open_cons {c : Entry} (h : ∀ e ∈ l, ¬Closing req e) (hc : ¬Closing req c) : ∀ e ∈ c::l, ¬Closing req e :=
  List.forall_mem_cons.mpr ⟨hc,h⟩

/-- Only the newest of the entries closes the request. -/
theorem head_closing {c e : Entry} {l₁ l₂ : List Entry} (h : ∀ e ∈ l, ¬Closing req e)
    (hl : c::l = l₁ ++ e::l₂) (he : Closing req e) : l₁ = [] := by
  cases l₁ with
  | nil => rfl
  | cons a l₁ =>
    have htail : l = l₁ ++ e::l₂ := (List.cons.inj hl).2
    exact absurd he (h e (htail ▸ List.mem_append_right _ List.mem_cons_self))

/-- Nothing is told of a request after it is closed. -/
theorem closed (h : Story req retry l ph) {l₁ l₂ : List Entry} {e : Entry} (hl : l = l₁ ++ e::l₂)
    (he : Closing req e) : (∃ x, ph = .done x) ∧ ∀ e' ∈ l₁, e'.preq ≠ req := by
  have hdone : ∃ x, ph = .done x := by
    cases ph with
    | pending x => exact absurd he (h.not_closing rfl (hl ▸ List.mem_append_right _ List.mem_cons_self))
    | done x => exact ⟨x,rfl⟩
  refine ⟨hdone,?_⟩
  obtain ⟨x,rfl⟩ := hdone
  generalize hph : Phase.done x = ph at h
  induction h generalizing l₁ with
  | other _ hne ih =>
    cases l₁ with
    | nil => exact fun _ h => absurd h List.not_mem_nil
    | cons a l₁ =>
      obtain ⟨rfl,htail⟩ := List.cons.inj hl
      intro e' he'
      rcases List.mem_cons.mp he' with rfl | he'
      · exact hne
      · exact ih htail hph e' he'
  | answered hpend =>
    rw [head_closing (fun _ => hpend.not_closing rfl) hl he]
    exact fun _ h => absurd h List.not_mem_nil
  | timedOut hpend =>
    have hopen := open_cons (c := .expired req) (fun _ => hpend.not_closing rfl) (by simp [Closing])
    rw [head_closing hopen hl he]
    exact fun _ h => absurd h List.not_mem_nil
  | dropped hpend =>
    have hopen := open_cons (c := .expired req) (fun _ => hpend.not_closing rfl) (by simp [Closing])
    have hopen := open_cons (c := .unsent req) hopen (by simp [Closing])
    rw [head_closing hopen hl he]
    exact fun _ h => absurd h List.not_mem_nil
  | _ => cases hph

/-- A request that is done was closed. -/
theorem closing (h : Story req retry l ph) {x : ℕ} (hph : ph = .done x) : ∃ e ∈ l, Closing req e := by
  induction h with
  | other _ _ ih =>
    obtain ⟨e,he,hclosing⟩ := ih hph
    exact ⟨e,List.mem_cons_of_mem _ he,hclosing⟩
  | answered _ => exact ⟨_,List.mem_cons_self,Or.inl ⟨_,rfl⟩⟩
  | timedOut _ _ => exact ⟨_,List.mem_cons_self,Or.inr ⟨_,rfl⟩⟩
  | dropped _ _ => exact ⟨_,List.mem_cons_self,Or.inr ⟨_,rfl⟩⟩
  | _ => cases hph

/-- What happens to others is no part of it. -/
theorem append (h : Story req retry l ph) {l' : List Entry} (hl' : ∀ e ∈ l', e.preq ≠ req) :
    Story req retry (l' ++ l) ph := by
  induction l' with
  | nil => exact h
  | cons e l' ih =>
    obtain ⟨he,hl'⟩ := List.forall_mem_cons.mp hl'
    exact .other (ih hl') he

end Story

/-! ### What leaves a request alone -/

/-- The timers of the request are as they were. -/
def Apart (req : ℕ) (q r : Queue Cbk) : Prop :=
  ∀ tid, q.cbkf tid = some (.request req) ∨ r.cbkf tid = some (.request req) → Same q r tid

/-- Nothing happens to the request. -/
structure Frame (req : ℕ) (s t : Sys) : Prop where
  reqs : t.2.reqs req = s.2.reqs req
  mem : req ∈ t.2.reqList ↔ req ∈ s.2.reqList
  created : s.2.created ≤ t.2.created
  log : ∃ l, t.2.log = l ++ s.2.log ∧ ∀ e ∈ l, e.preq ≠ req
  apart : Apart req s.1 t.1

section Frames

variable {req : ℕ} {q r u : Queue Cbk} {s t v : Sys}

theorem cbkf_same {tid : ℕ} (h : Same q r tid) : r.cbkf tid = q.cbkf tid := by
  unfold Queue.cbkf
  rw [h.heap]

theorem Apart.refl (req : ℕ) (q : Queue Cbk) : Apart req q q := fun tid _ => Same.refl q tid

theorem Apart.trans (h : Apart req q r) (h' : Apart req r u) : Apart req q u := by
  intro tid htid
  rcases htid with htid | htid
  · have hs := h tid (Or.inl htid)
    exact hs.trans (h' tid (Or.inl ((cbkf_same hs).trans htid)))
  · have hs := h' tid (Or.inr htid)
    exact (h tid (Or.inr ((cbkf_same hs).symm.trans htid))).trans hs

/-- One timer changes, and is not the request's. -/
theorem apart_of_same (tid : ℕ) (h : ∀ tid', tid' ≠ tid → Same q r tid')
    (hq : q.cbkf tid ≠ some (.request req)) (hr : r.cbkf tid ≠ some (.request req)) : Apart req q r := by
  intro tid' htid'
  refine h tid' ?_
  rintro rfl
  exact htid'.elim hq hr

theorem log_same (req : ℕ) (l : List Entry) : ∃ l', l = l' ++ l ∧ ∀ e ∈ l', e.preq ≠ req :=
  ⟨[],rfl,fun _ h => absurd h List.not_mem_nil⟩

theorem Frame.refl (req : ℕ) (s : Sys) : Frame req s s := ⟨rfl,Iff.rfl,le_refl _,log_same req _,Apart.refl req s.1⟩

theorem Frame.trans (h : Frame req s t) (h' : Frame req t v) : Frame req s v := by
  obtain ⟨l,hl,hlreq⟩ := h.log
  obtain ⟨l',hl',hlreq'⟩ := h'.log
  refine ⟨h'.reqs.trans h.reqs,h'.mem.trans h.mem,h.created.trans h'.created,⟨l' ++ l,?_,?_⟩,h.apart.trans h'.apart⟩
  · rw [hl',hl,List.append_assoc]
  · intro e he
    exact (List.mem_append.mp he).elim (hlreq' e) (hlreq e)

/-- Only the timers change. -/
theorem frame_timers {r : Queue Cbk} (h : Apart req s.1 r) : Frame req s (r,s.2) :=
  ⟨rfl,Iff.rfl,le_refl _,log_same req _,h⟩

theorem frame_note {e : Entry} (h : e.preq ≠ req) : Frame req s (s.1,s.2.note e) :=
  ⟨rfl,Iff.rfl,le_refl _,⟨[e],rfl,fun _ he => List.mem_singleton.mp he ▸ h⟩,Apart.refl req s.1⟩

theorem frame_put {req' : ℕ} (p : Req) (h : req' ≠ req) : Frame req s (s.1,s.2.put req' p) :=
  ⟨Function.update_of_ne h.symm _ _,Iff.rfl,le_refl _,log_same req _,Apart.refl req s.1⟩

theorem frame_create {dnode : UInt8} {srvid : BitVec 32} (h : req ≠ s.2.created) :
    Frame req s (s.1,rpcRequestCreate s.2 dnode srvid) :=
  ⟨Function.update_of_ne h _ _,Iff.rfl,Nat.le_succ _,log_same req _,Apart.refl req s.1⟩

/-- The timer of a call is not the request's. -/
theorem foreign_apart {c : Call Cbk} (hc : Foreign q c) (hr : c.run q = some r) : Apart req q r := by
  have habout : c.About q .other := by cases c <;> exact hc
  exact fun tid htid => habout.same (by simp) hr htid

theorem rpcMakeRequest_cases (net : Send) (preq : Req) :
    (∃ pkt, rpcMakeRequest net preq = (0,some pkt)) ∨
      (rpcMakeRequest net preq).1 ≠ 0 ∧ (rpcMakeRequest net preq).2 = none := by
  cases net with
  | sent => exact Or.inl ⟨_,rfl⟩
  | noPkt => exact Or.inr ⟨by simp [rpcMakeRequest],rfl⟩
  | notSent => exact Or.inr ⟨by simp [rpcMakeRequest],rfl⟩

/-- The request with its message and its timer, when it is sent. -/
def Rpc.enlist (r : Rpc) (req : ℕ) (preq : Req) (pkt : Packet) (pmsg : Bytes) (tid : ℕ) : Rpc :=
  {r.put req {preq with pmsg := some pmsg,tid := some tid} with
    reqList := req::r.reqList,log := .sent req preq.retry::.tx req pkt::r.log}

/-- All that an act does. -/
inductive Acted (s : Sys) : Sys → Prop
  | create (dnode : UInt8) (srvid : BitVec 32) : Acted s (s.1,rpcRequestCreate s.2 dnode srvid)
  | change (req : ℕ) (preq p : Req) : s.2.reqs req = some preq → preq.tid = none → p.tid = none →
      Acted s (s.1,s.2.put req p)
  | unsent (req : ℕ) (preq p : Req) : s.2.reqs req = some preq → preq.tid = none → p.tid = none →
      Acted s (s.1,(s.2.put req p).note (.unsent req))
  | sent (req : ℕ) (preq : Req) (pkt : Packet) (pmsg : Bytes) (tid : ℕ) (now : UInt64) (q r : Queue Cbk) :
      s.2.reqs req = some preq → preq.tid = none → Timers.timerCreate s.1 (some tid) (.request req) = some q →
      Timers.timerStart q tid now preq.tmout 0 = some r → Acted s (r,s.2.enlist req preq pkt pmsg tid)
  | timer (c : Call Cbk) (q : Queue Cbk) : Foreign s.1 c → c.run s.1 = some q → Acted s (q,s.2)

theorem rpcRequestSetRetry_acted {retry : ℤ} {tmout : UInt32} {r : Rpc}
    (h : rpcRequestSetRetry s.2 req retry tmout = some r) : Acted s (s.1,r) := by
  unfold rpcRequestSetRetry at h
  split at h
  · exact absurd h (by simp)
  · next preq hpreq =>
    split at h
    · exact absurd h (by simp)
    · next htid =>
      have htid : preq.tid = none := by simpa using htid
      rw [← Option.some.inj h]
      exact .change req preq _ hpreq htid htid

theorem rpcRequestSend_acted {pmsg : Bytes} {mem : Bool} {net : Send} {block : Option ℕ} {now : UInt64}
    {iret : ℕ} (h : rpcRequestSend req pmsg mem net block now s = some (iret,t)) : Acted s t := by
  unfold rpcRequestSend at h
  split at h
  · exact absurd h (by simp)
  · next preq hpreq =>
    split at h
    · exact absurd h (by simp)
    · next htid =>
      have htid : preq.tid = none := by simpa using htid
      split at h
      · simp only [Option.some.injEq,Prod.mk.injEq] at h
        rw [← h.2]
        exact .change req preq _ hpreq htid htid
      · dsimp only at h
        rcases rpcMakeRequest_cases net {preq with pmsg := some pmsg} with ⟨pkt,hpkt⟩ | ⟨hiret,hpkt⟩
        · rw [hpkt] at h
          dsimp only at h
          rw [if_neg (by simp)] at h
          split at h
          · exact absurd h (by simp)
          · next tid =>
            obtain ⟨q,hq,h⟩ := Option.bind_eq_some_iff.mp h
            obtain ⟨r,hr,h⟩ := Option.map_eq_some_iff.mp h
            have henlist : t = (r,s.2.enlist req preq pkt pmsg tid) := by
              rw [← (Prod.mk.inj h).2]
              simp [Rpc.enlist,Rpc.put,Rpc.transmit,Rpc.note,Function.update_idem]
            rw [henlist]
            exact .sent req preq pkt pmsg tid now q r hpreq htid hq hr
        · rw [if_pos hiret,hpkt] at h
          simp only [Option.some.injEq,Prod.mk.injEq] at h
          rw [← h.2]
          exact .unsent req preq {preq with pmsg := some pmsg} hpreq htid htid

theorem act_acted {a : Act} (h : a.run s = some t) : Acted s t := by
  cases a with
  | create dnode srvid =>
    rw [← Option.some.inj h]
    exact .create dnode srvid
  | setRetry req retry tmout =>
    obtain ⟨r,hr,rfl⟩ := Option.map_eq_some_iff.mp h
    exact rpcRequestSetRetry_acted hr
  | send req pmsg mem net block now =>
    obtain ⟨⟨iret,u⟩,hu,rfl⟩ := Option.map_eq_some_iff.mp h
    exact rpcRequestSend_acted hu
  | timer c =>
    simp only [Act.run] at h
    split at h
    · next hc =>
      obtain ⟨q,hq,rfl⟩ := Option.map_eq_some_iff.mp h
      exact .timer c q hc hq
    · exact absurd h (by simp)

/-- What every act keeps, a list of them keeps. -/
theorem acts_keep {I : Sys → Prop} (hI : ∀ s t, Acted s t → I s → I t) {as : List Act} (h : acts as s = some t)
    (hs : I s) : I t := by
  induction as generalizing s with
  | nil =>
    rw [← Option.some.inj h]
    exact hs
  | cons a as ih =>
    obtain ⟨u,hu,h⟩ := Option.bind_eq_some_iff.mp h
    exact ih h (hI s u (act_acted hu) hs)

/-- The request after one more timeout. -/
def Req.less (preq : Req) : Req := {preq with retry := preq.retry-1}

/-- A timeout is the last one, or no packet gets out, or the timer is started again. -/
theorem rqcRequestTout_cases {x : Script} (h : rqcRequestTout req x s = some t) :
    ∃ preq, s.2.reqs req = some preq ∧
      (preq.retry ≤ 0 ∧ giveUp req x (s.1,(s.2.put req preq.less).note (.expired req)) = some t ∨
        0 < preq.retry ∧
          giveUp req x (s.1,((s.2.put req preq.less).note (.expired req)).note (.unsent req)) = some t ∨
        0 < preq.retry ∧ ∃ pkt tid q,preq.tid = some tid ∧
          Timers.timerStart s.1 tid x.now preq.tmout 0 = some q ∧
          t = (q,((s.2.put req preq.less).note (.expired req)).note (.tx req pkt))) := by
  unfold rqcRequestTout at h
  split at h
  · exact absurd h (by simp)
  · next preq hpreq =>
    refine ⟨preq,hpreq,?_⟩
    dsimp only at h
    split at h
    · exact Or.inl ⟨by omega,h⟩
    · have hpos : 0 < preq.retry := by omega
      rcases rpcMakeRequest_cases x.net preq.less with ⟨pkt,hpkt⟩ | ⟨hiret,hpkt⟩
      · rw [Req.less] at hpkt
        rw [hpkt] at h
        dsimp only at h
        rw [if_neg (by simp)] at h
        split at h
        · exact absurd h (by simp)
        · next tid htid =>
          obtain ⟨q,hq,rfl⟩ := Option.map_eq_some_iff.mp h
          exact Or.inr (Or.inr ⟨hpos,pkt,tid,q,htid,hq,rfl⟩)
      · rw [Req.less] at hiret hpkt
        rw [if_pos hiret,hpkt] at h
        exact Or.inr (Or.inl ⟨hpos,h⟩)

/-- A new timer is the request's. -/
theorem created_apart {req' tid : ℕ} {now : UInt64} {tmout : UInt32} (hne : req' ≠ req)
    (hr : Timers.timerCreate q (some tid) (.request req') = some r)
    (hu : Timers.timerStart r tid now tmout 0 = some u) : Apart req q u := by
  obtain ⟨hq,hr'⟩ := Timers.timerCreate_cbkf hr
  refine apart_of_same tid (fun tid' hne' => ?_) (by simp [hq]) ?_
  · exact (Timers.same_timerCreate hr (by simpa using hne'.symm)).trans (Timers.same_timerStart hu hne')
  · rw [Timers.timerStart_cbkf hu,hr']
    simpa using hne

theorem frame_enlist {req' tid : ℕ} {preq : Req} {pkt : Packet} {pmsg : Bytes} (hne : req' ≠ req)
    (h : Apart req q r) {rpc : Rpc} : Frame req (q,rpc) (r,rpc.enlist req' preq pkt pmsg tid) := by
  refine ⟨Function.update_of_ne hne.symm _ _,?_,le_refl _,⟨[.sent req' preq.retry,.tx req' pkt],rfl,?_⟩,h⟩
  · exact List.mem_cons.trans ⟨fun h => h.resolve_left hne.symm,Or.inr⟩
  · intro e he
    simp only [List.mem_cons,List.not_mem_nil,or_false] at he
    rcases he with rfl | rfl
    · exact hne
    · exact hne

/-- Nobody but the requester's own code can do anything to the request any more. -/
structure Settled (req : ℕ) (r : Rpc) : Prop where
  created : req < r.created
  sent : ∀ preq, r.reqs req = some preq → preq.tid.isSome

theorem Settled.frame (h : Settled req s.2) (hf : Frame req s t) : Settled req t.2 :=
  ⟨lt_of_lt_of_le h.created hf.created,fun preq hpreq => h.sent preq (hf.reqs.symm.trans hpreq)⟩

theorem Settled.acted (h : Settled req s.2) (ha : Acted s t) : Frame req s t := by
  have hne : ∀ {req' : ℕ} {preq : Req}, s.2.reqs req' = some preq → preq.tid = none → req' ≠ req := by
    rintro req' preq hreq htid rfl
    exact absurd (h.sent preq hreq) (by simp [htid])
  cases ha with
  | create dnode srvid => exact frame_create h.created.ne
  | change req' preq p hreq htid _ => exact frame_put p (hne hreq htid)
  | unsent req' preq p hreq htid _ =>
    have hput : Frame req s (s.1,s.2.put req' p) := frame_put p (hne hreq htid)
    exact hput.trans (frame_note (e := .unsent req') (hne hreq htid))
  | sent req' preq pkt pmsg tid now q r hreq htid hq hr =>
    exact frame_enlist (hne hreq htid) (created_apart (hne hreq htid) hq hr)
  | timer c q hc hq => exact frame_timers (foreign_apart hc hq)

theorem Settled.acts {as : List Act} (h : Settled req s.2) (ha : acts as s = some t) : Frame req s t :=
  acts_keep (I := Frame req s) (fun _ _ hu hf => hf.trans ((h.frame hf).acted hu)) ha (Frame.refl req s)

end Frames

end Requests
end Autbus
