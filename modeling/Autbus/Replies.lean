import Autbus.Blocks
import Autbus.SrvRpc
import Autbus.Timers

/-! The callbacks of `sysmgr.c`. A message to the B side leaves a record with a timer in
`sysm_head`; the record ends with the first reply of its type that finds it in front of all
others of this type, or with its timer. Records are known by their number, in the order in
which they were allocated. -/
namespace Autbus
namespace Replies

open Timers (Queue Call Wf Timer Same)
open SrvRpc (Bytes byteAt)

/-- What a timer calls: `sysmgr_timer_cbk` for a record, or something else. -/
inductive Cbk
  | sysm (pcb : ℕ)
  | other
  deriving DecidableEq

/-- `sysm_cb_s`. -/
structure Cb where
  hmsg : UInt8
  tmrid : ℕ
  deriving DecidableEq

/-- The header of a message: `type` and `leng`. -/
def msgType (tbuf : Bytes) : UInt8 := byteAt tbuf 0

def msgLeng (tbuf : Bytes) : UInt8 := byteAt tbuf 1

/-- `HCB_MSG_MAX`. -/
def msgMax : UInt8 := 24

/-- `HCB_MSG_RPT_NWNODE`, the first of the reports. -/
def rptNwnode : UInt8 := 15

/-- What happened: `sysmgr_send` returned 0 for a callback, a reply was read, the timer of a
callback fired, a callback was called. -/
inductive Entry
  | sent (pcb : ℕ) (hmsg : UInt8)
  | received (tbuf : Bytes)
  | expired (pcb : ℕ)
  | called (pcb : ℕ) (tbuf : Option Bytes)
  deriving DecidableEq

/-- The records, whether `sysm_cmn_cbk` is set, and what happened so far, the newest first. -/
structure Mgr where
  cbs : ℕ → Option Cb
  sysmHead : List ℕ
  cmn : Bool
  created : ℕ
  log : List Entry

abbrev Sys := Queue Cbk × Mgr

namespace Mgr

def note (r : Mgr) (e : Entry) : Mgr := {r with log := e::r.log}

/-- `malloc` and what is set before the timer is created. -/
def alloc (r : Mgr) (hmsg : UInt8) : Mgr :=
  {r with cbs := Function.update r.cbs r.created (some ⟨hmsg,0⟩),created := r.created+1}

def free (r : Mgr) (pcb : ℕ) : Mgr := {r with cbs := Function.update r.cbs pcb none}

/-- The record gets its timer and is put at the end of the list. -/
def enlist (r : Mgr) (pcb : ℕ) (hmsg : UInt8) (tid : ℕ) : Mgr :=
  {r with
    cbs := Function.update r.cbs pcb (some ⟨hmsg,tid⟩)
    sysmHead := r.sysmHead ++ [pcb]
    log := .sent pcb hmsg::r.log}

end Mgr

/-- After `sysmgr_init` and `timer_queue_init`. -/
def init : Sys := (Timers.init,⟨fun _ => none,[],false,0,[]⟩)

/-- `sysmgr_send` with its return code; `scbk` tells whether there is a callback, `mem` and
`block` what is allocated, `iret` what `write` returns. -/
def sysmgrSend (tbuf : Bytes) (scbk : Bool) (tcnt : ℤ) (mem : Bool) (block : Option ℕ) (iret : ℤ) (now : UInt64)
    (s : Sys) : Option (ℤ × Sys) :=
  if msgMax < msgType tbuf then some (1,s)
  else if 128 < msgLeng tbuf then some (2,s)
  else if ¬scbk then some (if iret < 0 then iret else 0,s)
  else if tcnt ≤ 0 then some (3,s)
  else if ¬mem then some (3,s)
  else
    let pcb := s.2.created
    let r := s.2.alloc (msgType tbuf)
    match block with
    | none => some (4,s.1,r.free pcb)
    | some tid =>
      (Timers.timerCreate s.1 (some tid) (.sysm pcb)).bind fun q =>
        if iret ≤ 0 then (Timers.timerDelete q tid).map fun q => (5,q,r.free pcb)
        else (Timers.timerStart q tid now (UInt32.ofInt tcnt) 0).map fun q => (0,q,r.enlist pcb (msgType tbuf) tid)

/-- What callbacks and the rest of the program do here. The timer of a record is known to the
record only. -/
inductive Act
  | send (tbuf : Bytes) (scbk : Bool) (tcnt : ℤ) (mem : Bool) (block : Option ℕ) (iret : ℤ) (now : UInt64)
  | regCbk (scbk : Bool)
  | timer (c : Call Cbk)

/-- The call is about a timer that belongs to no record. -/
def Foreign (q : Queue Cbk) (c : Call Cbk) : Prop := c.About q .other

instance (q : Queue Cbk) (c : Call Cbk) : Decidable (Foreign q c) := by
  unfold Foreign
  infer_instance

def Act.run (s : Sys) : Act → Option Sys
  | .send tbuf scbk tcnt mem block iret now => (sysmgrSend tbuf scbk tcnt mem block iret now s).map Prod.snd
  | .regCbk scbk => some (s.1,{s.2 with cmn := scbk})
  | .timer c => if Foreign s.1 c then (c.run s.1).map fun q => (q,s.2) else none

def acts : List Act → Sys → Option Sys
  | [],s => some s
  | a::as,s => (a.run s).bind (acts as)

/-- `sysmgr_timer_cbk`; `x` is what the callback does. -/
def sysmgrTimerCbk (pcb : ℕ) (x : List Act) (s : Sys) : Option Sys :=
  match s.2.cbs pcb with
  | none => none
  | some _ =>
    let r := {(s.2.note (.expired pcb)).note (.called pcb none) with sysmHead := s.2.sysmHead.erase pcb}
    (acts x (s.1,r)).map fun s => (s.1,s.2.free pcb)

/-- What a timer calls. -/
def Cbk.run : Cbk → ℕ → List Act → Sys → Option Sys
  | .sysm pcb,_,x,s => sysmgrTimerCbk pcb x s
  | .other,_,x,s => acts x s

/-- The first record of a type in the list. -/
def search (r : Mgr) (hmsg : UInt8) : Option ℕ :=
  r.sysmHead.find? fun pcb => (r.cbs pcb).any fun p => p.hmsg = hmsg

/-- One round of `sysmgr_proc_event`, with a message read. -/
def sysmgrProcEvent (tbuf : Bytes) (x : List Act) (s : Sys) : Option Sys :=
  if 128 < msgLeng tbuf then some s
  else if rptNwnode ≤ msgType tbuf then if s.2.cmn then acts x s else some s
  else
    let r := s.2.note (.received tbuf)
    match search s.2 (msgType tbuf) with
    | none => some (s.1,r)
    | some pcb =>
      let r := {r.note (.called pcb (some tbuf)) with sysmHead := s.2.sysmHead.erase pcb}
      (acts x (s.1,r)).bind fun s =>
        match s.2.cbs pcb with
        | none => none
        | some p => (Timers.timerDelete s.1 p.tmrid).map fun q => (q,s.2.free pcb)

/-- One round of `timer_queue_event`: the head fires, or the loop ends. -/
def timerRound (curr : UInt64) (x : List Act) (s : Sys) : Option Sys :=
  match Timers.due curr s.1 with
  | none => some (Timers.rearm s.1,s.2)
  | some id => Timers.fire Cbk.run x id s

inductive Event
  | act (a : Act)
  | message (tbuf : Bytes) (x : List Act)
  | timer (curr : UInt64) (x : List Act)

def step (s : Sys) : Event → Option Sys
  | .act a => a.run s
  | .message tbuf x => sysmgrProcEvent tbuf x s
  | .timer curr x => timerRound curr x s

/-- `timer_queue_event` is one round after the other, the last one with nothing due. -/
theorem exec_eventLoop {curr : UInt64} {xs : List (List Act)} {s t : Sys}
    (h : Timers.eventLoop Cbk.run curr xs s = some t) :
    Trace.exec step s ((xs ++ [[]]).map (.timer curr)) = some t := by
  induction xs generalizing s with
  | nil =>
    unfold Timers.eventLoop at h
    split at h
    · next hdue =>
      change (timerRound curr [] s).bind _ = _
      unfold timerRound
      rw [hdue]
      exact h
    · exact absurd h (by simp)
  | cons x xs ih =>
    unfold Timers.eventLoop at h
    split at h
    · exact absurd h (by simp)
    · next id hdue =>
      obtain ⟨u,hu,h⟩ := Option.bind_eq_some_iff.mp h
      change (timerRound curr x s).bind _ = _
      unfold timerRound
      rw [hdue]
      exact Option.bind_eq_some_iff.mpr ⟨u,hu,ih h⟩

/-! ### What is told of the callbacks -/

/-- The callback that an entry is about. -/
def Entry.pcb? : Entry → Option ℕ
  | .sent pcb _ => some pcb
  | .received _ => none
  | .expired pcb => some pcb
  | .called pcb _ => some pcb

/-- The callbacks that wait, with the type they wait for, the oldest first. -/
def waiting : List Entry → List (ℕ × UInt8)
  | [] => []
  | .sent pcb hmsg::l => waiting l ++ [(pcb,hmsg)]
  | .called pcb _::l => (waiting l).filter fun w => w.1 ≠ pcb
  | _::l => waiting l

/-- The oldest one of a type. -/
def oldest (l : List Entry) (hmsg : UInt8) : Option ℕ :=
  ((waiting l).find? fun w => w.2 = hmsg).map Prod.fst

/-- What a callback was called with, the last call first. -/
def callsOf (pcb : ℕ) (l : List Entry) : List (Option Bytes) := l.filterMap fun e => match e with
  | .called pcb' tbuf => if pcb' = pcb then some tbuf else none
  | _ => none

/-- A callback waits until it is called. It is called with the first reply of its type that comes
while it is the oldest one of this type, or when its timer fires. -/
inductive Told : List Entry → Prop
  | nil : Told []
  | sent {l pcb hmsg} : Told l → (∀ e ∈ l, e.pcb? ≠ some pcb) → Told (.sent pcb hmsg::l)
  | unheard {l tbuf} : Told l → oldest l (msgType tbuf) = none → Told (.received tbuf::l)
  | answered {l pcb tbuf} : Told l → oldest l (msgType tbuf) = some pcb →
      Told (.called pcb (some tbuf)::.received tbuf::l)
  | timedOut {l pcb hmsg} : Told l → (pcb,hmsg) ∈ waiting l → Told (.called pcb none::.expired pcb::l)

/-- A callback is called with a reply that finds it the oldest one of its type, or on its timeout. -/
def CalledOk (l : List Entry) (e : Entry) : Prop := ∀ pcb resp, e = .called pcb resp →
  (resp = none ∧ ∃ l₀, l = .expired pcb::l₀ ∧ ∃ hmsg, (pcb,hmsg) ∈ waiting l₀) ∨
    ∃ tbuf l₀, resp = some tbuf ∧ l = .received tbuf::l₀ ∧ oldest l₀ (msgType tbuf) = some pcb

section Stories

variable {l : List Entry} {pcb : ℕ} {hmsg : UInt8}

theorem oldest_mem (h : oldest l hmsg = some pcb) : (pcb,hmsg) ∈ waiting l := by
  obtain ⟨⟨i,t⟩,hw,rfl⟩ := Option.map_eq_some_iff.mp h
  have ht : t = hmsg := by simpa using List.find?_some hw
  exact ht ▸ List.mem_of_find?_eq_some hw

theorem mem_waiting_called {tbuf : Option Bytes} {i : ℕ} {t : UInt8} :
    (i,t) ∈ waiting (.called pcb tbuf::l) ↔ (i,t) ∈ waiting l ∧ i ≠ pcb := by
  simp [waiting]

/-- Who waits was taken on and not called. -/
theorem waiting_sent (h : (pcb,hmsg) ∈ waiting l) : .sent pcb hmsg ∈ l := by
  induction l with
  | nil => exact absurd h List.not_mem_nil
  | cons e l ih =>
    cases e with
    | sent i t =>
      rcases List.mem_append.mp h with h | h
      · exact List.mem_cons_of_mem _ (ih h)
      · obtain ⟨rfl,rfl⟩ := Prod.mk.inj (List.mem_singleton.mp h)
        exact List.mem_cons_self
    | called i tbuf => exact List.mem_cons_of_mem _ (ih (mem_waiting_called.mp h).1)
    | _ => exact List.mem_cons_of_mem _ (ih h)

namespace Told

theorem waiting_uncalled (h : Told l) (hw : (pcb,hmsg) ∈ waiting l) : callsOf pcb l = [] := by
  induction h with
  | nil => exact absurd hw List.not_mem_nil
  | @sent l i t _ hnew ih =>
    rcases List.mem_append.mp hw with hw | hw
    · exact ih hw
    · obtain ⟨rfl,-⟩ := Prod.mk.inj (List.mem_singleton.mp hw)
      refine List.filterMap_eq_nil_iff.mpr fun e he => ?_
      rcases List.mem_cons.mp he with rfl | he
      · rfl
      · cases e with
        | called i tbuf =>
          have hne : i ≠ pcb := fun heq => hnew _ he (congrArg some heq)
          simp [hne]
        | _ => rfl
  | unheard _ _ ih => exact ih hw
  | answered _ _ ih =>
    obtain ⟨hw,hne⟩ := mem_waiting_called.mp hw
    simpa [callsOf,hne.symm] using ih hw
  | timedOut _ _ ih =>
    obtain ⟨hw,hne⟩ := mem_waiting_called.mp hw
    simpa [callsOf,hne.symm] using ih hw

theorem once (h : Told l) (pcb : ℕ) : (callsOf pcb l).length ≤ 1 := by
  induction h with
  | nil => exact Nat.zero_le _
  | sent _ _ ih => exact ih
  | unheard _ _ ih => exact ih
  | @answered l i tbuf hl hold ih =>
    by_cases hi : i = pcb
    · subst hi
      simpa [callsOf] using hl.waiting_uncalled (oldest_mem hold)
    · simpa [callsOf,hi] using ih
  | @timedOut l i t hl hw ih =>
    by_cases hi : i = pcb
    · subst hi
      simpa [callsOf] using hl.waiting_uncalled hw
    · simpa [callsOf,hi] using ih

theorem nodup (h : Told l) : ((waiting l).map Prod.fst).Nodup := by
  induction h with
  | nil => exact List.nodup_nil
  | @sent l i t _ hnew ih =>
    rw [waiting,List.map_append]
    refine List.nodup_append.mpr ⟨ih,by simp,?_⟩
    rintro a ha b hb rfl
    obtain ⟨⟨j,u⟩,hw,rfl⟩ := List.mem_map.mp ha
    exact hnew _ (waiting_sent hw) (congrArg some (List.mem_singleton.mp hb))
  | unheard _ _ ih => exact ih
  | answered _ _ ih => exact ih.sublist (List.filter_sublist.map _)
  | timedOut _ _ ih => exact ih.sublist (List.filter_sublist.map _)

theorem each_called (h : Told l) : Blocks.Each CalledOk l := by
  induction h with
  | nil => trivial
  | sent _ _ ih => exact ⟨by rintro pcb resp ⟨⟩,ih⟩
  | unheard _ _ ih => exact ⟨by rintro pcb resp ⟨⟩,ih⟩
  | @answered l i tbuf _ hold ih =>
    refine ⟨?_,by rintro pcb resp ⟨⟩,ih⟩
    rintro pcb resp ⟨⟩
    exact Or.inr ⟨tbuf,l,rfl,rfl,hold⟩
  | @timedOut l i t _ hw ih =>
    refine ⟨?_,by rintro pcb resp ⟨⟩,ih⟩
    rintro pcb resp ⟨⟩
    exact Or.inl ⟨rfl,l,rfl,t,hw⟩

/-- The first reply of its type that finds it the oldest one is not passed by. -/
theorem reply_taken (h : Told l) {l₂ l₀ : List Entry} {tbuf : Bytes} (hl : l = l₂ ++ .received tbuf::l₀)
    (hold : oldest l₀ (msgType tbuf) = some pcb) : ∃ l₃, l₂ = l₃ ++ [.called pcb (some tbuf)] := by
  induction h generalizing l₂ with
  | nil => exact absurd hl (by simp)
  | sent _ _ ih =>
    cases l₂ with
    | nil => exact absurd (List.cons.inj hl).1 (by simp)
    | cons a l₂ =>
      obtain ⟨l₃,rfl⟩ := ih (List.cons.inj hl).2
      exact ⟨a::l₃,rfl⟩
  | unheard _ hnone ih =>
    cases l₂ with
    | nil =>
      obtain ⟨heq,rfl⟩ := List.cons.inj hl
      cases heq
      exact absurd (hnone.symm.trans hold) (by simp)
    | cons a l₂ =>
      obtain ⟨l₃,rfl⟩ := ih (List.cons.inj hl).2
      exact ⟨a::l₃,rfl⟩
  | @answered l i tbuf' _ hi ih =>
    match l₂ with
    | [] => exact absurd (List.cons.inj hl).1 (by simp)
    | [a] =>
      obtain ⟨rfl,htail⟩ := List.cons.inj hl
      obtain ⟨heq,rfl⟩ := List.cons.inj htail
      cases heq
      obtain rfl := Option.some.inj (hi.symm.trans hold)
      exact ⟨[],rfl⟩
    | a::b::l₂ =>
      obtain ⟨l₃,rfl⟩ := ih (List.cons.inj (List.cons.inj hl).2).2
      exact ⟨a::b::l₃,rfl⟩
  | timedOut _ _ ih =>
    match l₂ with
    | [] => exact absurd (List.cons.inj hl).1 (by simp)
    | [a] => exact absurd (List.cons.inj (List.cons.inj hl).2).1 (by simp)
    | a::b::l₂ =>
      obtain ⟨l₃,rfl⟩ := ih (List.cons.inj (List.cons.inj hl).2).2
      exact ⟨a::b::l₃,rfl⟩

theorem expired_called (h : Told l) : .expired pcb ∈ l ↔ .called pcb none ∈ l := by
  induction h with
  | nil => simp
  | sent _ _ ih => simp [ih]
  | unheard _ _ ih => simp [ih]
  | answered _ _ ih => simp [ih]
  | timedOut _ _ ih => simp [ih]

/-- Who has been called does not wait. -/
theorem not_waiting (h : Told l) {resp : Option Bytes} (hc : .called pcb resp ∈ l) (hmsg : UInt8) :
    (pcb,hmsg) ∉ waiting l := by
  intro hw
  have hmem : resp ∈ callsOf pcb l := List.mem_filterMap.mpr ⟨_,hc,by simp⟩
  rw [h.waiting_uncalled hw] at hmem
  exact absurd hmem List.not_mem_nil

/-- Nobody is called twice. -/
theorem called_unique (h : Told l) {a b : Option Bytes} (ha : .called pcb a ∈ l) (hb : .called pcb b ∈ l) : a = b := by
  have hma : a ∈ callsOf pcb l := List.mem_filterMap.mpr ⟨_,ha,by simp⟩
  have hmb : b ∈ callsOf pcb l := List.mem_filterMap.mpr ⟨_,hb,by simp⟩
  have hone := h.once pcb
  match hc : callsOf pcb l with
  | [] =>
    rw [hc] at hma
    exact absurd hma List.not_mem_nil
  | [c] =>
    rw [hc,List.mem_singleton] at hma hmb
    rw [hma,hmb]
  | c::d::cs =>
    rw [hc] at hone
    simp at hone

end Told

end Stories

end Replies
end Autbus
