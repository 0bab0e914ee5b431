import Autbus.Replies

/-! What is left of a callback. Until it is called its record is in `sysm_head` with a timer on
the list. A reply takes both away. A timeout takes the record away; the timer is off the list
and nobody knows it any more. -/
namespace Autbus
namespace Replies

open Timers (Queue Call Wf Timer Same)
open SrvRpc (Bytes)

/-- The timer of a record that waits: it fires once. -/
structure Pending (q : Queue Cbk) (pcb tid : ℕ) : Prop where
  armed : tid ∈ q.tqList
  timer : ∃ t, q.heap tid = some t ∧ t.cbkf = .sysm pcb ∧ t.irepeat = 0

/-- The timer of a record that has timed out: it never fires again. -/
structure Idle (q : Queue Cbk) (tid : ℕ) : Prop where
  off : tid ∉ q.tqList
  flag : ∀ t, q.heap tid = some t → t.iflag.callbk = false

/-- `busy` is the timer in its callback, `cur` the record whose callback is running, if any. -/
structure Inv (busy cur : Option ℕ) (s : Sys) : Prop where
  wf : Wf s.1 busy
  told : Told s.2.log
  head : s.2.sysmHead = (waiting s.2.log).map Prod.fst
  waits : ∀ w ∈ waiting s.2.log, ∃ tid, s.2.cbs w.1 = some ⟨w.2,tid⟩ ∧ Pending s.1 w.1 tid
  alloc : ∀ pcb p, s.2.cbs pcb = some p → cur = some pcb ∨ ∃ hmsg, (pcb,hmsg) ∈ waiting s.2.log
  owner : ∀ tid pcb, s.1.cbkf tid = some (.sysm pcb) → (∃ p, s.2.cbs pcb = some p ∧ p.tmrid = tid) ∨
    s.2.cbs pcb = none ∧ .expired pcb ∈ s.2.log ∧ Idle s.1 tid
  left : ∀ pcb, .expired pcb ∈ s.2.log → cur ≠ some pcb → ∃ tid, s.1.cbkf tid = some (.sysm pcb)
  fresh : ∀ pcb, s.2.created ≤ pcb → s.2.cbs pcb = none ∧ ∀ e ∈ s.2.log, e.pcb? ≠ some pcb

/-- The timers of the records are as they were. -/
def Apart (q r : Queue Cbk) : Prop :=
  ∀ tid pcb, q.cbkf tid = some (.sysm pcb) ∨ r.cbkf tid = some (.sysm pcb) → Same q r tid

section Acts

variable {busy cur : Option ℕ} {q r : Queue Cbk} {s t : Sys} {m : Mgr} {pcb tid : ℕ} {hmsg : UInt8}

theorem cbkf_same (h : Same q r tid) : r.cbkf tid = q.cbkf tid := by
  unfold Queue.cbkf
  rw [h.heap]

theorem Apart.cbkf (h : Apart q r) : r.cbkf tid = some (.sysm pcb) ↔ q.cbkf tid = some (.sysm pcb) :=
  ⟨fun hr => (cbkf_same (h tid pcb (Or.inr hr))).symm.trans hr,fun hq => (cbkf_same (h tid pcb (Or.inl hq))).trans hq⟩

/-- One timer changes, and belongs to no record. -/
theorem apart_of_same (tid : ℕ) (h : ∀ tid', tid' ≠ tid → Same q r tid') (hq : ∀ pcb, q.cbkf tid ≠ some (.sysm pcb))
    (hr : ∀ pcb, r.cbkf tid ≠ some (.sysm pcb)) : Apart q r := by
  intro tid' pcb htid'
  refine h tid' ?_
  rintro rfl
  exact htid'.elim (hq pcb) (hr pcb)

theorem Pending.cbkf (h : Pending q pcb tid) : q.cbkf tid = some (.sysm pcb) := by
  obtain ⟨t,ht,hcbkf,-⟩ := h.timer
  rw [Timers.cbkf_of_heap ht,hcbkf]

theorem Pending.same (h : Pending q pcb tid) (hs : Same q r tid) : Pending r pcb tid := by
  refine ⟨hs.mem.mpr h.armed,?_⟩
  rw [hs.heap]
  exact h.timer

theorem Idle.same (h : Idle q tid) (hs : Same q r tid) : Idle r tid := by
  refine ⟨fun hmem => h.off (hs.mem.mp hmem),?_⟩
  rw [hs.heap]
  exact h.flag

/-- Only other timers change. -/
theorem Inv.apart {busy' : Option ℕ} (h : Inv busy cur (q,m)) (hr : Wf r busy') (ha : Apart q r) :
    Inv busy' cur (r,m) := by
  refine ⟨hr,h.told,h.head,fun w hw => ?_,h.alloc,fun tid pcb htid => ?_,fun pcb hpcb hcur => ?_,h.fresh⟩
  · obtain ⟨tid,hcb,hpend⟩ := h.waits w hw
    exact ⟨tid,hcb,hpend.same (ha tid w.1 (Or.inl hpend.cbkf))⟩
  · rcases h.owner tid pcb (ha.cbkf.mp htid) with hp | ⟨hnone,hexp,hidle⟩
    · exact Or.inl hp
    · exact Or.inr ⟨hnone,hexp,hidle.same (ha tid pcb (Or.inr htid))⟩
  · obtain ⟨tid,htid⟩ := h.left pcb hpcb hcur
    exact ⟨tid,ha.cbkf.mpr htid⟩

/-- All that an act does. -/
inductive Acted (s : Sys) : Sys → Prop
  | none : Acted s s
  | regCbk (scbk : Bool) : Acted s (s.1,{s.2 with cmn := scbk})
  | noTimer (hmsg : UInt8) : Acted s (s.1,(s.2.alloc hmsg).free s.2.created)
  | unsent (hmsg : UInt8) (tid : ℕ) (q r : Queue Cbk) :
      Timers.timerCreate s.1 (some tid) (.sysm s.2.created) = some q → Timers.timerDelete q tid = some r →
      Acted s (r,(s.2.alloc hmsg).free s.2.created)
  | sent (hmsg : UInt8) (tid : ℕ) (now : UInt64) (itv : UInt32) (q r : Queue Cbk) :
      Timers.timerCreate s.1 (some tid) (.sysm s.2.created) = some q →
      Timers.timerStart q tid now itv 0 = some r → Acted s (r,(s.2.alloc hmsg).enlist s.2.created hmsg tid)
  | timer (c : Call Cbk) (q : Queue Cbk) : Foreign s.1 c → c.run s.1 = some q → Acted s (q,s.2)

theorem sysmgrSend_acted {tbuf : Bytes} {scbk mem : Bool} {tcnt iret code : ℤ} {block : Option ℕ} {now : UInt64}
    (h : sysmgrSend tbuf scbk tcnt mem block iret now s = some (code,t)) : Acted s t := by
  have hsame : ∀ {c : ℤ}, some (c,s) = some (code,t) → Acted s t := by
    rintro c ⟨⟩
    exact .none
  unfold sysmgrSend at h
  split at h
  · exact hsame h
  split at h
  · exact hsame h
  split at h
  · exact hsame h
  split at h
  · exact hsame h
  split at h
  · exact hsame h
  dsimp only at h
  split at h
  · cases h
    exact .noTimer _
  · next tid =>
    obtain ⟨q,hq,h⟩ := Option.bind_eq_some_iff.mp h
    split at h
    · obtain ⟨r,hr,h⟩ := Option.map_eq_some_iff.mp h
      cases h
      exact .unsent _ tid q r hq hr
    · obtain ⟨r,hr,h⟩ := Option.map_eq_some_iff.mp h
      cases h
      exact .sent _ tid now _ q r hq hr

theorem act_acted {a : Act} (h : a.run s = some t) : Acted s t := by
  cases a with
  | send tbuf scbk tcnt mem block iret now =>
    obtain ⟨⟨code,u⟩,hu,rfl⟩ := Option.map_eq_some_iff.mp h
    exact sysmgrSend_acted hu
  | regCbk scbk =>
    cases h
    exact .regCbk scbk
  | timer c =>
    unfold Act.run at h
    dsimp only at h
    split at h
    · next hc =>
      obtain ⟨q,hq,rfl⟩ := Option.map_eq_some_iff.mp h
      exact .timer c q hc hq
    · exact absurd h (by simp)

/-- What every act keeps, a list of them keeps. -/
theorem acts_keep {I : Sys → Prop} (hI : ∀ s t, Acted s t → I s → I t) {as : List Act} (h : acts as s = some t)
    (hs : I s) : I t := by
  induction as generalizing s with
  | nil =>
    cases h
    exact hs
  | cons a as ih =>
    obtain ⟨u,hu,h⟩ := Option.bind_eq_some_iff.mp h
    exact ih h (hI s u (act_acted hu) hs)

/-- Nobody had the new record or its timer before. -/
theorem dropped_eq (hfree : m.cbs m.created = none) (hmsg : UInt8) :
    (m.alloc hmsg).free m.created = {m with created := m.created+1} := by
  have hcbs : Function.update (Function.update m.cbs m.created (some ⟨hmsg,0⟩)) m.created none = m.cbs := by
    rw [Function.update_idem]
    exact Function.update_eq_self_iff.mpr hfree.symm
  unfold Mgr.alloc Mgr.free
  dsimp only
  rw [hcbs]

theorem enlist_eq (m : Mgr) (hmsg : UInt8) (tid : ℕ) :
    ((m.alloc hmsg).enlist m.created hmsg tid).cbs = Function.update m.cbs m.created (some ⟨hmsg,tid⟩) :=
  Function.update_idem _ _ _

theorem Inv.more (h : Inv busy cur (q,m)) : Inv busy cur (q,{m with created := m.created+1}) :=
  ⟨h.wf,h.told,h.head,h.waits,h.alloc,h.owner,h.left,fun pcb hpcb => h.fresh pcb (by dsimp only at hpcb ⊢; omega)⟩

/-- A timer that is created and deleted again. -/
theorem unsent_cbkf (hq : Timers.timerCreate q (some tid) (.sysm pcb) = some r) {u : Queue Cbk}
    (hu : Timers.timerDelete r tid = some u) : u.cbkf tid = none := by
  obtain ⟨-,hheap⟩ := Timers.timerCreate_heap hq
  obtain ⟨ptqn,hptqn,⟨-,rfl⟩ | ⟨-,hcallbk,-⟩ | ⟨-,-,rfl⟩⟩ := Timers.timerDelete_cases hu
  · exact Timers.cbkf_free _ _
  · rw [hheap] at hptqn
    cases hptqn
    exact absurd hcallbk (by simp [Timers.noFlags])
  · exact Timers.cbkf_free _ _

theorem unsent_apart (hq : Timers.timerCreate q (some tid) (.sysm pcb) = some r) {u : Queue Cbk}
    (hu : Timers.timerDelete r tid = some u) : Apart q u := by
  refine apart_of_same tid (fun tid' hne => ?_) (fun i => ?_) fun i => ?_
  · exact (Timers.same_timerCreate hq (by simpa using hne.symm)).trans (Timers.same_timerDelete hu hne)
  · rw [(Timers.timerCreate_cbkf hq).1]
    simp
  · rw [unsent_cbkf hq hu]
    simp

section Sent

variable {now : UInt64} {itv : UInt32} {u : Queue Cbk}

theorem sent_same (hq : Timers.timerCreate q (some tid) (.sysm pcb) = some r)
    (hu : Timers.timerStart r tid now itv 0 = some u) {tid' : ℕ} (hne : tid' ≠ tid) : Same q u tid' :=
  (Timers.same_timerCreate hq (by simpa using hne.symm)).trans (Timers.same_timerStart hu hne)

theorem sent_pending (hq : Timers.timerCreate q (some tid) (.sysm pcb) = some r)
    (hu : Timers.timerStart r tid now itv 0 = some u) : Pending u pcb tid := by
  refine ⟨Timers.timerStart_mem (Timers.timerCreate_heap hq).2 rfl hu,?_⟩
  obtain ⟨t,ht,hirt⟩ := Timers.timerStart_irepeat hu
  have hcbkf : u.cbkf tid = some (.sysm pcb) := (Timers.timerStart_cbkf hu).trans (Timers.timerCreate_cbkf hq).2
  rw [Timers.cbkf_of_heap ht] at hcbkf
  exact ⟨t,ht,Option.some.inj hcbkf,hirt⟩

/-- A timer that there was is another one. -/
theorem sent_ne (hq : Timers.timerCreate q (some tid) (.sysm pcb) = some r) {tid' i : ℕ}
    (h : q.cbkf tid' = some (.sysm i)) : tid' ≠ tid := by
  rintro rfl
  rw [(Timers.timerCreate_cbkf hq).1] at h
  exact absurd h (by simp)

theorem Inv.sent (h : Inv busy cur (q,m)) (hmsg : UInt8)
    (hq : Timers.timerCreate q (some tid) (.sysm m.created) = some r)
    (hu : Timers.timerStart r tid now itv 0 = some u) :
    Inv busy cur (u,(m.alloc hmsg).enlist m.created hmsg tid) := by
  obtain ⟨hnone,hnew⟩ := h.fresh m.created (le_refl _)
  have hold : ∀ i, i ≠ m.created → ((m.alloc hmsg).enlist m.created hmsg tid).cbs i = m.cbs i := by
    intro i hi
    rw [enlist_eq,Function.update_of_ne hi]
  have hself : ((m.alloc hmsg).enlist m.created hmsg tid).cbs m.created = some ⟨hmsg,tid⟩ := by
    rw [enlist_eq,Function.update_self]
  refine ⟨(h.wf.timerCreate hq).timerStart hu,.sent h.told hnew,?_,fun w hw => ?_,fun i p hp => ?_,
    fun tid' i htid => ?_,fun i hi hcur => ?_,fun i hi => ?_⟩
  · change m.sysmHead ++ [m.created] = (waiting m.log ++ [(m.created,hmsg)]).map Prod.fst
    rw [List.map_append,← h.head]
    rfl
  · rcases List.mem_append.mp hw with hw | hw
    · obtain ⟨tid',hcb,hpend⟩ := h.waits w hw
      have hne : w.1 ≠ m.created := by
        intro heq
        rw [heq] at hcb
        exact absurd (hnone.symm.trans hcb) (by simp)
      exact ⟨tid',(hold w.1 hne).trans hcb,hpend.same (sent_same hq hu (sent_ne hq hpend.cbkf))⟩
    · rw [List.mem_singleton.mp hw]
      exact ⟨tid,hself,sent_pending hq hu⟩
  · by_cases heq : i = m.created
    · subst heq
      exact Or.inr ⟨hmsg,List.mem_append_right _ List.mem_cons_self⟩
    · dsimp only at hp
      rw [hold i heq] at hp
      rcases h.alloc i p hp with hcur | ⟨t,ht⟩
      · exact Or.inl hcur
      · exact Or.inr ⟨t,List.mem_append_left _ ht⟩
  · by_cases heq : tid' = tid
    · subst heq
      have hcbkf := (sent_pending hq hu).cbkf
      dsimp only at htid
      rw [hcbkf] at htid
      cases htid
      exact Or.inl ⟨_,hself,rfl⟩
    · have hsame := sent_same hq hu heq
      have hne : i ≠ m.created := by
        rintro rfl
        rcases h.owner tid' _ ((cbkf_same hsame).symm.trans htid) with ⟨p,hp,-⟩ | ⟨-,hexp,-⟩
        · exact absurd (hnone.symm.trans hp) (by simp)
        · exact hnew _ hexp rfl
      dsimp only
      rw [hold i hne]
      rcases h.owner tid' i ((cbkf_same hsame).symm.trans htid) with hp | ⟨hn,hexp,hidle⟩
      · exact Or.inl hp
      · exact Or.inr ⟨hn,List.mem_cons_of_mem _ hexp,hidle.same hsame⟩
  · obtain ⟨tid',htid⟩ := h.left i ((List.mem_cons.mp hi).resolve_left (by simp)) hcur
    exact ⟨tid',(cbkf_same (sent_same hq hu (sent_ne hq htid))).trans htid⟩
  · have hlt : m.created < i := hi
    obtain ⟨hn,hlog⟩ := h.fresh i (Nat.le_of_lt hlt)
    refine ⟨(hold i hlt.ne').trans hn,fun e he => ?_⟩
    rcases List.mem_cons.mp he with rfl | he
    · exact fun heq => hlt.ne (Option.some.inj heq)
    · exact hlog e he

end Sent

theorem foreign_apart {c : Call Cbk} (hc : Foreign q c) (hr : c.run q = some r) : Apart q r :=
  fun _ _ htid => hc.same (by simp) hr htid

theorem Inv.acted (h : Inv busy cur s) (ha : Acted s t) : Inv busy cur t := by
  have hnone := (h.fresh s.2.created (le_refl _)).1
  cases ha with
  | none => exact h
  | regCbk scbk => exact ⟨h.wf,h.told,h.head,h.waits,h.alloc,h.owner,h.left,h.fresh⟩
  | noTimer hmsg =>
    rw [dropped_eq hnone]
    exact h.more
  | unsent hmsg tid q r hq hr =>
    rw [dropped_eq hnone]
    exact h.more.apart ((h.wf.timerCreate hq).timerDelete hr) (unsent_apart hq hr)
  | sent hmsg tid now itv q r hq hr => exact h.sent hmsg hq hr
  | timer c q hc hq => exact h.apart (h.wf.call hq) (foreign_apart hc hq)

theorem Inv.acts {as : List Act} (h : Inv busy cur s) (ha : acts as s = some t) : Inv busy cur t :=
  acts_keep (I := Inv busy cur) (fun _ _ hact hi => hi.acted hact) ha h

/-! ### A callback -/

/-- A callback is called: it waits no longer. -/
theorem Inv.calling {resp : Option Bytes} {e : Entry} (h : Inv busy none (q,m)) (hw : (pcb,hmsg) ∈ waiting m.log)
    (htold : Told (.called pcb resp::e::m.log)) (he : (∃ tbuf, e = .received tbuf) ∨ e = .expired pcb) :
    Inv busy (some pcb) (q,{m with log := .called pcb resp::e::m.log,sysmHead := m.sysmHead.erase pcb}) := by
  have hwait : waiting (e::m.log) = waiting m.log := by
    rcases he with ⟨tbuf,rfl⟩ | rfl
    · rfl
    · rfl
  have hlt : pcb < m.created := by
    by_contra hle
    exact (h.fresh pcb (Nat.not_lt.mp hle)).2 _ (waiting_sent hw) rfl
  refine ⟨h.wf,htold,?_,fun w hw' => ?_,fun i p hp => ?_,fun tid i htid => ?_,fun i hi hcur => ?_,fun i hi => ?_⟩
  · have hnodup := h.told.nodup
    have hhead := h.head
    dsimp only at hhead hnodup
    dsimp only [waiting]
    rw [hwait,hhead,hnodup.erase_eq_filter,List.filter_map]
    congr 1
    apply List.filter_congr
    intro w _
    simp [bne,beq_eq_decide]
  · obtain ⟨hw',-⟩ := mem_waiting_called.mp hw'
    rw [hwait] at hw'
    exact h.waits w hw'
  · by_cases heq : i = pcb
    · exact Or.inl (heq ▸ rfl)
    · obtain ⟨t,ht⟩ := (h.alloc i p hp).resolve_left (by simp)
      refine Or.inr ⟨t,mem_waiting_called.mpr ⟨?_,heq⟩⟩
      rw [hwait]
      exact ht
  · rcases h.owner tid i htid with hp | ⟨hn,hexp,hidle⟩
    · exact Or.inl hp
    · exact Or.inr ⟨hn,List.mem_cons_of_mem _ (List.mem_cons_of_mem _ hexp),hidle⟩
  · have hi := (List.mem_cons.mp hi).resolve_left (by simp)
    rcases List.mem_cons.mp hi with hi | hi
    · rcases he with ⟨tbuf,rfl⟩ | rfl
      · cases hi
      · cases hi
        exact absurd rfl hcur
    · exact h.left i hi (by simp)
  · obtain ⟨hn,hlog⟩ := h.fresh i hi
    refine ⟨hn,fun e' he' => ?_⟩
    have hne : some pcb ≠ some i := fun heq => by
      have hle : m.created ≤ i := hi
      exact absurd (Option.some.inj heq) (by omega)
    rcases List.mem_cons.mp he' with rfl | he'
    · exact hne
    · rcases List.mem_cons.mp he' with rfl | he'
      · rcases he with ⟨tbuf,rfl⟩ | rfl
        · simp [Entry.pcb?]
        · exact hne
      · exact hlog e' he'

/-- The timer of the callback changes. -/
theorem Inv.retimer {busy' : Option ℕ} {p : Cb} (h : Inv busy (some pcb) (q,m)) (hcb : m.cbs pcb = some p)
    (hnot : ∀ t, (pcb,t) ∉ waiting m.log) (hq : q.cbkf p.tmrid = some (.sysm pcb))
    (hr : r.cbkf p.tmrid = none ∨ r.cbkf p.tmrid = some (.sysm pcb))
    (hsame : ∀ tid, tid ≠ p.tmrid → Same q r tid) (hwf : Wf r busy') : Inv busy' (some pcb) (r,m) := by
  have hne : ∀ {tid i}, q.cbkf tid = some (.sysm i) → i ≠ pcb → tid ≠ p.tmrid := by
    rintro tid i htid hi rfl
    rw [hq] at htid
    cases htid
    exact hi rfl
  refine ⟨hwf,h.told,h.head,fun w hw => ?_,h.alloc,fun tid i htid => ?_,fun i hi hcur => ?_,h.fresh⟩
  · obtain ⟨tid,hcb',hpend⟩ := h.waits w hw
    have hw1 : w.1 ≠ pcb := by
      rintro rfl
      exact hnot w.2 hw
    exact ⟨tid,hcb',hpend.same (hsame tid (hne hpend.cbkf hw1))⟩
  · by_cases heq : tid = p.tmrid
    · subst heq
      rcases hr with hr | hr
      · dsimp only at htid
        rw [hr] at htid
        exact absurd htid (by simp)
      · dsimp only at htid
        rw [hr] at htid
        cases htid
        exact Or.inl ⟨p,hcb,rfl⟩
    · have hs := hsame tid heq
      rcases h.owner tid i ((cbkf_same hs).symm.trans htid) with hp | ⟨hn,hexp,hidle⟩
      · exact Or.inl hp
      · exact Or.inr ⟨hn,hexp,hidle.same hs⟩
  · obtain ⟨tid,htid⟩ := h.left i hi hcur
    have hi' : i ≠ pcb := fun heq => hcur (heq ▸ rfl)
    exact ⟨tid,(cbkf_same (hsame tid (hne htid hi'))).trans htid⟩

/-- The record is freed; its timer is gone, or it has fired. -/
theorem Inv.freed {p : Cb} (h : Inv busy (some pcb) (q,m)) (hcb : m.cbs pcb = some p)
    (hnot : ∀ t, (pcb,t) ∉ waiting m.log)
    (htimer : q.cbkf p.tmrid = none ∧ .expired pcb ∉ m.log ∨
      q.cbkf p.tmrid = some (.sysm pcb) ∧ .expired pcb ∈ m.log ∧ Idle q p.tmrid) :
    Inv busy none (q,m.free pcb) := by
  have hold : ∀ i, i ≠ pcb → (m.free pcb).cbs i = m.cbs i := fun i hi => Function.update_of_ne hi _ _
  have hself : (m.free pcb).cbs pcb = none := Function.update_self _ _ _
  refine ⟨h.wf,h.told,h.head,fun w hw => ?_,fun i p' hp => ?_,fun tid i htid => ?_,fun i hi _ => ?_,fun i hi => ?_⟩
  · obtain ⟨tid,hcb',hpend⟩ := h.waits w hw
    have hw1 : w.1 ≠ pcb := by
      rintro rfl
      exact hnot w.2 hw
    exact ⟨tid,(hold w.1 hw1).trans hcb',hpend⟩
  · have hi : i ≠ pcb := by
      rintro rfl
      exact absurd (hself.symm.trans hp) (by simp)
    rcases h.alloc i p' ((hold i hi).symm.trans hp) with hcur | hw
    · exact absurd (Option.some.inj hcur).symm hi
    · exact Or.inr hw
  · by_cases hi : i = pcb
    · subst hi
      rcases h.owner tid i htid with ⟨p',hp,rfl⟩ | ⟨hn,-,-⟩
      · obtain rfl := Option.some.inj (hcb.symm.trans hp)
        rcases htimer with ⟨hgone,-⟩ | ⟨-,hexp,hidle⟩
        · exact absurd (hgone.symm.trans htid) (by simp)
        · exact Or.inr ⟨hself,hexp,hidle⟩
      · exact absurd (hn.symm.trans hcb) (by simp)
    · dsimp only
      rw [hold i hi]
      exact h.owner tid i htid
  · by_cases heq : i = pcb
    · subst heq
      rcases htimer with ⟨-,hno⟩ | ⟨htid,-,-⟩
      · exact absurd hi hno
      · exact ⟨_,htid⟩
    · exact h.left i hi fun hcur => heq (Option.some.inj hcur).symm
  · obtain ⟨hn,hlog⟩ := h.fresh i hi
    refine ⟨?_,hlog⟩
    by_cases heq : i = pcb
    · rw [heq]
      exact hself
    · exact (hold i heq).trans hn

/-- What callbacks leave as it is, and what they add to the log. -/
structure Later (s t : Sys) : Prop where
  cbs : ∀ pcb < s.2.created, t.2.cbs pcb = s.2.cbs pcb
  created : s.2.created ≤ t.2.created
  timers : ∀ tid pcb, s.1.cbkf tid = some (.sysm pcb) → Same s.1 t.1 tid
  log : ∃ l, t.2.log = l ++ s.2.log ∧ ∀ e ∈ l, ∃ pcb hmsg, e = .sent pcb hmsg

theorem log_same (l : List Entry) : ∃ l', l = l' ++ l ∧ ∀ e ∈ l', ∃ pcb hmsg, e = .sent pcb hmsg :=
  ⟨[],rfl,fun _ h => absurd h List.not_mem_nil⟩

theorem Later.refl (s : Sys) : Later s s :=
  ⟨fun _ _ => rfl,le_refl _,fun tid _ _ => Same.refl _ tid,log_same _⟩

theorem Later.trans {v : Sys} (h : Later s t) (h' : Later t v) : Later s v := by
  obtain ⟨l,hl,hsent⟩ := h.log
  obtain ⟨l',hl',hsent'⟩ := h'.log
  refine ⟨fun pcb hpcb => ?_,h.created.trans h'.created,fun tid pcb htid => ?_,l' ++ l,?_,fun e he => ?_⟩
  · exact (h'.cbs pcb (lt_of_lt_of_le hpcb h.created)).trans (h.cbs pcb hpcb)
  · have hs := h.timers tid pcb htid
    exact hs.trans (h'.timers tid pcb ((cbkf_same hs).trans htid))
  · rw [hl',hl,List.append_assoc]
  · exact (List.mem_append.mp he).elim (hsent' e) (hsent e)

theorem Acted.later (ha : Acted s t) : Later s t := by
  have hfree : ∀ hmsg, ∀ pcb < s.2.created, ((s.2.alloc hmsg).free s.2.created).cbs pcb = s.2.cbs pcb := by
    intro hmsg pcb hpcb
    exact (Function.update_of_ne hpcb.ne _ _).trans (Function.update_of_ne hpcb.ne _ _)
  cases ha with
  | none => exact .refl s
  | regCbk scbk => exact ⟨fun _ _ => rfl,le_refl _,fun tid _ _ => Same.refl _ tid,log_same _⟩
  | noTimer hmsg => exact ⟨hfree hmsg,Nat.le_succ _,fun tid _ _ => Same.refl _ tid,log_same _⟩
  | unsent hmsg tid q r hq hr =>
    exact ⟨hfree hmsg,Nat.le_succ _,fun tid pcb htid => unsent_apart hq hr tid pcb (Or.inl htid),log_same _⟩
  | sent hmsg tid now itv q r hq hr =>
    refine ⟨fun pcb hpcb => ?_,Nat.le_succ _,fun tid' pcb htid => sent_same hq hr (sent_ne hq htid),
      [.sent s.2.created hmsg],rfl,fun e he => ⟨_,_,List.mem_singleton.mp he⟩⟩
    rw [enlist_eq]
    exact Function.update_of_ne hpcb.ne _ _
  | timer c q hc hq =>
    exact ⟨fun _ _ => rfl,le_refl _,fun tid pcb htid => foreign_apart hc hq tid pcb (Or.inl htid),log_same _⟩

theorem later_acts {as : List Act} (ha : acts as s = some t) : Later s t :=
  acts_keep (I := Later s) (fun _ _ hact h => h.trans hact.later) ha (.refl s)

theorem Later.mem {e : Entry} (h : Later s t) (he : e ∈ s.2.log) : e ∈ t.2.log := by
  obtain ⟨l,hl,-⟩ := h.log
  rw [hl]
  exact List.mem_append_right _ he

theorem Later.expired (h : Later s t) (pcb : ℕ) : .expired pcb ∈ t.2.log ↔ .expired pcb ∈ s.2.log := by
  obtain ⟨l,hl,hsent⟩ := h.log
  rw [hl,List.mem_append]
  refine or_iff_right fun hmem => ?_
  obtain ⟨i,t,heq⟩ := hsent _ hmem
  cases heq

/-- The record whose callback is running is still there, with its timer. -/
theorem Inv.running (h : Inv busy (some pcb) s) {p : Cb} (hcb : s.2.cbs pcb = some p) (hl : Later s t) :
    t.2.cbs pcb = some p := by
  have hlt : pcb < s.2.created := by
    by_contra hle
    exact absurd ((h.fresh pcb (Nat.not_lt.mp hle)).1.symm.trans hcb) (by simp)
  exact (hl.cbs pcb hlt).trans hcb

end Acts

/-! ### A reply -/

section Message

variable {s t : Sys} {tbuf : Bytes} {x : List Act} {hmsg : UInt8}

/-- The list is searched in the order in which the callbacks wait. -/
theorem Inv.search_eq {busy cur : Option ℕ} (h : Inv busy cur s) (hmsg : UInt8) :
    search s.2 hmsg = oldest s.2.log hmsg := by
  unfold search oldest
  rw [h.head,List.find?_map]
  congr 1
  have hall : ∀ w ∈ waiting s.2.log,
      ((fun pcb => (s.2.cbs pcb).any fun p => p.hmsg = hmsg) ∘ Prod.fst) w = decide (w.2 = hmsg) := by
    intro w hw
    obtain ⟨tid,hcb,-⟩ := h.waits w hw
    simp [hcb]
  generalize waiting s.2.log = l at hall
  induction l with
  | nil => rfl
  | cons w l ih =>
    rw [List.find?_cons,List.find?_cons,hall w List.mem_cons_self,
      ih fun w' hw' => hall w' (List.mem_cons_of_mem _ hw')]

/-- A reply takes the record and its timer away. -/
theorem Inv.reply {pcb : ℕ} {r : Mgr} (h : Inv none none s) (hold : oldest s.2.log (msgType tbuf) = some pcb)
    (hr : r = {(s.2.note (.received tbuf)).note (.called pcb (some tbuf)) with sysmHead := s.2.sysmHead.erase pcb})
    (ht : ((Replies.acts x (s.1,r)).bind fun s =>
      match s.2.cbs pcb with
      | none => none
      | some p => (Timers.timerDelete s.1 p.tmrid).map fun q => (q,s.2.free pcb)) = some t) :
    Inv none none t ∧ ∀ i, .expired i ∈ t.2.log ↔ .expired i ∈ s.2.log := by
  have hw := oldest_mem hold
  obtain ⟨tid,hcb,hpend⟩ := h.waits _ hw
  dsimp only at hcb hpend
  have hcall : Inv none (some pcb) (s.1,r) := by
    rw [hr]
    exact h.calling (q := s.1) (m := s.2) hw (.answered h.told hold) (Or.inl ⟨tbuf,rfl⟩)
  obtain ⟨u,hu,ht⟩ := Option.bind_eq_some_iff.mp ht
  have hlater := later_acts hu
  have hmid := hcall.acts hu
  have hcb' : u.2.cbs pcb = some ⟨msgType tbuf,tid⟩ := hcall.running (by rw [hr]; exact hcb) hlater
  have hpend' : Pending u.1 pcb tid := hpend.same (hlater.timers tid pcb hpend.cbkf)
  rw [hcb'] at ht
  obtain ⟨q,hq,rfl⟩ := Option.map_eq_some_iff.mp ht
  have hcalled : .called pcb (some tbuf) ∈ u.2.log := hlater.mem (by rw [hr]; exact List.mem_cons_self)
  have hnot := hmid.told.not_waiting hcalled
  have hno : .expired pcb ∉ u.2.log := fun hexp =>
    absurd (hmid.told.called_unique hcalled (hmid.told.expired_called.mp hexp)) (by simp)
  have hgone : q.cbkf tid = none := by
    unfold Queue.cbkf
    rw [Timers.timerDelete_mem hpend'.armed hq]
    rfl
  have hre : Inv none (some pcb) (q,u.2) := hmid.retimer hcb' hnot hpend'.cbkf (Or.inl hgone)
    (fun tid' hne => Timers.same_timerDelete hq hne) (hmid.wf.timerDelete hq)
  refine ⟨hre.freed hcb' hnot (Or.inl ⟨hgone,hno⟩),fun i => ?_⟩
  have hiff := hlater.expired i
  dsimp only at hiff
  rw [hr] at hiff
  simpa [Mgr.note,Mgr.free] using hiff

theorem Inv.message (h : Inv none none s) (ht : sysmgrProcEvent tbuf x s = some t) :
    Inv none none t ∧ ∀ i, .expired i ∈ t.2.log ↔ .expired i ∈ s.2.log := by
  unfold sysmgrProcEvent at ht
  split at ht
  · cases ht
    exact ⟨h,fun _ => Iff.rfl⟩
  split at ht
  · split at ht
    · exact ⟨h.acts ht,(later_acts ht).expired⟩
    · cases ht
      exact ⟨h,fun _ => Iff.rfl⟩
  dsimp only at ht
  rw [h.search_eq] at ht
  split at ht
  · next hnone =>
    cases ht
    refine ⟨⟨h.wf,.unheard h.told hnone,h.head,h.waits,h.alloc,fun tid i htid => ?_,fun i hi hcur => ?_,
      fun i hi => ?_⟩,fun i => by simp [Mgr.note]⟩
    · rcases h.owner tid i htid with hp | ⟨hn,hexp,hidle⟩
      · exact Or.inl hp
      · exact Or.inr ⟨hn,List.mem_cons_of_mem _ hexp,hidle⟩
    · exact h.left i ((List.mem_cons.mp hi).resolve_left (by simp)) hcur
    · obtain ⟨hn,hlog⟩ := h.fresh i hi
      refine ⟨hn,fun e he => ?_⟩
      rcases List.mem_cons.mp he with rfl | he
      · simp [Entry.pcb?]
      · exact hlog e he
  · next pcb hold => exact h.reply hold rfl ht

end Message

/-! ### A timer -/

section Fire

variable {s t : Sys} {x : List Act} {id pcb : ℕ} {curr : UInt64}

/-- The timer of a record fires when the record waits. -/
theorem Inv.waiting_of_timer (h : Inv none none s) (hid : id ∈ s.1.tqList) (hcbkf : s.1.cbkf id = some (.sysm pcb)) :
    ∃ hmsg, (pcb,hmsg) ∈ waiting s.2.log ∧ s.2.cbs pcb = some ⟨hmsg,id⟩ ∧ Pending s.1 pcb id := by
  rcases h.owner id pcb hcbkf with ⟨p,hp,rfl⟩ | ⟨-,-,hidle⟩
  · obtain ⟨hmsg,hw⟩ := (h.alloc pcb p hp).resolve_left (by simp)
    obtain ⟨tid,hcb,hpend⟩ := h.waits _ hw
    dsimp only at hcb hpend
    obtain rfl := Option.some.inj (hp.symm.trans hcb)
    exact ⟨hmsg,hw,hcb,hpend⟩
  · exact absurd hid hidle.off

/-- A timeout takes the record away; the timer stays. -/
theorem Inv.timeout (h : Inv none none s) (hid : id ∈ s.1.tqList) (hcbkf : s.1.cbkf id = some (.sysm pcb))
    (ht : Timers.fire Cbk.run x id s = some t) :
    Inv none none t ∧ .expired pcb ∈ t.2.log ∧ ∃ hmsg, .sent pcb hmsg ∈ t.2.log := by
  obtain ⟨tinfo,u,q,htinfo,hu,hq,rfl⟩ := Timers.fire_cases ht
  obtain ⟨hmsg,hw,hcb,hpend⟩ := h.waiting_of_timer hid hcbkf
  obtain ⟨t₀,ht₀,hcb₀,hirt⟩ := hpend.timer
  obtain rfl := Option.some.inj (htinfo.symm.trans ht₀)
  rw [hcb₀] at hu
  change sysmgrTimerCbk pcb x (Timers.detach s.1 id tinfo,s.2) = some u at hu
  unfold sysmgrTimerCbk at hu
  dsimp only at hu
  rw [hcb] at hu
  obtain ⟨v,hv,rfl⟩ := Option.map_eq_some_iff.mp hu
  have hcall := h.calling (q := s.1) (m := s.2) hw (.timedOut h.told hw) (Or.inr rfl)
  have hnot : ∀ t, (pcb,t) ∉ waiting (.called pcb none::.expired pcb::s.2.log) :=
    hcall.told.not_waiting List.mem_cons_self
  have hring : Inv (some id) (some pcb) (Timers.detach s.1 id tinfo,
      {(s.2.note (.expired pcb)).note (.called pcb none) with sysmHead := s.2.sysmHead.erase pcb}) := by
    refine hcall.retimer hcb hnot hcbkf (Or.inr ?_) (fun tid hne => Timers.same_detach _ hne) h.wf.detach
    rw [Timers.cbkf_detach,hcb₀]
  have hlater := later_acts hv
  have hmid := hring.acts hv
  have hcb' := hring.running hcb hlater
  have hdetach : (Timers.detach s.1 id tinfo).cbkf id = some (.sysm pcb) := by
    rw [Timers.cbkf_detach,hcb₀]
  have hsame := hlater.timers id pcb hdetach
  have hbusy : v.1.cbkf id = some (.sysm pcb) := (cbkf_same hsame).trans hdetach
  have hheap : v.1.heap id = some {tinfo with iflag := ⟨true,false,false,false⟩} :=
    hsame.heap.trans (Timers.set_heap_self _ _ _)
  have hwf : Wf q none := hmid.wf.settle hq
  have hother : ∀ tid, tid ≠ id → Same v.1 q tid := fun tid hne => Timers.same_settle hq hne
  have hoff := (hmid.wf.held id rfl).2
  rw [Timers.settle_once hheap rfl hirt,Option.some.injEq] at hq
  have hleft : q.cbkf id = some (.sysm pcb) := by
    rw [← hq,Timers.cbkf_set,hcb₀]
  have hcalled : .called pcb none ∈ v.2.log := hlater.mem List.mem_cons_self
  have hexp : .expired pcb ∈ v.2.log := hlater.mem (List.mem_cons_of_mem _ List.mem_cons_self)
  have hsent : .sent pcb hmsg ∈ v.2.log :=
    hlater.mem (List.mem_cons_of_mem _ (List.mem_cons_of_mem _ (waiting_sent hw)))
  have hnot' := hmid.told.not_waiting hcalled
  have hre : Inv none (some pcb) (q,v.2) := hmid.retimer hcb' hnot' hbusy (Or.inr hleft) hother hwf
  have hidle : Idle q id := by
    rw [← hq]
    refine ⟨hoff,fun t₁ ht₁ => ?_⟩
    rw [Timers.set_heap_self] at ht₁
    rw [← Option.some.inj ht₁]
    rfl
  exact ⟨hre.freed hcb' hnot' (Or.inr ⟨hleft,hexp,hidle⟩),hexp,hmsg,hsent⟩

/-- Another timer fires. -/
theorem Inv.fire_other (h : Inv none none s) (hcbkf : ∀ pcb, s.1.cbkf id ≠ some (.sysm pcb))
    (ht : Timers.fire Cbk.run x id s = some t) :
    Inv none none t ∧ ∀ i, .expired i ∈ t.2.log ↔ .expired i ∈ s.2.log := by
  obtain ⟨tinfo,u,q,htinfo,hu,hq,rfl⟩ := Timers.fire_cases ht
  have hother : tinfo.cbkf = .other := by
    cases hc : tinfo.cbkf with
    | sysm pcb => exact absurd (by rw [Timers.cbkf_of_heap htinfo,hc]) (hcbkf pcb)
    | other => rfl
  rw [hother] at hu
  have hdetach : Apart s.1 (Timers.detach s.1 id tinfo) := by
    refine apart_of_same id (fun tid hne => Timers.same_detach _ hne) hcbkf fun pcb => ?_
    rw [Timers.cbkf_detach,hother]
    simp
  have hstart : Inv (some id) none (Timers.detach s.1 id tinfo,s.2) := h.apart h.wf.detach hdetach
  have hmid : Inv (some id) none u := hstart.acts hu
  have hbusy : ∀ pcb, u.1.cbkf id ≠ some (.sysm pcb) := by
    intro pcb hpcb
    obtain ⟨hsome,hoff⟩ := hmid.wf.held id rfl
    rcases hmid.owner id pcb hpcb with ⟨p,hp,rfl⟩ | ⟨-,-,hidle⟩
    · obtain ⟨hmsg,hw⟩ := (hmid.alloc pcb p hp).resolve_left (by simp)
      obtain ⟨tid,hcb,hpend⟩ := hmid.waits _ hw
      dsimp only at hcb
      obtain rfl := Option.some.inj (hp.symm.trans hcb)
      exact hoff hpend.armed
    · obtain ⟨tm,htm⟩ := Option.isSome_iff_exists.mp hsome
      exact absurd ((hmid.wf.flag id tm htm).mpr rfl) (by simp [hidle.flag tm htm])
  have hsettle : Apart u.1 q := by
    refine apart_of_same id (fun tid hne => Timers.same_settle hq hne) hbusy fun pcb => ?_
    rcases Timers.settle_cbkf hq with hq | hq
    · simp [hq]
    · rw [hq]
      exact hbusy pcb
  have hlater : Later (Timers.detach s.1 id tinfo,s.2) u := later_acts hu
  exact ⟨hmid.apart (hmid.wf.settle hq) hsettle,hlater.expired⟩

end Fire

/-! ### Runs -/

section Runs

variable {s t : Sys} {e : Event} {es : List Event}

/-- No timer of a callback fires. -/
def Untimed (_ : List Event) (s : Sys) (e : Event) : Prop := ∀ curr x id pcb, e = .timer curr x →
  Timers.due curr s.1 = some id → s.1.cbkf id ≠ some (.sysm pcb)

theorem due_mem {q : Queue Cbk} {curr : UInt64} {id : ℕ} (h : Timers.due curr q = some id) : id ∈ q.tqList := by
  unfold Timers.due at h
  split at h
  · exact absurd h (by simp)
  · next tinfo l hl =>
    split at h
    · exact absurd h (by simp)
    · cases h
      rw [hl]
      exact List.mem_cons_self

theorem apart_rearm (q : Queue Cbk) : Apart q (Timers.rearm q) := fun tid _ _ => Timers.same_rearm q tid

/-- A step in which no timer of a callback fires. -/
theorem Inv.untimed (h : Inv none none s) (hg : Untimed es s e) (ht : step s e = some t) :
    Inv none none t ∧ ∀ i, .expired i ∈ t.2.log ↔ .expired i ∈ s.2.log := by
  cases e with
  | act a =>
    have hact := act_acted ht
    exact ⟨h.acted hact,hact.later.expired⟩
  | message tbuf x => exact h.message ht
  | timer curr x =>
    change timerRound curr x s = some t at ht
    unfold timerRound at ht
    split at ht
    · cases ht
      exact ⟨h.apart h.wf.rearm (apart_rearm s.1),fun _ => Iff.rfl⟩
    · next id hdue => exact h.fire_other (fun pcb => hg curr x id pcb rfl hdue) ht

/-- A step in which one does. -/
theorem Inv.timed (h : Inv none none s) (hg : ¬Untimed es s e) (ht : step s e = some t) :
    Inv none none t ∧ ∃ pcb hmsg, .expired pcb ∈ t.2.log ∧ .sent pcb hmsg ∈ t.2.log := by
  unfold Untimed at hg
  push Not at hg
  obtain ⟨curr,x,id,pcb,rfl,hdue,hcbkf⟩ := hg
  change timerRound curr x s = some t at ht
  unfold timerRound at ht
  rw [hdue] at ht
  obtain ⟨hinv,hexp,hmsg,hsent⟩ := h.timeout (due_mem hdue) hcbkf ht
  exact ⟨hinv,pcb,hmsg,hexp,hsent⟩

theorem inv_init : Inv none none init := by
  refine ⟨Timers.wf_init,.nil,rfl,?_,?_,?_,?_,?_⟩
  · exact fun _ hw => absurd hw List.not_mem_nil
  · exact fun _ _ hp => absurd hp (by simp [init])
  · exact fun _ _ hc => absurd hc (by simp [Queue.cbkf,init,Timers.init])
  · exact fun _ hexp => absurd hexp List.not_mem_nil
  · exact fun _ _ => ⟨rfl,fun _ he => absurd he List.not_mem_nil⟩

theorem run_inv (h : Trace.Run step Trace.anyStep init es s) : Inv none none s := by
  refine h.invariant (I := fun _ s => Inv none none s) inv_init fun es s e t _ hi _ ht => ?_
  by_cases hg : Untimed es s e
  · exact (hi.untimed hg ht).1
  · exact (hi.timed hg ht).1

/-- What the callbacks of a step call can be called. -/
def Able (s : Sys) : Event → Prop
  | .act a => (a.run s).isSome
  | .message _ x => ∀ r, (Replies.acts x (s.1,r)).isSome
  | .timer curr x => ∀ id tinfo r, Timers.due curr s.1 = some id → s.1.heap id = some tinfo →
      (Replies.acts x (Timers.detach s.1 id tinfo,r)).isSome

theorem Inv.message_isSome {tbuf : Bytes} {x : List Act} (h : Inv none none s)
    (hx : ∀ r, (Replies.acts x (s.1,r)).isSome) : (sysmgrProcEvent tbuf x s).isSome := by
  unfold sysmgrProcEvent
  split
  · rfl
  split
  · split
    · exact hx s.2
    · rfl
  dsimp only
  rw [h.search_eq]
  split
  · rfl
  next pcb hold =>
  have hw := oldest_mem hold
  obtain ⟨tid,hcb,hpend⟩ := h.waits _ hw
  dsimp only at hcb hpend
  obtain ⟨u,hu⟩ := Option.isSome_iff_exists.mp
    (hx {(s.2.note (.received tbuf)).note (.called pcb (some tbuf)) with sysmHead := s.2.sysmHead.erase pcb})
  have hcall := h.calling (q := s.1) (m := s.2) hw (.answered h.told hold) (Or.inl ⟨tbuf,rfl⟩)
  have hlater := later_acts hu
  have hcb' : u.2.cbs pcb = some ⟨msgType tbuf,tid⟩ := hcall.running hcb hlater
  have hpend' : Pending u.1 pcb tid := hpend.same (hlater.timers tid pcb hpend.cbkf)
  rw [hu,Option.bind_some,hcb']
  dsimp only
  rw [Option.isSome_map]
  exact Timers.timerDelete_isSome ((hcall.acts hu).wf.alive tid hpend'.armed)

theorem wf_acts {q : Queue Cbk} {m : Mgr} {busy : Option ℕ} {x : List Act} {u : Sys} (h : Wf q busy)
    (hu : Replies.acts x (q,m) = some u) : Wf u.1 busy := by
  refine acts_keep (I := fun s => Wf s.1 busy) (fun s t hact hwf => ?_) hu h
  cases hact with
  | none => exact hwf
  | regCbk scbk => exact hwf
  | noTimer hmsg => exact hwf
  | unsent hmsg tid q r hq hr => exact (hwf.timerCreate hq).timerDelete hr
  | sent hmsg tid now itv q r hq hr => exact (hwf.timerCreate hq).timerStart hr
  | timer c q hc hq => exact hwf.call hq

theorem Inv.fire_isSome {id : ℕ} {tinfo : Timers.Timer Cbk} {x : List Act} (h : Inv none none s)
    (hid : id ∈ s.1.tqList) (htinfo : s.1.heap id = some tinfo)
    (hx : ∀ r, (Replies.acts x (Timers.detach s.1 id tinfo,r)).isSome) : (Timers.fire Cbk.run x id s).isSome := by
  have hcbkf := Timers.cbkf_of_heap htinfo
  obtain ⟨u,hu,hheap⟩ : ∃ u, Cbk.run tinfo.cbkf id x (Timers.detach s.1 id tinfo,s.2) = some u ∧
      (u.1.heap id).isSome := by
    cases hc : tinfo.cbkf with
    | other =>
      obtain ⟨u,hu⟩ := Option.isSome_iff_exists.mp (hx s.2)
      exact ⟨u,hu,(wf_acts h.wf.detach hu).held id rfl |>.1⟩
    | sysm pcb =>
      rw [hc] at hcbkf
      obtain ⟨hmsg,-,hcb,-⟩ := h.waiting_of_timer hid hcbkf
      obtain ⟨u,hu⟩ := Option.isSome_iff_exists.mp
        (hx {(s.2.note (.expired pcb)).note (.called pcb none) with sysmHead := s.2.sysmHead.erase pcb})
      refine ⟨(u.1,u.2.free pcb),?_,(wf_acts h.wf.detach hu).held id rfl |>.1⟩
      change sysmgrTimerCbk pcb x (Timers.detach s.1 id tinfo,s.2) = _
      unfold sysmgrTimerCbk
      dsimp only
      rw [hcb]
      dsimp only
      rw [hu]
      rfl
  unfold Timers.fire
  rw [htinfo]
  dsimp only
  rw [hu,Option.bind_some,Option.isSome_map]
  exact Timers.settle_isSome hheap

/-- Neither a reply nor a timeout meets a record or a timer that has been freed. -/
theorem run_proceeds (h : Trace.Run step Trace.anyStep init es s) (he : Able s e) : (step s e).isSome := by
  have hi := run_inv h
  cases e with
  | act a => exact he
  | message tbuf x => exact hi.message_isSome he
  | timer curr x =>
    change (timerRound curr x s).isSome
    unfold timerRound
    split
    · rfl
    · next id hdue =>
      have hid := due_mem hdue
      obtain ⟨tinfo,htinfo⟩ := Option.isSome_iff_exists.mp (hi.wf.alive id hid)
      exact hi.fire_isSome hid htinfo fun r => he id tinfo r hdue htinfo

/-- What becomes of a callback: it is called once at most, with the first reply of its type that
comes while it is the oldest one of this type, or on its timeout; then nothing is left of it. -/
structure Served (s : Sys) (pcb : ℕ) : Prop where
  once : (callsOf pcb s.2.log).length ≤ 1
  called : ∀ l₂ resp l₁, s.2.log = l₂ ++ .called pcb resp::l₁ →
    (resp = none ∧ ∃ l₀, l₁ = .expired pcb::l₀ ∧ ∃ hmsg, (pcb,hmsg) ∈ waiting l₀) ∨
      ∃ tbuf l₀, resp = some tbuf ∧ l₁ = .received tbuf::l₀ ∧ oldest l₀ (msgType tbuf) = some pcb
  first : ∀ l₂ tbuf l₀, s.2.log = l₂ ++ .received tbuf::l₀ → oldest l₀ (msgType tbuf) = some pcb →
    ∃ l₃, l₂ = l₃ ++ [.called pcb (some tbuf)]
  freed : ∀ resp, .called pcb resp ∈ s.2.log → s.2.cbs pcb = none ∧ ∀ tid, s.1.cbkf tid ≠ some (.sysm pcb)

/-- The callbacks for which `sysmgr_send` returned 0. -/
def Sound (s : Sys) : Prop := ∀ pcb hmsg, .sent pcb hmsg ∈ s.2.log → Served s pcb

theorem Inv.record_freed {pcb : ℕ} {resp : Option Bytes} (h : Inv none none s) (hcalled : .called pcb resp ∈ s.2.log) :
    s.2.cbs pcb = none := by
  by_contra hsome
  obtain ⟨p,hp⟩ := Option.ne_none_iff_exists'.mp hsome
  obtain ⟨hmsg,hw⟩ := (h.alloc pcb p hp).resolve_left (by simp)
  exact h.told.not_waiting hcalled hmsg hw

/-- Without a timeout the timer is gone as well. -/
theorem Inv.served {pcb : ℕ} (h : Inv none none s) (hexp : .expired pcb ∉ s.2.log) : Served s pcb := by
  refine ⟨h.told.once pcb,fun l₂ resp l₁ hl => Blocks.each_iff.mp h.told.each_called l₂ _ l₁ hl pcb resp rfl,
    fun l₂ tbuf l₀ hl hold => h.told.reply_taken hl hold,fun resp hcalled => ?_⟩
  have hnone := h.record_freed hcalled
  refine ⟨hnone,fun tid htid => ?_⟩
  rcases h.owner tid pcb htid with ⟨p,hp,-⟩ | ⟨-,hmem,-⟩
  · exact absurd (hnone.symm.trans hp) (by simp)
  · exact hexp hmem

/-- The timer of a callback that timed out stays. -/
theorem Inv.not_sound {pcb : ℕ} {hmsg : UInt8} (h : Inv none none s) (hexp : .expired pcb ∈ s.2.log)
    (hsent : .sent pcb hmsg ∈ s.2.log) : ¬Sound s := by
  intro hsound
  obtain ⟨tid,htid⟩ := h.left pcb hexp (by simp)
  exact ((hsound pcb hmsg hsent).freed none (h.told.expired_called.mp hexp)).2 tid htid

/-- The next state is one in which all is as it should be. -/
def Soundly (_ : List Event) (s : Sys) (e : Event) : Prop := ∀ t, step s e = some t → Sound t

/-- No callback has timed out as long as no timer of one has fired. -/
theorem unexpired (h : Trace.Run step Untimed init es s) (pcb : ℕ) : .expired pcb ∉ s.2.log := by
  have hkeep : Inv none none s ∧ ∀ pcb, .expired pcb ∉ s.2.log := by
    refine h.invariant (I := fun _ s => Inv none none s ∧ ∀ pcb, .expired pcb ∉ s.2.log) ⟨inv_init,?_⟩ ?_
    · exact fun _ hexp => absurd hexp List.not_mem_nil
    · rintro es s e t - ⟨hi,hno⟩ hg ht
      obtain ⟨hi',hiff⟩ := hi.untimed hg ht
      exact ⟨hi',fun pcb hexp => hno pcb ((hiff pcb).mp hexp)⟩
  exact hkeep.2 pcb

/-- Every state of a run is sound when no timer of a callback fires, and no other run has this. -/
theorem soundly_iff (h : Trace.Run step Trace.anyStep init es s) :
    Trace.Run step Soundly init es s ↔ Trace.Run step Untimed init es s := by
  refine (h.forall_iff fun es s e t hr hu _ ht => ?_).symm
  constructor
  · intro hg u hu'
    have hrun : Trace.Run step Untimed init (e::es) u := .cons hu hg hu'
    have hinv : Inv none none u := run_inv hrun.toAny
    exact fun pcb hmsg _ => hinv.served (unexpired hrun pcb)
  · intro hs
    by_contra hg
    obtain ⟨hinv,pcb,hmsg,hexp,hsent⟩ := (run_inv hr).timed hg ht
    exact hinv.not_sound hexp hsent (hs t ht)

/-- In every run a callback is called once at most and its record is freed. -/
theorem run_told (h : Trace.Run step Trace.anyStep init es s) :
    Told s.2.log ∧ ∀ pcb resp, .called pcb resp ∈ s.2.log → s.2.cbs pcb = none := by
  have hinv := run_inv h
  exact ⟨hinv.told,fun pcb resp hcalled => hinv.record_freed hcalled⟩

end Runs

/-- A question for the parameters of this node, or the answer to it. -/
def getThis : Bytes := [8,4,0,0]

/-- Two questions, then one answer, in whose callback a third one is asked. -/
theorem answered_sound :
    ∃ es s, Trace.Run step Soundly init es s ∧ callsOf 0 s.2.log = [some getThis] ∧ s.2.sysmHead = [1,2] := by
  have hexec : ((Trace.exec (Trace.checked (fun _ e => match e with
      | .timer _ _ => false
      | _ => true) step) init
      [.act (.send getThis true 1000000 true (some 7) 4 0),.act (.send getThis true 1000000 true (some 8) 4 5),
        .message getThis [.send getThis true 1000000 true (some 9) 4 9]]).map
      fun s => decide (callsOf 0 s.2.log = [some getThis] ∧ s.2.sysmHead = [1,2])) = some true := by
    decide
  obtain ⟨s,hrun,hs⟩ := Trace.run_of_exec_map _ init _ _ hexec
  have hrun : Trace.Run step Untimed init _ s := hrun.of_checked fun es s e hg => by
    rintro curr x id pcb rfl
    cases hg
  exact ⟨_,s,(soundly_iff hrun.toAny).mpr hrun,of_decide_eq_true hs⟩

/-- One question that nobody answers. -/
theorem unanswered_unsound : ¬∀ es s, Trace.Run step Trace.anyStep init es s → Sound s := by
  intro hall
  have hexec : ((Trace.exec step init
      [.act (.send getThis true 1000000 true (some 7) 4 0),.timer 1000000 []]).map
      fun s => decide (.sent 0 8 ∈ s.2.log ∧ .called 0 none ∈ s.2.log ∧ s.1.cbkf 7 = some (.sysm 0))) = some true := by
    decide
  obtain ⟨s,hrun,hs⟩ := Trace.run_of_exec_map step init _ _ hexec
  obtain ⟨hsent,hcalled,htimer⟩ := of_decide_eq_true hs
  exact ((hall _ s hrun 0 8 hsent).freed none hcalled).2 7 htimer

end Replies
end Autbus
