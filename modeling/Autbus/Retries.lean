import Autbus.Requests

/-! What becomes of a request. Until it is sent nothing is told of it. Then it is in `req_list`
with one timer, which is on the list or in its callback, until it is deleted. -/
namespace Autbus
namespace Requests

open Timers (Queue Call Wf Timer Same)
open SrvRpc (Bytes Send)

/-! ### The requests as a whole -/

structure Neat (r : Rpc) : Prop where
  nodup : r.reqList.Nodup
  known : ∀ req preq, r.reqs req = some preq → req < r.created
  listed : ∀ req ∈ r.reqList, ∃ preq, r.reqs req = some preq ∧ preq.tid.isSome

namespace Neat

variable {r : Rpc} {req : ℕ} {preq : Req}

theorem note (h : Neat r) (e : Entry) : Neat (r.note e) := ⟨h.nodup,h.known,h.listed⟩

/-- A request keeps its timer. -/
theorem put (h : Neat r) {p : Req} (hreq : r.reqs req = some preq) (hp : preq.tid.isSome → p.tid.isSome) :
    Neat (r.put req p) := by
  refine ⟨h.nodup,fun req' p' hp' => ?_,fun req' hreq' => ?_⟩
  · by_cases heq : req' = req
    · rw [heq]
      exact h.known req preq hreq
    · exact h.known req' p' ((Function.update_of_ne heq _ _).symm.trans hp')
  · by_cases heq : req' = req
    · subst heq
      obtain ⟨preq',hpreq',htid⟩ := h.listed req' hreq'
      rw [hreq] at hpreq'
      cases hpreq'
      exact ⟨p,Function.update_self _ _ _,hp htid⟩
    · obtain ⟨p',hp',htid⟩ := h.listed req' hreq'
      exact ⟨p',(Function.update_of_ne heq _ _).trans hp',htid⟩

theorem create (h : Neat r) (dnode : UInt8) (srvid : BitVec 32) : Neat (rpcRequestCreate r dnode srvid) := by
  refine ⟨h.nodup,fun req' p hp => ?_,fun req' hreq' => ?_⟩
  · by_cases heq : req' = r.created
    · rw [heq]
      exact Nat.lt_succ_self _
    · exact Nat.lt_succ_of_lt (h.known req' p ((Function.update_of_ne heq _ _).symm.trans hp))
  · obtain ⟨p,hp,htid⟩ := h.listed req' hreq'
    have hne : req' ≠ r.created := (h.known req' p hp).ne
    exact ⟨p,(Function.update_of_ne hne _ _).trans hp,htid⟩

theorem not_listed (h : Neat r) (hreq : r.reqs req = some preq) (htid : preq.tid = none) : req ∉ r.reqList := by
  intro hmem
  obtain ⟨p,hp,hptid⟩ := h.listed req hmem
  rw [hreq] at hp
  cases hp
  simp [htid] at hptid

theorem acted {s t : Sys} (ha : Acted s t) (h : Neat s.2) : Neat t.2 := by
  cases ha with
  | create dnode srvid => exact h.create dnode srvid
  | change req preq p hreq htid _ => exact h.put hreq (by simp [htid])
  | unsent req preq p hreq htid _ => exact (h.put (p := p) hreq (by simp [htid])).note _
  | sent req preq pkt pmsg tid now q r hreq htid _ _ =>
    have hput : Neat (s.2.put req {preq with pmsg := some pmsg,tid := some tid}) := h.put hreq fun _ => rfl
    refine ⟨List.nodup_cons.mpr ⟨h.not_listed hreq htid,h.nodup⟩,hput.known,fun req' hreq' => ?_⟩
    rcases List.mem_cons.mp hreq' with rfl | hreq'
    · exact ⟨_,Function.update_self _ _ _,rfl⟩
    · exact hput.listed req' hreq'
  | timer c q _ _ => exact h

theorem acts {as : List Act} {s t : Sys} (h : Neat s.2) (ha : acts as s = some t) : Neat t.2 :=
  acts_keep (I := fun s => Neat s.2) (fun _ _ => acted) ha h

theorem delete {s t : Sys} (h : Neat s.2) (ht : rpcDeleteRequest req s = some t) : Neat t.2 := by
  unfold rpcDeleteRequest at ht
  split at ht
  · exact absurd ht (by simp)
  · obtain ⟨q,-,rfl⟩ := Option.map_eq_some_iff.mp ht
    refine ⟨h.nodup.erase req,fun req' p hp => ?_,fun req' hreq' => ?_⟩
    · dsimp only at hp
      by_cases heq : req' = req
      · rw [heq,Function.update_self] at hp
        exact absurd hp (by simp)
      · exact h.known req' p ((Function.update_of_ne heq _ _).symm.trans hp)
    · obtain ⟨hne,hmem⟩ := h.nodup.mem_erase_iff.mp hreq'
      obtain ⟨p,hp,htid⟩ := h.listed req' hmem
      exact ⟨p,(Function.update_of_ne hne _ _).trans hp,htid⟩

theorem giveUp {x : Script} {q : Queue Cbk} {t : Sys} (h : Neat r) (ht : giveUp req x (q,r) = some t) :
    Neat t.2 := by
  obtain ⟨u,hu,ht⟩ := Option.bind_eq_some_iff.mp ht
  exact (acts (s := (q,r.note (.called req none x.ret))) (h.note _) hu).delete ht

end Neat

/-! ### The timers as a whole -/

theorem wf_acted {busy : Option ℕ} {s t : Sys} (ha : Acted s t) (h : Wf s.1 busy) : Wf t.1 busy := by
  cases ha with
  | create dnode srvid => exact h
  | change req preq p _ _ _ => exact h
  | unsent req preq p _ _ _ => exact h
  | sent req preq pkt pmsg tid now q r _ _ hq hr => exact (h.timerCreate hq).timerStart hr
  | timer c q _ hq => exact h.call hq

theorem wf_acts {as : List Act} {busy : Option ℕ} {s t : Sys} (h : Wf s.1 busy) (ha : acts as s = some t) :
    Wf t.1 busy := acts_keep (I := fun s => Wf s.1 busy) (fun _ _ => wf_acted) ha h

theorem wf_delete {req : ℕ} {busy : Option ℕ} {s t : Sys} (h : Wf s.1 busy)
    (ht : rpcDeleteRequest req s = some t) : Wf t.1 busy := by
  unfold rpcDeleteRequest at ht
  split at ht
  · exact absurd ht (by simp)
  · obtain ⟨q,hq,rfl⟩ := Option.map_eq_some_iff.mp ht
    exact h.timerDelete hq

theorem wf_giveUp {req : ℕ} {x : Script} {busy : Option ℕ} {q : Queue Cbk} {r : Rpc} {t : Sys} (h : Wf q busy)
    (ht : giveUp req x (q,r) = some t) : Wf t.1 busy := by
  obtain ⟨u,hu,ht⟩ := Option.bind_eq_some_iff.mp ht
  exact wf_delete (wf_acts (s := (q,r.note (.called req none x.ret))) h hu) ht

/-! ### Where a request is -/

/-- Not sent yet, or not created. -/
structure Fresh (s : Sys) (req : ℕ) : Prop where
  tid : ∀ preq, s.2.reqs req = some preq → preq.tid = none
  timers : ∀ tid, s.1.cbkf tid ≠ some (.request req)
  silent : ∀ e ∈ s.2.log, e.preq = req → e = .unsent req

/-- In `req_list`, with one timer. -/
structure Held (s : Sys) (req : ℕ) (preq : Req) (tid : ℕ) : Prop where
  reqs : s.2.reqs req = some preq
  has : preq.tid = some tid
  mem : req ∈ s.2.reqList
  timer : s.1.cbkf tid = some (.request req)
  only : ∀ tid', s.1.cbkf tid' = some (.request req) → tid' = tid

/-- Waiting for a response or its timer. -/
structure Pending (s : Sys) (req : ℕ) (retry : ℤ) (x : ℕ) (tid : ℕ) : Prop where
  held : ∃ preq, Held s req preq tid ∧ preq.retry = retry-x
  armed : tid ∈ s.1.tqList
  story : Story req retry s.2.log (.pending x)

/-- Freed, with its timer. -/
structure Gone (s : Sys) (req : ℕ) : Prop where
  reqs : s.2.reqs req = none
  created : req < s.2.created
  off : req ∉ s.2.reqList
  timers : ∀ tid, s.1.cbkf tid ≠ some (.request req)

structure Done (s : Sys) (req : ℕ) (retry : ℤ) (x : ℕ) : Prop where
  gone : Gone s req
  story : Story req retry s.2.log (.done x)

def Stage (s : Sys) (req : ℕ) : Prop :=
  Fresh s req ∨ (∃ retry x tid, Pending s req retry x tid) ∨ ∃ retry x, Done s req retry x

section Stages

variable {req : ℕ} {s t : Sys} {preq : Req} {tid x : ℕ} {retry : ℤ}

theorem Apart.cbkf {q r : Queue Cbk} (h : Apart req q r) {tid : ℕ} :
    r.cbkf tid = some (.request req) ↔ q.cbkf tid = some (.request req) :=
  ⟨fun hr => (cbkf_same (h tid (Or.inr hr))).symm.trans hr,fun hq => (cbkf_same (h tid (Or.inl hq))).trans hq⟩

theorem Fresh.frame (h : Fresh s req) (hf : Frame req s t) : Fresh t req := by
  obtain ⟨l,hl,hlreq⟩ := hf.log
  refine ⟨fun preq hpreq => h.tid preq (hf.reqs.symm.trans hpreq),
    fun tid htid => h.timers tid (hf.apart.cbkf.mp htid),fun e he hereq => ?_⟩
  rw [hl] at he
  rcases List.mem_append.mp he with he | he
  · exact absurd hereq (hlreq e he)
  · exact h.silent e he hereq

theorem Held.frame (h : Held s req preq tid) (hf : Frame req s t) : Held t req preq tid where
  reqs := hf.reqs.trans h.reqs
  has := h.has
  mem := hf.mem.mpr h.mem
  timer := hf.apart.cbkf.mpr h.timer
  only := fun tid' htid' => h.only tid' (hf.apart.cbkf.mp htid')

theorem Held.same (h : Held s req preq tid) (hf : Frame req s t) : Same s.1 t.1 tid :=
  hf.apart tid (Or.inl h.timer)

theorem Gone.frame (h : Gone s req) (hf : Frame req s t) : Gone t req where
  reqs := hf.reqs.trans h.reqs
  created := lt_of_lt_of_le h.created hf.created
  off := fun hmem => h.off (hf.mem.mp hmem)
  timers := fun tid htid => h.timers tid (hf.apart.cbkf.mp htid)

theorem Story.frame {ph : Phase} (h : Story req retry s.2.log ph) (hf : Frame req s t) :
    Story req retry t.2.log ph := by
  obtain ⟨l,hl,hlreq⟩ := hf.log
  rw [hl]
  exact h.append hlreq

theorem Pending.frame (h : Pending s req retry x tid) (hf : Frame req s t) : Pending t req retry x tid := by
  obtain ⟨preq,hheld,hretry⟩ := h.held
  exact ⟨⟨preq,hheld.frame hf,hretry⟩,(hheld.same hf).mem.mpr h.armed,h.story.frame hf⟩

theorem Done.frame (h : Done s req retry x) (hf : Frame req s t) : Done t req retry x :=
  ⟨h.gone.frame hf,h.story.frame hf⟩

theorem Stage.frame (h : Stage s req) (hf : Frame req s t) : Stage t req := by
  rcases h with h | ⟨retry,x,tid,h⟩ | ⟨retry,x,h⟩
  · exact Or.inl (h.frame hf)
  · exact Or.inr (Or.inl ⟨retry,x,tid,h.frame hf⟩)
  · exact Or.inr (Or.inr ⟨retry,x,h.frame hf⟩)

theorem Held.settled (h : Held s req preq tid) (hneat : Neat s.2) : Settled req s.2 := by
  refine ⟨hneat.known req preq h.reqs,fun p hp => ?_⟩
  rw [h.reqs] at hp
  cases hp
  simp [h.has]

theorem Gone.settled (h : Gone s req) : Settled req s.2 :=
  ⟨h.created,fun p hp => absurd (h.reqs.symm.trans hp) (by simp)⟩

theorem Pending.settled (h : Pending s req retry x tid) (hneat : Neat s.2) : Settled req s.2 := by
  obtain ⟨preq,hheld,-⟩ := h.held
  exact hheld.settled hneat

/-- A request that is sent waits for the first time. -/
theorem Fresh.sent {pkt : Packet} {pmsg : Bytes} {now : UInt64} {q r : Queue Cbk} (h : Fresh s req)
    (hq : Timers.timerCreate s.1 (some tid) (.request req) = some q)
    (hr : Timers.timerStart q tid now preq.tmout 0 = some r) :
    Pending (r,s.2.enlist req preq pkt pmsg tid) req preq.retry 0 tid := by
  have hcbkf : r.cbkf tid = some (.request req) :=
    (Timers.timerStart_cbkf hr).trans (Timers.timerCreate_cbkf hq).2
  have hheld : Held (r,s.2.enlist req preq pkt pmsg tid) req {preq with pmsg := some pmsg,tid := some tid} tid := by
    refine ⟨Function.update_self _ _ _,rfl,List.mem_cons_self,hcbkf,fun tid' htid' => ?_⟩
    by_contra hne
    have hsame : Same s.1 r tid' :=
      (Timers.same_timerCreate hq (by simpa using Ne.symm hne)).trans (Timers.same_timerStart hr hne)
    exact h.timers tid' ((cbkf_same hsame).symm.trans htid')
  exact ⟨⟨_,hheld,by simp⟩,Timers.timerStart_mem (Timers.timerCreate_heap hq).2 rfl hr,.sent h.silent⟩

/-- A request that is changed but not sent. -/
theorem Fresh.put (h : Fresh s req) {p : Req} (hp : p.tid = none) : Fresh (s.1,s.2.put req p) req := by
  refine ⟨fun p' hp' => ?_,h.timers,h.silent⟩
  dsimp only [Rpc.put] at hp'
  rw [Function.update_self] at hp'
  rw [← Option.some.inj hp']
  exact hp

theorem Fresh.note (h : Fresh s req) : Fresh (s.1,s.2.note (.unsent req)) req := by
  refine ⟨h.tid,h.timers,fun e he hereq => ?_⟩
  rcases List.mem_cons.mp he with rfl | he
  · rfl
  · exact h.silent e he hereq

theorem Fresh.create (h : Fresh s req) (hreq : req = s.2.created) (dnode : UInt8) (srvid : BitVec 32) :
    Fresh (s.1,rpcRequestCreate s.2 dnode srvid) req := by
  refine ⟨fun p hp => ?_,h.timers,h.silent⟩
  dsimp only [rpcRequestCreate,Rpc.put] at hp
  rw [hreq,Function.update_self] at hp
  rw [← Option.some.inj hp]

theorem Fresh.acted (h : Fresh s req) (ha : Acted s t) : Stage t req := by
  cases ha with
  | create dnode srvid =>
    by_cases heq : req = s.2.created
    · exact Or.inl (h.create heq dnode srvid)
    · exact Or.inl (h.frame (frame_create heq))
  | change req' preq p hreq htid hp =>
    by_cases heq : req' = req
    · subst heq
      exact Or.inl (h.put hp)
    · exact Or.inl (h.frame (frame_put p heq))
  | unsent req' preq p hreq htid hp =>
    by_cases heq : req' = req
    · subst heq
      exact Or.inl (h.put hp).note
    · have hput : Frame req s (s.1,s.2.put req' p) := frame_put p heq
      exact Or.inl (h.frame (hput.trans (frame_note (e := .unsent req') heq)))
  | sent req' preq pkt pmsg tid now q r hreq htid hq hr =>
    by_cases heq : req' = req
    · subst heq
      exact Or.inr (Or.inl ⟨_,_,_,h.sent hq hr⟩)
    · exact Or.inl (h.frame (frame_enlist heq (created_apart heq hq hr)))
  | timer c q hc hq => exact Or.inl (h.frame (frame_timers (foreign_apart hc hq)))

theorem Stage.acts {as : List Act} (h : Stage s req) (hneat : Neat s.2) (ha : acts as s = some t) :
    Stage t req := by
  have hkeeps : ∀ s t, Acted s t → Stage s req ∧ Neat s.2 → Stage t req ∧ Neat t.2 := by
    rintro s t ha ⟨hfresh | ⟨retry,x,tid,hpend⟩ | ⟨retry,x,hdone⟩,hneat⟩
    · exact ⟨hfresh.acted ha,Neat.acted ha hneat⟩
    · exact ⟨Or.inr (Or.inl ⟨retry,x,tid,hpend.frame ((hpend.settled hneat).acted ha)⟩),Neat.acted ha hneat⟩
    · exact ⟨Or.inr (Or.inr ⟨retry,x,hdone.frame (hdone.gone.settled.acted ha)⟩),Neat.acted ha hneat⟩
  exact (acts_keep hkeeps ha ⟨h,hneat⟩).1

/-! ### Its end -/

theorem Held.delete (h : Held s req preq tid) (ht : rpcDeleteRequest req s = some t) :
    ∃ q, Timers.timerDelete s.1 tid = some q ∧
      t = (q,{s.2 with reqs := Function.update s.2.reqs req none,reqList := s.2.reqList.erase req}) := by
  unfold rpcDeleteRequest at ht
  rw [h.reqs,Option.bind_some,h.has] at ht
  obtain ⟨q,hq,rfl⟩ := Option.map_eq_some_iff.mp ht
  exact ⟨q,hq,rfl⟩

/-- Other requests do not notice. -/
theorem Held.delete_frame {req' : ℕ} (h : Held s req' preq tid) (hne : req' ≠ req)
    (ht : rpcDeleteRequest req' s = some t) : Frame req s t := by
  obtain ⟨q,hq,rfl⟩ := h.delete ht
  have htid : s.1.cbkf tid ≠ some (.request req) := by
    rw [h.timer]
    simpa using hne
  refine ⟨Function.update_of_ne hne.symm _ _,List.mem_erase_of_ne hne.symm,le_refl _,
    log_same req _,?_⟩
  refine apart_of_same tid (fun tid' hne' => Timers.same_timerDelete hq hne') htid ?_
  rcases Timers.timerDelete_cbkf hq with hcbkf | hcbkf
  · simp [hcbkf]
  · rw [hcbkf]
    exact htid

/-- The request is freed, and so is its timer. -/
theorem Held.gone (h : Held s req preq tid) (hneat : Neat s.2) {q : Queue Cbk}
    (hsame : ∀ tid', tid' ≠ tid → Same s.1 q tid') (hq : q.heap tid = none) :
    Gone (q,{s.2 with reqs := Function.update s.2.reqs req none,reqList := s.2.reqList.erase req}) req := by
  refine ⟨Function.update_self _ _ _,hneat.known req preq h.reqs,?_,fun tid' htid' => ?_⟩
  · exact fun hmem => (hneat.nodup.mem_erase_iff.mp hmem).1 rfl
  · by_cases heq : tid' = tid
    · rw [heq,Queue.cbkf,hq] at htid'
      exact absurd htid' (by simp)
    · exact heq (h.only tid' ((cbkf_same (hsame tid' heq)).symm.trans htid'))

/-- In the callback of its timer. -/
structure Ringing (s : Sys) (req : ℕ) (preq : Req) (tid : ℕ) : Prop where
  held : Held s req preq tid
  off : tid ∉ s.1.tqList
  flag : ∃ tinfo, s.1.heap tid = some tinfo ∧ tinfo.iflag = ⟨true,false,false,false⟩

theorem Ringing.frame (h : Ringing s req preq tid) (hf : Frame req s t) : Ringing t req preq tid := by
  have hsame := h.held.same hf
  refine ⟨h.held.frame hf,fun hmem => h.off (hsame.mem.mp hmem),?_⟩
  rw [hsame.heap]
  exact h.flag

theorem Ringing.note (h : Ringing s req preq tid) (e : Entry) : Ringing (s.1,s.2.note e) req preq tid :=
  ⟨⟨h.held.reqs,h.held.has,h.held.mem,h.held.timer,h.held.only⟩,h.off,h.flag⟩

theorem Ringing.put (h : Ringing s req preq tid) {p : Req} (hp : p.tid = some tid) :
    Ringing (s.1,s.2.put req p) req p tid :=
  ⟨⟨Function.update_self _ _ _,hp,h.held.mem,h.held.timer,h.held.only⟩,h.off,h.flag⟩

/-- The timeout call is made, and after the callback of the timer nothing is left. -/
theorem Ringing.giveUp {y : Script} {q : Queue Cbk} (h : Ringing s req preq tid) (hneat : Neat s.2)
    (ht : giveUp req y s = some t) (hq : Timers.settle t.1 tid = some q)
    (hstory : Story req retry (.called req none y.ret::s.2.log) (.done x)) : Done (q,t.2) req retry x := by
  obtain ⟨u,hu,ht⟩ := Option.bind_eq_some_iff.mp ht
  have hneat' : Neat (s.2.note (.called req none y.ret)) := hneat.note _
  have hring := h.note (.called req none y.ret)
  have hframe : Frame req (s.1,s.2.note (.called req none y.ret)) u :=
    Settled.acts (hring.held.settled hneat') hu
  have hring' : Ringing u req preq tid := hring.frame hframe
  obtain ⟨r,hr,rfl⟩ := hring'.held.delete ht
  obtain ⟨tinfo,htinfo,hflag⟩ := hring'.flag
  rw [Timers.timerDelete_busy htinfo hring'.off (by rw [hflag])] at hr
  rw [← Option.some.inj hr] at hq
  rw [Timers.settle_delete (Timers.set_heap_self _ _ _) rfl,Timers.free_set] at hq
  rw [← Option.some.inj hq]
  refine ⟨hring'.held.gone (Neat.acts hneat' hu) (fun tid' hne => Timers.same_free hne) (Timers.free_heap_self _ _),?_⟩
  exact Story.frame (s := (s.1,s.2.note (.called req none y.ret))) (t := u) hstory hframe

/-- Only its own timer changes. -/
theorem Held.timers (h : Held s req preq tid) {q : Queue Cbk} (hsame : ∀ tid', tid' ≠ tid → Same s.1 q tid')
    (hq : q.cbkf tid = some (.request req)) : Held (q,s.2) req preq tid := by
  refine ⟨h.reqs,h.has,h.mem,hq,fun tid' htid' => ?_⟩
  by_contra hne
  exact hne (h.only tid' ((cbkf_same (hsame tid' hne)).symm.trans htid'))

theorem Held.ringing (h : Held s req preq tid) (hwf : Wf s.1 none) {tinfo : Timer Cbk}
    (htinfo : s.1.heap tid = some tinfo) : Ringing (Timers.detach s.1 tid tinfo,s.2) req preq tid := by
  refine ⟨h.timers (fun tid' hne => Timers.same_detach _ hne) ?_,Timers.not_mem_erase hwf tid,
    ⟨_,Timers.set_heap_self _ _ _,rfl⟩⟩
  rw [Timers.cbkf_detach,← Timers.cbkf_of_heap htinfo]
  exact h.timer

/-- The request is sent again, and after the callback of the timer it waits for it once more. -/
theorem Ringing.again {q r : Queue Cbk} {now : UInt64} {tmout : UInt32} (h : Ringing s req preq tid)
    (hr : Timers.timerStart s.1 tid now tmout 0 = some r) (hq : Timers.settle r tid = some q)
    (hretry : preq.retry = retry-x) (hstory : Story req retry s.2.log (.pending x)) :
    Pending (q,s.2) req retry x tid := by
  obtain ⟨tinfo,htinfo,hflag⟩ := h.flag
  have hcbkf : some tinfo.cbkf = some (.request req) := (Timers.cbkf_of_heap htinfo).symm.trans h.held.timer
  rw [Timers.timerStart_busy htinfo (by rw [hflag])] at hr
  rw [← Option.some.inj hr,Timers.settle_rstart (Timers.set_heap_self _ _ _) (by rw [hflag])] at hq
  rw [← Option.some.inj hq,Timers.timerInsert_set]
  refine ⟨⟨preq,h.held.timers (fun tid' hne => Timers.same_timerInsert _ hne) ?_,hretry⟩,
    Stable.mem_insert.mpr (Or.inl rfl),hstory⟩
  exact (Timers.cbkf_set _).trans hcbkf

/-- The timer of a request fires. -/
theorem Ringing.tout {y : Script} {q : Queue Cbk} (h : Ringing s req preq tid) (hneat : Neat s.2)
    (ht : rqcRequestTout req y s = some t) (hq : Timers.settle t.1 tid = some q)
    (hretry : preq.retry = retry-x) (hstory : Story req retry s.2.log (.pending x)) :
    Pending (q,t.2) req retry (x+1) tid ∨ Done (q,t.2) req retry (x+1) := by
  obtain ⟨p,hp,hcase⟩ := rqcRequestTout_cases ht
  obtain rfl : p = preq := Option.some.inj (hp.symm.trans h.held.reqs)
  have hring : Ringing (s.1,(s.2.put req p.less).note (.expired req)) req p.less tid :=
    Ringing.note (h.put (p := p.less) h.held.has) (.expired req)
  have hneat' : Neat ((s.2.put req p.less).note (.expired req)) := (hneat.put (p := p.less) hp id).note _
  rcases hcase with ⟨hle,ht⟩ | ⟨hlt,ht⟩ | ⟨hlt,pkt,tid',r,htid',hr,rfl⟩
  · exact Or.inr (hring.giveUp hneat' ht hq (.timedOut hstory (by omega)))
  · exact Or.inr ((hring.note (.unsent req)).giveUp (hneat'.note _) ht hq (.dropped hstory (by omega)))
  · obtain rfl : tid' = tid := Option.some.inj (htid'.symm.trans h.held.has)
    refine Or.inl ((hring.note (.tx req pkt)).again hr hq ?_ (.again hstory (by omega)))
    rw [Req.less]
    push_cast
    omega

theorem Neat.tout {y : Script} (h : Neat s.2) (ht : rqcRequestTout req y s = some t) : Neat t.2 := by
  obtain ⟨p,hp,hcase⟩ := rqcRequestTout_cases ht
  have hneat : Neat ((s.2.put req p.less).note (.expired req)) := (h.put (p := p.less) hp id).note _
  rcases hcase with ⟨-,ht⟩ | ⟨-,ht⟩ | ⟨-,pkt,tid,q,-,-,rfl⟩
  · exact hneat.giveUp ht
  · exact (hneat.note _).giveUp ht
  · exact hneat.note _

theorem wf_tout {y : Script} {busy : Option ℕ} (h : Wf s.1 busy) (ht : rqcRequestTout req y s = some t) :
    Wf t.1 busy := by
  obtain ⟨p,hp,⟨-,ht⟩ | ⟨-,ht⟩ | ⟨-,pkt,tid,q,-,hq,rfl⟩⟩ := rqcRequestTout_cases ht
  · exact wf_giveUp h ht
  · exact wf_giveUp h ht
  · exact h.timerStart hq

/-! ### What others do meanwhile -/

/-- The request moves on at most by being sent. -/
structure Moves (req : ℕ) (s t : Sys) : Prop where
  frame : Settled req s.2 → Frame req s t
  stage : Stage s req → Stage t req

theorem Moves.trans {u : Sys} (h : Moves req s t) (h' : Moves req t u) : Moves req s u :=
  ⟨fun hs => (h.frame hs).trans (h'.frame (hs.frame (h.frame hs))),fun hs => h'.stage (h.stage hs)⟩

theorem Frame.moves (h : Frame req s t) : Moves req s t := ⟨fun _ => h,fun hs => hs.frame h⟩

theorem moves_acts {as : List Act} (hneat : Neat s.2) (ha : acts as s = some t) : Moves req s t :=
  ⟨fun hs => hs.acts ha,fun hs => hs.acts hneat ha⟩

section Others

variable {req' : ℕ} {y : Script}

theorem Ringing.giveUp_moves (h : Ringing s req' preq tid) (hneat : Neat s.2) (hne : req' ≠ req)
    (ht : Requests.giveUp req' y s = some t) : Moves req s t := by
  obtain ⟨u,hu,ht⟩ := Option.bind_eq_some_iff.mp ht
  have hneat' : Neat (s.2.note (.called req' none y.ret)) := hneat.note _
  have hring := h.note (.called req' none y.ret)
  have hring' : Ringing u req' preq tid := hring.frame (Settled.acts (hring.held.settled hneat') hu)
  have hnote : Frame req s (s.1,s.2.note (.called req' none y.ret)) := frame_note hne
  exact (hnote.moves.trans (moves_acts hneat' hu)).trans (hring'.held.delete_frame hne ht).moves

theorem Ringing.tout_moves (h : Ringing s req' preq tid) (hneat : Neat s.2) (hne : req' ≠ req)
    (ht : rqcRequestTout req' y s = some t) : Moves req s t := by
  obtain ⟨p,hp,hcase⟩ := rqcRequestTout_cases ht
  obtain rfl : p = preq := Option.some.inj (hp.symm.trans h.held.reqs)
  have hring : Ringing (s.1,(s.2.put req' p.less).note (.expired req')) req' p.less tid :=
    Ringing.note (h.put (p := p.less) h.held.has) (.expired req')
  have hneat' : Neat ((s.2.put req' p.less).note (.expired req')) := (hneat.put (p := p.less) hp id).note _
  have hput : Frame req s (s.1,s.2.put req' p.less) := frame_put _ hne
  have hframe : Frame req s (s.1,(s.2.put req' p.less).note (.expired req')) :=
    hput.trans (frame_note (e := .expired req') hne)
  rcases hcase with ⟨-,ht⟩ | ⟨-,ht⟩ | ⟨-,pkt,tid',r,htid',hr,rfl⟩
  · exact hframe.moves.trans (hring.giveUp_moves hneat' hne ht)
  · have hnote := hframe.trans (frame_note (e := .unsent req') hne)
    exact hnote.moves.trans ((hring.note (.unsent req')).giveUp_moves (hneat'.note _) hne ht)
  · obtain rfl : tid' = tid := Option.some.inj (htid'.symm.trans h.held.has)
    have hcbkf : s.1.cbkf tid' ≠ some (.request req) := by
      rw [h.held.timer]
      simpa using hne
    have hapart : Apart req s.1 r := by
      refine apart_of_same tid' (fun tid hne => Timers.same_timerStart hr hne) hcbkf ?_
      rw [Timers.timerStart_cbkf hr]
      exact hcbkf
    have hnote : Frame req s (s.1,((s.2.put req' p.less).note (.expired req')).note (.tx req' pkt)) :=
      hframe.trans (frame_note hne)
    exact (hnote.trans (frame_timers hapart)).moves

/-- The timer in its callback is not that of a request at rest. -/
theorem Stage.not_busy (h : Stage s req) (hwf : Wf s.1 (some tid)) : s.1.cbkf tid ≠ some (.request req) := by
  intro htid
  rcases h with h | ⟨retry,x,tid',h⟩ | ⟨retry,x,h⟩
  · exact h.timers tid htid
  · obtain ⟨preq,hheld,-⟩ := h.held
    obtain rfl := hheld.only tid htid
    exact (hwf.held tid rfl).2 h.armed
  · exact h.gone.timers tid htid

end Others

end Stages

/-! ### Runs -/

structure Inv (s : Sys) : Prop where
  wf : Wf s.1 none
  neat : Neat s.2
  stage : ∀ req, Stage s req

section Fire

variable {s t u : Sys} {req id : ℕ} {y : Script} {curr : UInt64}

/-- The timer of a request is the one it was given. -/
theorem Inv.pending (h : Inv s) (hid : s.1.cbkf id = some (.request req)) : ∃ retry x, Pending s req retry x id := by
  rcases h.stage req with hfresh | ⟨retry,x,tid,hpend⟩ | ⟨retry,x,hdone⟩
  · exact absurd hid (hfresh.timers id)
  · obtain ⟨preq,hheld,-⟩ := hpend.held
    obtain rfl := hheld.only id hid
    exact ⟨retry,x,hpend⟩
  · exact absurd hid (hdone.gone.timers id)

theorem wf_run {c : Cbk} {busy : Option ℕ} {q : Queue Cbk} {r : Rpc} (h : Wf q busy)
    (ht : c.run id y (q,r) = some t) : Wf t.1 busy := by
  cases c with
  | request req => exact wf_tout (s := (q,r)) h ht
  | other => exact wf_acts (s := (q,r)) h ht

theorem Neat.run {c : Cbk} {q : Queue Cbk} {r : Rpc} (h : Neat r) (ht : c.run id y (q,r) = some t) : Neat t.2 := by
  cases c with
  | request req => exact Neat.tout (s := (q,r)) h ht
  | other => exact Neat.acts (s := (q,r)) h ht

/-- A firing moves the requests that the timer is not of. -/
theorem fire_moves (h : Inv s) (hne : s.1.cbkf id ≠ some (.request req))
    (ht : Timers.fire Cbk.run y id s = some t) : Moves req s t := by
  obtain ⟨tinfo,m,q,htinfo,hm,hq,rfl⟩ := Timers.fire_cases ht
  have hcbkf : s.1.cbkf id = some tinfo.cbkf := Timers.cbkf_of_heap htinfo
  have hdetach : Frame req s (Timers.detach s.1 id tinfo,s.2) := by
    refine frame_timers (apart_of_same id (fun tid hne => Timers.same_detach _ hne) hne ?_)
    rw [Timers.cbkf_detach,← hcbkf]
    exact hne
  have hrun : Moves req (Timers.detach s.1 id tinfo,s.2) m := by
    cases hc : tinfo.cbkf with
    | request req' =>
      rw [hc] at hm hcbkf
      obtain ⟨retry,x,hpend⟩ := h.pending hcbkf
      obtain ⟨preq,hheld,-⟩ := hpend.held
      refine (hheld.ringing h.wf htinfo).tout_moves h.neat ?_ hm
      rintro rfl
      exact hne hcbkf
    | other =>
      rw [hc] at hm
      exact moves_acts h.neat hm
  have hmid : Moves req s m := hdetach.moves.trans hrun
  have hbusy : m.1.cbkf id ≠ some (.request req) :=
    (hmid.stage (h.stage req)).not_busy (wf_run h.wf.detach hm)
  have hsettle : Apart req m.1 q := by
    refine apart_of_same id (fun tid hne => Timers.same_settle hq hne) hbusy ?_
    rcases Timers.settle_cbkf hq with hq | hq
    · simp [hq]
    · rw [hq]
      exact hbusy
  exact hmid.trans (frame_timers hsettle).moves

/-- The request whose timer fires waits for the next time, or is done. -/
theorem fire_own (h : Inv s) (hid : s.1.cbkf id = some (.request req))
    (ht : Timers.fire Cbk.run y id s = some t) :
    ∃ retry x, Pending s req retry x id ∧ (Pending t req retry (x+1) id ∨ Done t req retry (x+1)) := by
  obtain ⟨tinfo,m,q,htinfo,hm,hq,rfl⟩ := Timers.fire_cases ht
  obtain ⟨retry,x,hpend⟩ := h.pending hid
  obtain ⟨preq,hheld,hretry⟩ := hpend.held
  rw [Timers.cbkf_of_heap htinfo,Option.some.injEq] at hid
  rw [hid] at hm
  exact ⟨retry,x,hpend,(hheld.ringing h.wf htinfo).tout h.neat hm hq hretry hpend.story⟩

theorem Inv.fire (h : Inv s) (ht : Timers.fire Cbk.run y id s = some t) : Inv t := by
  refine ⟨?_,?_,fun req => ?_⟩
  · obtain ⟨tinfo,m,q,htinfo,hm,hq,rfl⟩ := Timers.fire_cases ht
    exact (wf_run h.wf.detach hm).settle hq
  · obtain ⟨tinfo,m,q,htinfo,hm,hq,rfl⟩ := Timers.fire_cases ht
    have hneat : Neat m.2 := h.neat.run hm
    exact hneat
  · by_cases hid : s.1.cbkf id = some (.request req)
    · obtain ⟨retry,x,-,hpend | hdone⟩ := fire_own h hid ht
      · exact Or.inr (Or.inl ⟨retry,x+1,id,hpend⟩)
      · exact Or.inr (Or.inr ⟨retry,x+1,hdone⟩)
    · exact (fire_moves h hid ht).stage (h.stage req)

theorem Inv.acts {as : List Act} (h : Inv s) (ht : acts as s = some t) : Inv t :=
  ⟨wf_acts h.wf ht,h.neat.acts ht,fun req => (h.stage req).acts h.neat ht⟩

theorem Inv.rearm (h : Inv s) : Inv (Timers.rearm s.1,s.2) :=
  ⟨h.wf.rearm,h.neat,fun req => (h.stage req).frame (frame_timers fun tid _ => Timers.same_rearm s.1 tid)⟩

theorem rpcReqSearch_mem {srvid sessn : BitVec 32} (h : rpcReqSearch s.2 srvid sessn = some req) :
    req ∈ s.2.reqList := List.mem_of_find?_eq_some h

/-- A request in `req_list` waits. -/
theorem Inv.listed (h : Inv s) (hreq : req ∈ s.2.reqList) : ∃ retry x tid, Pending s req retry x tid := by
  rcases h.stage req with hfresh | hpend | ⟨retry,x,hdone⟩
  · obtain ⟨preq,hpreq,htid⟩ := h.neat.listed req hreq
    rw [hfresh.tid preq hpreq] at htid
    exact absurd htid (by simp)
  · exact hpend
  · exact absurd hreq hdone.gone.off

/-- A response: the callback is called, and with a 0 from it the request is deleted. -/
theorem Inv.respond {resp : BitVec 16 × Bytes} (h : Inv s) (hreq : req ∈ s.2.reqList)
    (hu : Requests.acts y.acts (s.1,s.2.note (.called req (some resp) y.ret)) = some u)
    (ht : (if y.ret = 0 then rpcDeleteRequest req u else some u) = some t) : Inv t := by
  obtain ⟨retry,x,tid,hpend⟩ := h.listed hreq
  obtain ⟨preq,hheld,hretry⟩ := hpend.held
  have hneat : Neat (s.2.note (.called req (some resp) y.ret)) := h.neat.note _
  have hheld' : Held (s.1,s.2.note (.called req (some resp) y.ret)) req preq tid :=
    ⟨hheld.reqs,hheld.has,hheld.mem,hheld.timer,hheld.only⟩
  have hframe : Frame req (s.1,s.2.note (.called req (some resp) y.ret)) u :=
    Settled.acts (hheld'.settled hneat) hu
  have hneat' : Neat u.2 := Neat.acts hneat hu
  have hwf : Wf u.1 none := wf_acts (s := (s.1,s.2.note _)) h.wf hu
  have harmed : tid ∈ u.1.tqList := (hheld'.same hframe).mem.mpr hpend.armed
  have hothers : ∀ req', req ≠ req' → Stage u req' := fun req' hne => by
    have hnote : Frame req' s (s.1,s.2.note (.called req (some resp) y.ret)) := frame_note hne
    exact (hnote.moves.trans (moves_acts hneat hu)).stage (h.stage req')
  split at ht
  · next hret =>
    refine ⟨wf_delete hwf ht,hneat'.delete ht,fun req' => ?_⟩
    by_cases heq : req = req'
    · subst heq
      obtain ⟨q,hq,rfl⟩ := (hheld'.frame hframe).delete ht
      have hgone := (hheld'.frame hframe).gone hneat' (fun tid' hne => Timers.same_timerDelete hq hne)
        (Timers.timerDelete_mem harmed hq)
      have hstory : Story req retry (.called req (some resp) y.ret::s.2.log) (.done x) := by
        rw [hret]
        exact .answered hpend.story
      exact Or.inr (Or.inr ⟨retry,x,hgone,Story.frame (s := (s.1,s.2.note _)) (t := u) hstory hframe⟩)
    · exact (hothers req' heq).frame ((hheld'.frame hframe).delete_frame heq ht)
  · next hret =>
    cases ht
    refine ⟨hwf,hneat',fun req' => ?_⟩
    by_cases heq : req = req'
    · subst heq
      have hstory : Story req retry (.called req (some resp) y.ret::s.2.log) (.pending x) := .kept hpend.story hret
      exact Or.inr (Or.inl ⟨retry,x,tid,⟨preq,hheld'.frame hframe,hretry⟩,harmed,
        Story.frame (s := (s.1,s.2.note _)) hstory hframe⟩)
    · exact hothers req' heq

theorem Inv.input {tnd : UInt8} {ipkt : Bytes} (h : Inv s) (ht : rpcProcInput tnd ipkt y s = some t) : Inv t := by
  unfold rpcProcInput at ht
  split at ht
  · rw [← Option.some.inj ht]
    exact h
  · split at ht
    · exact h.acts ht
    · split at ht
      · rw [← Option.some.inj ht]
        exact h
      · next preq hpreq =>
        obtain ⟨u,hu,ht⟩ := Option.bind_eq_some_iff.mp ht
        exact h.respond (rpcReqSearch_mem hpreq) hu ht

theorem Inv.queueEvent {xs : List Script} (h : Inv s) (ht : Timers.eventLoop Cbk.run curr xs s = some t) :
    Inv t := by
  obtain ⟨u,hu,-,rfl⟩ := Timers.eventLoop_keeps (I := Inv) (fun _ _ _ _ hs _ hfire => hs.fire hfire) ht h
  exact hu.rearm

theorem Inv.step {e : Event} (h : Inv s) (ht : step s e = some t) : Inv t := by
  cases e with
  | act a =>
    have hacts : Requests.acts [a] s = some t := Option.bind_eq_some_iff.mpr ⟨t,ht,rfl⟩
    exact h.acts hacts
  | input tnd ipkt x => exact h.input ht
  | queueEvent curr xs => exact h.queueEvent ht

theorem inv_init : Inv init := by
  refine ⟨Timers.wf_init,⟨List.nodup_nil,?_,?_⟩,fun req => Or.inl ⟨?_,?_,?_⟩⟩
  · exact fun _ _ h => absurd h (by simp [init])
  · exact fun _ h => absurd h List.not_mem_nil
  · exact fun _ h => absurd h (by simp [init])
  · exact fun _ h => absurd h (by simp [Queue.cbkf,init,Timers.init])
  · exact fun _ h => absurd h List.not_mem_nil

theorem expiries_frame (h : Frame req s t) : expiries req t.2.log = expiries req s.2.log := by
  obtain ⟨l,hl,hlreq⟩ := h.log
  have hnot : Entry.expired req ∉ l := fun hmem => hlreq _ hmem rfl
  rw [hl,expiries,List.count_append,List.count_eq_zero.mpr hnot,Nat.zero_add]
  rfl

/-- Since `s` nothing has happened to the request, or its timer has fired. -/
structure StillOrMore (req : ℕ) (s u : Sys) : Prop where
  inv : Inv u
  settled : Settled req u.2
  still : Frame req s u ∨ expiries req s.2.log < expiries req u.2.log

/-- A timer that is due fires before `timer_queue_event` returns. -/
theorem Pending.expires {retry : ℤ} {x : ℕ} {xs : List Script} (h : Pending s req retry x id) (hs : Inv s)
    (hle : s.1.nxt id ≤ curr) (ht : Timers.eventLoop Cbk.run curr xs s = some t) :
    expiries req s.2.log < expiries req t.2.log := by
  obtain ⟨preq,hheld,-⟩ := h.held
  have hkeeps : ∀ y id u v, StillOrMore req s u → Timers.due curr u.1 = some id →
      Timers.fire Cbk.run y id u = some v → StillOrMore req s v := by
    rintro y id u v ⟨hu,hset,hcase⟩ - hfire
    have hv : Inv v := hu.fire hfire
    by_cases hid : u.1.cbkf id = some (.request req)
    · obtain ⟨retry',x',hpend,hnext⟩ := fire_own hu hid hfire
      have hx' : expiries req u.2.log = x' := hpend.story.expiries_eq
      have hlt : expiries req u.2.log < expiries req v.2.log ∧ Settled req v.2 := by
        rcases hnext with hnext | hnext
        · have hx : expiries req v.2.log = x'+1 := hnext.story.expiries_eq
          exact ⟨by omega,hnext.settled hv.neat⟩
        · have hx : expiries req v.2.log = x'+1 := hnext.story.expiries_eq
          exact ⟨by omega,hnext.gone.settled⟩
      refine ⟨hv,hlt.2,Or.inr ?_⟩
      rcases hcase with hframe | hcase
      · rw [← expiries_frame hframe]
        exact hlt.1
      · exact hcase.trans hlt.1
    · have hframe := (fire_moves hu hid hfire).frame hset
      refine ⟨hv,hset.frame hframe,?_⟩
      rcases hcase with hcase | hcase
      · exact Or.inl (hcase.trans hframe)
      · rw [expiries_frame hframe]
        exact Or.inr hcase
  obtain ⟨u,⟨hu,-,hcase⟩,hdue,rfl⟩ := Timers.eventLoop_keeps hkeeps ht
    ⟨hs,h.settled hs.neat,Or.inl (Frame.refl req s)⟩
  rcases hcase with hframe | hlt
  · have hsame : Same s.1 u.1 id := hheld.same hframe
    have hlt : curr < u.1.nxt id := Timers.due_none hu.wf hdue (hsame.mem.mpr h.armed)
    rw [Timers.nxt_congr hsame.heap] at hlt
    have hlt := UInt64.lt_iff_toNat_lt.mp hlt
    have hle := UInt64.le_iff_toNat_le.mp hle
    omega
  · exact hlt

end Fire

/-- What becomes of a request that was sent with `retry`. -/
structure Retried (s : Sys) (req : ℕ) (retry : ℤ) : Prop where
  /-- It goes out once and once more for each retry, at most. -/
  bound : transmissions req s.2.log ≤ retry+1
  /-- Until it is closed it has gone out once more than its timer has fired, and the timer is
  there to fire again when its time comes. -/
  waits : (∀ e ∈ s.2.log, ¬Closing req e) → transmissions req s.2.log = expiries req s.2.log+1 ∧
    req ∈ s.2.reqList ∧ ∃ tid ∈ s.1.tqList, s.1.cbkf tid = some (.request req) ∧
      ∀ curr xs t, s.1.nxt tid ≤ curr → step s (.queueEvent curr xs) = some t →
        expiries req s.2.log < expiries req t.2.log
  /-- Unanswered, it waits for its next timeout, or it has gone out as often as it may and its
  callback was called once, with `(0,NULL)`. -/
  unanswered : Unanswered req s.2.log →
    ((∀ e ∈ s.2.log, ¬Closing req e) ∧ expiries req s.2.log ≤ retry ∧ callsOf req s.2.log = []) ∨
      (expiries req s.2.log = retry+1 ∧ transmissions req s.2.log = retry+1 ∧ callsOf req s.2.log = [none])
  /-- Closed, it is nowhere and nothing is told of it any more. -/
  closed : ∀ l₁ e l₂,s.2.log = l₁ ++ e::l₂ → Closing req e →
    req ∉ s.2.reqList ∧ (∀ tid, s.1.cbkf tid ≠ some (.request req)) ∧ ∀ e' ∈ l₁, e'.preq ≠ req

theorem run_inv {es : List Event} {s : Sys} (h : Trace.Run step Trace.anyStep init es s) : Inv s :=
  h.invariant (I := fun _ s => Inv s) inv_init fun _ _ _ _ _ hI _ hs => hI.step hs

theorem run_retried {es : List Event} {s : Sys} {req : ℕ} {retry : ℤ}
    (h : Trace.Run step Trace.anyStep init es s) (hr : 0 ≤ retry) (hsent : .sent req retry ∈ s.2.log)
    (hnet : .unsent req ∉ s.2.log) : Retried s req retry := by
  have hinv := run_inv h
  rcases hinv.stage req with hfresh | ⟨retry',x,tid,hpend⟩ | ⟨retry',x,hdone⟩
  · exact absurd (hfresh.silent _ hsent rfl) (by simp)
  · obtain rfl := hpend.story.retry_eq hsent
    obtain ⟨preq,hheld,-⟩ := hpend.held
    obtain ⟨htx,hx,hcalls⟩ := hpend.story.pending rfl hr
    have hexp : expiries req s.2.log = x := hpend.story.expiries_eq
    constructor
    · rw [htx]
      push_cast
      omega
    · intro _
      have htimeouts : transmissions req s.2.log = expiries req s.2.log+1 := by rw [htx,hexp]
      exact ⟨htimeouts,hheld.mem,tid,hpend.armed,hheld.timer,fun curr xs t hle ht => hpend.expires hinv hle ht⟩
    · intro hun
      rw [hexp]
      exact Or.inl ⟨fun e he => hpend.story.not_closing rfl he,hx,hcalls hun⟩
    · intro l₁ e l₂ hl he
      exact absurd he (hpend.story.not_closing rfl (hl ▸ List.mem_append_right _ List.mem_cons_self))
  · obtain rfl := hdone.story.retry_eq hsent
    obtain ⟨htx,hx,hcalls⟩ := hdone.story.done rfl hr hnet
    have hexp : expiries req s.2.log = x := hdone.story.expiries_eq
    constructor
    · exact htx
    · intro hopen
      obtain ⟨e,he,hclosing⟩ := hdone.story.closing rfl
      exact absurd hclosing (hopen e he)
    · intro hun
      rw [hexp]
      exact Or.inr (hcalls hun)
    · intro l₁ e l₂ hl he
      exact ⟨hdone.gone.off,hdone.gone.timers,(hdone.story.closed hl he).2⟩

/-- A request with one retry is never answered; the callback of its timeout sends another one. -/
theorem lost_retried :
    ∃ s, Retried s 0 1 ∧ transmissions 0 s.2.log = 2 ∧ callsOf 0 s.2.log = [none] ∧ s.2.reqList = [1] := by
  have hexec : ((Trace.exec step init
      [.act (.create 5 0x10),.act (.setRetry 0 1 100),.act (.send 0 [1,2] true .sent (some 7) 0),
        .queueEvent 100 [⟨[],0,.sent,100⟩],
        .queueEvent 250 [⟨[.create 5 0x10,.send 1 [3] true .sent (some 8) 250],0,.sent,250⟩]]).map
      fun s => decide (.sent 0 1 ∈ s.2.log ∧ .unsent 0 ∉ s.2.log ∧ transmissions 0 s.2.log = 2 ∧
        callsOf 0 s.2.log = [none] ∧ s.2.reqList = [1])) = some true := by
    decide
  obtain ⟨s,hrun,hs⟩ := Trace.run_of_exec_map step init _ _ hexec
  obtain ⟨hsent,hnet,htx,hcalls,hlist⟩ := of_decide_eq_true hs
  exact ⟨s,run_retried hrun (by decide) hsent hnet,htx,hcalls,hlist⟩

end Requests
end Autbus
