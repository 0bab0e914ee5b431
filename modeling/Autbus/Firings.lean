import Autbus.Agenda
import Autbus.Timers
import Mathlib.Data.UInt

/-! What `timer_queue_event` fires: the timers on the list are the jobs of an agenda, unless a
callback calls the timer functions. A callback that starts and stops its own timer. -/
namespace Autbus
namespace Timers

variable {α σ : Type} {q r : Queue α} {id : ℕ}

/-! ### Callbacks that leave the timers alone -/

/-- A callback that calls no timer function: `act` is what it does to the rest of the program,
the log tells the timer and its deadline. -/
def quiet (act : α → σ → σ) (cbkf : α) (id : ℕ) (_ : Unit) (s : Queue α × σ × List (ℕ × UInt64)) :
    Option (Queue α × σ × List (ℕ × UInt64)) :=
  some (s.1,act cbkf s.2.1,s.2.2 ++ [(id,s.1.nxt id)])

namespace Queue

def irepeat (q : Queue α) (id : ℕ) : ℕ := ((q.heap id).map fun t => t.irepeat.toNat).getD 0

def job (q : Queue α) (id : ℕ) : Agenda.Job ℕ := ⟨id,q.key id,q.irepeat id⟩

/-- The list as an agenda. -/
def agenda (q : Queue α) : List (Agenda.Job ℕ) := q.tqList.map q.job

end Queue

/-- Each timer on the list once, and not freed. -/
structure Live (q : Queue α) : Prop where
  nodup : q.tqList.Nodup
  alive : ∀ id ∈ q.tqList, (q.heap id).isSome

theorem job_congr (h : r.heap id = q.heap id) : r.job id = q.job id := by
  unfold Queue.job Queue.key Queue.irepeat
  rw [nxt_congr h,h]

theorem key_set (q : Queue α) (id : ℕ) (t : Timer α) : (q.set id t).key id = t.nxtTick.toNat := by
  unfold Queue.key Queue.nxt
  rw [set_heap_self]
  rfl

theorem job_set (q : Queue α) (id : ℕ) (t : Timer α) :
    (q.set id t).job id = ⟨id,t.nxtTick.toNat,t.irepeat.toNat⟩ := by
  unfold Queue.job Queue.irepeat
  rw [key_set,set_heap_self]
  rfl

theorem job_of_heap {t : Timer α} (h : q.heap id = some t) : q.job id = ⟨id,t.nxtTick.toNat,t.irepeat.toNat⟩ := by
  unfold Queue.job Queue.key Queue.nxt Queue.irepeat
  rw [h]
  rfl

/-- A timer goes where its job goes. -/
theorem agenda_timerInsert (t : Timer α) (h : id ∉ q.tqList) :
    (timerInsert q id t).agenda =
      Stable.insert Agenda.Job.due ⟨id,t.nxtTick.toNat,t.irepeat.toNat⟩ q.agenda := by
  have hother : ∀ id' ∈ q.tqList, (timerInsert q id t).job id' = q.job id' := fun id' hid' =>
    job_congr (set_heap_of_ne q id _ fun heq => h (heq ▸ hid'))
  have hself : (timerInsert q id t).job id = ⟨id,t.nxtTick.toNat,t.irepeat.toNat⟩ :=
    job_set q id {t with since := q.inserts}
  have hagenda : q.agenda = q.tqList.map (timerInsert q id t).job :=
    (List.map_congr_left hother).symm
  rw [hagenda,← hself]
  exact List.map_orderedInsert _ _ _ _ _ (fun _ _ => Iff.rfl) fun _ _ => Iff.rfl

theorem Live.timerInsert (h : Live q) (hid : id ∉ q.tqList) (t : Timer α) : Live (timerInsert q id t) where
  nodup := Stable.nodup_insert h.nodup hid
  alive := by
    intro id' hid'
    by_cases heq : id' = id
    · subst heq
      exact Option.isSome_iff_exists.mpr ⟨_,set_heap_self q id' _⟩
    · rw [(same_timerInsert t heq).heap]
      exact h.alive id' ((Stable.mem_insert.mp hid').resolve_left heq)

/-- Off the list a timer changes at will. -/
theorem Live.set (h : Live q) (hid : id ∉ q.tqList) (t : Timer α) : Live (q.set id t) where
  nodup := h.nodup
  alive := by
    intro id' hid'
    rw [set_heap_of_ne q id t fun heq => hid (heq ▸ hid')]
    exact h.alive id' hid'

theorem agenda_set (h : id ∉ q.tqList) (t : Timer α) : (q.set id t).agenda = q.agenda :=
  List.map_congr_left fun _ hid' => job_congr (set_heap_of_ne q id t fun heq => h (heq ▸ hid'))

/-- A timer left alone in its callback goes back on the list if it repeats. -/
theorem settle_repeat {t : Timer α} (ht : q.heap id = some t) (hflag : t.iflag = ⟨true,false,false,false⟩)
    (hirt : t.irepeat ≠ 0) :
    settle q id = some (timerInsert q id {t with
      iflag := noFlags,nxtTick := t.nxtTick+t.irepeat.toUInt64}) := by
  unfold settle
  rw [ht]
  dsimp only
  rw [hflag,if_pos hirt]
  rfl

section Quiet

variable {t : Timer α} {l : List ℕ} {curr : UInt64}

theorem Live.detach (h : Live q) (t : Timer α) : Live (detach q id t) := by
  have herase : Live {q with tqList := q.tqList.erase id} :=
    ⟨h.nodup.erase id,fun id' hid' => h.alive id' (List.mem_of_mem_erase hid')⟩
  exact herase.set (fun hmem => (h.nodup.mem_erase_iff.mp hmem).1 rfl) _

theorem agenda_detach (h : Live q) (hl : q.tqList = id::l) (t : Timer α) :
    (detach q id t).agenda = l.map q.job := by
  have hid : id ∉ q.tqList.erase id := fun hmem => (h.nodup.mem_erase_iff.mp hmem).1 rfl
  refine (agenda_set (q:={q with tqList := q.tqList.erase id}) hid _).trans ?_
  unfold Queue.agenda
  rw [hl,List.erase_cons_head]
  rfl

/-- The head fires as the first job of the agenda is done. -/
theorem fire_quiet (act : α → σ → σ) (s : σ) (log : List (ℕ × UInt64)) (h : Live q) (hl : q.tqList = id::l)
    (ht : q.heap id = some t) (hroom : t.nxtTick.toNat+t.irepeat.toNat < 2^64) :
    ∃ r, fire (quiet act) () id (q,s,log) = some (r,act t.cbkf s,log ++ [(id,t.nxtTick)]) ∧ Live r ∧
      r.agenda = Agenda.after (q.job id) (l.map q.job) := by
  have hheap : (detach q id t).heap id = some {t with iflag := ⟨true,false,false,false⟩} :=
    set_heap_self _ _ _
  have hid : id ∉ (detach q id t).tqList := fun hmem => (h.nodup.mem_erase_iff.mp hmem).1 rfl
  have hnxt : (detach q id t).nxt id = t.nxtTick := by
    unfold Queue.nxt
    rw [hheap]
    rfl
  have hfire : ∀ r, settle (detach q id t) id = some r →
      fire (quiet act) () id (q,s,log) = some (r,act t.cbkf s,log ++ [(id,t.nxtTick)]) := by
    intro r hr
    unfold fire quiet
    rw [ht]
    dsimp only
    rw [Option.bind_some,hr,hnxt]
    rfl
  unfold Agenda.after
  rw [job_of_heap ht]
  by_cases hirt : t.irepeat = 0
  · refine ⟨_,hfire _ (settle_once hheap rfl hirt),(h.detach t).set hid _,?_⟩
    rw [agenda_set hid,agenda_detach h hl,if_pos (by rw [hirt]; rfl)]
  · have hne : t.irepeat.toNat ≠ 0 := fun heq => hirt (UInt32.toNat_inj.mp heq)
    have hadd : (t.nxtTick+t.irepeat.toUInt64).toNat = t.nxtTick.toNat+t.irepeat.toNat := by
      rw [UInt64.toNat_add,UInt32.toNat_toUInt64,Nat.mod_eq_of_lt hroom]
    refine ⟨_,hfire _ (settle_repeat hheap rfl hirt),(h.detach t).timerInsert hid _,?_⟩
    rw [agenda_timerInsert _ hid,agenda_detach h hl,if_neg hne]
    dsimp only
    rw [hadd]
    rfl

/-- The log of what an agenda has done. -/
def Logs (log : List (ℕ × UInt64)) (fired : List (Agenda.Job ℕ)) : Prop :=
  log.map (fun e => (e.1,e.2.toNat)) = fired.map fun j => (j.id,j.due)

/-- `timer_queue_event` does what is due on the agenda and sets the hardware. -/
theorem eventLoop_quiet (act : α → σ → σ) (s : σ) (log : List (ℕ × UInt64)) {fired rest : List (Agenda.Job ℕ)}
    (h : Agenda.Drains curr.toNat q.agenda fired rest) (hq : Live q) (hcurr : curr.toNat < 2^63) :
    ∃ u s' done, eventLoop (quiet act) curr (List.replicate fired.length ()) (q,s,log) =
      some (rearm u,s',log ++ done) ∧ Live u ∧ u.agenda = rest ∧ Logs done fired := by
  generalize hagenda : q.agenda = jobs at h
  induction h generalizing q s log with
  | @done jobs hlate =>
    have hdue : due curr q = none := by
      unfold due
      split
      · rfl
      · next tinfo l hl =>
        have hjob : jobs.head? = some (q.job tinfo) := by
          rw [← hagenda,Queue.agenda,hl]
          rfl
        exact if_pos (UInt64.lt_iff_toNat_lt.mpr (hlate _ hjob))
    refine ⟨q,s,[],?_,hq,hagenda,rfl⟩
    rw [List.length_nil,List.replicate_zero,List.append_nil]
    unfold eventLoop
    dsimp only
    rw [hdue]
  | @fire j jobs fired rest hj hrest ih =>
    obtain ⟨id,l,hl,rfl,rfl⟩ := List.map_eq_cons_iff.mp hagenda
    obtain ⟨t,ht⟩ := Option.isSome_iff_exists.mp (hq.alive id (hl ▸ List.mem_cons_self))
    rw [job_of_heap ht] at hj
    have hdue : due curr q = some id := by
      unfold due
      rw [hl]
      dsimp only
      rw [if_neg]
      unfold Queue.nxt
      rw [ht]
      exact fun hlt => absurd (UInt64.lt_iff_toNat_lt.mp hlt) (not_lt.mpr hj)
    have hroom : t.nxtTick.toNat+t.irepeat.toNat < 2^64 := by
      have hlt := t.irepeat.toNat_lt
      dsimp only at hj
      omega
    obtain ⟨r,hr,hlive,hafter⟩ := fire_quiet act s log hq hl ht hroom
    obtain ⟨u,s',done,hu,hlive,hrest,hlogs⟩ := ih (act t.cbkf s) (log ++ [(id,t.nxtTick)]) hlive hafter
    refine ⟨u,s',(id,t.nxtTick)::done,?_,hlive,hrest,?_⟩
    · rw [List.length_cons,List.replicate_succ]
      unfold eventLoop
      rw [hdue]
      dsimp only
      rw [hr,Option.bind_some,hu,List.append_assoc]
      rfl
    · unfold Logs at hlogs ⊢
      rw [List.map_cons,List.map_cons,hlogs,job_of_heap ht]

end Quiet

/-- What is left when `timer_queue_event` returns, and what it has fired on the way. -/
structure Drained (q : Queue α) (curr : UInt64) (fired : List (ℕ × UInt64)) (r : Queue α) : Prop where
  order : fired.Pairwise fun a b => a.2 ≤ b.2
  once : ∀ id t, id ∈ q.tqList → q.heap id = some t → t.nxtTick ≤ curr → t.irepeat = 0 →
    fired.countP (fun e => decide (e.1 = id)) = 1
  periodic : ∀ id t, id ∈ q.tqList → q.heap id = some t → t.nxtTick ≤ curr → t.irepeat ≠ 0 →
    fired.countP (fun e => decide (e.1 = id)) = (curr.toNat-t.nxtTick.toNat)/t.irepeat.toNat+1
  late : ∀ id ∈ r.tqList, curr < r.nxt id
  earliest : ∀ id ∈ r.tqList, r.fd ≤ r.nxt id
  set : ∀ id, r.tqList.head? = some id → r.fd = r.nxt id
  empty : r.tqList = [] → r.fd = 0

/-- The log and the agenda tell of a timer as often. -/
theorem Logs.countP {log : List (ℕ × UInt64)} {fired : List (Agenda.Job ℕ)} (h : Logs log fired) (id : ℕ) :
    log.countP (fun e => decide (e.1 = id)) = fired.countP fun j => decide (j.id = id) := by
  have hcount := congrArg (List.countP fun e : ℕ × ℕ => decide (e.1 = id)) h
  rw [List.countP_map,List.countP_map] at hcount
  exact hcount

theorem Logs.order {log : List (ℕ × UInt64)} {fired : List (Agenda.Job ℕ)} (h : Logs log fired)
    (hf : Agenda.Sorted fired) : log.Pairwise fun a b => a.2 ≤ b.2 := by
  have hpairs : (fired.map fun j => (j.id,j.due)).Pairwise fun a b => a.2 ≤ b.2 :=
    List.pairwise_map.mpr hf
  rw [← show _ = _ from h,List.pairwise_map] at hpairs
  exact hpairs.imp fun hle => UInt64.le_iff_toNat_le.mpr hle

theorem agenda_ids (q : Queue α) : q.agenda.map Agenda.Job.id = q.tqList := by
  unfold Queue.agenda
  rw [List.map_map]
  exact List.map_id _

theorem agenda_sorted (h : q.tqList.Pairwise fun a b => q.nxt a ≤ q.nxt b) : Agenda.Sorted q.agenda :=
  List.pairwise_map.mpr (h.imp fun hle => UInt64.le_iff_toNat_le.mp hle)

theorem rearm_tqList (q : Queue α) : (rearm q).tqList = q.tqList := by
  unfold rearm
  split <;> rfl

theorem rearm_nxt (q : Queue α) (id : ℕ) : (rearm q).nxt id = q.nxt id := nxt_congr (same_rearm q id).heap

theorem rearm_fd (h : q.tqList.head? = some id) : (rearm q).fd = q.nxt id := by
  unfold rearm
  split
  · next hnil =>
    rw [hnil] at h
    exact absurd h (by simp)
  · next tinfo l hl =>
    rw [hl] at h
    obtain rfl : tinfo = id := Option.some.inj h
    rfl

theorem rearm_empty (h : q.tqList = []) : (rearm q).fd = 0 := by
  unfold rearm
  rw [h]
  rfl

/-- In a list in order the hardware is set to the earliest deadline. -/
theorem rearm_fd_le (h : Agenda.Sorted q.agenda) (hid : id ∈ q.tqList) : (rearm q).fd ≤ q.nxt id := by
  cases hl : q.tqList with
  | nil =>
    rw [hl] at hid
    exact absurd hid List.not_mem_nil
  | cons tinfo l =>
    rw [rearm_fd (show q.tqList.head? = some tinfo by rw [hl]; rfl)]
    rw [Queue.agenda,hl] at h
    rcases List.mem_cons.mp (hl ▸ hid) with rfl | hid
    · exact UInt64.le_refl _
    · exact UInt64.le_iff_toNat_le.mpr ((List.pairwise_cons.mp h).1 _ (List.mem_map_of_mem hid))

/-- The list in order is drained of all that is due, each timer as often as it is due. -/
theorem timerQueueEvent_drains (act : α → σ → σ) (q : Queue α) (s : σ) (curr : UInt64)
    (hnodup : q.tqList.Nodup) (halive : ∀ id ∈ q.tqList, (q.heap id).isSome)
    (hsorted : q.tqList.Pairwise fun a b => q.nxt a ≤ q.nxt b) (hcurr : curr.toNat < 2^63) :
    ∃ n r s' fired, eventLoop (quiet act) curr (List.replicate n ()) (q,s,[]) = some (r,s',fired) ∧
      Drained q curr fired r := by
  obtain ⟨fired,rest,hdrains⟩ := Agenda.exists_drains curr.toNat q.agenda
  obtain ⟨u,s',log,hloop,-,hrest,hlogs⟩ := eventLoop_quiet act s [] hdrains
    ⟨hnodup,halive⟩ hcurr
  have hjobs := agenda_sorted hsorted
  have hcount : ∀ id ∈ q.tqList, log.countP (fun e => decide (e.1 = id)) = (q.job id).left curr.toNat := by
    intro id hid
    rw [hlogs.countP,hdrains.countP hjobs fun _ => rfl]
    refine Agenda.times_id (j:=q.job id) ?_ (List.mem_map_of_mem hid)
    rw [agenda_ids]
    exact hnodup
  have hlate : ∀ id ∈ u.tqList, curr < u.nxt id := fun id hid =>
    UInt64.lt_iff_toNat_lt.mpr (hdrains.late hjobs (u.job id) (hrest ▸ List.mem_map_of_mem hid))
  have hleft : Agenda.Sorted u.agenda := hrest ▸ hdrains.rest_sorted hjobs
  refine ⟨fired.length,rearm u,s',log,hloop,?_,?_,?_,?_,?_,?_,?_⟩
  · exact hlogs.order (hdrains.fired_sorted hjobs)
  · intro id t hid ht hdue hirt
    rw [hcount id hid,job_of_heap ht]
    exact Agenda.Job.left_once (UInt64.le_iff_toNat_le.mp hdue) (congrArg UInt32.toNat hirt)
  · intro id t hid ht hdue hirt
    rw [hcount id hid,job_of_heap ht]
    exact Agenda.Job.left_every (UInt64.le_iff_toNat_le.mp hdue) fun heq => hirt (UInt32.toNat_inj.mp heq)
  · intro id hid
    rw [rearm_tqList] at hid
    rw [rearm_nxt]
    exact hlate id hid
  · intro id hid
    rw [rearm_tqList] at hid
    rw [rearm_nxt]
    exact rearm_fd_le hleft hid
  · intro id hid
    rw [rearm_tqList] at hid
    rw [rearm_nxt]
    exact rearm_fd hid
  · intro hnil
    rw [rearm_tqList] at hnil
    exact rearm_empty hnil

/-- A timer that repeats every 3 ticks and one that fires once. -/
def twoTimers : Queue Unit :=
  ⟨fun id => if id = 1 then some ⟨noFlags,3,10,(),0⟩ else if id = 2 then some ⟨noFlags,0,12,(),1⟩ else none,
    [1,2],10,10,2⟩

theorem twoTimers_drains : ∃ n r fired,
    eventLoop (quiet fun _ s => s) 17 (List.replicate n ()) (twoTimers,(),[]) = some (r,(),fired) ∧
      fired.countP (fun e => decide (e.1 = 1)) = 3 ∧ fired.countP (fun e => decide (e.1 = 2)) = 1 ∧
      ∀ id ∈ r.tqList, 17 < r.nxt id := by
  obtain ⟨n,r,⟨⟩,fired,h,hd⟩ := timerQueueEvent_drains (fun _ s => s) twoTimers () 17
    (by decide) (by decide) (by decide) (by decide)
  exact ⟨n,r,fired,h,hd.periodic 1 _ (by decide) rfl (by decide) (by decide),
    hd.once 2 _ (by decide) rfl (by decide) rfl,hd.late⟩

/-! ### A callback that starts and stops its own timer -/

/-- What a callback calls on its own timer. -/
inductive Own
  | start (now : UInt64) (itv irt : UInt32)
  | stop

namespace Own

/-- The interval a call adds to the deadline. -/
def itv : Own → UInt64
  | .start _ itv _ => itv.toUInt64
  | .stop => 0

/-- In its callback a timer is only marked. -/
def mark (t : Timer α) : Own → Timer α
  | .start _ itv irt => {t with
      iflag := {t.iflag with rstart := true},nxtTick := t.nxtTick+itv.toUInt64,irepeat := irt}
  | .stop => {t with iflag := {t.iflag with stoped := true}}

/-- What the call alone makes of a timer whose deadline was `nxtTick`. -/
def Decides (nxtTick : UInt64) (r : Queue α) (id : ℕ) : Own → Prop
  | .start _ itv irt =>
    id ∈ r.tqList ∧ ∃ t, r.heap id = some t ∧ t.nxtTick = nxtTick+itv.toUInt64 ∧ t.irepeat = irt
  | .stop => id ∉ r.tqList

end Own

/-- A call on the timer `id` itself. -/
def Call.own (id : ℕ) : Call α → Option Own
  | .start tid now itv irt => if tid = id then some (.start now itv irt) else none
  | .stop tid => if tid = id then some .stop else none
  | _ => none

/-- The calls a callback makes on its own timer, in order. -/
def ownCalls (id : ℕ) (cs : List (Call α)) : List Own := cs.filterMap (Call.own id)

section Own

variable {t : Timer α} {os : List Own}

theorem own_call {c : Call α} {o : Own} (hc : c.own id = some o) (ht : q.heap id = some t)
    (hflag : t.iflag.callbk = true) (hid : id ∉ q.tqList) : c.run q = some (q.set id (o.mark t)) := by
  cases c with
  | create block cbkf => exact absurd hc (by simp [Call.own])
  | delete tid => exact absurd hc (by simp [Call.own])
  | start tid now itv irt =>
    have hc : (if tid = id then some (Own.start now itv irt) else none) = some o := hc
    split at hc
    · next heq =>
      cases hc
      subst heq
      exact timerStart_busy ht hflag
    · cases hc
  | stop tid =>
    have hc : (if tid = id then some Own.stop else none) = some o := hc
    split at hc
    · next heq =>
      cases hc
      subst heq
      show timerStop q tid = _
      unfold timerStop
      rw [ht]
      dsimp only
      rw [if_neg hid,if_pos hflag]
      rfl
    · cases hc

theorem mark_callbk (o : Own) : (o.mark t).iflag.callbk = t.iflag.callbk := by
  cases o <;> rfl

/-- The calls mark the timer one after the other, whatever else the callback calls. -/
theorem calls_own {cs : List (Call α)} (hown : ∀ c ∈ cs, c.tid = some id → (c.own id).isSome)
    (hr : calls cs q = some r) (ht : q.heap id = some t) (hflag : t.iflag.callbk = true) (hid : id ∉ q.tqList) :
    r.heap id = some ((ownCalls id cs).foldl Own.mark t) ∧ id ∉ r.tqList := by
  induction cs generalizing q t with
  | nil =>
    obtain rfl : q = r := Option.some.inj hr
    exact ⟨ht,hid⟩
  | cons c cs ih =>
    obtain ⟨u,hu,hr⟩ := Option.bind_eq_some_iff.mp hr
    have hrest := fun c hc => hown c (List.mem_cons_of_mem _ hc)
    unfold ownCalls
    cases ho : c.own id with
    | some o =>
      obtain rfl : q.set id (o.mark t) = u := Option.some.inj ((own_call ho ht hflag hid).symm.trans hu)
      rw [List.filterMap_cons_some ho,List.foldl_cons]
      exact ih hrest hr (set_heap_self q id _) ((mark_callbk o).trans hflag) hid
    | none =>
      have hother : c.tid ≠ some id := fun heq => by
        have hsome := hown c List.mem_cons_self heq
        rw [ho] at hsome
        exact absurd hsome (by simp)
      have hsame := same_call hu hother
      rw [List.filterMap_cons_none ho]
      exact ih hrest hr (hsame.heap.trans ht) hflag (mt hsame.mem.mp hid)

/-- The marks add up. -/
theorem foldl_mark (os : List Own) (t : Timer α) :
    (os.foldl Own.mark t).iflag.delete = t.iflag.delete ∧
      ((os.foldl Own.mark t).iflag.stoped = true ↔ t.iflag.stoped = true ∨ .stop ∈ os) ∧
      (os.foldl Own.mark t).nxtTick = t.nxtTick+(os.map Own.itv).sum := by
  induction os generalizing t with
  | nil => simp
  | cons o os ih =>
    obtain ⟨hdelete,hstoped,hnxt⟩ := ih (o.mark t)
    rw [List.foldl_cons,List.map_cons,List.sum_cons,hdelete,hstoped,hnxt]
    cases o with
    | start now itv irt => exact ⟨rfl,by simp [Own.mark],UInt64.add_assoc _ _ _⟩
    | stop => exact ⟨rfl,by simp [Own.mark],by simp [Own.mark,Own.itv]⟩

theorem settle_stoped (ht : q.heap id = some t) (hdelete : t.iflag.delete = false)
    (hstoped : t.iflag.stoped = true) : settle q id = some (q.set id {t with iflag := noFlags}) := by
  unfold settle
  rw [ht]
  dsimp only
  rw [if_neg (by simp [hdelete]),if_pos hstoped]

theorem settle_started (ht : q.heap id = some t) (hdelete : t.iflag.delete = false)
    (hstoped : t.iflag.stoped = false) (hrstart : t.iflag.rstart = true) :
    settle q id = some (timerInsert q id {t with iflag := noFlags}) := by
  unfold settle
  rw [ht]
  dsimp only
  rw [if_neg (by simp [hdelete]),if_neg (by simp [hstoped]),if_pos hrstart]

/-- The last call in its own callback decides on a timer when it is a stop, or when the timer
was not stopped before and the intervals of the starts before it add nothing to the deadline. -/
theorem lastCall_decides_iff {cs : List (Call α)} {last : Own} (hnodup : q.tqList.Nodup)
    (ht : q.heap id = some t) (hown : ∀ c ∈ cs, c.tid = some id → (c.own id).isSome)
    (hlast : ownCalls id cs = os ++ [last])
    (hr : fire (fun _ _ cs (s : Queue α × Unit) => (calls cs s.1).map fun q => (q,())) cs id (q,()) = some (r,())) :
    last.Decides t.nxtTick r id ↔ last = .stop ∨ .stop ∉ os ∧ (os.map Own.itv).sum = 0 := by
  obtain ⟨tinfo,u,r',htinfo,hu,hsettle,heq⟩ := fire_cases hr
  obtain rfl : tinfo = t := Option.some.inj (htinfo.symm.trans ht)
  obtain rfl : r = r' := congrArg Prod.fst heq
  obtain ⟨v,hv,rfl⟩ := Option.map_eq_some_iff.mp hu
  obtain ⟨hheap,hoff⟩ := calls_own hown hv (set_heap_self _ _ _) rfl fun hmem =>
    (hnodup.mem_erase_iff.mp hmem).1 rfl
  rw [hlast,List.foldl_append,List.foldl_cons,List.foldl_nil] at hheap
  obtain ⟨hdelete,hstoped,hnxt⟩ := foldl_mark os {tinfo with iflag := ⟨true,false,false,false⟩}
  generalize os.foldl Own.mark {tinfo with iflag := ⟨true,false,false,false⟩} = marked at hheap hdelete hstoped hnxt
  cases last with
  | stop =>
    rw [settle_stoped hheap hdelete rfl] at hsettle
    obtain rfl := Option.some.inj hsettle
    exact ⟨fun _ => Or.inl rfl,fun _ => hoff⟩
  | start now itv irt =>
    by_cases hstop : marked.iflag.stoped = true
    · -- stopped for good
      rw [settle_stoped hheap hdelete hstop] at hsettle
      obtain rfl := Option.some.inj hsettle
      have hmem : Own.stop ∈ os := (hstoped.mp hstop).resolve_left (by simp)
      exact ⟨fun h => absurd h.1 hoff,fun h => h.elim (fun h => nomatch h) fun h => absurd hmem h.1⟩
    · have hnot : Own.stop ∉ os := fun hmem => hstop (hstoped.mpr (Or.inr hmem))
      rw [settle_started hheap hdelete (Bool.eq_false_iff.mpr hstop) rfl] at hsettle
      obtain rfl := Option.some.inj hsettle
      have hself : (timerInsert v id {Own.mark marked (.start now itv irt) with iflag := noFlags}).heap id = _ :=
        set_heap_self v id _
      constructor
      · rintro ⟨-,t',ht',hd,-⟩
        obtain rfl := Option.some.inj (hself.symm.trans ht')
        refine Or.inr ⟨hnot,?_⟩
        have hd : marked.nxtTick+itv.toUInt64 = tinfo.nxtTick+itv.toUInt64 := hd
        rw [hnxt] at hd
        exact by simpa using hd
      · intro h
        have hsum := (h.resolve_left fun h => nomatch h).2
        refine ⟨Stable.mem_insert.mpr (Or.inl rfl),_,hself,?_,rfl⟩
        show marked.nxtTick+itv.toUInt64 = tinfo.nxtTick+itv.toUInt64
        rw [hnxt,hsum,UInt64.add_zero]

end Own

/-- A timer about to fire at 10. -/
def oneTimer : Queue Unit := ⟨fun id => if id = 1 then some ⟨noFlags,0,10,(),0⟩ else none,[1],10,10,1⟩

/-- Started for 0 ticks and then for 5 with a repeat of 7. -/
theorem startStart_decides : ∃ r : Queue Unit,
    fire (fun _ _ cs (s : Queue Unit × Unit) => (calls cs s.1).map fun q => (q,()))
      [.start 1 10 0 0,.start 1 10 5 7] 1 (oneTimer,()) = some (r,()) ∧
      Own.Decides 10 r 1 (.start 10 5 7) := by
  have hlast : ownCalls 1 ([.start 1 10 0 0,.start 1 10 5 7] : List (Call Unit)) =
    [.start 10 0 0] ++ [.start 10 5 7] := rfl
  obtain ⟨r,hr⟩ : ∃ r : Queue Unit,
      fire (fun _ _ cs (s : Queue Unit × Unit) => (calls cs s.1).map fun q => (q,()))
        [.start 1 10 0 0,.start 1 10 5 7] 1 (oneTimer,()) = some (r,()) := ⟨_,rfl⟩
  exact ⟨r,hr,(lastCall_decides_iff (by decide) rfl (by simp [Call.own]) hlast hr).mpr (Or.inr ⟨by simp,rfl⟩)⟩

/-- Stopped and then started for 5 ticks it is not on the list; started twice for 5 ticks it is
there for 20, not for 15. -/
theorem lastCall_not_decides :
    (∃ r : Queue Unit, fire (fun _ _ cs (s : Queue Unit × Unit) => (calls cs s.1).map fun q => (q,()))
        [.stop 1,.start 1 10 5 0] 1 (oneTimer,()) = some (r,()) ∧
        ¬Own.Decides 10 r 1 (.start 10 5 0)) ∧
      ∃ r : Queue Unit, fire (fun _ _ cs (s : Queue Unit × Unit) => (calls cs s.1).map fun q => (q,()))
        [.start 1 10 5 0,.start 1 10 5 0] 1 (oneTimer,()) = some (r,()) ∧
        ¬Own.Decides 10 r 1 (.start 10 5 0) := by
  refine ⟨⟨_,rfl,fun h => absurd h.1 (by decide)⟩,⟨_,rfl,?_⟩⟩
  rintro ⟨-,t,ht,hd,-⟩
  obtain rfl := Option.some.inj ht
  exact absurd hd (by decide)

end Timers
end Autbus
