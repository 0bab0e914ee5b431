import Autbus.Stable
import Autbus.Trace

/-! The timer queue of `atimer.c`. Timers are blocks of memory named by their address, a
callback is what it does to the queue and to the rest of the program. `since` and `inserts`
are not part of the program: they count the insertions. -/
namespace Autbus
namespace Timers

/-- The bits of `iflag`. -/
structure Flags where
  callbk : Bool
  delete : Bool
  stoped : Bool
  rstart : Bool
  deriving DecidableEq

def noFlags : Flags := ⟨false,false,false,false⟩

/-- `tq_node_t`; `cbkf` stands for the callback with its argument. -/
structure Timer (α : Type) where
  iflag : Flags
  irepeat : UInt32
  nxtTick : UInt64
  cbkf : α
  since : ℕ

/-- The timers of a task. `fd` is the tick last written to `fd_timer`. -/
structure Queue (α : Type) where
  heap : ℕ → Option (Timer α)
  tqList : List ℕ
  tqNxtTick : UInt64
  fd : UInt64
  inserts : ℕ

variable {α : Type}

namespace Queue

def nxt (q : Queue α) (id : ℕ) : UInt64 := ((q.heap id).map Timer.nxtTick).getD 0

def since (q : Queue α) (id : ℕ) : ℕ := ((q.heap id).map Timer.since).getD 0

/-- The order of the list. -/
def key (q : Queue α) (id : ℕ) : ℕ := (q.nxt id).toNat

def set (q : Queue α) (id : ℕ) (t : Timer α) : Queue α := {q with heap := Function.update q.heap id (some t)}

def free (q : Queue α) (id : ℕ) : Queue α := {q with heap := Function.update q.heap id none}

def write (q : Queue α) (tick : UInt64) : Queue α := {q with tqNxtTick := tick,fd := tick}

end Queue

/-- `timer_queue_init`, before any timer is created. -/
def init : Queue α := ⟨fun _ => none,[],0,0,0⟩

/-- `timer_insert`; `tinfo` is what the block holds. -/
def timerInsert (q : Queue α) (id : ℕ) (tinfo : Timer α) : Queue α :=
  let q := {q.set id {tinfo with since := q.inserts} with inserts := q.inserts+1}
  {q with tqList := Stable.insert q.key id q.tqList}

/-- Set the hardware to the head of the list when it is set to something else. -/
def reprogram (q : Queue α) : Queue α :=
  match q.tqList with
  | [] => q
  | curn::_ => if q.tqNxtTick ≠ q.nxt curn then q.write (q.nxt curn) else q

/-- `timer_create`: `block` is what `malloc` returns, a block not in use. -/
def timerCreate (q : Queue α) (block : Option ℕ) (cbkf : α) : Option (Queue α) :=
  match block with
  | none => some q
  | some ptqn => if (q.heap ptqn).isSome then none else some (q.set ptqn ⟨noFlags,0,0,cbkf,0⟩)

/-- `timer_start`; `now` is what it reads from `fd_timer`. -/
def timerStart (q : Queue α) (tid : ℕ) (now : UInt64) (itv irt : UInt32) : Option (Queue α) :=
  match q.heap tid with
  | none => none
  | some ptqn =>
    if ptqn.iflag.callbk then
      some (q.set tid {ptqn with
        iflag := {ptqn.iflag with rstart := true},nxtTick := ptqn.nxtTick+itv.toUInt64,irepeat := irt})
    else
      let q := {q with tqList := q.tqList.erase tid}
      some (reprogram (timerInsert q tid {ptqn with
        iflag := noFlags,nxtTick := now+itv.toUInt64,irepeat := irt}))

/-- `timer_stop`. -/
def timerStop (q : Queue α) (tid : ℕ) : Option (Queue α) :=
  match q.heap tid with
  | none => none
  | some ptqn =>
    if tid ∈ q.tqList then some (reprogram {q with tqList := q.tqList.erase tid})
    else if ptqn.iflag.callbk then some (q.set tid {ptqn with iflag := {ptqn.iflag with stoped := true}})
    else some q

/-- `timer_delete`. -/
def timerDelete (q : Queue α) (tid : ℕ) : Option (Queue α) :=
  match q.heap tid with
  | none => none
  | some ptqn =>
    if tid ∈ q.tqList then (timerStop q tid).map fun q => q.free tid
    else if ptqn.iflag.callbk then some (q.set tid {ptqn with iflag := {ptqn.iflag with delete := true}})
    else some (q.free tid)

/-- A call of the timer functions. A timer that is not there is not called. -/
inductive Call (α : Type)
  | create (block : Option ℕ) (cbkf : α)
  | start (tid : ℕ) (now : UInt64) (itv irt : UInt32)
  | stop (tid : ℕ)
  | delete (tid : ℕ)

def Call.run (q : Queue α) : Call α → Option (Queue α)
  | .create block cbkf => timerCreate q block cbkf
  | .start tid now itv irt => timerStart q tid now itv irt
  | .stop tid => timerStop q tid
  | .delete tid => timerDelete q tid

def calls : List (Call α) → Queue α → Option (Queue α)
  | [],q => some q
  | c::cs,q => (c.run q).bind (calls cs)

/-! ### `timer_queue_event` -/

/-- The head is taken off the list for its callback. -/
def detach (q : Queue α) (id : ℕ) (tinfo : Timer α) : Queue α :=
  {q.set id {tinfo with iflag := ⟨true,false,false,false⟩} with tqList := q.tqList.erase id}

/-- After the callback, by the flags it has left. -/
def settle (q : Queue α) (id : ℕ) : Option (Queue α) :=
  match q.heap id with
  | none => none
  | some tinfo =>
    if tinfo.iflag.delete then some (q.free id)
    else if tinfo.iflag.stoped then some (q.set id {tinfo with iflag := noFlags})
    else if tinfo.iflag.rstart then some (timerInsert q id {tinfo with iflag := noFlags})
    else if tinfo.irepeat ≠ 0 then
      some (timerInsert q id {tinfo with iflag := noFlags,nxtTick := tinfo.nxtTick+tinfo.irepeat.toUInt64})
    else some (q.set id {tinfo with iflag := noFlags})

/-- The head, when its time has come. -/
def due (curr : UInt64) (q : Queue α) : Option ℕ :=
  match q.tqList with
  | [] => none
  | tinfo::_ => if curr < q.nxt tinfo then none else some tinfo

/-- The write before the return. -/
def rearm (q : Queue α) : Queue α :=
  match q.tqList with
  | [] => q.write 0
  | tinfo::_ => q.write (q.nxt tinfo)

section Loop

variable {σ X : Type} (run : α → ℕ → X → Queue α × σ → Option (Queue α × σ))

/-- One timer fires; `run` is what callbacks do, `x` whatever they get from outside. -/
def fire (x : X) (id : ℕ) (s : Queue α × σ) : Option (Queue α × σ) :=
  match s.1.heap id with
  | none => none
  | some tinfo =>
    (run tinfo.cbkf id x (detach s.1 id tinfo,s.2)).bind fun s => (settle s.1 id).map fun q => (q,s.2)

/-- The loop of `timer_queue_event`: as many timers fire as there are inputs. -/
def eventLoop (curr : UInt64) : List X → Queue α × σ → Option (Queue α × σ)
  | [],s =>
    match due curr s.1 with
    | none => some (rearm s.1,s.2)
    | some _ => none
  | x::xs,s =>
    match due curr s.1 with
    | none => none
    | some id => (fire run x id s).bind (eventLoop curr xs)

end Loop

/-- `timer_queue_event`, the callbacks making the calls listed. -/
def timerQueueEvent (q : Queue α) (curr : UInt64) (cbks : List (List (Call α))) : Option (Queue α) :=
  (eventLoop (fun _ _ cs (s : Queue α × Unit) => (calls cs s.1).map fun q => (q,())) curr cbks (q,())).map Prod.fst

inductive Event (α : Type)
  | call (c : Call α)
  | queueEvent (curr : UInt64) (cbks : List (List (Call α)))

def step (q : Queue α) : Event α → Option (Queue α)
  | .call c => c.run q
  | .queueEvent curr cbks => timerQueueEvent q curr cbks

/-- Each timer once, the earliest first, those of one deadline as they were inserted, and the
hardware set to the first one. -/
structure InOrder (q : Queue α) : Prop where
  nodup : q.tqList.Nodup
  sorted : q.tqList.Pairwise (Stable.Before q.key q.since)
  armed : ∀ id, q.tqList.head? = some id → q.fd = q.nxt id

/-! ### What holds at every call

`busy` is the timer whose callback is running, if any. -/

structure Wf (q : Queue α) (busy : Option ℕ) : Prop where
  nodup : q.tqList.Nodup
  alive : ∀ id ∈ q.tqList, (q.heap id).isSome
  sorted : q.tqList.Pairwise (Stable.Before q.key q.since)
  old : ∀ id ∈ q.tqList, q.since id < q.inserts
  flag : ∀ id t, q.heap id = some t → (t.iflag.callbk = true ↔ busy = some id)
  held : ∀ id, busy = some id → (q.heap id).isSome ∧ id ∉ q.tqList
  fd : q.fd = q.tqNxtTick

/-- No wake-up is lost. -/
def Armed (q : Queue α) : Prop := ∀ id, q.tqList.head? = some id → q.tqNxtTick = q.nxt id

variable {q : Queue α} {busy : Option ℕ} {id : ℕ}

section Fields

variable (q) (id) (t : Timer α)

@[simp] theorem set_heap_self : (q.set id t).heap id = some t := Function.update_self _ _ _

@[simp] theorem free_heap_self : (q.free id).heap id = none := Function.update_self _ _ _

theorem set_heap_of_ne {id' : ℕ} (h : id' ≠ id) : (q.set id t).heap id' = q.heap id' :=
  Function.update_of_ne h _ _

theorem free_heap_of_ne {id' : ℕ} (h : id' ≠ id) : (q.free id).heap id' = q.heap id' :=
  Function.update_of_ne h _ _

theorem set_set (u : Timer α) : (q.set id u).set id t = q.set id t := by
  unfold Queue.set
  rw [Function.update_idem]

theorem free_set : (q.set id t).free id = q.free id := by
  unfold Queue.set Queue.free
  rw [Function.update_idem]

end Fields

theorem nxt_congr {q' : Queue α} (h : q'.heap id = q.heap id) : q'.nxt id = q.nxt id := by
  unfold Queue.nxt
  rw [h]

/-- A queue with the same list, the timers of the list unchanged. -/
theorem Wf.congr {q' : Queue α} {busy' : Option ℕ} (h : Wf q busy) (hl : q'.tqList = q.tqList)
    (hh : ∀ id ∈ q.tqList, q'.heap id = q.heap id) (hi : q'.inserts = q.inserts)
    (hflag : ∀ id t, q'.heap id = some t → (t.iflag.callbk = true ↔ busy' = some id))
    (hheld : ∀ id, busy' = some id → (q'.heap id).isSome ∧ id ∉ q.tqList) (hfd : q'.fd = q'.tqNxtTick) :
    Wf q' busy' := by
  have hsince : ∀ id ∈ q.tqList, q'.since id = q.since id := fun id hid => by
    unfold Queue.since
    rw [hh id hid]
  refine ⟨hl ▸ h.nodup,?_,?_,?_,hflag,hl ▸ hheld,hfd⟩
  · intro id hid
    rw [hl] at hid
    rw [hh id hid]
    exact h.alive id hid
  · rw [hl]
    refine Stable.pairwise_congr (fun id hid => ?_) hsince h.sorted
    unfold Queue.key
    rw [nxt_congr (hh id hid)]
  · intro id hid
    rw [hl] at hid
    rw [hsince id hid,hi]
    exact h.old id hid

theorem Wf.write (h : Wf q busy) (tick : UInt64) : Wf (q.write tick) busy :=
  h.congr rfl (fun _ _ => rfl) rfl h.flag h.held rfl

theorem Wf.reprogram (h : Wf q busy) : Wf (reprogram q) busy := by
  unfold Timers.reprogram
  split
  · exact h
  · split
    · exact h.write _
    · exact h

theorem armed_reprogram (q : Queue α) : Armed (reprogram q) := by
  intro id hid
  unfold reprogram at hid ⊢
  split
  · next hnil => simp [hnil] at hid
  · next curn l hcons =>
    have hcurn : id = curn := by
      rw [hcons] at hid
      dsimp only at hid
      split at hid <;> simpa [Queue.write,hcons] using hid.symm
    subst hcurn
    split
    · rfl
    · next heq => exact not_not.mp heq

theorem tqList_reprogram (q : Queue α) : (reprogram q).tqList = q.tqList := by
  unfold reprogram
  split
  · rfl
  · split
    · rfl
    · rfl

/-- Off the list a timer changes at will. -/
theorem Wf.set {busy' : Option ℕ} {t : Timer α} (h : Wf q busy) (hid : id ∉ q.tqList)
    (hother : ∀ id', id' ≠ id → (busy' = some id' ↔ busy = some id'))
    (hflag : t.iflag.callbk = true ↔ busy' = some id) : Wf (q.set id t) busy' := by
  refine h.congr rfl (fun id' hid' => set_heap_of_ne _ _ _ ?_) rfl ?_ ?_ h.fd
  · rintro rfl
    exact hid hid'
  · intro id' u hu
    by_cases heq : id' = id
    · subst heq
      rw [set_heap_self] at hu
      rw [← Option.some.inj hu]
      exact hflag
    · rw [set_heap_of_ne _ _ _ heq] at hu
      rw [hother id' heq]
      exact h.flag id' u hu
  · intro id' hbusy
    by_cases heq : id' = id
    · subst heq
      exact ⟨Option.isSome_iff_exists.mpr ⟨t,set_heap_self _ _ _⟩,hid⟩
    · rw [set_heap_of_ne _ _ _ heq]
      exact h.held id' ((hother id' heq).mp hbusy)

theorem Wf.free (h : Wf q busy) (hid : id ∉ q.tqList) (hbusy : busy ≠ some id) : Wf (q.free id) busy := by
  refine h.congr rfl (fun id' hid' => free_heap_of_ne _ _ ?_) rfl ?_ ?_ h.fd
  · rintro rfl
    exact hid hid'
  · intro id' u hu
    by_cases heq : id' = id
    · subst heq
      rw [free_heap_self] at hu
      exact absurd hu (by simp)
    · rw [free_heap_of_ne _ _ heq] at hu
      exact h.flag id' u hu
  · intro id' hb
    have hne : id' ≠ id := by
      rintro rfl
      exact hbusy hb
    rw [free_heap_of_ne _ _ hne]
    exact h.held id' hb

theorem Wf.erase (h : Wf q busy) (id : ℕ) : Wf {q with tqList := q.tqList.erase id} busy where
  nodup := h.nodup.erase id
  alive := fun id' hid' => h.alive id' (List.mem_of_mem_erase hid')
  sorted := h.sorted.sublist List.erase_sublist
  old := fun id' hid' => h.old id' (List.mem_of_mem_erase hid')
  flag := h.flag
  held := fun id' hb => ⟨(h.held id' hb).1,fun hid' => (h.held id' hb).2 (List.mem_of_mem_erase hid')⟩
  fd := h.fd

theorem Wf.timerInsert {t : Timer α} (h : Wf q busy) (hid : id ∉ q.tqList) (hbusy : busy ≠ some id)
    (hflag : t.iflag.callbk = false) : Wf (timerInsert q id t) busy := by
  have hset : Wf (q.set id {t with since := q.inserts}) busy :=
    h.set hid (fun _ _ => Iff.rfl) ⟨fun hc => absurd (hflag.symm.trans hc) (by simp),fun hb => absurd hb hbusy⟩
  have hsince : (q.set id {t with since := q.inserts}).since id = q.inserts := by
    unfold Queue.since
    rw [set_heap_self]
    rfl
  refine ⟨Stable.nodup_insert hset.nodup hid,?_,?_,?_,hset.flag,?_,hset.fd⟩
  · intro id' hid'
    rcases Stable.mem_insert.mp hid' with rfl | hid'
    · exact Option.isSome_iff_exists.mpr ⟨_,set_heap_self _ _ _⟩
    · exact hset.alive id' hid'
  · refine Stable.pairwise_insert hset.sorted fun id' hid' => ?_
    exact lt_of_lt_of_eq (hset.old id' hid') hsince.symm
  · intro id' hid'
    rcases Stable.mem_insert.mp hid' with rfl | hid'
    · exact lt_of_eq_of_lt hsince (Nat.lt_succ_self _)
    · exact Nat.lt_succ_of_lt (hset.old id' hid')
  · intro id' hb
    refine ⟨(hset.held id' hb).1,fun hid' => ?_⟩
    rcases Stable.mem_insert.mp hid' with rfl | hid'
    · exact hbusy hb
    · exact (h.held id' hb).2 hid'

/-! ### What each call does -/

section Cases

variable {tid : ℕ} {r : Queue α}

theorem timerCreate_cases {block : Option ℕ} {cbkf : α} (hr : timerCreate q block cbkf = some r) :
    block = none ∧ r = q ∨
      ∃ ptqn, block = some ptqn ∧ q.heap ptqn = none ∧ r = q.set ptqn ⟨noFlags,0,0,cbkf,0⟩ := by
  unfold timerCreate at hr
  split at hr
  · exact Or.inl ⟨rfl,(Option.some.inj hr).symm⟩
  · next ptqn =>
    split at hr
    · exact absurd hr (by simp)
    · next hfree => exact Or.inr ⟨ptqn,rfl,by simpa using hfree,(Option.some.inj hr).symm⟩

/-- In its callback a timer is only marked, else it is put on the list at once. -/
theorem timerStart_cases {now : UInt64} {itv irt : UInt32} (hr : timerStart q tid now itv irt = some r) :
    ∃ ptqn, q.heap tid = some ptqn ∧
      (ptqn.iflag.callbk = true ∧ r = q.set tid {ptqn with
          iflag := {ptqn.iflag with rstart := true},nxtTick := ptqn.nxtTick+itv.toUInt64,irepeat := irt} ∨
        ptqn.iflag.callbk = false ∧
          r = reprogram (timerInsert {q with tqList := q.tqList.erase tid} tid {ptqn with
            iflag := noFlags,nxtTick := now+itv.toUInt64,irepeat := irt})) := by
  unfold timerStart at hr
  split at hr
  · exact absurd hr (by simp)
  · next ptqn hptqn =>
    refine ⟨ptqn,hptqn,?_⟩
    split at hr
    · next hcallbk => exact Or.inl ⟨hcallbk,(Option.some.inj hr).symm⟩
    · next hcallbk => exact Or.inr ⟨Bool.eq_false_iff.mpr hcallbk,(Option.some.inj hr).symm⟩

/-- A timer is taken off the list, or marked in its callback, or not running at all. -/
theorem timerStop_cases (hr : timerStop q tid = some r) :
    ∃ ptqn, q.heap tid = some ptqn ∧
      (tid ∈ q.tqList ∧ r = reprogram {q with tqList := q.tqList.erase tid} ∨
        tid ∉ q.tqList ∧ ptqn.iflag.callbk = true ∧
          r = q.set tid {ptqn with iflag := {ptqn.iflag with stoped := true}} ∨
        tid ∉ q.tqList ∧ r = q) := by
  unfold timerStop at hr
  split at hr
  · exact absurd hr (by simp)
  · next ptqn hptqn =>
    refine ⟨ptqn,hptqn,?_⟩
    split at hr
    · next hid => exact Or.inl ⟨hid,(Option.some.inj hr).symm⟩
    · next hid =>
      split at hr
      · next hcallbk => exact Or.inr (Or.inl ⟨hid,hcallbk,(Option.some.inj hr).symm⟩)
      · exact Or.inr (Or.inr ⟨hid,(Option.some.inj hr).symm⟩)

/-- A timer is freed, or marked in its callback. -/
theorem timerDelete_cases (hr : timerDelete q tid = some r) :
    ∃ ptqn, q.heap tid = some ptqn ∧
      (tid ∈ q.tqList ∧ r = (reprogram {q with tqList := q.tqList.erase tid}).free tid ∨
        tid ∉ q.tqList ∧ ptqn.iflag.callbk = true ∧
          r = q.set tid {ptqn with iflag := {ptqn.iflag with delete := true}} ∨
        tid ∉ q.tqList ∧ ptqn.iflag.callbk = false ∧ r = q.free tid) := by
  unfold timerDelete at hr
  split at hr
  · exact absurd hr (by simp)
  · next ptqn hptqn =>
    refine ⟨ptqn,hptqn,?_⟩
    split at hr
    · next hid =>
      obtain ⟨u,hu,rfl⟩ := Option.map_eq_some_iff.mp hr
      obtain ⟨-,-,⟨-,rfl⟩ | ⟨hoff,-⟩ | ⟨hoff,-⟩⟩ := timerStop_cases hu
      · exact Or.inl ⟨hid,rfl⟩
      · exact absurd hid hoff
      · exact absurd hid hoff
    · next hid =>
      split at hr
      · next hcallbk => exact Or.inr (Or.inl ⟨hid,hcallbk,(Option.some.inj hr).symm⟩)
      · next hcallbk => exact Or.inr (Or.inr ⟨hid,Bool.eq_false_iff.mpr hcallbk,(Option.some.inj hr).symm⟩)

/-- After its callback a timer is freed, or its flags are cleared and it is put on the list or not. -/
theorem settle_cases (hr : settle q id = some r) :
    ∃ tinfo, q.heap id = some tinfo ∧ (r = q.free id ∨
      ∃ t : Timer α, t.iflag = noFlags ∧ t.cbkf = tinfo.cbkf ∧ (r = q.set id t ∨ r = timerInsert q id t)) := by
  unfold settle at hr
  split at hr
  · exact absurd hr (by simp)
  · next tinfo htinfo =>
    refine ⟨tinfo,htinfo,?_⟩
    split at hr
    · exact Or.inl (Option.some.inj hr).symm
    · split at hr
      · exact Or.inr ⟨{tinfo with iflag := noFlags},rfl,rfl,Or.inl (Option.some.inj hr).symm⟩
      · split at hr
        · exact Or.inr ⟨{tinfo with iflag := noFlags},rfl,rfl,Or.inr (Option.some.inj hr).symm⟩
        · split at hr
          · exact Or.inr ⟨{tinfo with iflag := noFlags,nxtTick := tinfo.nxtTick+tinfo.irepeat.toUInt64},rfl,rfl,
              Or.inr (Option.some.inj hr).symm⟩
          · exact Or.inr ⟨{tinfo with iflag := noFlags},rfl,rfl,Or.inl (Option.some.inj hr).symm⟩

end Cases

/-! ### Each call -/

theorem Wf.timerCreate {block : Option ℕ} {cbkf : α} {r : Queue α} (h : Wf q busy)
    (hr : timerCreate q block cbkf = some r) : Wf r busy := by
  rcases timerCreate_cases hr with ⟨-,rfl⟩ | ⟨ptqn,-,hfree,rfl⟩
  · exact h
  · have hdead : ¬(q.heap ptqn).isSome := by simp [hfree]
    refine h.set (fun hmem => hdead (h.alive ptqn hmem)) (fun _ _ => Iff.rfl) ?_
    exact ⟨fun hc => absurd hc (by simp [noFlags]),fun hb => absurd (h.held ptqn hb).1 hdead⟩

theorem not_mem_erase (h : Wf q busy) (id : ℕ) : id ∉ q.tqList.erase id :=
  fun hmem => (h.nodup.mem_erase_iff.mp hmem).1 rfl

theorem Wf.timerStart {tid : ℕ} {now : UInt64} {itv irt : UInt32} {r : Queue α} (h : Wf q busy)
    (hr : timerStart q tid now itv irt = some r) : Wf r busy := by
  obtain ⟨ptqn,hptqn,⟨hcallbk,rfl⟩ | ⟨hcallbk,rfl⟩⟩ := timerStart_cases hr
  · have hbusy : busy = some tid := (h.flag tid ptqn hptqn).mp hcallbk
    exact h.set (h.held tid hbusy).2 (fun _ _ => Iff.rfl) ⟨fun _ => hbusy,fun _ => hcallbk⟩
  · refine ((h.erase tid).timerInsert (not_mem_erase h tid) ?_ rfl).reprogram
    intro hbusy
    have hflag := (h.flag tid ptqn hptqn).mpr hbusy
    exact absurd (hcallbk.symm.trans hflag) (by simp)

theorem Wf.timerStop {tid : ℕ} {r : Queue α} (h : Wf q busy) (hr : timerStop q tid = some r) : Wf r busy := by
  obtain ⟨ptqn,hptqn,⟨hid,rfl⟩ | ⟨hid,hcallbk,rfl⟩ | ⟨-,rfl⟩⟩ := timerStop_cases hr
  · exact (h.erase tid).reprogram
  · exact h.set hid (fun _ _ => Iff.rfl) (h.flag tid ptqn hptqn)
  · exact h

theorem Wf.timerDelete {tid : ℕ} {r : Queue α} (h : Wf q busy) (hr : timerDelete q tid = some r) :
    Wf r busy := by
  obtain ⟨ptqn,hptqn,⟨hid,rfl⟩ | ⟨hid,hcallbk,rfl⟩ | ⟨hid,hcallbk,rfl⟩⟩ := timerDelete_cases hr
  · refine (h.erase tid).reprogram.free ?_ fun hbusy => (h.held tid hbusy).2 hid
    rw [tqList_reprogram]
    exact not_mem_erase h tid
  · exact h.set hid (fun _ _ => Iff.rfl) (h.flag tid ptqn hptqn)
  · refine h.free hid fun hbusy => ?_
    have hflag := (h.flag tid ptqn hptqn).mpr hbusy
    exact absurd (hcallbk.symm.trans hflag) (by simp)

theorem Wf.call {c : Call α} {r : Queue α} (h : Wf q busy) (hr : c.run q = some r) : Wf r busy := by
  cases c with
  | create block cbkf => exact h.timerCreate hr
  | start tid now itv irt => exact h.timerStart hr
  | stop tid => exact h.timerStop hr
  | delete tid => exact h.timerDelete hr

theorem Wf.calls {cs : List (Call α)} {r : Queue α} (h : Wf q busy) (hr : calls cs q = some r) : Wf r busy := by
  induction cs generalizing q with
  | nil =>
    rw [← Option.some.inj hr]
    exact h
  | cons c cs ih =>
    obtain ⟨u,hu,hr⟩ := Option.bind_eq_some_iff.mp hr
    exact ih (h.call hu) hr

/-! ### What a call leaves alone -/

/-- The timer is as it was, on the list or off it. -/
structure Same (q r : Queue α) (id : ℕ) : Prop where
  heap : r.heap id = q.heap id
  mem : id ∈ r.tqList ↔ id ∈ q.tqList

theorem Same.refl (q : Queue α) (id : ℕ) : Same q q id := ⟨rfl,Iff.rfl⟩

theorem Same.trans {r u : Queue α} (h : Same q r id) (h' : Same r u id) : Same q u id :=
  ⟨h'.heap.trans h.heap,h'.mem.trans h.mem⟩

section Other

variable {other : ℕ}

theorem same_set (t : Timer α) (hne : id ≠ other) : Same q (q.set other t) id :=
  ⟨set_heap_of_ne _ _ _ hne,Iff.rfl⟩

theorem same_free (hne : id ≠ other) : Same q (q.free other) id := ⟨free_heap_of_ne _ _ hne,Iff.rfl⟩

theorem same_erase (hne : id ≠ other) : Same q {q with tqList := q.tqList.erase other} id :=
  ⟨rfl,List.mem_erase_of_ne hne⟩

theorem same_timerInsert (t : Timer α) (hne : id ≠ other) : Same q (timerInsert q other t) id :=
  ⟨set_heap_of_ne q other _ hne,by
    refine Stable.mem_insert.trans ⟨fun h => ?_,Or.inr⟩
    exact h.resolve_left hne⟩

theorem same_reprogram (q : Queue α) (id : ℕ) : Same q (reprogram q) id := by
  refine ⟨?_,by rw [tqList_reprogram]⟩
  unfold reprogram
  split
  · rfl
  · split
    · rfl
    · rfl

end Other

/-- The timer a call is about. -/
def Call.tid : Call α → Option ℕ
  | .create block _ => block
  | .start tid _ _ _ => some tid
  | .stop tid => some tid
  | .delete tid => some tid

theorem same_timerCreate {block : Option ℕ} {cbkf : α} {r : Queue α}
    (hr : timerCreate q block cbkf = some r) (hne : block ≠ some id) : Same q r id := by
  rcases timerCreate_cases hr with ⟨-,rfl⟩ | ⟨ptqn,hblock,-,rfl⟩
  · exact Same.refl r id
  · exact same_set _ fun heq => hne (heq ▸ hblock)

theorem same_timerStart {tid : ℕ} {now : UInt64} {itv irt : UInt32} {r : Queue α}
    (hr : timerStart q tid now itv irt = some r) (hne : id ≠ tid) : Same q r id := by
  obtain ⟨ptqn,-,⟨-,rfl⟩ | ⟨-,rfl⟩⟩ := timerStart_cases hr
  · exact same_set _ hne
  · exact ((same_erase hne).trans (same_timerInsert _ hne)).trans (same_reprogram _ id)

theorem same_timerStop {tid : ℕ} {r : Queue α} (hr : timerStop q tid = some r) (hne : id ≠ tid) :
    Same q r id := by
  obtain ⟨ptqn,-,⟨-,rfl⟩ | ⟨-,-,rfl⟩ | ⟨-,rfl⟩⟩ := timerStop_cases hr
  · exact (same_erase hne).trans (same_reprogram _ id)
  · exact same_set _ hne
  · exact Same.refl r id

theorem same_timerDelete {tid : ℕ} {r : Queue α} (hr : timerDelete q tid = some r) (hne : id ≠ tid) :
    Same q r id := by
  obtain ⟨ptqn,-,⟨-,rfl⟩ | ⟨-,-,rfl⟩ | ⟨-,-,rfl⟩⟩ := timerDelete_cases hr
  · exact ((same_erase hne).trans (same_reprogram _ id)).trans (same_free hne)
  · exact same_set _ hne
  · exact same_free hne

/-- A call is about one timer. -/
theorem same_call {c : Call α} {r : Queue α} (hr : c.run q = some r) (hne : c.tid ≠ some id) :
    Same q r id := by
  cases c with
  | create block cbkf => exact same_timerCreate hr hne
  | start tid now itv irt => exact same_timerStart hr fun heq => hne (heq ▸ rfl)
  | stop tid => exact same_timerStop hr fun heq => hne (heq ▸ rfl)
  | delete tid => exact same_timerDelete hr fun heq => hne (heq ▸ rfl)

/-- What the timer calls, if it is there. -/
def Queue.cbkf (q : Queue α) (id : ℕ) : Option α := (q.heap id).map Timer.cbkf

theorem cbkf_set (t : Timer α) : (q.set id t).cbkf id = some t.cbkf := by
  unfold Queue.cbkf
  rw [set_heap_self]
  rfl

theorem cbkf_of_heap {t : Timer α} (h : q.heap id = some t) : q.cbkf id = some t.cbkf := by
  unfold Queue.cbkf
  rw [h]
  rfl

theorem cbkf_reprogram (q : Queue α) (id : ℕ) : (reprogram q).cbkf id = q.cbkf id := by
  unfold Queue.cbkf
  rw [(same_reprogram q id).heap]

theorem cbkf_free (q : Queue α) (id : ℕ) : (q.free id).cbkf id = none := by
  unfold Queue.cbkf
  rw [free_heap_self]
  rfl

theorem timerCreate_heap {cbkf : α} {r : Queue α} (hr : timerCreate q (some id) cbkf = some r) :
    q.heap id = none ∧ r.heap id = some ⟨noFlags,0,0,cbkf,0⟩ := by
  rcases timerCreate_cases hr with ⟨hblock,-⟩ | ⟨ptqn,hblock,hfree,rfl⟩
  · exact absurd hblock (by simp)
  · obtain rfl := Option.some.inj hblock
    exact ⟨hfree,set_heap_self _ _ _⟩

theorem timerCreate_cbkf {cbkf : α} {r : Queue α} (hr : timerCreate q (some id) cbkf = some r) :
    q.cbkf id = none ∧ r.cbkf id = some cbkf := by
  obtain ⟨hq,hr⟩ := timerCreate_heap hr
  unfold Queue.cbkf
  rw [hq,hr]
  exact ⟨rfl,rfl⟩

theorem timerStart_cbkf {now : UInt64} {itv irt : UInt32} {r : Queue α}
    (hr : timerStart q id now itv irt = some r) : r.cbkf id = q.cbkf id := by
  obtain ⟨ptqn,hptqn,⟨-,rfl⟩ | ⟨-,rfl⟩⟩ := timerStart_cases hr
  · rw [cbkf_of_heap hptqn,cbkf_set]
  · rw [cbkf_of_heap hptqn,cbkf_reprogram]
    exact cbkf_set _

theorem timerStop_cbkf {r : Queue α} (hr : timerStop q id = some r) : r.cbkf id = q.cbkf id := by
  obtain ⟨ptqn,hptqn,⟨-,rfl⟩ | ⟨-,-,rfl⟩ | ⟨-,rfl⟩⟩ := timerStop_cases hr
  · rw [cbkf_reprogram]
    rfl
  · rw [cbkf_of_heap hptqn,cbkf_set]
  · rfl

theorem timerDelete_cbkf {r : Queue α} (hr : timerDelete q id = some r) :
    r.cbkf id = none ∨ r.cbkf id = q.cbkf id := by
  obtain ⟨ptqn,hptqn,⟨-,rfl⟩ | ⟨-,-,rfl⟩ | ⟨-,-,rfl⟩⟩ := timerDelete_cases hr
  · exact Or.inl (cbkf_free _ id)
  · rw [cbkf_of_heap hptqn,cbkf_set]
    exact Or.inr rfl
  · exact Or.inl (cbkf_free q id)

/-- Outside its callback a timer is started at once. -/
theorem timerStart_mem {t : Timer α} {now : UInt64} {itv irt : UInt32} {r : Queue α}
    (ht : q.heap id = some t) (hflag : t.iflag.callbk = false) (hr : timerStart q id now itv irt = some r) :
    id ∈ r.tqList := by
  obtain ⟨ptqn,hptqn,⟨hcallbk,-⟩ | ⟨-,rfl⟩⟩ := timerStart_cases hr
  · obtain rfl : ptqn = t := Option.some.inj (hptqn.symm.trans ht)
    exact absurd (hflag.symm.trans hcallbk) (by simp)
  · rw [tqList_reprogram]
    exact Stable.mem_insert.mpr (Or.inl rfl)

/-- It is started with the interval of the call. -/
theorem timerStart_irepeat {now : UInt64} {itv irt : UInt32} {r : Queue α}
    (hr : timerStart q id now itv irt = some r) : ∃ t, r.heap id = some t ∧ t.irepeat = irt := by
  obtain ⟨ptqn,hptqn,⟨-,rfl⟩ | ⟨-,rfl⟩⟩ := timerStart_cases hr
  · exact ⟨_,set_heap_self _ _ _,rfl⟩
  · rw [(same_reprogram _ id).heap]
    exact ⟨_,set_heap_self _ _ _,rfl⟩

/-- In its callback it is only marked. -/
theorem timerStart_busy {t : Timer α} {now : UInt64} {itv irt : UInt32}
    (ht : q.heap id = some t) (hflag : t.iflag.callbk = true) :
    timerStart q id now itv irt = some (q.set id {t with
      iflag := {t.iflag with rstart := true},nxtTick := t.nxtTick+itv.toUInt64,irepeat := irt}) := by
  unfold timerStart
  rw [ht]
  dsimp only
  rw [if_pos hflag]

theorem timerDelete_busy {t : Timer α} (ht : q.heap id = some t) (hid : id ∉ q.tqList)
    (hflag : t.iflag.callbk = true) :
    timerDelete q id = some (q.set id {t with iflag := {t.iflag with delete := true}}) := by
  unfold timerDelete
  rw [ht]
  dsimp only
  rw [if_neg hid,if_pos hflag]

/-- The calls go wrong on a timer that is not there only. -/
theorem timerStop_isSome (h : (q.heap id).isSome) : (timerStop q id).isSome := by
  obtain ⟨ptqn,hptqn⟩ := Option.isSome_iff_exists.mp h
  unfold timerStop
  rw [hptqn]
  dsimp only
  split
  · rfl
  · split <;> rfl

theorem timerDelete_isSome (h : (q.heap id).isSome) : (timerDelete q id).isSome := by
  obtain ⟨ptqn,hptqn⟩ := Option.isSome_iff_exists.mp h
  unfold timerDelete
  rw [hptqn]
  dsimp only
  split
  · rw [Option.isSome_map]
    exact timerStop_isSome h
  · split <;> rfl

theorem settle_isSome (h : (q.heap id).isSome) : (settle q id).isSome := by
  obtain ⟨tinfo,htinfo⟩ := Option.isSome_iff_exists.mp h
  unfold settle
  rw [htinfo]
  dsimp only
  split
  · rfl
  · split
    · rfl
    · split
      · rfl
      · split <;> rfl

theorem timerDelete_mem {r : Queue α} (hid : id ∈ q.tqList) (hr : timerDelete q id = some r) :
    r.heap id = none := by
  obtain ⟨ptqn,-,⟨-,rfl⟩ | ⟨hoff,-⟩ | ⟨hoff,-⟩⟩ := timerDelete_cases hr
  · exact free_heap_self _ id
  · exact absurd hid hoff
  · exact absurd hid hoff

/-- The timer of the call is one that calls `b`, or will be. -/
def Call.About (q : Queue α) (b : α) : Call α → Prop
  | .create _ cbkf => cbkf = b
  | .start tid _ _ _ => q.cbkf tid = some b
  | .stop tid => q.cbkf tid = some b
  | .delete tid => q.cbkf tid = some b

instance [DecidableEq α] (q : Queue α) (b : α) (c : Call α) : Decidable (c.About q b) := by
  cases c <;> unfold Call.About <;> infer_instance

/-- A timer that calls something else is left alone. -/
theorem Call.About.same {c : Call α} {a b : α} {r : Queue α} (hc : c.About q b) (hab : b ≠ a) (hr : c.run q = some r)
    (hid : q.cbkf id = some a ∨ r.cbkf id = some a) : Same q r id := by
  refine same_call hr fun heq => ?_
  have hother : q.cbkf id ≠ some a ∧ r.cbkf id ≠ some a := by
    cases c with
    | create block cbkf =>
      cases heq
      obtain ⟨hq,hr⟩ := timerCreate_cbkf hr
      rw [hq,hr,show cbkf = b from hc]
      exact ⟨by simp,by simpa using hab⟩
    | start tid' now itv irt =>
      cases heq
      have hq : q.cbkf id = some b := hc
      rw [timerStart_cbkf hr,hq]
      exact ⟨by simpa using hab,by simpa using hab⟩
    | stop tid' =>
      cases heq
      have hq : q.cbkf id = some b := hc
      rw [timerStop_cbkf hr,hq]
      exact ⟨by simpa using hab,by simpa using hab⟩
    | delete tid' =>
      cases heq
      have hq : q.cbkf id = some b := hc
      refine ⟨by simpa [hq] using hab,?_⟩
      rcases timerDelete_cbkf hr with hr | hr
      · simp [hr]
      · simpa [hr,hq] using hab
  exact hid.elim hother.1 hother.2

/-! ### The hardware outside `timer_queue_event` -/

/-- Off the list a timer has no say. -/
theorem Armed.congr {q' : Queue α} (h : Armed q) (hl : q'.tqList = q.tqList)
    (hh : ∀ id ∈ q.tqList, q'.heap id = q.heap id) (ht : q'.tqNxtTick = q.tqNxtTick) : Armed q' := by
  intro id hid
  rw [hl] at hid
  rw [ht,nxt_congr (hh id (List.mem_of_mem_head? hid))]
  exact h id hid

theorem Armed.set {t : Timer α} (h : Armed q) (hid : id ∉ q.tqList) : Armed (q.set id t) := by
  refine h.congr rfl (fun id' hid' => set_heap_of_ne _ _ _ ?_) rfl
  rintro rfl
  exact hid hid'

theorem Armed.free (h : Armed q) (hid : id ∉ q.tqList) : Armed (q.free id) := by
  refine h.congr rfl (fun id' hid' => free_heap_of_ne _ _ ?_) rfl
  rintro rfl
  exact hid hid'

/-- With no callback running each call leaves the hardware set. -/
theorem Armed.call {c : Call α} {r : Queue α} (hq : Wf q none) (h : Armed q) (hr : c.run q = some r) :
    Armed r := by
  cases c with
  | create block cbkf =>
    rcases timerCreate_cases hr with ⟨-,rfl⟩ | ⟨ptqn,-,hfree,rfl⟩
    · exact h
    · exact h.set fun hmem => absurd (hq.alive ptqn hmem) (by simp [hfree])
  | start tid now itv irt =>
    obtain ⟨ptqn,hptqn,⟨hcallbk,-⟩ | ⟨-,rfl⟩⟩ := timerStart_cases hr
    · exact absurd ((hq.flag tid ptqn hptqn).mp hcallbk) (by simp)
    · exact armed_reprogram _
  | stop tid =>
    obtain ⟨ptqn,-,⟨-,rfl⟩ | ⟨hid,-,rfl⟩ | ⟨-,rfl⟩⟩ := timerStop_cases hr
    · exact armed_reprogram _
    · exact h.set hid
    · exact h
  | delete tid =>
    obtain ⟨ptqn,-,⟨-,rfl⟩ | ⟨hid,-,rfl⟩ | ⟨hid,-,rfl⟩⟩ := timerDelete_cases hr
    · refine (armed_reprogram _).free ?_
      rw [tqList_reprogram]
      exact not_mem_erase hq tid
    · exact h.set hid
    · exact h.free hid

/-! ### A timer fires -/

theorem Wf.detach {t : Timer α} (h : Wf q none) : Wf (detach q id t) (some id) :=
  (h.erase id).set (not_mem_erase h id) (fun id' hne => by simp [hne.symm]) ⟨fun _ => rfl,fun _ => rfl⟩

/-- The callback is over. -/
theorem Wf.release {t : Timer α} (h : Wf q (some id)) (ht : t.iflag.callbk = false) : Wf (q.set id t) none :=
  h.set (h.held id rfl).2 (fun id' hne => by simp [hne.symm]) (by simp [ht])

theorem timerInsert_set (q : Queue α) (id : ℕ) (t u : Timer α) :
    timerInsert (q.set id u) id t = timerInsert q id t := by
  unfold timerInsert
  rw [set_set]
  rfl

theorem Wf.settle {r : Queue α} (h : Wf q (some id)) (hr : settle q id = some r) : Wf r none := by
  have hid : id ∉ q.tqList := (h.held id rfl).2
  obtain ⟨tinfo,-,rfl | ⟨t,hflag,-,rfl | rfl⟩⟩ := settle_cases hr
  · rw [← free_set q id {tinfo with iflag := noFlags}]
    exact (h.release rfl).free hid (by simp)
  · exact h.release (by rw [hflag]; rfl)
  · have hcallbk : t.iflag.callbk = false := by
      rw [hflag]
      rfl
    rw [← timerInsert_set q id t t]
    exact (h.release hcallbk).timerInsert hid (by simp) hcallbk

theorem same_detach {other : ℕ} (t : Timer α) (hne : id ≠ other) : Same q (detach q other t) id :=
  (same_erase hne).trans (same_set _ hne)

theorem cbkf_detach {t : Timer α} : (detach q id t).cbkf id = some t.cbkf := cbkf_set _

theorem same_settle {other : ℕ} {r : Queue α} (hr : settle q other = some r) (hne : id ≠ other) : Same q r id := by
  obtain ⟨tinfo,-,rfl | ⟨t,-,-,rfl | rfl⟩⟩ := settle_cases hr
  · exact same_free hne
  · exact same_set _ hne
  · exact same_timerInsert _ hne

theorem settle_cbkf {r : Queue α} (hr : settle q id = some r) : r.cbkf id = none ∨ r.cbkf id = q.cbkf id := by
  obtain ⟨tinfo,htinfo,rfl | ⟨t,-,hcbkf,rfl | rfl⟩⟩ := settle_cases hr
  · exact Or.inl (cbkf_free q id)
  · rw [cbkf_of_heap htinfo,cbkf_set,hcbkf]
    exact Or.inr rfl
  · rw [cbkf_of_heap htinfo,← hcbkf]
    exact Or.inr (cbkf_set _)

/-- A timer deleted in its callback. -/
theorem settle_delete {t : Timer α} (ht : q.heap id = some t) (hdel : t.iflag.delete = true) :
    settle q id = some (q.free id) := by
  unfold settle
  rw [ht]
  dsimp only
  rw [if_pos hdel]

/-- A timer started in its callback, and neither stopped nor deleted. -/
theorem settle_rstart {t : Timer α} (ht : q.heap id = some t) (hflag : t.iflag = ⟨true,false,false,true⟩) :
    settle q id = some (timerInsert q id {t with iflag := noFlags}) := by
  unfold settle
  rw [ht]
  dsimp only
  rw [hflag]
  rfl

/-- A timer that fires once and is left alone in its callback stays, off the list. -/
theorem settle_once {t : Timer α} (ht : q.heap id = some t) (hflag : t.iflag = ⟨true,false,false,false⟩)
    (hirt : t.irepeat = 0) : settle q id = some (q.set id {t with iflag := noFlags}) := by
  unfold settle
  rw [ht]
  dsimp only
  rw [hflag,hirt]
  rfl

section Loop

variable {σ X : Type} {run : α → ℕ → X → Queue α × σ → Option (Queue α × σ)} {curr : UInt64} {x : X}
  {xs : List X} {s t : Queue α × σ}

theorem fire_cases (h : fire run x id s = some t) :
    ∃ tinfo u q, s.1.heap id = some tinfo ∧ run tinfo.cbkf id x (detach s.1 id tinfo,s.2) = some u ∧
      settle u.1 id = some q ∧ t = (q,u.2) := by
  unfold fire at h
  split at h
  · exact absurd h (by simp)
  · next tinfo htinfo =>
    obtain ⟨u,hu,h⟩ := Option.bind_eq_some_iff.mp h
    obtain ⟨q,hq,rfl⟩ := Option.map_eq_some_iff.mp h
    exact ⟨tinfo,u,q,htinfo,hu,hq,rfl⟩

/-- What every firing keeps holds when the loop ends, and then no timer is due. -/
theorem eventLoop_keeps {I : Queue α × σ → Prop}
    (hfire : ∀ x id s t, I s → due curr s.1 = some id → fire run x id s = some t → I t)
    (h : eventLoop run curr xs s = some t) (hs : I s) :
    ∃ u, I u ∧ due curr u.1 = none ∧ t = (rearm u.1,u.2) := by
  induction xs generalizing s with
  | nil =>
    unfold eventLoop at h
    split at h
    · next hdue => exact ⟨s,hs,hdue,(Option.some.inj h).symm⟩
    · exact absurd h (by simp)
  | cons x xs ih =>
    unfold eventLoop at h
    split at h
    · exact absurd h (by simp)
    · next id hdue =>
      obtain ⟨u,hu,h⟩ := Option.bind_eq_some_iff.mp h
      exact ih h (hfire x id s u hs hdue hu)

end Loop

theorem armed_rearm (q : Queue α) : Armed (rearm q) := by
  intro id hid
  unfold rearm at hid ⊢
  split
  · next hnil => simp [hnil,Queue.write] at hid
  · next tinfo l hcons =>
    rw [hcons] at hid
    have hid : tinfo = id := by simpa [Queue.write,hcons] using hid
    subst hid
    rfl

theorem Wf.rearm (h : Wf q busy) : Wf (rearm q) busy := by
  unfold Timers.rearm
  split
  · exact h.write _
  · exact h.write _

theorem same_rearm (q : Queue α) (id : ℕ) : Same q (rearm q) id := by
  unfold rearm
  split
  · exact ⟨rfl,Iff.rfl⟩
  · exact ⟨rfl,Iff.rfl⟩

/-- With nothing due at the head nothing is due behind it. -/
theorem due_none {curr : UInt64} (h : Wf q busy) (hdue : due curr q = none) (hid : id ∈ q.tqList) :
    curr < q.nxt id := by
  unfold due at hdue
  split at hdue
  · next hnil =>
    rw [hnil] at hid
    exact absurd hid List.not_mem_nil
  · next tinfo l hl =>
    split at hdue
    · next hlt =>
      have hle : q.key tinfo ≤ q.key id := Stable.head_le (hl ▸ h.sorted) id (hl ▸ hid)
      exact UInt64.lt_iff_toNat_lt.mpr (lt_of_lt_of_le (UInt64.lt_iff_toNat_lt.mp hlt) hle)
    · exact absurd hdue (by simp)

theorem Wf.timerQueueEvent {curr : UInt64} {cbks : List (List (Call α))} {r : Queue α} (h : Wf q none)
    (hr : timerQueueEvent q curr cbks = some r) : Wf r none ∧ Armed r := by
  unfold Timers.timerQueueEvent at hr
  obtain ⟨t,ht,rfl⟩ := Option.map_eq_some_iff.mp hr
  have hkeeps : ∀ cs id (s t : Queue α × Unit), Wf s.1 none → due curr s.1 = some id →
      fire (fun _ _ cs s => (Timers.calls cs s.1).map fun q => (q,())) cs id s = some t → Wf t.1 none := by
    intro cs id s t hs _ hfire
    obtain ⟨tinfo,u,q,-,hu,hq,rfl⟩ := fire_cases hfire
    obtain ⟨v,hv,rfl⟩ := Option.map_eq_some_iff.mp hu
    exact (hs.detach.calls hv).settle hq
  obtain ⟨u,hu,-,rfl⟩ := eventLoop_keeps (I := fun s => Wf s.1 none) hkeeps ht h
  exact ⟨hu.rearm,armed_rearm _⟩

/-! ### Every run -/

theorem wf_init : Wf (init : Queue α) none where
  nodup := List.nodup_nil
  alive := fun _ h => absurd h (List.not_mem_nil)
  sorted := List.Pairwise.nil
  old := fun _ h => absurd h (List.not_mem_nil)
  flag := fun _ _ h => absurd h (by simp [init])
  held := fun _ h => absurd h (by simp)
  fd := rfl

theorem armed_init : Armed (init : Queue α) := fun _ h => absurd h (by simp [init])

theorem step_keeps {e : Event α} {r : Queue α} (hq : Wf q none) (h : Armed q) (hr : step q e = some r) :
    Wf r none ∧ Armed r := by
  cases e with
  | call c => exact ⟨hq.call hr,h.call hq hr⟩
  | queueEvent curr cbks => exact hq.timerQueueEvent hr

theorem Wf.inOrder (h : Wf q none) (ha : Armed q) : InOrder q :=
  ⟨h.nodup,h.sorted,fun id hid => h.fd.trans (ha id hid)⟩

theorem run_inOrder {es : List (Event α)} (h : Trace.Run step Trace.anyStep init es q) : InOrder q := by
  have hwf : Wf q none ∧ Armed q :=
    h.invariant (I := fun _ q => Wf q none ∧ Armed q) ⟨wf_init,armed_init⟩
      fun _ _ _ _ _ hI _ hr => step_keeps hI.1 hI.2 hr
  exact hwf.1.inOrder hwf.2

/-- A callback moves its own timer, stops the timer that was next and starts another one
under the deadline of a third. -/
theorem meddling_inOrder :
    ∃ q : Queue Unit, q.tqList = [3,4,1] ∧ q.fd = 20 ∧ InOrder q := by
  have hexec : ((Trace.exec step (init : Queue Unit)
      [.call (.create (some 1) ()),.call (.create (some 2) ()),.call (.create (some 3) ()),
        .call (.start 1 0 5 0),.call (.start 2 0 6 0),.call (.start 3 0 20 0),
        .queueEvent 7 [[.start 1 7 25 0,.stop 2,.create (some 4) (),.start 4 7 13 0]]]).map
      fun q => decide (q.tqList = [3,4,1] ∧ q.fd = 20)) = some true := by
    decide
  obtain ⟨q,hrun,hq⟩ := Trace.run_of_exec_map step init _ _ hexec
  have hq := of_decide_eq_true hq
  exact ⟨q,hq.1,hq.2,run_inOrder hrun⟩

end Timers
end Autbus
