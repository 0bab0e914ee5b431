import Autbus.Network

/-! How far an exchange has come. A record that waits has got as far as its TN has, and the TNs
know the tables as they were before the request that is still in the queue. -/
namespace Autbus
namespace Underway

open ResTables Nodes Manager Reception Assignment Network
open Placement (Active)

/-! ### The request that is out -/

/-- What the manager's request that is out is for, and whether it has been sent. -/
def out (s : Sys) : Option (Cbk × Bool) :=
  (jobs s.queue s.reqs).head?.map fun x => (x.1,decide (jobs [] s.reqs ≠ []))

theorem out_congr {s t : Sys} (hj : jobs t.queue t.reqs = jobs s.queue s.reqs) (hr : jobs [] t.reqs = jobs [] s.reqs) :
    out t = out s := by rw [out,out,hj,hr]

theorem out_nil {s : Sys} (h : jobs s.queue s.reqs = []) : out s = none := by rw [out,h]; rfl

theorem jobs_eq (queue : List Msg) (reqs : List Request) :
    jobs queue reqs = (posted queue).filterMap (fun x => job x.1) ++ jobs [] reqs := by
  have hreq : queue.filterMap Msg.req? = (posted queue).map Prod.fst := by
    rw [posted,List.map_filterMap]
    congr 1
    funext m
    cases m <;> rfl
  rw [jobs,hreq,List.filterMap_append,List.filterMap_map]
  rfl

theorem quiet_out {s t : Sys} (h : Quiet s t) : out t = out s := by
  refine out_congr h.jobs ?_
  rw [h.reqs]

section Out

variable {s : Sys} {q : Request}

/-- A request of the manager in the queue is the only one that is out. -/
theorem posted_only (h : Turn s) (hw : ∀ x ∈ posted s.queue, x.1.cbkf ≠ .other) {x : Request × Payload}
    (hx : x ∈ posted s.queue) : posted s.queue = [x] ∧ jobs [] s.reqs = [] := by
  have hcount := h.count
  have hlen : ((posted s.queue).filterMap fun x => job x.1).length = (posted s.queue).length := by
    have hmap : ((posted s.queue).filterMap fun x => job x.1) =
        (posted s.queue).filterMap fun x => some (x.1.cbkf,x.1.parg) :=
      List.filterMap_congr fun y hy => job_ne_other (hw y hy)
    rw [hmap,List.filterMap_eq_map',List.length_map]
  rw [jobs_eq,List.length_append,hlen] at hcount
  obtain ⟨a,ha⟩ := List.mem_iff_getElem?.mp hx
  have hpos := List.length_pos_of_mem hx
  refine ⟨?_,List.length_eq_zero_iff.mp (by omega)⟩
  obtain ⟨y,hy⟩ := List.length_eq_one_iff.mp (show (posted s.queue).length = 1 by omega)
  rw [hy] at hx ⊢
  rw [List.mem_singleton.mp hx]

theorem out_posted (h : Turn s) (hw : ∀ x ∈ posted s.queue, x.1.cbkf ≠ .other) {x : Request × Payload}
    (hx : x ∈ posted s.queue) : out s = some (x.1.cbkf,false) := by
  obtain ⟨hp,hr⟩ := posted_only h hw hx
  have hj : jobs s.queue s.reqs = [(x.1.cbkf,x.1.parg)] := by
    rw [jobs_eq,hp,hr,List.filterMap_cons,job_ne_other (hw x hx)]
    rfl
  rw [out,hj,hr]
  rfl

/-- A request of the manager that was sent is the only one that is out. -/
theorem posted_sent (h : Turn s) (hw : ∀ x ∈ posted s.queue, x.1.cbkf ≠ .other) (hq : q ∈ s.reqs)
    (ho : q.cbkf ≠ .other) : posted s.queue = [] := by
  cases hp : posted s.queue with
  | nil => rfl
  | cons x l =>
    have hr := (posted_only h hw (x:=x) (by rw [hp];exact List.mem_cons_self)).2
    have hm : (q.cbkf,q.parg) ∈ jobs [] s.reqs := by
      rw [jobs]
      exact List.mem_filterMap.mpr ⟨q,by simpa using hq,job_ne_other ho⟩
    rw [hr] at hm
    cases hm

theorem out_sent (h : Turn s) (hw : ∀ x ∈ posted s.queue, x.1.cbkf ≠ .other) (hq : q ∈ s.reqs)
    (ho : q.cbkf ≠ .other) : out s = some (q.cbkf,true) := by
  have hp := posted_sent h hw hq ho
  have hj : jobs s.queue s.reqs = jobs [] s.reqs := by
    rw [jobs_eq,hp]
    rfl
  have hm : (q.cbkf,q.parg) ∈ jobs [] s.reqs := by
    rw [jobs]
    exact List.mem_filterMap.mpr ⟨q,by simpa using hq,job_ne_other ho⟩
  have hcount := h.count
  rw [hj] at hcount
  obtain ⟨y,hy⟩ := List.length_eq_one_iff.mp (Nat.le_antisymm hcount (List.length_pos_of_mem hm))
  rw [hy] at hm
  rw [out,hj,hy,← List.mem_singleton.mp hm]
  rfl

end Out

/-! ### What a record has reached -/

/-- Where a record is that waits for the request; `ans` tells that a TN has answered it. -/
def waitsAt (ans : Bool) : Option (Cbk × Bool) → ResStage
  | some (.resId,sent) => if sent && ans then .addRcvRes else .downloadResId
  | some (.addRcv,sent) => if sent then .addTrsRes else .addRcvRes
  | some (.addTrs,_) => .addFinish
  | some (.delRes,_) => .delFinish
  | _ => .fail

def reached (s : Net) (pnd : NodeInfo) : ResStage :=
  if pnd.state = .waitAck then waitsAt (!s.air.isEmpty) (out s.sys) else pnd.state

theorem reached_of_ne {s : Net} {pnd : NodeInfo} (h : pnd.state ≠ .waitAck) : reached s pnd = pnd.state := if_neg h

theorem reached_wait {s : Net} {pnd : NodeInfo} (h : pnd.state = .waitAck) :
    reached s pnd = waitsAt (!s.air.isEmpty) (out s.sys) := if_pos h

theorem reached_congr {s t : Net} {p q : NodeInfo} (ho : out t.sys = out s.sys) (ha : t.air = s.air)
    (hst : q.state = p.state) : reached t q = reached s p := by rw [reached,reached,ho,ha,hst]

/-- The callback of a request leaves the record where it was. -/
theorem waitsAt_done (w : Work) (ans : Bool) (h : w = .resId → ans = true) :
    waitsAt ans (some (w.cbk,true)) = w.done := by
  cases w with
  | resId => rw [h rfl]; rfl
  | rcv | trs | del => rfl

/-! ### What the TNs have been told -/

/-- The table with another state for the resources. -/
def withState (ids : List UInt8) (st : UInt8) (rs : ResStateTbl) : ResStateTbl := fun r =>
  if r ∈ ids then {rs r with state := st} else rs r

/-- The table before the message. -/
def untold : Payload → ResStateTbl → ResStateTbl
  | .trs res, rs => withState (res.res.map TrsResData.resid) 0 rs
  | .del res, rs => withState (res.res.map DelResData.resid) 1 rs
  | _, rs => rs

/-- The table as the TNs know it. -/
def told (s : Sys) : ResStateTbl := match posted s.queue with
  | [] => s.cn.resState
  | x::_ => untold x.2 s.cn.resState

theorem told_nil {s : Sys} (h : posted s.queue = []) : told s = s.cn.resState := by rw [told,h]

theorem told_cons {s : Sys} {x : Request × Payload} (h : posted s.queue = [x]) :
    told s = untold x.2 s.cn.resState := by rw [told,h]

theorem told_congr {s t : Sys} (hp : posted t.queue = posted s.queue) (hr : t.cn.resState = s.cn.resState) :
    told t = told s := by rw [told,told,hp,hr]

/-- What is due to a node goes by the active resources and where they lie. -/
theorem assigned_congr {cfg : ResmgrConfig} {rs rs' : ResStateTbl} {mac : Mac}
    (h : ∀ r, rs' r = rs r ∨ ¬Active rs' r ∧ ¬Active rs r ∨
      Active rs' r ∧ Active rs r ∧ place cfg rs' r = place cfg rs r) :
    assigned cfg rs' mac = assigned cfg rs mac := by
  have hact : ∀ r, Active rs' r ↔ Active rs r := by
    intro r
    rcases h r with he | ⟨hn,hn'⟩ | ⟨ha,ha',-⟩
    · rw [Active,Active,he]
    · exact iff_of_false hn hn'
    · exact iff_of_true ha ha'
  have hplace : ∀ r, Active rs r → place cfg rs' r = place cfg rs r := by
    intro r ha
    rcases h r with he | ⟨-,hn⟩ | ⟨-,-,hp⟩
    · exact place_congr he
    · exact absurd ha hn
    · exact hp
  ext p
  rw [mem_assigned,mem_assigned]
  constructor
  · rintro ⟨r,ht,ha,hw,hp⟩
    have ha := (hact r).mp ha
    exact ⟨r,ht,ha,hw,(hplace r ha).symm.trans hp⟩
  · rintro ⟨r,ht,ha,hw,hp⟩
    exact ⟨r,ht,(hact r).mpr ha,hw,(hplace r ha).trans hp⟩

end Underway
end Autbus
