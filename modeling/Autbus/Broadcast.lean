import Autbus.Acks
import Autbus.Turns

/-! The 0x13 broadcast of a joining node. What was asked and what came back is kept beside
the state, for the latest broadcast; the acknowledgement bits are what the CN itself knows
of it. -/
namespace Autbus
namespace Broadcast

open Cells Nodes Acks Trace Manager
open SrvRpc (Send)

/-! ### What was asked and what came back -/

/-- The latest 0x13 broadcast: the record it is for and its node id, the other TNs in
`CFG_NODE_ADD_FINISH` that were not lost, and the ids that have answered it or were
reported lost since. -/
structure Cast where
  record : ℕ
  self : UInt8
  asked : List UInt8
  acked : List UInt8
  lost : List UInt8

structure Watched where
  sys : Sys
  cast : Cast

/-- A TN that takes part; the id 0 is the CN's. -/
def takesPart (pnd : NodeInfo) : Bool := pnd.nindx ≠ 0 ∧ pnd.state = .addFinish ∧ pnd.offline = false

/-- The record the next round broadcasts for. -/
def casting (s : Sys) : Option NodeInfo :=
  (s.cn.ncn[s.cur]?).filter fun pnd =>
    s.stage = .online ∧ pnd.state = .addTrsRes ∧ Work.trs.asks (setState s.cur .waitAck s.cn) pnd

/-- Watch an event from the state it meets. -/
def observe (s : Sys) (c : Cast) : Event → Cast
  | .manager _ =>
    match casting s with
    | some pnd => ⟨s.cur,pnd.nindx,(s.cn.ncn.filter takesPart).map NodeInfo.nindx,[],[]⟩
    | none => c
  | .response srvid sessn ilen node =>
    match (rpcReqSearch srvid sessn s.reqs).bind fun i => s.reqs[i]? with
    | some q => if q.cbkf = .addTrs ∧ ilen ≠ 0 then {c with acked := node::c.acked} else c
    | none => c
  | .lsNode nid => {c with lost := nid::c.lost}
  | _ => c

def watch (w : Watched) (e : Event) : Option Watched :=
  (step w.sys e).map fun t => ⟨t,observe w.sys w.cast e⟩

/-- The broadcast is for the record, and acknowledged by its node and by all others that
were not lost. -/
structure Acked (c : Cast) (k : ℕ) : Prop where
  record : c.record = k
  self : c.self ∈ c.acked
  others : ∀ b ∈ c.asked, b ∈ c.lost ∨ b ∈ c.acked

/-- The event calls the callback of the request. -/
def Calls (s : Sys) (q : Request) : Event → Prop
  | .response srvid sessn _ _ => ∃ i, answered srvid sessn s i q
  | .timeout i net => s.reqs[i]? = some q ∧ expires q net = true
  | _ => False

/-- The claim's property: when `res_add_trs_rpc_cbk` moves a record to `ADD_FINISH`, its
broadcast is acknowledged. -/
def FinishAcked (_ : List Event) (w : Watched) (e : Event) : Prop :=
  ∀ t q, watch w e = some t → Calls w.sys q e → q.cbkf = .addTrs →
    stateAt w.sys.cn q.parg ≠ some .addFinish → stateAt t.sys.cn q.parg = some .addFinish →
    Acked t.cast q.parg

/-- The answer or the last timeout that finds no bit left comes no earlier than the answer
of the joining node itself. -/
def SelfAnswers (_ : List Event) (w : Watched) : Event → Prop
  | .response srvid sessn ilen node => ∀ i q, answered srvid sessn w.sys i q → q.cbkf = .addTrs →
      isAckZero (if ilen ≠ 0 then clearBit w.sys.cn.ackFlag node else w.sys.cn.ackFlag) = 0 →
      (ilen ≠ 0 ∧ node = w.cast.self) ∨ w.cast.self ∈ w.cast.acked
  | .timeout i net => ∀ q, w.sys.reqs[i]? = some q → q.cbkf = .addTrs → expires q net = true →
      isAckZero w.sys.cn.ackFlag = 0 → w.cast.self ∈ w.cast.acked
  | _ => True

/-! ### The bits know what is missing -/

/-- While the request is out, the broadcast watched is its own, and a node that was asked
has its bit set until it answers or is lost. -/
def Tracked (w : Watched) : Prop :=
  ∀ k, (Cbk.addTrs,k) ∈ jobs w.sys.queue w.sys.reqs → w.cast.record = k ∧
    ∀ b ∈ w.cast.asked, b ∈ w.cast.lost ∨ b ∈ w.cast.acked ∨ slot b ∈ cells w.sys.cn.ackFlag

/-- Nothing happens to the broadcast. -/
theorem Tracked.keep {w : Watched} {t : Sys} (h : Tracked w)
    (hsub : (jobs t.queue t.reqs).Subperm (jobs w.sys.queue w.sys.reqs))
    (hf : t.cn.ackFlag = w.sys.cn.ackFlag) : Tracked ⟨t,w.cast⟩ := by
  intro k hk
  rw [hf]
  exact h k (hsub.subset hk)

theorem Tracked.of_nil {w : Watched} (h : jobs w.sys.queue w.sys.reqs = []) : Tracked w := by
  intro k hk
  rw [h] at hk
  cases hk

theorem resNewCn_ackFlag (ok : Bool) (ptr : ResTables.UnsetPtr) (cn : Cn) :
    (resNewCn ok ptr cn).ackFlag = cn.ackFlag := by
  cases ok with
  | false => rfl
  | true =>
    simp only [resNewCn,Bool.not_true,Bool.false_eq_true,if_false]
    split <;> rfl

theorem resNewTn_ackFlag (ok : Bool) (ptr : ResTables.UnsetPtr) (nid : UInt8) (mac : ResTables.Mac) (cn : Cn) :
    (resNewTn ok ptr nid mac cn).ackFlag = cn.ackFlag := by
  have hhold : (if cn.preRes.state = 1 then holdSlot ptr nid mac cn else cn).ackFlag = cn.ackFlag := by
    split
    · rw [holdSlot]
      split <;> rfl
    · rfl
  simp only [resNewTn]
  split
  · exact hhold
  · split <;> exact hhold

/-- A loss clears the bit of the lost node at most. -/
theorem resDeleteTn_ackFlag (nid : UInt8) (cn : Cn) {b : UInt8} (hb : b ≠ nid) (h : slot b ∈ cells cn.ackFlag) :
    slot b ∈ cells (resDeleteTn nid cn).ackFlag := by
  rw [resDeleteTn]
  split
  · exact h
  · exact (mem_clearBit _ _ _).mpr ⟨h,fun he => hb (slot_inj he)⟩

theorem lsNode_tracked {w : Watched} (h : Tracked w) (nid : UInt8) :
    Tracked ⟨{w.sys with cn := resDeleteTn nid w.sys.cn},{w.cast with lost := nid::w.cast.lost}⟩ := by
  intro k hk
  obtain ⟨hrec,hasked⟩ := h k hk
  refine ⟨hrec,fun b hb => ?_⟩
  by_cases hn : b = nid
  · exact Or.inl (hn ▸ List.mem_cons_self)
  · rcases hasked b hb with hl | ha | hs
    · exact Or.inl (List.mem_cons_of_mem _ hl)
    · exact Or.inr (Or.inl ha)
    · exact Or.inr (Or.inr (resDeleteTn_ackFlag nid w.sys.cn hn hs))

/-- A round that broadcasts sets the bits of all that take part. -/
theorem casting_asked {s : Sys} {pnd : NodeInfo} (hget : s.cn.ncn[s.cur]? = some pnd)
    (hst : pnd.state = .addTrsRes) {cn : Cn} (hcn : cn.ncn = (setState s.cur .waitAck s.cn).ncn)
    (hf : cn.ackFlag = broadcastFlags cn.ncn) {b : UInt8}
    (hb : b ∈ (s.cn.ncn.filter takesPart).map NodeInfo.nindx) : slot b ∈ cells cn.ackFlag := by
  obtain ⟨p,hp,rfl⟩ := List.mem_map.mp hb
  obtain ⟨hmem,hpart⟩ := List.mem_filter.mp hp
  simp only [takesPart,decide_eq_true_eq] at hpart
  obtain ⟨j,hj⟩ := List.mem_iff_getElem?.mp hmem
  have hne : s.cur ≠ j := by
    rintro rfl
    obtain rfl := Option.some.inj (hget.symm.trans hj)
    exact nomatch hst.symm.trans hpart.2.1
  have hin : p ∈ cn.ncn := by
    refine List.mem_iff_getElem?.mpr ⟨j,?_⟩
    rw [hcn,setState_get,hj]
    simp [hne]
  rw [hf]
  refine mem_broadcastFlags hin ?_
  have hpos : 0 < p.nindx := by
    have h0 : p.nindx.toNat ≠ 0 := fun h0 => hpart.1 (UInt8.toNat_inj.mp h0)
    exact UInt8.lt_iff_toNat_lt.mpr (Nat.pos_of_ne_zero h0)
  simp [awaited,hpos,hpart.2.1,hpart.2.2]

theorem manager_tracked {env : Env} {w : Watched} {t : Sys} (hT : Turn w.sys) (h : Tracked w)
    (ht : Round env w.sys t) : Tracked ⟨t,observe w.sys w.cast (.manager env)⟩ := by
  have hnil : ∀ {ms : List Ctrl}, w.sys.stage = .boot ∨ w.sys.stage = .idle →
      jobs (w.sys.queue ++ written env ms) w.sys.reqs = [] := by
    intro ms hs
    simpa using hT.idle_of_stage hs
  cases ht with
  | skip hno =>
    have hcast : casting w.sys = none := by
      rw [casting]
      cases hget : w.sys.cn.ncn[w.sys.cur]? with
      | none => rfl
      | some pnd =>
        rw [Option.filter_some,if_neg]
        rw [decide_eq_true_eq]
        exact fun hc => hno .trs pnd hc.1 hget hc.2.1
    simp only [observe,hcast]
    exact h
  | boot k cn ms pnd hs => exact .of_nil (hnil (Or.inl hs))
  | join k pnd hs => exact .of_nil (hT.idle_of_stage (Or.inr hs))
  | leave k pnd hs => exact .of_nil (hT.idle_of_stage (Or.inr hs))
  | push hs => exact .of_nil (hnil (Or.inr hs))
  | finish pnd hget hp =>
    refine .of_nil (hT.idle_of_state hget ?_)
    rcases hp with ⟨-,hp⟩ | ⟨-,hp⟩ <;> rw [hp] <;> decide
  | fail pnd hget _ hp => exact .of_nil (hT.idle_of_state hget (by rw [hp];decide))
  | work v pnd u hst hget hbef haw =>
    have hidle := hT.idle_of_state hget (by rw [hbef];cases v <;> decide)
    cases haw with
    | ends cn ms _ _ _ => exact .of_nil (by simpa using hidle)
    | asks cn ms q p hask hcn _ hcbk hparg hflag =>
      intro k hk
      rw [jobs_ask hidle hcbk hparg env ms p] at hk
      cases hr : env.rWrite with
      | false => simp [hr] at hk
      | true =>
        have he : (Cbk.addTrs,k) = (v.cbk,w.sys.cur) := by simpa [hr] using hk
        obtain rfl : v = .trs := Work.cbk_inj (congrArg Prod.fst he).symm
        obtain rfl : k = w.sys.cur := congrArg Prod.snd he
        have hcast : casting w.sys = some pnd := by
          rw [casting,hget,Option.filter_some,if_pos]
          exact decide_eq_true ⟨hst,hbef,hask⟩
        simp only [observe,hcast]
        refine ⟨trivial,fun b hb => Or.inr (Or.inr ?_)⟩
        exact casting_asked hget hbef hcn (hflag rfl) hb

theorem rpcOther_tracked {w : Watched} {t : Sys} {create : Bool} {dnode : UInt8} {srvid : BitVec 32} {retry : ℤ}
    {env : SendEnv} (h : Tracked w) (ht : rpcOther create dnode srvid retry env w.sys = some t) :
    Tracked ⟨t,w.cast⟩ := by
  obtain ⟨reqs,rfl,hreqs⟩ := rpcOther_spec ht
  refine h.keep ?_ rfl
  rcases hreqs with rfl | ⟨q,hq,rfl⟩
  · exact List.Subperm.refl _
  · exact (jobs_cons_other hq w.sys.queue w.sys.reqs).subperm

/-- The request of a job that is out. -/
theorem Turn.job_eq {s : Sys} (h : Turn s) {i : ℕ} {q : Request} (hq : s.reqs[i]? = some q)
    (hne : q.cbkf ≠ .other) {x : Cbk × ℕ} (hx : x ∈ jobs s.queue s.reqs) : x = (q.cbkf,q.parg) := by
  have hp := jobs_erase hq s.queue
  rw [job_ne_other hne,(h.only hq hne).1] at hp
  simpa using hp.mem_iff.mpr hx

/-- What an answer to the request adds to the acknowledgements. -/
def ackedBy (q : Request) (ilen : ℕ) (node : UInt8) (c : Cast) : Cast :=
  if q.cbkf = .addTrs ∧ ilen ≠ 0 then {c with acked := node::c.acked} else c

theorem observe_response {srvid sessn : BitVec 32} {ilen : ℕ} {node : UInt8} {s : Sys} {i : ℕ} {q : Request}
    (h : answered srvid sessn s i q) (c : Cast) :
    observe s c (.response srvid sessn ilen node) = ackedBy q ilen node c := by
  simp only [observe,h.1,h.2,Option.bind_some]
  rfl

theorem observe_unanswered {srvid sessn : BitVec 32} {ilen : ℕ} {node : UInt8} {s : Sys}
    (h : ∀ i q, ¬answered srvid sessn s i q) (c : Cast) :
    observe s c (.response srvid sessn ilen node) = c := by
  have hnone : ((rpcReqSearch srvid sessn s.reqs).bind fun i => s.reqs[i]?) = none := by
    cases hb : (rpcReqSearch srvid sessn s.reqs).bind fun i => s.reqs[i]? with
    | none => rfl
    | some q =>
      obtain ⟨i,hi,hq⟩ := Option.bind_eq_some_iff.mp hb
      exact absurd ⟨hi,hq⟩ (h i q)
  simp only [observe,hnone]

/-- The bits after an answer: those asked are answered, lost, or have a bit left. -/
theorem answer_asked {c : Cast} {f : AckFlag} {q : Request} {ilen : ℕ} {node b : UInt8} (hq : q.cbkf = .addTrs)
    (h : b ∈ c.lost ∨ b ∈ c.acked ∨ slot b ∈ cells f) :
    b ∈ (ackedBy q ilen node c).lost ∨ b ∈ (ackedBy q ilen node c).acked ∨
      slot b ∈ cells (flagsAfter q ilen (some node) f) := by
  by_cases hl : ilen = 0
  · simpa [ackedBy,flagsAfter,hq,hl] using h
  · simp only [ackedBy,flagsAfter,hq,hl,ne_eq,not_false_eq_true,and_self,if_true,mem_clearBit]
    by_cases hb : b = node
    · exact Or.inr (Or.inl (hb ▸ List.mem_cons_self))
    · rcases h with h | h | h
      · exact Or.inl h
      · exact Or.inr (Or.inl (List.mem_cons_of_mem _ h))
      · exact Or.inr (Or.inr ⟨h,fun he => hb (slot_inj he)⟩)

theorem called_tracked {w : Watched} {i : ℕ} {q : Request} {ilen : ℕ} {node : UInt8} {r : Cn × ℕ}
    (hT : Turn w.sys) (h : Tracked w) (hq : w.sys.reqs[i]? = some q) (hr : Called q ilen (some node) w.sys.cn r)
    (hf : q.cbkf = .addTrs → ilen = 0 → isAckZero w.sys.cn.ackFlag = 0) :
    Tracked ⟨{w.sys with cn := r.1,reqs := close i r.2 w.sys.reqs},ackedBy q ilen node w.cast⟩ := by
  by_cases ho : q.cbkf = .other
  · have hcast : ackedBy q ilen node w.cast = w.cast := by simp [ackedBy,ho]
    have hcn : r = (w.sys.cn,0) := by
      cases hr with
      | done v hv _ => exact absurd (hv.symm.trans ho) v.cbk_ne_other
      | fail v hv _ _ => exact absurd (hv.symm.trans ho) v.cbk_ne_other
      | wait v hv _ _ _ => exact absurd (hv.symm.trans ho) v.cbk_ne_other
      | other _ => rfl
    rw [hcast]
    have hp := jobs_erase hq w.sys.queue
    rw [job_other ho] at hp
    subst hcn
    exact h.keep hp.subperm rfl
  · have hnil := (hT.only hq ho).1
    cases hr with
    | done v hv hz => exact .of_nil hnil
    | fail v hv hz hi =>
      rcases hi with hi | ⟨hcb,hl⟩
      · cases hi
      · have htrs : v = .trs := Work.cbk_inj (hv.symm.trans hcb)
        exact absurd (hf hcb hl) (hz (Or.inl htrs))
    | wait v hv hc hi hz =>
      intro k hk
      have hq' := Turn.job_eq hT hq ho hk
      have hcb : q.cbkf = .addTrs := (congrArg Prod.fst hq').symm
      obtain ⟨hrec,hasked⟩ := h k hk
      refine ⟨?_,fun b hb => answer_asked hcb (hasked b ?_)⟩
      · rw [← hrec]
        simp only [ackedBy]
        split <;> rfl
      · simp only [ackedBy] at hb
        split at hb <;> exact hb
    | other hother => exact absurd hother ho

theorem step_tracked {es : List Event} {w t : Watched} {e : Event} (hT : Turn w.sys) (h : Tracked w)
    (hg : Filled es w.sys e) (ht : watch w e = some t) : Tracked t := by
  obtain ⟨u,hu,rfl⟩ := Option.map_eq_some_iff.mp ht
  cases e with
  | rptOnline ok ptr =>
    obtain rfl := Option.some.inj hu
    exact h.keep (List.Subperm.refl _) (resNewCn_ackFlag ok ptr w.sys.cn)
  | nwNode nid mac ok ptr create env =>
    have hn : Tracked ⟨{w.sys with cn := resNewTn ok ptr nid mac w.sys.cn},w.cast⟩ :=
      h.keep (List.Subperm.refl _) (resNewTn_ackFlag ok ptr nid mac w.sys.cn)
    exact rpcOther_tracked (w:=⟨{w.sys with cn := resNewTn ok ptr nid mac w.sys.cn},w.cast⟩) hn hu
  | lsNode nid =>
    obtain rfl := Option.some.inj hu
    exact lsNode_tracked h nid
  | rpc create dnode srvid retry env => exact rpcOther_tracked h hu
  | config cfg =>
    obtain rfl := Option.some.inj hu
    exact h.keep (List.Subperm.refl _) rfl
  | manager env => exact manager_tracked hT h (managerRound_round hu)
  | resmsg env =>
    have hsub := resmsg_jobs hu
    obtain ⟨queue,reqs,rfl⟩ := resmsgProc_spec hu
    exact h.keep hsub rfl
  | response srvid sessn ilen node =>
    obtain rfl := Option.some.inj hu
    rcases respond_cases srvid sessn ilen node w.sys with ⟨hno,he⟩ | ⟨i,q,hans,he⟩
    · rw [he,observe_unanswered hno]
      exact h
    · rw [he,observe_response hans]
      exact called_tracked hT h hans.2 (callCbk_called q ilen (some node) w.sys.cn) (hg i q hans)
  | timeout i net =>
    obtain ⟨q,hq,⟨-,r,rfl⟩ | ⟨-,rfl⟩⟩ := requestTout_cases hu
    · by_cases ho : q.cbkf = .other
      · have hp := jobs_erase hq w.sys.queue
        rw [job_other ho] at hp
        exact h.keep hp.subperm (by simp only [callCbk,ho])
      · exact .of_nil (hT.only hq ho).1
    · have hset : jobs w.sys.queue (w.sys.reqs.set i {q with retry := q.retry-1}) = jobs w.sys.queue w.sys.reqs :=
        @jobs_set w.sys.reqs i q {q with retry := q.retry-1} hq rfl w.sys.queue
      exact h.keep (List.Perm.of_eq hset).subperm rfl

/-! ### The callback that finishes -/

/-- The bits that the callback looks at. -/
theorem flags_response {q : Request} (hq : q.cbkf = .addTrs) (ilen : ℕ) (node : UInt8) (f : AckFlag) :
    flagsAfter q ilen (some node) f = if ilen ≠ 0 then clearBit f node else f := by
  simp only [flagsAfter,hq]

theorem flags_timeout {q : Request} (hq : q.cbkf = .addTrs) (f : AckFlag) : flagsAfter q 0 none f = f := by
  simp only [flagsAfter,hq]

theorem ackedBy_self {q : Request} (hq : q.cbkf = .addTrs) (ilen : ℕ) (node : UInt8) (c : Cast) :
    (ackedBy q ilen node c).self ∈ (ackedBy q ilen node c).acked ↔
      (ilen ≠ 0 ∧ node = c.self) ∨ c.self ∈ c.acked := by
  by_cases hl : ilen = 0
  · simp [ackedBy,hl]
  · simp only [ackedBy,hq,hl,ne_eq,not_false_eq_true,and_self,if_true,List.mem_cons,true_and]
    rw [eq_comm]

/-- A callback of the 0x13 request moves its record to `ADD_FINISH` when no bit is left, and
only then. -/
theorem called_finish {s : Sys} {i : ℕ} {q q' : Request} {ilen : ℕ} {ibuf : Option UInt8} {r : Cn × ℕ}
    (hT : Turn s) (hq : s.reqs[i]? = some q) (hcb : q.cbkf = .addTrs) (hcb' : q'.cbkf = q.cbkf)
    (hpa : q'.parg = q.parg) (hr : Called q' ilen ibuf s.cn r) :
    stateAt s.cn q.parg = some .waitAck ∧
      (stateAt r.1 q.parg = some .addFinish ↔ isAckZero (flagsAfter q' ilen ibuf s.cn.ackFlag) = 0) := by
  obtain ⟨-,v,-,hparg,-,hwait⟩ := hT.only hq (by rw [hcb];decide)
  rw [← hparg] at hwait
  refine ⟨hwait,?_⟩
  cases hr with
  | done v hv hz =>
    obtain rfl : v = .trs := Work.cbk_inj (hv.symm.trans (hcb'.trans hcb))
    refine iff_of_true ?_ (hz (Or.inl rfl))
    have hwait' : stateAt {s.cn with ackFlag := flagsAfter q' ilen ibuf s.cn.ackFlag} q.parg = some .waitAck :=
      hwait
    rw [hpa,stateAt_setState_self,hwait']
    rfl
  | fail v hv hz hi =>
    obtain rfl : v = .trs := Work.cbk_inj (hv.symm.trans (hcb'.trans hcb))
    have hsame : flagsAfter q' ilen ibuf s.cn.ackFlag = s.cn.ackFlag := by
      rcases hi with rfl | ⟨-,rfl⟩
      · simp only [flagsAfter,hcb',hcb]
      · cases ibuf <;> simp [flagsAfter,hcb',hcb]
    rw [hsame,hpa,stateAt_setState_self,hwait]
    exact iff_of_false (by simp) (hz (Or.inl rfl))
  | wait v hv hc hi hz =>
    refine iff_of_false ?_ hz
    intro hfin
    cases hwait.symm.trans hfin
  | other ho => cases (hcb'.trans hcb).symm.trans ho

/-- With no bit left everyone asked has answered or is lost. -/
theorem acked_of_empty {c : Cast} {f : AckFlag} {k : ℕ} (hrec : c.record = k) (hself : c.self ∈ c.acked)
    (hz : isAckZero f = 0) (h : ∀ b ∈ c.asked, b ∈ c.lost ∨ b ∈ c.acked ∨ slot b ∈ cells f) : Acked c k := by
  refine ⟨hrec,hself,fun b hb => ?_⟩
  rcases h b hb with hl | ha | hs
  · exact Or.inl hl
  · exact Or.inr ha
  · exact absurd hs (isAckZero_empty hz _)

theorem answered_unique {srvid sessn : BitVec 32} {s : Sys} {i j : ℕ} {q q' : Request}
    (h : answered srvid sessn s i q) (h' : answered srvid sessn s j q') : q = q' := by
  obtain rfl := Option.some.inj (h.1.symm.trans h'.1)
  exact Option.some.inj (h.2.symm.trans h'.2)

/-- The job of a request in `req_list`. -/
theorem job_mem {s : Sys} {i : ℕ} {q : Request} (hq : s.reqs[i]? = some q) (hcb : q.cbkf = .addTrs) :
    (Cbk.addTrs,q.parg) ∈ jobs s.queue s.reqs := by
  have hp := jobs_erase hq s.queue
  rw [job_ne_other (by rw [hcb];decide),hcb] at hp
  exact hp.mem_iff.mp (by simp)

theorem response_iff {es : List Event} {w t : Watched} {srvid sessn : BitVec 32} {ilen : ℕ} {node : UInt8}
    (hT : Turn w.sys) (h : Tracked w) (ht : watch w (.response srvid sessn ilen node) = some t) :
    FinishAcked es w (.response srvid sessn ilen node) ↔ SelfAnswers es w (.response srvid sessn ilen node) := by
  have hone : ∀ i q, answered srvid sessn w.sys i q → q.cbkf = .addTrs →
      stateAt w.sys.cn q.parg = some .waitAck ∧ t.cast = ackedBy q ilen node w.cast ∧
        (stateAt t.sys.cn q.parg = some .addFinish ↔
          isAckZero (flagsAfter q ilen (some node) w.sys.cn.ackFlag) = 0) := by
    intro i q hans hcb
    obtain ⟨hwait,hfin⟩ := called_finish hT hans.2 hcb rfl rfl (callCbk_called q ilen (some node) w.sys.cn)
    obtain rfl : (⟨respond srvid sessn ilen node w.sys,_⟩ : Watched) = t := Option.some.inj ht
    refine ⟨hwait,observe_response hans w.cast,?_⟩
    rcases respond_cases srvid sessn ilen node w.sys with ⟨hno,-⟩ | ⟨j,q',hans',he⟩
    · exact absurd hans (hno i q)
    · obtain rfl := answered_unique hans hans'
      rw [he]
      exact hfin
  constructor
  · intro hfin i q hans hcb hz
    obtain ⟨hwait,hcast,hiff⟩ := hone i q hans hcb
    rw [← flags_response hcb] at hz
    have hacked := hfin t q ht ⟨i,hans⟩ hcb (by rw [hwait];decide) (hiff.mpr hz)
    have hself := hacked.self
    rw [hcast] at hself
    exact (ackedBy_self hcb ilen node w.cast).mp hself
  · intro hself u q hu ⟨i,hans⟩ hcb _ hfin
    obtain rfl := Option.some.inj (ht.symm.trans hu)
    obtain ⟨-,hcast,hiff⟩ := hone i q hans hcb
    have hz := hiff.mp hfin
    obtain ⟨hrec,hasked⟩ := h _ (job_mem hans.2 hcb)
    rw [hcast]
    refine acked_of_empty ?_ ((ackedBy_self hcb ilen node w.cast).mpr ?_) hz fun b hb => ?_
    · rw [← hrec]
      simp only [ackedBy]
      split <;> rfl
    · exact hself i q hans hcb (flags_response hcb ilen node _ ▸ hz)
    · refine answer_asked hcb (hasked b ?_)
      simp only [ackedBy] at hb
      split at hb <;> exact hb

theorem timeout_iff {es : List Event} {w t : Watched} {i : ℕ} {net : Send}
    (hT : Turn w.sys) (h : Tracked w) (ht : watch w (.timeout i net) = some t) :
    FinishAcked es w (.timeout i net) ↔ SelfAnswers es w (.timeout i net) := by
  have hone : ∀ q, w.sys.reqs[i]? = some q → q.cbkf = .addTrs → expires q net = true →
      stateAt w.sys.cn q.parg = some .waitAck ∧ t.cast = w.cast ∧
        (stateAt t.sys.cn q.parg = some .addFinish ↔ isAckZero w.sys.cn.ackFlag = 0) := by
    intro q hq hcb hx
    obtain ⟨u,hu,rfl⟩ := Option.map_eq_some_iff.mp ht
    obtain ⟨q',hq',⟨-,r,rfl⟩ | ⟨hno,-⟩⟩ := requestTout_cases hu
    · obtain rfl := Option.some.inj (hq.symm.trans hq')
      obtain ⟨hwait,hfin⟩ := @called_finish _ i q {q with retry := r} _ _ _ hT hq hcb rfl rfl
        (callCbk_called _ 0 none w.sys.cn)
      rw [@flags_timeout {q with retry := r} hcb] at hfin
      exact ⟨hwait,rfl,hfin⟩
    · obtain rfl := Option.some.inj (hq.symm.trans hq')
      exact nomatch hx.symm.trans hno
  constructor
  · intro hfin q hq hcb hx hz
    obtain ⟨hwait,hcast,hiff⟩ := hone q hq hcb hx
    have hacked := hfin t q ht ⟨hq,hx⟩ hcb (by rw [hwait];decide) (hiff.mpr hz)
    exact hcast ▸ hacked.self
  · intro hself u q hu ⟨hq,hx⟩ hcb _ hfin
    obtain rfl := Option.some.inj (ht.symm.trans hu)
    obtain ⟨-,hcast,hiff⟩ := hone q hq hcb hx
    have hz := hiff.mp hfin
    obtain ⟨hrec,hasked⟩ := h _ (job_mem hq hcb)
    rw [hcast]
    exact acked_of_empty hrec (hself q hq hcb hx hz) hz hasked

theorem finish_iff {es : List Event} {w t : Watched} {e : Event} (hT : Turn w.sys) (h : Tracked w)
    (ht : watch w e = some t) : FinishAcked es w e ↔ SelfAnswers es w e := by
  cases e with
  | response srvid sessn ilen node => exact response_iff hT h ht
  | timeout i net => exact timeout_iff hT h ht
  | _ => exact iff_of_true (fun _ _ _ hc => absurd hc id) trivial

/-! ### Runs -/

theorem run_watched {w₀ w : Watched} {es : List Event} (h0 : Booted w₀.sys)
    (h : Run watch (fun es w e => Filled es w.sys e) w₀ es w) : Turn w.sys ∧ Tracked w := by
  refine h.invariant (I:=fun _ w => Turn w.sys ∧ Tracked w) ⟨booted_turn h0,.of_nil ?_⟩ ?_
  · simp [jobs,h0.queue,h0.reqs]
  · rintro es w e t - ⟨hT,hw⟩ hg ht
    obtain ⟨u,hu,rfl⟩ := Option.map_eq_some_iff.mp ht
    exact ⟨step_turn hT hg hu,step_tracked hT hw hg ht⟩

theorem run_acked_iff {w₀ w : Watched} {es : List Event} (h0 : Booted w₀.sys)
    (h : Run watch (fun es w e => Filled es w.sys e) w₀ es w) :
    Run watch FinishAcked w₀ es w ↔ Run watch SelfAnswers w₀ es w :=
  h.forall_iff fun _ _ _ _ hr _ _ ht => finish_iff (run_watched h0 hr).1 (run_watched h0 hr).2 ht

/-! ### The first TN joins -/

def nothingCast : Cast := ⟨0,0,[],[],[]⟩

/-- The state at the start: the only TN transmits on a resource that is placed. -/
def alone : Watched := ⟨start (Placement.mixedCn 1 3),nothingCast⟩

theorem alone_booted : Booted alone.sys := ⟨rfl,rfl,rfl,rfl⟩

/-- Its join up to the 0x13 request, the newest event first. -/
def asking : List Event :=
  [.resmsg sendOk,round,round,.response 0x12 1 40 5,.resmsg sendOk,.resmsg sendOk,round,round,
    arrives 5 Placement.tnMac,round,.rptOnline true .table]

/-- The node itself answers, and nothing times out. -/
def answersItself (w : Watched) : Event → Bool
  | .response srvid sessn ilen node =>
    ilen ≠ 0 && ((rpcReqSearch srvid sessn w.sys.reqs).bind fun i => w.sys.reqs[i]?).all fun q =>
      q.cbkf ≠ .addTrs || node = w.cast.self
  | .timeout _ _ => false
  | _ => true

theorem answersItself_guards (es : List Event) (w : Watched) (e : Event) (h : answersItself w e = true) :
    Filled es w.sys e ∧ SelfAnswers es w e := by
  cases e with
  | response srvid sessn ilen node =>
    simp only [answersItself,Bool.and_eq_true,decide_eq_true_eq] at h
    refine ⟨fun _ _ _ _ hl => absurd hl h.1,fun i q hans hcb _ => Or.inl ⟨h.1,?_⟩⟩
    have hq := h.2
    simp only [hans.1,hans.2,Option.bind_some,Option.all_some,hcb] at hq
    simpa using hq
  | timeout i net => cases h
  | _ => exact ⟨trivial,trivial⟩

/-- The TN answers. -/
theorem joiner_acked :
    ∃ w, Run watch FinishAcked alone (.response 0x13 2 1 5::asking) w ∧
      stateAt w.sys.cn 1 = some .addFinish ∧ w.cast.self = 5 := by
  obtain ⟨w,hrun,hp⟩ := run_of_exec_map (checked answersItself watch) alone
    (.response 0x13 2 1 5::asking).reverse
    (fun w => decide (stateAt w.sys.cn 1 = some .addFinish ∧ w.cast.self = 5)) (by decide)
  rw [List.reverse_reverse] at hrun
  have hf := hrun.of_checked (H:=fun es w e => Filled es w.sys e) fun es w e h => (answersItself_guards es w e h).1
  have hs := hrun.of_checked (H:=SelfAnswers) fun es w e h => (answersItself_guards es w e h).2
  exact ⟨w,(run_acked_iff alone_booted hf).mpr hs,of_decide_eq_true hp⟩

/-- No answer is empty. -/
def noneEmpty (_ : Watched) : Event → Bool
  | .response _ _ ilen _ => ilen ≠ 0
  | _ => true

theorem noneEmpty_filled (es : List Event) (w : Watched) (e : Event) (h : noneEmpty w e = true) :
    Filled es w.sys e := by
  cases e with
  | response srvid sessn ilen node => exact fun _ _ _ _ hl => absurd hl (of_decide_eq_true h)
  | _ => trivial

/-- The next timeout of the first request finishes its record, and nobody has answered. -/
def finishesUnanswered (w : Watched) : Bool :=
  (w.sys.reqs[0]?).any fun q => q.cbkf = .addTrs && expires q .sent &&
    stateAt w.sys.cn q.parg = some .waitAck && (watch w (.timeout 0 .sent)).any fun t =>
      stateAt t.sys.cn q.parg = some .addFinish && t.cast.acked = []

/-- The TN does not answer: the last timeout finds no bit set. -/
theorem silent_finishes :
    ∃ w, Booted alone.sys ∧ Run watch (fun es w e => Filled es w.sys e) alone
        (.timeout 0 .sent::.timeout 0 .sent::.timeout 0 .sent::.timeout 0 .sent::asking) w ∧
      ¬Run watch FinishAcked alone
        (.timeout 0 .sent::.timeout 0 .sent::.timeout 0 .sent::.timeout 0 .sent::asking) w := by
  obtain ⟨w,hrun,hp⟩ := run_of_exec_map (checked noneEmpty watch) alone
    (.timeout 0 .sent::.timeout 0 .sent::.timeout 0 .sent::asking).reverse finishesUnanswered (by decide)
  rw [List.reverse_reverse] at hrun
  have hf := hrun.of_checked (H:=fun es w e => Filled es w.sys e) noneEmpty_filled
  rw [finishesUnanswered,Option.any_eq_true] at hp
  obtain ⟨q,hq,hp⟩ := hp
  simp only [Bool.and_eq_true,decide_eq_true_eq,Option.any_eq_true] at hp
  obtain ⟨⟨⟨hcb,hx⟩,hwait⟩,t,ht,hfin,hnone⟩ := hp
  refine ⟨t,alone_booted,.cons hf trivial ht,fun h => ?_⟩
  cases h with
  | cons hr he hs =>
    obtain rfl := hf.det hr
    have hacked := he t q ht ⟨hq,hx⟩ hcb (by rw [hwait];decide) hfin
    have hself := hacked.self
    rw [hnone] at hself
    cases hself

end Broadcast
end Autbus
