import Autbus.Rounds

/-! The request a waiting record waits for. The manager hands it to the queue, the other
thread takes it from there to `req_list`; a record in `CFG_NODE_WAIT_ACK` is left by the
callback only. -/
namespace Autbus
namespace Outstanding

open ResTables Nodes Trace Manager
open SrvRpc (Send)

/-- The record is in `CFG_NODE_WAIT_ACK`. -/
def Waiting (cn : Cn) (k : ℕ) : Prop := stateAt cn k = some .waitAck

/-- The callback of the request works on the record. -/
def Bound (q : Request) (k : ℕ) : Prop := q.cbkf ≠ .other ∧ q.parg = k

/-- A request for the record is in the queue, or in `req_list` with its timer running. -/
def Pending (queue : List Msg) (reqs : List Request) (k : ℕ) : Prop :=
  (∃ q p, .r q p ∈ queue ∧ Bound q k) ∨ ∃ q ∈ reqs, Bound q k ∧ q.armed = true

/-- Every waiting record has an outstanding request. -/
def Covered (s : Sys) : Prop := ∀ k, Waiting s.cn k → Pending s.queue s.reqs k

/-- The next round of the manager sends a request. -/
def Asking (s : Sys) : Prop :=
  ∃ w : Work, ∃ pnd, s.stage = w.stage ∧ s.cn.ncn[s.cur]? = some pnd ∧ pnd.state = w.before ∧
    w.asks (setState s.cur .waitAck s.cn) pnd = true

/-- No request is dropped: a request of the manager gets into the queue, and from the
queue into `req_list`, unless the record has another one or waits no longer. -/
def Kept (_ : List Event) (s : Sys) : Event → Prop
  | .manager env => Asking s → env.rWrite = true ∨ Pending s.queue s.reqs s.cur
  | .resmsg env => ∀ q p queue, s.queue = .r q p::queue → q.cbkf ≠ .other → Waiting s.cn q.parg →
      (env.malloc = true ∧ env.net = .sent) ∨ Pending queue s.reqs q.parg
  | _ => True

/-- The claim's property after the step. -/
def CoveredAfter (_ : List Event) (s : Sys) (e : Event) : Prop := ∀ t, step s e = some t → Covered t

/-! ### What keeps requests and records -/

theorem Pending.mono {queue queue' : List Msg} {reqs reqs' : List Request} {k : ℕ}
    (h : Pending queue reqs k) (hq : ∀ m ∈ queue, m ∈ queue') (hr : ∀ q ∈ reqs, q ∈ reqs') :
    Pending queue' reqs' k := by
  rcases h with ⟨q,p,hm,hb⟩ | ⟨q,hm,hb⟩
  · exact Or.inl ⟨q,p,hq _ hm,hb⟩
  · exact Or.inr ⟨q,hr q hm,hb⟩

/-- Nothing starts to wait and nothing is dropped. -/
theorem Covered.grow {s t : Sys} (h : Covered s) (hw : ∀ k, Waiting t.cn k → Waiting s.cn k)
    (hq : ∀ m ∈ s.queue, m ∈ t.queue) (hr : ∀ q ∈ s.reqs, q ∈ t.reqs) : Covered t :=
  fun k hk => (h k (hw k hk)).mono hq hr

theorem waiting_congr {cn cn' : Cn} (h : cn.ncn = cn'.ncn) {k : ℕ} (hk : Waiting cn k) : Waiting cn' k :=
  (stateAt_congr h k).symm.trans hk

/-- A record whose state is set to something else does not wait. -/
theorem Waiting.of_setState {k j : ℕ} {st : ResStage} {cn : Cn} (h : Waiting (setState k st cn) j)
    (hst : st ≠ .waitAck) : j ≠ k ∧ Waiting cn j := by
  have hne : j ≠ k := by
    rintro rfl
    rw [Waiting,stateAt_setState_self] at h
    obtain ⟨-,-,he⟩ := Option.map_eq_some_iff.mp h
    exact hst he
  exact ⟨hne,by rwa [Waiting,stateAt_setState_of_ne hne] at h⟩

/-- A change of one record that does not make it wait. -/
theorem Waiting.of_modify {k j : ℕ} {f : NodeInfo → NodeInfo} {ncn : List NodeInfo} {cn cn' : Cn}
    (hcn : cn.ncn = ncn) (hcn' : cn'.ncn = ncn.modify k f)
    (hf : ∀ pnd, (f pnd).state = .waitAck → pnd.state = .waitAck) (h : Waiting cn' j) : Waiting cn j := by
  rw [Waiting,stateAt,hcn',List.getElem?_modify] at h
  obtain ⟨pnd,hpnd,hst⟩ := Option.map_eq_some_iff.mp h
  obtain ⟨old,hold,rfl⟩ := Option.map_eq_some_iff.mp hpnd
  rw [Waiting,stateAt,hcn,hold]
  by_cases hj : k = j
  · simp only [hj,if_true] at hst
    simp [hf old hst]
  · simp only [hj,if_false] at hst
    simp [hst]

theorem Waiting.of_reported {cn cn' : Cn} (h : Reported cn cn') {k : ℕ} (hk : Waiting cn' k) : Waiting cn k := by
  rcases h k with he | ⟨he,-⟩
  · exact he.symm.trans hk
  · exact nomatch he.symm.trans hk

/-! ### The manager -/

theorem manager_covered {s t : Sys} {env : Env} (h : Covered s) (ht : managerRound env s = some t)
    (hk : Asking s → env.rWrite = true ∨ Pending s.queue s.reqs s.cur) : Covered t := by
  have hleft : ∀ ms : List Msg, ∀ m ∈ s.queue, m ∈ s.queue ++ ms := fun ms m hm => List.mem_append_left ms hm
  cases managerRound_round ht with
  | skip => exact h
  | boot k cn ms pnd _ _ _ hcn _ =>
    exact h.grow (fun j hj => hj.of_modify rfl hcn (by intro _ he;cases he)) (hleft _) fun _ hq => hq
  | join k pnd =>
    exact h.grow (fun j hj => hj.of_modify rfl rfl (by intro _ he;cases he)) (fun _ hm => hm)
      fun _ hq => hq
  | leave k pnd =>
    exact h.grow (fun j hj => hj.of_modify rfl rfl (by intro _ he;cases he)) (fun _ hm => hm)
      fun _ hq => hq
  | push => exact h.grow (fun _ hj => hj) (hleft _) fun _ hq => hq
  | finish pnd => exact h.grow (fun _ hj => hj) (fun _ hm => hm) fun _ hq => hq
  | fail pnd => exact h.grow (fun _ hj => hj) (fun _ hm => hm) fun _ hq => hq
  | work w pnd u hst hget hbef haw =>
    cases haw with
    | ends cn ms _ hcn _ =>
      refine h.grow (fun j hj => ?_) (hleft _) fun _ hq => hq
      exact ((waiting_congr hcn hj).of_setState w.done_ne_waitAck).2
    | asks cn ms q p hask hcn _ hcbk hparg _ =>
      intro j hj
      by_cases hjc : j = s.cur
      · subst hjc
        rcases hk ⟨w,pnd,hst,hget,hbef,hask⟩ with hr | hp
        · refine Or.inl ⟨q,p,?_,hcbk ▸ w.cbk_ne_other,hparg⟩
          simp [hr]
        · exact hp.mono (fun m hm => by simp [hm]) fun _ hq => hq
      · have hw : Waiting s.cn j := by
          have hw' := waiting_congr hcn hj
          rwa [Waiting,stateAt_setState_of_ne hjc] at hw'
        exact (h j hw).mono (fun m hm => by simp [hm]) fun _ hq => hq

/-- A round that sends a request makes its record wait, and adds nothing but that request. -/
theorem manager_asking {s t : Sys} {env : Env} (ht : managerRound env s = some t) (ha : Asking s)
    (hr : env.rWrite = false) : Waiting t.cn s.cur ∧ (Pending t.queue t.reqs s.cur → Pending s.queue s.reqs s.cur) := by
  obtain ⟨v,pnd,hst,hget,hbef,hask⟩ := ha
  have hnot : ∀ g, s.stage = g → v.stage = g := fun g hg => hst.symm.trans hg
  have hctrl : ∀ ms, Pending (s.queue ++ written env ms) s.reqs s.cur → Pending s.queue s.reqs s.cur := by
    rintro ms (⟨q,p,hm,hb⟩ | hb)
    · rcases List.mem_append.mp hm with hm | hm
      · exact Or.inl ⟨q,p,hm,hb⟩
      · obtain ⟨x,-,hx⟩ := List.mem_map.mp hm
        cases hx
    · exact Or.inr hb
  cases managerRound_round ht with
  | skip hno => exact absurd hbef (hno v pnd hst hget)
  | boot k cn ms p hs => exact absurd (hnot _ hs) (by cases v <;> decide)
  | join k p hs => exact absurd (hnot _ hs) (by cases v <;> decide)
  | leave k p hs => exact absurd (hnot _ hs) (by cases v <;> decide)
  | push hs => exact absurd (hnot _ hs) (by cases v <;> decide)
  | finish p hg hs =>
    obtain rfl := Option.some.inj (hget.symm.trans hg)
    rcases hs with ⟨-,hp⟩ | ⟨-,hp⟩
    · exact absurd (hbef.symm.trans hp) (by cases v <;> decide)
    · exact absurd (hbef.symm.trans hp) (by cases v <;> decide)
  | fail p hg _ hp =>
    obtain rfl := Option.some.inj (hget.symm.trans hg)
    exact absurd (hbef.symm.trans hp) (by cases v <;> decide)
  | work w p u _ hg hb haw =>
    obtain rfl := Option.some.inj (hget.symm.trans hg)
    have hwv : w = v := Work.before_inj (hb.symm.trans hbef)
    subst hwv
    cases haw with
    | ends cn ms hno _ _ => simp [hask] at hno
    | asks cn ms q p _ hcn _ hcbk hparg _ =>
      refine ⟨?_,by simpa [hr] using hctrl ms⟩
      refine waiting_congr hcn.symm ?_
      rw [Waiting,stateAt_setState_self,stateAt,hget]
      rfl

theorem manager_covered_iff {s t : Sys} {env : Env} (h : Covered s) (ht : managerRound env s = some t) :
    Covered t ↔ (Asking s → env.rWrite = true ∨ Pending s.queue s.reqs s.cur) := by
  refine ⟨fun hc ha => ?_,manager_covered h ht⟩
  cases hr : env.rWrite with
  | true => exact Or.inl rfl
  | false =>
    obtain ⟨hw,hp⟩ := manager_asking ht ha hr
    exact Or.inr (hp (hc _ hw))

/-! ### The other thread -/

theorem resmsg_covered_iff {s t : Sys} {env : SendEnv} (h : Covered s) (ht : resmsgProc env s = some t) :
    Covered t ↔ ∀ q p queue, s.queue = .r q p::queue → q.cbkf ≠ .other → Waiting s.cn q.parg →
      (env.malloc = true ∧ env.net = .sent) ∨ Pending queue s.reqs q.parg := by
  rw [resmsgProc] at ht
  cases hq : s.queue with
  | nil => simp [hq] at ht
  | cons m queue =>
    cases m with
    | c m =>
      simp only [hq,Option.some.injEq] at ht
      subst ht
      refine ⟨fun _ q p queue hc => by simp at hc,fun _ k hk => ?_⟩
      have hp := h k hk
      rw [hq] at hp
      rcases hp with ⟨q,p,hm,hb⟩ | hb
      · exact Or.inl ⟨q,p,by simpa using hm,hb⟩
      · exact Or.inr hb
    | r q p =>
      simp only [hq] at ht
      obtain ⟨x,hx,rfl⟩ := Option.map_eq_some_iff.mp ht
      have hold : ∀ k, Pending s.queue s.reqs k → Bound q k ∨ Pending queue s.reqs k := by
        rintro k (⟨q',p',hm,hb⟩ | hb)
        · rw [hq] at hm
          rcases List.mem_cons.mp hm with he | hm
          · injection he with he
            exact Or.inl (he ▸ hb)
          · exact Or.inr (Or.inl ⟨q',p',hm,hb⟩)
        · exact Or.inr (Or.inr hb)
      rcases rpcRequestSend_cases hx with ⟨hm,hn,hreqs⟩ | ⟨hno,hreqs⟩
      · refine ⟨fun _ _ _ _ _ _ _ => Or.inl ⟨hm,hn⟩,fun _ k hk => ?_⟩
        rw [hreqs]
        rcases hold k (h k hk) with hb | hp
        · exact Or.inr ⟨_,List.mem_cons_self,hb,rfl⟩
        · exact hp.mono (fun _ hm => hm) fun _ hm => List.mem_cons_of_mem _ hm
      · rw [hreqs]
        constructor
        · intro hc q' p' queue' he hcb hw
          obtain ⟨⟨rfl,rfl⟩,rfl⟩ : (q = q' ∧ p = p') ∧ queue = queue' := by simpa using he
          exact Or.inr (hc _ hw)
        · intro hk k hw
          rcases hold k (h k hw) with hb | hp
          · have hw' : Waiting s.cn q.parg := hb.2 ▸ hw
            exact hb.2 ▸ (hk q p queue rfl hb.1 hw').resolve_left hno
          · exact hp

theorem Pending.eraseIdx {queue : List Msg} {reqs : List Request} {i k : ℕ} {q : Request}
    (h : Pending queue reqs k) (hq : reqs[i]? = some q) (hb : ¬Bound q k) :
    Pending queue (reqs.eraseIdx i) k := by
  rcases h with h | ⟨q',hm,hb',ha⟩
  · exact Or.inl h
  · obtain ⟨j,hj⟩ := List.mem_iff_getElem?.mp hm
    refine Or.inr ⟨q',List.mem_eraseIdx_iff_getElem?.mpr ⟨j,?_,hj⟩,hb',ha⟩
    rintro rfl
    exact hb (Option.some.inj (hq.symm.trans hj) ▸ hb')

theorem Called.waiting {q : Request} {ilen : ℕ} {ibuf : Option UInt8} {cn : Cn} {r : Cn × ℕ} (h : Called q ilen ibuf cn r)
    {j : ℕ} (hj : Waiting r.1 j) : Waiting cn j := by
  cases h with
  | done w _ _ => exact (hj.of_setState w.done_ne_waitAck).2
  | fail _ _ _ _ => exact (hj.of_setState (by decide)).2
  | wait w _ _ _ _ => exact hj
  | other _ => exact hj

/-- A callback that closes its request leaves its record waiting no longer. -/
theorem Called.unbound {q : Request} {ilen : ℕ} {ibuf : Option UInt8} {cn : Cn} {r : Cn × ℕ} (h : Called q ilen ibuf cn r)
    (hclose : r.2 = 0 ∨ ibuf = none) {j : ℕ} (hj : Waiting r.1 j) : ¬Bound q j := by
  intro hb
  cases h with
  | done w _ _ => exact (hj.of_setState w.done_ne_waitAck).1 hb.2.symm
  | fail _ _ _ _ => exact (hj.of_setState (by decide)).1 hb.2.symm
  | wait w _ _ hi _ => exact hclose.elim (fun h0 => nomatch h0) hi
  | other ho => exact hb.1 ho

/-- The callback of a request that is then taken off `req_list`. -/
theorem Called.covered {s : Sys} {q q' : Request} {ilen : ℕ} {ibuf : Option UInt8} {r : Cn × ℕ} {i : ℕ}
    (h : Called q ilen ibuf s.cn r) (hs : Covered s) (hq : s.reqs[i]? = some q') (hsame : ∀ k, Bound q' k → Bound q k)
    (hclose : r.2 = 0 ∨ ibuf = none) : Covered {s with cn := r.1,reqs := s.reqs.eraseIdx i} := by
  intro k hk
  have hno : ¬Bound q' k := fun hb => Called.unbound h hclose hk (hsame k hb)
  exact (hs k (Called.waiting h hk)).eraseIdx hq hno

theorem respond_covered {s : Sys} (h : Covered s) (srvid sessn : BitVec 32) (ilen : ℕ) (node : UInt8) :
    Covered (respond srvid sessn ilen node s) := by
  rcases respond_cases srvid sessn ilen node s with ⟨-,he⟩ | ⟨i,q,⟨-,hq⟩,he⟩
  · rw [he]
    exact h
  · have hc := callCbk_called q ilen (some node) s.cn
    rw [he]
    by_cases h0 : (callCbk q ilen (some node) s.cn).2 = 0
    · rw [close,if_pos h0]
      exact Called.covered hc h hq (fun _ hb => hb) (Or.inl h0)
    · rw [close,if_neg h0]
      exact h.grow (fun _ hj => Called.waiting hc hj) (fun _ hm => hm) fun _ hm => hm

theorem requestTout_covered {s t : Sys} {i : ℕ} {net : Send} (h : Covered s)
    (ht : requestTout i net s = some t) : Covered t := by
  obtain ⟨q,hq,⟨-,r,rfl⟩ | ⟨-,rfl⟩⟩ := requestTout_cases ht
  · exact Called.covered (callCbk_called _ 0 none s.cn) h hq (fun _ hb => hb) (Or.inr rfl)
  · intro k hk
    rcases h k hk with hp | ⟨q',hm,hb,ha⟩
    · exact Or.inl hp
    · obtain ⟨j,hj⟩ := List.mem_iff_getElem?.mp hm
      by_cases hji : i = j
      · subst hji
        obtain rfl := Option.some.inj (hq.symm.trans hj)
        have hi := (List.getElem?_eq_some_iff.mp hq).1
        exact Or.inr ⟨_,List.mem_set hi _,hb,ha⟩
      · exact Or.inr ⟨q',List.mem_iff_getElem?.mpr ⟨j,by rwa [List.getElem?_set_ne hji]⟩,hb,ha⟩

theorem rpcOther_covered {s t : Sys} {create : Bool} {dnode : UInt8} {srvid : BitVec 32} {retry : ℤ}
    {env : SendEnv} (h : Covered s) (ht : rpcOther create dnode srvid retry env s = some t) : Covered t := by
  obtain ⟨reqs,rfl,hreqs⟩ := rpcOther_spec ht
  refine h.grow (fun _ hk => hk) (fun _ hm => hm) fun q hq => ?_
  rcases hreqs with rfl | ⟨q',-,rfl⟩
  · exact hq
  · exact List.mem_cons_of_mem _ hq

/-! ### Runs -/

theorem step_covered_iff {es : List Event} {s t : Sys} {e : Event} (h : Covered s) (ht : step s e = some t) :
    Covered t ↔ Kept es s e := by
  cases e with
  | rptOnline ok ptr =>
    obtain rfl := Option.some.inj ht
    exact iff_of_true (h.grow (fun _ hk => Waiting.of_reported (reported_resNewCn ok ptr s.cn) hk) (fun _ hm => hm) fun _ hm => hm) trivial
  | nwNode nid mac ok ptr create env =>
    have hn : Covered {s with cn := resNewTn ok ptr nid mac s.cn} :=
      h.grow (fun _ hk => Waiting.of_reported (reported_resNewTn ok ptr nid mac s.cn) hk) (fun _ hm => hm) fun _ hm => hm
    exact iff_of_true (rpcOther_covered hn ht) trivial
  | lsNode nid =>
    obtain rfl := Option.some.inj ht
    exact iff_of_true (h.grow (fun _ hk => Waiting.of_reported (reported_resDeleteTn nid s.cn) hk) (fun _ hm => hm) fun _ hm => hm) trivial
  | rpc create dnode srvid retry env => exact iff_of_true (rpcOther_covered h ht) trivial
  | config cfg =>
    obtain rfl := Option.some.inj ht
    exact iff_of_true (h.grow (fun _ hk => hk) (fun _ hm => hm) fun _ hm => hm) trivial
  | manager env => exact manager_covered_iff h ht
  | resmsg env => exact resmsg_covered_iff h ht
  | response srvid sessn ilen node =>
    obtain rfl := Option.some.inj ht
    exact iff_of_true (respond_covered h srvid sessn ilen node) trivial
  | timeout i net => exact iff_of_true (requestTout_covered h ht) trivial

theorem booted_covered {s : Sys} (h : Booted s) : Covered s := by
  intro k hk
  rw [Waiting,stateAt,h.ncn] at hk
  cases hk

/-- While every step leaves the records covered, they are covered. -/
theorem run_covered {s₀ s : Sys} {es : List Event} (h0 : Booted s₀) (h : Run step CoveredAfter s₀ es s) :
    Covered s :=
  h.invariant (I:=fun _ s => Covered s) (booted_covered h0) fun _ _ _ _ _ _ hc hs => hc _ hs

theorem run_covered_iff {s₀ s : Sys} {es : List Event} (h0 : Booted s₀) (h : Run step anyStep s₀ es s) :
    Run step CoveredAfter s₀ es s ↔ Run step Kept s₀ es s := by
  refine h.forall_iff fun es s e t _ hp _ ht => ?_
  rw [← step_covered_iff (run_covered h0 hp) ht]
  constructor
  · intro hc
    exact hc t ht
  · intro hc u hu
    exact Option.some.inj (ht.symm.trans hu) ▸ hc

/-- A TN is reported, and the manager asks for its resource ids; the newest event first. -/
def firstAsk (written : Bool) : List Event :=
  [.manager (roundOk written),round,arrives 5 2,round,.rptOnline true .table]

/-- The request gets through to the other thread. -/
theorem firstAsk_covered :
    ∃ s, Run step CoveredAfter (start (blankCn 1)) (.resmsg sendOk::firstAsk true) s ∧ Waiting s.cn 1 := by
  have hkept : Run step Kept (start (blankCn 1)) (firstAsk true) _ :=
    .cons (.cons (.cons (.cons (.cons .nil trivial rfl) (fun _ => Or.inl rfl) rfl) trivial rfl)
      (fun _ => Or.inl rfl) rfl) (fun _ => Or.inl rfl) rfl
  have hall : Run step Kept (start (blankCn 1)) (.resmsg sendOk::firstAsk true) _ :=
    .cons hkept (fun _ _ _ _ _ _ => Or.inl ⟨rfl,rfl⟩) rfl
  exact ⟨_,(run_covered_iff (blank_booted 1) hall.toAny).mpr hall,rfl⟩

/-- The write to the queue fails: the record waits for nothing. -/
theorem firstAsk_dropped :
    ∃ s, Booted (start (blankCn 1)) ∧ Run step anyStep (start (blankCn 1)) (firstAsk false) s ∧ ¬Covered s := by
  obtain ⟨s,hrun,hp⟩ := run_of_exec_map step (start (blankCn 1)) (firstAsk false).reverse
    (fun s => decide (stateAt s.cn 1 = some .waitAck) && s.queue.length == 0 && s.reqs.all (·.cbkf = .other))
    (by decide)
  simp only [Bool.and_eq_true,decide_eq_true_eq,beq_iff_eq,List.length_eq_zero_iff,List.all_eq_true] at hp
  refine ⟨s,blank_booted 1,by simpa using hrun,fun hc => ?_⟩
  rcases hc 1 hp.1.1 with ⟨q,p,hm,-⟩ | ⟨q,hm,hb,-⟩
  · rw [hp.1.2] at hm
    cases hm
  · exact hb.1 (hp.2 q hm)

end Outstanding
end Autbus
