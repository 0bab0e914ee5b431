import Autbus.Rounds

/-! The manager takes one record at a time. While a record has its turn at most one
request of the manager is out, and that request is for the record; the records that do
not have the turn are at rest. -/
namespace Autbus
namespace Manager

open ResTables Nodes Trace
open SrvRpc (Send)

/-! ### Requests that are out -/

/-- The request in a message. -/
def Msg.req? : Msg → Option Request
  | .c _ => none
  | .r q _ => some q

/-- What a request of the manager is for: the callback and the record. -/
def job (q : Request) : Option (Cbk × ℕ) := if q.cbkf = .other then none else some (q.cbkf,q.parg)

/-- The manager's requests in the queue and in `req_list`. -/
def jobs (queue : List Msg) (reqs : List Request) : List (Cbk × ℕ) :=
  (queue.filterMap Msg.req? ++ reqs).filterMap job

theorem job_other {q : Request} (h : q.cbkf = .other) : job q = none := by rw [job,if_pos h]

theorem job_ne_other {q : Request} (h : q.cbkf ≠ .other) : job q = some (q.cbkf,q.parg) := by
  rw [job,if_neg h]

theorem written_req? (env : Env) (ms : List Ctrl) : (written env ms).filterMap Msg.req? = [] := by
  rw [written,List.filterMap_map,List.filterMap_eq_nil_iff]
  intro x _
  rfl

@[simp] theorem jobs_written (queue : List Msg) (reqs : List Request) (env : Env) (ms : List Ctrl) :
    jobs (queue ++ written env ms) reqs = jobs queue reqs := by
  simp only [jobs,List.filterMap_append,written_req?,List.append_nil]

/-- A message that is handed on when nothing is out. -/
theorem jobs_hand {queue : List Msg} {reqs : List Request} (h : jobs queue reqs = []) (ms : List Msg) :
    jobs (queue ++ ms) reqs = (ms.filterMap Msg.req?).filterMap job := by
  simp only [jobs,List.filterMap_append,List.append_eq_nil_iff] at h ⊢
  rw [h.1,h.2,List.nil_append,List.append_nil]

/-- A request that is handed on when nothing is out. -/
theorem jobs_ask {queue : List Msg} {reqs : List Request} {q : Request} {w : Work} {k : ℕ}
    (h : jobs queue reqs = []) (hcbk : q.cbkf = w.cbk) (hparg : q.parg = k) (env : Env) (ms : List Ctrl)
    (p : Payload) : jobs (queue ++ written env ms ++ if env.rWrite then [.r q p] else []) reqs =
      if env.rWrite then [(w.cbk,k)] else [] := by
  have hj : job q = some (w.cbk,k) := by rw [job_ne_other (hcbk ▸ w.cbk_ne_other),hcbk,hparg]
  rw [List.append_assoc,jobs_hand h,List.filterMap_append,written_req?]
  cases env.rWrite with
  | false => rfl
  | true => simp [Msg.req?,hj]

/-- The head of the queue goes on to `req_list`. -/
theorem jobs_take (q : Request) (p : Payload) (queue : List Msg) (reqs : List Request) :
    (jobs queue ({q with armed := true}::reqs)).Perm (jobs (.r q p::queue) reqs) := by
  have hjob : job {q with armed := true} = job q := rfl
  have hperm : (queue.filterMap Msg.req? ++ {q with armed := true}::reqs).Perm
      ({q with armed := true}::(queue.filterMap Msg.req? ++ reqs)) := List.perm_middle
  have h := hperm.filterMap job
  rw [jobs,jobs,List.filterMap_cons_some (show Msg.req? (.r q p) = some q from rfl)]
  rw [List.filterMap_cons,hjob] at h
  rwa [List.cons_append,List.filterMap_cons]

theorem jobs_cons_other {q : Request} (h : q.cbkf = .other) (queue : List Msg) (reqs : List Request) :
    (jobs queue (q::reqs)).Perm (jobs queue reqs) := by
  have hperm : (queue.filterMap Msg.req? ++ q::reqs).Perm (q::(queue.filterMap Msg.req? ++ reqs)) :=
    List.perm_middle
  have hp := hperm.filterMap job
  rwa [List.filterMap_cons_none (job_other h)] at hp

/-- A request that is taken off `req_list`. -/
theorem jobs_erase {reqs : List Request} {i : ℕ} {q : Request} (h : reqs[i]? = some q) (queue : List Msg) :
    ((job q).toList ++ jobs queue (reqs.eraseIdx i)).Perm (jobs queue reqs) := by
  obtain ⟨hi,hget⟩ := List.getElem?_eq_some_iff.mp h
  have hperm := (List.getElem_cons_eraseIdx_perm hi).append_left (queue.filterMap Msg.req?)
  rw [hget] at hperm
  have hp := (List.perm_middle.symm.trans hperm).filterMap job
  rw [List.filterMap_cons] at hp
  cases hj : job q with
  | none =>
    rw [hj] at hp
    exact hp
  | some x =>
    rw [hj] at hp
    exact hp

theorem jobs_set {reqs : List Request} {i : ℕ} {q q' : Request} (h : reqs[i]? = some q) (hj : job q' = job q)
    (queue : List Msg) : jobs queue (reqs.set i q') = jobs queue reqs := by
  have hset : (reqs.set i q').filterMap job = reqs.filterMap job := by
    induction reqs generalizing i with
    | nil => rfl
    | cons r reqs ih =>
      cases i with
      | zero =>
        obtain rfl : r = q := by simpa using h
        simp [List.filterMap_cons,hj]
      | succ i => simp [List.filterMap_cons,ih (by simpa using h)]
  rw [jobs,jobs,List.filterMap_append,List.filterMap_append,hset]

/-! ### The invariant -/

/-- The states of a record that does not have the turn. -/
def Resting (st : ResStage) : Prop := st = .init ∨ st = .addFinish ∨ st = .delFinish ∨ st = .fail

/-- The record has the turn. -/
def InTurn (s : Sys) (k : ℕ) : Prop := (s.stage = .online ∨ s.stage = .offline) ∧ s.cur = k

structure Turn (s : Sys) : Prop where
  count : (jobs s.queue s.reqs).length ≤ 1
  mine : ∀ x ∈ jobs s.queue s.reqs, ∃ w : Work, x = (w.cbk,s.cur) ∧ s.stage = w.stage ∧
    stateAt s.cn s.cur = some .waitAck
  rest : ∀ k st, stateAt s.cn k = some st → InTurn s k ∨ Resting st

/-- An empty answer to the 0x13 request comes only when no bit is left. -/
def Filled (_ : List Event) (s : Sys) : Event → Prop
  | .response srvid sessn ilen _ => ∀ i q, answered srvid sessn s i q → q.cbkf = .addTrs → ilen = 0 →
      isAckZero s.cn.ackFlag = 0
  | _ => True

theorem booted_turn {s : Sys} (h : Booted s) : Turn s where
  count := by simp [jobs,h.queue,h.reqs]
  mine := by simp [jobs,h.queue,h.reqs]
  rest := by
    intro k st hk
    rw [stateAt,h.ncn] at hk
    cases hk

/-- Nothing is out unless the record with the turn waits. -/
theorem Turn.idle {s : Sys} (h : Turn s)
    (hno : ∀ w : Work, s.stage = w.stage → stateAt s.cn s.cur ≠ some .waitAck) :
    jobs s.queue s.reqs = [] := by
  cases hj : jobs s.queue s.reqs with
  | nil => rfl
  | cons x l =>
    obtain ⟨w,-,hst,hw⟩ := h.mine x (by rw [hj];exact List.mem_cons_self)
    exact absurd hw (hno w hst)

/-- The requests out stay or become fewer, and the record with the turn waits on. -/
theorem Turn.keep {s t : Sys} (h : Turn s) (hsub : (jobs t.queue t.reqs).Subperm (jobs s.queue s.reqs))
    (hst : t.stage = s.stage) (hcur : t.cur = s.cur) (hcn : Reported s.cn t.cn) : Turn t where
  count := hsub.length_le.trans h.count
  mine := by
    intro x hx
    obtain ⟨w,he,hs,hw⟩ := h.mine x (hsub.subset hx)
    rw [hcur,hst]
    refine ⟨w,he,hs,?_⟩
    rcases hcn s.cur with hc | ⟨-,hc | hc⟩
    · exact hc.trans hw
    · exact nomatch hc.symm.trans hw
    · exact nomatch hc.symm.trans hw
  rest := by
    intro k st hk
    have hin : InTurn s k → InTurn t k := by
      rintro ⟨hs,hc⟩
      exact ⟨hst.symm ▸ hs,hcur.trans hc⟩
    rcases hcn k with hc | ⟨hc,-⟩
    · exact (h.rest k st (hc.symm.trans hk)).imp_left hin
    · exact Or.inr (Or.inl (Option.some.inj (hk.symm.trans hc)))

/-! ### Steps -/

/-- Nothing is out. -/
theorem Turn.of_nil {s : Sys} (hj : jobs s.queue s.reqs = [])
    (hrest : ∀ k st, stateAt s.cn k = some st → InTurn s k ∨ Resting st) : Turn s where
  count := by simp [hj]
  mine := by simp [hj]
  rest := hrest

/-- Outside the turns every record rests. -/
theorem Turn.resting {s : Sys} (h : Turn s) (hs : s.stage = .boot ∨ s.stage = .idle) {k : ℕ} {st : ResStage}
    (hk : stateAt s.cn k = some st) : Resting st := by
  refine (h.rest k st hk).resolve_left ?_
  rintro ⟨hst,-⟩
  rcases hs with hs | hs <;> rcases hst with hst | hst <;> exact nomatch hs.symm.trans hst

theorem Turn.idle_of_stage {s : Sys} (h : Turn s) (hs : s.stage = .boot ∨ s.stage = .idle) :
    jobs s.queue s.reqs = [] := by
  refine h.idle fun w hw => ?_
  rcases hs with hs | hs <;> exact absurd (hs.symm.trans hw) (by cases w <;> decide)

theorem Turn.idle_of_state {s : Sys} (h : Turn s) {pnd : NodeInfo} (hget : s.cn.ncn[s.cur]? = some pnd)
    (hne : pnd.state ≠ .waitAck) : jobs s.queue s.reqs = [] := by
  refine h.idle fun w hw => ?_
  rw [stateAt,hget]
  simpa using hne

/-- A record takes its turn. -/
theorem Turn.take {s t : Sys} (h : Turn s) (hs : s.stage = .idle) (ht : t.stage = .online ∨ t.stage = .offline)
    (hj : jobs t.queue t.reqs = jobs s.queue s.reqs) (hcn : ∀ j, j ≠ t.cur → stateAt t.cn j = stateAt s.cn j) :
    Turn t := by
  refine .of_nil (hj.trans (h.idle_of_stage (Or.inr hs))) fun k st hk => ?_
  by_cases hc : k = t.cur
  · exact Or.inl ⟨ht,hc.symm⟩
  · exact Or.inr (h.resting (Or.inr hs) ((hcn k hc).symm.trans hk))

/-- The record with the turn ends it. -/
theorem Turn.release {s t : Sys} (h : Turn s) {pnd : NodeInfo} (hget : s.cn.ncn[s.cur]? = some pnd)
    (hp : Resting pnd.state) (hj : jobs t.queue t.reqs = jobs s.queue s.reqs) (hcn : t.cn = s.cn) : Turn t := by
  have hne : pnd.state ≠ .waitAck := by
    intro he
    rw [he] at hp
    rcases hp with hp | hp | hp | hp <;> cases hp
  refine .of_nil (hj.trans (h.idle_of_state hget hne)) fun k st hk => Or.inr ?_
  rw [hcn] at hk
  rcases h.rest k st hk with ⟨-,rfl⟩ | hr
  · rw [stateAt,hget] at hk
    exact Option.some.inj hk ▸ hp
  · exact hr

theorem stateAt_modify_of_ne {cn cn' : Cn} {k j : ℕ} {f : NodeInfo → NodeInfo} (h : cn'.ncn = cn.ncn.modify k f)
    (hj : j ≠ k) : stateAt cn' j = stateAt cn j := by
  rw [stateAt,h,List.getElem?_modify,stateAt]
  congr 1
  cases cn.ncn[j]? with
  | none => rfl
  | some pnd => simp [hj.symm]

theorem manager_turn {env : Env} {s t : Sys} (h : Turn s) (ht : Round env s t) : Turn t := by
  cases ht with
  | skip => exact h
  | boot k cn ms pnd hs _ _ hcn _ =>
    refine .of_nil (by simpa using h.idle_of_stage (Or.inl hs)) fun j st hj => Or.inr ?_
    by_cases hjk : j = k
    · subst hjk
      rw [stateAt,hcn,List.getElem?_modify] at hj
      obtain ⟨p,hp,rfl⟩ := Option.map_eq_some_iff.mp hj
      obtain ⟨p',-,rfl⟩ := Option.map_eq_some_iff.mp hp
      simp [Resting]
    · exact h.resting (Or.inl hs) ((stateAt_modify_of_ne hcn hjk).symm.trans hj)
  | join k pnd hs => exact h.take hs (Or.inl rfl) rfl fun j hj => stateAt_modify_of_ne rfl hj
  | leave k pnd hs => exact h.take hs (Or.inr rfl) rfl fun j hj => stateAt_modify_of_ne rfl hj
  | push hs =>
    refine .of_nil (by simpa using h.idle_of_stage (Or.inr hs)) fun j st hj => ?_
    exact Or.inr (h.resting (Or.inr hs) hj)
  | finish pnd hget hp =>
    refine h.release hget ?_ rfl rfl
    rcases hp with ⟨-,hp⟩ | ⟨-,hp⟩ <;> simp [Resting,hp]
  | fail pnd hget _ hp => exact h.release hget (by simp [Resting,hp]) rfl rfl
  | work w pnd u hst hget hbef haw =>
    have hnil := h.idle_of_state hget (by rw [hbef];cases w <;> decide)
    have hturn : s.stage = .online ∨ s.stage = .offline := by
      rw [hst]
      cases w <;> simp [Work.stage]
    have hrest : ∀ st' cn, cn.ncn = (setState s.cur st' s.cn).ncn → ∀ k st, stateAt cn k = some st →
        InTurn s k ∨ Resting st := by
      intro st' cn hcn k st hk
      by_cases hc : k = s.cur
      · exact Or.inl ⟨hturn,hc.symm⟩
      · rw [stateAt_congr hcn,stateAt_setState_of_ne hc] at hk
        exact h.rest k st hk
    cases haw with
    | ends cn ms _ hcn _ => exact .of_nil (by simpa using hnil) (hrest _ cn hcn)
    | asks cn ms q p _ hcn _ hcbk hparg _ =>
      have hjobs := jobs_ask hnil hcbk hparg env ms p
      refine ⟨?_,?_,hrest _ cn hcn⟩
      · rw [hjobs]
        split <;> simp
      · intro x hx
        rw [hjobs] at hx
        cases hr : env.rWrite with
        | false => simp [hr] at hx
        | true =>
          obtain rfl : x = (w.cbk,s.cur) := by simpa [hr] using hx
          refine ⟨w,rfl,hst,?_⟩
          rw [stateAt_congr hcn,stateAt_setState_self,stateAt,hget]
          rfl

/-- The other thread moves requests on, or drops them. -/
theorem resmsg_jobs {env : SendEnv} {s t : Sys} (ht : resmsgProc env s = some t) :
    (jobs t.queue t.reqs).Subperm (jobs s.queue s.reqs) := by
  rw [resmsgProc] at ht
  cases hq : s.queue with
  | nil => simp [hq] at ht
  | cons m queue =>
    cases m with
    | c m =>
      simp only [hq,Option.some.injEq] at ht
      subst ht
      exact List.Subperm.refl _
    | r q p =>
      simp only [hq] at ht
      obtain ⟨x,hx,rfl⟩ := Option.map_eq_some_iff.mp ht
      rcases rpcRequestSend_cases hx with ⟨-,-,hr⟩ | ⟨-,hr⟩
      · rw [hr]
        exact (jobs_take q p queue s.reqs).subperm
      · have hsub : (jobs queue s.reqs).Sublist (jobs (.r q p::queue) s.reqs) := by
          rw [jobs,jobs,List.filterMap_cons_some (show Msg.req? (.r q p) = some q from rfl)]
          exact (List.sublist_cons_self _ _).filterMap job
        rw [hr]
        exact hsub.subperm

theorem resmsg_turn {env : SendEnv} {s t : Sys} (h : Turn s) (ht : resmsgProc env s = some t) : Turn t := by
  have hsub := resmsg_jobs ht
  obtain ⟨queue,reqs,rfl⟩ := resmsgProc_spec ht
  exact h.keep hsub rfl rfl (reported_congr rfl)

theorem rpcOther_turn {s t : Sys} {create : Bool} {dnode : UInt8} {srvid : BitVec 32} {retry : ℤ}
    {env : SendEnv} (h : Turn s) (ht : rpcOther create dnode srvid retry env s = some t) : Turn t := by
  obtain ⟨reqs,rfl,hreqs⟩ := rpcOther_spec ht
  rcases hreqs with rfl | ⟨q,hq,rfl⟩
  · exact h.keep (List.Subperm.refl _) rfl rfl (reported_congr rfl)
  · have hp := jobs_cons_other hq s.queue s.reqs
    exact h.keep hp.subperm rfl rfl (reported_congr rfl)

/-- The request of the manager that is out is the only one, and for the record with the turn. -/
theorem Turn.only {s : Sys} (h : Turn s) {i : ℕ} {q : Request} (hq : s.reqs[i]? = some q)
    (hne : q.cbkf ≠ .other) :
    jobs s.queue (s.reqs.eraseIdx i) = [] ∧ ∃ w : Work, q.cbkf = w.cbk ∧ q.parg = s.cur ∧ s.stage = w.stage ∧
      stateAt s.cn s.cur = some .waitAck := by
  have hp := jobs_erase hq s.queue
  rw [job_ne_other hne] at hp
  refine ⟨?_,?_⟩
  · have hlen := hp.length_eq.le.trans h.count
    exact List.length_eq_zero_iff.mp (by simpa using hlen)
  · obtain ⟨w,he,hs,hw⟩ := h.mine (q.cbkf,q.parg) (hp.mem_iff.mp (by simp))
    exact ⟨w,congrArg Prod.fst he,congrArg Prod.snd he,hs,hw⟩

theorem called_turn {s : Sys} {i : ℕ} {q q' : Request} {ilen : ℕ} {ibuf : Option UInt8} {r : Cn × ℕ}
    {reqs : List Request} (h : Turn s) (hq : s.reqs[i]? = some q) (hcb : q'.cbkf = q.cbkf) (hpa : q'.parg = q.parg)
    (hr : Called q' ilen ibuf s.cn r)
    (hreqs : reqs = s.reqs.eraseIdx i ∨ reqs = s.reqs ∧ r.2 ≠ 0 ∧
      ¬(ibuf = none ∨ q.cbkf = .addTrs ∧ ilen = 0 ∧ isAckZero s.cn.ackFlag ≠ 0)) :
    Turn {s with cn := r.1,reqs := reqs} := by
  by_cases ho : q.cbkf = .other
  · have hcn : r.1 = s.cn := by
      cases hr with
      | done w hw _ => exact absurd (hw.symm.trans (hcb.trans ho)) w.cbk_ne_other
      | fail w hw _ _ => exact absurd (hw.symm.trans (hcb.trans ho)) w.cbk_ne_other
      | wait w hw _ _ _ => exact absurd (hw.symm.trans (hcb.trans ho)) w.cbk_ne_other
      | other _ => rfl
    rcases hreqs with rfl | ⟨rfl,-,-⟩
    · have hp := jobs_erase hq s.queue
      rw [job_other ho] at hp
      exact h.keep hp.subperm rfl rfl (reported_congr (congrArg Cn.ncn hcn))
    · exact h.keep (List.Subperm.refl _) rfl rfl (reported_congr (congrArg Cn.ncn hcn))
  · obtain ⟨hnil,w,hcbk,hparg,hst,hwait⟩ := h.only hq ho
    have hturn : InTurn s s.cur := ⟨by rw [hst];cases w <;> simp [Work.stage],rfl⟩
    have hrest : ∀ st' f k st, stateAt (setState q'.parg st' {s.cn with ackFlag := f}) k = some st →
        InTurn s k ∨ Resting st := by
      intro st' f k st hk
      by_cases hc : k = s.cur
      · exact Or.inl (hc ▸ hturn)
      · rw [stateAt_setState_of_ne (by rw [hpa,hparg];exact hc)] at hk
        exact h.rest k st hk
    cases hr with
    | done v hv hz =>
      obtain rfl := hreqs.resolve_right fun hx => hx.2.1 rfl
      exact .of_nil hnil (hrest _ _)
    | fail v hv hz hi =>
      have hi' : ibuf = none ∨ q.cbkf = .addTrs ∧ ilen = 0 ∧ isAckZero s.cn.ackFlag ≠ 0 := by
        rcases hi with hi | ⟨hc,hl⟩
        · exact Or.inl hi
        · have htrs : v = .trs := Work.cbk_inj (hv.symm.trans hc)
          exact Or.inr ⟨hcb.symm.trans hc,hl,hz (Or.inl htrs)⟩
      obtain rfl := hreqs.resolve_right fun hx => hx.2.2 hi'
      exact .of_nil hnil (hrest _ s.cn.ackFlag)
    | wait v hv hc hi hz =>
      rcases hreqs with rfl | ⟨rfl,-,-⟩
      · exact .of_nil hnil h.rest
      · exact h.keep (List.Subperm.refl _) rfl rfl (reported_congr rfl)
    | other hother => exact absurd (hcb.symm.trans hother) ho

theorem step_turn {es : List Event} {s t : Sys} {e : Event} (h : Turn s) (hf : Filled es s e)
    (ht : step s e = some t) : Turn t := by
  cases e with
  | rptOnline ok ptr =>
    obtain rfl := Option.some.inj ht
    exact h.keep (List.Subperm.refl _) rfl rfl (reported_resNewCn ok ptr s.cn)
  | nwNode nid mac ok ptr create env =>
    have hn : Turn {s with cn := resNewTn ok ptr nid mac s.cn} :=
      h.keep (List.Subperm.refl _) rfl rfl (reported_resNewTn ok ptr nid mac s.cn)
    exact rpcOther_turn hn ht
  | lsNode nid =>
    obtain rfl := Option.some.inj ht
    exact h.keep (List.Subperm.refl _) rfl rfl (reported_resDeleteTn nid s.cn)
  | rpc create dnode srvid retry env => exact rpcOther_turn h ht
  | config cfg =>
    obtain rfl := Option.some.inj ht
    exact h.keep (List.Subperm.refl _) rfl rfl (reported_congr rfl)
  | manager env => exact manager_turn h (managerRound_round ht)
  | resmsg env => exact resmsg_turn h ht
  | response srvid sessn ilen node =>
    obtain rfl := Option.some.inj ht
    rcases respond_cases srvid sessn ilen node s with ⟨-,he⟩ | ⟨i,q,hans,he⟩
    · rw [he]
      exact h
    · rw [he]
      refine called_turn h hans.2 rfl rfl (callCbk_called q ilen (some node) s.cn) ?_
      by_cases h0 : (callCbk q ilen (some node) s.cn).2 = 0
      · exact Or.inl (if_pos h0)
      · refine Or.inr ⟨if_neg h0,h0,?_⟩
        rintro (hn | ⟨hcb,hl,hz⟩)
        · cases hn
        · exact hz (hf i q hans hcb hl)
  | timeout i net =>
    obtain ⟨q,hq,⟨-,r,rfl⟩ | ⟨-,rfl⟩⟩ := requestTout_cases ht
    · exact @called_turn s i q {q with retry := r} _ _ _ _ h hq rfl rfl (callCbk_called _ 0 none s.cn) (Or.inl rfl)
    · have hset : jobs s.queue (s.reqs.set i {q with retry := q.retry-1}) = jobs s.queue s.reqs :=
        @jobs_set s.reqs i q {q with retry := q.retry-1} hq rfl s.queue
      exact h.keep (List.Perm.of_eq hset).subperm rfl rfl (reported_congr rfl)

theorem run_turn {s₀ s : Sys} {es : List Event} (h0 : Booted s₀) (h : Run step Filled s₀ es s) : Turn s :=
  h.invariant (I:=fun _ s => Turn s) (booted_turn h0) fun _ _ _ _ _ ht hf hs => step_turn ht hf hs

end Manager
end Autbus
