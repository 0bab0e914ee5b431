import Autbus.Manager

/-! What a round of the manager and a callback can do. The four functions that wait for
an answer are one family: each starts in a state of its own, and either ends at once or
asks with a request whose callback ends it. -/
namespace Autbus
namespace Manager

open ResTables Nodes Trace
open SrvRpc (Send)

/-! ### Node records -/

@[simp] theorem setState_get (k : ℕ) (st : ResStage) (cn : Cn) (j : ℕ) :
    (setState k st cn).ncn[j]? = cn.ncn[j]?.map fun pnd => if k = j then {pnd with state := st} else pnd := by
  rw [setState,List.getElem?_modify]
  rfl

/-- The state of the record at position `k`. -/
def stateAt (cn : Cn) (k : ℕ) : Option ResStage := cn.ncn[k]?.map NodeInfo.state

theorem stateAt_congr {cn cn' : Cn} (h : cn.ncn = cn'.ncn) (k : ℕ) : stateAt cn k = stateAt cn' k := by
  rw [stateAt,stateAt,h]

theorem stateAt_setState_self (k : ℕ) (st : ResStage) (cn : Cn) :
    stateAt (setState k st cn) k = (stateAt cn k).map fun _ => st := by
  rw [stateAt,setState_get,stateAt,Option.map_map,Option.map_map]
  congr 1
  funext pnd
  simp

theorem stateAt_setState_of_ne {k j : ℕ} (h : j ≠ k) (st : ResStage) (cn : Cn) :
    stateAt (setState k st cn) j = stateAt cn j := by
  rw [stateAt,setState_get,stateAt,Option.map_map]
  congr 1
  funext pnd
  simp [h.symm]

theorem modify_get {l : List NodeInfo} {f : NodeInfo → NodeInfo} {j k : ℕ} {pnd' : NodeInfo}
    (h : (l.modify j f)[k]? = some pnd') :
    (j = k ∧ ∃ pnd, l[k]? = some pnd ∧ f pnd = pnd') ∨ (j ≠ k ∧ l[k]? = some pnd') := by
  rw [List.getElem?_modify] at h
  obtain ⟨pnd,hpnd,he⟩ := Option.map_eq_some_iff.mp h
  by_cases hjk : j = k
  · exact Or.inl ⟨hjk,pnd,hpnd,by simpa [hjk] using he⟩
  · exact Or.inr ⟨hjk,by simpa [hjk,hpnd] using he⟩

theorem append_get {l : List NodeInfo} {p pnd : NodeInfo} {k : ℕ} (h : (l ++ [p])[k]? = some pnd) :
    l[k]? = some pnd ∨ pnd = p := by
  by_cases hlt : k < l.length
  · exact Or.inl (by rwa [List.getElem?_append_left hlt] at h)
  · rw [List.getElem?_append_right (by omega)] at h
    exact Or.inr (List.mem_singleton.mp (List.mem_of_getElem? h))

/-! ### Reports -/

/-- A record as `res_new_tn` makes it. -/
def newTn (nindx : UInt8) (mac : Mac) : NodeInfo := ⟨2,nindx,mac,.init,true,false,0⟩

theorem resNewCn_ncn (ok : Bool) (ptr : UnsetPtr) (cn : Cn) :
    (resNewCn ok ptr cn).ncn = if ok then cn.ncn ++ [⟨0,0,cn.mac,.init,true,false,0⟩] else cn.ncn := by
  cases ok with
  | false => rfl
  | true =>
    simp only [resNewCn,Bool.not_true,Bool.false_eq_true,if_false,if_true]
    split <;> rfl

theorem holdSlot_ncn (ptr : UnsetPtr) (nindx : UInt8) (mac : Mac) (cn : Cn) :
    (holdSlot ptr nindx mac cn).ncn = cn.ncn := by
  rw [holdSlot]
  split <;> rfl

theorem resNewTn_ncn (ok : Bool) (ptr : UnsetPtr) (nindx : UInt8) (mac : Mac) (cn : Cn) :
    (resNewTn ok ptr nindx mac cn).ncn = match cn.ncn.findIdx? fun pnd => pnd.mac = mac with
      | some k => cn.ncn.modify k (renew nindx mac)
      | none => if ok then cn.ncn ++ [newTn nindx mac] else cn.ncn := by
  have hhold : (if cn.preRes.state = 1 then holdSlot ptr nindx mac cn else cn).ncn = cn.ncn := by
    split
    · exact holdSlot_ncn ..
    · rfl
  simp only [resNewTn,hhold]
  cases cn.ncn.findIdx? fun pnd => pnd.mac = mac with
  | some k => rfl
  | none =>
    cases ok with
    | false => exact hhold
    | true => rfl

theorem resDeleteTn_ncn (nid : UInt8) (cn : Cn) :
    (resDeleteTn nid cn).ncn = match cn.ncn.findIdx? fun pnd => pnd.nindx = nid with
      | some k => cn.ncn.modify k lose
      | none => cn.ncn := by
  rw [resDeleteTn]
  cases cn.ncn.findIdx? fun pnd => pnd.nindx = nid <;> rfl

/-- What a report does to the states: a record that is new, or was down, is at the start. -/
def Reported (cn cn' : Cn) : Prop :=
  ∀ k, stateAt cn' k = stateAt cn k ∨
    stateAt cn' k = some .init ∧ (stateAt cn k = none ∨ stateAt cn k = some .delFinish)

theorem reported_congr {cn cn' : Cn} (h : cn'.ncn = cn.ncn) : Reported cn cn' :=
  fun k => Or.inl (stateAt_congr h k)

theorem reported_modify {cn cn' : Cn} {k : ℕ} {f : NodeInfo → NodeInfo} (h : cn'.ncn = cn.ncn.modify k f)
    (hf : ∀ pnd, (f pnd).state = pnd.state ∨ (f pnd).state = .init ∧ pnd.state = .delFinish) :
    Reported cn cn' := by
  intro j
  rw [stateAt,stateAt,h,List.getElem?_modify]
  cases cn.ncn[j]? with
  | none => exact Or.inl rfl
  | some pnd =>
    by_cases hj : k = j
    · rcases hf pnd with he | ⟨he,hd⟩
      · exact Or.inl (by simp [hj,he])
      · exact Or.inr ⟨by simp [hj,he],Or.inr (by simp [hd])⟩
    · exact Or.inl (by simp [hj])

theorem reported_append {cn cn' : Cn} {pnd : NodeInfo} (h : cn'.ncn = cn.ncn ++ [pnd])
    (hp : pnd.state = .init) : Reported cn cn' := by
  intro j
  rw [stateAt,stateAt,h]
  by_cases hj : j < cn.ncn.length
  · exact Or.inl (by rw [List.getElem?_append_left hj])
  · have hout : cn.ncn[j]? = none := List.getElem?_eq_none (by omega)
    rw [List.getElem?_append_right (by omega),hout]
    cases hi : j-cn.ncn.length with
    | zero => exact Or.inr ⟨by simp [hp],Or.inl rfl⟩
    | succ i => exact Or.inl (by simp)

theorem renew_state (nindx : UInt8) (mac : Mac) (pnd : NodeInfo) :
    (renew nindx mac pnd).state = pnd.state ∨
      (renew nindx mac pnd).state = .init ∧ pnd.state = .delFinish := by
  by_cases h : pnd.state = .delFinish
  · exact Or.inr ⟨by simp [renew,h],h⟩
  · exact Or.inl (by simp [renew,h])

theorem reported_resNewCn (ok : Bool) (ptr : UnsetPtr) (cn : Cn) : Reported cn (resNewCn ok ptr cn) := by
  have hncn := resNewCn_ncn ok ptr cn
  cases ok with
  | false => exact reported_congr hncn
  | true => exact reported_append hncn rfl

theorem reported_resNewTn (ok : Bool) (ptr : UnsetPtr) (nindx : UInt8) (mac : Mac) (cn : Cn) :
    Reported cn (resNewTn ok ptr nindx mac cn) := by
  have hncn := resNewTn_ncn ok ptr nindx mac cn
  cases hf : cn.ncn.findIdx? fun pnd => pnd.mac = mac with
  | some i =>
    rw [hf] at hncn
    exact reported_modify hncn (renew_state nindx mac)
  | none =>
    rw [hf] at hncn
    cases ok with
    | false => exact reported_congr hncn
    | true => exact reported_append hncn rfl

theorem reported_resDeleteTn (nid : UInt8) (cn : Cn) : Reported cn (resDeleteTn nid cn) := by
  have hncn := resDeleteTn_ncn nid cn
  cases hf : cn.ncn.findIdx? fun pnd => pnd.nindx = nid with
  | some i =>
    rw [hf] at hncn
    exact reported_modify hncn fun _ => Or.inl rfl
  | none =>
    rw [hf] at hncn
    exact reported_congr hncn

/-! ### Work that waits -/

/-- The functions called in `CFG_NODE_WAIT_ACK`. -/
inductive Work
  | resId | rcv | trs | del
  deriving DecidableEq

namespace Work

def run : Work → Cn → NodeInfo → ℕ → Action
  | .resId => resDownloadResId
  | .rcv => resAddRcvRes
  | .trs => resAddTrsRes
  | .del => resDeleteNode

def stage : Work → Stage
  | .del => .offline
  | _ => .online

/-- The state it is called from. -/
def before : Work → ResStage
  | .resId => .downloadResId
  | .rcv => .addRcvRes
  | .trs => .addTrsRes
  | .del => .delRes

/-- The state it leaves when it succeeds. -/
def done : Work → ResStage
  | .resId => .addRcvRes
  | .rcv => .addTrsRes
  | .trs => .addFinish
  | .del => .delFinish

def cbk : Work → Cbk
  | .resId => .resId
  | .rcv => .addRcv
  | .trs => .addTrs
  | .del => .delRes

/-- It sends a request. -/
def asks : Work → Cn → NodeInfo → Bool
  | .resId, _, _ => true
  | .rcv, cn, pnd => getRcvResConfig cn.cfg cn.resState pnd.mac ≠ []
  | .trs, cn, pnd => getTrsResConfig cn.cfg pnd.mac ≠ [] ∧
      (placeTrs cn.cfg pnd.nindx cn.resState cn.resfrm (getTrsResConfig cn.cfg pnd.mac)).ok
  | .del, cn, pnd => getDelResConfig cn.cfg cn.resState pnd.mac ≠ [] ∧ isAckZero (broadcastFlags cn.ncn) ≠ 0

theorem cbk_ne_other (w : Work) : w.cbk ≠ .other := by cases w <;> decide

theorem done_ne_waitAck (w : Work) : w.done ≠ .waitAck := by cases w <;> decide

theorem before_inj {w v : Work} (h : w.before = v.before) : w = v := by
  cases w <;> cases v <;> first | rfl | cases h

theorem cbk_inj {w v : Work} (h : w.cbk = v.cbk) : w = v := by
  cases w <;> cases v <;> first | rfl | cases h

variable (cn : Cn) (pnd : NodeInfo) (k : ℕ)

/-- The functions change no record themselves. -/
theorem run_ncn (w : Work) : (w.run cn pnd k).cn.ncn = cn.ncn ∧ (w.run cn pnd k).cn.mac = cn.mac := by
  cases w with
  | resId => exact ⟨rfl,rfl⟩
  | rcv =>
    simp only [run,resAddRcvRes]
    split <;> exact ⟨rfl,rfl⟩
  | trs =>
    simp only [run,resAddTrsRes]
    split
    · exact ⟨rfl,rfl⟩
    · split <;> exact ⟨rfl,rfl⟩
  | del =>
    simp only [run,resDeleteNode]
    split
    · exact ⟨rfl,rfl⟩
    · split <;> exact ⟨rfl,rfl⟩

/-- What the function hands back when it has nothing to ask for. -/
structure Ends (w : Work) (a : Action) : Prop where
  state : a.state = some w.done
  req : a.req = none

/-- What it hands back when it asks. -/
structure Asks (w : Work) (k : ℕ) (q : Request) (a : Action) : Prop where
  state : a.state = none
  req : a.req.map Prod.fst = some q
  cbkf : q.cbkf = w.cbk
  parg : q.parg = k

theorem run_cases (w : Work) :
    (w.asks cn pnd = false ∧ Ends w (w.run cn pnd k)) ∨
      (w.asks cn pnd = true ∧ ∃ q, Asks w k q (w.run cn pnd k)) := by
  cases w with
  | resId => exact Or.inr ⟨rfl,_,rfl,rfl,rfl,rfl⟩
  | rcv =>
    by_cases h : getRcvResConfig cn.cfg cn.resState pnd.mac = []
    · left
      simp only [asks,run,resAddRcvRes,h,if_true,ne_eq,not_true_eq_false,decide_false,true_and]
      exact ⟨rfl,rfl⟩
    · right
      simp only [asks,run,resAddRcvRes,h,if_false,ne_eq,not_false_eq_true,decide_true,true_and]
      exact ⟨_,rfl,rfl,rfl,rfl⟩
  | trs =>
    by_cases h : getTrsResConfig cn.cfg pnd.mac = []
    · left
      simp only [asks,run,resAddTrsRes,h,if_true,ne_eq,not_true_eq_false,false_and,decide_false,true_and]
      exact ⟨rfl,rfl⟩
    · cases hp : (placeTrs cn.cfg pnd.nindx cn.resState cn.resfrm (getTrsResConfig cn.cfg pnd.mac)).ok with
      | false =>
        left
        simp only [asks,run,resAddTrsRes,h,hp,if_false,Bool.not_false,if_true,Bool.false_eq_true,
          and_false,decide_false,true_and]
        exact ⟨rfl,rfl⟩
      | true =>
        right
        simp only [asks,run,resAddTrsRes,h,hp,if_false,Bool.not_true,Bool.false_eq_true,ne_eq,
          not_false_eq_true,and_self,decide_true,true_and]
        exact ⟨_,rfl,rfl,rfl,rfl⟩
  | del =>
    by_cases h : getDelResConfig cn.cfg cn.resState pnd.mac = []
    · left
      simp only [asks,run,resDeleteNode,h,if_true,ne_eq,not_true_eq_false,false_and,decide_false,true_and]
      exact ⟨rfl,rfl⟩
    · by_cases hz : isAckZero (broadcastFlags cn.ncn) = 0
      · left
        simp only [asks,run,resDeleteNode,h,hz,if_false,if_true,ne_eq,not_true_eq_false,and_false,
          decide_false,true_and]
        exact ⟨rfl,rfl⟩
      · right
        simp only [asks,run,resDeleteNode,h,hz,if_false,ne_eq,not_false_eq_true,and_self,decide_true,
          true_and]
        exact ⟨_,rfl,rfl,rfl,rfl⟩

end Work

/-! ### Rounds -/

/-- What `await` leaves: the record is done, or it waits and its request was handed on. -/
inductive Awaited (env : Env) (w : Work) (pnd : NodeInfo) (s : Sys) : Sys → Prop
  | ends (cn : Cn) (ms : List Ctrl) :
      w.asks (setState s.cur .waitAck s.cn) pnd = false → cn.ncn = (setState s.cur w.done s.cn).ncn →
      cn.mac = s.cn.mac →
      Awaited env w pnd s {s with cn := cn,queue := s.queue ++ written env ms}
  | asks (cn : Cn) (ms : List Ctrl) (q : Request) (p : Payload) :
      w.asks (setState s.cur .waitAck s.cn) pnd = true → cn.ncn = (setState s.cur .waitAck s.cn).ncn →
      cn.mac = s.cn.mac →
      q.cbkf = w.cbk → q.parg = s.cur →
      (w = .trs → cn.ackFlag = broadcastFlags cn.ncn) →
      Awaited env w pnd s {s with
        cn := cn,queue := s.queue ++ written env ms ++ if env.rWrite then [.r q p] else []}

theorem Work.asks_state (w : Work) (cn : Cn) (pnd : NodeInfo) (st : ResStage) :
    w.asks cn {pnd with state := st} = w.asks cn pnd := by cases w <;> rfl

theorem Work.trs_ackFlag {cn : Cn} {pnd : NodeInfo} {k : ℕ} (h : Work.trs.asks cn pnd = true) :
    (Work.trs.run cn pnd k).cn.ackFlag = broadcastFlags cn.ncn := by
  simp only [Work.asks,decide_eq_true_eq] at h
  simp only [Work.run,resAddTrsRes,h.1,h.2,if_false,Bool.not_true,Bool.false_eq_true]
  rfl

theorem setState_setState (k : ℕ) (st st' : ResStage) (cn : Cn) :
    (setState k st' (setState k st cn)).ncn = (setState k st' cn).ncn := by
  apply List.ext_getElem?
  intro j
  simp only [setState_get,Option.map_map]
  congr 1
  funext pnd
  by_cases h : k = j <;> simp [h]

theorem setState_congr {cn cn' : Cn} (h : cn.ncn = cn'.ncn) (k : ℕ) (st : ResStage) :
    (setState k st cn).ncn = (setState k st cn').ncn := by rw [setState,setState,h]

theorem await_awaited {env : Env} {w : Work} {pnd : NodeInfo} {s t : Sys}
    (h : await env w.run pnd s = some t) : Awaited env w pnd s t := by
  let cn := setState s.cur .waitAck s.cn
  let a := w.run cn {pnd with state := .waitAck} s.cur
  have hncn : a.cn.ncn = cn.ncn ∧ a.cn.mac = cn.mac := Work.run_ncn ..
  rcases Work.run_cases cn {pnd with state := .waitAck} s.cur w with ⟨hask,he⟩ | ⟨hask,q,hq⟩
  · rw [await,perform,he.state,he.req] at h
    obtain rfl := Option.some.inj h
    rw [Work.asks_state] at hask
    exact .ends _ _ hask ((setState_congr hncn.1 _ _).trans (setState_setState ..)) hncn.2
  · obtain ⟨⟨q',p⟩,hreq,hfst⟩ := Option.map_eq_some_iff.mp hq.req
    cases hc : env.create with
    | false => simp [await,perform,cn,hreq,hc] at h
    | true =>
      rw [await,perform,hq.state,hreq] at h
      simp only [hc,Bool.not_true,Bool.false_eq_true,if_false,Option.some.injEq] at h
      subst h
      obtain rfl : q' = q := hfst
      rw [Work.asks_state] at hask
      refine .asks _ _ _ _ hask hncn.1 hncn.2 hq.cbkf hq.parg ?_
      rintro rfl
      rw [hncn.1]
      exact Work.trs_ackFlag (by rw [Work.asks_state];exact hask)

/-- What a round can do. -/
inductive Round (env : Env) (s : Sys) : Sys → Prop
  | skip :
      (∀ w : Work, ∀ pnd, s.stage = w.stage → s.cn.ncn[s.cur]? = some pnd → pnd.state ≠ w.before) →
      Round env s s
  | boot (k : ℕ) (cn : Cn) (ms : List Ctrl) (pnd : NodeInfo) :
      s.stage = .boot → s.cn.ncn[k]? = some pnd → pnd.role = 0 →
      cn.ncn = s.cn.ncn.modify k (fun pnd => {pnd with online := false,state := .addFinish}) →
      cn.mac = s.cn.mac →
      Round env s {s with
        cn := cn,queue := s.queue ++ written env ms,stage := .idle,pushflg := false}
  | join (k : ℕ) (pnd : NodeInfo) :
      s.stage = .idle → s.cn.ncn[k]? = some pnd → joins pnd = true →
      Round env s {update k (fun pnd => {pnd with online := false,state := .downloadResId}) s with
        stage := .online,cur := k}
  | leave (k : ℕ) (pnd : NodeInfo) :
      s.stage = .idle → s.cn.ncn[k]? = some pnd → leaves pnd = true →
      Round env s {update k (fun pnd => {pnd with offline := false,state := .delRes}) s with
        stage := .offline,cur := k}
  | push :
      s.stage = .idle → s.pushflg = true → (∀ pnd ∈ s.cn.ncn, joins pnd = false ∧ leaves pnd = false) →
      Round env s {s with pushflg := false,queue := s.queue ++ written env [.commit]}
  | work (w : Work) (pnd : NodeInfo) (t : Sys) :
      s.stage = w.stage → s.cn.ncn[s.cur]? = some pnd → pnd.state = w.before → Awaited env w pnd s t →
      Round env s t
  | finish (pnd : NodeInfo) :
      s.cn.ncn[s.cur]? = some pnd →
      (s.stage = .online ∧ pnd.state = .addFinish ∨ s.stage = .offline ∧ pnd.state = .delFinish) →
      Round env s {s with pushflg := true,stage := .idle}
  | fail (pnd : NodeInfo) :
      s.cn.ncn[s.cur]? = some pnd → (s.stage = .online ∨ s.stage = .offline) → pnd.state = .fail →
      Round env s {s with stage := .idle}

theorem resAddCn_spec (cn : Cn) (pnd : NodeInfo) :
    (resAddCn cn pnd).cn.ncn = cn.ncn ∧ (resAddCn cn pnd).cn.mac = cn.mac ∧ (resAddCn cn pnd).req = none ∧
      ((resAddCn cn pnd).state = none ∨ (resAddCn cn pnd).state = some .addFinish) := by
  rw [resAddCn]
  cases getNodeResId cn.cfg pnd.mac with
  | none => exact ⟨rfl,rfl,rfl,Or.inr rfl⟩
  | some nc => exact ⟨rfl,rfl,rfl,Or.inl rfl⟩

theorem bootRound_round {env : Env} {s t : Sys} (hs : s.stage = .boot) (h : bootRound env s = some t) :
    Round env s t := by
  rw [bootRound] at h
  cases hf : s.cn.ncn.findIdx? fun pnd => pnd.role = 0 ∧ pnd.online with
  | none =>
    rw [hf] at h
    obtain rfl := Option.some.inj h
    exact .skip fun w _ hw => absurd (hs.symm.trans hw) (by cases w <;> decide)
  | some k =>
    obtain ⟨hk,hp,-⟩ := List.findIdx?_eq_some_iff_getElem.mp hf
    have hget := List.getElem?_eq_getElem hk
    have hrole : (s.cn.ncn[k]).role = 0 := (of_decide_eq_true hp).1
    have hup : (update k (fun pnd => {pnd with online := false,state := .addFinish}) s).cn.ncn[k]? =
        some {s.cn.ncn[k] with online := false,state := .addFinish} := by
      rw [update,List.getElem?_modify,hget]
      simp
    simp only [hf,hup] at h
    obtain ⟨u,hu,rfl⟩ := Option.map_eq_some_iff.mp h
    obtain ⟨hncn,hmac,hreq,hst⟩ := resAddCn_spec
      (update k (fun pnd => {pnd with online := false,state := .addFinish}) s).cn
      {s.cn.ncn[k] with online := false,state := .addFinish}
    rcases hst with hst | hst
    · rw [perform,hreq,hst] at hu
      obtain rfl := Option.some.inj hu
      exact .boot k _ _ _ hs hget hrole hncn hmac
    · rw [perform,hreq,hst] at hu
      obtain rfl := Option.some.inj hu
      refine .boot k _ _ _ hs hget hrole ((setState_congr hncn k .addFinish).trans ?_) hmac
      rw [setState,update,List.modify_modify_eq]
      rfl

theorem idleRound_round {env : Env} {s : Sys} (hs : s.stage = .idle) : Round env s (idleRound env s) := by
  rw [idleRound]
  cases hf : s.cn.ncn.findIdx? fun pnd => joins pnd || leaves pnd with
  | some k =>
    obtain ⟨hk,hp,-⟩ := List.findIdx?_eq_some_iff_getElem.mp hf
    have hget := List.getElem?_eq_getElem hk
    cases hj : joins s.cn.ncn[k] with
    | true =>
      simp only [hget,Option.any_some,hj,if_true]
      exact .join k _ hs hget hj
    | false =>
      simp only [hget,Option.any_some,hj,Bool.false_eq_true,if_false]
      exact .leave k _ hs hget (by simpa [hj] using hp)
  | none =>
    cases hpush : s.pushflg with
    | false =>
      simp only [Bool.false_eq_true,if_false]
      exact .skip fun w _ hw => absurd (hs.symm.trans hw) (by cases w <;> decide)
    | true =>
      simp only [if_true]
      refine .push hs hpush fun pnd hpnd => ?_
      have hno := List.findIdx?_eq_none_iff.mp hf pnd hpnd
      simpa using hno

theorem managerRound_round {env : Env} {s t : Sys} (h : managerRound env s = some t) : Round env s t := by
  have idle : ∀ {pnd : NodeInfo} {g : Stage} {st : ResStage}, s.stage = g →
      s.cn.ncn[s.cur]? = some pnd → pnd.state = st → (∀ w : Work, w.stage = g → w.before ≠ st) →
      ∀ w : Work, ∀ pnd', s.stage = w.stage → s.cn.ncn[s.cur]? = some pnd' → pnd'.state ≠ w.before := by
    intro pnd g st hg hget hst hno w pnd' hw hget' hb
    obtain rfl := Option.some.inj (hget.symm.trans hget')
    exact hno w (hw.symm.trans hg) (hb.symm.trans hst)
  rw [managerRound] at h
  cases hs : s.stage with
  | boot =>
    rw [hs] at h
    exact bootRound_round hs h
  | idle =>
    rw [hs] at h
    obtain rfl := Option.some.inj h
    exact idleRound_round hs
  | online =>
    cases hget : s.cn.ncn[s.cur]? with
    | none =>
      simp only [hs,hget,Option.some.injEq] at h
      exact h ▸ .skip fun _ _ _ hp => by simp [hget] at hp
    | some pnd =>
      simp only [hs,hget,onlineRound] at h
      cases hst : pnd.state with
      | downloadResId =>
        rw [hst] at h
        exact .work .resId pnd t hs hget hst (await_awaited h)
      | addRcvRes =>
        rw [hst] at h
        exact .work .rcv pnd t hs hget hst (await_awaited h)
      | addTrsRes =>
        rw [hst] at h
        exact .work .trs pnd t hs hget hst (await_awaited h)
      | addFinish =>
        simp only [hst,Option.some.injEq] at h
        exact h ▸ .finish pnd hget (Or.inl ⟨hs,hst⟩)
      | fail =>
        simp only [hst,Option.some.injEq] at h
        exact h ▸ .fail pnd hget (Or.inl hs) hst
      | init | waitAck | delRes | delFinish =>
        simp only [hst,Option.some.injEq] at h
        exact h ▸ .skip (idle hs hget hst fun w => by cases w <;> decide)
  | offline =>
    cases hget : s.cn.ncn[s.cur]? with
    | none =>
      simp only [hs,hget,Option.some.injEq] at h
      exact h ▸ .skip fun _ _ _ hp => by simp [hget] at hp
    | some pnd =>
      simp only [hs,hget,offlineRound] at h
      cases hst : pnd.state with
      | delRes =>
        rw [hst] at h
        exact .work .del pnd t hs hget hst (await_awaited h)
      | delFinish =>
        simp only [hst,Option.some.injEq] at h
        exact h ▸ .finish pnd hget (Or.inr ⟨hs,hst⟩)
      | fail =>
        simp only [hst,Option.some.injEq] at h
        exact h ▸ .fail pnd hget (Or.inr hs) hst
      | init | waitAck | downloadResId | addRcvRes | addTrsRes | addFinish =>
        simp only [hst,Option.some.injEq] at h
        exact h ▸ .skip (idle hs hget hst fun w => by cases w <;> decide)

/-! ### Callbacks -/

/-- The acknowledgement bits after the callback. -/
def flagsAfter (q : Request) (ilen : ℕ) (ibuf : Option UInt8) (f : AckFlag) : AckFlag :=
  match q.cbkf, ibuf with
  | .addTrs, some b => if ilen ≠ 0 then clearBit f b else f
  | .delRes, some b => clearBit f b
  | _, _ => f

/-- The works that broadcast. -/
def Work.casts (w : Work) : Prop := w = .trs ∨ w = .del

/-- What a callback can do to the data: end the work, fail, or wait on. -/
inductive Called (q : Request) (ilen : ℕ) (ibuf : Option UInt8) (cn : Cn) : Cn × ℕ → Prop
  | done (w : Work) :
      q.cbkf = w.cbk → (w.casts → isAckZero (flagsAfter q ilen ibuf cn.ackFlag) = 0) →
      Called q ilen ibuf cn (setState q.parg w.done {cn with ackFlag := flagsAfter q ilen ibuf cn.ackFlag},0)
  | fail (w : Work) :
      q.cbkf = w.cbk → (w.casts → isAckZero cn.ackFlag ≠ 0) → (ibuf = none ∨ q.cbkf = .addTrs ∧ ilen = 0) →
      Called q ilen ibuf cn (setState q.parg .fail cn,1)
  | wait (w : Work) :
      q.cbkf = w.cbk → w.casts → ibuf ≠ none → isAckZero (flagsAfter q ilen ibuf cn.ackFlag) ≠ 0 →
      Called q ilen ibuf cn ({cn with ackFlag := flagsAfter q ilen ibuf cn.ackFlag},1)
  | other : q.cbkf = .other → Called q ilen ibuf cn (cn,0)

/-- A broadcast is over or waits on. -/
theorem finishBroadcast_called {q : Request} {ilen : ℕ} {b : UInt8} {cn : Cn} {w : Work}
    (hq : q.cbkf = w.cbk) (hw : w.casts) :
    Called q ilen (some b) cn
      (finishBroadcast q.parg w.done {cn with ackFlag := flagsAfter q ilen (some b) cn.ackFlag}) := by
  rw [finishBroadcast]
  by_cases hz : isAckZero (flagsAfter q ilen (some b) cn.ackFlag) = 0
  · rw [if_pos hz]
    exact .done w hq fun _ => hz
  · rw [if_neg hz]
    exact .wait w hq hw (Option.some_ne_none b) hz

/-- A broadcast without an answer ends either way. -/
theorem failBroadcast_called {q : Request} {ilen : ℕ} {ibuf : Option UInt8} {cn : Cn} {w : Work}
    (hq : q.cbkf = w.cbk) (hf : flagsAfter q ilen ibuf cn.ackFlag = cn.ackFlag)
    (hi : ibuf = none ∨ q.cbkf = .addTrs ∧ ilen = 0) :
    Called q ilen ibuf cn (finishBroadcast q.parg w.done (failBroadcast q.parg cn)) := by
  by_cases hz : isAckZero cn.ackFlag = 0
  · have hd : Called q ilen ibuf cn
        (setState q.parg w.done {cn with ackFlag := flagsAfter q ilen ibuf cn.ackFlag},0) :=
      .done w hq fun _ => hf.symm ▸ hz
    rw [hf] at hd
    simp only [finishBroadcast,failBroadcast,hz,ne_eq,not_true_eq_false,if_false,if_true]
    exact hd
  · have hz' : isAckZero (setState q.parg .fail cn).ackFlag ≠ 0 := hz
    simp only [finishBroadcast,failBroadcast,hz,hz',ne_eq,not_false_eq_true,if_true,if_false]
    exact .fail w hq (fun _ => hz) hi

theorem callCbk_called (q : Request) (ilen : ℕ) (ibuf : Option UInt8) (cn : Cn) :
    Called q ilen ibuf cn (callCbk q ilen ibuf cn) := by
  have hsame : ∀ w : Work, ¬w.casts → q.cbkf = w.cbk →
      Called q ilen ibuf cn (setState q.parg w.done cn,0) := by
    intro w hw hq
    have hd : Called q ilen ibuf cn
        (setState q.parg w.done {cn with ackFlag := flagsAfter q ilen ibuf cn.ackFlag},0) :=
      .done w hq fun hc => absurd hc hw
    have hf : flagsAfter q ilen ibuf cn.ackFlag = cn.ackFlag := by
      cases w with
      | resId | rcv => simp only [flagsAfter,hq,Work.cbk]
      | trs => exact absurd (Or.inl rfl) hw
      | del => exact absurd (Or.inr rfl) hw
    rwa [hf] at hd
  cases hq : q.cbkf with
  | other =>
    rw [callCbk,hq]
    exact .other hq
  | resId =>
    rw [callCbk,hq]
    cases ibuf with
    | none => exact .fail .resId hq (by rintro (h | h) <;> cases h) (Or.inl rfl)
    | some b => exact hsame .resId (by rintro (h | h) <;> cases h) hq
  | addRcv =>
    rw [callCbk,hq]
    cases ibuf with
    | none => exact .fail .rcv hq (by rintro (h | h) <;> cases h) (Or.inl rfl)
    | some b => exact hsame .rcv (by rintro (h | h) <;> cases h) hq
  | addTrs =>
    rw [callCbk,hq]
    cases ibuf with
    | none => exact failBroadcast_called (w:=.trs) hq (by simp only [flagsAfter,hq]) (Or.inl rfl)
    | some b =>
      by_cases hl : ilen ≠ 0
      · have hb := @finishBroadcast_called q ilen b cn .trs hq (Or.inl rfl)
        have hf : flagsAfter q ilen (some b) cn.ackFlag = clearBit cn.ackFlag b := by
          simp only [flagsAfter,hq,hl,if_true,not_false_eq_true,ne_eq]
        rw [hf] at hb
        simpa [resAddTrsRpcCbk,hl,Work.done] using hb
      · have hf : flagsAfter q ilen (some b) cn.ackFlag = cn.ackFlag := by
          simp only [flagsAfter,hq,hl,if_false]
        simp only [resAddTrsRpcCbk,hl,if_false]
        exact failBroadcast_called (w:=.trs) hq hf (Or.inr ⟨hq,by simpa using hl⟩)
  | delRes =>
    rw [callCbk,hq]
    cases ibuf with
    | none => exact failBroadcast_called (w:=.del) hq (by simp only [flagsAfter,hq]) (Or.inl rfl)
    | some b =>
      have hb := @finishBroadcast_called q ilen b cn .del hq (Or.inr rfl)
      have hf : flagsAfter q ilen (some b) cn.ackFlag = clearBit cn.ackFlag b := by
        simp only [flagsAfter,hq]
      rw [hf] at hb
      exact hb

/-- The request an answer is for. -/
def answered (srvid sessn : BitVec 32) (s : Sys) (i : ℕ) (q : Request) : Prop :=
  rpcReqSearch srvid sessn s.reqs = some i ∧ s.reqs[i]? = some q

/-- What is left of `req_list` after the callback of the request at position `i`. -/
def close (i ret : ℕ) (reqs : List Request) : List Request := if ret = 0 then reqs.eraseIdx i else reqs

theorem respond_cases (srvid sessn : BitVec 32) (ilen : ℕ) (node : UInt8) (s : Sys) :
    ((∀ i q, ¬answered srvid sessn s i q) ∧ respond srvid sessn ilen node s = s) ∨
      ∃ i q, answered srvid sessn s i q ∧ respond srvid sessn ilen node s = {s with
        cn := (callCbk q ilen (some node) s.cn).1,
        reqs := close i (callCbk q ilen (some node) s.cn).2 s.reqs} := by
  rw [respond]
  cases hf : rpcReqSearch srvid sessn s.reqs with
  | none => exact Or.inl ⟨fun i q h => (by cases hf.symm.trans h.1),rfl⟩
  | some i =>
    cases hq : s.reqs[i]? with
    | none =>
      left
      refine ⟨fun j q h => ?_,by simp only [hq]⟩
      obtain rfl := Option.some.inj (hf.symm.trans h.1)
      exact nomatch hq.symm.trans h.2
    | some q =>
      right
      refine ⟨i,q,⟨hf,hq⟩,?_⟩
      simp only [hq]
      rfl

/-- The request is given up when its timer runs out. -/
def expires (q : Request) (net : Send) : Bool := q.retry < 1 ∨ net ≠ .sent

theorem requestTout_cases {i : ℕ} {net : Send} {s t : Sys} (h : requestTout i net s = some t) :
    ∃ q, s.reqs[i]? = some q ∧
      ((expires q net = true ∧ ∃ r : ℤ, t = {s with
          cn := (callCbk {q with retry := r} 0 none s.cn).1,reqs := s.reqs.eraseIdx i}) ∨
        (expires q net = false ∧ t = {s with reqs := s.reqs.set i {q with retry := q.retry-1}})) := by
  rw [requestTout] at h
  cases hq : s.reqs[i]? with
  | none => simp [hq] at h
  | some q =>
    simp only [hq] at h
    refine ⟨q,rfl,?_⟩
    by_cases hr : q.retry-1 < 0
    · rw [if_pos hr] at h
      refine Or.inl ⟨?_,q.retry-1,(Option.some.inj h).symm⟩
      simp only [expires,decide_eq_true_eq]
      exact Or.inl (by omega)
    · rw [if_neg hr] at h
      by_cases hn : net ≠ .sent
      · rw [if_pos hn] at h
        refine Or.inl ⟨?_,q.retry-1,(Option.some.inj h).symm⟩
        simp only [expires,decide_eq_true_eq]
        exact Or.inr hn
      · rw [if_neg hn] at h
        refine Or.inr ⟨?_,(Option.some.inj h).symm⟩
        simp only [expires,decide_eq_false_iff_not,not_or]
        exact ⟨by omega,hn⟩

theorem rpcRequestSend_cases {env : SendEnv} {q : Request} {reqs : List Request} {x : ℕ × List Request}
    (h : rpcRequestSend env q reqs = some x) :
    (env.malloc = true ∧ env.net = .sent ∧ x.2 = {q with armed := true}::reqs) ∨
      (¬(env.malloc = true ∧ env.net = .sent) ∧ x.2 = reqs) := by
  rw [rpcRequestSend] at h
  cases hm : env.malloc with
  | false =>
    simp only [hm,Bool.not_false,if_true,Option.some.injEq] at h
    exact Or.inr ⟨by simp,h ▸ rfl⟩
  | true =>
    by_cases hn : env.net = .sent
    · cases ht : env.timer with
      | false => simp [hm,hn,ht] at h
      | true =>
        simp only [hm,hn,ht,Bool.not_true,Bool.false_eq_true,if_false,ne_eq,not_true_eq_false,
          Option.some.injEq] at h
        exact Or.inl ⟨rfl,hn,h ▸ rfl⟩
    · simp only [hm,hn,Bool.not_true,Bool.false_eq_true,if_false,ne_eq,not_false_eq_true,if_true,
        Option.some.injEq] at h
      exact Or.inr ⟨by simp [hn],h ▸ rfl⟩

theorem resmsgProc_spec {env : SendEnv} {s t : Sys} (h : resmsgProc env s = some t) :
    ∃ queue reqs, t = {s with queue := queue,reqs := reqs} := by
  rw [resmsgProc] at h
  split at h
  · cases h
  · exact ⟨_,_,(Option.some.inj h).symm⟩
  · obtain ⟨x,-,rfl⟩ := Option.map_eq_some_iff.mp h
    exact ⟨_,_,rfl⟩

/-- A request of the other thread itself takes a session number, and is bound to no record. -/
theorem rpcOther_spec {create : Bool} {dnode : UInt8} {srvid : BitVec 32} {retry : ℤ} {env : SendEnv}
    {s t : Sys} (h : rpcOther create dnode srvid retry env s = some t) :
    ∃ reqs, t = {s with cn := {s.cn with reqSessn := s.cn.reqSessn+1},reqs := reqs} ∧
      (reqs = s.reqs ∨ ∃ q, q.cbkf = .other ∧ reqs = q::s.reqs) := by
  cases hc : create with
  | false => simp [rpcOther,hc] at h
  | true =>
    simp only [rpcOther,hc,Bool.not_true,Bool.false_eq_true,if_false] at h
    obtain ⟨x,hx,rfl⟩ := Option.map_eq_some_iff.mp h
    refine ⟨x.2,rfl,?_⟩
    rcases rpcRequestSend_cases hx with ⟨-,-,hr⟩ | ⟨-,hr⟩
    · exact Or.inr ⟨_,rfl,hr⟩
    · exact Or.inl hr

end Manager
end Autbus
