import Autbus.Underway

/-! What the TNs receive. The CN decides at the join of a TN, from its tables; the TN decides
about every later join and departure, from what it has taken over. -/
namespace Autbus
namespace Receivers

open ResTables Nodes Services Reception Assignment Network Underway Trace
open Placement (Active Enabled mem_enabledTrs mem_nodeTrsIds_ne)
open Edits (Sound)
open Manager (Work Sys Msg Turn Booted joins leaves isDown setState_get modify_get append_get)

/-- A TN that has its configuration and is not reported lost. -/
def Live (s : Net) (pnd : NodeInfo) : Prop :=
  pnd.role ≠ 0 ∧ pnd.offline = false ∧
    (reached s pnd = .addRcvRes ∨ reached s pnd = .addTrsRes ∨ reached s pnd = .addFinish)

instance (s : Net) (pnd : NodeInfo) : Decidable (Live s pnd) := by
  unfold Live; infer_instance

/-- While the manager is idle, every TN in `CFG_NODE_ADD_FINISH` that is not reported lost has
exactly those receive resources installed that the configuration assigns to it. -/
def Agreed (s : Net) : Prop :=
  s.sys.stage = .idle → ∀ pnd ∈ s.sys.cn.ncn, pnd.role ≠ 0 → pnd.offline = false →
    pnd.state = .addFinish → ∃ tn, s.tns pnd.nindx = some tn ∧ tn.mac = pnd.mac ∧
      installed tn.bside = assigned s.sys.cn.cfg s.sys.cn.resState pnd.mac

/-! ### Conditions on the steps -/

/-- A new TN is reported under an id and a MAC that no live record and not the CN holds. -/
structure NewOk (s : Net) (nid : UInt8) (mac : Mac) : Prop where
  proper : nid ≠ 0 ∧ nid ≠ 0xFF
  free : ∀ pnd ∈ s.sys.cn.ncn, pnd.mac = mac ∨ pnd.nindx = nid → pnd.role ≠ 0 ∧ ¬Live s pnd

/-- The record that a lost report is filed under is that of the TN that is lost. -/
def LostOk (s : Net) (nid : UInt8) : Prop :=
  ∀ tn, s.tns nid = some tn → ∀ pnd, (s.sys.cn.ncn.find? fun p => p.nindx = nid) = some pnd →
    pnd.mac = tn.mac

/-- What the manager's function for the record needs: at `0x14` the list is not cut off, at
`0x13` no allocation fails behind one that went well. -/
def AskOk (s : Net) (pnd : NodeInfo) : Work → Prop
  | .rcv => rcvCount s.sys.cn.cfg s.sys.cn.resState pnd.mac ≤ maxRcvResCnt
  | .trs => refused s.sys.cn.resfrm (getTrsResConfig s.sys.cn.cfg pnd.mac) = true ∨
      hasRoom s.sys.cn.resfrm (getTrsResConfig s.sys.cn.cfg pnd.mac) = true
  | .resId | .del => True

/-- A configured TN with the id is the node's. -/
def Alone (s : Net) (nid : UInt8) (mac : Mac) : Prop :=
  ∀ tn, s.tns nid = some tn → tn.state = resNodeCfg → tn.mac = mac

/-- The other live TNs decide about the resources of the node as the CN does. -/
def Hear (s : Net) (mac : Mac) (ids : List UInt8) : Prop :=
  ∀ p ∈ s.sys.cn.ncn, Live s p → p.mac ≠ mac → ∀ tn, s.tns p.nindx = some tn →
    ∀ r ∈ ids, Agree s.sys.cn.cfg tn r

/-- None of the resources lies where another one lies that a live TN keeps. -/
def Leaves (s : Net) (mac : Mac) (ids : List UInt8) : Prop :=
  ∀ p ∈ s.sys.cn.ncn, Live s p → p.mac ≠ mac → Apart s.sys.cn.cfg s.sys.cn.resState p.mac ids

/-- What a request needs when it goes out for the record: at `0x12` it gets to the node's TN or
to none, and nothing is installed there that is not due; at the others no other TN takes itself
for the node, the live TNs decide as the CN does, and those that a departure is told to keep
what they are to keep. -/
def SendOk (s : Net) (pnd : NodeInfo) (q : Request) : Payload → Prop
  | .resId _ => ∀ tn, s.tns q.dstnd = some tn → tn.mac = pnd.mac ∧ q.dstnd = pnd.nindx ∧
      installed tn.bside ⊆ assigned s.sys.cn.cfg s.sys.cn.resState tn.mac
  | .rcv _ => Alone s q.dstnd pnd.mac
  | .trs res => Alone s res.snode pnd.mac ∧ Hear s pnd.mac (res.res.map TrsResData.resid)
  | .del res => Alone s res.snode pnd.mac ∧ Hear s pnd.mac (res.res.map DelResData.resid) ∧
      Leaves s pnd.mac (res.res.map DelResData.resid)

/-- The record that has the turn gets what the manager's function for it needs. -/
def RoundOk (s : Net) : Prop :=
  ∀ pnd, s.sys.cn.ncn[s.sys.cur]? = some pnd → ∀ w : Work, s.sys.stage = w.stage → pnd.state = w.before → AskOk s pnd w

/-- So does the request that is first in the queue. -/
def HeadOk (s : Net) : Option Msg → Prop
  | some (.r q p) => ∀ pnd, s.sys.cn.ncn[s.sys.cur]? = some pnd → SendOk s pnd q p
  | _ => True

def Guard (_ : List Event) (s : Net) : Event → Prop
  | .cnOnline _ => ∀ pnd ∈ s.sys.cn.ncn, pnd.mac ≠ s.sys.cn.mac
  | .newTn nid tn _ => NewOk s nid tn.mac
  | .lost nid => LostOk s nid
  | .round => RoundOk s
  | .send _ => HeadOk s s.sys.queue.head?
  | .answer _ | .timeout _ _ => True

section Check

instance decideSome {α : Type} (o : Option α) (P : α → Prop) [DecidablePred P] : Decidable (∀ x, o = some x → P x) :=
  match o with
  | none => isTrue fun _ h => nomatch h
  | some a => decidable_of_iff (P a) ⟨fun h _ he => Option.some.inj he ▸ h,fun h => h a rfl⟩

instance decideWork (P : Work → Prop) [DecidablePred P] : Decidable (∀ w, P w) :=
  decidable_of_iff (P .resId ∧ P .rcv ∧ P .trs ∧ P .del)
    ⟨fun h w => by cases w <;> tauto,fun h => ⟨h _,h _,h _,h _⟩⟩

variable (s : Net)

instance (nid : UInt8) (mac : Mac) : Decidable (NewOk s nid mac) :=
  decidable_of_iff ((nid ≠ 0 ∧ nid ≠ 0xFF) ∧
    ∀ pnd ∈ s.sys.cn.ncn, pnd.mac = mac ∨ pnd.nindx = nid → pnd.role ≠ 0 ∧ ¬Live s pnd)
    ⟨fun h => ⟨h.1,h.2⟩,fun h => ⟨h.proper,h.free⟩⟩

instance (nid : UInt8) : Decidable (LostOk s nid) := by unfold LostOk; infer_instance

instance (pnd : NodeInfo) (w : Work) : Decidable (AskOk s pnd w) := by
  cases w <;> unfold AskOk <;> infer_instance

instance (nid : UInt8) (mac : Mac) : Decidable (Alone s nid mac) := by unfold Alone; infer_instance

instance (mac : Mac) (ids : List UInt8) : Decidable (Hear s mac ids) := by
  unfold Hear
  letI : ∀ tn, Decidable (∀ r ∈ ids, Agree s.sys.cn.cfg tn r) := fun _ => List.decidableBAll _ _
  infer_instance

instance (mac : Mac) (ids : List UInt8) : Decidable (Leaves s mac ids) := by unfold Leaves; infer_instance

instance (pnd : NodeInfo) (q : Request) (p : Payload) : Decidable (SendOk s pnd q p) := by
  cases p <;> unfold SendOk <;> infer_instance

instance : Decidable (RoundOk s) := by unfold RoundOk; infer_instance

instance (m : Option Msg) : Decidable (HeadOk s m) :=
  match m with
  | none => isTrue trivial
  | some (.c _) => isTrue trivial
  | some (.r q p) => inferInstanceAs (Decidable (∀ pnd, s.sys.cn.ncn[s.sys.cur]? = some pnd → SendOk s pnd q p))

instance (es : List Event) (e : Event) : Decidable (Guard es s e) := by
  cases e <;> unfold Guard <;> infer_instance

end Check

/-- Nothing has happened yet, and the configuration is sound. -/
structure Start (s : Net) : Prop where
  booted : Booted s.sys
  sound : Sound s.sys.cn.cfg
  table : ∀ r, Enabled s.sys.cn.cfg r → r < 254
  inactive : ∀ r, ¬Active s.sys.cn.resState r
  preset : s.sys.cn.preRes.state ≠ 1
  tns : ∀ n, s.tns n = none
  air : s.air = []

/-! ### The records -/

/-- What the list of the records has in it: each MAC once, and ids that TNs can have. -/
structure Roster (s : Sys) : Prop where
  macs : (s.cn.ncn.map NodeInfo.mac).Nodup
  ids : ∀ pnd ∈ s.cn.ncn, pnd.role ≠ 0 → pnd.nindx ≠ 0 ∧ pnd.nindx ≠ 0xFF
  cn : ∀ pnd ∈ s.cn.ncn, pnd.role = 0 → pnd.state = .init ∨ pnd.state = .addFinish
  boot : s.stage = .boot → ∀ pnd ∈ s.cn.ncn, pnd.state = .init

theorem Roster.unique {s : Sys} (h : Roster s) {j k : ℕ} {p q : NodeInfo} (hj : s.cn.ncn[j]? = some p)
    (hk : s.cn.ncn[k]? = some q) (hm : p.mac = q.mac) : j = k := by
  obtain ⟨hlj,hpj⟩ := List.getElem?_eq_some_iff.mp hj
  obtain ⟨hlk,hpk⟩ := List.getElem?_eq_some_iff.mp hk
  have hlj' : j < (s.cn.ncn.map NodeInfo.mac).length := by simpa using hlj
  have hlk' : k < (s.cn.ncn.map NodeInfo.mac).length := by simpa using hlk
  have hmacs : (s.cn.ncn.map NodeInfo.mac)[j] = (s.cn.ncn.map NodeInfo.mac)[k] := by
    rw [List.getElem_map,List.getElem_map,hpj,hpk,hm]
  exact h.macs.getElem_inj_iff.mp hmacs

/-- A MAC names one record. -/
theorem Roster.inj {s : Sys} (h : Roster s) {p q : NodeInfo} (hp : p ∈ s.cn.ncn) (hq : q ∈ s.cn.ncn)
    (hm : p.mac = q.mac) : p = q := by
  obtain ⟨j,hj⟩ := List.mem_iff_getElem?.mp hp
  obtain ⟨k,hk⟩ := List.mem_iff_getElem?.mp hq
  have hjk := h.unique hj hk hm
  rw [hjk,hk] at hj
  exact (Option.some.inj hj).symm

theorem macs_modify {l : List NodeInfo} {k : ℕ} {f : NodeInfo → NodeInfo}
    (h : ∀ pnd, l[k]? = some pnd → (f pnd).mac = pnd.mac) :
    (l.modify k f).map NodeInfo.mac = l.map NodeInfo.mac := by
  apply List.ext_getElem?
  intro j
  rw [List.getElem?_map,List.getElem?_map,List.getElem?_modify]
  cases hj : l[j]? with
  | none => rfl
  | some pnd =>
    by_cases hk : k = j
    · subst hk
      simp [h pnd hj]
    · simp [hk]

theorem mem_modify {l : List NodeInfo} {k : ℕ} {f : NodeInfo → NodeInfo} {q : NodeInfo} (h : q ∈ l.modify k f) :
    (∃ p, l[k]? = some p ∧ f p = q) ∨ ∃ j, j ≠ k ∧ l[j]? = some q := by
  obtain ⟨j,hj⟩ := List.mem_iff_getElem?.mp h
  rcases modify_get hj with ⟨rfl,p,hp,hq⟩ | ⟨hne,hj⟩
  · exact Or.inl ⟨p,hp,hq⟩
  · exact Or.inr ⟨j,fun he => hne he.symm,hj⟩

/-- The record at one position changes, and keeps its MAC. -/
theorem Roster.modify {s t : Sys} (h : Roster s) {k : ℕ} {f : NodeInfo → NodeInfo}
    (hncn : t.cn.ncn = s.cn.ncn.modify k f)
    (hf : ∀ pnd, s.cn.ncn[k]? = some pnd → (f pnd).mac = pnd.mac ∧
      ((f pnd).role ≠ 0 → (f pnd).nindx ≠ 0 ∧ (f pnd).nindx ≠ 0xFF) ∧
      ((f pnd).role = 0 → (f pnd).state = .init ∨ (f pnd).state = .addFinish) ∧
      (t.stage = .boot → (f pnd).state = .init))
    (hboot : t.stage = .boot → s.stage = .boot) : Roster t := by
  refine ⟨?_,?_,?_,?_⟩
  · rw [hncn,macs_modify fun pnd hp => (hf pnd hp).1]
    exact h.macs
  · intro pnd hm hr
    rw [hncn] at hm
    rcases mem_modify hm with ⟨p,hp,rfl⟩ | ⟨j,-,hj⟩
    · exact (hf p hp).2.1 hr
    · exact h.ids pnd (List.mem_of_getElem? hj) hr
  · intro pnd hm hr
    rw [hncn] at hm
    rcases mem_modify hm with ⟨p,hp,rfl⟩ | ⟨j,-,hj⟩
    · exact (hf p hp).2.2.1 hr
    · exact h.cn pnd (List.mem_of_getElem? hj) hr
  · intro hb pnd hm
    rw [hncn] at hm
    rcases mem_modify hm with ⟨p,hp,rfl⟩ | ⟨j,-,hj⟩
    · exact (hf p hp).2.2.2 hb
    · exact h.boot (hboot hb) pnd (List.mem_of_getElem? hj)

/-- A record is added for a MAC that has none. -/
theorem Roster.append {s t : Sys} (h : Roster s) {new : NodeInfo} (hncn : t.cn.ncn = s.cn.ncn ++ [new])
    (hmac : ∀ pnd ∈ s.cn.ncn, pnd.mac ≠ new.mac) (hids : new.role ≠ 0 → new.nindx ≠ 0 ∧ new.nindx ≠ 0xFF)
    (hst : new.state = .init) (hs : t.stage = s.stage) : Roster t := by
  have hmem : ∀ {pnd : NodeInfo}, pnd ∈ t.cn.ncn → pnd ∈ s.cn.ncn ∨ pnd = new := by
    intro pnd hm
    rw [hncn] at hm
    exact (List.mem_append.mp hm).imp_right List.mem_singleton.mp
  refine ⟨?_,?_,?_,?_⟩
  · rw [hncn,List.map_append]
    refine List.nodup_append.mpr ⟨h.macs,List.nodup_singleton _,?_⟩
    intro m hm m' hm' he
    obtain ⟨pnd,hp,rfl⟩ := List.mem_map.mp hm
    exact hmac pnd hp (he.trans (List.mem_singleton.mp hm'))
  · intro pnd hm hr
    rcases hmem hm with hm | rfl
    · exact h.ids pnd hm hr
    · exact hids hr
  · intro pnd hm hr
    rcases hmem hm with hm | rfl
    · exact h.cn pnd hm hr
    · exact Or.inl hst
  · intro hb pnd hm
    rcases hmem hm with hm | rfl
    · exact h.boot (hs ▸ hb) pnd hm
    · exact hst

theorem Roster.congr {s t : Sys} (h : Roster s) (hncn : t.cn.ncn = s.cn.ncn)
    (hs : t.stage = .boot → s.stage = .boot) : Roster t := by
  refine ⟨?_,?_,?_,fun hb => ?_⟩
  · rw [hncn]
    exact h.macs
  · rw [hncn]
    exact h.ids
  · rw [hncn]
    exact h.cn
  · rw [hncn]
    exact h.boot (hs hb)

/-- A record with work to do is a TN's. -/
theorem Roster.role {s : Sys} (h : Roster s) {w : Work} {pnd : NodeInfo} (hm : pnd ∈ s.cn.ncn)
    (hst : pnd.state = w.before) : pnd.role ≠ 0 := by
  intro h0
  have hcn := h.cn pnd hm h0
  rw [hst] at hcn
  cases w <;> rcases hcn with hcn | hcn <;> cases hcn

/-! ### What the live TNs have installed -/

/-- A live TN has the CN's view of it and nothing installed that is not due; when it has got
its list everything that is due is installed. -/
structure Serves (cfg : ResmgrConfig) (rs : ResStateTbl) (mac : Mac) (full : Prop) (tn : TnCtx) : Prop where
  same : tn.mac = mac
  holds : Holds cfg tn
  sub : installed tn.bside ⊆ assigned cfg rs mac
  full : full → assigned cfg rs mac ⊆ installed tn.bside

/-- The stages in which the manager has placed nothing for the node. -/
def Unplaced (st : ResStage) : Prop :=
  st = .init ∨ st = .downloadResId ∨ st = .addRcvRes ∨ st = .addTrsRes ∨ st = .delFinish

/-- The tables: an active resource is an enabled one of a node on record, and not of one that
has not got to its `0x13`. -/
structure Tables (s : Net) : Prop where
  preset : s.sys.cn.preRes.state ≠ 1
  sound : Sound s.sys.cn.cfg
  table : ∀ r, Enabled s.sys.cn.cfg r → r < 254
  owned : ∀ r, Active s.sys.cn.resState r → Enabled s.sys.cn.cfg r ∧
    ∃ m ∈ s.sys.cn.ncn.map NodeInfo.mac, r ∈ nodeTrsIds s.sys.cn.cfg m
  unplaced : ∀ pnd ∈ s.sys.cn.ncn, pnd.role ≠ 0 → Unplaced (reached s pnd) →
    ∀ r ∈ nodeTrsIds s.sys.cn.cfg pnd.mac, ¬Active s.sys.cn.resState r

/-- What a request in the queue says about the record it is for. -/
inductive Posted (s : Net) (pnd : NodeInfo) (q : Request) : Payload → Prop
  | resId :
      q.srvid = 0x12 → q.cbkf = .resId → q.dstnd ≠ 0xFF →
      Posted s pnd q (.resId (configFor s.sys.cn.cfg pnd.mac))
  | rcv (res : Fixres RcvResData) :
      q.srvid = 0x14 → q.cbkf = .addRcv → q.dstnd ≠ 0xFF → (Live s pnd → q.dstnd = pnd.nindx) →
      res.res.length < 256 →
      (res.res.map rcvPlace).toFinset = assigned s.sys.cn.cfg s.sys.cn.resState pnd.mac →
      Posted s pnd q (.rcv res)
  | trs (res : Fixres TrsResData) (ids : List UInt8) :
      q.srvid = 0x13 → q.cbkf = .addTrs → q.dstnd = 0xFF → (Live s pnd → res.snode = pnd.nindx) →
      res.res.length < 256 →
      (∀ r ∈ ids, r ∈ nodeTrsIds s.sys.cn.cfg pnd.mac ∧ r ∈ tblIds ∧ Active s.sys.cn.resState r) →
      (res.res.map fun t => (t.resid,t.send2all,trsPlace t)) =
        (ids.map fun r => (r,(s.sys.cn.cfg.resCfgTbl r).send2all,place s.sys.cn.cfg s.sys.cn.resState r)) →
      Posted s pnd q (.trs res)
  | del (res : Fixres DelResData) (ids : List UInt8) :
      q.srvid = 0x15 → q.cbkf = .delRes → q.dstnd = 0xFF → res.res.length < 256 →
      (∀ r ∈ ids, r ∈ nodeTrsIds s.sys.cn.cfg pnd.mac ∧ (s.sys.cn.resState r).state = 0) →
      res.res = ids.map (delEntry s.sys.cn.cfg s.sys.cn.resState) → Posted s pnd q (.del res)

structure Inv (s : Net) : Prop where
  turn : Turn s.sys
  roster : Roster s.sys
  tables : Tables s
  names : ∀ n tn, s.tns n = some tn → tn.nodeid = n
  air : ∀ a ∈ s.air, a.ilen ≠ 0
  posted : ∀ x ∈ posted s.sys.queue, ∃ pnd, s.sys.cn.ncn[s.sys.cur]? = some pnd ∧ Posted s pnd x.1 x.2
  live : ∀ pnd ∈ s.sys.cn.ncn, Live s pnd → ∃ tn, s.tns pnd.nindx = some tn ∧
    Serves s.sys.cn.cfg (told s.sys) pnd.mac (reached s pnd ≠ .addRcvRes) tn

theorem Posted.cbkf {s : Net} {pnd : NodeInfo} {q : Request} {p : Payload} (h : Posted s pnd q p) :
    q.cbkf ≠ .other := by
  cases h with
  | resId _ hc => rw [hc]; decide
  | rcv _ _ hc => rw [hc]; decide
  | trs _ _ _ hc => rw [hc]; decide
  | del _ _ _ hc => rw [hc]; decide

theorem Inv.asked {s : Net} (h : Inv s) : ∀ x ∈ Network.posted s.sys.queue, x.1.cbkf ≠ .other := by
  intro x hx
  obtain ⟨pnd,-,hp⟩ := h.posted x hx
  exact hp.cbkf

/-- Nothing in the queue and nothing sent. -/
theorem posted_nil {s : Net} (h : Inv s) (hj : Manager.jobs s.sys.queue s.sys.reqs = []) :
    Network.posted s.sys.queue = [] := by
  cases hp : Network.posted s.sys.queue with
  | nil => rfl
  | cons x l =>
    have hx : x ∈ Network.posted s.sys.queue := by
      rw [hp]
      exact List.mem_cons_self
    have ho := out_posted h.turn h.asked hx
    rw [out_nil hj] at ho
    cases ho

theorem Inv.agreed {s : Net} (h : Inv s) : Agreed s := by
  intro hidle pnd hp hr ho hst
  have hne : pnd.state ≠ .waitAck := by
    rw [hst]
    decide
  have hreach : reached s pnd = .addFinish := (reached_of_ne hne).trans hst
  have htold : told s.sys = s.sys.cn.resState := told_nil (posted_nil h (h.turn.idle_of_stage (Or.inr hidle)))
  obtain ⟨tn,htn,hs⟩ := h.live pnd hp ⟨hr,ho,Or.inr (Or.inr hreach)⟩
  have hfull : reached s pnd ≠ .addRcvRes := by
    rw [hreach]
    decide
  rw [htold] at hs
  exact ⟨tn,htn,hs.same,Finset.Subset.antisymm hs.sub (hs.full hfull)⟩

theorem Tables.active_tbl {s : Net} (h : Tables s) (r : UInt8) (ha : Active s.sys.cn.resState r) : r ∈ tblIds := by
  obtain ⟨he,m,-,hm⟩ := h.owned r ha
  exact mem_tblIds.mpr ⟨mem_nodeTrsIds_ne hm,h.table r he⟩

theorem start_inv {s : Net} (h : Start s) : Inv s := by
  have hno : ∀ pnd, pnd ∉ s.sys.cn.ncn := by
    intro pnd hp
    rw [h.booted.ncn] at hp
    cases hp
  refine ⟨Manager.booted_turn h.booted,⟨?_,?_,?_,?_⟩,⟨h.preset,h.sound,h.table,?_,?_⟩,?_,?_,?_,?_⟩
  · rw [h.booted.ncn]
    exact List.nodup_nil
  · exact fun pnd hp => absurd hp (hno pnd)
  · exact fun pnd hp => absurd hp (hno pnd)
  · exact fun _ pnd hp => absurd hp (hno pnd)
  · exact fun r hr => absurd hr (h.inactive r)
  · exact fun pnd hp => absurd hp (hno pnd)
  · intro n tn hn
    rw [h.tns n] at hn
    cases hn
  · intro a ha
    rw [h.air] at ha
    cases ha
  · intro x hx
    rw [h.booted.queue] at hx
    cases hx
  · exact fun pnd hp => absurd hp (hno pnd)

/-! ### What keeps the invariant -/

theorem step_turn {s t : Net} {e : Event} (h : Inv s) (hs : step s e = some t) : Turn t.sys := by
  obtain ⟨m,sys,hm,hsys,-,ht⟩ := step_cases hs
  rw [ht]
  refine @Manager.step_turn [] _ _ _ h.turn ?_ hsys
  cases e with
  | answer i =>
    obtain ⟨a,ha,rfl⟩ := Option.map_eq_some_iff.mp hm
    exact fun _ _ _ _ h0 => absurd h0 (h.air a (List.mem_of_getElem? ha))
  | _ =>
    obtain rfl := Option.some.inj hm
    trivial

/-- What is in the queue is the same, and says the same about the record. -/
theorem Posted.congr {s t : Net} {p p' : NodeInfo} {q : Request} {x : Payload} (h : Posted s p q x)
    (ht : SameTables s.sys.cn t.sys.cn) (hm : p'.mac = p.mac) (hl : Live t p' → Live s p ∧ p'.nindx = p.nindx) :
    Posted t p' q x := by
  cases h with
  | resId h1 h2 h3 =>
    rw [← hm,← ht.cfg]
    exact .resId h1 h2 h3
  | rcv res h1 h2 h3 h4 h5 h6 =>
    refine .rcv res h1 h2 h3 (fun hl' => ?_) h5 ?_
    · rw [(hl hl').2]
      exact h4 (hl hl').1
    · rw [ht.cfg,ht.resState,hm]
      exact h6
  | trs res ids h1 h2 h3 h4 h5 h6 h7 =>
    refine .trs res ids h1 h2 h3 (fun hl' => ?_) h5 ?_ ?_
    · rw [(hl hl').2]
      exact h4 (hl hl').1
    · rw [ht.cfg,ht.resState,hm]
      exact h6
    · rw [ht.cfg,ht.resState]
      exact h7
  | del res ids h1 h2 h3 h4 h5 h6 =>
    refine .del res ids h1 h2 h3 h4 ?_ ?_
    · rw [ht.cfg,ht.resState,hm]
      exact h5
    · rw [ht.cfg,ht.resState]
      exact h6

/-- The tables when what is active is the same. -/
theorem Tables.congr {s t : Net} (h : Tables s) (ht : SameTables s.sys.cn t.sys.cn)
    (hmacs : ∀ m ∈ s.sys.cn.ncn.map NodeInfo.mac, m ∈ t.sys.cn.ncn.map NodeInfo.mac)
    (hun : ∀ pnd ∈ t.sys.cn.ncn, pnd.role ≠ 0 → Unplaced (reached t pnd) →
      ∀ r ∈ nodeTrsIds s.sys.cn.cfg pnd.mac, ¬Active s.sys.cn.resState r) : Tables t := by
  refine ⟨?_,?_,?_,?_,?_⟩
  · rw [ht.preRes]
    exact h.preset
  · rw [ht.cfg]
    exact h.sound
  · rw [ht.cfg]
    exact h.table
  · rw [ht.cfg,ht.resState]
    intro r hr
    obtain ⟨he,m,hm,hl⟩ := h.owned r hr
    exact ⟨he,m,hmacs m hm,hl⟩
  · rw [ht.cfg,ht.resState]
    exact hun

/-- A record `q` that comes from the record `p`: it is live only if that one was, and its TN has
not changed then. -/
structure From (s t : Net) (p q : NodeInfo) : Prop where
  mac : q.mac = p.mac
  role : q.role ≠ 0 → p.role ≠ 0
  unplaced : Unplaced (reached t q) → Unplaced (reached s p)
  live : Live t q → Live s p ∧ q.nindx = p.nindx ∧ t.tns q.nindx = s.tns p.nindx ∧
    (reached t q ≠ .addRcvRes → reached s p ≠ .addRcvRes)

/-- A record whose state goes where the record has been already. -/
theorem From.of_reached {s t : Net} {p q : NodeInfo} (hm : q.mac = p.mac) (hr : q.role = p.role)
    (hn : q.nindx = p.nindx) (ho : q.offline = false → p.offline = false) (hreach : reached t q = reached s p)
    (ht : Live s p → t.tns p.nindx = s.tns p.nindx) : From s t p q := by
  refine ⟨hm,fun h => hr ▸ h,fun h => hreach ▸ h,fun hl => ?_⟩
  obtain ⟨hl1,hl2,hl3⟩ := hl
  have hls : Live s p := ⟨hr ▸ hl1,ho hl2,hreach ▸ hl3⟩
  exact ⟨hls,hn,hn ▸ ht hls,fun h => hreach ▸ h⟩

/-- A record that is out of the joins now. -/
theorem From.of_out {s t : Net} {p q : NodeInfo} (hm : q.mac = p.mac) (hr : q.role = p.role)
    (hl : ¬Live t q) (hu : Unplaced (reached t q) → Unplaced (reached s p)) : From s t p q :=
  ⟨hm,fun h => hr ▸ h,hu,fun h => absurd h hl⟩

/-- The records come from records, but for new ones that are not live and have nothing active;
the tables and what is in the queue stay the same. -/
theorem Inv.keep {s t : Net} (h : Inv s) (hturn : Turn t.sys) (hroster : Roster t.sys)
    (htab : SameTables s.sys.cn t.sys.cn) (hposted : Network.posted t.sys.queue = Network.posted s.sys.queue)
    (hcur : t.sys.cur = s.sys.cur ∨ Network.posted s.sys.queue = []) (hnames : ∀ n tn, t.tns n = some tn → tn.nodeid = n)
    (hair : ∀ a ∈ t.air, a.ilen ≠ 0)
    (hold : ∀ (j : ℕ) (p : NodeInfo), s.sys.cn.ncn[j]? = some p → ∃ q, t.sys.cn.ncn[j]? = some q ∧ From s t p q)
    (hnew : ∀ (j : ℕ) (q : NodeInfo), t.sys.cn.ncn[j]? = some q → s.sys.cn.ncn[j]? = none → ¬Live t q ∧
      (q.role ≠ 0 → ∀ r ∈ nodeTrsIds s.sys.cn.cfg q.mac, ¬Active s.sys.cn.resState r)) : Inv t := by
  have hback : ∀ q ∈ t.sys.cn.ncn, (∃ p ∈ s.sys.cn.ncn, From s t p q) ∨ ¬Live t q ∧
      (q.role ≠ 0 → ∀ r ∈ nodeTrsIds s.sys.cn.cfg q.mac, ¬Active s.sys.cn.resState r) := by
    intro q hq
    obtain ⟨j,hj⟩ := List.mem_iff_getElem?.mp hq
    cases hp : s.sys.cn.ncn[j]? with
    | none => exact Or.inr (hnew j q hj hp)
    | some p =>
      obtain ⟨q',hj',hf⟩ := hold j p hp
      obtain rfl := Option.some.inj (hj.symm.trans hj')
      exact Or.inl ⟨p,List.mem_of_getElem? hp,hf⟩
  have htold : told t.sys = told s.sys := told_congr hposted htab.resState
  refine ⟨hturn,hroster,?_,hnames,hair,?_,?_⟩
  · refine h.tables.congr htab (fun m hm => ?_) fun q hq hr hu => ?_
    · obtain ⟨p,hp,rfl⟩ := List.mem_map.mp hm
      obtain ⟨j,hj⟩ := List.mem_iff_getElem?.mp hp
      obtain ⟨q,hq,hf⟩ := hold j p hj
      exact List.mem_map.mpr ⟨q,List.mem_of_getElem? hq,hf.mac⟩
    · rcases hback q hq with ⟨p,hp,hf⟩ | ⟨-,hno⟩
      · rw [hf.mac]
        exact h.tables.unplaced p hp (hf.role hr) (hf.unplaced hu)
      · exact hno hr
  · intro x hx
    rw [hposted] at hx
    have hc : t.sys.cur = s.sys.cur := by
      refine hcur.resolve_right fun hnil => ?_
      rw [hnil] at hx
      cases hx
    obtain ⟨p,hp,hx⟩ := h.posted x hx
    obtain ⟨q,hq,hf⟩ := hold _ p hp
    rw [hc]
    exact ⟨q,hq,hx.congr htab hf.mac fun hl => ⟨(hf.live hl).1,(hf.live hl).2.1⟩⟩
  · intro q hq hl
    rcases hback q hq with ⟨p,hp,hf⟩ | ⟨hno,-⟩
    · obtain ⟨hlp,hn,htn,hr⟩ := hf.live hl
      obtain ⟨tn,hx,hs⟩ := h.live p hp hlp
      rw [htab.cfg,htold,hf.mac]
      exact ⟨tn,htn.trans hx,hs.same,hs.holds,hs.sub,fun hq => hs.full (hr hq)⟩
    · exact absurd hl hno

/-- A change of one record. -/
theorem modify_hold {s t : Net} {k : ℕ} {f : NodeInfo → NodeInfo} (hncn : t.sys.cn.ncn = s.sys.cn.ncn.modify k f)
    (hk : ∀ p, s.sys.cn.ncn[k]? = some p → From s t p (f p))
    (hj : ∀ (j : ℕ) (p : NodeInfo), s.sys.cn.ncn[j]? = some p → j ≠ k → From s t p p) (j : ℕ) (p : NodeInfo)
    (hp : s.sys.cn.ncn[j]? = some p) : ∃ q, t.sys.cn.ncn[j]? = some q ∧ From s t p q := by
  rw [hncn,List.getElem?_modify,hp]
  by_cases hjk : k = j
  · subst hjk
    exact ⟨f p,by simp,hk p hp⟩
  · exact ⟨p,by simp [hjk],hj j p hp fun he => hjk he.symm⟩

theorem modify_new {s t : Net} {k : ℕ} {f : NodeInfo → NodeInfo} (hncn : t.sys.cn.ncn = s.sys.cn.ncn.modify k f)
    {P : Prop} (j : ℕ) (q : NodeInfo) (hq : t.sys.cn.ncn[j]? = some q) (hp : s.sys.cn.ncn[j]? = none) : P := by
  rw [hncn,List.getElem?_modify,hp] at hq
  cases hq

/-! ### Reports -/

/-- A report changes records only; the other thread may have a request of its own then. -/
structure Report (s t : Net) : Prop where
  tables : SameTables s.sys.cn t.sys.cn
  stage : t.sys.stage = s.sys.stage
  cur : t.sys.cur = s.sys.cur
  queue : t.sys.queue = s.sys.queue
  jobs : Manager.jobs [] t.sys.reqs = Manager.jobs [] s.sys.reqs
  air : t.air = s.air

theorem Report.reached {s t : Net} (h : Report s t) {p q : NodeInfo} (hst : q.state = p.state) :
    reached t q = reached s p := by
  refine reached_congr (out_congr ?_ h.jobs) h.air hst
  rw [jobs_eq,h.queue,h.jobs,← jobs_eq]

/-- A record that is not reported, and whose TN stays. -/
theorem Report.same {s t : Net} (h : Report s t) {p : NodeInfo} (ht : Live s p → t.tns p.nindx = s.tns p.nindx) :
    From s t p p := .of_reached rfl rfl rfl id (h.reached rfl) ht

theorem findIdx_get {p : NodeInfo → Bool} {l : List NodeInfo} {k : ℕ} (h : l.findIdx? p = some k) :
    ∃ pnd, l[k]? = some pnd ∧ p pnd = true ∧ l.find? p = some pnd := by
  obtain ⟨hk,hp,hlt⟩ := List.findIdx?_eq_some_iff_getElem.mp h
  refine ⟨l[k],List.getElem?_eq_getElem hk,hp,List.find?_eq_some_iff_getElem.mpr ⟨hp,k,hk,rfl,?_⟩⟩
  intro j hj
  have hno := hlt j hj
  simpa using hno

/-- A new record: it has nothing active, as no record had its MAC. -/
theorem append_inv {s t : Net} (h : Inv s) (hr : Report s t) (hturn : Turn t.sys) {new : NodeInfo}
    (hncn : t.sys.cn.ncn = s.sys.cn.ncn ++ [new]) (hmac : ∀ pnd ∈ s.sys.cn.ncn, pnd.mac ≠ new.mac)
    (hids : new.role ≠ 0 → new.nindx ≠ 0 ∧ new.nindx ≠ 0xFF) (hst : new.state = .init)
    (hnames : ∀ n tn, t.tns n = some tn → tn.nodeid = n)
    (htns : ∀ pnd ∈ s.sys.cn.ncn, Live s pnd → t.tns pnd.nindx = s.tns pnd.nindx) : Inv t := by
  refine h.keep hturn (h.roster.append hncn hmac hids hst hr.stage) hr.tables (by rw [hr.queue]) (Or.inl hr.cur)
    hnames (hr.air ▸ h.air) ?_ ?_
  · intro j p hp
    refine ⟨p,?_,hr.same (htns p (List.mem_of_getElem? hp))⟩
    rw [hncn,List.getElem?_append_left (List.getElem?_eq_some_iff.mp hp).1]
    exact hp
  · intro j q hq hp
    have hqn : q = new := by
      rw [hncn] at hq
      rcases append_get hq with hq | hq
      · rw [hp] at hq
        cases hq
      · exact hq
    have hne : q.state ≠ .waitAck := by
      rw [hqn,hst]
      decide
    refine ⟨?_,fun _ r hl ha => ?_⟩
    · rintro ⟨-,-,hl⟩
      rw [reached_of_ne hne,hqn,hst] at hl
      rcases hl with hl | hl | hl <;> cases hl
    · obtain ⟨-,m,hm,hl'⟩ := h.tables.owned r ha
      obtain ⟨p,hp,hpm⟩ := List.mem_map.mp hm
      have heq := h.tables.sound.mac_eq hl' hl
      exact hmac p hp ((hpm.trans heq).trans (congrArg NodeInfo.mac hqn))

theorem cnOnline_inv {s t : Net} {ok : Bool} (h : Inv s) (hok : ∀ pnd ∈ s.sys.cn.ncn, pnd.mac ≠ s.sys.cn.mac)
    (hs : step s (.cnOnline ok) = some t) : Inv t := by
  have hturn := step_turn h hs
  obtain rfl := Option.some.inj hs
  have hp := h.tables.preset
  have htab : SameTables s.sys.cn (resNewCn ok .table s.sys.cn) := by
    cases ok with
    | false => exact ⟨rfl,rfl,rfl⟩
    | true =>
      simp only [resNewCn,hp,Bool.not_true,Bool.false_eq_true,if_false,ne_eq,not_false_eq_true,if_true]
      exact ⟨rfl,rfl,rfl⟩
  have hncn := Manager.resNewCn_ncn ok .table s.sys.cn
  cases ok with
  | false => exact h
  | true =>
    exact append_inv h ⟨htab,rfl,rfl,rfl,rfl,rfl⟩ hturn hncn hok (fun hr => absurd rfl hr) rfl h.names
      fun _ _ _ => rfl

theorem resNewTn_tables {cn : Cn} (hp : cn.preRes.state ≠ 1) (ok : Bool) (nid : UInt8) (mac : Mac) :
    SameTables cn (resNewTn ok .table nid mac cn) := by
  simp only [resNewTn,hp,if_false]
  split
  · exact ⟨rfl,rfl,rfl⟩
  · split <;> exact ⟨rfl,rfl,rfl⟩

theorem resDeleteTn_tables (nid : UInt8) (cn : Cn) : SameTables cn (resDeleteTn nid cn) := by
  rw [resDeleteTn]
  split <;> exact ⟨rfl,rfl,rfl⟩

/-- A TN that comes back: its record is not that of a live one. -/
theorem renew_inv {s t : Net} (h : Inv s) (hr : Report s t) (hturn : Turn t.sys) {nid : UInt8} {mac : Mac} {k : ℕ}
    {p : NodeInfo} (hok : NewOk s nid mac) (hget : s.sys.cn.ncn[k]? = some p) (hpm : p.mac = mac)
    (hncn : t.sys.cn.ncn = s.sys.cn.ncn.modify k (renew nid mac))
    (hnames : ∀ n tn, t.tns n = some tn → tn.nodeid = n)
    (htns : ∀ pnd ∈ s.sys.cn.ncn, Live s pnd → t.tns pnd.nindx = s.tns pnd.nindx) : Inv t := by
  have hp := List.mem_of_getElem? hget
  obtain ⟨hrole,hdead⟩ := hok.free p hp (Or.inl hpm)
  have hroster : Roster t.sys := by
    refine h.roster.modify hncn ?_ fun hb => hr.stage ▸ hb
    intro q hq
    obtain rfl := Option.some.inj (hget.symm.trans hq)
    refine ⟨hpm.symm,fun _ => hok.proper,fun h0 => absurd h0 (by change (2 : UInt8) ≠ 0;decide),fun hb => ?_⟩
    have hinit := h.roster.boot (hr.stage ▸ hb) p hp
    simp [renew,hinit]
  refine h.keep hturn hroster hr.tables (by rw [hr.queue]) (Or.inl hr.cur) hnames (hr.air ▸ h.air)
    (modify_hold hncn ?_ fun j q hq _ => hr.same (htns q (List.mem_of_getElem? hq)))
    fun j q => modify_new hncn j q
  intro q hq
  obtain rfl := Option.some.inj (hget.symm.trans hq)
  have hreach : reached t (renew nid mac p) = reached s p ∨
      reached t (renew nid mac p) = .init ∧ reached s p = .delFinish := by
    rcases Manager.renew_state nid mac p with he | ⟨he,hd⟩
    · exact Or.inl (hr.reached he)
    · refine Or.inr ⟨?_,?_⟩
      · rw [reached_of_ne,he]
        rw [he]
        decide
      · rw [reached_of_ne,hd]
        rw [hd]
        decide
  refine ⟨hpm.symm,fun _ => hrole,fun hu => ?_,fun hl => ?_⟩
  · rcases hreach with he | ⟨-,hd⟩
    · exact he ▸ hu
    · rw [hd]
      exact Or.inr (Or.inr (Or.inr (Or.inr rfl)))
  · obtain ⟨-,ho,hl⟩ := hl
    rcases hreach with he | ⟨he,-⟩
    · exact absurd ⟨hrole,ho,he ▸ hl⟩ hdead
    · rw [he] at hl
      rcases hl with hl | hl | hl <;> cases hl

theorem newTn_inv {s t : Net} {nid : UInt8} {tn : TnCtx} {ok : Bool} (h : Inv s) (hok : NewOk s nid tn.mac)
    (hs : step s (.newTn nid tn ok) = some t) : Inv t := by
  have hturn := step_turn h hs
  have ht := (Option.some.inj hs).symm
  have htab := resNewTn_tables h.tables.preset ok nid tn.mac
  have hr : Report s t := by
    rw [ht]
    exact ⟨⟨htab.cfg,htab.resState,htab.preRes⟩,rfl,rfl,rfl,rfl,rfl⟩
  have hncn : t.sys.cn.ncn = (resNewTn ok .table nid tn.mac s.sys.cn).ncn := by
    rw [ht]
    rfl
  have htns : t.tns = Function.update (fun n => (s.tns n).filter fun x => x.mac ≠ tn.mac) nid (some (online nid tn)) := by
    rw [ht]
    rfl
  have hnames : ∀ n x, t.tns n = some x → x.nodeid = n := by
    intro n x hx
    rw [htns] at hx
    by_cases hn : n = nid
    · subst hn
      rw [Function.update_self] at hx
      rw [← Option.some.inj hx]
      rfl
    · rw [Function.update_of_ne hn] at hx
      exact h.names n x (Option.filter_eq_some_iff.mp hx).1
  -- the TN of a live record is another one under another id
  have hkeep : ∀ pnd ∈ s.sys.cn.ncn, Live s pnd → t.tns pnd.nindx = s.tns pnd.nindx := by
    intro pnd hp hl
    obtain ⟨x,hx,hserve⟩ := h.live pnd hp hl
    have hnid : pnd.nindx ≠ nid := fun he => (hok.free pnd hp (Or.inr he)).2 hl
    have hmac : x.mac ≠ tn.mac := fun he => (hok.free pnd hp (Or.inl (hserve.same ▸ he))).2 hl
    rw [htns,Function.update_of_ne hnid,hx]
    simp [hmac]
  rw [Manager.resNewTn_ncn] at hncn
  cases hf : s.sys.cn.ncn.findIdx? fun pnd => pnd.mac = tn.mac with
  | some k =>
    rw [hf] at hncn
    obtain ⟨p,hget,hpm,-⟩ := findIdx_get hf
    exact renew_inv h hr hturn hok hget (of_decide_eq_true hpm) hncn hnames hkeep
  | none =>
    rw [hf] at hncn
    have hno : ∀ pnd ∈ s.sys.cn.ncn, pnd.mac ≠ tn.mac := by
      intro pnd hp he
      have := List.findIdx?_eq_none_iff.mp hf pnd hp
      simp [he] at this
    cases ok with
    | true => exact append_inv h hr hturn hncn hno (fun _ => hok.proper) rfl hnames hkeep
    | false =>
      have hncn : t.sys.cn.ncn = s.sys.cn.ncn := hncn
      refine h.keep hturn (h.roster.congr hncn fun hb => hr.stage ▸ hb) hr.tables (by rw [hr.queue])
        (Or.inl hr.cur) hnames (hr.air ▸ h.air) ?_ ?_
      · intro j p hp
        exact ⟨p,hncn ▸ hp,hr.same (hkeep p (List.mem_of_getElem? hp))⟩
      · intro j q hq hp
        rw [hncn,hp] at hq
        cases hq

theorem lost_inv {s t : Net} {nid : UInt8} (h : Inv s) (hok : LostOk s nid)
    (hs : step s (.lost nid) = some t) : Inv t := by
  have hturn := step_turn h hs
  have ht := (Option.some.inj hs).symm
  have htab := resDeleteTn_tables nid s.sys.cn
  have hr : Report s t := by
    rw [ht]
    exact ⟨⟨htab.cfg,htab.resState,htab.preRes⟩,rfl,rfl,rfl,rfl,rfl⟩
  have hncn : t.sys.cn.ncn = (resDeleteTn nid s.sys.cn).ncn := by
    rw [ht]
    rfl
  have htns : t.tns = Function.update s.tns nid none := by
    rw [ht]
    rfl
  have hnames : ∀ n x, t.tns n = some x → x.nodeid = n := by
    intro n x hx
    rw [htns] at hx
    by_cases hn : n = nid
    · subst hn
      rw [Function.update_self] at hx
      cases hx
    · rw [Function.update_of_ne hn] at hx
      exact h.names n x hx
  rw [Manager.resDeleteTn_ncn] at hncn
  cases hf : s.sys.cn.ncn.findIdx? fun pnd => pnd.nindx = nid with
  | none =>
    rw [hf] at hncn
    have hncn : t.sys.cn.ncn = s.sys.cn.ncn := hncn
    refine h.keep hturn (h.roster.congr hncn fun hb => hr.stage ▸ hb) hr.tables (by rw [hr.queue])
      (Or.inl hr.cur) hnames (hr.air ▸ h.air) ?_ ?_
    · intro j p hp
      refine ⟨p,hncn ▸ hp,hr.same fun _ => ?_⟩
      have hne : p.nindx ≠ nid := by
        have := List.findIdx?_eq_none_iff.mp hf p (List.mem_of_getElem? hp)
        simpa using this
      rw [htns,Function.update_of_ne hne]
    · intro j q hq hp
      rw [hncn,hp] at hq
      cases hq
  | some k =>
    rw [hf] at hncn
    obtain ⟨p,hget,-,hfind⟩ := findIdx_get hf
    have hp := List.mem_of_getElem? hget
    have hroster : Roster t.sys := by
      refine h.roster.modify hncn ?_ fun hb => hr.stage ▸ hb
      intro q hq
      have hq := List.mem_of_getElem? hq
      exact ⟨rfl,h.roster.ids q hq,h.roster.cn q hq,fun hb => h.roster.boot (hr.stage ▸ hb) q hq⟩
    refine h.keep hturn hroster hr.tables (by rw [hr.queue]) (Or.inl hr.cur) hnames (hr.air ▸ h.air)
      (modify_hold hncn ?_ ?_) fun j q => modify_new hncn j q
    · intro q _
      refine .of_out rfl rfl ?_ fun hu => ?_
      · rintro ⟨-,ho,-⟩
        cases ho
      · have he : reached t (lose q) = reached s q := hr.reached rfl
        exact he ▸ hu
    · intro j q hj hjk
      refine hr.same fun hl => ?_
      obtain ⟨x,hx,hserve⟩ := h.live q (List.mem_of_getElem? hj) hl
      have hne : q.nindx ≠ nid := by
        rintro rfl
        have hpm : p.mac = q.mac := (hok x hx p hfind).trans hserve.same
        exact hjk (h.roster.unique hj hget hpm.symm)
      rw [htns,Function.update_of_ne hne]

/-! ### Rounds without a work -/

/-- What the records have reached when nothing is handed on. -/
theorem quiet_reached {s t : Net} (h : Network.Quiet s.sys t.sys) (ha : t.air = s.air) {p q : NodeInfo}
    (hst : q.state = p.state) : reached t q = reached s p := reached_congr (quiet_out h) ha hst

/-- A round after which the same request is out, with the same TNs and answers. -/
structure Calm (s t : Net) : Prop where
  inv : Inv s
  turn : Turn t.sys
  quiet : Network.Quiet s.sys t.sys
  tns : t.tns = s.tns
  air : t.air = s.air

section Calm

variable {s t : Net}

theorem Calm.names (h : Calm s t) : ∀ n tn, t.tns n = some tn → tn.nodeid = n := by
  rw [h.tns]
  exact h.inv.names

theorem Calm.ilen (h : Calm s t) : ∀ a ∈ t.air, a.ilen ≠ 0 := by
  rw [h.air]
  exact h.inv.air

theorem Calm.nothing (h : Calm s t) (hs : s.sys.stage = .boot ∨ s.sys.stage = .idle) :
    Network.posted s.sys.queue = [] := posted_nil h.inv (h.inv.turn.idle_of_stage hs)

theorem Calm.self (h : Calm s t) (p : NodeInfo) : From s t p p :=
  .of_reached rfl rfl rfl id (quiet_reached h.quiet h.air rfl) fun _ => by rw [h.tns]

/-- The records stay. -/
theorem Calm.same (h : Calm s t) (hcn : t.sys.cn = s.sys.cn) (hboot : t.sys.stage = .boot → s.sys.stage = .boot)
    (hcur : t.sys.cur = s.sys.cur ∨ Network.posted s.sys.queue = []) : Inv t := by
  refine h.inv.keep h.turn (h.inv.roster.congr (congrArg Cn.ncn hcn) hboot) ⟨?_,?_,?_⟩ h.quiet.posted hcur
    h.names h.ilen ?_ ?_
  · rw [hcn]
  · rw [hcn]
  · rw [hcn]
  · intro j p hp
    exact ⟨p,hcn ▸ hp,h.self p⟩
  · intro j q hq hp
    rw [hcn,hp] at hq
    cases hq

/-- One record takes its turn, and is not live then. -/
theorem Calm.take (h : Calm s t) {k : ℕ} {pnd : NodeInfo} {f : NodeInfo → NodeInfo} (hidle : s.sys.stage = .idle)
    (hget : s.sys.cn.ncn[k]? = some pnd) (hrole : pnd.role ≠ 0)
    (hcn : t.sys.cn = {s.sys.cn with ncn := s.sys.cn.ncn.modify k f}) (hboot : t.sys.stage ≠ .boot)
    (hf : (f pnd).mac = pnd.mac ∧ (f pnd).role = pnd.role ∧ (f pnd).nindx = pnd.nindx) (hl : ¬Live t (f pnd))
    (hu : Unplaced (reached t (f pnd)) → Unplaced (reached s pnd)) : Inv t := by
  obtain ⟨hfm,hfr,hfn⟩ := hf
  have hncn := congrArg Cn.ncn hcn
  have hroster : Roster t.sys := by
    refine h.inv.roster.modify hncn ?_ fun hb => absurd hb hboot
    intro p hp
    obtain rfl := Option.some.inj (hget.symm.trans hp)
    have hids := h.inv.roster.ids pnd (List.mem_of_getElem? hget) hrole
    exact ⟨hfm,fun _ => hfn.symm ▸ hids,fun h0 => absurd (hfr.symm.trans h0) hrole,fun hb => absurd hb hboot⟩
  refine h.inv.keep h.turn hroster ⟨?_,?_,?_⟩ h.quiet.posted (Or.inr (h.nothing (Or.inr hidle))) h.names h.ilen
    (modify_hold hncn ?_ fun _ q _ _ => h.self q) fun j q => modify_new hncn j q
  · rw [hcn]
  · rw [hcn]
  · rw [hcn]
  · intro p hp
    obtain rfl := Option.some.inj (hget.symm.trans hp)
    exact .of_out hfm hfr hl hu

/-- The CN is up: its own resources are placed, and no TN has a state yet. -/
theorem Calm.booted (h : Calm s t) {k : ℕ} {pnd : NodeInfo} (hboot : s.sys.stage = .boot)
    (hget : s.sys.cn.ncn[k]? = some pnd) (hrole : pnd.role = 0)
    (hncn : t.sys.cn.ncn = s.sys.cn.ncn.modify k fun pnd => {pnd with online := false,state := .addFinish})
    (htab : SameTables {s.sys.cn with resState := (placeTrs s.sys.cn.cfg pnd.nindx s.sys.cn.resState s.sys.cn.resfrm
      (getTrsResConfig s.sys.cn.cfg pnd.mac)).resState} t.sys.cn) (hidle : t.sys.stage = .idle) : Inv t := by
  have hposted := h.nothing (Or.inl hboot)
  have hidx := h.inv.tables.sound.indexed
  have hother : ∀ r, r ∉ enabledTrs s.sys.cn.cfg pnd.mac → t.sys.cn.resState r = s.sys.cn.resState r := by
    intro r hr
    rw [htab.resState]
    exact placeTrs_other hidx (fun u => mem_enabledTrs) hr _ _
  have hmacs : t.sys.cn.ncn.map NodeInfo.mac = s.sys.cn.ncn.map NodeInfo.mac := by
    rw [hncn]
    exact macs_modify fun _ _ => rfl
  have hpm : pnd.mac ∈ s.sys.cn.ncn.map NodeInfo.mac :=
    List.mem_map.mpr ⟨pnd,List.mem_of_getElem? hget,rfl⟩
  have hinit : ∀ q ∈ t.sys.cn.ncn, q.role ≠ 0 → q ∈ s.sys.cn.ncn ∧ q.state = .init ∧ q.mac ≠ pnd.mac := by
    intro q hq hro
    rw [hncn] at hq
    rcases mem_modify hq with ⟨p,hp,rfl⟩ | ⟨j,hjk,hj⟩
    · obtain rfl := Option.some.inj (hget.symm.trans hp)
      exact absurd hrole hro
    · have hm := List.mem_of_getElem? hj
      exact ⟨hm,h.inv.roster.boot hboot q hm,fun he => hjk (h.inv.roster.unique hj hget he)⟩
  have hroster : Roster t.sys := by
    refine h.inv.roster.modify hncn ?_ fun hb => (nomatch hidle.symm.trans hb)
    intro p hp
    exact ⟨rfl,h.inv.roster.ids p (List.mem_of_getElem? hp),fun _ => Or.inr rfl,fun hb => (nomatch hidle.symm.trans hb)⟩
  refine ⟨h.turn,hroster,⟨?_,?_,?_,?_,?_⟩,h.names,h.ilen,?_,?_⟩
  · rw [htab.preRes]
    exact h.inv.tables.preset
  · rw [htab.cfg]
    exact h.inv.tables.sound
  · rw [htab.cfg]
    exact h.inv.tables.table
  · intro r hr
    rw [hmacs,htab.cfg]
    by_cases hl : r ∈ enabledTrs s.sys.cn.cfg pnd.mac
    · exact ⟨(mem_enabledTrs hl).2,pnd.mac,hpm,(List.mem_filter.mp hl).1⟩
    · rw [Active,hother r hl] at hr
      exact h.inv.tables.owned r hr
  · intro q hq hro hu r hl ha
    obtain ⟨hqm,hst,hmac⟩ := hinit q hq hro
    rw [htab.cfg] at hl
    have hno : r ∉ enabledTrs s.sys.cn.cfg pnd.mac :=
      fun he => hmac (h.inv.tables.sound.mac_eq hl (List.mem_filter.mp he).1)
    rw [Active,hother r hno] at ha
    have he : reached t q = reached s q := quiet_reached h.quiet h.air rfl
    exact h.inv.tables.unplaced q hqm hro (he ▸ hu) r hl ha
  · intro x hx
    rw [h.quiet.posted,hposted] at hx
    cases hx
  · intro q hq hl
    obtain ⟨-,hst,-⟩ := hinit q hq hl.1
    obtain ⟨-,-,hl⟩ := hl
    rw [reached_of_ne (by rw [hst];decide),hst] at hl
    rcases hl with hl | hl | hl <;> cases hl

end Calm

theorem passed_inv {s t : Net} (h : Inv s) (hturn : Turn t.sys) (hp : Passed s.sys t.sys)
    (hquiet : Network.Quiet s.sys t.sys) (htns : t.tns = s.tns) (hair : t.air = s.air) : Inv t := by
  have hcalm : Calm s t := ⟨h,hturn,hquiet,htns,hair⟩
  cases hp with
  | rest h1 h2 h3 => exact hcalm.same h1 (fun hb => h2 ▸ hb) (Or.inl h3)
  | closed pnd h1 h2 h3 h4 =>
    have hne : pnd.state ≠ .waitAck := by
      rcases h2 with h2 | h2 | h2 <;> rw [h2] <;> decide
    exact hcalm.same h3 (fun hb => nomatch h4.symm.trans hb) (Or.inr (posted_nil h (h.turn.idle_of_state h1 hne)))
  | join k pnd h1 h2 h3 h4 h5 h6 =>
    rw [joins,decide_eq_true_eq,isDown,decide_eq_true_eq] at h3
    have hreach : reached t {pnd with online := false,state := .downloadResId} = .downloadResId :=
      reached_of_ne fun hw => nomatch hw
    refine hcalm.take h1 h2 h3.1 h4 (by rw [h5];decide) ⟨rfl,rfl,rfl⟩ ?_ fun _ => ?_
    · rintro ⟨-,-,hl⟩
      rw [hreach] at hl
      rcases hl with hl | hl | hl <;> cases hl
    · rcases h3.2.1 with hst | hst
      · rw [reached_of_ne (by rw [hst];decide),hst]
        exact Or.inl rfl
      · rw [reached_of_ne (by rw [hst];decide),hst]
        exact Or.inr (Or.inr (Or.inr (Or.inr rfl)))
  | leave k pnd h1 h2 h3 h4 h5 h6 =>
    rw [leaves,decide_eq_true_eq] at h3
    have hreach : reached t {pnd with offline := false,state := .delRes} = .delRes :=
      reached_of_ne fun hw => nomatch hw
    refine hcalm.take h1 h2 h3.1 h4 (by rw [h5];decide) ⟨rfl,rfl,rfl⟩ ?_ fun hu => ?_
    · rintro ⟨-,-,hl⟩
      rw [hreach] at hl
      rcases hl with hl | hl | hl <;> cases hl
    · rw [hreach] at hu
      rcases hu with hu | hu | hu | hu | hu <;> cases hu
  | boot k pnd h1 h2 h3 h4 h5 h6 => exact hcalm.booted h1 h2 h3 h4 h5 h6

end Receivers
end Autbus
