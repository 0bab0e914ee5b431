import Autbus.Receivers

/-! The exchanges of the manager with the TNs: a request is asked for, sent and answered, with
reports in between. Asking changes the tables, sending tells the TNs, and the answer moves the
record to where it has been since. -/
namespace Autbus
namespace Exchanges

open ResTables Nodes Services Reception Assignment Network Underway Receivers Trace
open Placement (Active Enabled mem_enabledTrs mem_nodeTrsIds_ne tnMac mixedCn)
open Departure (releaseDel_state leaveConfig)
open Edits (Edit Sound sound_empty)
open Manager (Work Sys Turn Called stateAt setState_get jobs)
open SrvRpc (Send)

/-! ### The record that has its turn -/

/-- A round works on the record and leaves it in the state `st`. -/
structure Left (w : Work) (pnd : NodeInfo) (s t : Net) (st : ResStage) : Prop where
  turn : Turn t.sys
  work : s.sys.stage = w.stage
  get : s.sys.cn.ncn[s.sys.cur]? = some pnd
  before : pnd.state = w.before
  stage : t.sys.stage = s.sys.stage
  cur : t.sys.cur = s.sys.cur
  ncn : t.sys.cn.ncn = (setState s.sys.cur st s.sys.cn).ncn
  tns : t.tns = s.tns
  air : t.air = s.air
  tables : SameTables (action w pnd s.sys).cn t.sys.cn

theorem before_ne (w : Work) : w.before ≠ .waitAck := by cases w <;> decide

section Asking

variable {w : Work} {pnd : NodeInfo} {s t : Net} {st : ResStage}

theorem Left.mem (h : Left w pnd s t st) : pnd ∈ s.sys.cn.ncn := List.mem_of_getElem? h.get

theorem reached_before (hst : pnd.state = w.before) : reached s pnd = w.before := by
  rw [reached_of_ne,hst]
  rw [hst]
  exact before_ne w

theorem Left.reached (h : Left w pnd s t st) : reached s pnd = w.before := reached_before h.before

/-- Nothing was out before. -/
theorem Left.idle (h : Left w pnd s t st) (hi : Inv s) : jobs s.sys.queue s.sys.reqs = [] := by
  refine hi.turn.idle_of_state h.get ?_
  rw [h.before]
  exact before_ne w

theorem Left.told (h : Left w pnd s t st) (hi : Inv s) : told s.sys = s.sys.cn.resState :=
  told_nil (posted_nil hi (h.idle hi))

/-- A record that was live is served as the tables say. -/
theorem Left.serves (h : Left w pnd s t st) (hi : Inv s) (hw : w.before = .addRcvRes ∨ w.before = .addTrsRes)
    (hl : Live t {pnd with state := st}) : ∃ tn, s.tns pnd.nindx = some tn ∧
      Serves s.sys.cn.cfg s.sys.cn.resState pnd.mac (w.before ≠ .addRcvRes) tn := by
  have hlive : Live s pnd := ⟨hl.1,hl.2.1,hw.imp h.reached.trans fun hw => Or.inl (h.reached.trans hw)⟩
  rw [← h.told hi,← h.reached]
  exact hi.live pnd h.mem hlive

/-- A record after the round is the one before, which rests, or the one worked on. -/
theorem Left.cases (h : Left w pnd s t st) {q : NodeInfo} (hq : q ∈ t.sys.cn.ncn) :
    q = {pnd with state := st} ∨ ∃ j, j ≠ s.sys.cur ∧ s.sys.cn.ncn[j]? = some q := by
  rw [h.ncn] at hq
  rcases mem_modify hq with ⟨p,hp,rfl⟩ | hj
  · obtain rfl := Option.some.inj (h.get.symm.trans hp)
    exact Or.inl rfl
  · exact Or.inr hj

theorem Left.macs (h : Left w pnd s t st) : t.sys.cn.ncn.map NodeInfo.mac = s.sys.cn.ncn.map NodeInfo.mac := by
  rw [h.ncn]
  exact macs_modify fun _ _ => rfl

theorem Left.roster (h : Left w pnd s t st) (hi : Inv s) : Roster t.sys := by
  have hboot : t.sys.stage ≠ .boot := by
    rw [h.stage,h.work]
    cases w <;> decide
  refine hi.roster.modify h.ncn ?_ fun hb => absurd hb hboot
  intro p hp
  obtain rfl := Option.some.inj (h.get.symm.trans hp)
  have hrole : pnd.role ≠ 0 := hi.roster.role h.mem h.before
  exact ⟨rfl,hi.roster.ids pnd h.mem,fun h0 => absurd h0 hrole,fun hb => absurd hb hboot⟩

end Asking

/-- A record that does not have the turn does not wait. -/
theorem rest_ne {s : Net} (h : Inv s) {j : ℕ} {q : NodeInfo} (hj : s.sys.cn.ncn[j]? = some q) (hne : j ≠ s.sys.cur) :
    Manager.Resting q.state := by
  have hst : stateAt s.sys.cn j = some q.state := by rw [stateAt,hj]; rfl
  exact (h.turn.rest j q.state hst).resolve_left fun hin => hne hin.2.symm

theorem rest_reached {s t : Net} (h : Inv s) {j : ℕ} {q : NodeInfo} (hj : s.sys.cn.ncn[j]? = some q)
    (hne : j ≠ s.sys.cur) : reached t q = q.state := by
  refine reached_of_ne fun hw => ?_
  have hr := rest_ne h hj hne
  rw [hw] at hr
  rcases hr with hr | hr | hr | hr <;> cases hr

/-- What happens to the request that is out does not concern such a record. -/
theorem rest_same {s t : Net} (h : Inv s) {j : ℕ} {q : NodeInfo} (hj : s.sys.cn.ncn[j]? = some q)
    (hne : j ≠ s.sys.cur) : reached t q = reached s q :=
  (rest_reached h hj hne).trans (rest_reached h hj hne).symm

/-- What is left to show of a round that works on a record. -/
theorem left_inv {w : Work} {pnd : NodeInfo} {s t : Net} {st : ResStage} (h : Inv s) (hl : Left w pnd s t st)
    (htab : Tables t) (hcfg : t.sys.cn.cfg = s.sys.cn.cfg)
    (hposted : ∀ x ∈ posted t.sys.queue, Posted t {pnd with state := st} x.1 x.2)
    (hdue : ∀ q ∈ t.sys.cn.ncn, Live t q →
      assigned s.sys.cn.cfg (told t.sys) q.mac = assigned s.sys.cn.cfg s.sys.cn.resState q.mac)
    (hown : Live t {pnd with state := st} → ∃ tn, s.tns pnd.nindx = some tn ∧
      Serves s.sys.cn.cfg s.sys.cn.resState pnd.mac (reached t {pnd with state := st} ≠ .addRcvRes) tn) : Inv t := by
  refine ⟨hl.turn,hl.roster h,htab,?_,?_,?_,?_⟩
  · rw [hl.tns]
    exact h.names
  · rw [hl.air]
    exact h.air
  · intro x hx
    refine ⟨{pnd with state := st},?_,hposted x hx⟩
    rw [hl.cur,hl.ncn,setState_get,hl.get]
    simp
  · intro q hq hlive
    have hdue := hdue q hq hlive
    have hserve : ∃ tn, s.tns q.nindx = some tn ∧
        Serves s.sys.cn.cfg s.sys.cn.resState q.mac (reached t q ≠ .addRcvRes) tn := by
      rcases hl.cases hq with rfl | ⟨j,hne,hj⟩
      · exact hown hlive
      · have hr : reached t q = reached s q := rest_same h hj hne
        have hlive' : Live s q := ⟨hlive.1,hlive.2.1,hr ▸ hlive.2.2⟩
        have hs := h.live q (List.mem_of_getElem? hj) hlive'
        rw [hl.told h] at hs
        exact hr ▸ hs
    obtain ⟨tn,htn,hs⟩ := hserve
    rw [hl.tns,hcfg]
    exact ⟨tn,htn,hs.same,hs.holds,hdue ▸ hs.sub,fun hq => hdue ▸ hs.full hq⟩

theorem setState_ncn_trans {k : ℕ} {st st' : ResStage} {cn cn' cn'' : Cn}
    (h : cn'.ncn = (setState k st cn).ncn) (h' : cn''.ncn = (setState k st' cn').ncn) :
    cn''.ncn = (setState k st' cn).ncn :=
  h'.trans ((Manager.setState_congr h k st').trans (Manager.setState_setState k st st' cn))

/-- The record ends its work at once, or waits for the request that is in the queue now. -/
theorem worked_left {w : Work} {pnd : NodeInfo} {s t : Net} (h : Inv s) (hturn : Turn t.sys)
    (hstage : s.sys.stage = w.stage) (hget : s.sys.cn.ncn[s.sys.cur]? = some pnd) (hst : pnd.state = w.before)
    (hw : Worked w pnd s.sys t.sys) (htns : t.tns = s.tns) (hair : t.air = s.air) :
    ((action w pnd s.sys).req = none ∧ Left w pnd s t w.done ∧ posted t.sys.queue = []) ∨
      ∃ q p, (action w pnd s.sys).req = some (q,p) ∧ q.cbkf = w.cbk ∧ Left w pnd s t .waitAck ∧
        posted t.sys.queue = [(q,p)] ∧ out t.sys = some (w.cbk,false) := by
  have hncn : (action w pnd s.sys).cn.ncn = (setState s.sys.cur .waitAck s.sys.cn).ncn := (Work.run_ncn ..).1
  have hidle : jobs s.sys.queue s.sys.reqs = [] := by
    refine h.turn.idle_of_state hget ?_
    rw [hst]
    exact before_ne w
  have hnil := posted_nil h hidle
  have hsent : jobs [] s.sys.reqs = [] := by
    rw [jobs_eq,List.append_eq_nil_iff] at hidle
    exact hidle.2
  generalize ht : t.sys = u at hw
  cases hw with
  | ends ms hreq =>
    refine Or.inl ⟨hreq,?_,?_⟩
    · refine ⟨hturn,hstage,hget,hst,?_,?_,?_,htns,hair,?_⟩
      · rw [ht]
      · rw [ht]
      · rw [ht]
        exact setState_ncn_trans hncn rfl
      · rw [ht]
        exact setState_tables _ _ _
    · dsimp only
      rw [posted_append,posted_written,hnil]
      rfl
  | asks ms q p hreq hcbk hparg =>
    refine Or.inr ⟨q,p,hreq,hcbk,?_,?_,?_⟩
    · refine ⟨hturn,hstage,hget,hst,?_,?_,?_,htns,hair,?_⟩
      · rw [ht]
      · rw [ht]
      · rw [ht]
        exact hncn
      · rw [ht]
        exact ⟨rfl,rfl,rfl⟩
    · dsimp only
      rw [posted_append,posted_append,posted_written,hnil]
      rfl
    · have hjobs := Manager.jobs_ask hidle hcbk hparg (Manager.roundOk true) ms p
      have hjobs : jobs (s.sys.queue ++ Manager.written (Manager.roundOk true) ms ++ [.r q p]) s.sys.reqs =
        [(w.cbk,s.sys.cur)] := hjobs
      dsimp only [out]
      rw [hjobs,hsent]
      rfl

/-- The tables after a work that activates nothing. -/
theorem left_tables {w : Work} {pnd : NodeInfo} {s t : Net} {st : ResStage} (h : Inv s) (hl : Left w pnd s t st)
    (htab : SameTables s.sys.cn t.sys.cn)
    (hun : Unplaced (reached t {pnd with state := st}) → Unplaced w.before) : Tables t := by
  refine h.tables.congr htab (fun m hm => hl.macs ▸ hm) ?_
  intro q hq hro hu
  rcases hl.cases hq with rfl | ⟨j,hne,hj⟩
  · exact h.tables.unplaced pnd hl.mem hro (hl.reached ▸ hun hu)
  · have hr : reached t q = reached s q := rest_same h hj hne
    exact h.tables.unplaced q (List.mem_of_getElem? hj) hro (hr ▸ hu)

/-- The tables after a work that activates or releases resources of its own node. -/
theorem own_tables {w : Work} {pnd : NodeInfo} {s t : Net} {st : ResStage} (h : Inv s) (hl : Left w pnd s t st)
    (hpre : t.sys.cn.preRes = s.sys.cn.preRes) (hcfg : t.sys.cn.cfg = s.sys.cn.cfg)
    (hactive : ∀ r, Active t.sys.cn.resState r →
      Active s.sys.cn.resState r ∨ r ∈ enabledTrs s.sys.cn.cfg pnd.mac)
    (hown : Unplaced (reached t {pnd with state := st}) →
      ∀ r ∈ nodeTrsIds s.sys.cn.cfg pnd.mac, ¬Active t.sys.cn.resState r) : Tables t := by
  refine ⟨?_,?_,?_,?_,?_⟩
  · rw [hpre]
    exact h.tables.preset
  · rw [hcfg]
    exact h.tables.sound
  · rw [hcfg]
    exact h.tables.table
  · intro r hr
    rw [hl.macs,hcfg]
    rcases hactive r hr with ha | hm
    · exact h.tables.owned r ha
    · exact ⟨(mem_enabledTrs hm).2,pnd.mac,List.mem_map.mpr ⟨pnd,hl.mem,rfl⟩,(List.mem_filter.mp hm).1⟩
  · intro q hq hro hu r hr ha
    rw [hcfg] at hr
    rcases hl.cases hq with rfl | ⟨j,hne,hj⟩
    · exact hown hu r hr ha
    · rcases hactive r ha with ha | hm
      · have hr' : reached t q = reached s q := rest_same h hj hne
        exact h.tables.unplaced q (List.mem_of_getElem? hj) hro (hr' ▸ hu) r hr ha
      · exact hne (h.roster.unique hj hl.get (h.tables.sound.mac_eq hr (List.mem_filter.mp hm).1))

theorem reached_asked {w : Work} {pnd : NodeInfo} {t : Net} (ho : out t.sys = some (w.cbk,false)) :
    reached t {pnd with state := .waitAck} = waitsAt (!t.air.isEmpty) (some (w.cbk,false)) := by
  rw [reached_wait rfl,ho]

/-- A round that asks for nothing and leaves the tables alone. -/
theorem left_silent {w : Work} {pnd : NodeInfo} {s t : Net} {st : ResStage} (h : Inv s) (hl : Left w pnd s t st)
    (hposted : posted t.sys.queue = []) (htab : SameTables s.sys.cn t.sys.cn) (hun : Unplaced w.before)
    (hown : Live t {pnd with state := st} → ∃ tn, s.tns pnd.nindx = some tn ∧
      Serves s.sys.cn.cfg s.sys.cn.resState pnd.mac (reached t {pnd with state := st} ≠ .addRcvRes) tn) : Inv t := by
  refine left_inv h hl (left_tables h hl htab fun _ => hun) htab.cfg ?_ ?_ hown
  · intro x hx
    rw [hposted] at hx
    cases hx
  · intro _ _ _
    rw [told_nil hposted,htab.resState]

/-- `0x12` is asked for. -/
theorem resId_asked {pnd : NodeInfo} {s t : Net} (h : Inv s) (hturn : Turn t.sys)
    (hstage : s.sys.stage = Work.resId.stage) (hget : s.sys.cn.ncn[s.sys.cur]? = some pnd)
    (hst : pnd.state = Work.resId.before) (hw : Worked .resId pnd s.sys t.sys) (htns : t.tns = s.tns)
    (hair : t.air = s.air) : Inv t := by
  obtain ⟨htab,q,hreq,hd,hsrv⟩ := action_resId pnd s.sys
  rcases worked_left h hturn hstage hget hst hw htns hair with ⟨hno,-,-⟩ | ⟨q',p,hreq',hcbk,hl,hposted,hout⟩
  · exact nomatch hreq.symm.trans hno
  · cases hreq.symm.trans hreq'
    have htab := htab.trans hl.tables
    have hreach : reached t {pnd with state := .waitAck} = .downloadResId := reached_asked hout
    have hb := (h.roster.ids pnd hl.mem (h.roster.role hl.mem hst)).2
    refine left_inv h hl (left_tables h hl htab fun _ => Or.inr (Or.inl rfl)) htab.cfg ?_ ?_ ?_
    · intro x hx
      rw [hposted,List.mem_singleton] at hx
      rw [hx,← htab.cfg]
      exact .resId hsrv hcbk (hd ▸ hb)
    · intro _ _ _
      rw [told_cons hposted]
      change assigned _ t.sys.cn.resState _ = _
      rw [htab.resState]
    · rintro ⟨-,-,hlive⟩
      rw [hreach] at hlive
      rcases hlive with hlive | hlive | hlive <;> cases hlive

/-- `0x14` is asked for, or nothing is due. -/
theorem rcv_asked {pnd : NodeInfo} {s t : Net} (h : Inv s) (hturn : Turn t.sys) (hok : AskOk s pnd .rcv)
    (hstage : s.sys.stage = Work.rcv.stage) (hget : s.sys.cn.ncn[s.sys.cur]? = some pnd)
    (hst : pnd.state = Work.rcv.before) (hw : Worked .rcv pnd s.sys t.sys) (htns : t.tns = s.tns)
    (hair : t.air = s.air) : Inv t := by
  obtain ⟨htab,hcase⟩ := action_rcv pnd s.sys
  have hmem := List.mem_of_getElem? hget
  have hrole := h.roster.role hmem hst
  have hun : Unplaced (reached s pnd) := Or.inr (Or.inr (Or.inl (reached_before hst)))
  have hlist := rcv_assigned h.tables.active_tbl (h.tables.unplaced pnd hmem hrole hun) hok
  rcases worked_left h hturn hstage hget hst hw htns hair with ⟨hno,hl,hposted⟩ | ⟨q,p,hreq,hcbk,hl,hposted,hout⟩
  · have htab := htab.trans hl.tables
    have hnil : getRcvResConfig s.sys.cn.cfg s.sys.cn.resState pnd.mac = [] := by
      rcases hcase with ⟨hnil,-⟩ | ⟨q,hreq,-⟩
      · exact hnil
      · exact nomatch hreq.symm.trans hno
    refine left_silent h hl hposted htab (Or.inr (Or.inr (Or.inl rfl))) fun hlive => ?_
    obtain ⟨tn,htn,hs⟩ := hl.serves h (Or.inl rfl) hlive
    refine ⟨tn,htn,hs.same,hs.holds,hs.sub,fun _ => ?_⟩
    rw [← hlist,hnil]
    exact Finset.empty_subset _
  · have htab := htab.trans hl.tables
    have hreach' : reached t {pnd with state := .waitAck} = .addRcvRes := reached_asked hout
    obtain ⟨hreq',hd,hsrv⟩ : p = .rcv ⟨0,getRcvResConfig s.sys.cn.cfg s.sys.cn.resState pnd.mac⟩ ∧
        q.dstnd = pnd.nindx ∧ q.srvid = 0x14 := by
      rcases hcase with ⟨-,hno⟩ | ⟨q',hreq',hd,hsrv⟩
      · exact nomatch hreq.symm.trans hno
      · cases hreq.symm.trans hreq'
        exact ⟨rfl,hd,hsrv⟩
    have hb := (h.roster.ids pnd hmem hrole).2
    have hlen : (getRcvResConfig s.sys.cn.cfg s.sys.cn.resState pnd.mac).length < 256 :=
      Nat.lt_of_le_of_lt (getRcvResConfig_length hok) (by decide)
    refine left_inv h hl (left_tables h hl htab fun _ => Or.inr (Or.inr (Or.inl rfl))) htab.cfg ?_ ?_ ?_
    · intro x hx
      rw [hposted,List.mem_singleton] at hx
      rw [hx,hreq']
      refine .rcv _ hsrv hcbk (hd ▸ hb) (fun _ => hd) hlen ?_
      rw [htab.cfg,htab.resState]
      exact hlist
    · intro _ _ _
      rw [told_cons hposted,hreq']
      change assigned _ t.sys.cn.resState _ = _
      rw [htab.resState]
    · intro hlive
      obtain ⟨tn,htn,hs⟩ := hl.serves h (Or.inl rfl) hlive
      exact ⟨tn,htn,hs.same,hs.holds,hs.sub,fun hn => absurd hreach' hn⟩

/-- What a search for places that ends well has placed: the enabled resources of the node, and no others. -/
theorem placed_done {pnd : NodeInfo} {s : Net} (h : Tables s) (hok : (placed pnd s.sys).ok = true) :
    (∀ r, r ∉ enabledTrs s.sys.cn.cfg pnd.mac → (placed pnd s.sys).resState r = s.sys.cn.resState r) ∧
      (∀ r ∈ enabledTrs s.sys.cn.cfg pnd.mac, Active (placed pnd s.sys).resState r) ∧
      ((placed pnd s.sys).res.map fun t => (t.resid,t.send2all,trsPlace t)) = (enabledTrs s.sys.cn.cfg pnd.mac).map
        fun r => (r,(s.sys.cn.cfg.resCfgTbl r).send2all,place s.sys.cn.cfg (placed pnd s.sys).resState r) := by
  have hidx := h.sound.indexed
  have hroom : hasRoom s.sys.cn.resfrm (getTrsResConfig s.sys.cn.cfg pnd.mac) = true := by
    rw [placed,placeTrs_ok] at hok
    exact hok
  obtain ⟨hres,hact⟩ := placeTrs_done hidx (fun u => mem_enabledTrs)
    (h.sound.nodup pnd.mac) pnd.nindx s.sys.cn.resState hroom
  exact ⟨fun r hr => placeTrs_other hidx (fun u => mem_enabledTrs) hr _ _,hact,hres⟩

/-- `0x13` is asked for, or the node has nothing to send or gets no place: what the manager has
placed becomes active before any TN has heard of it. -/
theorem trs_asked {pnd : NodeInfo} {s t : Net} (h : Inv s) (hturn : Turn t.sys) (hok : AskOk s pnd .trs)
    (hstage : s.sys.stage = Work.trs.stage) (hget : s.sys.cn.ncn[s.sys.cur]? = some pnd)
    (hst : pnd.state = Work.trs.before) (hw : Worked .trs pnd s.sys t.sys) (htns : t.tns = s.tns)
    (hair : t.air = s.air) : Inv t := by
  obtain ⟨htab,hcase⟩ := action_trs pnd s.sys
  have hmem := List.mem_of_getElem? hget
  have hrole := h.roster.role hmem hst
  rcases worked_left h hturn hstage hget hst hw htns hair with ⟨hno,hl,hposted⟩ | ⟨q,p,hreq,hcbk,hl,hposted,hout⟩
  · have hsame : (placed pnd s.sys).resState = s.sys.cn.resState := by
      rcases hcase with ⟨hnil | hfail,-⟩ | ⟨-,q,hreq,-⟩
      · rw [placed,hnil]
        rfl
      · rcases hok with href | hroom
        · exact (placeTrs_refused href).1
        · rw [placed,placeTrs_ok,hroom] at hfail
          cases hfail
      · cases hreq.symm.trans hno
    rw [hsame] at htab
    have htab : SameTables s.sys.cn t.sys.cn := htab.trans hl.tables
    refine left_silent h hl hposted htab (Or.inr (Or.inr (Or.inr (Or.inl rfl)))) fun hlive => ?_
    obtain ⟨tn,htn,hs⟩ := hl.serves h (Or.inr rfl) hlive
    exact ⟨tn,htn,hs.same,hs.holds,hs.sub,fun _ => hs.full (by rintro ⟨⟩)⟩
  · have htab := htab.trans hl.tables
    obtain ⟨hplaced,hp,hd,hsrv⟩ : (placed pnd s.sys).ok = true ∧ p = .trs ⟨pnd.nindx,(placed pnd s.sys).res⟩ ∧
        q.dstnd = 0xFF ∧ q.srvid = 0x13 := by
      rcases hcase with ⟨-,hno⟩ | ⟨hplaced,q',hreq',hd,hsrv⟩
      · cases hreq.symm.trans hno
      · cases hreq.symm.trans hreq'
        exact ⟨hplaced,rfl,hd,hsrv⟩
    have hstate : t.sys.cn.resState = (placed pnd s.sys).resState := htab.resState
    obtain ⟨hother,hact,hres⟩ := placed_done h.tables hplaced
    rw [← hstate] at hother hact hres
    let ids := enabledTrs s.sys.cn.cfg pnd.mac
    have hids : ∀ r ∈ ids, r ∈ nodeTrsIds s.sys.cn.cfg pnd.mac := fun r hr => (List.mem_filter.mp hr).1
    have hdown : ∀ r ∈ ids, ¬Active s.sys.cn.resState r := by
      intro r hr
      exact h.tables.unplaced pnd hmem hrole (Or.inr (Or.inr (Or.inr (Or.inl (reached_before hst))))) r (hids r hr)
    have hresid : (placed pnd s.sys).res.map TrsResData.resid = ids := by
      have hfst := congrArg (List.map Prod.fst) hres
      rw [List.map_map,List.map_map] at hfst
      exact hfst.trans (List.map_id _)
    have hlen : (placed pnd s.sys).res.length < 256 := by
      have hle : ids.length ≤ maxTrsResCnt :=
        (List.length_filter_le ..).trans (nodeTrsIds_length s.sys.cn.cfg pnd.mac)
      rw [← List.length_map,hresid]
      exact Nat.lt_of_le_of_lt hle (by decide)
    have htold : told t.sys = withState ids 0 t.sys.cn.resState := by
      rw [told_cons hposted,hp,← hresid]
      rfl
    have hreach' : reached t {pnd with state := .waitAck} = .addFinish := reached_asked hout
    refine left_inv h hl (own_tables h hl htab.preRes htab.cfg ?_ ?_) htab.cfg ?_ ?_ ?_
    · intro r hr
      by_cases hm : r ∈ ids
      · exact Or.inr hm
      · rw [Active,hother r hm] at hr
        exact Or.inl hr
    · intro hu
      rw [hreach'] at hu
      rcases hu with hu | hu | hu | hu | hu <;> cases hu
    · intro x hx
      rw [hposted,List.mem_singleton] at hx
      rw [hx,hp]
      refine .trs _ ids hsrv hcbk hd (fun _ => rfl) hlen (fun r hr => ?_) ?_
      · rw [htab.cfg]
        refine ⟨hids r hr,?_,hact r hr⟩
        exact mem_tblIds.mpr ⟨(mem_enabledTrs hr).1,h.tables.table r (mem_enabledTrs hr).2⟩
      · rw [htab.cfg]
        exact hres
    · intro _ _ _
      rw [htold]
      refine assigned_congr fun r => ?_
      by_cases hr : r ∈ ids
      · refine Or.inr (Or.inl ⟨?_,hdown r hr⟩)
        rw [Active,withState,if_pos hr]
        exact fun hn => hn rfl
      · rw [withState,if_neg hr]
        exact Or.inl (hother r hr)
    · intro hlive
      obtain ⟨tn,htn,hs⟩ := hl.serves h (Or.inr rfl) hlive
      exact ⟨tn,htn,hs.same,hs.holds,hs.sub,fun _ => hs.full (by rintro ⟨⟩)⟩

/-- The resources of the node that are active. -/
def activeIds (s : Net) (pnd : NodeInfo) : List UInt8 :=
  (nodeTrsIds s.sys.cn.cfg pnd.mac).filter (Active s.sys.cn.resState ·)

theorem delConfig_map {s : Net} {pnd : NodeInfo} : getDelResConfig s.sys.cn.cfg s.sys.cn.resState pnd.mac =
    (activeIds s pnd).map (delEntry s.sys.cn.cfg s.sys.cn.resState) := rfl

theorem delConfig_resid {s : Net} {pnd : NodeInfo} :
    (getDelResConfig s.sys.cn.cfg s.sys.cn.resState pnd.mac).map DelResData.resid = activeIds s pnd := by
  rw [delConfig_map,List.map_map]
  exact List.map_id _

/-- A live TN is waited for when all are told. -/
theorem live_awaited {s t : Net} (h : Inv s) {j : ℕ} {q : NodeInfo} (hj : s.sys.cn.ncn[j]? = some q)
    (hne : j ≠ s.sys.cur) (hlive : Live t q) : awaited q = true := by
  have hfin : q.state = .addFinish := by
    have hrest := rest_ne h hj hne
    have hlive := hlive.2.2
    rw [rest_reached h hj hne] at hlive
    rcases hrest with hr | hr | hr | hr <;> rw [hr] at hlive ⊢ <;> rcases hlive with hv | hv | hv <;> cases hv
  have hids := h.roster.ids q (List.mem_of_getElem? hj) hlive.1
  rw [awaited,decide_eq_true_eq]
  exact ⟨UInt8.pos_iff_ne_zero.mpr hids.1,hlive.2.1,hfin⟩

/-- However the round goes on, the tables are those of a node that has left, and its TN is not live. -/
theorem Left.released {pnd : NodeInfo} {s t : Net} {st : ResStage} (hl : Left .del pnd s t st) (h : Inv s)
    (hreach : Underway.reached t {pnd with state := st} = .delFinish) :
    (∀ r, t.sys.cn.resState r =
      if r ∈ activeIds s pnd then {s.sys.cn.resState r with state := 0} else s.sys.cn.resState r) ∧
      Tables t ∧ t.sys.cn.cfg = s.sys.cn.cfg ∧ ¬Live t {pnd with state := st} := by
  have htab := (action_del pnd s.sys).1.trans hl.tables
  have hstate : ∀ r, t.sys.cn.resState r =
      if r ∈ activeIds s pnd then {s.sys.cn.resState r with state := 0} else s.sys.cn.resState r := by
    intro r
    rw [htab.resState,← delConfig_resid]
    exact releaseDel_state (fun e he => Departure.delIds_ne he) _ _ r
  have hactive : ∀ r, Active t.sys.cn.resState r → Active s.sys.cn.resState r ∧ r ∉ activeIds s pnd := by
    intro r hr
    rw [Active,hstate] at hr
    by_cases hm : r ∈ activeIds s pnd
    · rw [if_pos hm] at hr
      exact absurd rfl hr
    · rw [if_neg hm] at hr
      exact ⟨hr,hm⟩
  refine ⟨hstate,own_tables h hl htab.preRes htab.cfg (fun r hr => Or.inl (hactive r hr).1) ?_,htab.cfg,?_⟩
  · intro _ r hr ha
    obtain ⟨ha,hno⟩ := hactive r ha
    exact hno (List.mem_filter.mpr ⟨hr,decide_eq_true ha⟩)
  · rintro ⟨-,-,hlive⟩
    rw [hreach] at hlive
    rcases hlive with hlive | hlive | hlive <;> cases hlive

/-- `0x15` is asked for, or nobody is there to be told: the node's resources are released before
any TN has heard of it. -/
theorem del_asked {pnd : NodeInfo} {s t : Net} (h : Inv s) (hturn : Turn t.sys)
    (hstage : s.sys.stage = Work.del.stage) (hget : s.sys.cn.ncn[s.sys.cur]? = some pnd)
    (hst : pnd.state = Work.del.before) (hw : Worked .del pnd s.sys t.sys) (htns : t.tns = s.tns)
    (hair : t.air = s.air) : Inv t := by
  have hcase := (action_del pnd s.sys).2
  have hids : ∀ r ∈ activeIds s pnd, r ∈ nodeTrsIds s.sys.cn.cfg pnd.mac ∧ Active s.sys.cn.resState r := by
    intro r hr
    obtain ⟨hm,ha⟩ := List.mem_filter.mp hr
    exact ⟨hm,of_decide_eq_true ha⟩
  rcases worked_left h hturn hstage hget hst hw htns hair with ⟨hno,hl,hposted⟩ | ⟨q,p,hreq,hcbk,hl,hposted,hout⟩
  · obtain ⟨hstate,htables,hcfg,hdead⟩ := hl.released h (reached_of_ne fun hw => nomatch hw)
    refine left_inv h hl htables hcfg ?_ ?_ fun hlive => absurd hlive hdead
    · intro x hx
      rw [hposted] at hx
      cases hx
    · intro q hq hlive
      rcases hl.cases hq with rfl | ⟨j,hne,hj⟩
      · exact absurd hlive hdead
      · rcases hcase with ⟨hnil | hzero,-⟩ | ⟨q,hreq,-⟩
        · have hnil : activeIds s pnd = [] := List.map_eq_nil_iff.mp hnil
          rw [told_nil hposted]
          refine assigned_congr fun r => Or.inl ?_
          rw [hstate,hnil]
          exact if_neg List.not_mem_nil
        · have hawait := live_awaited h hj hne hlive
          have hin : q ∈ (setState s.sys.cur .waitAck s.sys.cn).ncn := by
            apply List.mem_of_getElem? (i:=j)
            rw [setState_get,hj,Option.map_some,if_neg hne.symm]
          exact absurd (Acks.mem_broadcastFlags hin hawait) (Acks.isAckZero_empty hzero _)
        · exact nomatch hreq.symm.trans hno
  · have hreach : reached t {pnd with state := .waitAck} = .delFinish := reached_asked hout
    obtain ⟨hstate,htables,hcfg,hdead⟩ := hl.released h hreach
    obtain ⟨hp,hd,hsrv⟩ : p = .del ⟨pnd.nindx,getDelResConfig s.sys.cn.cfg s.sys.cn.resState pnd.mac⟩ ∧
        q.dstnd = 0xFF ∧ q.srvid = 0x15 := by
      rcases hcase with ⟨-,hno⟩ | ⟨q',hreq',hd,hsrv⟩
      · exact nomatch hreq.symm.trans hno
      · cases hreq.symm.trans hreq'
        exact ⟨rfl,hd,hsrv⟩
    have htold : told t.sys = withState (activeIds s pnd) 1 t.sys.cn.resState := by
      rw [told_cons hposted,hp,← delConfig_resid]
      rfl
    have hlen : (getDelResConfig s.sys.cn.cfg s.sys.cn.resState pnd.mac).length < 256 := by
      have hle : (activeIds s pnd).length ≤ maxTrsResCnt :=
        (List.length_filter_le ..).trans (nodeTrsIds_length s.sys.cn.cfg pnd.mac)
      rw [delConfig_map,List.length_map]
      exact Nat.lt_of_le_of_lt hle (by decide)
    refine left_inv h hl htables hcfg ?_ ?_ fun hlive => absurd hlive hdead
    · intro x hx
      rw [hposted,List.mem_singleton] at hx
      rw [hx,hp]
      refine .del _ (activeIds s pnd) hsrv hcbk hd hlen (fun r hr => ?_) ?_
      · rw [hcfg,hstate,if_pos hr]
        exact ⟨(hids r hr).1,rfl⟩
      · rw [hcfg]
        refine delConfig_map.trans (List.map_congr_left fun r hr => ?_)
        rw [delEntry,delEntry,hstate,if_pos hr]
    · intro _ _ _
      rw [htold]
      refine assigned_congr fun r => ?_
      by_cases hr : r ∈ activeIds s pnd
      · refine Or.inr (Or.inr ⟨?_,(hids r hr).2,?_⟩)
        · rw [Active,withState,if_pos hr]
          change (1 : UInt8) ≠ 0
          decide
        · rw [place,place,withState,if_pos hr,hstate,if_pos hr]
      · refine Or.inl ?_
        rw [withState,if_neg hr,hstate,if_neg hr]

/-! ### Requests that go out -/

/-- A request for the record has gone out. -/
structure Sent (d : Delivery) (q : Request) (p : Payload) (pnd : NodeInfo) (s t : Net) : Prop where
  turn : Turn t.sys
  get : s.sys.cn.ncn[s.sys.cur]? = some pnd
  wait : pnd.state = .waitAck
  told : told s.sys = untold p s.sys.cn.resState
  posted : posted t.sys.queue = []
  before : out s.sys = some (q.cbkf,false)
  after : out t.sys = some (q.cbkf,true)
  cn : t.sys.cn = s.sys.cn
  stage : t.sys.stage = s.sys.stage
  cur : t.sys.cur = s.sys.cur
  tns : ∀ n, t.tns n = (s.tns n).map fun tn => (serve d q p n tn).1
  air : t.air = answers d q p s.tns

section Sending

variable {d : Delivery} {q : Request} {p : Payload} {pnd : NodeInfo} {s t : Net}

theorem Sent.rest (h : Sent d q p pnd s t) (hi : Inv s) {x : NodeInfo} (hx : x ∈ s.sys.cn.ncn)
    (hne : x ≠ pnd) : reached t x = reached s x := by
  obtain ⟨j,hj⟩ := List.mem_iff_getElem?.mp hx
  have hjc : j ≠ s.sys.cur := by
    rintro rfl
    exact hne (Option.some.inj (hj.symm.trans h.get))
  exact rest_same hi hj hjc

/-- What is left to show of a request that goes out. -/
theorem sent_inv (hi : Inv s) (h : Sent d q p pnd s t)
    (hlive : ∀ x ∈ s.sys.cn.ncn, Live t x → ∃ tn, t.tns x.nindx = some tn ∧
      Serves s.sys.cn.cfg s.sys.cn.resState x.mac (reached t x ≠ .addRcvRes) tn) : Inv t := by
  have htab : SameTables s.sys.cn t.sys.cn := by
    rw [h.cn]
    exact ⟨rfl,rfl,rfl⟩
  have hncn : t.sys.cn.ncn = s.sys.cn.ncn := congrArg Cn.ncn h.cn
  refine ⟨h.turn,hi.roster.congr hncn fun hb => h.stage ▸ hb,?_,?_,?_,?_,?_⟩
  · refine hi.tables.congr htab (fun m hm => hncn ▸ hm) ?_
    intro x hx hr hu
    rw [hncn] at hx
    refine hi.tables.unplaced x hx hr ?_
    by_cases hxp : x = pnd
    · subst hxp
      rw [reached_wait h.wait,h.after] at hu
      rw [reached_wait h.wait,h.before]
      cases hc : q.cbkf with
      | resId => exact Or.inr (Or.inl rfl)
      | addRcv => exact Or.inr (Or.inr (Or.inl rfl))
      | addTrs | delRes | other =>
        rw [hc] at hu
        exact hu
    · exact h.rest hi hx hxp ▸ hu
  · intro n tn hn
    rw [h.tns] at hn
    obtain ⟨y,hy,rfl⟩ := Option.map_eq_some_iff.mp hn
    exact (serve_same p).2.trans (hi.names n y hy)
  · intro a ha
    rw [h.air] at ha
    obtain ⟨n,tn,-,b,hb,rfl⟩ := mem_answers ha
    exact serve_answers hb
  · intro x hx
    rw [h.posted] at hx
    cases hx
  · intro x hx hl
    rw [hncn] at hx
    rw [told_nil h.posted,h.cn]
    exact hlive x hx hl

/-- Another record that is live was live before, and so its TN is there. -/
theorem Sent.other (h : Sent d q p pnd s t) (hi : Inv s) {x : NodeInfo} (hx : x ∈ s.sys.cn.ncn) (hne : x ≠ pnd)
    (hl : Live t x) : Live s x ∧ ∃ tn, s.tns x.nindx = some tn ∧
      Serves s.sys.cn.cfg (Underway.told s.sys) x.mac (reached t x ≠ .addRcvRes) tn := by
  have hr := h.rest hi hx hne
  have hl' : Live s x := ⟨hl.1,hl.2.1,hr ▸ hl.2.2⟩
  exact ⟨hl',hr ▸ hi.live x hx hl'⟩

/-- A request to one TN leaves the others alone. -/
theorem Sent.alone (h : Sent d q p pnd s t) (hi : Inv s) (hb : q.dstnd ≠ 0xFF) (htold : untold p s.sys.cn.resState = s.sys.cn.resState)
    (hnamed : ∀ tn, s.tns q.dstnd = some tn → tn.state = resNodeCfg → tn.mac = pnd.mac) {x : NodeInfo}
    (hx : x ∈ s.sys.cn.ncn) (hne : x ≠ pnd) (hl : Live t x) : ∃ tn, t.tns x.nindx = some tn ∧
      Serves s.sys.cn.cfg s.sys.cn.resState x.mac (reached t x ≠ .addRcvRes) tn := by
  obtain ⟨-,tn,htn,hs⟩ := h.other hi hx hne hl
  rw [h.told,htold] at hs
  refine ⟨tn,?_,hs⟩
  have hnq : q.dstnd ≠ x.nindx := by
    intro he
    have hm := hnamed tn (he ▸ htn) hs.holds.state
    exact hne (hi.roster.inj hx (List.mem_of_getElem? h.get) (hs.same.symm.trans hm))
  rw [h.tns,htn,Option.map_some,serve_other hnq hb]

/-- `0x12`: the TN takes its configuration over. -/
theorem resId_sent (hi : Inv s) (h : Sent d q (.resId (configFor s.sys.cn.cfg pnd.mac)) pnd s t) (hsrv : q.srvid = 0x12)
    (hcbk : q.cbkf = .resId) (hb : q.dstnd ≠ 0xFF) (hok : SendOk s pnd q (.resId (configFor s.sys.cn.cfg pnd.mac))) :
    Inv t := by
  refine sent_inv hi h fun x hx hl => ?_
  by_cases hxp : x = pnd
  · subst hxp
    have hair : t.air ≠ [] := by
      intro hnil
      obtain ⟨-,-,hl⟩ := hl
      rw [reached_wait h.wait,h.after,hcbk,hnil] at hl
      rcases hl with hl | hl | hl <;> cases hl
    have hreach : reached t x = .addRcvRes := by
      rw [reached_wait h.wait,h.after,hcbk]
      cases ha : t.air with
      | nil => exact absurd ha hair
      | cons a l => rfl
    rw [h.air] at hair
    obtain ⟨a,ha⟩ := List.exists_mem_of_ne_nil _ hair
    obtain ⟨n,tn,htn,b,hbm,-⟩ := mem_answers ha
    have hn : q.dstnd = n := by
      by_contra hn
      rw [serve_other hn hb] at hbm
      cases hbm
    obtain ⟨hmac,hnindx,hsub⟩ := hok tn (hn ▸ htn)
    obtain ⟨hholds,htakes⟩ := holds_takeConfig s.sys.cn.cfg tn
    have hserve : (serve d q (.resId (configFor s.sys.cn.cfg x.mac)) n tn).1 =
        takeConfig tn (configFor s.sys.cn.cfg tn.mac) := by
      rw [serve_resId hsrv hn,← hmac,if_neg htakes]
    have hsame : (takeConfig tn (configFor s.sys.cn.cfg tn.mac)).bside = tn.bside ∧
        (takeConfig tn (configFor s.sys.cn.cfg tn.mac)).mac = tn.mac := by
      rw [takeConfig]
      split <;> exact ⟨rfl,rfl⟩
    refine ⟨takeConfig tn (configFor s.sys.cn.cfg tn.mac),?_,hsame.2.trans hmac,hholds,?_,fun hne => absurd hreach hne⟩
    · rw [h.tns,← hnindx,hn,htn,Option.map_some,hserve]
    · rw [hsame.1,← hmac]
      exact hsub
  · exact h.alone hi hb rfl (fun tn htn _ => (hok tn htn).1) hx hxp hl

/-- `0x14`: the TN installs what is due. -/
theorem rcv_sent {res : Fixres RcvResData} (hi : Inv s) (h : Sent d q (.rcv res) pnd s t) (hsrv : q.srvid = 0x14)
    (hcbk : q.cbkf = .addRcv) (hb : q.dstnd ≠ 0xFF) (hnode : Live s pnd → q.dstnd = pnd.nindx)
    (hlen : res.res.length < 256)
    (hlist : (res.res.map rcvPlace).toFinset = assigned s.sys.cn.cfg s.sys.cn.resState pnd.mac)
    (hok : SendOk s pnd q (.rcv res)) : Inv t := by
  refine sent_inv hi h fun x hx hl => ?_
  by_cases hxp : x = pnd
  · subst hxp
    have hreach : reached s x = .addRcvRes := by rw [reached_wait h.wait,h.before,hcbk]; rfl
    have hlive : Live s x := ⟨hl.1,hl.2.1,Or.inl hreach⟩
    obtain ⟨tn,htn,hs⟩ := hi.live x hx hlive
    have hd := hnode hlive
    rw [h.told] at hs
    have hserve : (serve d q (.rcv res) x.nindx tn).1 = {tn with bside := tn.bside ++ addRcvMsgs res} := by
      rw [serve_rcv hsrv hd hlen,if_neg (not_not.mpr hs.holds.state)]
    have hinst : installed (tn.bside ++ addRcvMsgs res) =
        installed tn.bside ∪ assigned s.sys.cn.cfg s.sys.cn.resState x.mac := by
      rw [installed_addRcv,hlist]
    refine ⟨{tn with bside := tn.bside ++ addRcvMsgs res},?_,hs.same,
      ⟨hs.holds.state,hs.holds.rcvall,hs.holds.rcvResId⟩,?_,fun _ => ?_⟩
    · rw [h.tns,htn,Option.map_some,hserve]
    · rw [hinst]
      exact Finset.union_subset hs.sub (Finset.Subset.refl _)
    · rw [hinst]
      exact Finset.subset_union_right
  · exact h.alone hi hb rfl hok hx hxp hl

/-- A TN is the one a broadcast is about just when it has the node's MAC. -/
theorem own_iff (hi : Inv s) {snode : UInt8} (hpnd : pnd ∈ s.sys.cn.ncn) (hnamed : Alone s snode pnd.mac)
    (hnode : Live s pnd → snode = pnd.nindx) {x : NodeInfo} (hx : x ∈ s.sys.cn.ncn) (hl : Live s x) {tn : TnCtx}
    (htn : s.tns x.nindx = some tn) (hm : tn.mac = x.mac) (hst : tn.state = resNodeCfg) :
    snode = tn.nodeid ↔ tn.mac = pnd.mac := by
  rw [hi.names _ tn htn]
  constructor
  · intro he
    exact hnamed tn (he ▸ htn) hst
  · intro he
    obtain rfl := hi.roster.inj hx hpnd (hm.symm.trans he)
    exact hnode hl

/-- `0x13`: the live TNs install those of the node's resources that are due. -/
theorem trs_sent {res : Fixres TrsResData} {ids : List UInt8} (hi : Inv s) (h : Sent d q (.trs res) pnd s t)
    (hsrv : q.srvid = 0x13) (hcbk : q.cbkf = .addTrs) (hb : q.dstnd = 0xFF)
    (hnode : Live s pnd → res.snode = pnd.nindx) (hlen : res.res.length < 256)
    (hids : ∀ r ∈ ids, r ∈ nodeTrsIds s.sys.cn.cfg pnd.mac ∧ r ∈ tblIds ∧ Active s.sys.cn.resState r)
    (hres : (res.res.map fun t => (t.resid,t.send2all,trsPlace t)) =
      ids.map fun r => (r,(s.sys.cn.cfg.resCfgTbl r).send2all,place s.sys.cn.cfg s.sys.cn.resState r))
    (hok : SendOk s pnd q (.trs res)) : Inv t := by
  obtain ⟨hnamed,hhear⟩ := hok
  have hpnd := List.mem_of_getElem? h.get
  have hresid : res.res.map TrsResData.resid = ids := by
    have hfst := congrArg (List.map Prod.fst) hres
    rw [List.map_map,List.map_map] at hfst
    exact hfst.trans (List.map_id _)
  have htold : ∀ r, told s.sys r =
      if r ∈ ids then {s.sys.cn.resState r with state := 0} else s.sys.cn.resState r := by
    intro r
    rw [h.told,← hresid]
    rfl
  refine sent_inv hi h fun x hx hl => ?_
  have hreach : reached t x = reached s x := by
    by_cases hxp : x = pnd
    · rw [hxp,reached_wait h.wait,reached_wait h.wait,h.before,h.after,hcbk]
      rfl
    · exact h.rest hi hx hxp
  have hlive : Live s x := ⟨hl.1,hl.2.1,hreach ▸ hl.2.2⟩
  obtain ⟨tn,htn,hs⟩ := hi.live x hx hlive
  let new : Finset Place :=
    ((ids.filter (wanted s.sys.cn.cfg x.mac)).map (place s.sys.cn.cfg s.sys.cn.resState)).toFinset
  have hdue : assigned s.sys.cn.cfg s.sys.cn.resState x.mac = assigned s.sys.cn.cfg (told s.sys) x.mac ∪ new := by
    refine assigned_place (fun r hr => ⟨(hids r hr).2.1,?_,(hids r hr).2.2⟩) fun r hr => ?_
    · rw [Active,htold,if_pos hr]
      exact fun hn => hn rfl
    · rw [htold,if_neg hr]
  have hserve : (serve d q (.trs res) x.nindx tn).1 = {tn with bside := tn.bside ++ addTrsMsgs tn res} := by
    rw [serve_trs hsrv hb hlen,if_neg (not_not.mpr hs.holds.state)]
  have hinst : installed (tn.bside ++ addTrsMsgs tn res) = installed tn.bside ∪ new := by
    have hi' := installed_trs hi.tables.sound hs.holds (fun r hr => (hids r hr).1)
      (fun hne r hr => hhear x hx hlive (hs.same ▸ hne) tn htn r (hresid ▸ hr)) res
      (own_iff hi hpnd hnamed hnode hx hlive htn hs.same hs.holds.state) hres
    rw [hs.same] at hi'
    exact hi'
  refine ⟨{tn with bside := tn.bside ++ addTrsMsgs tn res},?_,hs.same,
    ⟨hs.holds.state,hs.holds.rcvall,hs.holds.rcvResId⟩,?_,fun hq => ?_⟩
  · rw [h.tns,htn,Option.map_some,hserve]
  · rw [hinst,hdue]
    exact Finset.union_subset_union_left hs.sub
  · rw [hinst,hdue]
    exact Finset.union_subset_union_left (hs.full (hreach ▸ hq))

/-- `0x15`: the live TNs delete those of the node's resources that they had. -/
theorem del_sent {res : Fixres DelResData} {ids : List UInt8} (hi : Inv s) (h : Sent d q (.del res) pnd s t)
    (hsrv : q.srvid = 0x15) (hcbk : q.cbkf = .delRes) (hb : q.dstnd = 0xFF) (hlen : res.res.length < 256)
    (hids : ∀ r ∈ ids, r ∈ nodeTrsIds s.sys.cn.cfg pnd.mac ∧ (s.sys.cn.resState r).state = 0)
    (hres : res.res = ids.map (delEntry s.sys.cn.cfg s.sys.cn.resState)) (hok : SendOk s pnd q (.del res)) : Inv t := by
  obtain ⟨hnamed,hhear,hleaves⟩ := hok
  have hpnd := List.mem_of_getElem? h.get
  have hresid : res.res.map DelResData.resid = ids := by
    rw [hres,List.map_map]
    exact List.map_id _
  have htold : ∀ r, told s.sys r =
      if r ∈ ids then {s.sys.cn.resState r with state := 1} else s.sys.cn.resState r := by
    intro r
    rw [h.told,← hresid]
    rfl
  have hplace : ∀ r, place s.sys.cn.cfg (told s.sys) r = place s.sys.cn.cfg s.sys.cn.resState r := by
    intro r
    rw [place,place,htold]
    split <;> rfl
  have hreach : reached s pnd = .delFinish ∧ reached t pnd = .delFinish := by
    rw [reached_wait h.wait,reached_wait h.wait,h.before,h.after,hcbk]
    exact ⟨rfl,rfl⟩
  refine sent_inv hi h fun x hx hl => ?_
  have hxp : x ≠ pnd := by
    rintro rfl
    obtain ⟨-,-,hl⟩ := hl
    rw [hreach.2] at hl
    rcases hl with hl | hl | hl <;> cases hl
  obtain ⟨hlive,tn,htn,hs⟩ := h.other hi hx hxp hl
  have hmac : x.mac ≠ pnd.mac := fun he => hxp (hi.roster.inj hx hpnd he)
  let gone : Finset Place :=
    ((ids.filter (wanted s.sys.cn.cfg x.mac)).map (place s.sys.cn.cfg (told s.sys))).toFinset
  have hdue : assigned s.sys.cn.cfg s.sys.cn.resState x.mac = assigned s.sys.cn.cfg (told s.sys) x.mac \ gone := by
    refine assigned_release (fun r => ?_) ?_
    · rw [htold]
      by_cases hr : r ∈ ids
      · rw [if_pos hr,if_pos hr,← (hids r hr).2]
      · rw [if_neg hr,if_neg hr]
    · intro r hr y hy ha hno hwr hwy
      rw [hplace,hplace]
      rw [Active,htold,if_neg hno] at ha
      exact hleaves x hx hlive hmac r (hresid ▸ hr) y hy ha (fun hm => hno (hresid ▸ hm)) hwr hwy
  have hserve : (serve d q (.del res) x.nindx tn).1 =
      {tn with bside := tn.bside ++ delMsgs (d.stack x.nindx) tn res} := by
    rw [serve_del hsrv hb hlen,if_neg (not_not.mpr hs.holds.state)]
  have hinst : installed (tn.bside ++ delMsgs (d.stack x.nindx) tn res) = installed tn.bside \ gone := by
    have hdead : ¬Live s pnd := by
      rintro ⟨-,-,hd⟩
      rw [hreach.1] at hd
      rcases hd with hd | hd | hd <;> cases hd
    have hlist : res.res = ids.map (delEntry s.sys.cn.cfg (told s.sys)) := by
      refine hres.trans (List.map_congr_left fun r hr => ?_)
      rw [delEntry,delEntry,htold,if_pos hr]
    have hi' := installed_dels hi.tables.sound hs.holds (fun r hr => (hids r hr).1)
      (fun hne r hr => hhear x hx hlive (hs.same ▸ hne) tn htn r (hresid ▸ hr)) (d.stack x.nindx) res
      (own_iff hi hpnd hnamed (fun hl => absurd hl hdead) hx hlive htn hs.same hs.holds.state) hlist
    rw [hs.same] at hi'
    exact hi'
  refine ⟨{tn with bside := tn.bside ++ delMsgs (d.stack x.nindx) tn res},?_,hs.same,
    ⟨hs.holds.state,hs.holds.rcvall,hs.holds.rcvResId⟩,?_,fun hq => ?_⟩
  · rw [h.tns,htn,Option.map_some,hserve]
  · rw [hinst,hdue]
    exact Finset.sdiff_subset_sdiff hs.sub (Finset.Subset.refl _)
  · rw [hinst,hdue]
    exact Finset.sdiff_subset_sdiff (hs.full hq) (Finset.Subset.refl _)

end Sending

/-- A message leaves the queue. -/
theorem send_inv {d : Delivery} {s t : Net} (h : Inv s) (hok : HeadOk s s.sys.queue.head?) (hs : step s (.send d) = some t) : Inv t := by
  have hturn := step_turn h hs
  rcases send_cases hs with ⟨m,queue,hq,rfl⟩ | ⟨q,p,queue,hq,rfl⟩
  · have hposted : posted queue = posted s.sys.queue := by
      rw [hq]
      rfl
    have hout : out {s.sys with queue := queue} = out s.sys := by
      refine out_congr ?_ rfl
      dsimp only
      rw [jobs_eq,jobs_eq s.sys.queue,hposted]
    refine h.keep hturn (h.roster.congr rfl id) ⟨rfl,rfl,rfl⟩ hposted (Or.inl rfl) h.names h.air ?_ ?_
    · intro j p hp
      exact ⟨p,hp,.of_reached rfl rfl rfl id (reached_congr hout rfl rfl) fun _ => rfl⟩
    · intro j q hq hp
      exact nomatch hp.symm.trans hq
  · have hmem : (q,p) ∈ posted s.sys.queue := by
      rw [hq]
      exact List.mem_cons_self
    obtain ⟨pnd,hget,hpost⟩ := h.posted (q,p) hmem
    obtain ⟨honly,-⟩ := posted_only h.turn h.asked hmem
    have hrest : posted queue = [] := by
      rw [hq] at honly
      exact (List.cons.inj honly).2
    have hwait : pnd.state = .waitAck := by
      have hjob : (q.cbkf,q.parg) ∈ jobs s.sys.queue s.sys.reqs := by
        rw [jobs_eq,honly,List.filterMap_cons,Manager.job_ne_other hpost.cbkf]
        exact List.mem_cons_self
      obtain ⟨w,-,-,hst⟩ := h.turn.mine _ hjob
      rw [stateAt,hget] at hst
      exact Option.some.inj hst
    have hafter : out {s.sys with queue := queue,reqs := {q with armed := true}::s.sys.reqs} = some (q.cbkf,true) := by
      refine out_sent hturn (q:={q with armed := true}) (fun x hx => ?_) List.mem_cons_self hpost.cbkf
      change x ∈ posted queue at hx
      rw [hrest] at hx
      cases hx
    have hsent : Sent d q p pnd s (deliver d q p {s with
        sys := {s.sys with queue := queue,reqs := {q with armed := true}::s.sys.reqs}}) :=
      ⟨hturn,hget,hwait,told_cons honly,hrest,out_posted h.turn h.asked hmem,hafter,rfl,rfl,rfl,fun _ => rfl,rfl⟩
    have hok : SendOk s pnd q p := by
      rw [hq] at hok
      exact hok pnd hget
    cases hpost with
    | resId h1 h2 h3 => exact resId_sent h hsent h1 h2 h3 hok
    | rcv res h1 h2 h3 h4 h5 h6 => exact rcv_sent h hsent h1 h2 h3 h4 h5 h6 hok
    | trs res ids h1 h2 h3 h4 h5 h6 h7 => exact trs_sent h hsent h1 h2 h3 h4 h5 h6 h7 hok
    | del res ids h1 h2 h3 h4 h5 h6 => exact del_sent h hsent h1 h2 h3 h4 h5 h6 hok

/-! ### Answers -/

/-- A callback ends the exchange: the record is where its TN has been since the request went
out, or has failed. -/
theorem ended_inv {s t : Net} {pnd : NodeInfo} {st : ResStage} (h : Inv s) (hturn : Turn t.sys)
    (hget : s.sys.cn.ncn[s.sys.cur]? = some pnd) (hwait : pnd.state = .waitAck) (hposted : posted s.sys.queue = [])
    (hne : st ≠ .waitAck) (hst : st = reached s pnd ∨ st = .fail) (hcn : t.sys.cn.ncn = (setState s.sys.cur st s.sys.cn).ncn)
    (htab : SameTables s.sys.cn t.sys.cn) (hstage : t.sys.stage = s.sys.stage) (hqueue : t.sys.queue = s.sys.queue)
    (htns : t.tns = s.tns) (hair : t.air = s.air) : Inv t := by
  have hrole : pnd.role ≠ 0 := by
    intro h0
    have hcn := h.roster.cn pnd (List.mem_of_getElem? hget) h0
    rw [hwait] at hcn
    rcases hcn with hcn | hcn <;> cases hcn
  have hboot : s.sys.stage ≠ .boot := by
    intro hb
    have hinit := h.roster.boot hb pnd (List.mem_of_getElem? hget)
    exact nomatch hwait.symm.trans hinit
  have hroster : Roster t.sys := by
    refine h.roster.modify hcn ?_ fun hb => hstage ▸ hb
    intro p hp
    obtain rfl := Option.some.inj (hget.symm.trans hp)
    exact ⟨rfl,h.roster.ids pnd (List.mem_of_getElem? hget),fun h0 => absurd h0 hrole,
      fun hb => absurd (hstage ▸ hb) hboot⟩
  have hreach : reached t {pnd with state := st} = st := reached_of_ne hne
  refine h.keep hturn hroster htab (by rw [hqueue]) (Or.inr hposted) (htns ▸ h.names) (hair ▸ h.air)
    (modify_hold hcn ?_ ?_) fun j q => modify_new hcn j q
  · intro p hp
    obtain rfl := Option.some.inj (hget.symm.trans hp)
    rcases hst with hst | hst
    · exact .of_reached rfl rfl rfl id (hreach.trans hst) fun _ => by rw [htns]
    · refine .of_out rfl rfl ?_ fun hu => ?_
      · rintro ⟨-,-,hl⟩
        rw [hreach,hst] at hl
        rcases hl with hl | hl | hl <;> cases hl
      · rw [hreach,hst] at hu
        rcases hu with hu | hu | hu | hu | hu <;> cases hu
  · intro j p hj hjk
    exact .of_reached rfl rfl rfl id (rest_same h hj hjk) fun _ => by rw [htns]

/-- What the other thread does besides: the manager's request stays where it is. -/
theorem other_inv {s t : Net} (h : Inv s) (hturn : Turn t.sys) (hncn : t.sys.cn.ncn = s.sys.cn.ncn)
    (htab : SameTables s.sys.cn t.sys.cn) (hstage : t.sys.stage = s.sys.stage) (hcur : t.sys.cur = s.sys.cur)
    (hqueue : t.sys.queue = s.sys.queue) (hjobs : jobs [] t.sys.reqs = jobs [] s.sys.reqs) (htns : t.tns = s.tns)
    (hair : t.air = s.air) : Inv t := by
  have hout : out t.sys = out s.sys := by
    refine out_congr ?_ hjobs
    rw [jobs_eq,hqueue,hjobs,← jobs_eq]
  refine h.keep hturn (h.roster.congr hncn fun hb => hstage ▸ hb) htab (by rw [hqueue]) (Or.inl hcur)
    (htns ▸ h.names) (hair ▸ h.air) ?_ ?_
  · intro j p hp
    exact ⟨p,hncn ▸ hp,.of_reached rfl rfl rfl id (reached_congr hout hair rfl) fun _ => by rw [htns]⟩
  · intro j q hq hp
    rw [hncn,hp] at hq
    cases hq

theorem jobs_erase_other {reqs : List Request} {i : ℕ} {q : Request} (h : reqs[i]? = some q) (ho : q.cbkf = .other) :
    jobs [] (reqs.eraseIdx i) = jobs [] reqs := by
  induction reqs generalizing i with
  | nil => rfl
  | cons r reqs ih =>
    cases i with
    | zero =>
      obtain rfl : r = q := by simpa using h
      simp [jobs,Manager.job_other ho]
    | succ i =>
      have hrest := ih (i:=i) (by simpa using h)
      simp only [jobs,List.filterMap_nil,List.nil_append] at hrest
      simp only [jobs,List.filterMap_nil,List.nil_append,List.eraseIdx_cons_succ,List.filterMap_cons,hrest]

theorem callCbk_none {q : Request} (h : q.cbkf = .resId) (cn : Cn) :
    callCbk q 0 none cn = (setState q.parg .fail cn,1) := by
  rw [callCbk,h]
  rfl

/-- The callback of a request in `req_list`. -/
theorem called_inv {s t : Net} {q q' : Request} {i ilen : ℕ} {ibuf : Option UInt8} {r : Cn × ℕ} (h : Inv s)
    (hturn : Turn t.sys) (hq : s.sys.reqs[i]? = some q) (hcb : q'.cbkf = q.cbkf) (hpa : q'.parg = q.parg)
    (hr : Called q' ilen ibuf s.sys.cn r) (hans : q.cbkf = .resId → s.air ≠ [] ∨ r = (setState q'.parg .fail s.sys.cn,1))
    (hkeep : ibuf ≠ none → r.2 ≠ 0 → t.sys.reqs = s.sys.reqs)
    (hgone : r.2 = 0 → t.sys.reqs = s.sys.reqs.eraseIdx i) (hcn : t.sys.cn = r.1) (hstage : t.sys.stage = s.sys.stage)
    (hcur : t.sys.cur = s.sys.cur) (hqueue : t.sys.queue = s.sys.queue) (htns : t.tns = s.tns)
    (hair : t.air = s.air) : Inv t := by
  by_cases ho : q.cbkf = .other
  · cases hr with
    | done w hw _ => exact absurd (hw.symm.trans (hcb.trans ho)) w.cbk_ne_other
    | fail w hw _ _ => exact absurd (hw.symm.trans (hcb.trans ho)) w.cbk_ne_other
    | wait w hw _ _ _ => exact absurd (hw.symm.trans (hcb.trans ho)) w.cbk_ne_other
    | other _ =>
      refine other_inv h hturn (by rw [hcn]) ?_ hstage hcur hqueue ?_ htns hair
      · rw [hcn]
        exact ⟨rfl,rfl,rfl⟩
      · rw [hgone rfl]
        exact jobs_erase_other hq ho
  · obtain ⟨-,w,hcbk,hparg,-,hst⟩ := h.turn.only hq ho
    have hmem := List.mem_of_getElem? hq
    have hposted := posted_sent h.turn h.asked hmem ho
    have hout := out_sent h.turn h.asked hmem ho
    obtain ⟨pnd,hget,hwait⟩ := Option.map_eq_some_iff.mp hst
    have hparg : q'.parg = s.sys.cur := hpa.trans hparg
    have hend : ∀ st f, st ≠ .waitAck → (st = reached s pnd ∨ st = .fail) →
        t.sys.cn = setState q'.parg st {s.sys.cn with ackFlag := f} → Inv t := by
      intro st f hne hreach ht
      rw [hparg] at ht
      refine ended_inv h hturn hget hwait hposted hne hreach ?_ ?_ hstage hqueue htns hair
      · rw [ht]
        rfl
      · rw [ht]
        exact ⟨rfl,rfl,rfl⟩
    cases hr with
    | done v hv hz =>
      have hcv : q.cbkf = v.cbk := hcb.symm.trans hv
      refine hend _ _ v.done_ne_waitAck ?_ hcn
      rw [reached_wait hwait,hout,hcv]
      refine Or.inl (waitsAt_done v _ fun hv' => ?_).symm
      subst hv'
      rcases hans hcv with hne | hno
      · cases ha : s.air with
        | nil => exact absurd ha hne
        | cons a l => rfl
      · exact nomatch congrArg Prod.snd hno
    | fail v hv hz hi => exact hend .fail s.sys.cn.ackFlag (by decide) (Or.inr rfl) hcn
    | wait v hv hc hi hz =>
      refine other_inv h hturn (by rw [hcn]) ?_ hstage hcur hqueue ?_ htns hair
      · rw [hcn]
        exact ⟨rfl,rfl,rfl⟩
      · rw [hkeep hi Nat.one_ne_zero]
    | other hother => exact absurd (hcb.symm.trans hother) ho

theorem answer_inv {i : ℕ} {s t : Net} (h : Inv s) (hs : step s (.answer i) = some t) : Inv t := by
  have hturn := step_turn h hs
  obtain ⟨m,sys,hm,hsys,rfl,-⟩ := step_cases hs
  obtain ⟨a,ha,rfl⟩ := Option.map_eq_some_iff.mp hm
  have hair : s.air ≠ [] := List.ne_nil_of_mem (List.mem_of_getElem? ha)
  obtain rfl := Option.some.inj hsys
  rcases Manager.respond_cases a.srvid a.sessn a.ilen a.node s.sys with ⟨-,he⟩ | ⟨j,q,⟨-,hq⟩,he⟩
  · rw [he] at hturn ⊢
    exact h
  · rw [he] at hturn ⊢
    refine called_inv h hturn hq rfl rfl (Manager.callCbk_called q a.ilen (some a.node) s.sys.cn)
      (fun _ => Or.inl hair) ?_ ?_ rfl rfl rfl rfl rfl rfl
    · exact fun _ hr => if_neg hr
    · exact fun hr => if_pos hr

theorem timeout_inv {i : ℕ} {net : Send} {s t : Net} (h : Inv s) (hs : step s (.timeout i net) = some t) : Inv t := by
  have hturn := step_turn h hs
  obtain ⟨m,sys,hm,hsys,rfl,-⟩ := step_cases hs
  obtain rfl := Option.some.inj hm
  obtain ⟨q,hq,⟨-,r,rfl⟩ | ⟨-,rfl⟩⟩ := Manager.requestTout_cases hsys
  · have hcalled := Manager.callCbk_called {q with retry := r} 0 none s.sys.cn
    have hpass : ({q with retry := r} : Request).cbkf = q.cbkf := rfl
    refine called_inv h hturn hq hpass rfl hcalled ?_ ?_ ?_ rfl rfl rfl rfl rfl rfl
    · exact fun hc => Or.inr (callCbk_none hc s.sys.cn)
    · exact fun hn => absurd rfl hn
    · exact fun _ => rfl
  · refine other_inv h hturn rfl ⟨rfl,rfl,rfl⟩ rfl rfl rfl ?_ rfl rfl
    exact @Manager.jobs_set s.sys.reqs i q {q with retry := q.retry-1} hq rfl []

/-! ### Runs -/

theorem round_inv {s t : Net} (h : Inv s) (hok : RoundOk s) (hs : step s .round = some t) : Inv t := by
  have hturn := step_turn h hs
  obtain ⟨m,sys,hm,hsys,rfl,-⟩ := step_cases hs
  obtain rfl := Option.some.inj hm
  rcases round_cases hsys with ⟨w,pnd,hstage,hget,hst,hw⟩ | ⟨hp,hquiet⟩
  · have hok := hok pnd hget w hstage hst
    cases w with
    | resId => exact resId_asked h hturn hstage hget hst hw rfl rfl
    | rcv => exact rcv_asked h hturn hok hstage hget hst hw rfl rfl
    | trs => exact trs_asked h hturn hok hstage hget hst hw rfl rfl
    | del => exact del_asked h hturn hstage hget hst hw rfl rfl
  · exact passed_inv h hturn hp hquiet rfl rfl

theorem step_inv {es : List Event} {s t : Net} {e : Event} (h : Inv s) (hg : Guard es s e)
    (hs : step s e = some t) : Inv t := by
  cases e with
  | cnOnline ok => exact cnOnline_inv h hg hs
  | newTn nid tn ok => exact newTn_inv h hg hs
  | lost nid => exact lost_inv h hg hs
  | round => exact round_inv h hg hs
  | send d => exact send_inv h hg hs
  | answer i => exact answer_inv h hs
  | timeout i net => exact timeout_inv h hs

theorem run_inv {s₀ s : Net} {es : List Event} (h0 : Start s₀) (h : Run step Guard s₀ es s) : Inv s :=
  h.invariant (I:=fun _ s => Inv s) (start_inv h0) fun _ _ _ _ _ hi hg hs => step_inv hi hg hs

def wideMac : Mac := 0x020000000007#48
def otherMac : Mac := 0x020000000003#48

/-- A node is configured that sends nothing. -/
def withListener (cfg : ResmgrConfig) (rcvall : UInt8) (ids : Fin 16 → UInt8) : ResmgrConfig :=
  {cfg with nodeCfgTbl := Function.update cfg.nodeCfgTbl 5 ⟨wideMac,configEnable,rcvall,fun _ => 0,ids⟩}

theorem withListener_sound {cfg : ResmgrConfig} (h : Sound cfg) (rcvall : UInt8) (ids : Fin 16 → UInt8) :
    Sound (withListener cfg rcvall ids) := by
  have hrest : ∀ (k : Fin 64) (c : Fin 8), ((withListener cfg rcvall ids).nodeCfgTbl k).trsResId c ≠ 0 →
      (withListener cfg rcvall ids).nodeCfgTbl k = cfg.nodeCfgTbl k := by
    intro k c hk
    refine Function.update_of_ne ?_ ..
    rintro rfl
    exact hk rfl
  refine ⟨h.indexed,fun i j a b hi hj h0 he => ?_⟩
  have hi' := hrest i a h0
  have hj' := hrest j b (he ▸ h0)
  rw [hi'] at hi h0 he
  rw [hj'] at hj he
  exact h.unique i j a b hi hj h0 he

def netOf (cfg : ResmgrConfig) : Net := ⟨Manager.start {mixedCn 1 3 with cfg := cfg},fun _ => none,[]⟩

theorem netOf_start {cfg : ResmgrConfig} (h : Sound cfg)
    (ht : ∀ n < 256, Enabled cfg (UInt8.ofNat n) → UInt8.ofNat n < 254) : Start (netOf cfg) := by
  refine ⟨⟨rfl,rfl,rfl,rfl⟩,h,fun r hr => ?_,fun _ hr => hr rfl,?_,fun _ => rfl,rfl⟩
  · have hn := ht r.toNat r.toNat_lt
    rw [UInt8.ofNat_toNat] at hn
    exact hn hr
  · change (0 : UInt8) ≠ 1
    decide

def device (mac : Mac) : TnCtx := ⟨0,0,1,mac,0,fun _ => 0,fun _ => 0,0,fun _ => 0,[]⟩

def sendOne : Event := .send ⟨fun _ => 0,[]⟩

/-- A TN is reported and gets its ids; nothing is due to it. -/
def joinRun (nid : UInt8) (mac : Mac) : List Event :=
  [.newTn nid (device mac) true,.round,.round,sendOne,.answer 0,.round]

/-- One TN listens to what the two others send. -/
def pairConfig : ResmgrConfig :=
  withListener ((Edit.addTrs .table 4 otherMac 0).apply ((Edit.addRes 4 ⟨0,0,1,8,0,0,0⟩).apply leaveConfig)) 0
    fun j => if j = 0 then 3 else if j = 1 then 4 else 0

/-- The listener joins, then the senders, and one of them leaves. -/
def pairRun : List Event :=
  [.cnOnline true,.round] ++ joinRun 5 wideMac ++ [.round,.round] ++ joinRun 6 tnMac ++
    [.round,sendOne,.answer 0,.round] ++ joinRun 7 otherMac ++
    [.round,sendOne,.answer 0,.answer 1,.round,.lost 6,.round,.round,sendOne,.answer 0,.answer 1,.round]

theorem pair_start : Start (netOf pairConfig) := by
  have hleave : Sound leaveConfig :=
    (sound_empty.apply (.addRes 3 ⟨0,0,1,8,0,0,0⟩)).apply (.addTrs .table 3 tnMac 0)
  have hpair := (hleave.apply (.addRes 4 ⟨0,0,1,8,0,0,0⟩)).apply (.addTrs .table 4 otherMac 0)
  exact netOf_start (withListener_sound hpair _ _) (by decide +kernel)

/-- The node with the MAC `wideMac` is configured to receive everything. -/
def wideConfig : ResmgrConfig := withListener leaveConfig 1 fun _ => 0

/-- Its TN joins, and after it another one that sends. -/
def wideRun : List Event :=
  [.cnOnline true,.round] ++ joinRun 5 wideMac ++ [.round,.round] ++ joinRun 6 tnMac ++
    [.round,sendOne,.answer 0,.round]

end Exchanges
end Autbus
