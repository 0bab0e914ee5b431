import Autbus.Reports
import Autbus.Turns

/-! What the manager makes of the reports about one TN. The reports leave two flags and
not their order; what the manager will make of the flags can be told from them at once,
and only a further report changes it. -/
namespace Autbus
namespace Settling

open ResTables Nodes Trace Manager Reports
open SrvRpc (Send)

/-! ### Reports about one node -/

/-- A report about the TN with the id and the MAC. -/
def About (i : UInt8) (m : Mac) : Event → Prop
  | .nwNode _ mac _ _ _ _ => mac = m
  | .lsNode nid => nid = i
  | _ => False

def isNwNode : Event → Bool
  | .nwNode _ _ _ _ _ _ => true
  | _ => false

/-- The id and the MAC are reported together only. -/
def Paired (i : UInt8) (m : Mac) : Event → Prop
  | .nwNode nid mac _ _ _ _ => mac = m ↔ nid = i
  | _ => True

/-- Every request of the manager is answered: none is given up, and no answer to the 0x13
request is empty, which the code takes for a timeout. -/
def Answered (s : Sys) : Event → Prop
  | .response srvid sessn ilen _ => ∀ j q, answered srvid sessn s j q → q.cbkf = .addTrs → ilen ≠ 0
  | .timeout j net => ∀ q, s.reqs[j]? = some q → q.cbkf ≠ .other → expires q net = false
  | _ => True

def Guard (i : UInt8) (m : Mac) (_ : List Event) (s : Sys) (e : Event) : Prop := Answered s e ∧ Paired i m e

/-- The record is up, or on its way up. -/
def up (s : Sys) (k : ℕ) (pnd : NodeInfo) : Bool :=
  if s.cur = k ∧ s.stage = .online then true
  else if s.cur = k ∧ s.stage = .offline then false
  else !isDown pnd

/-- Where the flags take the record when no report comes any more: a record that is up
goes down for `offline` and then up again for `online`, one that is down the other way
round. -/
def forecast (s : Sys) (k : ℕ) (pnd : NodeInfo) : Bool :=
  if up s k pnd then !pnd.offline || pnd.online else pnd.online && !pnd.offline

/-- The report does not meet its own opposite still pending: no loss is pending for a node
that is down when it arrives, no arrival for a node that is up when it is lost. -/
def InTime (m : Mac) (s : Sys) : Event → Prop
  | .nwNode _ _ _ _ _ _ => ∀ k pnd, s.cn.ncn[k]? = some pnd → pnd.mac = m →
      up s k pnd = true ∨ pnd.offline = false
  | .lsNode _ => ∀ k pnd, s.cn.ncn[k]? = some pnd → pnd.mac = m → up s k pnd = false ∨ pnd.online = false
  | _ => True

/-! ### The record of the node -/

/-- In a list of keys one record at most has the MAC, and it alone has the id. -/
structure Named (i : UInt8) (m : Mac) (l : List (Mac × UInt8)) : Prop where
  same : ∀ x ∈ l, x.1 = m ↔ x.2 = i
  one : ∀ (j k : ℕ) (x y : Mac × UInt8), l[j]? = some x → l[k]? = some y → x.1 = m → y.1 = m → j = k

theorem Named.append {i : UInt8} {m : Mac} {l : List (Mac × UInt8)} {x : Mac × UInt8} (h : Named i m l)
    (hx : x.1 = m ↔ x.2 = i) (hnew : x.1 = m → ∀ y ∈ l, y.1 ≠ m) : Named i m (l ++ [x]) where
  same := by
    intro y hy
    rcases List.mem_append.mp hy with hy | hy
    · exact h.same y hy
    · exact List.mem_singleton.mp hy ▸ hx
  one := by
    have hcase : ∀ (j : ℕ) (y : Mac × UInt8), (l ++ [x])[j]? = some y → l[j]? = some y ∨ y = x ∧ j = l.length := by
      intro j y hj
      by_cases hlt : j < l.length
      · exact Or.inl (by rwa [List.getElem?_append_left hlt] at hj)
      · rw [List.getElem?_append_right (by omega)] at hj
        have h1 := (List.getElem?_eq_some_iff.mp hj).1
        have h0 : j = l.length := by
          simp only [List.length_singleton] at h1
          omega
        subst h0
        exact Or.inr ⟨by simpa using hj.symm,rfl⟩
    intro j k y z hj hk hy hz
    rcases hcase j y hj with hj' | ⟨hyx,hjl⟩
    · rcases hcase k z hk with hk' | ⟨hzx,-⟩
      · exact h.one j k y z hj' hk' hy hz
      · exact absurd hy (hnew (hzx ▸ hz) y (List.mem_of_getElem? hj'))
    · rcases hcase k z hk with hk' | ⟨-,hkl⟩
      · exact absurd hz (hnew (hyx ▸ hy) z (List.mem_of_getElem? hk'))
      · exact hjl.trans hkl.symm

theorem Named.modify {i : UInt8} {m : Mac} {l : List (Mac × UInt8)} {x : Mac × UInt8} {n : ℕ} (h : Named i m l)
    (hx : x.1 = m ↔ x.2 = i) (hold : ∀ y : Mac × UInt8, l[n]? = some y → y.1 = x.1) : Named i m (l.modify n fun _ => x) := by
  have hback : ∀ (j : ℕ) (y : Mac × UInt8), (l.modify n fun _ => x)[j]? = some y →
      (y = x ∨ y ∈ l) ∧ ∃ z, l[j]? = some z ∧ z.1 = y.1 := by
    intro j y hj
    rw [List.getElem?_modify] at hj
    obtain ⟨z,hz,he⟩ := Option.map_eq_some_iff.mp hj
    by_cases hn : n = j
    · subst hn
      obtain rfl : x = y := by simpa using he
      exact ⟨Or.inl rfl,z,hz,hold z hz⟩
    · obtain rfl : z = y := by simpa [hn] using he
      exact ⟨Or.inr (List.mem_of_getElem? hz),z,hz,rfl⟩
  refine ⟨fun y hy => ?_,fun j k y z hj hk hy hz => ?_⟩
  · obtain ⟨j,hj⟩ := List.mem_iff_getElem?.mp hy
    rcases (hback j y hj).1 with rfl | hm
    · exact hx
    · exact h.same y hm
  · obtain ⟨-,y',hj',hy'⟩ := hback j y hj
    obtain ⟨-,z',hk',hz'⟩ := hback k z hk
    exact h.one j k y' z' hj' hk' (hy'.trans hy) (hz'.trans hz)

theorem report_named {i : UInt8} {m cnMac : Mac} {e : Event} {l : List (Mac × UInt8)} (h : Named i m l)
    (hi : i ≠ 0) (hm : m ≠ cnMac) (hp : Paired i m e) : Named i m (report cnMac e l) := by
  cases e with
  | rptOnline ok ptr =>
    cases ok with
    | false => exact h
    | true =>
      have hno : ¬cnMac = m := fun he => hm he.symm
      have hno' : ¬(0 : UInt8) = i := fun he => hi he.symm
      exact h.append (iff_of_false hno hno') fun he => absurd he hno
  | nwNode nid mac ok ptr create env =>
    rw [report]
    cases hf : l.findIdx? fun x => x.1 = mac with
    | some n =>
      refine h.modify (x:=(mac,nid)) hp fun y hy => ?_
      obtain ⟨hn,hmac,-⟩ := List.findIdx?_eq_some_iff_getElem.mp hf
      rw [List.getElem?_eq_getElem hn] at hy
      exact Option.some.inj hy ▸ of_decide_eq_true hmac
    | none =>
      cases ok with
      | false => exact h
      | true =>
        refine h.append hp fun he y hy => ?_
        have hno := List.findIdx?_eq_none_iff.mp hf y hy
        exact he ▸ of_decide_eq_false hno
  | _ => exact h

/-- The record of the node with the MAC. -/
structure Node (m : Mac) (s : Sys) (k : ℕ) (pnd : NodeInfo) : Prop where
  get : s.cn.ncn[k]? = some pnd
  mac : pnd.mac = m

theorem Node.key {m : Mac} {s : Sys} {k : ℕ} {pnd : NodeInfo} (h : Node m s k pnd) :
    (keys s.cn)[k]? = some (m,pnd.nindx) := by
  rw [keys,List.getElem?_map,h.get,← h.mac]
  rfl

/-- What holds of the node's record, and of the manager, in every run. -/
structure Known (i : UInt8) (m : Mac) (s : Sys) : Prop where
  named : Named i m (keys s.cn)
  other : m ≠ s.cn.mac
  role : ∀ k pnd, Node m s k pnd → pnd.role ≠ 0
  unfailed : ∀ k, stateAt s.cn k ≠ some .fail
  turn : Turn s

theorem Known.nindx {i : UInt8} {m : Mac} {s : Sys} (h : Known i m s) {k : ℕ} {pnd : NodeInfo}
    (hn : Node m s k pnd) : pnd.nindx = i :=
  (h.named.same _ (List.mem_of_getElem? hn.key)).mp rfl

theorem Known.unique {i : UInt8} {m : Mac} {s : Sys} (h : Known i m s) {j k : ℕ} {pnd pnd' : NodeInfo}
    (hj : Node m s j pnd) (hk : Node m s k pnd') : j = k :=
  h.named.one j k _ _ hj.key hk.key rfl rfl

/-! ### What steps do to it -/

/-- The record comes from the record at the same place, with the forecast `b`. -/
structure From (m : Mac) (s t : Sys) (k : ℕ) (pnd' : NodeInfo) (b : NodeInfo → Bool) : Prop where
  intro ::
  back : ∃ pnd, Node m s k pnd ∧ (pnd'.role = pnd.role ∨ pnd'.role = 2) ∧ forecast t k pnd' = b pnd

theorem forecast_congr {s t : Sys} (hst : t.stage = s.stage) (hcur : t.cur = s.cur) (k : ℕ) (pnd : NodeInfo) :
    forecast t k pnd = forecast s k pnd := by
  rw [forecast,forecast,up,up,hst,hcur]

/-- Outside the turn of a record the state tells whether it is up. -/
theorem up_rest {s : Sys} {k : ℕ} (h : ¬InTurn s k) (pnd : NodeInfo) : up s k pnd = !isDown pnd := by
  have h1 : ¬(s.cur = k ∧ s.stage = .online) := fun ⟨hc,hs⟩ => h ⟨Or.inl hs,hc⟩
  have h2 : ¬(s.cur = k ∧ s.stage = .offline) := fun ⟨hc,hs⟩ => h ⟨Or.inr hs,hc⟩
  rw [up,if_neg h1,if_neg h2]

/-- In its turn the state does not matter. -/
theorem forecast_state {s : Sys} {k : ℕ} (h : InTurn s k) (pnd : NodeInfo) (st : ResStage) :
    forecast s k {pnd with state := st} = forecast s k pnd := by
  obtain ⟨hs,rfl⟩ := h
  rcases hs with hs | hs <;> simp [forecast,up,hs]

/-- A record that is not touched. -/
theorem From.same {m : Mac} {s t : Sys} {k : ℕ} {pnd' : NodeInfo} (hn : Node m t k pnd')
    (hget : t.cn.ncn[k]? = s.cn.ncn[k]?) (hf : forecast t k pnd' = forecast s k pnd') :
    From m s t k pnd' (forecast s k) :=
  ⟨⟨pnd',⟨hget.symm.trans hn.get,hn.mac⟩,Or.inl rfl,hf⟩⟩

/-- The states of the record in turn are set. -/
theorem From.setState {m : Mac} {s t : Sys} {k j : ℕ} {st : ResStage} {pnd' : NodeInfo} (hn : Node m t k pnd')
    (hcn : t.cn.ncn = (setState j st s.cn).ncn) (hst : t.stage = s.stage) (hcur : t.cur = s.cur)
    (hj : InTurn s j) : From m s t k pnd' (forecast s k) := by
  have hget := hn.get
  rw [hcn,setState_get] at hget
  obtain ⟨pnd,hpnd,he⟩ := Option.map_eq_some_iff.mp hget
  by_cases hjk : j = k
  · subst hjk
    obtain rfl : {pnd with state := st} = pnd' := by simpa using he
    exact ⟨⟨pnd,⟨hpnd,hn.mac⟩,Or.inl rfl,(forecast_congr hst hcur ..).trans (forecast_state hj ..)⟩⟩
  · obtain rfl : pnd = pnd' := by simpa [hjk] using he
    exact ⟨⟨pnd,⟨hpnd,hn.mac⟩,Or.inl rfl,forecast_congr hst hcur ..⟩⟩

theorem manager_from {i : UInt8} {m : Mac} {env : Env} {s t : Sys} {k : ℕ} {pnd' : NodeInfo} (h : Known i m s)
    (ht : Round env s t) (hn : Node m t k pnd') : From m s t k pnd' (forecast s k) := by
  cases ht with
  | skip => exact .same hn rfl rfl
  | boot j cn ms p hs hget hrole hcn _ =>
    have hout : ¬InTurn s k := by
      rintro ⟨hst | hst,-⟩ <;> exact nomatch hs.symm.trans hst
    have hget' := hn.get
    rw [hcn] at hget'
    rcases modify_get hget' with ⟨rfl,pnd,hpnd,rfl⟩ | ⟨hne,hpnd⟩
    · obtain rfl := Option.some.inj (hget.symm.trans hpnd)
      exact absurd hrole (h.role j p ⟨hpnd,hn.mac⟩)
    · refine ⟨⟨pnd',⟨hpnd,hn.mac⟩,Or.inl rfl,?_⟩⟩
      rw [forecast,forecast,up_rest hout,up_rest (by rintro ⟨hst | hst,-⟩ <;> cases hst)]
  | join j p hs hget hj =>
    have hout : ¬InTurn s k := by
      rintro ⟨hst | hst,-⟩ <;> exact nomatch hs.symm.trans hst
    rcases modify_get hn.get with ⟨rfl,pnd,hpnd,rfl⟩ | ⟨hne,hpnd⟩
    · obtain rfl := Option.some.inj (hget.symm.trans hpnd)
      refine ⟨⟨p,⟨hpnd,hn.mac⟩,Or.inl rfl,?_⟩⟩
      simp only [joins,decide_eq_true_eq] at hj
      simp [forecast,up,hs,hj.2.1,hj.2.2]
    · refine ⟨⟨pnd',⟨hpnd,hn.mac⟩,Or.inl rfl,?_⟩⟩
      rw [forecast,forecast,up_rest hout,up_rest (fun hin => hne hin.2)]
  | leave j p hs hget hl =>
    have hout : ¬InTurn s k := by
      rintro ⟨hst | hst,-⟩ <;> exact nomatch hs.symm.trans hst
    rcases modify_get hn.get with ⟨rfl,pnd,hpnd,rfl⟩ | ⟨hne,hpnd⟩
    · obtain rfl := Option.some.inj (hget.symm.trans hpnd)
      refine ⟨⟨p,⟨hpnd,hn.mac⟩,Or.inl rfl,?_⟩⟩
      simp only [leaves,decide_eq_true_eq] at hl
      simp [forecast,up,hs,hl.2.1,hl.2.2]
    · refine ⟨⟨pnd',⟨hpnd,hn.mac⟩,Or.inl rfl,?_⟩⟩
      rw [forecast,forecast,up_rest hout,up_rest (fun hin => hne hin.2)]
  | push => exact .same hn rfl rfl
  | finish p hget hp =>
    refine .same hn rfl ?_
    have hout : ¬InTurn {s with pushflg := true,stage := .idle} k := by
      rintro ⟨hst | hst,-⟩ <;> cases hst
    have hup : up s k pnd' = !isDown pnd' := by
      by_cases hin : InTurn s k
      · obtain ⟨-,rfl⟩ := hin
        obtain rfl : p = pnd' := Option.some.inj (hget.symm.trans hn.get)
        rcases hp with ⟨hs,hp⟩ | ⟨hs,hp⟩ <;> simp [up,isDown,hs,hp]
      · exact up_rest hin pnd'
    rw [forecast,forecast,hup,up_rest hout]
  | fail p hget _ hp =>
    refine absurd ?_ (h.unfailed s.cur)
    rw [stateAt,hget,Option.map_some,hp]
  | work w p u hst hget hbef haw =>
    have hin : InTurn s s.cur := ⟨by rw [hst];cases w <;> simp [Work.stage],rfl⟩
    cases haw with
    | ends cn ms _ hcn _ => exact .setState hn hcn rfl rfl hin
    | asks cn ms q p' _ hcn _ _ _ _ => exact .setState hn hcn rfl rfl hin

theorem called_from {i : UInt8} {m : Mac} {s : Sys} {j k : ℕ} {q q' : Request} {ilen : ℕ} {ibuf : Option UInt8}
    {r : Cn × ℕ} {reqs : List Request} {pnd' : NodeInfo} (h : Known i m s) (hq : s.reqs[j]? = some q)
    (hcb : q'.cbkf = q.cbkf) (hpa : q'.parg = q.parg) (hr : Called q' ilen ibuf s.cn r)
    (hn : Node m {s with cn := r.1,reqs := reqs} k pnd') :
    From m s {s with cn := r.1,reqs := reqs} k pnd' (forecast s k) := by
  have hin : q'.cbkf ≠ .other → InTurn s q'.parg := by
    intro ho
    obtain ⟨-,w,-,hparg,hst,-⟩ := h.turn.only hq (hcb ▸ ho)
    exact ⟨by rw [hst];cases w <;> simp [Work.stage],(hpa.trans hparg).symm⟩
  cases hr with
  | done w hw _ => exact .setState hn rfl rfl rfl (hin (hw ▸ w.cbk_ne_other))
  | fail w hw _ _ => exact .setState hn rfl rfl rfl (hin (hw ▸ w.cbk_ne_other))
  | wait w _ _ _ _ => exact .same hn rfl rfl
  | other _ => exact .same hn rfl rfl

theorem rptOnline_from {i : UInt8} {m : Mac} {s : Sys} {k : ℕ} {pnd' : NodeInfo} (h : Known i m s) (ok : Bool)
    (ptr : UnsetPtr) (hn : Node m {s with cn := resNewCn ok ptr s.cn} k pnd') :
    From m s {s with cn := resNewCn ok ptr s.cn} k pnd' (forecast s k) := by
  have hget := hn.get
  simp only [resNewCn_ncn] at hget
  cases ok with
  | false => exact ⟨⟨pnd',⟨hget,hn.mac⟩,Or.inl rfl,rfl⟩⟩
  | true =>
    rcases append_get hget with hget | rfl
    · exact ⟨⟨pnd',⟨hget,hn.mac⟩,Or.inl rfl,rfl⟩⟩
    · exact absurd hn.mac.symm h.other

/-- A report about another node. -/
theorem nwNode_other {m mac : Mac} {s : Sys} {k : ℕ} {nid : UInt8} {ok : Bool} {ptr : UnsetPtr} {pnd' : NodeInfo}
    (hne : mac ≠ m) (hn : Node m {s with cn := resNewTn ok ptr nid mac s.cn} k pnd') :
    From m s {s with cn := resNewTn ok ptr nid mac s.cn} k pnd' (forecast s k) := by
  have hget := hn.get
  simp only [resNewTn_ncn] at hget
  cases hf : s.cn.ncn.findIdx? fun pnd => pnd.mac = mac with
  | some j =>
    rw [hf] at hget
    rcases modify_get hget with ⟨-,pnd,-,rfl⟩ | ⟨-,hget⟩
    · exact absurd hn.mac hne
    · exact ⟨⟨pnd',⟨hget,hn.mac⟩,Or.inl rfl,rfl⟩⟩
  | none =>
    rw [hf] at hget
    cases ok with
    | false => exact ⟨⟨pnd',⟨hget,hn.mac⟩,Or.inl rfl,rfl⟩⟩
    | true =>
      rcases append_get hget with hget | rfl
      · exact ⟨⟨pnd',⟨hget,hn.mac⟩,Or.inl rfl,rfl⟩⟩
      · exact absurd hn.mac hne

theorem renew_forecast (s : Sys) (k : ℕ) (nid : UInt8) (mac : Mac) (pnd : NodeInfo) :
    forecast s k (renew nid mac pnd) = (up s k pnd || !pnd.offline) := by
  have hdown : isDown (renew nid mac pnd) = isDown pnd := by
    simp only [isDown,renew]
    split
    · next h => simp [h]
    · rfl
  have hup : up s k (renew nid mac pnd) = up s k pnd := by rw [up,up,hdown]
  rw [forecast,hup]
  cases up s k pnd <;> simp [renew]

theorem lose_forecast (s : Sys) (k : ℕ) (pnd : NodeInfo) :
    forecast s k (lose pnd) = (up s k pnd && pnd.online) := by
  have hup : up s k (lose pnd) = up s k pnd := rfl
  rw [forecast,hup]
  cases up s k pnd <;> simp [lose]

/-- An arrival of the node: its record is renewed, or it is new. -/
theorem nwNode_self {i : UInt8} {m : Mac} {s : Sys} {k : ℕ} {nid : UInt8} {ok : Bool} {ptr : UnsetPtr}
    {pnd' : NodeInfo} (h : Known i m s) (hn : Node m {s with cn := resNewTn ok ptr nid m s.cn} k pnd') :
    From m s {s with cn := resNewTn ok ptr nid m s.cn} k pnd' (fun pnd => up s k pnd || !pnd.offline) ∨
      (∀ j pnd, ¬Node m s j pnd) ∧ pnd' = newTn nid m := by
  have hget := hn.get
  simp only [resNewTn_ncn] at hget
  cases hf : s.cn.ncn.findIdx? fun pnd => pnd.mac = m with
  | some j =>
    rw [hf] at hget
    rcases modify_get hget with ⟨rfl,pnd,hpnd,rfl⟩ | ⟨hjk,hget⟩
    · obtain ⟨hj,hmac,-⟩ := List.findIdx?_eq_some_iff_getElem.mp hf
      rw [List.getElem?_eq_getElem hj] at hpnd
      obtain rfl := Option.some.inj hpnd
      left
      exact ⟨⟨_,⟨List.getElem?_eq_getElem hj,of_decide_eq_true hmac⟩,Or.inr rfl,renew_forecast ..⟩⟩
    · obtain ⟨hj,hmac,-⟩ := List.findIdx?_eq_some_iff_getElem.mp hf
      exact absurd (h.unique ⟨List.getElem?_eq_getElem hj,of_decide_eq_true hmac⟩ ⟨hget,hn.mac⟩) hjk
  | none =>
    rw [hf] at hget
    have hno : ∀ j pnd, ¬Node m s j pnd := fun j pnd hp =>
      of_decide_eq_false (List.findIdx?_eq_none_iff.mp hf pnd (List.mem_of_getElem? hp.get)) hp.mac
    cases ok with
    | false => exact absurd ⟨hget,hn.mac⟩ (hno k pnd')
    | true =>
      rcases append_get hget with hget | rfl
      · exact absurd ⟨hget,hn.mac⟩ (hno k pnd')
      · exact Or.inr ⟨hno,rfl⟩

theorem lsNode_from {i nid : UInt8} {m : Mac} {s : Sys} {k : ℕ} {pnd' : NodeInfo} (h : Known i m s)
    (hn : Node m {s with cn := resDeleteTn nid s.cn} k pnd') :
    From m s {s with cn := resDeleteTn nid s.cn} k pnd'
      (fun pnd => if nid = i then up s k pnd && pnd.online else forecast s k pnd) := by
  have hget := hn.get
  simp only [resDeleteTn_ncn] at hget
  have hall : ∀ {j pnd}, Node m s j pnd → (pnd.nindx = nid ↔ nid = i) := by
    intro j pnd hp
    rw [h.nindx hp]
    exact eq_comm
  cases hf : s.cn.ncn.findIdx? fun pnd => pnd.nindx = nid with
  | some j =>
    rw [hf] at hget
    obtain ⟨hj,hid,-⟩ := List.findIdx?_eq_some_iff_getElem.mp hf
    have hgetj := List.getElem?_eq_getElem hj
    rcases modify_get hget with ⟨rfl,pnd,hpnd,rfl⟩ | ⟨hjk,hget⟩
    · have hp : Node m s j pnd := ⟨hpnd,hn.mac⟩
      obtain rfl : s.cn.ncn[j] = pnd := Option.some.inj (hgetj.symm.trans hpnd)
      have hni := (hall hp).mp (of_decide_eq_true hid)
      refine ⟨⟨_,hp,Or.inl rfl,?_⟩⟩
      rw [if_pos hni]
      exact lose_forecast ..
    · have hp : Node m s k pnd' := ⟨hget,hn.mac⟩
      refine ⟨⟨pnd',hp,Or.inl rfl,?_⟩⟩
      have hne : nid ≠ i := by
        rintro rfl
        have hkey : (s.cn.ncn[j]).mac = m :=
          (h.named.same (key s.cn.ncn[j]) (List.mem_map_of_mem (List.getElem_mem hj))).mpr (of_decide_eq_true hid)
        exact hjk (h.unique ⟨hgetj,hkey⟩ hp)
      rw [if_neg hne]
      rfl
  | none =>
    rw [hf] at hget
    have hp : Node m s k pnd' := ⟨hget,hn.mac⟩
    have hne : nid ≠ i := fun he =>
      of_decide_eq_false (List.findIdx?_eq_none_iff.mp hf pnd' (List.mem_of_getElem? hget)) ((hall hp).mpr he)
    exact ⟨⟨pnd',hp,Or.inl rfl,by rw [if_neg hne];rfl⟩⟩

/-- Without a report about the node the forecast of its record stays. -/
theorem step_from {i : UInt8} {m : Mac} {s t : Sys} {e : Event} {k : ℕ} {pnd' : NodeInfo} (h : Known i m s)
    (ha : ¬About i m e) (ht : step s e = some t) (hn : Node m t k pnd') : From m s t k pnd' (forecast s k) := by
  cases e with
  | rptOnline ok ptr =>
    obtain rfl := Option.some.inj ht
    exact rptOnline_from h ok ptr hn
  | nwNode nid mac ok ptr create env =>
    obtain ⟨reqs,rfl,-⟩ := rpcOther_spec ht
    exact ⟨(nwNode_other ha ⟨hn.get,hn.mac⟩).back⟩
  | lsNode nid =>
    obtain rfl := Option.some.inj ht
    obtain ⟨pnd,hp,hrole,hf⟩ := (lsNode_from h hn).back
    exact ⟨⟨pnd,hp,hrole,hf.trans (if_neg ha)⟩⟩
  | rpc create dnode srvid retry env =>
    obtain ⟨reqs,rfl,-⟩ := rpcOther_spec ht
    exact .same hn rfl rfl
  | config cfg =>
    obtain rfl := Option.some.inj ht
    exact .same hn rfl rfl
  | manager env => exact manager_from h (managerRound_round ht) hn
  | resmsg env =>
    obtain ⟨queue,reqs,rfl⟩ := resmsgProc_spec ht
    exact .same hn rfl rfl
  | response srvid sessn ilen node =>
    obtain rfl := Option.some.inj ht
    rcases respond_cases srvid sessn ilen node s with ⟨-,he⟩ | ⟨j,q,hans,he⟩
    · rw [he] at hn ⊢
      exact .same hn rfl rfl
    · rw [he] at hn ⊢
      exact called_from h hans.2 rfl rfl (callCbk_called q ilen (some node) s.cn) hn
  | timeout j net =>
    obtain ⟨q,hq,⟨-,r,rfl⟩ | ⟨-,rfl⟩⟩ := requestTout_cases ht
    · exact @called_from i m s j k q {q with retry := r} _ _ _ _ _ h hq rfl rfl (callCbk_called _ 0 none s.cn) hn
    · exact .same hn rfl rfl

/-- The forecast after a report about the node. -/
theorem report_from {i : UInt8} {m : Mac} {s t : Sys} {e : Event} {k : ℕ} {pnd' : NodeInfo} (h : Known i m s)
    (ha : About i m e) (ht : step s e = some t) (hn : Node m t k pnd') :
    From m s t k pnd' (fun pnd => if isNwNode e then up s k pnd || !pnd.offline else up s k pnd && pnd.online) ∨
      (∀ j pnd, ¬Node m s j pnd) ∧ isNwNode e = true ∧ pnd'.role = 2 ∧ forecast t k pnd' = true := by
  cases e with
  | nwNode nid mac ok ptr create env =>
    obtain ⟨reqs,rfl,-⟩ := rpcOther_spec ht
    obtain rfl : mac = m := ha
    rcases nwNode_self h ⟨hn.get,hn.mac⟩ with hf | ⟨hno,rfl⟩
    · exact Or.inl ⟨hf.back⟩
    · refine Or.inr ⟨hno,rfl,rfl,?_⟩
      rw [forecast]
      cases up _ k (newTn nid mac) <;> rfl
  | lsNode nid =>
    obtain rfl := Option.some.inj ht
    obtain ⟨pnd,hp,hrole,hf⟩ := (lsNode_from h hn).back
    exact Or.inl ⟨⟨pnd,hp,hrole,hf.trans (if_pos ha)⟩⟩
  | _ => exact absurd ha id

/-! ### Runs -/

theorem filled_of_answered (es : List Event) {s : Sys} {e : Event} (h : Answered s e) : Filled es s e := by
  cases e with
  | response srvid sessn ilen node => exact fun j q hans hcb hl => absurd hl (h j q hans hcb)
  | _ => trivial

theorem setState_unfailed {cn cn' : Cn} {j : ℕ} {st : ResStage} (h : ∀ k, stateAt cn k ≠ some .fail)
    (hst : st ≠ .fail) (hcn : cn'.ncn = (setState j st cn).ncn) (k : ℕ) : stateAt cn' k ≠ some .fail := by
  rw [stateAt_congr hcn]
  by_cases hk : k = j
  · subst hk
    rw [stateAt_setState_self]
    intro hf
    obtain ⟨-,-,he⟩ := Option.map_eq_some_iff.mp hf
    exact hst he
  · rw [stateAt_setState_of_ne hk]
    exact h k

theorem modify_unfailed {cn cn' : Cn} {j : ℕ} {f : NodeInfo → NodeInfo} (h : ∀ k, stateAt cn k ≠ some .fail)
    (hcn : cn'.ncn = cn.ncn.modify j f) (hf : ∀ pnd, (f pnd).state ≠ .fail) (k : ℕ) :
    stateAt cn' k ≠ some .fail := by
  by_cases hk : k = j
  · intro he
    rw [stateAt,hcn] at he
    obtain ⟨p,hp,hs⟩ := Option.map_eq_some_iff.mp he
    rcases modify_get hp with ⟨-,pnd,-,rfl⟩ | ⟨hne,-⟩
    · exact hf pnd hs
    · exact hne hk.symm
  · rw [stateAt_modify_of_ne hcn hk]
    exact h k

theorem reported_unfailed {cn cn' : Cn} (h : ∀ k, stateAt cn k ≠ some .fail) (hr : Reported cn cn') (k : ℕ) :
    stateAt cn' k ≠ some .fail := by
  intro hf
  rcases hr k with he | ⟨he,-⟩
  · exact h k (he.symm.trans hf)
  · exact nomatch he.symm.trans hf

theorem called_unfailed {q : Request} {ilen : ℕ} {ibuf : Option UInt8} {cn : Cn} {r : Cn × ℕ}
    (h : ∀ k, stateAt cn k ≠ some .fail) (hr : Called q ilen ibuf cn r)
    (hok : q.cbkf ≠ .other → ibuf ≠ none ∧ (q.cbkf = .addTrs → ilen ≠ 0)) (k : ℕ) :
    stateAt r.1 k ≠ some .fail := by
  cases hr with
  | done w _ _ =>
    have hf : ∀ k, stateAt {cn with ackFlag := flagsAfter q ilen ibuf cn.ackFlag} k ≠ some .fail := h
    exact setState_unfailed hf (by cases w <;> decide) rfl k
  | fail w hw _ hi =>
    obtain ⟨hb,hl⟩ := hok (hw ▸ w.cbk_ne_other)
    rcases hi with hi | hi
    · exact absurd hi hb
    · exact absurd hi.2 (hl hi.1)
  | wait w _ _ _ _ => exact h k
  | other _ => exact h k

theorem step_unfailed {s t : Sys} {e : Event} (h : ∀ k, stateAt s.cn k ≠ some .fail) (ha : Answered s e)
    (ht : step s e = some t) : ∀ k, stateAt t.cn k ≠ some .fail := by
  cases e with
  | rptOnline ok ptr =>
    obtain rfl := Option.some.inj ht
    exact reported_unfailed h (reported_resNewCn ok ptr s.cn)
  | nwNode nid mac ok ptr create env =>
    obtain ⟨reqs,rfl,-⟩ := rpcOther_spec ht
    exact reported_unfailed h (reported_resNewTn ok ptr nid mac s.cn)
  | lsNode nid =>
    obtain rfl := Option.some.inj ht
    exact reported_unfailed h (reported_resDeleteTn nid s.cn)
  | rpc create dnode srvid retry env =>
    obtain ⟨reqs,rfl,-⟩ := rpcOther_spec ht
    exact h
  | config cfg =>
    obtain rfl := Option.some.inj ht
    exact h
  | manager env =>
    cases managerRound_round ht with
    | boot k cn ms pnd _ _ _ hcn _ => exact modify_unfailed h hcn (fun _ he => nomatch he)
    | join k pnd => exact modify_unfailed h rfl (by intro _ he;cases he)
    | leave k pnd => exact modify_unfailed h rfl (by intro _ he;cases he)
    | work w pnd u _ _ _ haw =>
      cases haw with
      | ends cn ms _ hcn _ => exact setState_unfailed h (by cases w <;> decide) hcn
      | asks cn ms q p _ hcn _ _ _ _ => exact setState_unfailed h (by decide) hcn
    | _ => exact h
  | resmsg env =>
    obtain ⟨queue,reqs,rfl⟩ := resmsgProc_spec ht
    exact h
  | response srvid sessn ilen node =>
    obtain rfl := Option.some.inj ht
    rcases respond_cases srvid sessn ilen node s with ⟨-,he⟩ | ⟨j,q,hans,he⟩
    · rw [he]
      exact h
    · rw [he]
      exact called_unfailed h (callCbk_called q ilen (some node) s.cn) fun _ =>
        ⟨Option.some_ne_none node,ha j q hans⟩
  | timeout j net =>
    obtain ⟨q,hq,⟨hx,r,rfl⟩ | ⟨-,rfl⟩⟩ := requestTout_cases ht
    · refine called_unfailed h (callCbk_called _ 0 none s.cn) fun hne => ?_
      rw [ha q hq hne] at hx
      cases hx
    · exact h

theorem step_known {i : UInt8} {m : Mac} {es : List Event} {s t : Sys} {e : Event} (hi : i ≠ 0) (h : Known i m s)
    (hg : Guard i m es s e) (ht : step s e = some t) : Known i m t := by
  obtain ⟨hkeys,hmac⟩ := step_keys ht
  refine ⟨hkeys ▸ report_named h.named hi h.other hg.2,hmac ▸ h.other,?_,step_unfailed h.unfailed hg.1 ht,
    step_turn h.turn (filled_of_answered es hg.1) ht⟩
  intro k pnd' hn
  have hfrom : ∀ {b}, From m s t k pnd' b → pnd'.role ≠ 0 := by
    rintro b ⟨pnd,hp,hr | hr,-⟩
    · exact hr ▸ h.role k pnd hp
    · rw [hr]
      decide
  by_cases ha : About i m e
  · rcases report_from h ha ht hn with hf | ⟨-,-,hr,-⟩
    · exact hfrom hf
    · rw [hr]
      decide
  · exact hfrom (step_from h ha ht hn)

theorem booted_known {i : UInt8} {m : Mac} {s : Sys} (h : Booted s) (hm : m ≠ s.cn.mac) : Known i m s := by
  have hkeys : keys s.cn = [] := by rw [keys,h.ncn,List.map_nil]
  refine ⟨⟨?_,?_⟩,hm,?_,?_,booted_turn h⟩
  · rw [hkeys]
    simp
  · rw [hkeys]
    simp
  · intro k pnd hn
    have hget := hn.get
    rw [h.ncn] at hget
    cases hget
  · intro k hk
    rw [stateAt,h.ncn] at hk
    cases hk

theorem run_known {i : UInt8} {m : Mac} {s₀ s : Sys} {es : List Event} (hi : i ≠ 0) (h0 : Booted s₀)
    (hm : m ≠ s₀.cn.mac) (h : Run step (Guard i m) s₀ es s) : Known i m s :=
  h.invariant (I:=fun _ s => Known i m s) (booted_known h0 hm) fun _ _ _ _ _ hk hg ht => step_known hi hk hg ht

/-- The forecast of the node's record, if there is one. -/
def Forecast (m : Mac) (b : Bool) (s : Sys) : Prop := ∀ k pnd, Node m s k pnd → forecast s k pnd = b

/-- When the manager is idle and no flag has a step left, the forecast has come true. -/
theorem Known.settled {i : UInt8} {m : Mac} {s : Sys} (h : Known i m s) (hidle : s.stage = .idle)
    (hquiet : ∀ pnd ∈ s.cn.ncn, joins pnd = false ∧ leaves pnd = false) {k : ℕ} {pnd : NodeInfo}
    (hn : Node m s k pnd) : pnd.state = .addFinish ↔ forecast s k pnd = true := by
  have hstate : stateAt s.cn k = some pnd.state := by rw [stateAt,hn.get,Option.map_some]
  obtain ⟨hj,hl⟩ := hquiet pnd (List.mem_of_getElem? hn.get)
  have hrole := h.role k pnd hn
  have hout : ¬InTurn s k := by
    rintro ⟨hst | hst,-⟩ <;> cases hidle.symm.trans hst
  rw [forecast,up_rest hout]
  rcases h.turn.resting (Or.inr hidle) hstate with hs | hs | hs | hs
  · have hd : isDown pnd = true := by simp [isDown,hs]
    have hon : pnd.online = false := by simpa [joins,hrole,hd] using hj
    simp [hs,hd,hon]
  · have hd : isDown pnd = false := by simp [isDown,hs]
    have hoff : pnd.offline = false := by simpa [leaves,hrole,hd] using hl
    simp [hs,hd,hoff]
  · have hd : isDown pnd = true := by simp [isDown,hs]
    have hon : pnd.online = false := by simpa [joins,hrole,hd] using hj
    simp [hs,hd,hon]
  · exact absurd (hs ▸ hstate) (h.unfailed k)

/-- The last report settles the forecast: it is the report's own, if it comes in time. -/
theorem report_forecast {i : UInt8} {m : Mac} {s t : Sys} {e : Event} (h : Known i m s) (ha : About i m e)
    (ht : step s e = some t) {k : ℕ} {pnd' : NodeInfo} (hn : Node m t k pnd') :
    (forecast t k pnd' = true ↔ isNwNode e = true) ↔ InTime m s e := by
  rcases report_from h ha ht hn with ⟨pnd,hp,-,hf⟩ | ⟨hno,hnw,-,hf⟩
  · have hall : ∀ P : ℕ → NodeInfo → Prop, (∀ j p, s.cn.ncn[j]? = some p → p.mac = m → P j p) ↔ P k pnd := by
      intro P
      constructor
      · intro hP
        exact hP k pnd hp.get hp.mac
      · intro hP j p hget hmac
        have hj : j = k := h.unique ⟨hget,hmac⟩ hp
        subst hj
        exact Option.some.inj (hp.get.symm.trans hget) ▸ hP
    rw [hf]
    cases e with
    | nwNode nid mac ok ptr create env =>
      simp only [InTime,hall fun j p => up s j p = true ∨ p.offline = false]
      simp [isNwNode]
    | lsNode nid =>
      simp only [InTime,hall fun j p => up s j p = false ∨ p.online = false]
      simp only [isNwNode,Bool.false_eq_true,if_false,iff_false,Bool.and_eq_true,not_and_or,Bool.not_eq_true]
    | _ => exact absurd ha id
  · refine iff_of_true (iff_of_true hf hnw) ?_
    cases e with
    | nwNode nid mac ok ptr create env => exact fun j p hget hmac => absurd ⟨hget,hmac⟩ (hno j p)
    | _ => cases hnw

theorem settled_iff {i : UInt8} {m : Mac} {s₀ s : Sys} {es₂ es₁ : List Event} {e : Event} {k : ℕ} {pnd : NodeInfo}
    (hi : i ≠ 0) (hm : m ≠ s₀.cn.mac) (h0 : Booted s₀) (h : Run step (Guard i m) s₀ (es₂ ++ e::es₁) s)
    (ha : About i m e) (hlast : ∀ e' ∈ es₂, ¬About i m e') (hidle : s.stage = .idle)
    (hquiet : ∀ p ∈ s.cn.ncn, joins p = false ∧ leaves p = false)
    (hget : s.cn.ncn[k]? = some pnd) (hmac : pnd.mac = m) :
    (pnd.state = .addFinish ↔ isNwNode e = true) ↔
      ∃ s₁, Run step (Guard i m) s₀ es₁ s₁ ∧ InTime m s₁ e := by
  have hn : Node m s k pnd := ⟨hget,hmac⟩
  rw [(run_known hi h0 hm h).settled hidle hquiet hn]
  -- The forecast is what the last report made it, so the state before it decides.
  have hlast' : ∀ k pnd, Node m s k pnd → ∃ s₁, Run step (Guard i m) s₀ es₁ s₁ ∧
      ((forecast s k pnd = true ↔ isNwNode e = true) ↔ InTime m s₁ e) := by
    refine h.since (I:=fun s => ∀ k pnd, Node m s k pnd → ∃ s₁, Run step (Guard i m) s₀ es₁ s₁ ∧
      ((forecast s k pnd = true ↔ isNwNode e = true) ↔ InTime m s₁ e)) ?_ ?_
    · intro t hr k pnd hn
      cases hr with
      | cons hr hg ht => exact ⟨_,hr,report_forecast (run_known hi h0 hm hr) ha ht hn⟩
    · intro es u e' t he' hr hu hg ht k pnd' hn'
      obtain ⟨p,hp,-,hf⟩ := step_from (run_known hi h0 hm hr) (hlast e' he') ht hn'
      rw [hf]
      exact hu k p hp
  obtain ⟨s₁,hr,hiff⟩ := hlast' k pnd hn
  rw [hiff]
  constructor
  · intro hin
    exact ⟨s₁,hr,hin⟩
  · rintro ⟨s₂,hr₂,hin⟩
    exact hr.det hr₂ ▸ hin

/-! ### A TN with nothing configured -/

/-- The answer to the 0x12 request. -/
def idAnswer (sessn : BitVec 32) : Event := .response 0x12 sessn 40 5

/-- The CN comes up. -/
def cnUp : List Event := [round,.rptOnline true .table]

/-- The rounds of a join, from the one that starts it to the one that ends it. -/
def joinRounds (sessn : BitVec 32) : List Event :=
  [round,round,round,idAnswer sessn,.resmsg sendOk,round,round]

/-- The manager is idle and no flag has a step left. -/
def quiet (s : Sys) : Bool := s.stage = .idle && s.cn.ncn.all fun p => !joins p && !leaves p

theorem quiet_all {s : Sys} (h : quiet s = true) :
    s.stage = .idle ∧ ∀ p ∈ s.cn.ncn, joins p = false ∧ leaves p = false := by
  simpa [quiet] using h

/-- Answers that are not empty, no timeout, and reports of one node. -/
def plain (_ : Sys) : Event → Bool
  | .response _ _ ilen _ => ilen ≠ 0
  | .timeout _ _ => false
  | .nwNode nid mac _ _ _ _ => mac = 2 ∧ nid = 5
  | _ => true

theorem plain_guard (es : List Event) (s : Sys) (e : Event) (h : plain s e = true) : Guard 5 2 es s e := by
  cases e with
  | response srvid sessn ilen node => exact ⟨fun _ _ _ _ => of_decide_eq_true h,trivial⟩
  | timeout i net => cases h
  | nwNode nid mac ok ptr create env =>
    have hp := of_decide_eq_true h
    exact ⟨trivial,iff_of_true hp.1 hp.2⟩
  | _ => exact ⟨trivial,trivial⟩

/-- An arrival, and the join it asks for. -/
theorem arrival_settled :
    ∃ s pnd, Run step (Guard 5 2) (start (blankCn 1)) (joinRounds 1 ++ arrives 5 2::cnUp) s ∧
      s.cn.ncn[1]? = some pnd ∧ (pnd.state = .addFinish ↔ isNwNode (arrives 5 2) = true) := by
  obtain ⟨s₁,hup,hp₁⟩ := run_of_exec_map (checked plain step) (start (blankCn 1)) cnUp.reverse
    (fun s => s.cn.ncn.all (·.mac ≠ 2)) (by decide)
  obtain ⟨s,hrun,hp⟩ := run_of_exec_map (checked plain step) (start (blankCn 1))
    (joinRounds 1 ++ arrives 5 2::cnUp).reverse
    (fun s => quiet s && s.cn.ncn[1]? = some ⟨2,5,2,.addFinish,false,false,0⟩) (by decide)
  rw [List.reverse_reverse] at hup hrun
  simp only [Bool.and_eq_true,decide_eq_true_eq] at hp
  obtain ⟨hidle,hquiet⟩ := quiet_all hp.1
  have hg := hrun.of_checked plain_guard
  refine ⟨s,_,hg,hp.2,(settled_iff (by decide) (by decide) (blank_booted 1) hg rfl ?_ hidle hquiet hp.2 rfl).mpr ?_⟩
  · simp only [joinRounds,List.forall_mem_cons]
    exact ⟨id,id,id,id,id,id,id,by simp⟩
  · refine ⟨s₁,hup.of_checked plain_guard,fun k pnd hget hmac => ?_⟩
    have hne := List.all_eq_true.mp hp₁ pnd (List.mem_of_getElem? hget)
    exact absurd hmac (of_decide_eq_true hne)

/-- Arrival, loss and arrival before the first round: the manager joins the node, and then
takes the old loss for a new one. -/
theorem staleLoss_leaves :
    ∃ s pnd, Booted (start (blankCn 1)) ∧
      Run step (Guard 5 2) (start (blankCn 1))
        (([round,round,round] ++ joinRounds 2) ++ arrives 5 2::.lsNode 5::arrives 5 2::cnUp) s ∧
      s.stage = .idle ∧ (∀ p ∈ s.cn.ncn, joins p = false ∧ leaves p = false) ∧
      s.cn.ncn[1]? = some pnd ∧ pnd.mac = 2 ∧ ¬(pnd.state = .addFinish ↔ isNwNode (arrives 5 2) = true) := by
  obtain ⟨s,hrun,hp⟩ := run_of_exec_map (checked plain step) (start (blankCn 1))
    (([round,round,round] ++ joinRounds 2) ++ arrives 5 2::.lsNode 5::arrives 5 2::cnUp).reverse
    (fun s => quiet s && s.cn.ncn[1]? = some ⟨2,5,2,.delFinish,false,false,1⟩) (by decide)
  rw [List.reverse_reverse] at hrun
  simp only [Bool.and_eq_true,decide_eq_true_eq] at hp
  obtain ⟨hidle,hquiet⟩ := quiet_all hp.1
  exact ⟨s,_,blank_booted 1,hrun.of_checked plain_guard,hidle,hquiet,hp.2,rfl,by decide⟩

end Settling
end Autbus
