import Autbus.Services
import Autbus.Departure

/-! The receive resources of a TN. Its B side is told by place which ones to add and to
delete; the configuration of the CN says which of the active resources it is to have. -/
namespace Autbus
namespace Reception

open ResTables Nodes Placement Edits Departure Services

/-- Freq code, position and length: all a control message says of a resource. -/
abbrev Place := UInt8 × UInt8 × UInt8

/-- A control message reaches the B side. No sender of a delete message sets its first byte,
so the place is what counts. -/
def tell (S : Finset Place) : Ctrl → Finset Place
  | .addRcv _ freq pos len => insert (freq,pos,len) S
  | .delRcv _ freq pos len => S.erase (freq,pos,len)
  | _ => S

/-- The receive resources that are installed after the messages. -/
def installed (ms : List Ctrl) : Finset Place := ms.foldl tell ∅

/-- Where an active resource lies. -/
def place (cfg : ResmgrConfig) (rs : ResStateTbl) (r : UInt8) : Place :=
  ((rs r).freq,(rs r).pos,(cfg.resCfgTbl r).len)

def receivesAll (cfg : ResmgrConfig) (mac : Mac) : Bool :=
  (getNodeResId cfg mac).any fun nc => nc.rcvall ≠ 0

/-- The receive ids of the node with the MAC. -/
def nodeRcvIds (cfg : ResmgrConfig) (mac : Mac) : List UInt8 :=
  match findNode cfg mac with
  | none => []
  | some i => rcvIds (cfg.nodeCfgTbl i)

/-- The configuration assigns the resource to the node. -/
def assigns (cfg : ResmgrConfig) (mac : Mac) (r : UInt8) : Bool :=
  if receivesAll cfg mac then true
  else r ∈ nodeRcvIds cfg mac ∨ (cfg.resCfgTbl r).send2all ≠ 0

/-- The active resources of other nodes that the node is to receive. -/
def due (cfg : ResmgrConfig) (rs : ResStateTbl) (mac : Mac) : List UInt8 :=
  tblIds.filter fun r => Active rs r ∧ r ∉ nodeTrsIds cfg mac ∧ assigns cfg mac r

def assigned (cfg : ResmgrConfig) (rs : ResStateTbl) (mac : Mac) : Finset Place :=
  ((due cfg rs mac).map (place cfg rs)).toFinset

/-! ### What the messages of a service install -/

theorem installed_append (ms ms' : List Ctrl) : installed (ms ++ ms') = ms'.foldl tell (installed ms) :=
  List.foldl_append

/-- Messages that add receive resources. -/
theorem foldl_tell_add {α : Type} (n : α → UInt8) (p : α → Place) (xs : List α) (S : Finset Place) :
    (xs.map fun x => Ctrl.addRcv (n x) (p x).1 (p x).2.1 (p x).2.2).foldl tell S =
      S ∪ (xs.map p).toFinset := by
  induction xs generalizing S with
  | nil => simp
  | cons x xs ih =>
    rw [List.map_cons,List.foldl_cons,ih,List.map_cons,List.toFinset_cons,tell,Finset.insert_union,
      Finset.union_insert]

/-- Messages that delete receive resources. -/
theorem foldl_tell_del {α : Type} (n : α → UInt8) (p : α → Place) (xs : List α) (S : Finset Place) :
    (xs.map fun x => Ctrl.delRcv (n x) (p x).1 (p x).2.1 (p x).2.2).foldl tell S =
      S \ (xs.map p).toFinset := by
  induction xs generalizing S with
  | nil => simp
  | cons x xs ih =>
    have hx : tell S (.delRcv (n x) (p x).1 (p x).2.1 (p x).2.2) = S \ {p x} :=
      (Finset.sdiff_singleton_eq_erase (p x) S).symm
    rw [List.map_cons,List.foldl_cons,ih,hx,List.map_cons,List.toFinset_cons,sdiff_sdiff_left]
    rfl

/-- Messages about transmit resources only. -/
theorem foldl_tell_same {ms : List Ctrl} (h : ∀ m ∈ ms, ∀ S, tell S m = S) (S : Finset Place) :
    ms.foldl tell S = S := by
  induction ms with
  | nil => rfl
  | cons m ms ih =>
    rw [List.foldl_cons,h m (by simp)]
    exact ih fun m' hm => h m' (List.mem_cons_of_mem _ hm)

theorem flatMap_ite {α β : Type} (p : α → Bool) (f : α → β) (xs : List α) :
    (xs.flatMap fun x => if p x then [f x] else []) = (xs.filter p).map f := by
  induction xs with
  | nil => rfl
  | cons x xs ih =>
    rw [List.flatMap_cons,ih]
    cases h : p x with
    | false => simp [h]
    | true => simp [h]

/-- The TN's own decision about a resource. -/
def hears (ctx : TnCtx) (resid send2all : UInt8) : Bool :=
  ctx.rcvall ≠ 0 ∨ send2all ≠ 0 ∨ (findSlot ctx.rcvResId resid).isSome

theorem tnReceives_eq (ctx : TnCtx) (resid send2all : UInt8) (m : Ctrl) :
    tnReceives ctx resid send2all m = if hears ctx resid send2all then [m] else [] := by
  by_cases ha : ctx.rcvall ≠ 0 ∨ send2all ≠ 0
  · have hh : hears ctx resid send2all = true := by
      rw [hears,decide_eq_true_eq,← or_assoc]
      exact Or.inl ha
    rw [tnReceives,if_pos ha,hh,if_pos rfl]
  · have hh : hears ctx resid send2all = (findSlot ctx.rcvResId resid).isSome := by
      rw [not_or] at ha
      simp [hears,ha.1,ha.2]
    rw [tnReceives,if_neg ha,hh]

def trsPlace (t : TrsResData) : Place := (t.freq,t.pos,t.len)
def rcvPlace (r : RcvResData) : Place := (r.freq,r.pos,r.len)
def delPlace (d : DelResData) : Place := (d.freq,d.pos,d.len)

theorem installed_addRcv (bs : List Ctrl) (res : Fixres RcvResData) :
    installed (bs ++ addRcvMsgs res) = installed bs ∪ (res.res.map rcvPlace).toFinset := by
  rw [installed_append,addRcvMsgs]
  exact foldl_tell_add RcvResData.snode rcvPlace res.res _

section Others

variable {ctx : TnCtx} {bs : List Ctrl}

/-- Another node's transmit resources: the TN adds those it decides to hear. -/
theorem installed_addTrs {res : Fixres TrsResData} (h : res.snode ≠ ctx.nodeid) :
    installed (bs ++ addTrsMsgs ctx res) =
      installed bs ∪ ((res.res.filter fun t => hears ctx t.resid t.send2all).map trsPlace).toFinset := by
  rw [installed_append,addTrsMsgs]
  simp only [h,if_false,tnReceives_eq]
  rw [flatMap_ite]
  exact foldl_tell_add (fun _ => res.snode) trsPlace _ _

/-- Another node's departure: the TN deletes those it decides to hear. -/
theorem installed_del {stack : UInt8} {res : Fixres DelResData} (h : res.snode ≠ ctx.nodeid) :
    installed (bs ++ delMsgs stack ctx res) =
      installed bs \ ((res.res.filter fun d => hears ctx d.resid d.send2all).map delPlace).toFinset := by
  rw [installed_append,delMsgs]
  simp only [h,if_false,tnReceives_eq]
  rw [flatMap_ite]
  exact foldl_tell_del (fun _ => stack) delPlace _ _

/-- The TN's own resources change nothing about what it receives. -/
theorem installed_addTrs_own {res : Fixres TrsResData} (h : res.snode = ctx.nodeid) :
    installed (bs ++ addTrsMsgs ctx res) = installed bs := by
  rw [installed_append,addTrsMsgs]
  simp only [h,if_true]
  rw [flatMap_ite]
  apply foldl_tell_same
  intro m hm S
  obtain ⟨t,-,rfl⟩ := List.mem_map.mp hm
  rfl

theorem installed_del_own {stack : UInt8} {res : Fixres DelResData} (h : res.snode = ctx.nodeid) :
    installed (bs ++ delMsgs stack ctx res) = installed bs := by
  rw [installed_append,delMsgs]
  simp only [h,if_true]
  rw [flatMap_ite]
  apply foldl_tell_same
  intro m hm S
  obtain ⟨d,-,rfl⟩ := List.mem_map.mp hm
  rfl

end Others

/-! ### The two deciders -/

/-- What `sysres_srv_add_res_id` makes of the listen switch: it counts on a TN that takes a
configuration over. -/
def listens (cfg : ResmgrConfig) (tn : TnCtx) : Bool :=
  tn.listenautbus = 0x77 ∧ ((getNodeResId cfg tn.mac).isSome ∨ tn.mac = noConfigMac)

/-- The TN has taken over what the CN has configured for it. -/
structure Holds (cfg : ResmgrConfig) (tn : TnCtx) : Prop where
  state : tn.state = resNodeCfg
  rcvall : tn.rcvall ≠ 0 ↔ listens cfg tn = true
  rcvResId : ∀ r ≠ 0, (findSlot tn.rcvResId r).isSome = true ↔ r ∈ nodeRcvIds cfg tn.mac

/-- The CN and the TN decide alike about a resource: the one has the TN receive everything
just when the other listens to everything, or the TN receives it anyway. -/
def Agree (cfg : ResmgrConfig) (tn : TnCtx) (r : UInt8) : Prop :=
  receivesAll cfg tn.mac = listens cfg tn ∨ r ∈ nodeRcvIds cfg tn.mac ∨ (cfg.resCfgTbl r).send2all ≠ 0

instance (cfg : ResmgrConfig) (tn : TnCtx) (r : UInt8) : Decidable (Agree cfg tn r) := by
  unfold Agree; infer_instance

theorem Holds.hears_eq {cfg : ResmgrConfig} {tn : TnCtx} (h : Holds cfg tn) {r : UInt8} (h0 : r ≠ 0)
    (ha : Agree cfg tn r) : hears tn r (cfg.resCfgTbl r).send2all = assigns cfg tn.mac r := by
  have hslot := h.rcvResId r h0
  have hall := h.rcvall
  rw [Bool.eq_iff_iff,hears,decide_eq_true_eq,hslot,hall,assigns]
  cases hr : receivesAll cfg tn.mac with
  | true =>
    simp only [if_true,iff_true]
    rcases ha with he | hl | hs
    · exact Or.inl (he ▸ hr)
    · exact Or.inr (Or.inr hl)
    · exact Or.inr (Or.inl hs)
  | false =>
    simp only [Bool.false_eq_true,if_false,decide_eq_true_eq]
    constructor
    · rintro (hl | hs | hm)
      · rcases ha with he | hm | hs
        · rw [hr,hl] at he
          cases he
        · exact Or.inl hm
        · exact Or.inr hs
      · exact Or.inr hs
      · exact Or.inl hm
    · rintro (hm | hs)
      · exact Or.inr (Or.inr hm)
      · exact Or.inr (Or.inl hs)

theorem findSlot_zero {n : ℕ} {r : UInt8} (h0 : r ≠ 0) :
    (findSlot (fun _ : Fin n => (0 : UInt8)) r).isSome = true ↔ False := by
  rw [findSlot_isSome,iff_false]
  rintro ⟨j,hj⟩
  exact h0 hj.symm

theorem mem_rcvIds {nc : NodeConfig} {r : UInt8} (h0 : r ≠ 0) :
    r ∈ rcvIds nc ↔ (findSlot nc.rcvResId r).isSome = true := by
  rw [findSlot_isSome]
  simp only [rcvIds,List.mem_filter,List.mem_map,List.mem_finRange,true_and,decide_eq_true_eq]
  exact ⟨fun h => h.1,fun h => ⟨h,h0⟩⟩

/-- What `res_download_res_id` sends to a node. -/
def configFor (cfg : ResmgrConfig) (mac : Mac) : NodeConfig :=
  (getNodeResId cfg mac).getD {zeroNode with mac := noConfigMac}

/-- The TN a configuration is meant for takes it over. -/
theorem holds_takeConfig (cfg : ResmgrConfig) (tn : TnCtx) :
    Holds cfg (takeConfig tn (configFor cfg tn.mac)) ∧
      ¬(tn.mac ≠ (configFor cfg tn.mac).mac ∧ noConfigMac ≠ (configFor cfg tn.mac).mac) := by
  cases hn : findNode cfg tn.mac with
  | some i =>
    have hg : getNodeResId cfg tn.mac = some (cfg.nodeCfgTbl i) := by rw [getNodeResId,hn]; rfl
    have hc : configFor cfg tn.mac = cfg.nodeCfgTbl i := by rw [configFor,hg]; rfl
    have hmac : tn.mac = (cfg.nodeCfgTbl i).mac := (findNode_some hn).2.symm
    have hids : nodeRcvIds cfg tn.mac = rcvIds (cfg.nodeCfgTbl i) := by rw [nodeRcvIds,hn]
    refine ⟨?_,fun h => h.1 (hc ▸ hmac)⟩
    rw [hc,takeConfig,if_neg (not_not.mpr hmac)]
    refine ⟨rfl,?_,?_⟩
    · simp only [listens,hg]
      by_cases hl : tn.listenautbus = 0x77 <;> simp [hl]
    · intro r h0
      change _ ↔ r ∈ nodeRcvIds cfg tn.mac
      rw [hids,mem_rcvIds h0]
  | none =>
    have hg : getNodeResId cfg tn.mac = none := by rw [getNodeResId,hn]; rfl
    have hc : configFor cfg tn.mac = {zeroNode with mac := noConfigMac} := by rw [configFor,hg]; rfl
    have hids : nodeRcvIds cfg tn.mac = [] := by rw [nodeRcvIds,hn]
    refine ⟨?_,fun h => h.2 (by rw [hc])⟩
    rw [hc,takeConfig]
    by_cases hmac : tn.mac = noConfigMac
    · rw [if_neg (not_not.mpr hmac)]
      refine ⟨rfl,?_,?_⟩
      · simp only [listens,hg]
        by_cases hl : tn.listenautbus = 0x77 <;> simp [hl,hmac]
      · intro r h0
        change (findSlot (fun _ : Fin 16 => (0 : UInt8)) r).isSome = true ↔ r ∈ nodeRcvIds cfg tn.mac
        rw [findSlot_zero h0,hids]
        simp
    · rw [if_pos hmac]
      refine ⟨rfl,?_,?_⟩
      · simp [listens,hg,hmac]
      · intro r h0
        change (findSlot (fun _ : Fin 16 => (0 : UInt8)) r).isSome = true ↔ r ∈ nodeRcvIds cfg tn.mac
        rw [findSlot_zero h0,hids]
        simp

end Reception
end Autbus
