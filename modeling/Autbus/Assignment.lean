import Autbus.Reception

/-! What a node is to receive while others join and leave: the list of a join, the
resources a join activates and those a departure takes away. -/
namespace Autbus
namespace Assignment

open Frames ResTables Nodes Placement Edits Departure Services Reception

/-- The node receives the resource when it is active. -/
def wanted (cfg : ResmgrConfig) (mac : Mac) (r : UInt8) : Bool :=
  r ∉ nodeTrsIds cfg mac ∧ assigns cfg mac r

theorem mem_tblIds {r : UInt8} : r ∈ tblIds ↔ r ≠ 0 ∧ r < 254 := by
  have hlt : r < 254 ↔ r.toNat < 254 := UInt8.lt_iff_toNat_lt
  have h0 : r ≠ 0 ↔ r.toNat ≠ 0 := not_congr (UInt8.toNat_inj (b:=0)).symm
  rw [hlt,h0,tblIds,List.mem_map]
  constructor
  · rintro ⟨n,hn,rfl⟩
    have hn := List.mem_range'_1.mp hn
    rw [UInt8.toNat_ofNat']
    omega
  · intro h
    exact ⟨r.toNat,List.mem_range'_1.mpr (by omega),UInt8.ofNat_toNat⟩

section Sets

variable {cfg : ResmgrConfig} {rs rs' : ResStateTbl} {mac : Mac}

theorem mem_assigned {p : Place} :
    p ∈ assigned cfg rs mac ↔
      ∃ r ∈ tblIds, Active rs r ∧ wanted cfg mac r = true ∧ place cfg rs r = p := by
  simp only [assigned,due,wanted,List.mem_toFinset,List.mem_map,List.mem_filter,decide_eq_true_eq]
  exact ⟨fun ⟨r,⟨ht,ha,hw⟩,hp⟩ => ⟨r,ht,ha,hw,hp⟩,fun ⟨r,ht,ha,hw,hp⟩ => ⟨r,⟨ht,ha,hw⟩,hp⟩⟩

theorem mem_places {ids : List UInt8} {q : UInt8 → Bool} {p : Place} :
    p ∈ ((ids.filter q).map (place cfg rs)).toFinset ↔ ∃ r ∈ ids, q r = true ∧ place cfg rs r = p := by
  simp only [List.mem_toFinset,List.mem_map,List.mem_filter]
  exact ⟨fun ⟨r,⟨hr,hq⟩,hp⟩ => ⟨r,hr,hq,hp⟩,fun ⟨r,hr,hq,hp⟩ => ⟨r,⟨hr,hq⟩,hp⟩⟩

theorem place_congr {r : UInt8} (h : rs' r = rs r) : place cfg rs' r = place cfg rs r := by
  rw [place,place,h]

/-- A join adds the places of the resources it activates. -/
theorem assigned_place {ids : List UInt8} (hids : ∀ r ∈ ids, r ∈ tblIds ∧ ¬Active rs r ∧ Active rs' r)
    (hrest : ∀ r, r ∉ ids → rs' r = rs r) :
    assigned cfg rs' mac =
      assigned cfg rs mac ∪ ((ids.filter (wanted cfg mac)).map (place cfg rs')).toFinset := by
  ext p
  rw [Finset.mem_union,mem_assigned,mem_assigned,mem_places]
  constructor
  · rintro ⟨r,ht,ha,hw,hp⟩
    by_cases hr : r ∈ ids
    · exact Or.inr ⟨r,hr,hw,hp⟩
    · have he := hrest r hr
      refine Or.inl ⟨r,ht,?_,hw,(place_congr he).symm.trans hp⟩
      rwa [Active,he] at ha
  · rintro (⟨r,ht,ha,hw,hp⟩ | ⟨r,hr,hw,hp⟩)
    · have he := hrest r fun hr => (hids r hr).2.1 ha
      refine ⟨r,ht,?_,hw,(place_congr he).trans hp⟩
      rwa [Active,he]
    · exact ⟨r,(hids r hr).1,(hids r hr).2.2,hw,hp⟩

/-- No resource of the list lies where another one lies that stays, as far as the node
receives them both. -/
def Apart (cfg : ResmgrConfig) (rs : ResStateTbl) (mac : Mac) (ids : List UInt8) : Prop :=
  ∀ r ∈ ids, ∀ q ∈ tblIds, Active rs q → q ∉ ids → wanted cfg mac r = true → wanted cfg mac q = true →
    place cfg rs q ≠ place cfg rs r

instance (cfg : ResmgrConfig) (rs : ResStateTbl) (mac : Mac) (ids : List UInt8) :
    Decidable (Apart cfg rs mac ids) := by
  unfold Apart
  letI : ∀ r, Decidable (∀ q ∈ tblIds, Active rs q → q ∉ ids → wanted cfg mac r = true → wanted cfg mac q = true →
      place cfg rs q ≠ place cfg rs r) := fun _ => List.decidableBAll _ _
  exact List.decidableBAll _ _

/-- A departure takes away the places of the resources it releases. -/
theorem assigned_release {ids : List UInt8}
    (hstate : ∀ r, rs' r = if r ∈ ids then {rs r with state := 0} else rs r)
    (hapart : Apart cfg rs mac ids) :
    assigned cfg rs' mac =
      assigned cfg rs mac \ ((ids.filter (wanted cfg mac)).map (place cfg rs)).toFinset := by
  have hplace : ∀ r, place cfg rs' r = place cfg rs r := by
    intro r
    rw [place,place,hstate]
    split <;> rfl
  have hact : ∀ r, Active rs' r ↔ Active rs r ∧ r ∉ ids := by
    intro r
    rw [Active,hstate]
    by_cases hr : r ∈ ids
    · simp [hr]
    · simp [hr,Active]
  ext p
  rw [Finset.mem_sdiff,mem_assigned,mem_assigned,mem_places]
  constructor
  · rintro ⟨q,ht,ha,hw,hp⟩
    obtain ⟨ha,hq⟩ := (hact q).mp ha
    have hp := (hplace q).symm.trans hp
    refine ⟨⟨q,ht,ha,hw,hp⟩,?_⟩
    rintro ⟨r,hr,hwr,hpr⟩
    exact hapart r hr q ht ha hq hwr hw (hp.trans hpr.symm)
  · rintro ⟨⟨q,ht,ha,hw,hp⟩,hno⟩
    have hq : q ∉ ids := fun hq => hno ⟨q,hq,hw,hp⟩
    exact ⟨q,ht,(hact q).mpr ⟨ha,hq⟩,hw,(hplace q).trans hp⟩

end Sets

/-! ### The list of a join -/

/-- How many entries `get_rcv_res_config` wants to write. -/
def rcvCount (cfg : ResmgrConfig) (rs : ResStateTbl) (mac : Mac) : ℕ :=
  if receivesAll cfg mac then (tblIds.filter (Active rs ·)).length
  else ((nodeRcvIds cfg mac).filter (Active rs ·)).length +
    (tblIds.filter fun r => Active rs r ∧ (cfg.resCfgTbl r).send2all ≠ 0).length

/-- The ids on the list when nothing is cut off. -/
def rcvList (cfg : ResmgrConfig) (rs : ResStateTbl) (mac : Mac) : List UInt8 :=
  if receivesAll cfg mac then tblIds.filter (Active rs ·)
  else (nodeRcvIds cfg mac).filter (Active rs ·) ++
    tblIds.filter fun r => Active rs r ∧ (cfg.resCfgTbl r).send2all ≠ 0

/-- The active resources among the node's receive slots. -/
def ownRcv (cfg : ResmgrConfig) (rs : ResStateTbl) (mac : Mac) : List UInt8 :=
  (nodeRcvIds cfg mac).filter (Active rs ·)

/-- Those sent to all. -/
def sentToAll (cfg : ResmgrConfig) (rs : ResStateTbl) : List UInt8 :=
  tblIds.filter fun r => Active rs r ∧ (cfg.resCfgTbl r).send2all ≠ 0

/-- The ids that the list has room for. The receive slots come first. -/
def rcvTaken (cfg : ResmgrConfig) (rs : ResStateTbl) (mac : Mac) : List UInt8 :=
  if receivesAll cfg mac then (tblIds.filter (Active rs ·)).take maxRcvResCnt
  else ownRcv cfg rs mac ++ (sentToAll cfg rs).take (maxRcvResCnt-(ownRcv cfg rs mac).length)

section List

variable {cfg : ResmgrConfig} {rs : ResStateTbl} {mac : Mac}

/-- The ids on the list. -/
theorem getRcvResConfig_eq (cfg : ResmgrConfig) (rs : ResStateTbl) (mac : Mac) :
    getRcvResConfig cfg rs mac = (rcvTaken cfg rs mac).map (rcvEntry cfg rs) := by
  rw [getRcvResConfig,rcvTaken,ownRcv]
  cases hn : findNode cfg mac with
  | none =>
    have hall : receivesAll cfg mac = false := by rw [receivesAll,getNodeResId,hn]; rfl
    have hids : nodeRcvIds cfg mac = [] := by rw [nodeRcvIds,hn]
    rw [hall,hids]
    rfl
  | some i =>
    have hall : receivesAll cfg mac = decide ((cfg.nodeCfgTbl i).rcvall ≠ 0) := by
      rw [receivesAll,getNodeResId,hn]; rfl
    have hids : nodeRcvIds cfg mac = rcvIds (cfg.nodeCfgTbl i) := by rw [nodeRcvIds,hn]
    rw [hall,hids]
    by_cases hr : (cfg.nodeCfgTbl i).rcvall = 0
    · simp only [hr,ne_eq,not_true_eq_false,decide_false,Bool.false_eq_true,if_false,if_true]
      rfl
    · simp only [hr,ne_eq,not_false_eq_true,decide_true,if_true,if_false,List.append_nil]
      rfl

theorem getRcvResConfig_fits (h : rcvCount cfg rs mac ≤ maxRcvResCnt) :
    getRcvResConfig cfg rs mac = (rcvList cfg rs mac).map (rcvEntry cfg rs) := by
  rw [rcvCount] at h
  rw [getRcvResConfig_eq,rcvTaken,rcvList]
  cases hall : receivesAll cfg mac with
  | true =>
    simp only [hall,if_true] at h
    rw [if_pos rfl,if_pos rfl,List.take_of_length_le h]
  | false =>
    simp only [hall,Bool.false_eq_true,if_false] at h
    change (ownRcv cfg rs mac).length+(sentToAll cfg rs).length ≤ maxRcvResCnt at h
    rw [if_neg Bool.false_ne_true,if_neg Bool.false_ne_true,List.take_of_length_le (Nat.le_sub_of_add_le' h)]
    rfl

theorem mem_rcvList (hact : ∀ r, Active rs r → r ∈ tblIds) {r : UInt8} :
    r ∈ rcvList cfg rs mac ↔ r ∈ tblIds ∧ Active rs r ∧ assigns cfg mac r = true := by
  rw [rcvList,assigns]
  cases receivesAll cfg mac with
  | true => simp
  | false =>
    simp only [Bool.false_eq_true,if_false,List.mem_append,List.mem_filter,decide_eq_true_eq]
    constructor
    · rintro (⟨hr,ha⟩ | ⟨ht,ha,hs⟩)
      · exact ⟨hact r ha,ha,Or.inl hr⟩
      · exact ⟨ht,ha,Or.inr hs⟩
    · rintro ⟨ht,ha,hr | hs⟩
      · exact Or.inl ⟨hr,ha⟩
      · exact Or.inr ⟨ht,ha,hs⟩

/-- A list that is not cut off names what the node is to receive. -/
theorem rcv_assigned (hact : ∀ r, Active rs r → r ∈ tblIds) (hown : ∀ r ∈ nodeTrsIds cfg mac, ¬Active rs r)
    (h : rcvCount cfg rs mac ≤ maxRcvResCnt) :
    ((getRcvResConfig cfg rs mac).map rcvPlace).toFinset = assigned cfg rs mac := by
  ext p
  rw [getRcvResConfig_fits h,List.map_map,List.mem_toFinset,List.mem_map,mem_assigned]
  constructor
  · rintro ⟨r,hr,hp⟩
    obtain ⟨ht,ha,has⟩ := (mem_rcvList hact).mp hr
    refine ⟨r,ht,ha,?_,hp⟩
    rw [wanted,decide_eq_true_eq]
    exact ⟨fun ho => hown r ho ha,has⟩
  · rintro ⟨r,ht,ha,hw,hp⟩
    rw [wanted,decide_eq_true_eq] at hw
    exact ⟨r,(mem_rcvList hact).mpr ⟨ht,ha,hw.2⟩,hp⟩

theorem getRcvResConfig_length (h : rcvCount cfg rs mac ≤ maxRcvResCnt) :
    (getRcvResConfig cfg rs mac).length ≤ maxRcvResCnt := by
  rw [getRcvResConfig_fits h,List.length_map,rcvList]
  rw [rcvCount] at h
  cases hall : receivesAll cfg mac with
  | true => simpa [hall] using h
  | false => simpa [hall] using h

end List

/-! ### The resources a join activates -/

/-- Every resource of the list gets a place. -/
def hasRoom : ResFrm → List TrsResData → Bool
  | _, [] => true
  | frm, t::ts =>
    match placeOne frm t with
    | (_,none) => false
    | (frm,some _) => hasRoom frm ts

/-- The first resource of the list gets none. -/
def refused (frm : ResFrm) (ts : List TrsResData) : Bool := ts.head?.any fun t => (placeOne frm t).2.isNone

theorem placeOne_send2all {frm frm' : ResFrm} {t t' : TrsResData} (h : placeOne frm t = (frm',some t')) :
    t'.send2all = t.send2all := by
  rw [placeOne] at h
  by_cases hp : t.pos ≠ 0
  · rw [if_pos hp] at h
    cases h
    rfl
  · rw [if_neg hp] at h
    dsimp only at h
    split at h
    · cases h
    · obtain ⟨-,h⟩ := Prod.mk.inj h
      obtain ⟨o,-,rfl⟩ := Option.map_eq_some_iff.mp h
      rfl

section Place

variable {cfg : ResmgrConfig} {n : UInt8}

theorem placeTrs_ok (rs : ResStateTbl) (frm : ResFrm) (ts : List TrsResData) :
    (placeTrs cfg n rs frm ts).ok = hasRoom frm ts := by
  induction ts generalizing rs frm with
  | nil => rfl
  | cons t ts ih =>
    rw [placeTrs,hasRoom]
    cases hp : placeOne frm t with
    | mk frm' o =>
      cases o with
      | none => rfl
      | some t' => exact ih _ _

theorem placeTrs_refused {rs : ResStateTbl} {frm : ResFrm} {ts : List TrsResData} (h : refused frm ts = true) :
    (placeTrs cfg n rs frm ts).resState = rs ∧ (placeTrs cfg n rs frm ts).ok = false := by
  cases ts with
  | nil => cases h
  | cons t ts =>
    rw [placeTrs]
    rw [refused,List.head?_cons,Option.any_some] at h
    cases hp : placeOne frm t with
    | mk frm' o =>
      cases o with
      | none => exact ⟨rfl,rfl⟩
      | some t' =>
        rw [hp] at h
        cases h

/-- The loop touches the resources of its list only. -/
theorem placeTrs_other (hidx : Indexed cfg) {ids : List UInt8} (hids : ∀ t ∈ ids, t ≠ 0 ∧ Enabled cfg t)
    {r : UInt8} (hr : r ∉ ids) (rs : ResStateTbl) (frm : ResFrm) :
    (placeTrs cfg n rs frm (ids.map (trsEntry cfg))).resState r = rs r := by
  induction ids generalizing rs frm with
  | nil => rfl
  | cons t ids ih =>
    obtain ⟨ht0,hte⟩ := hids t (by simp)
    obtain ⟨hrt,hr⟩ := not_or.mp fun h => hr (List.mem_cons.mpr h)
    rw [List.map_cons,placeTrs]
    cases hp : placeOne frm (trsEntry cfg t) with
    | mk frm' o =>
      cases o with
      | none => rfl
      | some t' =>
        have hres : t'.resid = t := (placeOne_some hp).1.trans (hidx t hte)
        have hrest := ih (fun u hu => hids u (List.mem_cons_of_mem _ hu)) hr
          (activeRes cfg rs t'.resid n t'.freq t'.pos) frm'
        refine hrest.trans ?_
        rw [hres,activeRes_eq _ _ _ ht0 hte,Function.update_of_ne hrt]

/-- A loop that gets to the end has activated its list, and its entries say what is active. -/
theorem placeTrs_done (hidx : Indexed cfg) {ids : List UInt8} (hids : ∀ t ∈ ids, t ≠ 0 ∧ Enabled cfg t)
    (hnd : ids.Nodup) (n : UInt8) (rs : ResStateTbl) {frm : ResFrm}
    (hroom : hasRoom frm (ids.map (trsEntry cfg)) = true) :
    ((placeTrs cfg n rs frm (ids.map (trsEntry cfg))).res.map fun t => (t.resid,t.send2all,trsPlace t)) =
        (ids.map fun r => (r,(cfg.resCfgTbl r).send2all,
          place cfg (placeTrs cfg n rs frm (ids.map (trsEntry cfg))).resState r)) ∧
      ∀ r ∈ ids, Active (placeTrs cfg n rs frm (ids.map (trsEntry cfg))).resState r := by
  induction ids generalizing rs frm with
  | nil => exact ⟨rfl,fun r hr => by cases hr⟩
  | cons t ids ih =>
    obtain ⟨ht0,hte⟩ := hids t (by simp)
    obtain ⟨htnd,hnd⟩ := List.nodup_cons.mp hnd
    have hrest : ∀ u ∈ ids, u ≠ 0 ∧ Enabled cfg u := fun u hu => hids u (List.mem_cons_of_mem _ hu)
    rw [List.map_cons,hasRoom] at hroom
    rw [List.map_cons,placeTrs]
    cases hp : placeOne frm (trsEntry cfg t) with
    | mk frm' o =>
      rw [hp] at hroom
      cases o with
      | none => cases hroom
      | some t' =>
        obtain ⟨hres,hlen,-⟩ := placeOne_some hp
        have hres : t'.resid = t := hres.trans (hidx t hte)
        obtain ⟨htail,hact⟩ := ih hrest hnd (activeRes cfg rs t'.resid n t'.freq t'.pos) hroom
        have hself := placeTrs_other hidx hrest htnd (n:=n) (activeRes cfg rs t'.resid n t'.freq t'.pos) frm'
        rw [hres,activeRes_eq _ _ _ ht0 hte,Function.update_self] at hself
        rw [hres,activeRes_eq _ _ _ ht0 hte] at htail hact
        refine ⟨?_,?_⟩
        · simp only [List.map_cons,hres,activeRes_eq _ _ _ ht0 hte,htail,place,hself]
          rw [placeOne_send2all hp,trsPlace,hlen]
          rfl
        · intro r hr
          simp only [hres,activeRes_eq _ _ _ ht0 hte]
          cases List.mem_cons.mp hr with
          | inl he =>
            rw [he,Active,hself]
            change (1 : UInt8) ≠ 0
            decide
          | inr hr => exact hact r hr

end Place

theorem nodeTrsIds_length (cfg : ResmgrConfig) (mac : Mac) : (nodeTrsIds cfg mac).length ≤ maxTrsResCnt := by
  rw [nodeTrsIds]
  cases findNode cfg mac with
  | none => exact Nat.zero_le _
  | some i =>
    refine (List.length_filter_le ..).trans ?_
    rw [List.length_map,List.length_finRange]
    exact le_rfl

/-! ### What a TN makes of the lists -/

/-- Filtering and mapping go by what the entries are mapped to. -/
theorem filter_map_of_map_eq {α β γ δ : Type} {f : α → γ} {g : β → γ} {xs : List α} {ys : List β}
    (h : xs.map f = ys.map g) (p : γ → Bool) (k : γ → δ) :
    (xs.filter fun x => p (f x)).map (fun x => k (f x)) =
      (ys.filter fun y => p (g y)).map (fun y => k (g y)) := by
  have hx : (xs.filter fun x => p (f x)).map (fun x => k (f x)) = ((xs.map f).filter p).map k := by
    rw [List.filter_map,List.map_map]
    rfl
  have hy : (ys.filter fun y => p (g y)).map (fun y => k (g y)) = ((ys.map g).filter p).map k := by
    rw [List.filter_map,List.map_map]
    rfl
  rw [hx,hy,h]

section Decide

variable {cfg : ResmgrConfig} {tn : TnCtx} {mac : Mac} {ids : List UInt8}

/-- Of another node's resources a TN hears those it is to receive. -/
theorem hears_wanted (hs : Sound cfg) (h : Holds cfg tn) (hmac : tn.mac ≠ mac)
    (hids : ∀ r ∈ ids, r ∈ nodeTrsIds cfg mac) (hagree : ∀ r ∈ ids, Agree cfg tn r) :
    (ids.filter fun r => hears tn r (cfg.resCfgTbl r).send2all) = ids.filter (wanted cfg tn.mac) := by
  apply List.filter_congr
  intro r hr
  have hown : r ∉ nodeTrsIds cfg tn.mac := fun ho => hmac (hs.mac_eq ho (hids r hr))
  rw [h.hears_eq (mem_nodeTrsIds_ne (hids r hr)) (hagree r hr),wanted]
  simp [hown]

/-- None of its own resources is to be received by the node. -/
theorem wanted_own (hids : ∀ r ∈ ids, r ∈ nodeTrsIds cfg tn.mac) : ids.filter (wanted cfg tn.mac) = [] := by
  apply List.filter_eq_nil_iff.mpr
  intro r hr
  simp [wanted,hids r hr]

variable {rs : ResStateTbl}

/-- What a `0x13` message makes the TN install. -/
theorem installed_trs (hs : Sound cfg) (h : Holds cfg tn) (hids : ∀ r ∈ ids, r ∈ nodeTrsIds cfg mac)
    (hagree : tn.mac ≠ mac → ∀ r ∈ ids, Agree cfg tn r) (res : Fixres TrsResData)
    (hnode : res.snode = tn.nodeid ↔ tn.mac = mac)
    (hres : (res.res.map fun t => (t.resid,t.send2all,trsPlace t)) =
      ids.map fun r => (r,(cfg.resCfgTbl r).send2all,place cfg rs r)) :
    installed (tn.bside ++ addTrsMsgs tn res) =
      installed tn.bside ∪ ((ids.filter (wanted cfg tn.mac)).map (place cfg rs)).toFinset := by
  by_cases hmac : tn.mac = mac
  · rw [installed_addTrs_own (hnode.mpr hmac),wanted_own (hmac ▸ hids)]
    simp
  · have hlist := filter_map_of_map_eq hres (fun x => hears tn x.1 x.2.1) (fun x => x.2.2)
    rw [installed_addTrs fun he => hmac (hnode.mp he),hlist,hears_wanted hs h hmac hids (hagree hmac)]

/-- What a `0x15` message makes the TN delete. -/
theorem installed_dels (hs : Sound cfg) (h : Holds cfg tn) (hids : ∀ r ∈ ids, r ∈ nodeTrsIds cfg mac)
    (hagree : tn.mac ≠ mac → ∀ r ∈ ids, Agree cfg tn r) (stack : UInt8) (res : Fixres DelResData)
    (hnode : res.snode = tn.nodeid ↔ tn.mac = mac) (hres : res.res = ids.map (delEntry cfg rs)) :
    installed (tn.bside ++ delMsgs stack tn res) =
      installed tn.bside \ ((ids.filter (wanted cfg tn.mac)).map (place cfg rs)).toFinset := by
  by_cases hmac : tn.mac = mac
  · rw [installed_del_own (hnode.mpr hmac),wanted_own (hmac ▸ hids)]
    simp
  · have hmap : (res.res.map fun d => (d.resid,d.send2all,delPlace d)) =
        ids.map fun r => (r,(cfg.resCfgTbl r).send2all,place cfg rs r) := by
      rw [hres,List.map_map]
      rfl
    have hlist := filter_map_of_map_eq hmap (fun x => hears tn x.1 x.2.1) (fun x => x.2.2)
    rw [installed_del fun he => hmac (hnode.mp he),hlist,hears_wanted hs h hmac hids (hagree hmac)]

end Decide

end Assignment
end Autbus
