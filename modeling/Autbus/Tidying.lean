import Autbus.Images
import Autbus.Assignment

/-! What `get_resmgr` does to the lookups of `resmgr.c`. It clears the entries it does not count
as configured in the tables that the lookups read, and the lookups count otherwise. -/
namespace Autbus
namespace Tidying

open Bytes ResTables Placement Reception Assignment Images
open HostUi (Ui)
open Services (nodeOf)
open SrvRpc (byteAt)

/-- The tables in memory as the lookups read them, with an id of 8 bits: the two ids behind the
resource table read what lies behind it, the first entry of the node table. -/
def tables (m : Mem) : ResmgrConfig :=
  ⟨fun r => resOf (read m (7*r.toNat) 7),fun i => nodeOf (read m (254*7+32*i.val) 32)⟩

/-- The ids whose entry `get_resmgr` clears. -/
def cleared (cfg : ResmgrConfig) (r : UInt8) : Bool :=
  if r.toNat < maxResCfgId then
    (cfg.resCfgTbl r).cfgState ≠ configEnable ∧ (cfg.resCfgTbl r).cfgState ≠ configDisable
  else (cfg.nodeCfgTbl 0).cfgState ≠ configEnable

/-- `get_resmgr` on the tables as the lookups read them. -/
def tidied (cfg : ResmgrConfig) : ResmgrConfig :=
  ⟨fun r => if cleared cfg r = true then zeroRes else cfg.resCfgTbl r,fun i => Saves.tidyNode (cfg.nodeCfgTbl i)⟩

/-- A lookup about the node with the MAC finds the same in both tables. -/
structure SameLookups (cfg cfg' : ResmgrConfig) (rs : ResStateTbl) (mac : Mac) : Prop where
  node : getNodeResId cfg' mac = getNodeResId cfg mac
  trs : getTrsResConfig cfg' mac = getTrsResConfig cfg mac
  rcv : getRcvResConfig cfg' rs mac = getRcvResConfig cfg rs mac
  del : getDelResConfig cfg' rs mac = getDelResConfig cfg rs mac

/-! ### The memory -/

theorem resOf_zero : resOf (List.replicate 7 0) = zeroRes := rfl

/-- The seven bytes of an id behind the table are part of the first node entry. -/
theorem read_behind (m : Mem) {r : UInt8} (hr : ¬r.toNat < maxResCfgId) :
    read m (7*r.toNat) 7 = ((read m (254*7+32*0) 32).drop (7*(r.toNat-254))).take 7 := by
  have hlt := r.toNat_lt
  rw [maxResCfgId] at hr
  rw [read_drop m _ (by omega),read_take m _ (by omega),
    show 254*7+32*0+7*(r.toNat-254) = 7*r.toNat by omega]

theorem clearNode_piece (b : List UInt8) {k : ℕ} (hk : k ≤ 25) :
    resOf (((clearNode b).drop k).take 7) =
      if byteAt b 6 ≠ 2 then zeroRes else resOf ((b.drop k).take 7) := by
  unfold clearNode
  split
  · rw [List.drop_replicate,List.take_replicate,Nat.min_eq_left (by omega)]
    exact resOf_zero
  · rfl

/-- What the memory holds after `get_resmgr`. -/
theorem tables_getResmgr (u : Ui) : tables (u.getResmgr.mem .resmgr) = tidied (tables (u.mem .resmgr)) := by
  rw [getResmgr_mem]
  have hres : ∀ r, resOf (read ((List.range 254).foldl resRound
      ((List.range 64).foldl nodeRound (u.mem .resmgr))) (7*UInt8.toNat r) 7) =
      (tidied (tables (u.mem .resmgr))).resCfgTbl r := by
    intro r
    by_cases hr : r.toNat < maxResCfgId
    · have hlt : r.toNat < 254 := hr
      have hframe := nodeRound_round.loop_frame 64 (u.mem .resmgr) (c := 0+7*r.toNat) (k := 7) (by omega)
      have hentry := resRound_round.loop_entry hlt ((List.range 64).foldl nodeRound (u.mem .resmgr))
      rw [hframe,Nat.zero_add] at hentry
      rw [hentry,resOf_clear]
      unfold tidied cleared Saves.tidyRes
      simp only [hr,if_true,decide_eq_true_eq]
      rfl
    · have hlt := r.toNat_lt
      have hframe := resRound_round.loop_frame 254 ((List.range 64).foldl nodeRound (u.mem .resmgr))
        (c := 254*7+32*0) (k := 32) (by omega)
      rw [read_behind _ hr,hframe,nodeRound_round.loop_entry (by omega)]
      rw [clearNode_piece _ (by omega),← read_behind _ hr]
      unfold tidied cleared
      simp only [hr,if_false,decide_eq_true_eq]
      rfl
  have hnodes : ∀ i : Fin 64, nodeOf (read ((List.range 254).foldl resRound
      ((List.range 64).foldl nodeRound (u.mem .resmgr))) (254*7+32*i.val) 32) =
      (tidied (tables (u.mem .resmgr))).nodeCfgTbl i := by
    intro i
    have hframe := resRound_round.loop_frame 254 ((List.range 64).foldl nodeRound (u.mem .resmgr))
      (c := 254*7+32*i.val) (k := 32) (by omega)
    rw [hframe,nodeRound_round.loop_entry i.isLt,nodeOf_clear]
    rfl
  unfold tables
  rw [funext hres,funext hnodes]
  rfl

/-! ### The lookups -/

section Lists

variable {α β : Type*}

/-- The first element with a property is the first one with a stronger property that it has. -/
theorem find?_of_imp {p q : α → Bool} {l : List α} {a : α} (hpq : ∀ x, q x = true → p x = true)
    (h : l.find? p = some a) (ha : q a = true) : l.find? q = some a := by
  induction l with
  | nil => exact absurd h (by simp)
  | cons x l ih =>
    by_cases hx : p x = true
    · rw [List.find?_cons_of_pos hx] at h
      obtain rfl := Option.some.inj h
      exact List.find?_cons_of_pos ha
    · rw [List.find?_cons_of_neg hx] at h
      rw [List.find?_cons_of_neg fun hq => hx (hpq x hq)]
      exact ih h

theorem map_filter_eq_iff {f : α → β} {p : α → Bool} {l : List α} :
    (l.filter p).map f = l.map f ↔ ∀ x ∈ l, p x = true := by
  constructor
  · intro h
    have hlen := congrArg List.length h
    rw [List.length_map,List.length_map] at hlen
    exact List.length_filter_eq_length_iff.mp hlen
  · intro h
    rw [List.filter_eq_self.mpr h]

/-- Two lists one behind the other agree piece by piece. -/
theorem map_append_eq_iff {f g : α → β} {l : List α} {r r' : List β} :
    l.map f ++ r = l.map g ++ r' ↔ l.map f = l.map g ∧ r = r' :=
  ⟨fun h => List.append_inj h (by rw [List.length_map,List.length_map]),fun h => by rw [h.1,h.2]⟩

end Lists

variable {cfg : ResmgrConfig} {rs : ResStateTbl} {mac : Mac}

/-- When the lookups about a node are as before: its entry is enabled, the cleared entries are
not transmitted, deleted or received as anything but zero, and what is sent to all reads the
same without them. -/
structure Untouched (cfg : ResmgrConfig) (rs : ResStateTbl) (mac : Mac) : Prop where
  node : ∀ i, findNode cfg mac = some i → (cfg.nodeCfgTbl i).cfgState = configEnable
  trs : ∀ t ∈ enabledTrs cfg mac, cleared cfg t = false
  del : ∀ t ∈ nodeTrsIds cfg mac, (rs t).state ≠ 0 → cleared cfg t = true →
    (cfg.resCfgTbl t).len = 0 ∧ (cfg.resCfgTbl t).send2all = 0
  slots : ∀ t ∈ (if receivesAll cfg mac then (tblIds.filter (Active rs ·)).take maxRcvResCnt
      else ownRcv cfg rs mac),
    cleared cfg t = true → (cfg.resCfgTbl t).resid = 0 ∧ (cfg.resCfgTbl t).len = 0
  all : receivesAll cfg mac = false →
    (((sentToAll cfg rs).filter fun t => !cleared cfg t).take (maxRcvResCnt-(ownRcv cfg rs mac).length)).map
        (rcvEntry cfg rs) =
      ((sentToAll cfg rs).take (maxRcvResCnt-(ownRcv cfg rs mac).length)).map (rcvEntry cfg rs)

theorem tidyNode_valid (nc : NodeConfig) :
    (Saves.tidyNode nc).cfgState ≠ configUnvalid ↔ nc.cfgState = configEnable := by
  unfold Saves.tidyNode
  split
  · next h => exact ⟨fun hz => absurd rfl hz,fun hen => absurd hen h⟩
  · next h =>
    have h := not_not.mp h
    rw [h]
    exact ⟨fun _ => rfl,fun _ => by decide⟩

theorem tidyNode_enabled {nc : NodeConfig} (h : nc.cfgState = configEnable) : Saves.tidyNode nc = nc :=
  if_neg fun hne => hne h

/-- The lookups find an entry afterwards that was enabled before. -/
theorem findNode_tidied {i : Fin 64} (h : findNode (tidied cfg) mac = some i) :
    (cfg.nodeCfgTbl i).cfgState = configEnable ∧ (cfg.nodeCfgTbl i).mac = mac := by
  obtain ⟨hvalid,hmac⟩ := Edits.findNode_some h
  have hen := (tidyNode_valid (cfg.nodeCfgTbl i)).mp hvalid
  refine ⟨hen,?_⟩
  have hmac : (Saves.tidyNode (cfg.nodeCfgTbl i)).mac = mac := hmac
  rwa [tidyNode_enabled hen] at hmac

theorem findNode_kept {i : Fin 64} (h : findNode cfg mac = some i)
    (hen : (cfg.nodeCfgTbl i).cfgState = configEnable) : findNode (tidied cfg) mac = some i := by
  refine find?_of_imp (fun j hj => ?_) h ?_
  · rw [decide_eq_true_eq] at hj ⊢
    have henj := (tidyNode_valid (cfg.nodeCfgTbl j)).mp hj.1
    have hmac : (Saves.tidyNode (cfg.nodeCfgTbl j)).mac = mac := hj.2
    rw [tidyNode_enabled henj] at hmac
    exact ⟨by rw [henj]; decide,hmac⟩
  · rw [decide_eq_true_eq]
    refine ⟨(tidyNode_valid _).mpr hen,?_⟩
    show (Saves.tidyNode (cfg.nodeCfgTbl i)).mac = mac
    rw [tidyNode_enabled hen]
    exact (Edits.findNode_some h).2

theorem findNode_tidied_none (h : findNode cfg mac = none) : findNode (tidied cfg) mac = none := by
  cases hi : findNode (tidied cfg) mac with
  | none => rfl
  | some i =>
    obtain ⟨hen,hmac⟩ := findNode_tidied hi
    exact absurd hmac (Consistency.findNode_none h i (by unfold Edits.Valid; rw [hen]; decide))

/-- A node whose entry is found disabled is not found with that entry afterwards. -/
theorem getNodeResId_tidied_iff :
    getNodeResId (tidied cfg) mac = getNodeResId cfg mac ↔
      ∀ i, findNode cfg mac = some i → (cfg.nodeCfgTbl i).cfgState = configEnable := by
  constructor
  · intro h i hi
    unfold getNodeResId at h
    rw [hi] at h
    obtain ⟨j,hj,heq⟩ := Option.map_eq_some_iff.mp h
    have hen := (findNode_tidied hj).1
    have heq : Saves.tidyNode (cfg.nodeCfgTbl j) = cfg.nodeCfgTbl i := heq
    rw [← heq,tidyNode_enabled hen]
    exact hen
  · intro h
    unfold getNodeResId
    cases hi : findNode cfg mac with
    | none => rw [findNode_tidied_none hi]; rfl
    | some i =>
      rw [findNode_kept hi (h i hi)]
      exact congrArg some (tidyNode_enabled (h i hi))

/-- A cleared entry reads the same when it held zeros. -/
theorem delEntry_tidied_iff {t : UInt8} :
    delEntry (tidied cfg) rs t = delEntry cfg rs t ↔
      (cleared cfg t = true → (cfg.resCfgTbl t).len = 0 ∧ (cfg.resCfgTbl t).send2all = 0) := by
  unfold delEntry tidied
  by_cases ht : cleared cfg t = true
  · simp only [ht,if_true,zeroRes,DelResData.mk.injEq,true_and,true_implies]
    exact and_congr eq_comm eq_comm
  · simp [ht]

theorem rcvEntry_tidied_iff {t : UInt8} :
    rcvEntry (tidied cfg) rs t = rcvEntry cfg rs t ↔
      (cleared cfg t = true → (cfg.resCfgTbl t).resid = 0 ∧ (cfg.resCfgTbl t).len = 0) := by
  unfold rcvEntry tidied
  by_cases ht : cleared cfg t = true
  · simp only [ht,if_true,zeroRes,RcvResData.mk.injEq,true_and,true_implies]
    exact and_congr eq_comm eq_comm
  · simp [ht]

theorem rcvEntry_kept {t : UInt8} (ht : cleared cfg t = false) : rcvEntry (tidied cfg) rs t = rcvEntry cfg rs t :=
  rcvEntry_tidied_iff.mpr fun hc => absurd (ht.symm.trans hc) (by simp)

theorem sentToAll_tidied : sentToAll (tidied cfg) rs = (sentToAll cfg rs).filter fun t => !cleared cfg t := by
  unfold sentToAll
  rw [List.filter_filter]
  refine List.filter_congr fun t _ => ?_
  simp only [tidied]
  by_cases ht : cleared cfg t = true
  · simp [ht,zeroRes]
  · simp [ht]

section Found

variable (h : ∀ i, findNode cfg mac = some i → (cfg.nodeCfgTbl i).cfgState = configEnable)

include h

theorem nodeTrsIds_tidied : nodeTrsIds (tidied cfg) mac = nodeTrsIds cfg mac := by
  unfold nodeTrsIds
  cases hi : findNode cfg mac with
  | none => rw [findNode_tidied_none hi]
  | some i =>
    rw [findNode_kept hi (h i hi)]
    exact congrArg trsIds (tidyNode_enabled (h i hi))

theorem nodeRcvIds_tidied : nodeRcvIds (tidied cfg) mac = nodeRcvIds cfg mac := by
  unfold nodeRcvIds
  cases hi : findNode cfg mac with
  | none => rw [findNode_tidied_none hi]
  | some i =>
    rw [findNode_kept hi (h i hi)]
    exact congrArg rcvIds (tidyNode_enabled (h i hi))

theorem receivesAll_tidied : receivesAll (tidied cfg) mac = receivesAll cfg mac := by
  unfold receivesAll
  rw [getNodeResId_tidied_iff.mpr h]

/-- What is transmitted loses the cleared entries. -/
theorem getTrsResConfig_tidied_iff :
    getTrsResConfig (tidied cfg) mac = getTrsResConfig cfg mac ↔ ∀ t ∈ enabledTrs cfg mac, cleared cfg t = false := by
  have henabled : enabledTrs (tidied cfg) mac = (enabledTrs cfg mac).filter fun t => !cleared cfg t := by
    unfold enabledTrs
    rw [nodeTrsIds_tidied h,List.filter_filter]
    refine List.filter_congr fun t _ => ?_
    simp only [tidied]
    by_cases ht : cleared cfg t = true
    · simp [ht,zeroRes,configEnable]
    · simp [ht]
  have hentry : ((enabledTrs cfg mac).filter fun t => !cleared cfg t).map (trsEntry (tidied cfg)) =
      ((enabledTrs cfg mac).filter fun t => !cleared cfg t).map (trsEntry cfg) := by
    refine List.map_congr_left fun t ht => ?_
    have hkept : cleared cfg t = false := by simpa using (List.mem_filter.mp ht).2
    simp [trsEntry,tidied,hkept]
  unfold getTrsResConfig
  rw [henabled,hentry,map_filter_eq_iff]
  simp

theorem getDelResConfig_tidied_iff :
    getDelResConfig (tidied cfg) rs mac = getDelResConfig cfg rs mac ↔
      ∀ t ∈ nodeTrsIds cfg mac, (rs t).state ≠ 0 → cleared cfg t = true →
        (cfg.resCfgTbl t).len = 0 ∧ (cfg.resCfgTbl t).send2all = 0 := by
  unfold getDelResConfig
  rw [nodeTrsIds_tidied h,List.map_inj_left]
  simp only [delEntry_tidied_iff,List.mem_filter,decide_eq_true_eq,and_imp]

/-- The slots keep their ids, what is sent to all loses the cleared ones. -/
theorem getRcvResConfig_tidied_iff :
    getRcvResConfig (tidied cfg) rs mac = getRcvResConfig cfg rs mac ↔
      (∀ t ∈ (if receivesAll cfg mac then (tblIds.filter (Active rs ·)).take maxRcvResCnt else ownRcv cfg rs mac),
        cleared cfg t = true → (cfg.resCfgTbl t).resid = 0 ∧ (cfg.resCfgTbl t).len = 0) ∧
      (receivesAll cfg mac = false →
        (((sentToAll cfg rs).filter fun t => !cleared cfg t).take (maxRcvResCnt-(ownRcv cfg rs mac).length)).map
            (rcvEntry cfg rs) =
          ((sentToAll cfg rs).take (maxRcvResCnt-(ownRcv cfg rs mac).length)).map (rcvEntry cfg rs)) := by
  have hown : ownRcv (tidied cfg) rs mac = ownRcv cfg rs mac := by
    unfold ownRcv
    rw [nodeRcvIds_tidied h]
  have hkept : ∀ n, (((sentToAll cfg rs).filter fun t => !cleared cfg t).take n).map (rcvEntry (tidied cfg) rs) =
      (((sentToAll cfg rs).filter fun t => !cleared cfg t).take n).map (rcvEntry cfg rs) := fun n =>
    List.map_congr_left fun t ht =>
      rcvEntry_kept (by simpa using (List.mem_filter.mp (List.mem_of_mem_take ht)).2)
  rw [getRcvResConfig_eq,getRcvResConfig_eq,rcvTaken,rcvTaken,receivesAll_tidied h,hown,sentToAll_tidied]
  cases hall : receivesAll cfg mac with
  | true =>
    simp only [if_true,List.map_inj_left,rcvEntry_tidied_iff,reduceCtorEq,false_implies,and_true]
  | false =>
    simp only [Bool.false_eq_true,if_false,List.map_append]
    rw [map_append_eq_iff,hkept,List.map_inj_left]
    simp only [rcvEntry_tidied_iff,true_implies]

end Found

theorem sameLookups_iff : SameLookups cfg (tidied cfg) rs mac ↔ Untouched cfg rs mac := by
  constructor
  · intro h
    have hnode := getNodeResId_tidied_iff.mp h.node
    obtain ⟨hslots,hall⟩ := (getRcvResConfig_tidied_iff hnode).mp h.rcv
    exact ⟨hnode,(getTrsResConfig_tidied_iff hnode).mp h.trs,(getDelResConfig_tidied_iff hnode).mp h.del,hslots,hall⟩
  · intro h
    exact ⟨getNodeResId_tidied_iff.mpr h.node,(getTrsResConfig_tidied_iff h.node).mpr h.trs,
      (getRcvResConfig_tidied_iff h.node).mpr ⟨h.slots,h.all⟩,(getDelResConfig_tidied_iff h.node).mpr h.del⟩

/-- `get_resmgr` changes no lookup just when it leaves untouched what the lookups read. -/
theorem getResmgr_sameLookups_iff (u : Ui) (rs : ResStateTbl) :
    (∀ mac, SameLookups (tables (u.mem .resmgr)) (tables (u.getResmgr.mem .resmgr)) rs mac) ↔
      ∀ mac, Untouched (tables (u.mem .resmgr)) rs mac := by
  rw [tables_getResmgr]
  exact forall_congr' fun mac => sameLookups_iff

/-- A message with the image of one node, which is disabled: state 1 and the MAC 5. -/
def disabledImage : Mem := Function.update (Function.update (fun _ => 0) (2+(254*7+5)) 5) (2+(254*7+6)) 1

def hostUi : Ui where
  mem := fun _ => disabledImage
  cmd := .none
  sigNodeid := 0
  dbggetNodeid := 0
  dbgsetNodeid := 0
  devgetNodeid := 0
  devsetNodeid := 0
  uiforwardNodeid := 0
  otaFlag := 0
  otaReplyCmd := .none
  otaReplyLen := 0
  otaDataSn := 0
  nodes := []
  systime := 0
  dstmac := []
  log := []
  out := []

/-- The node is found before `get_resmgr` and not found after it. -/
theorem disabled_not_found :
    (getNodeResId (tables (hostUi.setResmgr.mem .resmgr)) 5).isSome ∧
      getNodeResId (tables (hostUi.setResmgr.getResmgr.mem .resmgr)) 5 = none := by
  have hstate : ∀ i : Fin 64, ((tables (hostUi.setResmgr.mem .resmgr)).nodeCfgTbl i).cfgState ≠ configEnable := by
    decide
  refine ⟨by decide,?_⟩
  rw [tables_getResmgr]
  unfold getNodeResId
  cases hi : findNode (tidied (tables (hostUi.setResmgr.mem .resmgr))) 5 with
  | none => rfl
  | some i => exact absurd (findNode_tidied hi).1 (hstate i)

end Tidying
end Autbus
