import Autbus.Assignment
import Autbus.Indices
import Mathlib.Data.Set.Card

/-! The list of `get_rcv_res_config`, which the receive slots and the resources sent to all
fill one after the other. -/
namespace Autbus
namespace RcvLists

open Frames ResTables Placement Reception Assignment

/-- The node should receive the resource: it is active, and assigned to the node. -/
def Wanted (cfg : ResmgrConfig) (rs : ResStateTbl) (mac : Mac) (t : UInt8) : Prop :=
  t ∈ tblIds ∧ Active rs t ∧ assigns cfg mac t = true

/-- The list is short, names no resource twice and has just what the node should receive, all
of it if that is not too much. -/
structure Complete (cfg : ResmgrConfig) (rs : ResStateTbl) (mac : Mac) : Prop where
  short : (getRcvResConfig cfg rs mac).length ≤ maxRcvResCnt
  once : ((getRcvResConfig cfg rs mac).map RcvResData.resid).Nodup
  sound : ∀ e ∈ getRcvResConfig cfg rs mac, ∃ t, Wanted cfg rs mac t ∧ e = rcvEntry cfg rs t
  all : {t | Wanted cfg rs mac t}.encard ≤ maxRcvResCnt → ∀ t, Wanted cfg rs mac t →
    rcvEntry cfg rs t ∈ getRcvResConfig cfg rs mac

/-- The receive slots name no active resource twice and none that the list takes from those
sent to all, and the table knows the resources on the list apart. -/
structure Apart (cfg : ResmgrConfig) (rs : ResStateTbl) (mac : Mac) : Prop where
  slots : receivesAll cfg mac = false → (ownRcv cfg rs mac).Nodup
  sent : receivesAll cfg mac = false → ∀ t ∈ ownRcv cfg rs mac,
    t ∉ (sentToAll cfg rs).take (maxRcvResCnt-(ownRcv cfg rs mac).length)
  rows : ∀ t ∈ rcvTaken cfg rs mac, ∀ u ∈ rcvTaken cfg rs mac,
    (cfg.resCfgTbl t).resid = (cfg.resCfgTbl u).resid → t = u

section List

variable {cfg : ResmgrConfig} {rs : ResStateTbl} {mac : Mac} {t : UInt8}

theorem tblIds_nodup : tblIds.Nodup := by
  unfold tblIds
  refine List.Nodup.map_on ?_ List.nodup_range'
  intro i hi j hj heq
  have hi := List.mem_range'_1.mp hi
  have hj := List.mem_range'_1.mp hj
  have htoNat := congrArg UInt8.toNat heq
  rw [UInt8.toNat_ofNat',UInt8.toNat_ofNat'] at htoNat
  omega

theorem mem_ownRcv : t ∈ ownRcv cfg rs mac ↔ t ∈ nodeRcvIds cfg mac ∧ Active rs t := by
  rw [ownRcv,List.mem_filter,decide_eq_true_iff]

theorem mem_sentToAll : t ∈ sentToAll cfg rs ↔ t ∈ tblIds ∧ Active rs t ∧ (cfg.resCfgTbl t).send2all ≠ 0 := by
  rw [sentToAll,List.mem_filter,decide_eq_true_iff]

theorem ownRcv_length (cfg : ResmgrConfig) (rs : ResStateTbl) (mac : Mac) :
    (ownRcv cfg rs mac).length ≤ maxRcvResCnt := by
  refine (List.length_filter_le _ _).trans ?_
  unfold nodeRcvIds
  split
  · exact Nat.zero_le _
  · refine (List.length_filter_le _ _).trans ?_
    rw [List.length_map,List.length_finRange]
    exact le_refl 16

/-- The slots of a node name ids of the table. -/
theorem nodeRcvIds_tbl (hids : Indices.ReceivesSized cfg mac) (hall : receivesAll cfg mac = false)
    (ht : t ∈ nodeRcvIds cfg mac) : t ∈ tblIds := by
  unfold nodeRcvIds at ht
  split at ht
  · exact absurd ht List.not_mem_nil
  · next i hi =>
    have hrcvall : (cfg.nodeCfgTbl i).rcvall = 0 := by
      unfold receivesAll getNodeResId at hall
      rw [hi] at hall
      simpa using hall
    rw [rcvIds,List.mem_filter,List.mem_map] at ht
    obtain ⟨⟨j,-,rfl⟩,hne⟩ := ht
    have hsized : ((cfg.nodeCfgTbl i).rcvResId j).toNat < 254 := hids i j hi hrcvall
    exact mem_tblIds.mpr ⟨of_decide_eq_true hne,UInt8.lt_iff_toNat_lt.mpr hsized⟩

theorem rcvTaken_wanted (hids : Indices.ReceivesSized cfg mac) (ht : t ∈ rcvTaken cfg rs mac) :
    Wanted cfg rs mac t := by
  unfold rcvTaken at ht
  unfold Wanted assigns
  cases hall : receivesAll cfg mac with
  | true =>
    rw [if_pos hall] at ht
    obtain ⟨htbl,hact⟩ := List.mem_filter.mp (List.mem_of_mem_take ht)
    exact ⟨htbl,of_decide_eq_true hact,rfl⟩
  | false =>
    rw [hall,if_neg Bool.false_ne_true] at ht
    rw [if_neg Bool.false_ne_true,decide_eq_true_iff]
    rcases List.mem_append.mp ht with hown | hsent
    · obtain ⟨hslot,hact⟩ := mem_ownRcv.mp hown
      exact ⟨nodeRcvIds_tbl hids hall hslot,hact,Or.inl hslot⟩
    · obtain ⟨htbl,hact,hall⟩ := mem_sentToAll.mp (List.mem_of_mem_take hsent)
      exact ⟨htbl,hact,Or.inr hall⟩

theorem rcvTaken_length (cfg : ResmgrConfig) (rs : ResStateTbl) (mac : Mac) :
    (rcvTaken cfg rs mac).length ≤ maxRcvResCnt := by
  unfold rcvTaken
  split
  · exact List.length_take_le _ _
  · have hown := ownRcv_length cfg rs mac
    have hsent := List.length_take_le (maxRcvResCnt-(ownRcv cfg rs mac).length) (sentToAll cfg rs)
    rw [List.length_append]
    omega

/-- A list that misses something is full. -/
theorem rcvTaken_full (ht : Wanted cfg rs mac t) (hno : t ∉ rcvTaken cfg rs mac) :
    (rcvTaken cfg rs mac).length = maxRcvResCnt := by
  have hlen := rcvTaken_length cfg rs mac
  obtain ⟨htbl,hact,hassigns⟩ := ht
  unfold rcvTaken at hno hlen ⊢
  unfold assigns at hassigns
  cases hall : receivesAll cfg mac with
  | true =>
    rw [hall,if_pos rfl] at hno hlen
    rw [if_pos rfl]
    by_contra hne
    rw [List.length_take] at hne
    rw [List.take_of_length_le (by omega)] at hno
    exact hno (List.mem_filter.mpr ⟨htbl,decide_eq_true hact⟩)
  | false =>
    rw [hall,if_neg Bool.false_ne_true] at hno hlen hassigns
    rw [if_neg Bool.false_ne_true]
    rw [decide_eq_true_iff] at hassigns
    by_contra hne
    have hown : t ∉ ownRcv cfg rs mac := fun hmem => hno (List.mem_append_left _ hmem)
    have hsent : t ∈ sentToAll cfg rs := by
      refine mem_sentToAll.mpr ⟨htbl,hact,hassigns.resolve_left fun hslot => ?_⟩
      exact hown (mem_ownRcv.mpr ⟨hslot,hact⟩)
    rw [List.length_append,List.length_take] at hne hlen
    rw [List.take_of_length_le (by omega)] at hno
    exact hno (List.mem_append_right _ hsent)

/-- A full list without repetition has all there is, when there is no more than it can hold. -/
theorem rcvTaken_all (hids : Indices.ReceivesSized cfg mac) (hnodup : (rcvTaken cfg rs mac).Nodup)
    (hfew : {t | Wanted cfg rs mac t}.encard ≤ maxRcvResCnt) (ht : Wanted cfg rs mac t) :
    t ∈ rcvTaken cfg rs mac := by
  by_contra hno
  have hfull := rcvTaken_full ht hno
  have hsub : ((rcvTaken cfg rs mac).toFinset : Set UInt8) ⊆ {t | Wanted cfg rs mac t} := by
    intro u hu
    exact rcvTaken_wanted hids (List.mem_toFinset.mp hu)
  have hcard : ((rcvTaken cfg rs mac).toFinset : Set UInt8).encard = maxRcvResCnt := by
    rw [Set.encard_coe_eq_coe_finsetCard,List.toFinset_card_of_nodup hnodup,hfull]
  have heq := (Finset.finite_toSet _).eq_of_subset_of_encard_le hsub (hcard ▸ hfew)
  have hmem : t ∈ ((rcvTaken cfg rs mac).toFinset : Set UInt8) := heq ▸ ht
  exact hno (List.mem_toFinset.mp hmem)

theorem rcvTaken_nodup_iff : (rcvTaken cfg rs mac).Nodup ↔ (receivesAll cfg mac = false →
    (ownRcv cfg rs mac).Nodup ∧ ∀ t ∈ ownRcv cfg rs mac,
      t ∉ (sentToAll cfg rs).take (maxRcvResCnt-(ownRcv cfg rs mac).length)) := by
  have htake : ∀ p n, ((tblIds.filter p).take n).Nodup := fun p n =>
    (tblIds_nodup.filter p).sublist (List.take_sublist n _)
  unfold rcvTaken
  cases receivesAll cfg mac with
  | true =>
    rw [if_pos rfl]
    exact ⟨fun _ hall => absurd hall (by decide),fun _ => htake _ _⟩
  | false =>
    rw [if_neg Bool.false_ne_true,List.nodup_append']
    constructor
    · rintro ⟨hown,-,hdisj⟩ -
      exact ⟨hown,fun t ht hsent => hdisj ht hsent⟩
    · intro h
      obtain ⟨hown,hsent⟩ := h rfl
      exact ⟨hown,htake _ _,fun t ht ht' => hsent t ht ht'⟩

/-- The ids on the list are those of the table's rows. -/
theorem once_iff : ((getRcvResConfig cfg rs mac).map RcvResData.resid).Nodup ↔ Apart cfg rs mac := by
  have hmap : (getRcvResConfig cfg rs mac).map RcvResData.resid =
      (rcvTaken cfg rs mac).map fun t => (cfg.resCfgTbl t).resid := by
    rw [getRcvResConfig_eq,List.map_map]
    rfl
  rw [hmap]
  constructor
  · intro h
    have hnodup := rcvTaken_nodup_iff.mp (List.Nodup.of_map _ h)
    exact ⟨fun hall => (hnodup hall).1,fun hall => (hnodup hall).2,(List.nodup_map_iff_inj_on (.of_map _ h)).mp h⟩
  · intro h
    have hnodup := rcvTaken_nodup_iff.mpr fun hall => ⟨h.slots hall,h.sent hall⟩
    exact (List.nodup_map_iff_inj_on hnodup).mpr h.rows

/-- The TN receives resource 1, which is sent to all or not. -/
def oneRcv (send2all : UInt8) : ResmgrConfig :=
  ⟨fun r => if r = 1 then ⟨1,0,1,8,configEnable,send2all,4⟩ else zeroRes,
    fun i => if i = 0 then ⟨tnMac,configEnable,0,fun _ => 0,fun j => if j = 0 then 1 else 0⟩ else zeroNode⟩

/-- Resource 1 is on the air. -/
def oneActive : ResStateTbl := fun r => if r = 1 then ⟨2,4,1,1⟩ else zeroState

theorem oneRcv_sized (send2all : UInt8) : Indices.ReceivesSized (oneRcv send2all) tnMac := by
  intro i b hi hrcvall
  have hslots : ∀ i b, ((oneRcv send2all).nodeCfgTbl i).rcvResId b = 0 ∨
      ((oneRcv send2all).nodeCfgTbl i).rcvResId b = 1 := by
    intro i b
    unfold oneRcv
    dsimp only
    split
    · dsimp only
      split
      · exact Or.inr rfl
      · exact Or.inl rfl
    · exact Or.inl rfl
  rcases hslots i b with hb | hb
  · rw [hb]
    decide
  · rw [hb]
    decide

end List

end RcvLists
end Autbus
