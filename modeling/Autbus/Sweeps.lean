import Autbus.Images

/-! `clear_node_config` goes through a pointer that it never sets. Here the pointer is an
address like any other and the scan runs over the 64 records that lie there. -/
namespace Autbus
namespace Sweeps

open Bytes ResTables
open Services (nodeOf)
open SrvRpc (byteAt)

/-- `sizeof(node_config_t)`. -/
def nodeSize : ℕ := 32

/-- `&pncfg[i]`. -/
def entry (pncfg i : ℕ) : ℕ := pncfg+nodeSize*i

/-- One round of `clear_node_config`. -/
def clearAt (pncfg : ℕ) (m : Mem) (i : ℕ) : Mem :=
  let e := entry pncfg i
  if m (e+6) = configUnvalid then m
  else if m (e+7) ≠ 0 then m
  else if ∃ j < maxTrsResCnt, m (e+8+j) ≠ unusedResId then m
  else if ∃ j < maxRcvResCnt, m (e+16+j) ≠ unusedResId then m
  else Bytes.store m (e+6) [configUnvalid]

/-- `clear_node_config`; `pncfg` is what the pointer happens to hold. -/
def clearNodeConfig (pncfg : ℕ) (m : Mem) : Mem := (List.range maxConfigNodeCnt).foldl (clearAt pncfg) m

/-- The record is a valid entry that receives nothing by itself and lists no resource. -/
structure Idle (m : Mem) (a : ℕ) : Prop where
  valid : m (a+6) ≠ configUnvalid
  rcvall : m (a+7) = 0
  trs : ∀ j < maxTrsResCnt, m (a+8+j) = unusedResId
  rcv : ∀ j < maxRcvResCnt, m (a+16+j) = unusedResId

/-- The address is that of one of the records from `p` on. -/
def Among (p a : ℕ) : Prop := ∃ i < maxConfigNodeCnt, a = entry p i

/-- The idle entries of the table have been invalidated, and nothing else has changed. -/
structure Swept (tbl : ℕ) (m m' : Mem) : Prop where
  idle : ∀ a, Among tbl a → Idle m a → m' (a+6) = configUnvalid
  other : ∀ x, (¬∃ a, Among tbl a ∧ Idle m a ∧ x = a+6) → m' x = m x

section Scan

variable {m m' : Mem} {p a x : ℕ}

theorem Idle.congr (h : Idle m a) (hm : ∀ k < nodeSize, m' (a+k) = m (a+k)) : Idle m' a := by
  have hsix := hm 6 (by decide)
  have hseven := hm 7 (by decide)
  refine ⟨?_,?_,fun j hj => ?_,fun j hj => ?_⟩
  · rw [hsix]
    exact h.valid
  · rw [hseven]
    exact h.rcvall
  · have hlt : j < 8 := hj
    have hbyte := hm (8+j) (by unfold nodeSize; omega)
    rw [← Nat.add_assoc] at hbyte
    rw [hbyte]
    exact h.trs j hj
  · have hlt : j < 16 := hj
    have hbyte := hm (16+j) (by unfold nodeSize; omega)
    rw [← Nat.add_assoc] at hbyte
    rw [hbyte]
    exact h.rcv j hj

theorem clearAt_idle {i : ℕ} (h : Idle m (entry p i)) :
    clearAt p m i = Function.update m (entry p i+6) configUnvalid := by
  have htrs : ¬∃ j < maxTrsResCnt, m (entry p i+8+j) ≠ unusedResId := fun ⟨j,hj,hne⟩ => hne (h.trs j hj)
  have hrcv : ¬∃ j < maxRcvResCnt, m (entry p i+16+j) ≠ unusedResId := fun ⟨j,hj,hne⟩ => hne (h.rcv j hj)
  unfold clearAt
  dsimp only
  rw [if_neg h.valid,if_neg (not_not.mpr h.rcvall),if_neg htrs,if_neg hrcv,store_one]

theorem clearAt_busy {i : ℕ} (h : ¬Idle m (entry p i)) : clearAt p m i = m := by
  unfold clearAt
  dsimp only
  split
  · rfl
  · next hvalid =>
    split
    · rfl
    · next hrcvall =>
      split
      · rfl
      · next htrs =>
        split
        · rfl
        · next hrcv =>
          refine absurd ⟨hvalid,not_not.mp hrcvall,fun j hj => ?_,fun j hj => ?_⟩ h
          · exact by_contra fun hne => htrs ⟨j,hj,hne⟩
          · exact by_contra fun hne => hrcv ⟨j,hj,hne⟩

/-- After `n` rounds the idle records among the first `n` are invalidated, by their own bytes
as they were at the start: a round writes into its own record only. -/
theorem scan_eq (p n : ℕ) (m : Mem) (x : ℕ) :
    ((∃ i < n, x = entry p i+6 ∧ Idle m (entry p i)) →
        (List.range n).foldl (clearAt p) m x = configUnvalid) ∧
      ((¬∃ i < n, x = entry p i+6 ∧ Idle m (entry p i)) → (List.range n).foldl (clearAt p) m x = m x) := by
  induction n generalizing x with
  | zero => exact ⟨fun ⟨i,hi,_⟩ => absurd hi (Nat.not_lt_zero i),fun _ => rfl⟩
  | succ n ih =>
    have hrecord : ∀ k < nodeSize, (List.range n).foldl (clearAt p) m (entry p n+k) = m (entry p n+k) := by
      intro k hk
      refine (ih _).2 ?_
      rintro ⟨i,hi,heq,-⟩
      unfold entry nodeSize at heq
      unfold nodeSize at hk
      omega
    rw [List.range_succ,List.foldl_append,List.foldl_cons,List.foldl_nil]
    by_cases hidle : Idle m (entry p n)
    · rw [clearAt_idle (hidle.congr hrecord)]
      by_cases hx : x = entry p n+6
      · subst hx
        rw [Function.update_self]
        exact ⟨fun _ => rfl,fun hno => absurd ⟨n,Nat.lt_succ_self n,rfl,hidle⟩ hno⟩
      · rw [Function.update_of_ne hx]
        refine ⟨fun ⟨i,hi,hxi,hidle⟩ => (ih x).1 ⟨i,?_,hxi,hidle⟩,fun hno => (ih x).2 ?_⟩
        · rcases Nat.lt_succ_iff_lt_or_eq.mp hi with hi | rfl
          · exact hi
          · exact absurd hxi hx
        · rintro ⟨i,hi,hxi,hidle⟩
          exact hno ⟨i,Nat.lt_succ_of_lt hi,hxi,hidle⟩
    · have hbusy : ¬Idle ((List.range n).foldl (clearAt p) m) (entry p n) := fun h =>
        hidle (h.congr fun k hk => (hrecord k hk).symm)
      rw [clearAt_busy hbusy]
      refine ⟨fun ⟨i,hi,hxi,hi'⟩ => (ih x).1 ⟨i,?_,hxi,hi'⟩,fun hno => (ih x).2 ?_⟩
      · rcases Nat.lt_succ_iff_lt_or_eq.mp hi with hi | rfl
        · exact hi
        · exact absurd hi' hidle
      · rintro ⟨i,hi,hxi,hi'⟩
        exact hno ⟨i,Nat.lt_succ_of_lt hi,hxi,hi'⟩

/-- The scan sweeps the records it finds. -/
theorem clearNodeConfig_swept (p : ℕ) (m : Mem) : Swept p m (clearNodeConfig p m) := by
  constructor
  · rintro a ⟨i,hi,rfl⟩ hidle
    exact (scan_eq p maxConfigNodeCnt m _).1 ⟨i,hi,rfl,hidle⟩
  · intro x hno
    refine (scan_eq p maxConfigNodeCnt m x).2 ?_
    rintro ⟨i,hi,rfl,hidle⟩
    exact hno ⟨entry p i,⟨i,hi,rfl⟩,hidle,rfl⟩

theorem swept_iff (pncfg tbl : ℕ) (m : Mem) : Swept tbl m (clearNodeConfig pncfg m) ↔
    ∀ a, Idle m a → (Among pncfg a ↔ Among tbl a) := by
  have hown := clearNodeConfig_swept pncfg m
  constructor
  · intro h a hidle
    constructor
    · intro ha
      -- a byte that has changed is one of the table's
      by_contra hout
      have hzero := hown.idle a ha hidle
      rw [h.other (a+6) ?_] at hzero
      · exact hidle.valid hzero
      · rintro ⟨b,hb,-,heq⟩
        obtain rfl := Nat.add_right_cancel heq
        exact hout hb
    · intro ha
      by_contra hout
      have hzero := h.idle a ha hidle
      rw [hown.other (a+6) ?_] at hzero
      · exact hidle.valid hzero
      · rintro ⟨b,hb,-,heq⟩
        obtain rfl := Nat.add_right_cancel heq
        exact hout hb
  · intro h
    constructor
    · exact fun a ha hidle => hown.idle a ((h a hidle).mpr ha) hidle
    · intro x hno
      refine hown.other x ?_
      rintro ⟨a,ha,hidle,rfl⟩
      exact hno ⟨a,(h a hidle).mp ha,hidle,rfl⟩

end Scan

/-- The table is at 4096; its first entry is valid and lists nothing. -/
def oneIdle : Mem := Function.update (fun _ => 0) 4102 configEnable

/-- The pointer holds 0 and the scan never gets to the table. -/
theorem oneIdle_stays : ¬Swept 4096 oneIdle (clearNodeConfig 0 oneIdle) := by
  intro h
  have hidle : Idle oneIdle 4096 := ⟨by decide,by decide,by decide,by decide⟩
  have hgone := h.idle 4096 ⟨0,by decide,by decide⟩ hidle
  have hstays := (clearNodeConfig_swept 0 oneIdle).other 4102 (by
    rintro ⟨a,⟨i,hi,rfl⟩,-,heq⟩
    unfold entry nodeSize at heq
    rw [maxConfigNodeCnt] at hi
    omega)
  rw [hstays] at hgone
  exact absurd hgone (by decide)

/-! ### The tables in memory -/

section Tables

open Images (Image)

variable {m m' : Mem} {p a base : ℕ} {cfg : ResmgrConfig}

/-- `resmgr.node_cfg_tbl`. -/
def nodeTbl (base : ℕ) : ℕ := base+7*maxResCfgId

theorem ids_nil {n : ℕ} (ids : Fin n → UInt8) :
    ((List.finRange n).map ids).filter (· ≠ unusedResId) = [] ↔ ∀ j, ids j = unusedResId := by
  simp

theorem idle_iff : Idle m a ↔ (nodeOf (read m a 32)).cfgState ≠ configUnvalid ∧
    (nodeOf (read m a 32)).rcvall = 0 ∧ trsIds (nodeOf (read m a 32)) = [] ∧ rcvIds (nodeOf (read m a 32)) = [] := by
  have hbyte : ∀ k < 32, byteAt (read m a 32) k = m (a+k) := fun k hk => Images.byteAt_read m a hk
  have htrs : trsIds (nodeOf (read m a 32)) = [] ↔ ∀ j < maxTrsResCnt, m (a+8+j) = unusedResId := by
    refine (ids_nil _).trans ⟨fun h j hj => ?_,fun h j => ?_⟩
    · have hlt : j < 8 := hj
      have hid : byteAt (read m a 32) (8+j) = unusedResId := h ⟨j,hj⟩
      rw [hbyte _ (by omega),← Nat.add_assoc] at hid
      exact hid
    · have hlt := j.isLt
      have hid := h j.val hlt
      rw [Nat.add_assoc,← hbyte _ (by omega)] at hid
      exact hid
  have hrcv : rcvIds (nodeOf (read m a 32)) = [] ↔ ∀ j < maxRcvResCnt, m (a+16+j) = unusedResId := by
    refine (ids_nil _).trans ⟨fun h j hj => ?_,fun h j => ?_⟩
    · have hlt : j < 16 := hj
      have hid : byteAt (read m a 32) (16+j) = unusedResId := h ⟨j,hj⟩
      rw [hbyte _ (by omega),← Nat.add_assoc] at hid
      exact hid
    · have hlt := j.isLt
      have hid := h j.val hlt
      rw [Nat.add_assoc,← hbyte _ (by omega)] at hid
      exact hid
  have hvalid : (nodeOf (read m a 32)).cfgState = m (a+6) := hbyte 6 (by decide)
  have hrcvall : (nodeOf (read m a 32)).rcvall = m (a+7) := hbyte 7 (by decide)
  rw [htrs,hrcv,hvalid,hrcvall]
  exact ⟨fun h => ⟨h.valid,h.rcvall,h.trs,h.rcv⟩,fun ⟨hv,hr,ht,hc⟩ => ⟨hv,hr,ht,hc⟩⟩

theorem macAt_congr {b b' : List UInt8} (h : ∀ j < 6, byteAt b' j = byteAt b j) :
    Services.macAt b' 0 = Services.macAt b 0 := by
  unfold Services.macAt
  refine List.foldl_ext _ _ _ fun mac j hj => ?_
  rw [Nat.zero_add,h j (List.mem_range.mp hj)]

/-- A record of which the scan has changed no more than the state. -/
theorem nodeOf_congr (hother : ∀ k < 32, k ≠ 6 → m' (a+k) = m (a+k)) :
    nodeOf (read m' a 32) = {nodeOf (read m a 32) with cfgState := m' (a+6)} := by
  have hbyte : ∀ k < 32, k ≠ 6 → byteAt (read m' a 32) k = byteAt (read m a 32) k := by
    intro k hk hne
    rw [Images.byteAt_read m' a hk,Images.byteAt_read m a hk,hother k hk hne]
  have hmac : (nodeOf (read m' a 32)).mac = (nodeOf (read m a 32)).mac :=
    macAt_congr fun j hj => hbyte j (by omega) (by omega)
  have hstate : (nodeOf (read m' a 32)).cfgState = m' (a+6) := Images.byteAt_read m' a (show 6 < 32 by decide)
  have hrcvall : (nodeOf (read m' a 32)).rcvall = (nodeOf (read m a 32)).rcvall := hbyte 7 (by decide) (by decide)
  have htrs : (nodeOf (read m' a 32)).trsResId = (nodeOf (read m a 32)).trsResId :=
    funext fun j => hbyte (8+j.val) (by omega) (by omega)
  have hrcv : (nodeOf (read m' a 32)).rcvResId = (nodeOf (read m a 32)).rcvResId :=
    funext fun j => hbyte (16+j.val) (by omega) (by omega)
  dsimp only
  rw [← hmac,← hstate,← hrcvall,← htrs,← hrcv]

theorem entry_apart {i j k : ℕ} (hk : k < 32) (h : entry p i+k = entry p j+6) : i = j ∧ k = 6 := by
  unfold entry nodeSize at h
  omega

/-- With the pointer at the table the scan is `clear_node_config` on the tables. -/
theorem clearNodeConfig_image (h : Image (shift m base) cfg) :
    Image (shift (clearNodeConfig (nodeTbl base) m) base) (ResTables.clearNodeConfig .table cfg) := by
  have hswept := clearNodeConfig_swept (nodeTbl base) m
  constructor
  · intro r hr
    have hread : read (shift (clearNodeConfig (nodeTbl base) m) base) (0+7*r.toNat) 7 =
        read (shift m base) (0+7*r.toNat) 7 := by
      refine read_congr fun k hk => hswept.other _ ?_
      rintro ⟨a,⟨i,-,rfl⟩,-,heq⟩
      unfold entry nodeTbl nodeSize maxResCfgId at heq
      rw [maxResCfgId] at hr
      omega
    rw [hread]
    exact h.res r hr
  · intro i
    have hentry : ∀ m : Mem, read (shift m base) (254*7+32*i.val) 32 = read m (entry (nodeTbl base) i.val) 32 := by
      intro m
      refine read_congr fun k _ => ?_
      unfold shift entry nodeTbl nodeSize maxResCfgId
      congr 1
      omega
    have hother : ∀ k < 32, k ≠ 6 → clearNodeConfig (nodeTbl base) m (entry (nodeTbl base) i.val+k) =
        m (entry (nodeTbl base) i.val+k) := by
      intro k hk hne
      refine hswept.other _ ?_
      rintro ⟨a,⟨j,-,rfl⟩,-,heq⟩
      exact hne (entry_apart hk heq).2
    have htbl : (ResTables.clearNodeConfig .table cfg).nodeCfgTbl i = clearEntry (cfg.nodeCfgTbl i) := rfl
    rw [hentry,nodeOf_congr hother,htbl,← h.nodes i,hentry m]
    unfold clearEntry
    by_cases hidle : Idle m (entry (nodeTbl base) i.val)
    · rw [hswept.idle _ ⟨i.val,i.isLt,rfl⟩ hidle,if_pos (idle_iff.mp hidle)]
    · have hsame : clearNodeConfig (nodeTbl base) m (entry (nodeTbl base) i.val+6) =
          m (entry (nodeTbl base) i.val+6) := by
        refine hswept.other _ ?_
        rintro ⟨a,⟨j,-,rfl⟩,hj,heq⟩
        obtain ⟨rfl,-⟩ := entry_apart (by decide) heq
        exact hidle hj
      rw [hsame,if_neg (mt idle_iff.mpr hidle)]
      have hstate : (nodeOf (read m (entry (nodeTbl base) i.val) 32)).cfgState =
          m (entry (nodeTbl base) i.val+6) := Images.byteAt_read m _ (show 6 < 32 by decide)
      rw [← hstate]

/-- With the pointer elsewhere the tables stay as they are. -/
theorem clearNodeConfig_elsewhere (h : Image (shift m base) cfg)
    (hp : p+nodeSize*maxConfigNodeCnt ≤ base ∨ base+HostUi.resmgrSize ≤ p) (state : UInt8) :
    Image (shift (clearNodeConfig p m) base) (ResTables.clearNodeConfig (.elsewhere state) cfg) := by
  refine Image.congr h (read_congr fun k hk => (clearNodeConfig_swept p m).other _ ?_)
  rintro ⟨a,⟨i,hi,rfl⟩,-,heq⟩
  unfold entry nodeSize at heq
  unfold nodeSize maxConfigNodeCnt at hp
  rw [maxConfigNodeCnt] at hi
  omega

end Tables

end Sweeps
end Autbus
