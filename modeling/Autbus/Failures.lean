import Autbus.Consistency

/-! Commands that fail. Only `add_trs_res` has changed something by the time it finds that
there is no room: the broadcast flag is set and the id is struck off before the scan. -/
namespace Autbus
namespace Failures

open ResTables Placement Edits Consistency

/-- A command that reports failure has changed nothing. -/
def Atomic (ptr : UnsetPtr) (cfg : ResmgrConfig) (c : Command) : Prop :=
  (c.call ptr cfg).2 ≠ 0 → (c.call ptr cfg).1 = cfg

/-- The checks `add_trs_res` makes before it changes anything. -/
def Passes (ptr : UnsetPtr) (cfg : ResmgrConfig) (resid : UInt8) : Prop :=
  resid ≠ 0 ∧ ptr.reads (cfg.resCfgTbl resid).cfgState = configEnable ∧
    (cfg.resCfgTbl resid).cfgState ≠ configUnvalid

/-- The node has no transmit slot for the id, or no entry and there is no place for one. -/
def Full (cfg : ResmgrConfig) (resid : UInt8) (mac : Mac) : Prop :=
  (∃ i, findNode cfg mac = some i ∧
    ∀ a, (cfg.nodeCfgTbl i).trsResId a ≠ unusedResId ∧ (cfg.nodeCfgTbl i).trsResId a ≠ resid) ∨
  (findNode cfg mac = none ∧ ∀ i, Valid (cfg.nodeCfgTbl i))

/-- The flag is as asked for, no node sends the id and the node itself does not receive it. -/
def Settled (cfg : ResmgrConfig) (resid : UInt8) (mac : Mac) (send2all : UInt8) : Prop :=
  (cfg.resCfgTbl resid).send2all = (if send2all ≠ 0 then 1 else 0) ∧
  (∀ i a, Valid (cfg.nodeCfgTbl i) → (cfg.nodeCfgTbl i).trsResId a ≠ resid) ∧
  ∀ i b, findNode cfg mac = some i → (cfg.nodeCfgTbl i).rcvResId b ≠ resid

/-- A transmit resource that finds no room changes nothing before. -/
def Undisturbed (ptr : UnsetPtr) (cfg : ResmgrConfig) : Command → Prop
  | .addTrs resid mac send2all => Passes ptr cfg resid → Full cfg resid mac → Settled cfg resid mac send2all
  | _ => True

/-! ### The scans -/

theorem strike_node {cfg : ResmgrConfig} {resid send2all : UInt8} {i : Fin 64} (hi : Valid (cfg.nodeCfgTbl i)) :
    (strikeTrs cfg resid send2all).nodeCfgTbl i = dropTrs resid (cfg.nodeCfgTbl i) :=
  onValid_of_valid hi

theorem strike_valid {cfg : ResmgrConfig} {resid send2all : UInt8} {i : Fin 64} :
    Valid ((strikeTrs cfg resid send2all).nodeCfgTbl i) ↔ Valid (cfg.nodeCfgTbl i) :=
  valid_onValid (dropTrs resid) (fun _ => rfl)

/-- Striking an id off leaves the entries where they are. -/
theorem findNode_strike (cfg : ResmgrConfig) (resid send2all : UInt8) (mac : Mac) :
    findNode (strikeTrs cfg resid send2all) mac = findNode cfg mac := by
  unfold findNode
  congr 1
  funext i
  have hentry : (strikeTrs cfg resid send2all).nodeCfgTbl i = onValid (dropTrs resid) (cfg.nodeCfgTbl i) := rfl
  rw [hentry]
  unfold onValid
  split
  · rfl
  · rfl

/-- A place for a new entry is missing when every entry is in use. -/
theorem findFree_none {cfg : ResmgrConfig} :
    (List.finRange 64).find? (fun i => (cfg.nodeCfgTbl i).cfgState = configUnvalid) = none ↔
      ∀ i, Valid (cfg.nodeCfgTbl i) := by
  simp [List.find?_eq_none,Valid]

theorem findSlot_none {n : ℕ} {ids : Fin n → UInt8} {v : UInt8} :
    findSlot ids v = none ↔ ∀ j, ids j ≠ v := by
  simp [findSlot,List.find?_eq_none]

/-- After the strike the slots in use are those that hold another id. -/
theorem dropTrs_used {resid : UInt8} {nc : NodeConfig} {a : Fin 8} :
    (dropTrs resid nc).trsResId a ≠ unusedResId ↔ nc.trsResId a ≠ unusedResId ∧ nc.trsResId a ≠ resid := by
  have hslot : (dropTrs resid nc).trsResId a = if nc.trsResId a = resid then unusedResId else nc.trsResId a := rfl
  rw [hslot]
  split
  · next h => simp [h]
  · next h => simp [h]

/-! ### `add_trs_res` -/

theorem putTrs_new {resid : UInt8} {nc : NodeConfig} (h : ∀ a, nc.trsResId a ≠ resid) :
    putTrs resid nc = match findSlot nc.trsResId unusedResId with
      | none => (nc,1)
      | some j => ({nc with trsResId := Function.update nc.trsResId j resid},0) := by
  have hno : ¬(findSlot nc.trsResId resid).isSome := by
    intro hsome
    obtain ⟨a,ha⟩ := findSlot_isSome.mp hsome
    exact h a ha
  exact if_neg hno

/-- Once the id is struck off, filing it fails exactly when there is no room. -/
theorem file_fails_iff {cfg : ResmgrConfig} {resid : UInt8} (h0 : resid ≠ 0) (send2all : UInt8) (mac : Mac) :
    (fileTrs (strikeTrs cfg resid send2all) resid mac).2 ≠ 0 ↔ Full cfg resid mac := by
  unfold fileTrs Full
  rw [findNode_strike]
  cases hf : findNode cfg mac with
  | some i =>
    have hi := (findNode_some hf).1
    dsimp only
    have hno : ∀ a, (dropRcv resid (dropTrs resid (cfg.nodeCfgTbl i))).trsResId a ≠ resid :=
      fun a => dropTrs_ne h0 _ a
    rw [strike_node hi,putTrs_new hno]
    have hused : ∀ a, (dropRcv resid (dropTrs resid (cfg.nodeCfgTbl i))).trsResId a ≠ unusedResId ↔ _ :=
      fun a => dropTrs_used
    cases hslot : findSlot (dropRcv resid (dropTrs resid (cfg.nodeCfgTbl i))).trsResId unusedResId with
    | none =>
      refine ⟨fun _ => Or.inl ⟨i,rfl,fun a => (hused a).mp (findSlot_none.mp hslot a)⟩,?_⟩
      intro _ hret
      cases hret
    | some j =>
      refine ⟨fun hret => absurd rfl hret,?_⟩
      rintro (⟨k,hk,hfull⟩ | ⟨hk,-⟩)
      · obtain rfl := Option.some.inj hk
        have hnone := findSlot_none.mpr fun a => (hused a).mpr (hfull a)
        rw [hnone] at hslot
        cases hslot
      · cases hk
  | none =>
    dsimp only
    split
    · next hfree =>
      refine ⟨fun _ => Or.inr ⟨rfl,fun i => strike_valid.mp (findFree_none.mp hfree i)⟩,?_⟩
      intro _ hret
      cases hret
    · next k hfree =>
      refine ⟨fun hret => absurd rfl hret,?_⟩
      rintro (⟨i,hi,-⟩ | ⟨-,hall⟩)
      · cases hi
      · rw [findFree_none.mpr fun i => strike_valid.mpr (hall i)] at hfree
        cases hfree

theorem dropTrs_eq {resid : UInt8} (h0 : resid ≠ 0) {nc : NodeConfig} :
    dropTrs resid nc = nc ↔ ∀ a, nc.trsResId a ≠ resid := by
  constructor
  · intro h a
    rw [← h]
    exact dropTrs_ne h0 nc a
  · intro h
    have hslots : (fun j => if nc.trsResId j = resid then unusedResId else nc.trsResId j) = nc.trsResId :=
      funext fun j => if_neg (h j)
    unfold dropTrs
    rw [hslots]

theorem dropRcv_eq {resid : UInt8} (h0 : resid ≠ 0) {nc : NodeConfig} :
    dropRcv resid nc = nc ↔ ∀ b, nc.rcvResId b ≠ resid := by
  constructor
  · intro h b
    rw [← h]
    exact dropRcv_ne h0 nc b
  · intro h
    have hslots : (fun j => if nc.rcvResId j = resid then unusedResId else nc.rcvResId j) = nc.rcvResId :=
      funext fun j => if_neg (h j)
    unfold dropRcv
    rw [hslots]

/-- What a failed call leaves: the flag set, the id struck off. -/
theorem file_left {cfg : ResmgrConfig} {resid : UInt8} (h0 : resid ≠ 0) {send2all : UInt8} {mac : Mac}
    (hfull : Full cfg resid mac) :
    (fileTrs (strikeTrs cfg resid send2all) resid mac).1 =
      match findNode cfg mac with
      | none => strikeTrs cfg resid send2all
      | some i => ⟨(strikeTrs cfg resid send2all).resCfgTbl,
          Function.update (strikeTrs cfg resid send2all).nodeCfgTbl i
            (dropRcv resid (dropTrs resid (cfg.nodeCfgTbl i)))⟩ := by
  unfold fileTrs
  rw [findNode_strike]
  rcases hfull with ⟨i,hf,hslots⟩ | ⟨hf,hall⟩
  · have hi := (findNode_some hf).1
    rw [hf]
    dsimp only
    have hno : ∀ a, (dropRcv resid (dropTrs resid (cfg.nodeCfgTbl i))).trsResId a ≠ resid :=
      fun a => dropTrs_ne h0 _ a
    rw [strike_node hi,putTrs_new hno]
    have hnone : findSlot (dropRcv resid (dropTrs resid (cfg.nodeCfgTbl i))).trsResId unusedResId = none :=
      findSlot_none.mpr fun a => dropTrs_used.mpr (hslots a)
    rw [hnone]
  · rw [hf]
    dsimp only
    rw [findFree_none.mpr fun i => strike_valid.mpr (hall i)]

theorem strike_eq {cfg : ResmgrConfig} {resid send2all : UInt8} (h0 : resid ≠ 0) :
    strikeTrs cfg resid send2all = cfg ↔
      (cfg.resCfgTbl resid).send2all = (if send2all ≠ 0 then 1 else 0) ∧
      ∀ i a, Valid (cfg.nodeCfgTbl i) → (cfg.nodeCfgTbl i).trsResId a ≠ resid := by
  constructor
  · intro h
    refine ⟨?_,?_⟩
    · have hflag : ((strikeTrs cfg resid send2all).resCfgTbl resid).send2all = if send2all ≠ 0 then 1 else 0 := by
        unfold strikeTrs
        dsimp only
        rw [Function.update_self]
      rw [h] at hflag
      exact hflag
    · intro i a hi
      have hnode : (strikeTrs cfg resid send2all).nodeCfgTbl i = dropTrs resid (cfg.nodeCfgTbl i) := strike_node hi
      rw [h] at hnode
      exact (dropTrs_eq h0).mp hnode.symm a
  · rintro ⟨hflag,hstruck⟩
    have hres : {cfg.resCfgTbl resid with send2all := if send2all ≠ 0 then 1 else 0} = cfg.resCfgTbl resid := by
      rw [← hflag]
    have hnodes : (fun i => onValid (dropTrs resid) (cfg.nodeCfgTbl i)) = cfg.nodeCfgTbl := by
      funext i
      by_cases hi : Valid (cfg.nodeCfgTbl i)
      · rw [onValid_of_valid hi]
        exact (dropTrs_eq h0).mpr fun a => hstruck i a hi
      · exact if_pos (not_not.mp hi)
    unfold strikeTrs
    rw [hres,hnodes,Function.update_eq_self]

/-- Nothing is changed by a call that finds no room if and only if all was as it leaves it. -/
theorem left_eq_iff {cfg : ResmgrConfig} {resid : UInt8} (h0 : resid ≠ 0) {send2all : UInt8} {mac : Mac}
    (hfull : Full cfg resid mac) :
    (fileTrs (strikeTrs cfg resid send2all) resid mac).1 = cfg ↔ Settled cfg resid mac send2all := by
  rw [file_left h0 hfull]
  unfold Settled
  cases hf : findNode cfg mac with
  | none =>
    rw [strike_eq h0]
    constructor
    · rintro ⟨hflag,hstruck⟩
      refine ⟨hflag,hstruck,fun i b hi => ?_⟩
      cases hi
    · rintro ⟨hflag,hstruck,-⟩
      exact ⟨hflag,hstruck⟩
  | some i =>
    have hi := (findNode_some hf).1
    have hstrike : (strikeTrs cfg resid send2all).nodeCfgTbl i = dropTrs resid (cfg.nodeCfgTbl i) := strike_node hi
    dsimp only
    constructor
    · intro h
      have hnode : dropRcv resid (dropTrs resid (cfg.nodeCfgTbl i)) = cfg.nodeCfgTbl i := by
        have := congrFun (congrArg ResmgrConfig.nodeCfgTbl h) i
        dsimp only at this
        rwa [Function.update_self] at this
      have htrs : ∀ a, (cfg.nodeCfgTbl i).trsResId a ≠ resid := by
        intro a
        rw [← hnode]
        exact dropTrs_ne h0 _ a
      have hrcv : ∀ b, (cfg.nodeCfgTbl i).rcvResId b ≠ resid := by
        intro b
        rw [← hnode]
        exact dropRcv_ne h0 _ b
      -- so the entry was not changed, and the rest is what the strike does
      have hkept : dropRcv resid (dropTrs resid (cfg.nodeCfgTbl i)) = (strikeTrs cfg resid send2all).nodeCfgTbl i := by
        rw [hstrike,(dropTrs_eq h0).mpr htrs,(dropRcv_eq h0).mpr hrcv]
      rw [hkept,Function.update_eq_self] at h
      obtain ⟨hflag,hstruck⟩ := (strike_eq h0).mp h
      refine ⟨hflag,hstruck,fun k b hk => ?_⟩
      obtain rfl := Option.some.inj hk
      exact hrcv b
    · rintro ⟨hflag,hstruck,hrcv⟩
      rw [(strike_eq h0).mpr ⟨hflag,hstruck⟩,(dropTrs_eq h0).mpr fun a => hstruck i a hi,
        (dropRcv_eq h0).mpr fun b => hrcv i b rfl,Function.update_eq_self]

theorem addTrs_atomic_iff (ptr : UnsetPtr) (cfg : ResmgrConfig) (resid : UInt8) (mac : Mac) (send2all : UInt8) :
    Atomic ptr cfg (.addTrs resid mac send2all) ↔ Undisturbed ptr cfg (.addTrs resid mac send2all) := by
  unfold Atomic Undisturbed Command.call addTrsRes
  dsimp only
  split
  · next h0 => exact ⟨fun _ hp => absurd h0 hp.1,fun _ _ => rfl⟩
  next h0 =>
  split
  · next hread => exact ⟨fun _ hp => absurd hp.2.1 hread,fun _ _ => rfl⟩
  next hread =>
  split
  · next hun => exact ⟨fun _ hp => absurd hun hp.2.2,fun _ _ => rfl⟩
  next hun =>
  have hpass : Passes ptr cfg resid := ⟨h0,not_not.mp hread,hun⟩
  rw [file_fails_iff h0]
  constructor
  · exact fun h _ hfull => (left_eq_iff h0 hfull).mp (h hfull)
  · exact fun h hfull => (left_eq_iff h0 hfull).mpr (h hpass hfull)

/-! ### The other commands -/

/-- An entry written back as it is. -/
theorem rewritten (cfg : ResmgrConfig) (i : Fin 64) :
    {cfg with nodeCfgTbl := Function.update cfg.nodeCfgTbl i (cfg.nodeCfgTbl i)} = cfg := by
  rw [Function.update_eq_self]

theorem addRcv_atomic (cfg : ResmgrConfig) (resid : UInt8) (mac : Mac)
    (h : (addRcvRes cfg resid mac).2 ≠ 0) : (addRcvRes cfg resid mac).1 = cfg := by
  unfold addRcvRes at h ⊢
  split
  · rfl
  next h0 =>
  split
  · rfl
  next hcheck =>
  rw [if_neg h0,if_neg hcheck] at h
  cases hf : findNode cfg mac with
  | some i =>
    rw [hf] at h
    dsimp only at h ⊢
    unfold putRcv at h ⊢
    split
    · next hall => rw [if_pos hall] at h; exact absurd rfl h
    next hall =>
    rw [if_neg hall] at h
    split
    · exact rewritten cfg i
    next htrs =>
    rw [if_neg htrs] at h
    split
    · exact rewritten cfg i
    next hrcv =>
    rw [if_neg hrcv] at h
    cases hslot : findSlot (cfg.nodeCfgTbl i).rcvResId unusedResId with
    | none => exact rewritten cfg i
    | some j =>
      rw [hslot] at h
      exact absurd rfl h
  | none =>
    rw [hf] at h
    dsimp only at h ⊢
    split
    · rfl
    · next k hfree =>
      rw [hfree] at h
      exact absurd rfl h

theorem delTrs_atomic (ptr : UnsetPtr) (cfg : ResmgrConfig) (resid : UInt8) (mac : Mac)
    (h : (delTrsRes ptr cfg resid mac).2 ≠ 0) : (delTrsRes ptr cfg resid mac).1 = cfg := by
  unfold delTrsRes at h ⊢
  split
  · rfl
  next h0 =>
  rw [if_neg h0] at h
  split
  · rfl
  next i hf =>
  rw [hf] at h
  dsimp only at h ⊢
  split
  · rfl
  next j hslot =>
  rw [hslot] at h
  exact absurd rfl h

theorem delRcv_atomic (ptr : UnsetPtr) (cfg : ResmgrConfig) (resid : UInt8) (mac : Mac)
    (h : (delRcvRes ptr cfg resid mac).2 ≠ 0) : (delRcvRes ptr cfg resid mac).1 = cfg := by
  unfold delRcvRes at h ⊢
  split
  · rfl
  next h0 =>
  rw [if_neg h0] at h
  split
  · rfl
  next i hf =>
  rw [hf] at h
  dsimp only at h ⊢
  split
  · rfl
  next j hslot =>
  rw [hslot] at h
  exact absurd rfl h

theorem delNode_atomic (ptr : UnsetPtr) (cfg : ResmgrConfig) (mac : Mac)
    (h : (delNodeConfig ptr cfg mac).2 ≠ 0) : (delNodeConfig ptr cfg mac).1 = cfg := by
  unfold delNodeConfig at h ⊢
  split
  · rfl
  next i hf =>
  rw [hf] at h
  exact absurd rfl h

theorem addRes_atomic (cfg : ResmgrConfig) (resid : UInt8) (res : ResConfig)
    (h : (addResConfig cfg resid res).2 ≠ 0) : (addResConfig cfg resid res).1 = cfg := by
  unfold addResConfig at h ⊢
  split
  · rfl
  next h0 =>
  rw [if_neg h0] at h
  exact absurd rfl h

theorem delRes_atomic (ptr : UnsetPtr) (cfg : ResmgrConfig) (resid : UInt8)
    (h : (delResConfig ptr cfg resid).2 ≠ 0) : (delResConfig ptr cfg resid).1 = cfg := by
  unfold delResConfig at h ⊢
  split
  · rfl
  next h0 =>
  rw [if_neg h0] at h
  exact absurd rfl h

/-- Resources 1 to 8 are sent by the first node and 9 by the second one. -/
def crowded : ResmgrConfig where
  resCfgTbl r := {zeroRes with resid := r,len := 1,cfgState := configEnable,pos := 3+r}
  nodeCfgTbl i :=
    if i = 0 then {zeroNode with mac := 1,cfgState := configEnable,trsResId := fun a => UInt8.ofNat a+1}
    else if i = 1 then {zeroNode with
      mac := 2,cfgState := configEnable,trsResId := Function.update zeroNode.trsResId 0 9}
    else zeroNode

end Failures
end Autbus
