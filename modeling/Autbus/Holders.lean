import Autbus.Failures
import Autbus.Reports

/-! The slots of `res_hold` and the preset resources that go with them. A slot is freed when
its TN is lost, the transmit list of the TN is kept: a TN that comes back to another slot
sends the resource of the old one as well. -/
namespace Autbus
namespace Holders

open ResTables Edits Nodes Trace Manager Reports Failures
open Consistency (findNode_none)

/-- The resource of a slot. -/
def holdId (i : Fin 32) : UInt8 := UInt8.ofNat (i.val+2)

/-- The TN holds the slot, no other one, and sends the resource of the slot and nothing else. -/
def Holds (cn : Cn) (x : Mac × UInt8) (i : Fin 32) : Prop :=
  cn.resHold i = x.2 ∧ (∀ j, cn.resHold j = x.2 → j = i) ∧ nodeTrsIds cn.cfg x.1 = [holdId i]

structure Slotted (es : List Event) (s : Sys) : Prop where
  holds : ∀ x ∈ live es, ∃ i, Holds s.cn x i
  apart : ∀ x ∈ live es, ∀ y ∈ live es, x ≠ y →
    ∀ t ∈ nodeTrsIds s.cn.cfg x.1, t ∉ nodeTrsIds s.cn.cfg y.1

/-- The reports of a TN alternate. At most 32 TNs are online, under different ids other than
0, their records can be allocated, and nothing else changes the configuration. -/
def Alternating (es : List Event) (s : Sys) : Event → Prop
  | .nwNode nid mac ok _ _ _ =>
    nid ≠ 0 ∧ (∀ x ∈ live es, x.1 ≠ mac ∧ x.2 ≠ nid) ∧ (live es).length < 32 ∧
      (ok = true ∨ ∃ pnd ∈ s.cn.ncn, pnd.mac = mac)
  | .lsNode nid => ∃ x ∈ live es, x.2 = nid
  | .rptOnline _ _ => False
  | .config _ => False
  | _ => True

def Keeps (es : List Event) (s : Sys) (e : Event) : Prop := ∀ t, step s e = some t → Slotted (e::es) t

/-- The first free slot. -/
def freeSlot (cn : Cn) : Option (Fin 32) := (List.finRange 32).find? fun i => cn.resHold i = 0

/-- A TN that comes online sends nothing but the resource of the first free slot, if anything,
and the resource can be given to it, or it is there already. -/
def Ready (_ : List Event) (s : Sys) : Event → Prop
  | .nwNode _ mac _ ptr _ _ => ∀ i, freeSlot s.cn = some i →
    (Passes ptr s.cn.cfg (holdId i) ∧ ¬Full s.cn.cfg (holdId i) mac ∧
      ∀ t ∈ nodeTrsIds s.cn.cfg mac, t = holdId i) ∨
    nodeTrsIds s.cn.cfg mac = [holdId i]
  | _ => True

/-! ### The lists after `add_trs_res` -/

theorem holdId_inj {i j : Fin 32} (h : holdId i = holdId j) : i = j := by
  have hn := congrArg UInt8.toNat h
  unfold holdId at hn
  rw [UInt8.toNat_ofNat',UInt8.toNat_ofNat'] at hn
  apply Fin.ext
  omega

theorem holdId_ne_zero (i : Fin 32) : holdId i ≠ 0 := by
  intro h
  have hn := congrArg UInt8.toNat h
  unfold holdId at hn
  rw [UInt8.toNat_ofNat'] at hn
  have hz : (0 : UInt8).toNat = 0 := rfl
  omega

theorem findNode_eq {cfg cfg' : ResmgrConfig} {mac : Mac}
    (h : ∀ i, (Valid (cfg'.nodeCfgTbl i) ∧ (cfg'.nodeCfgTbl i).mac = mac) ↔
      (Valid (cfg.nodeCfgTbl i) ∧ (cfg.nodeCfgTbl i).mac = mac)) : findNode cfg' mac = findNode cfg mac := by
  unfold findNode
  congr 1
  funext i
  exact decide_eq_decide.mpr (h i)

theorem findNode_only {cfg : ResmgrConfig} {mac : Mac} {k : Fin 64}
    (h : ∀ i, (Valid (cfg.nodeCfgTbl i) ∧ (cfg.nodeCfgTbl i).mac = mac) ↔ i = k) : findNode cfg mac = some k := by
  cases hf : findNode cfg mac with
  | none => exact absurd ((h k).mpr rfl).2 (findNode_none hf k ((h k).mpr rfl).1)
  | some i => rw [(h i).mp (findNode_some hf)]

/-- Striking an id off a list of slots. -/
theorem trsIds_dropTrs {resid : UInt8} (nc : NodeConfig) :
    trsIds (dropTrs resid nc) = (trsIds nc).filter (· ≠ resid) := by
  unfold trsIds
  generalize List.finRange 8 = js
  induction js with
  | nil => rfl
  | cons j js ih =>
    have hslot : (dropTrs resid nc).trsResId j = if nc.trsResId j = resid then unusedResId else nc.trsResId j := rfl
    rw [List.map_cons,List.map_cons,List.filter_cons,List.filter_cons,hslot,ih]
    by_cases hj : nc.trsResId j = resid
    · by_cases h0 : resid = unusedResId <;> simp [hj,h0]
    · by_cases h0 : nc.trsResId j = unusedResId <;> simp [hj,h0]

theorem nodeTrsIds_some {cfg : ResmgrConfig} {mac : Mac} {i : Fin 64} (h : findNode cfg mac = some i) :
    nodeTrsIds cfg mac = trsIds (cfg.nodeCfgTbl i) := by
  unfold nodeTrsIds
  rw [h]

theorem nodeTrsIds_none {cfg : ResmgrConfig} {mac : Mac} (h : findNode cfg mac = none) :
    nodeTrsIds cfg mac = [] := by
  unfold nodeTrsIds
  rw [h]

/-- The strike takes the id off every list. -/
theorem nodeTrsIds_strike (cfg : ResmgrConfig) (resid send2all : UInt8) (mac : Mac) :
    nodeTrsIds (strikeTrs cfg resid send2all) mac = (nodeTrsIds cfg mac).filter (· ≠ resid) := by
  cases hf : findNode cfg mac with
  | none =>
    rw [nodeTrsIds_none hf,nodeTrsIds_none ((findNode_strike cfg resid send2all mac).trans hf)]
    rfl
  | some i =>
    rw [nodeTrsIds_some hf,nodeTrsIds_some ((findNode_strike cfg resid send2all mac).trans hf),
      strike_node (findNode_some hf).1,trsIds_dropTrs]

theorem trsIds_nil {nc : NodeConfig} : trsIds nc = [] ↔ ∀ a, nc.trsResId a = 0 := by
  constructor
  · intro h a
    by_contra h0
    have hmem : nc.trsResId a ∈ trsIds nc := mem_trsIds.mpr ⟨h0,a,rfl⟩
    rw [h] at hmem
    exact absurd hmem List.not_mem_nil
  · intro h
    refine List.eq_nil_iff_forall_not_mem.mpr fun t ht => ?_
    obtain ⟨h0,a,rfl⟩ := mem_trsIds.mp ht
    exact h0 (h a)

theorem trsIds_single {nc : NodeConfig} {r : UInt8} (h0 : r ≠ 0) (h : nc.trsResId = Function.update (fun _ => 0) 0 r) :
    trsIds nc = [r] := by
  unfold trsIds
  rw [h]
  simp [List.finRange_succ,unusedResId,h0]

/-- Another node's list is left alone when an id is filed. -/
theorem nodeTrsIds_file_other {cfg : ResmgrConfig} {resid : UInt8} {mac mac' : Mac} (hne : mac' ≠ mac) :
    nodeTrsIds (fileTrs cfg resid mac).1 mac' = nodeTrsIds cfg mac' := by
  have hupd : ∀ (k : Fin 64) (nc : NodeConfig), nc.mac = mac →
      (Valid (cfg.nodeCfgTbl k) → (cfg.nodeCfgTbl k).mac ≠ mac') →
      nodeTrsIds {cfg with nodeCfgTbl := Function.update cfg.nodeCfgTbl k nc} mac' = nodeTrsIds cfg mac' := by
    intro k nc hnew hold
    have hfind : findNode {cfg with nodeCfgTbl := Function.update cfg.nodeCfgTbl k nc} mac' = findNode cfg mac' := by
      apply findNode_eq
      intro i
      dsimp only
      by_cases hik : i = k
      · subst hik
        rw [Function.update_self]
        exact ⟨fun h => absurd (h.2.symm.trans hnew) hne,fun h => absurd h.2 (hold h.1)⟩
      · rw [Function.update_of_ne hik]
    cases hf : findNode cfg mac' with
    | none => rw [nodeTrsIds_none hf,nodeTrsIds_none (hfind.trans hf)]
    | some i =>
      have hik : i ≠ k := by
        rintro rfl
        exact hold (findNode_some hf).1 (findNode_some hf).2
      rw [nodeTrsIds_some hf,nodeTrsIds_some (hfind.trans hf)]
      dsimp only
      rw [Function.update_of_ne hik]
  unfold fileTrs
  split
  · next i hi =>
    refine hupd i _ ?_ fun _ => ?_
    · exact (putTrs_slot resid (dropRcv resid (cfg.nodeCfgTbl i))).2.1.trans (findNode_some hi).2
    · rw [(findNode_some hi).2]
      exact Ne.symm hne
  · split
    · rfl
    · next k hk =>
      have hun : (cfg.nodeCfgTbl k).cfgState = configUnvalid := by simpa using List.find?_some hk
      exact hupd k _ rfl fun hv => absurd hun hv

theorem configEnable_ne_unvalid : configEnable ≠ configUnvalid := by decide

/-- The node's entry keeps its place when an id is filed under it. -/
theorem findNode_file {cfg : ResmgrConfig} {mac : Mac} {i : Fin 64} (hi : findNode cfg mac = some i)
    {nc : NodeConfig} (hst : nc.cfgState = (cfg.nodeCfgTbl i).cfgState) (hmac : nc.mac = (cfg.nodeCfgTbl i).mac) :
    findNode {cfg with nodeCfgTbl := Function.update cfg.nodeCfgTbl i nc} mac = some i := by
  rw [← hi]
  apply findNode_eq
  intro k
  dsimp only
  by_cases hki : k = i
  · subst hki
    rw [Function.update_self,hmac,Valid,Valid,hst]
  · rw [Function.update_of_ne hki]

theorem fileTrs_found {cfg : ResmgrConfig} {mac : Mac} {i : Fin 64} (hi : findNode cfg mac = some i)
    (resid : UInt8) : fileTrs cfg resid mac =
      ({cfg with nodeCfgTbl :=
          Function.update cfg.nodeCfgTbl i (putTrs resid (dropRcv resid (cfg.nodeCfgTbl i))).1},
        (putTrs resid (dropRcv resid (cfg.nodeCfgTbl i))).2) := by
  unfold fileTrs
  rw [hi]

/-- What the node sent it still sends. -/
theorem file_mono {cfg : ResmgrConfig} {resid : UInt8} {mac : Mac} {t : UInt8} (ht : t ∈ nodeTrsIds cfg mac) :
    t ∈ nodeTrsIds (fileTrs cfg resid mac).1 mac := by
  obtain ⟨i,hi,hti⟩ := mem_nodeTrsIds.mp ht
  obtain ⟨h0,a,ha⟩ := mem_trsIds.mp hti
  obtain ⟨hst,hmac,-⟩ := putTrs_slot resid (dropRcv resid (cfg.nodeCfgTbl i))
  rw [fileTrs_found hi,nodeTrsIds_some (findNode_file hi hst hmac)]
  dsimp only
  rw [Function.update_self]
  refine mem_trsIds.mpr ⟨h0,a,?_⟩
  unfold putTrs
  split
  · exact ha
  split
  · exact ha
  · next j hj =>
    -- the slot written was unused
    have hfree : (dropRcv resid (cfg.nodeCfgTbl i)).trsResId j = unusedResId := by simpa using List.find?_some hj
    have haj : a ≠ j := by
      rintro rfl
      exact h0 (ha.symm.trans hfree)
    exact (Function.update_of_ne haj ..).trans ha

/-- A node that sent nothing sends the id filed, if there was room. -/
theorem file_own {cfg : ResmgrConfig} {resid : UInt8} {mac : Mac} (h0 : resid ≠ 0) (h : nodeTrsIds cfg mac = []) :
    nodeTrsIds (fileTrs cfg resid mac).1 mac = if (fileTrs cfg resid mac).2 = 0 then [resid] else [] := by
  cases hf : findNode cfg mac with
  | some i =>
    rw [nodeTrsIds_some hf] at h
    have hzero : (dropRcv resid (cfg.nodeCfgTbl i)).trsResId = fun _ => 0 := funext (trsIds_nil.mp h)
    obtain ⟨hst,hmac,-⟩ := putTrs_slot resid (dropRcv resid (cfg.nodeCfgTbl i))
    have hput : putTrs resid (dropRcv resid (cfg.nodeCfgTbl i)) = ({dropRcv resid (cfg.nodeCfgTbl i) with
        trsResId := Function.update (dropRcv resid (cfg.nodeCfgTbl i)).trsResId 0 resid},0) := by
      rw [putTrs_new fun a => by rw [hzero]; exact h0.symm,hzero]
      rfl
    have hret : (putTrs resid (dropRcv resid (cfg.nodeCfgTbl i))).2 = 0 := congrArg Prod.snd hput
    have hslots : (putTrs resid (dropRcv resid (cfg.nodeCfgTbl i))).1.trsResId =
        Function.update (fun _ => 0) 0 resid := by
      rw [hput]
      dsimp only
      rw [hzero]
    rw [fileTrs_found hf,if_pos hret,nodeTrsIds_some (findNode_file hf hst hmac)]
    dsimp only
    rw [Function.update_self]
    exact trsIds_single h0 hslots
  | none =>
    unfold fileTrs
    rw [hf]
    dsimp only
    split
    · exact (nodeTrsIds_none hf).trans (if_neg (Nat.succ_ne_zero 1)).symm
    · next k hk =>
      have hun : (cfg.nodeCfgTbl k).cfgState = configUnvalid := by simpa using List.find?_some hk
      have hfound : findNode {cfg with nodeCfgTbl := Function.update cfg.nodeCfgTbl k (newEntry resid mac)} mac =
          some k := by
        apply findNode_only
        intro i
        dsimp only
        by_cases hik : i = k
        · subst hik
          rw [Function.update_self]
          exact ⟨fun _ => rfl,fun _ => ⟨fun hz => absurd hz configEnable_ne_unvalid,rfl⟩⟩
        · rw [Function.update_of_ne hik]
          exact ⟨fun hc => absurd hc.2 (findNode_none hf i hc.1),fun hc => absurd hc hik⟩
      rw [if_pos rfl,nodeTrsIds_some hfound]
      dsimp only
      rw [Function.update_self]
      exact trsIds_single h0 rfl

theorem addTrs_of_passes {ptr : UnsetPtr} {cfg : ResmgrConfig} {resid : UInt8} (h : Passes ptr cfg resid)
    (mac : Mac) (send2all : UInt8) :
    addTrsRes ptr cfg resid mac send2all = fileTrs (strikeTrs cfg resid send2all) resid mac := by
  unfold addTrsRes
  rw [if_neg h.1,if_neg (not_not.mpr h.2.1),if_neg h.2.2]

theorem addTrs_of_not_passes {ptr : UnsetPtr} {cfg : ResmgrConfig} {resid : UInt8} (h : ¬Passes ptr cfg resid)
    (mac : Mac) (send2all : UInt8) : (addTrsRes ptr cfg resid mac send2all).1 = cfg := by
  unfold addTrsRes
  split
  · rfl
  next h0 =>
  split
  · rfl
  next hread =>
  split
  · rfl
  next hun => exact absurd ⟨h0,not_not.mp hread,hun⟩ h

/-- When the node sends nothing but the id afterwards. -/
theorem addTrs_own_iff {ptr : UnsetPtr} {cfg : ResmgrConfig} {resid : UInt8} (h0 : resid ≠ 0) {mac : Mac}
    {send2all : UInt8} :
    nodeTrsIds (addTrsRes ptr cfg resid mac send2all).1 mac = [resid] ↔
      (Passes ptr cfg resid ∧ ¬Full cfg resid mac ∧ ∀ t ∈ nodeTrsIds cfg mac, t = resid) ∨
      nodeTrsIds cfg mac = [resid] := by
  by_cases hp : Passes ptr cfg resid
  · rw [addTrs_of_passes hp]
    have hstruck := nodeTrsIds_strike cfg resid send2all mac
    have hempty : nodeTrsIds (strikeTrs cfg resid send2all) mac = [] ↔ ∀ t ∈ nodeTrsIds cfg mac, t = resid := by
      rw [hstruck]
      simp
    have hroom : (fileTrs (strikeTrs cfg resid send2all) resid mac).2 = 0 ↔ ¬Full cfg resid mac :=
      not_iff_not.mp ((file_fails_iff h0 send2all mac).trans not_not.symm)
    constructor
    · intro h
      have hall : nodeTrsIds (strikeTrs cfg resid send2all) mac = [] := by
        refine List.eq_nil_iff_forall_not_mem.mpr fun t ht => ?_
        have hres : t ∈ nodeTrsIds (fileTrs (strikeTrs cfg resid send2all) resid mac).1 mac := file_mono ht
        rw [h,List.mem_singleton] at hres
        rw [hstruck,hres] at ht
        simp at ht
      have hown := file_own h0 hall
      refine Or.inl ⟨hp,fun hfull => ?_,hempty.mp hall⟩
      rw [if_neg fun hret => hroom.mp hret hfull,h] at hown
      cases hown
    · intro h
      have hboth : ¬Full cfg resid mac ∧ ∀ t ∈ nodeTrsIds cfg mac, t = resid := by
        rcases h with ⟨-,hroom,hall⟩ | hlist
        · exact ⟨hroom,hall⟩
        · refine ⟨?_,fun t ht => by rwa [hlist,List.mem_singleton] at ht⟩
          have hmem : resid ∈ nodeTrsIds cfg mac := by rw [hlist]; exact List.mem_singleton_self _
          obtain ⟨i,hi,hti⟩ := mem_nodeTrsIds.mp hmem
          obtain ⟨-,a,ha⟩ := mem_trsIds.mp hti
          rintro (⟨k,hk,hfull⟩ | ⟨hk,-⟩)
          · obtain rfl := Option.some.inj (hi.symm.trans hk)
            exact (hfull a).2 ha
          · exact nomatch hi.symm.trans hk
      rw [file_own h0 (hempty.mpr hboth.2),if_pos (hroom.mpr hboth.1)]
  · rw [addTrs_of_not_passes hp]
    exact ⟨fun h => Or.inr h,fun h => h.resolve_left fun hc => hp hc.1⟩

/-- The list of another node that does not send the id. -/
theorem addTrs_other {ptr : UnsetPtr} {cfg : ResmgrConfig} {resid : UInt8} {mac mac' : Mac} {send2all : UInt8}
    (hne : mac' ≠ mac) (h : resid ∉ nodeTrsIds cfg mac') :
    nodeTrsIds (addTrsRes ptr cfg resid mac send2all).1 mac' = nodeTrsIds cfg mac' := by
  by_cases hp : Passes ptr cfg resid
  · rw [addTrs_of_passes hp,nodeTrsIds_file_other hne,nodeTrsIds_strike]
    refine List.filter_eq_self.mpr fun t ht => decide_eq_true ?_
    rintro rfl
    exact h ht
  · rw [addTrs_of_not_passes hp]

/-! ### What the reports leave alone -/

/-- The tables, the slots and the preset are as before. -/
structure Untouched (cn cn' : Cn) : Prop where
  cfg : cn'.cfg = cn.cfg
  resHold : cn'.resHold = cn.resHold
  preRes : cn'.preRes = cn.preRes

theorem Untouched.refl (cn : Cn) : Untouched cn cn := ⟨rfl,rfl,rfl⟩

theorem Untouched.trans {cn cn' cn'' : Cn} (h : Untouched cn cn') (h' : Untouched cn' cn'') : Untouched cn cn'' :=
  ⟨h'.cfg.trans h.cfg,h'.resHold.trans h.resHold,h'.preRes.trans h.preRes⟩

theorem untouched_run (w : Work) (cn : Cn) (pnd : NodeInfo) (k : ℕ) : Untouched cn (w.run cn pnd k).cn := by
  cases w with
  | resId => exact ⟨rfl,rfl,rfl⟩
  | rcv =>
    dsimp only [Work.run,resAddRcvRes]
    split <;> exact ⟨rfl,rfl,rfl⟩
  | trs =>
    dsimp only [Work.run,resAddTrsRes]
    split
    · exact ⟨rfl,rfl,rfl⟩
    · split <;> exact ⟨rfl,rfl,rfl⟩
  | del =>
    dsimp only [Work.run,resDeleteNode]
    split
    · exact ⟨rfl,rfl,rfl⟩
    · split <;> exact ⟨rfl,rfl,rfl⟩

theorem untouched_resAddCn (cn : Cn) (pnd : NodeInfo) : Untouched cn (resAddCn cn pnd).cn := by
  unfold resAddCn
  split <;> exact ⟨rfl,rfl,rfl⟩

theorem untouched_perform {env : Env} {k : ℕ} {s t : Sys} {a : Action} (h : perform env k s a = some t)
    {cn : Cn} (ha : Untouched cn a.cn) : Untouched cn t.cn := by
  have hset : ∀ st, Untouched cn (setState k st a.cn) := fun _ => ha.trans ⟨rfl,rfl,rfl⟩
  unfold perform at h
  dsimp only at h
  split at h
  · rw [← Option.some.inj h]
    dsimp only
    split
    · exact ha
    · exact hset _
  · split at h
    · cases h
    · rw [← Option.some.inj h]
      dsimp only
      split
      · exact ha
      · exact hset _

theorem untouched_await {env : Env} (w : Work) {pnd : NodeInfo} {s t : Sys} (h : await env w.run pnd s = some t) :
    Untouched s.cn t.cn := by
  have hrun := untouched_run w (setState s.cur .waitAck s.cn) {pnd with state := .waitAck} s.cur
  exact untouched_perform h ⟨hrun.cfg,hrun.resHold,hrun.preRes⟩

theorem untouched_manager {env : Env} {s t : Sys} (h : managerRound env s = some t) : Untouched s.cn t.cn := by
  have hsame : ∀ u : Sys, some u = some t → u.cn = s.cn → Untouched s.cn t.cn := by
    intro u ht hu
    rw [← Option.some.inj ht,hu]
    exact Untouched.refl _
  unfold managerRound at h
  split at h
  · unfold bootRound at h
    split at h
    · exact hsame _ h rfl
    · dsimp only at h
      split at h
      · rw [← Option.some.inj h]
        exact ⟨rfl,rfl,rfl⟩
      · obtain ⟨u,hu,rfl⟩ := Option.map_eq_some_iff.mp h
        have hadd := untouched_perform hu (untouched_resAddCn _ _)
        exact ⟨hadd.cfg,hadd.resHold,hadd.preRes⟩
  · rw [← Option.some.inj h]
    unfold idleRound
    split
    · split <;> exact ⟨rfl,rfl,rfl⟩
    · split <;> exact ⟨rfl,rfl,rfl⟩
  · split at h
    · exact hsame _ h rfl
    · unfold onlineRound at h
      split at h
      · exact untouched_await .resId h
      · exact untouched_await .rcv h
      · exact untouched_await .trs h
      · exact hsame _ h rfl
      · exact hsame _ h rfl
      · exact hsame _ h rfl
  · split at h
    · exact hsame _ h rfl
    · unfold offlineRound at h
      split at h
      · exact untouched_await .del h
      · exact hsame _ h rfl
      · exact hsame _ h rfl
      · exact hsame _ h rfl

theorem untouched_called {q : Request} {ilen : ℕ} {ibuf : Option UInt8} {cn : Cn} {r : Cn × ℕ}
    (h : Called q ilen ibuf cn r) : Untouched cn r.1 := by
  cases h with
  | done w _ _ => exact ⟨rfl,rfl,rfl⟩
  | fail w _ _ _ => exact ⟨rfl,rfl,rfl⟩
  | wait w _ _ _ _ => exact ⟨rfl,rfl,rfl⟩
  | other _ => exact Untouched.refl _

/-- Events that are no reports about nodes. -/
def quiet : Event → Bool
  | .rptOnline _ _ | .nwNode _ _ _ _ _ _ | .lsNode _ | .config _ => false
  | _ => true

theorem untouched_step {s t : Sys} {e : Event} (he : quiet e = true) (h : step s e = some t) :
    Untouched s.cn t.cn := by
  cases e with
  | rptOnline ok ptr => cases he
  | nwNode nid mac ok ptr create env => cases he
  | lsNode nid => cases he
  | config cfg => cases he
  | rpc create dnode srvid retry env =>
    obtain ⟨reqs,rfl,-⟩ := rpcOther_spec h
    exact ⟨rfl,rfl,rfl⟩
  | manager env => exact untouched_manager h
  | resmsg env =>
    obtain ⟨queue,reqs,rfl⟩ := resmsgProc_spec h
    exact Untouched.refl _
  | response srvid sessn ilen node =>
    obtain rfl := Option.some.inj h
    rcases respond_cases srvid sessn ilen node s with ⟨-,he⟩ | ⟨i,q,-,he⟩
    · rw [he]
      exact Untouched.refl _
    · rw [he]
      exact untouched_called (callCbk_called q ilen (some node) s.cn)
  | timeout i net =>
    obtain ⟨q,-,⟨-,r,rfl⟩ | ⟨-,rfl⟩⟩ := requestTout_cases h
    · exact untouched_called (callCbk_called _ 0 none s.cn)
    · exact Untouched.refl _

theorem quiet_live {e : Event} (he : quiet e = true) (es : List Event) : live (e::es) = live es := by
  cases e with
  | nwNode nid mac ok ptr create env => cases he
  | lsNode nid => cases he
  | _ => rfl

theorem quiet_report {e : Event} (he : quiet e = true) (mac : Mac) (nodes : List (Mac × UInt8)) :
    report mac e nodes = nodes := by
  cases e with
  | rptOnline ok ptr => cases he
  | nwNode nid mac ok ptr create env => cases he
  | _ => rfl

/-! ### The slots -/

theorem resNewTn_cfg (ok : Bool) (ptr : UnsetPtr) (nid : UInt8) (mac : Mac) {cn : Cn} (h : cn.preRes.state = 1) :
    (resNewTn ok ptr nid mac cn).cfg = (holdSlot ptr nid mac cn).cfg ∧
    (resNewTn ok ptr nid mac cn).resHold = (holdSlot ptr nid mac cn).resHold ∧
    (resNewTn ok ptr nid mac cn).preRes = cn.preRes := by
  have hpre : (holdSlot ptr nid mac cn).preRes = cn.preRes := by
    unfold holdSlot
    split <;> rfl
  unfold resNewTn
  rw [if_pos h]
  dsimp only
  split
  · exact ⟨rfl,rfl,hpre⟩
  · split <;> exact ⟨rfl,rfl,hpre⟩

theorem holdSlot_free {cn : Cn} {i : Fin 32} (h : freeSlot cn = some i) (ptr : UnsetPtr) (nid : UInt8) (mac : Mac) :
    holdSlot ptr nid mac cn = {cn with
      resHold := Function.update cn.resHold i nid,cfg := (addTrsRes ptr cn.cfg (holdId i) mac 1).1} := by
  unfold freeSlot at h
  unfold holdSlot
  rw [h]
  rfl

theorem freeSlot_zero {cn : Cn} {i : Fin 32} (h : freeSlot cn = some i) : cn.resHold i = 0 := by
  simpa using List.find?_some h

/-- What holds besides of a CN whose TNs hold their slots. -/
structure Inv (es : List Event) (s : Sys) : Prop where
  state : s.cn.preRes.state = 1
  slotted : Slotted es s
  held : ∀ j, s.cn.resHold j ≠ 0 → ∃ x ∈ live es, x.2 = s.cn.resHold j
  known : ∀ x ∈ live es, x ∈ keys s.cn
  named : ∀ x ∈ live es, x.2 ≠ 0

/-- Fewer TNs than slots leave a slot free. -/
theorem Inv.free {es : List Event} {s : Sys} (h : Inv es s) (hlt : (live es).length < 32) :
    ∃ i, freeSlot s.cn = some i := by
  cases hf : freeSlot s.cn with
  | some i => exact ⟨i,rfl⟩
  | none =>
    have hall : ∀ i, s.cn.resHold i ≠ 0 := by
      intro i
      simpa using List.find?_eq_none.mp hf i (List.mem_finRange i)
    have hnodup : ((List.finRange 32).map s.cn.resHold).Nodup := by
      refine (List.nodup_finRange 32).map_on fun i _ j _ hij => ?_
      obtain ⟨x,hx,hxi⟩ := h.held i (hall i)
      obtain ⟨k,-,honly,-⟩ := h.slotted.holds x hx
      rw [honly i hxi.symm,honly j (hij.symm.trans hxi.symm)]
    have hsub : (List.finRange 32).map s.cn.resHold ⊆ (live es).map Prod.snd := by
      intro n hn
      obtain ⟨i,-,rfl⟩ := List.mem_map.mp hn
      obtain ⟨x,hx,hxi⟩ := h.held i (hall i)
      exact List.mem_map.mpr ⟨x,hx,hxi⟩
    have hle := (List.subperm_of_subset hnodup hsub).length_le
    rw [List.length_map,List.length_map,List.length_finRange] at hle
    omega

/-- A TN that comes online, with the slot it gets. -/
structure Arrives (es : List Event) (s t : Sys) (nid : UInt8) (mac : Mac) (ptr : UnsetPtr) (i : Fin 32) : Prop where
  inv : Inv es s
  named : nid ≠ 0
  apart : ∀ x ∈ live es, x.1 ≠ mac ∧ x.2 ≠ nid
  free : s.cn.resHold i = 0
  cfg : t.cn.cfg = (addTrsRes ptr s.cn.cfg (holdId i) mac 1).1
  resHold : t.cn.resHold = Function.update s.cn.resHold i nid

namespace Arrives

variable {es : List Event} {s t : Sys} {nid : UInt8} {mac : Mac} {ptr : UnsetPtr} {i : Fin 32}

/-- The other TNs keep what they hold. -/
theorem others (h : Arrives es s t nid mac ptr i) {x : Mac × UInt8} (hx : x ∈ live es) {j : Fin 32}
    (hj : Holds s.cn x j) : Holds t.cn x j ∧ j ≠ i := by
  obtain ⟨hself,honly,hlist⟩ := hj
  obtain ⟨hmac,hnid⟩ := h.apart x hx
  have hji : j ≠ i := by
    rintro rfl
    exact h.inv.named x hx (hself.symm.trans h.free)
  refine ⟨⟨?_,?_,?_⟩,hji⟩
  · rw [h.resHold,Function.update_of_ne hji]
    exact hself
  · intro k hk
    rw [h.resHold] at hk
    by_cases hki : k = i
    · subst hki
      rw [Function.update_self] at hk
      exact absurd hk.symm hnid
    · rw [Function.update_of_ne hki] at hk
      exact honly k hk
  · rw [h.cfg,addTrs_other hmac]
    · exact hlist
    · rw [hlist,List.mem_singleton]
      exact fun he => hji (holdId_inj he).symm

/-- No slot was held under the id, so the new one is the only one. -/
theorem only (h : Arrives es s t nid mac ptr i) : t.cn.resHold i = nid ∧ ∀ j, t.cn.resHold j = nid → j = i := by
  rw [h.resHold]
  refine ⟨Function.update_self ..,fun j hj => ?_⟩
  by_contra hji
  rw [Function.update_of_ne hji] at hj
  obtain ⟨x,hx,hxj⟩ := h.inv.held j (hj ▸ h.named)
  exact (h.apart x hx).2 (hxj.trans hj)

theorem mem_live (h : Arrives es s t nid mac ptr i) (ok create : Bool) (env : SendEnv) (x : Mac × UInt8) :
    x ∈ live (.nwNode nid mac ok ptr create env::es) ↔ x = (mac,nid) ∨ x ∈ live es := by
  have hall : (live es).filter (fun x => x.1 ≠ mac) = live es :=
    List.filter_eq_self.mpr fun y hy => decide_eq_true (h.apart y hy).1
  have hlive : live (.nwNode nid mac ok ptr create env::es) = (mac,nid)::live es :=
    congrArg (List.cons (mac,nid)) hall
  rw [hlive,List.mem_cons]

/-- All hold their slots if and only if the new TN sends its own resource alone. -/
theorem slotted_iff (h : Arrives es s t nid mac ptr i) (ok create : Bool) (env : SendEnv) :
    Slotted (.nwNode nid mac ok ptr create env::es) t ↔ nodeTrsIds t.cn.cfg mac = [holdId i] := by
  have hmem := h.mem_live ok create env
  constructor
  · intro hs
    obtain ⟨j,hj,-,hlist⟩ := hs.holds (mac,nid) ((hmem _).mpr (Or.inl rfl))
    rw [← h.only.2 j hj]
    exact hlist
  · intro hlist
    have hnew : Holds t.cn (mac,nid) i := ⟨h.only.1,h.only.2,hlist⟩
    have hall : ∀ x ∈ live (.nwNode nid mac ok ptr create env::es), ∃ j, Holds t.cn x j := by
      intro x hx
      rcases (hmem x).mp hx with rfl | hx
      · exact ⟨i,hnew⟩
      · obtain ⟨j,hj⟩ := h.inv.slotted.holds x hx
        exact ⟨j,(h.others hx hj).1⟩
    refine ⟨hall,?_⟩
    intro x hx y hy hxy r hr hr'
    obtain ⟨j,hj⟩ := hall x hx
    obtain ⟨k,hk⟩ := hall y hy
    rw [hj.2.2,List.mem_singleton] at hr
    rw [hk.2.2,List.mem_singleton] at hr'
    have hjk : j = k := holdId_inj (hr.symm.trans hr')
    -- one slot, so one id, so one TN
    have hids : x.2 = y.2 := by rw [← hj.1,← hk.1,hjk]
    rcases (hmem x).mp hx with rfl | hx' <;> rcases (hmem y).mp hy with rfl | hy'
    · exact hxy rfl
    · exact (h.apart y hy').2 hids.symm
    · exact (h.apart x hx').2 hids
    · obtain ⟨jx,hjx⟩ := h.inv.slotted.holds x hx'
      obtain ⟨jy,hjy⟩ := h.inv.slotted.holds y hy'
      have hsame : jx = jy := hjy.2.1 jx (hjx.1.trans hids)
      refine h.inv.slotted.apart x hx' y hy' hxy (holdId jx) ?_ ?_
      · rw [hjx.2.2]
        exact List.mem_singleton_self _
      · rw [hjy.2.2,hsame]
        exact List.mem_singleton_self _

end Arrives

/-! ### Runs -/

/-- The preset resources are in use, no slot is held. -/
structure Preset (s : Sys) : Prop where
  state : s.cn.preRes.state = 1
  free : ∀ i, s.cn.resHold i = 0

theorem Preset.inv {s : Sys} (h : Preset s) : Inv [] s where
  state := h.state
  slotted := ⟨fun _ hx => absurd hx List.not_mem_nil,fun _ hx => absurd hx List.not_mem_nil⟩
  held j hj := absurd (h.free j) hj
  known _ hx := absurd hx List.not_mem_nil
  named _ hx := absurd hx List.not_mem_nil

/-- The record of another node is kept. -/
theorem report_other {cnMac mac : Mac} {nid : UInt8} {ok : Bool} {ptr : UnsetPtr} {create : Bool} {env : SendEnv}
    {nodes : List (Mac × UInt8)} {x : Mac × UInt8} (hx : x ∈ nodes) (hne : x.1 ≠ mac) :
    x ∈ report cnMac (.nwNode nid mac ok ptr create env) nodes := by
  unfold report
  dsimp only
  split
  · next k hk =>
    obtain ⟨hlt,hmac,-⟩ := List.findIdx?_eq_some_iff_getElem.mp hk
    obtain ⟨j,hj⟩ := List.mem_iff_getElem?.mp hx
    refine List.mem_iff_getElem?.mpr ⟨j,?_⟩
    have hkj : k ≠ j := by
      rintro rfl
      rw [List.getElem?_eq_getElem hlt] at hj
      rw [Option.some.inj hj] at hmac
      exact hne (of_decide_eq_true hmac)
    rw [List.getElem?_modify,hj]
    simp [hkj]
  · split
    · exact List.mem_append_left _ hx
    · exact hx

/-- The record of the node itself is there afterwards. -/
theorem report_own {cnMac mac : Mac} {nid : UInt8} {ok : Bool} {ptr : UnsetPtr} {create : Bool} {env : SendEnv}
    {nodes : List (Mac × UInt8)} (h : ok = true ∨ ∃ x ∈ nodes, x.1 = mac) :
    (mac,nid) ∈ report cnMac (.nwNode nid mac ok ptr create env) nodes := by
  unfold report
  dsimp only
  split
  · next k hk =>
    obtain ⟨hlt,-⟩ := List.findIdx?_eq_some_iff_getElem.mp hk
    refine List.mem_iff_getElem?.mpr ⟨k,?_⟩
    rw [List.getElem?_modify,List.getElem?_eq_getElem hlt]
    simp
  · next hnone =>
    rcases h with hok | ⟨x,hx,hmac⟩
    · rw [if_pos hok]
      exact List.mem_append_right _ (List.mem_singleton_self _)
    · have hno := List.findIdx?_eq_none_iff.mp hnone x hx
      exact absurd hmac (of_decide_eq_false hno)

theorem Inv.arrives {es : List Event} {s t : Sys} {nid : UInt8} {mac : Mac} {ok : Bool} {ptr : UnsetPtr}
    {create : Bool} {env : SendEnv} (h : Inv es s) (hg : Alternating es s (.nwNode nid mac ok ptr create env))
    (ht : step s (.nwNode nid mac ok ptr create env) = some t) :
    t.cn.preRes = s.cn.preRes ∧ ∃ i, freeSlot s.cn = some i ∧ Arrives es s t nid mac ptr i := by
  obtain ⟨h0,hapart,hlt,-⟩ := hg
  obtain ⟨i,hi⟩ := h.free hlt
  obtain ⟨reqs,rfl,-⟩ := rpcOther_spec ht
  obtain ⟨hcfg,hhold,hpre⟩ := resNewTn_cfg ok ptr nid mac h.state
  rw [holdSlot_free hi] at hcfg hhold
  exact ⟨hpre,i,hi,h,h0,hapart,freeSlot_zero hi,hcfg,hhold⟩

theorem Inv.nwNode {es : List Event} {s t : Sys} {nid : UInt8} {mac : Mac} {ok : Bool} {ptr : UnsetPtr}
    {create : Bool} {env : SendEnv} (h : Inv es s) (hg : Alternating es s (.nwNode nid mac ok ptr create env))
    (ht : step s (.nwNode nid mac ok ptr create env) = some t)
    (hs : Slotted (.nwNode nid mac ok ptr create env::es) t) : Inv (.nwNode nid mac ok ptr create env::es) t := by
  obtain ⟨hpre,i,-,ha⟩ := h.arrives hg ht
  have hmem := ha.mem_live ok create env
  have hkeys := (step_keys ht).1
  refine ⟨hpre ▸ h.state,hs,?_,?_,?_⟩
  · intro j hj
    rw [ha.resHold] at hj ⊢
    by_cases hji : j = i
    · subst hji
      rw [Function.update_self]
      exact ⟨(mac,nid),(hmem _).mpr (Or.inl rfl),rfl⟩
    · rw [Function.update_of_ne hji] at hj ⊢
      obtain ⟨x,hx,hxj⟩ := h.held j hj
      exact ⟨x,(hmem x).mpr (Or.inr hx),hxj⟩
  · intro x hx
    rw [hkeys]
    rcases (hmem x).mp hx with rfl | hx
    · refine report_own (hg.2.2.2.imp_right ?_)
      rintro ⟨pnd,hpnd,hmac⟩
      exact ⟨key pnd,List.mem_map_of_mem hpnd,hmac⟩
    · exact report_other (h.known x hx) (ha.apart x hx).1
  · intro x hx
    rcases (hmem x).mp hx with rfl | hx
    · exact ha.named
    · exact h.named x hx

theorem Inv.lsNode {es : List Event} {s t : Sys} {nid : UInt8} (h : Inv es s) (hg : Alternating es s (.lsNode nid))
    (ht : step s (.lsNode nid) = some t) : Inv (.lsNode nid::es) t := by
  obtain rfl := Option.some.inj ht
  obtain ⟨x,hx,hxn⟩ := hg
  -- the TN has a record, so its slot is freed
  have hfound : ∃ k, s.cn.ncn.findIdx? (fun pnd => pnd.nindx = nid) = some k := by
    obtain ⟨pnd,hpnd,hkey⟩ := List.mem_map.mp (h.known x hx)
    have hid : pnd.nindx = nid := (congrArg Prod.snd hkey).trans hxn
    cases hf : s.cn.ncn.findIdx? fun pnd => pnd.nindx = nid with
    | some k => exact ⟨k,rfl⟩
    | none => exact absurd hid (of_decide_eq_false (List.findIdx?_eq_none_iff.mp hf pnd hpnd))
  obtain ⟨k,hk⟩ := hfound
  have hdel : resDeleteTn nid s.cn = {s.cn with
      ncn := s.cn.ncn.modify k lose,
      ackFlag := clearBit s.cn.ackFlag nid,
      resHold := fun i => if s.cn.resHold i = nid then 0 else s.cn.resHold i} := by
    unfold resDeleteTn
    rw [hk]
  have hlive : ∀ y, y ∈ live (.lsNode nid::es) ↔ y ∈ live es ∧ y.2 ≠ nid := by
    intro y
    exact List.mem_filter.trans (and_congr_right fun _ => decide_eq_true_iff)
  have hkeys := (step_keys ht).1
  refine ⟨?_,⟨?_,?_⟩,?_,?_,?_⟩
  · dsimp only
    rw [hdel]
    exact h.state
  · intro y hy
    obtain ⟨hy,hyn⟩ := (hlive y).mp hy
    obtain ⟨j,hself,honly,hlist⟩ := h.slotted.holds y hy
    refine ⟨j,?_⟩
    dsimp only
    rw [hdel]
    refine ⟨?_,?_,hlist⟩
    · dsimp only
      rw [if_neg (hself ▸ hyn)]
      exact hself
    · intro i hi
      dsimp only at hi
      split at hi
      · exact absurd hi.symm (h.named y hy)
      · exact honly i hi
  · intro y hy z hz
    dsimp only
    rw [hdel]
    exact h.slotted.apart y ((hlive y).mp hy).1 z ((hlive z).mp hz).1
  · intro j hj
    dsimp only at hj ⊢
    rw [hdel] at hj ⊢
    dsimp only at hj ⊢
    split at hj
    · exact absurd rfl hj
    next hjn =>
    obtain ⟨y,hy,hyj⟩ := h.held j hj
    rw [if_neg hjn]
    exact ⟨y,(hlive y).mpr ⟨hy,fun hn => hjn (hyj.symm.trans hn)⟩,hyj⟩
  · intro y hy
    rw [hkeys]
    exact h.known y ((hlive y).mp hy).1
  · exact fun y hy => h.named y ((hlive y).mp hy).1

theorem Inv.quiet {es : List Event} {s t : Sys} {e : Event} (h : Inv es s) (he : quiet e = true)
    (ht : step s e = some t) : Inv (e::es) t := by
  obtain ⟨hcfg,hhold,hpre⟩ := untouched_step he ht
  have hkeys := (step_keys ht).1
  rw [quiet_report he] at hkeys
  have hlive := quiet_live he es
  refine ⟨hpre ▸ h.state,⟨?_,?_⟩,?_,?_,?_⟩
  · intro x hx
    rw [hlive] at hx
    obtain ⟨i,hi⟩ := h.slotted.holds x hx
    refine ⟨i,?_⟩
    unfold Holds
    rw [hcfg,hhold]
    exact hi
  · rw [hlive,hcfg]
    exact h.slotted.apart
  · rw [hlive,hhold]
    exact h.held
  · rw [hlive,hkeys]
    exact h.known
  · rw [hlive]
    exact h.named

/-- In a run whose TNs hold their slots so far the rest holds too. -/
theorem run_inv {s₀ s : Sys} {es : List Event} (h₀ : Preset s₀) (h : Run step Alternating s₀ es s)
    (hk : Run step Keeps s₀ es s) : Inv es s := by
  induction h with
  | nil => exact h₀.inv
  | @cons es s e t hr hg ht ih =>
    cases hk with
    | cons hk hke hks =>
      have he := hr.det hk
      subst he
      have hinv := ih hk
      cases e with
      | nwNode nid mac ok ptr create env => exact hinv.nwNode hg ht (hke t ht)
      | lsNode nid => exact hinv.lsNode hg ht
      | rptOnline ok ptr => exact absurd hg id
      | config cfg => exact absurd hg id
      | rpc create dnode srvid retry env => exact hinv.quiet rfl ht
      | manager env => exact hinv.quiet rfl ht
      | resmsg env => exact hinv.quiet rfl ht
      | response srvid sessn ilen node => exact hinv.quiet rfl ht
      | timeout i net => exact hinv.quiet rfl ht

/-- One event keeps the slots in order if and only if a TN that comes online is ready. -/
theorem Inv.keeps_iff {es : List Event} {s t : Sys} {e : Event} (h : Inv es s) (hg : Alternating es s e)
    (ht : step s e = some t) : Keeps es s e ↔ Ready es s e := by
  have hone : Keeps es s e ↔ Slotted (e::es) t := by
    refine ⟨fun hk => hk t ht,fun hs u hu => ?_⟩
    rw [Option.some.inj (hu.symm.trans ht)]
    exact hs
  rw [hone]
  cases e with
  | nwNode nid mac ok ptr create env =>
    obtain ⟨-,i,hi,ha⟩ := h.arrives hg ht
    rw [ha.slotted_iff ok create env,ha.cfg,addTrs_own_iff (holdId_ne_zero i)]
    constructor
    · intro hown j hj
      obtain rfl := Option.some.inj (hi.symm.trans hj)
      exact hown
    · exact fun hready => hready i hi
  | lsNode nid => exact ⟨fun _ => trivial,fun _ => (h.lsNode hg ht).slotted⟩
  | rptOnline ok ptr => exact absurd hg id
  | config cfg => exact absurd hg id
  | rpc create dnode srvid retry env => exact ⟨fun _ => trivial,fun _ => (h.quiet rfl ht).slotted⟩
  | manager env => exact ⟨fun _ => trivial,fun _ => (h.quiet rfl ht).slotted⟩
  | resmsg env => exact ⟨fun _ => trivial,fun _ => (h.quiet rfl ht).slotted⟩
  | response srvid sessn ilen node => exact ⟨fun _ => trivial,fun _ => (h.quiet rfl ht).slotted⟩
  | timeout i net => exact ⟨fun _ => trivial,fun _ => (h.quiet rfl ht).slotted⟩

/-- Every online TN holds one slot and sends its resource alone, after every event of a run,
if and only if each TN that comes online sends nothing else from before. -/
theorem run_slotted_iff {s₀ s : Sys} {es : List Event} (h₀ : Preset s₀) (h : Run step Alternating s₀ es s) :
    Run step Keeps s₀ es s ↔ Run step Ready s₀ es s :=
  h.forall_iff fun _ _ _ _ hr hk hg ht => (run_inv h₀ hr hk).keeps_iff hg ht

/-- A CN with the preset resources 1 to 33, two symbols each. -/
def presetCn : Cn :=
  let pre : PreRes := ⟨33,0,8,1,1⟩
  {blankCn 1 with cfg := configCnRes emptyConfig pre,preRes := pre}

theorem presetCn_preset : Preset (start presetCn) := ⟨rfl,fun _ => rfl⟩

/-- A TN comes online and is lost. -/
theorem single_slotted : ∃ s, Run step Keeps (start presetCn) [.lsNode 1,arrives 1 2] s := by
  have hrun : Run step Alternating (start presetCn) [.lsNode 1,arrives 1 2] _ :=
    .cons (.cons .nil ⟨by decide,fun x hx => absurd hx List.not_mem_nil,by decide,Or.inl rfl⟩ rfl)
      ⟨(2,1),List.mem_cons_self,rfl⟩ rfl
  refine ⟨_,(run_slotted_iff presetCn_preset hrun).mpr (.cons (.cons .nil ?_ rfl) trivial rfl)⟩
  intro i hi
  have h0 : freeSlot presetCn = some 0 := by decide
  obtain rfl := Option.some.inj (h0.symm.trans hi)
  have hnone : findNode presetCn.cfg 2 = none := by decide
  refine Or.inl ⟨⟨by decide,by decide,by decide⟩,?_,?_⟩
  · rintro (⟨i,hi,-⟩ | ⟨-,hall⟩)
    · exact nomatch hnone.symm.trans hi
    · exact hall 0 rfl
  · intro t ht
    have hlist : nodeTrsIds presetCn.cfg 2 = [] := nodeTrsIds_none hnone
    exact absurd (hlist ▸ ht : t ∈ []) List.not_mem_nil

/-- Two TNs leave and the second one comes back: it gets the first one's slot and keeps the
resource of its own. -/
theorem returned_both :
    ∃ s, Preset (start presetCn) ∧
      Run step Alternating (start presetCn) [arrives 2 3,.lsNode 2,.lsNode 1,arrives 2 3,arrives 1 2] s ∧
      ¬Slotted [arrives 2 3,.lsNode 2,.lsNode 1,arrives 2 3,arrives 1 2] s := by
  refine ⟨_,presetCn_preset,.cons (.cons (.cons (.cons (.cons .nil ?_ rfl) ?_ rfl) ?_ rfl) ?_ rfl) ?_ rfl,?_⟩
  · exact ⟨by decide,List.forall_mem_nil _,by decide,Or.inl rfl⟩
  · exact ⟨by decide,List.forall_mem_singleton.mpr (by decide),by decide,Or.inl rfl⟩
  · exact ⟨(2,1),by decide,rfl⟩
  · exact ⟨(3,2),by decide,rfl⟩
  · exact ⟨by decide,List.forall_mem_nil _,by decide,Or.inl rfl⟩
  · intro h
    obtain ⟨i,-,-,hlist⟩ := h.holds (3,2) List.mem_cons_self
    have hboth : ∀ {l : List UInt8}, l = [3,2] → l ≠ [holdId i] := by
      rintro l rfl hl
      exact List.cons_ne_nil _ _ (List.cons.inj hl).2
    exact hboth (by decide) hlist

end Holders
end Autbus
