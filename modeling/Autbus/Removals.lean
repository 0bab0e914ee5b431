import Autbus.Reception

/-! What a TN tells its B side about the resources of other nodes: when one is announced
(`sysres_srv_add_trs_res`) and when it is removed again (`sysres_srv_del_res`). -/
namespace Autbus
namespace Removals

open ResTables Nodes SrvRpc Services Reception

/-- The messages to the B side that a service sends. -/
def sent (srv : Service TnCtx) (ctx : TnCtx) (ibuf : Bytes) : List Ctrl :=
  (srv 0 ctx ibuf.length ibuf).1.bside.drop ctx.bside.length

/-- What the announcement of one resource of the node `snode` sends. -/
def announced (ctx : TnCtx) (snode : UInt8) (t : TrsResData) : List Ctrl :=
  sent sysresSrvAddTrsRes ctx (payloadBytes (.trs ⟨snode,[t]⟩))

/-- What its removal sends. -/
def removed (stack : UInt8) (ctx : TnCtx) (snode : UInt8) (d : DelResData) : List Ctrl :=
  sent (sysresSrvDelRes stack) ctx (payloadBytes (.del ⟨snode,[d]⟩))

/-- The entry that removes what `t` has announced. -/
def removalOf (t : TrsResData) : DelResData := ⟨t.resid,t.freq,t.pos,t.len,t.send2all⟩

/-- The second message takes back what the first one has set up. -/
def Undoes : Ctrl → Ctrl → Prop
  | .addRcv snode freq pos len, m => m = .delRcv snode freq pos len
  | _, _ => False

variable {ctx : TnCtx} {snode stack : UInt8}

theorem sent_configured {msgs : TnCtx → Bytes → List Ctrl} {ibuf : Bytes} :
    sent (configured msgs) ctx ibuf = if ctx.state = resNodeCfg then msgs ctx ibuf else [] := by
  unfold sent configured
  by_cases hstate : ctx.state = resNodeCfg
  · rw [if_neg (not_not.mpr hstate),if_pos hstate]
    exact List.drop_left
  · rw [if_pos hstate,if_neg hstate]
    exact List.drop_length

/-- A service that sends for its entries what it sends for each one alone. -/
theorem sent_flatMap {α : Type} {msgs : TnCtx → Bytes → List Ctrl} {ibuf : Bytes} {x : Fixres α} {one : α → Bytes}
    (hmsgs : msgs ctx ibuf = x.res.flatMap fun a => msgs ctx (one a)) :
    sent (configured msgs) ctx ibuf = x.res.flatMap fun a => sent (configured msgs) ctx (one a) := by
  simp only [sent_configured]
  by_cases hstate : ctx.state = resNodeCfg
  · simp only [if_pos hstate,hmsgs]
  · simp only [if_neg hstate]
    exact (List.flatMap_eq_nil_iff.mpr fun _ _ => rfl).symm

theorem fixresOf_trs_one (snode : UInt8) (t : TrsResData) :
    fixresOf 6 trsAt (payloadBytes (.trs ⟨snode,[t]⟩)) = ⟨snode,[t]⟩ := by
  have hread := fixresOf_trs ⟨snode,[t]⟩ [] (by simp)
  rwa [List.append_nil] at hread

theorem fixresOf_del_one (snode : UInt8) (d : DelResData) :
    fixresOf 5 delAt (payloadBytes (.del ⟨snode,[d]⟩)) = ⟨snode,[d]⟩ := by
  have hread := fixresOf_del ⟨snode,[d]⟩ [] (by simp)
  rwa [List.append_nil] at hread

/-- A message about several resources sends what they send one by one. -/
theorem sent_addTrs (ctx : TnCtx) (ibuf : Bytes) :
    sent sysresSrvAddTrsRes ctx ibuf =
      (fixresOf 6 trsAt ibuf).res.flatMap (announced ctx (fixresOf 6 trsAt ibuf).snode) := by
  refine sent_flatMap ?_
  simp only [fixresOf_trs_one,addTrsMsgs,List.flatMap_singleton]

theorem sent_del (stack : UInt8) (ctx : TnCtx) (ibuf : Bytes) :
    sent (sysresSrvDelRes stack) ctx ibuf =
      (fixresOf 5 delAt ibuf).res.flatMap (removed stack ctx (fixresOf 5 delAt ibuf).snode) := by
  refine sent_flatMap ?_
  simp only [fixresOf_del_one,delMsgs,List.flatMap_singleton]

theorem announced_eq (h : snode ≠ ctx.nodeid) (t : TrsResData) :
    announced ctx snode t =
      if ctx.state = resNodeCfg ∧ hears ctx t.resid t.send2all = true then [.addRcv snode t.freq t.pos t.len]
      else [] := by
  unfold announced sysresSrvAddTrsRes
  rw [sent_configured,fixresOf_trs_one,addTrsMsgs,List.flatMap_singleton,if_neg h,tnReceives_eq,ite_and]

theorem removed_eq (h : snode ≠ ctx.nodeid) (d : DelResData) :
    removed stack ctx snode d =
      if ctx.state = resNodeCfg ∧ hears ctx d.resid d.send2all = true then [.delRcv stack d.freq d.pos d.len]
      else [] := by
  unfold removed sysresSrvDelRes
  rw [sent_configured,fixresOf_del_one,delMsgs,List.flatMap_singleton,if_neg h,tnReceives_eq,ite_and]

/-- The removal of another node's resource takes back what the TN has set up for it when the
TN does not receive it, is not configured either time, or is configured both times and finds
the source node in the byte of the message that is never set. -/
theorem removed_undoes_iff {before after : TnCtx} {t : TrsResData} (hrcvall : after.rcvall = before.rcvall)
    (hlist : after.rcvResId = before.rcvResId) (hbefore : snode ≠ before.nodeid) (hafter : snode ≠ after.nodeid) :
    List.Forall₂ Undoes (announced before snode t) (removed stack after snode (removalOf t)) ↔
      (hears before t.resid t.send2all = true →
        (before.state = resNodeCfg ↔ after.state = resNodeCfg) ∧ (after.state = resNodeCfg → stack = snode)) := by
  have hhears : hears after t.resid t.send2all = hears before t.resid t.send2all := by
    unfold hears
    rw [hrcvall,hlist]
  rw [announced_eq hbefore,removed_eq hafter]
  simp only [removalOf,hhears]
  by_cases hh : hears before t.resid t.send2all = true
  · by_cases hb : before.state = resNodeCfg <;> by_cases ha : after.state = resNodeCfg <;>
      simp [hh,hb,ha,Undoes]
  · simp [hh]

/-- A configured TN that receives everything. -/
def receiver : TnCtx := ⟨resNodeCfg,7,0,0,1,fun _ => 0,fun _ => 0,0x77,fun _ => 0,[]⟩

theorem receiver_undoes :
    List.Forall₂ Undoes (announced receiver 3 ⟨9,0,1,4,20,1⟩) (removed 3 receiver 3 (removalOf ⟨9,0,1,4,20,1⟩)) :=
  (removed_undoes_iff rfl rfl (by decide) (by decide)).mpr fun _ => ⟨Iff.rfl,fun _ => rfl⟩

/-- The buffer holds 0 where the source node 3 should be. -/
theorem receiver_not_undoes :
    announced receiver 3 ⟨9,0,1,4,20,1⟩ = [.addRcv 3 1 4 20] ∧
      removed 0 receiver 3 (removalOf ⟨9,0,1,4,20,1⟩) = [.delRcv 0 1 4 20] ∧
      ¬List.Forall₂ Undoes (announced receiver 3 ⟨9,0,1,4,20,1⟩)
        (removed 0 receiver 3 (removalOf ⟨9,0,1,4,20,1⟩)) := by
  have hadd : announced receiver 3 ⟨9,0,1,4,20,1⟩ = [.addRcv 3 1 4 20] := by decide
  have hdel : removed 0 receiver 3 (removalOf ⟨9,0,1,4,20,1⟩) = [.delRcv 0 1 4 20] := by decide
  refine ⟨hadd,hdel,?_⟩
  rw [hadd,hdel]
  rintro (_ | ⟨h,-⟩)
  exact absurd h (by simp [Undoes])

end Removals
end Autbus
