import Autbus.HostUi

/-! What `atb_ui_parse` does besides filling buffers: a request is kept as the command of the
next tick when none waits, and is answered at once unless it belongs to an upgrade. -/
namespace Autbus
namespace HostParse

open Bytes HostFrames HostUi

/-- The commands with a reply that is sent later. -/
def IsOta (cmd : UiCmd) : Prop := cmd = .otaStart ∨ cmd = .otaData ∨ cmd = .otaEnd

instance (cmd : UiCmd) : Decidable (IsOta cmd) := inferInstanceAs (Decidable (_ ∨ _))

variable {u v w : Ui} {env : ℕ → Handover} {efd : ℤ}

/-! ### Filling buffers -/

/-- Only memory, the accesses noted down and the marks of the nodes differ. -/
def Quiet (u v : Ui) : Prop := ∃ mem log nodes, v = { u with mem, log, nodes }

theorem Quiet.refl (u : Ui) : Quiet u u := ⟨_,_,_,rfl⟩

theorem Quiet.trans (h : Quiet u v) (h' : Quiet v w) : Quiet u w := by
  obtain ⟨_,_,_,rfl⟩ := h
  obtain ⟨_,_,_,rfl⟩ := h'
  exact ⟨_,_,_,rfl⟩

theorem quiet_store (u : Ui) (b : Buf) (a : ℕ) (xs : List UInt8) : Quiet u (u.store b a xs) := ⟨_,_,_,rfl⟩

theorem quiet_copy (u : Ui) (dst : Buf) (a : ℕ) (src : Buf) (b n : ℕ) : Quiet u (u.copy dst a src b n) :=
  ⟨_,_,_,rfl⟩

theorem quiet_reply (u : Ui) (m : Msg) : Quiet u (u.reply m) := ⟨_,_,_,rfl⟩

/-- A loop with quiet rounds. -/
theorem quiet_foldl {α : Type*} {f : Ui → α → Ui} (h : ∀ u x, Quiet u (f u x)) (u : Ui) (xs : List α) :
    Quiet u (xs.foldl f u) := by
  induction xs generalizing u with
  | nil => exact .refl u
  | cons x xs ih => exact (h u x).trans (ih _)

theorem quiet_putNodes (size : ℕ) (fields : UInt64 → NodeRec → List (ℕ × List UInt8)) (i : ℕ)
    (pnds : List NodeRec) (u : Ui) : Quiet u (Ui.putNodes size fields i pnds u) := by
  induction pnds generalizing i u with
  | nil => exact .refl u
  | cons pnd pnds ih =>
    have hput : Quiet u (Ui.putFields (6+size*i) (fields u.systime pnd) u) :=
      quiet_foldl (fun u f => quiet_store u _ _ _) _ _
    exact (hput.trans (quiet_store _ _ _ _)).trans (ih _ _)

theorem quiet_uiGetNodes (u : Ui) : Quiet u u.uiGetNodes := by
  have hput := (quiet_store u .sbuf 2 (le32 0)).trans
    (quiet_putNodes Ui.nodeinfoSize Ui.nodeinfoFields 0 u.nodes _)
  exact hput.trans ⟨_,_,_,rfl⟩

theorem quiet_uiGetNames (u : Ui) : Quiet u u.uiGetNames :=
  (quiet_store u _ _ _).trans (quiet_putNodes _ _ _ _ _)

theorem quiet_getResmgr (u : Ui) : Quiet u u.getResmgr := by
  refine Quiet.trans (quiet_foldl ?_ _ _) (quiet_foldl ?_ _ _)
  · intro u i
    split
    · exact quiet_store u _ _ _
    · exact .refl u
  · intro u i
    split
    · exact quiet_store u _ _ _
    · exact .refl u

theorem quiet_flashSaveRescfg (u : Ui) : Quiet u u.flashSaveRescfg := by
  have hmark := (quiet_getResmgr u).trans (quiet_store _ .resmgr 0 (List.replicate 7 0x72))
  rw [Ui.flashSaveRescfg]
  simp only
  split
  · refine hmark.trans (quiet_foldl ?_ _ _)
    intro u i
    split
    · exact quiet_store u _ _ _
    · exact .refl u
  · exact hmark

theorem quiet_uiUpdateNodecfg (u : Ui) : Quiet u u.uiUpdateNodecfg := by
  unfold Ui.uiUpdateNodecfg
  simp only
  split
  · exact .refl u
  · exact ⟨_,_,_,rfl⟩

/-! ### Keeping a command -/

/-- Nothing is sent or aimed elsewhere; a command is kept when none waited. -/
structure Prepared (u v : Ui) : Prop where
  fwd : v.uiforwardNodeid = u.uiforwardNodeid
  out : v.out = u.out
  cmd : v.cmd = u.cmd ∨ u.cmd = .none

theorem Prepared.then_quiet (h : Prepared u v) (h' : Quiet v w) : Prepared u w := by
  obtain ⟨_,_,_,rfl⟩ := h'
  exact ⟨h.fwd,h.out,h.cmd⟩

theorem Quiet.prepared (h : Quiet u v) : Prepared u v := by
  obtain ⟨_,_,_,rfl⟩ := h
  exact ⟨rfl,rfl,Or.inl rfl⟩

theorem Quiet.cmd (h : Quiet u v) : v.cmd = u.cmd := by
  obtain ⟨_,_,_,rfl⟩ := h
  rfl

/-- A request that is answered when it comes: what is kept then is no upgrade command. -/
structure Answers (env : ℕ → Handover) (efd : ℤ) (u v : Ui) : Prop where
  sends : ∃ w n, Prepared u w ∧ (w.cmd = u.cmd ∨ ¬IsOta w.cmd) ∧ Quiet (w.ethSend env efd .sbuf n) v

theorem Answers.of_prepared (h : Prepared u w) (hcmd : w.cmd = u.cmd ∨ ¬IsOta w.cmd) (n : ℕ) :
    Answers env efd u (w.ethSend env efd .sbuf n) := ⟨w,n,h,hcmd,.refl _⟩

theorem Answers.of_quiet (h : Quiet u w) (n : ℕ) : Answers env efd u (w.ethSend env efd .sbuf n) :=
  .of_prepared h.prepared (Or.inl h.cmd) n

theorem Answers.then_quiet (h : Answers env efd u v) (h' : Quiet v w) : Answers env efd u w := by
  obtain ⟨x,n,hx,hcmd,hv⟩ := h
  exact ⟨x,n,hx,hcmd,hv.trans h'⟩

theorem answers_getData {m : Msg} {cmd : UiCmd} {target : UInt8 → Ui → Ui} (hcmd : ¬IsOta cmd)
    (h : ∀ n u, Prepared u (target n u) ∧ (target n u).cmd = u.cmd) :
    Answers env efd u (u.getData env efd m cmd target) := by
  unfold Ui.getData
  simp only
  split
  · next hnone =>
    obtain ⟨hprep,hsame⟩ := h (u.mem .rbuf 2) { u.look .rbuf 2 1 with cmd := cmd }
    have hbegin : Prepared u (target (u.mem .rbuf 2) { u.look .rbuf 2 1 with cmd := cmd }) :=
      ⟨hprep.fwd,hprep.out,Or.inr hnone⟩
    have hfill := (quiet_reply (target (u.mem .rbuf 2) { u.look .rbuf 2 1 with cmd := cmd }) m).trans
      (quiet_copy _ .sbuf 2 .uiDat 0 uiBufSize)
    refine .of_prepared (hbegin.then_quiet hfill) (Or.inr ?_) _
    rw [hfill.cmd,hsame]
    exact hcmd
  · exact .of_quiet ((quiet_reply u m).trans (quiet_copy _ _ _ _ _ _)) _

theorem answers_getDevice : Answers env efd u (u.getDevice env efd) := by
  unfold Ui.getDevice
  simp only
  split
  · next hnone =>
    refine .of_prepared ?_ (Or.inr ?_) _
    · exact ⟨rfl,rfl,Or.inr hnone⟩
    · show ¬IsOta .getDeviceData
      decide
  · refine .of_quiet ?_ _
    exact (quiet_reply u .getDevice).trans (quiet_copy _ _ _ _ _ _)

theorem answers_setDevice : Answers env efd u (u.setDevice env efd) := by
  unfold Ui.setDevice
  simp only
  split
  · next hnone =>
    have hfill : ∀ w : Ui, Quiet w (w.uiUpdateNodecfg.reply .setDevice) := fun w =>
      (quiet_uiUpdateNodecfg w).trans (quiet_reply _ _)
    refine .of_prepared ?_ (Or.inr ?_) _
    · refine Prepared.then_quiet ?_ (hfill _)
      exact ⟨rfl,rfl,Or.inr hnone⟩
    · rw [(hfill _).cmd]
      show ¬IsOta .setDeviceData
      decide
  · refine .of_quiet ?_ _
    exact quiet_reply u _

theorem answers_setDebug (len : ℕ) : Answers env efd u (u.setDebug env efd len) := by
  unfold Ui.setDebug
  simp only
  split
  · next hnone =>
    refine .of_prepared ?_ (Or.inr ?_) _
    · exact ⟨rfl,rfl,Or.inr hnone⟩
    · show ¬IsOta .setDebugData
      decide
  · refine .of_quiet ?_ _
    exact (quiet_copy u _ _ _ _ _).trans (quiet_reply _ _)

theorem answers_setAtbCfg : Answers env efd u (u.setAtbCfg env efd) := by
  refine Answers.then_quiet ?_ (quiet_store _ _ _ _)
  split
  · next hnone =>
    refine .of_prepared ?_ (Or.inr ?_) _
    · exact ⟨rfl,rfl,Or.inr hnone⟩
    · show ¬IsOta .updateTxgain
      decide
  · refine .of_quiet ?_ _
    exact (quiet_copy u _ _ _ _ _).trans (quiet_reply _ _)

theorem answers_setResConfig : Answers env efd u (u.setResConfig env efd) := by
  refine Answers.then_quiet (.of_quiet ?_ _) (quiet_flashSaveRescfg _)
  exact ⟨_,_,_,rfl⟩

theorem answers_getResConfig : Answers env efd u (u.getResConfig env efd) := by
  rw [Ui.getResConfig]
  refine .of_quiet ?_ _
  exact ((quiet_reply u _).trans (quiet_getResmgr _)).trans (quiet_copy _ _ _ _ _ _)

theorem answers_getAtbCfg : Answers env efd u (u.getAtbCfg env efd) := by
  rw [Ui.getAtbCfg]
  refine .of_quiet ?_ _
  exact (quiet_reply u _).trans (quiet_copy _ _ _ _ _ _)

theorem answers_getNodeInfo : Answers env efd u (u.getNodeInfo env efd) := by
  refine .of_quiet ?_ _
  exact (quiet_reply u _).trans (quiet_uiGetNodes _)

theorem answers_getNodeBasicInfo : Answers env efd u (u.getNodeBasicInfo env efd) := by
  refine .of_quiet ?_ _
  exact (quiet_reply u _).trans (quiet_uiGetNames _)

theorem prepared_otaRequest (m : Msg) (cmd : UiCmd) (len : ℕ) : Prepared u (u.otaRequest m cmd len) := by
  unfold Ui.otaRequest
  split
  · next hnone => exact ⟨rfl,rfl,Or.inr hnone⟩
  · exact (Quiet.refl u).prepared

/-- A message is answered, or kept or dropped without an answer. -/
theorem atbUiParse_cases (u : Ui) (env : ℕ → Handover) (efd : ℤ) (len : ℕ) :
    Answers env efd u (u.atbUiParse env efd len) ∨ Prepared u (u.atbUiParse env efd len) := by
  have hlook : Quiet u (u.look .rbuf 0 2) := ⟨_,_,_,rfl⟩
  have hafter : ∀ {v}, Answers env efd (u.look .rbuf 0 2) v → Answers env efd u v := by
    rintro v ⟨w,n,hw,hcmd,hv⟩
    exact ⟨w,n,⟨hw.fwd,hw.out,hw.cmd⟩,hcmd,hv⟩
  unfold Ui.atbUiParse
  simp only
  cases Msg.ofCode (u16 (u.mem .rbuf) 0) with
  | none => exact Or.inr hlook.prepared
  | some m =>
    cases m with
    | setAtbCfg => exact Or.inl (hafter answers_setAtbCfg)
    | getAtbCfg => exact Or.inl (hafter answers_getAtbCfg)
    | setNodeName => exact Or.inr hlook.prepared
    | getNodeInfo => exact Or.inl (hafter answers_getNodeInfo)
    | getNodeBasicInfo => exact Or.inl (hafter answers_getNodeBasicInfo)
    | getResConfig => exact Or.inl (hafter answers_getResConfig)
    | setResConfig => exact Or.inl (hafter answers_setResConfig)
    | getAtbSig | getBps | getDebug =>
      exact Or.inl (hafter (answers_getData (by decide) fun _ _ => ⟨⟨rfl,rfl,Or.inl rfl⟩,rfl⟩))
    | getDevice => exact Or.inl (hafter answers_getDevice)
    | setDevice => exact Or.inl (hafter answers_setDevice)
    | setDebug => exact Or.inl (hafter (answers_setDebug len))
    | otaStart | otaData | otaEnd =>
      have hota := prepared_otaRequest (u := u.look .rbuf 0 2)
      exact Or.inr ⟨(hota _ _ _).fwd,(hota _ _ _).out,(hota _ _ _).cmd⟩

/-! ### The upgrade flag -/

theorem Quiet.otaFlag (h : Quiet u v) : v.otaFlag = u.otaFlag := by
  obtain ⟨_,_,_,rfl⟩ := h
  rfl

theorem ethSend_otaFlag (u : Ui) (env : ℕ → Handover) (efd : ℤ) (b : Buf) (n : ℕ) :
    (u.ethSend env efd b n).otaFlag = u.otaFlag := by
  unfold Ui.ethSend
  simp only
  split <;> rfl

theorem getData_otaFlag {m : Msg} {cmd : UiCmd} {target : UInt8 → Ui → Ui}
    (h : ∀ n u, (target n u).otaFlag = u.otaFlag) : (u.getData env efd m cmd target).otaFlag = u.otaFlag := by
  unfold Ui.getData
  simp only [ethSend_otaFlag]
  split
  · exact h _ _
  · rfl

/-- Requests of the host leave it to the upgrade services who takes part. -/
theorem atbUiParse_otaFlag (u : Ui) (env : ℕ → Handover) (efd : ℤ) (len : ℕ) :
    (u.atbUiParse env efd len).otaFlag = u.otaFlag := by
  unfold Ui.atbUiParse
  simp only
  cases Msg.ofCode (u16 (u.mem .rbuf) 0) with
  | none => rfl
  | some m =>
    cases m with
    | setNodeName => rfl
    | getNodeInfo => exact (ethSend_otaFlag _ _ _ _ _).trans (quiet_uiGetNodes _).otaFlag
    | getNodeBasicInfo => exact (ethSend_otaFlag _ _ _ _ _).trans (quiet_uiGetNames _).otaFlag
    | getResConfig =>
      rw [Ui.getResConfig,ethSend_otaFlag]
      exact ((quiet_getResmgr _).trans (quiet_copy _ _ _ _ _ _)).otaFlag
    | setResConfig => exact (quiet_flashSaveRescfg _).otaFlag.trans (ethSend_otaFlag _ _ _ _ _)
    | getAtbCfg => exact ethSend_otaFlag _ _ _ _ _
    | getAtbSig | getBps | getDebug => exact getData_otaFlag fun _ _ => rfl
    | setAtbCfg =>
      refine (ethSend_otaFlag _ _ _ _ _).trans ?_
      split <;> rfl
    | getDevice =>
      refine (ethSend_otaFlag _ _ _ _ _).trans ?_
      dsimp only
      split <;> rfl
    | setDevice =>
      refine (ethSend_otaFlag _ _ _ _ _).trans ?_
      dsimp only
      split
      · exact (quiet_uiUpdateNodecfg _).otaFlag
      · rfl
    | setDebug =>
      refine (ethSend_otaFlag _ _ _ _ _).trans ?_
      dsimp only
      split <;> rfl
    | otaStart | otaData | otaEnd =>
      show (Ui.otaRequest _ _ _ _).otaFlag = u.otaFlag
      unfold Ui.otaRequest
      split <;> rfl

end HostParse
end Autbus
