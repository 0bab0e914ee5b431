import Autbus.HostUi

/-! Where `atb_ui_parse` reads and writes: what each access asks for, and from this, request
by request, the lengths and states for which all of them stay in bounds. -/
namespace Autbus
namespace ParseBounds

open Bytes HostFrames HostUi

/-- Writes and reads of the message stay in their buffer; of the message the received bytes
count. -/
def Bounded (len : ℕ) (a : Access) : Prop :=
  a.write = true ∨ a.buf = .rbuf → a.span.Within (a.buf.size len)

/-- All accesses noted so far are bounded. -/
def InBounds (len : ℕ) (u : Ui) : Prop := ∀ a ∈ u.log, Bounded len a

variable {len : ℕ} {u : Ui}

theorem inBounds_of_log {u' : Ui} (h : u'.log = u.log) : InBounds len u' ↔ InBounds len u := by
  rw [InBounds,h,InBounds]

@[simp] theorem inBounds_look (b : Buf) (a n : ℕ) :
    InBounds len (u.look b a n) ↔ (b = .rbuf → n = 0 ∨ a+n ≤ len) ∧ InBounds len u := by
  simp only [InBounds,Ui.look,List.forall_mem_cons,Bounded,Span.Within]
  refine and_congr_left fun _ => ?_
  constructor
  · intro h hb
    have hs := h (Or.inr hb)
    rwa [hb] at hs
  · rintro h (hw | hb)
    · cases hw
    · subst hb
      exact h rfl

@[simp] theorem inBounds_store (b : Buf) (a : ℕ) (xs : List UInt8) :
    InBounds len (u.store b a xs) ↔ (xs.length = 0 ∨ a+xs.length ≤ b.size len) ∧ InBounds len u := by
  simp [InBounds,Ui.store,Bounded,Span.Within]

@[simp] theorem inBounds_copy (dst : Buf) (a : ℕ) (src : Buf) (b n : ℕ) :
    InBounds len (u.copy dst a src b n) ↔
      (n = 0 ∨ a+n ≤ dst.size len) ∧ (src = .rbuf → n = 0 ∨ b+n ≤ len) ∧ InBounds len u := by
  have hsrc : (src = .rbuf → n = 0 ∨ b+n ≤ src.size len) ↔ (src = .rbuf → n = 0 ∨ b+n ≤ len) := by
    constructor
    · rintro h rfl
      exact h rfl
    · rintro h rfl
      exact h rfl
  simp [InBounds,Ui.copy,Bounded,Span.Within,hsrc]

@[simp] theorem inBounds_reply (m : Msg) : InBounds len (u.reply m) ↔ InBounds len u := by
  simp [Ui.reply,Buf.size,bufSize]

/-- The checksum fits behind every message that is not refused. -/
@[simp] theorem inBounds_ethSend (env : ℕ → Handover) (efd : ℤ) (slen : ℕ) :
    InBounds len (u.ethSend env efd .sbuf slen) ↔ InBounds len u := by
  unfold Ui.ethSend
  simp only
  split
  · exact Iff.rfl
  · rename_i h
    have hfit : slen % 65536+4 ≤ bufSize := by
      rw [bufSize] at h ⊢
      omega
    simp [InBounds,Bounded,Span.Within,Buf.size,hfit]

/-- A loop whose rounds stay in bounds. -/
theorem inBounds_foldl {α : Type*} {f : Ui → α → Ui} {xs : List α}
    (h : ∀ u, ∀ x ∈ xs, InBounds len (f u x) ↔ InBounds len u) :
    InBounds len (xs.foldl f u) ↔ InBounds len u := by
  induction xs generalizing u with
  | nil => exact Iff.rfl
  | cons x xs ih =>
    rw [List.foldl_cons,ih fun u y hy => h u y (List.mem_cons_of_mem _ hy)]
    exact h u x List.mem_cons_self

/-! ### The node list -/

theorem inBounds_putFields {ofs : ℕ} {fields : List (ℕ × List UInt8)} :
    InBounds len (Ui.putFields ofs fields u) ↔
      (∀ f ∈ fields, f.2.length = 0 ∨ ofs+f.1+f.2.length ≤ bufSize) ∧ InBounds len u := by
  induction fields generalizing u with
  | nil => simp [Ui.putFields]
  | cons f fields ih =>
    have hcons : Ui.putFields ofs (f::fields) u =
        Ui.putFields ofs fields (u.store .sbuf (ofs+f.1) f.2) := rfl
    rw [hcons,ih,inBounds_store,List.forall_mem_cons]
    simp only [Buf.size]
    tauto

/-- The fields of a record reach to its end and no further. -/
def Reaches (size : ℕ) (fields : List (ℕ × List UInt8)) : Prop :=
  (∀ f ∈ fields, f.1+f.2.length ≤ size) ∧ ∃ f ∈ fields, f.2.length ≠ 0 ∧ f.1+f.2.length = size

theorem nodeinfo_reaches (t : UInt64) (pnd : NodeRec) :
    Reaches Ui.nodeinfoSize (Ui.nodeinfoFields t pnd) := by
  simp [Reaches,Ui.nodeinfoSize,Ui.nodeinfoFields,Ui.le64]

theorem basic_reaches (t : UInt64) (pnd : NodeRec) : Reaches Ui.basicSize (Ui.basicFields t pnd) := by
  simp [Reaches,Ui.basicSize,Ui.basicFields,Ui.le64]

theorem Reaches.inBounds {size ofs : ℕ} {fields : List (ℕ × List UInt8)} (h : Reaches size fields) :
    InBounds len (Ui.putFields ofs fields u) ↔ ofs+size ≤ bufSize ∧ InBounds len u := by
  rw [inBounds_putFields]
  refine and_congr_left fun _ => ?_
  obtain ⟨hle,f,hf,hne,hend⟩ := h
  constructor
  · intro hall
    rcases hall f hf with h0 | hfit
    · exact absurd h0 hne
    · omega
  · intro hfit g hg
    have := hle g hg
    right
    omega

theorem inBounds_putNodes {size : ℕ} {fields : UInt64 → NodeRec → List (ℕ × List UInt8)}
    (hf : ∀ t pnd, Reaches size (fields t pnd)) {i : ℕ} {pnds : List NodeRec} :
    InBounds len (Ui.putNodes size fields i pnds u) ↔
      (pnds = [] ∨ 6+size*(i+pnds.length) ≤ bufSize) ∧ InBounds len u := by
  induction pnds generalizing i u with
  | nil => simp [Ui.putNodes]
  | cons pnd pnds ih =>
    have hgrow : 6+size*i+size ≤ 6+size*(i+(pnds.length+1)) := by
      have := Nat.mul_le_mul_left size (show i+1 ≤ i+(pnds.length+1) by omega)
      rw [Nat.mul_add,Nat.mul_one] at this
      omega
    have hnext : i+1+pnds.length = i+(pnds.length+1) := by omega
    rw [Ui.putNodes,ih,inBounds_store,(hf _ _).inBounds,hnext,List.length_cons]
    simp only [Buf.size,le32_length,bufSize,reduceCtorEq,false_or]
    constructor
    · rintro ⟨hrest,-,hone,hu⟩
      refine ⟨?_,hu⟩
      rcases hrest with rfl | hrest
      · rw [List.length_nil,Nat.zero_add,Nat.mul_add,Nat.mul_one]
        omega
      · exact hrest
    · rintro ⟨hall,hu⟩
      exact ⟨Or.inr hall,by omega,by omega,hu⟩

theorem inBounds_uiGetNodes :
    InBounds len u.uiGetNodes ↔ u.nodes.length ≤ 40 ∧ InBounds len u := by
  have hlog : InBounds len u.uiGetNodes ↔ InBounds len
      (Ui.putNodes Ui.nodeinfoSize Ui.nodeinfoFields 0 u.nodes (u.store .sbuf 2 (le32 0))) := inBounds_of_log rfl
  rw [hlog,inBounds_putNodes nodeinfo_reaches,inBounds_store]
  rw [← and_assoc]
  refine and_congr_left fun _ => ?_
  simp only [Buf.size,le32_length,bufSize,Ui.nodeinfoSize,← List.length_eq_zero_iff]
  omega

theorem inBounds_uiGetNames :
    InBounds len u.uiGetNames ↔ u.nodes.length ≤ 41 ∧ InBounds len u := by
  rw [Ui.uiGetNames,inBounds_putNodes basic_reaches,inBounds_store]
  rw [← and_assoc]
  refine and_congr_left fun _ => ?_
  simp only [Buf.size,le32_length,bufSize,Ui.basicSize,← List.length_eq_zero_iff]
  omega

/-! ### The configuration structures -/

theorem inBounds_getResmgr : InBounds len u.getResmgr ↔ InBounds len u := by
  rw [Ui.getResmgr,inBounds_foldl,inBounds_foldl]
  · intro u i hi
    have hi := List.mem_range.mp hi
    split
    · rw [inBounds_store]
      simp only [Buf.size,resmgrSize,List.length_replicate]
      refine and_iff_right ?_
      omega
    · exact Iff.rfl
  · intro u i hi
    have hi := List.mem_range.mp hi
    split
    · rw [inBounds_store]
      simp only [Buf.size,resmgrSize,List.length_replicate]
      refine and_iff_right ?_
      omega
    · exact Iff.rfl

theorem inBounds_flashSaveRescfg : InBounds len u.flashSaveRescfg ↔ InBounds len u := by
  have hmark : InBounds len (u.getResmgr.store .resmgr 0 (List.replicate 7 0x72)) ↔ InBounds len u := by
    rw [inBounds_store,inBounds_getResmgr]
    exact and_iff_right (Or.inr (show 0+7 ≤ resmgrSize by decide))
  rw [Ui.flashSaveRescfg]
  simp only
  split
  · rw [inBounds_foldl,hmark]
    intro u i hi
    have hi := List.mem_range.mp hi
    split
    · rw [inBounds_store]
      simp only [Buf.size,resmgrSize,List.length_singleton]
      refine and_iff_right ?_
      omega
    · exact Iff.rfl
  · exact hmark

theorem inBounds_flashSaveAtbcfg : InBounds len u.flashSaveAtbcfg ↔ InBounds len u := by
  rw [Ui.flashSaveAtbcfg,inBounds_store]
  exact and_iff_right (Or.inr (show 8+4 ≤ atbcfgSize by decide))

theorem inBounds_setResmgr : InBounds len u.setResmgr ↔ 2+resmgrSize ≤ len ∧ InBounds len u := by
  have hpos : resmgrSize ≠ 0 := by decide
  rw [Ui.setResmgr,inBounds_copy,inBounds_store]
  simp only [Buf.size,List.length_replicate,true_imp_iff]
  constructor
  · rintro ⟨-,hread,-,hu⟩
    exact ⟨by omega,hu⟩
  · rintro ⟨hread,hu⟩
    exact ⟨by omega,by omega,by omega,hu⟩

/-! ### Requests -/

theorem inBounds_getData {env : ℕ → Handover} {efd : ℤ} {m : Msg} {cmd : UiCmd}
    {target : UInt8 → Ui → Ui} (ht : ∀ n u, (target n u).log = u.log) :
    InBounds len (u.getData env efd m cmd target) ↔ (u.cmd = .none → 3 ≤ len) ∧ InBounds len u := by
  have hrest : ∀ u : Ui, InBounds len (((u.reply m).copy .sbuf 2 .uiDat 0 uiBufSize).ethSend env efd
      .sbuf (2+uiBufSize)) ↔ InBounds len u := by
    intro u
    rw [inBounds_ethSend,inBounds_copy,inBounds_reply]
    simp [Buf.size,uiBufSize,bufSize]
  rw [Ui.getData]
  simp only
  rw [hrest]
  split
  · rename_i hc
    rw [inBounds_of_log (ht _ _)]
    have hlook : InBounds len { u.look .rbuf 2 1 with cmd := cmd } ↔ InBounds len (u.look .rbuf 2 1) :=
      inBounds_of_log rfl
    rw [hlook,inBounds_look]
    simp [hc]
  · rename_i hc
    simp [hc]

theorem inBounds_otaRequest {m : Msg} {cmd : UiCmd} :
    InBounds len (u.otaRequest m cmd len) ↔
      (u.cmd = .none → subU32 len 2 = 0 ∨ subU32 len 2 ≤ uiBufSize ∧ 2+subU32 len 2 ≤ len) ∧ InBounds len u := by
  rw [Ui.otaRequest]
  split
  · rename_i hc
    have hlog : ∀ u : Ui, InBounds len { u with otaReplyCmd := cmd, otaReplyLen := 2 } ↔ InBounds len u :=
      fun u => inBounds_of_log rfl
    have hcmd : InBounds len { u with cmd := cmd } ↔ InBounds len u := inBounds_of_log rfl
    simp only
    rw [hlog,inBounds_copy,inBounds_reply,inBounds_copy,hcmd]
    simp only [Buf.size,devSetSize,hc,true_imp_iff]
    constructor
    · rintro ⟨-,-,hw,hr,hu⟩
      exact ⟨by omega,hu⟩
    · rintro ⟨hb,hu⟩
      exact ⟨by omega,nofun,by omega,by omega,hu⟩
  · rename_i hc
    simp [hc]

/-- With the type field in the message, the length of the copy does not wrap. -/
theorem inBounds_ota (hlen : len ≤ bufSize) (h2 : InBounds len u → 2 ≤ len) {m : Msg} {cmd : UiCmd} :
    InBounds len (u.otaRequest m cmd len) ↔ (u.cmd = .none → len ≤ 1202) ∧ InBounds len u := by
  rw [inBounds_otaRequest]
  refine and_congr_left fun hu => imp_congr_right fun _ => ?_
  rw [subU32_of_le (Nat.lt_of_le_of_lt hlen (by decide)) (h2 hu),uiBufSize]
  have := h2 hu
  omega

theorem inBounds_getAtbSig {env : ℕ → Handover} {efd : ℤ} :
    InBounds len (u.getAtbSig env efd) ↔ (u.cmd = .none → 3 ≤ len) ∧ InBounds len u := by
  rw [Ui.getAtbSig]
  exact inBounds_getData fun _ _ => rfl

theorem inBounds_getBps {env : ℕ → Handover} {efd : ℤ} :
    InBounds len (u.getBps env efd) ↔ (u.cmd = .none → 3 ≤ len) ∧ InBounds len u := by
  rw [Ui.getBps]
  exact inBounds_getData fun _ _ => rfl

theorem inBounds_getDebug {env : ℕ → Handover} {efd : ℤ} :
    InBounds len (u.getDebug env efd) ↔ (u.cmd = .none → 3 ≤ len) ∧ InBounds len u := by
  rw [Ui.getDebug]
  exact inBounds_getData fun _ _ => rfl

theorem inBounds_getDevice {env : ℕ → Handover} {efd : ℤ} :
    InBounds len (u.getDevice env efd) ↔ (u.cmd = .none → 10 ≤ len) ∧ InBounds len u := by
  rw [Ui.getDevice]
  simp only
  rw [inBounds_ethSend]
  have hreply : InBounds len ((u.reply .getDevice).copy .sbuf 2 .devSet 0 devSetSize) ↔ InBounds len u := by
    rw [inBounds_copy,inBounds_reply]
    simp [Buf.size,devSetSize,bufSize]
  have hcmd : ((u.reply .getDevice).copy .sbuf 2 .devSet 0 devSetSize).cmd = u.cmd := rfl
  rw [hcmd]
  generalize (u.reply .getDevice).copy .sbuf 2 .devSet 0 devSetSize = v at hreply ⊢
  split
  · rename_i hc
    have hlog : InBounds len { (v.look .rbuf 2 1).copy .devSet 0 .rbuf 6 4 with
        cmd := .getDeviceData, devgetNodeid := v.mem .rbuf 2 } ↔
        InBounds len ((v.look .rbuf 2 1).copy .devSet 0 .rbuf 6 4) := inBounds_of_log rfl
    rw [hlog,inBounds_copy,inBounds_look,hreply]
    simp only [Buf.size,devSetSize,hc,true_imp_iff]
    constructor
    · rintro ⟨-,hread,-,hu⟩
      exact ⟨by omega,hu⟩
    · rintro ⟨hread,hu⟩
      exact ⟨by omega,by omega,by omega,hu⟩
  · rename_i hc
    rw [hreply]
    simp [hc]

theorem inBounds_setDevice {env : ℕ → Handover} {efd : ℤ} :
    InBounds len (u.setDevice env efd) ↔ (u.cmd = .none → 258 ≤ len) ∧ InBounds len u := by
  rw [Ui.setDevice]
  simp only
  rw [inBounds_ethSend,inBounds_reply]
  split
  · rename_i hc
    have hupd : ∀ v : Ui, InBounds len v.uiUpdateNodecfg ↔ InBounds len v := by
      intro v
      apply inBounds_of_log
      rw [Ui.uiUpdateNodecfg]
      split <;> rfl
    have hlook : InBounds len { u.look .rbuf 2 4 with devsetNodeid := u.mem .rbuf 2, cmd := .setDeviceData } ↔
        InBounds len (u.look .rbuf 2 4) := inBounds_of_log rfl
    rw [hupd,inBounds_copy,inBounds_copy,hlook,inBounds_look]
    simp only [Buf.size,devSetSize,uiBufSize,hc,true_imp_iff]
    constructor
    · rintro ⟨-,hread,-,-,-,hu⟩
      exact ⟨by omega,hu⟩
    · rintro ⟨hread,hu⟩
      exact ⟨by omega,by omega,by omega,by omega,by omega,hu⟩
  · rename_i hc
    simp [hc]

theorem inBounds_setDebug {env : ℕ → Handover} {efd : ℤ} (hlen : len ≤ bufSize) :
    InBounds len (u.setDebug env efd len) ↔ 3 ≤ len ∧ len ≤ 1203 ∧ InBounds len u := by
  rw [Ui.setDebug]
  simp only
  rw [inBounds_ethSend,inBounds_reply,inBounds_copy]
  have hcmd : InBounds len (if u.cmd = .none then
      { u.look .rbuf 2 1 with cmd := .setDebugData, dbgsetNodeid := u.mem .rbuf 2 } else u) ↔
      (u.cmd = .none → 3 ≤ len) ∧ InBounds len u := by
    split
    · rename_i hc
      have hlook : InBounds len { u.look .rbuf 2 1 with cmd := .setDebugData, dbgsetNodeid := u.mem .rbuf 2 } ↔
          InBounds len (u.look .rbuf 2 1) := inBounds_of_log rfl
      rw [hlook,inBounds_look]
      simp [hc]
    · rename_i hc
      simp [hc]
  rw [hcmd]
  simp only [Buf.size,uiBufSize,bufSize] at hlen ⊢
  by_cases h3 : 3 ≤ len
  · rw [subU32_of_le (by omega) h3]
    constructor
    · rintro ⟨hw,-,-,hu⟩
      exact ⟨h3,by omega,hu⟩
    · rintro ⟨-,hmax,hu⟩
      exact ⟨by omega,by omega,fun _ => h3,hu⟩
  · -- below three bytes the length of the copy wraps
    rw [subU32_of_lt (by decide) (by omega)]
    constructor
    · rintro ⟨hw,-⟩
      omega
    · rintro ⟨hmin,-⟩
      exact absurd hmin h3

theorem inBounds_setAtbCfg {env : ℕ → Handover} {efd : ℤ} :
    InBounds len (u.setAtbCfg env efd) ↔ 14 ≤ len ∧ InBounds len u := by
  rw [Ui.setAtbCfg]
  rw [inBounds_flashSaveAtbcfg,inBounds_ethSend,inBounds_reply]
  have hcmd : ∀ v : Ui, InBounds len (if v.cmd = .none then { v with cmd := .updateTxgain } else v) ↔
      InBounds len v := by
    intro v
    apply inBounds_of_log
    split <;> rfl
  rw [hcmd,inBounds_copy]
  simp only [Buf.size,atbcfgSize,true_imp_iff]
  constructor
  · rintro ⟨-,hread,hu⟩
    exact ⟨by omega,hu⟩
  · rintro ⟨hread,hu⟩
    exact ⟨by omega,by omega,hu⟩

theorem inBounds_getAtbCfg {env : ℕ → Handover} {efd : ℤ} :
    InBounds len (u.getAtbCfg env efd) ↔ InBounds len u := by
  rw [Ui.getAtbCfg]
  rw [inBounds_ethSend,inBounds_copy,inBounds_reply]
  simp [Buf.size,atbcfgSize,bufSize]

theorem inBounds_getResConfig {env : ℕ → Handover} {efd : ℤ} :
    InBounds len (u.getResConfig env efd) ↔ InBounds len u := by
  rw [Ui.getResConfig]
  rw [inBounds_ethSend,inBounds_copy,inBounds_getResmgr,inBounds_reply]
  simp [Buf.size,resmgrSize,bufSize]

theorem inBounds_setResConfig {env : ℕ → Handover} {efd : ℤ} :
    InBounds len (u.setResConfig env efd) ↔ 3828 ≤ len ∧ InBounds len u := by
  rw [Ui.setResConfig,inBounds_flashSaveRescfg,inBounds_ethSend,inBounds_reply,inBounds_setResmgr]
  exact Iff.rfl

theorem inBounds_getNodeInfo {env : ℕ → Handover} {efd : ℤ} :
    InBounds len (u.getNodeInfo env efd) ↔ u.nodes.length ≤ 40 ∧ InBounds len u := by
  rw [Ui.getNodeInfo,inBounds_ethSend,inBounds_uiGetNodes,inBounds_reply]
  exact Iff.rfl

theorem inBounds_getNodeBasicInfo {env : ℕ → Handover} {efd : ℤ} :
    InBounds len (u.getNodeBasicInfo env efd) ↔ u.nodes.length ≤ 41 ∧ InBounds len u := by
  rw [Ui.getNodeBasicInfo,inBounds_ethSend,inBounds_uiGetNames,inBounds_reply]
  exact Iff.rfl

/-- What a request asks of the length of its message, of the command that waits and of the
node list. -/
def Fits (len : ℕ) (u : Ui) : Option Msg → Prop
  | some .setAtbCfg => 14 ≤ len
  | some .setResConfig => 3828 ≤ len
  | some .getNodeInfo => u.nodes.length ≤ 40
  | some .getNodeBasicInfo => u.nodes.length ≤ 41
  | some .getAtbSig | some .getBps | some .getDebug => u.cmd = .none → 3 ≤ len
  | some .getDevice => u.cmd = .none → 10 ≤ len
  | some .setDevice => u.cmd = .none → 258 ≤ len
  | some .setDebug => 3 ≤ len ∧ len ≤ 1203
  | some .otaStart | some .otaData | some .otaEnd => u.cmd = .none → len ≤ 1202
  | some .getAtbCfg | some .getResConfig | some .setNodeName | none => True

/-- For every message of at most 4096 bytes, every state and every node list, `atb_ui_parse`
stays in the message and in its buffers if and only if the message has a type field and
the request fits. -/
theorem atbUiParse_inBounds_iff (env : ℕ → Handover) (efd : ℤ) (u : Ui) {len : ℕ} (hlen : len ≤ bufSize)
    (h0 : u.log = []) :
    InBounds len (u.atbUiParse env efd len) ↔ 2 ≤ len ∧ Fits len u (Msg.ofCode (u16 (u.mem .rbuf) 0)) := by
  have hu : InBounds len u := by
    intro a ha
    rw [h0] at ha
    cases ha
  have hlook : InBounds len (u.look .rbuf 0 2) ↔ 2 ≤ len := by
    rw [inBounds_look]
    simp [hu]
  have hnodes : (u.look .rbuf 0 2).nodes = u.nodes := rfl
  have hcmd : (u.look .rbuf 0 2).cmd = u.cmd := rfl
  rw [Ui.atbUiParse,and_comm]
  generalize Msg.ofCode (u16 (u.mem .rbuf) 0) = m
  cases m with
  | none => simp only [Fits,hlook,true_and]
  | some m =>
    cases m with
    | setAtbCfg => exact inBounds_setAtbCfg.trans (and_congr_right fun _ => hlook)
    | getAtbCfg => exact inBounds_getAtbCfg.trans (hlook.trans (iff_of_eq (true_and _)).symm)
    | setNodeName => exact hlook.trans (iff_of_eq (true_and _)).symm
    | getNodeInfo => exact inBounds_getNodeInfo.trans (and_congr_right fun _ => hlook)
    | getResConfig => exact inBounds_getResConfig.trans (hlook.trans (iff_of_eq (true_and _)).symm)
    | setResConfig => exact inBounds_setResConfig.trans (and_congr_right fun _ => hlook)
    | getNodeBasicInfo => exact inBounds_getNodeBasicInfo.trans (and_congr_right fun _ => hlook)
    | getAtbSig => exact inBounds_getAtbSig.trans (and_congr_right fun _ => hlook)
    | getBps => exact inBounds_getBps.trans (and_congr_right fun _ => hlook)
    | getDebug => exact inBounds_getDebug.trans (and_congr_right fun _ => hlook)
    | setDebug =>
      refine (inBounds_setDebug hlen).trans ?_
      rw [hlook,← and_assoc]
      exact Iff.rfl
    | getDevice => exact inBounds_getDevice.trans (and_congr_right fun _ => hlook)
    | setDevice => exact inBounds_setDevice.trans (and_congr_right fun _ => hlook)
    | otaStart => exact (inBounds_ota hlen hlook.mp).trans (and_congr_right fun _ => hlook)
    | otaData => exact (inBounds_ota hlen hlook.mp).trans (and_congr_right fun _ => hlook)
    | otaEnd => exact (inBounds_ota hlen hlook.mp).trans (and_congr_right fun _ => hlook)

/-- An upgrade block with its number, its 1024 bytes and the checksum of the message. -/
theorem otaBlock_inBounds :
    InBounds 1034 ((Ui.idle (ofList [0x28,0])).atbUiParse (fun _ => .taken) 3 1034) :=
  (atbUiParse_inBounds_iff (fun _ => .taken) 3 (Ui.idle (ofList [0x28,0])) (by decide) rfl).mpr
    ⟨by decide,fun _ => by decide⟩

/-- A longer block goes beyond the end of `ui_dat_buf`, and a configuration of no bytes is
read from behind the message. -/
theorem otaBlock_overruns :
    ¬InBounds 2000 ((Ui.idle (ofList [0x28,0])).atbUiParse (fun _ => .taken) 3 2000) ∧
      ¬InBounds 6 ((Ui.idle (ofList [0x10,0])).atbUiParse (fun _ => .taken) 3 6) := by
  constructor
  · intro h
    have hwrite := h ⟨.uiDat,true,⟨0,1998⟩⟩ (by decide)
    exact absurd (hwrite (Or.inl rfl)) (by decide)
  · intro h
    have hread := h ⟨.rbuf,false,⟨2,12⟩⟩ (by decide)
    exact absurd (hread (Or.inr rfl)) (by decide)

end ParseBounds
end Autbus
