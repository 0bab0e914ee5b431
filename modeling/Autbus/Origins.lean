import Autbus.HostTasks

/-! Where the replies of the CN go. A reply to a request that is answered at once goes to
its sender; the reply to an upgrade command goes where the forward byte points when it is
sent, at a tick or later. -/
namespace Autbus
namespace Origins

open Bytes HostUi HostTasks HostParse Trace
open HostFrames hiding step

/-- Where `ui_eth_send` sends. -/
def dest (fwd : UInt8) (efd : ℤ) : Dest := if fwd ≠ 0 ∨ efd < 0 then .rpc fwd else .eth

theorem dest_eq_iff {fwd : UInt8} {efd : ℕ} {o : Origin} : dest fwd efd = o.dest ↔ fwd = o.id := by
  have hefd : ¬((efd : ℤ) < 0) := by omega
  cases o with
  | host => simp [dest,Origin.dest,Origin.id,hefd]
  | tn n =>
    simp only [dest,Origin.dest,Origin.id,hefd,or_false]
    by_cases h : fwd = 0
    · simp [h,n.2.symm]
    · simp [h]

theorem handOver_dest {fwd : UInt8} {efd : ℤ} {env : ℕ → Handover} {i : ℕ} {fs : List (List UInt8)} :
    ∀ x ∈ (Ui.handOver fwd efd env i fs).1, x.dest = dest fwd efd := by
  induction fs generalizing i with
  | nil => simp [Ui.handOver]
  | cons f fs ih =>
    rw [Ui.handOver]
    cases env i with
    | nobuf => simp
    | refused =>
      simp only
      split
      · next htn => simpa [dest,htn] using ih
      · simp
    | taken => simpa [dest] using ih

/-! ### Requests answered at once -/

variable {u v : Ui} {env : ℕ → Handover} {efd : ℤ}

/-- All that `v` has sent and `u` has not went where `u` sends. -/
def Answered (efd : ℤ) (u v : Ui) : Prop := ∀ x ∈ v.out, x ∈ u.out ∨ x.dest = dest u.uiforwardNodeid efd

theorem Answered.of_out (h : v.out = u.out) : Answered efd u v := by
  intro x hx
  rw [h] at hx
  exact Or.inl hx

theorem answered_ethSend (b : Buf) (slen : ℕ) : Answered efd u (u.ethSend env efd b slen) := by
  intro x hx
  unfold Ui.ethSend at hx
  simp only at hx
  split at hx
  · exact Or.inl hx
  · rcases List.mem_append.mp hx with hx | hx
    · exact Or.inr (handOver_dest x (List.mem_reverse.mp hx))
    · exact Or.inl hx

/-- Whatever the message asks for, what is sent goes where the forward byte points. -/
theorem answered_atbUiParse (len : ℕ) : Answered efd u (u.atbUiParse env efd len) := by
  rcases atbUiParse_cases u env efd len with ⟨w,n,hw,-,hv⟩ | hprep
  · obtain ⟨_,_,_,hv⟩ := hv
    rw [hv]
    intro x hx
    rw [← hw.out,← hw.fwd]
    exact answered_ethSend .sbuf n x hx
  · exact .of_out hprep.out

/-! ### Replies sent later -/

/-- A frame that `ui_eth_send` makes gets out of the device. -/
def Leaves (fwd : UInt8) (env : ℕ → Handover) : Prop := env 0 ≠ .nobuf ∧ (fwd = 0 → env 0 = .taken)

instance (fwd : UInt8) (env : ℕ → Handover) : Decidable (Leaves fwd env) := inferInstanceAs (Decidable (_ ∧ _))

theorem uiEthSend_short (dstmac : List UInt8) (pdat : Mem) {slen : ℕ} (h : slen ≤ 255) :
    ∃ f, (uiEthSend dstmac pdat slen).frames = [f] := by
  have hbuf : ¬bufSize-4 < slen := by
    rw [bufSize]
    omega
  have hmod : (slen+4)%1024 ≠ 0 := by omega
  have hdiv : (slen+4)/1024+1 = 0+1 := by omega
  unfold uiEthSend
  simp only [if_neg hbuf,if_pos hmod,hdiv,uiFrames,if_true,List.map_cons,List.map_nil]
  exact ⟨_,rfl⟩

/-- A reply of one frame. -/
theorem ethSend_short_out (u : Ui) (env : ℕ → Handover) (efd : ℕ) (b : Buf) (n : UInt8) :
    ∃ f, (u.ethSend env efd b n.toNat).out =
      if Leaves u.uiforwardNodeid env then ⟨dest u.uiforwardNodeid efd,f⟩::u.out else u.out := by
  have hn : n.toNat ≤ 255 := Nat.le_of_lt_succ n.toNat_lt
  have hmod : n.toNat%65536 = n.toNat := Nat.mod_eq_of_lt (by omega)
  have hbuf : ¬bufSize-4 < n.toNat := by
    rw [bufSize]
    omega
  have hefd : ¬((efd : ℤ) < 0) := by omega
  obtain ⟨f,hf⟩ := uiEthSend_short u.dstmac (u.mem b) hn
  refine ⟨f,?_⟩
  unfold Ui.ethSend
  simp only [hmod,if_neg hbuf,hf,Ui.handOver,Leaves,dest,hefd,or_false]
  cases env 0 with
  | nobuf => simp
  | refused => by_cases h : u.uiforwardNodeid = 0 <;> simp [h]
  | taken => simp

theorem otaAnswer_out (d : Dev) (env : ℕ → Handover) (cmd : UiCmd) :
    ∃ f, (d.otaAnswer env cmd).ui.out =
      if d.ui.uiforwardNodeid ≠ 0 ∧ Leaves d.ui.uiforwardNodeid env then
        ⟨dest d.ui.uiforwardNodeid d.efd,f⟩::d.ui.out
      else d.ui.out := by
  unfold Dev.otaAnswer
  by_cases h : d.ui.uiforwardNodeid ≠ 0
  · obtain ⟨f,hf⟩ := ethSend_short_out d.ui env d.efd .otaReply d.ui.otaReplyLen
    refine ⟨f,?_⟩
    simp only [if_pos h,hf,and_iff_right h]
  · refine ⟨[],?_⟩
    rw [if_neg h,if_neg fun hc => h hc.1]
    rfl

theorem answer_out {d d' : Dev} (h : Dev.Unsent d d') (env : ℕ → Handover) (cmd : UiCmd) :
    ∃ f, (d'.otaAnswer env cmd).ui.out =
      if d.ui.uiforwardNodeid ≠ 0 ∧ Leaves d.ui.uiforwardNodeid env then
        ⟨dest d.ui.uiforwardNodeid d.efd,f⟩::d.ui.out
      else d.ui.out := by
  obtain ⟨f,hf⟩ := otaAnswer_out d' env cmd
  rw [h.fwd,h.out,h.efd] at hf
  exact ⟨f,hf⟩

/-- A tick sends the reply of an upgrade command, if it goes to a TN, and nothing else. -/
theorem command_out (d : Dev) (env : Dev.Env) (cmd : UiCmd) :
    ∃ f, (d.command env cmd).ui.out =
      if IsOta cmd ∧ d.ui.uiforwardNodeid ≠ 0 ∧ Leaves d.ui.uiforwardNodeid env.send then
        ⟨dest d.ui.uiforwardNodeid d.efd,f⟩::d.ui.out
      else d.ui.out := by
  by_cases h : IsOta cmd
  · obtain ⟨f,hf⟩ := answer_out (d.unsent_otaService cmd) env.send cmd
    refine ⟨f,?_⟩
    rw [Dev.command_ota h,hf]
    simp only [h,true_and]
  · refine ⟨[],?_⟩
    rw [if_neg fun hc => h hc.1]
    exact (Dev.command_other h d env).out

/-! ### Every reply to its own origin -/

theorem answered_load (m : Buf → Mem) (h : Answered efd { u with mem := m } v) : Answered efd u v := h

theorem hostRequest_answered (d : Dev) (env : ℕ → Handover) (efd : ℤ) (f : Frame) :
    Answered efd d.ui (d.hostRequest env efd f).ui := by
  unfold Dev.hostRequest
  simp only
  split
  · exact answered_load _ (answered_atbUiParse _)
  · exact .of_out rfl

/-- A local request is answered on the Ethernet port. -/
theorem eth_dest (d : Dev) (env : ℕ → Handover) (f : Frame) :
    ∀ x ∈ (d.call (.eth f env)).ui.out, x.dest = .eth := by
  intro x hx
  rw [Dev.call,Dev.atbUiProcess] at hx
  split at hx
  · have hefd : ¬((d.efd : ℤ) < 0) := by omega
    rcases hostRequest_answered _ _ _ _ x hx with hold | hdest
    · cases hold
    · simpa [dest,Dev.fresh,hefd] using hdest
  · cases hx

/-- A forwarded request is answered to the TN that forwarded it. -/
theorem uiData_dest (d : Dev) (tn : TnId) (f : Frame) (env : ℕ → Handover) :
    ∀ x ∈ (d.call (.uiData tn f env)).ui.out, x.dest = .rpc tn := by
  intro x hx
  rw [Dev.call,Dev.sysresSrvUiData] at hx
  split at hx
  · cases hx
  rw [Dev.atbUiRpcRecv] at hx
  split at hx
  · rcases hostRequest_answered _ _ _ _ x hx with hold | hdest
    · cases hold
    · simpa [dest] using hdest
  · cases hx

theorem tick_out (d : Dev) (env : Dev.Env) :
    ∃ f, (d.call (.tick env)).ui.out =
      if IsOta d.ui.cmd ∧ d.ui.uiforwardNodeid ≠ 0 ∧ Leaves d.ui.uiforwardNodeid env.send then
        [⟨dest d.ui.uiforwardNodeid d.efd,f⟩]
      else [] :=
  command_out d.fresh env d.ui.cmd

theorem uimsg_out (d : Dev) (env : ℕ → Handover) :
    ∃ f, (d.call (.uimsg env)).ui.out =
      if d.msgui.head? = some (.otareply d.ui.otaReplyCmd) ∧ Leaves d.ui.uiforwardNodeid env then
        [⟨dest d.ui.uiforwardNodeid d.efd,f⟩]
      else [] := by
  rw [Dev.call,Dev.uimsgProc]
  have hq : d.fresh.msgui = d.msgui := rfl
  rw [hq]
  cases d.msgui with
  | nil => exact ⟨[],by simp [Dev.fresh]⟩
  | cons m ms =>
    cases m with
    | otareply cmd =>
      obtain ⟨f,hf⟩ := ethSend_short_out d.fresh.ui env d.efd .otaReply d.ui.otaReplyLen
      refine ⟨f,?_⟩
      by_cases hcmd : cmd = d.ui.otaReplyCmd
      · subst hcmd
        simp only [List.head?_cons,true_and,Dev.uimsg]
        rw [if_pos (by rfl)]
        exact hf
      · simp [Dev.uimsg,Dev.fresh,hcmd]
    | cfg | svd | otastart | otadata => exact ⟨[],by simp [Dev.uimsg,Dev.fresh]⟩

theorem tnInfo_out (d : Dev) (tn : TnId) (f : Frame) : (d.call (.tnInfo tn f)).ui.out = [] := by
  rw [Dev.call,Dev.sysresSrvTnInfo]
  split <;> rfl

/-- Whose request the frames answer that a call sends: its own sender's, at a tick that of
the command, in the reader that of the message. -/
def answers (s : Tracked) : Event → Origin
  | .eth _ _ => .host
  | .uiData tn _ _ => .tn tn
  | .uimsg _ => (s.notes.head?.map Note.asker).getD s.asker
  | _ => s.asker

/-- What a call sends goes to the origin of the request it answers. -/
def OwnOrigin (_ : List Event) (s : Tracked) (e : Event) : Prop :=
  ∀ x ∈ (s.next e).dev.ui.out, x.dest = (answers s e).dest

/-- When the reply to an upgrade command gets out of the device, the forward byte holds the
id of the origin of the command. -/
def Addressed (_ : List Event) (s : Tracked) (e : Event) : Prop :=
  let ui := s.dev.ui
  let fwd := ui.uiforwardNodeid
  match e with
  | .tick env => IsOta ui.cmd → fwd ≠ 0 → Leaves fwd env.send → fwd = (answers s e).id
  | .uimsg env =>
    s.dev.msgui.head? = some (.otareply ui.otaReplyCmd) → Leaves fwd env → fwd = (answers s e).id
  | _ => True

theorem forall_mem_ite {α : Type*} {p : α → Prop} {c : Prop} [Decidable c] {a : α} :
    (∀ x ∈ if c then [a] else [], p x) ↔ (c → p a) := by
  by_cases h : c <;> simp [h]

theorem ownOrigin_iff {es : List Event} {s : Tracked} {e : Event} :
    OwnOrigin es s e ↔ Addressed es s e := by
  have hquiet : (s.dev.call e).ui.out = [] → OwnOrigin es s e := by
    intro h x hx
    rw [Tracked.next,h] at hx
    cases hx
  cases e with
  | eth f env => exact iff_of_true (eth_dest s.dev env f) trivial
  | uiData tn f env => exact iff_of_true (uiData_dest s.dev tn f env) trivial
  | tick env =>
    obtain ⟨f,hf⟩ := tick_out s.dev env
    rw [OwnOrigin,Tracked.next,hf,forall_mem_ite,dest_eq_iff,and_imp,and_imp]
    rfl
  | uimsg env =>
    obtain ⟨f,hf⟩ := uimsg_out s.dev env
    rw [OwnOrigin,Tracked.next,hf,forall_mem_ite,dest_eq_iff,and_imp]
    rfl
  | tnInfo tn f => exact iff_of_true (hquiet (tnInfo_out s.dev tn f)) trivial
  | otaStart f => exact iff_of_true (hquiet (s.dev.fresh.unsent_sysresSrvOtaStart (some f)).out) trivial
  | otaData f => exact iff_of_true (hquiet (s.dev.fresh.unsent_sysresSrvOtaData (some f)).out) trivial
  | otaEnd => exact iff_of_true (hquiet s.dev.fresh.unsent_sysresSrvOtaEnd.out) trivial
  | debugSet f => exact iff_of_true (hquiet (s.dev.fresh.unsent_sysresSrvDebugSet (some f)).out) trivial
  | deviceSet f => exact iff_of_true (hquiet (s.dev.fresh.unsent_sysresSrvDeviceSet (some f)).out) trivial
  | collect dat => exact iff_of_true (hquiet rfl) trivial

/-- An upgrade for no node. -/
def startFrame : Frame := .ofTail [0x34,0x12,10,0,0x26,0,0,0,0,0,38,0,0,0]

def allTaken : ℕ → Handover := fun _ => .taken

/-- The request is kept for the tick. -/
def asked : Tracked := (idle 0).next (.eth startFrame allTaken)

def aTick : Event := .tick ⟨allTaken,fun _ => 0⟩

/-- An alarm of TN 7. -/
def alarm : Event := .tnInfo ⟨7,by decide⟩ ⟨ofList [7,1,0],3⟩

theorem run_asked {G : List Event → Tracked → Event → Prop} (h : G [] (idle 0) (.eth startFrame allTaken)) :
    Run step G (idle 0) [.eth startFrame allTaken] asked := .cons .nil h rfl

end Origins
end Autbus
