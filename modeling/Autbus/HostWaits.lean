import Autbus.Origins

/-! A host that waits. While an upgrade command or its reply is on its way, no request comes
in and no alarm; then every reply goes to its origin. -/
namespace Autbus
namespace HostWaits

open Bytes HostUi HostTasks HostParse Origins Trace
open HostFrames hiding step

/-- An upgrade command or its reply is on its way. -/
def Underway (s : Tracked) : Prop := IsOta s.dev.ui.cmd ∨ ∃ m ∈ s.dev.msgui, m.isReply = true

/-- Frames and alarms come only when nothing is on its way. -/
def Waits (_ : List Event) (s : Tracked) : Event → Prop
  | .eth _ _ => ¬Underway s
  | .uiData _ _ _ => ¬Underway s
  | .tnInfo _ _ => ¬Underway s
  | _ => True

/-- The forward byte names the origin of the command; replies in the queue are for the local
host. -/
structure Due (s : Tracked) : Prop where
  cmd : IsOta s.dev.ui.cmd → s.dev.ui.uiforwardNodeid = s.asker.id ∧ ∀ m ∈ s.dev.msgui, m.isReply = false
  reply : ∀ x ∈ s.dev.msgui.zip s.notes, x.1.isReply = true →
    s.dev.ui.uiforwardNodeid = 0 ∧ x.2.asker = .host

theorem due_of_not_underway {s : Tracked} (h : ¬Underway s) : Due s where
  cmd hota := absurd (Or.inl hota) h
  reply x hx hrep := absurd (Or.inr ⟨x.1,(List.of_mem_zip hx).1,hrep⟩) h

theorem due_addressed {es : List Event} {s : Tracked} {e : Event} (hs : Due s) : Addressed es s e := by
  cases e with
  | tick env => exact fun hota _ _ => (hs.cmd hota).1
  | uimsg env =>
    intro hhead _
    obtain ⟨ms,hms⟩ := List.head?_eq_some_iff.mp hhead
    have hsync := s.sync
    rw [hms,List.length_cons] at hsync
    obtain ⟨n,ns,hns⟩ := List.exists_cons_of_length_eq_add_one hsync
    have hrep := hs.reply
    rw [hms,hns] at hrep
    obtain ⟨hfwd,hasker⟩ := hrep _ List.mem_cons_self rfl
    have hans : answers s (.uimsg env) = n.asker := by
      rw [answers,hns]
      rfl
    rw [hans,hasker]
    exact hfwd
  | eth | uiData | tnInfo | otaStart | otaData | otaEnd | debugSet | deviceSet | collect => trivial

/-! ### One call -/

theorem ethSend_fwd (u : Ui) (env : ℕ → Handover) (efd : ℤ) (b : Buf) (n : ℕ) :
    (u.ethSend env efd b n).uiforwardNodeid = u.uiforwardNodeid ∨
      (u.ethSend env efd b n).uiforwardNodeid = 0 := by
  unfold Ui.ethSend
  simp only
  split
  · exact Or.inl rfl
  · split
    · exact Or.inr rfl
    · exact Or.inl rfl

theorem ethSend_cmd (u : Ui) (env : ℕ → Handover) (efd : ℤ) (b : Buf) (n : ℕ) :
    (u.ethSend env efd b n).cmd = u.cmd := by
  unfold Ui.ethSend
  simp only
  split <;> rfl

/-- A request that becomes an upgrade command is not answered yet. -/
theorem atbUiParse_ota {u : Ui} {env : ℕ → Handover} {efd : ℤ} {len : ℕ} (hu : ¬IsOta u.cmd)
    (h : IsOta (u.atbUiParse env efd len).cmd) :
    u.cmd = .none ∧ (u.atbUiParse env efd len).uiforwardNodeid = u.uiforwardNodeid := by
  rcases atbUiParse_cases u env efd len with ⟨w,n,hw,hcmd,hv⟩ | hprep
  · rw [hv.cmd,ethSend_cmd] at h
    rcases hcmd with hcmd | hcmd
    · exact absurd (hcmd ▸ h) hu
    · exact absurd h hcmd
  · rcases hprep.cmd with hcmd | hcmd
    · exact absurd (hcmd ▸ h) hu
    · exact ⟨hcmd,hprep.fwd⟩

theorem hostRequest_ota {d : Dev} {env : ℕ → Handover} {efd : ℤ} {f : Frame} (hd : ¬IsOta d.ui.cmd)
    (h : IsOta (d.hostRequest env efd f).ui.cmd) :
    d.ui.cmd = .none ∧ (d.hostRequest env efd f).ui.uiforwardNodeid = d.ui.uiforwardNodeid := by
  unfold Dev.hostRequest at h ⊢
  simp only at h ⊢
  split at h
  · next hok =>
    rw [if_pos hok]
    exact @atbUiParse_ota { d.ui with mem := Function.update d.ui.mem .rbuf (ethRecv d.rx (shift f.mem 12)).rx.rbuf }
      env efd _ hd h
  · exact absurd h hd

theorem eth_ota {d : Dev} {env : ℕ → Handover} {f : Frame} (hd : ¬IsOta d.ui.cmd)
    (h : IsOta (d.call (.eth f env)).ui.cmd) :
    d.ui.cmd = .none ∧ (d.call (.eth f env)).ui.uiforwardNodeid = 0 := by
  rw [Dev.call,Dev.atbUiProcess] at h ⊢
  split at h
  · next hus =>
    rw [if_pos hus]
    exact @hostRequest_ota { d.fresh with
      ui := { d.fresh.ui with dstmac := read f.mem 6 6, uiforwardNodeid := 0 } } env d.efd f hd h
  · exact absurd h hd

theorem uiData_ota {d : Dev} {tn : TnId} {env : ℕ → Handover} {f : Frame} (hd : ¬IsOta d.ui.cmd)
    (h : IsOta (d.call (.uiData tn f env)).ui.cmd) :
    d.ui.cmd = .none ∧ (d.call (.uiData tn f env)).ui.uiforwardNodeid = tn := by
  rw [Dev.call,Dev.sysresSrvUiData] at h ⊢
  split at h
  · exact absurd h hd
  next hlen =>
  rw [if_neg hlen]
  rw [Dev.atbUiRpcRecv] at h ⊢
  split at h
  · next hus =>
    rw [if_pos hus]
    exact @hostRequest_ota { d.fresh with
      ui := { d.fresh.ui with dstmac := read f.mem 6 6, uiforwardNodeid := tn } } env (-1) f hd h
  · exact absurd h hd

/-- A request comes while nothing is on its way: it may begin an upgrade command. -/
theorem due_request {s : Tracked} {e : Event} {o : Origin} (hs : ¬Underway s) (ho : e.origin = some o)
    (hq : (s.dev.call e).msgui = s.dev.msgui)
    (h : IsOta (s.dev.call e).ui.cmd → s.dev.ui.cmd = .none ∧ (s.dev.call e).ui.uiforwardNodeid = o.id) :
    Due (s.next e) := by
  have hno : ∀ m ∈ s.dev.msgui, m.isReply = false := by
    intro m hm
    rw [← Bool.not_eq_true]
    exact fun hrep => hs (Or.inr ⟨m,hm,hrep⟩)
  constructor
  · intro hota
    obtain ⟨hnone,hfwd⟩ := h hota
    have hasker : (s.next e).asker = o := by
      have hsome : (s.dev.call e).ui.cmd ≠ .none := by
        intro hc
        have hota' : IsOta (s.dev.call e).ui.cmd := hota
        rw [hc] at hota'
        exact absurd hota' (by decide)
      show s.askerAfter e = o
      rw [Tracked.askerAfter,if_pos ⟨hnone,hsome⟩,ho,Option.getD_some]
    rw [Tracked.next_dev,hasker,hq]
    exact ⟨hfwd,hno⟩
  · intro x hx hrep
    have hmem := (List.of_mem_zip hx).1
    rw [Tracked.next_dev,hq] at hmem
    rw [hno _ hmem] at hrep
    cases hrep

/-- A message in the queue afterwards was there before, with its note, or is a new one. -/
theorem mem_zip_next {s : Tracked} {e : Event} {ms : List UiMsg} (he : ∀ env, e ≠ .uimsg env)
    (hms : (s.dev.call e).msgui = s.dev.msgui ++ ms) {x : UiMsg × Note}
    (hx : x ∈ (s.next e).dev.msgui.zip (s.next e).notes) :
    x ∈ s.dev.msgui.zip s.notes ∨ x.1 ∈ ms ∧ x.2 = s.note e := by
  have hnotes : s.notesAfter e =
      s.notes ++ List.replicate ((s.dev.call e).msgui.length-s.dev.msgui.length) (s.note e) := by
    cases e with
    | uimsg env => exact absurd rfl (he env)
    | eth | uiData | tnInfo | tick | otaStart | otaData | otaEnd | debugSet | deviceSet | collect => rfl
  rw [Tracked.next_dev,Tracked.next_notes,hms,hnotes,List.zip_append s.sync.symm] at hx
  rcases List.mem_append.mp hx with hold | hnew
  · exact Or.inl hold
  · obtain ⟨hmsg,hnote⟩ := List.of_mem_zip hnew
    exact Or.inr ⟨hmsg,List.eq_of_mem_replicate hnote⟩

/-- Who asked is only taken down anew when a command is kept. -/
theorem asker_same {s : Tracked} {e : Event} (h : (s.dev.call e).ui.cmd = s.dev.ui.cmd) :
    (s.next e).asker = s.asker := by
  show s.askerAfter e = s.asker
  rw [Tracked.askerAfter,h,if_neg fun h => h.2 h.1]

/-- The calls that put no reply and keep no new command leave everything due. -/
theorem due_puts {s : Tracked} {e : Event} (hs : Due s) (he : ∀ env, e ≠ .uimsg env)
    (hputs : Dev.Puts s.dev (s.dev.call e))
    (hfwd : (s.dev.call e).ui.uiforwardNodeid = s.dev.ui.uiforwardNodeid)
    (hcmd : (s.dev.call e).ui.cmd = s.dev.ui.cmd ∨ (s.dev.call e).ui.cmd = .none) : Due (s.next e) := by
  obtain ⟨ms,hms,hno⟩ := hputs
  constructor
  · intro hota
    rw [Tracked.next_dev] at hota ⊢
    have hsame : (s.dev.call e).ui.cmd = s.dev.ui.cmd := by
      rcases hcmd with hcmd | hcmd
      · exact hcmd
      · rw [hcmd] at hota
        exact absurd hota (by decide)
    rw [hsame] at hota
    obtain ⟨hid,hold⟩ := hs.cmd hota
    rw [hfwd,asker_same hsame,hms]
    refine ⟨hid,?_⟩
    intro m hm
    rcases List.mem_append.mp hm with hm | hm
    · exact hold m hm
    · exact hno m hm
  · intro x hx hrep
    rw [Tracked.next_dev,hfwd]
    rcases mem_zip_next he hms hx with hold | ⟨hnew,-⟩
    · exact hs.reply x hold hrep
    · rw [hno _ hnew] at hrep
      cases hrep

theorem due_unsent {s : Tracked} {e : Event} (hs : Due s) (he : ∀ env, e ≠ .uimsg env)
    (h : Dev.Unsent s.dev.fresh (s.dev.call e)) : Due (s.next e) :=
  due_puts hs he h.puts h.fwd (Or.inl h.cmd)

/-- An upgrade command that came from the host leaves a reply in the queue, one that came
from a TN does not. -/
theorem due_tick_ota {s : Tracked} (hs : Due s) (env : Dev.Env) (hota : IsOta s.dev.ui.cmd) :
    Due (s.next (.tick env)) := by
  obtain ⟨hid,hold⟩ := hs.cmd hota
  obtain ⟨⟨ms,hms,hno⟩,-,hfwd,-,-⟩ := s.dev.fresh.unsent_otaService s.dev.ui.cmd
  have hcall : (s.dev.call (.tick env)).msgui =
      ((s.dev.fresh.otaService s.dev.ui.cmd).otaAnswer env.send s.dev.ui.cmd).msgui := by
    rw [← Dev.command_ota hota]
    rfl
  have hafter : (s.dev.call (.tick env)).ui.uiforwardNodeid =
      ((s.dev.fresh.otaService s.dev.ui.cmd).otaAnswer env.send s.dev.ui.cmd).ui.uiforwardNodeid := by
    rw [← Dev.command_ota hota]
    rfl
  have hne : ∀ env', Event.tick env ≠ .uimsg env' := fun _ h => by cases h
  rw [Dev.otaAnswer] at hcall hafter
  constructor
  · intro h
    exact absurd (show IsOta .none from h) (by decide)
  · intro x hx hrep
    have hearlier : x ∉ s.dev.msgui.zip s.notes := by
      intro hmem
      rw [hold _ (List.of_mem_zip hmem).1] at hrep
      cases hrep
    split at hcall
    · rcases mem_zip_next hne (hcall.trans hms) hx with hmem | ⟨hnew,-⟩
      · exact absurd hmem hearlier
      · rw [hno _ hnew] at hrep
        cases hrep
    · next hzero =>
      rw [if_neg hzero] at hafter
      have hhost : s.dev.ui.uiforwardNodeid = 0 := by
        rw [hfwd] at hzero
        exact not_not.mp hzero
      have hqueue : (s.dev.call (.tick env)).msgui = s.dev.msgui ++ (ms ++ [.otareply s.dev.ui.cmd]) := by
        rw [hcall,← List.append_assoc,← show s.dev.fresh.msgui = s.dev.msgui from rfl,← hms]
        rfl
      rcases mem_zip_next hne hqueue hx with hmem | ⟨-,hnote⟩
      · exact absurd hmem hearlier
      · rw [hnote,Tracked.next_dev]
        refine ⟨(hafter.trans hfwd).trans hhost,?_⟩
        show s.asker = .host
        rw [hhost] at hid
        cases hasker : s.asker with
        | host => rfl
        | tn n =>
          rw [hasker] at hid
          exact absurd hid.symm n.2

theorem due_tick {s : Tracked} (hs : Due s) (env : Dev.Env) : Due (s.next (.tick env)) := by
  by_cases hota : IsOta s.dev.ui.cmd
  · exact due_tick_ota hs env hota
  · have h : Dev.Unsent s.dev.fresh (s.dev.fresh.command env s.dev.ui.cmd) := Dev.command_other hota s.dev.fresh env
    obtain ⟨ms,hms,hno⟩ := h.puts
    exact due_puts hs (fun _ h => by cases h) ⟨ms,hms,hno⟩ h.fwd (Or.inr rfl)

/-- Sending a reply may take the forward byte back to the host. -/
theorem uimsg_fwd (d : Dev) (env : ℕ → Handover) (m : UiMsg) :
    (d.uimsg env m).ui.uiforwardNodeid = d.ui.uiforwardNodeid ∨
      m.isReply = true ∧ (d.uimsg env m).ui.uiforwardNodeid = 0 := by
  cases m with
  | otareply cmd =>
    simp only [Dev.uimsg]
    split
    · exact (ethSend_fwd _ _ _ _ _).imp_right fun h => ⟨rfl,h⟩
    · exact Or.inl rfl
  | cfg | svd | otastart | otadata => exact Or.inl rfl

theorem uimsgProc_fwd (d : Dev) (env : ℕ → Handover) :
    (d.uimsgProc env).ui.uiforwardNodeid = d.ui.uiforwardNodeid ∨
      (∃ m ∈ d.msgui, m.isReply = true) ∧ (d.uimsgProc env).ui.uiforwardNodeid = 0 := by
  unfold Dev.uimsgProc
  split
  · exact Or.inl rfl
  · next m ms hq =>
    rw [hq]
    exact (uimsg_fwd { d with msgui := ms } env m).imp_right fun h => ⟨⟨m,List.mem_cons_self,h.1⟩,h.2⟩

theorem uimsg_cmd (d : Dev) (env : ℕ → Handover) (m : UiMsg) : (d.uimsg env m).ui.cmd = d.ui.cmd := by
  cases m with
  | otareply cmd =>
    simp only [Dev.uimsg]
    split
    · exact ethSend_cmd _ _ _ _ _
    · rfl
  | cfg | svd | otastart | otadata => rfl

theorem uimsgProc_cmd (d : Dev) (env : ℕ → Handover) : (d.uimsgProc env).ui.cmd = d.ui.cmd := by
  unfold Dev.uimsgProc
  split
  · rfl
  · exact uimsg_cmd _ env _

/-- With a command on its way the reader has no reply to send, so the forward byte stays. -/
theorem due_uimsg {s : Tracked} (hs : Due s) (env : ℕ → Handover) : Due (s.next (.uimsg env)) := by
  have hqueue : (s.dev.call (.uimsg env)).msgui = s.dev.msgui.tail := s.dev.fresh.uimsgProc_msgui env
  have hcmd : (s.dev.call (.uimsg env)).ui.cmd = s.dev.ui.cmd := uimsgProc_cmd s.dev.fresh env
  have hfwd := uimsgProc_fwd s.dev.fresh env
  constructor
  · intro hota
    rw [Tracked.next_dev,hcmd] at hota
    obtain ⟨hid,hold⟩ := hs.cmd hota
    rw [Tracked.next_dev,hqueue,asker_same hcmd]
    refine ⟨?_,fun m hm => hold m (List.mem_of_mem_tail hm)⟩
    rcases hfwd with hsame | ⟨⟨m,hm,hrep⟩,-⟩
    · exact hsame.trans hid
    · rw [hold m hm] at hrep
      cases hrep
  · intro x hx hrep
    rw [Tracked.next_dev,Tracked.next_notes,hqueue,Tracked.notesAfter,← List.tail_zip] at hx
    obtain ⟨hzero,hhost⟩ := hs.reply x (List.mem_of_mem_tail hx) hrep
    refine ⟨?_,hhost⟩
    rcases hfwd with hsame | ⟨-,hback⟩
    · exact hsame.trans hzero
    · exact hback

theorem due_tnInfo {s : Tracked} (hs : ¬Underway s) (tn : TnId) (f : Frame) : Due (s.next (.tnInfo tn f)) := by
  have hqueue : (s.dev.call (.tnInfo tn f)).msgui = s.dev.msgui := Dev.sysresSrvTnInfo_msgui s.dev.fresh tn f
  have hcmd : (s.dev.call (.tnInfo tn f)).ui.cmd = s.dev.ui.cmd := by
    rw [Dev.call,Dev.sysresSrvTnInfo]
    split <;> rfl
  refine due_of_not_underway ?_
  rw [Underway,Tracked.next_dev,hqueue,hcmd]
  exact hs

/-- What is due stays due as long as requests and alarms wait. -/
theorem due_step {es : List Event} {s : Tracked} {e : Event} (hs : Due s) (hw : Waits es s e) :
    Due (s.next e) := by
  cases e with
  | eth f env => exact due_request hw rfl (Dev.atbUiProcess_msgui s.dev.fresh env f) (eth_ota fun h => hw (Or.inl h))
  | uiData tn f env =>
    exact due_request hw rfl (Dev.sysresSrvUiData_msgui s.dev.fresh tn env f) (uiData_ota fun h => hw (Or.inl h))
  | tnInfo tn f => exact due_tnInfo hw tn f
  | tick env => exact due_tick hs env
  | otaStart f => exact due_unsent hs (fun _ h => by cases h) (s.dev.fresh.unsent_sysresSrvOtaStart (some f))
  | otaData f => exact due_unsent hs (fun _ h => by cases h) (s.dev.fresh.unsent_sysresSrvOtaData (some f))
  | otaEnd => exact due_unsent hs (fun _ h => by cases h) s.dev.fresh.unsent_sysresSrvOtaEnd
  | debugSet f => exact due_unsent hs (fun _ h => by cases h) (s.dev.fresh.unsent_sysresSrvDebugSet (some f))
  | deviceSet f => exact due_unsent hs (fun _ h => by cases h) (s.dev.fresh.unsent_sysresSrvDeviceSet (some f))
  | collect dat => exact due_unsent hs (fun _ h => by cases h) ⟨.of_eq rfl,rfl,rfl,rfl,rfl⟩
  | uimsg env => exact due_uimsg hs env

theorem run_due {s₀ s : Tracked} {es : List Event} (h : Run step Waits s₀ es s) (h₀ : ¬Underway s₀) : Due s := by
  refine h.invariant (I := fun _ s => Due s) (due_of_not_underway h₀) ?_
  intro es s e t _ hs hw ht
  rw [← Option.some.inj ht]
  exact due_step hs hw

/-- If no request and no alarm comes while an upgrade command or its reply is on its way,
every reply goes to the origin of the request it answers. -/
theorem run_waits {s₀ s : Tracked} {es : List Event} (h : Run step Waits s₀ es s) (h₀ : ¬Underway s₀) :
    Run step OwnOrigin s₀ es s :=
  h.and_of_forall fun _ _ _ _ hr _ _ => ownOrigin_iff.mpr (due_addressed (run_due hr h₀))

end HostWaits
end Autbus
