import Autbus.HostTasks

/-! Who takes part in an upgrade. A start message lists the MACs it is for; the flag it sets
is cleared by a wrong block number only, not by a later start that leaves the device out. -/
namespace Autbus
namespace Targets

open Bytes HostUi HostTasks HostParse Trace
open HostFrames hiding step

/-- The MAC list of the start message that a call processes. -/
def startList (d : Dev) : Event → Option Mem
  | .otaStart f => some (if 0 < f.length then f.mem else d.ui.mem .uiDat)
  | .tick _ => if d.ui.cmd = .otaStart then some (d.ui.mem .uiDat) else none
  | _ => none

/-- The device, and whether the most recent start message was for it, which the source does
not keep. -/
structure Targeted where
  dev : Dev
  named : Bool

def Targeted.next (s : Targeted) (e : Event) : Targeted where
  dev := s.dev.call e
  named := match startList s.dev e with
    | some ptr => Dev.named s.dev.mac ptr
    | none => s.named

def step (s : Targeted) (e : Event) : Option Targeted := some (s.next e)

/-- A data block is accepted: `otadata` is put into the queue. -/
def Accepts (d : Dev) (e : Event) : Prop := ∃ ms, (d.call e).msgui = d.msgui ++ ms ∧ .otadata ∈ ms

/-- The reboot is armed, whatever the counter was before. -/
def Arms (d : Dev) (e : Event) : Prop := ∀ v, ({ d with rebootDelay := v }.call e).rebootDelay = 15

/-- Blocks are accepted, and the reboot is armed, only for who the last start was for. -/
def OnlyNamed (s : Targeted) (e : Event) : Prop := Accepts s.dev e ∨ Arms s.dev e → s.named = true

/-- So it is in a call, and would be if an end message came right after it. -/
def Rightful (_ : List Event) (s : Targeted) (e : Event) : Prop :=
  OnlyNamed s e ∧ OnlyNamed (s.next e) .otaEnd

/-- A start that comes while the flag is set is for the device. -/
def Renewed (_ : List Event) (s : Targeted) (e : Event) : Prop :=
  ∀ ptr, startList s.dev e = some ptr → s.dev.ui.otaFlag ≠ 0 → Dev.named s.dev.mac ptr = true

/-! ### Without the flag -/

/-- No block is accepted and the reboot is not armed. -/
structure Idle (d d' : Dev) : Prop where
  puts : ∃ ms, d'.msgui = d.msgui ++ ms ∧ .otadata ∉ ms
  reboot : d'.rebootDelay = d.rebootDelay

theorem Idle.of_eq {d d' : Dev} (h : d'.msgui = d.msgui) (hr : d'.rebootDelay = d.rebootDelay) : Idle d d' :=
  ⟨⟨[],by rw [h,List.append_nil],List.not_mem_nil⟩,hr⟩

theorem Idle.one {d d' : Dev} (m : UiMsg) (h : d'.msgui = d.msgui ++ [m]) (hm : m ≠ .otadata)
    (hr : d'.rebootDelay = d.rebootDelay) : Idle d d' :=
  ⟨⟨[m],h,by simpa using hm.symm⟩,hr⟩

theorem Idle.trans {d d' d'' : Dev} (h : Idle d d') (h' : Idle d' d'') : Idle d d'' := by
  obtain ⟨⟨ms,hms,hno⟩,hr⟩ := h
  obtain ⟨⟨ms',hms',hno'⟩,hr'⟩ := h'
  refine ⟨⟨ms ++ ms',by rw [hms',hms,List.append_assoc],?_⟩,hr'.trans hr⟩
  intro hmem
  exact (List.mem_append.mp hmem).elim hno hno'

theorem idle_deviceSet (d : Dev) : Idle d d.deviceSet := by
  unfold Dev.deviceSet
  simp only
  split
  · split
    · exact .one .svd rfl (by decide) rfl
    · exact .of_eq rfl rfl
  · exact .one .svd rfl (by decide) rfl

theorem idle_otaAnswer (d : Dev) (env : ℕ → Handover) (cmd : UiCmd) : Idle d (d.otaAnswer env cmd) := by
  unfold Dev.otaAnswer
  split
  · exact .of_eq rfl rfl
  · exact .one (.otareply cmd) rfl (by simp) rfl

theorem idle_command {d : Dev} (h : d.ui.otaFlag = 0) (env : Dev.Env) (cmd : UiCmd) :
    Idle d (d.command env cmd) := by
  cases cmd with
  | none | updateTxgain | setDyn => exact .of_eq rfl rfl
  | getAtbSig | getDebugData | getBpsData | getDeviceData =>
    simp only [Dev.command]
    split <;> exact .of_eq rfl rfl
  | setDebugData =>
    simp only [Dev.command]
    split
    · exact .one .cfg rfl (by decide) rfl
    · exact .of_eq rfl rfl
  | setDeviceData =>
    simp only [Dev.command]
    split
    · obtain ⟨hputs,hreboot⟩ := idle_deviceSet { d with ui := d.ui.copy .devSet 0 .devSet 4 devSetSize }
      exact ⟨hputs,hreboot⟩
    · exact .of_eq rfl rfl
  | otaStart =>
    have hstart : Idle d (d.sysresSrvOtaStart none) := .one .otastart rfl (by decide) rfl
    exact hstart.trans (idle_otaAnswer _ _ _)
  | otaData =>
    have hdata : d.sysresSrvOtaData none = d := if_pos h
    rw [Dev.command,hdata]
    exact idle_otaAnswer d _ _
  | otaEnd =>
    have hend : d.sysresSrvOtaEnd = d := if_pos h
    rw [Dev.command,hend]
    exact idle_otaAnswer d _ _

theorem hostRequest_rebootDelay (d : Dev) (env : ℕ → Handover) (efd : ℤ) (f : Frame) :
    (d.hostRequest env efd f).rebootDelay = d.rebootDelay := by
  unfold Dev.hostRequest
  simp only
  split <;> rfl

/-- No call but the reader's, which only takes messages, changes this. -/
theorem idle_call {d : Dev} (h : d.ui.otaFlag = 0) {e : Event} (he : ∀ env, e ≠ .uimsg env) :
    Idle d (d.call e) := by
  cases e with
  | eth f env =>
    refine .of_eq (Dev.atbUiProcess_msgui d.fresh env f) ?_
    rw [Dev.call,Dev.atbUiProcess]
    split
    · exact hostRequest_rebootDelay _ _ _ _
    · rfl
  | uiData tn f env =>
    refine .of_eq (Dev.sysresSrvUiData_msgui d.fresh tn env f) ?_
    rw [Dev.call,Dev.sysresSrvUiData]
    split
    · rfl
    rw [Dev.atbUiRpcRecv]
    split
    · exact hostRequest_rebootDelay _ _ _ _
    · rfl
  | tnInfo tn f =>
    refine .of_eq (Dev.sysresSrvTnInfo_msgui d.fresh tn f) ?_
    rw [Dev.call,Dev.sysresSrvTnInfo]
    split <;> rfl
  | tick env =>
    obtain ⟨hputs,hreboot⟩ := @idle_command d.fresh h env d.ui.cmd
    exact ⟨hputs,hreboot⟩
  | otaStart f => exact .one .otastart rfl (by decide) rfl
  | otaData f =>
    have hdata : d.call (.otaData f) = d.fresh := if_pos h
    rw [hdata]
    exact .of_eq rfl rfl
  | otaEnd =>
    have hend : d.call .otaEnd = d.fresh := if_pos h
    rw [hend]
    exact .of_eq rfl rfl
  | debugSet f =>
    rw [Dev.call,Dev.sysresSrvDebugSet]
    split <;> exact .one .cfg rfl (by decide) rfl
  | deviceSet f =>
    obtain ⟨hputs,hreboot⟩ := idle_deviceSet
      (d.fresh.collectDev (Bytes.copy (d.fresh.ui.mem .devSet) 0 f.mem 4 devSetSize))
    exact ⟨hputs,hreboot⟩
  | collect dat => exact .of_eq rfl rfl
  | uimsg env => exact absurd rfl (he env)

theorem uimsg_rebootDelay (d : Dev) (env : ℕ → Handover) (m : UiMsg) :
    (d.uimsg env m).rebootDelay = d.rebootDelay := by
  cases m with
  | otareply cmd =>
    simp only [Dev.uimsg]
    split <;> rfl
  | cfg | svd | otastart | otadata => rfl

theorem uimsgProc_rebootDelay (d : Dev) (env : ℕ → Handover) :
    (d.uimsgProc env).rebootDelay = d.rebootDelay := by
  unfold Dev.uimsgProc
  split
  · rfl
  · exact uimsg_rebootDelay _ _ _

theorem not_accepts {d : Dev} (h : d.ui.otaFlag = 0) (e : Event) : ¬Accepts d e := by
  rintro ⟨ms,hms,hmem⟩
  by_cases he : ∀ env, e ≠ .uimsg env
  · obtain ⟨ms',hms',hno⟩ := (idle_call h he).puts
    rw [hms',List.append_cancel_left_eq] at hms
    exact hno (hms ▸ hmem)
  · obtain ⟨env,rfl⟩ := by simpa using he
    have htail : (d.call (.uimsg env)).msgui = d.msgui.tail := d.fresh.uimsgProc_msgui env
    have hlen := congrArg List.length (htail.symm.trans hms)
    have hpos := List.length_pos_of_mem hmem
    rw [List.length_tail,List.length_append] at hlen
    omega

theorem not_arms {d : Dev} (h : d.ui.otaFlag = 0) (e : Event) : ¬Arms d e := by
  intro harms
  have hkept : ({ d with rebootDelay := 0 }.call e).rebootDelay = 0 := by
    by_cases he : ∀ env, e ≠ .uimsg env
    · exact (@idle_call { d with rebootDelay := 0 } h e he).reboot
    · obtain ⟨env,rfl⟩ := by simpa using he
      exact uimsgProc_rebootDelay _ env
  rw [harms 0] at hkept
  exact absurd hkept (by decide)

/-! ### The flag -/

theorem hostRequest_otaFlag (d : Dev) (env : ℕ → Handover) (efd : ℤ) (f : Frame) :
    (d.hostRequest env efd f).ui.otaFlag = d.ui.otaFlag := by
  unfold Dev.hostRequest
  simp only
  split
  · exact atbUiParse_otaFlag _ _ _ _
  · rfl

theorem otaData_otaFlag (d : Dev) (ptr : Mem) :
    (d.otaData ptr).ui.otaFlag = d.ui.otaFlag ∨ (d.otaData ptr).ui.otaFlag = 0 := by
  unfold Dev.otaData
  simp only
  split
  · exact Or.inr rfl
  · exact Or.inl rfl

theorem sysresSrvOtaData_otaFlag (d : Dev) (req : Option Frame) :
    (d.sysresSrvOtaData req).ui.otaFlag = d.ui.otaFlag ∨ (d.sysresSrvOtaData req).ui.otaFlag = 0 := by
  unfold Dev.sysresSrvOtaData
  split
  · exact Or.inl rfl
  cases req with
  | none => exact otaData_otaFlag d _
  | some f =>
    dsimp only
    split
    · exact otaData_otaFlag _ _
    · exact otaData_otaFlag d _

theorem deviceSet_otaFlag (d : Dev) : d.deviceSet.ui.otaFlag = d.ui.otaFlag := by
  unfold Dev.deviceSet
  simp only
  split
  · split <;> rfl
  · rfl

theorem otaAnswer_otaFlag (d : Dev) (env : ℕ → Handover) (cmd : UiCmd) :
    (d.otaAnswer env cmd).ui.otaFlag = d.ui.otaFlag := by
  unfold Dev.otaAnswer
  split
  · exact ethSend_otaFlag _ _ _ _ _
  · rfl

theorem command_otaFlag (d : Dev) (env : Dev.Env) {cmd : UiCmd} (h : cmd ≠ .otaStart) :
    (d.command env cmd).ui.otaFlag = d.ui.otaFlag ∨ (d.command env cmd).ui.otaFlag = 0 := by
  cases cmd with
  | otaStart => exact absurd rfl h
  | none | updateTxgain | setDyn => exact Or.inl rfl
  | getAtbSig | getDebugData | getBpsData | getDeviceData | setDebugData =>
    simp only [Dev.command]
    split <;> exact Or.inl rfl
  | setDeviceData =>
    simp only [Dev.command]
    split
    · exact Or.inl (deviceSet_otaFlag _)
    · exact Or.inl rfl
  | otaData =>
    rw [Dev.command,otaAnswer_otaFlag]
    exact sysresSrvOtaData_otaFlag d none
  | otaEnd =>
    rw [Dev.command,otaAnswer_otaFlag,Dev.sysresSrvOtaEnd]
    split <;> exact Or.inl rfl

theorem uimsgProc_otaFlag (d : Dev) (env : ℕ → Handover) : (d.uimsgProc env).ui.otaFlag = d.ui.otaFlag := by
  unfold Dev.uimsgProc
  split
  · rfl
  next m ms hm =>
  cases m with
  | otareply cmd =>
    simp only [Dev.uimsg]
    split
    · exact ethSend_otaFlag _ _ _ _ _
    · rfl
  | cfg | svd | otastart | otadata => rfl

/-- Only a start sets the flag, when it is for the device; it never clears it. -/
theorem start_otaFlag {d : Dev} {e : Event} {ptr : Mem} (h : startList d e = some ptr) :
    (d.call e).ui.otaFlag = if Dev.named d.mac ptr then 1 else d.ui.otaFlag := by
  cases e with
  | otaStart f =>
    obtain rfl := Option.some.inj h
    rfl
  | tick env =>
    rw [startList] at h
    split at h
    · next hcmd =>
      obtain rfl := Option.some.inj h
      show (d.fresh.command env d.ui.cmd).ui.otaFlag = _
      rw [hcmd,Dev.command,otaAnswer_otaFlag]
      rfl
    · cases h
  | eth | uiData | tnInfo | otaData | otaEnd | debugSet | deviceSet | collect | uimsg => cases h

theorem other_otaFlag {d : Dev} {e : Event} (h : startList d e = none) :
    (d.call e).ui.otaFlag = d.ui.otaFlag ∨ (d.call e).ui.otaFlag = 0 := by
  cases e with
  | otaStart f => cases h
  | tick env =>
    rw [startList] at h
    split at h
    · cases h
    · next hcmd => exact command_otaFlag d.fresh env hcmd
  | eth f env =>
    rw [Dev.call,Dev.atbUiProcess]
    split
    · exact Or.inl (hostRequest_otaFlag _ _ _ _)
    · exact Or.inl rfl
  | uiData tn f env =>
    rw [Dev.call,Dev.sysresSrvUiData]
    split
    · exact Or.inl rfl
    rw [Dev.atbUiRpcRecv]
    split
    · exact Or.inl (hostRequest_otaFlag _ _ _ _)
    · exact Or.inl rfl
  | tnInfo tn f =>
    rw [Dev.call,Dev.sysresSrvTnInfo]
    split <;> exact Or.inl rfl
  | otaData f => exact sysresSrvOtaData_otaFlag d.fresh (some f)
  | otaEnd =>
    rw [Dev.call,Dev.sysresSrvOtaEnd]
    split <;> exact Or.inl rfl
  | debugSet f =>
    rw [Dev.call,Dev.sysresSrvDebugSet]
    split <;> exact Or.inl rfl
  | deviceSet f => exact Or.inl (deviceSet_otaFlag _)
  | collect dat => exact Or.inl rfl
  | uimsg env => exact Or.inl (uimsgProc_otaFlag d.fresh env)

/-! ### Runs -/

/-- The flag is set only for who the last start was for. -/
def Honest (s : Targeted) : Prop := s.dev.ui.otaFlag ≠ 0 → s.named = true

theorem Honest.onlyNamed {s : Targeted} (h : Honest s) (e : Event) : OnlyNamed s e := by
  intro hact
  apply h
  intro hflag
  exact hact.elim (not_accepts hflag e) (not_arms hflag e)

theorem Honest.next {es : List Event} {s : Targeted} {e : Event} (h : Honest s) (hr : Renewed es s e) :
    Honest (s.next e) := by
  intro hflag
  have hflag' : (s.dev.call e).ui.otaFlag ≠ 0 := hflag
  cases hlist : startList s.dev e with
  | some ptr =>
    simp only [Targeted.next,hlist]
    rw [start_otaFlag hlist] at hflag'
    split at hflag'
    · assumption
    · exact hr ptr hlist hflag'
  | none =>
    simp only [Targeted.next,hlist]
    rcases other_otaFlag hlist with hsame | hzero
    · exact h (hsame ▸ hflag')
    · exact absurd hzero hflag'

/-- While the flag is set an end message arms the reboot. -/
theorem arms_otaEnd {d : Dev} (h : d.ui.otaFlag ≠ 0) : Arms d .otaEnd := by
  intro v
  have hend : { d with rebootDelay := v }.call .otaEnd =
      { ({ d with rebootDelay := v } : Dev).fresh with rebootDelay := 15 } := if_neg h
  rw [hend]

/-- A start that leaves the device out although the flag is set lets an end message through. -/
theorem renewed_of_rightful {es : List Event} {s : Targeted} {e : Event} (h : Rightful es s e) :
    Renewed es s e := by
  intro ptr hlist hflag
  by_contra hnot
  rw [Bool.not_eq_true] at hnot
  have hkept : (s.next e).dev.ui.otaFlag ≠ 0 := by
    show (s.dev.call e).ui.otaFlag ≠ 0
    rw [start_otaFlag hlist,hnot]
    exact hflag
  have hnamed := h.2 (Or.inr (arms_otaEnd hkept))
  simp only [Targeted.next,hlist,hnot] at hnamed
  cases hnamed

/-- In a run from a device that takes part in no upgrade, blocks are accepted and the reboot
is armed only for who the last start was for, and would be so at an end message after every
step, if and only if every start that comes while the flag is set is for the device. -/
theorem run_rightful_iff {s₀ s : Targeted} {es : List Event} (h₀ : s₀.dev.ui.otaFlag = 0) :
    Run step Rightful s₀ es s ↔ Run step Renewed s₀ es s := by
  refine ⟨fun hr => hr.mono fun _ _ _ => renewed_of_rightful,?_⟩
  intro hr
  have hhonest : ∀ {es s}, Run step Renewed s₀ es s → Honest s := by
    intro es s hr
    refine hr.invariant (I := fun _ s => Honest s) (fun hflag => absurd h₀ hflag) ?_
    intro es s e t _ hs hg ht
    rw [← Option.some.inj ht]
    exact hs.next hg
  refine hr.and_of_forall fun es s e t hrun hg _ => ?_
  exact ⟨(hhonest hrun).onlyNamed e,((hhonest hrun).next hg).onlyNamed .otaEnd⟩

/-- The idle device, which no start was for. -/
def waiting : Targeted := ⟨(idle 5).dev,false⟩

/-- An upgrade for the one device whose MAC ends in `b`. -/
def startFor (b : UInt8) : Event := .otaStart ⟨ofList [1,0,0,0,2,0,0,0,0,b],uiBufSize⟩

/-- The first block, all zeros. -/
def firstBlock : Event := .otaData ⟨ofList [1],uiBufSize⟩

/-- A start for the device, a block and the end. -/
theorem named_rightful :
    Run step Rightful waiting [.otaEnd,firstBlock,startFor 1]
      (((waiting.next (startFor 1)).next firstBlock).next .otaEnd) := by
  have h₀ : waiting.dev.ui.otaFlag = 0 := by decide
  refine (run_rightful_iff h₀).mpr (.cons (.cons (.cons .nil ?_ rfl) ?_ rfl) ?_ rfl)
  · intro ptr _ hflag
    exact absurd h₀ hflag
  · intro ptr hlist
    cases hlist
  · intro ptr hlist
    cases hlist

/-- A start for the device, then one for another device: the end still arms the reboot. -/
theorem unnamed_arms :
    ∃ s, Run step anyStep waiting [startFor 9,startFor 1] s ∧ ¬OnlyNamed s .otaEnd := by
  refine ⟨(waiting.next (startFor 1)).next (startFor 9),.cons (.cons .nil trivial rfl) trivial rfl,?_⟩
  intro h
  have hflag : ((waiting.next (startFor 1)).next (startFor 9)).dev.ui.otaFlag ≠ 0 := by decide
  have hnamed : ((waiting.next (startFor 1)).next (startFor 9)).named = false := by decide
  rw [h (Or.inr (arms_otaEnd hflag))] at hnamed
  cases hnamed

end Targets
end Autbus
