import Autbus.HostTasks

/-! The blocks of an upgrade on their way to the flash. `sysres_srv_ota_data` leaves a block in
`ui_dat_buf` and puts a message; `uimsg_proc` writes what it then finds there, at the place
that the block counter then gives. -/
namespace Autbus
namespace Upgrade

open Bytes HostUi HostTasks Trace
open HostFrames hiding step

/-- Where the block with number `k` belongs. -/
def offset (k : ℕ) : ℤ := upgradeAddr+((k : ℤ)-1)*1024

/-- The address never wraps. -/
theorem blockAddr_eq (sn : UInt16) : (Dev.blockAddr sn : ℤ) = upgradeAddr+((sn.toNat : ℤ)-2)*1024 := by
  have hsn := sn.toNat_lt
  have hmod : ((upgradeAddr : ℤ)+((sn.toNat : ℤ)-2)*1024)%2^32 = upgradeAddr+((sn.toNat : ℤ)-2)*1024 := by
    rw [upgradeAddr]
    omega
  rw [Dev.blockAddr,hmod,Int.toNat_of_nonneg]
  rw [upgradeAddr]
  omega

theorem blockAddr_eq_offset {sn : UInt16} {k : ℕ} :
    (Dev.blockAddr sn : ℤ) = offset k ↔ sn.toNat = k+1 := by
  rw [blockAddr_eq,offset]
  omega

/-- A message about an accepted block reaches the reader: the block is written where it
belongs. -/
def Written (_ : List Event) (s : Tracked) (e : Event) : Prop :=
  ∀ env n, e = .uimsg env → s.dev.msgui.head? = some .otadata → s.notes.head? = some n →
    ∃ addr, (s.next e).dev.flash = [.write addr n.dat] ∧ (addr : ℤ) = offset n.sn

/-- Then the counter still points behind the block, and the block is still in the buffer. -/
def Kept (_ : List Event) (s : Tracked) (e : Event) : Prop :=
  ∀ env n, e = .uimsg env → s.dev.msgui.head? = some .otadata → s.notes.head? = some n →
    s.dev.ui.otaDataSn.toNat = n.sn+1 ∧ read (s.dev.ui.mem .uiDat) 4 1024 = n.dat

/-- What the reader does with the message of a block. -/
theorem otadata_flash {d : Dev} {env : ℕ → Handover} (h : d.msgui.head? = some .otadata) :
    (d.call (.uimsg env)).flash =
      [.write (Dev.blockAddr d.ui.otaDataSn) (read (d.ui.mem .uiDat) 4 1024)] := by
  obtain ⟨ms,hms⟩ := List.head?_eq_some_iff.mp h
  have hq : d.fresh.msgui = .otadata::ms := hms
  rw [Dev.call,Dev.uimsgProc,hq]
  rfl

theorem written_iff_kept {es : List Event} {s : Tracked} {e : Event} :
    Written es s e ↔ Kept es s e := by
  refine forall_congr' fun env => forall_congr' fun n => imp_congr_right fun he =>
    imp_congr_right fun hm => imp_congr_right fun _ => ?_
  subst he
  rw [Tracked.next,otadata_flash hm]
  constructor
  · rintro ⟨addr,hw,haddr⟩
    simp only [List.cons.injEq,FlashOp.write.injEq,and_true] at hw
    rw [← hw.1,blockAddr_eq_offset] at haddr
    exact ⟨haddr,hw.2⟩
  · rintro ⟨hsn,hdat⟩
    exact ⟨_,by rw [hdat],blockAddr_eq_offset.mpr hsn⟩

/-! ### A block that has just been accepted -/

/-- What the reader needs is there after a call, with the message at the end of the queue. -/
structure Waiting (s t : Tracked) (f : Frame) : Prop where
  queue : t.dev.msgui = s.dev.msgui ++ [.otadata]
  notes : t.notes = s.notes ++ [⟨s.asker,u16 f.mem 0,read f.mem 4 1024⟩]
  sn : t.dev.ui.otaDataSn.toNat = u16 f.mem 0+1
  dat : read (t.dev.ui.mem .uiDat) 4 1024 = read f.mem 4 1024

/-- The call that accepts a block. -/
theorem accepted_call {d : Dev} {f : Frame} (hpos : 0 < f.length) (hflag : d.ui.otaFlag ≠ 0)
    (hsn : u16 f.mem 0 = d.ui.otaDataSn.toNat) :
    d.call (.otaData f) =
      { d.fresh with
        ui := { d.fresh.ui with
          mem := Function.update d.ui.mem .uiDat (Bytes.copy (d.ui.mem .uiDat) 0 f.mem 0 f.length)
          otaDataSn := d.ui.otaDataSn+1 } }.put .otadata := by
  have hflag' : d.fresh.ui.otaFlag ≠ 0 := hflag
  have hsn' : ¬u16 f.mem 0 ≠ d.fresh.ui.otaDataSn.toNat := not_not.mpr hsn
  rw [Dev.call,Dev.sysresSrvOtaData,if_neg hflag']
  simp only [if_pos hpos]
  rw [Dev.otaData]
  simp only
  rw [if_neg hsn']
  rfl

/-- A block is accepted when an upgrade is going on and it has the number that is due. It
waits for the reader, unless it is block 65535, after which the counter starts again. -/
theorem accepted_waiting {s : Tracked} {f : Frame} (hlen : 1028 ≤ f.length)
    (hflag : s.dev.ui.otaFlag ≠ 0) (hsn : u16 f.mem 0 = s.dev.ui.otaDataSn.toNat)
    (hlast : u16 f.mem 0 < 65535) : Waiting s (s.next (.otaData f)) f := by
  have hpos : 0 < f.length := by omega
  have hcall := accepted_call hpos hflag hsn
  have hqueue : (s.dev.call (.otaData f)).msgui = s.dev.msgui ++ [.otadata] := by
    rw [hcall]
    rfl
  refine ⟨hqueue,?_,?_,?_⟩
  · have hone : (s.dev.call (.otaData f)).msgui.length-s.dev.msgui.length = 1 := by
      rw [hqueue,List.length_append,List.length_singleton]
      omega
    simp only [Tracked.next_notes,Tracked.notesAfter,hone,List.replicate_one,Tracked.note,Dev.block,if_pos hpos]
  · have hadd : (s.dev.ui.otaDataSn+1).toNat = s.dev.ui.otaDataSn.toNat+1 := by
      have hone : (1 : UInt16).toNat = 1 := rfl
      rw [UInt16.toNat_add,hone]
      omega
    rw [Tracked.next_dev,hcall,hsn]
    exact hadd
  · have hread : read (Bytes.copy (s.dev.ui.mem .uiDat) 0 f.mem 0 f.length) 4 1024 = read f.mem 4 1024 := by
      apply read_congr
      intro i hi
      have hin : 0 ≤ 4+i ∧ 4+i < 0+f.length := by omega
      rw [Bytes.copy,if_pos hin,Nat.sub_zero,Nat.zero_add]
    rw [Tracked.next_dev,hcall]
    simpa [Dev.put] using hread

/-! ### Runs -/

/-- An upgrade for the idle device. -/
def startFrame : Frame := ⟨ofList [1,0,0,0,2,0,0,0,0,1],uiBufSize⟩

/-- Block `k`, filled with one byte. -/
def blockFrame (k b : UInt8) : Frame := ⟨fun i => if i = 0 then k else if i < 4 then 0 else b,uiBufSize⟩

def reader : Event := .uimsg fun _ => .taken

/-- The upgrade has begun, the flash is erased. -/
def begun : Tracked := ((idle 5).next (.otaStart startFrame)).next reader

theorem run_begun : Run step Kept (idle 5) [reader,.otaStart startFrame] begun := by
  refine .cons (.cons .nil ?_ rfl) ?_ rfl
  · intro env n he
    cases he
  · intro env n _ hm
    cases hm

/-- Two blocks have come before the reader handles the first one. -/
def twoBlocks : Tracked := (begun.next (.otaData (blockFrame 1 7))).next (.otaData (blockFrame 2 8))

/-- Where a write may go: into the region that the start of an upgrade erases. -/
def Inside : FlashOp → Prop
  | .erase _ _ => True
  | .write addr dat => upgradeAddr ≤ addr ∧ addr+dat.length ≤ upgradeAddr+upgradeSize

instance (op : FlashOp) : Decidable (Inside op) := by
  cases op with
  | erase addr size => exact .isTrue trivial
  | write addr dat => exact inferInstanceAs (Decidable (_ ∧ _))

/-- What a call does to the flash stays inside. -/
def InRegion (_ : List Event) (s : Tracked) (e : Event) : Prop := ∀ op ∈ (s.next e).dev.flash, Inside op

/-- The counter is behind a block that has room in the region when the message of a block
reaches the reader. -/
def Counted (_ : List Event) (s : Tracked) (e : Event) : Prop :=
  ∀ env, e = .uimsg env → s.dev.msgui.head? = some .otadata →
    2 ≤ s.dev.ui.otaDataSn.toNat ∧ s.dev.ui.otaDataSn.toNat ≤ 257

theorem inside_block {sn : UInt16} {m : Mem} {a : ℕ} :
    Inside (.write (Dev.blockAddr sn) (read m a 1024)) ↔ 2 ≤ sn.toNat ∧ sn.toNat ≤ 257 := by
  have haddr := blockAddr_eq sn
  have hlen : (read m a 1024).length = 1024 := read_length m a 1024
  rw [Inside,hlen]
  rw [upgradeAddr] at haddr ⊢
  rw [upgradeSize]
  omega

theorem hostRequest_flash (d : Dev) (env : ℕ → Handover) (efd : ℤ) (f : Frame) :
    (d.hostRequest env efd f).flash = d.flash := by
  unfold Dev.hostRequest
  simp only
  split <;> rfl

theorem otaData_flash (d : Dev) (ptr : Mem) : (d.otaData ptr).flash = d.flash := by
  unfold Dev.otaData
  simp only
  split <;> rfl

theorem sysresSrvOtaData_flash (d : Dev) (req : Option Frame) : (d.sysresSrvOtaData req).flash = d.flash := by
  unfold Dev.sysresSrvOtaData
  split
  · rfl
  cases req with
  | none => exact otaData_flash d _
  | some f =>
    dsimp only
    split
    · exact otaData_flash _ _
    · exact otaData_flash d _

theorem deviceSet_flash (d : Dev) : d.deviceSet.flash = d.flash := by
  unfold Dev.deviceSet
  simp only
  split
  · split <;> rfl
  · rfl

theorem otaAnswer_flash (d : Dev) (env : ℕ → Handover) (cmd : UiCmd) :
    (d.otaAnswer env cmd).flash = d.flash := by
  unfold Dev.otaAnswer
  split <;> rfl

theorem command_flash (d : Dev) (env : Dev.Env) (cmd : UiCmd) : (d.command env cmd).flash = d.flash := by
  cases cmd with
  | none | updateTxgain | setDyn => rfl
  | getAtbSig | getDebugData | getBpsData | getDeviceData =>
    simp only [Dev.command]
    split <;> rfl
  | setDebugData =>
    simp only [Dev.command]
    split <;> rfl
  | setDeviceData =>
    simp only [Dev.command]
    split
    · exact deviceSet_flash _
    · rfl
  | otaStart => exact otaAnswer_flash _ _ _
  | otaData =>
    rw [Dev.command,otaAnswer_flash]
    exact sysresSrvOtaData_flash d none
  | otaEnd =>
    rw [Dev.command,otaAnswer_flash,Dev.sysresSrvOtaEnd]
    split <;> rfl

/-- Only the reader touches the flash. -/
theorem call_flash (d : Dev) {e : Event} (h : ∀ env, e ≠ .uimsg env) : (d.call e).flash = [] := by
  cases e with
  | eth f env =>
    rw [Dev.call,Dev.atbUiProcess]
    split
    · exact hostRequest_flash _ _ _ _
    · rfl
  | uiData tn f env =>
    rw [Dev.call,Dev.sysresSrvUiData]
    split
    · rfl
    rw [Dev.atbUiRpcRecv]
    split
    · exact hostRequest_flash _ _ _ _
    · rfl
  | tnInfo tn f =>
    rw [Dev.call,Dev.sysresSrvTnInfo]
    split <;> rfl
  | tick env => exact command_flash d.fresh env _
  | otaStart f => rfl
  | otaData f => exact sysresSrvOtaData_flash d.fresh (some f)
  | otaEnd =>
    rw [Dev.call,Dev.sysresSrvOtaEnd]
    split <;> rfl
  | debugSet f =>
    rw [Dev.call,Dev.sysresSrvDebugSet]
    split <;> rfl
  | deviceSet f => exact deviceSet_flash _
  | collect dat => rfl
  | uimsg env => exact absurd rfl (h env)

/-- The other messages write nothing. -/
theorem uimsg_inside {d : Dev} {env : ℕ → Handover} (h : d.msgui.head? ≠ some .otadata) :
    ∀ op ∈ (d.call (.uimsg env)).flash, Inside op := by
  have hq : d.fresh.msgui = d.msgui := rfl
  rw [Dev.call,Dev.uimsgProc,hq]
  cases hm : d.msgui with
  | nil => simp [Dev.fresh]
  | cons m ms =>
    cases m with
    | otadata =>
      rw [hm] at h
      exact absurd rfl h
    | otastart => simp [Dev.uimsg,Dev.fresh,Inside]
    | otareply cmd =>
      simp only [Dev.uimsg]
      split <;> simp [Dev.fresh]
    | cfg | svd => simp [Dev.uimsg,Dev.fresh]

theorem inRegion_iff_counted {es : List Event} {s : Tracked} {e : Event} :
    InRegion es s e ↔ Counted es s e := by
  by_cases hread : ∃ env, e = .uimsg env
  · obtain ⟨env,rfl⟩ := hread
    by_cases hm : s.dev.msgui.head? = some .otadata
    · have hflash : (s.next (.uimsg env)).dev.flash = _ := otadata_flash hm
      rw [InRegion,hflash,List.forall_mem_singleton,inside_block]
      exact ⟨fun h _ _ _ => h,fun h => h env rfl hm⟩
    · exact iff_of_true (uimsg_inside hm) fun _ _ h => absurd h hm
  · have hno : ∀ env, e ≠ .uimsg env := fun env he => hread ⟨env,he⟩
    refine iff_of_true ?_ fun env he => absurd he (hno env)
    intro op hop
    rw [Tracked.next_dev,call_flash s.dev hno] at hop
    cases hop

/-- In a run all writes for blocks stay in the region of the upgrade if and only if the
counter is between 2 and 257 whenever the message of a block reaches the reader. -/
theorem run_inRegion_iff {s₀ s : Tracked} {es : List Event} (h : Run step anyStep s₀ es s) :
    Run step InRegion s₀ es s ↔ Run step Counted s₀ es s :=
  h.forall_iff fun _ _ _ _ _ _ _ _ => inRegion_iff_counted

/-- Block 1 waits for the reader when a block with the wrong number ends the upgrade. -/
def aborted : Tracked := (begun.next (.otaData (blockFrame 1 7))).next (.otaData (blockFrame 5 8))

/-- Then the reader writes it below the region. -/
theorem aborted_outside :
    Run step anyStep (idle 5)
        [.otaData (blockFrame 5 8),.otaData (blockFrame 1 7),reader,.otaStart startFrame] aborted ∧
      ¬InRegion [.otaData (blockFrame 5 8),.otaData (blockFrame 1 7),reader,.otaStart startFrame]
        aborted reader := by
  refine ⟨.cons (.cons run_begun.toAny trivial rfl) trivial rfl,?_⟩
  intro h
  have hhead : aborted.dev.msgui.head? = some .otadata ∧ aborted.dev.ui.otaDataSn.toNat = 0 := by decide
  have hcount := (inRegion_iff_counted.mp h _ rfl hhead.1).1
  rw [hhead.2] at hcount
  exact absurd hcount (by decide)

/-- With the reader in time block 1 goes to the start of the region. -/
theorem single_inRegion :
    Run step InRegion (idle 5) [reader,.otaData (blockFrame 1 7),reader,.otaStart startFrame]
      ((begun.next (.otaData (blockFrame 1 7))).next reader) := by
  have hrun : Run step anyStep (idle 5) [reader,.otaData (blockFrame 1 7),reader,.otaStart startFrame]
      ((begun.next (.otaData (blockFrame 1 7))).next reader) :=
    .cons (.cons run_begun.toAny trivial rfl) trivial rfl
  have hno : ∀ {es : List Event} {s : Tracked} {e : Event}, (∀ env, e ≠ .uimsg env) → Counted es s e :=
    fun hne env he => absurd he (hne env)
  have hbegun : Run step Counted (idle 5) [reader,.otaStart startFrame] begun := by
    refine .cons (.cons .nil (hno fun _ h => by cases h) rfl) ?_ rfl
    intro env _ hm
    cases hm
  refine (run_inRegion_iff hrun).mpr (.cons (.cons hbegun (hno fun _ h => by cases h) rfl) ?_ rfl)
  intro env _ _
  have hsn : (begun.next (.otaData (blockFrame 1 7))).dev.ui.otaDataSn.toNat = 2 := by decide
  rw [hsn]
  decide

end Upgrade
end Autbus
