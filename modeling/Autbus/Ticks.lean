import Autbus.Flash
import Autbus.HostUi
import Autbus.Trace

/-! The tick of the system manager (`sys_timer_tick` of `sysent.c`, up to the switch over the commands of the
host), every 50 ms: seconds are counted, the error counts of the channels are compared with the ones before, and
every two seconds what was found is reported. -/
namespace Autbus
namespace Ticks

open Trace
open Flash (roundUp roundUp_le le_roundUp dvd_roundUp)
open HostUi (NodeRec)

/-- The registers of a channel, `HCB_TAB_CBN_0` to `HCB_TAB_CBN_3`. -/
structure Cbn where
  temp0 : UInt32
  temp1 : UInt32
  temp2 : UInt32
  temp3 : UInt32

def Cbn.cberrDn (c : Cbn) : UInt64 := (c.temp2 &&& 0x3fffff).toUInt64 <<< 20 ||| (c.temp1 >>> 12).toUInt64

def Cbn.cberrUp (c : Cbn) : UInt64 := c.temp3.toUInt64 <<< 10 ||| (c.temp2 >>> 22).toUInt64

/-- `atbsig_history_t`. -/
structure SigHistory where
  errup : UInt64
  errdn : UInt64
  deriving DecidableEq

/-- One round of the loop of `atbsig_check`. -/
def checkRound (regs : ℕ → Cbn) (st : (ℕ → SigHistory) × UInt8) (i : ℕ) : (ℕ → SigHistory) × UInt8 :=
  let c := regs i
  if c.temp0 = 0 ∧ c.temp1 = 0 then st
  else
    let st :=
      if (st.1 i).errdn ≠ c.cberrDn then (Function.update st.1 i {st.1 i with errdn := c.cberrDn},1) else st
    if (st.1 i).errup ≠ c.cberrUp then (Function.update st.1 i {st.1 i with errup := c.cberrUp},1) else st

/-- `atbsig_check` on `sighis`. -/
def atbsigCheck (regs : ℕ → Cbn) (sighis : ℕ → SigHistory) : (ℕ → SigHistory) × UInt8 :=
  (List.range 254).foldl (checkRound regs) (sighis,0)

/-- `report_check`; the level of the pin is 0 or 1. -/
def reportCheck (gpio : Bool) : UInt8 := if gpio then 0 else 1

/-- `tnreport_t`. -/
structure TnReport where
  nodeid : UInt8
  sigerr : UInt8
  report : UInt8

/-- What a tick does outside: the device restarts, a report is given to `rpc_tn_send`, or the CN marks itself. -/
inductive Out
  | restart
  | tnSend (r : TnReport)
  | cnMark (sigerr report : UInt8)

/-- The static data of `sysent.c`, and the parts of `sysm_context_t`, `atbui_cmd` and `ncn` that the tick uses. -/
structure Sysm where
  cnt : UInt32
  systime : UInt64
  rebootDelay : UInt8
  sighis : ℕ → SigHistory
  sigerr : UInt8
  report : UInt8
  nodeid : UInt8
  ncn : List NodeRec

/-- What the registers and the pin show at a tick. -/
structure Env where
  regs : ℕ → Cbn
  gpio : Bool

namespace Sysm

/-- Every second. -/
def second (s : Sysm) : Sysm × List Out :=
  let s := {s with systime := s.systime+1}
  let r : Sysm × List Out := if 16 < s.rebootDelay then ({s with rebootDelay := 0},[.restart]) else (s,[])
  (if 14 < r.1.rebootDelay then {r.1 with rebootDelay := r.1.rebootDelay+1} else r.1,r.2)

/-- Every 200 ms. What was found and is not reported yet is kept. -/
def check (s : Sysm) (env : Env) : Sysm :=
  let s :=
    if s.sigerr = 0 then
      let r := atbsigCheck env.regs s.sighis
      {s with sighis := r.1,sigerr := r.2}
    else s
  if s.report = 0 then {s with report := reportCheck env.gpio} else s

/-- `set_cn_sigerr` and `set_cn_report`: the first record of the CN. -/
def setCn (f : NodeRec → NodeRec) : List NodeRec → List NodeRec
  | [] => []
  | pnd::pnds => if pnd.nindx = 0 then f pnd::pnds else pnd::setCn f pnds

/-- Every two seconds. -/
def upload (s : Sysm) : Sysm × List Out :=
  if s.sigerr ≠ 0 ∨ s.report ≠ 0 then
    if s.nodeid ≠ 0 then ({s with sigerr := 0,report := 0},[.tnSend ⟨s.nodeid,s.sigerr,s.report⟩])
    else
      let ncn := if s.sigerr ≠ 0 then setCn (fun pnd => {pnd with sigerr := 1}) s.ncn else s.ncn
      let ncn := if s.report ≠ 0 then setCn (fun pnd => {pnd with report := 1}) ncn else ncn
      ({s with ncn := ncn,sigerr := 0,report := 0},[.cnMark s.sigerr s.report])
  else (s,[])

/-- `sys_timer_tick` up to the switch. -/
def sysTimerTick (s : Sysm) (env : Env) : Sysm × List Out :=
  let s := {s with cnt := s.cnt+1}
  let r := if s.cnt % 20 = 0 then s.second else (s,[])
  let s := if r.1.cnt % 4 = 0 then r.1.check env else r.1
  let u := if s.cnt % 40 = 0 then s.upload else (s,[])
  (u.1,r.2 ++ u.2)

end Sysm

/-- A tick, the end of an upgrade (`sysres_srv_ota_end`), and the number that the node is given. -/
inductive Event
  | tick (env : Env)
  | otaEnd
  | online (nodeid : UInt8)

/-- Beside the state a run takes down, the newest first, the ticks at which errors were found, what the ticks did,
and the ticks after which an upgrade ended. -/
structure Tracked where
  sysm : Sysm
  notes : List ℕ
  outs : List (ℕ × Out)
  ends : List ℕ

def Tracked.cnt (s : Tracked) : ℕ := s.sysm.cnt.toNat

/-- The check of this tick finds an error. -/
def finds (s : Sysm) (env : Env) : Bool :=
  (s.cnt+1) % 4 = 0 ∧ s.sigerr = 0 ∧ (atbsigCheck env.regs s.sighis).2 ≠ 0

def step (s : Tracked) : Event → Option Tracked
  | .tick env =>
    let r := s.sysm.sysTimerTick env
    some {s with
      sysm := r.1
      notes := if finds s.sysm env then (s.cnt+1)::s.notes else s.notes
      outs := r.2.map (fun o => (s.cnt+1,o)) ++ s.outs}
  | .otaEnd => some {s with sysm := {s.sysm with rebootDelay := 15},ends := s.cnt::s.ends}
  | .online nodeid => some {s with sysm := {s.sysm with nodeid := nodeid}}

def booted (ncn : List NodeRec) : Tracked := ⟨⟨0,0,0,fun _ => ⟨0,0⟩,0,0,254,ncn⟩,[],[],[]⟩

/-- Less than seven years: the count of ticks does not wrap. -/
def Brief : List Event → Tracked → Event → Prop := fun _ s _ => s.cnt+1 < 2^32

/-- The channel is in use, and shows other counts. -/
def Differs (c : Cbn) (h : SigHistory) : Prop := ¬(c.temp0 = 0 ∧ c.temp1 = 0) ∧ h ≠ ⟨c.cberrUp,c.cberrDn⟩

instance (c : Cbn) (h : SigHistory) : Decidable (Differs c h) := inferInstanceAs (Decidable (_ ∧ _))

/-- The output tells of errors. -/
def Out.tells : Out → Bool
  | .restart => false
  | .tnSend r => r.sigerr ≠ 0
  | .cnMark sigerr _ => sigerr ≠ 0

def Out.restarts : Out → Bool
  | .restart => true
  | _ => false

/-- The ticks of the outputs of a kind. -/
def Tracked.when (s : Tracked) (p : Out → Bool) : List ℕ := (s.outs.filter fun o => p o.2).map Prod.fst

/-! ### The comparison of the counts -/

theorem checkRound_eq (regs : ℕ → Cbn) (h : ℕ → SigHistory) (flag : UInt8) (i : ℕ) :
    checkRound regs (h,flag) i =
      if Differs (regs i) (h i) then (Function.update h i ⟨(regs i).cberrUp,(regs i).cberrDn⟩,1) else (h,flag) := by
  unfold checkRound Differs
  by_cases hidle : (regs i).temp0 = 0 ∧ (regs i).temp1 = 0
  · simp [hidle]
  · rcases hi : h i with ⟨up,dn⟩
    by_cases hdn : dn = (regs i).cberrDn <;> by_cases hup : up = (regs i).cberrUp <;>
      simp [hidle,hi,hdn,hup]

/-- After the rounds for the first channels their counts are those of the registers, and the flag tells whether one
of them differed. -/
theorem rounds_spec (regs : ℕ → Cbn) (h : ℕ → SigHistory) (n : ℕ) :
    (∀ i, ((List.range n).foldl (checkRound regs) (h,0)).1 i =
      if i < n ∧ Differs (regs i) (h i) then ⟨(regs i).cberrUp,(regs i).cberrDn⟩ else h i) ∧
    (((List.range n).foldl (checkRound regs) (h,0)).2 ≠ 0 ↔ ∃ i < n, Differs (regs i) (h i)) := by
  induction n with
  | zero => simp
  | succ n ih =>
    rw [List.range_succ,List.foldl_append,List.foldl_cons,List.foldl_nil]
    generalize (List.range n).foldl (checkRound regs) (h,0) = r at ih ⊢
    obtain ⟨h',flag⟩ := r
    obtain ⟨hhis,hflag⟩ := ih
    dsimp only at hhis hflag
    -- the earlier rounds left channel `n` alone
    have hn : h' n = h n := by rw [hhis,if_neg (fun hlt => absurd hlt.1 (lt_irrefl n))]
    rw [checkRound_eq,hn]
    by_cases hd : Differs (regs n) (h n)
    · rw [if_pos hd]
      have hone : (1 : UInt8) ≠ 0 := by decide
      refine ⟨fun i => ?_,⟨fun _ => ⟨n,Nat.lt_succ_self n,hd⟩,fun _ => hone⟩⟩
      dsimp only
      by_cases hi : i = n
      · subst hi
        rw [Function.update_self,if_pos ⟨Nat.lt_succ_self _,hd⟩]
      · rw [Function.update_of_ne hi,hhis]
        simp only [show i < n+1 ↔ i < n by omega]
    · rw [if_neg hd]
      refine ⟨fun i => ?_,hflag.trans ⟨?_,?_⟩⟩
      · dsimp only
        rw [hhis]
        by_cases hi : i = n
        · subst hi
          rw [if_neg (fun hlt => hd hlt.2),if_neg (fun hlt => hd hlt.2)]
        · simp only [show i < n+1 ↔ i < n by omega]
      · rintro ⟨i,hi,hdi⟩
        exact ⟨i,Nat.lt_succ_of_lt hi,hdi⟩
      · rintro ⟨i,hi,hdi⟩
        rcases Nat.lt_succ_iff_lt_or_eq.mp hi with hlt | rfl
        · exact ⟨i,hlt,hdi⟩
        · exact absurd hdi hd

theorem atbsigCheck_finds {regs : ℕ → Cbn} {h : ℕ → SigHistory} :
    (atbsigCheck regs h).2 ≠ 0 ↔ ∃ i < 254, Differs (regs i) (h i) :=
  (rounds_spec regs h 254).2

/-! ### One tick -/

section Tick

variable {s : Sysm} {env : Env}

theorem second_fst : s.second.1 = {s with systime := s.systime+1,rebootDelay := s.second.1.rebootDelay} := by
  unfold Sysm.second
  dsimp only
  split_ifs <;> rfl

theorem second_rebootDelay :
    s.second.1.rebootDelay =
      if 16 < s.rebootDelay then 0 else if 14 < s.rebootDelay then s.rebootDelay+1 else s.rebootDelay := by
  unfold Sysm.second
  by_cases h : 16 < s.rebootDelay
  · simp [h]
  · simp only [if_neg h]
    split_ifs <;> rfl

theorem second_snd : s.second.2 = if 16 < s.rebootDelay then [.restart] else [] := by
  unfold Sysm.second
  dsimp only
  split_ifs <;> rfl

theorem check_eq :
    s.check env =
      {s with
        sighis := if s.sigerr = 0 then (atbsigCheck env.regs s.sighis).1 else s.sighis
        sigerr := if s.sigerr = 0 then (atbsigCheck env.regs s.sighis).2 else s.sigerr
        report := if s.report = 0 then reportCheck env.gpio else s.report} := by
  unfold Sysm.check
  by_cases h : s.sigerr = 0 <;> by_cases hr : s.report = 0 <;> simp [h,hr]

theorem upload_fst : s.upload.1 = {s with ncn := s.upload.1.ncn,sigerr := 0,report := 0} := by
  unfold Sysm.upload
  by_cases h : s.sigerr ≠ 0 ∨ s.report ≠ 0
  · rw [if_pos h]
    split_ifs <;> rfl
  · obtain ⟨hs,hr⟩ := not_or.mp h
    rw [if_neg h]
    obtain ⟨_,_,_,_,sigerr,report,_,_⟩ := s
    obtain rfl : sigerr = 0 := not_not.mp hs
    obtain rfl : report = 0 := not_not.mp hr
    rfl

@[simp] theorem second_cnt : s.second.1.cnt = s.cnt := by rw [second_fst]
@[simp] theorem second_sighis : s.second.1.sighis = s.sighis := by rw [second_fst]
@[simp] theorem second_sigerr : s.second.1.sigerr = s.sigerr := by rw [second_fst]

@[simp] theorem check_cnt : (s.check env).cnt = s.cnt := by rw [check_eq]

@[simp] theorem upload_cnt : s.upload.1.cnt = s.cnt := by rw [upload_fst]
@[simp] theorem upload_rebootDelay : s.upload.1.rebootDelay = s.rebootDelay := by rw [upload_fst]
@[simp] theorem upload_sighis : s.upload.1.sighis = s.sighis := by rw [upload_fst]
@[simp] theorem upload_sigerr : s.upload.1.sigerr = 0 := by rw [upload_fst]

theorem upload_tells : s.upload.2.countP Out.tells = if s.sigerr = 0 then 0 else 1 := by
  unfold Sysm.upload
  by_cases h : s.sigerr = 0 <;> by_cases hr : s.report = 0 <;> by_cases hn : s.nodeid = 0 <;>
    simp [h,hr,hn,Out.tells]

theorem upload_restarts : s.upload.2.countP Out.restarts = 0 := by
  unfold Sysm.upload
  split_ifs <;> rfl

theorem mod_iff (hs : s.cnt.toNat+1 < 2^32) (m : ℕ) (hm : m < 2^32) :
    (s.cnt+1) % UInt32.ofNat m = 0 ↔ m ∣ s.cnt.toNat+1 := by
  rw [← UInt32.toNat_inj,UInt32.toNat_mod,UInt32.toNat_add,UInt32.toNat_ofNat_of_lt' hm,UInt32.toNat_one,
    Nat.mod_eq_of_lt hs,UInt32.toNat_zero,Nat.dvd_iff_mod_eq_zero]

/-- Below the wrap the tick goes by the divisors of its number. -/
theorem tick_eq (hs : s.cnt.toNat+1 < 2^32) :
    s.sysTimerTick env =
      let n := s.cnt.toNat+1
      let s := {s with cnt := s.cnt+1}
      let r := if 20 ∣ n then s.second else (s,[])
      let s := if 4 ∣ n then r.1.check env else r.1
      let u := if 40 ∣ n then s.upload else (s,[])
      (u.1,r.2 ++ u.2) := by
  have h4 : (s.cnt+1) % 4 = 0 ↔ 4 ∣ s.cnt.toNat+1 := mod_iff hs 4 (by decide)
  have h20 : (s.cnt+1) % 20 = 0 ↔ 20 ∣ s.cnt.toNat+1 := mod_iff hs 20 (by decide)
  have h40 : (s.cnt+1) % 40 = 0 ↔ 40 ∣ s.cnt.toNat+1 := mod_iff hs 40 (by decide)
  unfold Sysm.sysTimerTick
  simp only [← h4,← h20,← h40]
  have hsec : (if (s.cnt+1) % 20 = 0 then ({s with cnt := s.cnt+1} : Sysm).second
      else ({s with cnt := s.cnt+1},[])).1.cnt = s.cnt+1 := by
    split_ifs
    · rw [second_cnt]
    · rfl
  simp only [hsec]
  have hchk : ∀ r : Sysm × List Out, r.1.cnt = s.cnt+1 →
      (if (s.cnt+1) % 4 = 0 then r.1.check env else r.1).cnt = s.cnt+1 := by
    intro r hr
    split_ifs
    · rw [check_cnt,hr]
    · exact hr
  simp only [hchk _ hsec]

/-- What a tick does before it reports. -/
theorem tick_parts (env : Env) (hs : s.cnt.toNat+1 < 2^32) : ∃ (m : Sysm) (outs : List Out),
    s.sysTimerTick env = ((if 40 ∣ s.cnt.toNat+1 then m.upload else (m,[])).1,
      outs ++ (if 40 ∣ s.cnt.toNat+1 then m.upload else (m,[])).2) ∧
    m.cnt = s.cnt+1 ∧
    (m.sighis = if 4 ∣ s.cnt.toNat+1 ∧ s.sigerr = 0 then (atbsigCheck env.regs s.sighis).1 else s.sighis) ∧
    (m.sigerr = if 4 ∣ s.cnt.toNat+1 ∧ s.sigerr = 0 then (atbsigCheck env.regs s.sighis).2 else s.sigerr) ∧
    (m.rebootDelay = if 20 ∣ s.cnt.toNat+1 then s.second.1.rebootDelay else s.rebootDelay) ∧
    outs = if 20 ∣ s.cnt.toNat+1 then s.second.2 else [] := by
  refine ⟨_,_,tick_eq hs,?_⟩
  by_cases h20 : 20 ∣ s.cnt.toNat+1 <;> by_cases h4 : 4 ∣ s.cnt.toNat+1 <;>
    simp [h20,h4,check_eq,second_rebootDelay,second_snd]

section Fields

variable (hs : s.cnt.toNat+1 < 2^32)

include hs

theorem tick_cnt : (s.sysTimerTick env).1.cnt.toNat = s.cnt.toNat+1 := by
  obtain ⟨m,outs,heq,hcnt,-⟩ := tick_parts env hs
  have h : (s.sysTimerTick env).1.cnt = s.cnt+1 := by
    rw [heq,← hcnt]
    split_ifs
    · exact upload_cnt
    · rfl
  rw [h,UInt32.toNat_add,UInt32.toNat_one,Nat.mod_eq_of_lt hs]

theorem tick_sighis (h : ¬(4 ∣ s.cnt.toNat+1 ∧ s.sigerr = 0)) : (s.sysTimerTick env).1.sighis = s.sighis := by
  obtain ⟨m,outs,heq,-,hhis,-⟩ := tick_parts env hs
  rw [if_neg h] at hhis
  rw [heq,← hhis]
  split_ifs
  · exact upload_sighis
  · rfl

theorem tick_sigerr :
    (s.sysTimerTick env).1.sigerr =
      if 40 ∣ s.cnt.toNat+1 then 0
      else if 4 ∣ s.cnt.toNat+1 ∧ s.sigerr = 0 then (atbsigCheck env.regs s.sighis).2 else s.sigerr := by
  obtain ⟨m,outs,heq,-,-,herr,-⟩ := tick_parts env hs
  rw [heq,← herr]
  by_cases h40 : 40 ∣ s.cnt.toNat+1
  · rw [if_pos h40,if_pos h40,upload_sigerr]
  · rw [if_neg h40,if_neg h40]

/-- Errors are reported when they were found at an earlier check or at the one of this tick. -/
theorem tick_tells :
    (s.sysTimerTick env).2.countP Out.tells =
      if 40 ∣ s.cnt.toNat+1 ∧ (s.sigerr ≠ 0 ∨ (atbsigCheck env.regs s.sighis).2 ≠ 0) then 1 else 0 := by
  obtain ⟨m,outs,heq,-,-,herr,-,houts⟩ := tick_parts env hs
  have hnone : outs.countP Out.tells = 0 := by
    rw [houts,second_snd]
    split_ifs <;> rfl
  rw [heq,List.countP_append,hnone,Nat.zero_add]
  by_cases h40 : 40 ∣ s.cnt.toNat+1
  · have h4 : 4 ∣ s.cnt.toNat+1 := dvd_trans (by decide) h40
    rw [if_pos h40,upload_tells,herr]
    by_cases h0 : s.sigerr = 0
    · by_cases hf : (atbsigCheck env.regs s.sighis).2 = 0 <;> simp [h40,h4,h0,hf]
    · simp [h40,h0]
  · simp [h40]

theorem tick_rebootDelay :
    (s.sysTimerTick env).1.rebootDelay =
      if 20 ∣ s.cnt.toNat+1 then s.second.1.rebootDelay else s.rebootDelay := by
  obtain ⟨m,outs,heq,-,-,-,hdelay,-⟩ := tick_parts env hs
  rw [heq,← hdelay]
  split_ifs
  · exact upload_rebootDelay
  · rfl

theorem tick_restarts :
    (s.sysTimerTick env).2.countP Out.restarts = if 20 ∣ s.cnt.toNat+1 ∧ 16 < s.rebootDelay then 1 else 0 := by
  obtain ⟨m,outs,heq,-,-,-,-,houts⟩ := tick_parts env hs
  have hnone : (if 40 ∣ s.cnt.toNat+1 then m.upload else (m,[])).2.countP Out.restarts = 0 := by
    split_ifs
    · exact upload_restarts
    · rfl
  rw [heq,List.countP_append,hnone,Nat.add_zero,houts,second_snd]
  by_cases h20 : 20 ∣ s.cnt.toNat+1 <;> by_cases h16 : 16 < s.rebootDelay <;> simp [h20,h16,Out.restarts]

end Fields

end Tick

/-! ### Errors are told once -/

theorem finds_eq {s : Sysm} {env : Env} (hs : s.cnt.toNat+1 < 2^32) :
    finds s env ↔ 4 ∣ s.cnt.toNat+1 ∧ s.sigerr = 0 ∧ (atbsigCheck env.regs s.sighis).2 ≠ 0 := by
  have h4 : (s.cnt+1) % 4 = 0 ↔ 4 ∣ s.cnt.toNat+1 := mod_iff hs 4 (by decide)
  rw [finds,decide_eq_true_eq,h4]

/-- The ticks of this step's outputs stand in front. -/
theorem when_tick (s : Tracked) (env : Env) (p : Out → Bool) (notes : List ℕ) :
    (⟨(s.sysm.sysTimerTick env).1,notes,(s.sysm.sysTimerTick env).2.map (fun o => (s.cnt+1,o)) ++ s.outs,s.ends⟩ :
      Tracked).when p = List.replicate ((s.sysm.sysTimerTick env).2.countP p) (s.cnt+1) ++ s.when p := by
  rw [Tracked.when,List.filter_append,List.map_append]
  congr 1
  generalize (s.sysm.sysTimerTick env).2 = outs
  induction outs with
  | nil => rfl
  | cons o outs ih => by_cases ho : p o <;> simp [ho,List.replicate_succ,ih]

/-- Between the ticks only the delay and the number of the node change. -/
theorem step_cases {s u : Tracked} {e : Event} (hu : step s e = some u) : (∃ env, e = .tick env) ∨
    ∃ delay nodeid ends, u = {s with sysm := {s.sysm with rebootDelay := delay,nodeid := nodeid},ends := ends} := by
  cases e with
  | tick env => exact Or.inl ⟨env,rfl⟩
  | otaEnd => exact Or.inr ⟨_,_,_,(Option.some.inj hu).symm⟩
  | online nodeid => exact Or.inr ⟨_,_,_,(Option.some.inj hu).symm⟩

/-- `pend` is what was found and is to be told yet, at most one, and `done` is what was told. -/
structure Pending (s : Tracked) (pend done : List ℕ) : Prop where
  notes : s.notes = pend ++ done
  one : pend.length = if s.sysm.sigerr = 0 then 0 else 1
  ahead : ∀ a ∈ pend, a ≤ s.cnt ∧ s.cnt < roundUp 40 a
  past : ∀ a ∈ done, roundUp 40 a ≤ s.cnt
  told : s.when Out.tells = done.map (roundUp 40)

theorem Pending.tick {s : Tracked} {pend done : List ℕ} (h : Pending s pend done) (hs : s.cnt+1 < 2^32) {env : Env}
    {u : Tracked} (hu : step s (.tick env) = some u) : ∃ pend done, Pending u pend done := by
  obtain rfl := Option.some.inj hu
  -- with what this tick finds
  let found := if finds s.sysm env then [s.cnt+1] else []
  have hnotes : (if finds s.sysm env then (s.cnt+1)::s.notes else s.notes) = found ++ pend ++ done := by
    rw [h.notes]
    by_cases hf : finds s.sysm env <;> simp [found,hf]
  have hcnt : (s.sysm.sysTimerTick env).1.cnt.toNat = s.cnt+1 := tick_cnt hs
  have hsig : (s.sysm.sysTimerTick env).1.sigerr =
      if 40 ∣ s.cnt+1 then 0
      else if 4 ∣ s.cnt+1 ∧ s.sysm.sigerr = 0 then (atbsigCheck env.regs s.sysm.sighis).2 else s.sysm.sigerr :=
    tick_sigerr hs
  have htells : (s.sysm.sysTimerTick env).2.countP Out.tells =
      if 40 ∣ s.cnt+1 ∧ (s.sysm.sigerr ≠ 0 ∨ (atbsigCheck env.regs s.sysm.sighis).2 ≠ 0) then 1 else 0 :=
    tick_tells hs
  have hall : ∀ a ∈ found ++ pend, a ≤ s.cnt+1 ∧ s.cnt < roundUp 40 a := by
    intro a ha
    rcases List.mem_append.mp ha with ha | ha
    · have hn : a = s.cnt+1 := by
        by_cases hf : finds s.sysm env <;> simp [found,hf] at ha
        exact ha
      exact ⟨hn.le,lt_of_lt_of_le (Nat.lt_succ_self _) (hn ▸ le_roundUp (by decide) _)⟩
    · exact ⟨Nat.le_succ_of_le (h.ahead a ha).1,(h.ahead a ha).2⟩
  have hlen : (found ++ pend).length =
      if (if 4 ∣ s.cnt+1 ∧ s.sysm.sigerr = 0 then (atbsigCheck env.regs s.sysm.sighis).2 else s.sysm.sigerr) = 0
      then 0 else 1 := by
    rw [List.length_append,h.one]
    by_cases hc : 4 ∣ s.cnt+1 ∧ s.sysm.sigerr = 0
    · have hf : finds s.sysm env ↔ (atbsigCheck env.regs s.sysm.sighis).2 ≠ 0 :=
        (finds_eq hs).trans ⟨fun hf => hf.2.2,fun hf => ⟨hc.1,hc.2,hf⟩⟩
      rw [if_pos hc,if_pos hc.2]
      by_cases h0 : (atbsigCheck env.regs s.sysm.sighis).2 = 0 <;> simp [found,hf,h0]
    · have hf : ¬finds s.sysm env := fun hf => hc ⟨((finds_eq hs).mp hf).1,((finds_eq hs).mp hf).2.1⟩
      rw [if_neg hc]
      simp [found,hf]
  by_cases h40 : 40 ∣ s.cnt+1
  · have hnow : ∀ a ∈ found ++ pend, roundUp 40 a = s.cnt+1 := fun a ha =>
      Nat.le_antisymm (roundUp_le h40 (hall a ha).1) (hall a ha).2
    refine ⟨[],found ++ pend ++ done,hnotes,?_,fun a ha => absurd ha List.not_mem_nil,fun a ha => ?_,?_⟩
    · rw [hsig,if_pos h40]
      rfl
    · rw [Tracked.cnt,hcnt]
      rcases List.mem_append.mp ha with ha | ha
      · exact (hnow a ha).le
      · exact Nat.le_succ_of_le (h.past a ha)
    · rw [when_tick,h.told,List.map_append]
      congr 1
      have hcount : (found ++ pend).length = (s.sysm.sysTimerTick env).2.countP Out.tells := by
        have h4 : 4 ∣ s.cnt+1 := dvd_trans (by decide) h40
        rw [htells,hlen]
        by_cases h0 : s.sysm.sigerr = 0
        · by_cases hf : (atbsigCheck env.regs s.sysm.sighis).2 = 0 <;> simp [h4,h40,h0,hf]
        · simp [h40,h0]
      rw [← hcount]
      exact (List.eq_replicate_iff.mpr ⟨List.length_map _,fun b hb => by
        obtain ⟨a,ha,rfl⟩ := List.mem_map.mp hb
        exact hnow a ha⟩).symm
  · refine ⟨found ++ pend,done,hnotes,?_,fun a ha => ?_,fun a ha => ?_,?_⟩
    · rw [hlen,hsig,if_neg h40]
    · rw [Tracked.cnt,hcnt]
      -- the next report is not at this tick
      have hne : roundUp 40 a ≠ s.cnt+1 := fun heq => h40 (heq ▸ dvd_roundUp 40 a)
      exact ⟨(hall a ha).1,lt_of_le_of_ne (hall a ha).2 hne.symm⟩
    · rw [Tracked.cnt,hcnt]
      exact Nat.le_succ_of_le (h.past a ha)
    · rw [when_tick,h.told,htells,if_neg (fun hc => h40 hc.1)]
      rfl

theorem Pending.step {s : Tracked} {pend done : List ℕ} (h : Pending s pend done) (hs : s.cnt+1 < 2^32) {e : Event}
    {u : Tracked} (hu : step s e = some u) : ∃ pend done, Pending u pend done := by
  rcases step_cases hu with ⟨env,rfl⟩ | ⟨_,_,_,rfl⟩
  · exact h.tick hs hu
  · exact ⟨pend,done,h.notes,h.one,h.ahead,h.past,h.told⟩

theorem run_pending {ncn : List NodeRec} {es : List Event} {s : Tracked} (h : Run step Brief (booted ncn) es s) :
    ∃ pend done, Pending s pend done :=
  h.invariant (I := fun _ s => ∃ pend done, Pending s pend done)
    ⟨[],[],rfl,rfl,fun _ ha => absurd ha List.not_mem_nil,fun _ ha => absurd ha List.not_mem_nil,rfl⟩
    (fun _ _ _ _ _ ⟨_,_,hp⟩ hs hu => hp.step hs hu)

theorem Pending.told_eq {s : Tracked} {pend done : List ℕ} (h : Pending s pend done) :
    s.when Out.tells = (s.notes.filter fun a => roundUp 40 a ≤ s.cnt).map (roundUp 40) := by
  have hpend : pend.filter (fun a => roundUp 40 a ≤ s.cnt) = [] :=
    List.filter_eq_nil_iff.mpr fun a ha => by simpa using (h.ahead a ha).2
  have hdone : done.filter (fun a => roundUp 40 a ≤ s.cnt) = done :=
    List.filter_eq_self.mpr fun a ha => by simpa using h.past a ha
  rw [h.told,h.notes,List.filter_append,hpend,hdone,List.nil_append]

/-- Every error that a check finds is told once, at the end of its two seconds, and nothing else is told. -/
theorem run_found_told (ncn : List NodeRec) (es : List Event) (s : Tracked) (h : Run step Brief (booted ncn) es s) :
    s.when Out.tells = (s.notes.filter fun a => roundUp 40 a ≤ s.cnt).map (roundUp 40) := by
  obtain ⟨pend,done,hp⟩ := run_pending h
  exact hp.told_eq

/-- Channel 7 is in use, and had two errors. -/
def twoErrors : Env := ⟨fun i => if i = 7 then ⟨1,0x2000,0,0⟩ else ⟨0,0,0,0⟩,true⟩

/-- An upgrade ends, and four seconds pass. -/
def fourSeconds : List Event := .otaEnd::.replicate 80 (.tick twoErrors)

theorem fourSeconds_run : ∃ s, Run step Brief (booted []) fourSeconds.reverse s ∧ s.cnt = 80 ∧ s.notes = [4] ∧
    s.ends = [0] := by
  obtain ⟨s,hrun,hs⟩ := run_of_exec_map (checked (fun (s : Tracked) _ => decide (s.cnt+1 < 2^32)) step) (booted [])
    fourSeconds (fun s => decide (s.cnt = 80 ∧ s.notes = [4] ∧ s.ends = [0])) (by decide +kernel)
  have hbrief : Run step Brief (booted []) fourSeconds.reverse s := hrun.of_checked fun _ s _ h =>
    of_decide_eq_true (p := s.cnt+1 < 2^32) h
  exact ⟨s,hbrief,of_decide_eq_true hs⟩

theorem fourSeconds_told : ∃ s, Run step Brief (booted []) fourSeconds.reverse s ∧ s.when Out.tells = [40] := by
  obtain ⟨s,hrun,hcnt,hnotes,-⟩ := fourSeconds_run
  refine ⟨s,hrun,?_⟩
  rw [run_found_told [] _ s hrun,hcnt,hnotes]
  rfl

/-! ### What stays different is found -/

/-- Channel `i` still has the counts `h` and no check has run since, but one will by the tick `D`. -/
def Waiting (c i : ℕ) (h : SigHistory) (u : Tracked) : Prop :=
  u.sysm.sighis i = h ∧ ∃ D, 4 ∣ D ∧ D ≤ c+44 ∧ u.cnt < D ∧ (u.sysm.sigerr ≠ 0 → 40 ∣ D-4 ∧ u.cnt < D-4)

/-- An error was found in the 44 ticks after `c`. -/
def Found (c : ℕ) (u : Tracked) : Prop := ∃ a ∈ u.notes, c < a ∧ a ≤ c+44 ∧ 4 ∣ a

/-- Where a tick comes, the counts of channel `i` are not `h`. -/
def Stays (i : ℕ) (h : SigHistory) : List Event → Tracked → Event → Prop := fun _ s e =>
  s.cnt+1 < 2^32 ∧ ∀ env, e = .tick env → Differs (env.regs i) h

theorem cnt_le {s u : Tracked} {e : Event} (hs : s.cnt+1 < 2^32) (hu : step s e = some u) : s.cnt ≤ u.cnt := by
  rcases step_cases hu with ⟨env,rfl⟩ | ⟨_,_,_,rfl⟩
  · obtain rfl := Option.some.inj hu
    exact (Nat.le_succ _).trans (tick_cnt hs).ge
  · exact le_refl _

theorem waiting_start (i : ℕ) (s : Tracked) : Waiting s.cnt i (s.sysm.sighis i) s := by
  refine ⟨rfl,?_⟩
  by_cases h0 : s.sysm.sigerr = 0
  · exact ⟨(s.cnt/4+1)*4,Nat.dvd_mul_left _ _,by omega,by omega,fun h => absurd h0 h⟩
  · exact ⟨(s.cnt/40+1)*40+4,by omega,by omega,by omega,fun _ => ⟨Nat.dvd_mul_left _ _,by omega⟩⟩

theorem Found.step {c : ℕ} {s u : Tracked} {e : Event} (h : Found c s) (hu : step s e = some u) : Found c u := by
  obtain ⟨a,ha,hrest⟩ := h
  refine ⟨a,?_,hrest⟩
  rcases step_cases hu with ⟨env,rfl⟩ | ⟨_,_,_,rfl⟩
  · obtain rfl := Option.some.inj hu
    show a ∈ if finds s.sysm env then (s.cnt+1)::s.notes else s.notes
    split_ifs
    · exact List.mem_cons_of_mem _ ha
    · exact ha
  · exact ha

theorem Waiting.tick {c i : ℕ} {h : SigHistory} {s u : Tracked} {env : Env} (hw : Waiting c i h s) (hi : i < 254)
    (hc : c ≤ s.cnt) (hs : s.cnt+1 < 2^32) (hd : Differs (env.regs i) h) (hu : step s (.tick env) = some u) :
    Waiting c i h u ∨ Found c u := by
  obtain rfl := Option.some.inj hu
  obtain ⟨hhis,D,h4D,hD,hlt,hlater⟩ := hw
  have hcnt : (s.sysm.sysTimerTick env).1.cnt.toNat = s.cnt+1 := tick_cnt hs
  have hsig : (s.sysm.sysTimerTick env).1.sigerr =
      if 40 ∣ s.cnt+1 then 0
      else if 4 ∣ s.cnt+1 ∧ s.sysm.sigerr = 0 then (atbsigCheck env.regs s.sysm.sighis).2 else s.sysm.sigerr :=
    tick_sigerr hs
  by_cases hcheck : 4 ∣ s.cnt+1 ∧ s.sysm.sigerr = 0
  · -- the check finds channel `i`
    have hflag : (atbsigCheck env.regs s.sysm.sighis).2 ≠ 0 := atbsigCheck_finds.mpr ⟨i,hi,hhis ▸ hd⟩
    have hf : finds s.sysm env := (finds_eq hs).mpr ⟨hcheck.1,hcheck.2,hflag⟩
    refine Or.inr ⟨s.cnt+1,?_,Nat.lt_succ_of_le hc,by omega,hcheck.1⟩
    show s.cnt+1 ∈ if finds s.sysm env then (s.cnt+1)::s.notes else s.notes
    rw [if_pos hf]
    exact List.mem_cons_self
  · refine Or.inl ⟨?_,D,h4D,hD,?_,?_⟩
    · rw [tick_sighis hs hcheck,hhis]
    · rw [Tracked.cnt,hcnt]
      by_cases h0 : s.sysm.sigerr = 0
      · have hn4 : ¬4 ∣ s.cnt+1 := fun h4 => hcheck ⟨h4,h0⟩
        omega
      · have := hlater h0
        omega
    · intro hne
      rw [hsig,if_neg hcheck] at hne
      rw [Tracked.cnt,hcnt]
      by_cases h40 : 40 ∣ s.cnt+1
      · rw [if_pos h40] at hne
        exact absurd rfl hne
      · rw [if_neg h40] at hne
        have := hlater hne
        omega

theorem Waiting.step {c i : ℕ} {h : SigHistory} {s u : Tracked} {e : Event} (hw : Waiting c i h s) (hi : i < 254)
    (hc : c ≤ s.cnt) (hs : s.cnt+1 < 2^32) (hd : ∀ env, e = .tick env → Differs (env.regs i) h)
    (hu : step s e = some u) : Waiting c i h u ∨ Found c u := by
  rcases step_cases hu with ⟨env,rfl⟩ | ⟨_,_,_,rfl⟩
  · exact hw.tick hi hc hs (hd env rfl) hu
  · exact Or.inl hw

/-- While the counts of a channel in use are not the ones seen last, an error is found within 44 ticks and told
within 80. -/
theorem run_lasting (ncn : List NodeRec) (es₁ es₂ : List Event) (s u : Tracked) (i : ℕ)
    (h₁ : Run step Brief (booted ncn) es₁ s) (hi : i < 254)
    (h₂ : Run step (Stays i (s.sysm.sighis i)) s es₂ u) (hlong : s.cnt+80 ≤ u.cnt) :
    ∃ a ∈ u.notes, s.cnt < a ∧ a ≤ s.cnt+44 ∧ roundUp 40 a ∈ u.when Out.tells ∧ roundUp 40 a ≤ s.cnt+80 := by
  have hinv : (∃ pend done, Pending u pend done) ∧ s.cnt ≤ u.cnt ∧
      (Waiting s.cnt i (s.sysm.sighis i) u ∨ Found s.cnt u) := by
    refine h₂.invariant (I := fun _ u => (∃ pend done, Pending u pend done) ∧ s.cnt ≤ u.cnt ∧
      (Waiting s.cnt i (s.sysm.sighis i) u ∨ Found s.cnt u)) ⟨run_pending h₁,le_refl _,Or.inl (waiting_start i s)⟩ ?_
    rintro - v e w - ⟨⟨_,_,hp⟩,hle,hwf⟩ ⟨hs,hd⟩ hw
    refine ⟨hp.step hs hw,?_,?_⟩
    · exact hle.trans (cnt_le hs hw)
    · rcases hwf with hwait | hfound
      · exact hwait.step hi hle hs hd hw
      · exact Or.inr (hfound.step hw)
  obtain ⟨⟨pend,done,hp⟩,-,⟨-,D,-,hD,hlt,-⟩ | ⟨a,ha,hca,hac,h4⟩⟩ := hinv
  · omega
  · have hle : roundUp 40 a ≤ s.cnt+80 := by
      unfold roundUp
      omega
    refine ⟨a,ha,hca,hac,?_,hle⟩
    rw [hp.told_eq]
    exact List.mem_map.mpr ⟨a,List.mem_filter.mpr ⟨ha,by simpa using hle.trans hlong⟩,rfl⟩

def staysCheck (i : ℕ) (h : SigHistory) (s : Tracked) : Event → Bool
  | .tick env => s.cnt+1 < 2^32 ∧ Differs (env.regs i) h
  | _ => s.cnt+1 < 2^32

theorem staysCheck_stays {i : ℕ} {h : SigHistory} (es : List Event) (s : Tracked) (e : Event)
    (hc : staysCheck i h s e = true) : Stays i h es s e := by
  cases e with
  | tick env =>
    have hc := of_decide_eq_true hc
    exact ⟨hc.1,fun env' he => Event.tick.inj he ▸ hc.2⟩
  | otaEnd => exact ⟨of_decide_eq_true hc,fun env' he => Event.noConfusion he⟩
  | online nodeid => exact ⟨of_decide_eq_true hc,fun env' he => Event.noConfusion he⟩

theorem twoErrors_lasting : ∃ (u : Tracked) (a : ℕ), u.cnt = 80 ∧ a ∈ u.notes ∧ a ≤ 44 ∧
    roundUp 40 a ∈ u.when Out.tells := by
  obtain ⟨u,hrun,hu⟩ := run_of_exec_map (checked (staysCheck 7 ⟨0,0⟩) step) (booted []) fourSeconds
    (fun s => decide (s.cnt = 80)) (by decide +kernel)
  have hcnt : u.cnt = 80 := of_decide_eq_true hu
  have hbrief : Run step Brief (booted []) [] (booted []) := .nil
  have hstays : Run step (Stays 7 ⟨0,0⟩) (booted []) fourSeconds.reverse u := hrun.of_checked staysCheck_stays
  obtain ⟨a,ha,-,hle,htold,-⟩ := run_lasting [] [] _ (booted []) u 7 hbrief (by decide) hstays hcnt.ge
  exact ⟨u,a,hcnt,ha,hle,htold⟩

/-! ### The restart after an upgrade -/

/-- The ticks at which the device restarts by the tick `c`, where upgrades end after the ticks of the list, the newest
first: at the third full second after an end, unless another upgrade ended before. -/
def restartsBy (c : ℕ) : List ℕ → List ℕ
  | [] => []
  | e::es => (if 20*(e/20+3) ≤ c then [20*(e/20+3)] else []) ++ restartsBy e es

/-- `reboot_delay` after the tick `c`. -/
def delayAt (c : ℕ) : List ℕ → ℕ
  | [] => 0
  | e::_ => if 20*(e/20+3) ≤ c then 0 else 15+(c/20-e/20)

section Seconds

variable {c : ℕ} {ends : List ℕ} (h : ∀ e ∈ ends, e ≤ c)

include h

theorem restartsBy_succ :
    restartsBy (c+1) ends =
      List.replicate (if 20 ∣ c+1 ∧ 16 < delayAt c ends then 1 else 0) (c+1) ++ restartsBy c ends := by
  rcases ends with _ | ⟨e,es⟩
  · simp [restartsBy,delayAt]
  have he : e ≤ c := h e List.mem_cons_self
  have hdelay : delayAt c (e::es) = if 20*(e/20+3) ≤ c then 0 else 15+(c/20-e/20) := rfl
  simp only [restartsBy]
  by_cases hdue : 20*(e/20+3) ≤ c
  · rw [if_pos hdue] at hdelay
    simp [hdue,Nat.le_succ_of_le hdue,hdelay]
  rw [if_neg hdue] at hdelay
  by_cases hnow : 20*(e/20+3) = c+1
  · have hc : 20 ∣ c+1 ∧ 16 < delayAt c (e::es) := by omega
    simp [hnow,hc]
  · have hc : ¬(20 ∣ c+1 ∧ 16 < delayAt c (e::es)) := by omega
    have hnot : ¬20*(e/20+3) ≤ c+1 := by omega
    rw [if_neg hdue,if_neg hc,if_neg hnot]
    rfl

theorem delayAt_succ :
    delayAt (c+1) ends =
      if 20 ∣ c+1 ∧ 16 < delayAt c ends then 0
      else if 20 ∣ c+1 ∧ 14 < delayAt c ends then delayAt c ends+1 else delayAt c ends := by
  rcases ends with _ | ⟨e,es⟩
  · simp [delayAt]
  have he : e ≤ c := h e List.mem_cons_self
  simp only [delayAt]
  split_ifs <;> omega

end Seconds

theorem second_toNat {s : Sysm} :
    s.second.1.rebootDelay.toNat =
      if 16 < s.rebootDelay.toNat then 0
      else if 14 < s.rebootDelay.toNat then s.rebootDelay.toNat+1 else s.rebootDelay.toNat := by
  have h16 : 16 < s.rebootDelay ↔ 16 < s.rebootDelay.toNat := UInt8.lt_iff_toNat_lt
  have h14 : 14 < s.rebootDelay ↔ 14 < s.rebootDelay.toNat := UInt8.lt_iff_toNat_lt
  rw [second_rebootDelay]
  simp only [h16,h14]
  split_ifs
  · rfl
  · rw [UInt8.toNat_add]
    show (s.rebootDelay.toNat+1) % 256 = _
    omega
  · rfl

/-- The delay counts the seconds since the last end. -/
structure Delayed (s : Tracked) : Prop where
  restarts : s.when Out.restarts = restartsBy s.cnt s.ends
  delay : s.sysm.rebootDelay.toNat = delayAt s.cnt s.ends
  past : ∀ e ∈ s.ends, e ≤ s.cnt

theorem Delayed.tick {s u : Tracked} {env : Env} (h : Delayed s) (hs : s.cnt+1 < 2^32)
    (hu : step s (.tick env) = some u) : Delayed u := by
  obtain rfl := Option.some.inj hu
  have hcnt : (s.sysm.sysTimerTick env).1.cnt.toNat = s.cnt+1 := tick_cnt hs
  have h16 : 16 < s.sysm.rebootDelay ↔ 16 < s.sysm.rebootDelay.toNat := UInt8.lt_iff_toNat_lt
  refine ⟨?_,?_,fun e he => ?_⟩
  · have hcount : (s.sysm.sysTimerTick env).2.countP Out.restarts =
        if 20 ∣ s.cnt+1 ∧ 16 < s.sysm.rebootDelay then 1 else 0 := tick_restarts hs
    show _ = restartsBy (s.sysm.sysTimerTick env).1.cnt.toNat s.ends
    rw [when_tick,h.restarts,hcount,hcnt,restartsBy_succ h.past]
    simp only [h16,h.delay]
  · have hnew : (s.sysm.sysTimerTick env).1.rebootDelay =
        if 20 ∣ s.cnt+1 then s.sysm.second.1.rebootDelay else s.sysm.rebootDelay := tick_rebootDelay hs
    show (s.sysm.sysTimerTick env).1.rebootDelay.toNat = delayAt (s.sysm.sysTimerTick env).1.cnt.toNat s.ends
    rw [hcnt,delayAt_succ h.past,hnew,← h.delay]
    by_cases h20 : 20 ∣ s.cnt+1
    · simp only [h20,if_true,true_and]
      exact second_toNat
    · simp [h20]
  · rw [Tracked.cnt,hcnt]
    exact Nat.le_succ_of_le (h.past e he)

theorem Delayed.otaEnd {s u : Tracked} (h : Delayed s) (hu : step s .otaEnd = some u) : Delayed u := by
  obtain rfl := Option.some.inj hu
  have hdue : ¬20*(s.cnt/20+3) ≤ s.cnt := by omega
  refine ⟨?_,?_,fun e he => ?_⟩
  · show s.when Out.restarts = (if 20*(s.cnt/20+3) ≤ s.cnt then _ else _) ++ restartsBy s.cnt s.ends
    rw [if_neg hdue,h.restarts]
    rfl
  · show (15 : UInt8).toNat = if 20*(s.cnt/20+3) ≤ s.cnt then 0 else 15+(s.cnt/20-s.cnt/20)
    rw [if_neg hdue,Nat.sub_self]
    rfl
  · rcases List.mem_cons.mp he with rfl | he
    · exact le_refl _
    · exact h.past e he

/-- After an upgrade the device restarts at the third full second, once, unless another upgrade ends before, and it
restarts at no other tick. -/
theorem run_restarts (ncn : List NodeRec) (es : List Event) (s : Tracked) (h : Run step Brief (booted ncn) es s) :
    s.when Out.restarts = restartsBy s.cnt s.ends := by
  have hd : Delayed s := by
    refine h.invariant (I := fun _ s => Delayed s) ⟨rfl,rfl,fun e he => absurd he List.not_mem_nil⟩ ?_
    intro _ s e u _ hd hs hu
    cases e with
    | tick env => exact hd.tick hs hu
    | otaEnd => exact hd.otaEnd hu
    | online nodeid =>
      obtain rfl := Option.some.inj hu
      exact ⟨hd.restarts,hd.delay,hd.past⟩
  exact hd.restarts

theorem fourSeconds_restarts : ∃ s, Run step Brief (booted []) fourSeconds.reverse s ∧ s.when Out.restarts = [60] := by
  obtain ⟨s,hrun,hcnt,-,hends⟩ := fourSeconds_run
  refine ⟨s,hrun,?_⟩
  rw [run_restarts [] _ s hrun,hcnt,hends]
  rfl

end Ticks
end Autbus
