import Autbus.Bytes
import Mathlib.Tactic.IntervalCases

/-! The console command that sets `pre_res` (`debug_cmd_cfg_pre_res` of `tmux.c`): the values it
parses, what it stores of them, and what it saves to flash. -/
namespace Autbus
namespace Commands

open Bytes

/-- A C string without its NUL. -/
abbrev Str := List UInt8

/-! ### Numbers -/

/-- The value of a digit, of a letter for the bases above 10. -/
def digit (c : UInt8) : Option ℕ :=
  if 0x30 ≤ c ∧ c ≤ 0x39 then some (c.toNat-0x30)
  else if 0x41 ≤ c ∧ c ≤ 0x46 then some (c.toNat-0x37)
  else if 0x61 ≤ c ∧ c ≤ 0x66 then some (c.toNat-0x57)
  else none

def isDigit (base : ℕ) (c : UInt8) : Bool := (digit c).any fun d => d < base

/-- The number in front of a string, and what follows it. -/
def digits (base : ℕ) : Str → ℕ → ℕ × Str
  | [], acc => (acc,[])
  | c::s, acc => if isDigit base c then digits base s (acc*base+(digit c).getD 0) else (acc,c::s)

/-- `strtoull` on a string that begins with a digit: the number, at most the largest one of 64
bits, and what `pend` points to. -/
def strtoull (str : Str) (base : ℕ) : ℕ × Str :=
  let hex := base = 16 ∧ str.getD 0 0 = 0x30 ∧ (str.getD 1 0 = 0x58 ∨ str.getD 1 0 = 0x78) ∧
    isDigit 16 (str.getD 2 0) = true
  let r := digits base (if hex then str.drop 2 else str) 0
  (min r.1 (2^64-1),r.2)

/-- The check of what `strtoull` returns, with the codes for text behind it and for a number
that is too large. -/
def checkUint (r : ℕ × Str) (text large : ℕ) : Except ℕ UInt32 :=
  if r.2.getD 0 0 ≠ 0 then .error text
  else if 0xffffffff < r.1 then .error large
  else .ok (UInt32.ofNat r.1)

/-- `debug_str2uint`. -/
def debugStr2uint (str : Str) : Except ℕ UInt32 :=
  if str.getD 0 0 = 0x30 then
    if str.getD 1 0 = 0 then .ok 0
    else if str.getD 1 0 = 0x58 ∨ str.getD 1 0 = 0x78 then checkUint (strtoull str 16) 1 2
    else .error 3
  else if 0x31 ≤ str.getD 0 0 ∧ str.getD 0 0 ≤ 0x39 then checkUint (strtoull str 10) 4 5
  else .error 6

/-! ### The command -/

/-- `pre_res_config_t`. -/
structure PreResConfig where
  num : UInt8
  chan : UInt8
  freq : UInt8
  len : UInt8
  magic : UInt32
  state : UInt8
  deriving DecidableEq

/-- The structure in memory. -/
def PreResConfig.bytes (p : PreResConfig) : List UInt8 :=
  [p.num,p.chan,p.freq,p.len] ++ le32 p.magic.toNat ++ [p.state]

/-- `PRE_RES_MAGIC`. -/
def preResMagic : UInt32 := 0x55666655

/-- `pre_res`, and what the flash holds. -/
structure State where
  preRes : PreResConfig
  flash : Mem

/-- Erased bytes read as ones. -/
def erase (m : Mem) (ofs n : ℕ) : Mem := fun a => if ofs ≤ a ∧ a < ofs+n then 0xFF else m a

/-- `flash_save_pre_res`; `iret` is what `write` returns, the number of bytes it has written or
an error. `ofs` is `PRE_RES_OFFSET`. -/
def flashSavePreRes (ofs : ℕ) (iret : ℤ) (s : State) : State × ℤ :=
  let preRes := {s.preRes with magic := preResMagic}
  let flash := store (erase s.flash ofs 0x1000) ofs (preRes.bytes.take iret.toNat)
  (⟨preRes,flash⟩,if iret ≠ 9 then iret else 0)

/-- `debug_cmd_cfg_pre_res`; `none` stands for a division by zero. -/
def debugCmdCfgPreRes (ofs : ℕ) (iret : ℤ) (argv : List Str) (s : State) : Option State :=
  if argv.length < 5 then some s
  else
    match debugStr2uint (argv.getD 1 []) with
    | .error _ => some s
    | .ok temp =>
      let s := {s with preRes := {s.preRes with num := temp.toUInt8}}
      match debugStr2uint (argv.getD 2 []) with
      | .error _ => some s
      | .ok temp =>
        let s := {s with preRes := {s.preRes with chan := temp.toUInt8}}
        match debugStr2uint (argv.getD 3 []) with
        | .error _ => some s
        | .ok temp =>
          let s := {s with preRes := {s.preRes with freq := temp.toUInt8}}
          match debugStr2uint (argv.getD 4 []) with
          | .error _ => some s
          | .ok temp =>
            let s := {s with preRes := {s.preRes with len := temp.toUInt8}}
            if s.preRes.freq = 0 then none
            else if 56 < s.preRes.len.toNat*s.preRes.num.toNat/s.preRes.freq.toNat then some s
            else some (flashSavePreRes ofs iret s).1

/-! ### All or nothing -/

/-- The values of the arguments up to the first one that does not parse. -/
def values : List Str → List UInt32
  | [] => []
  | a::as =>
    match debugStr2uint a with
    | .error _ => []
    | .ok v => v::values as

/-- The four values of the command, as far as they parse. -/
def parsed (argv : List Str) : List UInt32 := values ((argv.drop 1).take 4)

/-- The capacity check lets the values pass. -/
def CapacityOk (num freq len : UInt8) : Prop := freq ≠ 0 ∧ len.toNat*num.toNat/freq.toNat ≤ 56

instance (num freq len : UInt8) : Decidable (CapacityOk num freq len) := inferInstanceAs (Decidable (_ ∧ _))

/-- The values are stored as they were parsed, and the flash holds them. -/
structure Stored (ofs : ℕ) (num chan freq len : UInt32) (t : State) : Prop where
  num : t.preRes.num.toNat = num.toNat
  chan : t.preRes.chan.toNat = chan.toNat
  freq : t.preRes.freq.toNat = freq.toNat
  len : t.preRes.len.toNat = len.toNat
  saved : read t.flash ofs 9 = t.preRes.bytes

/-- What the command is to do: store and save four values that pass the check, and nothing else. -/
def Right (ofs : ℕ) (argv : List Str) (s t : State) : Prop :=
  match parsed argv with
  | [num,chan,freq,len] =>
    if CapacityOk num.toUInt8 freq.toUInt8 len.toUInt8 then Stored ofs num chan freq len t else t = s
  | _ => t = s

/-- The values that are kept are the bytes that are there already. -/
def SameBytes (p : PreResConfig) (vs : List UInt32) : Prop :=
  vs.map UInt32.toUInt8 = [p.num,p.chan,p.freq,p.len].take vs.length

/-- When the command does what it is to do. Four values that pass the check are below 256 and
are written completely, up to a last byte that reads as erased; what is stored of values that
do not pass, or of those in front of one that does not parse, changes nothing. -/
def Safe (iret : ℤ) (argv : List Str) (s : State) : Prop :=
  match parsed argv with
  | [num,chan,freq,len] =>
    if CapacityOk num.toUInt8 freq.toUInt8 len.toUInt8 then
      (num.toNat < 256 ∧ chan.toNat < 256 ∧ freq.toNat < 256 ∧ len.toNat < 256) ∧
        (9 ≤ iret ∨ iret = 8 ∧ s.preRes.state = 0xFF)
    else freq.toUInt8 ≠ 0 ∧ SameBytes s.preRes [num,chan,freq,len]
  | vs => 5 ≤ argv.length → SameBytes s.preRes vs

variable {ofs : ℕ} {iret : ℤ} {argv : List Str} {s t : State}

/-! ### The save -/

theorem length_bytes (p : PreResConfig) : p.bytes.length = 9 := rfl

/-- Erased flash that is written reads as what was written, then as ones. -/
theorem read_save (m : Mem) (ofs : ℕ) {b : List UInt8} {n : ℕ} (hb : b.length ≤ n) (hn : n ≤ 0x1000) :
    read (store (erase m ofs 0x1000) ofs b) ofs n = b ++ List.replicate (n-b.length) 0xFF := by
  obtain ⟨k,rfl⟩ := Nat.exists_eq_add_of_le hb
  rw [read_add,read_store,read_store_frame (Or.inr (Nat.le_refl _)),Nat.add_sub_cancel_left]
  congr 1
  refine List.eq_replicate_iff.mpr ⟨read_length _ _ _,fun x hx => ?_⟩
  obtain ⟨i,hi,rfl⟩ := List.mem_map.mp hx
  have hi := List.mem_range.mp hi
  exact if_pos ⟨by omega,by omega⟩

/-- What `write` leaves out of the structure reads right when it is a last byte of ones. -/
theorem drop_bytes_iff (p : PreResConfig) (hp : p.magic = preResMagic) (n : ℕ) :
    p.bytes.drop n = List.replicate (9-n) 0xFF ↔ 9 ≤ n ∨ n = 8 ∧ p.state = 0xFF := by
  have hbytes : p.bytes = [p.num,p.chan,p.freq,p.len,0x55,0x66,0x66,0x55,p.state] := by
    unfold PreResConfig.bytes
    rw [hp]
    rfl
  rw [hbytes]
  rcases Nat.lt_or_ge n 9 with hlt | hge
  · interval_cases n <;> simp [List.replicate_succ]
  · rw [List.drop_of_length_le hge,Nat.sub_eq_zero_of_le hge]
    simp [hge]

theorem saved_iff (ofs : ℕ) (iret : ℤ) (s : State) :
    read (flashSavePreRes ofs iret s).1.flash ofs 9 = (flashSavePreRes ofs iret s).1.preRes.bytes ↔
    9 ≤ iret ∨ iret = 8 ∧ s.preRes.state = 0xFF := by
  unfold flashSavePreRes
  dsimp only
  generalize hp : PreResConfig.mk s.preRes.num s.preRes.chan s.preRes.freq s.preRes.len preResMagic s.preRes.state = p
  have hmagic : p.magic = preResMagic := by rw [← hp]
  have hstate : p.state = s.preRes.state := by rw [← hp]
  have hlen : (p.bytes.take iret.toNat).length = min iret.toNat 9 := by rw [List.length_take,length_bytes]
  have hsplit : p.bytes.take iret.toNat ++ List.replicate (9-min iret.toNat 9) 0xFF = p.bytes ↔
      p.bytes.drop iret.toNat = List.replicate (9-iret.toNat) 0xFF := by
    rw [show 9-min iret.toNat 9 = 9-iret.toNat by omega]
    conv_lhs =>
      rhs
      rw [← List.take_append_drop iret.toNat p.bytes]
    rw [List.append_right_inj,eq_comm]
  have hnine : 9 ≤ iret.toNat ↔ 9 ≤ iret := by omega
  have height : iret.toNat = 8 ↔ iret = 8 := by omega
  rw [read_save _ _ (by omega) (by omega),hlen,hsplit,drop_bytes_iff p hmagic,hstate,hnine,height]

/-! ### The command -/

theorem values_ok {a : Str} {as : List Str} {v : UInt32} (h : debugStr2uint a = .ok v) :
    values (a::as) = v::values as := by
  rw [values,h]

theorem values_error {a : Str} {as : List Str} {e : ℕ} (h : debugStr2uint a = .error e) : values (a::as) = [] := by
  rw [values,h]

theorem toUInt8_eq_iff {v : UInt32} : v.toUInt8.toNat = v.toNat ↔ v.toNat < 256 := by
  rw [UInt32.toNat_toUInt8]
  omega

/-- Four values that pass the check are stored and saved when they are bytes and all is written. -/
theorem stored_iff (ofs : ℕ) {num chan freq len : UInt32} {p : PreResConfig}
    (hp : p = ⟨num.toUInt8,chan.toUInt8,freq.toUInt8,len.toUInt8,s.preRes.magic,s.preRes.state⟩) :
    Stored ofs num chan freq len (flashSavePreRes ofs iret ⟨p,s.flash⟩).1 ↔
      (num.toNat < 256 ∧ chan.toNat < 256 ∧ freq.toNat < 256 ∧ len.toNat < 256) ∧
        (9 ≤ iret ∨ iret = 8 ∧ s.preRes.state = 0xFF) := by
  have hsaved := saved_iff ofs iret ⟨p,s.flash⟩
  subst hp
  rw [← toUInt8_eq_iff (v:=num),← toUInt8_eq_iff (v:=chan),← toUInt8_eq_iff (v:=freq),← toUInt8_eq_iff (v:=len)]
  constructor
  · intro h
    exact ⟨⟨h.num,h.chan,h.freq,h.len⟩,hsaved.mp h.saved⟩
  · rintro ⟨⟨hnum,hchan,hfreq,hlen⟩,hwritten⟩
    exact ⟨hnum,hchan,hfreq,hlen,hsaved.mpr hwritten⟩

theorem state_eq_iff {p : PreResConfig} : State.mk p s.flash = s ↔ p = s.preRes := by
  cases s
  simp

/-- The command on its four arguments. -/
def run (ofs : ℕ) (iret : ℤ) (s : State) : List UInt32 → Option State
  | [num,chan,freq,len] =>
    let p := ⟨num.toUInt8,chan.toUInt8,freq.toUInt8,len.toUInt8,s.preRes.magic,s.preRes.state⟩
    if freq.toUInt8 = 0 then none
    else if CapacityOk num.toUInt8 freq.toUInt8 len.toUInt8 then some (flashSavePreRes ofs iret ⟨p,s.flash⟩).1
    else some ⟨p,s.flash⟩
  | [num,chan,freq] => some {s with preRes := {s.preRes with num := num.toUInt8,chan := chan.toUInt8,freq := freq.toUInt8}}
  | [num,chan] => some {s with preRes := {s.preRes with num := num.toUInt8,chan := chan.toUInt8}}
  | [num] => some {s with preRes := {s.preRes with num := num.toUInt8}}
  | _ => some s

/-- It stores the values as they parse and checks them when all are there. -/
theorem debugCmdCfgPreRes_eq (h : 5 ≤ argv.length) : debugCmdCfgPreRes ofs iret argv s = run ofs iret s (parsed argv) := by
  obtain ⟨c,a₁,a₂,a₃,a₄,as,rfl⟩ : ∃ c a₁ a₂ a₃ a₄ as, argv = c::a₁::a₂::a₃::a₄::as := by
    match argv,h with
    | c::a₁::a₂::a₃::a₄::as,_ => exact ⟨c,a₁,a₂,a₃,a₄,as,rfl⟩
  show debugCmdCfgPreRes ofs iret _ s = run ofs iret s (values [a₁,a₂,a₃,a₄])
  unfold debugCmdCfgPreRes
  rw [if_neg (Nat.not_lt.mpr h)]
  simp only [List.getD_cons_succ,List.getD_cons_zero]
  cases h₁ : debugStr2uint a₁ with
  | error e => rw [values_error h₁]; rfl
  | ok num =>
    rw [values_ok h₁]
    cases h₂ : debugStr2uint a₂ with
    | error e => rw [values_error h₂]; rfl
    | ok chan =>
      rw [values_ok h₂]
      cases h₃ : debugStr2uint a₃ with
      | error e => rw [values_error h₃]; rfl
      | ok freq =>
        rw [values_ok h₃]
        cases h₄ : debugStr2uint a₄ with
        | error e => rw [values_error h₄]; rfl
        | ok len =>
          rw [values_ok h₄]
          dsimp only [run,values]
          by_cases hfreq : freq.toUInt8 = 0
          · rw [if_pos hfreq,if_pos hfreq]
          · rw [if_neg hfreq,if_neg hfreq]
            by_cases hcap : len.toUInt8.toNat*num.toUInt8.toNat/freq.toUInt8.toNat ≤ 56
            · rw [if_neg (Nat.not_lt.mpr hcap),if_pos ⟨hfreq,hcap⟩]
            · rw [if_pos (Nat.not_le.mp hcap),if_neg fun hc => hcap hc.2]

theorem values_length (as : List Str) : (values as).length ≤ as.length := by
  induction as with
  | nil => exact Nat.le_refl 0
  | cons a as ih =>
    unfold values
    split
    · exact Nat.zero_le _
    · exact Nat.succ_le_succ ih

theorem parsed_length (argv : List Str) : (parsed argv).length ≤ argv.length-1 := by
  refine (values_length _).trans ?_
  rw [List.length_take,List.length_drop]
  exact Nat.min_le_right _ _

theorem parsed_length_four (argv : List Str) : (parsed argv).length ≤ 4 := by
  refine (values_length _).trans ?_
  rw [List.length_take]
  exact Nat.min_le_left _ _

/-- What is stored in front of a value that does not parse or of a failed check. -/
theorem run_some_iff {vs : List UInt32} {p : PreResConfig} (hrun : run ofs iret s vs = some ⟨p,s.flash⟩)
    (hp : p = s.preRes ↔ SameBytes s.preRes vs) : (∃ t, run ofs iret s vs = some t ∧ t = s) ↔ SameBytes s.preRes vs := by
  rw [← hp,← state_eq_iff]
  constructor
  · rintro ⟨t,ht,rfl⟩
    exact Option.some.inj (hrun.symm.trans ht)
  · intro h
    exact ⟨_,hrun,h⟩

theorem preRes_eq_iff {p q : PreResConfig} : p = q ↔
    (p.num = q.num ∧ p.chan = q.chan ∧ p.freq = q.freq ∧ p.len = q.len) ∧ p.magic = q.magic ∧ p.state = q.state := by
  cases p
  cases q
  simp only [PreResConfig.mk.injEq]
  tauto

/-- With all four values the check of the capacity decides. -/
theorem run_four_iff {num chan freq len : UInt32} (hp : parsed argv = [num,chan,freq,len]) :
    (∃ t, run ofs iret s [num,chan,freq,len] = some t ∧ Right ofs argv s t) ↔ Safe iret argv s := by
  unfold Right Safe
  rw [hp]
  dsimp only
  by_cases hcap : CapacityOk num.toUInt8 freq.toUInt8 len.toUInt8
  · have hrun : run ofs iret s [num,chan,freq,len] = some (flashSavePreRes ofs iret
        ⟨⟨num.toUInt8,chan.toUInt8,freq.toUInt8,len.toUInt8,s.preRes.magic,s.preRes.state⟩,s.flash⟩).1 := by
      dsimp only [run]
      rw [if_neg hcap.1,if_pos hcap]
    rw [if_pos hcap,hrun,← stored_iff ofs rfl]
    simp [hcap]
  · rw [if_neg hcap]
    simp only [if_neg hcap]
    by_cases hfreq : freq.toUInt8 = 0
    · have hrun : run ofs iret s [num,chan,freq,len] = none := if_pos hfreq
      simp [hrun,hfreq]
    · have hrun : run ofs iret s [num,chan,freq,len] = some
          ⟨⟨num.toUInt8,chan.toUInt8,freq.toUInt8,len.toUInt8,s.preRes.magic,s.preRes.state⟩,s.flash⟩ := by
        dsimp only [run]
        rw [if_neg hfreq,if_neg hcap]
      refine (run_some_iff hrun ?_).trans ⟨fun h => ⟨hfreq,h⟩,fun h => h.2⟩
      simp [SameBytes,preRes_eq_iff]

/-- The command divides by no zero and does all of its work or none of it just when it is safe. -/
theorem debugCmdCfgPreRes_right_iff (ofs : ℕ) (iret : ℤ) (argv : List Str) (s : State) :
    (∃ t, debugCmdCfgPreRes ofs iret argv s = some t ∧ Right ofs argv s t) ↔ Safe iret argv s := by
  by_cases hargc : 5 ≤ argv.length
  · rw [debugCmdCfgPreRes_eq hargc]
    by_cases hfour : ∃ num chan freq len, parsed argv = [num,chan,freq,len]
    · obtain ⟨num,chan,freq,len,hp⟩ := hfour
      rw [hp]
      exact run_four_iff hp
    · have hlen := parsed_length_four argv
      unfold Right Safe
      match parsed argv,hlen,hfour with
      | [],_,_ =>
        refine (run_some_iff (p:=s.preRes) rfl ?_).trans ⟨fun h _ => h,fun h => h hargc⟩
        simp [SameBytes]
      | [num],_,_ | [num,chan],_,_ | [num,chan,freq],_,_ =>
        refine (run_some_iff rfl ?_).trans ⟨fun h _ => h,fun h => h hargc⟩
        simp [SameBytes,preRes_eq_iff]
      | [num,chan,freq,len],_,hfour => exact absurd ⟨num,chan,freq,len,rfl⟩ hfour
      | _::_::_::_::_::_,hlen,_ => exact absurd hlen (by simp)
  · have hcmd : debugCmdCfgPreRes ofs iret argv s = some s := if_pos (Nat.not_le.mp hargc)
    have hlen := parsed_length argv
    have hfew : (parsed argv).length ≤ 3 := by omega
    rw [hcmd]
    unfold Right Safe
    match parsed argv,hfew with
    | [],_ => simp [hargc]
    | [num],_ => simp [hargc]
    | [num,chan],_ => simp [hargc]
    | [num,chan,freq],_ => simp [hargc]
    | _::_::_::_::_,hfew => exact absurd hfew (by simp)

/-- Nothing is set yet, and the flash is erased. -/
def unset : State := ⟨⟨0,0,0,0,0,0⟩,fun _ => 0xFF⟩

/-- With the arguments 1, 1, 0 and 1 the command divides by zero; with 5, 1 and no number for
the third one the first two are stored all the same. -/
theorem cfgPreRes_not_right :
    debugCmdCfgPreRes 0x2A0000 9 [[0x70],[0x31],[0x31],[0x30],[0x31]] unset = none ∧
      ∃ t, debugCmdCfgPreRes 0x2A0000 9 [[0x70],[0x35],[0x31],[0x78],[0x31]] unset = some t ∧
        t.preRes.num = 5 ∧ ¬Right 0x2A0000 [[0x70],[0x35],[0x31],[0x78],[0x31]] unset t := by
  have hzero : parsed [[0x70],[0x31],[0x31],[0x30],[0x31]] = [1,1,0,1] := by decide
  have htwo : parsed [[0x70],[0x35],[0x31],[0x78],[0x31]] = [5,1] := by decide
  constructor
  · rw [debugCmdCfgPreRes_eq (by decide),hzero]
    rfl
  · rw [debugCmdCfgPreRes_eq (by decide)]
    unfold Right
    rw [htwo]
    refine ⟨_,rfl,rfl,fun h => ?_⟩
    have hnum := congrArg (fun t : State => t.preRes.num) h
    exact absurd hnum (by decide)

end Commands
end Autbus
