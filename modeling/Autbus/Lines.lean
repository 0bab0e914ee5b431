import Autbus.CStrings
import Autbus.Trace
import Mathlib.Data.Int.Notation
import Mathlib.Data.List.GetD

/-! The command line (`tmux.c`): `con_getline` edits a line byte by byte, with a history of four lines.
Its index is kept between calls, with `-1` for no line. Writes are noted, also those that miss. -/
namespace Autbus
namespace Lines

open CStrings Trace

/-- `LINE_LEN`. -/
def lineLen : ℕ := 129

/-- `HIST_NUM`. -/
def histNum : UInt32 := 4

inductive Buf
  | spad
  | his (i : ℕ)
  deriving DecidableEq

/-- A write, with the index in the buffer where it begins. -/
structure Write where
  buf : Buf
  start : ℤ
  len : ℕ
  deriving DecidableEq

/-- The static variables of the line and its history, with the writes to the two buffers. -/
structure Con where
  escValue : UInt32
  sidx : ℤ
  spad : List UInt8
  hisStrs : List (List UInt8)
  hisCur : UInt32
  hisNext : UInt32
  log : List Write
  deriving DecidableEq

namespace Con

variable (c : Con)

/-- `his_strs[i]`. -/
def hisStr (i : UInt32) : List UInt8 := c.hisStrs.getD i.toNat []

/-- `history_prev` and `history_next`, which go `d` further; `none` is `NULL`. -/
def historyGo (d : UInt32) : Option (List UInt8) × Con :=
  let hisCur := (c.hisCur+d) % histNum
  let c := { c with hisCur := hisCur }
  if hisCur = c.hisNext then (some [],c)
  else if cstr (c.hisStr hisCur) = [] then (none,c)
  else (some (cstr (c.hisStr hisCur)),c)

def historyPrev : Option (List UInt8) × Con := c.historyGo (-1)

def historyNext : Option (List UInt8) × Con := c.historyGo 1

/-- `history_add`. -/
def historyAdd (str : List UInt8) : Con :=
  let c := { c with hisCur := c.hisNext }
  let tidx := (c.hisNext-1) % histNum
  if cstr (c.hisStr tidx) = str then c
  else
    let hisNext := (c.hisNext+1) % histNum
    { c with
      hisStrs := c.hisStrs.set c.hisNext.toNat (strcpy (c.hisStr c.hisNext) str)
      hisNext := hisNext
      hisCur := hisNext
      log := ⟨.his c.hisNext.toNat,0,str.length+1⟩::c.log }

/-- What `con_getch` does with a byte: what it returns, the key, and what it keeps for the next byte. -/
def conGetch (tch : UInt8) : ℤ × Option UInt32 × Con :=
  if c.escValue = 0 then
    if tch = 0x1b then (2,none,{ c with escValue := 0x1b })
    else (0,some tch.toUInt32,c)
  else if c.escValue = 0x1b then
    if tch = 0x5b then (3,none,{ c with escValue := 0x1b5b })
    else (0,some tch.toUInt32,{ c with escValue := 0 })
  else if c.escValue = 0x1b5b then
    let key : UInt32 := 0x1b5b00
    (0,some (key ||| tch.toUInt32),{ c with escValue := 0 })
  else (4,none,{ c with escValue := 0 })

/-- `spad[sidx] = ch`; a write that misses changes no byte of the line. -/
def poke (ch : UInt8) : Con :=
  { c with
    spad := if 0 ≤ c.sidx then c.spad.set c.sidx.toNat ch else c.spad
    log := ⟨.spad,c.sidx,1⟩::c.log }

/-- The arrow keys: a line of the history. -/
def showHistory (r : Option (List UInt8) × Con) : Con :=
  match r with
  | (none,c) => c
  | (some str,c) =>
    { c with sidx := str.length,spad := strcpy c.spad str,log := ⟨.spad,0,str.length+1⟩::c.log }

/-- The switch of `con_getline`: what it returns, if it does. -/
def key (temp : UInt32) : Option ℤ × Con :=
  if temp = 0x1b5b41 then (none,showHistory c.historyPrev)
  else if temp = 0x1b5b42 then (none,showHistory c.historyNext)
  else if temp = 0x7f ∨ temp = 0x08 then
    (none,if 0 < c.sidx then { c with sidx := c.sidx-1 } else c)
  else if temp = 0x03 then (some 0,c)
  else if temp = 0x0A ∨ temp = 0x0D then
    if c.sidx ≤ 0 then (none,c)
    else
      let c := c.poke 0
      let c := c.historyAdd (cstr c.spad)
      (some c.sidx,{ c with sidx := -1 })
  else
    if c.sidx < lineLen then
      let c := c.poke temp.toUInt8
      (none,{ c with sidx := c.sidx+1 })
    else (none,{ c with sidx := -1 })

end Con

/-- Between two calls, or in one. -/
structure Sys where
  con : Con
  reading : Bool
  deriving DecidableEq

/-- `con_getline` is called; it reads a byte; it finds none and returns `-100`; the caller does something
to the line it was given. -/
inductive Event
  | getline
  | byte (tch : UInt8)
  | dry
  | edit (spad : List UInt8)
  deriving DecidableEq

def step (s : Sys) : Event → Option Sys
  | .getline =>
    if s.reading then none
    else some ⟨if s.con.sidx = -1 then { s.con with sidx := 0 } else s.con,true⟩
  | .byte tch =>
    if s.reading then
      match s.con.conGetch tch with
      | (_,none,con) => some ⟨con,true⟩
      | (_,some temp,con) =>
        match con.key temp with
        | (none,con) => some ⟨con,true⟩
        | (some _,con) => some ⟨con,false⟩
    else none
  | .dry => if s.reading then some ⟨s.con,false⟩ else none
  | .edit spad =>
    if ¬s.reading ∧ spad.length = s.con.spad.length then some ⟨{ s.con with spad := spad },false⟩ else none

def zeros : List UInt8 := .replicate (lineLen+1) 0

def start : Sys := ⟨⟨0,-1,zeros,.replicate 4 zeros,0,0,[]⟩,false⟩

/-- A write to the line or to a line of the history that stays in it. -/
def Write.InRange (w : Write) : Prop :=
  0 ≤ w.start ∧ w.start+w.len ≤ lineLen+1 ∧ ∀ i, w.buf = .his i → i < histNum.toNat

def Sound (s : Sys) : Prop := ∀ w ∈ s.con.log, w.InRange

/-- A key that goes into the line. -/
def Ordinary (temp : UInt32) : Prop :=
  temp ≠ 0x1b5b41 ∧ temp ≠ 0x1b5b42 ∧ temp ≠ 0x7f ∧ temp ≠ 0x08 ∧ temp ≠ 0x03 ∧ temp ≠ 0x0A ∧ temp ≠ 0x0D

instance (temp : UInt32) : Decidable (Ordinary temp) := inferInstanceAs (Decidable (_ ∧ _))

/-- No key goes into a line that is none: after a line that was too long, the call ends first, or a line of
the history is brought back. -/
def Tame (_ : List Event) (s : Sys) : Event → Prop
  | .byte tch => ∀ temp ∈ (s.con.conGetch tch).2.1, Ordinary temp → s.con.sidx ≠ -1
  | _ => True

instance (es : List Event) (s : Sys) (e : Event) : Decidable (Tame es s e) :=
  match e with
  | .byte tch => Option.decidableForallMem (s.con.conGetch tch).2.1
  | .getline => isTrue trivial
  | .dry => isTrue trivial
  | .edit _ => isTrue trivial

/-! ### What a key does -/

/-- The index is that of a place in the line, its end, or none; lines of the history end with a zero. -/
structure Inv (c : Con) : Prop where
  low : -1 ≤ c.sidx
  high : c.sidx ≤ lineLen
  spad : c.spad.length = lineLen+1
  count : c.hisStrs.length = histNum.toNat
  strs : ∀ b ∈ c.hisStrs, b.length = lineLen+1 ∧ (0 : UInt8) ∈ b
  next : c.hisNext.toNat < histNum.toNat

/-- All writes stay in range. -/
def Fine (c : Con) : Prop := ∀ w ∈ c.log, w.InRange

section Keys

variable {c c' : Con} {str : List UInt8} {d i temp : UInt32}

theorem fine_cons {w : Write} {log : List Write} : (∀ v ∈ w::log, v.InRange) ↔ w.InRange ∧ ∀ v ∈ log, v.InRange :=
  List.forall_mem_cons

theorem mod_histNum (i : UInt32) : (i % histNum).toNat < histNum.toNat := by
  rw [UInt32.toNat_mod]
  exact Nat.mod_lt _ (by decide)

theorem Inv.hisStr (h : Inv c) (hi : i.toNat < histNum.toNat) :
    (c.hisStr i).length = lineLen+1 ∧ (0 : UInt8) ∈ c.hisStr i := by
  have hlt : i.toNat < c.hisStrs.length := by rwa [h.count]
  rw [Con.hisStr,List.getD_eq_getElem _ _ hlt]
  exact h.strs _ (List.getElem_mem hlt)

theorem Inv.hisStr_le (h : Inv c) (hi : i.toNat < histNum.toNat) : (cstr (c.hisStr i)).length ≤ lineLen := by
  obtain ⟨hlen,hzero⟩ := h.hisStr hi
  have hlt := cstr_length_lt hzero
  omega

/-- Lines of the history fit, and no line is written to find them. -/
theorem Inv.historyGo (h : Inv c) (d : UInt32) : Inv (c.historyGo d).2 ∧ (c.historyGo d).2.log = c.log ∧
    ∀ str ∈ (c.historyGo d).1, str.length ≤ lineLen := by
  have hle := h.hisStr_le (mod_histNum (c.hisCur+d))
  have hsame : Inv { c with hisCur := (c.hisCur+d) % histNum } := ⟨h.low,h.high,h.spad,h.count,h.strs,h.next⟩
  unfold Con.historyGo
  dsimp only
  split
  · exact ⟨hsame,rfl,by simp⟩
  · split
    · exact ⟨hsame,rfl,nofun⟩
    · refine ⟨hsame,rfl,fun str hstr => ?_⟩
      obtain rfl := Option.some.inj hstr
      exact hle

theorem Inv.showHistory {r : Option (List UInt8) × Con} (h : Inv r.2) (hr : ∀ str ∈ r.1, str.length ≤ lineLen) :
    Inv (Con.showHistory r) ∧ (Fine (Con.showHistory r) ↔ Fine r.2) := by
  obtain ⟨_ | str,c⟩ := r
  · exact ⟨h,Iff.rfl⟩
  · have hle : str.length ≤ lineLen := hr str rfl
    have hwrite : Write.InRange ⟨.spad,0,str.length+1⟩ := by
      refine ⟨Int.le_refl 0,?_,nofun⟩
      dsimp only
      omega
    have hspad : (strcpy c.spad str).length = lineLen+1 := by
      rw [strcpy_length (by rw [h.spad]; omega),h.spad]
    refine ⟨⟨?_,?_,hspad,h.count,h.strs,h.next⟩,fine_cons.trans (and_iff_right hwrite)⟩
    · dsimp only [Con.showHistory]
      omega
    · dsimp only [Con.showHistory]
      exact_mod_cast hle

theorem Inv.historyAdd (h : Inv c) (hstr : str.length ≤ lineLen) :
    Inv (c.historyAdd str) ∧ (Fine (c.historyAdd str) ↔ Fine c) ∧ (c.historyAdd str).sidx = c.sidx := by
  unfold Con.historyAdd
  dsimp only
  split
  · exact ⟨⟨h.low,h.high,h.spad,h.count,h.strs,h.next⟩,Iff.rfl,rfl⟩
  · have hwrite : Write.InRange ⟨.his c.hisNext.toNat,0,str.length+1⟩ := by
      refine ⟨Int.le_refl 0,?_,fun i hi => ?_⟩
      · dsimp only
        omega
      · obtain rfl := Buf.his.inj hi
        exact h.next
    obtain ⟨hlen,-⟩ := h.hisStr h.next
    refine ⟨⟨h.low,h.high,h.spad,by simpa using h.count,fun b hb => ?_,mod_histNum _⟩,
      fine_cons.trans (and_iff_right hwrite),rfl⟩
    rcases List.mem_or_eq_of_mem_set hb with hb | rfl
    · exact h.strs b hb
    · refine ⟨?_,zero_mem_strcpy⟩
      exact (strcpy_length (by rw [Con.hisStr] at hlen ⊢; dsimp only; omega)).trans hlen

/-- The index moves, to another place or to none. -/
theorem Inv.index (h : Inv c) {j : ℤ} (hlow : -1 ≤ j) (hhigh : j ≤ lineLen) : Inv { c with sidx := j } :=
  ⟨hlow,hhigh,h.spad,h.count,h.strs,h.next⟩

theorem Inv.poke (h : Inv c) (ch : UInt8) : Inv (c.poke ch) ∧ (Fine (c.poke ch) ↔ 0 ≤ c.sidx ∧ Fine c) := by
  have hhigh := h.high
  have hwrite : Write.InRange ⟨.spad,c.sidx,1⟩ ↔ 0 ≤ c.sidx := by
    constructor
    · exact fun hw => hw.1
    · intro h0
      refine ⟨h0,?_,nofun⟩
      dsimp only
      omega
  refine ⟨⟨h.low,h.high,?_,h.count,h.strs,h.next⟩,fine_cons.trans (and_congr_left' hwrite)⟩
  dsimp only [Con.poke]
  split
  · rw [List.length_set,h.spad]
  · exact h.spad

/-- An arrow key. -/
theorem Inv.arrow (h : Inv c) (d : UInt32) :
    Inv (Con.showHistory (c.historyGo d)) ∧ (Fine (Con.showHistory (c.historyGo d)) ↔ Fine c) := by
  obtain ⟨hinv,hlog,hstr⟩ := h.historyGo d
  obtain ⟨hr,hfine⟩ := hinv.showHistory hstr
  refine ⟨hr,hfine.trans ?_⟩
  rw [Fine,hlog,Fine]

/-- Enter, with a line to return. -/
theorem Inv.enter (h : Inv c) (hpos : 0 < c.sidx) :
    let c' := (c.poke 0).historyAdd (cstr (c.poke 0).spad)
    Inv { c' with sidx := -1 } ∧ (Fine { c' with sidx := -1 } ↔ Fine c) := by
  obtain ⟨hinv,hfine⟩ := h.poke 0
  have hhigh := h.high
  have hstr : (cstr (c.poke 0).spad).length ≤ lineLen := by
    have hzero : (c.poke 0).spad[c.sidx.toNat]? = some 0 := by
      have hlt : c.sidx.toNat < c.spad.length := by
        rw [h.spad]
        omega
      simp [Con.poke,Int.le_of_lt hpos,hlt]
    have hle := cstr_length_le hzero
    omega
  obtain ⟨hadd,haddFine,-⟩ := hinv.historyAdd hstr
  exact ⟨hadd.index (Int.le_refl _) (by omega),haddFine.trans (hfine.trans (and_iff_right (Int.le_of_lt hpos)))⟩

/-- A character, which goes into the line when there is room. -/
theorem Inv.insert (h : Inv c) (hroom : c.sidx < lineLen) (ch : UInt8) :
    let c' := c.poke ch
    Inv { c' with sidx := c'.sidx+1 } ∧ (Fine { c' with sidx := c'.sidx+1 } ↔ Fine c ∧ c.sidx ≠ -1) := by
  obtain ⟨hinv,hfine⟩ := h.poke ch
  have hlow := h.low
  have hsidx : (c.poke ch).sidx = c.sidx := rfl
  refine ⟨hinv.index (by omega) (by omega),hfine.trans ?_⟩
  · rw [and_comm]
    refine and_congr_right fun _ => ?_
    omega

/-- A key keeps the line in order; what it writes stays in range unless it goes into no line. -/
theorem Inv.key (h : Inv c) (temp : UInt32) : Inv (c.key temp).2 ∧
    (Fine (c.key temp).2 ↔ Fine c ∧ (Ordinary temp → c.sidx ≠ -1)) := by
  have hlow := h.low
  have hhigh := h.high
  have hother : ∀ {c' : Con}, ¬Ordinary temp → Inv c' ∧ (Fine c' ↔ Fine c) →
      Inv c' ∧ (Fine c' ↔ Fine c ∧ (Ordinary temp → c.sidx ≠ -1)) := fun hno hc =>
    ⟨hc.1,hc.2.trans (and_iff_left fun ho => absurd ho hno).symm⟩
  unfold Con.key
  by_cases hup : temp = 0x1b5b41
  · rw [if_pos hup]
    dsimp only [Con.historyPrev]
    exact hother (fun ho => ho.1 hup) (h.arrow (-1))
  · rw [if_neg hup]
    by_cases hdown : temp = 0x1b5b42
    · rw [if_pos hdown]
      dsimp only [Con.historyNext]
      exact hother (fun ho => ho.2.1 hdown) (h.arrow 1)
    · rw [if_neg hdown]
      split
      · next heq =>
        refine hother (fun ho => heq.elim ho.2.2.1 ho.2.2.2.1) ?_
        dsimp only
        split
        · exact ⟨h.index (by omega) (by omega),Iff.rfl⟩
        · exact ⟨h,Iff.rfl⟩
      · split
        · next heq => exact hother (fun ho => ho.2.2.2.2.1 heq) ⟨h,Iff.rfl⟩
        · split
          · next heq =>
            refine hother (fun ho => heq.elim ho.2.2.2.2.2.1 ho.2.2.2.2.2.2) ?_
            split
            · exact ⟨h,Iff.rfl⟩
            · next hpos => exact h.enter (by omega)
          · next hback hbreak henter =>
            have ho : Ordinary temp := by
              rw [not_or] at hback henter
              exact ⟨hup,hdown,hback.1,hback.2,hbreak,henter.1,henter.2⟩
            split
            · next hroom =>
              obtain ⟨hinv,hfine⟩ := h.insert hroom temp.toUInt8
              exact ⟨hinv,hfine.trans (and_congr_right fun _ => ⟨fun hne _ => hne,fun hne => hne ho⟩)⟩
            · next hroom =>
              refine ⟨h.index (Int.le_refl _) (by omega),?_⟩
              exact (and_iff_left fun _ => by rw [lineLen] at hroom; omega).symm

/-- To read a byte leaves the line alone. -/
theorem conGetch_line (c : Con) (tch : UInt8) : ∃ esc, (c.conGetch tch).2.2 = { c with escValue := esc } := by
  unfold Con.conGetch
  split
  · split
    · exact ⟨_,rfl⟩
    · exact ⟨c.escValue,rfl⟩
  · split
    · split
      · exact ⟨_,rfl⟩
      · exact ⟨_,rfl⟩
    · split
      · exact ⟨_,rfl⟩
      · exact ⟨_,rfl⟩

theorem Inv.esc (h : Inv c) (esc : UInt32) : Inv { c with escValue := esc } :=
  ⟨h.low,h.high,h.spad,h.count,h.strs,h.next⟩

end Keys

/-! ### Runs -/

section Run

variable {s t : Sys} {e : Event} {es : List Event}

/-- A byte that makes a key, or none. -/
theorem byte_sound {tch : UInt8} (es : List Event) (h : Inv s.con) (ht : step s (.byte tch) = some t) :
    Inv t.con ∧ (Sound t ↔ Sound s ∧ Tame es s (.byte tch)) := by
  rw [step] at ht
  split at ht
  · obtain ⟨esc,hesc⟩ := conGetch_line s.con tch
    have hcon := h.esc esc
    unfold Tame
    dsimp only
    rcases hgot : s.con.conGetch tch with ⟨iret,_ | temp,con⟩
    · rw [hgot] at ht hesc
      obtain rfl := Option.some.inj ht
      dsimp only at hesc
      subst hesc
      exact ⟨hcon,(and_iff_left nofun).symm⟩
    · rw [hgot] at ht hesc
      dsimp only at hesc ht
      subst hesc
      obtain ⟨hinv,hfine⟩ := hcon.key temp
      have hkey : Inv t.con ∧ (Sound t ↔ Sound s ∧ (Ordinary temp → s.con.sidx ≠ -1)) := by
        split at ht
        · next heq =>
          rw [heq] at hinv hfine
          obtain rfl := Option.some.inj ht
          exact ⟨hinv,hfine⟩
        · next heq =>
          rw [heq] at hinv hfine
          obtain rfl := Option.some.inj ht
          exact ⟨hinv,hfine⟩
      refine ⟨hkey.1,hkey.2.trans (and_congr_right fun _ => ?_)⟩
      simp
  · cases ht

theorem step_sound (es : List Event) (h : Inv s.con) (ht : step s e = some t) :
    Inv t.con ∧ (Sound t ↔ Sound s ∧ Tame es s e) := by
  cases e with
  | getline =>
    rw [step] at ht
    split at ht
    · cases ht
    · obtain rfl := Option.some.inj ht
      dsimp only
      split
      · exact ⟨h.index (by decide) (by decide),(and_iff_left trivial).symm⟩
      · exact ⟨h,(and_iff_left trivial).symm⟩
  | byte tch => exact byte_sound es h ht
  | dry =>
    rw [step] at ht
    split at ht
    · obtain rfl := Option.some.inj ht
      exact ⟨h,(and_iff_left trivial).symm⟩
    · cases ht
  | edit spad =>
    rw [step] at ht
    split at ht
    · next hedit =>
      obtain rfl := Option.some.inj ht
      exact ⟨⟨h.low,h.high,hedit.2.trans h.spad,h.count,h.strs,h.next⟩,(and_iff_left trivial).symm⟩
    · cases ht

theorem inv_start : Inv start.con := by
  refine ⟨by decide,by decide,List.length_replicate,List.length_replicate,fun b hb => ?_,by decide⟩
  obtain rfl := List.eq_of_mem_replicate hb
  exact ⟨List.length_replicate,List.mem_replicate.mpr ⟨by decide,rfl⟩⟩

/-- All writes of a run stay in range exactly when no key goes into a line that is none. -/
theorem run_sound_iff (hr : Run step anyStep start es s) : Sound s ↔ Run step Tame start es s := by
  have hboth : Inv s.con ∧ (Sound s ↔ Run step Tame start es s) := by
    induction hr with
    | nil => exact ⟨inv_start,iff_of_true nofun .nil⟩
    | @cons es s e t hr _ ht ih =>
      obtain ⟨hinv,hiff⟩ := ih
      obtain ⟨hinv',hsound⟩ := step_sound es hinv ht
      refine ⟨hinv',hsound.trans ?_⟩
      rw [hiff]
      constructor
      · rintro ⟨hrun,htame⟩
        exact .cons hrun htame ht
      · intro hrun
        cases hrun with
        | cons hrun htame ht' =>
          obtain rfl := hrun.det hr
          exact ⟨hrun,htame⟩
  exact hboth.2

end Run

/-- A line of `n` letters, and one more key. -/
def typed (n : ℕ) (tch : UInt8) : List Event := .getline::.replicate n (.byte 0x61) ++ [.byte tch]

theorem entered_sound : ∃ s, Run step anyStep start (typed 3 0x0D).reverse s ∧ s.con.hisStrs.length = 4 ∧ Sound s := by
  obtain ⟨s,hr,hs⟩ := run_of_exec_map step start (typed 3 0x0D) (fun s => decide (s.con.hisStrs.length = 4)) (by decide +kernel)
  refine ⟨s,hr,of_decide_eq_true hs,(run_sound_iff hr).mpr ?_⟩
  obtain ⟨t,ht,-⟩ := run_of_exec_map (checked (fun s e => decide (Tame [] s e)) step) start (typed 3 0x0D) (fun _ => true)
    (by decide +kernel)
  have htame := ht.of_checked (H := Tame) fun es s e h => of_decide_eq_true h
  obtain rfl := hr.det htame
  exact htame

/-- The letter after the one that was too many goes to `spad[-1]`. -/
theorem tooLong_not_sound : ∃ s, Run step anyStep start (typed 130 0x61).reverse s ∧ ¬Sound s := by
  obtain ⟨s,hr,hs⟩ := run_of_exec_map step start (typed 130 0x61) (fun s => decide (⟨.spad,-1,1⟩ ∈ s.con.log))
    (by decide +kernel)
  exact ⟨s,hr,fun h => absurd (h _ (of_decide_eq_true hs)).1 (by decide)⟩

end Lines
end Autbus
