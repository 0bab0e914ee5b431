import Autbus.Lines
import Autbus.Rings
import Autbus.Words

/-! The console (`tmux.c`, `debug.c`): what is typed is edited, and a line that is entered is a command here,
or goes to the console that was switched to. Beside the code stands an editor that has the line itself and
all lines that were entered; the code does the same. -/
namespace Autbus
namespace Console

open CStrings Lines Rings Words
open Trace (exec)

/-- What a command does to the console that it was switched to; -1 is none. -/
abbrev Func := List (List UInt8) → ℤ → ℤ

/-- What becomes of a line. -/
inductive Entry
  | main (reply : Reply Func)
  | write (bytes : List UInt8)

/-- A byte is typed, or there is none and `con_getline` returns for now. -/
inductive Event
  | byte (tch : UInt8)
  | dry

/-! ### The code -/

section Code

/-- One round of the loop of `con_getline`. -/
def conGetline (c : Con) (tch : UInt8) : Option ℤ × Con :=
  match c.conGetch tch with
  | (_,none,c) => (none,c)
  | (_,some temp,c) => c.key temp

/-- `con_getline` is called, or called again. -/
def enterGetline (c : Con) : Con := if c.sidx = -1 then { c with sidx := 0 } else c

structure Sys where
  con : Con
  index : ℤ
  log : List Entry

variable (dbgCmds : List (List UInt8 × Func))

/-- What a command leaves `index` as. -/
def Reply.index (index : ℤ) : Reply Func → ℤ
  | .run func argv => func argv index
  | _ => index

/-- `tmux_fwd_uart2ptm`, when `con_getline` returned something. -/
def fwdLine (s : Sys) (iret : ℤ) : Sys :=
  if iret = 0 then
    if 0 ≤ s.index then { s with index := -1 } else s
  else if s.index < 0 then
    let reply := hcbDebugMain dbgCmds s.con.spad
    ⟨{ s.con with spad := (split 10 0 s.con.spad).2 },Reply.index s.index reply,.main reply::s.log⟩
  else { s with log := .write (s.con.spad.take (iret+1).toNat)::s.log }

/-- The loop of `con_getline` goes on, or it returned and is called again. -/
def afterKey (s : Sys) : Option ℤ × Con → Sys
  | (none,con) => { s with con := con }
  | (some iret,con) =>
    let s := fwdLine dbgCmds { s with con := con } iret
    { s with con := enterGetline s.con }

/-- `tmux_fwd_uart2ptm`, one byte after the other. -/
def step (s : Sys) : Event → Sys
  | .byte tch => afterKey dbgCmds s (conGetline s.con tch)
  | .dry => { s with con := enterGetline s.con }

/-- After `con_init` and the first call. -/
def start : Sys := ⟨enterGetline Lines.start.con,-1,[]⟩

end Code

/-! ### The editor -/

inductive Key
  | up
  | down
  | back
  | ctrlC
  | enter
  | char (ch : UInt8)

/-- How much of an escape sequence is there. -/
inductive Esc
  | none
  | esc
  | csi

def plain (tch : UInt8) : Key :=
  if tch = 0x7f ∨ tch = 0x08 then .back
  else if tch = 0x03 then .ctrlC
  else if tch = 0x0A ∨ tch = 0x0D then .enter
  else .char tch

/-- The keys. -/
def decode : Esc → UInt8 → Esc × Option Key
  | .none,tch => if tch = 0x1b then (.esc,none) else (.none,some (plain tch))
  | .esc,tch => if tch = 0x5b then (.csi,none) else (.none,some (plain tch))
  | .csi,tch => (.none,some (if tch = 0x41 then .up else if tch = 0x42 then .down else .char tch))

/-- The line, if there is one; the lines that were entered, the newest first; which of them is shown, with 0
for none. -/
structure Editor where
  esc : Esc
  line : Option (List UInt8)
  past : List (List UInt8)
  shown : ℕ
  index : ℤ
  log : List Entry

namespace Editor

variable (dbgCmds : List (List UInt8 × Func)) (e : Editor)

/-- Another line of the last three, or none of them. -/
def revisit (shown : ℕ) : Editor :=
  let line :=
    match shown with
    | 0 => some []
    | k+1 => if e.past.getD k [] = [] then e.line else some (e.past.getD k [])
  { e with shown := shown,line := line }

/-- A line that was not entered just before is kept. -/
def keep (text : List UInt8) : Editor :=
  { e with past := if e.past.headD [] = text then e.past else text::e.past,shown := 0 }

/-- A line is entered; it is not given more than nine words. -/
def enter (line : List UInt8) : Option Editor :=
  let text := cstr line
  let e : Editor := { e.keep text with line := some [] }
  if e.index < 0 then
    if (words text).length < 10 then
      let reply := debugProcessCmd dbgCmds (words text)
      some { e with index := Reply.index e.index reply,log := .main reply::e.log }
    else none
  else some { e with log := .write (line ++ [0])::e.log }

/-- A character is not given when the line was too long. -/
def key : Key → Option Editor
  | .up => some (e.revisit ((e.shown+1) % 4))
  | .down => some (e.revisit ((e.shown+3) % 4))
  | .back => some { e with line := e.line.map List.dropLast }
  | .ctrlC => some { e with line := some (e.line.getD []),index := if 0 ≤ e.index then -1 else e.index }
  | .enter =>
    match e.line with
    | none => some e
    | some [] => some e
    | some line => e.enter dbgCmds line
  | .char ch =>
    match e.line with
    | none => none
    | some line => some { e with line := if line.length < lineLen then some (line ++ [ch]) else none }

def step : Event → Option Editor
  | .byte tch =>
    match decode e.esc tch with
    | (part,none) => some { e with esc := part }
    | (part,some k) => key dbgCmds { e with esc := part } k
  | .dry => some { e with line := some (e.line.getD []) }

def start : Editor := ⟨.none,some [],[],0,-1,[]⟩

end Editor

/-! ### They do the same -/

/-- `esc_value`. -/
def Esc.value : Esc → UInt32
  | .none => 0
  | .esc => 0x1b
  | .csi => 0x1b5b

/-- The values that `con_getline` takes for a key. -/
def Key.Code : Key → UInt32 → Prop
  | .up,temp => temp = 0x1b5b41
  | .down,temp => temp = 0x1b5b42
  | .back,temp => temp = 0x7f ∨ temp = 0x08
  | .ctrlC,temp => temp = 0x03
  | .enter,temp => temp = 0x0A ∨ temp = 0x0D
  | .char ch,temp => Ordinary temp ∧ temp.toUInt8 = ch

/-- The line is in the buffer as far as the index goes. -/
def HasLine (c : Con) : Option (List UInt8) → Prop
  | none => c.sidx = -1
  | some line => c.sidx = line.length ∧ c.spad.take line.length = line

/-- What the variables stand for. -/
structure Shows (c : Con) (e : Editor) : Prop where
  inv : Inv c
  fine : Fine c
  esc : c.escValue = e.esc.value
  line : HasLine c e.line
  past : Holds [] (c.hisStrs.map cstr) c.hisNext.toNat e.past
  shown : e.shown < 4 ∧ c.hisCur.toNat = before 4 c.hisNext.toNat e.shown

structure Same (s : Sys) (e : Editor) : Prop where
  con : Shows s.con e
  index : s.index = e.index
  log : s.log = e.log

section Keys

variable {c : Con} {e e' : Editor} {tch : UInt8} {temp : UInt32} {dbgCmds : List (List UInt8 × Func)}

theorem plain_code (tch : UInt8) : (plain tch).Code tch.toUInt32 := by
  have hto : ∀ y : UInt8, tch.toUInt32 = y.toUInt32 ↔ tch = y := fun y => by
    rw [← UInt32.toNat_inj,← UInt8.toNat_inj,UInt8.toNat_toUInt32,UInt8.toNat_toUInt32]
  unfold plain
  split
  · next h => exact h.imp (hto 0x7f).mpr (hto 0x08).mpr
  · next hback =>
    split
    · next h => exact (hto 0x03).mpr h
    · next hbreak =>
      split
      · next h => exact h.imp (hto 0x0A).mpr (hto 0x0D).mpr
      · next henter =>
        have hlt : ∀ n : UInt32, 256 ≤ n.toNat → tch.toUInt32 ≠ n := by
          intro n hn heq
          have htch := tch.toNat_lt
          rw [← heq,UInt8.toNat_toUInt32] at hn
          omega
        rw [not_or] at hback henter
        refine ⟨⟨hlt _ (by decide),hlt _ (by decide),fun h => hback.1 ((hto 0x7f).mp h),
          fun h => hback.2 ((hto 0x08).mp h),fun h => hbreak ((hto 0x03).mp h),fun h => henter.1 ((hto 0x0A).mp h),
          fun h => henter.2 ((hto 0x0D).mp h)⟩,?_⟩
        exact UInt8.toUInt8_toUInt32 tch

theorem csi_toNat (tch : UInt8) : ((0x1b5b00 : UInt32) ||| tch.toUInt32).toNat = 0x1b5b00+tch.toNat := by
  have hlow : 2^8*0x1b5b+tch.toNat = 2^8*0x1b5b ||| tch.toNat := Nat.two_pow_add_eq_or_of_lt tch.toNat_lt _
  rw [UInt32.toNat_or,UInt8.toNat_toUInt32]
  exact hlow.symm

theorem csi_code (tch : UInt8) :
    (if tch = 0x41 then Key.up else if tch = 0x42 then .down else .char tch).Code (0x1b5b00 ||| tch.toUInt32) := by
  have hnat := csi_toNat tch
  have heq : ∀ y : UInt32, (0x1b5b00 ||| tch.toUInt32) = y ↔ 0x1b5b00+tch.toNat = y.toNat := fun y => by
    rw [← UInt32.toNat_inj,hnat]
  split
  · next h =>
    rw [h]
    rfl
  · next hup =>
    split
    · next h =>
      rw [h]
      rfl
    · next hdown =>
      have hup' : tch.toNat ≠ 0x41 := fun h => hup (UInt8.toNat_inj.mp h)
      have hdown' : tch.toNat ≠ 0x42 := fun h => hdown (UInt8.toNat_inj.mp h)
      refine ⟨?_,?_⟩
      · unfold Ordinary
        simp only [ne_eq,heq,UInt32.reduceToNat]
        omega
      · rw [← UInt8.toNat_inj,UInt32.toNat_toUInt8,hnat]
        have hlt := tch.toNat_lt
        omega

/-- What is read is decoded alike. -/
theorem conGetch_decode {x : Esc} (h : c.escValue = x.value) (tch : UInt8) :
    (c.conGetch tch).2.2 = { c with escValue := (decode x tch).1.value } ∧
      match (decode x tch).2 with
      | none => (c.conGetch tch).2.1 = none
      | some k => ∃ temp, (c.conGetch tch).2.1 = some temp ∧ k.Code temp := by
  have hplain := plain_code tch
  have hcsi := csi_code tch
  unfold Con.conGetch decode
  cases x with
  | none =>
    have h0 : c.escValue = 0 := h
    rw [if_pos h0]
    by_cases hesc : tch = 0x1b
    · rw [if_pos hesc]
      simp only [hesc,if_true]
      exact ⟨rfl,trivial⟩
    · rw [if_neg hesc]
      simp only [hesc,if_false]
      refine ⟨?_,tch.toUInt32,rfl,hplain⟩
      have hsame : Esc.value .none = c.escValue := h0.symm
      rw [hsame]
  | esc =>
    have h1 : c.escValue = 0x1b := h
    rw [h1,if_neg (by decide),if_pos rfl]
    by_cases hcsi : tch = 0x5b
    · rw [if_pos hcsi]
      simp only [hcsi,if_true]
      exact ⟨rfl,trivial⟩
    · rw [if_neg hcsi]
      simp only [hcsi,if_false]
      exact ⟨rfl,tch.toUInt32,rfl,hplain⟩
  | csi =>
    have h2 : c.escValue = 0x1b5b := h
    rw [h2,if_neg (by decide),if_neg (by decide),if_pos rfl]
    exact ⟨rfl,_,rfl,hcsi⟩

theorem cstr_hisStr (c : Con) (i : UInt32) : cstr (c.hisStr i) = (c.hisStrs.map cstr).getD i.toNat [] := by
  have hmap : (c.hisStrs.map cstr).getD i.toNat (cstr []) = cstr (c.hisStrs.getD i.toNat []) := List.getD_map _ _ cstr
  exact hmap.symm

/-- A line of the history, or none. -/
theorem Shows.arrow (h : Shows c e) {d : UInt32} {shown : ℕ} (hlt : shown < 4) (hd : (shown+d.toNat) % 4 = e.shown) :
    Shows (Con.showHistory (c.historyGo d)) (e.revisit shown) := by
  have hnext := h.past.next_lt
  have hcount : (c.hisStrs.map cstr).length = 4 := by rw [List.length_map,h.inv.count]; rfl
  rw [hcount] at hnext
  obtain ⟨hinv,hfine⟩ := h.inv.arrow d
  have hcur : ((c.hisCur+d) % histNum).toNat = before 4 c.hisNext.toNat shown := by
    have hn : histNum.toNat = 4 := rfl
    rw [UInt32.toNat_mod,UInt32.toNat_add,hn,h.shown.2]
    unfold before at *
    split <;> split <;> omega
  have hnone : (c.hisCur+d) % histNum = c.hisNext ↔ shown = 0 := by
    rw [← UInt32.toNat_inj,hcur]
    constructor
    · exact fun heq => before_inj hlt (by decide) (heq.trans before_zero.symm)
    · rintro rfl
      exact before_zero
  have hstr : ∀ k, shown = k+1 →
      cstr (({ c with hisCur := (c.hisCur+d) % histNum } : Con).hisStr ((c.hisCur+d) % histNum)) = e.past.getD k [] := by
    rintro k rfl
    have hslot := h.past.slot k (by omega)
    rw [hcount] at hslot
    rw [cstr_hisStr,hcur,hslot]
  cases shown with
  | zero =>
    have hgo : c.historyGo d = (some [],{ c with hisCur := (c.hisCur+d) % histNum }) := by
      unfold Con.historyGo
      dsimp only
      rw [if_pos (hnone.mpr rfl)]
    rw [hgo] at hinv hfine ⊢
    exact ⟨hinv,hfine.mpr h.fine,h.esc,⟨rfl,rfl⟩,h.past,hlt,hcur⟩
  | succ k =>
    have hne : ¬(c.hisCur+d) % histNum = c.hisNext := fun heq => absurd (hnone.mp heq) (Nat.succ_ne_zero k)
    by_cases hempty : e.past.getD k [] = []
    · have hgo : c.historyGo d = (none,{ c with hisCur := (c.hisCur+d) % histNum }) := by
        unfold Con.historyGo
        dsimp only
        rw [if_neg hne,if_pos ((hstr k rfl).trans hempty)]
      have hrev : e.revisit (k+1) = { e with shown := k+1 } := by
        unfold Editor.revisit
        dsimp only
        rw [if_pos hempty]
      rw [hgo] at hinv hfine ⊢
      rw [hrev]
      exact ⟨hinv,hfine.mpr h.fine,h.esc,h.line,h.past,hlt,hcur⟩
    · have hgo : c.historyGo d = (some (e.past.getD k []),{ c with hisCur := (c.hisCur+d) % histNum }) := by
        unfold Con.historyGo
        dsimp only
        rw [if_neg hne,if_neg fun heq => hempty ((hstr k rfl).symm.trans heq)]
        exact congrArg (fun str => (some str,_)) (hstr k rfl)
      have hrev : e.revisit (k+1) = { e with shown := k+1,line := some (e.past.getD k []) } := by
        unfold Editor.revisit
        dsimp only
        rw [if_neg hempty]
      rw [hgo] at hinv hfine ⊢
      rw [hrev]
      exact ⟨hinv,hfine.mpr h.fine,h.esc,⟨rfl,List.take_left' rfl⟩,h.past,hlt,hcur⟩

theorem zero_notMem_cstr (l : List UInt8) : (0 : UInt8) ∉ cstr l := fun h => by
  simpa using List.mem_takeWhile_imp h

/-- The string in a line that ends with a zero. -/
theorem exists_cstr (l rest : List UInt8) : ∃ rest', l ++ 0::rest = cstr l ++ 0::rest' := by
  induction l with
  | nil => exact ⟨rest,rfl⟩
  | cons x l ih =>
    by_cases hx : x = 0
    · exact ⟨l ++ 0::rest,by rw [hx]; rfl⟩
    · obtain ⟨rest',hrest⟩ := ih
      exact ⟨rest',by rw [cstr_cons hx,List.cons_append,hrest,List.cons_append]⟩

theorem Shows.length_le (h : Shows c e) {line : List UInt8} (hl : e.line = some line) : line.length ≤ lineLen := by
  have hline := h.line
  rw [hl] at hline
  have hhigh := h.inv.high
  rw [hline.1] at hhigh
  exact_mod_cast hhigh

/-- A byte is written at the end of the line. -/
theorem Shows.poke (h : Shows c e) {line : List UInt8} (hl : e.line = some line) (ch : UInt8) :
    Shows (c.poke ch) e ∧ ∃ rest, (c.poke ch).spad = line ++ ch::rest := by
  have hline := h.line
  rw [hl] at hline
  obtain ⟨hinv,hfine⟩ := h.inv.poke ch
  have hpos : 0 ≤ c.sidx := by
    rw [hline.1]
    exact Int.natCast_nonneg _
  have hlt : line.length < c.spad.length := by
    have hle := h.length_le hl
    rw [h.inv.spad]
    omega
  have hspad : (c.poke ch).spad = line ++ ch::c.spad.drop (line.length+1) := by
    have htoNat : c.sidx.toNat = line.length := by rw [hline.1,Int.toNat_natCast]
    simp only [Con.poke,hpos,if_true,htoNat]
    rw [List.set_eq_take_append_cons_drop,if_pos hlt,hline.2]
  refine ⟨⟨hinv,hfine.mpr ⟨hpos,h.fine⟩,h.esc,?_,h.past,h.shown⟩,_,hspad⟩
  rw [hl]
  refine ⟨hline.1,?_⟩
  rw [hspad,List.take_left' rfl]

/-- A line that was entered is the newest one of the history. -/
theorem Shows.keep (h : Shows c e) {text : List UInt8} (hlen : text.length ≤ lineLen) (hzero : (0 : UInt8) ∉ text) :
    Shows (c.historyAdd text) (e.keep text) := by
  have hnext := h.past.next_lt
  have hcount : (c.hisStrs.map cstr).length = 4 := by rw [List.length_map,h.inv.count]; rfl
  rw [hcount] at hnext
  obtain ⟨hinv,hfine,-⟩ := h.inv.historyAdd hlen
  have hlast : cstr (c.hisStr ((c.hisNext-1) % histNum)) = e.past.headD [] := by
    have hslot := h.past.slot 0 (by omega)
    have hidx : ((c.hisNext-1) % histNum).toNat = before 4 c.hisNext.toNat 1 := by
      have hn : histNum.toNat = 4 := rfl
      have hone : (1 : UInt32).toNat = 1 := rfl
      rw [UInt32.toNat_mod,UInt32.toNat_sub,hn,hone]
      unfold before
      split <;> omega
    rw [hcount] at hslot
    rw [cstr_hisStr,hidx,hslot]
    cases e.past <;> rfl
  have hshown : before 4 c.hisNext.toNat 0 = c.hisNext.toNat := before_zero
  unfold Con.historyAdd Editor.keep at *
  dsimp only at *
  by_cases hsame : e.past.headD [] = text
  · have hif : cstr (({ c with hisCur := c.hisNext } : Con).hisStr ((c.hisNext-1) % histNum)) = text := hlast.trans hsame
    rw [if_pos hif] at hinv hfine ⊢
    rw [if_pos hsame]
    exact ⟨hinv,hfine.mpr h.fine,h.esc,h.line,h.past,Nat.succ_pos 3,hshown.symm⟩
  · have hif : ¬cstr (({ c with hisCur := c.hisNext } : Con).hisStr ((c.hisNext-1) % histNum)) = text := fun heq =>
      hsame (hlast.symm.trans heq)
    rw [if_neg hif] at hinv hfine ⊢
    rw [if_neg hsame]
    have hpush := h.past.push text
    rw [hcount] at hpush
    have hmod : ((c.hisNext+1) % histNum).toNat = (c.hisNext.toNat+1) % 4 := by
      have hn : histNum.toNat = 4 := rfl
      have hone : (1 : UInt32).toNat = 1 := rfl
      rw [UInt32.toNat_mod,UInt32.toNat_add,hn,hone]
      omega
    refine ⟨hinv,hfine.mpr h.fine,h.esc,h.line,?_,Nat.succ_pos 3,before_zero.symm⟩
    dsimp only
    rw [List.map_set,hmod,strcpy,cstr_append_zero hzero]
    exact hpush

/-- A line begins. -/
theorem Shows.fresh (h : Shows c e) {spad : List UInt8} (hspad : spad.length = c.spad.length) (index : ℤ)
    (log : List Entry) : Shows { c with sidx := 0,spad := spad } { e with line := some [],index := index,log := log } :=
  ⟨⟨(by decide : (-1 : ℤ) ≤ 0),(by decide : (0 : ℤ) ≤ lineLen),hspad.trans h.inv.spad,h.inv.count,h.inv.strs,h.inv.next⟩,h.fine,h.esc,⟨rfl,rfl⟩,h.past,h.shown⟩

theorem length_cut (f : UInt8 → Bool) (l : List UInt8) : (l.takeWhile f).length+(l.dropWhile f).length = l.length := by
  rw [← List.length_append,List.takeWhile_append_dropWhile]

/-- The splitter writes no further than the line goes. -/
theorem split_length (n p : ℕ) (l : List UInt8) : (split n p l).2.length = l.length := by
  induction n generalizing p l with
  | zero => rfl
  | succ n ih =>
    have hblanks := length_cut isSep l
    have hword := length_cut isText (l.dropWhile isSep)
    rw [split]
    dsimp only
    split
    · rw [List.length_append,List.length_map,hblanks]
    · rw [List.length_append,List.length_map,List.length_append,ih,hword,hblanks]

/-- A line that is entered is run here, or goes where the console was switched to. -/
theorem same_enter {s : Sys} (h : Same s e) {line : List UInt8} (hl : e.line = some line) (hne : line ≠ [])
    (he : e.enter dbgCmds line = some e') (htemp : temp = 0x0A ∨ temp = 0x0D) :
    Same (afterKey dbgCmds s (s.con.key temp)) e' := by
  have hline := h.con.line
  rw [hl] at hline
  have hpos : 0 < line.length := List.length_pos_iff.mpr hne
  have hsidx : ¬s.con.sidx ≤ 0 := by
    rw [hline.1]
    omega
  obtain ⟨hpoke,rest,hspad⟩ := h.con.poke hl 0
  obtain ⟨rest',hrest⟩ := exists_cstr line rest
  have hzero := zero_notMem_cstr line
  have htext : cstr (s.con.poke 0).spad = cstr line := by rw [hspad,hrest,cstr_append_zero hzero]
  have hlen : (cstr line).length ≤ lineLen := (List.takeWhile_sublist _).length_le.trans (h.con.length_le hl)
  have hkeep := hpoke.keep hlen hzero
  have hsame : ((s.con.poke 0).historyAdd (cstr line)).spad = (s.con.poke 0).spad ∧
      ((s.con.poke 0).historyAdd (cstr line)).sidx = s.con.sidx := by
    unfold Con.historyAdd
    dsimp only
    split <;> exact ⟨rfl,rfl⟩
  have hkey : s.con.key temp =
      (some s.con.sidx,{ (s.con.poke 0).historyAdd (cstr line) with sidx := -1 }) := by
    have h1 : temp ≠ 0x1b5b41 ∧ temp ≠ 0x1b5b42 ∧ ¬(temp = 0x7f ∨ temp = 0x08) ∧ temp ≠ 0x03 := by
      rcases htemp with rfl | rfl <;> decide
    unfold Con.key
    rw [if_neg h1.1,if_neg h1.2.1,if_neg h1.2.2.1,if_neg h1.2.2.2,if_pos htemp,if_neg hsidx]
    dsimp only
    rw [htext,hsame.2]
  generalize (s.con.poke 0).historyAdd (cstr line) = c at hkeep hsame hkey
  have hiret : ¬s.con.sidx = 0 := by omega
  unfold Editor.enter at he
  dsimp only [Editor.keep] at he
  rw [hkey,afterKey,fwdLine,if_neg hiret,h.index]
  dsimp only
  split at he
  · next hindex =>
    rw [if_pos hindex]
    split at he
    · next hfew =>
      obtain rfl := Option.some.inj he
      have hmain : hcbDebugMain dbgCmds c.spad = debugProcessCmd dbgCmds (words (cstr line)) := by
        rw [hcbDebugMain,hsame.1,hspad,hrest,(argv_iff _ _ hzero).mpr (Or.inl hfew),List.take_of_length_le (by omega)]
      rw [hmain,enterGetline,if_pos rfl]
      exact ⟨hkeep.fresh (split_length _ _ _) _ _,rfl,congrArg (_::·) h.log⟩
    · cases he
  · next hindex =>
    rw [if_neg hindex]
    obtain rfl := Option.some.inj he
    have hsent : c.spad.take (s.con.sidx+1).toNat = line ++ [0] := by
      have htoNat : (s.con.sidx+1).toNat = (line ++ [0]).length := by
        rw [hline.1,List.length_append,List.length_singleton]
        rfl
      rw [htoNat,hsame.1,hspad,List.append_cons line 0 rest,List.take_left]
    rw [hsent,enterGetline,if_pos rfl]
    exact ⟨hkeep.fresh rfl _ _,rfl,congrArg (_::·) h.log⟩

theorem shows_enter (h : Shows c e) : Shows (enterGetline c) { e with line := some (e.line.getD []) } := by
  have hline := h.line
  unfold enterGetline
  split
  · next hnone =>
    cases hl : e.line with
    | none => exact h.fresh rfl _ _
    | some line =>
      rw [hl] at hline
      have hpos := Int.natCast_nonneg line.length
      rw [← hline.1,hnone] at hpos
      exact absurd hpos (by decide)
  · next hsome =>
    cases hl : e.line with
    | none =>
      rw [hl] at hline
      exact absurd hline hsome
    | some line => exact ⟨h.inv,h.fine,h.esc,hl ▸ h.line,h.past,h.shown⟩

theorem key_back (c : Con) (h : temp = 0x7f ∨ temp = 0x08) :
    c.key temp = (none,if 0 < c.sidx then { c with sidx := c.sidx-1 } else c) := by
  have h1 : temp ≠ 0x1b5b41 ∧ temp ≠ 0x1b5b42 := by rcases h with rfl | rfl <;> decide
  rw [Con.key,if_neg h1.1,if_neg h1.2,if_pos h]

theorem key_enter (c : Con) (h : temp = 0x0A ∨ temp = 0x0D) (hnone : c.sidx ≤ 0) : c.key temp = (none,c) := by
  have h1 : temp ≠ 0x1b5b41 ∧ temp ≠ 0x1b5b42 ∧ ¬(temp = 0x7f ∨ temp = 0x08) ∧ temp ≠ 0x03 := by
    rcases h with rfl | rfl <;> decide
  rw [Con.key,if_neg h1.1,if_neg h1.2.1,if_neg h1.2.2.1,if_neg h1.2.2.2,if_pos h,if_pos hnone]

theorem key_char (c : Con) (h : Ordinary temp) : c.key temp =
    if c.sidx < lineLen then (none,{ c.poke temp.toUInt8 with sidx := (c.poke temp.toUInt8).sidx+1 })
    else (none,{ c with sidx := -1 }) := by
  obtain ⟨hup,hdown,hdel,hback,hbreak,hlf,hcr⟩ := h
  rw [Con.key,if_neg hup,if_neg hdown,if_neg (not_or.mpr ⟨hdel,hback⟩),if_neg hbreak,if_neg (not_or.mpr ⟨hlf,hcr⟩)]

theorem Shows.back (h : Shows c e) :
    Shows (if 0 < c.sidx then { c with sidx := c.sidx-1 } else c) { e with line := e.line.map List.dropLast } := by
  have hline := h.line
  have hhigh := h.inv.high
  split
  · next hpos =>
    have hinv : Lines.Inv { c with sidx := c.sidx-1 } := h.inv.index (by omega) (by omega)
    refine ⟨hinv,h.fine,h.esc,?_,h.past,h.shown⟩
    cases hl : e.line with
    | none =>
      rw [hl] at hline
      exact hline ▸ absurd hpos (by rw [hline]; decide)
    | some line =>
      rw [hl] at hline
      refine ⟨?_,?_⟩
      · dsimp only
        rw [hline.1,List.length_dropLast]
        have hne : 0 < line.length := by
          have hsidx := hline.1
          omega
        omega
      · calc c.spad.take line.dropLast.length = (c.spad.take line.length).take (line.length-1) := by
              rw [List.length_dropLast,List.take_take,Nat.min_eq_left (Nat.sub_le _ _)]
          _ = line.dropLast := by rw [hline.2,List.dropLast_eq_take]
  · next hpos =>
    refine ⟨h.inv,h.fine,h.esc,?_,h.past,h.shown⟩
    cases hl : e.line with
    | none =>
      rw [hl] at hline
      exact hline
    | some line =>
      rw [hl] at hline
      have hnil : line = [] := by
        refine List.length_eq_zero_iff.mp ?_
        have hsidx := hline.1
        omega
      rw [hnil] at hline ⊢
      exact hline

theorem Shows.char (h : Shows c e) {line : List UInt8} (hl : e.line = some line) (hk : Ordinary temp) :
    ∃ c', c.key temp = (none,c') ∧
      Shows c' { e with line := if line.length < lineLen then some (line ++ [temp.toUInt8]) else none } := by
  have hline := h.line
  have hle := h.length_le hl
  rw [hl] at hline
  have hsidx : c.sidx < lineLen ↔ line.length < lineLen := by
    rw [hline.1]
    exact Int.ofNat_lt
  rw [key_char c hk]
  by_cases hroom : line.length < lineLen
  · rw [if_pos (hsidx.mpr hroom),if_pos hroom]
    obtain ⟨hpoke,rest,hspad⟩ := h.poke hl temp.toUInt8
    have hpos : c.sidx ≠ -1 := by
      rw [hline.1]
      omega
    obtain ⟨hinv,hfine⟩ := h.inv.insert (hsidx.mpr hroom) temp.toUInt8
    refine ⟨_,rfl,hinv,hfine.mpr ⟨h.fine,hpos⟩,h.esc,⟨?_,?_⟩,h.past,h.shown⟩
    · rw [List.length_append,List.length_singleton,Int.natCast_add,← hline.1]
      rfl
    · dsimp only
      rw [hspad,List.append_cons line temp.toUInt8 rest,List.take_left]
  · rw [if_neg (fun hlt => hroom (hsidx.mp hlt)),if_neg hroom]
    exact ⟨_,rfl,h.inv.index (Int.le_refl _) (by decide),h.fine,h.esc,rfl,h.past,h.shown⟩

/-- Every key does the same. -/
theorem same_key {s : Sys} (h : Same s e) {k : Key} (hk : k.Code temp) (he : e.key dbgCmds k = some e') :
    Same (afterKey dbgCmds s (s.con.key temp)) e' := by
  have hgoes : ∀ {c u}, Shows c u → u.index = e.index → u.log = e.log → Same (afterKey dbgCmds s (none,c)) u :=
    fun hc hindex hlog => ⟨hc,h.index.trans hindex.symm,h.log.trans hlog.symm⟩
  have hlt : ∀ n : ℕ, n % 4 < 4 := fun n => Nat.mod_lt _ (by decide)
  have hshown := h.con.shown.1
  cases k with
  | up =>
    obtain rfl := Option.some.inj he
    have hkey : s.con.key temp = (none,Con.showHistory (s.con.historyGo (-1))) := by
      obtain rfl : temp = 0x1b5b41 := hk
      rfl
    have hback : ((e.shown+1) % 4+(-1 : UInt32).toNat) % 4 = e.shown := by
      have hone : (-1 : UInt32).toNat = 4294967295 := rfl
      omega
    rw [hkey]
    exact hgoes (h.con.arrow (hlt _) hback) rfl rfl
  | down =>
    obtain rfl := Option.some.inj he
    have hkey : s.con.key temp = (none,Con.showHistory (s.con.historyGo 1)) := by
      obtain rfl : temp = 0x1b5b42 := hk
      rfl
    have hforth : ((e.shown+3) % 4+(1 : UInt32).toNat) % 4 = e.shown := by
      have hone : (1 : UInt32).toNat = 1 := rfl
      omega
    rw [hkey]
    exact hgoes (h.con.arrow (hlt _) hforth) rfl rfl
  | back =>
    obtain rfl := Option.some.inj he
    rw [key_back s.con hk]
    exact hgoes h.con.back rfl rfl
  | ctrlC =>
    obtain rfl := Option.some.inj he
    have hkey : s.con.key temp = (some 0,s.con) := by
      obtain rfl : temp = 0x03 := hk
      rfl
    have hcon := shows_enter h.con
    rw [hkey,afterKey,fwdLine,if_pos rfl,h.index]
    dsimp only
    split
    · exact ⟨⟨hcon.inv,hcon.fine,hcon.esc,hcon.line,hcon.past,hcon.shown⟩,rfl,h.log⟩
    · exact ⟨⟨hcon.inv,hcon.fine,hcon.esc,hcon.line,hcon.past,hcon.shown⟩,rfl,h.log⟩
  | enter =>
    have hline := h.con.line
    have hstays : s.con.sidx ≤ 0 → e' = e → Same (afterKey dbgCmds s (s.con.key temp)) e' := by
      rintro hsidx rfl
      rw [key_enter s.con hk hsidx]
      exact hgoes h.con rfl rfl
    unfold Editor.key at he
    dsimp only at he
    split at he
    · next hl =>
      rw [hl] at hline
      exact hstays (by rw [hline]; decide) (Option.some.inj he).symm
    · next hl =>
      rw [hl] at hline
      exact hstays (Int.le_of_eq hline.1) (Option.some.inj he).symm
    · next line hne hl => exact same_enter h hl hne he hk
  | char ch =>
    obtain ⟨hord,rfl⟩ := hk
    unfold Editor.key at he
    dsimp only at he
    split at he
    · cases he
    · next line hl =>
      obtain rfl := Option.some.inj he
      obtain ⟨c',hkey,hc⟩ := h.con.char hl hord
      rw [hkey]
      exact hgoes hc rfl rfl

theorem afterKey_con (s : Sys) (c : Con) (x : Option ℤ × Con) :
    afterKey dbgCmds { s with con := c } x = afterKey dbgCmds s x := by
  obtain ⟨_ | iret,c'⟩ := x <;> rfl

theorem same_step {s : Sys} (h : Same s e) {ev : Event} (he : e.step dbgCmds ev = some e') :
    Same (step dbgCmds s ev) e' := by
  cases ev with
  | dry =>
    obtain rfl := Option.some.inj he
    exact ⟨shows_enter h.con,h.index,h.log⟩
  | byte tch =>
    obtain ⟨hcon,hkey⟩ := conGetch_decode h.con.esc tch
    rw [Editor.step] at he
    rw [step,conGetline]
    generalize decode e.esc tch = x at *
    obtain ⟨part,k⟩ := x
    have hsame : Same { s with con := { s.con with escValue := part.value } } { e with esc := part } :=
      ⟨⟨h.con.inv.esc _,h.con.fine,rfl,h.con.line,h.con.past,h.con.shown⟩,h.index,h.log⟩
    generalize s.con.conGetch tch = y at *
    obtain ⟨iret,temp,c⟩ := y
    obtain rfl := hcon
    cases k with
    | none =>
      obtain rfl : temp = none := hkey
      obtain rfl := Option.some.inj he
      exact hsame
    | some k =>
      obtain ⟨temp,rfl,hcode⟩ := hkey
      have hafter := same_key hsame hcode he
      rw [afterKey_con] at hafter
      exact hafter

theorem same_start : Same start Editor.start := by
  have hslots : Lines.start.con.hisStrs.map cstr = .replicate 4 [] := rfl
  have hpast : Holds ([] : List UInt8) (.replicate 4 []) 0 [] := Holds.empty (by decide)
  have hinv : Lines.Inv (enterGetline Lines.start.con) := inv_start.index (by decide) (by decide)
  exact ⟨⟨hinv,nofun,rfl,⟨rfl,rfl⟩,hslots ▸ hpast,by decide,rfl⟩,rfl,rfl⟩

/-- Whatever is typed, the console has the line and the history of the editor, runs the same commands with the
same words, and sends the same lines, as long as no character is typed into a line that was too long and no
command has more than nine words. -/
theorem run_edits (es : List Event) (h : exec (Editor.step dbgCmds) Editor.start es = some e) :
    Same (es.foldl (step dbgCmds) start) e :=
  have hstep : ∀ {t s u ev}, Same t s → Editor.step dbgCmds s ev = some u → Same (step dbgCmds t ev) u :=
    fun hsame he => same_step hsame he
  Trace.foldl_follows hstep same_start es h

end Keys

/-- `go` switches to the first console. -/
def goCmds : List (List UInt8 × Func) := [([0x67,0x6f],fun _ _ => 0)]

/-- `go`, the same line again by an arrow, and the last letter changed. -/
def goKeys : List Event :=
  [.byte 0x67,.byte 0x6f,.byte 0x0D,.byte 0x1b,.byte 0x5b,.byte 0x41,.byte 0x08,.byte 0x78,.byte 0x0D]

theorem goKeys_edited : ∃ e, exec (Editor.step goCmds) Editor.start goKeys = some e ∧
    e.past = [[0x67,0x78],[0x67,0x6f]] ∧ e.index = 0 ∧ Same (goKeys.foldl (step goCmds) start) e :=
  ⟨_,rfl,rfl,rfl,run_edits goKeys rfl⟩

end Console
end Autbus
