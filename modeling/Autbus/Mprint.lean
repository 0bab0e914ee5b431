import Autbus.CStrings
import Autbus.Itoa

/-! Formats are expanded (`mprint.c`): `mx_vprintf` reads its format character by character. -/
namespace Autbus
namespace Mprint

open CStrings Itoa

/-- What is fetched behind `k` other arguments: a word, 64 bits, or the memory a pointer points to. -/
structure Args where
  word : ℕ → UInt32
  long : ℕ → UInt64
  str : ℕ → List UInt8

/-- Where `mx_vprintf` reads its next character. -/
inductive Pc
  | loop
  | literal (ptr : List UInt8)
  | fmtSwi
  | zero
  | padded (zeroPad : ℕ)
  | long (zeroPad : ℕ)
  | short (zeroPad : ℕ)
  | final
deriving DecidableEq

/-- The variables of `mx_vprintf`, with the characters of each call of `pfunc`. -/
structure State where
  pc : Pc
  tcnt : Int32
  vst : ℕ
  calls : List (List UInt8)

/-- The `switch` behind `L`: the characters, and the arguments fetched until then. -/
def longText (args : Args) (vst zeroPad : ℕ) (ch : UInt8) : List UInt8 × ℕ :=
  if ch = 'x'.toUInt8 then (miniItoa64 (args.long vst).toInt64 sixteen false true zeroPad,vst+1)
  else if ch = 'X'.toUInt8 then (miniItoa64 (args.long vst).toInt64 sixteen true true zeroPad,vst+1)
  else if ch = 'd'.toUInt8 then (miniItoa64 (args.long vst).toInt64 ten false false zeroPad,vst+1)
  else if ch = 'u'.toUInt8 then (miniItoa64 (args.long vst).toInt64 ten false true zeroPad,vst+1)
  else ([ch],vst)

/-- The `switch` behind `l`, `h` or `H`. -/
def shortText (args : Args) (vst zeroPad : ℕ) (ch : UInt8) : List UInt8 × ℕ :=
  if ch = 'p'.toUInt8 ∨ ch = 'x'.toUInt8 then (miniItoa (args.word vst).toInt32 sixteen false true zeroPad,vst+1)
  else if ch = 'X'.toUInt8 then (miniItoa (args.word vst).toInt32 sixteen true true zeroPad,vst+1)
  else if ch = 'd'.toUInt8 then (miniItoa (args.word vst).toInt32 ten false false zeroPad,vst+1)
  else if ch = 'u'.toUInt8 then (miniItoa (args.word vst).toInt32 ten false true zeroPad,vst+1)
  else ([ch],vst)

/-- The `switch` without a length, which has some more cases. -/
def plainText (args : Args) (vst zeroPad : ℕ) (ch : UInt8) : List UInt8 × ℕ :=
  if ch = 'U'.toUInt8 then (miniItoa64 (args.long vst).toInt64 sixteen false true zeroPad,vst+1)
  else if ch = 'c'.toUInt8 then ([(args.word vst).toUInt8],vst+1)
  else if ch = 'f'.toUInt8 ∨ ch = 'F'.toUInt8 ∨ ch = 'g'.toUInt8 ∨ ch = 'G'.toUInt8 then (['.'.toUInt8],vst+1)
  else if ch = 's'.toUInt8 then (cstr (args.str vst),vst+1)
  else shortText args vst zeroPad ch

namespace State

def puts (s : State) (text : List UInt8) : State := { s with calls := s.calls ++ [text] }

/-- The end of the loop's body. -/
def convert (s : State) (p : List UInt8 × ℕ) : State :=
  ⟨.loop,s.tcnt+Int32.ofNat p.1.length,p.2,s.calls ++ [p.1]⟩

/-- The character behind the padding. -/
def conversion (args : Args) (s : State) (zeroPad : ℕ) (ch : UInt8) : State :=
  if ch = 'L'.toUInt8 then { s with pc := .long zeroPad }
  else if ch = 'l'.toUInt8 ∨ ch = 'L'.toUInt8 ∨ ch = 'h'.toUInt8 ∨ ch = 'H'.toUInt8 then
    { s with pc := .short zeroPad }
  else s.convert (plainText args s.vst zeroPad ch)

end State

/-- A character is read. Behind a length it is not compared with `'\0'`. -/
def step (args : Args) (s : State) (ch : UInt8) : State :=
  match s.pc with
  | .loop =>
    if ch = 0 then { s with pc := .final }
    else if ch ≠ '%'.toUInt8 then { s with pc := .literal [ch],tcnt := s.tcnt+1 }
    else { s with pc := .fmtSwi }
  | .literal ptr =>
    if ch = 0 then { s.puts ptr with pc := .final }
    else if ch = '%'.toUInt8 then { s.puts ptr with pc := .fmtSwi }
    else { s with pc := .literal (ptr ++ [ch]),tcnt := s.tcnt+1 }
  | .fmtSwi =>
    if ch = 0 then { s with pc := .final }
    else if ch = '0'.toUInt8 then { s with pc := .zero }
    else s.conversion args 0 ch
  | .zero =>
    if ch = 0 then { s with pc := .final }
    else if '0'.toUInt8 ≤ ch ∧ ch ≤ '9'.toUInt8 then { s with pc := .padded (ch - '0'.toUInt8).toNat }
    else s.conversion args 0 ch
  | .padded zeroPad => if ch = 0 then { s with pc := .final } else s.conversion args zeroPad ch
  | .long zeroPad => s.convert (longText args s.vst zeroPad ch)
  | .short zeroPad => s.convert (shortText args s.vst zeroPad ch)
  | .final => s

/-- The memory at `fmt` is read until the end; `none` where it is not enough. -/
def run (args : Args) : State → List UInt8 → Option (State × List UInt8)
  | s, [] => if s.pc = .final then some (s,[]) else none
  | s, ch::fmt => if s.pc = .final then some (s,ch::fmt) else run args (step args s ch) fmt

/-- `mx_vprintf`: how it ends, and the memory that it has not read. -/
def mxVprintf (args : Args) (fmt : List UInt8) : Option (State × List UInt8) := run args ⟨.loop,0,0,[]⟩ fmt

/-! ### The language of formats -/

/-- A directive, with the digit of its padding. -/
inductive Directive
  | char (ch : UInt8)
  | plain (zeroPad : ℕ) (ch : UInt8)
  | short (zeroPad : ℕ) (ch : UInt8)
  | long (zeroPad : ℕ) (ch : UInt8)

/-- The characters that a directive stands for, and the arguments used until then. -/
def Directive.text (args : Args) (vst : ℕ) : Directive → List UInt8 × ℕ
  | .char ch => ([ch],vst)
  | .plain zeroPad ch => plainText args vst zeroPad ch
  | .short zeroPad ch => shortText args vst zeroPad ch
  | .long zeroPad ch => longText args vst zeroPad ch

/-- The characters that directives stand for. -/
def expansion (args : Args) : ℕ → List Directive → List UInt8
  | _, [] => []
  | vst, d::ds => (d.text args vst).1 ++ expansion args (d.text args vst).2 ds

def IsDigit (ch : UInt8) : Prop := '0'.toUInt8 ≤ ch ∧ ch ≤ '9'.toUInt8

/-- A length that is followed by a word. -/
def IsShort (ch : UInt8) : Prop := ch = 'l'.toUInt8 ∨ ch = 'h'.toUInt8 ∨ ch = 'H'.toUInt8

/-- Neither kind of length. -/
def IsPlain (ch : UInt8) : Prop := ch ≠ 'L'.toUInt8 ∧ ¬IsShort ch

/-- How padding is written before the character `next`. -/
inductive Pad : List UInt8 → ℕ → UInt8 → Prop
  | none {next : UInt8} : next ≠ '0'.toUInt8 → Pad [] 0 next
  | zero {next : UInt8} : ¬IsDigit next → Pad ['0'.toUInt8] 0 next
  | digit {ch next : UInt8} : IsDigit ch → Pad ['0'.toUInt8,ch] (ch - '0'.toUInt8).toNat next

/-- How directives are written. -/
inductive Spells : List UInt8 → Directive → Prop
  | char {ch : UInt8} : ch ≠ '%'.toUInt8 → Spells [ch] (.char ch)
  | plain {p : List UInt8} {zeroPad : ℕ} {ch : UInt8} : Pad p zeroPad ch → IsPlain ch →
    Spells ('%'.toUInt8::(p ++ [ch])) (.plain zeroPad ch)
  | short {p : List UInt8} {zeroPad : ℕ} {m ch : UInt8} : Pad p zeroPad m → IsShort m →
    Spells ('%'.toUInt8::(p ++ [m,ch])) (.short zeroPad ch)
  | long {p : List UInt8} {zeroPad : ℕ} {ch : UInt8} : Pad p zeroPad 'L'.toUInt8 →
    Spells ('%'.toUInt8::(p ++ ['L'.toUInt8,ch])) (.long zeroPad ch)

/-- Nothing, or a directive that ends before its length and its letter. -/
inductive Cut : List UInt8 → Prop
  | nil : Cut []
  | swi : Cut ['%'.toUInt8]
  | zero : Cut ['%'.toUInt8,'0'.toUInt8]
  | padded {ch : UInt8} : IsDigit ch → Cut ['%'.toUInt8,'0'.toUInt8,ch]

/-- The format is made of these directives. -/
inductive Format : List UInt8 → List Directive → Prop
  | stop {f : List UInt8} : Cut f → Format f []
  | next {w f : List UInt8} {d : Directive} {ds : List Directive} : Spells w d → Format f ds →
    Format (w ++ f) (d::ds)

/-- The end is not taken for a letter where it is compared with `'\0'`. -/
def Directive.Sure : Directive → Prop
  | .char ch => ch ≠ 0
  | .plain _ ch => ch ≠ 0
  | _ => True

/-- The memory at `fmt` begins with these directives and their end, and `rest` is behind it. -/
inductive Reads : List UInt8 → List Directive → List UInt8 → Prop
  | stop {f rest : List UInt8} : Cut f → Reads (f ++ 0::rest) [] rest
  | next {w fmt rest : List UInt8} {d : Directive} {ds : List Directive} : Spells w d → d.Sure →
    Reads fmt ds rest → Reads (w ++ fmt) (d::ds) rest

/-- The format ends in a directive that has its length, but no letter. -/
inductive Dangles : List UInt8 → Prop
  | length {p : List UInt8} {zeroPad : ℕ} {m : UInt8} : Pad p zeroPad m → ¬IsPlain m →
    Dangles ('%'.toUInt8::(p ++ [m]))
  | next {w f : List UInt8} {d : Directive} : Spells w d → Dangles f → Dangles (w ++ f)

theorem sure_of_notMem {w : List UInt8} {d : Directive} (hw : Spells w d) (h0 : 0 ∉ w) : d.Sure := by
  cases hw with
  | char _ => simpa [Directive.Sure,eq_comm] using h0
  | plain _ _ => exact fun h => h0 (by simp [h])
  | _ => trivial

/-- A format without a zero, and the zero behind it. -/
theorem Format.reads {f : List UInt8} {ds : List Directive} (h : Format f ds) (h0 : 0 ∉ f) (rest : List UInt8) :
    Reads (f ++ 0::rest) ds rest := by
  induction h with
  | stop hcut => exact .stop hcut
  | next hw _ ih =>
    simp only [List.mem_append,not_or] at h0
    rw [List.append_assoc]
    exact .next hw (sure_of_notMem hw h0.1) (ih h0.2)

/-- Behind the padding there is the end, a letter, or a length. -/
theorem behind_pad {p f : List UInt8} {zeroPad : ℕ} {ch : UInt8} (hp : Pad p zeroPad ch)
    (ih : ∀ g : List UInt8,g.length ≤ f.length → (∃ ds,Format g ds) ∨ Dangles g) :
    (∃ ds,Format ('%'.toUInt8::(p ++ ch::f)) ds) ∨ Dangles ('%'.toUInt8::(p ++ ch::f)) := by
  have hsplit : ∀ {w g : List UInt8} {d : Directive},Spells w d → g.length ≤ f.length →
      (∃ ds,Format (w ++ g) ds) ∨ Dangles (w ++ g) := fun hw hg =>
    (ih _ hg).imp (fun h => h.elim fun ds h => ⟨_::ds,.next hw h⟩) (.next hw)
  by_cases hplain : IsPlain ch
  · simpa using hsplit (.plain hp hplain) (Nat.le_refl f.length)
  · cases f with
    | nil => exact .inr (.length hp hplain)
    | cons x f =>
      by_cases hlong : ch = 'L'.toUInt8
      · subst hlong
        simpa using hsplit (.long hp) (Nat.le_succ f.length)
      · have hshort : IsShort ch := not_not.mp fun h => hplain ⟨hlong,h⟩
        simpa using hsplit (.short hp hshort) (Nat.le_succ f.length)

theorem format_or_dangles (f : List UInt8) : (∃ ds,Format f ds) ∨ Dangles f := by
  induction hn : f.length using Nat.strong_induction_on generalizing f with
  | _ n ih =>
    subst hn
    have ih' : ∀ g : List UInt8,g.length < f.length → (∃ ds,Format g ds) ∨ Dangles g := fun g hg => ih _ hg g rfl
    match f with
    | [] => exact .inl ⟨[],.stop .nil⟩
    | ch::f =>
      by_cases hch : ch = '%'.toUInt8
      · subst hch
        match f with
        | [] => exact .inl ⟨[],.stop .swi⟩
        | x::f =>
          by_cases hx : x = '0'.toUInt8
          · subst hx
            match f with
            | [] => exact .inl ⟨[],.stop .zero⟩
            | y::f =>
              by_cases hy : IsDigit y
              · match f with
                | [] => exact .inl ⟨[],.stop (.padded hy)⟩
                | z::f => exact behind_pad (.digit hy) fun g hg => ih' g (by simp only [List.length_cons]; omega)
              · exact behind_pad (.zero hy) fun g hg => ih' g (by simp only [List.length_cons]; omega)
          · exact behind_pad (.none hx) fun g hg => ih' g (by simp only [List.length_cons]; omega)
      · exact (ih' f (Nat.lt_succ_self _)).imp
          (fun h => h.elim fun ds h => ⟨_::ds,.next (.char hch) h⟩) (.next (.char hch))

/-! ### The characters of a directive -/

/-- The state behind some more characters. -/
def feed (args : Args) (s : State) (w : List UInt8) : State := w.foldl (step args) s

/-- Characters that are counted, but not yet handed over. -/
def Pc.pending : Pc → List UInt8
  | .literal ptr => ptr
  | _ => []

/-- `text` is the expansion of what has been read, with `vst` arguments. -/
structure Expanded (s : State) (vst : ℕ) (text : List UInt8) : Prop where
  vst : s.vst = vst
  tcnt : s.tcnt = Int32.ofNat text.length
  text : s.calls.flatten ++ s.pc.pending = text

/-- Between two directives. -/
def Between (pc : Pc) : Prop := pc = .loop ∨ ∃ ptr,pc = .literal ptr

variable (args : Args) {s : State} {w p f l text : List UInt8} {ch m : UInt8} {vst zeroPad : ℕ} {d : Directive}
  {ds : List Directive}

@[simp] theorem feed_nil (s : State) : feed args s [] = s := rfl

@[simp] theorem feed_cons (s : State) (ch : UInt8) (w : List UInt8) :
    feed args s (ch::w) = feed args (step args s ch) w := rfl

theorem feed_append (s : State) (w l : List UInt8) : feed args s (w ++ l) = feed args (feed args s w) l :=
  List.foldl_append

theorem feed_final (h : s.pc = .final) (w : List UInt8) : feed args s w = s := by
  induction w with
  | nil => rfl
  | cons ch w ih =>
    have hstep : step args s ch = s := by simp [step,h]
    rw [feed_cons,hstep,ih]

/-- As long as the end is not reached, the rest is read from the state behind. -/
theorem run_append (h : (feed args s w).pc ≠ .final) (l : List UInt8) :
    run args s (w ++ l) = run args (feed args s w) l := by
  induction w generalizing s with
  | nil => rfl
  | cons ch w ih =>
    have hpc : s.pc ≠ .final := fun hf => h (by rw [feed_final args hf,hf])
    rw [List.cons_append,run,if_neg hpc,ih h,feed_cons]

theorem convert_expanded (h : Expanded s vst text) (hpc : s.pc.pending = []) (q : List UInt8 × ℕ) :
    Expanded (s.convert q) q.2 (text ++ q.1) where
  vst := rfl
  tcnt := by rw [State.convert,h.tcnt,List.length_append,Int32.ofNat_add]
  text := by
    rw [← h.text,hpc]
    simp [State.convert,Pc.pending]

/-- Where nothing is pending, the place does not matter. -/
theorem Expanded.moved (h : Expanded s vst text) {pc : Pc} (hpc : s.pc.pending = []) (hpc' : pc.pending = []) :
    Expanded { s with pc := pc } vst text :=
  ⟨h.vst,h.tcnt,by rw [hpc',← hpc]; exact h.text⟩

/-- Text that is pending is handed over before a directive. -/
theorem step_percent (h : Expanded s vst text) (hpc : Between s.pc) :
    (step args s '%'.toUInt8).pc = .fmtSwi ∧ Expanded (step args s '%'.toUInt8) vst text := by
  have h0 : '%'.toUInt8 ≠ 0 := by decide
  obtain hpc | ⟨ptr,hpc⟩ := hpc
  · have hstep : step args s '%'.toUInt8 = { s with pc := .fmtSwi } := by
      simp only [step,hpc,if_neg h0,ne_eq,not_true_eq_false,if_false]
    rw [hstep]
    exact ⟨rfl,h.vst,h.tcnt,by simpa [hpc,Pc.pending] using h.text⟩
  · have hstep : step args s '%'.toUInt8 = { s.puts ptr with pc := .fmtSwi } := by
      simp only [step,hpc,if_neg h0,if_true]
    rw [hstep]
    exact ⟨rfl,h.vst,h.tcnt,by simpa [hpc,Pc.pending,State.puts] using h.text⟩

/-- Characters of the format itself are collected. -/
theorem step_char (h : Expanded s vst text) (hpc : Between s.pc) (h0 : ch ≠ 0) (hch : ch ≠ '%'.toUInt8) :
    Between (step args s ch).pc ∧ Expanded (step args s ch) vst (text ++ [ch]) := by
  obtain hpc | ⟨ptr,hpc⟩ := hpc
  · have hstep : step args s ch = { s with pc := .literal [ch],tcnt := s.tcnt+1 } := by
      simp only [step,hpc,if_neg h0,if_pos hch]
    rw [hstep]
    refine ⟨.inr ⟨_,rfl⟩,h.vst,?_,?_⟩
    · simp [h.tcnt,Int32.ofNat_add]
    · simpa [hpc,Pc.pending] using h.text
  · have hstep : step args s ch = { s with pc := .literal (ptr ++ [ch]),tcnt := s.tcnt+1 } := by
      simp only [step,hpc,if_neg h0,if_neg hch]
    rw [hstep]
    refine ⟨.inr ⟨_,rfl⟩,h.vst,?_,?_⟩
    · simp [h.tcnt,Int32.ofNat_add]
    · simp [← h.text,hpc,Pc.pending]

/-- The end: text that is pending is handed over. -/
theorem step_end (h : Expanded s vst text) (hpc : Between s.pc) :
    (step args s 0).pc = .final ∧ Expanded (step args s 0) vst text := by
  obtain hpc | ⟨ptr,hpc⟩ := hpc
  · have hstep : step args s 0 = { s with pc := .final } := by simp only [step,hpc,if_true]
    rw [hstep]
    exact ⟨rfl,h.vst,h.tcnt,by simpa [hpc,Pc.pending] using h.text⟩
  · have hstep : step args s 0 = { s.puts ptr with pc := .final } := by simp only [step,hpc,if_true]
    rw [hstep]
    exact ⟨rfl,h.vst,h.tcnt,by simpa [hpc,Pc.pending,State.puts] using h.text⟩

theorem conversion_pc (s : State) (pc : Pc) : { s with pc := pc }.conversion args zeroPad ch =
    s.conversion args zeroPad ch := rfl

theorem IsDigit.ne_zero (h : IsDigit ch) : ch ≠ 0 := by
  rintro rfl
  exact absurd h.1 (by decide)

theorem step_zero (hpc : s.pc = .fmtSwi) : step args s '0'.toUInt8 = { s with pc := .zero } := by
  have hzero : '0'.toUInt8 ≠ 0 := by decide
  simp only [step,hpc,if_neg hzero,if_true]

theorem step_digit (s : State) (h : IsDigit ch) :
    step args { s with pc := .zero } ch = { s with pc := .padded (ch - '0'.toUInt8).toNat } :=
  (if_neg h.ne_zero).trans (if_pos h)

/-- The padding and the character behind it. -/
theorem feed_pad (hpc : s.pc = .fmtSwi) (hp : Pad p zeroPad ch) (h0 : ch ≠ 0) :
    feed args s (p ++ [ch]) = s.conversion args zeroPad ch := by
  cases hp with
  | none hne => simp only [List.nil_append,feed_cons,feed_nil,step,hpc,if_neg h0,if_neg hne]
  | zero hdigit =>
    rw [List.singleton_append,feed_cons,step_zero args hpc,feed_cons,feed_nil]
    exact (if_neg h0).trans ((if_neg hdigit).trans (conversion_pc args s _))
  | digit hdigit =>
    rw [List.cons_append,List.singleton_append,feed_cons,step_zero args hpc,feed_cons,step_digit args s hdigit,
      feed_cons,feed_nil]
    exact (if_neg h0).trans (conversion_pc args s _)

theorem IsShort.ne_zero (h : IsShort m) : m ≠ 0 := by rcases h with rfl | rfl | rfl <;> decide

theorem conversion_plain (h : IsPlain ch) :
    s.conversion args zeroPad ch = s.convert (plainText args s.vst zeroPad ch) := by
  have hshort : ¬(ch = 'l'.toUInt8 ∨ ch = 'L'.toUInt8 ∨ ch = 'h'.toUInt8 ∨ ch = 'H'.toUInt8) := fun hs => by
    rcases hs with hs | hs | hs | hs
    · exact h.2 (.inl hs)
    · exact h.1 hs
    · exact h.2 (.inr (.inl hs))
    · exact h.2 (.inr (.inr hs))
  rw [State.conversion,if_neg h.1,if_neg hshort]

theorem conversion_short (h : IsShort m) : s.conversion args zeroPad m = { s with pc := .short zeroPad } := by
  have hlong : m ≠ 'L'.toUInt8 := by rcases h with rfl | rfl | rfl <;> decide
  have hshort : m = 'l'.toUInt8 ∨ m = 'L'.toUInt8 ∨ m = 'h'.toUInt8 ∨ m = 'H'.toUInt8 := by
    rcases h with h | h | h
    · exact .inl h
    · exact .inr (.inr (.inl h))
    · exact .inr (.inr (.inr h))
  rw [State.conversion,if_neg hlong,if_pos hshort]

theorem conversion_long : s.conversion args zeroPad 'L'.toUInt8 = { s with pc := .long zeroPad } := if_pos rfl

/-- A percent sign, the padding and the character behind it. -/
theorem feed_percent (h : Expanded s vst text) (hpc : Between s.pc) (hp : Pad p zeroPad ch) (h0 : ch ≠ 0) :
    ∃ s',s'.pc.pending = [] ∧ Expanded s' vst text ∧
      feed args s ('%'.toUInt8::(p ++ ch::l)) = feed args (s'.conversion args zeroPad ch) l := by
  obtain ⟨hswi,hs⟩ := step_percent args h hpc
  refine ⟨_,by rw [hswi]; rfl,hs,?_⟩
  rw [← feed_pad args hswi hp h0,← feed_append,feed_cons,List.append_assoc,List.singleton_append]

/-- A directive adds its text, and uses its arguments. -/
theorem feed_spells (h : Expanded s vst text) (hpc : Between s.pc) (hw : Spells w d) (hd : d.Sure) :
    Between (feed args s w).pc ∧ Expanded (feed args s w) (d.text args vst).2 (text ++ (d.text args vst).1) := by
  cases hw with
  | char hch => exact step_char args h hpc hd hch
  | plain hp hplain =>
    obtain ⟨s',hnone,hs,hfeed⟩ := feed_percent args h hpc hp hd
    rw [hfeed,feed_nil,conversion_plain args hplain,hs.vst]
    exact ⟨.inl rfl,convert_expanded hs hnone _⟩
  | @short _ zeroPad _ ch hp hshort =>
    obtain ⟨s',hnone,hs,hfeed⟩ := feed_percent args h hpc hp hshort.ne_zero
    have hstep : step args { s' with pc := .short zeroPad } ch =
        { s' with pc := .short zeroPad }.convert (shortText args vst zeroPad ch) := by rw [← hs.vst]; rfl
    rw [hfeed,conversion_short args hshort,feed_cons,feed_nil,hstep]
    exact ⟨.inl rfl,convert_expanded (hs.moved hnone rfl) rfl _⟩
  | @long _ zeroPad ch hp =>
    obtain ⟨s',hnone,hs,hfeed⟩ := feed_percent args h hpc hp (by decide)
    have hstep : step args { s' with pc := .long zeroPad } ch =
        { s' with pc := .long zeroPad }.convert (longText args vst zeroPad ch) := by rw [← hs.vst]; rfl
    rw [hfeed,conversion_long args,feed_cons,feed_nil,hstep]
    exact ⟨.inl rfl,convert_expanded (hs.moved hnone rfl) rfl _⟩

/-! ### Whole formats -/

theorem between_ne_final {pc : Pc} (h : Between pc) : pc ≠ .final := by
  obtain rfl | ⟨ptr,rfl⟩ := h <;> simp

/-- Where the format is cut, its end is found. -/
theorem feed_cut (h : Expanded s vst text) (hpc : Between s.pc) (hf : Cut f) :
    (feed args s f).pc ≠ .final ∧ (step args (feed args s f) 0).pc = .final ∧
      Expanded (step args (feed args s f) 0) vst text := by
  obtain ⟨hswi,hs⟩ := step_percent args h hpc
  have hnone : (step args s '%'.toUInt8).pc.pending = [] := by rw [hswi]; rfl
  cases hf with
  | nil => exact ⟨between_ne_final hpc,step_end args h hpc⟩
  | swi =>
    have hend : step args (step args s '%'.toUInt8) 0 = { step args s '%'.toUInt8 with pc := .final } := by
      rw [step,hswi]
      exact if_pos rfl
    rw [feed_cons,feed_nil,hend]
    exact ⟨by simp [hswi],rfl,hs.moved hnone rfl⟩
  | zero =>
    rw [feed_cons,feed_cons,feed_nil,step_zero args hswi]
    exact ⟨by simp,rfl,hs.moved hnone rfl⟩
  | padded hdigit =>
    rw [feed_cons,feed_cons,feed_cons,feed_nil,step_zero args hswi,step_digit args _ hdigit]
    exact ⟨by simp,rfl,hs.moved hnone rfl⟩

/-- Directives are expanded one after the other, and the end is found behind them. -/
theorem run_reads {fmt rest : List UInt8} (h : Expanded s vst text) (hpc : Between s.pc) (hr : Reads fmt ds rest) :
    ∃ s',run args s fmt = some (s',rest) ∧
      s'.tcnt = Int32.ofNat (text ++ expansion args vst ds).length ∧
      s'.calls.flatten = text ++ expansion args vst ds := by
  induction hr generalizing s vst text with
  | @stop f rest hcut =>
    obtain ⟨hpc',hfinal,hs⟩ := feed_cut args h hpc hcut
    have hrun : ∀ l : List UInt8,run args (step args (feed args s f) 0) l = some (step args (feed args s f) 0,l) := by
      intro l
      cases l <;> rw [run,if_pos hfinal]
    refine ⟨step args (feed args s f) 0,?_,?_,?_⟩
    · rw [run_append args hpc',run,if_neg hpc',hrun]
    · rw [hs.tcnt,expansion,List.append_nil]
    · have htext := hs.text
      rw [hfinal] at htext
      simpa [Pc.pending,expansion] using htext
  | @next w fmt rest d ds hw hd _ ih =>
    obtain ⟨hpc',hs⟩ := feed_spells args h hpc hw hd
    obtain ⟨s',hrun,htcnt,hcalls⟩ := ih hs hpc'
    rw [List.append_assoc] at htcnt hcalls
    exact ⟨s',by rw [run_append args (between_ne_final hpc'),hrun],htcnt,hcalls⟩

/-- Behind a length the end is taken for a letter, and the loop goes on. -/
theorem run_dangles (h : Expanded s vst text) (hpc : Between s.pc) (hf : Dangles f) (h0 : 0 ∉ f) :
    run args s (f ++ [0]) = none := by
  induction hf generalizing s vst text with
  | @length p zeroPad m hp hplain =>
    obtain ⟨s',-,-,hfeed⟩ := feed_percent args h hpc hp fun hm => h0 (by simp [hm])
    rw [feed_nil] at hfeed
    by_cases hlong : m = 'L'.toUInt8
    · subst hlong
      rw [conversion_long] at hfeed
      rw [run_append args (by rw [hfeed]; simp),hfeed]
      rfl
    · rw [conversion_short args (not_not.mp fun hs => hplain ⟨hlong,hs⟩)] at hfeed
      rw [run_append args (by rw [hfeed]; simp),hfeed]
      rfl
  | @next w f d hw _ ih =>
    simp only [List.mem_append,not_or] at h0
    obtain ⟨hpc',hs⟩ := feed_spells args h hpc hw (sure_of_notMem hw h0.1)
    rw [List.append_assoc,run_append args (between_ne_final hpc'),ih hs hpc' h0.2]

/-- It stops at the zero behind the format, and returns how many characters it has handed over. -/
def Right (args : Args) (fmt : List UInt8) : Prop :=
  ∃ s,mxVprintf args (fmt ++ [0]) = some (s,[]) ∧ s.tcnt.toInt = s.calls.flatten.length

theorem expanded_start : Expanded ⟨.loop,0,0,[]⟩ 0 [] := ⟨rfl,rfl,rfl⟩

theorem toInt_ofNat_eq_iff (n : ℕ) : (Int32.ofNat n).toInt = n ↔ n < 2^31 := by
  constructor
  · intro h
    have hlt := (Int32.ofNat n).toInt_lt
    omega
  · exact Int32.toInt_ofNat_of_lt

/-- A format without a zero is read to its end unless it ends behind a length, and its characters are counted
as long as an `int` can count them. -/
theorem mxVprintf_right_iff (args : Args) (fmt : List UInt8) (h0 : 0 ∉ fmt) :
    Right args fmt ↔ ¬Dangles fmt ∧ ∀ ds,Format fmt ds → (expansion args 0 ds).length < 2^31 := by
  constructor
  · rintro ⟨s,hs,hcount⟩
    refine ⟨fun hd => ?_,fun ds hf => ?_⟩
    · rw [mxVprintf,run_dangles args expanded_start (.inl rfl) hd h0] at hs
      cases hs
    · obtain ⟨s',hrun,htcnt,hcalls⟩ := run_reads args expanded_start (.inl rfl) (hf.reads h0 [])
      obtain rfl : s' = s := by
        rw [mxVprintf,hrun] at hs
        cases hs
        rfl
      rw [htcnt,hcalls,toInt_ofNat_eq_iff] at hcount
      exact hcount
  · rintro ⟨hd,hlt⟩
    obtain ⟨ds,hf⟩ := (format_or_dangles fmt).resolve_right hd
    obtain ⟨s,hrun,htcnt,hcalls⟩ := run_reads args expanded_start (.inl rfl) (hf.reads h0 [])
    refine ⟨s,hrun,?_⟩
    rw [htcnt,hcalls,toInt_ofNat_eq_iff]
    exact hlt ds hf

/-- Arguments of which the text is known. -/
def someArgs : Args :=
  ⟨fun k => 100+UInt32.ofNat k,fun _ => 0x7fffffffffffffff,fun _ => ['o'.toUInt8,'k'.toUInt8,0]⟩

theorem counted_right :
    ¬Dangles ['n'.toUInt8,'='.toUInt8,'%'.toUInt8,'d'.toUInt8] ∧
      ∀ ds,Format ['n'.toUInt8,'='.toUInt8,'%'.toUInt8,'d'.toUInt8] ds → (expansion someArgs 0 ds).length < 2^31 :=
  (mxVprintf_right_iff someArgs ['n'.toUInt8,'='.toUInt8,'%'.toUInt8,'d'.toUInt8] (by decide)).mp
    ⟨_,rfl,by decide⟩

/-- `"%l"` is read beyond its end. -/
theorem length_not_right : ¬Right someArgs ['%'.toUInt8,'l'.toUInt8] := by
  rintro ⟨s,hs,-⟩
  have hnone : mxVprintf someArgs (['%'.toUInt8,'l'.toUInt8] ++ [0]) = none := rfl
  rw [hnone] at hs
  cases hs

/-! ### Numbers of 64 bits -/

/-- The conversions of 64-bit arguments. -/
inductive LongConv
  | Lu
  | Lx
  | LX
  | U
  | Ld

/-- The character behind the padding. -/
def LongConv.first : LongConv → UInt8
  | .U => 'U'.toUInt8
  | _ => 'L'.toUInt8

/-- What is behind that. -/
def LongConv.behind : LongConv → List UInt8
  | .Lu => ['u'.toUInt8]
  | .Lx => ['x'.toUInt8]
  | .LX => ['X'.toUInt8]
  | .U => []
  | .Ld => ['d'.toUInt8]

/-- The number in the radix of the conversion, with a zero in front only where the padding asks for it. -/
def LongConv.Right (zeroPad : ℕ) (v : UInt64) (t : List UInt8) : LongConv → Prop
  | .Lu => Shows 10 zeroPad false v.toNat t
  | .Lx => Shows 16 zeroPad false v.toNat t
  | .LX => Shows 16 zeroPad true v.toNat t
  | .U => Shows 16 zeroPad false v.toNat t
  | .Ld => ShowsInt zeroPad v.toInt64.toInt t

/-- An unsigned number without its top bit, or a signed one that can be negated. -/
def LongConv.InRange (v : UInt64) : LongConv → Prop
  | .Ld => v.toInt64.toInt ≠ -2^63
  | _ => v.toNat < 2^63

/-- The directive that is meant. -/
def LongConv.directive (zeroPad : ℕ) : LongConv → Directive
  | .Lu => .long zeroPad 'u'.toUInt8
  | .Lx => .long zeroPad 'x'.toUInt8
  | .LX => .long zeroPad 'X'.toUInt8
  | .U => .plain zeroPad 'U'.toUInt8
  | .Ld => .long zeroPad 'd'.toUInt8

/-- The characters written for a 64-bit number `v`. -/
def LongConv.itoa (zeroPad : ℕ) (v : UInt64) : LongConv → List UInt8
  | .Lu => miniItoa64 v.toInt64 ten false true zeroPad
  | .Lx => miniItoa64 v.toInt64 sixteen false true zeroPad
  | .LX => miniItoa64 v.toInt64 sixteen true true zeroPad
  | .U => miniItoa64 v.toInt64 sixteen false true zeroPad
  | .Ld => miniItoa64 v.toInt64 ten false false zeroPad

variable (c : LongConv)

theorem LongConv.spells (hp : Pad p zeroPad c.first) :
    Spells ('%'.toUInt8::(p ++ c.first::c.behind)) (c.directive zeroPad) := by
  cases c with
  | U => exact .plain hp ⟨by decide,by unfold IsShort; decide⟩
  | _ => exact .long hp

theorem LongConv.text_eq : (c.directive zeroPad).text args vst = (c.itoa zeroPad (args.long vst),vst+1) := by
  cases c <;> rfl

theorem pad_le_nine (hp : Pad p zeroPad ch) : zeroPad ≤ 9 := by
  cases hp with
  | none => omega
  | zero => omega
  | @digit ch _ h =>
    obtain ⟨hlow,hhigh⟩ := h
    rw [UInt8.toNat_sub_of_le _ _ hlow]
    have := UInt8.le_iff_toNat_le.mp hhigh
    have h9 : '9'.toUInt8.toNat = 57 := rfl
    have h0 : '0'.toUInt8.toNat = 48 := rfl
    omega

theorem LongConv.itoa_right_iff (hw : zeroPad ≤ 9) (v : UInt64) :
    c.Right zeroPad v (c.itoa zeroPad v) ↔ c.InRange v := by
  cases c with
  | Lu => exact miniItoa64_shows_iff ten (by decide) v hw
  | Ld => exact miniItoa64_showsInt_iff v.toInt64 hw
  | _ => exact miniItoa64_shows_iff sixteen (by decide) v hw

/-- The right text is added to the expansion by a 64-bit conversion at this place of a format. -/
def LongRight (args : Args) (s : State) (vst : ℕ) (text p : List UInt8) (zeroPad : ℕ) (c : LongConv) : Prop :=
  ∃ t,Expanded (feed args s ('%'.toUInt8::(p ++ c.first::c.behind))) (vst+1) (text ++ t) ∧
    c.Right zeroPad (args.long vst) t

theorem longRight_iff_itoa (h : Expanded s vst text) (hpc : Between s.pc) (hp : Pad p zeroPad c.first) :
    LongRight args s vst text p zeroPad c ↔ c.Right zeroPad (args.long vst) (c.itoa zeroPad (args.long vst)) := by
  have hsure : (c.directive zeroPad).Sure := by
    cases c with
    | U => exact fun h => absurd h (by decide)
    | _ => trivial
  obtain ⟨-,hs⟩ := feed_spells args h hpc (c.spells hp) hsure
  rw [c.text_eq] at hs
  constructor
  · rintro ⟨t,ht,hright⟩
    have heq : text ++ t = text ++ c.itoa zeroPad (args.long vst) := ht.text.symm.trans hs.text
    rwa [← List.append_cancel_left heq]
  · exact fun hright => ⟨_,hs,hright⟩

/-- At any place of a format, with any padding: the text of a 64-bit number is right unless the number has its
top bit set, or, with a sign, is the lowest one. -/
theorem longRight_iff (args : Args) {s : State} (h : Expanded s vst text) (hpc : Between s.pc) (c : LongConv)
    (hp : Pad p zeroPad c.first) : LongRight args s vst text p zeroPad c ↔ c.InRange (args.long vst) :=
  (longRight_iff_itoa args c h hpc hp).trans (c.itoa_right_iff (pad_le_nine hp) _)

theorem padded_longRight :
    LongRight someArgs ⟨.loop,0,0,[]⟩ 0 [] ['0'.toUInt8,'5'.toUInt8] 5 .Lu :=
  (longRight_iff someArgs expanded_start (.inl rfl) .Lu (.digit ⟨by decide,by decide⟩)).mpr
    (show (0x7fffffffffffffff : UInt64).toNat < 2^63 by decide)

/-- The only character of `2^63` is a bracket. -/
theorem topBit_not_longRight :
    ¬LongRight ⟨fun _ => 0,fun _ => 0x8000000000000000,fun _ => [0]⟩ ⟨.loop,0,0,[]⟩ 0 [] [] 0 .Lu := by
  rw [longRight_iff_itoa _ _ expanded_start (.inl rfl) (.none (by decide)),LongConv.itoa_right_iff _ (by omega)]
  exact Nat.lt_irrefl (2^63)

end Mprint
end Autbus
