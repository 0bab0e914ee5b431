import Autbus.CStrings

/-! Command lines are split into words (`debug.c`): separators become zeros, and the words stay where they
are. -/
namespace Autbus
namespace Words

open CStrings

/-- Space and tab. -/
def isSep (x : UInt8) : Bool := x == 0x20 || x == 0x09

/-- Neither a separator nor the end. -/
def isText (x : UInt8) : Bool := !isSep x && x != 0

/-- The loop of `hcb_debug_main`, with `n` places left in `argv`, from `p` on, where the bytes `l` are: the
words found, and the bytes as they are left. -/
def split : ℕ → ℕ → List UInt8 → List ℕ × List UInt8
  | 0, _, l => ([],l)
  | n+1, p, l =>
    let blanks := l.takeWhile isSep
    let l := l.dropWhile isSep
    let p := p+blanks.length
    if l.head? = none ∨ l.head? = some 0 then ([],blanks.map (fun _ => 0) ++ l)
    else
      let word := l.takeWhile isText
      let (argv,l) := split n (p+word.length) (l.dropWhile isText)
      (p::argv,blanks.map (fun _ => 0) ++ (word ++ l))

/-- What `hcb_debug_main` gives to `debug_process_cmd`: the strings that its pointers point to. -/
def argv (spad : List UInt8) : List (List UInt8) :=
  let (argv,spad) := split 10 0 spad
  argv.map fun p => cstr (spad.drop p)

/-- What a command line leads to. -/
inductive Reply (C : Type*)
  | nothing
  | unknown (name : List UInt8)
  | run (func : C) (argv : List (List UInt8))

/-- `debug_process_cmd`, with the commands and their names. -/
def debugProcessCmd {C : Type*} (dbgCmds : List (List UInt8 × C)) (argv : List (List UInt8)) : Reply C :=
  match argv with
  | [] => .nothing
  | name::_ =>
    match dbgCmds.find? fun p => p.1 = name with
    | some p => .run p.2 argv
    | none => .unknown name

/-- `hcb_debug_main`. -/
def hcbDebugMain {C : Type*} (dbgCmds : List (List UInt8 × C)) (spad : List UInt8) : Reply C :=
  debugProcessCmd dbgCmds (argv spad)

/-! ### Words -/

/-- The words of a line. -/
def words (s : List UInt8) : List (List UInt8) := (s.splitOnP isSep).filter (· ≠ [])

variable {s w l pre : List UInt8} {x : UInt8} {n p : ℕ}

theorem words_sep (hx : isSep x = true) (s : List UInt8) : words (x::s) = words s := by
  simp [words,List.splitOnP_cons_eq_if_modifyHead,hx]

theorem words_word (hw : w ≠ []) (htext : ∀ x ∈ w, isSep x = false) (hs : ∀ x ∈ s.head?, isSep x = true) :
    words (w ++ s) = w::words s := by
  cases s with
  | nil => simp [words,List.splitOnP_eq_singleton htext,hw]
  | cons x s =>
    have hx : isSep x = true := hs x rfl
    rw [words_sep hx,words,List.splitOnP_append_cons_of_forall_mem htext x hx]
    simp [words,hw]

theorem words_blanks {b : List UInt8} (hb : ∀ x ∈ b, isSep x = true) (s : List UInt8) : words (b ++ s) = words s := by
  induction b with
  | nil => rfl
  | cons x b ih =>
    obtain ⟨hx,hb⟩ := List.forall_mem_cons.mp hb
    rw [List.cons_append,words_sep hx,ih hb]

/-- A line with its words: separators, a word, and what is behind it. -/
inductive Line : List UInt8 → List (List UInt8) → Prop
  | blanks {b : List UInt8} : (∀ x ∈ b, isSep x = true) → Line b []
  | word {b w s : List UInt8} {ws : List (List UInt8)} : (∀ x ∈ b, isSep x = true) → w ≠ [] →
    (∀ x ∈ w, isText x = true) → (∀ x ∈ s.head?, isSep x = true) → Line s ws → Line (b ++ (w ++ s)) (w::ws)

variable {ws : List (List UInt8)} {b rest : List UInt8}

theorem isText_of_mem (hx : isText x = true) : isSep x = false ∧ x ≠ 0 := by simpa [isText] using hx

theorem ne_zero_of_isSep (hx : isSep x = true) : x ≠ 0 := by
  rintro rfl
  exact absurd hx (by decide)

theorem Line.words (h : Line s ws) : Words.words s = ws := by
  induction h with
  | @blanks b hb =>
    rw [← List.append_nil b,words_blanks hb]
    rfl
  | word hb hw htext hs _ ih =>
    rw [words_blanks hb,words_word hw (fun x hx => (isText_of_mem (htext x hx)).1) hs,ih]

theorem Line.zero_notMem (h : Line s ws) : (0 : UInt8) ∉ s := by
  induction h with
  | blanks hb => exact fun h => ne_zero_of_isSep (hb 0 h) rfl
  | word hb hw htext hs _ ih =>
    simp only [List.mem_append,not_or]
    exact ⟨fun h => ne_zero_of_isSep (hb 0 h) rfl,fun h => (isText_of_mem (htext 0 h)).2 rfl,ih⟩

theorem exists_cut (f : UInt8 → Bool) (s : List UInt8) :
    ∃ b r, s = b ++ r ∧ (∀ x ∈ b, f x = true) ∧ ∀ x ∈ r.head?, f x = false := by
  refine ⟨s.takeWhile f,s.dropWhile f,List.takeWhile_append_dropWhile.symm,fun x hx => List.mem_takeWhile_imp hx,
    fun x hx => ?_⟩
  have hhead := List.head?_dropWhile_not f s
  rwa [Option.mem_def.mp hx] at hhead

/-- Every line that ends at its first zero has its words. -/
theorem exists_line (n : ℕ) (s : List UInt8) (hn : s.length ≤ n) (hs : (0 : UInt8) ∉ s) : ∃ ws, Line s ws := by
  induction n generalizing s with
  | zero =>
    obtain rfl : s = [] := List.length_eq_zero_iff.mp (Nat.le_zero.mp hn)
    exact ⟨[],.blanks nofun⟩
  | succ n ih =>
    obtain ⟨b,r,rfl,hb,hr⟩ := exists_cut isSep s
    obtain ⟨w,t,rfl,hw,ht⟩ := exists_cut isText r
    simp only [List.mem_append,not_or] at hs
    have hsep : ∀ {l : List UInt8}, (0 : UInt8) ∉ l → ∀ x ∈ l.head?, isText x = false → isSep x = true := by
      intro l hl x hx hno
      by_contra hsep
      rw [Bool.not_eq_true] at hsep
      have h0 : x = 0 := by simpa [isText,hsep] using hno
      exact hl (h0 ▸ List.mem_of_mem_head? hx)
    cases w with
    | nil =>
      -- no word, so that nothing is behind the separators either
      cases t with
      | nil => exact ⟨[],.blanks (by simpa using hb)⟩
      | cons y t =>
        have hy := hsep hs.2.2 y rfl (ht y rfl)
        rw [hr y rfl] at hy
        cases hy
    | cons y w =>
      have hlen : t.length ≤ n := by
        simp only [List.length_append,List.length_cons] at hn
        omega
      obtain ⟨ws,hws⟩ := ih t hlen hs.2.2
      exact ⟨(y::w)::ws,.word hb (by simp) hw (fun x hx => hsep hs.2.2 x hx (ht x hx)) hws⟩

/-! ### What the splitter makes of them -/

theorem split_blanks (hb : ∀ x ∈ b, isSep x = true) (n p : ℕ) (rest : List UInt8) :
    split (n+1) p (b ++ 0::rest) = ([],b.map (fun _ => 0) ++ 0::rest) := by
  have hsep : isSep 0 = false := by decide
  rw [split,List.takeWhile_append_of_pos hb,List.dropWhile_append_of_pos hb]
  simp [hsep]

theorem split_word (hb : ∀ x ∈ b, isSep x = true) (hw : w ≠ []) (htext : ∀ x ∈ w, isText x = true)
    (hl : ∀ x ∈ l.head?, isText x = false) (n p : ℕ) : split (n+1) p (b ++ (w ++ l)) =
      ((p+b.length)::(split n (p+b.length+w.length) l).1,
        b.map (fun _ => 0) ++ (w ++ (split n (p+b.length+w.length) l).2)) := by
  obtain ⟨x,t,rfl⟩ := List.exists_cons_of_ne_nil hw
  have hx := isText_of_mem (htext x List.mem_cons_self)
  have hstop : l.takeWhile isText = [] ∧ l.dropWhile isText = l := by
    cases l with
    | nil => exact ⟨rfl,rfl⟩
    | cons y l => simp [hl y rfl]
  have hblanks : (x::t ++ l).takeWhile isSep = [] ∧ (x::t ++ l).dropWhile isSep = x::t ++ l := by
    simp [hx.1]
  rw [split,List.takeWhile_append_of_pos hb,List.dropWhile_append_of_pos hb,hblanks.1,hblanks.2,
    List.takeWhile_append_of_pos htext,List.dropWhile_append_of_pos htext,hstop.1,hstop.2]
  simp [hx.2]

/-- The strings that pointers into the bytes from `pre.length` on point to. -/
def strings (n : ℕ) (pre l : List UInt8) : List (List UInt8) :=
  (split n pre.length l).1.map fun p => cstr ((pre ++ (split n pre.length l).2).drop p)

/-- What is behind a word begins with a zero, once the separators there are gone. -/
theorem split_zero (hs : ∀ x ∈ s.head?, isSep x = true) (n p : ℕ) (rest : List UInt8) :
    ∃ l, (split (n+1) p (s ++ 0::rest)).2 = 0::l := by
  cases s with
  | nil => exact ⟨rest,by rw [split_blanks (b := []) nofun]; rfl⟩
  | cons x s =>
    have hx : isSep x = true := hs x rfl
    rw [split]
    dsimp only
    split
    · exact ⟨_,by rw [List.cons_append,List.takeWhile_cons_of_pos hx]; rfl⟩
    · exact ⟨_,by rw [List.cons_append,List.takeWhile_cons_of_pos hx]; rfl⟩

theorem strings_word (hb : ∀ x ∈ b, isSep x = true) (hw : w ≠ []) (htext : ∀ x ∈ w, isText x = true)
    (hl : ∀ x ∈ l.head?, isText x = false) (n : ℕ) (pre : List UInt8) : ∃ pre',
      strings (n+1) pre (b ++ (w ++ l)) = cstr (w ++ (split n pre'.length l).2)::strings n pre' l := by
  refine ⟨pre ++ (b.map (fun _ => 0) ++ w),?_⟩
  have hlen : (pre ++ (b.map (fun _ => (0 : UInt8)) ++ w)).length = pre.length+b.length+w.length := by
    simp [Nat.add_assoc]
  have hpre : pre ++ b.map (fun _ => (0 : UInt8)) ++ (w ++ (split n (pre.length+b.length+w.length) l).2) =
      pre ++ (b.map (fun _ => 0) ++ w) ++ (split n (pre.length+b.length+w.length) l).2 := by simp
  have hdrop : (pre ++ b.map (fun _ => (0 : UInt8))).length = pre.length+b.length := by simp
  unfold strings
  rw [split_word hb hw htext hl,hlen,List.map_cons,← List.append_assoc pre,← hdrop,List.drop_left,hdrop,hpre]

/-- Behind the last word a line ends in separators or not at all. -/
theorem Line.ends_iff (h : Line s ws) (hw : w ≠ []) (htext : ∀ x ∈ w, isText x = true) :
    (∀ x ∈ (b ++ (w ++ s)).getLast?, isSep x = false) ↔ ∀ x ∈ s.getLast?, isSep x = false := by
  cases hlast : s.getLast? with
  | none =>
    obtain rfl := List.getLast?_eq_none_iff.mp hlast
    refine iff_of_true (fun x hx => (isText_of_mem (htext x ?_)).1) nofun
    rw [List.append_nil,List.getLast?_append,List.getLast?_eq_some_getLast hw,Option.some_or] at hx
    exact Option.some.inj hx ▸ List.getLast_mem hw
  | some y => rw [List.getLast?_append,List.getLast?_append,hlast,Option.some_or,Option.some_or]

/-- No words and no separators at the end: an empty line. -/
theorem Line.eq_nil_iff (h : Line s ws) : s = [] ↔ ws = [] ∧ ∀ x ∈ s.getLast?, isSep x = false := by
  constructor
  · rintro rfl
    exact ⟨h.words.symm.trans rfl,nofun⟩
  · rintro ⟨rfl,hlast⟩
    cases h with
    | blanks hb =>
      cases hs : s.getLast? with
      | none => exact List.getLast?_eq_none_iff.mp hs
      | some x =>
        have hx := hb x (List.mem_of_getLast? hs)
        rw [hlast x hs] at hx
        cases hx

/-- The strings are the words, as many as there is room for, when fewer words than this follow, or just as
many and nothing behind the last one. -/
theorem Line.strings_iff (h : Line s ws) (n : ℕ) (pre rest : List UInt8) :
    strings (n+1) pre (s ++ 0::rest) = ws.take (n+1) ↔
      ws.length < n+1 ∨ ws.length = n+1 ∧ ∀ x ∈ s.getLast?, isSep x = false := by
  induction h generalizing n pre with
  | blanks hb =>
    rw [strings,split_blanks hb]
    simp
  | @word b w s ws hb hw htext hs hline ih =>
    have hstop : ∀ x ∈ (s ++ 0::rest).head?, isText x = false := by
      cases s with
      | nil => exact fun x hx => by cases hx; rfl
      | cons y s => exact fun x hx => by cases hx; simp [isText,hs y rfl]
    have hzero : (0 : UInt8) ∉ w := fun h => (isText_of_mem (htext 0 h)).2 rfl
    obtain ⟨pre',heq⟩ := strings_word hb hw htext hstop n pre
    rw [List.append_assoc,List.append_assoc,heq,hline.ends_iff hw htext]
    cases n with
    | zero =>
      -- the last place: the string goes on to the end of the line
      have hall : cstr (w ++ (s ++ 0::rest)) = w ++ s := by
        rw [← List.append_assoc]
        exact cstr_append_zero (by simpa using ⟨hzero,hline.zero_notMem⟩)
      rw [split,strings,split,hall]
      simpa using hline.eq_nil_iff
    | succ n =>
      obtain ⟨l,hl⟩ := split_zero hs n pre'.length rest
      rw [hl,cstr_append_zero hzero,List.take_succ_cons,List.cons_inj_right,ih,List.length_cons,
        Nat.add_lt_add_iff_right,Nat.add_right_cancel_iff]

/-- The commands are given the first ten words exactly when there are fewer, or just ten with nothing behind
the last one. -/
theorem argv_iff (s rest : List UInt8) (hs : (0 : UInt8) ∉ s) : argv (s ++ 0::rest) = (words s).take 10 ↔
    (words s).length < 10 ∨ (words s).length = 10 ∧ ∀ x ∈ s.getLast?, isSep x = false := by
  obtain ⟨ws,hline⟩ := exists_line s.length s (Nat.le_refl _) hs
  have hargv : argv (s ++ 0::rest) = strings 10 [] (s ++ 0::rest) := by
    simp only [argv,strings,List.nil_append,List.length_nil]
  rw [hline.words,hargv]
  exact hline.strings_iff 9 [] rest

/-- Ten words, and a blank behind them. -/
def tenWords : List UInt8 := (List.replicate 10 [0x61,0x20]).flatten

theorem twoWords_right : argv ([0x61,0x62,0x20,0x09,0x63,0x20] ++ [0]) = [[0x61,0x62],[0x63]] :=
  (argv_iff [0x61,0x62,0x20,0x09,0x63,0x20] [] (by decide)).mpr (Or.inl (by decide))

theorem tenWords_not_right : argv (tenWords ++ [0]) ≠ (words tenWords).take 10 ∧
    (argv (tenWords ++ [0])).getLast? = some [0x61,0x20] := by decide

end Words
end Autbus
