import Autbus.Bytes
import Autbus.Mprint

/-! Formats are expanded into a buffer (`mprint.c`): `sprintf` and its output function `string_puts`. -/
namespace Autbus
namespace Sprintf

open Bytes Mprint

/-- `string_blk`, with the memory it points into. -/
structure StringBlk where
  mem : Mem
  ptr : ℕ
  ofs : Int32

/-- `string_puts`. -/
def stringPuts (pblk : StringBlk) (text : List UInt8) : StringBlk :=
  { pblk with
    mem := store pblk.mem (pblk.ptr+pblk.ofs.toInt).toNat text
    ofs := pblk.ofs+Int32.ofNat text.length }

/-- `sprintf`: what it returns, and the memory as it is left; `none` where the end of the format is not found. -/
def sprintf (args : Args) (mem : Mem) (str : ℕ) (fmt : List UInt8) : Option (ℤ × Mem) :=
  (mxVprintf args fmt).map fun r => (r.1.tcnt.toInt,(r.1.calls.foldl stringPuts ⟨mem,str,0⟩).mem)

variable {args : Args} {mem : Mem} {str k : ℕ} {fmt rest f text : List UInt8} {ds : List Directive}
  {pblk : StringBlk}

/-! ### From which formats it returns -/

/-- No end is found, whatever has been expanded before. -/
def Lost (args : Args) (fmt : List UInt8) : Prop :=
  ∀ (s : State) (vst : ℕ) (text : List UInt8), Expanded s vst text → Between s.pc → run args s fmt = none

/-- What holds behind a directive holds before it. -/
theorem reads_or_lost_next {w : List UInt8} {d : Directive} (hw : Spells w d) (hd : d.Sure)
    (h : (∃ ds rest,Reads fmt ds rest) ∨ Lost args fmt) :
    (∃ ds rest,Reads (w ++ fmt) ds rest) ∨ Lost args (w ++ fmt) := by
  refine h.imp (fun ⟨ds,rest,hr⟩ => ⟨_,_,.next hw hd hr⟩) fun hlost s vst text hs hpc => ?_
  obtain ⟨hpc',hs'⟩ := feed_spells args hs hpc hw hd
  rw [run_append args (between_ne_final hpc')]
  exact hlost _ _ _ hs' hpc'

/-- Behind a length the zero is a letter, and the memory behind it is read on. -/
theorem dangles_reads_or_lost (hf : Dangles f) (h0 : 0 ∉ f)
    (h : (∃ ds rest,Reads fmt ds rest) ∨ Lost args fmt) :
    (∃ ds rest,Reads (f ++ 0::fmt) ds rest) ∨ Lost args (f ++ 0::fmt) := by
  induction hf with
  | @length p zeroPad m hp hplain =>
    by_cases hlong : m = 'L'.toUInt8
    · subst hlong
      simpa using reads_or_lost_next (.long hp) trivial h
    · have hshort : IsShort m := not_not.mp fun hs => hplain ⟨hlong,hs⟩
      simpa using reads_or_lost_next (.short hp hshort) trivial h
  | next hw _ ih =>
    simp only [List.mem_append,not_or] at h0
    rw [List.append_assoc]
    exact reads_or_lost_next hw (sure_of_notMem hw h0.1) (ih h0.2)

theorem conversion_ne_final (s : State) (zeroPad : ℕ) (ch : UInt8) : (s.conversion args zeroPad ch).pc ≠ .final := by
  unfold State.conversion
  split
  · simp
  · split
    · simp
    · simp [State.convert]

/-- Only a zero leads to the end. -/
theorem step_ne_final {s : State} {ch : UInt8} (hpc : s.pc ≠ .final) (h0 : ch ≠ 0) :
    (step args s ch).pc ≠ .final := by
  unfold step
  cases h : s.pc with
  | loop =>
    simp only [if_neg h0]
    split <;> simp
  | literal ptr =>
    simp only [if_neg h0]
    split <;> simp
  | fmtSwi =>
    simp only [if_neg h0]
    split
    · simp
    · exact conversion_ne_final s 0 ch
  | zero =>
    simp only [if_neg h0]
    split
    · simp
    · exact conversion_ne_final s 0 ch
  | padded zeroPad =>
    simp only [if_neg h0]
    exact conversion_ne_final s zeroPad ch
  | long zeroPad => simp [State.convert]
  | short zeroPad => simp [State.convert]
  | final => exact absurd h hpc

theorem run_eq_none {s : State} (hpc : s.pc ≠ .final) (h0 : 0 ∉ fmt) : run args s fmt = none := by
  induction fmt generalizing s with
  | nil => rw [run,if_neg hpc]
  | cons ch fmt ih =>
    rw [List.mem_cons,not_or] at h0
    rw [run,if_neg hpc,ih (step_ne_final hpc (Ne.symm h0.1)) h0.2]

theorem reads_or_lost (args : Args) (fmt : List UInt8) : (∃ ds rest,Reads fmt ds rest) ∨ Lost args fmt := by
  induction hn : fmt.length using Nat.strong_induction_on generalizing fmt with
  | _ n ih =>
    subst hn
    by_cases h0 : 0 ∈ fmt
    · obtain ⟨f,rest,rfl,hnot⟩ := List.eq_append_cons_of_mem h0
      have hlt : rest.length < (f ++ 0::rest).length := by
        rw [List.length_append,List.length_cons]
        omega
      rcases format_or_dangles f with ⟨ds,hf⟩ | hd
      · exact .inl ⟨ds,rest,hf.reads hnot rest⟩
      · exact dangles_reads_or_lost hd hnot (ih _ hlt rest rfl)
    · exact .inr fun s _ _ _ hpc => run_eq_none (between_ne_final hpc) h0

/-- It returns exactly from the formats that are made of directives, with an end behind them. -/
theorem mxVprintf_returns_iff :
    (∃ s,mxVprintf args fmt = some (s,rest)) ↔ ∃ ds,Reads fmt ds rest := by
  constructor
  · rintro ⟨s,hs⟩
    rcases reads_or_lost args fmt with ⟨ds,rest',hr⟩ | hlost
    · obtain ⟨s',hrun,-⟩ := run_reads args expanded_start (.inl rfl) hr
      rw [mxVprintf,hrun] at hs
      cases hs
      exact ⟨ds,hr⟩
    · rw [mxVprintf,hlost _ _ _ expanded_start (.inl rfl)] at hs
      cases hs
  · rintro ⟨ds,hr⟩
    obtain ⟨s,hrun,-⟩ := run_reads args expanded_start (.inl rfl) hr
    exact ⟨s,hrun⟩

/-! ### The buffer -/

/-- The calls of `string_puts` write one text. -/
theorem puts_calls {calls : List (List UInt8)} (hofs : pblk.ofs = Int32.ofNat k)
    (hlt : k+calls.flatten.length < 2^31) :
    (calls.foldl stringPuts pblk).mem = store pblk.mem (pblk.ptr+k) calls.flatten := by
  induction calls generalizing pblk k with
  | nil =>
    simp
  | cons text calls ih =>
    rw [List.flatten_cons,List.length_append] at hlt
    have hint : pblk.ofs.toInt = k := by rw [hofs,Int32.toInt_ofNat_of_lt (by omega)]
    have hnext : (stringPuts pblk text).ofs = Int32.ofNat (k+text.length) := by
      rw [stringPuts,hofs,Int32.ofNat_add]
    have haddr : (pblk.ptr+pblk.ofs.toInt : ℤ).toNat = pblk.ptr+k := by omega
    rw [List.foldl_cons,ih hnext (by omega),List.flatten_cons,← store_append,stringPuts,haddr,Nat.add_assoc]

/-- What `sprintf` returns, and the text it leaves at `str`. -/
theorem sprintf_eq (args : Args) (mem : Mem) (str : ℕ) (hr : Reads fmt ds rest) :
    ∃ m',sprintf args mem str fmt = some ((Int32.ofNat (expansion args 0 ds).length).toInt,m') ∧
      ((expansion args 0 ds).length < 2^31 → m' = store mem str (expansion args 0 ds)) := by
  obtain ⟨s,hrun,htcnt,hcalls⟩ := run_reads args expanded_start (.inl rfl) hr
  rw [List.nil_append] at htcnt hcalls
  refine ⟨_,by rw [sprintf,mxVprintf,hrun,Option.map_some,htcnt],fun hlt => ?_⟩
  rw [← hcalls] at hlt ⊢
  exact puts_calls (k := 0) rfl (by rwa [Nat.zero_add])

/-- The characters of the directives are counted, and they are at `str` with a zero behind them. -/
def Right (args : Args) (mem : Mem) (str : ℕ) (fmt : List UInt8) (ds : List Directive) : Prop :=
  ∃ n m',sprintf args mem str fmt = some (n,m') ∧ n = (expansion args 0 ds).length ∧
    read m' str ((expansion args 0 ds).length+1) = expansion args 0 ds ++ [0]

/-- No zero is written: the string ends where it should only if there was one before. -/
theorem sprintf_right_iff (args : Args) (mem : Mem) (str : ℕ) (hr : Reads fmt ds rest) :
    Right args mem str fmt ds ↔
      (expansion args 0 ds).length < 2^31 ∧ mem (str+(expansion args 0 ds).length) = 0 := by
  obtain ⟨m',hsprintf,hmem⟩ := sprintf_eq args mem str hr
  have hread : (expansion args 0 ds).length < 2^31 → read m' str ((expansion args 0 ds).length+1) =
      expansion args 0 ds ++ [mem (str+(expansion args 0 ds).length)] := by
    intro hlt
    have hbehind : read (store mem str (expansion args 0 ds)) (str+(expansion args 0 ds).length) 1 =
        [mem (str+(expansion args 0 ds).length)] := read_store_frame (.inr (Nat.le_refl _))
    rw [hmem hlt,read_add,read_store,hbehind]
  constructor
  · rintro ⟨n,m'',heq,hn,htext⟩
    obtain ⟨rfl,rfl⟩ := Prod.mk.inj (Option.some.inj (hsprintf.symm.trans heq))
    have hlt := (toInt_ofNat_eq_iff _).mp hn
    rw [hread hlt] at htext
    exact ⟨hlt,List.singleton_inj.mp (List.append_cancel_left htext)⟩
  · rintro ⟨hlt,hzero⟩
    refine ⟨_,m',hsprintf,(toInt_ofNat_eq_iff _).mpr hlt,?_⟩
    rw [hread hlt,hzero]

/-- `"ok"`. -/
theorem ok_reads : Reads ['o'.toUInt8,'k'.toUInt8,0] [.char 'o'.toUInt8,.char 'k'.toUInt8] [] :=
  .next (.char (by decide)) (by unfold Directive.Sure; decide)
    (.next (.char (by decide)) (by unfold Directive.Sure; decide) (.stop .nil))

theorem zeroed_right :
    Right someArgs (fun _ => 0) 5 ['o'.toUInt8,'k'.toUInt8,0] [.char 'o'.toUInt8,.char 'k'.toUInt8] :=
  (sprintf_right_iff someArgs (fun _ => 0) 5 ok_reads).mpr ⟨by decide,rfl⟩

/-- A longer text was there before. -/
theorem reused_not_right :
    ¬Right someArgs (ofList ['f'.toUInt8,'a'.toUInt8,'i'.toUInt8,'l'.toUInt8,0]) 0 ['o'.toUInt8,'k'.toUInt8,0]
      [.char 'o'.toUInt8,.char 'k'.toUInt8] := by
  rintro ⟨n,m',heq,-,htext⟩
  have hbytes : sprintf someArgs (ofList ['f'.toUInt8,'a'.toUInt8,'i'.toUInt8,'l'.toUInt8,0]) 0
      ['o'.toUInt8,'k'.toUInt8,0] = some (n,m') → m' 2 = 'i'.toUInt8 := by
    intro h
    obtain ⟨-,rfl⟩ := Prod.mk.inj (Option.some.inj h.symm)
    rfl
  have hread : read m' 0 3 = read (ofList ['o'.toUInt8,'k'.toUInt8,0]) 0 3 := htext.trans rfl
  have hzero : m' (0+2) = 0 := read_inj hread (by omega)
  rw [Nat.zero_add,hbytes heq] at hzero
  exact absurd hzero (by decide)

end Sprintf
end Autbus
