import Autbus.Addresses
import Autbus.Sprintf

/-! Hardware addresses as text (`ipaddr_utils.c`): `mac_htoa` writes one, `mac_atoh` reads it. -/
namespace Autbus
namespace Macs

open Bytes Commands CStrings Itoa Mprint Numerals Sprintf Uints

/-! ### Reading -/

def tolower (c : UInt8) : UInt8 := if 0x41 ≤ c ∧ c ≤ 0x5a then c+0x20 else c

/-- The `switch` over a character, `none` in its default. -/
def switchValue (c : UInt8) : Option UInt8 :=
  match tolower c with
  | 0x31 => some 0x1
  | 0x32 => some 0x2
  | 0x33 => some 0x3
  | 0x34 => some 0x4
  | 0x35 => some 0x5
  | 0x36 => some 0x6
  | 0x37 => some 0x7
  | 0x38 => some 0x8
  | 0x39 => some 0x9
  | 0x61 => some 0xa
  | 0x62 => some 0xb
  | 0x63 => some 0xc
  | 0x64 => some 0xd
  | 0x65 => some 0xe
  | 0x66 => some 0xf
  | 0x30 => some 0x0
  | _ => none

/-- The loop over `j`, from the last character on: the byte, and whether the default was not met. -/
def digitsOf : Str → ℕ → UInt8 → UInt8 × Bool
  | [], _, num => (num,true)
  | c::s, k, num =>
    match switchValue c with
    | none => (num,false)
    | some value => digitsOf s (k+1) (num ||| value <<< UInt8.ofNat (k*4))

/-- The loop over `i`, with as many bytes to come. -/
def bytesOf : ℕ → Str → ℕ → Mem → ℤ × Mem
  | 0, _, _, mem => (0,mem)
  | n+1, macstr, macAddrNum, mem =>
    let r := digitsOf (cstr (macstr.take 2)).reverse 0 0
    let mem := store mem macAddrNum [r.1]
    if r.2 then bytesOf n (macstr.drop 2) (macAddrNum+1) mem else (-1,mem)

/-- `HexStrToNum`; a pointer may be null. -/
def hexStrToNum (macstr : Option Str) (macAddrNum : Option ℕ) (mem : Mem) : ℤ × Mem :=
  match macstr,macAddrNum with
  | some macstr,some macAddrNum => bytesOf 6 macstr macAddrNum mem
  | _,_ => (-1,mem)

/-- The loop of `mac_atoh`, with the characters put into `str_input`; `none` where it writes behind the buffer. -/
def strip : Str → Str → Option Str
  | [], input => some input
  | c::macin, input =>
    if 30 < input.length then some input
    else if c ≠ ':'.toUInt8 then
      if input.length < 30 then strip macin (input ++ [c]) else none
    else strip macin input

/-- `mac_atoh`, which does not look at what `HexStrToNum` returns. -/
def macAtoh (macin : Option Str) (macout : Option ℕ) (mem : Mem) : Option (ℤ × Mem) :=
  match macin,macout with
  | some macin,some macout => (strip macin []).map fun input =>
    (0,(hexStrToNum (some (input ++ List.replicate (30-input.length) 0)) (some macout) mem).2)
  | _,_ => some (-1,mem)

/-! ### Writing -/

/-- `"%02X:%02X:%02X:%02X:%02X:%02X"`. -/
def szFormat : List UInt8 :=
  ['%'.toUInt8,'0'.toUInt8,'2'.toUInt8,'X'.toUInt8,':'.toUInt8,'%'.toUInt8,'0'.toUInt8,'2'.toUInt8,'X'.toUInt8,
    ':'.toUInt8,'%'.toUInt8,'0'.toUInt8,'2'.toUInt8,'X'.toUInt8,':'.toUInt8,'%'.toUInt8,'0'.toUInt8,'2'.toUInt8,
    'X'.toUInt8,':'.toUInt8,'%'.toUInt8,'0'.toUInt8,'2'.toUInt8,'X'.toUInt8,':'.toUInt8,'%'.toUInt8,'0'.toUInt8,
    '2'.toUInt8,'X'.toUInt8,0]

/-- The bytes as they are passed on. -/
def promoted (pMac : List UInt8) : Args := ⟨fun k => (pMac.getD k 0).toUInt32,fun _ => 0,fun _ => []⟩

/-- `mac_htoa`, with its buffer at `str`. -/
def macHtoa (mem : Mem) (str : ℕ) (pMac : List UInt8) : Option Mem :=
  (sprintf (promoted pMac) mem str szFormat).map fun r => store r.2 (str+r.1 : ℤ).toNat [0]

/-! ### Digits -/

/-- The characters that count. -/
def characters (macin : Str) : Str := macin.filter (· ≠ ':'.toUInt8)

/-- Two digits are a byte. -/
def pairs : List ℕ → List UInt8
  | h::l::ds => UInt8.ofNat (h*16+l)::pairs ds
  | _ => []

variable {t rest : Str} {ds : List ℕ} {c : UInt8} {d h l n : ℕ}

theorem switchValue_eq (c : UInt8) : switchValue c = (digit c).map UInt8.ofNat :=
  Addresses.forall_byte (P := fun c => switchValue c = (digit c).map UInt8.ofNat) (by decide +kernel) c

theorem ne_zero_of_digit (hd : digit c = some d) : c ≠ 0 := by
  rintro rfl
  cases hd.symm.trans (rfl : digit 0 = none)

theorem byte_of_digits (hh : h < 16) (hl : l < 16) :
    (0 ||| UInt8.ofNat l <<< UInt8.ofNat 0) ||| UInt8.ofNat h <<< UInt8.ofNat 4 = UInt8.ofNat (h*16+l) := by
  have hall : ∀ h l : Fin 16,(0 ||| UInt8.ofNat l <<< UInt8.ofNat 0) ||| UInt8.ofNat h <<< UInt8.ofNat 4 =
      UInt8.ofNat (h*16+l) := by decide
  exact hall ⟨h,hh⟩ ⟨l,hl⟩

theorem digitsOf_pair {x y : UInt8} (hx : digit x = some h) (hy : digit y = some l) (hh : h < 16) (hl : l < 16) :
    digitsOf [y,x] 0 0 = (UInt8.ofNat (h*16+l),true) := by
  rw [digitsOf,switchValue_eq,hy]
  dsimp only [Option.map_some]
  rw [digitsOf,switchValue_eq,hx]
  exact congrArg (·,true) (byte_of_digits hh hl)

theorem bytesOf_pair {x y : UInt8} (hx : digit x = some h) (hy : digit y = some l) (hh : h < 16) (hl : l < 16) (n : ℕ)
    (s : Str) (a : ℕ) (mem : Mem) :
    bytesOf (n+1) (x::y::s) a mem = bytesOf n s (a+1) (store mem a [UInt8.ofNat (h*16+l)]) := by
  have htmp : cstr ((x::y::s).take 2) = [x,y] := by
    simp [cstr,ne_zero_of_digit hx,ne_zero_of_digit hy]
  have hrev : [x,y].reverse = [y,x] := rfl
  rw [bytesOf,htmp,hrev,digitsOf_pair hx hy hh hl]
  rfl

theorem spelled_pair (hs : Spelled 16 t (h::l::ds)) :
    ∃ x y s,t = x::y::s ∧ digit x = some h ∧ digit y = some l ∧ h < 16 ∧ l < 16 ∧ Spelled 16 s ds := by
  cases t with
  | nil => cases spelled_nil.mp hs
  | cons x t =>
    obtain ⟨_,_,heq,hx,hh,hs⟩ := spelled_cons.mp hs
    cases heq
    cases t with
    | nil => cases spelled_nil.mp hs
    | cons y t =>
      obtain ⟨_,_,heq,hy,hl,hs⟩ := spelled_cons.mp hs
      cases heq
      exact ⟨x,y,t,rfl,hx,hy,hh,hl,hs⟩

/-- Pairs of digits are stored as bytes, whatever stands behind them. -/
theorem bytesOf_spelled (hs : Spelled 16 t ds) (hlen : ds.length = 2*n) (rest : Str) (a : ℕ) (mem : Mem) :
    bytesOf n (t ++ rest) a mem = (0,store mem a (pairs ds)) := by
  induction n generalizing t ds a mem with
  | zero =>
    obtain rfl := List.length_eq_zero_iff.mp hlen
    simp [bytesOf,pairs]
  | succ n ih =>
    match ds,hlen with
    | h::l::ds,hlen =>
      obtain ⟨x,y,s,rfl,hx,hy,hh,hl,hs⟩ := spelled_pair hs
      have hrest : ds.length = 2*n := by
        simp only [List.length_cons] at hlen
        omega
      have hstore : store mem a (pairs (h::l::ds)) =
          store (store mem a [UInt8.ofNat (h*16+l)]) (a+1) (pairs ds) :=
        (store_append mem a [UInt8.ofNat (h*16+l)] (pairs ds)).symm
      rw [hstore,← ih hs hrest]
      exact bytesOf_pair hx hy hh hl n (s ++ rest) a mem

/-! ### The buffer of `mac_atoh` -/

theorem strip_eq (macin input : Str) (hin : input.length ≤ 30) :
    strip macin input =
      if input.length+(characters macin).length ≤ 30 then some (input ++ characters macin) else none := by
  induction macin generalizing input with
  | nil => simp [strip,characters,hin]
  | cons c macin ih =>
    rw [strip,if_neg (by omega)]
    by_cases hc : c = ':'.toUInt8
    · have hchars : characters (c::macin) = characters macin := by simp [characters,hc]
      rw [if_neg (not_not.mpr hc),ih input hin,hchars]
    · have hchars : characters (c::macin) = c::characters macin := by simp [characters,hc]
      rw [if_pos hc,hchars,List.length_cons]
      by_cases hlt : input.length < 30
      · rw [if_pos hlt,ih (input ++ [c]) (by rw [List.length_append,List.length_singleton]; omega),List.length_append,
          List.length_singleton,List.append_assoc,List.singleton_append]
        simp only [Nat.add_assoc,Nat.add_comm 1]
      · rw [if_neg hlt,if_neg (by omega)]

theorem macAtoh_eq (macin : Str) (macout : ℕ) (mem : Mem) :
    macAtoh (some macin) (some macout) mem = if (characters macin).length ≤ 30 then
      some (0,(bytesOf 6 (characters macin ++ List.replicate (30-(characters macin).length) 0) macout mem).2)
    else none := by
  have hstrip := strip_eq macin [] (by simp)
  simp only [List.length_nil,Nat.zero_add,List.nil_append] at hstrip
  dsimp only [macAtoh]
  rw [hstrip]
  split <;> rfl

theorem macAtoh_spelled {macin : Str} (htext : characters macin = t ++ rest) (hle : (characters macin).length ≤ 30)
    (hs : Spelled 16 t ds) (hlen : ds.length = 12) (macout : ℕ) (mem : Mem) :
    macAtoh (some macin) (some macout) mem = some (0,store mem macout (pairs ds)) := by
  rw [macAtoh_eq,if_pos hle,htext,List.append_assoc,bytesOf_spelled (n := 6) hs hlen]

/-- A text is read, always as an address, exactly where its characters fit the buffer; where they begin with twelve
digits these are the address. -/
theorem macAtoh_takes (macin : Str) (macout : ℕ) (mem : Mem) :
    ((∃ m,macAtoh (some macin) (some macout) mem = some (0,m)) ↔ (characters macin).length ≤ 30) ∧
      ∀ t rest ds,characters macin = t ++ rest → (characters macin).length ≤ 30 → Spelled 16 t ds →
        ds.length = 12 → macAtoh (some macin) (some macout) mem = some (0,store mem macout (pairs ds)) := by
  constructor
  · rw [macAtoh_eq]
    split
    · next hle => exact iff_of_true ⟨_,rfl⟩ hle
    · next hgt => exact iff_of_false nofun hgt
  · intro t rest ds htext hle hs hlen
    exact macAtoh_spelled htext hle hs hlen macout mem

/-! ### The text of `mac_htoa` -/

/-- The two digits of a byte. -/
def nibbles (b : UInt8) : List ℕ := [b.toNat/16,b.toNat%16]

/-- Six bytes with colons between them. -/
def colons : List UInt8 → Str
  | [] => []
  | [b] => (nibbles b).map (glyph true)
  | b::bs => (nibbles b).map (glyph true) ++ ':'.toUInt8::colons bs

/-- The directives of the format for as many bytes. -/
def fields : ℕ → List Directive
  | 0 => []
  | 1 => [.plain 2 'X'.toUInt8]
  | n+1 => .plain 2 'X'.toUInt8::.char ':'.toUInt8::fields n

theorem colons_cons (b x : UInt8) (bs : List UInt8) :
    colons (b::x::bs) = (nibbles b).map (glyph true) ++ ':'.toUInt8::colons (x::bs) := rfl

theorem fields_succ (n : ℕ) : fields (n+2) = .plain 2 'X'.toUInt8::.char ':'.toUInt8::fields (n+1) := rfl

theorem numeral_byte (hn : n < 256) : numeral 16 n 2 = [n/16,n%16] := by
  rw [numeral,lowFirst_eq (by omega)]
  by_cases hd : n/16 = 0
  · simp [hd]
  · have hfirst : lowFirst 16 (n/16) = [n/16] := by
      rw [lowFirst_eq (by omega),if_pos (by omega),Nat.mod_eq_of_lt (by omega)]
    simp [hd,hfirst]

theorem miniItoa_byte (b : UInt8) : miniItoa b.toUInt32.toInt32 sixteen true true 2 = (nibbles b).map (glyph true) := by
  have hlay : layOut false 2 ((lowFirst 16 b.toNat).map fun d : ℕ => digitChar true d) =
      (numeral 16 b.toNat 2).map (glyph true) := layOut_eq (by omega) (by omega) false
  rw [numeral_byte b.toNat_lt] at hlay
  rw [miniItoa_eq (by decide)]
  simpa [sixteen,nibbles] using hlay

theorem reads_byte {fmt rest : List UInt8} {ds : List Directive} (h : Reads fmt ds rest) :
    Reads (['%'.toUInt8,'0'.toUInt8,'2'.toUInt8,'X'.toUInt8] ++ fmt) (.plain 2 'X'.toUInt8::ds) rest := by
  have hpad : Pad ['0'.toUInt8,'2'.toUInt8] 2 'X'.toUInt8 := .digit (by unfold IsDigit; decide)
  exact .next (.plain hpad (by unfold IsPlain IsShort; decide)) (by unfold Directive.Sure; decide) h

theorem reads_colon {fmt rest : List UInt8} {ds : List Directive} (h : Reads fmt ds rest) :
    Reads (':'.toUInt8::fmt) (.char ':'.toUInt8::ds) rest :=
  .next (.char (by decide)) (by unfold Directive.Sure; decide) h

theorem szFormat_reads : Reads szFormat (fields 6) [] :=
  reads_byte (reads_colon (reads_byte (reads_colon (reads_byte (reads_colon (reads_byte (reads_colon (reads_byte
    (reads_colon (reads_byte (.stop .nil)))))))))))

theorem text_byte {args : Args} {vst : ℕ} {b : UInt8} (hb : args.word vst = b.toUInt32) :
    (Directive.plain 2 'X'.toUInt8).text args vst = ((nibbles b).map (glyph true),vst+1) := by
  have htext : (Directive.plain 2 'X'.toUInt8).text args vst =
      (miniItoa (args.word vst).toInt32 sixteen true true 2,vst+1) := rfl
  rw [htext,hb,miniItoa_byte]

theorem expansion_fields {args : Args} {vst : ℕ} (bs : List UInt8)
    (hargs : ∀ k b,bs[k]? = some b → args.word (vst+k) = b.toUInt32) :
    expansion args vst (fields bs.length) = colons bs := by
  induction bs generalizing vst with
  | nil => rfl
  | cons b bs ih =>
    have hfirst := text_byte (hargs 0 b rfl)
    rw [Nat.add_zero] at hfirst
    cases bs with
    | nil =>
      rw [List.length_singleton,fields,expansion,hfirst]
      exact List.append_nil _
    | cons x bs =>
      have hrest : ∀ k y,(x::bs)[k]? = some y → args.word (vst+1+k) = y.toUInt32 := by
        intro k y hk
        rw [Nat.add_assoc,Nat.add_comm 1]
        exact hargs (k+1) y hk
      rw [colons_cons,← ih hrest,List.length_cons,List.length_cons,fields_succ,expansion,hfirst,expansion]
      rfl

theorem glyph_digit (hd : d < 16) : digit (glyph true d) = some d ∧ glyph true d ≠ ':'.toUInt8 := by
  interval_cases d <;> exact ⟨rfl,by decide⟩

theorem lt_of_mem_nibbles {b : UInt8} (hd : d ∈ nibbles b) : d < 16 := by
  have hb := b.toNat_lt
  simp only [nibbles,List.mem_cons,List.not_mem_nil,or_false] at hd
  omega

theorem characters_nibbles (b : UInt8) (s : Str) :
    characters ((nibbles b).map (glyph true) ++ s) = (nibbles b).map (glyph true) ++ characters s := by
  have hkeep : ((nibbles b).map (glyph true)).filter (· ≠ ':'.toUInt8) = (nibbles b).map (glyph true) := by
    refine List.filter_eq_self.mpr fun c hc => ?_
    obtain ⟨d,hd,rfl⟩ := List.mem_map.mp hc
    exact decide_eq_true (glyph_digit (lt_of_mem_nibbles hd)).2
  rw [characters,List.filter_append,hkeep,characters]

theorem characters_colons (bs : List UInt8) : characters (colons bs) = (bs.flatMap nibbles).map (glyph true) := by
  induction bs with
  | nil => rfl
  | cons b bs ih =>
    cases bs with
    | nil => simpa [colons,characters] using characters_nibbles b []
    | cons x bs =>
      have hcolon : characters (':'.toUInt8::colons (x::bs)) = characters (colons (x::bs)) := by simp [characters]
      rw [colons_cons,characters_nibbles,hcolon,ih,← List.map_append]
      rfl

theorem spelled_glyphs (hds : ∀ d ∈ ds,d < 16) : Spelled 16 (ds.map (glyph true)) ds := by
  refine ⟨?_,hds⟩
  rw [List.map_map]
  exact List.map_congr_left fun d hd => (glyph_digit (hds d hd)).1

theorem pairs_nibbles (bs : List UInt8) : pairs (bs.flatMap nibbles) = bs := by
  induction bs with
  | nil => rfl
  | cons b bs ih =>
    have hb : UInt8.ofNat (b.toNat/16*16+b.toNat%16) = b := by rw [Nat.div_add_mod',UInt8.ofNat_toNat]
    exact congrArg₂ List.cons hb ih

theorem lt_of_mem_flatMap {bs : List UInt8} (hd : d ∈ bs.flatMap nibbles) : d < 16 := by
  obtain ⟨b,-,hb⟩ := List.mem_flatMap.mp hd
  exact lt_of_mem_nibbles hb

theorem zero_notMem_colons (bs : List UInt8) : 0 ∉ colons bs := by
  intro h0
  have hmem : (0 : UInt8) ∈ characters (colons bs) := List.mem_filter.mpr ⟨h0,by decide⟩
  rw [characters_colons] at hmem
  obtain ⟨d,hd,hglyph⟩ := List.mem_map.mp hmem
  exact ne_zero_of_digit (glyph_digit (lt_of_mem_flatMap hd)).1 hglyph

theorem length_colons (bs : List UInt8) : (colons bs).length = 3*bs.length-1 := by
  induction bs with
  | nil => rfl
  | cons b bs ih =>
    cases bs with
    | nil => rfl
    | cons x bs =>
      rw [colons_cons,List.length_append,List.length_map,List.length_cons,ih]
      simp only [nibbles,List.length_cons,List.length_nil]
      omega

/-! ### There and back -/

/-- What `mac_htoa` writes, the zero included. -/
theorem macHtoa_eq {bs : List UInt8} (hbs : bs.length = 6) (mem : Mem) (str : ℕ) :
    macHtoa mem str bs = some (store mem str (colons bs ++ [0])) := by
  have hlen : (colons bs).length = 17 := by rw [length_colons,hbs]
  have hexp : expansion (promoted bs) 0 (fields 6) = colons bs := by
    rw [← hbs]
    refine expansion_fields bs fun k b hk => ?_
    have hbyte : bs.getD k 0 = b := by rw [List.getD_eq_getElem?_getD,hk,Option.getD_some]
    rw [Nat.zero_add,← hbyte]
    rfl
  obtain ⟨m,hsprintf,hm⟩ := sprintf_eq (promoted bs) mem str szFormat_reads
  rw [hexp,hlen] at hsprintf hm
  obtain rfl := hm (by omega)
  have hint : (Int32.ofNat 17).toInt = 17 := rfl
  rw [macHtoa,hsprintf,Option.map_some,hint,← store_append,hlen]
  rfl

/-- The string that is then in the buffer. -/
theorem cstr_colons (bs : List UInt8) (mem : Mem) (str k : ℕ) :
    cstr (read (store mem str (colons bs ++ [0])) str ((colons bs).length+1+k)) = colons bs := by
  have hread := read_store mem str (colons bs ++ [0])
  rw [List.length_append,List.length_singleton] at hread
  rw [read_add,hread,List.append_assoc]
  exact cstr_append_zero (zero_notMem_colons bs)

theorem macAtoh_colons {bs : List UInt8} (hbs : bs.length = 6) (macout : ℕ) (mem : Mem) :
    macAtoh (some (colons bs)) (some macout) mem = some (0,store mem macout bs) := by
  have hchars := characters_colons bs
  have hshort : (characters (colons bs)).length ≤ 30 := by
    refine (List.length_filter_le _ _).trans ?_
    rw [length_colons,hbs]
    omega
  have htwelve : (bs.flatMap nibbles).length = 12 := by simp [List.length_flatMap,nibbles,hbs]
  rw [macAtoh_spelled (hchars.trans (List.append_nil _).symm) hshort (spelled_glyphs fun _ => lt_of_mem_flatMap)
    htwelve,pairs_nibbles]

/-- `mac_htoa` keeps to its buffer, and its text is read as the address that was written. -/
theorem macHtoa_read (mem : Mem) (str macout : ℕ) (a b c d e f : UInt8) :
    ∃ m,macHtoa mem str [a,b,c,d,e,f] = some m ∧ (∀ i,i < str ∨ str+30 ≤ i → m i = mem i) ∧
      macAtoh (some (cstr (read m str 30))) (some macout) m = some (0,store m macout [a,b,c,d,e,f]) := by
  have hlen : (colons [a,b,c,d,e,f]).length = 17 := length_colons _
  refine ⟨_,macHtoa_eq rfl mem str,fun i hi => ?_,?_⟩
  · rw [store,if_neg]
    rw [List.length_append,hlen,List.length_singleton]
    omega
  · have htext := cstr_colons [a,b,c,d,e,f] mem str 12
    rw [hlen] at htext
    rw [htext,macAtoh_colons rfl]

end Macs
end Autbus
