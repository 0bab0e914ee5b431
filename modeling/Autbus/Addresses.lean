import Autbus.Uints
import Mathlib.Tactic.IntervalCases

/-! Addresses as text (`ipaddr_utils.c`): `ip_aton` reads an address of one to four parts, `ip_ntoa_r` writes one of
four. -/
namespace Autbus
namespace Addresses

open Commands Numerals Uints

/-! ### The order of bytes -/

def htonl (n : UInt32) : UInt32 :=
  (n &&& 0xff) <<< 24 ||| (n &&& 0xff00) <<< 8 ||| (n &&& 0xff0000) >>> 8 ||| (n &&& 0xff000000) >>> 24

def ntohl (n : UInt32) : UInt32 :=
  (n &&& 0xff000000) >>> 24 ||| (n &&& 0xff0000) >>> 8 ||| (n &&& 0xff00) <<< 8 ||| (n &&& 0xff) <<< 24

/-! ### Reading -/

def inRange (c lo up : UInt8) : Bool := lo ≤ c ∧ c ≤ up

def isdigit (c : UInt8) : Bool := inRange c 0x30 0x39

def isxdigit (c : UInt8) : Bool := isdigit c || inRange c 0x61 0x66 || inRange c 0x41 0x46

def islower (c : UInt8) : Bool := inRange c 0x61 0x7a

def isspace (c : UInt8) : Bool := c ∈ [0x20,0x0c,0x0a,0x0d,0x09,0x0b]

/-- The inner loop: the number goes on, and what stands behind it. -/
def collect (base : UInt8) : Str → UInt32 → UInt32 × Str
  | [], val => (val,[])
  | c::cp, val =>
    if isdigit c then collect base cp (val*base.toUInt32+(c-0x30).toUInt32)
    else if base = 16 ∧ isxdigit c then
      collect base cp (val <<< 4 ||| (c+10-if islower c then 0x61 else 0x41).toUInt32)
    else (val,c::cp)

/-- A number, as in C: its base is told by what it begins with. -/
def part (cp : Str) : Option (UInt32 × Str) :=
  if ¬isdigit (cp.getD 0 0) then none
  else if cp.getD 0 0 = 0x30 then
    if cp.getD 1 0 = 0x78 ∨ cp.getD 1 0 = 0x58 then some (collect 16 (cp.drop 2) 0)
    else some (collect 8 (cp.drop 1) 0)
  else some (collect 10 cp 0)

/-- The outer loop: the parts in front, where there is room for `room` of them, the last one, and what follows. -/
def parts : ℕ → List UInt32 → Str → Option (List UInt32 × UInt32 × Str)
  | 0, pp, cp => (part cp).bind fun r => if r.2.getD 0 0 = 0x2e then none else some (pp,r)
  | room+1, pp, cp => (part cp).bind fun r =>
    if r.2.getD 0 0 = 0x2e then parts room (pp ++ [r.1]) (r.2.drop 1) else some (pp,r)

/-- The switch over the number of parts. -/
def concoct (val : UInt32) : List UInt32 → Option UInt32
  | [] => some val
  | [a] => if 0xffffff < val then none else some (val ||| a <<< 24)
  | [a,b] => if 0xffff < val then none else some (val ||| (a <<< 24 ||| b <<< 16))
  | a::b::c::_ => if 0xff < val then none else some (val ||| (a <<< 24 ||| b <<< 16 ||| c <<< 8))

/-- `ip_aton`: the address, in network order, where it returns 1. -/
def ipAton (cp : Str) : Option UInt32 :=
  (parts 3 [] cp).bind fun r =>
    if r.2.2.getD 0 0 ≠ 0 ∧ ¬isspace (r.2.2.getD 0 0) then none else (concoct r.2.1 r.1).map htonl

/-- `ip_atou`. -/
def ipAtou (cp : Str) : UInt32 := ((ipAton cp).map ntohl).getD 0xffffffff

/-! ### Writing -/

/-- The digits of a byte, which are taken off from behind; `inv` holds three. -/
def invDigits (ap : UInt8) : Option (List UInt8) :=
  digitLoop (fun ap : UInt8 => 0x30+ap%10) (fun ap => ap/10) (fun ap => ap ≠ 0) 3 ap

/-- `*rp++ = c` while there is room. -/
def put (buflen : ℕ) (buf : Str) (c : UInt8) : Option Str := if buflen ≤ buf.length then none else some (buf ++ [c])

/-- One round of the loop over the bytes. -/
def putPart (buflen : ℕ) (buf : Str) (ap : UInt8) : Option Str :=
  (invDigits ap).bind fun inv => (inv.reverse ++ [0x2e]).foldlM (put buflen) buf

/-- The bytes of a word in memory. -/
def memory (s : UInt32) : List UInt8 := [s.toUInt8,(s >>> 8).toUInt8,(s >>> 16).toUInt8,(s >>> 24).toUInt8]

/-- `ip_ntoa_r`: the string, or null; the last dot becomes its end. -/
def ipNtoaR (addr : UInt32) (buflen : ℕ) : Option Str :=
  ((memory addr).foldlM (putPart buflen) []).map List.dropLast

/-- `ip_ntoa`. -/
def ipNtoa (addr : UInt32) : Option Str := ipNtoaR addr 16

/-- `ip_utoa`. -/
def ipUtoa (ipaddr : UInt32) : Option Str := ipNtoaR (htonl ipaddr) 16

/-! ### The notation -/

/-- A number of C. A digit of an octal one may be 8 or 9, and behind `0x` there may be none. -/
inductive Number : Str → ℕ → Prop
  | decimal {s : Str} {ds : List ℕ} : s ≠ [] → s.head? ≠ some 0x30 → Spelled 10 s ds → Number s (value 10 ds)
  | octal {s : Str} {ds : List ℕ} : Spelled 10 s ds → Number (0x30::s) (value 8 ds)
  | hex {x : UInt8} {s : Str} {ds : List ℕ} : x = 0x58 ∨ x = 0x78 → Spelled 16 s ds → Number (0x30::x::s) (value 16 ds)

/-- Here the text may end. -/
def Ends (rest : Str) : Prop := rest.getD 0 0 = 0 ∨ isspace (rest.getD 0 0)

/-- Numbers with dots between them, the last one apart. -/
inductive Dotted : Str → List ℕ → ℕ → Prop
  | last {s rest : Str} {n : ℕ} : Number s n → Ends rest → Dotted (s ++ rest) [] n
  | more {s cp : Str} {n m : ℕ} {ns : List ℕ} : Number s n → Dotted cp ns m → Dotted (s ++ 0x2e::cp) (n::ns) m

/-- The address with these parts: each part in front is one byte, the last one is the rest. -/
def address (ns : List ℕ) (m : ℕ) : ℕ := value 256 ns*256^(4-ns.length)+m

/-! ### Words from bytes -/

theorem or_shift {i x : ℕ} (hi : i < 32) (hx : x < 2^i) (y : ℕ) :
    UInt32.ofNat x ||| UInt32.ofNat y <<< UInt32.ofNat i = UInt32.ofNat (2^i*y+x) := by
  have hpow : 2^32 = 2^i*2^(32-i) := by rw [← pow_add,Nat.add_sub_cancel' hi.le]
  have hx32 : x % 2^32 = x := Nat.mod_eq_of_lt (hx.trans (Nat.pow_lt_pow_right (by decide) hi))
  have hshift : y % 2^32*2^i % 2^32 = 2^i*(y % 2^(32-i)) := by
    rw [Nat.mod_mul_mod,hpow,Nat.mul_comm y,Nat.mul_mod_mul_left]
  apply UInt32.toNat_inj.mp
  rw [UInt32.toNat_or,UInt32.toNat_shiftLeft,UInt32.toNat_ofNat',UInt32.toNat_ofNat',UInt32.toNat_ofNat',
    UInt32.toNat_ofNat',hx32,Nat.mod_eq_of_lt (show i < 2^32 by omega),Nat.mod_eq_of_lt hi,Nat.shiftLeft_eq,hshift,
    Nat.or_comm,← Nat.two_pow_add_eq_or_of_lt hx,hpow,Nat.mod_mul,Nat.mul_add_mod,Nat.mod_eq_of_lt hx,
    Nat.mul_add_div (Nat.two_pow_pos i),Nat.div_eq_of_lt hx,Nat.add_zero,Nat.add_comm]

theorem ntohl_eq (n : UInt32) : ntohl n = htonl n := by
  unfold ntohl htonl
  generalize (n &&& 0xff000000) >>> 24 = a
  generalize (n &&& 0xff0000) >>> 8 = b
  generalize (n &&& 0xff00) <<< 8 = c
  generalize (n &&& 0xff) <<< 24 = d
  rw [UInt32.or_comm _ d,UInt32.or_comm _ c,UInt32.or_comm a b,← UInt32.or_assoc,← UInt32.or_assoc]

theorem htonl_append (y : BitVec 32) :
    (y &&& 0xff#32) <<< 24 ||| (y &&& 0xff00#32) <<< 8 ||| (y &&& 0xff0000#32) >>> 8 ||| (y &&& 0xff000000#32) >>> 24 =
      y.extractLsb' 0 8 ++ y.extractLsb' 8 8 ++ y.extractLsb' 16 8 ++ y.extractLsb' 24 8 := by
  apply BitVec.eq_of_getLsbD_eq
  intro i hi
  simp only [BitVec.getLsbD_or,BitVec.getLsbD_shiftLeft,BitVec.getLsbD_ushiftRight,BitVec.getLsbD_and,
    BitVec.getLsbD_append,BitVec.getLsbD_extractLsb']
  interval_cases i <;> simp

/-- The bytes are turned around. -/
theorem htonl_toNat (n : UInt32) :
    (htonl n).toNat = n.toNat%256*2^24+n.toNat/2^8%256*2^16+n.toNat/2^16%256*2^8+n.toNat/2^24 := by
  have h : (htonl n).toBitVec = n.toBitVec.extractLsb' 0 8 ++ n.toBitVec.extractLsb' 8 8 ++
      n.toBitVec.extractLsb' 16 8 ++ n.toBitVec.extractLsb' 24 8 := htonl_append n.toBitVec
  have hn := n.toNat_lt
  rw [← UInt32.toNat_toBitVec,h]
  simp only [BitVec.toNat_append,BitVec.extractLsb'_toNat,UInt32.toNat_toBitVec,Nat.shiftRight_eq_div_pow]
  have hor : ∀ a b : ℕ, b < 2^8 → a <<< 8 ||| b = a*2^8+b := fun a b hb => by
    rw [Nat.shiftLeft_eq,Nat.mul_comm,← Nat.two_pow_add_eq_or_of_lt hb]
  rw [hor _ _ (Nat.mod_lt _ (by decide)),hor _ _ (Nat.mod_lt _ (by decide)),hor _ _ (Nat.mod_lt _ (by decide))]
  omega

/-- The word with these bytes. -/
structure Quad (n : UInt32) (a b c d : ℕ) : Prop where
  la : a < 256
  lb : b < 256
  lc : c < 256
  ld : d < 256
  eq : n.toNat = a*2^24+b*2^16+c*2^8+d

theorem exists_quad (n : UInt32) : ∃ a b c d, Quad n a b c d := by
  have hn := n.toNat_lt
  exact ⟨n.toNat/2^24,n.toNat/2^16%256,n.toNat/2^8%256,n.toNat%256,by omega,by omega,by omega,by omega,by omega⟩

theorem Quad.htonl {n : UInt32} {a b c d : ℕ} (h : Quad n a b c d) : Quad (htonl n) d c b a := by
  obtain ⟨la,lb,lc,ld,heq⟩ := h
  refine ⟨ld,lc,lb,la,?_⟩
  rw [htonl_toNat,heq]
  omega

@[simp] theorem htonl_htonl (n : UInt32) : htonl (htonl n) = n := by
  obtain ⟨a,b,c,d,h⟩ := exists_quad n
  exact UInt32.toNat_inj.mp (h.htonl.htonl.eq.trans h.eq.symm)

/-! ### One number -/

theorem forall_byte {P : UInt8 → Prop} (h : ∀ k : Fin 256, P (.ofFin k)) (c : UInt8) : P c := h c.toFin

theorem isdigit_eq (c : UInt8) : isdigit c = isDigit 10 c :=
  forall_byte (P := fun c => isdigit c = isDigit 10 c) (by decide +kernel) c

theorem isxdigit_eq (c : UInt8) : isxdigit c = isDigit 16 c :=
  forall_byte (P := fun c => isxdigit c = isDigit 16 c) (by decide +kernel) c

theorem digit_dec {c : UInt8} (h : isDigit 10 c = true) : digit c = some (c-0x30).toNat :=
  forall_byte (P := fun c => isDigit 10 c = true → digit c = some (c-0x30).toNat) (by decide +kernel) c h

theorem digit_hex {c : UInt8} (h : isDigit 16 c = true) (hdec : isDigit 10 c = false) :
    digit c = some (c+10-if islower c then 0x61 else 0x41).toNat :=
  forall_byte (P := fun c => isDigit 16 c = true → isDigit 10 c = false →
    digit c = some (c+10-if islower c then 0x61 else 0x41).toNat) (by decide +kernel) c h hdec

/-- The digits that the loop takes for a base. -/
def alphabet (base : UInt8) : ℕ := if base = 16 then 16 else 10

theorem toUInt32_eq (x : UInt8) : x.toUInt32 = UInt32.ofNat x.toNat := by
  apply UInt32.toNat_inj.mp
  have hx := x.toNat_lt
  rw [UInt8.toNat_toUInt32,UInt32.toNat_ofNat',Nat.mod_eq_of_lt (by omega)]

theorem collect_digit {base c : UInt8} {d : ℕ} (hd : digit c = some d) (hlt : d < alphabet base) (cp : Str) (n : ℕ) :
    collect base (c::cp) (UInt32.ofNat n) = collect base cp (UInt32.ofNat (n*base.toNat+d)) := by
  by_cases h10 : isDigit 10 c = true
  · have hc : d = (c-0x30).toNat := Option.some.inj (hd.symm.trans (digit_dec h10))
    rw [collect,isdigit_eq,if_pos h10,UInt32.ofNat_add,UInt32.ofNat_mul,hc,toUInt32_eq,toUInt32_eq]
  · -- a letter, and the base is 16
    have hbase : base = 16 := by
      by_contra hne
      rw [alphabet,if_neg hne] at hlt
      exact h10 (isDigit_iff.mpr ⟨d,hd,hlt⟩)
    subst hbase
    have h16 : isDigit 16 c = true := isDigit_iff.mpr ⟨d,hd,hlt⟩
    have hc := Option.some.inj (hd.symm.trans (digit_hex h16 (Bool.not_eq_true _ ▸ h10)))
    have hlt16 : d < 2^4 := hlt
    have hshift : UInt32.ofNat n <<< 4 ||| UInt32.ofNat d = UInt32.ofNat (n*16+d) := by
      rw [UInt32.or_comm,Nat.mul_comm]
      exact or_shift (by decide) hlt16 n
    rw [collect,isdigit_eq,if_neg h10,isxdigit_eq,if_pos ⟨rfl,h16⟩,toUInt32_eq,← hc,hshift]
    rfl

theorem collect_stop {base c : UInt8} (h : isDigit (alphabet base) c = false) (cp : Str) (val : UInt32) :
    collect base (c::cp) val = (val,c::cp) := by
  have h10 : ¬isDigit 10 c = true := by
    intro hc
    obtain ⟨d,hd,hlt⟩ := isDigit_iff.mp hc
    have hmore : d < alphabet base := by
      unfold alphabet
      split <;> omega
    exact Bool.false_ne_true (h.symm.trans (isDigit_iff.mpr ⟨d,hd,hmore⟩))
  have h16 : ¬(base = 16 ∧ isxdigit c = true) := by
    rintro ⟨rfl,hx⟩
    exact Bool.false_ne_true (h.symm.trans ((isxdigit_eq c).symm.trans hx))
  rw [collect,isdigit_eq,if_neg h10,if_neg h16]

/-- Digits are collected up to where there are no more. -/
theorem collect_spelled (base : UInt8) {s : Str} {ds : List ℕ} (h : Spelled (alphabet base) s ds) {rest : Str}
    (hrest : ∀ c, rest.head? = some c → isDigit (alphabet base) c = false) (n : ℕ) :
    collect base (s ++ rest) (UInt32.ofNat n) = (UInt32.ofNat (ds.foldl (fun n d => n*base.toNat+d) n),rest) := by
  induction s generalizing ds n with
  | nil =>
    obtain rfl := spelled_nil.mp h
    cases rest with
    | nil => rfl
    | cons c cp => exact collect_stop (hrest c rfl) cp _
  | cons c s ih =>
    obtain ⟨d,ds,rfl,hd,hlt,hs⟩ := spelled_cons.mp h
    rw [List.cons_append,collect_digit hd hlt,ih hs,List.foldl_cons]

/-- What stands in front of the first character that is no digit. -/
theorem exists_spelled (b : ℕ) (cp : Str) : ∃ s ds rest, cp = s ++ rest ∧ Spelled b s ds ∧
    ∀ c, rest.head? = some c → isDigit b c = false := by
  induction cp with
  | nil => exact ⟨[],[],[],rfl,spelled_nil.mpr rfl,fun c hc => absurd hc (by simp)⟩
  | cons c cp ih =>
    by_cases hc : isDigit b c = true
    · obtain ⟨s,ds,rest,rfl,hs,hrest⟩ := ih
      obtain ⟨d,hd,hlt⟩ := isDigit_iff.mp hc
      exact ⟨c::s,d::ds,rest,rfl,spelled_cons.mpr ⟨d,ds,rfl,hd,hlt,hs⟩,hrest⟩
    · refine ⟨[],[],c::cp,rfl,spelled_nil.mpr rfl,fun x hx => ?_⟩
      obtain rfl := Option.some.inj hx
      exact Bool.not_eq_true _ ▸ hc

/-- Nothing that a number could go on with. -/
def Stops (rest : Str) : Prop :=
  ∀ c, rest.head? = some c → isDigit 16 c = false ∧ c ≠ 0x78 ∧ c ≠ 0x58

theorem Stops.digit {rest : Str} (h : Stops rest) {base : UInt8} (c : UInt8) (hc : rest.head? = some c) :
    isDigit (alphabet base) c = false := by
  refine Bool.eq_false_iff.mpr fun hdigit => ?_
  obtain ⟨d,hd,hlt⟩ := isDigit_iff.mp hdigit
  have hlt16 : d < 16 := by
    unfold alphabet at hlt
    split at hlt <;> omega
  exact Bool.false_ne_true ((h c hc).1.symm.trans (isDigit_iff.mpr ⟨d,hd,hlt16⟩))

theorem part_number {s rest : Str} {n : ℕ} (hs : Number s n) (hrest : Stops rest) :
    part (s ++ rest) = some (UInt32.ofNat n,rest) := by
  cases hs with
  | @decimal _ ds hne hhead hspelled =>
    obtain ⟨c,t,rfl⟩ := List.exists_cons_of_ne_nil hne
    obtain ⟨d,ds',rfl,hd,hlt,-⟩ := spelled_cons.mp hspelled
    have hdigit : isdigit c = true := (isdigit_eq c).trans (isDigit_iff.mpr ⟨d,hd,hlt⟩)
    have hzero : c ≠ 0x30 := fun h => hhead (congrArg some h)
    have hall := collect_spelled 10 hspelled hrest.digit 0
    rw [part]
    simp only [List.cons_append,List.getD_cons_zero,hdigit,hzero,not_true_eq_false,if_false,value_eq_foldl]
    exact congrArg some hall
  | @octal s ds hspelled =>
    have hsecond : ¬((s ++ rest).getD 0 0 = 0x78 ∨ (s ++ rest).getD 0 0 = 0x58) := by
      cases s with
      | nil =>
        cases rest with
        | nil => decide
        | cons c cp => exact fun h => h.elim (hrest c rfl).2.1 (hrest c rfl).2.2
      | cons c s =>
        obtain ⟨d,ds',rfl,hd,hlt,-⟩ := spelled_cons.mp hspelled
        have hdigit : isDigit 10 c = true := isDigit_iff.mpr ⟨d,hd,hlt⟩
        rintro (rfl | rfl) <;> exact Bool.noConfusion hdigit
    have hall := collect_spelled 8 hspelled hrest.digit 0
    have hpart : part (0x30::s ++ rest) = some (collect 8 (s ++ rest) 0) := by
      have hzero : isdigit 0x30 = true := rfl
      rw [part]
      simp only [List.cons_append,List.getD_cons_zero,List.getD_cons_succ,hzero,hsecond,not_true_eq_false,if_false,
        if_true]
      rfl
    rw [hpart,value_eq_foldl]
    exact congrArg some hall
  | @hex x s ds hx hspelled =>
    have hall := collect_spelled 16 hspelled hrest.digit 0
    have hpart : part (0x30::x::s ++ rest) = some (collect 16 (s ++ rest) 0) := by
      have hzero : isdigit 0x30 = true := rfl
      rw [part]
      simp only [List.cons_append,List.getD_cons_zero,List.getD_cons_succ,hzero,Or.symm hx,not_true_eq_false,
        if_false,if_true]
      rfl
    rw [hpart,value_eq_foldl]
    exact congrArg some hall

/-- What is read is a number. -/
theorem part_some {cp rest : Str} {v : UInt32} (h : part cp = some (v,rest)) :
    ∃ s n, cp = s ++ rest ∧ Number s n ∧ v = UInt32.ofNat n := by
  have hcollect : ∀ base : UInt8, ∀ t : Str, collect base t 0 = (v,rest) →
      ∃ s ds, t = s ++ rest ∧ Spelled (alphabet base) s ds ∧ v = UInt32.ofNat (value base.toNat ds) ∧
        ∀ c, rest.head? = some c → isDigit (alphabet base) c = false := by
    intro base t ht
    obtain ⟨s,ds,rest',rfl,hs,hrest'⟩ := exists_spelled (alphabet base) t
    obtain ⟨hv,hr⟩ := Prod.mk.inj ((collect_spelled base hs hrest' 0).symm.trans ht)
    subst hr
    exact ⟨s,ds,rfl,hs,(value_eq_foldl base.toNat ds).symm ▸ hv.symm,hrest'⟩
  cases cp with
  | nil =>
    have hnil : part [] = none := rfl
    exact absurd (h.symm.trans hnil) (Option.some_ne_none _)
  | cons c t =>
    rw [part] at h
    simp only [List.getD_cons_zero,List.getD_cons_succ] at h
    split_ifs at h with hdigit hzero hx
    · -- hexadecimal
      subst hzero
      obtain ⟨x,u,rfl⟩ : ∃ x u, t = x::u := by
        cases t with
        | nil => exact absurd hx (by decide)
        | cons x u => exact ⟨x,u,rfl⟩
      obtain ⟨s,ds,rfl,hs,rfl,-⟩ := hcollect 16 u (Option.some.inj h)
      exact ⟨0x30::x::s,_,rfl,.hex (Or.symm hx) hs,rfl⟩
    · -- octal
      subst hzero
      obtain ⟨s,ds,rfl,hs,rfl,-⟩ := hcollect 8 t (Option.some.inj h)
      exact ⟨0x30::s,_,rfl,.octal hs,rfl⟩
    · -- decimal
      obtain ⟨s,ds,hcp,hs,rfl,hend⟩ := hcollect 10 (c::t) (Option.some.inj h)
      cases s with
      | nil =>
        have hrest : c::t = rest := hcp
        have hc := hend c (congrArg List.head? hrest.symm)
        exact absurd hdigit (Bool.eq_false_iff.mp ((isdigit_eq c).trans hc))
      | cons x s =>
        obtain ⟨rfl,-⟩ := List.cons.inj hcp
        exact ⟨c::s,_,hcp,.decimal (List.cons_ne_nil _ _) (fun hhead => hzero (Option.some.inj hhead)) hs,rfl⟩

/-! ### All parts -/

/-- Where a number ends in a text of numbers. -/
theorem stops_dot (cp : Str) : Stops (0x2e::cp) := by
  intro c hc
  obtain rfl := Option.some.inj hc
  decide

theorem Ends.stops {rest : Str} (h : Ends rest) : Stops rest := by
  have hspace : ∀ c, (c = 0 ∨ isspace c = true) → isDigit 16 c = false ∧ c ≠ 0x78 ∧ c ≠ 0x58 :=
    forall_byte (P := fun c => (c = 0 ∨ isspace c = true) → isDigit 16 c = false ∧ c ≠ 0x78 ∧ c ≠ 0x58)
      (by decide +kernel)
  intro c hc
  cases rest with
  | nil => cases hc
  | cons x cp =>
    obtain rfl := Option.some.inj hc
    exact hspace x h

theorem Ends.ne_dot {rest : Str} (h : Ends rest) : rest.getD 0 0 ≠ 0x2e := by
  intro hdot
  rw [Ends,hdot] at h
  exact absurd h (by decide)

/-- A text in the notation is taken apart. -/
theorem parts_dotted {cp : Str} {ns : List ℕ} {m : ℕ} (h : Dotted cp ns m) {room : ℕ} (hroom : ns.length ≤ room)
    (pp : List UInt32) :
    ∃ rest, Ends rest ∧ parts room pp cp = some (pp ++ ns.map UInt32.ofNat,UInt32.ofNat m,rest) := by
  induction h generalizing room pp with
  | @last s rest n hs hrest =>
    refine ⟨rest,hrest,?_⟩
    cases room with
    | zero =>
      rw [parts,part_number hs hrest.stops,Option.bind_some,if_neg hrest.ne_dot,List.map_nil,List.append_nil]
    | succ room =>
      rw [parts,part_number hs hrest.stops,Option.bind_some,if_neg hrest.ne_dot,List.map_nil,List.append_nil]
  | @more s cp n m ns hs _ ih =>
    cases room with
    | zero => exact absurd hroom (by simp)
    | succ room =>
      obtain ⟨rest,hrest,hparts⟩ := ih (Nat.le_of_succ_le_succ hroom) (pp ++ [UInt32.ofNat n])
      refine ⟨rest,hrest,?_⟩
      rw [parts,part_number hs (stops_dot cp)]
      simpa using hparts

/-- Only such a text is taken apart up to its end. -/
theorem dotted_parts {room : ℕ} {pp qs : List UInt32} {cp rest : Str} {v : UInt32}
    (h : parts room pp cp = some (qs,v,rest)) (hrest : Ends rest) :
    ∃ ns m, Dotted cp ns m ∧ ns.length ≤ room ∧ qs = pp ++ ns.map UInt32.ofNat ∧ v = UInt32.ofNat m := by
  induction room generalizing pp cp with
  | zero =>
    obtain ⟨⟨w,t⟩,hpart,h⟩ := Option.bind_eq_some_iff.mp h
    split_ifs at h with hdot
    obtain ⟨rfl,hw⟩ := Prod.mk.inj (Option.some.inj h)
    obtain ⟨rfl,rfl⟩ := Prod.mk.inj hw
    obtain ⟨s,n,rfl,hs,rfl⟩ := part_some hpart
    exact ⟨[],n,.last hs hrest,le_refl _,(List.append_nil _).symm,rfl⟩
  | succ room ih =>
    obtain ⟨⟨w,t⟩,hpart,h⟩ := Option.bind_eq_some_iff.mp h
    obtain ⟨s,n,rfl,hs,rfl⟩ := part_some hpart
    split_ifs at h with hdot
    · obtain ⟨t,rfl⟩ : ∃ u, t = 0x2e::u := by
        cases t with
        | nil =>
          have hzero : (0 : UInt8) = 0x2e := hdot
          exact absurd hzero (by decide)
        | cons x u => exact ⟨u,congrArg (·::u) hdot⟩
      obtain ⟨ns,m,hd,hlen,rfl,rfl⟩ := ih h
      exact ⟨n::ns,m,.more hs hd,Nat.succ_le_succ hlen,by simp,rfl⟩
    · obtain ⟨rfl,hw⟩ := Prod.mk.inj (Option.some.inj h)
      obtain ⟨rfl,rfl⟩ := Prod.mk.inj hw
      exact ⟨[],n,.last hs hrest,Nat.zero_le _,(List.append_nil _).symm,rfl⟩

/-! ### The address -/

theorem concoct_isSome {ns : List ℕ} (hlen : ns.length ≤ 3) (m : ℕ) :
    (concoct (UInt32.ofNat m) (ns.map UInt32.ofNat)).isSome ↔ m % 2^32 < 256^(4-ns.length) := by
  have hle : ∀ x y : UInt32, (if x < UInt32.ofNat m then none else some y).isSome ↔ m % 2^32 ≤ x.toNat := by
    intro x y
    rw [← UInt32.toNat_ofNat',← not_lt,← UInt32.lt_iff_toNat_lt]
    split_ifs with h <;> simp [h]
  rcases ns with _ | ⟨a,_ | ⟨b,_ | ⟨c,_ | ⟨d,ns⟩⟩⟩⟩
  · exact iff_of_true rfl (Nat.mod_lt m (by decide))
  · exact (hle 0xffffff _).trans Nat.lt_succ_iff.symm
  · exact (hle 0xffff _).trans Nat.lt_succ_iff.symm
  · exact (hle 0xff _).trans Nat.lt_succ_iff.symm
  · exact absurd hlen (by simp)

/-- Where each part is a byte and the last one fits, the parts lie side by side. -/
theorem concoct_address {ns : List ℕ} (hlen : ns.length ≤ 3) (hns : ∀ n ∈ ns, n < 256) {m : ℕ}
    (hm : m < 256^(4-ns.length)) :
    concoct (UInt32.ofNat m) (ns.map UInt32.ofNat) = some (UInt32.ofNat (address ns m)) := by
  have h24 : ∀ {x : ℕ}, x < 2^24 → ∀ y, UInt32.ofNat x ||| UInt32.ofNat y <<< 24 = UInt32.ofNat (2^24*y+x) :=
    fun hx y => or_shift (by decide) hx y
  have h16 : ∀ {x : ℕ}, x < 2^16 → ∀ y, UInt32.ofNat x ||| UInt32.ofNat y <<< 16 = UInt32.ofNat (2^16*y+x) :=
    fun hx y => or_shift (by decide) hx y
  have h8 : ∀ {x : ℕ}, x < 2^8 → ∀ y, UInt32.ofNat x ||| UInt32.ofNat y <<< 8 = UInt32.ofNat (2^8*y+x) :=
    fun hx y => or_shift (by decide) hx y
  have hfits : ∀ x : UInt32, m ≤ x.toNat → ¬x < UInt32.ofNat m := fun x hx => by
    rw [UInt32.lt_iff_toNat_lt,UInt32.toNat_ofNat']
    exact not_lt.mpr ((Nat.mod_le m _).trans hx)
  rcases ns with _ | ⟨a,_ | ⟨b,_ | ⟨c,_ | ⟨d,ns⟩⟩⟩⟩
  · simp [concoct,address,value]
  · have hm24 : m < 2^24 := hm
    rw [List.map_cons,List.map_nil,concoct,if_neg (hfits 0xffffff (Nat.le_of_lt_succ hm24)),h24 hm24]
    have haddr : address [a] m = 2^24*a+m := by
      simp [address,value]
      omega
    rw [haddr]
  · have hm16 : m < 2^16 := hm
    have hb := hns b (by simp)
    rw [List.map_cons,List.map_cons,List.map_nil,concoct,if_neg (hfits 0xffff (Nat.le_of_lt_succ hm16)),
      UInt32.or_comm (UInt32.ofNat a <<< 24),← UInt32.or_assoc,h16 hm16,h24 (by omega)]
    have haddr : address [a,b] m = 2^24*a+(2^16*b+m) := by
      simp [address,value,Nat.ofDigits_cons]
      omega
    rw [haddr]
  · have hm8 : m < 2^8 := hm
    have hb := hns b (by simp)
    have hc := hns c (by simp)
    rw [List.map_cons,List.map_cons,List.map_cons,List.map_nil,concoct,if_neg (hfits 0xff (Nat.le_of_lt_succ hm8)),
      UInt32.or_comm _ (UInt32.ofNat c <<< 8),UInt32.or_comm (UInt32.ofNat a <<< 24),← UInt32.or_assoc,
      ← UInt32.or_assoc,h8 hm8,h16 (by omega),h24 (by omega)]
    have haddr : address [a,b,c] m = 2^24*a+(2^16*b+(2^8*c+m)) := by
      simp [address,value,Nat.ofDigits_cons]
      omega
    rw [haddr]
  · exact absurd hlen (by simp)

theorem ipAton_dotted {cp : Str} {ns : List ℕ} {m : ℕ} (hd : Dotted cp ns m) (hlen : ns.length ≤ 3) :
    ipAton cp = (concoct (UInt32.ofNat m) (ns.map UInt32.ofNat)).map htonl := by
  obtain ⟨rest,hrest,hparts⟩ := parts_dotted hd hlen []
  have hend : ¬(rest.getD 0 0 ≠ 0 ∧ ¬isspace (rest.getD 0 0) = true) := fun h => hrest.elim h.1 h.2
  rw [ipAton,hparts,Option.bind_some]
  dsimp only
  rw [if_neg hend,List.nil_append]

theorem ipAton_address {cp : Str} {ns : List ℕ} {m : ℕ} (hd : Dotted cp ns m) (hlen : ns.length ≤ 3)
    (hns : ∀ n ∈ ns, n < 256) (hm : m < 256^(4-ns.length)) :
    ipAton cp = some (htonl (UInt32.ofNat (address ns m))) := by
  rw [ipAton_dotted hd hlen,concoct_address hlen hns hm,Option.map_some]

/-- `ip_aton` takes the texts of one to four numbers whose last one, as a word, fits the bytes that are left; the
numbers in front of it are not checked. Where they are bytes and the last one fits as it is written, the result of
`ip_atou` is the address. -/
theorem ipAton_takes (cp : Str) :
    ((ipAton cp).isSome ↔ ∃ ns m, Dotted cp ns m ∧ ns.length ≤ 3 ∧ m % 2^32 < 256^(4-ns.length)) ∧
      ∀ ns m, Dotted cp ns m → ns.length ≤ 3 → (∀ n ∈ ns, n < 256) → m < 256^(4-ns.length) →
        ipAtou cp = UInt32.ofNat (address ns m) := by
  refine ⟨⟨fun h => ?_,?_⟩,?_⟩
  · obtain ⟨a,ha⟩ := Option.isSome_iff_exists.mp h
    obtain ⟨⟨qs,v,rest⟩,hparts,hres⟩ := Option.bind_eq_some_iff.mp ha
    split_ifs at hres with hend
    have hrest : Ends rest := by
      by_contra hno
      exact hend (not_or.mp hno)
    obtain ⟨ns,m,hd,hlen,hqs,hv⟩ := dotted_parts hparts hrest
    refine ⟨ns,m,hd,hlen,(concoct_isSome hlen m).mp ?_⟩
    rw [ipAton_dotted hd hlen,Option.isSome_map] at h
    exact h
  · rintro ⟨ns,m,hd,hlen,hm⟩
    rw [ipAton_dotted hd hlen,Option.isSome_map]
    exact (concoct_isSome hlen m).mpr hm
  · intro ns m hd hlen hns hm
    rw [ipAtou,ipAton_address hd hlen hns hm,Option.map_some,Option.getD_some,ntohl_eq,htonl_htonl]

example : ipAton [0x31,0x2e,0x30,0x78,0x66] = some 0x0f000001 := by decide

/-! ### What is written -/

/-- A number in decimal digits. -/
def text (n : ℕ) : Str := (numeral 10 n 0).map fun d => 0x30+UInt8.ofNat d

theorem digit_text {d : ℕ} (hd : d < 10) : digit (0x30+UInt8.ofNat d) = some d := by
  interval_cases d <;> rfl

theorem number_text (n : ℕ) : Number (text n) n := by
  have hbelow := (writes_numeral (b := 10) (by decide) n 0).below
  have hspelled : Spelled 10 (text n) (numeral 10 n 0) := by
    refine ⟨?_,hbelow⟩
    rw [text,List.map_map]
    exact List.map_congr_left fun d hd => digit_text (hbelow d hd)
  by_cases hn : n = 0
  · subst hn
    have hnil : Spelled 10 [] [] := spelled_nil.mpr rfl
    exact .octal hnil
  · have hvalue := value_numeral 10 n 0
    have hwide := (writes_numeral (b := 10) (by decide) n 0).wide
    obtain ⟨d,ds,hds⟩ : ∃ d ds, numeral 10 n 0 = d::ds := List.exists_cons_of_ne_nil fun hnil => by
      rw [hnil] at hwide
      exact absurd hwide (by decide)
    have hd : d < 10 := hbelow d (hds ▸ List.mem_cons_self)
    have htext : text n = (0x30+UInt8.ofNat d)::ds.map fun d => 0x30+UInt8.ofNat d := by rw [text,hds,List.map_cons]
    have hnum := Number.decimal (by rw [htext]; exact List.cons_ne_nil _ _) ?_ hspelled
    · rwa [hvalue] at hnum
    · intro hhead
      rw [htext] at hhead
      have hdigit := digit_text hd
      rw [Option.some.inj hhead] at hdigit
      obtain rfl : 0 = d := Option.some.inj hdigit
      -- a zero in front stands alone
      have hlen := numeral_tight (b := 10) (n := n) (w := 0) (by rw [hds]; rfl)
      rw [hds] at hlen hvalue
      obtain rfl : ds = [] := List.length_eq_zero_iff.mp (by simpa using hlen)
      exact hn (hvalue.symm.trans (by decide))

theorem invDigits_eq (ap : UInt8) :
    invDigits ap = some ((lowFirst 10 ap.toNat).map fun d => 0x30+UInt8.ofNat d) := by
  have hdiv : Divides (fun ap : UInt8 => 0x30+ap%10) (fun ap => ap/10) (fun ap => ap ≠ 0) 10 UInt8.toNat
      (fun d => 0x30+UInt8.ofNat d) (fun _ => True) := by
    refine ⟨fun v _ => ?_,fun v _ => UInt8.toNat_div _ _,fun v _ => ?_,fun _ _ => trivial⟩
    · have hmod : v.toNat%10 = (v%10).toNat := (UInt8.toNat_mod v 10).symm
      rw [hmod,UInt8.ofNat_toNat]
    · have hzero : v/10 = 0 ↔ v.toNat/10 = 0 := by rw [← UInt8.toNat_inj,UInt8.toNat_div]; rfl
      simp [hzero]
  exact hdiv.digitLoop_eq (by decide) trivial (lt_trans ap.toNat_lt (by decide))

theorem text_eq (n : ℕ) : ((lowFirst 10 n).map fun d => 0x30+UInt8.ofNat d).reverse = text n := by
  rw [text,numeral,Nat.zero_sub,List.replicate_zero,List.append_nil,List.map_reverse]

theorem text_length {n : ℕ} (hn : n < 256) : (text n).length ≤ 3 := by
  rw [← text_eq,List.length_reverse,List.length_map,lowFirst]
  split_ifs
  · decide
  · exact (Nat.digits_length_le_iff (by decide) n).mpr (lt_trans hn (by decide))

theorem put_all {buflen : ℕ} (cs buf : Str) (h : buf.length+cs.length ≤ buflen) :
    cs.foldlM (put buflen) buf = some (buf ++ cs) := by
  induction cs generalizing buf with
  | nil => simp
  | cons c cs ih =>
    rw [List.length_cons] at h
    have hroom : ¬buflen ≤ buf.length := by omega
    have hput : put buflen buf c = some (buf ++ [c]) := if_neg hroom
    rw [List.foldlM_cons,hput]
    refine (ih (buf ++ [c]) ?_).trans ?_
    · rw [List.length_append,List.length_singleton]
      omega
    · rw [List.append_assoc,List.singleton_append]

theorem putPart_eq {buflen : ℕ} {buf : Str} {ap : UInt8} (h : buf.length+4 ≤ buflen) :
    putPart buflen buf ap = some (buf ++ (text ap.toNat ++ [0x2e])) := by
  have hlen := text_length ap.toNat_lt
  rw [putPart,invDigits_eq,Option.bind_some,text_eq]
  refine put_all _ _ ?_
  rw [List.length_append,List.length_singleton]
  omega

/-- The bytes of an address in network order stand as they are written. -/
theorem Quad.memory {s : UInt32} {a b c d : ℕ} (h : Quad s d c b a) :
    memory s = [UInt8.ofNat a,UInt8.ofNat b,UInt8.ofNat c,UInt8.ofNat d] := by
  obtain ⟨ld,lc,lb,la,heq⟩ := h
  have hbyte : ∀ {x : UInt32} {n : ℕ}, x.toNat%256 = n → x.toUInt8 = UInt8.ofNat n := fun {x n} hx => by
    rw [← UInt8.toNat_inj,UInt32.toNat_toUInt8,UInt8.toNat_ofNat']
    omega
  have h8 : (s >>> 8).toNat = s.toNat/2^8 := (UInt32.toNat_shiftRight s 8).trans (Nat.shiftRight_eq_div_pow _ _)
  have h16 : (s >>> 16).toNat = s.toNat/2^16 := (UInt32.toNat_shiftRight s 16).trans (Nat.shiftRight_eq_div_pow _ _)
  have h24 : (s >>> 24).toNat = s.toNat/2^24 := (UInt32.toNat_shiftRight s 24).trans (Nat.shiftRight_eq_div_pow _ _)
  have hb0 : s.toNat%256 = a := by omega
  have hb1 : (s >>> 8).toNat%256 = b := by omega
  have hb2 : (s >>> 16).toNat%256 = c := by omega
  have hb3 : (s >>> 24).toNat%256 = d := by omega
  rw [Addresses.memory,hbyte hb0,hbyte hb1,hbyte hb2,hbyte hb3]

/-- The text of an address, where it fits. -/
theorem ipNtoaR_quad {s : UInt32} {a b c d buflen : ℕ} (h : Quad s d c b a) (hlen : 16 ≤ buflen) :
    ipNtoaR s buflen = some (text a ++ 0x2e::(text b ++ 0x2e::(text c ++ 0x2e::text d))) := by
  have hto : ∀ {n : ℕ}, n < 256 → (UInt8.ofNat n).toNat = n := fun hn => by
    rw [UInt8.toNat_ofNat',Nat.mod_eq_of_lt hn]
  have ha := text_length h.ld
  have hb := text_length h.lc
  have hc := text_length h.lb
  have hput : ∀ (buf : Str) {n : ℕ}, n < 256 → buf.length+4 ≤ buflen →
      putPart buflen buf (UInt8.ofNat n) = some (buf ++ (text n ++ [0x2e])) := fun buf n hn hbuf => by
    rw [putPart_eq hbuf,hto hn]
  rw [ipNtoaR,h.memory]
  simp only [List.foldlM_cons,List.foldlM_nil,Option.bind_eq_bind]
  rw [hput [] h.ld (by simp; omega),Option.bind_some,hput _ h.lc (by simp; omega),Option.bind_some,
    hput _ h.lb (by simp; omega),Option.bind_some,hput _ h.la (by simp; omega),Option.bind_some]
  have hdots : [] ++ (text a ++ [0x2e]) ++ (text b ++ [0x2e]) ++ (text c ++ [0x2e]) ++ (text d ++ [0x2e]) =
      (text a ++ 0x2e::(text b ++ 0x2e::(text c ++ 0x2e::text d))) ++ [0x2e] := by simp
  rw [hdots]
  exact congrArg some List.dropLast_concat

theorem text_read {x : UInt32} {a b c d : ℕ} (h : Quad x a b c d) :
    ipAton (text a ++ 0x2e::(text b ++ 0x2e::(text c ++ 0x2e::text d))) = some (htonl x) := by
  have hnil : Ends [] := Or.inl rfl
  have hlast : Dotted (text d) [] d := List.append_nil (text d) ▸ .last (number_text d) hnil
  have hd := Dotted.more (number_text a) (.more (number_text b) (.more (number_text c) hlast))
  have hns : ∀ n ∈ [a,b,c], n < 256 := by simp [h.la,h.lb,h.lc]
  have haddr : address [a,b,c] d = x.toNat := by
    rw [h.eq]
    simp [address,value,Nat.ofDigits_cons]
    omega
  rw [ipAton_address hd (le_refl 3) hns h.ld,haddr,UInt32.ofNat_toNat]

/-- What `ip_utoa` writes is what `ip_atou` reads, and what `ip_ntoa` writes is what `ip_aton` reads; a buffer of 16
is enough. -/
theorem ipUtoa_read : (∀ x, ∃ s, ipUtoa x = some s ∧ s.length ≤ 15 ∧ ipAtou s = x) ∧
    ∀ addr, ∃ s, ipNtoa addr = some s ∧ ipAton s = some addr := by
  refine ⟨fun x => ?_,fun addr => ?_⟩
  · obtain ⟨a,b,c,d,h⟩ := exists_quad x
    have ha := text_length h.la
    have hb := text_length h.lb
    have hc := text_length h.lc
    have hd := text_length h.ld
    refine ⟨_,ipNtoaR_quad h.htonl (le_refl 16),?_,?_⟩
    · simp only [List.length_append,List.length_cons]
      omega
    · rw [ipAtou,text_read h,Option.map_some,Option.getD_some,ntohl_eq,htonl_htonl]
  · obtain ⟨a,b,c,d,h⟩ := exists_quad (htonl addr)
    refine ⟨_,ipNtoaR_quad (htonl_htonl addr ▸ h.htonl) (le_refl 16),?_⟩
    rw [text_read h,htonl_htonl]

example : ipUtoa 0xc0a80201 = some [0x31,0x39,0x32,0x2e,0x31,0x36,0x38,0x2e,0x32,0x2e,0x31] := by decide

end Addresses
end Autbus
