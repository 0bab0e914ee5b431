import Autbus.Bytes
import Mathlib.Data.Int.Notation

/-! Flash memory behind a driver. The driver keeps one position for reads and writes; what is written
must have been erased, and whole blocks are erased. -/
namespace Autbus
namespace Flash

open Bytes

/-- What the calls of a driver do to the memory, and what they return. A chip that `locks` is not erased
while it is locked; `write` is told whether the chip is unlocked. -/
structure Driver where
  block : ℕ
  locks : Bool
  erase : Mem → ℕ → ℕ → Mem
  write : Bool → Mem → ℕ → List UInt8 → Mem × ℤ
  read : Mem → ℕ → ℕ → List UInt8 × ℤ

/-- The bytes are erased. -/
def Blank (m : Mem) (a n : ℕ) : Prop := ∀ i, a ≤ i → i < a+n → m i = 0xFF

/-- Nothing changes in front of `a` or from `a+n` on. -/
def Outside (a n : ℕ) (m m' : Mem) : Prop := ∀ i, i < a ∨ a+n ≤ i → m' i = m i

/-- `n` rounded up to a multiple of `k`. -/
def roundUp (k n : ℕ) : ℕ := (n+k-1)/k*k

/-- A driver does what it is asked to do: from the start of a block on it erases the bytes asked for and no
other block, it writes erased bytes as they are given when the chip is unlocked, and nothing in front of them
or behind them. -/
structure Driver.Usual (d : Driver) : Prop where
  blank : ∀ m ofs n, d.block ∣ ofs → Blank (d.erase m ofs n) ofs n
  others : ∀ m ofs n, d.block ∣ ofs → Outside ofs (roundUp d.block n) m (d.erase m ofs n)
  written : ∀ m a xs, Blank m a xs.length → Bytes.read (d.write true m a xs).1 a xs.length = xs
  taken : ∀ m a xs, Blank m a xs.length → (d.write true m a xs).2 = xs.length
  around : ∀ u m a xs, Outside a xs.length m (d.write u m a xs).1
  reads : ∀ m a n, d.read m a n = (Bytes.read m a n,(n : ℤ))

/-- The memory, the position, and whether the chip is unlocked. -/
structure Chip where
  cells : Mem
  pos : ℕ
  unlocked : Bool

namespace Chip

def unlock (c : Chip) : Chip := {c with unlocked := true}

def seek (c : Chip) (a : ℕ) : Chip := {c with pos := a}

def erase (d : Driver) (c : Chip) (ofs n : ℕ) : Chip :=
  if d.locks ∧ ¬c.unlocked then c else {c with cells := d.erase c.cells ofs n}

/-- Write at the position, which moves behind what was taken. -/
def write (d : Driver) (c : Chip) (xs : List UInt8) : Chip × ℤ :=
  let r := d.write c.unlocked c.cells c.pos xs
  ({c with cells := r.1,pos := c.pos+r.2.toNat},r.2)

/-- Read from the position on, with what the driver returns. -/
def read (d : Driver) (c : Chip) (n : ℕ) : Chip × List UInt8 × ℤ :=
  let r := d.read c.cells c.pos n
  ({c with pos := c.pos+r.2.toNat},r)

/-- Erase a range and write it anew. -/
def rewrite (d : Driver) (c : Chip) (ofs n : ℕ) (xs : List UInt8) : Chip × ℤ :=
  ((c.unlock.erase d ofs n).seek ofs).write d xs

/-- The power comes back. -/
def powerUp (c : Chip) : Chip := {c with pos := 0,unlocked := false}

end Chip

section Memory

variable {m m' : Mem} {a n c k : ℕ}

theorem Blank.mono (h : Blank m a n) (hc : a ≤ c) (hk : c+k ≤ a+n) : Blank m c k :=
  fun i hi hik => h i (by omega) (by omega)

theorem read_blank (h : Blank m a n) : read m a n = List.replicate n 0xFF := by
  refine List.eq_replicate_iff.mpr ⟨read_length _ _ _,fun x hx => ?_⟩
  obtain ⟨i,hi,rfl⟩ := List.mem_map.mp hx
  have hlt := List.mem_range.mp hi
  exact h _ (Nat.le_add_right _ _) (by omega)

theorem Outside.refl (a n : ℕ) (m : Mem) : Outside a n m m := fun _ _ => rfl

theorem Outside.trans {m'' : Mem} (h : Outside a n m m') (h' : Outside a n m' m'') : Outside a n m m'' :=
  fun i hi => (h' i hi).trans (h i hi)

theorem Outside.mono (h : Outside c k m m') (hc : a ≤ c) (hk : c+k ≤ a+n) : Outside a n m m' :=
  fun i hi => h i (by omega)

theorem Outside.read (h : Outside a n m m') (hck : c+k ≤ a ∨ a+n ≤ c) : read m' c k = read m c k :=
  read_congr fun i hi => h _ (by omega)

theorem Outside.blank (h : Outside a n m m') (hb : Blank m c k) (hck : c+k ≤ a ∨ a+n ≤ c) : Blank m' c k :=
  fun i hi hik => (h i (by omega)).trans (hb i hi hik)

end Memory

theorem roundUp_le {k n q : ℕ} (hq : k ∣ q) (h : n ≤ q) : roundUp k n ≤ q := by
  obtain ⟨c,rfl⟩ := hq
  rcases Nat.eq_zero_or_pos k with h0 | hpos
  · rw [roundUp,h0]
    omega
  · have hdiv : (n+k-1)/k < c+1 := by
      rw [Nat.div_lt_iff_lt_mul hpos,Nat.add_mul,Nat.one_mul,Nat.mul_comm c]
      omega
    calc roundUp k n ≤ c*k := Nat.mul_le_mul_right _ (Nat.lt_succ_iff.mp hdiv)
      _ = k*c := Nat.mul_comm _ _

theorem le_roundUp {k : ℕ} (h : 0 < k) (n : ℕ) : n ≤ roundUp k n := by
  have hdiv := Nat.div_add_mod (n+k-1) k
  have hmod := Nat.mod_lt (n+k-1) h
  rw [roundUp,Nat.mul_comm]
  omega

theorem dvd_roundUp (k n : ℕ) : k ∣ roundUp k n := Nat.dvd_mul_left _ _

section Calls

variable {d : Driver} (hu : d.Usual) (c : Chip)
include hu

/-- Only whole blocks from the offset on change. -/
theorem erase_outside {ofs n : ℕ} (hofs : d.block ∣ ofs) : Outside ofs (roundUp d.block n) c.cells (c.erase d ofs n).cells := by
  unfold Chip.erase
  split
  · exact .refl _ _ _
  · exact hu.others _ _ _ hofs

theorem erase_blank {ofs n : ℕ} (hofs : d.block ∣ ofs) (h : ¬(d.locks = true ∧ ¬c.unlocked = true)) :
    Blank (c.erase d ofs n).cells ofs n := by
  rw [Chip.erase,if_neg h]
  exact hu.blank _ _ _ hofs

theorem write_outside (xs : List UInt8) : Outside c.pos xs.length c.cells (c.write d xs).1.cells := hu.around _ _ _ _

/-- What is written to blank bytes is there afterwards, and the position is behind it. -/
theorem write_taken {xs : List UInt8} (hopen : c.unlocked = true) (hb : Blank c.cells c.pos xs.length) :
    read (c.write d xs).1.cells c.pos xs.length = xs ∧ (c.write d xs).2 = xs.length ∧
      (c.write d xs).1.pos = c.pos+xs.length := by
  have htaken := hu.taken c.cells c.pos xs hb
  have hpos : c.pos+(d.write true c.cells c.pos xs).2.toNat = c.pos+xs.length := by rw [htaken,Int.toNat_natCast]
  unfold Chip.write
  rw [hopen]
  exact ⟨hu.written _ _ _ hb,htaken,hpos⟩

/-- What is written anew is there afterwards, and other blocks stay as they are. -/
theorem rewrite_taken {ofs n : ℕ} {xs : List UInt8} (hofs : d.block ∣ ofs) (hxs : xs.length ≤ n) :
    read (c.rewrite d ofs n xs).1.cells ofs xs.length = xs ∧ (c.rewrite d ofs n xs).2 = xs.length := by
  have hopen : (c.unlock.erase d ofs n).unlocked = true := by
    unfold Chip.erase
    split <;> rfl
  have hb : Blank (c.unlock.erase d ofs n).cells ofs xs.length :=
    (erase_blank hu c.unlock hofs fun hlock => hlock.2 rfl).mono (Nat.le_refl _) (by omega)
  obtain ⟨hread,hret,-⟩ := write_taken hu ((c.unlock.erase d ofs n).seek ofs) hopen hb
  exact ⟨hread,hret⟩

theorem rewrite_outside {ofs n : ℕ} {xs : List UInt8} (hofs : d.block ∣ ofs) (hxs : xs.length ≤ roundUp d.block n) :
    Outside ofs (roundUp d.block n) c.cells (c.rewrite d ofs n xs).1.cells := by
  have hwrite := write_outside hu ((c.unlock.erase d ofs n).seek ofs) xs
  exact (erase_outside hu c.unlock hofs).trans (hwrite.mono (Nat.le_refl _) (Nat.add_le_add_left hxs _))

end Calls

/-! ### A chip whose writes clear bits -/

/-- Flash with blocks of 4 KiB, where a write can only clear bits. -/
def nor : Driver where
  block := 0x1000
  locks := true
  erase m ofs n i := if ofs ≤ i ∧ i < ofs+(n+0x1000-1)/0x1000*0x1000 then 0xFF else m i
  write u m a xs :=
    if u then (fun i => if a ≤ i ∧ i < a+xs.length then m i &&& xs.getD (i-a) 0 else m i,xs.length) else (m,-1)
  read m a n := (Bytes.read m a n,(n : ℤ))

theorem nor_usual : nor.Usual where
  blank m ofs n _ i hi hin := if_pos ⟨hi,by omega⟩
  others m ofs n _ i h := by
    have hwhole : roundUp nor.block n = (n+0x1000-1)/0x1000*0x1000 := rfl
    rw [hwhole] at h
    exact if_neg (by omega)
  written m a xs hb := by
    refine List.ext_getElem (read_length _ _ _) fun i hi hx => ?_
    have hget : ((nor.write true m a xs).1 (a+i)) = m (a+i) &&& xs.getD (a+i-a) 0 := if_pos ⟨by omega,by omega⟩
    rw [show (Bytes.read (nor.write true m a xs).1 a xs.length)[i] = (nor.write true m a xs).1 (a+i) by simp [Bytes.read],
      hget,hb _ (Nat.le_add_right _ _) (by omega),Nat.add_sub_cancel_left,List.getD_eq_getElem?_getD,
      List.getElem?_eq_getElem hx]
    exact UInt8.toBitVec_inj.mp (BitVec.allOnes_and)
  taken _ _ _ _ := rfl
  around u m a xs i h := by
    cases u with
    | false => rfl
    | true => exact if_neg (by omega)
  reads _ _ _ := rfl

end Flash
end Autbus
