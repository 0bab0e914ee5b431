import Mathlib.Algebra.Order.BigOperators.Group.List
import Mathlib.Algebra.Order.Group.Nat
import Mathlib.Data.List.GetD
import Mathlib.Algebra.GroupWithZero.Nat

/-! Byte memory: runs of bytes read and written at addresses, little-endian words, byte
sums, and the spans of addresses an access touches. -/
namespace Autbus
namespace Bytes

/-- The bytes from an address on. -/
abbrev Mem := ℕ → UInt8

/-- The bytes `[a, a+n)`. -/
def read (m : Mem) (a n : ℕ) : List UInt8 := (List.range n).map fun i => m (a+i)

/-- `memcpy(dst + a, src + b, n)`. -/
def copy (dst : Mem) (a : ℕ) (src : Mem) (b n : ℕ) : Mem :=
  fun i => if a ≤ i ∧ i < a+n then src (b+(i-a)) else dst i

/-- Write the bytes of a list from `a` on. -/
def store (m : Mem) (a : ℕ) (xs : List UInt8) : Mem :=
  fun i => if a ≤ i ∧ i < a+xs.length then xs.getD (i-a) 0 else m i

/-- The memory as seen from `a`. -/
def shift (m : Mem) (a : ℕ) : Mem := fun i => m (a+i)

/-- A list as memory, zero behind its end. -/
def ofList (xs : List UInt8) : Mem := fun i => xs.getD i 0

def u16 (m : Mem) (a : ℕ) : ℕ := (m a).toNat+256*(m (a+1)).toNat

def u32 (m : Mem) (a : ℕ) : ℕ := u16 m a+65536*u16 m (a+2)

def le16 (n : ℕ) : List UInt8 := [UInt8.ofNat n,UInt8.ofNat (n/256)]

def le32 (n : ℕ) : List UInt8 := le16 n ++ le16 (n/65536)

/-- `a - b` of type `uint32_t`. -/
def subU32 (a b : ℕ) : ℕ := (a+2^32-b) % 2^32

def byteSum (xs : List UInt8) : ℕ := (xs.map UInt8.toNat).sum

/-- `for (i = 0; i < n; i++) crc += m[i];` of type `uint32_t`. -/
def crcLoop (m : Mem) (n : ℕ) : ℕ :=
  (List.range n).foldl (fun crc i => (crc+(m i).toNat) % 2^32) 0

/-! ### Reading and writing -/

@[simp] theorem read_length (m : Mem) (a n : ℕ) : (read m a n).length = n := by
  simp [read]

@[simp] theorem read_zero (m : Mem) (a : ℕ) : read m a 0 = [] := rfl

theorem read_add (m : Mem) (a n k : ℕ) : read m a (n+k) = read m a n ++ read m (a+n) k := by
  simp only [read,List.range_add,List.map_append,List.map_map]
  congr 2
  funext i
  simp [Nat.add_assoc]

theorem read_succ (m : Mem) (a n : ℕ) : read m a (n+1) = m a::read m (a+1) n := by
  rw [Nat.add_comm n 1,read_add]
  simp [read]

theorem read_congr {m m' : Mem} {a b n : ℕ} (h : ∀ i < n, m (a+i) = m' (b+i)) :
    read m a n = read m' b n := by
  apply List.map_congr_left
  intro i hi
  exact h i (List.mem_range.mp hi)

theorem read_take (m : Mem) (a : ℕ) {k n : ℕ} (h : k ≤ n) : (read m a n).take k = read m a k := by
  rw [← Nat.add_sub_cancel' h,read_add,List.take_left' (by simp)]

theorem read_drop (m : Mem) (a : ℕ) {k n : ℕ} (h : k ≤ n) :
    (read m a n).drop k = read m (a+k) (n-k) := by
  rw [show read m a n = read m a (k+(n-k)) by rw [Nat.add_sub_cancel' h],read_add,
    List.drop_left' (by simp)]

/-- Equal runs are equal byte by byte. -/
theorem read_inj {m m' : Mem} {a b n : ℕ} (h : read m a n = read m' b n) {i : ℕ} (hi : i < n) :
    m (a+i) = m' (b+i) := by
  have hget := congrArg (fun l : List UInt8 => l[i]?) h
  simpa [read,hi] using hget

/-- Equal runs are equal in each of two parts. -/
theorem read_split {m m' : Mem} {a a' n k : ℕ} (h : read m' a' (n+k) = read m a (n+k)) :
    read m' a' n = read m a n ∧ read m' (a'+n) k = read m (a+n) k := by
  rw [read_add,read_add] at h
  exact List.append_inj h (by simp)

theorem read_ofList (xs : List UInt8) : read (ofList xs) 0 xs.length = xs := by
  apply List.ext_getElem
  · simp
  · intro i hi hx
    simp [read,ofList,List.getD_eq_getElem?_getD,hx]

theorem read_ofList_append (xs ys : List UInt8) : read (ofList (xs ++ ys)) 0 xs.length = xs := by
  have hle : xs.length ≤ (xs ++ ys).length := by simp
  rw [← read_take _ 0 hle,read_ofList,List.take_left]

theorem shift_ofList_append (xs ys : List UInt8) : shift (ofList (xs ++ ys)) xs.length = ofList ys := by
  funext i
  have hge : xs.length ≤ xs.length+i := Nat.le_add_right ..
  simp [shift,ofList,List.getElem?_append_right hge]

theorem read_copy (dst : Mem) (a : ℕ) (src : Mem) (b n : ℕ) :
    read (copy dst a src b n) a n = read src b n := by
  apply read_congr
  intro i hi
  have hin : a ≤ a+i ∧ a+i < a+n := by omega
  rw [copy,if_pos hin,Nat.add_sub_cancel_left]

/-- What lies before or behind a copy stays. -/
theorem read_copy_frame {dst : Mem} {a : ℕ} {src : Mem} {b n c k : ℕ} (h : c+k ≤ a ∨ a+n ≤ c) :
    read (copy dst a src b n) c k = read dst c k := by
  apply read_congr
  intro i hi
  have hout : ¬(a ≤ c+i ∧ c+i < a+n) := by omega
  rw [copy,if_neg hout]

/-- A copy behind a run prolongs the run. -/
theorem read_copy_append (dst : Mem) (a : ℕ) (src : Mem) (b n : ℕ) :
    read (copy dst a src b n) 0 (a+n) = read dst 0 a ++ read src b n := by
  rw [read_add,Nat.zero_add,read_copy,read_copy_frame (Or.inl (by omega))]

theorem store_eq_copy (m : Mem) (a : ℕ) (xs : List UInt8) :
    store m a xs = copy m a (ofList xs) 0 xs.length := by
  funext i
  simp [store,copy,ofList]

theorem read_store (m : Mem) (a : ℕ) (xs : List UInt8) : read (store m a xs) a xs.length = xs := by
  rw [store_eq_copy,read_copy,read_ofList]

theorem read_store_frame {m : Mem} {a c k : ℕ} {xs : List UInt8} (h : c+k ≤ a ∨ a+xs.length ≤ c) :
    read (store m a xs) c k = read m c k := by
  rw [store_eq_copy,read_copy_frame h]

theorem read_store_append (m : Mem) (a : ℕ) (xs : List UInt8) :
    read (store m a xs) 0 (a+xs.length) = read m 0 a ++ xs := by
  rw [store_eq_copy,read_copy_append,read_ofList]

@[simp] theorem store_nil (m : Mem) (a : ℕ) : store m a [] = m := by
  funext i
  simp [store]

/-- Two writes, one behind the other. -/
theorem store_append (m : Mem) (a : ℕ) (xs ys : List UInt8) :
    store (store m a xs) (a+xs.length) ys = store m a (xs ++ ys) := by
  funext i
  simp only [store,List.length_append]
  by_cases hy : a+xs.length ≤ i ∧ i < a+xs.length+ys.length
  · rw [if_pos hy,if_pos (by omega),List.getD_append_right _ _ _ _ (by omega)]
    congr 1
    omega
  · rw [if_neg hy]
    by_cases hx : a ≤ i ∧ i < a+xs.length
    · rw [if_pos hx,if_pos (by omega),List.getD_append _ _ _ _ (by omega)]
    · rw [if_neg hx,if_neg (by omega)]

/-- A write of one byte leaves all others. -/
theorem store_one (m : Mem) (a : ℕ) (x : UInt8) : store m a [x] = Function.update m a x := by
  funext i
  by_cases hi : i = a
  · subst hi
    rw [Function.update_self,store,if_pos ⟨Nat.le_refl i,Nat.lt_succ_self i⟩,Nat.sub_self,List.getD_cons_zero]
  · have hout : ¬(a ≤ i ∧ i < a+1) := by omega
    rw [Function.update_of_ne hi,store]
    exact if_neg hout

theorem read_update_frame {m : Mem} {a c k : ℕ} {x : UInt8} (h : c+k ≤ a ∨ a < c) :
    read (Function.update m a x) c k = read m c k := by
  rw [← store_one]
  exact read_store_frame (h.imp_right Nat.succ_le_of_lt)

theorem getD_read (m : Mem) (a : ℕ) {n i : ℕ} (hi : i < n) (d : UInt8) : (read m a n).getD i d = m (a+i) := by
  simp [read,List.getD_eq_getElem?_getD,hi]

/-- Writing what is there. -/
theorem store_read (m : Mem) (a n : ℕ) : store m a (read m a n) = m := by
  funext i
  unfold store
  split
  · next hi =>
    rw [read_length] at hi
    rw [getD_read m a (by omega),Nat.add_sub_cancel' hi.1]
  · rfl

/-- A byte written into a run, and the run written with that byte. -/
theorem store_set (m : Mem) (a : ℕ) {n k : ℕ} (hk : k < n) (x : UInt8) :
    store m a ((read m a n).set k x) = store m (a+k) [x] := by
  funext i
  rw [store_one]
  by_cases hi : i = a+k
  · subst hi
    have hin : a ≤ a+k ∧ a+k < a+((read m a n).set k x).length := by simpa using hk
    rw [Function.update_self,store,if_pos hin,Nat.add_sub_cancel_left]
    simp [List.getD_eq_getElem?_getD,hk]
  · rw [Function.update_of_ne hi,store]
    split
    · next hin =>
      rw [List.length_set,read_length] at hin
      have hne : k ≠ i-a := by omega
      rw [List.getD_eq_getElem?_getD,List.getElem?_set_ne hne,← List.getD_eq_getElem?_getD,
        getD_read m a (by omega),Nat.add_sub_cancel' hin.1]
    · rfl

/-! ### Words -/

@[simp] theorem le16_length (n : ℕ) : (le16 n).length = 2 := rfl

@[simp] theorem le32_length (n : ℕ) : (le32 n).length = 4 := rfl

theorem u16_of_read {m : Mem} {a n : ℕ} (hn : n < 65536) (h : read m a 2 = le16 n) : u16 m a = n := by
  simp only [read_succ,read_zero,le16,List.cons.injEq,and_true] at h
  rw [u16,h.1,h.2,UInt8.toNat_ofNat',UInt8.toNat_ofNat']
  omega

theorem u16_store_le16 (m : Mem) (a : ℕ) {n : ℕ} (h : n < 65536) : u16 (store m a (le16 n)) a = n :=
  u16_of_read h (read_store m a (le16 n))

theorem u16_congr {m m' : Mem} {a a' : ℕ} (h : read m' a' 2 = read m a 2) : u16 m' a' = u16 m a := by
  have h0 := read_inj h (show 0 < 2 by omega)
  have h1 := read_inj h (show 1 < 2 by omega)
  rw [Nat.add_zero,Nat.add_zero] at h0
  rw [u16,u16,h0,h1]

theorem u32_of_read {m : Mem} {a n : ℕ} (hn : n < 2^32) (h : read m a 4 = le32 n) : u32 m a = n := by
  have hsplit : read m a 2 ++ read m (a+2) 2 = le16 (n % 65536) ++ le16 (n/65536) := by
    rw [← read_add,h,le32]
    congr 1
    simp only [le16]
    congr 1
    · apply UInt8.toNat_inj.mp
      rw [UInt8.toNat_ofNat',UInt8.toNat_ofNat']
      omega
    · congr 1
      apply UInt8.toNat_inj.mp
      rw [UInt8.toNat_ofNat',UInt8.toNat_ofNat']
      omega
  obtain ⟨hlow,hhigh⟩ := List.append_inj hsplit (by simp)
  rw [u32,u16_of_read (by omega) hlow,u16_of_read (by omega) hhigh]
  omega

theorem toNat_succ {x : UInt8} (h : x.toNat < 255) : (x+1).toNat = x.toNat+1 := by
  have hone : (1 : UInt8).toNat = 1 := rfl
  rw [UInt8.toNat_add,hone]
  omega

theorem subU32_of_le {a b : ℕ} (ha : a < 2^32) (h : b ≤ a) : subU32 a b = a-b := by
  rw [subU32]
  omega

theorem subU32_of_lt {a b : ℕ} (hb : b ≤ 2^32) (h : a < b) : subU32 a b = 2^32-(b-a) := by
  rw [subU32]
  omega

/-! ### Byte sums -/

@[simp] theorem byteSum_nil : byteSum [] = 0 := rfl

@[simp] theorem byteSum_append (xs ys : List UInt8) : byteSum (xs ++ ys) = byteSum xs+byteSum ys := by
  simp [byteSum]

@[simp] theorem byteSum_replicate (n : ℕ) (b : UInt8) : byteSum (List.replicate n b) = n*b.toNat := by
  simp [byteSum]

theorem byteSum_le (xs : List UInt8) : byteSum xs ≤ 255*xs.length := by
  induction xs with
  | nil => simp
  | cons x xs ih =>
    have hx := x.toNat_lt
    simp only [byteSum,List.map_cons,List.sum_cons,List.length_cons] at ih ⊢
    omega

theorem crcLoop_eq (m : Mem) (n : ℕ) : crcLoop m n = byteSum (read m 0 n) % 2^32 := by
  have hfold : ∀ (l : List ℕ) (c : ℕ), c < 2^32 →
      l.foldl (fun crc i => (crc+(m i).toNat) % 2^32) c = (c+byteSum (l.map m)) % 2^32 := by
    intro l
    induction l with
    | nil =>
      intro c hc
      simpa using (Nat.mod_eq_of_lt hc).symm
    | cons i l ih =>
      intro c _
      rw [List.foldl_cons,ih _ (Nat.mod_lt _ (by decide))]
      simp only [byteSum,List.map_cons,List.sum_cons]
      omega
  rw [crcLoop,hfold _ 0 (by decide),read]
  simp

/-! ### Spans -/

/-- The addresses an access touches. -/
structure Span where
  start : ℕ
  len : ℕ
  deriving DecidableEq

/-- The access stays below the bound; one of no bytes touches nothing. -/
def Span.Within (s : Span) (n : ℕ) : Prop := s.len = 0 ∨ s.start+s.len ≤ n

instance (s : Span) (n : ℕ) : Decidable (s.Within n) := inferInstanceAs (Decidable (_ ∨ _))

end Bytes
end Autbus
