import Autbus.Bytes

/-! Records in memory, one behind the other, each headed by its length in 16 bits. -/
namespace Autbus
namespace Records

open Bytes

/-- The bytes that records take with their heads. -/
def size (xs : List (List UInt8)) : ℕ := (xs.map fun x => x.length+2).sum

@[simp] theorem size_nil : size [] = 0 := rfl

@[simp] theorem size_cons (x : List UInt8) (xs : List (List UInt8)) : size (x::xs) = x.length+2+size xs := by
  simp [size]

@[simp] theorem size_append (xs ys : List (List UInt8)) : size (xs ++ ys) = size xs+size ys := by
  simp [size]

/-- Records of at least `n` bytes. -/
theorem le_size {n : ℕ} {xs : List (List UInt8)} (h : ∀ x ∈ xs, n ≤ x.length) : (n+2)*xs.length ≤ size xs := by
  induction xs with
  | nil => simp
  | cons x xs ih =>
    have hx := h x List.mem_cons_self
    have hxs := ih fun y hy => h y (List.mem_cons_of_mem _ hy)
    rw [size_cons,List.length_cons,Nat.mul_add,Nat.mul_one]
    omega

/-- From `a` on the memory holds the records `xs`. -/
def At (m : Mem) : ℕ → List (List UInt8) → Prop
  | _, [] => True
  | a, x::xs => u16 m a = x.length ∧ read m (a+2) x.length = x ∧ At m (a+(x.length+2)) xs

variable {m m' : Mem} {a a' : ℕ} {x : List UInt8} {xs ys : List (List UInt8)}

theorem at_single : At m a [x] ↔ u16 m a = x.length ∧ read m (a+2) x.length = x := by
  simp [At]

theorem at_append : At m a (xs ++ ys) ↔ At m a xs ∧ At m (a+size xs) ys := by
  induction xs generalizing a with
  | nil => simp [At]
  | cons x xs ih =>
    rw [List.cons_append,At,At,ih,size_cons,Nat.add_assoc a]
    simp only [and_assoc]

/-- Records stay when their bytes do, here or elsewhere. -/
theorem At.move (hx : At m a xs) (h : read m' a' (size xs) = read m a (size xs)) : At m' a' xs := by
  induction xs generalizing a a' with
  | nil => trivial
  | cons x xs ih =>
    obtain ⟨hlen,hdat,hrest⟩ := hx
    rw [size_cons] at h
    obtain ⟨hhead,htail⟩ := read_split h
    rw [Nat.add_comm x.length 2] at hhead
    obtain ⟨h16,hbody⟩ := read_split hhead
    exact ⟨(u16_congr h16).trans hlen,hbody.trans hdat,ih hrest htail⟩

end Records
end Autbus
