import Mathlib.Data.List.TakeWhile

/-! Strings that end at the first zero byte of a buffer. -/
namespace Autbus
namespace CStrings

/-- The string in a buffer, without its zero; all of it where there is none. -/
def cstr (b : List UInt8) : List UInt8 := b.takeWhile (· ≠ 0)

/-- A string copied to the beginning of a buffer, with its zero. -/
def strcpy (dst str : List UInt8) : List UInt8 := str ++ 0::dst.drop (str.length+1)

variable {b dst str rest : List UInt8} {i : ℕ}

theorem cstr_cons {x : UInt8} (hx : x ≠ 0) (b : List UInt8) : cstr (x::b) = x::cstr b := by
  simp [cstr,hx]

theorem cstr_append_zero (h : (0 : UInt8) ∉ str) : cstr (str ++ 0::rest) = str := by
  induction str with
  | nil => rfl
  | cons x str ih =>
    rw [List.mem_cons,not_or] at h
    rw [List.cons_append,cstr_cons (Ne.symm h.1),ih h.2]

/-- The string ends where there is a zero, or before. -/
theorem cstr_length_le (h : b[i]? = some 0) : (cstr b).length ≤ i := by
  induction b generalizing i with
  | nil => simp at h
  | cons x b ih =>
    by_cases hx : x = 0
    · subst hx
      exact Nat.zero_le i
    · cases i with
      | zero => exact absurd (by simpa using h) hx
      | succ i =>
        rw [cstr_cons hx,List.length_cons]
        exact Nat.succ_le_succ (ih (by simpa using h))

theorem cstr_length_lt (h : (0 : UInt8) ∈ b) : (cstr b).length < b.length := by
  obtain ⟨i,hi⟩ := List.mem_iff_getElem?.mp h
  have hlt : i < b.length := (List.getElem?_eq_some_iff.mp hi).1
  exact Nat.lt_of_le_of_lt (cstr_length_le hi) hlt

theorem strcpy_length (h : str.length < dst.length) : (strcpy dst str).length = dst.length := by
  rw [strcpy,List.length_append,List.length_cons,List.length_drop]
  omega

theorem zero_mem_strcpy : (0 : UInt8) ∈ strcpy dst str := by simp [strcpy]

end CStrings
end Autbus
