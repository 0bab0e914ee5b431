import Autbus.Commands
import Autbus.Numerals

/-! The numbers of the console (`debug.c`): which strings `debug_str2uint` takes. -/
namespace Autbus
namespace Uints

open Commands Numerals

/-- `debug_str2uint` with its output: what it returns, and `*pu32`. -/
def debugStr2uintTo (str : Str) (pu32 : UInt32) : ℕ × UInt32 :=
  match debugStr2uint str with
  | .ok temp => (0,temp)
  | .error iret => (iret,pu32)

/-- The characters are these digits of base `b`. -/
def Spelled (b : ℕ) (s : Str) (ds : List ℕ) : Prop := s.map digit = ds.map some ∧ ∀ d ∈ ds,d < b

/-- The strings that are numbers: a single zero, a decimal numeral that begins with another digit, or a
hexadecimal one behind its prefix. -/
inductive Numeral : Str → ℕ → Prop
  | zero : Numeral [0x30] 0
  | decimal {s : Str} {ds : List ℕ} : s ≠ [] → s.head? ≠ some 0x30 → Spelled 10 s ds → Numeral s (value 10 ds)
  | hex {x : UInt8} {s : Str} {ds : List ℕ} : x = 0x58 ∨ x = 0x78 → s ≠ [] → Spelled 16 s ds →
    Numeral (0x30::x::s) (value 16 ds)

variable {b acc n : ℕ} {s str : Str} {ds : List ℕ} {c : UInt8}

theorem value_concat (b : ℕ) (ds : List ℕ) (d : ℕ) : value b (ds ++ [d]) = value b ds*b+d := by
  simp [value,Nat.ofDigits_cons]
  ring

/-! ### Digits -/

theorem isDigit_iff : isDigit b c = true ↔ ∃ d,digit c = some d ∧ d < b := by simp [isDigit,Option.any_eq_true]

theorem spelled_nil : Spelled b [] ds ↔ ds = [] := by
  constructor
  · rintro ⟨h,-⟩
    cases ds with
    | nil => rfl
    | cons d ds => cases h
  · rintro rfl
    exact ⟨rfl,nofun⟩

theorem spelled_cons : Spelled b (c::s) ds ↔ ∃ d ds',ds = d::ds' ∧ digit c = some d ∧ d < b ∧ Spelled b s ds' := by
  constructor
  · rintro ⟨h,hlt⟩
    cases ds with
    | nil => simp at h
    | cons d ds =>
      simp only [List.map_cons,List.cons.injEq] at h
      exact ⟨d,ds,rfl,h.1,hlt d (by simp),h.2,fun e he => hlt e (by simp [he])⟩
  · rintro ⟨d,ds',rfl,hd,hlt,h,hall⟩
    exact ⟨by simp [hd,h],List.forall_mem_cons.mpr ⟨hlt,hall⟩⟩

/-- Digits only are all read, from the first one on. -/
theorem digits_of_spelled (h : Spelled b s ds) (acc : ℕ) :
    digits b s acc = (ds.foldl (fun n d => n*b+d) acc,[]) := by
  induction s generalizing ds acc with
  | nil =>
    obtain rfl := spelled_nil.mp h
    rfl
  | cons c s ih =>
    obtain ⟨d,ds,rfl,hd,hlt,hs⟩ := spelled_cons.mp h
    rw [digits,if_pos (isDigit_iff.mpr ⟨d,hd,hlt⟩),ih hs,hd]
    rfl

theorem value_eq_foldl (b : ℕ) (ds : List ℕ) : value b ds = ds.foldl (fun n d => n*b+d) 0 := by
  induction ds using List.reverseRecOn with
  | nil => rfl
  | append_singleton ds d ih => rw [value_concat,ih,List.foldl_append,List.foldl_cons,List.foldl_nil]

/-- Where the zero comes next there were digits only. -/
theorem spelled_of_digits (h0 : 0 ∉ s) (h : (digits b s acc).2.getD 0 0 = 0) : ∃ ds,Spelled b s ds := by
  induction s generalizing acc with
  | nil => exact ⟨[],spelled_nil.mpr rfl⟩
  | cons c s ih =>
    rw [List.mem_cons,not_or] at h0
    rw [digits] at h
    by_cases hc : isDigit b c = true
    · rw [if_pos hc] at h
      obtain ⟨d,hd,hlt⟩ := isDigit_iff.mp hc
      obtain ⟨ds,hs⟩ := ih h0.2 h
      exact ⟨d::ds,spelled_cons.mpr ⟨d,ds,rfl,hd,hlt,hs⟩⟩
    · rw [if_neg hc] at h
      exact absurd h.symm h0.1

/-- The check of a number that was read: digits up to the end, and a word is wide enough. -/
theorem checkUint_ok_iff {text large : ℕ} {v : UInt32} (h0 : 0 ∉ s) :
    checkUint (min (digits b s 0).1 (2^64-1),(digits b s 0).2) text large = .ok v ↔
      ∃ ds,Spelled b s ds ∧ value b ds = v.toNat := by
  unfold checkUint
  dsimp only
  constructor
  · intro h
    split at h
    · cases h
    · next hend =>
      split at h
      · cases h
      · next hlarge =>
        obtain ⟨ds,hs⟩ := spelled_of_digits h0 (not_not.mp hend)
        refine ⟨ds,hs,?_⟩
        rw [digits_of_spelled hs,← value_eq_foldl] at h hlarge
        dsimp only at h hlarge
        cases h
        rw [UInt32.toNat_ofNat']
        omega
  · rintro ⟨ds,hs,hv⟩
    have hlt := v.toNat_lt
    rw [digits_of_spelled hs,← value_eq_foldl,hv]
    dsimp only
    rw [if_neg (by simp),if_neg (by omega),Nat.min_eq_left (by omega),UInt32.ofNat_toNat]

/-! ### Which strings are taken -/

theorem range_of_isDigit (h : isDigit 10 c = true) : 0x30 ≤ c ∧ c ≤ 0x39 := by
  obtain ⟨d,hd,hlt⟩ := isDigit_iff.mp h
  simp only [UInt8.le_iff_toNat_le] at *
  unfold digit at hd
  split at hd
  · next hrange => exact hrange
  · split at hd
    · next hrange =>
      have hle : 0x41 ≤ c.toNat := UInt8.le_iff_toNat_le.mp hrange.1
      obtain rfl := Option.some.inj hd
      omega
    · split at hd
      · next hrange =>
        have hle : 0x61 ≤ c.toNat := UInt8.le_iff_toNat_le.mp hrange.1
        obtain rfl := Option.some.inj hd
        omega
      · cases hd

theorem not_numeral_nil : ¬Numeral [] n := by
  intro h
  cases h with
  | decimal hne _ _ => exact hne rfl

theorem numeral_iff_of_zero : Numeral (0x30::s) n ↔ s = [] ∧ n = 0 ∨
    ∃ x t ds,s = x::t ∧ (x = 0x58 ∨ x = 0x78) ∧ t ≠ [] ∧ Spelled 16 t ds ∧ value 16 ds = n := by
  constructor
  · intro h
    cases h with
    | zero => exact .inl ⟨rfl,rfl⟩
    | decimal _ hhead _ => exact absurd rfl hhead
    | hex hx hne hs => exact .inr ⟨_,_,_,rfl,hx,hne,hs,rfl⟩
  · rintro (⟨rfl,rfl⟩ | ⟨x,t,ds,rfl,hx,hne,hs,rfl⟩)
    · exact .zero
    · exact .hex hx hne hs

theorem numeral_iff_of_ne (hc : c ≠ 0x30) : Numeral (c::s) n ↔ ∃ ds,Spelled 10 (c::s) ds ∧ value 10 ds = n := by
  constructor
  · intro h
    cases h with
    | zero => exact absurd rfl hc
    | decimal _ _ hs => exact ⟨_,hs,rfl⟩
    | hex _ _ _ => exact absurd rfl hc
  · rintro ⟨ds,hs,rfl⟩
    exact .decimal (by simp) (by simpa using hc) hs

/-- Behind the prefix `strtoull` goes on only where a digit is. -/
theorem strtoull_hex {x : UInt8} (hx : x = 0x58 ∨ x = 0x78) (t : Str) :
    strtoull (0x30::x::t) 16 = if isDigit 16 (t.getD 0 0) = true then
      (min (digits 16 t 0).1 (2^64-1),(digits 16 t 0).2) else (0,x::t) := by
  have hnot : isDigit 16 x = false := by rcases hx with rfl | rfl <;> rfl
  have hstop : digits 16 (0x30::x::t) 0 = (0,x::t) := by
    have hzero : isDigit 16 0x30 = true := rfl
    rw [digits,if_pos hzero,digits,if_neg (by simp [hnot])]
    rfl
  unfold strtoull
  dsimp only
  by_cases ht : isDigit 16 (t.getD 0 0) = true
  · rw [if_pos ht,if_pos ⟨rfl,rfl,hx,ht⟩]
    rfl
  · rw [if_neg ht,if_neg fun h => ht h.2.2.2,hstop]
    rfl

/-- The strings behind the prefix: digits, and not none. -/
theorem hex_ok_iff {x : UInt8} {t : Str} (hx : x = 0x58 ∨ x = 0x78) (h0 : 0 ∉ t) (v : UInt32) :
    checkUint (strtoull (0x30::x::t) 16) 1 2 = .ok v ↔ ∃ ds,t ≠ [] ∧ Spelled 16 t ds ∧ value 16 ds = v.toNat := by
  rw [strtoull_hex hx]
  by_cases ht : isDigit 16 (t.getD 0 0) = true
  · have hne : t ≠ [] := by
      rintro rfl
      exact absurd ht (by decide)
    rw [if_pos ht,checkUint_ok_iff h0]
    simp [hne]
  · have hx0 : x ≠ 0 := by rcases hx with rfl | rfl <;> decide
    rw [if_neg ht]
    refine iff_of_false (by simp [checkUint,hx0]) ?_
    rintro ⟨ds,hne,hs,-⟩
    cases t with
    | nil => exact hne rfl
    | cons c t =>
      obtain ⟨d,-,-,hd,hlt,-⟩ := spelled_cons.mp hs
      exact ht (isDigit_iff.mpr ⟨d,hd,hlt⟩)

theorem debugStr2uint_ok_iff (h0 : 0 ∉ str) (v : UInt32) : debugStr2uint str = .ok v ↔ Numeral str v.toNat := by
  cases str with
  | nil => exact iff_of_false (by simp [debugStr2uint]) not_numeral_nil
  | cons c s =>
    rw [List.mem_cons,not_or] at h0
    by_cases hc : c = 0x30
    · subst hc
      rw [numeral_iff_of_zero]
      cases s with
      | nil => simp [debugStr2uint,eq_comm,← UInt32.toNat_inj]
      | cons x t =>
        rw [List.mem_cons,not_or] at h0
        by_cases hx : x = 0x58 ∨ x = 0x78
        · have hparse : debugStr2uint (0x30::x::t) = checkUint (strtoull (0x30::x::t) 16) 1 2 := by
            simp [debugStr2uint,hx,Ne.symm h0.2.1]
          rw [hparse,hex_ok_iff hx h0.2.2]
          simp [hx]
        · have hparse : debugStr2uint (0x30::x::t) = .error 3 := by
            simp [debugStr2uint,hx,Ne.symm h0.2.1]
          rw [hparse]
          simp [hx]
    · rw [numeral_iff_of_ne hc]
      by_cases hrange : 0x31 ≤ c ∧ c ≤ 0x39
      · have hparse : debugStr2uint (c::s) = checkUint (strtoull (c::s) 10) 4 5 := by
          simp [debugStr2uint,hc,hrange]
        have hten : strtoull (c::s) 10 = (min (digits 10 (c::s) 0).1 (2^64-1),(digits 10 (c::s) 0).2) := by
          simp [strtoull]
        rw [hparse,hten,checkUint_ok_iff (by simp [h0])]
      · have hparse : debugStr2uint (c::s) = .error 6 := by
          simp [debugStr2uint,hc,hrange]
        rw [hparse]
        refine iff_of_false nofun ?_
        rintro ⟨ds,hs,-⟩
        obtain ⟨d,-,-,hd,hlt,-⟩ := spelled_cons.mp hs
        obtain ⟨hlow,hhigh⟩ := range_of_isDigit (isDigit_iff.mpr ⟨d,hd,hlt⟩)
        refine hrange ⟨?_,hhigh⟩
        have hne : c.toNat ≠ 48 := fun h => hc (UInt8.toNat_inj.mp h)
        rw [UInt8.le_iff_toNat_le] at hlow ⊢
        have h30 : (0x30 : UInt8).toNat = 48 := rfl
        have h31 : (0x31 : UInt8).toNat = 49 := rfl
        omega

theorem debugStr2uint_error {e : ℕ} (h : debugStr2uint str = .error e) : e ≠ 0 := by
  have hcheck : ∀ {r : ℕ × Str} {text large : ℕ},checkUint r text large = .error e → text ≠ 0 → large ≠ 0 → e ≠ 0 := by
    intro r text large h htext hlarge
    unfold checkUint at h
    split at h
    · cases h
      exact htext
    · split at h
      · cases h
        exact hlarge
      · cases h
  unfold debugStr2uint at h
  split at h
  · split at h
    · cases h
    · split at h
      · exact hcheck h (by omega) (by omega)
      · cases h
        omega
  · split at h
    · exact hcheck h (by omega) (by omega)
    · cases h
      omega

/-- A string is taken exactly when it is a number that a word holds; its value is stored then, and nothing
otherwise. -/
theorem debugStr2uint_takes (str : Str) (pu32 : UInt32) (h0 : 0 ∉ str) :
    ((debugStr2uintTo str pu32).1 = 0 ↔ ∃ n ≤ 0xFFFFFFFF,Numeral str n) ∧
      (∀ n ≤ 0xFFFFFFFF,Numeral str n → (debugStr2uintTo str pu32).2.toNat = n) ∧
      ((debugStr2uintTo str pu32).1 ≠ 0 → (debugStr2uintTo str pu32).2 = pu32) := by
  have hok : ∀ n ≤ 0xFFFFFFFF,Numeral str n → debugStr2uint str = .ok (UInt32.ofNat n) := by
    intro n hn h
    rw [debugStr2uint_ok_iff h0,UInt32.toNat_ofNat',Nat.mod_eq_of_lt (by omega)]
    exact h
  unfold debugStr2uintTo
  cases hr : debugStr2uint str with
  | ok v =>
    have hnum := (debugStr2uint_ok_iff h0 v).mp hr
    have hlt := v.toNat_lt
    refine ⟨iff_of_true rfl ⟨v.toNat,by omega,hnum⟩,fun n hn h => ?_,fun h => absurd rfl h⟩
    obtain rfl := Except.ok.inj (hr.symm.trans (hok n hn h))
    exact (UInt32.toNat_ofNat' ).trans (Nat.mod_eq_of_lt (by omega))
  | error e =>
    have hnone : ¬∃ n ≤ 0xFFFFFFFF,Numeral str n := by
      rintro ⟨n,hn,h⟩
      exact absurd (hr.symm.trans (hok n hn h)) nofun
    exact ⟨iff_of_false (debugStr2uint_error hr) hnone,fun n hn h => absurd ⟨n,hn,h⟩ hnone,fun _ => rfl⟩

theorem forty_two_taken : ((debugStr2uintTo [0x34,0x32] 7).1 = 0 ↔ ∃ n ≤ 0xFFFFFFFF,Numeral [0x34,0x32] n) ∧
    (∀ n ≤ 0xFFFFFFFF,Numeral [0x34,0x32] n → (debugStr2uintTo [0x34,0x32] 7).2.toNat = n) ∧
      ((debugStr2uintTo [0x34,0x32] 7).1 ≠ 0 → (debugStr2uintTo [0x34,0x32] 7).2 = 7) :=
  debugStr2uint_takes [0x34,0x32] 7 (by decide)

end Uints
end Autbus
