import Autbus.Placement

/-! The acknowledgement bits of a broadcast as a set of cells: where the bit of a node lies,
and that no bit is left when the words ored together are 0. -/
namespace Autbus
namespace Acks

open Cells Nodes

/-- The place of a node's bit. -/
def slot (b : UInt8) : Fin 8 × ℕ := (⟨b.toNat/32,by have := b.toNat_lt;omega⟩,b.toNat%32)

theorem slot_inj {a b : UInt8} (h : slot a = slot b) : a = b := by
  have h1 : a.toNat/32 = b.toNat/32 := congrArg (fun x => x.1.val) h
  have h2 : a.toNat%32 = b.toNat%32 := congrArg Prod.snd h
  apply UInt8.toNat_inj.mp
  omega

theorem mem_slotMask (c : Fin 8 × ℕ) (b : UInt8) :
    c ∈ maskCells (fun i => i.val = b.toNat/32) (1#32 <<< (b.toNat%32)) ↔ c = slot b := by
  obtain ⟨i,j⟩ := c
  rw [mem_maskCells,BitVec.getLsbD_shiftLeft,BitVec.getLsbD_one,slot,Prod.mk.injEq,Fin.ext_iff]
  have hb : b.toNat%32 < 32 := Nat.mod_lt _ (by decide)
  simp only [decide_eq_true_eq,Bool.and_eq_true,Bool.not_eq_true',decide_eq_false_iff_not]
  omega

theorem mem_setBit (f : AckFlag) (b : UInt8) (c : Fin 8 × ℕ) :
    c ∈ cells (setBit f b) ↔ c ∈ cells f ∨ c = slot b := by
  rw [setBit,cells_setIn,Set.mem_union,mem_slotMask]

theorem mem_clearBit (f : AckFlag) (b : UInt8) (c : Fin 8 × ℕ) :
    c ∈ cells (clearBit f b) ↔ c ∈ cells f ∧ c ≠ slot b := by
  rw [clearBit,cells_clearIn,Set.mem_sdiff,mem_slotMask]

theorem foldl_or_eq_zero {α : Type} {w : ℕ} (f : α → BitVec w) (l : List α) (t : BitVec w)
    (h : l.foldl (fun t i => t ||| f i) t = 0#w) : t = 0#w ∧ ∀ i ∈ l, f i = 0#w := by
  induction l generalizing t with
  | nil => exact ⟨h,by simp⟩
  | cons a l ih =>
    obtain ⟨h1,h2⟩ := ih _ h
    obtain ⟨ht,ha⟩ := BitVec.or_eq_zero_iff.mp h1
    exact ⟨ht,List.forall_mem_cons.mpr ⟨ha,h2⟩⟩

/-- No bit is left. -/
theorem isAckZero_empty {f : AckFlag} (h : isAckZero f = 0) (c : Fin 8 × ℕ) : c ∉ cells f := by
  have hz := (foldl_or_eq_zero f _ _ h).2 c.1 (List.mem_finRange c.1)
  intro hc
  have hbit : (f c.1).getLsbD c.2 = true := hc
  rw [hz,BitVec.getLsbD_zero] at hbit
  cases hbit

theorem mem_broadcastFlags {ncn : List NodeInfo} {pnd : NodeInfo} (h : pnd ∈ ncn) (ha : awaited pnd = true) :
    slot pnd.nindx ∈ cells (broadcastFlags ncn) := by
  have hall : ∀ (l : List NodeInfo) (f : AckFlag), (slot pnd.nindx ∈ cells f ∨ pnd ∈ l) →
      slot pnd.nindx ∈ cells (l.foldl (fun f p => if awaited p then setBit f p.nindx else f) f) := by
    intro l
    induction l with
    | nil =>
      intro f hf
      simpa using hf
    | cons p l ih =>
      intro f hf
      apply ih
      by_cases hp : awaited p = true
      · simp only [hp,if_true,mem_setBit]
        rcases hf with hf | hf
        · exact Or.inl (Or.inl hf)
        · rcases List.mem_cons.mp hf with rfl | hf
          · exact Or.inl (Or.inr rfl)
          · exact Or.inr hf
      · simp only [hp,Bool.false_eq_true,if_false]
        rcases hf with hf | hf
        · exact Or.inl hf
        · rcases List.mem_cons.mp hf with rfl | hf
          · exact absurd ha hp
          · exact Or.inr hf
  exact hall ncn initAckFlag (Or.inr h)

end Acks
end Autbus
