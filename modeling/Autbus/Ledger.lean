import Mathlib.Data.List.Basic

/-! Resources that are taken, used and given back, the newest event first. The ledger goes on only
as long as nothing is taken twice, and nothing used or given back that is not held. -/
namespace Autbus
namespace Ledger

inductive Event (R : Type*)
  | take (r : R)
  | use (r : R)
  | give (r : R)
  deriving DecidableEq

variable {R : Type*} [DecidableEq R]

/-- One event, where the resources of the list are held. -/
def hold : Event R → List R → Option (List R)
  | .take r,s => if r ∈ s then none else some (r::s)
  | .use r,s => if r ∈ s then some s else none
  | .give r,s => if r ∈ s then some (s.erase r) else none

/-- What is held in the end. -/
def held : List (Event R) → Option (List R)
  | [] => some []
  | e::l => (held l).bind (hold e)

/-- Everything went well, and nothing is held any more. -/
def Settled (l : List (Event R)) : Prop := held l = some []

instance (l : List (Event R)) : Decidable (Settled l) := inferInstanceAs (Decidable (held l = some []))

variable {l : List (Event R)} {e : Event R} {s t : List R} {r : R}

theorem held_cons (hs : held l = some s) : held (e::l) = hold e s := by rw [held,hs,Option.bind_some]

theorem held_take (hs : held l = some s) (hr : r ∉ s) : held (.take r::l) = some (r::s) := by
  rw [held_cons hs,hold,if_neg hr]

theorem held_give (hs : held l = some s) (hr : r ∈ s) : held (.give r::l) = some (s.erase r) := by
  rw [held_cons hs,hold,if_pos hr]

/-- One event changes how often its resource is held by one. -/
theorem count_hold (h : hold e s = some t) (r : R) :
    s.count r+[e].count (.take r) = t.count r+[e].count (.give r) := by
  cases e with
  | take x =>
    dsimp only [hold] at h
    split at h
    · cases h
    · obtain rfl := Option.some.inj h
      by_cases hx : x = r
      · simp [hx]
      · simp [hx]
  | use x =>
    dsimp only [hold] at h
    split at h
    · obtain rfl := Option.some.inj h
      simp
    · cases h
  | give x =>
    dsimp only [hold] at h
    split at h
    · next hmem =>
      obtain rfl := Option.some.inj h
      by_cases hx : x = r
      · have hpos := List.count_pos_iff.mpr hmem
        subst hx
        rw [List.count_erase_self]
        simp
        omega
      · simp [hx,List.count_erase_of_ne (Ne.symm hx)]
    · cases h

/-- The resources of a list are held, in any order. -/
def Holds (l : List (Event R)) (hand : List R) : Prop := ∃ s, held l = some s ∧ s.Perm hand

namespace Holds

variable {hand hand' : List R}

theorem perm (h : Holds l hand) (hp : hand.Perm hand') : Holds l hand' := by
  obtain ⟨s,hs,hperm⟩ := h
  exact ⟨s,hs,hperm.trans hp⟩

theorem take (h : Holds l hand) (hr : r ∉ hand) : Holds (.take r::l) (r::hand) := by
  obtain ⟨s,hs,hperm⟩ := h
  exact ⟨r::s,held_take hs fun hmem => hr (hperm.mem_iff.mp hmem),hperm.cons r⟩

theorem give (h : Holds l (r::hand)) : Holds (.give r::l) hand := by
  obtain ⟨s,hs,hperm⟩ := h
  refine ⟨s.erase r,held_give hs (hperm.mem_iff.mpr List.mem_cons_self),?_⟩
  simpa using hperm.erase r

end Holds

/-- Nothing is held twice. -/
theorem nodup_held (h : held l = some s) : s.Nodup := by
  induction l generalizing s with
  | nil =>
    obtain rfl := Option.some.inj h
    exact List.nodup_nil
  | cons e l ih =>
    rw [held,Option.bind_eq_some_iff] at h
    obtain ⟨u,hu,hs⟩ := h
    have hnodup := ih hu
    cases e with
    | take r =>
      dsimp only [hold] at hs
      split at hs
      · cases hs
      · next hr =>
        obtain rfl := Option.some.inj hs
        exact List.nodup_cons.mpr ⟨hr,hnodup⟩
    | use r =>
      dsimp only [hold] at hs
      split at hs
      · obtain rfl := Option.some.inj hs
        exact hnodup
      · cases hs
    | give r =>
      dsimp only [hold] at hs
      split at hs
      · obtain rfl := Option.some.inj hs
        exact hnodup.erase r
      · cases hs

/-- What was taken is held or was given back. -/
theorem count_held (h : held l = some s) (r : R) : l.count (.take r) = s.count r+l.count (.give r) := by
  induction l generalizing s with
  | nil =>
    obtain rfl := Option.some.inj h
    rfl
  | cons e l ih =>
    rw [held,Option.bind_eq_some_iff] at h
    obtain ⟨u,hu,hs⟩ := h
    have hstep := count_hold hs r
    have hrest := ih hu
    rw [← List.singleton_append,List.count_append,List.count_append]
    omega

theorem Holds.nodup {hand : List R} (h : Holds l hand) : hand.Nodup := by
  obtain ⟨s,hs,hperm⟩ := h
  exact hperm.nodup_iff.mp (nodup_held hs)

theorem Holds.count {hand : List R} (h : Holds l hand) (r : R) :
    l.count (.take r) = hand.count r+l.count (.give r) := by
  obtain ⟨s,hs,hperm⟩ := h
  rw [count_held hs,hperm.count_eq]

/-- When all is settled, everything was given back as often as it was taken. -/
theorem Settled.count (h : Settled l) (r : R) : l.count (.give r) = l.count (.take r) := by
  rw [count_held h r,List.count_nil,Nat.zero_add]

end Ledger
end Autbus
