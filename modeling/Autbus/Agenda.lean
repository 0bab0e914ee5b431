import Autbus.Stable
import Mathlib.Algebra.BigOperators.Group.List.Basic
import Mathlib.Algebra.GroupWithZero.Nat

/-! Jobs in the order of the times they are due, some of which come back when they are done.
The first job is done over and over until none is due. -/
namespace Autbus
namespace Agenda

variable {β : Type*}

/-- `every` is 0 for a job that is done once. -/
structure Job (β : Type*) where
  id : β
  due : ℕ
  every : ℕ

namespace Job

/-- The job for the next time. -/
def again (j : Job β) : Job β := {j with due := j.due+j.every}

/-- How many times a job is done up to the time `curr`. -/
def left (curr : ℕ) (j : Job β) : ℕ :=
  if curr < j.due then 0 else if j.every = 0 then 1 else (curr-j.due)/j.every+1

variable {curr : ℕ} {j : Job β}

theorem left_late (h : curr < j.due) : j.left curr = 0 := if_pos h

theorem left_once (h : j.due ≤ curr) (he : j.every = 0) : j.left curr = 1 := by
  unfold left
  rw [if_neg (not_lt.mpr h),if_pos he]

theorem left_every (h : j.due ≤ curr) (he : j.every ≠ 0) : j.left curr = (curr-j.due)/j.every+1 := by
  unfold left
  rw [if_neg (not_lt.mpr h),if_neg he]

/-- A job done is done once less. -/
theorem left_again (h : j.due ≤ curr) (he : j.every ≠ 0) : j.left curr = j.again.left curr+1 := by
  have hpos : 0 < j.every := Nat.pos_of_ne_zero he
  rw [left_every h he]
  by_cases hlate : curr < j.due+j.every
  · rw [left_late (j:=j.again) hlate,Nat.div_eq_of_lt (by omega)]
  · have hge : j.every ≤ curr-j.due := by omega
    rw [left_every (j:=j.again) (not_lt.mp hlate) he,Nat.div_eq_sub_div hpos hge,Nat.sub_sub]
    rfl

end Job

/-- The jobs there are when `j` is done. -/
def after (j : Job β) (l : List (Job β)) : List (Job β) :=
  if j.every = 0 then l else Stable.insert Job.due j.again l

/-- `fired` is done in its order, then the jobs are `rest` and none is due. -/
inductive Drains (curr : ℕ) : List (Job β) → List (Job β) → List (Job β) → Prop
  | done {l} : (∀ j, l.head? = some j → curr < j.due) → Drains curr l [] l
  | fire {j l fired rest} : j.due ≤ curr → Drains curr (after j l) fired rest → Drains curr (j::l) (j::fired) rest

abbrev Sorted (l : List (Job β)) : Prop := l.Pairwise fun j k => j.due ≤ k.due

variable {curr : ℕ} {j : Job β} {l fired rest : List (Job β)}

theorem mem_after {k : Job β} (h : k ∈ after j l) : k = j.again ∨ k ∈ l := by
  unfold after at h
  split at h
  · exact Or.inr h
  · exact Stable.mem_insert.mp h

theorem sorted_after (h : Sorted l) : Sorted (after j l) := by
  unfold after
  split
  · exact h
  · exact Stable.sorted_insert h

/-- How many times the jobs with `p` are done. -/
def times (curr : ℕ) (p : Job β → Bool) (l : List (Job β)) : ℕ :=
  (l.map fun j => if p j then j.left curr else 0).sum

variable {p : Job β → Bool}

theorem times_cons : times curr p (j::l) = (if p j then j.left curr else 0)+times curr p l := by
  unfold times
  rw [List.map_cons,List.sum_cons]

theorem times_insert : times curr p (Stable.insert Job.due j l) = times curr p (j::l) :=
  ((List.perm_orderedInsert _ j l).map _).sum_eq

/-- Each job done counts once, and what is left counts as before. -/
theorem times_after (hdue : j.due ≤ curr) (hp : p j.again = p j) :
    times curr p (j::l) = times curr p (after j l)+(if p j then 1 else 0) := by
  rw [times_cons]
  unfold after
  by_cases he : j.every = 0
  · rw [if_pos he,Job.left_once hdue he,Nat.add_comm]
  · rw [if_neg he,times_insert,times_cons,hp,Job.left_again hdue he]
    split <;> omega

/-- The jobs are done at some time, however often they come back. -/
theorem exists_drains (curr : ℕ) (l : List (Job β)) : ∃ fired rest, Drains curr l fired rest := by
  -- by induction on how often jobs are done all together
  induction hn : times curr (fun _ => true) l using Nat.strong_induction_on generalizing l with
  | _ n ih =>
    cases l with
    | nil => exact ⟨[],[],.done (by simp)⟩
    | cons j l =>
      by_cases hdue : j.due ≤ curr
      · have hafter := times_after (l:=l) (p:=fun _ => true) hdue rfl
        rw [hn,if_pos rfl] at hafter
        obtain ⟨fired,rest,h⟩ := ih _ (by omega) (after j l) rfl
        exact ⟨j::fired,rest,.fire hdue h⟩
      · refine ⟨[],j::l,.done fun k hk => ?_⟩
        obtain rfl : j = k := Option.some.inj hk
        exact not_le.mp hdue

/-- What is done later was not due before. -/
theorem Drains.le {b : ℕ} (h : Drains curr l fired rest) (hb : ∀ k ∈ l, b ≤ k.due) : ∀ k ∈ fired, b ≤ k.due := by
  induction h with
  | done => simp
  | @fire j l fired rest _ _ ih =>
    have hj : b ≤ j.due := hb j List.mem_cons_self
    intro k hk
    rcases List.mem_cons.mp hk with rfl | hk
    · exact hj
    · refine ih (fun k hk => ?_) k hk
      rcases mem_after hk with rfl | hk
      · exact hj.trans (Nat.le_add_right _ _)
      · exact hb k (List.mem_cons_of_mem _ hk)

/-- The jobs are done in the order of their times. -/
theorem Drains.fired_sorted (h : Drains curr l fired rest) (hl : Sorted l) : Sorted fired := by
  induction h with
  | done => exact List.Pairwise.nil
  | @fire j l fired rest _ hrest ih =>
    obtain ⟨hj,hl⟩ := List.pairwise_cons.mp hl
    refine List.pairwise_cons.mpr ⟨hrest.le fun k hk => ?_,ih (sorted_after hl)⟩
    rcases mem_after hk with rfl | hk
    · exact Nat.le_add_right _ _
    · exact hj k hk

theorem Drains.rest_sorted (h : Drains curr l fired rest) (hl : Sorted l) : Sorted rest := by
  induction h with
  | done => exact hl
  | fire _ _ ih => exact ih (sorted_after (List.pairwise_cons.mp hl).2)

theorem not_due (hl : Sorted l) (h : ∀ j, l.head? = some j → curr < j.due) : ∀ j ∈ l, curr < j.due := by
  cases l with
  | nil => simp
  | cons j l =>
    have hj : curr < j.due := h j rfl
    intro k hk
    rcases List.mem_cons.mp hk with rfl | hk
    · exact hj
    · exact hj.trans_le ((List.pairwise_cons.mp hl).1 k hk)

theorem Drains.late (h : Drains curr l fired rest) (hl : Sorted l) : ∀ j ∈ rest, curr < j.due := by
  induction h with
  | done hhead => exact not_due hl hhead
  | fire _ _ ih => exact ih (sorted_after (List.pairwise_cons.mp hl).2)

theorem times_late (h : ∀ j ∈ l, curr < j.due) : times curr p l = 0 := by
  unfold times
  refine List.sum_eq_zero fun n hn => ?_
  obtain ⟨j,hj,rfl⟩ := List.mem_map.mp hn
  split
  · exact Job.left_late (h j hj)
  · rfl

/-- Each job is done as often as it is due. -/
theorem Drains.countP (h : Drains curr l fired rest) (hl : Sorted l) (hp : ∀ j : Job β, p j.again = p j) :
    fired.countP p = times curr p l := by
  induction h with
  | done hhead => exact (times_late (not_due hl hhead)).symm
  | fire hdue _ ih =>
    rw [List.countP_cons,ih (sorted_after (List.pairwise_cons.mp hl).2),times_after hdue (hp _)]

/-- A job not on the list is not done. -/
theorem times_eq_zero (h : ∀ j ∈ l, p j = false) : times curr p l = 0 := by
  unfold times
  refine List.sum_eq_zero fun n hn => ?_
  obtain ⟨j,hj,rfl⟩ := List.mem_map.mp hn
  rw [h j hj]
  rfl

theorem times_id [DecidableEq β] (h : (l.map Job.id).Nodup) (hj : j ∈ l) :
    times curr (fun k => decide (k.id = j.id)) l = j.left curr := by
  induction l with
  | nil => exact absurd hj List.not_mem_nil
  | cons k l ih =>
    obtain ⟨hk,hl⟩ := List.nodup_cons.mp h
    rw [times_cons]
    rcases List.mem_cons.mp hj with rfl | hj
    · rw [if_pos (decide_eq_true rfl),times_eq_zero,Nat.add_zero]
      intro k hk'
      exact decide_eq_false fun heq => hk (heq ▸ List.mem_map_of_mem hk')
    · have hne : k.id ≠ j.id := fun heq => hk (heq ▸ List.mem_map_of_mem hj)
      rw [if_neg (by simpa using hne),Nat.zero_add]
      exact ih hl hj

end Agenda
end Autbus
