import Autbus.Frames
import Autbus.Trace

/-! Runs of `resfrm_alloc` and `resfrm_free` from `resfrm_init` on, with the triples that
are handed out and not yet given back. The bitmap alone does not say which symbols belong
to whom; the invariant ties it to the list of those triples. -/
namespace Autbus
namespace Grants

open Cells Frames Trace

/-- What a successful `resfrm_alloc` leaves with its caller. -/
structure Grant where
  freq : UInt8
  pos : UInt8
  len : UInt8
  deriving DecidableEq

/-- The (frame, symbol) cells of a triple. -/
def Grant.area (g : Grant) : Set (Fin 8 × ℕ) := footprint g.freq g.pos g.len

/-- The bitmap and the outstanding triples. -/
structure Book where
  frm : ResFrm
  held : List Grant

def Book.init : Book := ⟨resfrmInit,[]⟩

inductive Call
  | alloc (itvl len : UInt8)
  | free (g : Grant)

/-- The triple counts as handed out when the return code is 0 only: a call that takes
symbols and returns an error leaves its caller with nothing. -/
def granted (r : AllocResult) (len : UInt8) : Option Grant :=
  if r.iret = 0 then r.out.map fun p => ⟨p.1,p.2,len⟩ else none

def step (b : Book) : Call → Option Book
  | .alloc itvl len =>
    let r := resfrmAlloc b.frm itvl len
    some ⟨r.frm,(granted r len).toList ++ b.held⟩
  | .free g => some ⟨resfrmFree b.frm g.freq g.pos g.len,b.held.erase g⟩

/-- Widths for which `(1 << tlen) - 1` is defined, and no release but of what is held. -/
def Proper (_ : List Call) (b : Book) : Call → Prop
  | .alloc _ len => 1 ≤ len.toNat ∧ len.toNat ≤ 30
  | .free g => g ∈ b.held

/-- No two outstanding triples meet, their symbols are marked used, and neither they nor
the free symbols reach the four that the CN keeps. -/
structure Sound (b : Book) : Prop where
  apart : b.held.Pairwise fun g g' => Disjoint g.area g'.area
  used : ∀ g ∈ b.held, Disjoint g.area (cells b.frm)
  high : ∀ g ∈ b.held, ∀ c ∈ g.area, 4 ≤ c.2
  free : ∀ c ∈ cells b.frm, 4 ≤ c.2

theorem cells_resfrmInit : ∀ c ∈ cells resfrmInit, 4 ≤ c.2 := by
  rintro ⟨i,s⟩ hc
  by_contra hlt
  have hs : s < 4 := by
    simp only at hlt
    omega
  have hbit : (resfrmInit i).getLsbD s = true := hc
  interval_cases s <;> simp [resfrmInit] at hbit

theorem Sound.init : Sound Book.init where
  apart := List.Pairwise.nil
  used g hg := by cases hg
  high g hg := by cases hg
  free := cells_resfrmInit

/-- A triple that is handed out was free and is taken out of the bitmap. -/
theorem granted_area {frm : ResFrm} {itvl len : UInt8} {g : Grant}
    (h : granted (resfrmAlloc frm itvl len) len = some g) :
    g.area ⊆ cells frm ∧ Disjoint g.area (cells (resfrmAlloc frm itvl len).frm) := by
  unfold granted at h
  split at h
  · obtain ⟨⟨freq,pos⟩,hout,rfl⟩ := Option.map_eq_some_iff.mp h
    obtain ⟨hlen,hsub,hcells⟩ := resfrmAlloc_out hout
    refine ⟨hsub,?_⟩
    rw [hcells]
    have htaken := @footprint_subset_taken freq pos len (by omega)
    exact Set.disjoint_sdiff_right.mono_left htaken
  · cases h

theorem Sound.alloc {b : Book} (h : Sound b) (itvl len : UInt8) :
    Sound ⟨(resfrmAlloc b.frm itvl len).frm,(granted (resfrmAlloc b.frm itvl len) len).toList ++ b.held⟩ := by
  have hsub := cells_resfrmAlloc_subset b.frm itvl len
  cases hg : granted (resfrmAlloc b.frm itvl len) len with
  | none =>
    rw [Option.toList_none,List.nil_append]
    exact ⟨h.apart,fun g hm => (h.used g hm).mono_right hsub,h.high,fun c hc => h.free c (hsub hc)⟩
  | some g =>
    obtain ⟨harea,hclear⟩ := granted_area hg
    rw [Option.toList_some,List.singleton_append]
    refine ⟨?_,?_,?_,fun c hc => h.free c (hsub hc)⟩
    · have hnew : ∀ g' ∈ b.held, Disjoint g.area g'.area := fun g' hm =>
        (h.used g' hm).symm.mono_left harea
      exact List.pairwise_cons.mpr ⟨hnew,h.apart⟩
    · intro g' hm
      rcases List.mem_cons.mp hm with rfl | hold
      · exact hclear
      · exact (h.used g' hold).mono_right hsub
    · intro g' hm c hc
      rcases List.mem_cons.mp hm with rfl | hold
      · exact h.free c (harea hc)
      · exact h.high g' hold c hc

/-- What is given back was nobody else's. -/
theorem Sound.release {b : Book} (h : Sound b) {g : Grant} (hg : g ∈ b.held) :
    Sound ⟨resfrmFree b.frm g.freq g.pos g.len,b.held.erase g⟩ := by
  have hperm := List.perm_cons_erase hg
  have hpair : (g::b.held.erase g).Pairwise fun g g' => Disjoint g.area g'.area :=
    (hperm.pairwise_iff fun hd => hd.symm).mp h.apart
  obtain ⟨hother,hrest⟩ := List.pairwise_cons.mp hpair
  have hcells : cells (resfrmFree b.frm g.freq g.pos g.len) ⊆ cells b.frm ∪ g.area := by
    rw [cells_resfrmFree]
    exact Set.union_subset_union_right _ Set.inter_subset_left
  refine ⟨hrest,?_,fun g' hm => h.high g' (List.mem_of_mem_erase hm),?_⟩
  · intro g' hm
    have hboth : Disjoint g'.area (cells b.frm ∪ g.area) :=
      Set.disjoint_union_right.mpr ⟨h.used g' (List.mem_of_mem_erase hm),(hother g' hm).symm⟩
    exact hboth.mono_right hcells
  · intro c hc
    rcases hcells hc with hold | hback
    · exact h.free c hold
    · exact h.high g hg c hback

theorem Sound.step {b b' : Book} {es : List Call} {e : Call} (h : Sound b) (hok : Proper es b e)
    (ht : step b e = some b') : Sound b' := by
  cases e with
  | alloc itvl len =>
    simp only [Grants.step,Option.some.injEq] at ht
    subst ht
    exact h.alloc itvl len
  | free g =>
    simp only [Grants.step,Option.some.injEq] at ht
    subst ht
    exact h.release hok

theorem run_sound {es : List Call} {b : Book} (h : Run step Proper .init es b) : Sound b :=
  @Run.invariant _ _ _ _ _ _ _ (fun _ b => Sound b) h Sound.init
    fun _ _ _ _ _ hs hok ht => Sound.step hs hok ht

/-- In every run the outstanding triples are pairwise disjoint, keep off the first four
symbols of a frame, and all their bits are clear. -/
theorem run_apart {es : List Call} {b : Book} (h : Run step Proper .init es b) :
    b.held.Pairwise (fun g g' => Disjoint g.area g'.area) ∧
      ∀ g ∈ b.held, ∀ c ∈ g.area, 4 ≤ c.2 ∧ (b.frm c.1).getLsbD c.2 = false := by
  have hs := run_sound h
  refine ⟨hs.apart,fun g hg c hc => ⟨hs.high g hg c hc,?_⟩⟩
  have hout : c ∉ cells b.frm := Set.disjoint_left.mp (hs.used g hg) hc
  exact Bool.not_eq_true _ ▸ hout

/-- Triples of three interval classes, the first of them given back. -/
def mixedCalls : List Call := [.alloc 8 30,.alloc 2 6,.free ⟨8,4,30⟩,.alloc 4 12]

def properCheck (b : Book) : Call → Bool
  | .alloc _ len => 1 ≤ len.toNat && len.toNat ≤ 30
  | .free g => decide (g ∈ b.held)

theorem properCheck_proper (es : List Call) (b : Book) (e : Call) (h : properCheck b e = true) :
    Proper es b e := by
  cases e with
  | alloc itvl len => simpa [properCheck,Proper] using h
  | free g => simpa [properCheck,Proper] using h

theorem mixedCalls_run :
    ∃ b, Run step Proper .init mixedCalls.reverse b ∧ b.held = [⟨4,4,12⟩,⟨3,4,6⟩] := by
  obtain ⟨b,hr,hb⟩ := run_of_exec_map (checked properCheck step) Book.init mixedCalls
    (fun b => decide (b.held = [⟨4,4,12⟩,⟨3,4,6⟩])) (by decide)
  exact ⟨b,hr.of_checked properCheck_proper,of_decide_eq_true hb⟩

theorem mixed_apart :
    ∃ b, Run step Proper .init mixedCalls.reverse b ∧ b.held = [⟨4,4,12⟩,⟨3,4,6⟩] ∧
      Disjoint (footprint 4 4 12) (footprint 3 4 6) ∧
      ∀ g ∈ b.held, ∀ c ∈ g.area, 4 ≤ c.2 ∧ (b.frm c.1).getLsbD c.2 = false := by
  obtain ⟨b,hr,hheld⟩ := mixedCalls_run
  obtain ⟨hpair,hall⟩ := run_apart hr
  rw [hheld] at hpair
  have hdisj := (List.pairwise_cons.mp hpair).1 ⟨3,4,6⟩ (by simp)
  exact ⟨b,hr,hheld,hdisj,hall⟩

end Grants
end Autbus
