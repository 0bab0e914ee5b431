import Autbus.Trace
import Autbus.Nodes

/-! Where the active resources lie. A join gives a resource its configured position or
takes one from the bitmap; a departure returns the cells of either kind to the bitmap.
The resources placed from the bitmap form a ledger over its free cells. The ones with
a configured position stand outside of it. -/
namespace Autbus
namespace Placement

open Cells Frames ResTables Nodes Trace

abbrev Cell := Fin 8 × ℕ

def Active (rs : ResStateTbl) (r : UInt8) : Prop := (rs r).state ≠ 0

instance (rs : ResStateTbl) (r : UInt8) : Decidable (Active rs r) := by
  unfold Active; infer_instance

/-- The cells of a resource under its active freq code and position. -/
def foot (cfg : ResmgrConfig) (rs : ResStateTbl) (r : UInt8) : Set Cell :=
  footprint (rs r).freq (rs r).pos (cfg.resCfgTbl r).len

def Enabled (cfg : ResmgrConfig) (r : UInt8) : Prop := (cfg.resCfgTbl r).cfgState = configEnable

instance (cfg : ResmgrConfig) (r : UInt8) : Decidable (Enabled cfg r) := by
  unfold Enabled; infer_instance

/-- A resource with a configured position. -/
def Fixed (cfg : ResmgrConfig) (r : UInt8) : Prop := Enabled cfg r ∧ (cfg.resCfgTbl r).pos ≠ 0

/-- The cells of a resource at its configured position. -/
def fixedFoot (cfg : ResmgrConfig) (r : UInt8) : Set Cell :=
  footprint (cfg.resCfgTbl r).freq (cfg.resCfgTbl r).pos (cfg.resCfgTbl r).len

/-- The table index and the `resid` field agree, as the table's comment has it. -/
def Indexed (cfg : ResmgrConfig) : Prop := ∀ r, Enabled cfg r → (cfg.resCfgTbl r).resid = r

/-- The resources with a configured position are pairwise disjoint. -/
def FixedApart (cfg : ResmgrConfig) : Prop :=
  ∀ r q, r ≠ q → Fixed cfg r → Fixed cfg q → Disjoint (fixedFoot cfg r) (fixedFoot cfg q)

/-- No two active resources share a cell. -/
def ActiveApart (cn : Cn) : Prop :=
  ∀ r q, r ≠ q → Active cn.resState r → Active cn.resState q →
    Disjoint (foot cn.cfg cn.resState r) (foot cn.cfg cn.resState q)

/-- Joins of the CN and of TNs, and departures. -/
inductive Event
  | addCn (pnd : NodeInfo)
  | addTrsRes (pnd : NodeInfo) (k : ℕ)
  | deleteNode (pnd : NodeInfo) (k : ℕ)

def step (cn : Cn) : Event → Option Cn
  | .addCn pnd => some (resAddCn cn pnd).cn
  | .addTrsRes pnd k => some (resAddTrsRes cn pnd k).cn
  | .deleteNode pnd k => some (resDeleteNode cn pnd k).cn

/-- Before the first join: no resource is active and the bitmap is the initial one. -/
def Booted (cn : Cn) : Prop := (∀ r, ¬Active cn.resState r) ∧ cn.resfrm = resfrmInit

/-! ### The loops -/

theorem mem_trsIds_ne {nc : NodeConfig} {t : UInt8} (h : t ∈ trsIds nc) : t ≠ 0 := by
  have h' := (List.mem_filter.mp h).2
  exact of_decide_eq_true h'

theorem mem_nodeTrsIds_ne {cfg : ResmgrConfig} {mac : Mac} {t : UInt8} (h : t ∈ nodeTrsIds cfg mac) :
    t ≠ 0 := by
  unfold nodeTrsIds at h
  split at h
  · simp at h
  · exact mem_trsIds_ne h

theorem activeRes_eq {cfg : ResmgrConfig} {rs : ResStateTbl} {r : UInt8} (n f p : UInt8)
    (h0 : r ≠ 0) (he : Enabled cfg r) : activeRes cfg rs r n f p = Function.update rs r ⟨n,p,f,1⟩ := by
  unfold Enabled at he
  simp [activeRes,h0,he]

theorem deactiveRes_eq {rs : ResStateTbl} {r : UInt8} (h0 : r ≠ 0) :
    deactiveRes rs r = Function.update rs r {rs r with state := 0} := by
  simp [deactiveRes,h0]

theorem active_update {rs : ResStateTbl} {r q : UInt8} {n f p : UInt8} :
    Active (Function.update rs r ⟨n,p,f,1⟩) q ↔ q = r ∨ Active rs q := by
  by_cases hq : q = r
  · subst hq
    simp [Active]
  · simp [Active,hq]

theorem active_deactivate {rs : ResStateTbl} {r q : UInt8} :
    Active (Function.update rs r {rs r with state := 0}) q ↔ q ≠ r ∧ Active rs q := by
  by_cases hq : q = r
  · subst hq
    simp [Active]
  · simp [Active,hq]

theorem foot_update_self {cfg : ResmgrConfig} {rs : ResStateTbl} {r n f p : UInt8} :
    foot cfg (Function.update rs r ⟨n,p,f,1⟩) r = footprint f p (cfg.resCfgTbl r).len := by
  simp [foot]

theorem foot_update_ne {cfg : ResmgrConfig} {rs : ResStateTbl} {r q : UInt8} {v : ResState}
    (h : q ≠ r) : foot cfg (Function.update rs r v) q = foot cfg rs q := by
  simp [foot,Function.update_of_ne h]

/-- The placing step: a configured position is kept and the bitmap with it; a new one
is free, and its cells are taken. -/
theorem placeOne_some {frm frm' : ResFrm} {t t' : TrsResData} (h : placeOne frm t = (frm',some t')) :
    t'.resid = t.resid ∧ t'.len = t.len ∧
      ((t.pos ≠ 0 ∧ t' = t ∧ frm' = frm) ∨
       (t.pos = 0 ∧ footprint t'.freq t'.pos t.len ⊆ cells frm ∧
        t'.pos.toNat+t.len.toNat < 64 ∧
        cells frm' = cells frm \ taken t'.freq t'.pos t.len.toNat)) := by
  unfold placeOne at h
  by_cases hp : t.pos = 0
  · simp only [hp,ne_eq,not_true_eq_false,if_false] at h
    split at h
    · simp at h
    · cases ho : (resfrmAlloc frm t.freq t.len).out with
      | none => simp [ho] at h
      | some o =>
        obtain ⟨f,p⟩ := o
        simp only [ho,Option.map_some,Prod.mk.injEq,Option.some.injEq] at h
        obtain ⟨rfl,rfl⟩ := h
        obtain ⟨hlt,hsub,hcells⟩ := resfrmAlloc_out ho
        exact ⟨rfl,rfl,Or.inr ⟨hp,hsub,hlt,hcells⟩⟩
  · simp only [ne_eq,hp,not_false_eq_true,if_true,Prod.mk.injEq,Option.some.injEq] at h
    obtain ⟨rfl,rfl⟩ := h
    exact ⟨rfl,rfl,Or.inl ⟨hp,rfl,rfl⟩⟩

theorem placeOne_none {frm frm' : ResFrm} {t : TrsResData} (h : placeOne frm t = (frm',none)) :
    cells frm' ⊆ cells frm := by
  unfold placeOne at h
  by_cases hp : t.pos = 0
  · simp only [hp,ne_eq,not_true_eq_false,if_false] at h
    have hf : frm' = (resfrmAlloc frm t.freq t.len).frm := by
      split at h <;> exact (congrArg Prod.fst h).symm
    exact hf ▸ cells_resfrmAlloc_subset _ _ _
  · simp [hp] at h

/-! ### The ledger of the resources placed from the bitmap -/

section Invariant

variable (cfg : ResmgrConfig)

/-- The cells of a resource that is active without a configured position. -/
def dynFoot (rs : ResStateTbl) (r : UInt8) : Set Cell :=
  {c | Active rs r ∧ ¬Fixed cfg r ∧ c ∈ foot cfg rs r}

/-- What the bitmap and the active resources have in common: the resources without a
configured position are a ledger over the free cells, the others lie where the
configuration has them and clear of the first kind. -/
structure Inv (rs : ResStateTbl) (frm : ResFrm) : Prop where
  ledger : ∃ L : Ledger UInt8 Cell, L.free = cells frm ∧ L.held = dynFoot cfg rs
  placed : ∀ r, Active rs r → Fixed cfg r → foot cfg rs r = fixedFoot cfg r
  apart : ∀ r q, Active rs r → Fixed cfg r → Active rs q → ¬Fixed cfg q →
    Disjoint (foot cfg rs r) (foot cfg rs q)

variable {cfg}

theorem dynFoot_eq {rs : ResStateTbl} {r : UInt8} (hr : Active rs r) (fr : ¬Fixed cfg r) :
    dynFoot cfg rs r = foot cfg rs r := by
  ext c
  simp [dynFoot,hr,fr]

theorem dynFoot_fixed {rs : ResStateTbl} {r : UInt8} (fr : Fixed cfg r) : dynFoot cfg rs r = ∅ := by
  ext c
  simp [dynFoot,fr]

theorem dynFoot_update {rs : ResStateTbl} {r n f p : UInt8} (fr : ¬Fixed cfg r) :
    dynFoot cfg (Function.update rs r ⟨n,p,f,1⟩) =
      Function.update (dynFoot cfg rs) r (footprint f p (cfg.resCfgTbl r).len) := by
  funext q
  by_cases he : q = r
  · subst he
    rw [Function.update_self,dynFoot_eq (active_update.mpr (Or.inl rfl)) fr,foot_update_self]
  · rw [Function.update_of_ne he]
    ext c
    simp [dynFoot,active_update,he,foot_update_ne he]

theorem dynFoot_deactivate {rs : ResStateTbl} {r : UInt8} :
    dynFoot cfg (Function.update rs r {rs r with state := 0}) =
      Function.update (dynFoot cfg rs) r ∅ := by
  funext q
  by_cases he : q = r
  · subst he
    ext c
    simp [dynFoot,active_deactivate]
  · rw [Function.update_of_ne he]
    ext c
    simp [dynFoot,active_deactivate,he,foot_update_ne he]

theorem Inv.activeApart {rs : ResStateTbl} {frm : ResFrm} (h : Inv cfg rs frm) (hfix : FixedApart cfg)
    {r q : UInt8} (hne : r ≠ q) (hr : Active rs r) (hq : Active rs q) :
    Disjoint (foot cfg rs r) (foot cfg rs q) := by
  by_cases fr : Fixed cfg r
  · by_cases fq : Fixed cfg q
    · rw [h.placed r hr fr,h.placed q hq fq]
      exact hfix r q hne fr fq
    · exact h.apart r q hr fr hq fq
  · by_cases fq : Fixed cfg q
    · exact (h.apart q r hq fq hr fr).symm
    · obtain ⟨L,-,hL⟩ := h.ledger
      rw [← dynFoot_eq hr fr,← dynFoot_eq hq fq,← hL]
      exact L.apart r q hne

/-- The free cells are no active resource's that was placed from the bitmap. -/
theorem Inv.disjoint_free {rs : ResStateTbl} {frm : ResFrm} (h : Inv cfg rs frm) {r : UInt8}
    (hr : Active rs r) (fr : ¬Fixed cfg r) : Disjoint (foot cfg rs r) (cells frm) := by
  obtain ⟨L,hfree,hL⟩ := h.ledger
  rw [← dynFoot_eq hr fr,← hL,← hfree]
  exact L.unheld r

theorem Inv.shrink {rs : ResStateTbl} {frm frm' : ResFrm} (h : Inv cfg rs frm)
    (hs : cells frm' ⊆ cells frm) : Inv cfg rs frm' where
  ledger := by
    obtain ⟨L,hfree,hL⟩ := h.ledger
    exact ⟨L.leak (cells frm') (hfree ▸ hs),rfl,hL⟩
  placed := h.placed
  apart := h.apart

/-- Activate a resource at its configured position, clear of what the bitmap gave out. -/
theorem Inv.placeFixed {rs : ResStateTbl} {frm : ResFrm} (h : Inv cfg rs frm) {r n : UInt8}
    (fr : Fixed cfg r)
    (hopen : ∀ q, Active rs q → ¬Fixed cfg q → Disjoint (fixedFoot cfg r) (foot cfg rs q)) :
    Inv cfg (Function.update rs r ⟨n,(cfg.resCfgTbl r).pos,(cfg.resCfgTbl r).freq,1⟩) frm := by
  have hne : ∀ q, ¬Fixed cfg q → q ≠ r := fun q fq he => fq (he ▸ fr)
  refine ⟨?_,?_,?_⟩
  · obtain ⟨L,hfree,hL⟩ := h.ledger
    refine ⟨L,hfree,hL.trans ?_⟩
    funext q
    by_cases fq : Fixed cfg q
    · rw [dynFoot_fixed fq,dynFoot_fixed fq]
    · ext c
      simp [dynFoot,active_update,hne q fq,foot_update_ne (hne q fq)]
  · intro q hq fq
    by_cases he : q = r
    · subst he
      rw [foot_update_self,fixedFoot]
    · rw [foot_update_ne he]
      exact h.placed q ((active_update.mp hq).resolve_left he) fq
  · intro p q hp fp hq fq
    have hq' := (active_update.mp hq).resolve_left (hne q fq)
    rw [foot_update_ne (hne q fq)]
    by_cases he : p = r
    · subst he
      rw [foot_update_self]
      exact hopen q hq' fq
    · rw [foot_update_ne he]
      exact h.apart p q ((active_update.mp hp).resolve_left he) fp hq' fq

/-- Activate a resource on cells taken from the bitmap. -/
theorem Inv.placeFree {rs : ResStateTbl} {frm frm' : ResFrm} (h : Inv cfg rs frm) {r n f p : UInt8}
    (fr : ¬Fixed cfg r) (hsub : footprint f p (cfg.resCfgTbl r).len ⊆ cells frm)
    (hout : cells frm' ⊆ cells frm \ footprint f p (cfg.resCfgTbl r).len)
    (hclear : ∀ q, Active rs q → Fixed cfg q → Disjoint (fixedFoot cfg q) (cells frm)) :
    Inv cfg (Function.update rs r ⟨n,p,f,1⟩) frm' := by
  have hne : ∀ q, Fixed cfg q → q ≠ r := fun q fq he => fr (he ▸ fq)
  refine ⟨?_,?_,?_⟩
  · obtain ⟨L,hfree,hL⟩ := h.ledger
    have hS : footprint f p (cfg.resCfgTbl r).len ⊆ L.free := hfree ▸ hsub
    have hlk : cells frm' ⊆ (L.take r _ hS).free := by
      change cells frm' ⊆ L.free \ _
      rw [hfree]
      exact hout
    refine ⟨(L.take r _ hS).leak (cells frm') hlk,rfl,?_⟩
    rw [dynFoot_update fr,← hL]
    rfl
  · intro q hq fq
    rw [foot_update_ne (hne q fq)]
    exact h.placed q ((active_update.mp hq).resolve_left (hne q fq)) fq
  · intro q q' hq fq hq' fq'
    have ha := (active_update.mp hq).resolve_left (hne q fq)
    rw [foot_update_ne (hne q fq)]
    by_cases he : q' = r
    · subst he
      rw [foot_update_self,h.placed q ha fq]
      exact (hclear q ha fq).mono_right hsub
    · rw [foot_update_ne he]
      exact h.apart q q' ha fq ((active_update.mp hq').resolve_left he) fq'

/-- Release an active resource of either kind. -/
theorem Inv.release {rs : ResStateTbl} {frm frm' : ResFrm} (h : Inv cfg rs frm) {r : UInt8}
    {S : Set Cell} (hfree : cells frm' = cells frm ∪ S)
    (hS : ∀ q, q ≠ r → Active rs q → ¬Fixed cfg q → Disjoint (foot cfg rs q) S) :
    Inv cfg (Function.update rs r {rs r with state := 0}) frm' := by
  refine ⟨?_,?_,?_⟩
  · obtain ⟨L,hL0,hL⟩ := h.ledger
    have hS' : ∀ q, q ≠ r → Disjoint (L.held q) S := by
      intro q hq
      rw [hL,Set.disjoint_left]
      rintro c ⟨ha,fq,hc⟩
      exact Set.disjoint_left.mp (hS q hq ha fq) hc
    refine ⟨L.give r S hS',?_,?_⟩
    · rw [hfree,← hL0]
      rfl
    · rw [dynFoot_deactivate,← hL]
      rfl
  · intro q hq fq
    obtain ⟨hqr,ha⟩ := active_deactivate.mp hq
    rw [foot_update_ne hqr]
    exact h.placed q ha fq
  · intro p q hp fp hq fq
    obtain ⟨hpr,hap⟩ := active_deactivate.mp hp
    obtain ⟨hqr,haq⟩ := active_deactivate.mp hq
    rw [foot_update_ne hpr,foot_update_ne hqr]
    exact h.apart p q hap fp haq fq

end Invariant

/-! ### One join, one departure -/

section Loops

variable {cfg : ResmgrConfig}

/-- Before a join: if one of its resources is to be placed from the bitmap, the bitmap
offers no cell of a resource with a configured position that is active or joins too;
and the configured positions it uses are clear of what the bitmap gave out. -/
structure JoinGuard (cfg : ResmgrConfig) (rs : ResStateTbl) (frm : ResFrm) (ids : List UInt8) : Prop where
  clear : (∃ t ∈ ids, ¬Fixed cfg t) → ∀ r, Fixed cfg r → Active rs r ∨ r ∈ ids →
    Disjoint (fixedFoot cfg r) (cells frm)
  vacant : ∀ r ∈ ids, Fixed cfg r → ∀ q, Active rs q → ¬Fixed cfg q →
    Disjoint (fixedFoot cfg r) (foot cfg rs q)

theorem JoinGuard.afterFixed {rs : ResStateTbl} {frm : ResFrm} {t n f p : UInt8} {ids : List UInt8}
    (hg : JoinGuard cfg rs frm (t::ids)) (ft : Fixed cfg t) :
    JoinGuard cfg (Function.update rs t ⟨n,p,f,1⟩) frm ids where
  clear := by
    rintro ⟨d,hd,fd⟩ r fr hr
    refine hg.clear ⟨d,List.mem_cons_of_mem _ hd,fd⟩ r fr ?_
    rcases hr with hr | hr
    · rcases active_update.mp hr with rfl | hr
      · exact Or.inr (by simp)
      · exact Or.inl hr
    · exact Or.inr (List.mem_cons_of_mem _ hr)
  vacant := by
    intro r hr fr q hq fq
    have hqt : q ≠ t := fun he => fq (he ▸ ft)
    rw [foot_update_ne hqt]
    exact hg.vacant r (List.mem_cons_of_mem _ hr) fr q ((active_update.mp hq).resolve_left hqt) fq

theorem JoinGuard.afterFree {rs : ResStateTbl} {frm frm' : ResFrm} {t n f p : UInt8} {ids : List UInt8}
    (hg : JoinGuard cfg rs frm (t::ids)) (ft : ¬Fixed cfg t)
    (hsub : footprint f p (cfg.resCfgTbl t).len ⊆ cells frm) (hfrm : cells frm' ⊆ cells frm) :
    JoinGuard cfg (Function.update rs t ⟨n,p,f,1⟩) frm' ids := by
  have hclear := hg.clear ⟨t,by simp,ft⟩
  refine ⟨?_,?_⟩
  · rintro - r fr hr
    refine (hclear r fr ?_).mono_right hfrm
    rcases hr with hr | hr
    · rcases active_update.mp hr with rfl | hr
      · exact absurd fr ft
      · exact Or.inl hr
    · exact Or.inr (List.mem_cons_of_mem _ hr)
  · intro r hr fr q hq fq
    by_cases hqt : q = t
    · subst hqt
      rw [foot_update_self]
      exact (hclear r fr (Or.inr (List.mem_cons_of_mem _ hr))).mono_right hsub
    · rw [foot_update_ne hqt]
      exact hg.vacant r (List.mem_cons_of_mem _ hr) fr q ((active_update.mp hq).resolve_left hqt) fq

/-- The allocation loop keeps the invariant; the induction is over the resources still
to be placed, and the guard goes along with it. -/
theorem placeTrs_inv (hidx : Indexed cfg) {n : UInt8} {ids : List UInt8}
    (hids : ∀ t ∈ ids, t ≠ 0 ∧ Enabled cfg t) {rs : ResStateTbl} {frm : ResFrm}
    (h : Inv cfg rs frm) (hg : JoinGuard cfg rs frm ids) :
    Inv cfg (placeTrs cfg n rs frm (ids.map (trsEntry cfg))).resState
      (placeTrs cfg n rs frm (ids.map (trsEntry cfg))).resfrm := by
  induction ids generalizing rs frm with
  | nil => exact h
  | cons t ids ih =>
    obtain ⟨ht0,hte⟩ := hids t (by simp)
    have hrest : ∀ u ∈ ids, u ≠ 0 ∧ Enabled cfg u := fun u hu => hids u (List.mem_cons_of_mem _ hu)
    simp only [List.map_cons,placeTrs]
    split
    · rename_i frm' hp
      exact h.shrink (placeOne_none hp)
    · rename_i frm' t' hp
      obtain ⟨hres,hlen,hcase⟩ := placeOne_some hp
      have hres' : t'.resid = t := hres.trans (hidx t hte)
      rw [hres',activeRes_eq _ _ _ ht0 hte]
      rcases hcase with ⟨hpos,rfl,rfl⟩ | ⟨hpos,hsub,hlt,hcells⟩
      · have ft : Fixed cfg t := ⟨hte,hpos⟩
        exact ih hrest (h.placeFixed ft (hg.vacant t (by simp) ft)) (hg.afterFixed ft)
      · have ft : ¬Fixed cfg t := fun hf => hf.2 hpos
        have hout : cells frm' ⊆ cells frm \ footprint t'.freq t'.pos (cfg.resCfgTbl t).len := by
          have hlen' : t'.pos.toNat+(cfg.resCfgTbl t).len.toNat ≤ 64 := Nat.le_of_lt hlt
          rw [hcells]
          exact Set.sdiff_subset_sdiff_right (footprint_subset_taken hlen')
        refine ih hrest (h.placeFree ft hsub hout ?_)
          (hg.afterFree ft hsub (hout.trans Set.sdiff_subset))
        exact fun q hq fq => hg.clear ⟨t,by simp,ft⟩ q fq (Or.inl hq)

/-- The release loop keeps the invariant when every entry is clear of the other
resources placed from the bitmap. -/
theorem releaseDel_inv {ds : List DelResData} {rs : ResStateTbl} {frm : ResFrm} (h : Inv cfg rs frm)
    (h0 : ∀ d ∈ ds, d.resid ≠ 0)
    (hd : ∀ d ∈ ds, ∀ q, q ≠ d.resid → Active rs q → ¬Fixed cfg q →
      Disjoint (foot cfg rs q) (footprint d.freq d.pos d.len)) :
    Inv cfg (releaseDel rs frm ds).1 (releaseDel rs frm ds).2 := by
  induction ds generalizing rs frm with
  | nil => exact h
  | cons d ds ih =>
    rw [releaseDel,deactiveRes_eq (h0 d (by simp))]
    refine ih (h.release (cells_resfrmFree frm d.freq d.pos d.len) ?_)
      (fun e he => h0 e (List.mem_cons_of_mem _ he)) ?_
    · intro q hq ha fq
      exact (hd d (by simp) q hq ha fq).mono_right Set.inter_subset_left
    · intro e he q hq ha fq
      obtain ⟨hqd,ha⟩ := active_deactivate.mp ha
      rw [foot_update_ne hqd]
      exact hd e (List.mem_cons_of_mem _ he) q hq ha fq

theorem mem_getDelResConfig {rs : ResStateTbl} {mac : Mac} {d : DelResData}
    (h : d ∈ getDelResConfig cfg rs mac) :
    d.resid ∈ nodeTrsIds cfg mac ∧ Active rs d.resid ∧ d = delEntry cfg rs d.resid := by
  obtain ⟨t,ht,rfl⟩ := List.mem_map.mp h
  obtain ⟨hmem,ha⟩ := List.mem_filter.mp ht
  exact ⟨hmem,of_decide_eq_true ha,rfl⟩

theorem delete_inv (hfix : FixedApart cfg) {rs : ResStateTbl} {frm : ResFrm} {mac : Mac}
    (h : Inv cfg rs frm) :
    Inv cfg (releaseDel rs frm (getDelResConfig cfg rs mac)).1
      (releaseDel rs frm (getDelResConfig cfg rs mac)).2 := by
  refine releaseDel_inv h (fun d hd => mem_nodeTrsIds_ne (mem_getDelResConfig hd).1) ?_
  intro d hd q hq ha fq
  obtain ⟨-,had,he⟩ := mem_getDelResConfig hd
  rw [he]
  exact h.activeApart hfix hq ha had

theorem mem_enabledTrs {mac : Mac} {t : UInt8} (h : t ∈ enabledTrs cfg mac) : t ≠ 0 ∧ Enabled cfg t := by
  obtain ⟨hmem,he⟩ := List.mem_filter.mp h
  exact ⟨mem_nodeTrsIds_ne hmem,by simpa [Enabled] using he⟩

end Loops

/-! ### Runs -/

/-- The guard of a run: every join meets `JoinGuard` in the state before it. -/
def Guard : List Event → Cn → Event → Prop
  | _, cn, .addCn pnd => JoinGuard cn.cfg cn.resState cn.resfrm (enabledTrs cn.cfg pnd.mac)
  | _, cn, .addTrsRes pnd _ => JoinGuard cn.cfg cn.resState cn.resfrm (enabledTrs cn.cfg pnd.mac)
  | _, _, .deleteNode _ _ => True

@[simp] theorem resAddCn_cfg (cn : Cn) (pnd : NodeInfo) : (resAddCn cn pnd).cn.cfg = cn.cfg := by
  unfold resAddCn
  split <;> rfl

@[simp] theorem resAddTrsRes_cfg (cn : Cn) (pnd : NodeInfo) (k : ℕ) :
    (resAddTrsRes cn pnd k).cn.cfg = cn.cfg := by
  unfold resAddTrsRes
  dsimp only
  split
  · rfl
  · split <;> rfl

@[simp] theorem resDeleteNode_cfg (cn : Cn) (pnd : NodeInfo) (k : ℕ) :
    (resDeleteNode cn pnd k).cn.cfg = cn.cfg := by
  unfold resDeleteNode
  dsimp only
  split
  · rfl
  · split <;> rfl

theorem getTrsResConfig_nil {cfg : ResmgrConfig} {mac : Mac} (h : getNodeResId cfg mac = none) :
    getTrsResConfig cfg mac = [] := by
  have hn : findNode cfg mac = none := by simpa [getNodeResId] using h
  simp [getTrsResConfig,enabledTrs,nodeTrsIds,hn]

/-- A join of the CN runs the allocation loop over its list. -/
theorem resAddCn_res (cn : Cn) (pnd : NodeInfo) :
    (resAddCn cn pnd).cn.resState =
        (placeTrs cn.cfg pnd.nindx cn.resState cn.resfrm (getTrsResConfig cn.cfg pnd.mac)).resState ∧
      (resAddCn cn pnd).cn.resfrm =
        (placeTrs cn.cfg pnd.nindx cn.resState cn.resfrm (getTrsResConfig cn.cfg pnd.mac)).resfrm := by
  unfold resAddCn
  split
  · rename_i hnone
    rw [getTrsResConfig_nil hnone]
    exact ⟨rfl,rfl⟩
  · exact ⟨rfl,rfl⟩

theorem resAddTrsRes_res (cn : Cn) (pnd : NodeInfo) (k : ℕ) :
    (resAddTrsRes cn pnd k).cn.resState =
        (placeTrs cn.cfg pnd.nindx cn.resState cn.resfrm (getTrsResConfig cn.cfg pnd.mac)).resState ∧
      (resAddTrsRes cn pnd k).cn.resfrm =
        (placeTrs cn.cfg pnd.nindx cn.resState cn.resfrm (getTrsResConfig cn.cfg pnd.mac)).resfrm := by
  unfold resAddTrsRes
  dsimp only
  split
  · rename_i hnil
    rw [hnil]
    exact ⟨rfl,rfl⟩
  · split <;> exact ⟨rfl,rfl⟩

theorem resDeleteNode_res (cn : Cn) (pnd : NodeInfo) (k : ℕ) :
    (resDeleteNode cn pnd k).cn.resState =
        (releaseDel cn.resState cn.resfrm (getDelResConfig cn.cfg cn.resState pnd.mac)).1 ∧
      (resDeleteNode cn pnd k).cn.resfrm =
        (releaseDel cn.resState cn.resfrm (getDelResConfig cn.cfg cn.resState pnd.mac)).2 := by
  unfold resDeleteNode
  dsimp only
  split
  · rename_i hnil
    rw [hnil]
    exact ⟨rfl,rfl⟩
  · split <;> exact ⟨rfl,rfl⟩

theorem inv_booted {cn : Cn} (h : Booted cn) : Inv cn.cfg cn.resState cn.resfrm where
  ledger := by
    refine ⟨⟨fun _ => ∅,cells cn.resfrm,by simp,by simp⟩,rfl,?_⟩
    funext r
    ext c
    simp [dynFoot,h.1 r]
  placed r hr := absurd hr (h.1 r)
  apart r _ hr := absurd hr (h.1 r)

theorem step_inv {cn cn' : Cn} {e : Event} {es : List Event} (hidx : Indexed cn.cfg)
    (hfix : FixedApart cn.cfg) (h : Inv cn.cfg cn.resState cn.resfrm) (hg : Guard es cn e)
    (hs : step cn e = some cn') : cn'.cfg = cn.cfg ∧ Inv cn.cfg cn'.resState cn'.resfrm := by
  cases e with
  | addCn pnd =>
    obtain rfl := Option.some.inj hs
    obtain ⟨h1,h2⟩ := resAddCn_res cn pnd
    refine ⟨resAddCn_cfg cn pnd,?_⟩
    rw [h1,h2]
    exact placeTrs_inv hidx (fun t => mem_enabledTrs) h hg
  | addTrsRes pnd k =>
    obtain rfl := Option.some.inj hs
    obtain ⟨h1,h2⟩ := resAddTrsRes_res cn pnd k
    refine ⟨resAddTrsRes_cfg cn pnd k,?_⟩
    rw [h1,h2]
    exact placeTrs_inv hidx (fun t => mem_enabledTrs) h hg
  | deleteNode pnd k =>
    obtain rfl := Option.some.inj hs
    obtain ⟨h1,h2⟩ := resDeleteNode_res cn pnd k
    refine ⟨resDeleteNode_cfg cn pnd k,?_⟩
    rw [h1,h2]
    exact delete_inv hfix h

theorem run_inv {cn₀ cn : Cn} {es : List Event} (hidx : Indexed cn₀.cfg) (hfix : FixedApart cn₀.cfg)
    (h0 : Booted cn₀) (hrun : Run step Guard cn₀ es cn) :
    cn.cfg = cn₀.cfg ∧ Inv cn.cfg cn.resState cn.resfrm := by
  refine hrun.invariant (I:=fun _ cn => cn.cfg = cn₀.cfg ∧ Inv cn.cfg cn.resState cn.resfrm)
    ⟨rfl,inv_booted h0⟩ ?_
  rintro es cn e cn' - ⟨hc,hi⟩ hg hs
  obtain ⟨hc',hi'⟩ := step_inv (hc ▸ hidx) (hc ▸ hfix) hi hg hs
  exact ⟨hc'.trans hc,hc' ▸ hi'⟩

theorem run_activeApart {cn₀ cn : Cn} {es : List Event} (hidx : Indexed cn₀.cfg)
    (hfix : FixedApart cn₀.cfg) (h0 : Booted cn₀) (hrun : Run step Guard cn₀ es cn) :
    ActiveApart cn := by
  obtain ⟨hc,hi⟩ := run_inv hidx hfix h0 hrun
  have hfix' : FixedApart cn.cfg := hc ▸ hfix
  intro r q hne hr hq
  exact hi.activeApart hfix' hne hr hq

/-! ### A fixed and a placed resource -/

def cnMac : Mac := 0x020000000001#48
def tnMac : Mac := 0x020000000002#48

/-- The CN transmits on resource 1 at `pos`, a TN on resource 3, whose place is left
to the bitmap. Both cover every frame. -/
def mixedConfig (pos len : UInt8) : ResmgrConfig where
  resCfgTbl := fun r =>
    if r = 1 then ⟨1,0,1,len,configEnable,0,pos⟩
    else if r = 3 then ⟨3,0,1,8,configEnable,0,0⟩ else zeroRes
  nodeCfgTbl := fun i =>
    if i = 0 then ⟨cnMac,configEnable,0,fun j => if j = 0 then 1 else 0,fun _ => 0⟩
    else if i = 1 then ⟨tnMac,configEnable,0,fun j => if j = 0 then 3 else 0,fun _ => 0⟩
    else zeroNode

def mixedCn (pos len : UInt8) : Cn where
  cfg := mixedConfig pos len
  resState := fun _ => zeroState
  resfrm := resfrmInit
  ackFlag := initAckFlag
  ncn := []
  reqSessn := 0
  resHold := fun _ => 0
  preRes := ⟨0,0,0,0,0⟩
  mac := cnMac
  rcvall := 0
  trsResId := fun _ => 0
  rcvResId := fun _ => 0

def cnNode : NodeInfo := ⟨0,0,cnMac,.addFinish,false,false,0⟩
def tnNode : NodeInfo := ⟨2,5,tnMac,.waitAck,false,false,0⟩

theorem mixed_enabled {pos len r : UInt8} (h : Enabled (mixedConfig pos len) r) : r = 1 ∨ r = 3 := by
  unfold Enabled mixedConfig at h
  by_cases h1 : r = 1
  · exact Or.inl h1
  · by_cases h3 : r = 3
    · exact Or.inr h3
    · simp [h1,h3,zeroRes,configEnable] at h

theorem mixed_fixed {pos len r : UInt8} (h : Fixed (mixedConfig pos len) r) : r = 1 := by
  rcases mixed_enabled h.1 with h1 | h3
  · exact h1
  · subst h3
    exact absurd rfl h.2

theorem mixed_indexed (pos len : UInt8) : Indexed (mixedConfig pos len) := by
  intro r hr
  rcases mixed_enabled hr with h1 | h3
  · subst h1
    rfl
  · subst h3
    rfl

theorem mixed_fixedApart (pos len : UInt8) : FixedApart (mixedConfig pos len) := by
  intro r q hne hr hq
  exact absurd ((mixed_fixed hr).trans (mixed_fixed hq).symm) hne

theorem mixed_booted (pos len : UInt8) : Booted (mixedCn pos len) :=
  ⟨fun _ h => h rfl,rfl⟩

/-- With the CN inside the symbols it keeps for itself, the two joins meet the guard. -/
theorem mixed_activeApart :
    ∃ es cn, Run step Guard (mixedCn 1 3) es cn ∧ ActiveApart cn ∧
      Active cn.resState 1 ∧ Active cn.resState 3 := by
  let cn₁ := (resAddCn (mixedCn 1 3) cnNode).cn
  let cn₂ := (resAddTrsRes cn₁ tnNode 1).cn
  have hg₁ : Guard [] (mixedCn 1 3) (.addCn cnNode) := by
    have hids : enabledTrs (mixedConfig 1 3) cnMac = [1] := by decide
    refine ⟨?_,?_⟩
    · rintro ⟨t,ht,ft⟩
      have ht' : t = 1 := by simpa [hids] using (show t ∈ enabledTrs (mixedConfig 1 3) cnMac from ht)
      subst ht'
      exact absurd ⟨rfl,by decide⟩ ft
    · intro r hr fr q hq
      exact absurd rfl hq
  have hg₂ : Guard [.addCn cnNode] cn₁ (.addTrsRes tnNode 1) := by
    have hids : enabledTrs (mixedConfig 1 3) tnMac = [3] := by decide
    have hfrm : cn₁.resfrm = resfrmInit := by decide
    refine ⟨?_,?_⟩
    · rintro - r fr -
      have hr : r = 1 := @mixed_fixed 1 3 r fr
      subst hr
      rw [hfrm,Set.disjoint_left]
      rintro ⟨i,s⟩ ⟨-,hlo,hhi⟩ hc
      have hs : s < 4 := hhi
      have hc' : (~~~0xF#64).getLsbD s = true := hc
      interval_cases s <;> simp at hc'
    · intro r hr fr
      have hr' : r = 3 := by simpa [hids] using (show r ∈ enabledTrs (mixedConfig 1 3) tnMac from hr)
      have := @mixed_fixed 1 3 r fr
      subst hr'
      exact absurd this (by decide)
  have hrun : Run step Guard (mixedCn 1 3) [.addTrsRes tnNode 1,.addCn cnNode] cn₂ :=
    .cons (.cons .nil hg₁ rfl) hg₂ rfl
  refine ⟨_,cn₂,hrun,?_,?_,?_⟩
  · exact run_activeApart (mixed_indexed 1 3) (mixed_fixedApart 1 3) (mixed_booted 1 3) hrun
  · decide
  · decide

/-- With the CN at symbol 4 both resources end up on the same cells. -/
theorem mixed_overlap :
    ∃ cn₀ es cn, Indexed cn₀.cfg ∧ FixedApart cn₀.cfg ∧ Booted cn₀ ∧ Run step anyStep cn₀ es cn ∧
      ¬ActiveApart cn := by
  obtain ⟨cn,hrun,hp⟩ := run_of_exec_map step (mixedCn 4 8)
    [.addCn cnNode,.addTrsRes tnNode 1]
    (fun cn => decide (cn.resState 1 = ⟨0,4,1,1⟩ ∧ cn.resState 3 = ⟨5,4,1,1⟩ ∧
      (cn.cfg.resCfgTbl 1).len = 8 ∧ (cn.cfg.resCfgTbl 3).len = 8)) (by decide)
  obtain ⟨h1,h3,hl1,hl3⟩ := of_decide_eq_true hp
  refine ⟨_,_,cn,mixed_indexed 4 8,mixed_fixedApart 4 8,mixed_booted 4 8,hrun,?_⟩
  intro hap
  have hd := hap 1 3 (by decide) (by simp [Active,h1]) (by simp [Active,h3])
  have hmem : ((0,4) : Cell) ∈ footprint 1 4 8 := ⟨rfl,by decide,by decide⟩
  rw [foot,foot,h1,h3,hl1,hl3] at hd
  exact Set.disjoint_left.mp hd hmem hmem

end Placement
end Autbus
