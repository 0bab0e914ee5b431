import Autbus.FirstFit
import Autbus.Placement

/-! A join that gives up: what its allocation loop has done before a resource got no place. -/
namespace Autbus
namespace Refusals

open Cells Frames ResTables Nodes Placement

section Writes

variable {K V : Type} [DecidableEq K]

/-- One value written after another. -/
def write (f : K → V) (ws : List (K × V)) : K → V := ws.foldl (fun f w => Function.update f w.1 w.2) f

/-- The last value written for a key is the one it has. -/
def Holds (f : K → V) (ws : List (K × V)) : Prop :=
  ∀ l₁ w l₂, ws = l₁ ++ w::l₂ → (∀ x ∈ l₂, x.1 ≠ w.1) → f w.1 = w.2

theorem write_other (f : K → V) {ws : List (K × V)} {k : K} (h : ∀ x ∈ ws, x.1 ≠ k) : write f ws k = f k := by
  induction ws generalizing f with
  | nil => rfl
  | cons w ws ih =>
    have hne : k ≠ w.1 := fun heq => h w List.mem_cons_self heq.symm
    have hrest := ih (Function.update f w.1 w.2) fun x hx => h x (List.mem_cons_of_mem _ hx)
    exact hrest.trans (Function.update_of_ne hne _ _)

theorem write_last (f : K → V) (l₁ : List (K × V)) {w : K × V} {l₂ : List (K × V)} (h : ∀ x ∈ l₂, x.1 ≠ w.1) :
    write f (l₁ ++ w::l₂) w.1 = w.2 := by
  have hsplit : write f (l₁ ++ w::l₂) = write (Function.update (write f l₁) w.1 w.2) l₂ := by
    unfold write
    rw [List.foldl_append,List.foldl_cons]
  rw [hsplit,write_other _ h,Function.update_self]

/-- A key that is written has a last write. -/
theorem exists_last {ws : List (K × V)} {k : K} (hk : ∃ x ∈ ws, x.1 = k) :
    ∃ l₁ w l₂, ws = l₁ ++ w::l₂ ∧ w.1 = k ∧ ∀ x ∈ l₂, x.1 ≠ k := by
  induction ws with
  | nil =>
    obtain ⟨x,hx,-⟩ := hk
    exact absurd hx List.not_mem_nil
  | cons y ws ih =>
    by_cases hlater : ∃ x ∈ ws, x.1 = k
    · obtain ⟨l₁,w,l₂,rfl,hw,hlast⟩ := ih hlater
      exact ⟨y::l₁,w,l₂,rfl,hw,hlast⟩
    · obtain ⟨x,hx,hxk⟩ := hk
      have hy : y.1 = k := by
        rcases List.mem_cons.mp hx with rfl | hmem
        · exact hxk
        · exact absurd ⟨x,hmem,hxk⟩ hlater
      exact ⟨[],y,ws,rfl,hy,fun x hx heq => hlater ⟨x,hx,heq⟩⟩

theorem write_same_iff (f : K → V) (ws : List (K × V)) : write f ws = f ↔ Holds f ws := by
  constructor
  · intro h l₁ w l₂ hws hlast
    rw [hws] at h
    exact (congrFun h w.1).symm.trans (write_last f l₁ hlast)
  · intro h
    funext k
    by_cases hk : ∃ x ∈ ws, x.1 = k
    · obtain ⟨l₁,w,l₂,rfl,rfl,hlast⟩ := exists_last hk
      rw [write_last f l₁ hlast]
      exact (h l₁ w l₂ rfl hlast).symm
    · exact write_other f fun x hx heq => hk ⟨x,hx,heq⟩

end Writes
/-! ### The allocation loop -/

/-- The records that `active_res` makes of resources with their places. -/
def records (cfg : ResmgrConfig) (nindx : UInt8) (ts : List TrsResData) : List (UInt8 × ResState) :=
  (ts.filter fun t => t.resid ≠ 0 ∧ (cfg.resCfgTbl t.resid).cfgState = configEnable).map fun t =>
    (t.resid,⟨nindx,t.pos,t.freq,1⟩)

/-- The resources with the places they have, or get from the bitmap as it is. -/
def places (frm : ResFrm) (ts : List TrsResData) : List TrsResData := ts.filterMap fun t => (placeOne frm t).2

/-- To place the resource takes no symbol. -/
def Free (frm : ResFrm) (t : TrsResData) : Prop :=
  t.pos ≠ 0 ∨ t.len = 0 ∧ (resfrmAlloc frm t.freq t.len).iret = 0

/-- The resource gets no place, and the attempt takes no symbol. -/
def Refused (frm : ResFrm) (t : TrsResData) : Prop :=
  t.pos = 0 ∧ (resfrmAlloc frm t.freq t.len).iret ≠ 0 ∧ (resfrmAlloc frm t.freq t.len).frm = frm

/-- All that comes before the resource that gets no place takes nothing and is recorded already. -/
def Spared (cfg : ResmgrConfig) (nindx : UInt8) (rs : ResStateTbl) (frm : ResFrm) (ts : List TrsResData) : Prop :=
  ∃ pre t post, ts = pre ++ t::post ∧ (∀ u ∈ pre, Free frm u) ∧ Refused frm t ∧
    Holds rs (records cfg nindx (places frm pre))

section Loop

variable {cfg : ResmgrConfig} {n : UInt8} {rs : ResStateTbl} {frm : ResFrm} {t : TrsResData} {ts : List TrsResData}

theorem activeRes_write (cfg : ResmgrConfig) (rs : ResStateTbl) (t : TrsResData) (n : UInt8) :
    activeRes cfg rs t.resid n t.freq t.pos = write rs (records cfg n [t]) := by
  unfold activeRes records
  by_cases h0 : t.resid = 0
  · simp [h0,write]
  · by_cases hen : (cfg.resCfgTbl t.resid).cfgState = configEnable
    · simp [h0,hen,write]
    · simp [h0,hen,write]

/-- A request for no symbols takes none. -/
theorem resfrmAlloc_zero (frm : ResFrm) (itvl : UInt8) : (resfrmAlloc frm itvl 0).frm = frm := by
  cases hout : (resfrmAlloc frm itvl 0).out with
  | none => exact (resfrmAlloc_out_none hout).2
  | some b =>
    obtain ⟨-,-,hcells⟩ := resfrmAlloc_out hout
    have hempty : taken b.1 b.2 (0 : UInt8).toNat = ∅ := by
      refine Set.subset_empty_iff.mp ((taken_subset_footprint (by decide)).trans ?_)
      rintro ⟨i,s⟩ ⟨-,hlo,hhi⟩
      exact absurd hhi (not_lt.mpr hlo)
    rw [hempty,Set.sdiff_empty] at hcells
    exact cells_injective hcells

/-- A place that is given out has a symbol, which is free no more. -/
theorem resfrmAlloc_changes {itvl len : UInt8} (hlen : 1 ≤ len.toNat) (h : (resfrmAlloc frm itvl len).iret = 0) :
    (resfrmAlloc frm itvl len).frm ≠ frm := by
  obtain ⟨⟨freq,pos⟩,hout⟩ := Option.isSome_iff_exists.mp (FirstFit.resfrmAlloc_iret.mp h).1
  obtain ⟨hend,hfree,hcells⟩ := resfrmAlloc_out hout
  obtain ⟨c,hfirst,hframes⟩ := FirstFit.resfrmAlloc_first hlen hout
  have hc : c < 8 := by
    have hlt := hfirst.lt
    rcases roundItvl_cases itvl with hr | hr | hr | hr <;> omega
  have hcell : ((⟨c,hc⟩ : Fin 8),pos.toNat) ∈ footprint freq pos len := by
    refine ⟨(hframes ⟨c,hc⟩).mpr (Nat.mod_eq_of_lt hfirst.lt),le_refl _,?_⟩
    dsimp only
    omega
  intro hsame
  have hleft := hfree hcell
  rw [← hsame,hcells] at hleft
  exact hleft.2 (footprint_subset_taken (by omega) hcell)

theorem Free.placeOne (h : Free frm t) : ∃ u, placeOne frm t = (frm,some u) := by
  unfold Nodes.placeOne
  by_cases hpos : t.pos ≠ 0
  · rw [if_pos hpos]
    exact ⟨t,rfl⟩
  · obtain ⟨hlen,hiret⟩ := h.resolve_left hpos
    obtain ⟨o,hout⟩ := Option.isSome_iff_exists.mp (FirstFit.resfrmAlloc_iret.mp hiret).1
    rw [if_neg hpos]
    dsimp only
    rw [if_neg (not_not.mpr hiret),hout,hlen,resfrmAlloc_zero]
    exact ⟨_,rfl⟩

/-- The loop up to the resource that gets no place. -/
theorem placeTrs_spared {pre post : List TrsResData} (hpre : ∀ u ∈ pre, Free frm u) (ht : Refused frm t) :
    (placeTrs cfg n rs frm (pre ++ t::post)).resfrm = frm ∧
      (placeTrs cfg n rs frm (pre ++ t::post)).resState = write rs (records cfg n (places frm pre)) := by
  induction pre generalizing rs with
  | nil =>
    obtain ⟨hpos,hiret,hsame⟩ := ht
    have hone : placeOne frm t = (frm,none) := by
      unfold placeOne
      rw [if_neg (not_not.mpr hpos)]
      dsimp only
      rw [if_pos hiret,hsame]
    rw [List.nil_append,placeTrs,hone]
    exact ⟨rfl,rfl⟩
  | cons u pre ih =>
    obtain ⟨v,hv⟩ := (hpre u List.mem_cons_self).placeOne
    obtain ⟨hfrm,hrs⟩ := @ih (activeRes cfg rs v.resid n v.freq v.pos) fun w hw =>
      hpre w (List.mem_cons_of_mem _ hw)
    have hplaces : places frm (u::pre) = v::places frm pre := by
      unfold places
      rw [List.filterMap_cons,hv]
    have hwrite : write (activeRes cfg rs v.resid n v.freq v.pos) (records cfg n (places frm pre)) =
        write rs (records cfg n (v::places frm pre)) := by
      rw [activeRes_write]
      unfold write records
      rw [← List.foldl_append,← List.map_append,← List.filter_append]
      rfl
    rw [List.cons_append,placeTrs,hv,hplaces,← hwrite]
    exact ⟨hfrm,hrs⟩

theorem cells_placeTrs_subset (rs : ResStateTbl) (frm : ResFrm) (ts : List TrsResData) :
    cells (placeTrs cfg n rs frm ts).resfrm ⊆ cells frm := by
  induction ts generalizing rs frm with
  | nil => exact subset_rfl
  | cons t ts ih =>
    rw [placeTrs]
    cases hone : placeOne frm t with
    | mk frm' o =>
      cases o with
      | none => exact placeOne_none hone
      | some u =>
        refine (ih _ _).trans ?_
        obtain ⟨-,-,⟨-,-,rfl⟩ | ⟨-,-,-,hcells⟩⟩ := placeOne_some hone
        · exact subset_rfl
        · rw [hcells]
          exact Set.sdiff_subset

/-- A loop that stops short and leaves the bitmap as it was has taken nothing on its way. -/
theorem placeTrs_stopped (hok : (placeTrs cfg n rs frm ts).ok = false)
    (hsame : (placeTrs cfg n rs frm ts).resfrm = frm) :
    ∃ pre t post, ts = pre ++ t::post ∧ (∀ u ∈ pre, Free frm u) ∧ Refused frm t := by
  induction ts generalizing rs with
  | nil => cases hok
  | cons t ts ih =>
    have hrest : ∀ u, placeOne frm t = (frm,some u) → Free frm t →
        ∃ pre t' post, t::ts = pre ++ t'::post ∧ (∀ u ∈ pre, Free frm u) ∧ Refused frm t' := by
      intro u hone hfree
      rw [placeTrs,hone] at hok hsame
      obtain ⟨pre,t',post,rfl,hpre,ht'⟩ := ih hok hsame
      exact ⟨t::pre,t',post,rfl,List.forall_mem_cons.mpr ⟨hfree,hpre⟩,ht'⟩
    by_cases hpos : t.pos ≠ 0
    · exact hrest t (by rw [placeOne,if_pos hpos]) (Or.inl hpos)
    · have hone : placeOne frm t = ((resfrmAlloc frm t.freq t.len).frm,(placeOne frm t).2) := by
        refine Prod.ext ?_ rfl
        rw [placeOne,if_neg hpos]
        dsimp only
        split
        · rfl
        · rfl
      by_cases hiret : (resfrmAlloc frm t.freq t.len).iret = 0
      · cases hu : (placeOne frm t).2 with
        | none =>
          obtain ⟨o,hout⟩ := Option.isSome_iff_exists.mp (FirstFit.resfrmAlloc_iret.mp hiret).1
          rw [placeOne,if_neg hpos] at hu
          dsimp only at hu
          rw [if_neg (not_not.mpr hiret),hout] at hu
          cases hu
        | some u =>
          rw [hu] at hone
          -- what this resource has taken stays taken
          have hfrm : (resfrmAlloc frm t.freq t.len).frm = frm := by
            rw [placeTrs,hone] at hsame
            have hsub : cells (placeTrs cfg n (activeRes cfg rs u.resid n u.freq u.pos)
                (resfrmAlloc frm t.freq t.len).frm ts).resfrm ⊆ cells (resfrmAlloc frm t.freq t.len).frm :=
              cells_placeTrs_subset _ _ ts
            dsimp only at hsame
            rw [hsame] at hsub
            exact cells_injective (Set.Subset.antisymm (cells_resfrmAlloc_subset _ _ _) hsub)
          have hlen : t.len = 0 := by
            by_contra hne
            have hpos : t.len.toNat ≠ 0 := fun hz => hne (UInt8.toNat_inj.mp hz)
            exact resfrmAlloc_changes (by omega) hiret hfrm
          rw [hfrm] at hone
          exact hrest u hone (Or.inr ⟨hlen,hiret⟩)
      · have hnone : (placeOne frm t).2 = none := by
          rw [placeOne,if_neg hpos]
          dsimp only
          rw [if_pos hiret]
        rw [hnone] at hone
        rw [placeTrs,hone] at hsame
        exact ⟨[],t,ts,rfl,fun u hu => absurd hu List.not_mem_nil,not_not.mp hpos,hiret,hsame⟩

end Loop

/-! ### A join that gives up -/

/-- The node has resources to send and one of them gets no place. -/
def GivesUp (cn : Cn) (pnd : NodeInfo) (k : ℕ) : Prop :=
  getTrsResConfig cn.cfg pnd.mac ≠ [] ∧ (resAddTrsRes cn pnd k).req.isNone = true

theorem GivesUp.ok {cn : Cn} {pnd : NodeInfo} {k : ℕ} (h : GivesUp cn pnd k) :
    (placeTrs cn.cfg pnd.nindx cn.resState cn.resfrm (getTrsResConfig cn.cfg pnd.mac)).ok = false := by
  obtain ⟨htrs,hreq⟩ := h
  unfold resAddTrsRes at hreq
  rw [if_neg htrs] at hreq
  by_contra hok
  dsimp only at hreq
  rw [Bool.eq_true_of_not_eq_false hok] at hreq
  cases hreq

theorem restored_iff {cn : Cn} {pnd : NodeInfo} {k : ℕ} (h : GivesUp cn pnd k) :
    ((resAddTrsRes cn pnd k).cn.resfrm = cn.resfrm ∧ (resAddTrsRes cn pnd k).cn.resState = cn.resState) ↔
      Spared cn.cfg pnd.nindx cn.resState cn.resfrm (getTrsResConfig cn.cfg pnd.mac) := by
  obtain ⟨hrs,hfrm⟩ := resAddTrsRes_res cn pnd k
  rw [hrs,hfrm]
  constructor
  · rintro ⟨hsame,hstate⟩
    obtain ⟨pre,t,post,hts,hpre,ht⟩ := placeTrs_stopped h.ok hsame
    refine ⟨pre,t,post,hts,hpre,ht,(write_same_iff _ _).mp ?_⟩
    rw [hts,(placeTrs_spared hpre ht).2] at hstate
    exact hstate
  · rintro ⟨pre,t,post,hts,hpre,ht,hholds⟩
    rw [hts]
    refine ⟨(placeTrs_spared hpre ht).1,?_⟩
    rw [(placeTrs_spared hpre ht).2]
    exact (write_same_iff _ _).mpr hholds

/-- The TN sends resource 1, of `len` symbols, and resource 2, of 60, both in every frame. -/
def wideCn (len : UInt8) : Cn :=
  {mixedCn 0 0 with
    cfg :=
      ⟨fun r => if r = 1 then ⟨1,0,1,len,configEnable,0,0⟩ else if r = 2 then ⟨2,0,1,60,configEnable,0,0⟩ else zeroRes,
        fun i => if i = 0 then
          ⟨tnMac,configEnable,0,fun j => if j = 0 then 1 else if j = 1 then 2 else 0,fun _ => 0⟩ else zeroNode⟩}

/-- Nothing is lost when the first resource gets no place. -/
theorem first_restored : GivesUp (wideCn 60) tnNode 1 ∧
    (resAddTrsRes (wideCn 60) tnNode 1).cn.resfrm = (wideCn 60).resfrm ∧
      (resAddTrsRes (wideCn 60) tnNode 1).cn.resState = (wideCn 60).resState := by
  have hgives : GivesUp (wideCn 60) tnNode 1 := ⟨by decide,by decide⟩
  have htrs : getTrsResConfig (wideCn 60).cfg tnNode.mac = [⟨1,0,1,0,60,0⟩,⟨2,0,1,0,60,0⟩] := by decide
  have hrefused : Refused (wideCn 60).resfrm ⟨1,0,1,0,60,0⟩ := ⟨rfl,by decide,funext (by decide)⟩
  have hspared : Spared (wideCn 60).cfg tnNode.nindx (wideCn 60).resState (wideCn 60).resfrm
      (getTrsResConfig (wideCn 60).cfg tnNode.mac) := by
    rw [htrs]
    refine ⟨[],⟨1,0,1,0,60,0⟩,[⟨2,0,1,0,60,0⟩],rfl,fun u hu => absurd hu List.not_mem_nil,hrefused,?_⟩
    intro l₁ w l₂ hnil
    exact absurd (congrArg List.length hnil) (by simp [places,records])
  exact ⟨hgives,(restored_iff hgives).mpr hspared⟩

theorem second_leaks : GivesUp (wideCn 8) tnNode 1 ∧
    ¬((resAddTrsRes (wideCn 8) tnNode 1).cn.resfrm = (wideCn 8).resfrm ∧
      (resAddTrsRes (wideCn 8) tnNode 1).cn.resState = (wideCn 8).resState) := by
  refine ⟨⟨by decide,by decide⟩,fun ⟨hsame,_⟩ => ?_⟩
  have hframe := congrFun hsame 0
  exact absurd hframe (by decide)

end Refusals
end Autbus
