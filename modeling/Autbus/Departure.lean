import Autbus.Edits

/-! What a departure gives back. The book records what `resfrm_alloc` took and for whom;
a departure goes by the current configuration instead. The two agree as long as no edit
comes between a resource and the node it is active for. -/
namespace Autbus
namespace Departure

open Cells Frames ResTables Nodes Placement Edits Trace

/-- What `resfrm_alloc` took for a resource of a node. -/
structure Reservation where
  node : UInt8
  resid : UInt8
  bits : ResFrm

/-- The bits that were set and are not any more. -/
def cleared (frm frm' : ResFrm) : ResFrm := fun i => frm i &&& ~~~frm' i

def bookOne (n : UInt8) (t : TrsResData) (frm frm' : ResFrm) : List Reservation :=
  if frm' = frm then [] else [⟨n,t.resid,cleared frm frm'⟩]

/-- What the allocation loop of a join takes, entry by entry. -/
def bookTrs (n : UInt8) : ResFrm → List TrsResData → List Reservation
  | _, [] => []
  | frm, t::ts =>
    match placeOne frm t with
    | (frm',none) => bookOne n t frm frm'
    | (frm',some _) => bookOne n t frm frm' ++ bookTrs n frm' ts

/-- The manager with two records of its past: the MAC each node joined with, and the
book of the reservations not yet given back. -/
structure Sys where
  cn : Cn
  joined : UInt8 → Option Mac
  book : List Reservation

/-- The cells reserved for a node. -/
def reserved (book : List Reservation) (n : UInt8) : Set Cell :=
  {c | ∃ b ∈ book, b.node = n ∧ c ∈ cells b.bits}

inductive Event
  | addCn (pnd : NodeInfo)
  | addTrsRes (pnd : NodeInfo) (k : ℕ)
  | deleteNode (pnd : NodeInfo) (k : ℕ)
  | edit (e : Edit)

def join (s : Sys) (pnd : NodeInfo) (cn : Cn) : Sys where
  cn := cn
  joined := Function.update s.joined pnd.nindx (some pnd.mac)
  book := s.book ++ bookTrs pnd.nindx s.cn.resfrm (getTrsResConfig s.cn.cfg pnd.mac)

def leave (s : Sys) (pnd : NodeInfo) (cn : Cn) : Sys where
  cn := cn
  joined := Function.update s.joined pnd.nindx none
  book := s.book.filter fun b => b.node ≠ pnd.nindx

def step (s : Sys) : Event → Option Sys
  | .addCn pnd => some (join s pnd (resAddCn s.cn pnd).cn)
  | .addTrsRes pnd k => some (join s pnd (resAddTrsRes s.cn pnd k).cn)
  | .deleteNode pnd k => some (leave s pnd (resDeleteNode s.cn pnd k).cn)
  | .edit e => some {s with cn := {s.cn with cfg := e.apply s.cn.cfg}}

/-- What is left of node `n` when `res_delete_node` has worked on it: nothing active,
and the cells reserved for it are free again, no others. -/
structure Departed (s : Sys) (n : UInt8) (cn : Cn) : Prop where
  inactive : ∀ r, Active cn.resState r → (cn.resState r).snode ≠ n
  cells_eq : cells cn.resfrm = cells s.cn.resfrm ∪ reserved s.book n

/-- Every departure is complete. -/
def Departs : List Event → Sys → Event → Prop
  | _, s, .deleteNode pnd k => Departed s pnd.nindx (resDeleteNode s.cn pnd k).cn
  | _, _, _ => True

/-! ### Conditions on the steps -/

/-- Along the list, a placement that fails takes nothing. -/
def NoLoss : ResFrm → List TrsResData → Prop
  | _, [] => True
  | frm, t::ts =>
    match placeOne frm t with
    | (frm',none) => frm' = frm
    | (frm',some _) => NoLoss frm' ts

instance decidableNoLoss : (frm : ResFrm) → (ts : List TrsResData) → Decidable (NoLoss frm ts)
  | _, [] => isTrue trivial
  | frm, t::ts =>
    match h : placeOne frm t with
    | (frm',none) => decidable_of_iff (frm' = frm) (by rw [NoLoss,h])
    | (frm',some _) =>
      letI := decidableNoLoss frm' ts
      decidable_of_iff (NoLoss frm' ts) (by rw [NoLoss,h])

/-- The node is new under its id and its MAC; what it asks of the bitmap is at most 31
symbols long and lost in no failure. -/
structure JoinOk (s : Sys) (pnd : NodeInfo) : Prop where
  absent : s.joined pnd.nindx = none
  newMac : ∀ n, s.joined n ≠ some pnd.mac
  short : ∀ t ∈ enabledTrs s.cn.cfg pnd.mac, ¬Fixed s.cn.cfg t → (s.cn.cfg.resCfgTbl t).len ≤ 31
  kept : NoLoss s.cn.resfrm (getTrsResConfig s.cn.cfg pnd.mac)

/-- The record is that of the node that joined, or of one that did not join. A resource
of it that took nothing from the bitmap covers free symbols. -/
structure LeaveOk (s : Sys) (pnd : NodeInfo) : Prop where
  same : s.joined pnd.nindx = some pnd.mac ∨
    (s.joined pnd.nindx = none ∧ ∀ n, s.joined n ≠ some pnd.mac)
  unbooked : ∀ r, Active s.cn.resState r → (s.cn.resState r).snode = pnd.nindx →
    (∀ b ∈ s.book, b.resid ≠ r) →
    foot s.cn.cfg s.cn.resState r ∩ {c | c.2 < 64} ⊆ cells s.cn.resfrm ∪ reserved s.book pnd.nindx

/-- An active resource stays on its node's list, and keeps its length if it took symbols
from the bitmap. -/
structure EditOk (s : Sys) (e : Edit) : Prop where
  listed : ∀ r mac, Active s.cn.resState r → s.joined (s.cn.resState r).snode = some mac →
    r ∈ nodeTrsIds (e.apply s.cn.cfg) mac
  len : ∀ b ∈ s.book, ((e.apply s.cn.cfg).resCfgTbl b.resid).len = (s.cn.cfg.resCfgTbl b.resid).len

def Guard : List Event → Sys → Event → Prop
  | _, s, .addCn pnd => JoinOk s pnd
  | _, s, .addTrsRes pnd _ => JoinOk s pnd
  | _, s, .deleteNode pnd _ => LeaveOk s pnd
  | _, s, .edit e => EditOk s e

/-! ### The book and the active resources -/

/-- Each active resource is on the list of the node it is active for, and the book has
for each reservation the cells its resource covers now. -/
structure Inv (cfg : ResmgrConfig) (rs : ResStateTbl) (joined : UInt8 → Option Mac)
    (book : List Reservation) : Prop where
  sound : Sound cfg
  listed : ∀ r, Active rs r → ∃ mac, joined (rs r).snode = some mac ∧ r ∈ nodeTrsIds cfg mac
  macs : ∀ n n' mac, joined n = some mac → joined n' = some mac → n = n'
  booked : ∀ b ∈ book, Active rs b.resid ∧ (rs b.resid).snode = b.node ∧
    cells b.bits = foot cfg rs b.resid

theorem cells_cleared (frm frm' : ResFrm) : cells (cleared frm frm') = cells frm \ cells frm' := by
  ext ⟨i,s⟩
  simp only [mem_cells,cleared,BitVec.getLsbD_and,BitVec.getLsbD_not,Bool.and_eq_true,
    decide_eq_true_eq,Bool.not_eq_true',Set.mem_sdiff,Bool.not_eq_true]
  constructor
  · rintro ⟨h,-,h'⟩
    exact ⟨h,h'⟩
  · rintro ⟨h,h'⟩
    exact ⟨h,BitVec.lt_of_getLsbD h,h'⟩

theorem bookOne_self (n : UInt8) (t : TrsResData) (frm : ResFrm) : bookOne n t frm frm = [] :=
  if_pos rfl

/-- Everything a resource takes from the bitmap is the resource's footprint, up to 31
symbols. -/
theorem taken_eq_footprint {freq pos len : UInt8} (hlt : pos.toNat+len.toNat < 64) (hlen : len ≤ 31) :
    taken freq pos len.toNat = footprint freq pos len := by
  apply Set.Subset.antisymm
  · exact taken_subset_footprint hlen
  · exact footprint_subset_taken (by omega)

section Join

variable {cfg : ResmgrConfig} {joined : UInt8 → Option Mac} {n : UInt8} {mac : Mac}

/-- One placed resource joins the active ones, with a reservation if it took cells. -/
theorem Inv.place {rs : ResStateTbl} {book : List Reservation} (h : Inv cfg rs joined book)
    (hj : joined n = some mac) {t f p : UInt8} (ht : t ∈ nodeTrsIds cfg mac) (hna : ¬Active rs t)
    {more : List Reservation}
    (hmore : ∀ b ∈ more, b.node = n ∧ b.resid = t ∧ cells b.bits = footprint f p (cfg.resCfgTbl t).len) :
    Inv cfg (Function.update rs t ⟨n,p,f,1⟩) joined (book ++ more) := by
  refine ⟨h.sound,?_,h.macs,?_⟩
  · intro r hr
    by_cases hrt : r = t
    · subst hrt
      rw [Function.update_self]
      exact ⟨mac,hj,ht⟩
    · rw [Function.update_of_ne hrt]
      exact h.listed r ((active_update.mp hr).resolve_left hrt)
  · intro b hb
    cases List.mem_append.mp hb with
    | inl hb =>
      obtain ⟨ha,hn,hc⟩ := h.booked b hb
      have hbt : b.resid ≠ t := fun he => hna (he ▸ ha)
      rw [Function.update_of_ne hbt,foot_update_ne hbt]
      exact ⟨active_update.mpr (Or.inr ha),hn,hc⟩
    | inr hb =>
      obtain ⟨hn,ht',hc⟩ := hmore b hb
      rw [ht',Function.update_self,foot_update_self]
      exact ⟨active_update.mpr (Or.inl rfl),hn.symm,hc⟩

/-- The allocation loop books what it takes. The induction is over the resources still
to be placed; none of them is active yet. -/
theorem placeTrs_book (hj : joined n = some mac) {ids : List UInt8}
    (hids : ∀ t ∈ ids, t ≠ 0 ∧ Enabled cfg t ∧ t ∈ nodeTrsIds cfg mac ∧
      (¬Fixed cfg t → (cfg.resCfgTbl t).len ≤ 31)) (hnd : ids.Nodup) {rs : ResStateTbl}
    {frm : ResFrm} {book : List Reservation} (hna : ∀ t ∈ ids, ¬Active rs t)
    (hkept : NoLoss frm (ids.map (trsEntry cfg))) (h : Inv cfg rs joined book) :
    Inv cfg (placeTrs cfg n rs frm (ids.map (trsEntry cfg))).resState joined
      (book ++ bookTrs n frm (ids.map (trsEntry cfg))) := by
  induction ids generalizing rs frm book with
  | nil => simpa [placeTrs,bookTrs] using h
  | cons t ids ih =>
    obtain ⟨ht0,hte,htl,hlen⟩ := hids t (by simp)
    obtain ⟨htnd,hnd⟩ := List.nodup_cons.mp hnd
    rw [List.map_cons] at hkept ⊢
    rw [placeTrs,bookTrs]
    rw [NoLoss] at hkept
    cases hp : placeOne frm (trsEntry cfg t) with
    | mk frm' o =>
      rw [hp] at hkept
      cases o with
      | none =>
        have he : frm' = frm := hkept
        subst he
        simpa [bookOne_self] using h
      | some t' =>
        obtain ⟨hres,hl,hcase⟩ := placeOne_some hp
        have hres' : t'.resid = t := hres.trans (h.sound.indexed t hte)
        have hplace : Inv cfg (activeRes cfg rs t'.resid n t'.freq t'.pos) joined
            (book ++ bookOne n (trsEntry cfg t) frm frm') := by
          rw [hres',activeRes_eq _ _ _ ht0 hte]
          refine h.place hj htl (hna t (by simp)) fun b hb => ?_
          rcases hcase with ⟨-,-,he⟩ | ⟨hpos,hsub,hlt,hcells⟩
          · rw [he,bookOne_self] at hb
            cases hb
          · have hfix : ¬Fixed cfg t := fun hf => hf.2 hpos
            rw [taken_eq_footprint hlt (hlen hfix)] at hcells
            unfold bookOne at hb
            split at hb
            · cases hb
            · obtain rfl := List.mem_singleton.mp hb
              refine ⟨rfl,h.sound.indexed t hte,?_⟩
              rw [cells_cleared,hcells,Set.sdiff_sdiff_right_self]
              exact Set.inter_eq_self_of_subset_right hsub
        have hna' : ∀ u ∈ ids, ¬Active (activeRes cfg rs t'.resid n t'.freq t'.pos) u := by
          intro u hu ha
          rw [hres',activeRes_eq _ _ _ ht0 hte] at ha
          cases active_update.mp ha with
          | inl he => exact htnd (he ▸ hu)
          | inr ha => exact hna u (List.mem_cons_of_mem _ hu) ha
        have hrest := ih (fun u hu => hids u (List.mem_cons_of_mem _ hu)) hnd hna' hkept hplace
        simpa [List.append_assoc] using hrest

end Join

/-! ### The release loop -/

theorem releaseDel_state {ds : List DelResData} (h0 : ∀ d ∈ ds, d.resid ≠ 0) (rs : ResStateTbl)
    (frm : ResFrm) (r : UInt8) :
    (releaseDel rs frm ds).1 r =
      if r ∈ ds.map DelResData.resid then {rs r with state := 0} else rs r := by
  induction ds generalizing rs frm with
  | nil => rfl
  | cons d ds ih =>
    have hrest : ∀ e ∈ ds, e.resid ≠ 0 := fun e he => h0 e (List.mem_cons_of_mem _ he)
    rw [releaseDel,deactiveRes_eq (h0 d (by simp)),ih hrest]
    by_cases hd : r = d.resid
    · subst hd
      simp
    · rw [Function.update_of_ne hd]
      simp [hd]

theorem releaseDel_cells (ds : List DelResData) (rs : ResStateTbl) (frm : ResFrm) :
    cells (releaseDel rs frm ds).2 =
      cells frm ∪ {c | ∃ d ∈ ds, c ∈ footprint d.freq d.pos d.len ∩ {c | c.2 < 64}} := by
  induction ds generalizing rs frm with
  | nil => simp [releaseDel]
  | cons d ds ih =>
    rw [releaseDel,ih,cells_resfrmFree]
    ext c
    simp only [Set.mem_union,Set.mem_ofPred_eq,List.mem_cons,exists_eq_or_imp]
    exact or_assoc

section Leave

variable {cfg : ResmgrConfig} {joined : UInt8 → Option Mac} {n : UInt8} {mac : Mac}
  {rs : ResStateTbl} {book : List Reservation}

/-- The departing node's list names exactly the resources active for it. -/
theorem Inv.mem_del (h : Inv cfg rs joined book)
    (hsame : joined n = some mac ∨ (joined n = none ∧ ∀ m, joined m ≠ some mac)) {r : UInt8} :
    (r ∈ nodeTrsIds cfg mac ∧ Active rs r) ↔ Active rs r ∧ (rs r).snode = n := by
  constructor
  · rintro ⟨hr,ha⟩
    obtain ⟨mac',hj,hl⟩ := h.listed r ha
    have hmac : mac' = mac := h.sound.mac_eq hl hr
    cases hsame with
    | inl hn => exact ⟨ha,h.macs _ _ mac (hmac ▸ hj) hn⟩
    | inr hn => exact absurd (hmac ▸ hj) (hn.2 _)
  · rintro ⟨ha,hn⟩
    obtain ⟨mac',hj,hl⟩ := h.listed r ha
    rw [hn] at hj
    cases hsame with
    | inl hm =>
      obtain rfl := Option.some.inj (hj.symm.trans hm)
      exact ⟨hl,ha⟩
    | inr hm =>
      rw [hm.1] at hj
      cases hj

theorem mem_delIds {r : UInt8} :
    r ∈ (getDelResConfig cfg rs mac).map DelResData.resid ↔ r ∈ nodeTrsIds cfg mac ∧ Active rs r := by
  simp [getDelResConfig,delEntry,Active]

theorem delIds_ne {d : DelResData} (hd : d ∈ getDelResConfig cfg rs mac) : d.resid ≠ 0 :=
  mem_nodeTrsIds_ne (mem_getDelResConfig hd).1

/-- After the release loop the node has nothing active, the others have what they had. -/
theorem Inv.leave (h : Inv cfg rs joined book)
    (hsame : joined n = some mac ∨ (joined n = none ∧ ∀ m, joined m ≠ some mac)) (frm : ResFrm) :
    Inv cfg (releaseDel rs frm (getDelResConfig cfg rs mac)).1 (Function.update joined n none)
      (book.filter fun b => b.node ≠ n) := by
  have hstate : ∀ r, (releaseDel rs frm (getDelResConfig cfg rs mac)).1 r =
      if Active rs r ∧ (rs r).snode = n then {rs r with state := 0} else rs r := by
    intro r
    rw [releaseDel_state (fun d hd => delIds_ne hd)]
    simp only [mem_delIds,h.mem_del hsame]
  have hactive : ∀ r, Active (releaseDel rs frm (getDelResConfig cfg rs mac)).1 r →
      Active rs r ∧ (rs r).snode ≠ n ∧ (releaseDel rs frm (getDelResConfig cfg rs mac)).1 r = rs r := by
    intro r hr
    have hs := hstate r
    by_cases hd : Active rs r ∧ (rs r).snode = n
    · rw [if_pos hd] at hs
      rw [Active,hs] at hr
      exact absurd rfl hr
    · rw [if_neg hd] at hs
      rw [Active,hs] at hr
      exact ⟨hr,fun hn => hd ⟨hr,hn⟩,hs⟩
  refine ⟨h.sound,?_,?_,?_⟩
  · intro r hr
    obtain ⟨ha,hn,hs⟩ := hactive r hr
    rw [hs,Function.update_of_ne hn]
    exact h.listed r ha
  · intro m m' mac' hm hm'
    have hne : ∀ k, Function.update joined n none k = some mac' → k ≠ n := by
      intro k hk he
      rw [he,Function.update_self] at hk
      cases hk
    rw [Function.update_of_ne (hne m hm)] at hm
    rw [Function.update_of_ne (hne m' hm')] at hm'
    exact h.macs m m' mac' hm hm'
  · intro b hb
    obtain ⟨hb,hn⟩ := List.mem_filter.mp hb
    obtain ⟨ha,hs,hc⟩ := h.booked b hb
    have hn' : (rs b.resid).snode ≠ n := by
      rw [hs]
      exact of_decide_eq_true hn
    have hkeep : (releaseDel rs frm (getDelResConfig cfg rs mac)).1 b.resid = rs b.resid := by
      rw [hstate,if_neg fun hd => hn' hd.2]
    refine ⟨?_,?_,?_⟩
    · rw [Active,hkeep]
      exact ha
    · rw [hkeep]
      exact hs
    · rw [foot,hkeep]
      exact hc

/-- What the loop frees is what the book has for the node, and free cells. -/
theorem Inv.leave_cells (h : Inv cfg rs joined book)
    (hsame : joined n = some mac ∨ (joined n = none ∧ ∀ m, joined m ≠ some mac)) {frm : ResFrm}
    (hub : ∀ r, Active rs r → (rs r).snode = n → (∀ b ∈ book, b.resid ≠ r) →
      foot cfg rs r ∩ {c | c.2 < 64} ⊆ cells frm ∪ reserved book n) :
    cells (releaseDel rs frm (getDelResConfig cfg rs mac)).2 = cells frm ∪ reserved book n := by
  rw [releaseDel_cells]
  apply Set.Subset.antisymm
  · rintro c (hc | ⟨d,hd,hc⟩)
    · exact Or.inl hc
    · obtain ⟨hl,ha,he⟩ := mem_getDelResConfig hd
      have hc' : c ∈ foot cfg rs d.resid ∩ {c | c.2 < 64} := by
        rw [he] at hc
        exact hc
      obtain ⟨-,hn⟩ := (h.mem_del hsame).mp ⟨hl,ha⟩
      by_cases hb : ∀ b ∈ book, b.resid ≠ d.resid
      · exact hub d.resid ha hn hb hc'
      · push Not at hb
        obtain ⟨b,hb,hres⟩ := hb
        obtain ⟨-,hs,hcells⟩ := h.booked b hb
        refine Or.inr ⟨b,hb,?_,?_⟩
        · rw [← hs,hres]
          exact hn
        · rw [hcells,hres]
          exact hc'.1
  · rintro c (hc | ⟨b,hb,hn,hc⟩)
    · exact Or.inl hc
    · obtain ⟨ha,hs,hcells⟩ := h.booked b hb
      obtain ⟨hl,-⟩ := (h.mem_del hsame).mpr ⟨ha,hs.trans hn⟩
      have hlt : c.2 < 64 := lt_of_mem_cells hc
      refine Or.inr ⟨delEntry cfg rs b.resid,?_,?_,hlt⟩
      · exact List.mem_map_of_mem (List.mem_filter.mpr ⟨hl,decide_eq_true ha⟩)
      · rw [hcells] at hc
        exact hc

end Leave

/-! ### Runs -/

abbrev Sys.Ok (s : Sys) : Prop := Inv s.cn.cfg s.cn.resState s.joined s.book

theorem join_book {s : Sys} {pnd : NodeInfo} (h : s.Ok) (hg : JoinOk s pnd) :
    Inv s.cn.cfg (placeTrs s.cn.cfg pnd.nindx s.cn.resState s.cn.resfrm
        (getTrsResConfig s.cn.cfg pnd.mac)).resState
      (Function.update s.joined pnd.nindx (some pnd.mac))
      (s.book ++ bookTrs pnd.nindx s.cn.resfrm (getTrsResConfig s.cn.cfg pnd.mac)) := by
  have hj : Inv s.cn.cfg s.cn.resState (Function.update s.joined pnd.nindx (some pnd.mac)) s.book := by
    refine ⟨h.sound,?_,?_,h.booked⟩
    · intro r hr
      obtain ⟨mac,hj,hl⟩ := h.listed r hr
      have hne : (s.cn.resState r).snode ≠ pnd.nindx := by
        intro he
        rw [he,hg.absent] at hj
        cases hj
      rw [Function.update_of_ne hne]
      exact ⟨mac,hj,hl⟩
    · intro m m' mac hm hm'
      by_cases he : m = pnd.nindx
      · subst he
        rw [Function.update_self] at hm
        by_cases he' : m' = pnd.nindx
        · exact he'.symm
        · rw [Function.update_of_ne he'] at hm'
          exact absurd (Option.some.inj hm ▸ hm') (hg.newMac m')
      · rw [Function.update_of_ne he] at hm
        by_cases he' : m' = pnd.nindx
        · subst he'
          rw [Function.update_self] at hm'
          exact absurd (Option.some.inj hm' ▸ hm) (hg.newMac m)
        · rw [Function.update_of_ne he'] at hm'
          exact h.macs m m' mac hm hm'
  refine placeTrs_book (Function.update_self ..) ?_ (h.sound.nodup pnd.mac) ?_ hg.kept hj
  · intro t ht
    obtain ⟨h0,he⟩ := mem_enabledTrs ht
    exact ⟨h0,he,(List.mem_filter.mp ht).1,hg.short t ht⟩
  · intro t ht ha
    obtain ⟨mac,hm,hl⟩ := h.listed t ha
    have hmac := h.sound.mac_eq hl (List.mem_filter.mp ht).1
    exact hg.newMac _ (hmac ▸ hm)

theorem ok_step {s s' : Sys} {e : Event} {es : List Event} (h : s.Ok) (hg : Guard es s e)
    (hs : step s e = some s') : s'.Ok := by
  cases e with
  | addCn pnd =>
    obtain rfl := Option.some.inj hs
    change Inv (resAddCn s.cn pnd).cn.cfg (resAddCn s.cn pnd).cn.resState _ _
    rw [resAddCn_cfg,(resAddCn_res s.cn pnd).1]
    exact join_book h hg
  | addTrsRes pnd k =>
    obtain rfl := Option.some.inj hs
    change Inv (resAddTrsRes s.cn pnd k).cn.cfg (resAddTrsRes s.cn pnd k).cn.resState _ _
    rw [resAddTrsRes_cfg,(resAddTrsRes_res s.cn pnd k).1]
    exact join_book h hg
  | deleteNode pnd k =>
    obtain rfl := Option.some.inj hs
    change Inv (resDeleteNode s.cn pnd k).cn.cfg (resDeleteNode s.cn pnd k).cn.resState _ _
    rw [resDeleteNode_cfg,(resDeleteNode_res s.cn pnd k).1]
    exact h.leave hg.same _
  | edit e =>
    obtain rfl := Option.some.inj hs
    refine ⟨h.sound.apply e,?_,h.macs,?_⟩
    · intro r hr
      obtain ⟨mac,hj,-⟩ := h.listed r hr
      exact ⟨mac,hj,hg.listed r mac hr hj⟩
    · intro b hb
      obtain ⟨ha,hn,hc⟩ := h.booked b hb
      refine ⟨ha,hn,hc.trans ?_⟩
      rw [foot,foot]
      exact congrArg _ (hg.len b hb).symm

/-- Before the first join, with a configuration the manager can work with. -/
structure Start (s : Sys) : Prop where
  sound : Sound s.cn.cfg
  booted : Booted s.cn
  joined : ∀ n, s.joined n = none
  book : s.book = []

theorem ok_start {s : Sys} (h : Start s) : s.Ok := by
  refine ⟨h.sound,?_,?_,?_⟩
  · intro r hr
    exact absurd hr (h.booted.1 r)
  · intro n n' mac hn
    rw [h.joined n] at hn
    cases hn
  · intro b hb
    rw [h.book] at hb
    cases hb

theorem run_ok {s₀ s : Sys} {es : List Event} (h0 : Start s₀) (hrun : Run step Guard s₀ es s) : s.Ok :=
  hrun.invariant (ok_start h0) fun _ _ _ _ _ h hg hs => ok_step h hg hs

theorem ok_departed {s : Sys} {pnd : NodeInfo} {k : ℕ} (h : s.Ok) (hg : LeaveOk s pnd) :
    Departed s pnd.nindx (resDeleteNode s.cn pnd k).cn := by
  obtain ⟨hrs,hfrm⟩ := resDeleteNode_res s.cn pnd k
  refine ⟨?_,?_⟩
  · intro r hr hn
    rw [hrs] at hr hn
    have hleft := h.leave hg.same s.cn.resfrm
    obtain ⟨mac,hj,-⟩ := hleft.listed r hr
    rw [hn,Function.update_self] at hj
    cases hj
  · rw [hfrm]
    exact h.leave_cells hg.same hg.unbooked

@[simp] theorem addRes_nodeTrsIds (cfg : ResmgrConfig) (resid : UInt8) (res : ResConfig) (mac : Mac) :
    nodeTrsIds (addResConfig cfg resid res).1 mac = nodeTrsIds cfg mac := by
  unfold addResConfig
  split <;> rfl

theorem addRes_len {cfg : ResmgrConfig} {resid : UInt8} {res : ResConfig} (h0 : resid ≠ 0) :
    ((addResConfig cfg resid res).1.resCfgTbl resid).len = res.len := by
  unfold addResConfig
  rw [if_neg h0]
  dsimp only
  rw [Function.update_self]
  split
  · rfl
  · split <;> rfl

/-- `add_res_config` does no harm to a resource whose length it keeps. -/
theorem editOk_addRes {s : Sys} (h : s.Ok) {resid : UInt8} {res : ResConfig}
    (hlen : ∀ b ∈ s.book, b.resid = resid → res.len = (s.cn.cfg.resCfgTbl resid).len) :
    EditOk s (.addRes resid res) := by
  refine ⟨?_,?_⟩
  · intro r mac hr hj
    obtain ⟨mac',hj',hl⟩ := h.listed r hr
    obtain rfl := Option.some.inj (hj'.symm.trans hj)
    change r ∈ nodeTrsIds (addResConfig s.cn.cfg resid res).1 mac'
    rw [addRes_nodeTrsIds]
    exact hl
  · intro b hb
    change ((addResConfig s.cn.cfg resid res).1.resCfgTbl b.resid).len = _
    by_cases he : b.resid = resid
    · rw [he]
      by_cases h0 : resid = 0
      · rw [addResConfig,if_pos h0]
      · rw [addRes_len h0]
        exact hlen b hb he
    · rw [addRes_other he]

/-- A TN transmits on resource 3: 8 symbols of every frame, placed from the bitmap. -/
def leaveConfig : ResmgrConfig :=
  (Edit.addTrs .table 3 tnMac 0).apply ((Edit.addRes 3 ⟨0,0,1,8,0,0,0⟩).apply emptyConfig)

def leaveSys : Sys := ⟨{mixedCn 1 3 with cfg := leaveConfig},fun _ => none,[]⟩

theorem leaveSys_start : Start leaveSys := by
  have hsound : Sound leaveConfig :=
    (sound_empty.apply (.addRes 3 ⟨0,0,1,8,0,0,0⟩)).apply (.addTrs .table 3 tnMac 0)
  exact ⟨hsound,mixed_booted 1 3,fun _ => rfl,rfl⟩

theorem leaveSys_joinOk : JoinOk leaveSys tnNode := by
  have hids : enabledTrs leaveConfig tnMac = [3] := by decide
  refine ⟨rfl,fun n h => ?_,?_,by decide⟩
  · cases h
  · intro t ht _
    have ht' : t = 3 := by simpa [hids] using (show t ∈ enabledTrs leaveConfig tnMac from ht)
    subst ht'
    decide

/-- The node has joined. -/
def joinedSys : Sys := join leaveSys tnNode (resAddTrsRes leaveSys.cn tnNode 1).cn

/-- The node has joined, and an edit has been made. -/
def editedSys (e : Edit) : Sys := {joinedSys with cn := {joinedSys.cn with cfg := e.apply leaveConfig}}

theorem joinedSys_book : joinedSys.book.map Reservation.resid = [3] := by decide

theorem joinedSys_run : Run step Guard leaveSys [.addTrsRes tnNode 1] joinedSys :=
  .cons .nil leaveSys_joinOk rfl

end Departure
end Autbus
