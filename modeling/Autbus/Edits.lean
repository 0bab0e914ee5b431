import Autbus.Placement

/-! The commands that edit the configuration, and what they leave intact: an id is
listed for one node at most, and every enabled entry is stored under its own id. Both
hold whatever the pointers find that are read before they are set. -/
namespace Autbus
namespace Edits

open ResTables Placement

/-- The edits of the configuration. -/
inductive Edit
  | addRes (resid : UInt8) (res : ResConfig)
  | delRes (pncfg : UnsetPtr) (resid : UInt8)
  | addTrs (prescfg : UnsetPtr) (resid : UInt8) (mac : Mac) (send2all : UInt8)
  | delTrs (pncfg : UnsetPtr) (resid : UInt8) (mac : Mac)

def Edit.apply (cfg : ResmgrConfig) : Edit → ResmgrConfig
  | .addRes resid res => (addResConfig cfg resid res).1
  | .delRes pncfg resid => (delResConfig pncfg cfg resid).1
  | .addTrs prescfg resid mac send2all => (addTrsRes prescfg cfg resid mac send2all).1
  | .delTrs pncfg resid mac => (delTrsRes pncfg cfg resid mac).1

abbrev NodeTbl := Fin 64 → NodeConfig

def Valid (nc : NodeConfig) : Prop := nc.cfgState ≠ configUnvalid

/-- No id stands in two transmit slots of valid entries. -/
def TrsUnique (tbl : NodeTbl) : Prop :=
  ∀ i j a b, Valid (tbl i) → Valid (tbl j) → (tbl i).trsResId a ≠ 0 →
    (tbl i).trsResId a = (tbl j).trsResId b → i = j ∧ a = b

/-- Entries may have become invalid and slots unused; nothing else is new. -/
def Below (tbl' tbl : NodeTbl) : Prop :=
  ∀ i, Valid (tbl' i) → Valid (tbl i) ∧
    ∀ a, (tbl' i).trsResId a = 0 ∨ (tbl' i).trsResId a = (tbl i).trsResId a

theorem Below.refl (tbl : NodeTbl) : Below tbl tbl := fun _ h => ⟨h,fun _ => Or.inr rfl⟩

theorem Below.trans {t₁ t₂ t₃ : NodeTbl} (h : Below t₁ t₂) (h' : Below t₂ t₃) : Below t₁ t₃ := by
  intro i hi
  obtain ⟨h₂,hs⟩ := h i hi
  obtain ⟨h₃,hs'⟩ := h' i h₂
  refine ⟨h₃,fun a => ?_⟩
  cases hs a with
  | inl h0 => exact Or.inl h0
  | inr he => exact he ▸ hs' a

theorem TrsUnique.below {tbl' tbl : NodeTbl} (h : TrsUnique tbl) (hb : Below tbl' tbl) : TrsUnique tbl' := by
  intro i j a b hi hj h0 he
  obtain ⟨hvi,hsi⟩ := hb i hi
  obtain ⟨hvj,hsj⟩ := hb j hj
  have hia := (hsi a).resolve_left h0
  have hjb := (hsj b).resolve_left (he ▸ h0)
  exact h i j a b hvi hvj (hia ▸ h0) (hia.symm.trans (he.trans hjb))

/-- Put an id that no valid entry lists into one slot. -/
theorem TrsUnique.insert {tbl' tbl : NodeTbl} {resid : UInt8} {i₀ : Fin 64} {a₀ : Fin 8}
    (h : TrsUnique tbl) (hnew : ∀ i a, Valid (tbl i) → (tbl i).trsResId a ≠ resid)
    (hslot : ∀ i a, Valid (tbl' i) → (tbl' i).trsResId a = 0 ∨
      (Valid (tbl i) ∧ (tbl' i).trsResId a = (tbl i).trsResId a) ∨
      (i = i₀ ∧ a = a₀ ∧ (tbl' i).trsResId a = resid)) : TrsUnique tbl' := by
  intro i j a b hi hj h0 he
  rcases (hslot i a hi).resolve_left h0 with ⟨hvi,hia⟩ | ⟨rfl,rfl,hia⟩
  · rcases (hslot j b hj).resolve_left (he ▸ h0) with ⟨hvj,hjb⟩ | ⟨rfl,rfl,hjb⟩
    · exact h i j a b hvi hvj (hia ▸ h0) (hia.symm.trans (he.trans hjb))
    · exact absurd (hia.symm.trans (he.trans hjb)) (hnew i a hvi)
  · rcases (hslot j b hj).resolve_left (he ▸ h0) with ⟨hvj,hjb⟩ | ⟨rfl,rfl,-⟩
    · exact absurd (hjb.symm.trans (he.symm.trans hia)) (hnew j b hvj)
    · exact ⟨rfl,rfl⟩

/-! ### The parts of an edit -/

theorem valid_onValid (f : NodeConfig → NodeConfig) (hf : ∀ nc, (f nc).cfgState = nc.cfgState)
    {nc : NodeConfig} : Valid (onValid f nc) ↔ Valid nc := by
  unfold onValid
  split
  · rfl
  · rw [Valid,Valid,hf]

theorem onValid_of_valid {f : NodeConfig → NodeConfig} {nc : NodeConfig} (h : Valid nc) :
    onValid f nc = f nc := if_neg h

theorem dropTrs_slot (resid : UInt8) (nc : NodeConfig) (a : Fin 8) :
    (dropTrs resid nc).trsResId a = 0 ∨ (dropTrs resid nc).trsResId a = nc.trsResId a := by
  by_cases h : nc.trsResId a = resid
  · exact Or.inl (if_pos h)
  · exact Or.inr (if_neg h)

theorem dropTrs_ne {resid : UInt8} (h0 : resid ≠ 0) (nc : NodeConfig) (a : Fin 8) :
    (dropTrs resid nc).trsResId a ≠ resid := by
  by_cases h : nc.trsResId a = resid
  · have hz : (dropTrs resid nc).trsResId a = 0 := if_pos h
    rw [hz]
    exact h0.symm
  · have hs : (dropTrs resid nc).trsResId a = nc.trsResId a := if_neg h
    rw [hs]
    exact h

theorem clearEntry_of_valid {nc : NodeConfig} (h : Valid (clearEntry nc)) : clearEntry nc = nc := by
  unfold clearEntry at h ⊢
  split at h
  · exact absurd rfl h
  · rename_i hc
    rw [if_neg hc]

theorem below_clear (pncfg : UnsetPtr) (cfg : ResmgrConfig) :
    Below (clearNodeConfig pncfg cfg).nodeCfgTbl cfg.nodeCfgTbl := by
  cases pncfg with
  | elsewhere b => exact Below.refl _
  | table =>
    intro i hi
    have he : clearEntry (cfg.nodeCfgTbl i) = cfg.nodeCfgTbl i := clearEntry_of_valid hi
    refine ⟨he ▸ hi,fun a => Or.inr ?_⟩
    exact congrArg (fun nc => nc.trsResId a) he

@[simp] theorem clearNodeConfig_resCfgTbl (pncfg : UnsetPtr) (cfg : ResmgrConfig) :
    (clearNodeConfig pncfg cfg).resCfgTbl = cfg.resCfgTbl := by
  cases pncfg <;> rfl

theorem findSlot_isSome {n : ℕ} {ids : Fin n → UInt8} {v : UInt8} :
    (findSlot ids v).isSome = true ↔ ∃ j, ids j = v := by
  simp [findSlot,List.find?_isSome]

theorem findNode_some {cfg : ResmgrConfig} {mac : Mac} {i : Fin 64} (h : findNode cfg mac = some i) :
    Valid (cfg.nodeCfgTbl i) ∧ (cfg.nodeCfgTbl i).mac = mac := by
  have := List.find?_some h
  simpa [Valid] using this

/-! ### What an edit keeps -/

theorem addRes_unique {cfg : ResmgrConfig} {resid : UInt8} {res : ResConfig}
    (h : TrsUnique cfg.nodeCfgTbl) : TrsUnique (addResConfig cfg resid res).1.nodeCfgTbl := by
  unfold addResConfig
  split
  · exact h
  · exact h

theorem delRes_unique {pncfg : UnsetPtr} {cfg : ResmgrConfig} {resid : UInt8}
    (h : TrsUnique cfg.nodeCfgTbl) : TrsUnique (delResConfig pncfg cfg resid).1.nodeCfgTbl := by
  unfold delResConfig
  split
  · exact h
  · refine h.below ((below_clear pncfg _).trans ?_)
    intro i hi
    have hv : Valid (cfg.nodeCfgTbl i) :=
      (valid_onValid (fun nc => dropRcv resid (dropTrs resid nc)) (fun _ => rfl)).mp hi
    refine ⟨hv,fun a => ?_⟩
    change (onValid _ (cfg.nodeCfgTbl i)).trsResId a = 0 ∨ (onValid _ (cfg.nodeCfgTbl i)).trsResId a = _
    rw [onValid_of_valid hv]
    exact dropTrs_slot resid _ a

theorem delTrs_unique {pncfg : UnsetPtr} {cfg : ResmgrConfig} {resid : UInt8} {mac : Mac}
    (h : TrsUnique cfg.nodeCfgTbl) : TrsUnique (delTrsRes pncfg cfg resid mac).1.nodeCfgTbl := by
  unfold delTrsRes
  split
  · exact h
  · split
    · exact h
    · rename_i i hi
      dsimp only
      split
      · exact h
      · rename_i j hj
        refine h.below ((below_clear pncfg _).trans ?_)
        intro k hk
        dsimp only at hk ⊢
        by_cases hki : k = i
        · subst hki
          rw [Function.update_self] at hk ⊢
          refine ⟨hk,fun a => ?_⟩
          by_cases ha : a = j
          · subst ha
            exact Or.inl (Function.update_self ..)
          · exact Or.inr (Function.update_of_ne ha ..)
        · rw [Function.update_of_ne hki] at hk ⊢
          exact ⟨hk,fun _ => Or.inr rfl⟩

/-- Where `add_trs_res` puts the id, all other valid entries having lost it. -/
theorem putTrs_slot (resid : UInt8) (nc : NodeConfig) :
    (putTrs resid nc).1.cfgState = nc.cfgState ∧ (putTrs resid nc).1.mac = nc.mac ∧
      ∃ j, ∀ a, (putTrs resid nc).1.trsResId a = nc.trsResId a ∨
        (a = j ∧ (putTrs resid nc).1.trsResId a = resid) := by
  unfold putTrs
  split
  · exact ⟨rfl,rfl,0,fun a => Or.inl rfl⟩
  · split
    · exact ⟨rfl,rfl,0,fun a => Or.inl rfl⟩
    · rename_i j hj
      refine ⟨rfl,rfl,j,fun a => ?_⟩
      by_cases ha : a = j
      · subst ha
        exact Or.inr ⟨rfl,Function.update_self ..⟩
      · exact Or.inl (Function.update_of_ne ha ..)

theorem addTrsRes_cases (prescfg : UnsetPtr) (cfg : ResmgrConfig) (resid : UInt8) (mac : Mac)
    (send2all : UInt8) :
    (addTrsRes prescfg cfg resid mac send2all).1 = cfg ∨
    (resid ≠ 0 ∧ (addTrsRes prescfg cfg resid mac send2all).1 =
      (fileTrs (strikeTrs cfg resid send2all) resid mac).1) := by
  unfold addTrsRes
  by_cases h0 : resid = 0
  · exact Or.inl (by rw [if_pos h0])
  · rw [if_neg h0]
    split
    · exact Or.inl rfl
    · split
      · exact Or.inl rfl
      · exact Or.inr ⟨h0,rfl⟩

@[simp] theorem fileTrs_resCfgTbl (cfg : ResmgrConfig) (resid : UInt8) (mac : Mac) :
    (fileTrs cfg resid mac).1.resCfgTbl = cfg.resCfgTbl := by
  unfold fileTrs
  split
  · rfl
  · split <;> rfl

theorem fileTrs_unique {cfg : ResmgrConfig} {resid : UInt8} {mac : Mac} (h : TrsUnique cfg.nodeCfgTbl)
    (hnew : ∀ i a, Valid (cfg.nodeCfgTbl i) → (cfg.nodeCfgTbl i).trsResId a ≠ resid) :
    TrsUnique (fileTrs cfg resid mac).1.nodeCfgTbl := by
  unfold fileTrs
  split
  · rename_i i hi
    obtain ⟨hst,-,j,hj⟩ := putTrs_slot resid (dropRcv resid (cfg.nodeCfgTbl i))
    refine @TrsUnique.insert _ _ resid i j h hnew fun k a hk => ?_
    dsimp only at hk ⊢
    by_cases hki : k = i
    · subst hki
      rw [Function.update_self] at hk ⊢
      have hvk : Valid (cfg.nodeCfgTbl k) := by
        rw [Valid,hst] at hk
        exact hk
      cases hj a with
      | inl ha => exact Or.inr (Or.inl ⟨hvk,ha⟩)
      | inr ha => exact Or.inr (Or.inr ⟨rfl,ha⟩)
    · rw [Function.update_of_ne hki] at hk ⊢
      exact Or.inr (Or.inl ⟨hk,rfl⟩)
  · split
    · exact h
    · rename_i i hi
      refine @TrsUnique.insert _ _ resid i 0 h hnew fun k a hk => ?_
      dsimp only at hk ⊢
      by_cases hki : k = i
      · subst hki
        rw [Function.update_self]
        by_cases ha : a = 0
        · subst ha
          exact Or.inr (Or.inr ⟨rfl,rfl,rfl⟩)
        · exact Or.inl (Function.update_of_ne ha ..)
      · rw [Function.update_of_ne hki] at hk ⊢
        exact Or.inr (Or.inl ⟨hk,rfl⟩)

theorem addTrs_unique {prescfg : UnsetPtr} {cfg : ResmgrConfig} {resid : UInt8} {mac : Mac}
    {send2all : UInt8} (h : TrsUnique cfg.nodeCfgTbl) :
    TrsUnique (addTrsRes prescfg cfg resid mac send2all).1.nodeCfgTbl := by
  have hv : ∀ i, Valid ((strikeTrs cfg resid send2all).nodeCfgTbl i) ↔ Valid (cfg.nodeCfgTbl i) :=
    fun i => valid_onValid (dropTrs resid) (fun _ => rfl)
  have hslot : ∀ i, Valid (cfg.nodeCfgTbl i) →
      (strikeTrs cfg resid send2all).nodeCfgTbl i = dropTrs resid (cfg.nodeCfgTbl i) :=
    fun i hi => onValid_of_valid hi
  rcases addTrsRes_cases prescfg cfg resid mac send2all with he | ⟨h0,he⟩
  · rw [he]
    exact h
  · rw [he]
    apply fileTrs_unique
    · refine h.below fun i hi => ⟨(hv i).mp hi,fun a => ?_⟩
      rw [hslot i ((hv i).mp hi)]
      exact dropTrs_slot resid _ a
    · intro i a hi
      rw [hslot i ((hv i).mp hi)]
      exact dropTrs_ne h0 _ a

theorem apply_unique {cfg : ResmgrConfig} (e : Edit) (h : TrsUnique cfg.nodeCfgTbl) :
    TrsUnique (e.apply cfg).nodeCfgTbl := by
  cases e with
  | addRes resid res => exact addRes_unique h
  | delRes pncfg resid => exact delRes_unique h
  | addTrs prescfg resid mac send2all => exact addTrs_unique h
  | delTrs pncfg resid mac => exact delTrs_unique h

theorem addRes_resid {cfg : ResmgrConfig} {resid : UInt8} {res : ResConfig} (h0 : resid ≠ 0) :
    ((addResConfig cfg resid res).1.resCfgTbl resid).resid = resid := by
  unfold addResConfig
  rw [if_neg h0]
  dsimp only
  rw [Function.update_self]
  split
  · rfl
  · split <;> rfl

theorem addRes_other {cfg : ResmgrConfig} {resid r : UInt8} {res : ResConfig} (h : r ≠ resid) :
    (addResConfig cfg resid res).1.resCfgTbl r = cfg.resCfgTbl r := by
  unfold addResConfig
  split
  · rfl
  · exact Function.update_of_ne h ..

/-- The other edits leave the id and the enabling of an entry alone, or invalidate it. -/
theorem delRes_resCfg (pncfg : UnsetPtr) (cfg : ResmgrConfig) (resid r : UInt8) :
    (delResConfig pncfg cfg resid).1.resCfgTbl r = cfg.resCfgTbl r ∨
      ((delResConfig pncfg cfg resid).1.resCfgTbl r).cfgState = configUnvalid := by
  unfold delResConfig
  split
  · exact Or.inl rfl
  · rw [clearNodeConfig_resCfgTbl]
    by_cases hr : r = resid
    · subst hr
      exact Or.inr (by simp)
    · exact Or.inl (Function.update_of_ne hr ..)

theorem addTrs_resCfg (prescfg : UnsetPtr) (cfg : ResmgrConfig) (resid r : UInt8) (mac : Mac)
    (send2all : UInt8) :
    ∃ v, (addTrsRes prescfg cfg resid mac send2all).1.resCfgTbl r = {cfg.resCfgTbl r with send2all := v} := by
  rcases addTrsRes_cases prescfg cfg resid mac send2all with he | ⟨-,he⟩
  · exact ⟨_,by rw [he]⟩
  · rw [he,fileTrs_resCfgTbl]
    by_cases hr : r = resid
    · subst hr
      exact ⟨_,Function.update_self ..⟩
    · exact ⟨_,Function.update_of_ne hr ..⟩

theorem delTrs_resCfg (pncfg : UnsetPtr) (cfg : ResmgrConfig) (resid : UInt8) (mac : Mac) :
    (delTrsRes pncfg cfg resid mac).1.resCfgTbl = cfg.resCfgTbl := by
  unfold delTrsRes
  split
  · rfl
  · split
    · rfl
    · dsimp only
      split
      · rfl
      · exact clearNodeConfig_resCfgTbl ..

theorem apply_indexed {cfg : ResmgrConfig} (e : Edit) (h : Indexed cfg) : Indexed (e.apply cfg) := by
  intro r hr
  cases e with
  | addRes resid res =>
    by_cases hr' : r = resid
    · subst hr'
      by_cases h0 : r = 0
      · have hsame : (Edit.addRes r res).apply cfg = cfg := congrArg Prod.fst (if_pos h0)
        rw [hsame] at hr ⊢
        exact h r hr
      · exact addRes_resid h0
    · have he : ((Edit.addRes resid res).apply cfg).resCfgTbl r = cfg.resCfgTbl r := addRes_other hr'
      rw [Enabled,he] at hr
      rw [he]
      exact h r hr
  | delRes pncfg resid =>
    rcases delRes_resCfg pncfg cfg resid r with he | he
    · have he' : ((Edit.delRes pncfg resid).apply cfg).resCfgTbl r = cfg.resCfgTbl r := he
      rw [Enabled,he'] at hr
      rw [he']
      exact h r hr
    · exact absurd (he.symm.trans hr) (by decide)
  | addTrs prescfg resid mac send2all =>
    obtain ⟨v,he⟩ := addTrs_resCfg prescfg cfg resid r mac send2all
    have he' : ((Edit.addTrs prescfg resid mac send2all).apply cfg).resCfgTbl r =
      {cfg.resCfgTbl r with send2all := v} := he
    rw [Enabled,he'] at hr
    rw [he']
    exact h r hr
  | delTrs pncfg resid mac =>
    have he : ((Edit.delTrs pncfg resid mac).apply cfg).resCfgTbl = cfg.resCfgTbl := delTrs_resCfg ..
    rw [Enabled,he] at hr
    rw [he]
    exact h r hr

/-- A configuration the manager can work with: each id is stored under itself and listed
for at most one node, once. -/
structure Sound (cfg : ResmgrConfig) : Prop where
  indexed : Indexed cfg
  unique : TrsUnique cfg.nodeCfgTbl

theorem Sound.apply {cfg : ResmgrConfig} (h : Sound cfg) (e : Edit) : Sound (e.apply cfg) :=
  ⟨apply_indexed e h.indexed,apply_unique e h.unique⟩

theorem sound_empty : Sound emptyConfig := by
  refine ⟨fun r hr => ?_,fun i j a b hi => ?_⟩
  · have he : (0 : UInt8) = configEnable := hr
    exact absurd he (by decide)
  · exact absurd rfl hi

/-! ### The lists of a sound configuration -/

theorem mem_trsIds {nc : NodeConfig} {t : UInt8} : t ∈ trsIds nc ↔ t ≠ 0 ∧ ∃ a, nc.trsResId a = t := by
  simp only [trsIds,List.mem_filter,List.mem_map,List.mem_finRange,true_and,decide_eq_true_eq]
  exact ⟨fun h => ⟨h.2,h.1⟩,fun h => ⟨h.2,h.1⟩⟩

theorem mem_nodeTrsIds {cfg : ResmgrConfig} {mac : Mac} {t : UInt8} :
    t ∈ nodeTrsIds cfg mac ↔ ∃ i, findNode cfg mac = some i ∧ t ∈ trsIds (cfg.nodeCfgTbl i) := by
  unfold nodeTrsIds
  cases h : findNode cfg mac with
  | none => simp
  | some i => simp

/-- An id is listed for one node only. -/
theorem Sound.mac_eq {cfg : ResmgrConfig} (h : Sound cfg) {mac mac' : Mac} {t : UInt8}
    (ht : t ∈ nodeTrsIds cfg mac) (ht' : t ∈ nodeTrsIds cfg mac') : mac = mac' := by
  obtain ⟨i,hi,hti⟩ := mem_nodeTrsIds.mp ht
  obtain ⟨j,hj,htj⟩ := mem_nodeTrsIds.mp ht'
  obtain ⟨h0,a,ha⟩ := mem_trsIds.mp hti
  obtain ⟨-,b,hb⟩ := mem_trsIds.mp htj
  obtain ⟨hvi,hmi⟩ := findNode_some hi
  obtain ⟨hvj,hmj⟩ := findNode_some hj
  have hij := (h.unique i j a b hvi hvj (ha ▸ h0) (ha.trans hb.symm)).1
  rw [← hmi,← hmj,hij]

/-- It is listed once. -/
theorem Sound.nodup {cfg : ResmgrConfig} (h : Sound cfg) (mac : Mac) : (enabledTrs cfg mac).Nodup := by
  unfold enabledTrs
  apply List.Nodup.filter
  unfold nodeTrsIds
  split
  · exact List.nodup_nil
  · rename_i i hi
    have hv := (findNode_some hi).1
    unfold trsIds
    rw [List.filter_map]
    apply List.Nodup.map_on
    · intro a ha b _ hab
      have ha0 : (cfg.nodeCfgTbl i).trsResId a ≠ 0 := by
        have hne := (List.mem_filter.mp ha).2
        exact of_decide_eq_true hne
      exact (h.unique i i a b hv hv ha0 hab).2
    · exact (List.nodup_finRange 8).filter _

end Edits
end Autbus
