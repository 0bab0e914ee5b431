import Autbus.Edits

/-! The commands that edit the configuration keep the two tables consistent: entries stand
for different nodes, an id is sent by one node, received once and not by its sender, and
everything listed is configured. The table pointers are taken as pointing at the tables. -/
namespace Autbus
namespace Consistency

open ResTables Placement Edits Trace

/-- The functions that change the configuration. -/
inductive Command
  | addRes (resid : UInt8) (res : ResConfig)
  | delRes (resid : UInt8)
  | addTrs (resid : UInt8) (mac : Mac) (send2all : UInt8)
  | addRcv (resid : UInt8) (mac : Mac)
  | delTrs (resid : UInt8) (mac : Mac)
  | delRcv (resid : UInt8) (mac : Mac)
  | delNode (mac : Mac)

/-- The tables afterwards and the return code; `ptr` is where the unset pointers point. -/
def Command.call (ptr : UnsetPtr) (cfg : ResmgrConfig) : Command → ResmgrConfig × ℕ
  | .addRes resid res => addResConfig cfg resid res
  | .delRes resid => delResConfig ptr cfg resid
  | .addTrs resid mac send2all => addTrsRes ptr cfg resid mac send2all
  | .addRcv resid mac => addRcvRes cfg resid mac
  | .delTrs resid mac => delTrsRes ptr cfg resid mac
  | .delRcv resid mac => delRcvRes ptr cfg resid mac
  | .delNode mac => delNodeConfig ptr cfg mac

/-- An id the tables have an entry for. -/
def InTable (resid : UInt8) : Prop := 1 ≤ resid.toNat ∧ resid.toNat < maxResCfgId

instance (resid : UInt8) : Decidable (InTable resid) := inferInstanceAs (Decidable (_ ∧ _))

/-- The ids of the command are those of the table, 255 stands for all of them. -/
def InRange (_ : List Command) (_ : ResmgrConfig) : Command → Prop
  | .addRes resid _ => InTable resid
  | .delRes resid => InTable resid
  | .addTrs resid _ _ => InTable resid
  | .addRcv resid _ => InTable resid ∨ resid = broadcastResId
  | .delTrs resid _ => InTable resid
  | .delRcv resid _ => InTable resid
  | .delNode _ => True

def step (cfg : ResmgrConfig) (c : Command) : Option ResmgrConfig := some (c.call .table cfg).1

/-- The entry sends or receives the id. -/
def Lists (nc : NodeConfig) (r : UInt8) : Prop :=
  r ≠ 0 ∧ ((∃ a, nc.trsResId a = r) ∨ ∃ b, nc.rcvResId b = r)

structure Consistent (cfg : ResmgrConfig) : Prop where
  macs : ∀ i j, Valid (cfg.nodeCfgTbl i) → Valid (cfg.nodeCfgTbl j) →
    (cfg.nodeCfgTbl i).mac = (cfg.nodeCfgTbl j).mac → i = j
  trsOnce : TrsUnique cfg.nodeCfgTbl
  apart : ∀ i a b, Valid (cfg.nodeCfgTbl i) → (cfg.nodeCfgTbl i).trsResId a ≠ 0 →
    (cfg.nodeCfgTbl i).trsResId a ≠ (cfg.nodeCfgTbl i).rcvResId b
  rcvOnce : ∀ i a b, Valid (cfg.nodeCfgTbl i) → (cfg.nodeCfgTbl i).rcvResId a ≠ 0 →
    (cfg.nodeCfgTbl i).rcvResId a = (cfg.nodeCfgTbl i).rcvResId b → a = b
  enabled : ∀ i r, Valid (cfg.nodeCfgTbl i) → Lists (cfg.nodeCfgTbl i) r →
    r.toNat < maxResCfgId ∧ Enabled cfg r

/-! ### Single entries -/

structure EntryOk (nc : NodeConfig) : Prop where
  trsOnce : ∀ a b, nc.trsResId a ≠ 0 → nc.trsResId a = nc.trsResId b → a = b
  apart : ∀ a b, nc.trsResId a ≠ 0 → nc.trsResId a ≠ nc.rcvResId b
  rcvOnce : ∀ a b, nc.rcvResId a ≠ 0 → nc.rcvResId a = nc.rcvResId b → a = b

/-- Slots may have been cleared. -/
structure Less (nc' nc : NodeConfig) : Prop where
  mac : nc'.mac = nc.mac
  trs : ∀ a, nc'.trsResId a = 0 ∨ nc'.trsResId a = nc.trsResId a
  rcv : ∀ b, nc'.rcvResId b = 0 ∨ nc'.rcvResId b = nc.rcvResId b

theorem Less.refl (nc : NodeConfig) : Less nc nc := ⟨rfl,fun _ => Or.inr rfl,fun _ => Or.inr rfl⟩

theorem slot_trans {x y z : UInt8} (h : x = 0 ∨ x = y) (h' : y = 0 ∨ y = z) : x = 0 ∨ x = z := by
  rcases h with rfl | rfl
  · exact Or.inl rfl
  · exact h'

theorem Less.trans {nc nc' nc'' : NodeConfig} (h : Less nc'' nc') (h' : Less nc' nc) : Less nc'' nc :=
  ⟨h.mac.trans h'.mac,fun a => slot_trans (h.trs a) (h'.trs a),fun b => slot_trans (h.rcv b) (h'.rcv b)⟩

theorem Less.lists {nc' nc : NodeConfig} (h : Less nc' nc) {r : UInt8} (hr : Lists nc' r) : Lists nc r := by
  obtain ⟨h0,⟨a,ha⟩ | ⟨b,hb⟩⟩ := hr
  · exact ⟨h0,Or.inl ⟨a,((h.trs a).resolve_left (ha ▸ h0)).symm.trans ha⟩⟩
  · exact ⟨h0,Or.inr ⟨b,((h.rcv b).resolve_left (hb ▸ h0)).symm.trans hb⟩⟩

theorem EntryOk.less {nc' nc : NodeConfig} (h : EntryOk nc) (hl : Less nc' nc) : EntryOk nc' where
  trsOnce a b h0 he := by
    have ha := (hl.trs a).resolve_left h0
    have hb := (hl.trs b).resolve_left (he ▸ h0)
    exact h.trsOnce a b (ha ▸ h0) (ha.symm.trans (he.trans hb))
  apart a b h0 he := by
    have ha := (hl.trs a).resolve_left h0
    have hb := (hl.rcv b).resolve_left (he ▸ h0)
    exact h.apart a b (ha ▸ h0) (ha.symm.trans (he.trans hb))
  rcvOnce a b h0 he := by
    have ha := (hl.rcv a).resolve_left h0
    have hb := (hl.rcv b).resolve_left (he ▸ h0)
    exact h.rcvOnce a b (ha ▸ h0) (ha.symm.trans (he.trans hb))

theorem entryOk_zero {nc : NodeConfig} (ht : ∀ a, nc.trsResId a = 0) (hr : ∀ b, nc.rcvResId b = 0) :
    EntryOk nc :=
  ⟨fun a _ h0 => absurd (ht a) h0,fun a _ h0 => absurd (ht a) h0,fun b _ h0 => absurd (hr b) h0⟩

/-- A slot list with a new id in one slot. -/
theorem update_once {n : ℕ} {ids : Fin n → UInt8} (h : ∀ a b, ids a ≠ 0 → ids a = ids b → a = b)
    {resid : UInt8} (hnew : ∀ a, ids a ≠ resid) (j : Fin n) :
    ∀ a b, Function.update ids j resid a ≠ 0 → Function.update ids j resid a = Function.update ids j resid b →
      a = b := by
  intro a b h0 he
  by_cases ha : a = j
  · subst ha
    rw [Function.update_self] at he
    by_contra hab
    rw [Function.update_of_ne (Ne.symm hab)] at he
    exact hnew b he.symm
  · rw [Function.update_of_ne ha] at h0 he
    by_cases hb : b = j
    · subst hb
      rw [Function.update_self] at he
      exact absurd he (hnew a)
    · rw [Function.update_of_ne hb] at he
      exact h a b h0 he

theorem update_slot {n : ℕ} (ids : Fin n → UInt8) (j a : Fin n) (r : UInt8) :
    Function.update ids j r a = r ∨ Function.update ids j r a = ids a := by
  by_cases ha : a = j
  · exact Or.inl (ha ▸ Function.update_self ..)
  · exact Or.inr (Function.update_of_ne ha ..)

theorem not_lists_zero {r : UInt8} : ¬Lists zeroNode r := by
  rintro ⟨h0,⟨_,ha⟩ | ⟨_,hb⟩⟩
  · exact h0 ha.symm
  · exact h0 hb.symm

theorem lists_updateTrs {nc : NodeConfig} {j : Fin 8} {resid r : UInt8}
    (h : Lists {nc with trsResId := Function.update nc.trsResId j resid} r) : Lists nc r ∨ r = resid := by
  obtain ⟨h0,⟨a,ha⟩ | ⟨b,hb⟩⟩ := h
  · rcases update_slot nc.trsResId j a resid with hslot | hslot
    · exact Or.inr (ha.symm.trans hslot)
    · exact Or.inl ⟨h0,Or.inl ⟨a,hslot.symm.trans ha⟩⟩
  · exact Or.inl ⟨h0,Or.inr ⟨b,hb⟩⟩

theorem lists_updateRcv {nc : NodeConfig} {j : Fin 16} {resid r : UInt8}
    (h : Lists {nc with rcvResId := Function.update nc.rcvResId j resid} r) : Lists nc r ∨ r = resid := by
  obtain ⟨h0,⟨a,ha⟩ | ⟨b,hb⟩⟩ := h
  · exact Or.inl ⟨h0,Or.inl ⟨a,ha⟩⟩
  · rcases update_slot nc.rcvResId j b resid with hslot | hslot
    · exact Or.inr (hb.symm.trans hslot)
    · exact Or.inl ⟨h0,Or.inr ⟨b,hslot.symm.trans hb⟩⟩

theorem lists_newEntry {resid r : UInt8} {mac : Mac} (h : Lists (newEntry resid mac) r) : r = resid := by
  obtain ⟨h0,⟨a,ha⟩ | ⟨b,hb⟩⟩ := h
  · have hor : Lists zeroNode r ∨ r = resid := lists_updateTrs (j := 0) ⟨h0,Or.inl ⟨a,ha⟩⟩
    exact hor.resolve_left not_lists_zero
  · exact absurd hb.symm h0

theorem EntryOk.putTrs {nc : NodeConfig} (h : EntryOk nc) {resid : UInt8} (ht : ∀ a, nc.trsResId a ≠ resid)
    (hr : ∀ b, nc.rcvResId b ≠ resid) (j : Fin 8) :
    EntryOk {nc with trsResId := Function.update nc.trsResId j resid} where
  trsOnce := update_once h.trsOnce ht j
  apart a b h0 := by
    dsimp only at h0 ⊢
    rcases update_slot nc.trsResId j a resid with ha | ha
    · rw [ha]
      exact (hr b).symm
    · rw [ha] at h0 ⊢
      exact h.apart a b h0
  rcvOnce := h.rcvOnce

theorem EntryOk.putRcv {nc : NodeConfig} (h : EntryOk nc) {resid : UInt8} (ht : ∀ a, nc.trsResId a ≠ resid)
    (hr : ∀ b, nc.rcvResId b ≠ resid) (j : Fin 16) :
    EntryOk {nc with rcvResId := Function.update nc.rcvResId j resid} where
  trsOnce := h.trsOnce
  apart a b h0 := by
    dsimp only at h0 ⊢
    rcases update_slot nc.rcvResId j b resid with hb | hb
    · rw [hb]
      exact ht a
    · rw [hb]
      exact h.apart a b h0
  rcvOnce := update_once h.rcvOnce hr j

theorem less_dropTrs (resid : UInt8) (nc : NodeConfig) : Less (dropTrs resid nc) nc :=
  ⟨rfl,dropTrs_slot resid nc,fun _ => Or.inr rfl⟩

theorem dropRcv_slot (resid : UInt8) (nc : NodeConfig) (b : Fin 16) :
    (dropRcv resid nc).rcvResId b = 0 ∨ (dropRcv resid nc).rcvResId b = nc.rcvResId b := by
  by_cases h : nc.rcvResId b = resid
  · exact Or.inl (if_pos h)
  · exact Or.inr (if_neg h)

theorem dropRcv_ne {resid : UInt8} (h0 : resid ≠ 0) (nc : NodeConfig) (b : Fin 16) :
    (dropRcv resid nc).rcvResId b ≠ resid := by
  by_cases h : nc.rcvResId b = resid
  · have hz : (dropRcv resid nc).rcvResId b = 0 := if_pos h
    rw [hz]
    exact h0.symm
  · have hs : (dropRcv resid nc).rcvResId b = nc.rcvResId b := if_neg h
    rw [hs]
    exact h

theorem less_dropRcv (resid : UInt8) (nc : NodeConfig) : Less (dropRcv resid nc) nc :=
  ⟨rfl,fun _ => Or.inr rfl,dropRcv_slot resid nc⟩

theorem less_clearTrs (nc : NodeConfig) (j : Fin 8) :
    Less {nc with trsResId := Function.update nc.trsResId j unusedResId} nc :=
  ⟨rfl,fun a => update_slot nc.trsResId j a 0,fun _ => Or.inr rfl⟩

theorem less_clearRcv (nc : NodeConfig) (j : Fin 16) :
    Less {nc with rcvResId := Function.update nc.rcvResId j unusedResId} nc :=
  ⟨rfl,fun _ => Or.inr rfl,fun b => update_slot nc.rcvResId j b 0⟩

/-! ### Tables with less in them -/

/-- Entries may have become invalid and slots unused. -/
def Shrunk (tbl' tbl : NodeTbl) : Prop := ∀ i, Valid (tbl' i) → Valid (tbl i) ∧ Less (tbl' i) (tbl i)

theorem Shrunk.refl (tbl : NodeTbl) : Shrunk tbl tbl := fun i h => ⟨h,Less.refl (tbl i)⟩

theorem Shrunk.trans {t₁ t₂ t₃ : NodeTbl} (h : Shrunk t₁ t₂) (h' : Shrunk t₂ t₃) : Shrunk t₁ t₃ := by
  intro i hi
  obtain ⟨h₂,hl⟩ := h i hi
  obtain ⟨h₃,hl'⟩ := h' i h₂
  exact ⟨h₃,hl.trans hl'⟩

theorem shrunk_onValid (f : NodeConfig → NodeConfig) (hf : ∀ nc, Less (f nc) nc)
    (hst : ∀ nc, (f nc).cfgState = nc.cfgState) (tbl : NodeTbl) : Shrunk (fun i => onValid f (tbl i)) tbl := by
  intro i hi
  have hv := (valid_onValid f hst).mp hi
  dsimp only
  rw [onValid_of_valid hv]
  exact ⟨hv,hf _⟩

theorem shrunk_update {tbl : NodeTbl} {k : Fin 64} {nc : NodeConfig}
    (h : Valid nc → Valid (tbl k) ∧ Less nc (tbl k)) : Shrunk (Function.update tbl k nc) tbl := by
  intro i hi
  by_cases hik : i = k
  · subst hik
    rw [Function.update_self] at hi ⊢
    exact h hi
  · rw [Function.update_of_ne hik] at hi ⊢
    exact ⟨hi,Less.refl _⟩

theorem shrunk_clear (ptr : UnsetPtr) (cfg : ResmgrConfig) :
    Shrunk (clearNodeConfig ptr cfg).nodeCfgTbl cfg.nodeCfgTbl := by
  cases ptr with
  | elsewhere b => exact Shrunk.refl _
  | table =>
    intro i hi
    have he : clearEntry (cfg.nodeCfgTbl i) = cfg.nodeCfgTbl i := clearEntry_of_valid hi
    have he' : (clearNodeConfig .table cfg).nodeCfgTbl i = cfg.nodeCfgTbl i := he
    rw [he'] at hi ⊢
    exact ⟨hi,Less.refl _⟩

/-- What `del_res_config` clears before it looks for entries with nothing left in them. -/
theorem shrunk_drop (resid : UInt8) (tbl : NodeTbl) :
    Shrunk (fun i => onValid (fun nc => dropRcv resid (dropTrs resid nc)) (tbl i)) tbl :=
  shrunk_onValid _ (fun nc => (less_dropRcv resid _).trans (less_dropTrs resid nc)) (fun _ => rfl) _

theorem shrunk_delRes (ptr : UnsetPtr) (cfg : ResmgrConfig) (resid : UInt8) :
    Shrunk (delResConfig ptr cfg resid).1.nodeCfgTbl cfg.nodeCfgTbl := by
  unfold delResConfig
  split
  · exact Shrunk.refl _
  · exact (shrunk_clear ptr _).trans (shrunk_drop resid _)

/-- A slot of one entry is cleared, then the entry if nothing is left in it. -/
theorem shrunk_clearSlot (ptr : UnsetPtr) {cfg : ResmgrConfig} {i : Fin 64} (hi : Valid (cfg.nodeCfgTbl i))
    {nc : NodeConfig} (hless : Less nc (cfg.nodeCfgTbl i)) :
    Shrunk (clearNodeConfig ptr {cfg with nodeCfgTbl := Function.update cfg.nodeCfgTbl i nc}).nodeCfgTbl
      cfg.nodeCfgTbl :=
  (shrunk_clear ptr _).trans (shrunk_update fun _ => ⟨hi,hless⟩)

theorem shrunk_delTrs (ptr : UnsetPtr) (cfg : ResmgrConfig) (resid : UInt8) (mac : Mac) :
    Shrunk (delTrsRes ptr cfg resid mac).1.nodeCfgTbl cfg.nodeCfgTbl := by
  unfold delTrsRes
  split
  · exact Shrunk.refl _
  split
  · exact Shrunk.refl _
  next i hi =>
  dsimp only
  split
  · exact Shrunk.refl _
  next j hj => exact shrunk_clearSlot ptr (findNode_some hi).1 (less_clearTrs _ j)

theorem shrunk_delRcv (ptr : UnsetPtr) (cfg : ResmgrConfig) (resid : UInt8) (mac : Mac) :
    Shrunk (delRcvRes ptr cfg resid mac).1.nodeCfgTbl cfg.nodeCfgTbl := by
  unfold delRcvRes
  split
  · exact Shrunk.refl _
  split
  · exact Shrunk.refl _
  next i hi =>
  dsimp only
  split
  · exact Shrunk.refl _
  next j hj => exact shrunk_clearSlot ptr (findNode_some hi).1 (less_clearRcv _ j)

theorem delRcv_resCfg (ptr : UnsetPtr) (cfg : ResmgrConfig) (resid : UInt8) (mac : Mac) :
    (delRcvRes ptr cfg resid mac).1.resCfgTbl = cfg.resCfgTbl := by
  unfold delRcvRes
  split
  · rfl
  split
  · rfl
  dsimp only
  split
  · rfl
  · exact clearNodeConfig_resCfgTbl ..

/-- The loop of `del_node_config` over the slots of the entry given up. -/
theorem delNode_loop {P : ResmgrConfig → Prop} (ptr : UnsetPtr) (i : Fin 64)
    (hdel : ∀ cfg resid, P cfg → P (delResConfig ptr cfg resid).1) (js : List (Fin 8)) {cfg : ResmgrConfig}
    (h : P cfg) : P (js.foldl (fun cfg j =>
      let resid := (cfg.nodeCfgTbl i).trsResId j
      if resid ≠ unusedResId then (delResConfig ptr cfg resid).1 else cfg) cfg) := by
  induction js generalizing cfg with
  | nil => exact h
  | cons j js ih =>
    apply ih
    dsimp only
    split
    · exact hdel cfg _ h
    · exact h

theorem shrunk_delNode (ptr : UnsetPtr) (cfg : ResmgrConfig) (mac : Mac) :
    Shrunk (delNodeConfig ptr cfg mac).1.nodeCfgTbl cfg.nodeCfgTbl := by
  unfold delNodeConfig
  split
  · exact Shrunk.refl _
  next i hi =>
  apply delNode_loop (P := fun cfg' => Shrunk cfg'.nodeCfgTbl cfg.nodeCfgTbl) ptr i
  · exact fun cfg' resid h => (shrunk_delRes ptr cfg' resid).trans h
  · exact shrunk_update fun hv => absurd rfl hv

namespace Consistent

theorem entry {cfg : ResmgrConfig} (h : Consistent cfg) {i : Fin 64} (hi : Valid (cfg.nodeCfgTbl i)) :
    EntryOk (cfg.nodeCfgTbl i) :=
  ⟨fun a b h0 he => (h.trsOnce i i a b hi hi h0 he).2,fun a b => h.apart i a b hi,fun a b => h.rcvOnce i a b hi⟩

/-- Less in the node table, and what is still listed stays enabled. -/
theorem shrink {cfg cfg' : ResmgrConfig} (h : Consistent cfg) (hs : Shrunk cfg'.nodeCfgTbl cfg.nodeCfgTbl)
    (hen : ∀ i r, Valid (cfg'.nodeCfgTbl i) → Lists (cfg'.nodeCfgTbl i) r → Enabled cfg r → Enabled cfg' r) :
    Consistent cfg' where
  macs i j hi hj he := by
    obtain ⟨hvi,hli⟩ := hs i hi
    obtain ⟨hvj,hlj⟩ := hs j hj
    exact h.macs i j hvi hvj (hli.mac.symm.trans (he.trans hlj.mac))
  trsOnce := h.trsOnce.below fun i hi => ⟨(hs i hi).1,(hs i hi).2.trs⟩
  apart i a b hi := ((h.entry (hs i hi).1).less (hs i hi).2).apart a b
  rcvOnce i a b hi := ((h.entry (hs i hi).1).less (hs i hi).2).rcvOnce a b
  enabled i r hi hr := by
    obtain ⟨hlt,hold⟩ := h.enabled i r (hs i hi).1 ((hs i hi).2.lists hr)
    exact ⟨hlt,hen i r hi hr hold⟩

/-- A new entry, or an old one with something new in it. -/
theorem update {cfg : ResmgrConfig} (h : Consistent cfg) {k : Fin 64} {nc : NodeConfig} (hok : EntryOk nc)
    (hmac : ∀ j, j ≠ k → Valid (cfg.nodeCfgTbl j) → (cfg.nodeCfgTbl j).mac ≠ nc.mac)
    (htrs : ∀ j, j ≠ k → Valid (cfg.nodeCfgTbl j) → ∀ a b, nc.trsResId a ≠ 0 →
      (cfg.nodeCfgTbl j).trsResId b ≠ nc.trsResId a)
    (hen : ∀ r, Lists nc r → r.toNat < maxResCfgId ∧ Enabled cfg r) :
    Consistent {cfg with nodeCfgTbl := Function.update cfg.nodeCfgTbl k nc} := by
  have hentry : ∀ i, Valid (Function.update cfg.nodeCfgTbl k nc i) →
      EntryOk (Function.update cfg.nodeCfgTbl k nc i) := by
    intro i hi
    by_cases hik : i = k
    · subst hik
      rw [Function.update_self]
      exact hok
    · rw [Function.update_of_ne hik] at hi ⊢
      exact h.entry hi
  constructor
  · intro i j hi hj he
    dsimp only at hi hj he
    by_contra hij
    by_cases hik : i = k
    · subst hik
      rw [Function.update_self] at he
      rw [Function.update_of_ne (Ne.symm hij)] at hj he
      exact hmac j (Ne.symm hij) hj he.symm
    · rw [Function.update_of_ne hik] at hi he
      by_cases hjk : j = k
      · subst hjk
        rw [Function.update_self] at he
        exact hmac i hik hi he
      · rw [Function.update_of_ne hjk] at hj he
        exact hij (h.macs i j hi hj he)
  · intro i j a b hi hj h0 he
    dsimp only at hi hj h0 he
    by_cases hij : i = j
    · subst hij
      exact ⟨rfl,(hentry i hi).trsOnce a b h0 he⟩
    · exfalso
      by_cases hik : i = k
      · subst hik
        rw [Function.update_self] at h0 he
        rw [Function.update_of_ne (Ne.symm hij)] at hj he
        exact htrs j (Ne.symm hij) hj a b h0 he.symm
      · rw [Function.update_of_ne hik] at hi h0 he
        by_cases hjk : j = k
        · subst hjk
          rw [Function.update_self] at he
          exact htrs i hik hi b a (he ▸ h0) he
        · rw [Function.update_of_ne hjk] at hj he
          exact hij (h.trsOnce i j a b hi hj h0 he).1
  · intro i a b hi
    exact (hentry i hi).apart a b
  · intro i a b hi
    exact (hentry i hi).rcvOnce a b
  · intro i r hi hr
    dsimp only at hi hr
    by_cases hik : i = k
    · subst hik
      rw [Function.update_self] at hr
      exact hen r hr
    · rw [Function.update_of_ne hik] at hi hr
      exact h.enabled i r hi hr

end Consistent

theorem findNode_none {cfg : ResmgrConfig} {mac : Mac} (h : findNode cfg mac = none) (i : Fin 64)
    (hi : Valid (cfg.nodeCfgTbl i)) : (cfg.nodeCfgTbl i).mac ≠ mac := by
  have := List.find?_eq_none.mp h i (List.mem_finRange i)
  intro he
  simp [he] at this
  exact hi this

namespace Consistent

/-- An id that no node sends is put into a node's entry, or one is added to its receive list. -/
theorem updateAt {cfg : ResmgrConfig} (h : Consistent cfg) {i : Fin 64} (hi : Valid (cfg.nodeCfgTbl i))
    {nc : NodeConfig} (hok : EntryOk nc) (hmac : nc.mac = (cfg.nodeCfgTbl i).mac)
    (htrs : ∀ a, nc.trsResId a = (cfg.nodeCfgTbl i).trsResId a ∨
      ∀ j b, Valid (cfg.nodeCfgTbl j) → (cfg.nodeCfgTbl j).trsResId b ≠ nc.trsResId a)
    (hen : ∀ r, Lists nc r → Lists (cfg.nodeCfgTbl i) r ∨ r.toNat < maxResCfgId ∧ Enabled cfg r) :
    Consistent {cfg with nodeCfgTbl := Function.update cfg.nodeCfgTbl i nc} := by
  refine h.update hok ?_ ?_ ?_
  · intro j hji hj he
    exact hji (h.macs j i hj hi (he.trans hmac))
  · intro j hji hj a b h0 he
    rcases htrs a with ha | ha
    · rw [ha] at h0 he
      exact hji (h.trsOnce i j a b hi hj h0 he.symm).1.symm
    · exact ha j b hj he
  · intro r hr
    rcases hen r hr with hold | hnew
    · exact h.enabled i r hi hold
    · exact hnew

/-- A node that has no entry yet gets one. -/
theorem addNew {cfg : ResmgrConfig} (h : Consistent cfg) {k : Fin 64} {nc : NodeConfig} (hok : EntryOk nc)
    (hmac : ∀ j, Valid (cfg.nodeCfgTbl j) → (cfg.nodeCfgTbl j).mac ≠ nc.mac)
    (htrs : ∀ a, nc.trsResId a = 0 ∨
      ∀ j b, Valid (cfg.nodeCfgTbl j) → (cfg.nodeCfgTbl j).trsResId b ≠ nc.trsResId a)
    (hen : ∀ r, Lists nc r → r.toNat < maxResCfgId ∧ Enabled cfg r) :
    Consistent {cfg with nodeCfgTbl := Function.update cfg.nodeCfgTbl k nc} :=
  h.update hok (fun j _ hj => hmac j hj)
    (fun j _ hj a b h0 => (htrs a).resolve_left h0 j b hj) hen

/-! ### The commands -/

theorem addRes {cfg : ResmgrConfig} (h : Consistent cfg) (resid : UInt8) (res : ResConfig) :
    Consistent (addResConfig cfg resid res).1 := by
  have hnodes : (addResConfig cfg resid res).1.nodeCfgTbl = cfg.nodeCfgTbl := by
    unfold addResConfig
    split <;> rfl
  refine h.shrink (hnodes ▸ Shrunk.refl _) ?_
  intro i r _ _ hr
  by_cases hres : r = resid
  · subst hres
    unfold addResConfig
    split
    · exact hr
    · unfold Enabled
      dsimp only
      rw [Function.update_self]
      split
      · rfl
      · split <;> rfl
  · rw [Enabled,addRes_other hres]
    exact hr

theorem delRes {cfg : ResmgrConfig} (h : Consistent cfg) (ptr : UnsetPtr) (resid : UInt8) :
    Consistent (delResConfig ptr cfg resid).1 := by
  unfold delResConfig
  split
  · exact h
  next h0 =>
  have hstruck := shrunk_drop resid cfg.nodeCfgTbl
  have hclear := shrunk_clear ptr
    ⟨Function.update cfg.resCfgTbl resid {cfg.resCfgTbl resid with cfgState := configUnvalid},
      fun i => onValid (fun nc => dropRcv resid (dropTrs resid nc)) (cfg.nodeCfgTbl i)⟩
  refine h.shrink (hclear.trans hstruck) ?_
  intro i r hi hr hen
  obtain ⟨hv,hless⟩ := hclear i hi
  have hne : r ≠ resid := by
    rintro rfl
    obtain ⟨-,hlist⟩ := hless.lists hr
    have hv' := (hstruck i hv).1
    dsimp only at hlist
    rw [onValid_of_valid hv'] at hlist
    rcases hlist with ⟨a,ha⟩ | ⟨b,hb⟩
    · exact dropTrs_ne h0 _ a ha
    · exact dropRcv_ne h0 _ b hb
  rw [Enabled,clearNodeConfig_resCfgTbl]
  dsimp only
  rw [Function.update_of_ne hne]
  exact hen

theorem strike {cfg : ResmgrConfig} (h : Consistent cfg) (resid send2all : UInt8) :
    Consistent (strikeTrs cfg resid send2all) := by
  refine h.shrink (shrunk_onValid (dropTrs resid) (less_dropTrs resid) (fun _ => rfl) _) ?_
  intro i r _ _ hen
  rw [Enabled,strikeTrs]
  dsimp only
  by_cases hr : r = resid
  · subst hr
    rw [Function.update_self]
    exact hen
  · rw [Function.update_of_ne hr]
    exact hen

theorem fileTrs {cfg : ResmgrConfig} (h : Consistent cfg) {resid : UInt8} (h0 : resid ≠ 0)
    (hlt : resid.toNat < maxResCfgId) (hen : Enabled cfg resid) (mac : Mac)
    (hnew : ∀ i a, Valid (cfg.nodeCfgTbl i) → (cfg.nodeCfgTbl i).trsResId a ≠ resid) :
    Consistent (ResTables.fileTrs cfg resid mac).1 := by
  unfold ResTables.fileTrs
  cases hf : findNode cfg mac with
  | some i =>
    have hi := (findNode_some hf).1
    have hdrop : EntryOk (dropRcv resid (cfg.nodeCfgTbl i)) := (h.entry hi).less (less_dropRcv _ _)
    dsimp only
    unfold putTrs
    split
    · next hsome =>
      obtain ⟨a,ha⟩ := findSlot_isSome.mp hsome
      exact absurd ha (hnew i a hi)
    split
    · exact h.updateAt hi hdrop rfl (fun a => Or.inl rfl) fun r hr => Or.inl ((less_dropRcv _ _).lists hr)
    · next j hj =>
      refine h.updateAt hi (hdrop.putTrs (fun a => hnew i a hi) (dropRcv_ne h0 _) j) rfl ?_ ?_
      · intro a
        rcases update_slot (cfg.nodeCfgTbl i).trsResId j a resid with ha | ha
        · right
          intro k b hk
          exact fun he => hnew k b hk (he.trans ha)
        · exact Or.inl ha
      · intro r hr
        rcases lists_updateTrs hr with hold | rfl
        · exact Or.inl ((less_dropRcv resid _).lists hold)
        · exact Or.inr ⟨hlt,hen⟩
  | none =>
    dsimp only
    split
    · exact h
    · next k hk =>
      refine h.addNew ?_ ?_ ?_ ?_
      · exact (entryOk_zero (fun _ => rfl) (fun _ => rfl) : EntryOk {zeroNode with
          mac := mac,cfgState := configEnable}).putTrs (fun _ => h0.symm) (fun _ => h0.symm) 0
      · exact fun j hj => findNode_none hf j hj
      · intro a
        rcases update_slot zeroNode.trsResId 0 a resid with ha | ha
        · exact Or.inr fun j b hj he => hnew j b hj (he.trans ha)
        · exact Or.inl ha
      · intro r hr
        rcases lists_newEntry hr with rfl
        exact ⟨hlt,hen⟩

theorem addTrs {cfg : ResmgrConfig} (h : Consistent cfg) {resid : UInt8} (hlt : resid.toNat < maxResCfgId)
    (mac : Mac) (send2all : UInt8) : Consistent (addTrsRes .table cfg resid mac send2all).1 := by
  unfold addTrsRes
  split
  · exact h
  next h0 =>
  split
  · exact h
  next hread =>
  split
  · exact h
  have hen : Enabled cfg resid := not_not.mp hread
  refine (h.strike resid send2all).fileTrs h0 hlt ?_ mac ?_
  · rw [Enabled,strikeTrs]
    dsimp only
    rw [Function.update_self]
    exact hen
  · intro i a hi
    have hi' := (valid_onValid (dropTrs resid) (fun _ => rfl)).mp hi
    have he : (strikeTrs cfg resid send2all).nodeCfgTbl i = dropTrs resid (cfg.nodeCfgTbl i) :=
      onValid_of_valid hi'
    rw [he]
    exact dropTrs_ne h0 _ a

theorem addRcv {cfg : ResmgrConfig} (h : Consistent cfg) {resid : UInt8}
    (hin : InTable resid ∨ resid = broadcastResId) (mac : Mac) : Consistent (addRcvRes cfg resid mac).1 := by
  unfold addRcvRes
  split
  · exact h
  next h0 =>
  split
  · exact h
  next hcheck =>
  -- 255 goes into no list
  have hname : resid ≠ broadcastResId → resid.toNat < maxResCfgId ∧ Enabled cfg resid := by
    intro hne
    refine ⟨(hin.resolve_right hne).2,?_⟩
    by_contra hdis
    exact hcheck ⟨hdis,hne⟩
  cases hf : findNode cfg mac with
  | some i =>
    have hi := (findNode_some hf).1
    dsimp only
    unfold putRcv
    split
    · exact h.updateAt hi ⟨(h.entry hi).trsOnce,(h.entry hi).apart,(h.entry hi).rcvOnce⟩ rfl
        (fun a => Or.inl rfl) fun r hr => Or.inl hr
    next hne =>
    split
    · exact h.updateAt hi (h.entry hi) rfl (fun a => Or.inl rfl) fun r hr => Or.inl hr
    next htrs =>
    split
    · exact h.updateAt hi (h.entry hi) rfl (fun a => Or.inl rfl) fun r hr => Or.inl hr
    next hrcv =>
    split
    · exact h.updateAt hi (h.entry hi) rfl (fun a => Or.inl rfl) fun r hr => Or.inl hr
    · next j hj =>
      have ht : ∀ a, (cfg.nodeCfgTbl i).trsResId a ≠ resid := fun a ha => htrs (findSlot_isSome.mpr ⟨a,ha⟩)
      have hr : ∀ b, (cfg.nodeCfgTbl i).rcvResId b ≠ resid := fun b hb => hrcv (findSlot_isSome.mpr ⟨b,hb⟩)
      refine h.updateAt hi ((h.entry hi).putRcv ht hr j) rfl (fun a => Or.inl rfl) ?_
      intro r hr
      rcases lists_updateRcv hr with hold | rfl
      · exact Or.inl hold
      · exact Or.inr (hname hne)
  | none =>
    dsimp only
    split
    · exact h
    · next k hk =>
      unfold newReceiver
      split
      · refine h.addNew (entryOk_zero (fun _ => rfl) (fun _ => rfl)) (fun j hj => findNode_none hf j hj)
          (fun a => Or.inl rfl) ?_
        exact fun r hr => absurd hr not_lists_zero
      · next hne =>
        refine h.addNew ?_ (fun j hj => findNode_none hf j hj) (fun a => Or.inl rfl) ?_
        · exact (entryOk_zero (fun _ => rfl) (fun _ => rfl) : EntryOk {zeroNode with
            mac := mac,cfgState := configEnable}).putRcv (fun _ => Ne.symm h0) (fun _ => Ne.symm h0) 0
        · intro r hr
          rcases lists_updateRcv hr with hold | rfl
          · exact absurd hold not_lists_zero
          · exact hname hne

theorem delTrs {cfg : ResmgrConfig} (h : Consistent cfg) (ptr : UnsetPtr) (resid : UInt8) (mac : Mac) :
    Consistent (delTrsRes ptr cfg resid mac).1 := by
  refine h.shrink (shrunk_delTrs ptr cfg resid mac) ?_
  intro i r _ _ hen
  rw [Enabled,delTrs_resCfg]
  exact hen

theorem delRcv {cfg : ResmgrConfig} (h : Consistent cfg) (ptr : UnsetPtr) (resid : UInt8) (mac : Mac) :
    Consistent (delRcvRes ptr cfg resid mac).1 := by
  refine h.shrink (shrunk_delRcv ptr cfg resid mac) ?_
  intro i r _ _ hen
  rw [Enabled,delRcv_resCfg]
  exact hen

theorem delNode {cfg : ResmgrConfig} (h : Consistent cfg) (ptr : UnsetPtr) (mac : Mac) :
    Consistent (delNodeConfig ptr cfg mac).1 := by
  unfold delNodeConfig
  split
  · exact h
  next i hi =>
  apply delNode_loop (P := Consistent) ptr i fun cfg resid h => h.delRes ptr resid
  refine h.shrink (shrunk_update fun hv => absurd rfl hv) ?_
  exact fun j r _ _ hen => hen

end Consistent

theorem consistent_empty : Consistent emptyConfig := by
  have hno : ∀ i, ¬Valid (emptyConfig.nodeCfgTbl i) := fun _ h => h rfl
  exact ⟨fun i _ hi => absurd hi (hno i),fun i _ _ _ hi => absurd hi (hno i),
    fun i _ _ hi => absurd hi (hno i),fun i _ _ hi => absurd hi (hno i),fun i _ hi => absurd hi (hno i)⟩

theorem Consistent.call {cfg : ResmgrConfig} (h : Consistent cfg) {cs : List Command} {c : Command}
    (hc : InRange cs cfg c) : Consistent (c.call .table cfg).1 := by
  cases c with
  | addRes resid res => exact h.addRes resid res
  | delRes resid => exact h.delRes .table resid
  | addTrs resid mac send2all => exact h.addTrs hc.2 mac send2all
  | addRcv resid mac => exact h.addRcv hc mac
  | delTrs resid mac => exact h.delTrs .table resid mac
  | delRcv resid mac => exact h.delRcv .table resid mac
  | delNode mac => exact h.delNode .table mac

/-- Every configuration that the commands reach from the empty one is consistent. -/
theorem run_consistent {cs : List Command} {cfg : ResmgrConfig} (h : Run step InRange emptyConfig cs cfg) :
    Consistent cfg := by
  refine h.invariant (I := fun _ cfg => Consistent cfg) consistent_empty ?_
  intro cs cfg c cfg' _ hcfg hc ht
  rw [← Option.some.inj ht]
  exact hcfg.call hc

/-- Resource 1 is sent by one node and received by another, which then takes it over. -/
theorem shared_consistent :
    let cs : List Command := [.addTrs 1 2 0,.addRcv 1 2,.addTrs 1 1 0,.addRes 1 {zeroRes with len := 4}]
    Consistent (cs.foldr (fun c cfg => (c.call .table cfg).1) emptyConfig) := by
  have h1 : InTable 1 := by decide
  refine run_consistent (.cons (.cons (.cons (.cons .nil ?_ rfl) ?_ rfl) ?_ rfl) ?_ rfl)
  · exact h1
  · exact h1
  · exact Or.inl h1
  · exact h1

end Consistency
end Autbus
