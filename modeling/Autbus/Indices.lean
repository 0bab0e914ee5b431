import Autbus.Failures
import Autbus.Assignment

/-! The indices into `res_cfg_tbl` and `res_state`. Both tables end at 253, while 254 counts
as an id and 255 stands for all of them. -/
namespace Autbus
namespace Indices

open ResTables Placement Edits Trace Consistency

/-- An access to one of the two tables. -/
inductive Use
  | cfg (i : UInt8)
  | state (i : UInt8)
  deriving DecidableEq

def Use.index : Use → ℕ
  | .cfg i => i.toNat
  | .state i => i.toNat

structure Tables where
  cfg : ResmgrConfig
  rs : ResStateTbl

inductive Event
  /-- `set_resmgr`, or a configuration loaded from flash. -/
  | install (image : ResmgrConfig)
  | command (c : Command)
  | activeRes (resid snode freq pos : UInt8)
  | deactiveRes (resid : UInt8)
  | getTrs (mac : Mac)
  | getRcv (mac : Mac)
  | getDel (mac : Mac)

def Event.next (ptr : UnsetPtr) (s : Tables) : Event → Tables
  | .install image => {s with cfg := image}
  | .command c => {s with cfg := (c.call ptr s.cfg).1}
  | .activeRes resid snode freq pos => {s with rs := ResTables.activeRes s.cfg s.rs resid snode freq pos}
  | .deactiveRes resid => {s with rs := ResTables.deactiveRes s.rs resid}
  | _ => s

def step (ptr : UnsetPtr) (s : Tables) (e : Event) : Option Tables := some (e.next ptr s)

/-! ### The accesses of each function -/

/-- The resources of the node are deleted one after the other. -/
def delNodeUses (cfg : ResmgrConfig) (mac : Mac) : List Use := (nodeTrsIds cfg mac).map .cfg

def commandUses (ptr : UnsetPtr) (cfg : ResmgrConfig) : Command → List Use
  | .addRes resid res =>
    if resid = 0 then []
    -- without a position the entry before is read
    else if res.pos ≠ 0 ∨ resid = 1 then [.cfg resid] else [.cfg resid,.cfg (resid-1)]
  | .delRes resid => if resid = 0 then [] else [.cfg resid]
  | .addTrs resid _ _ =>
    if resid = 0 then []
    else (match ptr with
        | .table => [Use.cfg resid]
        | .elsewhere _ => []) ++
      if ptr.reads (cfg.resCfgTbl resid).cfgState ≠ configEnable then [] else [.cfg resid]
  -- the entry is read before the id is compared with 255
  | .addRcv resid _ => if resid = 0 then [] else [.cfg resid]
  | .delTrs _ _ => []
  | .delRcv _ _ => []
  | .delNode mac => delNodeUses cfg mac

def activeUses (cfg : ResmgrConfig) (resid : UInt8) : List Use :=
  if resid = 0 then [] else if (cfg.resCfgTbl resid).cfgState ≠ configEnable then [.cfg resid]
  else [.cfg resid,.state resid]

def deactiveUses (resid : UInt8) : List Use := if resid = 0 then [] else [.state resid]

/-- The state is read first, the configuration of an active resource then. -/
def looks (rs : ResStateTbl) (t : UInt8) : List Use :=
  if (rs t).state ≠ 0 then [.state t,.cfg t] else [.state t]

/-- The ids a loop looks at until it has found `room` of those it wants. -/
def scanned (p : UInt8 → Bool) : ℕ → List UInt8 → List UInt8
  | 0,_ => []
  | _+1,[] => []
  | room+1,t::ts => t::scanned p (if p t then room else room+1) ts

def active (rs : ResStateTbl) (t : UInt8) : Bool := (rs t).state ≠ 0

def sentToAll (cfg : ResmgrConfig) (rs : ResStateTbl) (t : UInt8) : Bool :=
  (rs t).state ≠ 0 ∧ (cfg.resCfgTbl t).send2all ≠ 0

def rcvUses (cfg : ResmgrConfig) (rs : ResStateTbl) (mac : Mac) : List Use :=
  match findNode cfg mac with
  | none => (scanned (sentToAll cfg rs) maxRcvResCnt tblIds).flatMap (looks rs)
  | some i =>
    let nc := cfg.nodeCfgTbl i
    if nc.rcvall ≠ 0 then (scanned (active rs) maxRcvResCnt tblIds).flatMap (looks rs)
    else (rcvIds nc).flatMap (looks rs) ++
      (scanned (sentToAll cfg rs) (maxRcvResCnt-((rcvIds nc).filter (active rs)).length)
        tblIds).flatMap (looks rs)

def delUses (cfg : ResmgrConfig) (rs : ResStateTbl) (mac : Mac) : List Use :=
  (nodeTrsIds cfg mac).flatMap (looks rs)

def Event.uses (ptr : UnsetPtr) (s : Tables) : Event → List Use
  | .install _ => []
  | .command c => commandUses ptr s.cfg c
  | .activeRes resid _ _ _ => activeUses s.cfg resid
  | .deactiveRes resid => deactiveUses resid
  | .getTrs mac => (nodeTrsIds s.cfg mac).map .cfg
  | .getRcv mac => rcvUses s.cfg s.rs mac
  | .getDel mac => delUses s.cfg s.rs mac

/-- Every index the event uses lies in the tables. -/
def Fits (ptr : UnsetPtr) (_ : List Event) (s : Tables) (e : Event) : Prop :=
  ∀ u ∈ e.uses ptr s, u.index < maxResCfgId

/-- Neither 254 nor 255. -/
def Sized (resid : UInt8) : Prop := resid.toNat < maxResCfgId

instance (resid : UInt8) : Decidable (Sized resid) := inferInstanceAs (Decidable (_ < _))

/-- The node sends ids of the tables only. -/
def SendsSized (cfg : ResmgrConfig) (mac : Mac) : Prop :=
  ∀ i a, findNode cfg mac = some i → Sized ((cfg.nodeCfgTbl i).trsResId a)

/-- So does it receive, unless it receives everything. -/
def ReceivesSized (cfg : ResmgrConfig) (mac : Mac) : Prop :=
  ∀ i b, findNode cfg mac = some i → (cfg.nodeCfgTbl i).rcvall = 0 → Sized ((cfg.nodeCfgTbl i).rcvResId b)

/-- The id given, or those listed for the node, are neither 254 nor 255. -/
def Proper (ptr : UnsetPtr) (_ : List Event) (s : Tables) : Event → Prop
  | .install _ => True
  | .command (.addRes resid _) => Sized resid
  | .command (.delRes resid) => Sized resid
  | .command (.addTrs resid _ _) => ptr = .table ∨ ptr = .elsewhere configEnable → Sized resid
  | .command (.addRcv resid _) => Sized resid
  | .command (.delTrs _ _) => True
  | .command (.delRcv _ _) => True
  | .command (.delNode mac) => SendsSized s.cfg mac
  | .activeRes resid _ _ _ => Sized resid
  | .deactiveRes resid => Sized resid
  | .getTrs mac => SendsSized s.cfg mac
  | .getRcv mac => ReceivesSized s.cfg mac
  | .getDel mac => SendsSized s.cfg mac

/-! ### When they fit -/

theorem sized_zero : Sized 0 := by decide

theorem sized_of_tblIds {t : UInt8} (h : t ∈ tblIds) : Sized t :=
  UInt8.lt_iff_toNat_lt.mp (Assignment.mem_tblIds.mp h).2

theorem scanned_subset (p : UInt8 → Bool) (room : ℕ) (ts : List UInt8) : ∀ t ∈ scanned p room ts, t ∈ ts := by
  induction ts generalizing room with
  | nil =>
    cases room with
    | zero => exact fun t h => h
    | succ room => exact fun t h => h
  | cons t ts ih =>
    cases room with
    | zero => exact fun _ h => absurd h List.not_mem_nil
    | succ room =>
      intro r hr
      rcases List.mem_cons.mp hr with rfl | hr
      · exact List.mem_cons_self
      · exact List.mem_cons_of_mem _ (ih _ r hr)

theorem fits_looks {rs : ResStateTbl} {ts : List UInt8} :
    (∀ u ∈ ts.flatMap (looks rs), u.index < maxResCfgId) ↔ ∀ t ∈ ts, Sized t := by
  have hone : ∀ t, (∀ u ∈ looks rs t, u.index < maxResCfgId) ↔ Sized t := by
    intro t
    unfold looks
    split
    · simp [Use.index,Sized]
    · simp [Use.index,Sized]
  simp only [List.mem_flatMap]
  constructor
  · exact fun h t ht => (hone t).mp fun u hu => h u ⟨t,ht,hu⟩
  · rintro h u ⟨t,ht,hu⟩
    exact (hone t).mpr (h t ht) u hu

theorem fits_scanned (rs : ResStateTbl) (p : UInt8 → Bool) (room : ℕ) :
    ∀ u ∈ (scanned p room tblIds).flatMap (looks rs), u.index < maxResCfgId :=
  fits_looks.mpr fun t ht => sized_of_tblIds (scanned_subset p room tblIds t ht)

theorem sized_nodeTrsIds {cfg : ResmgrConfig} {mac : Mac} :
    (∀ t ∈ nodeTrsIds cfg mac, Sized t) ↔ SendsSized cfg mac := by
  constructor
  · intro h i a hi
    by_cases h0 : (cfg.nodeCfgTbl i).trsResId a = 0
    · rw [h0]
      exact sized_zero
    · exact h _ (mem_nodeTrsIds.mpr ⟨i,hi,mem_trsIds.mpr ⟨h0,a,rfl⟩⟩)
  · intro h t ht
    obtain ⟨i,hi,hti⟩ := mem_nodeTrsIds.mp ht
    obtain ⟨-,a,rfl⟩ := mem_trsIds.mp hti
    exact h i a hi

theorem mem_rcvIds {nc : NodeConfig} {t : UInt8} : t ∈ rcvIds nc ↔ t ≠ 0 ∧ ∃ b, nc.rcvResId b = t := by
  simp only [rcvIds,List.mem_filter,List.mem_map,List.mem_finRange,true_and,decide_eq_true_eq]
  exact ⟨fun h => ⟨h.2,h.1⟩,fun h => ⟨h.2,h.1⟩⟩

theorem fits_cfg {ts : List UInt8} :
    (∀ u ∈ ts.map Use.cfg, u.index < maxResCfgId) ↔ ∀ t ∈ ts, Sized t := by
  simp [Use.index,Sized]

theorem fits_rcv {cfg : ResmgrConfig} {rs : ResStateTbl} {mac : Mac} :
    (∀ u ∈ rcvUses cfg rs mac, u.index < maxResCfgId) ↔ ReceivesSized cfg mac := by
  unfold rcvUses ReceivesSized
  cases hf : findNode cfg mac with
  | none =>
    refine ⟨fun _ i b hi => ?_,fun _ => fits_scanned rs _ _⟩
    cases hi
  | some i =>
    dsimp only
    split
    · next hall =>
      refine ⟨fun _ j b hj h0 => ?_,fun _ => fits_scanned rs _ _⟩
      obtain rfl := Option.some.inj hj
      exact absurd h0 hall
    · next hall =>
      rw [List.forall_mem_append,fits_looks,and_iff_left (fits_scanned rs _ _)]
      constructor
      · intro h j b hj _
        obtain rfl := Option.some.inj hj
        by_cases h0 : (cfg.nodeCfgTbl i).rcvResId b = 0
        · rw [h0]
          exact sized_zero
        · exact h _ (mem_rcvIds.mpr ⟨h0,b,rfl⟩)
      · intro h t ht
        obtain ⟨-,b,rfl⟩ := mem_rcvIds.mp ht
        exact h i b rfl (not_not.mp hall)

/-- The entry before a sized one lies in the table. -/
theorem before_sized {resid : UInt8} (h0 : resid ≠ 0) (h : Sized resid) : Sized (resid-1) := by
  have hpos : 1 ≤ resid.toNat := Nat.one_le_iff_ne_zero.mpr fun hz => h0 (UInt8.toNat_inj.mp hz)
  have hle : (1 : UInt8) ≤ resid := UInt8.le_iff_toNat_le.mpr hpos
  have hsub : (resid-1).toNat = resid.toNat-1 := UInt8.toNat_sub_of_le _ _ hle
  rw [Sized,hsub]
  have : resid.toNat < maxResCfgId := h
  omega

theorem fits_one {resid : UInt8} {us : List Use} (hus : us = if resid = 0 then [] else [.cfg resid]) :
    (∀ u ∈ us, u.index < maxResCfgId) ↔ Sized resid := by
  rw [hus]
  split
  · next h0 =>
    rw [h0]
    exact ⟨fun _ => sized_zero,fun _ u hu => absurd hu List.not_mem_nil⟩
  · simp [Use.index,Sized]

theorem fits_command {ptr : UnsetPtr} {es : List Event} {s : Tables} (c : Command) :
    Fits ptr es s (.command c) ↔ Proper ptr es s (.command c) := by
  unfold Fits Proper Event.uses
  cases c with
  | addRes resid res =>
    dsimp only [commandUses]
    split
    · next h0 =>
      rw [h0]
      exact ⟨fun _ => sized_zero,fun _ u hu => absurd hu List.not_mem_nil⟩
    next h0 =>
    split
    · simp [Use.index,Sized]
    · constructor
      · exact fun h => h (.cfg resid) List.mem_cons_self
      · intro h u hu
        rcases List.mem_pair.mp hu with rfl | rfl
        · exact h
        · exact before_sized h0 h
  | delRes resid => exact fits_one rfl
  | addTrs resid mac send2all =>
    dsimp only [commandUses]
    split
    · next h0 =>
      rw [h0]
      exact ⟨fun _ _ => sized_zero,fun _ u hu => absurd hu List.not_mem_nil⟩
    cases ptr with
    | table =>
      dsimp only
      refine ⟨fun h _ => h (.cfg resid) List.mem_cons_self,fun h u hu => ?_⟩
      have hu : u = .cfg resid := by
        split at hu
        · simpa using hu
        · simpa using hu
      rw [hu]
      exact h (Or.inl rfl)
    | elsewhere b =>
      rw [List.nil_append]
      have hread : UnsetPtr.reads (s.cfg.resCfgTbl resid).cfgState (.elsewhere b) = b := rfl
      rw [hread]
      by_cases hb : b = configEnable
      · simp [Use.index,Sized,hb]
      · rw [if_pos hb]
        refine ⟨fun _ hptr => ?_,fun _ u hu => absurd hu List.not_mem_nil⟩
        rcases hptr with hptr | hptr
        · cases hptr
        · cases hptr
          exact absurd rfl hb
  | addRcv resid mac => exact fits_one rfl
  | delTrs resid mac => exact ⟨fun _ => trivial,fun _ u hu => absurd hu List.not_mem_nil⟩
  | delRcv resid mac => exact ⟨fun _ => trivial,fun _ u hu => absurd hu List.not_mem_nil⟩
  | delNode mac => exact fits_cfg.trans sized_nodeTrsIds

theorem fits_iff {ptr : UnsetPtr} {es : List Event} {s : Tables} (e : Event) :
    Fits ptr es s e ↔ Proper ptr es s e := by
  cases e with
  | install image => exact ⟨fun _ => trivial,fun _ u hu => absurd hu List.not_mem_nil⟩
  | command c => exact fits_command c
  | activeRes resid snode freq pos =>
    dsimp only [Fits,Proper,Event.uses,activeUses]
    split
    · next h0 =>
      rw [h0]
      exact ⟨fun _ => sized_zero,fun _ u hu => absurd hu List.not_mem_nil⟩
    · split
      · simp [Use.index,Sized]
      · simp [Use.index,Sized]
  | deactiveRes resid =>
    dsimp only [Fits,Proper,Event.uses,deactiveUses]
    split
    · next h0 =>
      rw [h0]
      exact ⟨fun _ => sized_zero,fun _ u hu => absurd hu List.not_mem_nil⟩
    · simp [Use.index,Sized]
  | getTrs mac => exact fits_cfg.trans sized_nodeTrsIds
  | getRcv mac => exact fits_rcv
  | getDel mac => exact fits_looks.trans sized_nodeTrsIds

/-- The indices of a run stay in the tables if and only if no call is given the id 254 or 255
and no list is read for a node that has one of them in it. -/
theorem run_fits_iff {ptr : UnsetPtr} {s₀ s : Tables} {es : List Event} :
    Run (step ptr) (Fits ptr) s₀ es s ↔ Run (step ptr) (Proper ptr) s₀ es s :=
  ⟨fun h => h.mono fun _ _ e => (fits_iff e).mp,fun h => h.mono fun _ _ e => (fits_iff e).mpr⟩

/-- The first entry behind the table is the one for 254, an id the console accepts. -/
theorem last_outside : ¬Fits .table [] ⟨emptyConfig,fun _ => zeroState⟩ (.command (.addRes 254 zeroRes)) := by
  intro h
  exact absurd (h (.cfg 254) (by decide)) (by decide)

/-! ### Nothing else is touched -/

theorem clearEntry_unvalid {nc : NodeConfig} (h : nc.cfgState = configUnvalid) : clearEntry nc = nc :=
  if_neg fun hc => hc.1 h

/-- A deletion leaves an entry that is not valid as it is. -/
theorem delRes_unvalid (ptr : UnsetPtr) {cfg : ResmgrConfig} (resid : UInt8) {i : Fin 64}
    (h : (cfg.nodeCfgTbl i).cfgState = configUnvalid) :
    (delResConfig ptr cfg resid).1.nodeCfgTbl i = cfg.nodeCfgTbl i := by
  have hkept : onValid (fun nc => dropRcv resid (dropTrs resid nc)) (cfg.nodeCfgTbl i) = cfg.nodeCfgTbl i := if_pos h
  unfold delResConfig
  split
  · rfl
  · cases ptr with
    | table =>
      show clearEntry (onValid _ (cfg.nodeCfgTbl i)) = _
      rw [hkept]
      exact clearEntry_unvalid h
    | elsewhere b => exact hkept

theorem delRes_frame (ptr : UnsetPtr) (cfg : ResmgrConfig) {resid r : UInt8} (h : r ≠ resid) :
    (delResConfig ptr cfg resid).1.resCfgTbl r = cfg.resCfgTbl r := by
  unfold delResConfig
  split
  · rfl
  · rw [clearNodeConfig_resCfgTbl]
    exact Function.update_of_ne h ..

/-- The entry given up keeps its slots, so the loop deletes what it listed. -/
theorem delNode_frame (ptr : UnsetPtr) (cfg : ResmgrConfig) (mac : Mac) {r : UInt8}
    (h : r ∉ nodeTrsIds cfg mac) : (delNodeConfig ptr cfg mac).1.resCfgTbl r = cfg.resCfgTbl r := by
  unfold delNodeConfig
  split
  · rfl
  next i hi =>
  have hne : ∀ a, (cfg.nodeCfgTbl i).trsResId a ≠ unusedResId → r ≠ (cfg.nodeCfgTbl i).trsResId a := by
    intro a h0 ha
    exact h (mem_nodeTrsIds.mpr ⟨i,hi,mem_trsIds.mpr ⟨ha ▸ h0,a,ha.symm⟩⟩)
  -- along the loop the entry stays as it is
  have hloop : ∀ (js : List (Fin 8)) (cfg' : ResmgrConfig),
      (cfg'.nodeCfgTbl i).cfgState = configUnvalid →
      (cfg'.nodeCfgTbl i).trsResId = (cfg.nodeCfgTbl i).trsResId → cfg'.resCfgTbl r = cfg.resCfgTbl r →
      (js.foldl (fun cfg j =>
        let resid := (cfg.nodeCfgTbl i).trsResId j
        if resid ≠ unusedResId then (delResConfig ptr cfg resid).1 else cfg) cfg').resCfgTbl r = cfg.resCfgTbl r := by
    intro js
    induction js with
    | nil => exact fun _ _ _ hr => hr
    | cons j js ih =>
      intro cfg' hst hslots hr
      rw [List.foldl_cons]
      dsimp only
      split
      · next h0 =>
        have hkept := delRes_unvalid ptr ((cfg'.nodeCfgTbl i).trsResId j) hst
        rw [hslots] at h0
        apply ih
        · rw [hkept]
          exact hst
        · rw [hkept]
          exact hslots
        · rw [delRes_frame ptr cfg' (hslots ▸ hne j h0)]
          exact hr
      · exact ih cfg' hst hslots hr
  apply hloop
  · dsimp only
    rw [Function.update_self]
  · dsimp only
    rw [Function.update_self]
  · rfl

theorem addRcv_resCfg (cfg : ResmgrConfig) (resid : UInt8) (mac : Mac) :
    (addRcvRes cfg resid mac).1.resCfgTbl = cfg.resCfgTbl := by
  unfold addRcvRes
  split
  · rfl
  split
  · rfl
  split
  · rfl
  · split <;> rfl

theorem addTrs_frame {ptr : UnsetPtr} {cfg : ResmgrConfig} {resid send2all : UInt8} {mac : Mac} {r : UInt8}
    (h : Use.cfg r ∉ commandUses ptr cfg (.addTrs resid mac send2all)) :
    (addTrsRes ptr cfg resid mac send2all).1.resCfgTbl r = cfg.resCfgTbl r := by
  unfold addTrsRes
  dsimp only [commandUses] at h
  split
  · rfl
  next h0 =>
  rw [if_neg h0,List.mem_append,not_or] at h
  split
  · rfl
  next hread =>
  rw [if_neg hread,List.mem_singleton] at h
  split
  · rfl
  · rw [fileTrs_resCfgTbl]
    refine Function.update_of_ne ?_ ..
    rintro rfl
    exact h.2 rfl

theorem command_frame {ptr : UnsetPtr} {cfg : ResmgrConfig} {r : UInt8} (c : Command)
    (h : Use.cfg r ∉ commandUses ptr cfg c) : (c.call ptr cfg).1.resCfgTbl r = cfg.resCfgTbl r := by
  cases c with
  | addRes resid res =>
    by_cases h0 : resid = 0
    · exact congrFun (congrArg (fun x => ResmgrConfig.resCfgTbl (Prod.fst x)) (if_pos h0)) r
    · refine addRes_other ?_
      rintro rfl
      dsimp only [commandUses] at h
      rw [if_neg h0] at h
      split at h
      · exact h List.mem_cons_self
      · exact h List.mem_cons_self
  | delRes resid =>
    by_cases h0 : resid = 0
    · exact congrFun (congrArg (fun x => ResmgrConfig.resCfgTbl (Prod.fst x)) (if_pos h0)) r
    · refine delRes_frame ptr cfg ?_
      rintro rfl
      dsimp only [commandUses] at h
      rw [if_neg h0] at h
      exact h List.mem_cons_self
  | addTrs resid mac send2all => exact addTrs_frame h
  | addRcv resid mac => exact congrFun (addRcv_resCfg cfg resid mac) r
  | delTrs resid mac => exact congrFun (delTrs_resCfg ptr cfg resid mac) r
  | delRcv resid mac => exact congrFun (delRcv_resCfg ptr cfg resid mac) r
  | delNode mac => exact delNode_frame ptr cfg mac fun hr => h (List.mem_map_of_mem hr)

theorem active_frame {cfg : ResmgrConfig} {rs : ResStateTbl} {resid snode freq pos r : UInt8}
    (h : Use.state r ∉ activeUses cfg resid) : activeRes cfg rs resid snode freq pos r = rs r := by
  unfold activeRes
  unfold activeUses at h
  split
  · rfl
  next h0 =>
  rw [if_neg h0] at h
  split
  · rfl
  next hen =>
  rw [if_neg hen] at h
  refine Function.update_of_ne ?_ ..
  rintro rfl
  exact h (List.mem_cons_of_mem _ List.mem_cons_self)

theorem deactive_frame {rs : ResStateTbl} {resid r : UInt8} (h : Use.state r ∉ deactiveUses resid) :
    deactiveRes rs resid r = rs r := by
  unfold deactiveRes
  unfold deactiveUses at h
  split
  · rfl
  next h0 =>
  rw [if_neg h0] at h
  refine Function.update_of_ne ?_ ..
  rintro rfl
  exact h List.mem_cons_self

/-- Entries that an event does not use are kept, a new configuration apart. -/
theorem next_frame {ptr : UnsetPtr} {s : Tables} {e : Event} (hno : ∀ image, e ≠ .install image) (r : UInt8) :
    (Use.cfg r ∉ e.uses ptr s → (e.next ptr s).cfg.resCfgTbl r = s.cfg.resCfgTbl r) ∧
    (Use.state r ∉ e.uses ptr s → (e.next ptr s).rs r = s.rs r) := by
  cases e with
  | install image => exact absurd rfl (hno image)
  | command c => exact ⟨command_frame c,fun _ => rfl⟩
  | activeRes resid snode freq pos => exact ⟨fun _ => rfl,active_frame⟩
  | deactiveRes resid => exact ⟨fun _ => rfl,deactive_frame⟩
  | getTrs mac => exact ⟨fun _ => rfl,fun _ => rfl⟩
  | getRcv mac => exact ⟨fun _ => rfl,fun _ => rfl⟩
  | getDel mac => exact ⟨fun _ => rfl,fun _ => rfl⟩

/-- The same nodes, and the same entries where they are used. -/
structure Agree (us : List Use) (s s' : Tables) : Prop where
  nodes : s'.cfg.nodeCfgTbl = s.cfg.nodeCfgTbl
  cfg : ∀ i, Use.cfg i ∈ us → s'.cfg.resCfgTbl i = s.cfg.resCfgTbl i
  state : ∀ i, Use.state i ∈ us → s'.rs i = s.rs i

theorem findNode_congr {cfg cfg' : ResmgrConfig} (h : cfg'.nodeCfgTbl = cfg.nodeCfgTbl) (mac : Mac) :
    findNode cfg' mac = findNode cfg mac := by
  unfold findNode
  rw [h]

theorem nodeTrsIds_congr {cfg cfg' : ResmgrConfig} (h : cfg'.nodeCfgTbl = cfg.nodeCfgTbl) (mac : Mac) :
    nodeTrsIds cfg' mac = nodeTrsIds cfg mac := by
  unfold nodeTrsIds
  rw [findNode_congr h,h]

/-- What a node sends depends on the entries it lists. -/
theorem getTrs_congr {ptr : UnsetPtr} {s s' : Tables} {mac : Mac}
    (h : Agree ((Event.getTrs mac).uses ptr s) s s') :
    getTrsResConfig s'.cfg mac = getTrsResConfig s.cfg mac := by
  have hsame : ∀ t ∈ nodeTrsIds s.cfg mac, s'.cfg.resCfgTbl t = s.cfg.resCfgTbl t :=
    fun t ht => h.cfg t (List.mem_map_of_mem ht)
  have hen : enabledTrs s'.cfg mac = enabledTrs s.cfg mac := by
    unfold enabledTrs
    rw [nodeTrsIds_congr h.nodes]
    exact List.filter_congr fun t ht => by rw [hsame t ht]
  unfold getTrsResConfig
  rw [hen]
  apply List.map_congr_left
  intro t ht
  rw [trsEntry,hsame t (List.mem_filter.mp ht).1]
  rfl

theorem mem_looks {rs : ResStateTbl} {t : UInt8} : Use.state t ∈ looks rs t := by
  unfold looks
  split
  · exact List.mem_cons_self
  · exact List.mem_cons_self

theorem mem_looks_cfg {rs : ResStateTbl} {t : UInt8} (h : (rs t).state ≠ 0) : Use.cfg t ∈ looks rs t := by
  unfold looks
  rw [if_pos h]
  exact List.mem_cons_of_mem _ List.mem_cons_self

/-- Two tables that agree where a loop over some ids looks. -/
structure Same (s s' : Tables) (ts : List UInt8) : Prop where
  state : ∀ t ∈ ts, s'.rs t = s.rs t
  cfg : ∀ t ∈ ts, (s.rs t).state ≠ 0 → s'.cfg.resCfgTbl t = s.cfg.resCfgTbl t

theorem Agree.same {us : List Use} {s s' : Tables} {ts : List UInt8} (h : Agree us s s')
    (hus : ∀ u ∈ ts.flatMap (looks s.rs), u ∈ us) : Same s s' ts where
  state t ht := h.state t (hus _ (List.mem_flatMap.mpr ⟨t,ht,mem_looks⟩))
  cfg t ht hact := h.cfg t (hus _ (List.mem_flatMap.mpr ⟨t,ht,mem_looks_cfg hact⟩))

theorem Same.active {s s' : Tables} {ts : List UInt8} (h : Same s s' ts) {t : UInt8} (ht : t ∈ ts) :
    active s'.rs t = active s.rs t := by
  unfold Indices.active
  rw [h.state t ht]

theorem Same.sentToAll {s s' : Tables} {ts : List UInt8} (h : Same s s' ts) {t : UInt8} (ht : t ∈ ts) :
    sentToAll s'.cfg s'.rs t = sentToAll s.cfg s.rs t := by
  unfold Indices.sentToAll
  rw [h.state t ht]
  by_cases hact : (s.rs t).state ≠ 0
  · rw [h.cfg t ht hact]
  · simp [hact]

/-- What has been found depends on the ids looked at. -/
theorem scanned_congr {p q : UInt8 → Bool} {room : ℕ} {ts : List UInt8}
    (h : ∀ t ∈ scanned p room ts, q t = p t) :
    (ts.filter q).take room = (ts.filter p).take room := by
  induction ts generalizing room with
  | nil => rfl
  | cons t ts ih =>
    cases room with
    | zero => rw [List.take_zero,List.take_zero]
    | succ room =>
      have ht : q t = p t := h t List.mem_cons_self
      have hrest : ∀ r ∈ scanned p (if p t then room else room+1) ts, q r = p r :=
        fun r hr => h r (List.mem_cons_of_mem _ hr)
      rw [List.filter_cons,List.filter_cons,ht]
      by_cases hp : p t
      · rw [if_pos hp] at hrest
        rw [if_pos hp,if_pos hp,List.take_succ_cons,List.take_succ_cons,ih hrest]
      · rw [if_neg hp] at hrest
        rw [if_neg hp,if_neg hp,ih hrest]

theorem mem_scanned {p : UInt8 → Bool} {room : ℕ} {ts : List UInt8} {t : UInt8}
    (h : t ∈ (ts.filter p).take room) : t ∈ scanned p room ts := by
  induction ts generalizing room with
  | nil =>
    rw [List.filter_nil,List.take_nil] at h
    exact absurd h List.not_mem_nil
  | cons r ts ih =>
    cases room with
    | zero =>
      rw [List.take_zero] at h
      exact absurd h List.not_mem_nil
    | succ room =>
      rw [List.filter_cons] at h
      unfold scanned
      by_cases hp : p r
      · rw [if_pos hp,List.take_succ_cons] at h
        rw [if_pos hp]
        rcases List.mem_cons.mp h with rfl | h
        · exact List.mem_cons_self
        · exact List.mem_cons_of_mem _ (ih h)
      · rw [if_neg hp] at h
        rw [if_neg hp]
        exact List.mem_cons_of_mem _ (ih h)

theorem Same.rcvEntry {s s' : Tables} {ts : List UInt8} (h : Same s s' ts) {t : UInt8} (ht : t ∈ ts)
    (hact : Indices.active s.rs t) : ResTables.rcvEntry s'.cfg s'.rs t = ResTables.rcvEntry s.cfg s.rs t := by
  unfold ResTables.rcvEntry
  rw [h.state t ht,h.cfg t ht (of_decide_eq_true hact)]

theorem active_of_sentToAll {cfg : ResmgrConfig} {rs : ResStateTbl} {t : UInt8} (h : sentToAll cfg rs t) :
    active rs t := by
  have hboth := of_decide_eq_true h
  exact decide_eq_true hboth.1

/-- The resources found by a loop over the table, as they are sent. -/
theorem scan_congr {s s' : Tables} {p q : UInt8 → Bool} {room : ℕ} (h : Same s s' (scanned p room tblIds))
    (hq : ∀ t ∈ scanned p room tblIds, q t = p t) (hp : ∀ t, p t → active s.rs t) :
    ((tblIds.filter q).take room).map (rcvEntry s'.cfg s'.rs) =
      ((tblIds.filter p).take room).map (rcvEntry s.cfg s.rs) := by
  rw [scanned_congr hq]
  apply List.map_congr_left
  intro t ht
  exact h.rcvEntry (mem_scanned ht) (hp t (List.mem_filter.mp (List.mem_of_mem_take ht)).2)


/-- `get_rcv_res_config` by the loops it runs. -/
theorem getRcv_eq (cfg : ResmgrConfig) (rs : ResStateTbl) (mac : Mac) :
    getRcvResConfig cfg rs mac =
      match findNode cfg mac with
      | none => ((tblIds.filter (sentToAll cfg rs)).take maxRcvResCnt).map (rcvEntry cfg rs)
      | some i =>
        let nc := cfg.nodeCfgTbl i
        if nc.rcvall ≠ 0 then ((tblIds.filter (active rs)).take maxRcvResCnt).map (rcvEntry cfg rs)
        else ((rcvIds nc).filter (active rs)).map (rcvEntry cfg rs) ++
          ((tblIds.filter (sentToAll cfg rs)).take
            (maxRcvResCnt-((rcvIds nc).filter (active rs)).length)).map (rcvEntry cfg rs) := by
  unfold getRcvResConfig
  cases findNode cfg mac with
  | none => rfl
  | some i =>
    dsimp only
    by_cases hall : (cfg.nodeCfgTbl i).rcvall = 0
    · rw [if_neg (not_not.mpr hall),if_neg (not_not.mpr hall),if_pos hall,List.map_append]
      rfl
    · rw [if_pos hall,if_pos hall,if_neg hall,List.append_nil]
      rfl

/-- What a node receives depends on the entries looked at. -/
theorem getRcv_congr {ptr : UnsetPtr} {s s' : Tables} {mac : Mac}
    (h : Agree ((Event.getRcv mac).uses ptr s) s s') :
    getRcvResConfig s'.cfg s'.rs mac = getRcvResConfig s.cfg s.rs mac := by
  have huses : (Event.getRcv mac).uses ptr s = rcvUses s.cfg s.rs mac := rfl
  rw [huses] at h
  unfold rcvUses at h
  rw [getRcv_eq,getRcv_eq,findNode_congr h.nodes]
  cases hf : findNode s.cfg mac with
  | none =>
    rw [hf] at h
    have hsame := h.same fun u hu => hu
    exact scan_congr hsame (fun t ht => hsame.sentToAll ht) fun t => active_of_sentToAll
  | some i =>
    rw [hf] at h
    dsimp only at h ⊢
    rw [h.nodes]
    by_cases hall : (s.cfg.nodeCfgTbl i).rcvall = 0
    · rw [if_neg (not_not.mpr hall)] at h
      rw [if_neg (not_not.mpr hall),if_neg (not_not.mpr hall)]
      have hown := h.same fun u hu => List.mem_append_left _ hu
      have hsent := h.same fun u hu => List.mem_append_right _ hu
      have hfilter : (rcvIds (s.cfg.nodeCfgTbl i)).filter (active s'.rs) =
          (rcvIds (s.cfg.nodeCfgTbl i)).filter (active s.rs) :=
        List.filter_congr fun t ht => hown.active ht
      rw [hfilter]
      congr 1
      · apply List.map_congr_left
        intro t ht
        obtain ⟨hmem,hact⟩ := List.mem_filter.mp ht
        exact hown.rcvEntry hmem hact
      · exact scan_congr hsent (fun t ht => hsent.sentToAll ht) fun t => active_of_sentToAll
    · rw [if_pos hall] at h
      rw [if_pos hall,if_pos hall]
      have hsame := h.same fun u hu => hu
      exact scan_congr hsame (fun t ht => hsame.active ht) fun t => id

/-- So does what is deleted with a node. -/
theorem getDel_congr {ptr : UnsetPtr} {s s' : Tables} {mac : Mac}
    (h : Agree ((Event.getDel mac).uses ptr s) s s') :
    getDelResConfig s'.cfg s'.rs mac = getDelResConfig s.cfg s.rs mac := by
  have hsame : Same s s' (nodeTrsIds s.cfg mac) := h.same fun u hu => hu
  have hfilter : (nodeTrsIds s.cfg mac).filter (fun t => (s'.rs t).state ≠ 0) =
      (nodeTrsIds s.cfg mac).filter (fun t => (s.rs t).state ≠ 0) :=
    List.filter_congr fun t ht => hsame.active ht
  unfold getDelResConfig
  rw [nodeTrsIds_congr h.nodes,hfilter]
  apply List.map_congr_left
  intro t ht
  obtain ⟨hmem,hact⟩ := List.mem_filter.mp ht
  rw [delEntry,hsame.state t hmem,hsame.cfg t hmem (of_decide_eq_true hact)]
  rfl

/-! ### Ids that stay in the tables -/

theorem addTrs_lists {ptr : UnsetPtr} {cfg : ResmgrConfig} {resid send2all : UInt8} {mac : Mac} {i : Fin 64}
    {r : UInt8} (hi : Valid ((addTrsRes ptr cfg resid mac send2all).1.nodeCfgTbl i))
    (hr : Lists ((addTrsRes ptr cfg resid mac send2all).1.nodeCfgTbl i) r) :
    Valid (cfg.nodeCfgTbl i) ∧ Lists (cfg.nodeCfgTbl i) r ∨ r = resid := by
  rcases addTrsRes_cases ptr cfg resid mac send2all with he | ⟨h0,he⟩
  · rw [he] at hi hr
    exact Or.inl ⟨hi,hr⟩
  have hstrike : Shrunk (strikeTrs cfg resid send2all).nodeCfgTbl cfg.nodeCfgTbl :=
    shrunk_onValid (dropTrs resid) (less_dropTrs resid) (fun _ => rfl) _
  have hback : Valid ((strikeTrs cfg resid send2all).nodeCfgTbl i) →
      Lists ((strikeTrs cfg resid send2all).nodeCfgTbl i) r → Valid (cfg.nodeCfgTbl i) ∧ Lists (cfg.nodeCfgTbl i) r :=
    fun hv hl => ⟨(hstrike i hv).1,(hstrike i hv).2.lists hl⟩
  rw [he] at hi hr
  unfold fileTrs at hi hr
  split at hi
  · next k hk =>
    rw [hk] at hr
    dsimp only at hi hr
    by_cases hik : i = k
    · subst hik
      have hv := (findNode_some hk).1
      rw [Function.update_self] at hr
      unfold putTrs at hr
      have hdrop := (less_dropRcv resid ((strikeTrs cfg resid send2all).nodeCfgTbl i)).lists (r := r)
      split at hr
      · exact Or.inl (hback hv (hdrop hr))
      split at hr
      · exact Or.inl (hback hv (hdrop hr))
      · rcases lists_updateTrs hr with hold | hnew
        · exact Or.inl (hback hv (hdrop hold))
        · exact Or.inr hnew
    · rw [Function.update_of_ne hik] at hi hr
      exact Or.inl (hback hi hr)
  · next hnone =>
    rw [hnone] at hr
    dsimp only at hi hr
    split at hi
    · next hfull =>
      rw [hfull] at hr
      exact Or.inl (hback hi hr)
    · next k hk =>
      rw [hk] at hr
      dsimp only at hi hr
      by_cases hik : i = k
      · subst hik
        rw [Function.update_self] at hr
        exact Or.inr (lists_newEntry hr)
      · rw [Function.update_of_ne hik] at hi hr
        exact Or.inl (hback hi hr)

theorem addRcv_lists {cfg : ResmgrConfig} {resid : UInt8} {mac : Mac} {i : Fin 64} {r : UInt8}
    (hi : Valid ((addRcvRes cfg resid mac).1.nodeCfgTbl i)) (hr : Lists ((addRcvRes cfg resid mac).1.nodeCfgTbl i) r) :
    Valid (cfg.nodeCfgTbl i) ∧ Lists (cfg.nodeCfgTbl i) r ∨ r = resid := by
  unfold addRcvRes at hi hr
  split at hi
  · next h0 =>
    rw [if_pos h0] at hr
    exact Or.inl ⟨hi,hr⟩
  next h0 =>
  rw [if_neg h0] at hr
  split at hi
  · next hcheck =>
    rw [if_pos hcheck] at hr
    exact Or.inl ⟨hi,hr⟩
  next hcheck =>
  rw [if_neg hcheck] at hr
  split at hi
  · next k hk =>
    rw [hk] at hr
    dsimp only at hi hr
    by_cases hik : i = k
    · subst hik
      have hv := (findNode_some hk).1
      rw [Function.update_self] at hr
      unfold putRcv at hr
      split at hr
      · exact Or.inl ⟨hv,hr⟩
      split at hr
      · exact Or.inl ⟨hv,hr⟩
      split at hr
      · exact Or.inl ⟨hv,hr⟩
      split at hr
      · exact Or.inl ⟨hv,hr⟩
      · rcases lists_updateRcv hr with hold | hnew
        · exact Or.inl ⟨hv,hold⟩
        · exact Or.inr hnew
    · rw [Function.update_of_ne hik] at hi hr
      exact Or.inl ⟨hi,hr⟩
  · next hnone =>
    rw [hnone] at hr
    dsimp only at hi hr
    split at hi
    · next hfull =>
      rw [hfull] at hr
      exact Or.inl ⟨hi,hr⟩
    · next k hk =>
      rw [hk] at hr
      dsimp only at hi hr
      by_cases hik : i = k
      · subst hik
        rw [Function.update_self] at hr
        unfold newReceiver at hr
        split at hr
        · exact absurd hr not_lists_zero
        · have hor : Lists zeroNode r ∨ r = resid := lists_updateRcv (j := 0) hr
          exact Or.inr (hor.resolve_left not_lists_zero)
      · rw [Function.update_of_ne hik] at hi hr
        exact Or.inl ⟨hi,hr⟩

/-- The nodes send and receive ids of the tables only. -/
def ListsSized (cfg : ResmgrConfig) : Prop :=
  ∀ i r, Valid (cfg.nodeCfgTbl i) → Lists (cfg.nodeCfgTbl i) r → Sized r

/-- The images list ids of the tables only, the calls that take an id are given one of these. -/
def Tame (_ : List Event) (_ : Tables) : Event → Prop
  | .install image => ListsSized image
  | .command (.addRes resid _) => Sized resid
  | .command (.delRes resid) => Sized resid
  | .command (.addTrs resid _ _) => Sized resid
  | .command (.addRcv resid _) => Sized resid
  | .activeRes resid _ _ _ => Sized resid
  | .deactiveRes resid => Sized resid
  | _ => True

theorem ListsSized.shrink {cfg cfg' : ResmgrConfig} (h : ListsSized cfg)
    (hs : Shrunk cfg'.nodeCfgTbl cfg.nodeCfgTbl) : ListsSized cfg' :=
  fun i r hi hr => h i r (hs i hi).1 ((hs i hi).2.lists hr)

theorem ListsSized.next {ptr : UnsetPtr} {es : List Event} {s : Tables} {e : Event} (h : ListsSized s.cfg)
    (he : Tame es s e) : ListsSized (e.next ptr s).cfg := by
  cases e with
  | install image => exact he
  | command c =>
    cases c with
    | addRes resid res =>
      have hnodes : (addResConfig s.cfg resid res).1.nodeCfgTbl = s.cfg.nodeCfgTbl := by
        unfold addResConfig
        split <;> rfl
      exact h.shrink (hnodes ▸ Shrunk.refl _)
    | delRes resid => exact h.shrink (shrunk_delRes ptr s.cfg resid)
    | addTrs resid mac send2all =>
      intro i r hi hr
      rcases addTrs_lists hi hr with ⟨hv,hold⟩ | rfl
      · exact h i r hv hold
      · exact he
    | addRcv resid mac =>
      intro i r hi hr
      rcases addRcv_lists hi hr with ⟨hv,hold⟩ | rfl
      · exact h i r hv hold
      · exact he
    | delTrs resid mac => exact h.shrink (shrunk_delTrs ptr s.cfg resid mac)
    | delRcv resid mac => exact h.shrink (shrunk_delRcv ptr s.cfg resid mac)
    | delNode mac => exact h.shrink (shrunk_delNode ptr s.cfg mac)
  | activeRes resid snode freq pos => exact h
  | deactiveRes resid => exact h
  | getTrs mac => exact h
  | getRcv mac => exact h
  | getDel mac => exact h

theorem ListsSized.sends {cfg : ResmgrConfig} (h : ListsSized cfg) (mac : Mac) : SendsSized cfg mac := by
  intro i a hi
  by_cases h0 : (cfg.nodeCfgTbl i).trsResId a = 0
  · rw [h0]
    exact sized_zero
  · exact h i _ (findNode_some hi).1 ⟨h0,Or.inl ⟨a,rfl⟩⟩

theorem ListsSized.receives {cfg : ResmgrConfig} (h : ListsSized cfg) (mac : Mac) : ReceivesSized cfg mac := by
  intro i b hi _
  by_cases h0 : (cfg.nodeCfgTbl i).rcvResId b = 0
  · rw [h0]
    exact sized_zero
  · exact h i _ (findNode_some hi).1 ⟨h0,Or.inr ⟨b,rfl⟩⟩

/-- Tame runs stay in the tables: what a node lists was given to a command or lies in an image. -/
theorem run_tame_proper {ptr : UnsetPtr} {s₀ s : Tables} {es : List Event} (h₀ : ListsSized s₀.cfg)
    (h : Run (step ptr) Tame s₀ es s) : Run (step ptr) (Proper ptr) s₀ es s := by
  have hsized : ∀ {es s}, Run (step ptr) Tame s₀ es s → ListsSized s.cfg := by
    intro es s hr
    refine hr.invariant (I := fun _ s => ListsSized s.cfg) h₀ ?_
    intro es s e t _ hs he ht
    rw [← Option.some.inj ht]
    exact hs.next he
  refine (h.and_of_forall fun es s e t hrun he _ => ?_)
  have hs := hsized hrun
  cases e with
  | install image => trivial
  | command c =>
    cases c with
    | addRes resid res => exact he
    | delRes resid => exact he
    | addTrs resid mac send2all => exact fun _ => he
    | addRcv resid mac => exact he
    | delTrs resid mac => trivial
    | delRcv resid mac => trivial
    | delNode mac => exact hs.sends mac
  | activeRes resid snode freq pos => exact he
  | deactiveRes resid => exact he
  | getTrs mac => exact hs.sends mac
  | getRcv mac => exact hs.receives mac
  | getDel mac => exact hs.sends mac

end Indices
end Autbus
