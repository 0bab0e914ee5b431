import Autbus.HostUi
import Autbus.Saves
import Autbus.Services

/-! The configuration as it lies in memory, entry after entry. What the host interface does to
the bytes of `resmgr` is what happens to the tables. -/
namespace Autbus
namespace Images

open Bytes ResTables
open HostUi (Ui Buf)
open Services (nodeOf)
open SrvRpc (byteAt)

/-- `res_config_t`. -/
def resOf (b : List UInt8) : ResConfig :=
  ⟨byteAt b 0,byteAt b 1,byteAt b 2,byteAt b 3,byteAt b 4,byteAt b 5,byteAt b 6⟩

/-- The memory holds the tables of the configuration. -/
structure Image (m : Mem) (cfg : ResmgrConfig) : Prop where
  res : ∀ r : UInt8, r.toNat < maxResCfgId → resOf (read m (0+7*r.toNat) 7) = cfg.resCfgTbl r
  nodes : ∀ i : Fin 64, nodeOf (read m (254*7+32*i.val) 32) = cfg.nodeCfgTbl i

/-! ### Loops over entries -/

/-- One round of a loop: the entry becomes what `g` makes of it, the rest of the memory stays. -/
structure Round (a w : ℕ) (g : List UInt8 → List UInt8) (f : Mem → ℕ → Mem) : Prop where
  entry : ∀ m i, read (f m i) (a+w*i) w = g (read m (a+w*i) w)
  frame : ∀ m i c k, c+k ≤ a+w*i ∨ a+w*i+w ≤ c → read (f m i) c k = read m c k

section Loops

variable {a w : ℕ} {g : List UInt8 → List UInt8} {f : Mem → ℕ → Mem}

/-- The loop writes the entry that `g` makes. -/
theorem round_of_store (hf : ∀ m i, f m i = Bytes.store m (a+w*i) (g (read m (a+w*i) w)))
    (hg : ∀ b, b.length = w → (g b).length = w) : Round a w g f := by
  have hlen : ∀ m i, (g (read m (a+w*i) w)).length = w := fun m i => hg _ (read_length _ _ _)
  constructor
  · intro m i
    have hread := read_store m (a+w*i) (g (read m (a+w*i) w))
    rw [hlen] at hread
    rw [hf]
    exact hread
  · intro m i c k hck
    rw [hf]
    refine read_store_frame ?_
    rw [hlen]
    exact hck

/-- The loop leaves alone what lies before the first entry or behind the last one. -/
theorem Round.loop_frame (h : Round a w g f) (n : ℕ) (m : Mem) {c k : ℕ} (hck : c+k ≤ a ∨ a+w*n ≤ c) :
    read ((List.range n).foldl f m) c k = read m c k := by
  induction n with
  | zero => rfl
  | succ n ih =>
    rw [Nat.mul_succ] at hck
    rw [List.range_succ,List.foldl_append,List.foldl_cons,List.foldl_nil,h.frame _ _ _ _ (by omega)]
    exact ih (by omega)

/-- Each entry of the loop becomes what `g` makes of it. -/
theorem Round.loop_entry (h : Round a w g f) {n i : ℕ} (hi : i < n) (m : Mem) :
    read ((List.range n).foldl f m) (a+w*i) w = g (read m (a+w*i) w) := by
  induction n with
  | zero => exact absurd hi (Nat.not_lt_zero i)
  | succ n ih =>
    rw [List.range_succ,List.foldl_append,List.foldl_cons,List.foldl_nil]
    rcases Nat.lt_succ_iff_lt_or_eq.mp hi with hlt | rfl
    · have hle : w*i+w ≤ w*n := by
        rw [← Nat.mul_succ]
        exact Nat.mul_le_mul_left w hlt
      rw [h.frame _ _ _ _ (Or.inl (by omega))]
      exact ih hlt
    · rw [h.entry,h.loop_frame i m (Or.inr (le_refl _))]

end Loops

/-- A loop over one buffer is a loop over its memory. -/
theorem foldl_mem {b : Buf} {step : Ui → ℕ → Ui} {f : Mem → ℕ → Mem}
    (h : ∀ u i, (step u i).mem b = f (u.mem b) i) (is : List ℕ) (u : Ui) :
    (is.foldl step u).mem b = is.foldl f (u.mem b) := by
  induction is generalizing u with
  | nil => rfl
  | cons i is ih => rw [List.foldl_cons,List.foldl_cons,ih,h]

theorem store_mem (u : Ui) (b : Buf) (a : ℕ) (xs : List UInt8) :
    (u.store b a xs).mem b = Bytes.store (u.mem b) a xs := Function.update_self _ _ _

theorem store_other (u : Ui) {b b' : Buf} (hne : b' ≠ b) (a : ℕ) (xs : List UInt8) :
    (u.store b a xs).mem b' = u.mem b' := Function.update_of_ne hne _ _

theorem copy_mem (u : Ui) (dst : Buf) (a : ℕ) (src : Buf) (b n : ℕ) :
    (u.copy dst a src b n).mem dst = Bytes.copy (u.mem dst) a (u.mem src) b n := Function.update_self _ _ _

theorem copy_other (u : Ui) {dst b' : Buf} (hne : b' ≠ dst) (a : ℕ) (src : Buf) (b n : ℕ) :
    (u.copy dst a src b n).mem b' = u.mem b' := Function.update_of_ne hne _ _

theorem byteAt_read (m : Mem) (a : ℕ) {n i : ℕ} (hi : i < n) : byteAt (read m a n) i = m (a+i) := getD_read m a hi 0

/-! ### `get_resmgr` -/

def clearNode (b : List UInt8) : List UInt8 := if byteAt b 6 ≠ 2 then List.replicate 32 0 else b

def clearRes (b : List UInt8) : List UInt8 :=
  if byteAt b 4 ≠ 2 ∧ byteAt b 4 ≠ 1 then List.replicate 7 0 else b

theorem nodeOf_zero : nodeOf (List.replicate 32 0) = zeroNode := by
  have hzero : ∀ i, byteAt (List.replicate 32 0) i = 0 := by
    intro i
    simp only [byteAt,List.getD_eq_getElem?_getD,List.getElem?_replicate]
    split
    · rfl
    · rfl
  have hmac : Services.macAt (List.replicate 32 0) 0 = 0 := by decide
  unfold nodeOf zeroNode
  rw [hmac]
  simp only [hzero]

theorem nodeOf_clear (b : List UInt8) : nodeOf (clearNode b) = Saves.tidyNode (nodeOf b) := by
  unfold clearNode Saves.tidyNode
  have hstate : (nodeOf b).cfgState = byteAt b 6 := rfl
  rw [hstate,configEnable]
  split
  · exact nodeOf_zero
  · rfl

theorem resOf_clear (b : List UInt8) : resOf (clearRes b) = Saves.tidyRes (resOf b) := by
  unfold clearRes Saves.tidyRes
  have hstate : (resOf b).cfgState = byteAt b 4 := rfl
  rw [hstate,configEnable,configDisable]
  split
  · rfl
  · rfl

/-- The rounds of the two loops. -/
def nodeRound (m : Mem) (i : ℕ) : Mem :=
  if m (254*7+32*i+6) ≠ 2 then Bytes.store m (254*7+32*i) (List.replicate 32 0) else m

def resRound (m : Mem) (i : ℕ) : Mem :=
  if m (7*i+4) ≠ 2 ∧ m (7*i+4) ≠ 1 then Bytes.store m (7*i) (List.replicate 7 0) else m

theorem nodeRound_round : Round (254*7) 32 clearNode nodeRound := by
  refine round_of_store (fun m i => ?_) fun b hb => ?_
  · unfold nodeRound clearNode
    rw [byteAt_read m _ (by omega)]
    split
    · rfl
    · rw [store_read]
  · unfold clearNode
    split
    · exact List.length_replicate
    · exact hb

theorem resRound_round : Round 0 7 clearRes resRound := by
  refine round_of_store (fun m i => ?_) fun b hb => ?_
  · unfold resRound clearRes
    rw [byteAt_read m _ (by omega),Nat.zero_add]
    split
    · rfl
    · rw [store_read]
  · unfold clearRes
    split
    · exact List.length_replicate
    · exact hb

theorem getResmgr_mem (u : Ui) : u.getResmgr.mem .resmgr =
    (List.range 254).foldl resRound ((List.range 64).foldl nodeRound (u.mem .resmgr)) := by
  have hnode : ∀ (u : Ui) i, (if u.mem .resmgr (254*7+32*i+6) ≠ 2 then
      u.store .resmgr (254*7+32*i) (List.replicate 32 0) else u).mem .resmgr = nodeRound (u.mem .resmgr) i := by
    intro u i
    unfold nodeRound
    split
    · exact store_mem ..
    · rfl
  have hres : ∀ (u : Ui) i, (if u.mem .resmgr (7*i+4) ≠ 2 ∧ u.mem .resmgr (7*i+4) ≠ 1 then
      u.store .resmgr (7*i) (List.replicate 7 0) else u).mem .resmgr = resRound (u.mem .resmgr) i := by
    intro u i
    unfold resRound
    split
    · exact store_mem ..
    · rfl
  unfold Ui.getResmgr
  rw [foldl_mem hres,foldl_mem hnode]

variable {u : Ui} {cfg : ResmgrConfig}

theorem getResmgr_image (h : Image (u.mem .resmgr) cfg) : Image (u.getResmgr.mem .resmgr) (Saves.getResmgr cfg) := by
  rw [getResmgr_mem]
  constructor
  · intro r hr
    have hlt : r.toNat < 254 := hr
    have hframe := nodeRound_round.loop_frame 64 (u.mem .resmgr) (c := 0+7*r.toNat) (k := 7) (by omega)
    rw [resRound_round.loop_entry hlt,hframe,resOf_clear,h.res r hr]
    exact (if_pos hr).symm
  · intro i
    have hframe := resRound_round.loop_frame 254 ((List.range 64).foldl nodeRound (u.mem .resmgr))
      (c := 254*7+32*i.val) (k := 32) (by omega)
    rw [hframe,nodeRound_round.loop_entry i.isLt,nodeOf_clear,h.nodes i]
    rfl

/-! ### `set_resmgr` -/

theorem Image.congr {m m' : Mem} (h : Image m cfg) (hm : read m' 0 HostUi.resmgrSize = read m 0 HostUi.resmgrSize) :
    Image m' cfg := by
  have hread : ∀ c k, c+k ≤ HostUi.resmgrSize → read m' c k = read m c k := by
    intro c k hck
    refine read_congr fun i hi => ?_
    have hbyte := read_inj hm (show c+i < HostUi.resmgrSize by omega)
    rwa [Nat.zero_add] at hbyte
  constructor
  · intro r hr
    rw [maxResCfgId] at hr
    rw [hread _ _ (by rw [HostUi.resmgrSize]; omega)]
    exact h.res r hr
  · intro i
    rw [hread _ _ (by rw [HostUi.resmgrSize]; omega)]
    exact h.nodes i

/-- The tables are those of the message. -/
theorem setResmgr_image {image : ResmgrConfig} (h : Image (shift (u.mem .rbuf) 2) image) :
    Image (u.setResmgr.mem .resmgr) (Saves.setResmgr (some image) cfg) := by
  have hmem : read (u.setResmgr.mem .resmgr) 0 HostUi.resmgrSize =
      read (shift (u.mem .rbuf) 2) 0 HostUi.resmgrSize := by
    unfold Ui.setResmgr
    rw [copy_mem,read_copy]
    refine read_congr fun i _ => ?_
    rw [Nat.zero_add]
    rfl
  have himage := h.congr hmem
  exact ⟨fun r hr => (himage.res r hr).trans (if_pos hr).symm,himage.nodes⟩

/-! ### `flash_save_rescfg` -/

def shortenBytes (b : List UInt8) : List UInt8 :=
  if 61 ≤ (byteAt b 6).toNat+(byteAt b 3).toNat ∧ byteAt b 4 = 2 then b.set 3 (byteAt b 3-1) else b

def shortenRound (m : Mem) (i : ℕ) : Mem :=
  if 61 ≤ (m (7*i+6)).toNat+(m (7*i+3)).toNat ∧ m (7*i+4) = 2 then Bytes.store m (7*i+3) [m (7*i+3)-1] else m

theorem byteAt_set_ne (b : List UInt8) (x : UInt8) {i k : ℕ} (hik : k ≠ i) : byteAt (b.set k x) i = byteAt b i := by
  simp only [byteAt,List.getD_eq_getElem?_getD]
  rw [List.getElem?_set_ne hik]

theorem resOf_shorten {b : List UInt8} (hb : b.length = 7) : resOf (shortenBytes b) = Saves.shortenRes (resOf b) := by
  have hset : resOf (b.set 3 (byteAt b 3-1)) = {resOf b with len := (resOf b).len-1} := by
    have hthree : byteAt (b.set 3 (byteAt b 3-1)) 3 = byteAt b 3-1 := by
      simp [byteAt,List.getD_eq_getElem?_getD,hb]
    simp only [resOf]
    rw [hthree,byteAt_set_ne b _ (by omega),byteAt_set_ne b _ (by omega),byteAt_set_ne b _ (by omega),
      byteAt_set_ne b _ (by omega),byteAt_set_ne b _ (by omega),byteAt_set_ne b _ (by omega)]
  unfold shortenBytes Saves.shortenRes
  have hpos : (resOf b).pos = byteAt b 6 := rfl
  have hlen : (resOf b).len = byteAt b 3 := rfl
  have hstate : (resOf b).cfgState = byteAt b 4 := rfl
  rw [hpos,hlen,hstate,configEnable]
  split
  · exact hset
  · rfl

theorem shortenRound_round : Round 0 7 shortenBytes shortenRound := by
  refine round_of_store (fun m i => ?_) fun b hb => ?_
  · unfold shortenRound shortenBytes
    rw [byteAt_read m _ (by omega),byteAt_read m _ (by omega),byteAt_read m _ (by omega),Nat.zero_add]
    split
    · rw [store_set m (7*i) (by omega)]
    · rw [store_read]
  · unfold shortenBytes
    split
    · rw [List.length_set]
      exact hb
    · exact hb

theorem shorten_image {m : Mem} (h : Image m cfg) :
    Image ((List.range 254).foldl shortenRound m) (Saves.onTable Saves.shortenRes cfg) := by
  constructor
  · intro r hr
    have hlt : r.toNat < 254 := hr
    rw [shortenRound_round.loop_entry hlt,resOf_shorten (read_length _ _ _),h.res r hr]
    exact (if_pos hr).symm
  · intro i
    rw [shortenRound_round.loop_frame 254 m (Or.inr (by omega))]
    exact h.nodes i

/-- The first entry becomes the mark of a valid image. -/
theorem mark_image {m : Mem} (h : Image m cfg) :
    Image (Bytes.store m 0 (List.replicate 7 0x72))
      {cfg with resCfgTbl := Function.update cfg.resCfgTbl 0 Saves.marked} := by
  have hlen : (List.replicate 7 (0x72 : UInt8)).length = 7 := List.length_replicate
  constructor
  · intro r hr
    dsimp only
    by_cases h0 : r = 0
    · subst h0
      rw [Function.update_self]
      have hread := read_store m 0 (List.replicate 7 0x72)
      rw [hlen] at hread
      exact congrArg resOf hread
    · have hpos : r.toNat ≠ 0 := fun hz => h0 (UInt8.toNat_inj.mp hz)
      rw [Function.update_of_ne h0,read_store_frame (by rw [hlen]; omega)]
      exact h.res r hr
  · intro i
    rw [read_store_frame (by rw [hlen]; omega)]
    exact h.nodes i

theorem foldl_same {b : Buf} {step : Ui → ℕ → Ui} (h : ∀ u i, (step u i).mem b = u.mem b) (is : List ℕ)
    (u : Ui) : (is.foldl step u).mem b = u.mem b := by
  induction is generalizing u with
  | nil => rfl
  | cons i is ih => rw [List.foldl_cons,ih,h]

theorem getResmgr_atbcfg (u : Ui) : u.getResmgr.mem .atbcfg = u.mem .atbcfg := by
  have hstore : ∀ (c : Prop) [Decidable c] (u : Ui) a xs,
      (if c then u.store .resmgr a xs else u).mem .atbcfg = u.mem .atbcfg := by
    intro c _ u a xs
    split
    · exact store_other u (by decide) a xs
    · rfl
  unfold Ui.getResmgr
  rw [foldl_same fun u i => hstore _ u _ _,foldl_same fun u i => hstore _ u _ _]

/-- The bytes saved to flash are those of the tables. -/
theorem flashSaveRescfg_image {atbcfg : Mem} (h : Image (u.mem .resmgr) cfg) (hatb : u.mem .atbcfg = atbcfg)
    (flash : ResmgrConfig) :
    Image (u.flashSaveRescfg.mem .resmgr) (Saves.flashSaveRescfg (atbcfg 0) ⟨cfg,flash⟩).cfg := by
  have hmark := mark_image (getResmgr_image h)
  have hmem : (u.getResmgr.store .resmgr 0 (List.replicate 7 0x72)).mem .resmgr =
      Bytes.store (u.getResmgr.mem .resmgr) 0 (List.replicate 7 0x72) := store_mem ..
  have hatbcfg : (u.getResmgr.store .resmgr 0 (List.replicate 7 0x72)).mem .atbcfg = atbcfg :=
    ((store_other _ (by decide) _ _).trans (getResmgr_atbcfg u)).trans hatb
  rw [← hmem] at hmark
  unfold Ui.flashSaveRescfg Saves.flashSaveRescfg Saves.shorten
  dsimp only
  rw [hatbcfg]
  split
  · have hround : ∀ (u : Ui) i,
        (if 61 ≤ (u.mem .resmgr (7*i+6)).toNat+(u.mem .resmgr (7*i+3)).toNat ∧ u.mem .resmgr (7*i+4) = 2 then
          u.store .resmgr (7*i+3) [u.mem .resmgr (7*i+3)-1] else u).mem .resmgr =
        shortenRound (u.mem .resmgr) i := by
      intro u i
      unfold shortenRound
      split
      · exact store_mem ..
      · rfl
    rw [foldl_mem hround]
    exact shorten_image hmark
  · exact hmark

/-! ### A configuration from the host -/

theorem ethSend_other (u : Ui) (env : ℕ → HostUi.Handover) (efd : ℤ) {b b' : Buf} (hne : b' ≠ b) (slen : ℕ) :
    (u.ethSend env efd b slen).mem b' = u.mem b' := by
  unfold Ui.ethSend
  dsimp only
  split
  · rfl
  · exact Function.update_of_ne hne _ _

/-- A request to set the configuration installs and saves the one of the message. -/
theorem setResConfig_image {image : ResmgrConfig} (h : Image (shift (u.mem .rbuf) 2) image)
    (env : ℕ → HostUi.Handover) (efd : ℤ) (flash : ResmgrConfig) :
    Image ((u.setResConfig env efd).mem .resmgr)
      (Saves.flashSaveRescfg (u.mem .atbcfg 0) ⟨Saves.setResmgr (some image) cfg,flash⟩).cfg := by
  have hsent : ∀ b, b ≠ .sbuf →
      ((u.setResmgr.reply .setResConfig).ethSend env efd .sbuf 2).mem b = u.setResmgr.mem b := by
    intro b hb
    rw [ethSend_other _ env efd hb]
    exact store_other _ hb _ _
  have hatbcfg : u.setResmgr.mem .atbcfg = u.mem .atbcfg :=
    (copy_other _ (by decide) _ _ _ _).trans (store_other u (by decide) _ _)
  have himage : Image (((u.setResmgr.reply .setResConfig).ethSend env efd .sbuf 2).mem .resmgr)
      (Saves.setResmgr (some image) cfg) :=
    (setResmgr_image h).congr (congrArg (fun m => read m 0 HostUi.resmgrSize) (hsent .resmgr (by decide)))
  unfold Ui.setResConfig
  exact flashSaveRescfg_image himage ((hsent .atbcfg (by decide)).trans hatbcfg) flash

end Images
end Autbus
