import Autbus.Trace
import Mathlib.Data.Int.Notation
import Mathlib.Algebra.Group.Int.Defs

/-! An upgrade on its way into the flash (`tmux.c`): `upgrade_file_open` erases and seeks,
`upgrade_file_write` writes behind what was written before. The flash driver is not part of the
repository: a write takes some of the bytes from the current position on, or none. -/
namespace Autbus
namespace Firmware

open Trace

/-- The position of the next access, and the offset and size of the last erase. -/
structure Flash where
  pos : ℕ
  erased : ℕ × ℕ

/-- The part of `tmux_context_t` that an upgrade uses; `reboot` is the delay of a timer that was
started to reboot. -/
structure TmuxContext where
  flash : Flash
  uploadOfs : UInt32
  inprog : UInt32
  reboot : Option UInt32

/-- `upgrade_file_open`; a file is opened when it returns no error. -/
def upgradeFileOpen (fname : String) (pctx : TmuxContext) : TmuxContext × Except ℤ Unit :=
  if fname = "reboot.bin" then ({pctx with reboot := some 50000},.error (-12))
  else if fname ≠ "upgrade.bin" then (pctx,.error (-18))
  else if pctx.inprog ≠ 0 then (pctx,.error (-11))
  else ({pctx with flash := ⟨0x100000,(0x100000,0x040000)⟩,uploadOfs := 0,inprog := 0x111},.ok ())

/-- A call of `upgrade_file_write`: the size, and what `write` returns if it is called, the
number of bytes it has taken or an error. -/
structure Call where
  tsiz : UInt32
  iret : ℤ
  taken_le : iret ≤ tsiz.toNat
  int_ge : -2^31 ≤ iret
  int_lt : iret < 2^31

/-- `upgrade_file_write`. The result of `write` is compared as an unsigned number. -/
def upgradeFileWrite (pctx : TmuxContext) (c : Call) : TmuxContext × ℤ :=
  if 524288 < pctx.uploadOfs+c.tsiz then (pctx,-11)
  else
    let pctx := {pctx with flash := {pctx.flash with pos := pctx.flash.pos+c.iret.toNat}}
    if UInt32.ofInt c.iret ≠ c.tsiz then (pctx,-12)
    else ({pctx with uploadOfs := pctx.uploadOfs+c.tsiz},0)

/-- Where the bytes of a call go, those that are not written nowhere. -/
def Call.places (c : Call) (pos : ℕ) : List (Option ℕ) :=
  (List.range c.tsiz.toNat).map fun (k : ℕ) => if (k : ℤ) < c.iret then some (pos+k) else none

/-- The context, and where the bytes accepted so far went. -/
structure State where
  pctx : TmuxContext
  places : List (Option ℕ)

def step (s : State) (c : Call) : Option State :=
  let r := upgradeFileWrite s.pctx c
  some ⟨r.1,if r.2 = 0 then s.places ++ c.places s.pctx.flash.pos else s.places⟩

/-- The bytes accepted are written one behind the other from the seek offset on, in the region
that was erased. -/
structure Sound (s : State) : Prop where
  sequential : ∀ k < s.places.length, s.places[k]? = some (some (0x100000+k))
  inside : ∀ a, some a ∈ s.places →
    s.pctx.flash.erased.1 ≤ a ∧ a < s.pctx.flash.erased.1+s.pctx.flash.erased.2

/-- The call passes the check of the limit, and all of it seems written. -/
def Passes (s : State) (c : Call) : Prop := s.pctx.uploadOfs+c.tsiz ≤ 524288 ∧ UInt32.ofInt c.iret = c.tsiz

/-- A call that passes with bytes in it: it ends inside the erased region, the flash stands
right behind the bytes accepted before, and `write` has not failed. -/
def Fits (s : State) (c : Call) : Prop :=
  Passes s c → c.tsiz ≠ 0 →
    0 ≤ c.iret ∧ s.pctx.flash.pos = 0x100000+s.pctx.uploadOfs.toNat ∧
      s.pctx.uploadOfs.toNat+c.tsiz.toNat ≤ 0x040000

/-- What holds after every call. -/
structure Inv (s : State) : Prop where
  ofs : s.pctx.uploadOfs = UInt32.ofNat s.places.length
  erased : s.pctx.flash.erased = (0x100000,0x040000)

variable {s t : State} {c : Call}

theorem step_passes (h : Passes s c) :
    step s c = some ⟨{s.pctx with
      flash := {s.pctx.flash with pos := s.pctx.flash.pos+c.iret.toNat},
      uploadOfs := s.pctx.uploadOfs+c.tsiz},s.places ++ c.places s.pctx.flash.pos⟩ := by
  unfold step upgradeFileWrite
  rw [if_neg (UInt32.not_lt.mpr h.1)]
  dsimp only
  rw [if_neg (not_not.mpr h.2)]
  rfl

/-- A call that does not pass accepts nothing. -/
theorem step_refused (h : ¬Passes s c) (ht : step s c = some t) :
    t.places = s.places ∧ t.pctx.uploadOfs = s.pctx.uploadOfs ∧ t.pctx.flash.erased = s.pctx.flash.erased := by
  unfold step upgradeFileWrite at ht
  dsimp only at ht
  split at ht
  · obtain rfl := Option.some.inj ht
    exact ⟨rfl,rfl,rfl⟩
  · next hle =>
    split at ht
    · obtain rfl := Option.some.inj ht
      exact ⟨rfl,rfl,rfl⟩
    · next heq => exact absurd ⟨UInt32.not_lt.mp hle,not_not.mp heq⟩ h

theorem length_places (c : Call) (pos : ℕ) : (c.places pos).length = c.tsiz.toNat := by simp [Call.places]

theorem getElem?_places {pos k : ℕ} (hk : k < c.tsiz.toNat) :
    (c.places pos)[k]? = some (if (k : ℤ) < c.iret then some (pos+k) else none) := by
  unfold Call.places
  rw [List.getElem?_map,List.getElem?_range hk]
  rfl

theorem Inv.step (h : Inv s) (ht : step s c = some t) : Inv t := by
  by_cases hp : Passes s c
  · rw [step_passes hp] at ht
    obtain rfl := Option.some.inj ht
    refine ⟨?_,h.erased⟩
    show s.pctx.uploadOfs+c.tsiz = UInt32.ofNat (s.places ++ c.places s.pctx.flash.pos).length
    rw [List.length_append,length_places,UInt32.ofNat_add,h.ofs,UInt32.ofNat_toNat]
  · obtain ⟨hplaces,hofs,herased⟩ := step_refused hp ht
    exact ⟨by rw [hofs,hplaces,h.ofs],herased.trans h.erased⟩

/-- Bytes in a row stay in the region as long as they are few. -/
theorem Inv.sound_iff_length (h : Inv s) :
    Sound s ↔ (∀ k < s.places.length, s.places[k]? = some (some (0x100000+k))) ∧ s.places.length ≤ 0x040000 := by
  constructor
  · intro hs
    refine ⟨hs.sequential,Nat.not_lt.mp fun hlt => ?_⟩
    have hmem := List.mem_of_getElem? (hs.sequential 0x040000 hlt)
    have hin := (hs.inside _ hmem).2
    rw [h.erased] at hin
    exact absurd hin (by decide)
  · rintro ⟨hseq,hlen⟩
    refine ⟨hseq,fun a ha => ?_⟩
    obtain ⟨k,hk,hka⟩ := List.mem_iff_getElem.mp ha
    have hat := hseq k hk
    rw [List.getElem?_eq_getElem hk,hka] at hat
    have hat : a = 0x100000+k := Option.some.inj (Option.some.inj hat)
    rw [h.erased]
    dsimp only
    omega

/-- A call that passes without an error has written all its bytes. -/
theorem Passes.taken (h : Passes s c) (h0 : 0 ≤ c.iret) : c.iret = c.tsiz.toNat := by
  have hlt := c.int_lt
  have heq := congrArg UInt32.toNat h.2
  rw [UInt32.ofInt,UInt32.toNat_ofNat'] at heq
  omega

/-- A list that goes on as its front does. -/
theorem sequential_append {ps qs : List (Option ℕ)} {a : ℕ} :
    (∀ k < (ps ++ qs).length, (ps ++ qs)[k]? = some (some (a+k))) ↔
      (∀ k < ps.length, ps[k]? = some (some (a+k))) ∧ ∀ k < qs.length, qs[k]? = some (some (a+ps.length+k)) := by
  rw [List.length_append]
  constructor
  · intro h
    refine ⟨fun k hk => ?_,fun k hk => ?_⟩
    · have hat := h k (by omega)
      rwa [List.getElem?_append_left hk] at hat
    · have hat := h (ps.length+k) (by omega)
      rwa [List.getElem?_append_right (Nat.le_add_right _ _),Nat.add_sub_cancel_left,← Nat.add_assoc] at hat
  · rintro ⟨hps,hqs⟩ k hk
    by_cases hleft : k < ps.length
    · rw [List.getElem?_append_left hleft]
      exact hps k hleft
    · have hat := hqs (k-ps.length) (by omega)
      rw [List.getElem?_append_right (Nat.not_lt.mp hleft),hat]
      congr 2
      omega

/-- The bytes of a call that passes go where they belong when `write` has not failed and begins
there. -/
theorem Passes.sequential_iff (h : Passes s c) (hsize : c.tsiz ≠ 0) {pos a : ℕ} :
    (∀ k < (c.places pos).length, (c.places pos)[k]? = some (some (a+k))) ↔ 0 ≤ c.iret ∧ pos = a := by
  have hpos : 0 < c.tsiz.toNat := Nat.pos_of_ne_zero fun hz => hsize (UInt32.toNat_inj.mp hz)
  rw [length_places]
  constructor
  · intro hseq
    -- the first byte of the call
    have hat := hseq 0 hpos
    rw [getElem?_places hpos] at hat
    have hat := Option.some.inj hat
    split at hat
    · next hiret =>
      have hat := Option.some.inj hat
      exact ⟨by omega,by omega⟩
    · cases hat
  · rintro ⟨hiret,rfl⟩ k hk
    have htaken := h.taken hiret
    rw [getElem?_places hk,if_pos (by omega)]

/-- One call: what was sound stays so when the call fits, and else not. -/
theorem sound_step_iff (h : Inv s) (ht : step s c = some t) : Sound t ↔ Sound s ∧ Fits s c := by
  rw [(h.step ht).sound_iff_length,h.sound_iff_length]
  by_cases hp : Passes s c
  · rw [step_passes hp] at ht
    obtain rfl := Option.some.inj ht
    have hsize := length_places c s.pctx.flash.pos
    dsimp only
    rw [sequential_append,List.length_append]
    by_cases hzero : c.tsiz = 0
    · have hnil : c.places s.pctx.flash.pos = [] := by
        rw [hzero] at hsize
        exact List.eq_nil_of_length_eq_zero hsize
      rw [hnil]
      constructor
      · rintro ⟨⟨hseq,-⟩,hlen⟩
        exact ⟨⟨hseq,hlen⟩,fun _ hne => absurd hzero hne⟩
      · rintro ⟨⟨hseq,hlen⟩,-⟩
        exact ⟨⟨hseq,fun _ hk => absurd hk (Nat.not_lt_zero _)⟩,hlen⟩
    · rw [hp.sequential_iff hzero,hsize]
      -- the offset counts the bytes accepted before
      have hofs : s.places.length ≤ 0x040000 → s.pctx.uploadOfs.toNat = s.places.length := by
        intro hle
        rw [h.ofs,UInt32.toNat_ofNat',Nat.mod_eq_of_lt (by omega)]
      constructor
      · rintro ⟨⟨hseq,hiret,hat⟩,hlen⟩
        have hofs := hofs (by omega)
        exact ⟨⟨hseq,by omega⟩,fun _ _ => ⟨hiret,by omega,by omega⟩⟩
      · rintro ⟨⟨hseq,hlen⟩,hfits⟩
        obtain ⟨hiret,hat,hend⟩ := hfits hp hzero
        have hofs := hofs hlen
        exact ⟨⟨hseq,hiret,by omega⟩,by omega⟩
  · obtain ⟨hplaces,-,-⟩ := step_refused hp ht
    rw [hplaces]
    exact ⟨fun hs => ⟨hs,fun hpass => absurd hpass hp⟩,fun hs => hs.1⟩

/-! ### Every session -/

/-- The file is open, nothing is written yet. -/
def opened (pctx : TmuxContext) : State := ⟨pctx,[]⟩

theorem inv_opened {pctx pctx' : TmuxContext} {fname : String}
    (h : upgradeFileOpen fname pctx = (pctx',.ok ())) : Inv (opened pctx') := by
  unfold upgradeFileOpen at h
  split at h
  · cases h
  · split at h
    · cases h
    · split at h
      · cases h
      · obtain ⟨rfl,-⟩ := Prod.mk.inj h
        exact ⟨rfl,rfl⟩

theorem sound_opened (pctx : TmuxContext) : Sound (opened pctx) :=
  ⟨fun _ hk => absurd hk (Nat.not_lt_zero _),fun _ ha => absurd ha List.not_mem_nil⟩

/-- After any calls on an open upgrade the bytes accepted are where they belong just when every
call fitted. -/
theorem upgrade_sound_iff {pctx pctx' : TmuxContext} {fname : String} {cs : List Call}
    (hopen : upgradeFileOpen fname pctx = (pctx',.ok ())) (h : Run step anyStep (opened pctx') cs s) :
    Sound s ↔ Run step (fun _ s c => Fits s c) (opened pctx') cs s := by
  have hinv : Inv s ∧ (Sound s ↔ Run step (fun _ s c => Fits s c) (opened pctx') cs s) := by
    induction h with
    | nil => exact ⟨inv_opened hopen,fun _ => .nil,fun _ => sound_opened pctx'⟩
    | cons hr _ ht ih =>
      obtain ⟨hinv,hiff⟩ := ih
      refine ⟨hinv.step ht,?_⟩
      rw [sound_step_iff hinv ht,hiff]
      constructor
      · rintro ⟨hrun,hfits⟩
        exact .cons hrun hfits ht
      · intro hrun
        cases hrun with
        | cons hrun hfits hstep =>
          have heq := hr.det hrun
          subst heq
          exact ⟨hrun,hfits⟩
  exact hinv.2

/-- A full block that is written. -/
def block : Call := ⟨512,512,by decide,by decide,by decide⟩

/-- A context before an upgrade, and while it is open. -/
def idle : TmuxContext := ⟨⟨0,(0,0)⟩,0,0,none⟩

def underway : TmuxContext := ⟨⟨0x100000,(0x100000,0x040000)⟩,0,0x111,none⟩

theorem idle_open : upgradeFileOpen "upgrade.bin" idle = (underway,.ok ()) := by
  unfold upgradeFileOpen
  rw [if_neg (by decide),if_neg (by decide),if_neg (by decide)]
  rfl

theorem one_block_sound : ∃ s, Run step anyStep (opened underway) [block] s ∧ Sound s := by
  have hstep : step (opened underway) block = some _ := rfl
  have hrun : Run step anyStep (opened underway) [block] _ := .cons .nil trivial hstep
  refine ⟨_,hrun,(upgrade_sound_iff idle_open hrun).mpr (.cons .nil ?_ hstep)⟩
  exact fun _ _ => ⟨by decide,by decide,by decide⟩

/-- Up to 1024 blocks pass the check of the limit. -/
theorem blocks_run {n : ℕ} (hn : n ≤ 1024) : ∃ s, Run step anyStep (opened underway) (List.replicate n block) s ∧
    Inv s ∧ s.places.length = 512*n := by
  induction n with
  | zero => exact ⟨opened underway,.nil,inv_opened idle_open,rfl⟩
  | succ n ih =>
    obtain ⟨s,hrun,hinv,hlen⟩ := ih (by omega)
    have hpass : Passes s block := by
      refine ⟨?_,by decide⟩
      rw [UInt32.le_iff_toNat_le,UInt32.toNat_add,hinv.ofs,UInt32.toNat_ofNat',hlen]
      show (512*n%2^32+512)%2^32 ≤ 524288
      omega
    have hstep := step_passes hpass
    refine ⟨_,.cons hrun trivial hstep,hinv.step hstep,?_⟩
    rw [List.length_append,hlen,length_places]
    rfl

/-- Of 513 blocks the last one lies behind the erased region. -/
theorem long_upgrade_not_sound : ∃ pctx pctx' s, upgradeFileOpen "upgrade.bin" pctx = (pctx',.ok ()) ∧
    Run step anyStep (opened pctx') (List.replicate 513 block) s ∧ ¬Sound s := by
  obtain ⟨s,hrun,hinv,hlen⟩ := blocks_run (show 513 ≤ 1024 by decide)
  refine ⟨idle,underway,s,idle_open,hrun,fun h => ?_⟩
  have hle := (hinv.sound_iff_length.mp h).2
  rw [hlen] at hle
  exact absurd hle (by decide)

end Firmware
end Autbus
