import Autbus.Datagrams
import Autbus.Trace
import Mathlib.Data.List.Pairwise

/-! The local ports of UDP sockets (`minip.c`). A bitmap says which of 128 ports are free for the
sockets that name none; its functions are not part of the repository. -/
namespace Autbus
namespace Ports

open Datagrams Trace

variable {B : Type*}

/-- The functions of `bitmap.h`. -/
structure BitmapApi (B : Type*) where
  bitmapFfs : B → Option ℕ
  bitmapClr : B → ℕ → B
  bitmapSet : B → ℕ → B

/-- A bit that is set is found; below 128, one bit is changed at a time. -/
structure BitmapApi.Usual (api : BitmapApi B) (bit : B → ℕ → Prop) : Prop where
  ffs : ∀ b i, api.bitmapFfs b = some i → i < 128 ∧ bit b i
  clr : ∀ b i j, i < 128 → (bit (api.bitmapClr b i) j ↔ bit b j ∧ j ≠ i)
  set : ∀ b i j, i < 128 → (bit (api.bitmapSet b i) j ↔ bit b j ∨ j = i)

/-- A live socket, and whether its port was chosen for it and is still its port. -/
structure Sock where
  psock : ℤ
  sock : MinipIpSock
  auto : Bool

/-- The local port, in the order of the host. -/
def Sock.port (c : Sock) : UInt16 := bswap16 c.sock.srcPort

/-- `pbmp_ures`, the live sockets, and the indices of the bitmap that were set or cleared. -/
structure Sys (B : Type*) where
  pbmpUres : B
  socks : List Sock
  indices : List ℕ

section Code

variable (api : BitmapApi B)

/-- `minip_port_alloc`. -/
def minipPortAlloc (s : Sys B) : Option (UInt16 × Sys B) :=
  (api.bitmapFfs s.pbmpUres).map fun temp => (UInt16.ofNat (temp+20000),
    { s with pbmpUres := api.bitmapClr s.pbmpUres temp,indices := temp::s.indices })

/-- `minip_port_free`. -/
def minipPortFree (s : Sys B) (spt : UInt16) : ℤ × Sys B :=
  if spt < 20000 then (1,s)
  else
    let temp := spt.toNat-20000
    (0,{ s with pbmpUres := api.bitmapSet s.pbmpUres temp,indices := temp::s.indices })

/-- The end of `minsock_udp_new`, where `psock` is the answer of `malloc`. -/
def makeSock (s : Sys B) (srcport : UInt16) (auto : Bool) (psock : Option ℤ) : ℤ × Sys B :=
  match psock with
  | none => (-1,(minipPortFree api s srcport).2)
  | some psock => (psock,{ s with socks := ⟨psock,⟨bswap16 srcport,0,0,none⟩,auto⟩::s.socks })

/-- `minsock_udp_new`. -/
def minsockUdpNew (s : Sys B) (srcport : UInt16) (psock : Option ℤ) : ℤ × Sys B :=
  if srcport = 0 then
    match minipPortAlloc api s with
    | none => (-8,s)
    | some (srcport,s) => makeSock api s srcport true psock
  else makeSock api s srcport false psock

/-- `minsock_udp_free`, for sockets that do not listen. -/
def minsockUdpFree (s : Sys B) (c : Sock) : Sys B :=
  { (minipPortFree api s c.port).2 with socks := s.socks.filter fun d => d.psock ≠ c.psock }

/-- `minsock_udp_bind`. -/
def minsockUdpBind (s : Sys B) (c : Sock) (srcport : UInt16) : ℤ × Sys B :=
  let c' : Sock := { c with sock := { c.sock with srcPort := bswap16 srcport },auto := false }
  (0,{ s with socks := s.socks.map fun d => if d.psock = c.psock then c' else d })

/-! ### Runs -/

inductive Call
  | new (srcport : UInt16) (psock : Option ℤ)
  | bind (sock : ℤ) (srcport : UInt16)
  | free (sock : ℤ)

def find (s : Sys B) (sock : ℤ) : Option Sock := s.socks.find? fun c => c.psock = sock

/-- A call; memory that is new is no live socket, and the other calls are for live ones. -/
def step (s : Sys B) : Call → Option (Sys B)
  | .new srcport psock =>
    if ∀ a ∈ psock, find s a = none then some (minsockUdpNew api s srcport psock).2 else none
  | .bind sock srcport => (find s sock).map fun c => (minsockUdpBind s c srcport).2
  | .free sock => (find s sock).map (minsockUdpFree api s)

end Code

/-- Sockets whose ports were chosen for them have different ports. -/
def Distinct (socks : List Sock) : Prop := socks.Pairwise fun c d => c.auto → d.auto → c.port ≠ d.port

instance (socks : List Sock) : Decidable (Distinct socks) := inferInstanceAs (Decidable (List.Pairwise _ _))

/-- Different ports, and no index beyond the bitmap. -/
def Sound (s : Sys B) : Prop := Distinct s.socks ∧ ∀ i ∈ s.indices, i < 128

/-- To give a port back that was not chosen does no harm when it is below the chosen ones, or is one of
them that no socket has. -/
def Harmless (s : Sys B) (spt : UInt16) : Prop :=
  spt < 20000 ∨ spt < 20128 ∧ ∀ c ∈ s.socks, c.auto → c.port ≠ spt

/-- Ports that were not chosen are given back when a socket with such a port is freed, and when there is
no memory for one. -/
def GivesBack (_ : List Call) (s : Sys B) : Call → Prop
  | .new srcport none => srcport ≠ 0 → Harmless s srcport
  | .new _ (some _) => True
  | .bind _ _ => True
  | .free sock => ∀ c ∈ find s sock, ¬c.auto → Harmless s c.port

/-- The bit of a port is clear as long as it is the port of a socket it was chosen for. -/
def Booked (bit : B → ℕ → Prop) (s : Sys B) : Prop :=
  ∀ c ∈ s.socks, c.auto → ∃ i < 128, c.port.toNat = 20000+i ∧ ¬bit s.pbmpUres i

structure Inv (bit : B → ℕ → Prop) (s : Sys B) : Prop where
  booked : Booked bit s
  sound : Sound s

section Steps

variable {api : BitmapApi B} {bit : B → ℕ → Prop} {s t : Sys B} {c : Sock} {socks : List Sock} {spt : UInt16}
  {b : B}

/-- Fewer sockets are booked and distinct as well. -/
theorem Inv.fewer (h : Inv bit s) (hsub : socks.Sublist s.socks) : Inv bit { s with socks := socks } where
  booked c hc := h.booked c (hsub.subset hc)
  sound := ⟨h.sound.1.sublist hsub,h.sound.2⟩

theorem find_some {sock : ℤ} (h : find s sock = some c) : c ∈ s.socks ∧ c.psock = sock :=
  ⟨List.mem_of_find?_eq_some h,by simpa using List.find?_some h⟩

theorem chosen_lt {i : ℕ} (h : spt.toNat = 20000+i) (hi : i < 128) : spt < 20128 := by
  simp only [UInt16.lt_iff_toNat_lt,h,UInt16.reduceToNat]
  omega

/-- Harmless ports leave the sockets their bits. -/
theorem minipPortFree_inv (hu : api.Usual bit) (h : Inv bit s) (hspt : Harmless s spt) :
    Inv bit (minipPortFree api s spt).2 := by
  rw [minipPortFree]
  split
  · exact h
  · next hge =>
    obtain ⟨hlt,hfree⟩ := hspt.resolve_left hge
    have hindex : spt.toNat-20000 < 128 ∧ 20000+(spt.toNat-20000) = spt.toNat := by
      have hlo : ¬spt.toNat < 20000 := by simpa [UInt16.lt_iff_toNat_lt] using hge
      have hhi : spt.toNat < 20128 := by simpa [UInt16.lt_iff_toNat_lt] using hlt
      omega
    refine ⟨fun c hc hauto => ?_,h.sound.1,?_⟩
    · obtain ⟨i,hi,hport,hclear⟩ := h.booked c hc hauto
      refine ⟨i,hi,hport,fun hset => ?_⟩
      rcases (hu.set _ _ _ hindex.1).mp hset with hset | heq
      · exact hclear hset
      · rw [heq] at hport
        exact hfree c hc hauto (UInt16.toNat_inj.mp (hport.trans hindex.2))
    · exact List.forall_mem_cons.mpr ⟨hindex.1,h.sound.2⟩

/-- A port that is chosen belongs to no socket. -/
theorem minipPortAlloc_inv (hu : api.Usual bit) (h : Inv bit s) (halloc : minipPortAlloc api s = some (spt,t)) :
    Inv bit t ∧ t.socks = s.socks ∧ (∀ c ∈ s.socks, c.auto → c.port ≠ spt) ∧
      ∃ i < 128, spt.toNat = 20000+i ∧ ¬bit t.pbmpUres i := by
  obtain ⟨temp,hffs,heq⟩ := Option.map_eq_some_iff.mp halloc
  obtain ⟨rfl,rfl⟩ := Prod.mk.inj heq
  obtain ⟨hlt,hset⟩ := hu.ffs _ _ hffs
  have hport : (UInt16.ofNat (temp+20000)).toNat = 20000+temp := by
    rw [UInt16.toNat_ofNat',Nat.mod_eq_of_lt (by omega),Nat.add_comm]
  have hclr := hu.clr s.pbmpUres temp
  refine ⟨⟨fun c hc hauto => ?_,h.sound.1,List.forall_mem_cons.mpr ⟨hlt,h.sound.2⟩⟩,rfl,fun c hc hauto heq => ?_,
    temp,hlt,hport,fun hbit => ((hclr temp hlt).mp hbit).2 rfl⟩
  · obtain ⟨i,hi,hci,hclear⟩ := h.booked c hc hauto
    exact ⟨i,hi,hci,fun hbit => hclear ((hclr i hlt).mp hbit).1⟩
  · obtain ⟨i,hi,hci,hclear⟩ := h.booked c hc hauto
    rw [heq,hport] at hci
    obtain rfl : temp = i := by omega
    exact hclear hset

/-- A socket comes with a port that is booked for it. -/
theorem Inv.insert (h : Inv bit s) (hc : c.auto → (∀ d ∈ s.socks, d.auto → d.port ≠ c.port) ∧
    ∃ i < 128, c.port.toNat = 20000+i ∧ ¬bit s.pbmpUres i) : Inv bit { s with socks := c::s.socks } where
  booked := List.forall_mem_cons.mpr ⟨fun hauto => (hc hauto).2,h.booked⟩
  sound := by
    refine ⟨List.pairwise_cons.mpr ⟨fun d hd hauto hdauto heq => ?_,h.sound.1⟩,h.sound.2⟩
    exact (hc hauto).1 d hd hdauto heq.symm

theorem minsockUdpNew_inv (hu : api.Usual bit) (h : Inv bit s) (psock : Option ℤ)
    (hback : psock = none → spt ≠ 0 → Harmless s spt) : Inv bit (minsockUdpNew api s spt psock).2 := by
  rw [minsockUdpNew]
  split
  · cases halloc : minipPortAlloc api s with
    | none => exact h
    | some x =>
      obtain ⟨srcport,t⟩ := x
      obtain ⟨hinv,hsocks,hnew,i,hi,hport,hclear⟩ := minipPortAlloc_inv hu h halloc
      cases psock with
      | none =>
        refine minipPortFree_inv hu hinv (Or.inr ⟨?_,hsocks ▸ hnew⟩)
        exact chosen_lt hport hi
      | some a =>
        refine hinv.insert fun _ => ?_
        rw [Sock.port,bswap16_bswap16]
        exact ⟨hsocks ▸ hnew,i,hi,hport,hclear⟩
  · next hne =>
    cases psock with
    | none => exact minipPortFree_inv hu h (hback rfl hne)
    | some a => exact h.insert nofun

theorem minipPortFree_socks : (minipPortFree api { s with socks := socks } spt).2 =
    { (minipPortFree api s spt).2 with socks := socks } := by
  rw [minipPortFree,minipPortFree]
  split <;> rfl

/-- The port of a socket it was chosen for does no harm when the socket is gone. -/
theorem minsockUdpFree_inv (hu : api.Usual bit) (h : Inv bit s) (hc : c ∈ s.socks)
    (hback : ¬c.auto → Harmless s c.port) : Inv bit (minsockUdpFree api s c) := by
  have hfewer := h.fewer (List.filter_sublist (p := fun d => d.psock ≠ c.psock))
  rw [minsockUdpFree,← minipPortFree_socks]
  refine minipPortFree_inv hu hfewer ?_
  by_cases hauto : c.auto
  · obtain ⟨i,hi,hport,-⟩ := h.booked c hc hauto
    refine Or.inr ⟨chosen_lt hport hi,fun d hd hdauto heq => ?_⟩
    obtain ⟨hd,hne⟩ := List.mem_filter.mp hd
    have hsymm : Std.Symm fun a b : Sock => a.auto → b.auto → a.port ≠ b.port :=
      ⟨fun a b hab hb ha heq => hab ha hb heq.symm⟩
    refine h.sound.1.forall hd hc ?_ hdauto hauto heq
    rintro rfl
    simp at hne
  · rcases hback hauto with hlo | ⟨hhi,hfree⟩
    · exact Or.inl hlo
    · exact Or.inr ⟨hhi,fun d hd => hfree d (List.mem_filter.mp hd).1⟩

theorem minsockUdpBind_inv (h : Inv bit s) (c : Sock) (srcport : UInt16) :
    Inv bit (minsockUdpBind s c srcport).2 where
  booked d hd hauto := by
    obtain ⟨e,he,rfl⟩ := List.mem_map.mp hd
    split at hauto
    · exact absurd hauto (by simp)
    · next hne =>
      rw [if_neg hne]
      exact h.booked e he hauto
  sound := by
    refine ⟨List.pairwise_map.mpr (h.sound.1.imp fun hab ha hb => ?_),h.sound.2⟩
    split at ha
    · exact absurd ha (by simp)
    · split at hb
      · exact absurd hb (by simp)
      · next ha' hb' =>
        rw [if_neg ha',if_neg hb']
        exact hab ha hb

theorem step_inv (hu : api.Usual bit) {es : List Call} {e : Call} (h : Inv bit s) (hback : GivesBack es s e)
    (ht : step api s e = some t) : Inv bit t := by
  cases e with
  | new srcport psock =>
    rw [step] at ht
    split at ht
    · obtain rfl := Option.some.inj ht
      refine minsockUdpNew_inv hu h psock fun hnone => ?_
      subst hnone
      exact hback
    · cases ht
  | bind sock srcport =>
    obtain ⟨c,-,rfl⟩ := Option.map_eq_some_iff.mp ht
    exact minsockUdpBind_inv h c srcport
  | free sock =>
    obtain ⟨c,hfind,rfl⟩ := Option.map_eq_some_iff.mp ht
    exact minsockUdpFree_inv hu h (find_some hfind).1 (hback c hfind)

end Steps

/-- `minip_init`: no sockets, whatever the bitmap says. -/
def start (b : B) : Sys B := ⟨b,[],[]⟩

/-- Ports stay apart in every run in which what is given back does no harm. -/
theorem ports_run_sound {api : BitmapApi B} {bit : B → ℕ → Prop} (hu : api.Usual bit) {b : B} {es : List Call} {s : Sys B}
    (hr : Run (step api) GivesBack (start b) es s) : Sound s := by
  have hinv : Inv bit s := by
    refine hr.invariant (I := fun _ s => Inv bit s) ⟨nofun,List.Pairwise.nil,nofun⟩ ?_
    intro es s e t _ hs hback ht
    exact step_inv hu hs hback ht
  exact hinv.sound

/-- Bits as a predicate. -/
def plainApi : BitmapApi (ℕ → Bool) where
  bitmapFfs b := (List.range 128).find? b
  bitmapClr b i j := b j && j != i
  bitmapSet b i j := b j || j == i

theorem plainApi_usual : plainApi.Usual fun b i => b i = true where
  ffs b i h := ⟨by simpa using List.mem_of_find?_eq_some h,List.find?_some h⟩
  clr b i j _ := by simp [plainApi]
  set b i j _ := by simp [plainApi]

def allFree : ℕ → Bool := fun _ => true

theorem explicitFreed_sound : ∃ s, Run (step plainApi) GivesBack (start allFree)
    [.new 0 (some 3),.free 2,.new 5000 (some 2),.new 0 (some 1)] s ∧ s.socks.length = 2 ∧ Sound s := by
  have hfirst : Run (step plainApi) GivesBack (start allFree) [.new 0 (some 1)] _ := .cons .nil trivial rfl
  have hsecond : Run (step plainApi) GivesBack (start allFree) [.new 5000 (some 2),.new 0 (some 1)] _ :=
    .cons hfirst trivial rfl
  have hfreed : Run (step plainApi) GivesBack (start allFree) [.free 2,.new 5000 (some 2),.new 0 (some 1)] _ :=
    .cons hsecond (fun c hc _ => Or.inl (by cases hc; decide)) rfl
  have hthird : Run (step plainApi) GivesBack (start allFree)
      [.new 0 (some 3),.free 2,.new 5000 (some 2),.new 0 (some 1)] _ := .cons hfreed trivial rfl
  exact ⟨_,hthird,rfl,ports_run_sound plainApi_usual hthird⟩

/-- A socket that names a port that was chosen for another gives it back as if it were its own; a port
beyond the chosen ones goes beyond the bitmap. -/
theorem named_not_sound : plainApi.Usual (fun b i => b i = true) ∧
    (∃ s, Run (step plainApi) anyStep (start allFree) [.new 0 (some 3),.free 2,.new 20000 (some 2),.new 0 (some 1)] s ∧
      ¬Distinct s.socks) ∧
    ∃ s, Run (step plainApi) anyStep (start allFree) [.free 1,.new 30000 (some 1)] s ∧ s.indices = [10000] := by
  obtain ⟨s,hs,hdistinct⟩ := run_of_exec_map (step plainApi) (start allFree)
    [.new 0 (some 1),.new 20000 (some 2),.free 2,.new 0 (some 3)] (fun s => decide ¬Distinct s.socks) (by decide)
  obtain ⟨t,ht,hindex⟩ := run_of_exec_map (step plainApi) (start allFree) [.new 30000 (some 1),.free 1]
    (fun s => decide (s.indices = [10000])) (by decide)
  exact ⟨plainApi_usual,⟨s,hs,of_decide_eq_true hdistinct⟩,t,ht,of_decide_eq_true hindex⟩

end Ports
end Autbus
