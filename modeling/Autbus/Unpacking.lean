import Autbus.Bundles

/-! What `recv_unpack` copies out of a bundle and clips off it, for bundles of any content. -/
namespace Autbus
namespace Bundles

open Bytes

variable (c : Consts) (api : PktApi) (keephdr : Bool)

/-- The bytes of the packet that a call copies or clips off, from where the packet begins. -/
def touches (ipkt : Pbuf) : List Span :=
  if ipkt.mem ipkt.addr &&& c.xheaderIdmask = c.xheaderId then
    if 1 < ipkt.mem (ipkt.addr+1) then
      let len := u16 ipkt.mem (ipkt.addr+2)
      if len = 0 ∨ c.pbufMaxsize < len then [] else [⟨0,len+xheaderLen⟩,⟨0,len+xheaderLen-2⟩]
    else if keephdr then [] else [⟨0,xheaderLen⟩]
  else []

def Inside (ipkt : Pbuf) : Prop := ∀ s ∈ touches c keephdr ipkt, s.Within ipkt.length

/-- What is kept of a packet after `n` calls. -/
def keptAfter : ℕ → Pbuf → Option Pbuf
  | 0, ipkt => some ipkt
  | n+1, ipkt =>
    match recvUnpack c api keephdr ipkt with
    | .split _ ppkpkt => keptAfter n ppkpkt
    | _ => none

/-- The lengths in the bytes received, followed from `o` on for `count` packets, stay inside
the packet up to the first one that is refused. -/
def Fits (ipkt : Pbuf) : ℕ → ℕ → Prop
  | count+2, o =>
    let len := u16 ipkt.mem (ipkt.addr+o+2)
    len = 0 ∨ c.pbufMaxsize < len ∨ o+len+xheaderLen ≤ ipkt.length ∧ Fits ipkt (count+1) (o+len+2)
  | _, o => keephdr = true ∨ o+xheaderLen ≤ ipkt.length

instance (ipkt : Pbuf) : ∀ count o, Decidable (Fits c keephdr ipkt count o)
  | 0, _ => inferInstanceAs (Decidable (_ ∨ _))
  | 1, _ => inferInstanceAs (Decidable (_ ∨ _))
  | count+2, _ =>
    have := instDecidableFits ipkt (count+1)
    inferInstanceAs (Decidable (_ ∨ _ ∨ _ ∧ _))

variable {c api keephdr} {p q : Pbuf} {o k : ℕ}

/-- What is left of `p` from `o` on, with `k` packets to come. -/
structure Rest (c : Consts) (p : Pbuf) (o k : ℕ) (q : Pbuf) : Prop where
  addr : q.addr = p.addr+o
  length : o+q.length = p.length
  tail : ∀ a, q.addr+2 ≤ a → q.mem a = p.mem a
  id : q.mem q.addr &&& c.xheaderIdmask = c.xheaderId
  count : (q.mem (q.addr+1)).toNat = k

theorem Rest.lenField (h : Rest c p o k q) : Bytes.u16 q.mem (q.addr+2) = Bytes.u16 p.mem (p.addr+o+2) := by
  unfold Bytes.u16
  rw [h.tail _ (Nat.le_refl _),h.tail _ (by omega),h.addr]

theorem Rest.many (h : Rest c p o (k+2) q) : 1 < q.mem (q.addr+1) := by
  rw [UInt8.lt_iff_toNat_lt,h.count]
  exact Nat.succ_lt_succ (Nat.succ_pos k)

theorem Rest.few (h : Rest c p o k q) (hk : k ≤ 1) : ¬1 < q.mem (q.addr+1) := by
  rw [UInt8.lt_iff_toNat_lt,h.count]
  exact not_lt.mpr hk

/-- A packet taken out leaves the rest behind it. -/
theorem Rest.split (keephdr : Bool) (h : api.Usual) (hq : Rest c p o (k+2) q)
    (hlen : ¬(Bytes.u16 p.mem (p.addr+o+2) = 0 ∨ c.pbufMaxsize < Bytes.u16 p.mem (p.addr+o+2)))
    (hfit : o+Bytes.u16 p.mem (p.addr+o+2)+xheaderLen ≤ p.length) :
    ∃ out r, recvUnpack c api keephdr q = .split out r ∧
      Rest c p (o+Bytes.u16 p.mem (p.addr+o+2)+2) (k+1) r := by
  have h16 := hq.lenField
  generalize hl : Bytes.u16 p.mem (p.addr+o+2) = len at *
  have hlength := hq.length
  have hpos : len ≠ 0 := fun h0 => hlen (Or.inl h0)
  have hclip := h.clip q (len+xheaderLen-2) (by omega)
  rw [recvUnpack,if_pos hq.id,if_pos hq.many]
  dsimp only
  rw [h16,if_neg hlen,hclip]
  refine ⟨_,_,rfl,?_⟩
  simp only [Pbuf.poke,store_one,xheaderLen] at hfit ⊢
  -- the new header lies behind the one it is made from
  have hsrc : Function.update q.mem (q.addr+(len+4-2)+0) (q.mem q.addr) (q.addr+1) = q.mem (q.addr+1) :=
    Function.update_of_ne (by omega) _ _
  refine ⟨?_,?_,?_,?_,?_⟩
  · show q.addr+(len+4-2) = p.addr+(o+len+2)
    rw [hq.addr]
    omega
  · show o+len+2+(q.length-(len+4-2)) = p.length
    omega
  · intro a ha
    dsimp only at ha ⊢
    rw [Function.update_of_ne (by omega),Function.update_of_ne (by omega)]
    exact hq.tail a (by omega)
  · dsimp only
    rw [Function.update_of_ne (by omega),Nat.add_zero,Function.update_self]
    exact hq.id
  · dsimp only
    rw [Function.update_self,hsrc,UInt8.toNat_sub_of_le _ _ (UInt8.le_of_lt hq.many),hq.count]
    rfl

/-- A call on what is left stays inside it, or the lengths lead out of it. -/
theorem inside_rest (keephdr : Bool) (hq : Rest c p o k q) :
    Inside c keephdr q ↔
      if 1 < k then
        u16 p.mem (p.addr+o+2) = 0 ∨ c.pbufMaxsize < u16 p.mem (p.addr+o+2) ∨
          o+u16 p.mem (p.addr+o+2)+xheaderLen ≤ p.length
      else keephdr = true ∨ o+xheaderLen ≤ p.length := by
  have hlength := hq.length
  have hcount : (1 < q.mem (q.addr+1)) ↔ 1 < k := by
    rw [UInt8.lt_iff_toNat_lt,hq.count]
    rfl
  unfold Inside touches
  rw [if_pos hq.id,hq.lenField]
  by_cases hk : 1 < k
  · rw [if_pos (hcount.mpr hk),if_pos hk]
    dsimp only
    generalize u16 p.mem (p.addr+o+2) = len
    by_cases hlen : len = 0 ∨ c.pbufMaxsize < len
    · rw [if_pos hlen]
      simp only [List.not_mem_nil,false_implies,implies_true,true_iff]
      tauto
    · rw [if_neg hlen]
      simp only [List.forall_mem_cons,Span.Within,xheaderLen,List.not_mem_nil,false_implies,implies_true,
        and_true]
      rw [not_or] at hlen
      simp only [hlen,false_or]
      omega
  · rw [if_neg (mt hcount.mp hk),if_neg hk]
    cases keephdr with
    | true => simp
    | false =>
      simp only [Bool.false_eq_true,if_false,List.forall_mem_cons,Span.Within,xheaderLen,List.not_mem_nil,
        false_implies,implies_true,and_true,false_or]
      omega

/-- Calls that stay inside the packet, the last one of `n`. -/
structure Safe (c : Consts) (api : PktApi) (keephdr : Bool) (n : ℕ) (q : Pbuf) : Prop where
  inside : ∀ k r, keptAfter c api keephdr k q = some r → Inside c keephdr r
  consumed : keptAfter c api keephdr n q = none

theorem safe_stop {n : ℕ} (hn : 1 ≤ n) (hstop : ∀ k, keptAfter c api keephdr (k+1) q = none) :
    Safe c api keephdr n q ↔ Inside c keephdr q := by
  constructor
  · intro h
    exact h.inside 0 q rfl
  · intro h
    refine ⟨?_,?_⟩
    · intro k r hr
      cases k with
      | zero =>
        obtain rfl : q = r := Option.some.inj hr
        exact h
      | succ k =>
        rw [hstop k] at hr
        cases hr
    · obtain ⟨m,rfl⟩ := Nat.exists_eq_add_of_le' hn
      exact hstop m

theorem safe_split {n : ℕ} {out r : Pbuf} (hsplit : recvUnpack c api keephdr q = .split out r) :
    Safe c api keephdr (n+1) q ↔ Inside c keephdr q ∧ Safe c api keephdr n r := by
  have hkept : ∀ k, keptAfter c api keephdr (k+1) q = keptAfter c api keephdr k r := fun k => by
    rw [keptAfter,hsplit]
  constructor
  · intro h
    exact ⟨h.inside 0 q rfl,fun k s hs => h.inside (k+1) s ((hkept k).trans hs),(hkept n).symm.trans h.consumed⟩
  · rintro ⟨hq,h⟩
    refine ⟨?_,(hkept n).trans h.consumed⟩
    intro k s hs
    cases k with
    | zero =>
      obtain rfl : q = s := Option.some.inj hs
      exact hq
    | succ k => exact h.inside k s ((hkept k).symm.trans hs)

theorem unpack_few (hq : Rest c p o k q) (hk : k ≤ 1) (n : ℕ) : keptAfter c api keephdr (n+1) q = none := by
  rw [keptAfter,recvUnpack,if_pos hq.id,if_neg (hq.few hk)]

theorem unpack_refused (hq : Rest c p o (k+2) q)
    (hlen : u16 p.mem (p.addr+o+2) = 0 ∨ c.pbufMaxsize < u16 p.mem (p.addr+o+2)) (n : ℕ) :
    keptAfter c api keephdr (n+1) q = none := by
  rw [keptAfter,recvUnpack,if_pos hq.id,if_pos hq.many]
  dsimp only
  rw [hq.lenField,if_pos hlen]

/-- The calls on what is left stay inside it and use it up just when its lengths fit. -/
theorem Rest.safe_iff (h : api.Usual) (hq : Rest c p o k q) :
    Safe c api keephdr (max 1 k) q ↔ Fits c keephdr p k o := by
  induction k generalizing o q with
  | zero =>
    rw [safe_stop (Nat.le_max_left _ _) (unpack_few hq (Nat.zero_le 1)),inside_rest keephdr hq,if_neg (by decide),Fits]
    simp
  | succ k ih =>
    cases k with
    | zero =>
      rw [safe_stop (Nat.le_max_left _ _) (unpack_few hq (Nat.le_refl 1)),inside_rest keephdr hq,if_neg (by decide),Fits]
      simp
    | succ k =>
      have hinside := inside_rest keephdr hq
      rw [if_pos (by omega)] at hinside
      rw [Fits]
      by_cases hlen : u16 p.mem (p.addr+o+2) = 0 ∨ c.pbufMaxsize < u16 p.mem (p.addr+o+2)
      · -- thrown away
        rw [safe_stop (Nat.le_max_left _ _) (unpack_refused hq hlen),hinside]
        tauto
      · by_cases hfit : o+u16 p.mem (p.addr+o+2)+xheaderLen ≤ p.length
        · obtain ⟨out,r,hsplit,hr⟩ := hq.split keephdr h hlen hfit
          have hmax : max 1 (k+1) = k+1 := by omega
          have hrest := ih hr
          rw [hmax] at hrest
          rw [show max 1 (k+1+1) = k+1+1 by omega,safe_split hsplit,hinside,hrest]
          tauto
        · constructor
          · intro hs
            have hin := hinside.mp (hs.inside 0 q rfl)
            tauto
          · tauto

/-- What `recv_unpack` copies and clips off a packet stays inside it, and as many calls as its
count says use it up, when the packet is none of the Autbus or its lengths fit. -/
theorem recvUnpack_safe_iff (h : api.Usual) (keephdr : Bool) (p : Pbuf) :
    Safe c api keephdr (max 1 (p.mem (p.addr+1)).toNat) p ↔
      (p.mem p.addr &&& c.xheaderIdmask = c.xheaderId → Fits c keephdr p (p.mem (p.addr+1)).toNat 0) := by
  by_cases hid : p.mem p.addr &&& c.xheaderIdmask = c.xheaderId
  · rw [Rest.safe_iff h ⟨rfl,Nat.zero_add _,fun _ _ => rfl,hid,rfl⟩]
    exact ⟨fun hf _ => hf,fun hf => hf hid⟩
  · have hstop : ∀ k, keptAfter c api keephdr (k+1) p = none := fun k => by
      rw [keptAfter,recvUnpack,if_neg hid]
    rw [safe_stop (Nat.le_max_left _ _) hstop,Inside,touches,if_neg hid]
    simp [hid]

/-- A bundle of two packets of one byte. -/
def twoInOne : Pbuf := ⟨ofList [0x50,2,1,0,9,1,0,8],0,8⟩

theorem twoInOne_safe : Safe plainConsts plainApi false 2 twoInOne :=
  (recvUnpack_safe_iff plainApi_usual false twoInOne).mpr (by decide)

/-- Five bytes that say they begin with a packet of ten: 14 bytes are copied. -/
theorem overlong_not_safe : ∃ p : Pbuf, p.bytes = [0x50,2,10,0,7] ∧
    ¬Safe plainConsts plainApi true (max 1 (p.mem (p.addr+1)).toNat) p := by
  refine ⟨⟨ofList [0x50,2,10,0,7],0,5⟩,by decide,fun h => ?_⟩
  have hin := h.inside 0 _ rfl ⟨0,14⟩ (by decide)
  exact absurd hin (by decide)

end Bundles
end Autbus
