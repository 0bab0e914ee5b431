import Autbus.Bundles
import Autbus.Checksums

/-! Echo requests and their answers (`minip.c`): the answer is the request with another head and a
checksum over all of it. -/
namespace Autbus
namespace Pings

open Bytes Bundles Checksums

/-- `rfc1701_chksum`. -/
def rfc1701Chksum (buf : Mem) (a len : ℕ) : UInt16 :=
  let total : UInt32 := (List.range (len/2)).foldl (fun total i => total+UInt32.ofNat (u16 buf (a+2*i))) 0
  let low : UInt32 := 0xFFFF
  ~~~((total &&& low)+(total >>> 16)).toUInt16

/-- `minip_handle_icmp`, with the packet it sends; `room` says whether there is a packet for the answer, and
`iret` is what `minip_send_ipv4` returns. -/
def minipHandleIcmp (api : PktApi) (ipkt : Pbuf) (room : Bool) (iret : ℤ) : ℤ × Option Pbuf :=
  if ipkt.length < 8 then (1,none)
  else if ipkt.mem ipkt.addr ≠ 8 then (0,none)
  else if !room then (2,none)
  else
    let pkt := (api.pktAppend (api.pktAlloc 34) ipkt.length).fill 0 ipkt ipkt.length
    let pkt := ((pkt.poke 0 [0]).poke 1 [0]).poke 2 (le16 0)
    let pkt := pkt.poke 2 (le16 (rfc1701Chksum pkt.mem pkt.addr ipkt.length).toNat)
    (if iret ≠ 0 then iret*16+3 else 0,some pkt)

/-- What the checksum makes of the sum of the words: 32 bits of it, folded once. -/
def folded (s : ℕ) : ℕ := s % 2^32 % 65536+s % 2^32/65536

theorem total_toNat (buf : Mem) (a : ℕ) (l : List ℕ) (t : UInt32) :
    (l.foldl (fun total i => total+UInt32.ofNat (u16 buf (a+2*i))) t).toNat =
      (t.toNat+(l.map fun i => u16 buf (a+2*i)).sum) % 2^32 := by
  induction l generalizing t with
  | nil => simp
  | cons i l ih =>
    rw [List.foldl_cons,ih,UInt32.toNat_add,UInt32.toNat_ofNat',List.map_cons,List.sum_cons]
    omega

/-- The checksum is the complement of the low 16 bits. -/
theorem rfc1701Chksum_toNat (buf : Mem) (a len : ℕ) :
    (rfc1701Chksum buf a len).toNat = 65535-folded (fullWords (read buf a len)).sum % 65536 := by
  have htotal : ((List.range (len/2)).foldl (fun total i => total+UInt32.ofNat (u16 buf (a+2*i))) 0).toNat =
      (fullWords (read buf a len)).sum % 2^32 := by
    rw [total_toNat,fullWords_read,UInt32.toNat_zero,Nat.zero_add]
  unfold rfc1701Chksum folded
  dsimp only
  generalize (List.range (len/2)).foldl (fun total i => total+UInt32.ofNat (u16 buf (a+2*i))) 0 = total at htotal ⊢
  have hlow : (total &&& 0xFFFF).toNat = total.toNat % 65536 := Nat.and_two_pow_sub_one_eq_mod total.toNat 16
  have hhigh : (total >>> 16).toNat = total.toNat/65536 := Nat.shiftRight_eq_div_pow total.toNat 16
  have hlt := total.toNat_lt
  rw [UInt16.toNat_not,UInt32.toNat_toUInt16,UInt32.toNat_add,hlow,hhigh,← htotal,UInt16.size]
  omega

/-- Modulo 65535 the sum with its checksum is what lies beyond the 32 bits, and the carry of the folding. -/
theorem sum_with_chksum (s o : ℕ) : ∃ k, s+o+(65535-folded s % 65536) = 65535*(k+1)+(s/2^32+folded s/65536+o) := by
  have hfold : folded s = s % 2^32 % 65536+s % 2^32/65536 := rfl
  refine ⟨65537*(s/2^32)+s % 2^32/65536+folded s/65536,?_⟩
  generalize folded s = f at hfold ⊢
  omega

/-- What must vanish modulo 65535 for a checksum over bytes: a last byte that is left over comes in as well. -/
def lost (t : List UInt8) : ℕ := (fullWords t).sum/2^32+folded (fullWords t).sum/65536+odd t

/-! ### The answer -/

/-- A message whose checksum field is written. -/
theorem read_chksum (m : Mem) (a c k : ℕ) :
    read (store m (a+2) (le16 c)) a (4+k) = read m a 2 ++ (le16 c ++ read m (a+4) k) := by
  have hlen : (le16 c).length = 2 := rfl
  have hfield : read (store m (a+2) (le16 c)) (a+2) 2 = le16 c := read_store m (a+2) (le16 c)
  rw [show 4+k = 2+(2+k) by omega,read_add,read_add,hfield,read_store_frame (Or.inl (Nat.le_refl _)),
    read_store_frame (Or.inr (by omega))]

/-- Type and code of an answer. -/
theorem read_zeros (m : Mem) (a k : ℕ) : read (store (store m a [0]) (a+1) [0]) a 2 = [0,0] ∧
    read (store (store m a [0]) (a+1) [0]) (a+4) k = read m (a+4) k := by
  constructor
  · rw [show (2 : ℕ) = 1+1 by rfl,read_add,read_store_frame (Or.inl (Nat.le_refl _))]
    exact congrArg₂ _ (read_store m a [0]) (read_store _ (a+1) [0])
  · rw [read_store_frame (Or.inr (by simp)),read_store_frame (Or.inr (by simp))]

/-- An answer is the request from the fifth byte on, with a checksum before it. -/
theorem reply_bytes {api : PktApi} (hu : api.Usual) {ipkt reply : Pbuf} {room : Bool} {iret ret : ℤ}
    (h : minipHandleIcmp api ipkt room iret = (ret,some reply)) :
    reply.bytes = [0,0] ++ (le16 (65535-folded (fullWords (ipkt.bytes.drop 4)).sum % 65536) ++ ipkt.bytes.drop 4) := by
  unfold minipHandleIcmp at h
  split at h
  · simp at h
  · next hlen =>
    split at h
    · simp at h
    · split at h
      · simp at h
      · obtain ⟨-,rfl⟩ : _ ∧ _ = reply := by simpa using h
        obtain ⟨k,hk⟩ : ∃ k, ipkt.length = 4+k := ⟨ipkt.length-4,by omega⟩
        have hdrop : ipkt.bytes.drop 4 = read ipkt.mem (ipkt.addr+4) k := by
          rw [Pbuf.bytes,read_drop _ _ (by omega),hk,Nat.add_sub_cancel_left]
        rw [hdrop]
        simp only [Pbuf.poke,Pbuf.fill,Pbuf.bytes,hu.append,hu.alloc_length,Nat.zero_add,Nat.add_zero,hk]
        generalize (api.pktAlloc 34).addr = a
        have hcopy : read (copy (api.pktAlloc 34).mem a ipkt.mem ipkt.addr (4+k)) (a+4) k =
            read ipkt.mem (ipkt.addr+4) k := by
          have hall := read_copy (api.pktAlloc 34).mem a ipkt.mem ipkt.addr (4+k)
          exact (read_split hall).2
        generalize copy (api.pktAlloc 34).mem a ipkt.mem ipkt.addr (4+k) = m at hcopy ⊢
        obtain ⟨htype,htail⟩ := read_zeros m a k
        have hzero : read (store (store (store m a [0]) (a+1) [0]) (a+2) (le16 0)) a (4+k) =
            [0,0] ++ (le16 0 ++ read ipkt.mem (ipkt.addr+4) k) := by
          rw [read_chksum,htype,htail,hcopy]
        have hfront : read (store (store (store m a [0]) (a+1) [0]) (a+2) (le16 0)) a 2 = [0,0] :=
          (read_store_frame (Or.inl (Nat.le_refl _))).trans htype
        have hback : read (store (store (store m a [0]) (a+1) [0]) (a+2) (le16 0)) (a+4) k =
            read ipkt.mem (ipkt.addr+4) k := (read_store_frame (Or.inr (by simp))).trans (htail.trans hcopy)
        have hsum : (fullWords ([0,0] ++ (le16 0 ++ read ipkt.mem (ipkt.addr+4) k))).sum =
            (fullWords (read ipkt.mem (ipkt.addr+4) k)).sum := by
          simp [le16,fullWords]
        rw [read_chksum,rfc1701Chksum_toNat,hzero,hsum,hfront,hback]

/-- The checksum of an answer is right exactly when nothing is lost of its words. -/
theorem reply_chksum_iff {api : PktApi} (hu : api.Usual) {ipkt reply : Pbuf} {room : Bool} {iret ret : ℤ}
    (h : minipHandleIcmp api ipkt room iret = (ret,some reply)) :
    onesSum (netWords reply.bytes) = 0xFFFF ↔ lost (ipkt.bytes.drop 4) % 65535 = 0 := by
  rw [reply_bytes hu h,onesSum_netWords_iff]
  generalize ipkt.bytes.drop 4 = t
  have hc : 65535-folded (fullWords t).sum % 65536 < 65536 := by omega
  generalize hchk : 65535-folded (fullWords t).sum % 65536 = c at hc
  have hsum : (fullWords ([0,0] ++ (le16 c ++ t))).sum+odd ([0,0] ++ (le16 c ++ t)) =
      (fullWords t).sum+odd t+c := by
    have hlow : c % 256+256*(c/256 % 256) = c := by omega
    simp only [le16,fullWords,odd,List.cons_append,List.nil_append,List.sum_cons,UInt8.toNat_zero,
      UInt8.toNat_ofNat']
    omega
  obtain ⟨k,hk⟩ := sum_with_chksum (fullWords t).sum (odd t)
  rw [hchk] at hk
  rw [hsum,hk,Nat.mul_add_mod]
  unfold lost
  omega

/-- For requests as long as packets get, this is no carry, and no byte but zero left over. -/
theorem lost_iff_short {t : List UInt8} (ht : t.length ≤ 131074) :
    lost t % 65535 = 0 ↔ folded (fullWords t).sum < 65536 ∧ odd t = 0 := by
  have hodd := odd_le t
  have hsum : (fullWords t).sum < 2^32 := by
    have hle := fullWords_sum_le t
    omega
  have hfold : folded (fullWords t).sum < 2*65536 := by
    unfold folded
    omega
  unfold lost
  rw [Nat.div_eq_of_lt hsum]
  omega

/-- A request of eight bytes, and one that is an odd byte longer. -/
def echo (l : List UInt8) : Pbuf := ⟨ofList (8::0::l),0,l.length+2⟩

theorem echo_right : ∃ reply, minipHandleIcmp plainApi (echo [0,0,1,2,3,4]) true 0 = (0,some reply) ∧
    onesSum (netWords reply.bytes) = 0xFFFF := by
  obtain ⟨reply,h⟩ : ∃ reply, minipHandleIcmp plainApi (echo [0,0,1,2,3,4]) true 0 = (0,some reply) := ⟨_,rfl⟩
  exact ⟨reply,h,(reply_chksum_iff plainApi_usual h).mpr (by decide)⟩

theorem echo_not_right : ∃ reply, minipHandleIcmp plainApi (echo [0,0,1,2,3,4,5]) true 0 = (0,some reply) ∧
    onesSum (netWords reply.bytes) ≠ 0xFFFF := ⟨_,rfl,by decide⟩

end Pings
end Autbus
