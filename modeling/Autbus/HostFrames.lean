import Autbus.Bytes
import Autbus.Trace

/-! Host frames on the Ethernet port (`atbui.c`): `ui_eth_send` cuts a message into frames,
`eth_recv` puts the frames it is given together in `rbuf`. -/
namespace Autbus
namespace HostFrames

open Bytes Trace

/-- `BUF_SIZE`. -/
def bufSize : ℕ := 4096

/-- The address the host sends to. -/
def srcmac : List UInt8 := [0x11,0x22,0x33,0x44,0x55,0x66]

/-! ### Sending -/

/-- One frame of `ui_eth_send`, from the type field on. -/
def uiFrame (type : ℕ) (pdat : Mem) (ofs len : ℕ) : List UInt8 :=
  le16 type ++ le16 len ++ read pdat ofs len

/-- The frame loop with `k` of `cnt` rounds to go. The last frame is the one of type
0x1234, also when it is the first one. -/
def uiFrames (pdat : Mem) (cnt : ℕ) : ℕ → ℕ → ℕ → List (List UInt8)
  | 0, _, _ => []
  | k+1, tlen, ofs =>
    if k = 0 then [uiFrame 0x1234 pdat ofs tlen]
    else if k+1 = cnt then uiFrame 0x1235 pdat ofs 1024::uiFrames pdat cnt k (tlen-1024) (ofs+1024)
    else uiFrame 0x1236 pdat ofs 1024::uiFrames pdat cnt k (tlen-1024) (ofs+1024)

/-- `ui_eth_send` up to the hand-over of its frames: the return code of the length check,
the memory with the checksum written behind the message, and the frames, each headed by
`dstmac` and `srcmac`. -/
structure UiSend where
  iret : ℕ
  pdat : Mem
  frames : List (List UInt8)

def uiEthSend (dstmac : List UInt8) (pdat : Mem) (slen : ℕ) : UiSend :=
  if bufSize-4 < slen then ⟨1,pdat,[]⟩
  else
    let pdat := store pdat slen (le32 (crcLoop pdat slen))
    let tlen := slen+4
    let cnt := if tlen % 1024 ≠ 0 then tlen/1024+1 else tlen/1024
    ⟨0,pdat,(uiFrames pdat cnt cnt tlen 0).map fun f => dstmac ++ srcmac ++ f⟩

/-! ### Receiving -/

/-- `rxtxbuf.ridx` and the memory from `rxtxbuf.rbuf` on, of which the first 4096 bytes
are the buffer. The index starts at 0 and never leaves the buffer. -/
structure RxBuf where
  ridx : ℕ
  rbuf : Mem
  ridx_le : ridx ≤ bufSize

/-- `rxtxbuf.ridx = 0`. -/
def RxBuf.restart (rx : RxBuf) : RxBuf := ⟨0,rx.rbuf,Nat.zero_le _⟩

/-- A call of `eth_recv`: what it returns and leaves, the bytes of the frame it reads, the
indices into `rbuf` it uses and the rounds of its checksum loop. -/
structure EthRecv where
  iret : ℕ
  rx : RxBuf
  frame : List Span
  buf : List Span
  steps : ℕ

def ethReject (rx : RxBuf) (frame : List Span) : EthRecv := ⟨1,rx.restart,frame,[],0⟩

/-- The checksum of a finished message. The loop bound and the index are `ridx - 4` of type
`uint32_t`. -/
def ethFinish (rx : RxBuf) (frame buf : List Span) : EthRecv :=
  let n := subU32 rx.ridx 4
  let same := crcLoop rx.rbuf n = u32 rx.rbuf n
  ⟨if same then 0 else 1,if same then rx else rx.restart,frame,buf ++ [⟨0,n⟩,⟨n,4⟩],n⟩

/-- `eth_recv`. It never looks at its argument `rlen`. -/
def ethRecv (rx : RxBuf) (pdat : Mem) : EthRecv :=
  let type := u16 pdat 0
  let datlen := u16 pdat 2
  let hdr := [⟨0,2⟩,⟨2,2⟩]
  if 1024 < datlen then ethReject rx hdr
  else if h : bufSize < rx.ridx+datlen then ethReject rx hdr
  else
    have hle : rx.ridx+datlen ≤ bufSize := Nat.le_of_not_lt h
    if type = 0x1234 then
      ethFinish ⟨rx.ridx+datlen,copy rx.rbuf rx.ridx pdat 4 datlen,hle⟩
        (hdr ++ [⟨4,datlen⟩]) [⟨rx.ridx,datlen⟩]
    else if type = 0x1235 then
      ⟨1,⟨datlen,copy rx.rbuf 0 pdat 4 datlen,Nat.le_of_add_left_le hle⟩,
        hdr ++ [⟨4,datlen⟩],[⟨0,datlen⟩],0⟩
    else if type = 0x1236 then
      ⟨1,⟨rx.ridx+datlen,copy rx.rbuf rx.ridx pdat 4 datlen,hle⟩,
        hdr ++ [⟨4,datlen⟩],[⟨rx.ridx,datlen⟩],0⟩
    else ethReject rx hdr

/-- A received packet: its bytes, in memory that goes on behind them, and its length. -/
structure Frame where
  mem : Mem
  length : ℕ

/-- The frame is addressed to the device, the one thing that is checked before `eth_recv`. -/
def Frame.ForUs (f : Frame) : Prop := read f.mem 0 6 = srcmac

instance (f : Frame) : Decidable f.ForUs := inferInstanceAs (Decidable (_ = _))

/-- What both receivers do with a frame: `eth_recv` from the type field on and, when it
returns 0, `atb_ui_parse` on the message, which clears `ridx`. -/
def hostFrame (rx : RxBuf) (f : Frame) : RxBuf × Option (List UInt8) :=
  if f.ForUs then
    let r := ethRecv rx (shift f.mem 12)
    if r.iret = 0 then (r.rx.restart,some (read r.rx.rbuf 0 r.rx.ridx)) else (r.rx,none)
  else (rx,none)

/-- A frame from the Ethernet port, one round of `atb_ui_process`. -/
def atbUiProcess (rx : RxBuf) (f : Frame) : RxBuf × Option (List UInt8) := hostFrame rx f

/-- A frame a TN forwarded. -/
def atbUiRpcRecv (rx : RxBuf) (f : Frame) : RxBuf × Option (List UInt8) := hostFrame rx f

inductive Arrival
  | eth (f : Frame)
  | rpc (f : Frame)

def Arrival.frame : Arrival → Frame
  | .eth f => f
  | .rpc f => f

def arrive (rx : RxBuf) : Arrival → RxBuf × Option (List UInt8)
  | .eth f => atbUiProcess rx f
  | .rpc f => atbUiRpcRecv rx f

theorem arrive_eq (rx : RxBuf) (a : Arrival) : arrive rx a = hostFrame rx a.frame := by
  cases a <;> rfl

def step (rx : RxBuf) (a : Arrival) : Option RxBuf := some (arrive rx a).1

/-! ### Bounds -/

/-- All bytes read lie in the `len` bytes given, all indices in the buffer, and the loop
is short. -/
def EthRecv.Safe (r : EthRecv) (len : ℕ) : Prop :=
  (∀ s ∈ r.frame, s.Within len) ∧ (∀ s ∈ r.buf, s.Within bufSize) ∧ r.steps ≤ bufSize

/-- The call that a frame causes stays within the frame and the buffer. -/
def SafeStep (_ : List Arrival) (rx : RxBuf) (a : Arrival) : Prop :=
  a.frame.ForUs → (ethRecv rx (shift a.frame.mem 12)).Safe (a.frame.length-12)

def Frame.type (f : Frame) : ℕ := u16 f.mem 12

def Frame.datlen (f : Frame) : ℕ := u16 f.mem 14

/-- The two size checks pass and the type is known: the data are copied. -/
def Taken (rx : RxBuf) (f : Frame) : Prop :=
  f.datlen ≤ 1024 ∧ rx.ridx+f.datlen ≤ bufSize ∧ (f.type = 0x1234 ∨ f.type = 0x1235 ∨ f.type = 0x1236)

instance (rx : RxBuf) (f : Frame) : Decidable (Taken rx f) := inferInstanceAs (Decidable (_ ∧ _))

/-- The frame holds its header; if its data are copied it holds them too, and a last frame
makes the message at least as long as its checksum. -/
def Fits (_ : List Arrival) (rx : RxBuf) (a : Arrival) : Prop :=
  a.frame.ForUs → 16 ≤ a.frame.length ∧
    (Taken rx a.frame → 16+a.frame.datlen ≤ a.frame.length ∧
      (a.frame.type = 0x1234 → 4 ≤ rx.ridx+a.frame.datlen))

theorem spans_header {n : ℕ} :
    (∀ s ∈ ([⟨0,2⟩,⟨2,2⟩] : List Span), s.Within n) ↔ 4 ≤ n := by
  simp [Span.Within]
  omega

theorem spans_data {n d : ℕ} :
    (∀ s ∈ ([⟨0,2⟩,⟨2,2⟩] ++ [⟨4,d⟩] : List Span), s.Within n) ↔ 4+d ≤ n := by
  simp [Span.Within]
  omega

/-- A frame that is refused after its header is read. -/
theorem safe_reject {rx : RxBuf} {n : ℕ} :
    (ethReject rx [⟨0,2⟩,⟨2,2⟩]).Safe n ↔ 4 ≤ n := by
  simp only [EthRecv.Safe,ethReject,spans_header]
  simp

/-- A frame whose data go to the place `i` of the buffer, with no check to follow. -/
theorem safe_copy {rx : RxBuf} {n i d : ℕ} (h : i+d ≤ bufSize) :
    (EthRecv.mk 1 rx ([⟨0,2⟩,⟨2,2⟩] ++ [⟨4,d⟩]) [⟨i,d⟩] 0).Safe n ↔ 4+d ≤ n := by
  simp only [EthRecv.Safe,spans_data]
  simp [Span.Within,h]

/-- The checksum of a message of at least four bytes lies in the buffer; below that the
subtraction wraps. -/
theorem finish_spans {i d : ℕ} (h : i+d ≤ bufSize) :
    ((∀ s ∈ ([⟨i,d⟩] ++ [⟨0,subU32 (i+d) 4⟩,⟨subU32 (i+d) 4,4⟩] : List Span), s.Within bufSize) ∧
      subU32 (i+d) 4 ≤ bufSize) ↔ 4 ≤ i+d := by
  simp only [bufSize] at h ⊢
  by_cases h4 : 4 ≤ i+d
  · rw [subU32_of_le (by omega) h4]
    simp only [Span.Within,List.cons_append,List.nil_append,List.forall_mem_cons,List.not_mem_nil,
      false_imp_iff,implies_true,and_true]
    omega
  · rw [subU32_of_lt (by decide) (by omega)]
    constructor
    · rintro ⟨-,hsteps⟩
      omega
    · intro hle
      exact absurd hle h4

theorem safe_finish {i d n : ℕ} {m : Mem} (h : i+d ≤ bufSize) :
    (ethFinish ⟨i+d,m,h⟩ ([⟨0,2⟩,⟨2,2⟩] ++ [⟨4,d⟩]) [⟨i,d⟩]).Safe n ↔ 4+d ≤ n ∧ 4 ≤ i+d := by
  simp only [EthRecv.Safe,ethFinish,spans_data,finish_spans h]

theorem safe_iff_fits {es : List Arrival} {rx : RxBuf} {a : Arrival} :
    SafeStep es rx a ↔ Fits es rx a := by
  refine imp_congr_right fun _ => ?_
  generalize a.frame = f
  have hty : u16 (shift f.mem 12) 0 = f.type := rfl
  have hdl : u16 (shift f.mem 12) 2 = f.datlen := rfl
  unfold ethRecv
  simp only [hty,hdl]
  by_cases hdat : 1024 < f.datlen
  · have hnot : ¬Taken rx f := fun ht => by have := ht.1; omega
    rw [if_pos hdat,safe_reject]
    simp only [hnot,false_imp_iff,and_true]
    omega
  rw [if_neg hdat]
  by_cases hsum : bufSize < rx.ridx+f.datlen
  · have hnot : ¬Taken rx f := fun ht => by have := ht.2.1; omega
    rw [dif_pos hsum,safe_reject]
    simp only [hnot,false_imp_iff,and_true]
    omega
  rw [dif_neg hsum]
  have hlen : rx.ridx+f.datlen ≤ bufSize := Nat.le_of_not_lt hsum
  by_cases hlast : f.type = 0x1234
  · have htaken : Taken rx f := ⟨by omega,hlen,Or.inl hlast⟩
    rw [if_pos hlast,safe_finish hlen]
    simp only [htaken,hlast,true_imp_iff]
    omega
  rw [if_neg hlast]
  by_cases hfirst : f.type = 0x1235
  · have htaken : Taken rx f := ⟨by omega,hlen,Or.inr (Or.inl hfirst)⟩
    have hroom : 0+f.datlen ≤ bufSize := by omega
    rw [if_pos hfirst,safe_copy hroom]
    simp only [htaken,hlast,true_imp_iff,false_imp_iff,and_true]
    omega
  rw [if_neg hfirst]
  by_cases hmid : f.type = 0x1236
  · have htaken : Taken rx f := ⟨by omega,hlen,Or.inr (Or.inr hmid)⟩
    rw [if_pos hmid,safe_copy hlen]
    simp only [htaken,hlast,true_imp_iff,false_imp_iff,and_true]
    omega
  · have hnot : ¬Taken rx f := by
      rintro ⟨-,-,ht | ht | ht⟩
      · exact hlast ht
      · exact hfirst ht
      · exact hmid ht
    rw [if_neg hmid,safe_reject]
    simp only [hnot,false_imp_iff,and_true]
    omega

/-- In a run every call stays within its frame and the buffer, with
a loop of at most 4096 rounds, if and only if every frame fits. -/
theorem run_safe_iff {rx₀ rx : RxBuf} {as : List Arrival}
    (h : Run step anyStep rx₀ as rx) :
    Run step SafeStep rx₀ as rx ↔ Run step Fits rx₀ as rx :=
  h.forall_iff fun _ _ _ _ _ _ _ _ => safe_iff_fits

/-- A frame to the device, as a list from the type field on. -/
def Frame.ofTail (tail : List UInt8) : Frame :=
  let bytes := srcmac ++ [0x66,0x55,0x44,0x33,0x22,0x11] ++ tail
  ⟨ofList bytes,bytes.length⟩

def emptyRx : RxBuf := ⟨0,fun _ => 0,Nat.zero_le _⟩

/-- A message of one byte in one frame. -/
def byteFrame : Arrival := .eth (.ofTail [0x34,0x12,5,0,7,7,0,0,0])

/-- A last frame without data. -/
def bareFrame : Arrival := .rpc (.ofTail [0x34,0x12,0,0])

/-- A first frame that announces 100 bytes and holds none. -/
def lyingFrame : Arrival := .eth (.ofTail [0x35,0x12,100,0])

theorem byteFrame_safe :
    Run step anyStep emptyRx [byteFrame] (arrive emptyRx byteFrame).1 ∧
      Run step SafeStep emptyRx [byteFrame] (arrive emptyRx byteFrame).1 := by
  have hrun : Run step anyStep emptyRx [byteFrame] (arrive emptyRx byteFrame).1 := .cons .nil trivial rfl
  have hfits : Fits [] emptyRx byteFrame := fun _ => ⟨by decide,fun _ => ⟨by decide,fun _ => by decide⟩⟩
  exact ⟨hrun,(run_safe_iff hrun).mpr (.cons .nil hfits rfl)⟩

/-- A single short frame, and a single frame with a length that is not its own, leave the
bounds. -/
theorem bare_unsafe : ¬SafeStep [] emptyRx bareFrame ∧ ¬SafeStep [] emptyRx lyingFrame := by
  constructor
  · intro h
    have hsteps := (h (by decide)).2.2
    exact absurd hsteps (by decide)
  · intro h
    have hspan := (h (by decide)).1 ⟨4,100⟩ (by decide)
    exact absurd hspan (by decide)

end HostFrames
end Autbus
