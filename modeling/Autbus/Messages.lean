import Autbus.HostFrames

/-! Messages in frames. The buffer of `eth_recv` is followed as the list of the bytes
received; frames are chunks of one of three kinds. What one chunk does to the list is said
once, and whole messages, leftovers and frames that arrive lost, doubled or out of order
are handled on lists. -/
namespace Autbus
namespace Messages

open Bytes HostFrames

inductive Kind
  | first
  | middle
  | last
  deriving DecidableEq

/-- The type field of a frame. -/
def Kind.code : Kind → ℕ
  | .last => 0x1234
  | .first => 0x1235
  | .middle => 0x1236

structure Chunk where
  kind : Kind
  data : List UInt8
  deriving DecidableEq

/-- A chunk on the wire, from the type field on. -/
def Chunk.wire (c : Chunk) : List UInt8 := le16 c.kind.code ++ le16 c.data.length ++ c.data

/-- The memory holds the chunk's frame. -/
def Carries (v : Mem) (c : Chunk) : Prop := read v 0 c.wire.length = c.wire

/-- The bytes of the message so far. -/
def received (rx : RxBuf) : List UInt8 := read rx.rbuf 0 rx.ridx

@[simp] theorem received_length (rx : RxBuf) : (received rx).length = rx.ridx := by
  simp [received]

/-- The four bytes at the end are the byte sum of the bytes before. -/
def Checked (xs : List UInt8) : Prop :=
  byteSum (xs.take (xs.length-4)) % 2^32 = u32 (ofList (xs.drop (xs.length-4))) 0

theorem checked_message (p : List UInt8) : Checked (p ++ le32 (byteSum p % 2^32)) := by
  rw [Checked]
  simp only [List.length_append,le32_length,Nat.add_sub_cancel,List.take_left',List.drop_left']
  rw [u32_of_read (Nat.mod_lt _ (by decide))]
  exact read_ofList (le32 _)

/-! ### One chunk -/

theorem Carries.header {v : Mem} {c : Chunk} (h : Carries v c) (hlen : c.data.length ≤ 1024) :
    u16 v 0 = c.kind.code ∧ u16 v 2 = c.data.length ∧ read v 4 c.data.length = c.data := by
  have hwire : c.wire.length = 2+(2+c.data.length) := by
    simp only [Chunk.wire,List.length_append,le16_length]
    omega
  rw [Carries,hwire,Chunk.wire,List.append_assoc] at h
  rw [read_add,read_add] at h
  obtain ⟨htype,hrest⟩ := List.append_inj h (by simp)
  obtain ⟨hdat,hbytes⟩ := List.append_inj hrest (by simp)
  have hcode : c.kind.code < 65536 := by cases c.kind <;> decide
  exact ⟨u16_of_read hcode htype,u16_of_read (by omega) hdat,hbytes⟩

/-- A chunk that does not fit starts the buffer anew. -/
theorem ethRecv_over {rx : RxBuf} {v : Mem} {c : Chunk} (h : Carries v c) (hlen : c.data.length ≤ 1024)
    (hover : bufSize < rx.ridx+c.data.length) :
    (ethRecv rx v).iret = 1 ∧ received (ethRecv rx v).rx = [] := by
  obtain ⟨-,hdat,-⟩ := h.header hlen
  have hsmall : ¬1024 < u16 v 2 := by omega
  have hbig : bufSize < rx.ridx+u16 v 2 := by omega
  rw [ethRecv]
  simp only [if_neg hsmall,dif_pos hbig]
  exact ⟨rfl,rfl⟩

/-- A first chunk replaces what was received. -/
theorem ethRecv_first {rx : RxBuf} {v : Mem} {c : Chunk} (h : Carries v c) (hlen : c.data.length ≤ 1024)
    (hfit : rx.ridx+c.data.length ≤ bufSize) (hk : c.kind = .first) :
    (ethRecv rx v).iret = 1 ∧ received (ethRecv rx v).rx = c.data := by
  obtain ⟨htype,hdat,hbytes⟩ := h.header hlen
  have hsmall : ¬1024 < u16 v 2 := by omega
  have hroom : ¬bufSize < rx.ridx+u16 v 2 := by omega
  have hcode : u16 v 0 = 0x1235 := htype.trans (hk ▸ rfl)
  have hnl : ¬u16 v 0 = 0x1234 := by omega
  have hle : u16 v 2 ≤ bufSize := by omega
  have heq : ethRecv rx v = ⟨1,⟨u16 v 2,copy rx.rbuf 0 v 4 (u16 v 2),hle⟩,
      [⟨0,2⟩,⟨2,2⟩] ++ [⟨4,u16 v 2⟩],[⟨0,u16 v 2⟩],0⟩ := by
    rw [ethRecv]
    simp only [if_neg hsmall,dif_neg hroom,if_neg hnl,if_pos hcode]
  rw [heq]
  refine ⟨rfl,?_⟩
  rw [received,read_copy,hdat,hbytes]

/-- A middle chunk is appended. -/
theorem ethRecv_middle {rx : RxBuf} {v : Mem} {c : Chunk} (h : Carries v c) (hlen : c.data.length ≤ 1024)
    (hfit : rx.ridx+c.data.length ≤ bufSize) (hk : c.kind = .middle) :
    (ethRecv rx v).iret = 1 ∧ received (ethRecv rx v).rx = received rx ++ c.data := by
  obtain ⟨htype,hdat,hbytes⟩ := h.header hlen
  have hsmall : ¬1024 < u16 v 2 := by omega
  have hroom : ¬bufSize < rx.ridx+u16 v 2 := by omega
  have hcode : u16 v 0 = 0x1236 := htype.trans (hk ▸ rfl)
  have hnl : ¬u16 v 0 = 0x1234 := by omega
  have hnf : ¬u16 v 0 = 0x1235 := by omega
  have hle : rx.ridx+u16 v 2 ≤ bufSize := by omega
  have heq : ethRecv rx v = ⟨1,⟨rx.ridx+u16 v 2,copy rx.rbuf rx.ridx v 4 (u16 v 2),hle⟩,
      [⟨0,2⟩,⟨2,2⟩] ++ [⟨4,u16 v 2⟩],[⟨rx.ridx,u16 v 2⟩],0⟩ := by
    rw [ethRecv]
    simp only [if_neg hsmall,dif_neg hroom,if_neg hnl,if_neg hnf,if_pos hcode]
  rw [heq]
  refine ⟨rfl,?_⟩
  rw [received,read_copy_append,hdat,hbytes,received]

/-- The check at the end of a message, on the list of its bytes. -/
theorem checked_iff {rx : RxBuf} (h4 : 4 ≤ rx.ridx) :
    crcLoop rx.rbuf (subU32 rx.ridx 4) = u32 rx.rbuf (subU32 rx.ridx 4) ↔ Checked (received rx) := by
  have hle : rx.ridx < 2^32 := Nat.lt_of_le_of_lt rx.ridx_le (by decide)
  have hsplit : received rx = read rx.rbuf 0 (rx.ridx-4) ++ read rx.rbuf (rx.ridx-4) 4 := by
    rw [received,show rx.ridx = rx.ridx-4+4 by omega,read_add]
    simp
  have hword : u32 (ofList (read rx.rbuf (rx.ridx-4) 4)) 0 = u32 rx.rbuf (rx.ridx-4) := by
    have hread : read (ofList (read rx.rbuf (rx.ridx-4) 4)) 0 4 = read rx.rbuf (rx.ridx-4) 4 := by
      simpa using read_ofList (read rx.rbuf (rx.ridx-4) 4)
    simp only [u32,u16]
    have hget := fun i hi => @read_inj _ _ _ _ _ hread i hi
    have h0 := hget 0 (by decide)
    have h1 := hget 1 (by decide)
    have h2 := hget 2 (by decide)
    have h3 := hget 3 (by decide)
    simp only [Nat.zero_add,Nat.add_zero] at h0 h1 h2 h3
    rw [h0,h1,h2,h3]
  rw [subU32_of_le hle h4,crcLoop_eq,Checked,received_length,hsplit,
    List.take_left' (by simp),List.drop_left' (by simp),hword]

/-- A last chunk ends the message; what is handed on is checked. -/
theorem ethRecv_last {rx : RxBuf} {v : Mem} {c : Chunk} (h : Carries v c) (hlen : c.data.length ≤ 1024)
    (hfit : rx.ridx+c.data.length ≤ bufSize) (hk : c.kind = .last) :
    ((ethRecv rx v).iret = 0 ∧ received (ethRecv rx v).rx = received rx ++ c.data ∨
      (ethRecv rx v).iret = 1 ∧ received (ethRecv rx v).rx = []) ∧
    (4 ≤ rx.ridx+c.data.length → ((ethRecv rx v).iret = 0 ↔ Checked (received rx ++ c.data))) := by
  obtain ⟨htype,hdat,hbytes⟩ := h.header hlen
  have hsmall : ¬1024 < u16 v 2 := by omega
  have hroom : ¬bufSize < rx.ridx+u16 v 2 := by omega
  have hcode : u16 v 0 = 0x1234 := htype.trans (hk ▸ rfl)
  have hle : rx.ridx+u16 v 2 ≤ bufSize := by omega
  have heq : ethRecv rx v = ethFinish ⟨rx.ridx+u16 v 2,copy rx.rbuf rx.ridx v 4 (u16 v 2),hle⟩
      ([⟨0,2⟩,⟨2,2⟩] ++ [⟨4,u16 v 2⟩]) [⟨rx.ridx,u16 v 2⟩] := by
    rw [ethRecv]
    simp only [if_neg hsmall,dif_neg hroom,if_pos hcode]
  have hrecv : received ⟨rx.ridx+u16 v 2,copy rx.rbuf rx.ridx v 4 (u16 v 2),hle⟩ = received rx ++ c.data := by
    simp only [received,read_copy_append]
    rw [hdat,hbytes]
  rw [heq]
  unfold ethFinish
  constructor
  · simp only
    split
    · exact Or.inl ⟨rfl,hrecv⟩
    · exact Or.inr ⟨rfl,rfl⟩
  · intro h4
    have hck := @checked_iff ⟨rx.ridx+u16 v 2,copy rx.rbuf rx.ridx v 4 (u16 v 2),hle⟩ (by simp only; omega)
    rw [hrecv] at hck
    rw [← hck]
    simp only
    split <;> simp_all

/-! ### Messages as sent -/

/-- `k` pieces, all but the last of 1024 bytes. -/
def cuts : ℕ → List UInt8 → List (List UInt8)
  | 0, _ => []
  | k+1, xs => if k = 0 then [xs] else xs.take 1024::cuts k (xs.drop 1024)

/-- The chunks of the pieces behind the first. -/
def restChunks : List (List UInt8) → List Chunk
  | [] => []
  | [d] => [⟨.last,d⟩]
  | d::e::ds => ⟨.middle,d⟩::restChunks (e::ds)

/-- The chunks of a message in pieces. The last piece is sent as last, also when it is
the first one. -/
def chunks : List (List UInt8) → List Chunk
  | [] => []
  | [d] => [⟨.last,d⟩]
  | d::e::ds => ⟨.first,d⟩::restChunks (e::ds)

/-- A message with its checksum. -/
def sealMsg (p : List UInt8) : List UInt8 := p ++ le32 (byteSum p % 2^32)

/-- The pieces `ui_eth_send` makes of a message. -/
def pieces (msg : List UInt8) : List (List UInt8) := cuts ((msg.length+1023)/1024) msg

@[simp] theorem sealMsg_length (p : List UInt8) : (sealMsg p).length = p.length+4 := by
  simp [sealMsg]

theorem cuts_ne_nil {k : ℕ} (hk : k ≠ 0) (xs : List UInt8) : cuts k xs ≠ [] := by
  cases k with
  | zero => exact absurd rfl hk
  | succ k =>
    rw [cuts]
    split <;> simp

theorem cuts_flatten {k : ℕ} (hk : k ≠ 0) (xs : List UInt8) : (cuts k xs).flatten = xs := by
  induction k generalizing xs with
  | zero => exact absurd rfl hk
  | succ k ih =>
    rw [cuts]
    split
    · simp
    · rename_i hk0
      rw [List.flatten_cons,ih hk0,List.take_append_drop]

theorem cuts_le {k : ℕ} {xs : List UInt8} (h : xs.length ≤ 1024*k) :
    ∀ d ∈ cuts k xs, d.length ≤ 1024 := by
  induction k generalizing xs with
  | zero => simp [cuts]
  | succ k ih =>
    rw [cuts]
    split
    · rename_i hk
      subst hk
      simpa using h
    · intro d hd
      rcases List.mem_cons.mp hd with rfl | hd
      · simp
      · exact ih (by simp only [List.length_drop]; omega) d hd

theorem pieces_ne_nil {msg : List UInt8} (h : msg ≠ []) : pieces msg ≠ [] := by
  have hpos := List.length_pos_iff.mpr h
  exact cuts_ne_nil (by omega) msg

theorem pieces_flatten {msg : List UInt8} (h : msg ≠ []) : (pieces msg).flatten = msg := by
  have hpos := List.length_pos_iff.mpr h
  exact cuts_flatten (by omega) msg

theorem pieces_le (msg : List UInt8) : ∀ d ∈ pieces msg, d.length ≤ 1024 :=
  cuts_le (by omega)

theorem uiFrame_wire (k : Kind) (m : Mem) (ofs len : ℕ) :
    uiFrame k.code m ofs len = (Chunk.mk k (read m ofs len)).wire := by
  simp [uiFrame,Chunk.wire]

theorem restChunks_cons {d : List UInt8} {ds : List (List UInt8)} (h : ds ≠ []) :
    restChunks (d::ds) = ⟨.middle,d⟩::restChunks ds := by
  cases ds with
  | nil => exact absurd rfl h
  | cons e ds => rfl

theorem chunks_cons {d : List UInt8} {ds : List (List UInt8)} (h : ds ≠ []) :
    chunks (d::ds) = ⟨.first,d⟩::restChunks ds := by
  cases ds with
  | nil => exact absurd rfl h
  | cons e ds => rfl

theorem restChunks_length (ds : List (List UInt8)) : (restChunks ds).length = ds.length := by
  induction ds with
  | nil => rfl
  | cons d ds ih =>
    by_cases hds : ds = []
    · subst hds
      rfl
    · rw [restChunks_cons hds,List.length_cons,ih,List.length_cons]

theorem chunks_length (ds : List (List UInt8)) : (chunks ds).length = ds.length := by
  cases ds with
  | nil => rfl
  | cons d ds =>
    by_cases hds : ds = []
    · subst hds
      rfl
    · rw [chunks_cons hds,List.length_cons,restChunks_length,List.length_cons]

/-- The frames behind the first. -/
theorem uiFrames_rest (m : Mem) {cnt k tlen : ℕ} (ofs : ℕ) (hk : k < cnt) (hlow : 1024*k < tlen+1024) :
    uiFrames m cnt k tlen ofs = (restChunks (cuts k (read m ofs tlen))).map Chunk.wire := by
  induction k generalizing tlen ofs with
  | zero => rfl
  | succ k ih =>
    rw [uiFrames,cuts]
    by_cases h0 : k = 0
    · rw [if_pos h0,if_pos h0,restChunks,List.map_singleton,← uiFrame_wire]
      rfl
    · have hne : ¬k+1 = cnt := by omega
      rw [if_neg h0,if_neg hne,if_neg h0,restChunks_cons (cuts_ne_nil h0 _),List.map_cons,
        read_take m ofs (by omega),read_drop m ofs (by omega),ih (ofs+1024) (by omega) (by omega),
        ← uiFrame_wire]
      rfl

theorem uiFrames_eq (m : Mem) {k tlen : ℕ} (ofs : ℕ) (hlow : 1024*k < tlen+1024) :
    uiFrames m k k tlen ofs = (chunks (cuts k (read m ofs tlen))).map Chunk.wire := by
  cases k with
  | zero => rfl
  | succ k =>
    rw [uiFrames,cuts]
    by_cases h0 : k = 0
    · rw [if_pos h0,if_pos h0,chunks,List.map_singleton,← uiFrame_wire]
      rfl
    · rw [if_neg h0,if_pos rfl,if_neg h0,chunks_cons (cuts_ne_nil h0 _),List.map_cons,
        read_take m ofs (by omega),read_drop m ofs (by omega),
        uiFrames_rest m (ofs+1024) (by omega) (by omega),← uiFrame_wire]
      rfl

/-- What `ui_eth_send` sends: the pieces of the message with its checksum. -/
theorem uiEthSend_frames (dstmac : List UInt8) (pdat : Mem) {n : ℕ} (hn : n ≤ bufSize-4) :
    (uiEthSend dstmac pdat n).frames =
      (chunks (pieces (sealMsg (read pdat 0 n)))).map fun c => dstmac ++ srcmac ++ c.wire := by
  have hcnt : (if (n+4) % 1024 ≠ 0 then (n+4)/1024+1 else (n+4)/1024) = (n+4+1023)/1024 := by
    split <;> omega
  have hmsg : read (store pdat n (le32 (crcLoop pdat n))) 0 (n+4) = sealMsg (read pdat 0 n) := by
    rw [sealMsg,← crcLoop_eq,← le32_length (crcLoop pdat n),read_store_append]
  rw [uiEthSend,if_neg (by omega)]
  simp only [hcnt]
  rw [uiFrames_eq _ 0 (by omega),hmsg,pieces,sealMsg_length,read_length,List.map_map]
  rfl

/-! ### Feeding frames -/

/-- `eth_recv` on one frame after the other: what the calls return and what they leave. -/
def ethRecvAll : RxBuf → List Mem → List ℕ × RxBuf
  | rx, [] => ([],rx)
  | rx, v::vs =>
    let r := ethRecv rx v
    let t := ethRecvAll r.rx vs
    (r.iret::t.1,t.2)

/-- The frames hold the chunks, one each. -/
def CarryAll (vs : List Mem) (cs : List Chunk) : Prop := List.Forall₂ Carries vs cs

/-- The outcome of a message: its bytes are in the buffer and their checksum is right, or
it is given up. Below four bytes the checksum is read from other memory. -/
def Ends (all : List UInt8) (iret : ℕ) (rx : RxBuf) : Prop :=
  (iret = 0 ∧ received rx = all ∨ iret = 1 ∧ received rx = []) ∧ (4 ≤ all.length → (iret = 0 ↔ Checked all))

theorem cons_returns {α : Type*} {a b : α} {d : List UInt8} {ds : List (List UInt8)} (h : ds ≠ []) :
    a::(List.replicate (ds.length-1) a ++ [b]) = List.replicate ((d::ds).length-1) a ++ [b] := by
  have hpos := List.length_pos_iff.mpr h
  rw [← List.cons_append,← List.replicate_succ,Nat.sub_add_cancel hpos,List.length_cons,
    Nat.add_sub_cancel]

/-- The chunks behind the first are appended one by one, and the last one decides. -/
theorem ethRecvAll_rest {ds : List (List UInt8)} {vs : List Mem} {rx : RxBuf} (hne : ds ≠ [])
    (hv : CarryAll vs (restChunks ds)) (hlen : ∀ d ∈ ds, d.length ≤ 1024)
    (hfit : rx.ridx+ds.flatten.length ≤ bufSize) :
    ∃ i, (ethRecvAll rx vs).1 = List.replicate (ds.length-1) 1 ++ [i] ∧
      Ends (received rx ++ ds.flatten) i (ethRecvAll rx vs).2 := by
  induction ds generalizing vs rx with
  | nil => exact absurd rfl hne
  | cons d ds ih =>
    have hd := hlen d List.mem_cons_self
    rw [List.flatten_cons,List.length_append] at hfit
    by_cases hds : ds = []
    · subst hds
      cases hv with
      | cons hc ht =>
        cases ht
        obtain ⟨hout,hck⟩ := @ethRecv_last rx _ _ hc hd (by simpa using hfit) rfl
        refine ⟨_,by simp [ethRecvAll]; rfl,?_,?_⟩
        · simpa [ethRecvAll] using hout
        · simpa [ethRecvAll] using hck
    · rw [restChunks_cons hds] at hv
      cases hv with
      | @cons v _ vs _ hc ht =>
        have hroom : rx.ridx+d.length ≤ bufSize := by omega
        obtain ⟨hret,hrecv⟩ := ethRecv_middle hc hd hroom rfl
        have hridx := congrArg List.length hrecv
        simp only [List.length_append,received_length] at hridx
        have hfit' : (ethRecv rx v).rx.ridx+ds.flatten.length ≤ bufSize := by omega
        obtain ⟨i,hall,hends⟩ := ih hds ht (fun e he => hlen e (List.mem_cons_of_mem _ he)) hfit'
        refine ⟨i,?_,?_⟩
        · rw [ethRecvAll]
          simp only [hret,hall]
          exact cons_returns hds
        · rw [List.flatten_cons,← List.append_assoc,← hrecv]
          exact hends

/-- The leftover does not get in the way: a message in one frame finds the buffer empty,
the first frame of several finds room behind what it is about to replace. -/
def Ready (rx : RxBuf) : List (List UInt8) → Prop
  | [] => True
  | [_] => rx.ridx = 0
  | d::_::_ => rx.ridx+d.length ≤ bufSize

theorem ready_cons {rx : RxBuf} {d : List UInt8} {ds : List (List UInt8)} (h : ds ≠ []) :
    Ready rx (d::ds) ↔ rx.ridx+d.length ≤ bufSize := by
  cases ds with
  | nil => exact absurd rfl h
  | cons e ds => exact Iff.rfl

theorem ready_of_empty {rx : RxBuf} {ds : List (List UInt8)} (h : rx.ridx = 0)
    (hlen : ∀ d ∈ ds, d.length ≤ 1024) : Ready rx ds := by
  match ds, hlen with
  | [], _ => exact trivial
  | [_], _ => exact h
  | d::_::_, hlen =>
    have hd := hlen d List.mem_cons_self
    have hbuf : 1024 ≤ bufSize := by decide
    exact show rx.ridx+d.length ≤ bufSize by omega

/-- A message over a leftover that is ready for it ends as itself. -/
theorem ethRecvAll_ready {ds : List (List UInt8)} {vs : List Mem} {rx : RxBuf} (hne : ds ≠ [])
    (hv : CarryAll vs (chunks ds)) (hlen : ∀ d ∈ ds, d.length ≤ 1024)
    (hsum : ds.flatten.length ≤ bufSize) (hready : Ready rx ds) :
    ∃ i, (ethRecvAll rx vs).1 = List.replicate (ds.length-1) 1 ++ [i] ∧
      Ends ds.flatten i (ethRecvAll rx vs).2 := by
  cases ds with
  | nil => exact absurd rfl hne
  | cons d ds =>
    have hd := hlen d List.mem_cons_self
    by_cases hds : ds = []
    · subst hds
      have h0 : rx.ridx = 0 := hready
      have hnil : received rx = [] := List.length_eq_zero_iff.mp (by rw [received_length,h0])
      have hfit : rx.ridx+[d].flatten.length ≤ bufSize := by omega
      have hall := ethRecvAll_rest hne hv hlen hfit
      rwa [hnil,List.nil_append] at hall
    · rw [chunks_cons hds] at hv
      rw [List.flatten_cons,List.length_append] at hsum
      cases hv with
      | @cons v _ vs _ hc ht =>
        obtain ⟨hret,hrecv⟩ := ethRecv_first hc hd ((ready_cons hds).mp hready) rfl
        have hridx := congrArg List.length hrecv
        simp only [received_length] at hridx
        have hfit : (ethRecv rx v).rx.ridx+ds.flatten.length ≤ bufSize := by omega
        obtain ⟨i,hall,hends⟩ := ethRecvAll_rest hds ht (fun e he => hlen e (List.mem_cons_of_mem _ he)) hfit
        refine ⟨i,?_,?_⟩
        · rw [ethRecvAll]
          simp only [hret,hall]
          exact cons_returns hds
        · rw [hrecv] at hends
          rwa [List.flatten_cons]

/-- Over any other leftover it does not. -/
theorem ethRecvAll_unready {ds : List (List UInt8)} {vs : List Mem} {rx : RxBuf} (hne : ds ≠ [])
    (hv : CarryAll vs (chunks ds)) (hlen : ∀ d ∈ ds, d.length ≤ 1024)
    (hsum : ds.flatten.length ≤ bufSize) (hready : ¬Ready rx ds) :
    ∃ i, (ethRecvAll rx vs).1 = List.replicate (ds.length-1) 1 ++ [i] ∧
      (i = 0 → received (ethRecvAll rx vs).2 ≠ ds.flatten) := by
  cases ds with
  | nil => exact absurd rfl hne
  | cons d ds =>
    have hd := hlen d List.mem_cons_self
    by_cases hds : ds = []
    · subst hds
      have h0 : rx.ridx ≠ 0 := hready
      cases hv with
      | @cons v _ _ _ hc ht =>
        cases ht
        refine ⟨(ethRecv rx v).iret,rfl,fun hi => ?_⟩
        by_cases hfit : rx.ridx+d.length ≤ bufSize
        · -- the leftover is handed on in front of the message
          rcases (ethRecv_last hc hd hfit rfl).1 with ⟨-,hrecv⟩ | ⟨hret,-⟩
          · intro heq
            have hlen' := congrArg List.length (hrecv.symm.trans heq)
            simp only [List.length_append,received_length,List.flatten_cons,List.flatten_nil,
              List.append_nil] at hlen'
            omega
          · omega
        · have hout : bufSize < rx.ridx+d.length := Nat.lt_of_not_le hfit
          have hover := (ethRecv_over hc hd hout).1
          omega
    · rw [chunks_cons hds] at hv
      have hbig := (ready_cons hds).not.mp hready
      rw [List.flatten_cons,List.length_append] at hsum
      cases hv with
      | @cons v _ vs _ hc ht =>
        have hout : bufSize < rx.ridx+d.length := Nat.lt_of_not_le hbig
        obtain ⟨hret,hrecv⟩ := ethRecv_over hc hd hout
        have hridx := congrArg List.length hrecv
        simp only [received_length,List.length_nil] at hridx
        have hfit : (ethRecv rx v).rx.ridx+ds.flatten.length ≤ bufSize := by omega
        obtain ⟨i,hall,hends⟩ := ethRecvAll_rest hds ht (fun e he => hlen e (List.mem_cons_of_mem _ he)) hfit
        refine ⟨i,?_,fun hi heq => ?_⟩
        · rw [ethRecvAll]
          simp only [hret,hall]
          exact cons_returns hds
        · -- the first frame's data are missing
          rw [hrecv,List.nil_append] at hends
          rcases hends.1 with ⟨-,hrest⟩ | ⟨hret',-⟩
          · have hlen' := congrArg List.length (hrest.symm.trans heq)
            rw [List.flatten_cons,List.length_append] at hlen'
            have hle := rx.ridx_le
            omega
          · omega

/-- Cutting a message of any length into frames and feeding them in order to an empty
buffer: 1 for every frame but the last, 0 for the last, and the message with its checksum
in the buffer. -/
theorem ethRecvAll_uiEthSend (dstmac : List UInt8) (pdat : Mem) {n : ℕ} (hn : n ≤ 4092)
    (hdst : dstmac.length = 6) {rx : RxBuf} (h0 : rx.ridx = 0) {vs : List Mem}
    (hv : List.Forall₂ (fun v f => read v 0 (f.drop 12).length = f.drop 12) vs
      (uiEthSend dstmac pdat n).frames) :
    (ethRecvAll rx vs).1 = List.replicate ((uiEthSend dstmac pdat n).frames.length-1) 1 ++ [0] ∧
      (ethRecvAll rx vs).2.ridx = n+4 ∧
      read (ethRecvAll rx vs).2.rbuf 0 (n+4) =
        read pdat 0 n ++ le32 (byteSum (read pdat 0 n) % 2^32) := by
  set msg := sealMsg (read pdat 0 n) with hmsg
  have hsize : msg.length = n+4 := by rw [hmsg,sealMsg_length,read_length]
  have hnil : msg ≠ [] := by
    intro h
    rw [h] at hsize
    exact absurd hsize (by simp)
  have hflat := pieces_flatten hnil
  have hframes := uiEthSend_frames dstmac pdat (show n ≤ bufSize-4 from hn)
  rw [hframes,List.forall₂_map_right_iff] at hv
  have hcarry : CarryAll vs (chunks (pieces msg)) := by
    refine hv.imp fun v c hvc => ?_
    rwa [List.drop_left' (by simp [hdst,srcmac])] at hvc
  have hsum : (pieces msg).flatten.length ≤ bufSize := by
    rw [hflat,hsize,bufSize]
    omega
  obtain ⟨i,hret,hend,hck⟩ := ethRecvAll_ready (pieces_ne_nil hnil) hcarry (pieces_le msg) hsum
    (ready_of_empty h0 (pieces_le msg))
  rw [hflat] at hend hck
  have hi : i = 0 := (hck (by omega)).mpr (checked_message _)
  have hrecv : received (ethRecvAll rx vs).2 = msg := by
    rcases hend with ⟨-,hrecv⟩ | ⟨h1,-⟩
    · exact hrecv
    · omega
  have hridx : (ethRecvAll rx vs).2.ridx = n+4 := by
    rw [← received_length,hrecv,hsize]
  refine ⟨?_,hridx,?_⟩
  · rw [hret,hi,hframes,List.length_map,chunks_length]
  · rw [← hridx,← received,hrecv,hmsg,sealMsg]

theorem cuts_length (k : ℕ) (xs : List UInt8) : (cuts k xs).length = k := by
  induction k generalizing xs with
  | zero => rfl
  | succ k ih =>
    rw [cuts]
    split
    · rename_i hk
      simp [hk]
    · rw [List.length_cons,ih]

/-- 1024 equal bytes make two frames, the second with the checksum alone. -/
theorem sevens_received :
    ∃ vs, (ethRecvAll emptyRx vs).1 = [1,0] ∧ (ethRecvAll emptyRx vs).2.ridx = 1028 ∧
      read (ethRecvAll emptyRx vs).2.rbuf 0 1028 =
        read (fun _ => 7) 0 1024 ++ le32 (byteSum (read (fun _ => 7) 0 1024) % 2^32) := by
  have hframes := uiEthSend_frames [0x66,0x55,0x44,0x33,0x22,0x11] (fun _ => 7) (show 1024 ≤ bufSize-4 by decide)
  have hcount := congrArg List.length hframes
  rw [List.length_map,chunks_length,pieces,cuts_length,sealMsg_length,read_length] at hcount
  have hv : List.Forall₂ (fun v f => read v 0 (f.drop 12).length = f.drop 12)
      ((uiEthSend [0x66,0x55,0x44,0x33,0x22,0x11] (fun _ => 7) 1024).frames.map fun f => ofList (f.drop 12))
      (uiEthSend [0x66,0x55,0x44,0x33,0x22,0x11] (fun _ => 7) 1024).frames := by
    rw [List.forall₂_map_left_iff]
    exact List.forall₂_same.mpr fun f _ => read_ofList _
  have hall := ethRecvAll_uiEthSend [0x66,0x55,0x44,0x33,0x22,0x11] (fun _ => 7) (show 1024 ≤ 4092 by decide)
    rfl (show emptyRx.ridx = 0 from rfl) hv
  rw [hcount] at hall
  exact ⟨_,hall⟩

end Messages
end Autbus
