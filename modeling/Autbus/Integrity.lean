import Autbus.Reassembly

/-! What `eth_recv` accepts when the frames of one message are lost, doubled and reordered.
The frames carry no sequence number and the check is a byte sum, so whatever is accepted
is put together from whole frames in the order of their arrival and has the right sum. -/
namespace Autbus
namespace Integrity

open Bytes HostFrames Messages Reassembly

/-- The bytes of a row of chunks. -/
def bytes (cs : List Chunk) : List UInt8 := (cs.map Chunk.data).flatten

@[simp] theorem bytes_append (cs cs' : List Chunk) : bytes (cs ++ cs') = bytes cs ++ bytes cs' := by
  simp [bytes]

@[simp] theorem bytes_singleton (c : Chunk) : bytes [c] = c.data := by
  simp [bytes]

/-- The chunks that make up the buffer, after one more chunk. A first chunk starts anew, a
last one and one that does not fit end in an empty buffer. -/
def since (stk : List Chunk) (c : Chunk) : List Chunk :=
  if bufSize < (bytes stk).length+c.data.length then []
  else match c.kind with
    | .first => [c]
    | .middle => stk ++ [c]
    | .last => []

/-- The chunks that have arrived since the last restart. -/
def pending (cs : List Chunk) : List Chunk := cs.foldl since []

/-- The chunks of a message as `ui_eth_send` sends it. -/
def sent (p : List UInt8) : List Chunk := chunks (pieces (sealMsg p))

/-! ### Arrivals as chunks -/

/-- One arrival over a buffer that holds the chunks `stk`: the chunks it holds afterwards, and
what is handed on. -/
theorem arrive_since {rx : RxBuf} {a : Arrival} {c : Chunk} {stk : List Chunk} (hb : Brings a c)
    (hlen : c.data.length ≤ 1024) (hrx : received rx = bytes stk) :
    received (arrive rx a).1 = bytes (since stk c) ∧
      ∀ bs, (arrive rx a).2 = some bs → c.kind = .last ∧ bs = bytes (stk ++ [c]) ∧
        bs.length ≤ bufSize ∧ (4 ≤ bs.length → Checked bs) := by
  have hridx : (bytes stk).length = rx.ridx := by rw [← hrx,received_length]
  rw [arrive_of_forUs hb.1,since,hridx]
  by_cases hover : bufSize < rx.ridx+c.data.length
  · obtain ⟨hret,hrecv⟩ := ethRecv_over hb.2 hlen hover
    have hne : ¬(ethRecv rx (view a)).iret = 0 := by omega
    rw [if_pos hover,if_neg hne]
    exact ⟨hrecv,fun _ h => nomatch h⟩
  have hfit : rx.ridx+c.data.length ≤ bufSize := Nat.le_of_not_lt hover
  rw [if_neg hover]
  cases hk : c.kind with
  | first =>
    obtain ⟨hret,hrecv⟩ := ethRecv_first hb.2 hlen hfit hk
    have hne : ¬(ethRecv rx (view a)).iret = 0 := by omega
    rw [if_neg hne]
    exact ⟨by simp [hrecv],fun _ h => nomatch h⟩
  | middle =>
    obtain ⟨hret,hrecv⟩ := ethRecv_middle hb.2 hlen hfit hk
    have hne : ¬(ethRecv rx (view a)).iret = 0 := by omega
    rw [if_neg hne]
    exact ⟨by simp [hrecv,hrx],fun _ h => nomatch h⟩
  | last =>
    obtain ⟨hend,hck⟩ := ethRecv_last hb.2 hlen hfit hk
    rcases hend with ⟨hret,hrecv⟩ | ⟨hret,hrecv⟩
    · rw [if_pos hret]
      refine ⟨rfl,fun bs h => ?_⟩
      have hbs : bs = received rx ++ c.data := by
        simpa [hrecv] using h.symm
      have hsize : bs.length = rx.ridx+c.data.length := by
        rw [hbs,List.length_append,received_length]
      refine ⟨rfl,by simp [hbs,hrx],by omega,fun h4 => ?_⟩
      rw [hbs]
      exact (hck (by omega)).mp hret
    · have hne : ¬(ethRecv rx (view a)).iret = 0 := by omega
      rw [if_neg hne]
      exact ⟨hrecv,fun _ h => nomatch h⟩

/-- The buffer holds the chunks that arrived since the last restart. -/
theorem received_pending {as : List Arrival} {cs : List Chunk} (has : List.Forall₂ Brings as cs)
    (hlen : ∀ c ∈ cs, c.data.length ≤ 1024) {rx : RxBuf} {stk : List Chunk}
    (hrx : received rx = bytes stk) : received (arriveAll rx as).2 = bytes (cs.foldl since stk) := by
  induction has generalizing rx stk with
  | nil => exact hrx
  | cons hb _ ih =>
    have hone := (arrive_since hb (hlen _ List.mem_cons_self) hrx).1
    exact ih (fun c hc => hlen c (List.mem_cons_of_mem _ hc)) hone

/-- No last chunk is pending, and every pending chunk has arrived. -/
theorem mem_pending {cs : List Chunk} : ∀ c ∈ pending cs, c ∈ cs ∧ c.kind ≠ .last := by
  have hfold : ∀ (cs stk : List Chunk), (∀ c ∈ stk, c.kind ≠ .last) →
      ∀ c ∈ cs.foldl since stk, (c ∈ stk ∨ c ∈ cs) ∧ c.kind ≠ .last := by
    intro cs
    induction cs with
    | nil => exact fun stk hstk c hc => ⟨Or.inl hc,hstk c hc⟩
    | cons d cs ih =>
      intro stk hstk c hc
      have hsub : ∀ x ∈ since stk d, (x ∈ stk ∨ x = d) ∧ x.kind ≠ .last := by
        intro x hx
        unfold since at hx
        split at hx
        · simp at hx
        · split at hx
          · rename_i hk
            rw [List.mem_singleton] at hx
            subst hx
            exact ⟨Or.inr rfl,by simp [hk]⟩
          · rename_i hk
            rcases List.mem_append.mp hx with hx | hx
            · exact ⟨Or.inl hx,hstk x hx⟩
            · rw [List.mem_singleton] at hx
              subst hx
              exact ⟨Or.inr rfl,by simp [hk]⟩
          · simp at hx
      obtain ⟨hmem,hk⟩ := ih _ (fun x hx => (hsub x hx).2) c hc
      refine ⟨?_,hk⟩
      rcases hmem with hmem | hmem
      · rcases (hsub c hmem).1 with hs | rfl
        · exact Or.inl hs
        · exact Or.inr List.mem_cons_self
      · exact Or.inr (List.mem_cons_of_mem _ hmem)
  intro c hc
  obtain ⟨hmem,hk⟩ := hfold cs [] (by simp) c hc
  exact ⟨hmem.resolve_left (by simp),hk⟩

/-! ### The chunks of a message -/

theorem sealMsg_ne_nil (p : List UInt8) : sealMsg p ≠ [] := by
  intro h
  have hlen := congrArg List.length h
  simp at hlen

theorem restChunks_data (ds : List (List UInt8)) : (restChunks ds).map Chunk.data = ds := by
  induction ds with
  | nil => rfl
  | cons d ds ih =>
    by_cases hds : ds = []
    · subst hds
      rfl
    · rw [restChunks_cons hds,List.map_cons,ih]

theorem chunks_data (ds : List (List UInt8)) : (chunks ds).map Chunk.data = ds := by
  cases ds with
  | nil => rfl
  | cons d ds =>
    by_cases hds : ds = []
    · subst hds
      rfl
    · rw [chunks_cons hds,List.map_cons,restChunks_data]

theorem sent_le {p : List UInt8} : ∀ c ∈ sent p, c.data.length ≤ 1024 := by
  intro c hc
  have hmem := List.mem_map_of_mem (f := Chunk.data) hc
  rw [sent,chunks_data] at hmem
  exact pieces_le _ _ hmem

theorem bytes_sent (p : List UInt8) : bytes (sent p) = sealMsg p := by
  rw [bytes,sent,chunks_data,pieces_flatten (sealMsg_ne_nil p)]

theorem restChunks_concat {ds : List (List UInt8)} (h : ds ≠ []) :
    ∃ init, restChunks ds = init ++ [⟨.last,ds.getLast h⟩] ∧ ∀ c ∈ init, c.kind ≠ .last := by
  induction ds with
  | nil => exact absurd rfl h
  | cons d ds ih =>
    by_cases hds : ds = []
    · subst hds
      exact ⟨[],rfl,by simp⟩
    · obtain ⟨init,heq,hk⟩ := ih hds
      refine ⟨⟨.middle,d⟩::init,?_,?_⟩
      · rw [restChunks_cons hds,heq,List.getLast_cons hds]
        rfl
      · intro c hc
        rcases List.mem_cons.mp hc with rfl | hc
        · simp
        · exact hk c hc

/-- A message ends in its one last chunk. -/
theorem chunks_concat {ds : List (List UInt8)} (h : ds ≠ []) :
    ∃ init, chunks ds = init ++ [⟨.last,ds.getLast h⟩] ∧ ∀ c ∈ init, c.kind ≠ .last := by
  cases ds with
  | nil => exact absurd rfl h
  | cons d ds =>
    by_cases hds : ds = []
    · subst hds
      exact ⟨[],rfl,by simp⟩
    · obtain ⟨init,heq,hk⟩ := restChunks_concat hds
      refine ⟨⟨.first,d⟩::init,?_,?_⟩
      · rw [chunks_cons hds,heq,List.getLast_cons hds]
        rfl
      · intro c hc
        rcases List.mem_cons.mp hc with rfl | hc
        · simp
        · exact hk c hc

theorem cuts_getLast {k : ℕ} {xs : List UInt8} (h : cuts k xs ≠ []) :
    (cuts k xs).getLast h = xs.drop (1024*(k-1)) := by
  induction k generalizing xs with
  | zero => exact absurd rfl h
  | succ k ih =>
    by_cases hk : k = 0
    · subst hk
      simp [cuts]
    · have hne := cuts_ne_nil hk (xs.drop 1024)
      have hcuts : cuts (k+1) xs = xs.take 1024::cuts k (xs.drop 1024) := by rw [cuts,if_neg hk]
      rw [List.getLast_congr _ (List.cons_ne_nil _ _) hcuts,List.getLast_cons hne,ih hne,List.drop_drop]
      congr 1
      omega

/-- Unless the length is 1021, 1022 or 1023 modulo 1024, the last chunk holds the checksum. -/
theorem last_sealed {p : List UInt8} (h : p.length % 1024 ≤ 1020) {c : Chunk} (hc : c ∈ sent p)
    (hk : c.kind = .last) : ∃ q, c.data = q ++ le32 (byteSum p % 2^32) := by
  have hne := pieces_ne_nil (sealMsg_ne_nil p)
  obtain ⟨init,heq,hinit⟩ := chunks_concat hne
  rw [sent,heq] at hc
  rcases List.mem_append.mp hc with hc | hc
  · exact absurd hk (hinit c hc)
  · rw [List.mem_singleton] at hc
    refine ⟨p.drop (1024*((p.length+4+1023)/1024-1)),?_⟩
    have hcut : 1024*((p.length+4+1023)/1024-1) ≤ p.length := by omega
    have hlast : (pieces (sealMsg p)).getLast hne = (sealMsg p).drop (1024*((p.length+4+1023)/1024-1)) := by
      rw [← sealMsg_length]
      exact cuts_getLast hne
    rw [hc,hlast,sealMsg,List.drop_append_of_le_length hcut]

/-! ### What is handed on -/

theorem byteSum_bytes (cs : List Chunk) : byteSum (bytes cs) = (cs.map fun c => byteSum c.data).sum := by
  induction cs with
  | nil => rfl
  | cons c cs ih =>
    rw [List.map_cons,List.sum_cons,← ih,← byteSum_append]
    rfl

/-- Leaving out items of positive weight lowers the weight. -/
theorem eq_of_sublist_of_sum {α : Type*} {w : α → ℕ} {l₁ l₂ : List α} (h : l₁.Sublist l₂)
    (hpos : ∀ x ∈ l₂, 0 < w x) (hsum : (l₁.map w).sum = (l₂.map w).sum) : l₁ = l₂ := by
  have hle : ∀ {l l' : List α}, l.Sublist l' → (l.map w).sum ≤ (l'.map w).sum := by
    intro l l' hl
    induction hl with
    | slnil => exact le_rfl
    | cons x _ ih => simp only [List.map_cons,List.sum_cons]; omega
    | cons_cons x _ ih => simp only [List.map_cons,List.sum_cons]; omega
  induction h with
  | slnil => rfl
  | cons x hl _ =>
    have hx := hpos x List.mem_cons_self
    have hrest := hle hl
    simp only [List.map_cons,List.sum_cons] at hsum
    omega
  | cons_cons x _ ih =>
    simp only [List.map_cons,List.sum_cons] at hsum
    rw [ih (fun y hy => hpos y (List.mem_cons_of_mem _ hy)) (by omega)]

/-- Bytes that pass the check and end in the checksum of `p` have the byte sum of `p`. -/
theorem sum_of_checked {p r : List UInt8} (hp : p.length ≤ 4092)
    (hr : (r ++ le32 (byteSum p % 2^32)).length ≤ bufSize)
    (h : Checked (r ++ le32 (byteSum p % 2^32))) : byteSum r = byteSum p := by
  have hsum := byteSum_le p
  have hsum' := byteSum_le r
  rw [Checked] at h
  simp only [List.length_append,le32_length,Nat.add_sub_cancel,List.take_left',List.drop_left',bufSize] at h hr
  rw [u32_of_read (Nat.mod_lt _ (by decide)) (read_ofList (le32 _))] at h
  omega

/-- Rows of frames that end with the last one and have the same sum are the same, where one is part of the other. -/
theorem whole_of_sublist {p q : List UInt8} {cs : List Chunk} {c : Chunk} (hcs : ∀ x ∈ cs, x ∈ sent p)
    (hc : c ∈ sent p) (hk : c.kind = .last) (hq : c.data = q ++ le32 (byteSum p % 2^32))
    (hsum : byteSum (bytes (pending cs) ++ q) = byteSum p)
    (hpos : ∀ x ∈ sent p, x.kind ≠ .last → 0 < byteSum x.data)
    (hsub : (pending cs ++ [c]).Sublist (sent p) ∨ (sent p).Sublist (pending cs ++ [c])) :
    pending cs ++ [c] = sent p := by
  -- the rows of chunks in front of the last one have the same weight
  obtain ⟨init,hsent,hinit⟩ := chunks_concat (pieces_ne_nil (sealMsg_ne_nil p))
  have hlast : c = ⟨.last,(pieces (sealMsg p)).getLast (pieces_ne_nil (sealMsg_ne_nil p))⟩ := by
    rw [sent,hsent] at hc
    rcases List.mem_append.mp hc with hc | hc
    · exact absurd hk (hinit c hc)
    · exact List.mem_singleton.mp hc
  rw [sent,hsent,← hlast] at hsub ⊢
  have hmem : ∀ x ∈ init, x ∈ sent p := fun x hx => by
    rw [sent,hsent]
    exact List.mem_append_left _ hx
  have hweight : ((pending cs).map fun x => byteSum x.data).sum = (init.map fun x => byteSum x.data).sum := by
    have htotal : byteSum (bytes init)+byteSum c.data = byteSum p+byteSum (le32 (byteSum p % 2^32)) := by
      have hall := bytes_sent p
      rw [sent,hsent,← hlast,bytes_append,bytes_singleton] at hall
      rw [← byteSum_append,hall,sealMsg,byteSum_append]
    rw [hq,byteSum_append] at htotal
    rw [byteSum_append] at hsum
    rw [← byteSum_bytes,← byteSum_bytes]
    omega
  rcases hsub with hsub | hsub
  · have hsub' := (List.append_sublist_append_right [c]).mp hsub
    rw [eq_of_sublist_of_sum hsub' (fun x hx => hpos x (hmem x hx) (hinit x hx)) hweight]
  · have hsub' := (List.append_sublist_append_right [c]).mp hsub
    have hposp : ∀ x ∈ pending cs, 0 < byteSum x.data := by
      intro x hx
      obtain ⟨hx',hxk⟩ := mem_pending x hx
      exact hpos x (hcs x hx') hxk
    rw [eq_of_sublist_of_sum hsub' hposp hweight.symm]

/-- From an empty buffer on, frames of one message in any number and order: what is handed
on is the data of the frames since the last restart, ended by the last frame. With the
checksum in that frame it has the byte sum of the payload. It is the payload when these
frames are the message, and also when frames were only lost or only added, provided that
no frame before the last is all zero. -/
theorem handed_since {rx : RxBuf} (h0 : rx.ridx = 0) {p : List UInt8} (hp : p.length ≤ 4092)
    {as : List Arrival} {cs : List Chunk} (has : List.Forall₂ Brings as cs) {a : Arrival} {c : Chunk}
    (ha : Brings a c) (hcs : ∀ x ∈ cs ++ [c], x ∈ sent p) {bs : List UInt8}
    (h : (arrive (arriveAll rx as).2 a).2 = some bs) :
    c.kind = .last ∧ bs = bytes (pending cs ++ [c]) ∧
      (pending cs ++ [c] = sent p → bs.take (bs.length-4) = p) ∧
      (p.length % 1024 ≤ 1020 → byteSum (bs.take (bs.length-4)) = byteSum p ∧
        ((∀ x ∈ sent p, x.kind ≠ .last → 0 < byteSum x.data) →
          ((pending cs ++ [c]).Sublist (sent p) ∨ (sent p).Sublist (pending cs ++ [c])) →
            bs.take (bs.length-4) = p)) := by
  have hc : c ∈ sent p := hcs c (by simp)
  have hnil : received rx = bytes [] := List.length_eq_zero_iff.mp (by rw [received_length,h0])
  have hpend : received (arriveAll rx as).2 = bytes (pending cs) :=
    received_pending has (fun x hx => sent_le x (hcs x (List.mem_append_left _ hx))) hnil
  obtain ⟨hk,hbs,hsize,hck⟩ := (arrive_since ha (sent_le c hc) hpend).2 bs h
  have hwhole : pending cs ++ [c] = sent p → bs.take (bs.length-4) = p := by
    intro heq
    have hmsg : bs = p ++ le32 (byteSum p % 2^32) := by
      rw [hbs]
      exact (congrArg bytes heq).trans (bytes_sent p)
    simp [hmsg]
  refine ⟨hk,hbs,hwhole,fun hmod => ?_⟩
  obtain ⟨q,hq⟩ := last_sealed hmod hc hk
  have hform : bs = (bytes (pending cs) ++ q) ++ le32 (byteSum p % 2^32) := by
    rw [hbs,bytes_append,bytes_singleton,hq,List.append_assoc]
  have h4 : 4 ≤ bs.length := by
    rw [hform,List.length_append,le32_length]
    omega
  have hsum : byteSum (bytes (pending cs) ++ q) = byteSum p := by
    have hck' := hck h4
    rw [hform] at hck' hsize
    exact sum_of_checked hp hsize hck'
  have htake : bs.take (bs.length-4) = bytes (pending cs) ++ q := by
    rw [hform,List.length_append,le32_length,Nat.add_sub_cancel,List.take_left]
  refine ⟨by rw [htake,hsum],fun hpos hsub => ?_⟩
  apply hwhole
  exact whole_of_sublist (fun x hx => hcs x (List.mem_append_left _ hx)) hc hk hq hsum hpos hsub

/-- The frame of a message, received twice. -/
theorem doubled_handed :
    (arrive (arriveAll emptyRx ((sent [1,2,3]).map chunkArrival)).2
      (chunkArrival ⟨.last,sealMsg [1,2,3]⟩)).2 = some (sealMsg [1,2,3]) ∧
      byteSum ((sealMsg [1,2,3]).take 3) = byteSum [1,2,3] ∧ (sealMsg [1,2,3]).take 3 = [1,2,3] := by
  have hbytes : (arrive (arriveAll emptyRx ((sent [1,2,3]).map chunkArrival)).2
      (chunkArrival ⟨.last,sealMsg [1,2,3]⟩)).2 = some (sealMsg [1,2,3]) := by decide
  obtain ⟨-,-,hwhole,hsum⟩ := @handed_since emptyRx rfl [1,2,3] (by decide) _ _
    (chunkArrivals_bring (sent [1,2,3])) _ _ (chunkArrival_brings ⟨.last,sealMsg [1,2,3]⟩) (by decide) _ hbytes
  exact ⟨hbytes,(hsum (by decide)).1,hwhole (by decide)⟩

/-- Some delivery of frames of the message is accepted as another one. -/
def Altered (p : List UInt8) : Prop :=
  p.length ≤ 4092 ∧ ∃ (cs : List Chunk) (q : List UInt8), (∀ c ∈ cs, c ∈ sent p) ∧
    (arriveAll emptyRx (cs.map chunkArrival)).1.getLast? = some (some (sealMsg q)) ∧ q ≠ p

/-- Frames that make up another message in order are accepted as that message. -/
theorem altered_of_chunks {p q : List UInt8} {ds : List (List UInt8)} (hp : p.length ≤ 4092)
    (hmsg : ds.flatten = sealMsg q) (hq : (sealMsg q).length ≤ bufSize)
    (hlen : ∀ d ∈ ds, d.length ≤ 1024) (hsub : ∀ c ∈ chunks ds, c ∈ sent p) (hne : q ≠ p) : Altered p := by
  have hds : ds ≠ [] := by
    rintro rfl
    exact sealMsg_ne_nil q hmsg.symm
  have hbring := chunkArrivals_bring (chunks ds)
  obtain ⟨i,hret,hend,hck⟩ := ethRecvAll_ready hds (carryAll_of_brings hbring) hlen (hmsg ▸ hq)
    (ready_of_empty (show emptyRx.ridx = 0 from rfl) hlen)
  have h4 : 4 ≤ ds.flatten.length := by
    rw [hmsg,sealMsg_length]
    omega
  have hi : i = 0 := (hck h4).mpr (hmsg ▸ checked_message q)
  have hrecv : received (ethRecvAll emptyRx (((chunks ds).map chunkArrival).map view)).2 = sealMsg q := by
    rcases hend with ⟨-,hrecv⟩ | ⟨h1,-⟩
    · exact hrecv.trans hmsg
    · omega
  refine ⟨hp,chunks ds,q,hsub,?_,hne⟩
  rw [arriveAll_of_returns (forUs_of_brings hbring) hret,if_pos hi,hrecv]
  simp

/-- Pieces that are all full but the last are what `ui_eth_send` makes of the message. -/
theorem sent_eq {p : List UInt8} {ds : List (List UInt8)} {d : List UInt8} (hmsg : (ds ++ [d]).flatten = sealMsg p)
    (hfull : ∀ e ∈ ds, e.length = 1024) (hpos : 0 < d.length) (hd : d.length ≤ 1024) :
    sent p = chunks (ds ++ [d]) := by
  have hcuts : ∀ ds : List (List UInt8), (∀ e ∈ ds, e.length = 1024) →
      cuts (ds.length+1) (ds ++ [d]).flatten = ds ++ [d] ∧ (ds ++ [d]).flatten.length = 1024*ds.length+d.length := by
    intro ds
    induction ds with
    | nil => simp [cuts]
    | cons e ds ih =>
      intro h
      have he := h e List.mem_cons_self
      obtain ⟨hcut,hsize⟩ := ih fun x hx => h x (List.mem_cons_of_mem _ hx)
      have hflat : (e::ds ++ [d]).flatten = e ++ (ds ++ [d]).flatten := by
        rw [List.cons_append,List.flatten_cons]
      constructor
      · rw [hflat,List.length_cons,cuts,if_neg (by omega),List.take_left' he,List.drop_left' he,hcut]
        rfl
      · rw [hflat,List.length_append,he,hsize,List.length_cons]
        omega
  obtain ⟨hcut,hsize⟩ := hcuts ds hfull
  rw [sent,pieces,← hmsg,hsize,show (1024*ds.length+d.length+1023)/1024 = ds.length+1 by omega,hcut]

/-- `n` equal bytes. -/
def fill (n : ℕ) (b : UInt8) : List UInt8 := List.replicate n b

@[simp] theorem fill_length (n : ℕ) (b : UInt8) : (fill n b).length = n := List.length_replicate

@[simp] theorem byteSum_fill (n : ℕ) (b : UInt8) : byteSum (fill n b) = n*b.toNat := byteSum_replicate _ _

/-- The data of a full frame, all bytes equal. -/
def block (b : UInt8) : List UInt8 := fill 1024 b

@[simp] theorem block_length (b : UInt8) : (block b).length = 1024 := fill_length _ _

@[simp] theorem byteSum_block (b : UInt8) : byteSum (block b) = 1024*b.toNat := byteSum_fill _ _

/-- Three blocks and their checksum. -/
theorem sealMsg_blocks (a b c : UInt8) :
    [block a,block b,block c,le32 ((1024*a.toNat+1024*b.toNat+1024*c.toNat) % 2^32)].flatten =
      sealMsg (block a ++ block b ++ block c) := by
  simp [sealMsg,Nat.add_assoc]

theorem sent_blocks (a b c : UInt8) : sent (block a ++ block b ++ block c) =
    chunks [block a,block b,block c,le32 ((1024*a.toNat+1024*b.toNat+1024*c.toNat) % 2^32)] :=
  @sent_eq _ [block a,block b,block c] _ (sealMsg_blocks a b c) (by simp) (by simp) (by simp)

theorem block_inj {a b : UInt8} (h : block a = block b) : a = b := by
  have hhead := congrArg List.head? h
  simpa [block,fill,List.head?_replicate] using hhead

/-- Two middle frames change places. -/
theorem altered_swapped : Altered (block 0 ++ block 1 ++ block 2) := by
  refine @altered_of_chunks _ (block 0 ++ block 2 ++ block 1) _ (by simp) (sealMsg_blocks 0 2 1) (by simp; decide)
    (by simp) ?_ ?_
  · rw [sent_blocks]
    intro c hc
    simp only [chunks,restChunks,List.mem_cons,List.not_mem_nil,or_false] at hc ⊢
    rcases hc with rfl | rfl | rfl | rfl <;> simp
  · intro h
    rw [List.append_assoc,List.append_assoc] at h
    exact absurd (block_inj (List.append_inj (List.append_cancel_left h) (by simp)).1) (by decide)

/-- A middle frame of zeros is lost. -/
theorem altered_thinned : Altered (block 1 ++ block 0 ++ block 2) := by
  refine @altered_of_chunks _ (block 1 ++ block 2) [block 1,block 2,le32 3072] (by simp) (by simp [sealMsg])
    (by simp; decide) (by simp) ?_ ?_
  · rw [sent_blocks]
    intro c hc
    simp only [chunks,restChunks,List.mem_cons,List.not_mem_nil,or_false] at hc ⊢
    rcases hc with rfl | rfl | rfl <;> simp
  · intro h
    have hlen := congrArg List.length h
    simp at hlen

/-- 1021 bytes of sum 5, with the number 5 in three of the four bytes that follow. -/
def splitHead : List UInt8 := [5] ++ fill 1020 0

def splitFirst : List UInt8 := splitHead ++ [5,0,0]

/-- The checksum lies in two frames, and a frame that holds most of it is lost. -/
theorem altered_split : Altered (splitFirst ++ fill 1021 1) := by
  have hsent : sent (splitFirst ++ fill 1021 1) =
      chunks [splitFirst,fill 1021 1 ++ [7,4,0],[0]] := by
    refine @sent_eq _ [splitFirst,fill 1021 1 ++ [7,4,0]] [0] ?_ (by simp [splitFirst,splitHead])
      (by simp) (by simp)
    have hsum : byteSum (splitFirst ++ fill 1021 1) = 1031 := by
      simp only [splitFirst,splitHead,byteSum_append,byteSum_fill]
      decide
    have hword : le32 (1031 % 2^32) = [7,4,0] ++ [0] := by decide
    rw [sealMsg,hsum,hword]
    simp
  refine @altered_of_chunks _ splitHead [splitFirst,[0]] (by simp [splitFirst,splitHead]) ?_
    (by simp [splitHead,bufSize]) (by simp [splitFirst,splitHead]) ?_ ?_
  · have hsum : byteSum splitHead = 5 := by
      simp only [splitHead,byteSum_append,byteSum_fill]
      decide
    have hword : le32 (5 % 2^32) = [5,0,0] ++ [0] := by decide
    rw [sealMsg,hsum,hword,splitFirst]
    simp
  · rw [hsent]
    intro c hc
    simp only [chunks,restChunks,List.mem_cons,List.not_mem_nil,or_false] at hc ⊢
    rcases hc with rfl | rfl <;> simp
  · intro h
    have hlen := congrArg List.length h
    simp [splitFirst] at hlen

/-- Reordering, loss and loss of a part of the checksum each turn some message into
another one. -/
theorem frames_alter : Altered (block 0 ++ block 1 ++ block 2) ∧ Altered (block 1 ++ block 0 ++ block 2) ∧
    Altered (splitFirst ++ fill 1021 1) :=
  ⟨altered_swapped,altered_thinned,altered_split⟩

end Integrity
end Autbus
