import Autbus.Messages

/-! Messages among other frames: what earlier frames leave behind, and what becomes of a
message whose frames are lost, doubled or reordered on the way. -/
namespace Autbus
namespace Reassembly

open Bytes HostFrames Messages

/-! ### Frames as they arrive -/

/-- One arrival after the other: the messages handed to `atb_ui_parse`, and the buffer. -/
def arriveAll : RxBuf → List Arrival → List (Option (List UInt8)) × RxBuf
  | rx, [] => ([],rx)
  | rx, a::as =>
    let r := arrive rx a
    let t := arriveAll r.1 as
    (r.2::t.1,t.2)

/-- The frame from its type field on. -/
def view (a : Arrival) : Mem := shift a.frame.mem 12

/-- A frame for the device that holds the chunk. -/
def Brings (a : Arrival) (c : Chunk) : Prop := a.frame.ForUs ∧ Carries (view a) c

theorem arrive_of_forUs {rx : RxBuf} {a : Arrival} (h : a.frame.ForUs) :
    arrive rx a = if (ethRecv rx (view a)).iret = 0 then
      ((ethRecv rx (view a)).rx.restart,some (received (ethRecv rx (view a)).rx))
      else ((ethRecv rx (view a)).rx,none) := by
  rw [arrive_eq,hostFrame,if_pos h]
  rfl

/-- As long as `eth_recv` returns 1, the arrivals leave what it leaves; the last call decides
whether a message is handed on. -/
theorem arriveAll_of_returns {as : List Arrival} {rx : RxBuf} {k i : ℕ} (hus : ∀ a ∈ as, a.frame.ForUs)
    (h : (ethRecvAll rx (as.map view)).1 = List.replicate k 1 ++ [i]) :
    (arriveAll rx as).1 = List.replicate k none ++
      [if i = 0 then some (received (ethRecvAll rx (as.map view)).2) else none] := by
  induction as generalizing rx k with
  | nil =>
    have hlen := congrArg List.length h
    simp [ethRecvAll] at hlen
  | cons a as ih =>
    have ha := hus a List.mem_cons_self
    rw [List.map_cons,ethRecvAll] at h ⊢
    rw [arriveAll,arrive_of_forUs ha]
    cases k with
    | zero =>
      simp only [List.replicate_zero,List.nil_append,List.cons.injEq] at h
      obtain ⟨hi,hnil⟩ := h
      have has : as = [] := by
        cases as with
        | nil => rfl
        | cons b bs => simp [ethRecvAll] at hnil
      subst has
      subst hi
      split <;> simp_all [arriveAll,ethRecvAll]
    | succ k =>
      simp only [List.replicate_succ,List.cons_append,List.cons.injEq] at h
      obtain ⟨hret,hrest⟩ := h
      have hne : ¬(ethRecv rx (view a)).iret = 0 := by omega
      rw [if_neg hne]
      simp only [List.replicate_succ,List.cons_append,List.cons.injEq,true_and]
      exact ih (fun b hb => hus b (List.mem_cons_of_mem _ hb)) hrest

theorem forUs_of_brings {as : List Arrival} {cs : List Chunk} (h : List.Forall₂ Brings as cs) :
    ∀ a ∈ as, a.frame.ForUs := by
  induction h with
  | nil => simp
  | cons hb _ ih =>
    intro a ha
    rcases List.mem_cons.mp ha with rfl | ha
    · exact hb.1
    · exact ih a ha

theorem carryAll_of_brings {as : List Arrival} {cs : List Chunk} (h : List.Forall₂ Brings as cs) :
    CarryAll (as.map view) cs := by
  rw [CarryAll,List.forall₂_map_left_iff]
  exact h.imp fun _ _ hb => hb.2

/-! ### Leftovers -/

/-- After any earlier frames, the frames of a well-formed message in any pieces hand on
exactly that message if and only if what is left over is ready for it. -/
theorem accepted_iff (rx₀ : RxBuf) (prev : List Arrival) {ds : List (List UInt8)} {p : List UInt8}
    (hmsg : ds.flatten = sealMsg p) (hsum : (sealMsg p).length ≤ bufSize)
    (hlen : ∀ d ∈ ds, d.length ≤ 1024) {as : List Arrival} (has : List.Forall₂ Brings as (chunks ds)) :
    (arriveAll (arriveAll rx₀ prev).2 as).1 = List.replicate (ds.length-1) none ++ [some (sealMsg p)] ↔
      Ready (arriveAll rx₀ prev).2 ds := by
  generalize (arriveAll rx₀ prev).2 = rx
  have hne : ds ≠ [] := by
    rintro rfl
    have hzero := congrArg List.length hmsg
    simp at hzero
  have hus := forUs_of_brings has
  have hcarry := carryAll_of_brings has
  rw [← hmsg] at hsum ⊢
  constructor
  · intro hacc
    by_contra hready
    obtain ⟨i,hret,hdiff⟩ := ethRecvAll_unready hne hcarry hlen hsum hready
    rw [arriveAll_of_returns hus hret] at hacc
    have hlast := List.append_cancel_left hacc
    by_cases hi : i = 0
    · rw [if_pos hi] at hlast
      simp only [List.cons.injEq,Option.some.injEq,and_true] at hlast
      exact hdiff hi hlast
    · rw [if_neg hi] at hlast
      simp at hlast
  · intro hready
    obtain ⟨i,hret,hend,hck⟩ := ethRecvAll_ready hne hcarry hlen hsum hready
    have h4 : 4 ≤ ds.flatten.length := by
      rw [hmsg,sealMsg_length]
      omega
    have hi : i = 0 := (hck h4).mpr (hmsg ▸ checked_message p)
    rw [arriveAll_of_returns hus hret,if_pos hi]
    rcases hend with ⟨-,hrecv⟩ | ⟨h1,-⟩
    · rw [hrecv]
    · omega

/-- The chunk in a frame of its own. -/
def chunkArrival (c : Chunk) : Arrival := .eth (.ofTail c.wire)

theorem chunkArrival_brings (c : Chunk) : Brings (chunkArrival c) c := by
  constructor
  · show read (ofList (srcmac ++ [0x66,0x55,0x44,0x33,0x22,0x11] ++ c.wire)) 0 6 = srcmac
    rw [List.append_assoc]
    exact read_ofList_append srcmac _
  · have hview : view (chunkArrival c) = ofList c.wire :=
      shift_ofList_append (srcmac ++ [0x66,0x55,0x44,0x33,0x22,0x11]) c.wire
    rw [Carries,hview]
    exact read_ofList c.wire

theorem chunkArrivals_bring (cs : List Chunk) : List.Forall₂ Brings (cs.map chunkArrival) cs := by
  rw [List.forall₂_map_left_iff]
  exact List.forall₂_same.mpr fun c _ => chunkArrival_brings c

/-- A message that is given up after its first frame. -/
def abandoned : List Arrival := [chunkArrival ⟨.first,[9]⟩]

/-- Two frames after an abandoned one are accepted. -/
theorem abandoned_accepted :
    (arriveAll (arriveAll emptyRx abandoned).2
      ((chunks [[1,2],[3,6,0,0,0]]).map chunkArrival)).1 = [none,some (sealMsg [1,2,3])] := by
  have hready : Ready (arriveAll emptyRx abandoned).2 [[1,2],[3,6,0,0,0]] := by
    show (arriveAll emptyRx abandoned).2.ridx+2 ≤ bufSize
    decide
  exact (accepted_iff emptyRx abandoned (by decide) (by decide) (by decide)
    (chunkArrivals_bring (chunks [[1,2],[3,6,0,0,0]]))).mpr hready

/-- A message in one frame after an abandoned one is not, although it is accepted alone. -/
theorem abandoned_spoils :
    (arriveAll emptyRx ((chunks [sealMsg [7]]).map chunkArrival)).1 = [some (sealMsg [7])] ∧
      (arriveAll (arriveAll emptyRx abandoned).2 ((chunks [sealMsg [7]]).map chunkArrival)).1 = [none] := by
  decide

end Reassembly
end Autbus
