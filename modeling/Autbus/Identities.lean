import Autbus.Bytes
import Autbus.Services

/-! Who a TN is, on the way to its node record in the CN: the answer that
`sysres_srv_add_res_id` sends and what `res_id_rpc_cbk` takes out of it. -/
namespace Autbus
namespace Identities

open ResTables Nodes SrvRpc Services

/-- The texts of a TN; `buildTime` is what `get_build_time` points to. -/
structure Texts where
  buildTime : Fin 16 → UInt8
  bver : Fin 16 → UInt8
  devtype : Fin 16 → UInt8
  name : Fin 32 → UInt8

namespace Texts

def bytes (x : Texts) : Bytes :=
  List.ofFn x.buildTime ++ (List.ofFn x.bver ++ (List.ofFn x.devtype ++ List.ofFn x.name))

theorem length_bytes (x : Texts) : x.bytes.length = 80 := by simp [bytes]

/-- The context of a TN that has these texts. -/
def ctx (x : Texts) (ctx : TnCtx) : TnCtx := {ctx with texts := fun i => byteAt x.bytes i}

end Texts

/-- The buffer `tary` of `sysres_srv_add_res_id`. -/
def tary (ctx : TnCtx) (x : Texts) : Bytes.Mem :=
  let m : Bytes.Mem := fun _ => 0
  let m := Bytes.store m 0 [ctx.nodeid]
  let m := Bytes.store m 1 [ctx.nodeaddr]
  let m := Bytes.store m 2 (List.ofFn x.buildTime)
  let m := Bytes.store m 18 (List.ofFn x.bver)
  let m := Bytes.store m 34 (List.ofFn x.devtype)
  let m := Bytes.store m 50 (List.ofFn x.name)
  Bytes.store m 82 [ctx.listenautbus]

/-- What `res_id_rpc_cbk` writes of a `node_info_t`. -/
structure Identity where
  nodeaddr : UInt8
  aver : Bytes
  bver : Bytes
  nodetype : Bytes
  name : Bytes
  listen : UInt8
  state : ResStage
  deriving DecidableEq

def bytesAt (b : Bytes) (i n : ℕ) : Bytes := (List.range n).map fun j => byteAt b (i+j)

/-- `res_id_rpc_cbk`. The node address is read through `pnid` before it is set; `stray` is what
is found there. -/
def resIdRpcCbk (stray : UInt8) (ibuf : Option Bytes) (pnd : Identity) : Identity × ℕ :=
  let pnd := {pnd with nodeaddr := stray}
  match ibuf with
  | none => ({pnd with state := .fail},1)
  | some pnid =>
    ({pnd with
      aver := (bytesAt pnid 2 16).set 15 0,
      bver := (bytesAt pnid (16+2) 16).set 15 0,
      nodetype := bytesAt pnid (16*2+2) 16,
      name := bytesAt pnid (16*3+2) 32,
      listen := byteAt pnid (16*3+2+32),
      state := .addRcvRes},0)

/-- The record holds the TN's own data, the version texts with the NUL at their ends. -/
structure Matches (ctx : TnCtx) (x : Texts) (pnd : Identity) : Prop where
  nodeaddr : pnd.nodeaddr = ctx.nodeaddr
  aver : pnd.aver = (List.ofFn x.buildTime).set 15 0
  bver : pnd.bver = (List.ofFn x.bver).set 15 0
  nodetype : pnd.nodetype = List.ofFn x.devtype
  name : pnd.name = List.ofFn x.name
  listen : pnd.listen = ctx.listenautbus

/-- The record as it was, its state apart. -/
structure Unchanged (pnd r : Identity) : Prop where
  nodeaddr : r.nodeaddr = pnd.nodeaddr
  aver : r.aver = pnd.aver
  bver : r.bver = pnd.bver
  nodetype : r.nodetype = pnd.nodetype
  name : r.name = pnd.name
  listen : r.listen = pnd.listen

/-- What the callback is to make of the record, called with an answer or without one. -/
def Right (ctx : TnCtx) (x : Texts) (pnd : Identity) : Option Bytes → Identity → Prop
  | none, r => Unchanged pnd r
  | some _, r => Matches ctx x r

/-! ### The answer -/

variable {ctx : TnCtx} {x : Texts}

theorem byteAt_left {a b : Bytes} {i : ℕ} (h : i < a.length) : byteAt (a ++ b) i = a[i] := by
  rw [byteAt,List.getD_eq_getElem?_getD,List.getElem?_append_left h,List.getElem?_eq_getElem h]
  rfl

theorem ofFn_byteAt {n : ℕ} {b : Bytes} (h : b.length = n) : List.ofFn (fun i : Fin n => byteAt b i) = b := by
  subst h
  refine List.ext_getElem (by simp) fun i _ _ => ?_
  simp [byteAt]

theorem bytesAt_append (a b c : Bytes) : bytesAt (a ++ (b ++ c)) a.length b.length = b := by
  refine List.ext_getElem (by simp [bytesAt]) fun i _ hi => ?_
  simp only [bytesAt,List.getElem_map,List.getElem_range,byteAt_append_add]
  exact byteAt_left hi

/-- The answer of the service is the front of the buffer. -/
theorem resIdAnswer_eq (ctx : TnCtx) (x : Texts) : resIdAnswer (x.ctx ctx) = Bytes.read (tary ctx x) 0 84 := by
  have hlast : Bytes.read (tary ctx x) 83 1 = [0] := by
    unfold tary
    simp only []
    rw [Bytes.read_store_frame (by simp),Bytes.read_store_frame (by simp),Bytes.read_store_frame (by simp),
      Bytes.read_store_frame (by simp),Bytes.read_store_frame (by simp),Bytes.read_store_frame (by simp),
      Bytes.read_store_frame (by simp)]
    rfl
  have happend : ∀ (m : Bytes.Mem) (a n : ℕ) (xs : Bytes), xs.length = n →
      Bytes.read (Bytes.store m a xs) 0 (a+n) = Bytes.read m 0 a ++ xs := by
    rintro m a n xs rfl
    exact Bytes.read_store_append m a xs
  have hfront : Bytes.read (tary ctx x) 0 83 =
      [ctx.nodeid] ++ [ctx.nodeaddr] ++ List.ofFn x.buildTime ++ List.ofFn x.bver ++ List.ofFn x.devtype ++
        List.ofFn x.name ++ [ctx.listenautbus] := by
    unfold tary
    simp only []
    rw [happend _ 82 1 _ rfl,happend _ 50 32 _ (by simp),happend _ 34 16 _ (by simp),happend _ 18 16 _ (by simp),
      happend _ 2 16 _ (by simp),happend _ 1 1 _ rfl,happend _ 0 1 _ rfl]
    rfl
  have htexts : List.ofFn (x.ctx ctx).texts = x.bytes := ofFn_byteAt x.length_bytes
  rw [show 84 = 83+1 from rfl,Bytes.read_add,hfront,Nat.zero_add,hlast,resIdAnswer,htexts]
  simp [Texts.bytes,Texts.ctx]

/-- The answer piece by piece, with whatever follows it in the buffer it is received in. -/
theorem answer_pieces (ctx : TnCtx) (x : Texts) (rest : Bytes) :
    resIdAnswer (x.ctx ctx) ++ rest =
      [ctx.nodeid,ctx.nodeaddr] ++ (List.ofFn x.buildTime ++ (List.ofFn x.bver ++ (List.ofFn x.devtype ++
        (List.ofFn x.name ++ ([ctx.listenautbus] ++ (0::rest)))))) := by
  have htexts : List.ofFn (x.ctx ctx).texts = x.bytes := ofFn_byteAt x.length_bytes
  rw [resIdAnswer,htexts]
  simp [Texts.bytes,Texts.ctx]

/-- A piece in its place. -/
theorem bytesAt_piece {b p l r : Bytes} {i n : ℕ} (h : b = p ++ (l ++ r)) (hi : p.length = i) (hn : l.length = n) :
    bytesAt b i n = l := by
  subst h hi hn
  exact bytesAt_append p l r

section Pieces

variable {h t v d n r : Bytes}

/-- Five pieces behind a head of two bytes. -/
theorem bytesAt_pieces {b : Bytes} {l : UInt8} (hb : b = h ++ (t ++ (v ++ (d ++ (n ++ ([l] ++ r))))))
    (hh : h.length = 2) (ht : t.length = 16) (hv : v.length = 16) (hd : d.length = 16) (hn : n.length = 32) :
    bytesAt b 2 16 = t ∧ bytesAt b (16+2) 16 = v ∧ bytesAt b (16*2+2) 16 = d ∧ bytesAt b (16*3+2) 32 = n ∧
      byteAt b (16*3+2+32) = l := by
  refine ⟨bytesAt_piece hb hh ht,?_,?_,?_,?_⟩
  · refine bytesAt_piece (p:=h ++ t) (r:=d ++ (n ++ ([l] ++ r))) ?_ ?_ hv
    · rw [hb,List.append_assoc]
    · rw [List.length_append,hh,ht]
  · refine bytesAt_piece (p:=h ++ t ++ v) (r:=n ++ ([l] ++ r)) ?_ ?_ hd
    · simp only [hb,List.append_assoc]
    · rw [List.length_append,List.length_append,hh,ht,hv]
  · refine bytesAt_piece (p:=h ++ t ++ v ++ d) (r:=[l] ++ r) ?_ ?_ hn
    · simp only [hb,List.append_assoc]
    · rw [List.length_append,List.length_append,List.length_append,hh,ht,hv,hd]
  · have hone : bytesAt b (16*3+2+32) 1 = [l] := by
      refine bytesAt_piece (p:=h ++ t ++ v ++ d ++ n) (r:=r) ?_ ?_ rfl
      · simp only [hb,List.append_assoc]
      · rw [List.length_append,List.length_append,List.length_append,List.length_append,hh,ht,hv,hd,hn]
    exact List.head_eq_of_cons_eq hone

end Pieces

/-- Called with the answer the callback takes every piece from its place. -/
theorem resIdRpcCbk_answer (ctx : TnCtx) (x : Texts) (stray : UInt8) (pnd : Identity) (rest : Bytes) :
    (resIdRpcCbk stray (some (resIdAnswer (x.ctx ctx) ++ rest)) pnd).1 =
      ⟨stray,(List.ofFn x.buildTime).set 15 0,(List.ofFn x.bver).set 15 0,List.ofFn x.devtype,List.ofFn x.name,
        ctx.listenautbus,.addRcvRes⟩ := by
  obtain ⟨haver,hbver,htype,hname,hlisten⟩ := bytesAt_pieces (answer_pieces ctx x rest) rfl List.length_ofFn
    List.length_ofFn List.length_ofFn List.length_ofFn
  unfold resIdRpcCbk
  dsimp only
  rw [haver,hbver,htype,hname,hlisten]

/-- The state the callback sets and its result are those of the manager's callback. -/
theorem resIdRpcCbk_nodes (stray : UInt8) (ibuf : Option Bytes) (pnd : Identity) (k : ℕ) (cn : Cn) :
    Nodes.resIdRpcCbk k (ibuf.map fun b => byteAt b 0) cn =
      (setState k (resIdRpcCbk stray ibuf pnd).1.state cn,(resIdRpcCbk stray ibuf pnd).2) := by
  cases ibuf <;> rfl

/-- A TN answers with these bytes or not at all. -/
theorem mem_answers {srcnd : UInt8} {c : TnCtx} {ilen : ℕ} {req reply : Bytes}
    (h : reply ∈ (sysresSrvAddResId srcnd c ilen req).2) : reply = resIdAnswer c := by
  unfold sysresSrvAddResId at h
  dsimp only at h
  split at h
  · exact absurd h List.not_mem_nil
  · exact List.mem_singleton.mp h

/-- The record is right after the call when the byte that is read through the pointer before it
is set is the node address: the TN's with an answer, the record's own without one. -/
theorem resIdRpcCbk_right_iff {srcnd stray : UInt8} {ctx : TnCtx} {x : Texts} {ilen : ℕ} {req : Bytes}
    {ibuf : Option Bytes} {pnd : Identity}
    (hibuf : ∀ b, ibuf = some b → ∃ reply ∈ (sysresSrvAddResId srcnd (x.ctx ctx) ilen req).2, ∃ rest, b = reply ++ rest) :
    Right ctx x pnd ibuf (resIdRpcCbk stray ibuf pnd).1 ↔
      stray = if ibuf.isSome then ctx.nodeaddr else pnd.nodeaddr := by
  cases ibuf with
  | none => exact ⟨fun h => h.nodeaddr,fun h => ⟨h,rfl,rfl,rfl,rfl,rfl⟩⟩
  | some b =>
    obtain ⟨reply,hreply,rest,rfl⟩ := hibuf b rfl
    rw [mem_answers hreply]
    unfold Right
    rw [resIdRpcCbk_answer]
    exact ⟨fun h => h.nodeaddr,fun h => ⟨h,rfl,rfl,rfl,rfl,rfl⟩⟩

/-- A TN with the node address 5, its texts empty. -/
def plainTn : TnCtx := ⟨resNodeOnline,7,5,0,0,fun _ => 0,fun _ => 0,0x77,fun _ => 0,[]⟩

def plainTexts : Texts := ⟨fun _ => 0,fun _ => 0,fun _ => 0,fun _ => 0⟩

/-- Its record before the answer. -/
def plainRecord : Identity := ⟨9,[],[],[],[],0,.waitAck⟩

/-- It is asked with its own configuration. -/
theorem plainTn_answers : ∃ req, (sysresSrvAddResId 0 (plainTexts.ctx plainTn) req.length req).2 =
    [resIdAnswer (plainTexts.ctx plainTn)] :=
  ⟨payloadBytes (.resId zeroNode),by decide⟩

theorem plainTn_right : Right plainTn plainTexts plainRecord (some (resIdAnswer (plainTexts.ctx plainTn)))
    (resIdRpcCbk 5 (some (resIdAnswer (plainTexts.ctx plainTn))) plainRecord).1 := by
  obtain ⟨req,hreq⟩ := plainTn_answers
  have hibuf : ∀ b, some (resIdAnswer (plainTexts.ctx plainTn)) = some b →
      ∃ reply ∈ (sysresSrvAddResId 0 (plainTexts.ctx plainTn) req.length req).2, ∃ rest, b = reply ++ rest := by
    intro b hb
    refine ⟨_,by rw [hreq]; exact List.mem_singleton_self _,[],?_⟩
    rw [List.append_nil]
    exact (Option.some.inj hb).symm
  exact (resIdRpcCbk_right_iff hibuf).mpr rfl

/-- With 0 behind the unset pointer the record gets the address 0, and loses its own when the
call times out. -/
theorem plainTn_not_right :
    (∃ req, resIdAnswer (plainTexts.ctx plainTn) ∈ (sysresSrvAddResId 0 (plainTexts.ctx plainTn) req.length req).2) ∧
      ¬Right plainTn plainTexts plainRecord (some (resIdAnswer (plainTexts.ctx plainTn)))
        (resIdRpcCbk 0 (some (resIdAnswer (plainTexts.ctx plainTn))) plainRecord).1 ∧
      ¬Right plainTn plainTexts plainRecord none (resIdRpcCbk 0 none plainRecord).1 := by
  obtain ⟨req,hreq⟩ := plainTn_answers
  refine ⟨⟨req,by rw [hreq]; exact List.mem_singleton_self _⟩,fun h => ?_,fun h => ?_⟩
  · exact absurd h.nodeaddr (by decide)
  · exact absurd h.nodeaddr (by decide)

end Identities
end Autbus
