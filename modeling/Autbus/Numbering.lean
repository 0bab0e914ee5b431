import Autbus.Requests
import Mathlib.Algebra.Group.Nat.Defs
import Mathlib.Logic.Relation

/-! The numbers that requests go out under. A request has one packet as long as it lives, and
as long as fewer than `2^32` requests are created its session number tells it from all others. -/
namespace Autbus
namespace Requests

open Timers (Queue)
open SrvRpc (Bytes Send accepted respondBit)

/-- The packet of a request. -/
def Req.packet (preq : Req) : Packet :=
  ⟨preq.dstnd,⟨preq.srvid,preq.sessn,0,BitVec.ofNat 16 (preq.pmsg.getD []).length⟩,preq.pmsg.getD []⟩

section Lookup

variable (r : Rpc) {req req' : ℕ} (p : Req) (dnode : UInt8) (srvid : BitVec 32)

@[simp] theorem put_self : (r.put req p).reqs req = some p := Function.update_self _ _ _

theorem put_ne (h : req' ≠ req) : (r.put req p).reqs req' = r.reqs req' := Function.update_of_ne h _ _

@[simp] theorem create_self : (rpcRequestCreate r dnode srvid).reqs r.created =
    some ⟨dnode,srvid,r.reqSessn,3,1000000,none,none⟩ := Function.update_self _ _ _

theorem create_ne (h : req ≠ r.created) : (rpcRequestCreate r dnode srvid).reqs req = r.reqs req :=
  Function.update_of_ne h _ _

end Lookup

/-- All that happens to the requests one after the other, but for a response. -/
inductive Change (r : Rpc) : Rpc → Prop
  | create (dnode : UInt8) (srvid : BitVec 32) : Change r (rpcRequestCreate r dnode srvid)
  | edit (req : ℕ) (preq p : Req) : r.reqs req = some preq → preq.tid = none → p.tid = none →
      p.sessn = preq.sessn → Change r (r.put req p)
  | less (req : ℕ) (preq : Req) : r.reqs req = some preq → Change r (r.put req preq.less)
  | note (e : Entry) : (∀ req pkt, e ≠ .tx req pkt) → (∀ req resp ret, e ≠ .called req (some resp) ret) →
      Change r (r.note e)
  | sent (req : ℕ) (preq : Req) (pmsg : Bytes) (tid : ℕ) : r.reqs req = some preq → preq.tid = none →
      Change r (r.enlist req preq {preq with pmsg := some pmsg}.packet pmsg tid)
  | again (req : ℕ) (preq : Req) : r.reqs req = some preq → preq.tid.isSome → Change r (r.note (.tx req preq.packet))
  | delete (req : ℕ) : Change r {r with reqs := Function.update r.reqs req none,reqList := r.reqList.erase req}

abbrev Changes : Rpc → Rpc → Prop := Relation.ReflTransGen Change

section Steps

variable {s t : Sys} {req : ℕ}

theorem rpcMakeRequest_packet {net : Send} {preq : Req} {pkt : Packet}
    (h : (rpcMakeRequest net preq).2 = some pkt) : net = .sent ∧ pkt = preq.packet := by
  cases net with
  | sent => exact ⟨rfl,(Option.some.inj h).symm⟩
  | noPkt => cases h
  | notSent => cases h

theorem changes_setRetry {retry : ℤ} {tmout : UInt32} {r : Rpc}
    (h : rpcRequestSetRetry s.2 req retry tmout = some r) : Changes s.2 r := by
  unfold rpcRequestSetRetry at h
  split at h
  · cases h
  · next preq hpreq =>
    split at h
    · cases h
    · next htid =>
      have htid : preq.tid = none := by simpa using htid
      obtain rfl := Option.some.inj h
      exact .single (.edit req preq _ hpreq htid htid rfl)

theorem changes_send {pmsg : Bytes} {mem : Bool} {net : Send} {block : Option ℕ} {now : UInt64} {iret : ℕ}
    (h : rpcRequestSend req pmsg mem net block now s = some (iret,t)) : Changes s.2 t.2 := by
  unfold rpcRequestSend at h
  split at h
  · cases h
  · next preq hpreq =>
    split at h
    · cases h
    · next htid =>
      have htid : preq.tid = none := by simpa using htid
      split at h
      · obtain ⟨-,rfl⟩ := Prod.mk.inj (Option.some.inj h)
        exact .single (.edit req preq _ hpreq htid htid rfl)
      · dsimp only at h
        rcases rpcMakeRequest_cases net {preq with pmsg := some pmsg} with ⟨pkt,hpkt⟩ | ⟨hiret,hpkt⟩
        · obtain ⟨-,rfl⟩ := rpcMakeRequest_packet (congrArg Prod.snd hpkt)
          rw [hpkt] at h
          dsimp only at h
          rw [if_neg (by simp)] at h
          split at h
          · cases h
          · next tid =>
            obtain ⟨q,-,h⟩ := Option.bind_eq_some_iff.mp h
            obtain ⟨q',-,h⟩ := Option.map_eq_some_iff.mp h
            have henlist : t.2 = s.2.enlist req preq {preq with pmsg := some pmsg}.packet pmsg tid := by
              rw [← (Prod.mk.inj h).2]
              simp [Rpc.enlist,Rpc.put,Rpc.transmit,Rpc.note,Function.update_idem]
            rw [henlist]
            exact .single (.sent req preq pmsg tid hpreq htid)
        · rw [if_pos hiret,hpkt] at h
          obtain ⟨-,rfl⟩ := Prod.mk.inj (Option.some.inj h)
          have hedit : Changes s.2 (s.2.put req {preq with pmsg := some pmsg}) :=
            .single (.edit req preq _ hpreq htid htid rfl)
          exact hedit.trans (.single (.note (.unsent req) (by simp) (by simp)))

theorem changes_act {a : Act} (h : a.run s = some t) : Changes s.2 t.2 := by
  cases a with
  | create dnode srvid =>
    obtain rfl := Option.some.inj h
    exact .single (.create dnode srvid)
  | setRetry req retry tmout =>
    obtain ⟨r,hr,rfl⟩ := Option.map_eq_some_iff.mp h
    exact changes_setRetry hr
  | send req pmsg mem net block now =>
    obtain ⟨⟨iret,u⟩,hu,rfl⟩ := Option.map_eq_some_iff.mp h
    exact changes_send hu
  | timer c =>
    simp only [Act.run] at h
    split at h
    · obtain ⟨q,-,rfl⟩ := Option.map_eq_some_iff.mp h
      exact .refl
    · cases h

theorem changes_acts {as : List Act} (h : acts as s = some t) : Changes s.2 t.2 := by
  induction as generalizing s with
  | nil =>
    obtain rfl := Option.some.inj h
    exact .refl
  | cons a as ih =>
    obtain ⟨u,hu,h⟩ := Option.bind_eq_some_iff.mp h
    exact (changes_act hu).trans (ih h)

theorem changes_delete (h : rpcDeleteRequest req s = some t) : Changes s.2 t.2 := by
  unfold rpcDeleteRequest at h
  split at h
  · cases h
  · obtain ⟨q,-,rfl⟩ := Option.map_eq_some_iff.mp h
    exact .single (.delete req)

theorem changes_giveUp {x : Script} (h : giveUp req x s = some t) : Changes s.2 t.2 := by
  obtain ⟨u,hu,h⟩ := Option.bind_eq_some_iff.mp h
  have hcall : Changes s.2 (s.2.note (.called req none x.ret)) := .single (.note _ (by simp) (by simp))
  exact hcall.trans ((changes_acts hu).trans (changes_delete h))

/-- A timeout: the packet that goes out again is the one that went out before. -/
theorem changes_tout {x : Script} (h : rqcRequestTout req x s = some t) : Changes s.2 t.2 := by
  unfold rqcRequestTout at h
  split at h
  · cases h
  · next preq hpreq =>
    have hless : Changes s.2 (s.2.put req preq.less) := .single (.less req preq hpreq)
    have hexp : Changes s.2 ((s.2.put req preq.less).note (.expired req)) :=
      hless.trans (.single (.note (.expired req) (by simp) (by simp)))
    dsimp only at h
    split at h
    · exact hexp.trans (changes_giveUp h)
    · rcases rpcMakeRequest_cases x.net preq.less with ⟨pkt,hpkt⟩ | ⟨hiret,hpkt⟩
      · obtain ⟨-,rfl⟩ := rpcMakeRequest_packet (congrArg Prod.snd hpkt)
        rw [Req.less] at hpkt
        rw [hpkt] at h
        dsimp only at h
        rw [if_neg (by simp)] at h
        split at h
        · cases h
        · next tid htid =>
          obtain ⟨q,-,rfl⟩ := Option.map_eq_some_iff.mp h
          refine hexp.trans (.single (.again req preq.less ?_ ?_))
          · exact put_self s.2 preq.less
          · exact Option.isSome_iff_exists.mpr ⟨tid,htid⟩
      · rw [Req.less] at hiret hpkt
        rw [if_pos hiret,hpkt] at h
        exact (hexp.trans (.single (.note (.unsent req) (by simp) (by simp)))).trans (changes_giveUp h)

theorem changes_fire {x : Script} {id : ℕ} (h : Timers.fire Cbk.run x id s = some t) : Changes s.2 t.2 := by
  obtain ⟨tinfo,u,q,-,hu,-,rfl⟩ := Timers.fire_cases h
  cases hc : tinfo.cbkf with
  | request req =>
    rw [hc] at hu
    exact changes_tout (s := (Timers.detach s.1 id tinfo,s.2)) (t := u) hu
  | other =>
    rw [hc] at hu
    exact changes_acts (s := (Timers.detach s.1 id tinfo,s.2)) (t := u) hu

theorem changes_queueEvent {curr : UInt64} {xs : List Script} (h : Timers.eventLoop Cbk.run curr xs s = some t) :
    Changes s.2 t.2 := by
  obtain ⟨u,hu,-,rfl⟩ := Timers.eventLoop_keeps (I := fun u => Changes s.2 u.2)
    (fun _ _ _ _ hs _ hfire => hs.trans (changes_fire hfire)) h .refl
  exact hu

/-- A packet comes in: it is a response to a request in the list, or nothing else changes than
what happens at any time. -/
theorem input_cases {tnd : UInt8} {ipkt : Bytes} {x : Script} (h : rpcProcInput tnd ipkt x s = some t) :
    Changes s.2 t.2 ∨ ∃ src phdr msg preq, accepted tnd ipkt = some (src,phdr,msg) ∧ phdr.srvid &&& respondBit ≠ 0#32 ∧
      rpcReqSearch s.2 (phdr.srvid &&& 0x7FFFFFFF#32) phdr.sessn = some preq ∧
      Changes (s.2.note (.called preq (some (phdr.msglen,msg)) x.ret)) t.2 := by
  unfold rpcProcInput at h
  split at h
  · obtain rfl := Option.some.inj h
    exact Or.inl (.refl)
  · next src phdr msg ha =>
    split at h
    · exact Or.inl (changes_acts h)
    · next hbit =>
      split at h
      · obtain rfl := Option.some.inj h
        exact Or.inl (.refl)
      · next preq hpreq =>
        obtain ⟨u,hu,h⟩ := Option.bind_eq_some_iff.mp h
        refine Or.inr ⟨src,phdr,msg,preq,ha,hbit,hpreq,?_⟩
        have hacts := changes_acts hu
        split at h
        · exact hacts.trans (changes_delete h)
        · obtain rfl := Option.some.inj h
          exact hacts

end Steps

/-! ### One packet for a request -/

structure Numbered (r : Rpc) : Prop where
  next : r.reqSessn = BitVec.ofNat 32 r.created
  nodup : r.reqList.Nodup
  known : ∀ req preq, r.reqs req = some preq → req < r.created ∧ preq.sessn = BitVec.ofNat 32 req
  tx : ∀ req p, .tx req p ∈ r.log → req < r.created ∧ p.hdr.sessn = BitVec.ofNat 32 req ∧
    p.hdr.msglen = BitVec.ofNat 16 p.msg.length
  own : ∀ req preq p, r.reqs req = some preq → .tx req p ∈ r.log → preq.tid.isSome ∧ p = preq.packet
  same : ∀ req p p', .tx req p ∈ r.log → .tx req p' ∈ r.log → p = p'
  listed : ∀ req ∈ r.reqList, ∃ preq, r.reqs req = some preq ∧ .tx req preq.packet ∈ r.log

namespace Numbered

variable {r r' : Rpc}

theorem create (h : Numbered r) (dnode : UInt8) (srvid : BitVec 32) : Numbered (rpcRequestCreate r dnode srvid) := by
  have hold : ∀ {req preq}, (rpcRequestCreate r dnode srvid).reqs req = some preq →
      req = r.created ∧ preq = ⟨dnode,srvid,r.reqSessn,3,1000000,none,none⟩ ∨
        req ≠ r.created ∧ r.reqs req = some preq := by
    intro req preq hreq
    by_cases heq : req = r.created
    · subst heq
      exact Or.inl ⟨rfl,Option.some.inj (hreq.symm.trans (create_self r dnode srvid))⟩
    · exact Or.inr ⟨heq,(create_ne r dnode srvid heq).symm.trans hreq⟩
  refine ⟨?_,h.nodup,?_,?_,?_,h.same,?_⟩
  · change r.reqSessn+1 = BitVec.ofNat 32 (r.created+1)
    rw [h.next,BitVec.ofNat_add]
    rfl
  · intro req preq hreq
    rcases hold hreq with ⟨rfl,rfl⟩ | ⟨-,hreq⟩
    · exact ⟨Nat.lt_succ_self _,h.next⟩
    · exact ⟨Nat.lt_succ_of_lt (h.known req preq hreq).1,(h.known req preq hreq).2⟩
  · intro req p hp
    exact ⟨Nat.lt_succ_of_lt (h.tx req p hp).1,(h.tx req p hp).2⟩
  · intro req preq p hreq hp
    rcases hold hreq with ⟨rfl,-⟩ | ⟨-,hreq⟩
    · exact absurd (h.tx _ p hp).1 (Nat.lt_irrefl _)
    · exact h.own req preq p hreq hp
  · intro req hmem
    obtain ⟨preq,hpreq,hp⟩ := h.listed req hmem
    have hne : req ≠ r.created := (h.known req preq hpreq).1.ne
    exact ⟨preq,(create_ne r dnode srvid hne).trans hpreq,hp⟩

/-- A request that changes keeps its packet, or none went out yet. -/
theorem put (h : Numbered r) {req : ℕ} {preq p : Req} (hreq : r.reqs req = some preq) (hsessn : p.sessn = preq.sessn)
    (hpkt : preq.tid.isSome → p.tid.isSome ∧ p.packet = preq.packet) : Numbered (r.put req p) := by
  refine ⟨h.next,h.nodup,fun req' preq' hreq' => ?_,h.tx,fun req' preq' p' hreq' hp' => ?_,h.same,fun req' hmem => ?_⟩
  all_goals
    by_cases heq : req' = req
  · subst heq
    obtain rfl := Option.some.inj ((put_self r p).symm.trans hreq')
    exact ⟨(h.known req' preq hreq).1,hsessn.trans (h.known req' preq hreq).2⟩
  · exact h.known req' preq' ((put_ne r p heq).symm.trans hreq')
  · subst heq
    obtain rfl := Option.some.inj ((put_self r p).symm.trans hreq')
    obtain ⟨htid,rfl⟩ := h.own req' preq p' hreq hp'
    exact ⟨(hpkt htid).1,(hpkt htid).2.symm⟩
  · exact h.own req' preq' p' ((put_ne r p heq).symm.trans hreq') hp'
  · subst heq
    obtain ⟨preq',hpreq',hp⟩ := h.listed req' hmem
    obtain rfl := Option.some.inj (hreq.symm.trans hpreq')
    have htid := (h.own req' preq _ hreq hp).1
    exact ⟨p,put_self r p,(hpkt htid).2 ▸ hp⟩
  · obtain ⟨preq',hpreq',hp⟩ := h.listed req' hmem
    exact ⟨preq',(put_ne r p heq).trans hpreq',hp⟩

theorem note (h : Numbered r) {e : Entry} (he : ∀ req pkt, e ≠ .tx req pkt) : Numbered (r.note e) := by
  have hold : ∀ {req p}, .tx req p ∈ (r.note e).log → .tx req p ∈ r.log := fun hp =>
    (List.mem_cons.mp hp).resolve_left fun heq => he _ _ heq.symm
  exact ⟨h.next,h.nodup,h.known,fun req p hp => h.tx req p (hold hp),
    fun req preq p hreq hp => h.own req preq p hreq (hold hp),fun req p p' hp hp' => h.same req p p' (hold hp) (hold hp'),
    fun req hmem => (h.listed req hmem).imp fun _ hpreq => ⟨hpreq.1,List.mem_cons_of_mem _ hpreq.2⟩⟩

/-- The packet of a request goes out, for the first time or again. -/
theorem transmit (h : Numbered r) {req : ℕ} {preq : Req} (hreq : r.reqs req = some preq) (htid : preq.tid.isSome)
    (hown : ∀ p, .tx req p ∈ r.log → p = preq.packet) : Numbered (r.note (.tx req preq.packet)) := by
  have hold : ∀ {req' p}, .tx req' p ∈ (r.note (.tx req preq.packet)).log →
      req' = req ∧ p = preq.packet ∨ .tx req' p ∈ r.log := by
    intro req' p hp
    rcases List.mem_cons.mp hp with heq | hp
    · exact Or.inl ⟨(Entry.tx.inj heq).1,(Entry.tx.inj heq).2⟩
    · exact Or.inr hp
  refine ⟨h.next,h.nodup,h.known,fun req' p hp => ?_,fun req' preq' p hreq' hp => ?_,fun req' p p' hp hp' => ?_,
    fun req' hmem => (h.listed req' hmem).imp fun _ hpreq => ⟨hpreq.1,List.mem_cons_of_mem _ hpreq.2⟩⟩
  · rcases hold hp with ⟨rfl,rfl⟩ | hp
    · exact ⟨(h.known _ preq hreq).1,(h.known _ preq hreq).2,rfl⟩
    · exact h.tx req' p hp
  · rcases hold hp with ⟨rfl,rfl⟩ | hp
    · obtain rfl := Option.some.inj (hreq.symm.trans hreq')
      exact ⟨htid,rfl⟩
    · exact h.own req' preq' p hreq' hp
  · rcases hold hp with ⟨rfl,rfl⟩ | hpast
    · rcases hold hp' with ⟨-,rfl⟩ | hpast'
      · rfl
      · exact (hown p' hpast').symm
    · rcases hold hp' with ⟨rfl,rfl⟩ | hpast'
      · exact hown p hpast
      · exact h.same req' p p' hpast hpast'

/-- A request that has no timer did not go out. -/
theorem silent (h : Numbered r) {req : ℕ} {preq : Req} (hreq : r.reqs req = some preq) (htid : preq.tid = none) :
    req ∉ r.reqList ∧ ∀ p, .tx req p ∉ r.log := by
  have hsilent : ∀ p, .tx req p ∉ r.log := by
    intro p hp
    have hsome := (h.own req preq p hreq hp).1
    rw [htid] at hsome
    cases hsome
  refine ⟨fun hmem => ?_,hsilent⟩
  obtain ⟨preq',hpreq',hp⟩ := h.listed req hmem
  exact hsilent _ hp

theorem enlist (h : Numbered r) {req : ℕ} {preq : Req} {pmsg : Bytes} {tid : ℕ} (hreq : r.reqs req = some preq)
    (htid : preq.tid = none) : Numbered (r.enlist req preq {preq with pmsg := some pmsg}.packet pmsg tid) := by
  obtain ⟨hlist,hsilent⟩ := h.silent hreq htid
  have hput : Numbered (r.put req {preq with pmsg := some pmsg,tid := some tid}) := by
    refine h.put hreq rfl fun hsome => ?_
    rw [htid] at hsome
    cases hsome
  have hself : (r.put req {preq with pmsg := some pmsg,tid := some tid}).reqs req =
      some {preq with pmsg := some pmsg,tid := some tid} := put_self r _
  have htx := hput.transmit hself rfl fun p hp => absurd hp (hsilent p)
  have hsent : Numbered _ := htx.note (e := .sent req preq.retry) (by simp)
  refine ⟨hsent.next,List.nodup_cons.mpr ⟨hlist,h.nodup⟩,hsent.known,hsent.tx,hsent.own,hsent.same,fun req' hmem => ?_⟩
  rcases List.mem_cons.mp hmem with rfl | hmem
  · exact ⟨_,hself,List.mem_cons_of_mem _ List.mem_cons_self⟩
  · exact hsent.listed req' hmem

theorem delete (h : Numbered r) (req : ℕ) :
    Numbered {r with reqs := Function.update r.reqs req none,reqList := r.reqList.erase req} := by
  have hold : ∀ {req' preq}, Function.update r.reqs req none req' = some preq → r.reqs req' = some preq := by
    intro req' preq hreq
    by_cases heq : req' = req
    · rw [heq,Function.update_self] at hreq
      cases hreq
    · exact (Function.update_of_ne heq _ _).symm.trans hreq
  refine ⟨h.next,h.nodup.erase req,fun req' preq hreq => h.known req' preq (hold hreq),h.tx,
    fun req' preq p hreq => h.own req' preq p (hold hreq),h.same,fun req' hmem => ?_⟩
  obtain ⟨hne,hmem⟩ := h.nodup.mem_erase_iff.mp hmem
  obtain ⟨preq,hpreq,hp⟩ := h.listed req' hmem
  exact ⟨preq,(Function.update_of_ne hne _ _).trans hpreq,hp⟩

theorem change (h : Numbered r) (hc : Change r r') : Numbered r' := by
  cases hc with
  | create dnode srvid => exact h.create dnode srvid
  | edit req preq p hreq htid hp hsessn =>
    refine h.put hreq hsessn fun hsome => ?_
    rw [htid] at hsome
    cases hsome
  | less req preq hreq => exact h.put hreq rfl fun hsome => ⟨hsome,rfl⟩
  | note e htx _ => exact h.note htx
  | sent req preq pmsg tid hreq htid => exact h.enlist hreq htid
  | again req preq hreq htid => exact h.transmit hreq htid fun p hp => (h.own req preq p hreq hp).2
  | delete req => exact h.delete req

theorem changes (h : Numbered r) (hc : Changes r r') : Numbered r' := by
  induction hc with
  | refl => exact h
  | tail _ hc ih => exact ih.change hc

theorem init : Numbered init.2 := by
  refine ⟨rfl,List.nodup_nil,?_,?_,?_,?_,?_⟩
  · exact fun _ _ h => absurd h (by simp [Requests.init])
  · exact fun _ _ h => absurd h List.not_mem_nil
  · exact fun _ _ _ h => absurd h (by simp [Requests.init])
  · exact fun _ _ _ h => absurd h List.not_mem_nil
  · exact fun _ h => absurd h List.not_mem_nil

/-- Two requests go out under different session numbers, if there are not too many. -/
theorem session_inj (h : Numbered r) (hfew : r.created ≤ 2^32) {req req' : ℕ} {p p' : Packet}
    (hp : .tx req p ∈ r.log) (hp' : .tx req' p' ∈ r.log) (heq : p.hdr.sessn = p'.hdr.sessn) : req = req' ∧ p = p' := by
  obtain ⟨hlt,hs,-⟩ := h.tx req p hp
  obtain ⟨hlt',hs',-⟩ := h.tx req' p' hp'
  have hreq : req = req' := by
    have hnat := congrArg BitVec.toNat (hs.symm.trans (heq.trans hs'))
    rwa [BitVec.toNat_ofNat,BitVec.toNat_ofNat,Nat.mod_eq_of_lt (lt_of_lt_of_le hlt hfew),
      Nat.mod_eq_of_lt (lt_of_lt_of_le hlt' hfew)] at hnat
  subst hreq
  exact ⟨rfl,h.same _ p p' hp hp'⟩

end Numbered

/-- Nothing that was told is forgotten. -/
theorem Changes.log {r r' : Rpc} (h : Changes r r') : r.log ⊆ r'.log := by
  induction h with
  | refl => exact List.Subset.refl _
  | @tail u v _ hc ih =>
    refine List.Subset.trans ih ?_
    cases hc with
    | note e _ _ => exact List.subset_cons_self e u.log
    | sent req preq pmsg tid _ _ => exact fun e he => List.mem_cons_of_mem _ (List.mem_cons_of_mem _ he)
    | again req preq _ _ => exact List.subset_cons_self _ u.log
    | _ => exact List.Subset.refl _

/-- Only a response is told as one. -/
theorem Changes.called {r r' : Rpc} (h : Changes r r') {req : ℕ} {resp : BitVec 16 × Bytes} {ret : ℤ}
    (hmem : .called req (some resp) ret ∈ r'.log) : .called req (some resp) ret ∈ r.log := by
  induction h with
  | refl => exact hmem
  | tail _ hc ih =>
    refine ih ?_
    cases hc with
    | note e _ he => exact (List.mem_cons.mp hmem).resolve_left fun heq => he _ _ _ heq.symm
    | sent req preq pmsg tid _ _ => simpa [Rpc.enlist] using hmem
    | again req preq _ _ => simpa [Rpc.note] using hmem
    | _ => exact hmem

end Requests
end Autbus
