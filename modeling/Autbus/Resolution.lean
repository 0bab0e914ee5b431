import Autbus.Neighbours

/-! What leaves the table of neighbours, and what is in it afterwards, call by call. -/
namespace Autbus
namespace Neighbours

/-- A run of notes was added, and `P` holds of the frames among them that were sent. -/
def Adds (s s' : Sys) (P : ℕ → Mac → EthType → Prop) : Prop :=
  ∃ notes, s'.log = notes ++ s.log ∧ ∀ t m type, .sent t m type ∈ notes → P t m type

/-- Every entry is an old one, but for those in `Q`; an entry may lose its address. -/
def Entries (s s' : Sys) (Q : ArpEntry → Prop) : Prop :=
  ∀ e ∈ s'.arpList, Q e ∨ ∃ e₀ ∈ s.arpList, e₀.ipadr = e.ipadr ∧ e₀.info = e.info ∧ (e.flag = .valid → e₀.flag = .valid)

section Calls

variable {pktPrepend : Pkt → ℕ → Option Pkt} {s s' u : Sys} {tpkt : Pkt} {P : ℕ → Mac → EthType → Prop}

theorem Adds.note {n : Note} (h : Adds (s.note n) s' P) (hn : ∀ t m type, n ≠ .sent t m type) : Adds s s' P := by
  obtain ⟨notes,hlog,hP⟩ := h
  refine ⟨notes ++ [n],by rw [hlog]; simp [Sys.note],fun t m type hmem => ?_⟩
  rcases List.mem_append.mp hmem with hmem | hmem
  · exact hP t m type hmem
  · exact absurd (List.mem_singleton.mp hmem).symm (hn t m type)

/-- An entry of the list before. -/
theorem Entries.old {Q : ArpEntry → Prop} {e : ArpEntry} (he : e ∈ s.arpList) : Q e ∨
    ∃ e₀ ∈ s.arpList, e₀.ipadr = e.ipadr ∧ e₀.info = e.info ∧ (e.flag = .valid → e₀.flag = .valid) :=
  Or.inr ⟨e,he,rfl,rfl,id⟩

theorem minipSendEth_adds (tpkt : Pkt) (hp : PrependUsual pktPrepend) {dmac : Mac} {type : EthType} (iret : ℤ)
    (hroom : 14 ≤ tpkt.offset) (hP : P tpkt.ref dmac type) :
    Adds s (minipSendEth pktPrepend s tpkt dmac type iret).2 P := by
  rw [minipSendEth,hp tpkt 14 hroom]
  dsimp only
  split
  · refine ⟨[.sent tpkt.ref dmac type],rfl,fun t m ty hmem => ?_⟩
    cases List.mem_singleton.mp hmem
    exact hP
  · exact ⟨[.freed tpkt.ref type],rfl,fun t m ty hmem => by cases List.mem_singleton.mp hmem⟩

/-- The packet waits for its next hop. -/
def Waits (tpkt : Pkt) (hop : UInt32) (e : ArpEntry) : Prop := e.ipadr = hop ∧ e.flag = .intry ∧ e.info = .tpkt tpkt

/-- The packet is parked and a request goes out, one note after the state `s`. -/
theorem park_adds (hp : PrependUsual pktPrepend) {hop : UInt32} {before behind : List ArpEntry} {rpkt : Pkt}
    (iret : ℤ) {n : Note} (hn : ∀ t m type, n ≠ .sent t m type) (hP : ∀ t, P t broadcastMac .arp)
    (hl : ∀ e ∈ before ++ behind, e ∈ s.arpList) :
    Adds s (park pktPrepend (s.note n) tpkt hop before behind rpkt iret).2 P ∧
      Entries s (park pktPrepend (s.note n) tpkt hop before behind rpkt iret).2 (Waits tpkt hop) := by
  have hsend := minipSendEth_adds { rpkt with offset := 32 } hp iret (by decide : 14 ≤ 32) (hP rpkt.ref)
    (s := ({ s.note n with arpList := before ++ ⟨hop,.intry,.tpkt tpkt⟩::behind } : Sys).note (.parked tpkt.ref hop))
  have hparked := hsend.note (by simp)
  refine ⟨Adds.note (n := n) hparked hn,fun e he => ?_⟩
  have hlist : (park pktPrepend (s.note n) tpkt hop before behind rpkt iret).2.arpList =
      before ++ ⟨hop,.intry,.tpkt tpkt⟩::behind := minipSendEth_arpList _ _ _
  rw [hlist,List.mem_append,List.mem_cons] at he
  rcases he with he | rfl | he
  · exact Entries.old (hl e (List.mem_append_left _ he))
  · exact Or.inl ⟨rfl,rfl,rfl⟩
  · exact Entries.old (hl e (List.mem_append_right _ he))

theorem retry_adds (hp : PrependUsual pktPrepend) {hop : UInt32} {before behind : List ArpEntry} {parp : ArpEntry}
    {rpkt : Option Pkt} {iret : ℤ} {x : ℤ × Sys}
    (h : retry pktPrepend s tpkt hop before parp behind rpkt iret = some x) (hP : ∀ t, P t broadcastMac .arp)
    (hl : ∀ e ∈ before ++ parp::behind, e ∈ s.arpList) : Adds s x.2 P ∧ Entries s x.2 (Waits tpkt hop) := by
  have hrest : ∀ e ∈ before ++ behind, e ∈ s.arpList := by
    intro e he
    exact hl e (by rcases List.mem_append.mp he with he | he <;> simp [he])
  unfold retry at h
  split at h
  · obtain rfl := Option.some.inj h
    exact park_adds hp iret (by simp) hP hrest
  · cases h
  · split at h
    · obtain rfl := Option.some.inj h
      refine ⟨⟨[.freed tpkt.ref .ipv4],rfl,fun t m ty hmem => by cases List.mem_singleton.mp hmem⟩,fun e he => ?_⟩
      rcases List.mem_append.mp he with he | he
      · exact Entries.old (hrest e (List.mem_append_left _ he))
      · rcases List.mem_cons.mp he with rfl | he
        · exact Or.inr ⟨parp,hl parp (by simp),rfl,rfl,nofun⟩
        · exact Entries.old (hrest e (List.mem_append_right _ he))
    · obtain rfl := Option.some.inj h
      exact park_adds hp iret (by simp) hP hrest

/-- What `minip_send_iface` sends: the packet, to all or to the address that the table has for the next
hop, or a request to all. -/
def SentTo (s : Sys) (tpkt : Pkt) (hop : UInt32) (t : ℕ) (m : Mac) : EthType → Prop
  | .ipv4 => t = tpkt.ref ∧ (hop = 0xffffffff ∧ m = broadcastMac ∨
      ∃ e ∈ s.arpList, e.ipadr = hop ∧ e.flag = .valid ∧ e.info = .mac m)
  | .arp => m = broadcastMac

theorem minipSendIface_adds (hp : PrependUsual pktPrepend) {net : Net} {dstip : UInt32} {rpkt : Option Pkt}
    {iret : ℤ} {x : ℤ × Sys} (hroom : 14 ≤ tpkt.offset)
    (h : minipSendIface pktPrepend s net tpkt dstip rpkt iret = some x) :
    Adds s x.2 (SentTo s tpkt (net.hop dstip)) ∧ Entries s x.2 (Waits tpkt (net.hop dstip)) := by
  have hP : ∀ t, SentTo s tpkt (net.hop dstip) t broadcastMac .arp := fun _ => rfl
  have hdirect : ∀ m, SentTo s tpkt (net.hop dstip) tpkt.ref m .ipv4 →
      Adds s (minipSendEth pktPrepend (s.note (.handed tpkt.ref (net.hop dstip))) tpkt m .ipv4 iret).2
          (SentTo s tpkt (net.hop dstip)) ∧
        Entries s (minipSendEth pktPrepend (s.note (.handed tpkt.ref (net.hop dstip))) tpkt m .ipv4 iret).2
          (Waits tpkt (net.hop dstip)) := by
    refine fun m hm => ⟨(minipSendEth_adds tpkt hp iret hroom hm).note (by simp),fun e he => ?_⟩
    rw [minipSendEth_arpList] at he
    exact Entries.old he
  have hretry : ∀ {before parp behind},
      retry pktPrepend (s.note (.handed tpkt.ref (net.hop dstip))) tpkt (net.hop dstip) before parp behind rpkt iret =
        some x → (∀ e ∈ before ++ parp::behind, e ∈ s.arpList) →
      Adds s x.2 (SentTo s tpkt (net.hop dstip)) ∧ Entries s x.2 (Waits tpkt (net.hop dstip)) := by
    intro before parp behind hx hl
    obtain ⟨hadds,hentries⟩ := retry_adds hp hx hP hl
    exact ⟨hadds.note (by simp),hentries⟩
  unfold minipSendIface minipArpLookup at h
  dsimp only [Sys.note] at h
  by_cases hall : net.hop dstip = 0xffffffff
  · rw [if_pos hall] at h
    obtain rfl := Option.some.inj h
    exact hdirect broadcastMac ⟨rfl,Or.inl ⟨hall,rfl⟩⟩
  · rw [if_neg hall] at h
    cases hfound : locate (net.hop dstip) s.arpList with
    | none =>
      rw [hfound,Option.map_none] at h
      dsimp only at h
      split at h
      · cases h
      · next parp hlast =>
        refine hretry h fun e he => ?_
        rcases List.mem_cons.mp he with rfl | he
        · exact List.mem_of_getLast? hlast
        · exact List.dropLast_subset _ he
    | some y =>
      obtain ⟨before,parp,behind⟩ := y
      obtain ⟨heq,hip⟩ := locate_some hfound
      have hl : ∀ e ∈ before ++ parp::behind, e ∈ s.arpList := fun e he => heq ▸ he
      rw [hfound,Option.map_some] at h
      dsimp only at h
      split at h
      · next mac hflag hinfo =>
        obtain rfl := Option.some.inj h
        exact hdirect mac ⟨rfl,Or.inr ⟨parp,hl parp (by simp),hip,hflag,hinfo⟩⟩
      · cases h
      · exact hretry h hl

/-- The entry has the address that was learned. -/
def Learned (addr : UInt32) (pmac : Mac) (e : ArpEntry) : Prop := e.ipadr = addr ∧ e.info = .mac pmac

/-- What `minip_arp_update` sends: the packet that waits for the address that is learned. -/
def SentOn (s : Sys) (addr : UInt32) (pmac : Mac) (t : ℕ) (m : Mac) (type : EthType) : Prop :=
  m = pmac ∧ type = .ipv4 ∧ ∃ e ∈ s.arpList, ∃ p, e.ipadr = addr ∧ e.info = .tpkt p ∧ t = p.ref

theorem minipArpUpdate_adds (hp : PrependUsual pktPrepend) {addr : UInt32} {pmac : Mac} {iret : ℤ}
    (hsound : ∀ e ∈ s.arpList, ∀ p, e.info = .tpkt p → 14 ≤ p.offset)
    (h : minipArpUpdate pktPrepend s addr pmac iret = some s') :
    Adds s s' (SentOn s addr pmac) ∧ Entries s s' (Learned addr pmac) := by
  unfold minipArpUpdate at h
  dsimp only [Sys.note] at h
  cases hfound : locate addr s.arpList with
  | none =>
    rw [hfound] at h
    obtain rfl := Option.some.inj h
    exact ⟨⟨[.learned addr pmac],rfl,fun t m ty hmem => by cases List.mem_singleton.mp hmem⟩,
      fun e he => Entries.old (s := s) he⟩
  | some y =>
    obtain ⟨before,parp,behind⟩ := y
    obtain ⟨heq,hip⟩ := locate_some hfound
    have hl : ∀ e ∈ before ++ parp::behind, e ∈ s.arpList := fun e he => heq ▸ he
    have hmem : parp ∈ s.arpList := hl parp (by simp)
    have hentries : ∀ u : Sys, u.arpList = { parp with flag := .valid,info := .mac pmac }::(before ++ behind) →
        Entries s u (Learned addr pmac) := by
      intro u hu e he
      rw [hu,List.mem_cons] at he
      rcases he with rfl | he
      · exact Or.inl ⟨hip,rfl⟩
      · exact Entries.old (hl e (by rcases List.mem_append.mp he with he | he <;> simp [he]))
    rw [hfound] at h
    dsimp only at h
    split at h
    · next tpkt hflag hinfo =>
      obtain rfl := Option.some.inj h
      refine ⟨?_,hentries _ rfl⟩
      have hon : SentOn s addr pmac tpkt.ref pmac .ipv4 := ⟨rfl,rfl,parp,hmem,tpkt,hip,hinfo,rfl⟩
      have hsend := minipSendEth_adds tpkt hp iret (hsound parp hmem tpkt hinfo) hon (s := s.note (.learned addr pmac))
      exact hsend.note (by simp)
    · cases h
    · obtain rfl := Option.some.inj h
      exact ⟨⟨[.learned addr pmac],rfl,fun t m ty hmem => by cases List.mem_singleton.mp hmem⟩,hentries _ rfl⟩

end Calls

end Neighbours
end Autbus
