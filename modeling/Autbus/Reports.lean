import Autbus.Rounds

/-! Which record a lost node's report marks. Arrivals look a record up by its MAC, losses
by its node id, and a record stays in the list with the id it was last reported under. -/
namespace Autbus
namespace Reports

open ResTables Nodes Trace Manager

/-! ### What the reports say -/

/-- The nodes in the order of their first report, each with its latest id, after one more
event; `cnMac` is the CN's own. -/
def report (cnMac : Mac) : Event → List (Mac × UInt8) → List (Mac × UInt8)
  | .rptOnline ok _, nodes => if ok then nodes ++ [(cnMac,0)] else nodes
  | .nwNode nid mac ok _ _ _, nodes =>
    match nodes.findIdx? fun x => x.1 = mac with
    | some k => nodes.modify k fun _ => (mac,nid)
    | none => if ok then nodes ++ [(mac,nid)] else nodes
  | _, nodes => nodes

def roster (cnMac : Mac) (es : List Event) : List (Mac × UInt8) := es.foldr (report cnMac) []

/-- The MAC most recently reported online with the id. -/
def holder (nid : UInt8) : List Event → Option Mac
  | [] => none
  | .nwNode n mac _ _ _ _::es => if n = nid then some mac else holder nid es
  | _::es => holder nid es

/-- The nodes that are online, as far as the reports tell. -/
def live : List Event → List (Mac × UInt8)
  | [] => []
  | .nwNode nid mac _ _ _ _::es => (mac,nid)::(live es).filter fun x => x.1 ≠ mac
  | .lsNode nid::es => (live es).filter fun x => x.2 ≠ nid
  | _::es => live es

/-- No two nodes are online with one id. -/
def Distinct (es : List Event) (_ : Sys) : Event → Prop
  | .nwNode nid mac _ _ _ _ => ∀ x ∈ live es, x.2 = nid → x.1 = mac
  | _ => True

/-- Mark the record at a position offline. -/
def mark (k : Option ℕ) (ncn : List NodeInfo) : List NodeInfo :=
  match k with
  | none => ncn
  | some k => ncn.modify k lose

/-- The claim's property: a loss marks exactly the record of the id's holder. -/
def MarksHolder (es : List Event) (s : Sys) (e : Event) : Prop :=
  ∀ nid, e = .lsNode nid → ∀ t, step s e = some t →
    t.cn.ncn = mark ((holder nid es).bind fun mac => s.cn.ncn.findIdx? fun pnd => pnd.mac = mac) s.cn.ncn

/-- Of the nodes whose latest id is the lost one, the holder was reported first. -/
def HolderFirst (cnMac : Mac) (es : List Event) (_ : Sys) (e : Event) : Prop :=
  ∀ nid, e = .lsNode nid →
    ((roster cnMac es).findIdx? fun x => x.2 = nid) =
      (holder nid es).bind fun mac => (roster cnMac es).findIdx? fun x => x.1 = mac

/-! ### The keys of the records -/

def key (pnd : NodeInfo) : Mac × UInt8 := (pnd.mac,pnd.nindx)

def keys (cn : Cn) : List (Mac × UInt8) := cn.ncn.map key

theorem map_modify {α β : Type} {f : α → α} {g : α → β} {f' : β → β} (h : ∀ a, g (f a) = f' (g a))
    (l : List α) (k : ℕ) : (l.modify k f).map g = (l.map g).modify k f' := by
  induction l generalizing k with
  | nil => simp
  | cons a l ih =>
    cases k with
    | zero => simp [h]
    | succ k => simp [ih]

/-- A change of a record under its MAC and id. -/
theorem keys_modify {cn cn' : Cn} {k : ℕ} {f : NodeInfo → NodeInfo} (hcn : cn'.ncn = cn.ncn.modify k f)
    (hf : ∀ pnd, key (f pnd) = key pnd) : keys cn' = keys cn := by
  rw [keys,hcn,@map_modify _ _ f key id hf,List.modify_id,keys]

theorem keys_congr {cn cn' : Cn} (h : cn'.ncn = cn.ncn) : keys cn' = keys cn := by rw [keys,h,keys]

theorem keys_setState (k : ℕ) (st : ResStage) (cn : Cn) : keys (setState k st cn) = keys cn :=
  keys_modify rfl fun _ => rfl

theorem findIdx_nindx (cn : Cn) (nid : UInt8) :
    ((keys cn).findIdx? fun x => x.2 = nid) = cn.ncn.findIdx? fun pnd => pnd.nindx = nid := by
  rw [keys,List.findIdx?_map]
  rfl

theorem findIdx_mac (cn : Cn) (mac : Mac) :
    ((keys cn).findIdx? fun x => x.1 = mac) = cn.ncn.findIdx? fun pnd => pnd.mac = mac := by
  rw [keys,List.findIdx?_map]
  rfl

theorem keys_resNewCn (ok : Bool) (ptr : UnsetPtr) (cn : Cn) :
    keys (resNewCn ok ptr cn) = report cn.mac (.rptOnline ok ptr) (keys cn) := by
  rw [keys,resNewCn_ncn,report,keys]
  cases ok with
  | false => rfl
  | true => simp [key]

theorem keys_resNewTn (ok : Bool) (ptr : UnsetPtr) (nid : UInt8) (mac cnMac : Mac) (create : Bool)
    (env : SendEnv) (cn : Cn) :
    keys (resNewTn ok ptr nid mac cn) = report cnMac (.nwNode nid mac ok ptr create env) (keys cn) := by
  rw [report,findIdx_mac,keys,resNewTn_ncn]
  cases cn.ncn.findIdx? fun pnd => pnd.mac = mac with
  | some k => exact @map_modify _ _ (renew nid mac) key (fun _ => (mac,nid)) (fun _ => rfl) cn.ncn k
  | none =>
    cases ok with
    | false => rfl
    | true => simp [keys,key,newTn]

theorem keys_resDeleteTn (nid : UInt8) (cn : Cn) : keys (resDeleteTn nid cn) = keys cn := by
  have hncn := resDeleteTn_ncn nid cn
  cases hf : cn.ncn.findIdx? fun pnd => pnd.nindx = nid with
  | none =>
    rw [hf] at hncn
    exact keys_congr hncn
  | some k =>
    rw [hf] at hncn
    exact keys_modify hncn fun _ => rfl

theorem resNewCn_mac (ok : Bool) (ptr : UnsetPtr) (cn : Cn) : (resNewCn ok ptr cn).mac = cn.mac := by
  cases ok with
  | false => rfl
  | true =>
    simp only [resNewCn,Bool.not_true,Bool.false_eq_true,if_false]
    split <;> rfl

theorem resNewTn_mac (ok : Bool) (ptr : UnsetPtr) (nid : UInt8) (mac : Mac) (cn : Cn) :
    (resNewTn ok ptr nid mac cn).mac = cn.mac := by
  have hhold : (if cn.preRes.state = 1 then holdSlot ptr nid mac cn else cn).mac = cn.mac := by
    split
    · rw [holdSlot]
      split <;> rfl
    · rfl
  simp only [resNewTn]
  split
  · exact hhold
  · split <;> exact hhold

theorem resDeleteTn_mac (nid : UInt8) (cn : Cn) : (resDeleteTn nid cn).mac = cn.mac := by
  rw [resDeleteTn]
  split <;> rfl

theorem called_keys {q : Request} {ilen : ℕ} {ibuf : Option UInt8} {cn : Cn} {r : Cn × ℕ}
    (h : Called q ilen ibuf cn r) :
    keys r.1 = keys cn ∧ r.1.mac = cn.mac := by
  cases h with
  | done w _ _ => exact ⟨keys_setState ..,rfl⟩
  | fail _ _ _ _ => exact ⟨keys_setState ..,rfl⟩
  | wait w _ _ _ _ => exact ⟨rfl,rfl⟩
  | other _ => exact ⟨rfl,rfl⟩

theorem manager_keys {env : Env} {s t : Sys} (h : Round env s t) :
    keys t.cn = keys s.cn ∧ t.cn.mac = s.cn.mac := by
  cases h with
  | skip => exact ⟨rfl,rfl⟩
  | boot k cn ms pnd _ _ _ hcn hmac => exact ⟨keys_modify hcn fun _ => rfl,hmac⟩
  | join k pnd => exact ⟨keys_modify rfl fun _ => rfl,rfl⟩
  | leave k pnd => exact ⟨keys_modify rfl fun _ => rfl,rfl⟩
  | push => exact ⟨rfl,rfl⟩
  | finish pnd => exact ⟨rfl,rfl⟩
  | fail pnd => exact ⟨rfl,rfl⟩
  | work w pnd u _ _ _ haw =>
    cases haw with
    | ends cn ms _ hcn hmac => exact ⟨(keys_congr hcn).trans (keys_setState ..),hmac⟩
    | asks cn ms q p _ hcn hmac _ _ _ => exact ⟨(keys_congr hcn).trans (keys_setState ..),hmac⟩

/-- Every step changes the keys as the reports say. -/
theorem step_keys {s t : Sys} {e : Event} (h : step s e = some t) :
    keys t.cn = report s.cn.mac e (keys s.cn) ∧ t.cn.mac = s.cn.mac := by
  cases e with
  | rptOnline ok ptr =>
    obtain rfl := Option.some.inj h
    exact ⟨keys_resNewCn ..,resNewCn_mac ..⟩
  | nwNode nid mac ok ptr create env =>
    obtain ⟨reqs,rfl,-⟩ := rpcOther_spec h
    exact ⟨keys_resNewTn ..,resNewTn_mac ..⟩
  | lsNode nid =>
    obtain rfl := Option.some.inj h
    exact ⟨keys_resDeleteTn ..,resDeleteTn_mac ..⟩
  | rpc create dnode srvid retry env =>
    obtain ⟨reqs,rfl,-⟩ := rpcOther_spec h
    exact ⟨rfl,rfl⟩
  | config cfg =>
    obtain rfl := Option.some.inj h
    exact ⟨rfl,rfl⟩
  | manager env => exact manager_keys (managerRound_round h)
  | resmsg env =>
    obtain ⟨queue,reqs,rfl⟩ := resmsgProc_spec h
    exact ⟨rfl,rfl⟩
  | response srvid sessn ilen node =>
    obtain rfl := Option.some.inj h
    rcases respond_cases srvid sessn ilen node s with ⟨-,he⟩ | ⟨i,q,-,he⟩
    · rw [he]
      exact ⟨rfl,rfl⟩
    · rw [he]
      exact called_keys (callCbk_called q ilen (some node) s.cn)
  | timeout i net =>
    obtain ⟨q,-,⟨-,r,rfl⟩ | ⟨-,rfl⟩⟩ := requestTout_cases h
    · exact called_keys (callCbk_called _ 0 none s.cn)
    · exact ⟨rfl,rfl⟩

/-! ### Runs -/

/-- The list holds the nodes of the reports, in the order of the reports. -/
theorem run_keys {s₀ s : Sys} {es : List Event} (h0 : Booted s₀) (h : Run step anyStep s₀ es s) :
    keys s.cn = roster s₀.cn.mac es ∧ s.cn.mac = s₀.cn.mac := by
  induction h with
  | nil => exact ⟨by rw [keys,h0.ncn];rfl,rfl⟩
  | cons _ _ ht ih =>
    obtain ⟨hkeys,hmac⟩ := ih
    obtain ⟨hk,hm⟩ := step_keys ht
    rw [hkeys,hmac] at hk
    exact ⟨hk,hm.trans hmac⟩

theorem lose_ne (pnd : NodeInfo) : lose pnd ≠ pnd := by
  intro h
  have hl : pnd.lostcnt+1 = pnd.lostcnt := congrArg NodeInfo.lostcnt h
  have hn := congrArg UInt8.toNat hl
  rw [UInt8.toNat_add] at hn
  have hlt := pnd.lostcnt.toNat_lt
  have h1 : (1 : UInt8).toNat = 1 := rfl
  omega

/-- A loss counts, so the marked record can be told. -/
theorem mark_inj {ncn : List NodeInfo} {j k : Option ℕ} (hj : ∀ i, j = some i → i < ncn.length)
    (hk : ∀ i, k = some i → i < ncn.length) : mark j ncn = mark k ncn ↔ j = k := by
  have hself : ∀ {o : Option ℕ} {i : ℕ} (hi : i < ncn.length),
      (mark o ncn)[i]? = some (if o = some i then lose ncn[i] else ncn[i]) := by
    intro o i hi
    cases o with
    | none => simp [mark,hi]
    | some k =>
      rw [mark,List.getElem?_modify,List.getElem?_eq_getElem hi]
      by_cases hki : k = i <;> simp [hki]
  have hsame : ∀ {a b : Option ℕ} {i : ℕ}, mark a ncn = mark b ncn → i < ncn.length → a = some i → b = some i := by
    intro a b i h hi ha
    have hget := congrArg (fun l => l[i]?) h
    simp only [hself hi,ha,if_true,Option.some.injEq] at hget
    by_contra hb
    exact lose_ne _ (by simpa [hb] using hget)
  constructor
  · intro h
    cases j with
    | some i => exact (hsame h (hj i rfl) rfl).symm
    | none =>
      cases k with
      | none => rfl
      | some i => exact absurd (hsame h.symm (hk i rfl) rfl) (by simp)
  · intro h
    rw [h]

theorem findIdx_lt {α : Type} {l : List α} {p : α → Bool} {i : ℕ} (h : l.findIdx? p = some i) : i < l.length :=
  (List.findIdx?_eq_some_iff_getElem.mp h).1

theorem marks_iff {s₀ s : Sys} {es : List Event} {e : Event} (h0 : Booted s₀)
    (h : Run step anyStep s₀ es s) : MarksHolder es s e ↔ HolderFirst s₀.cn.mac es s e := by
  have hkeys := (run_keys h0 h).1
  have hone : ∀ nid, (∀ t, step s (.lsNode nid) = some t → t.cn.ncn =
      mark ((holder nid es).bind fun mac => s.cn.ncn.findIdx? fun pnd => pnd.mac = mac) s.cn.ncn) ↔
      ((roster s₀.cn.mac es).findIdx? fun x => x.2 = nid) =
        (holder nid es).bind fun mac => (roster s₀.cn.mac es).findIdx? fun x => x.1 = mac := by
    intro nid
    have hstep : ∀ t, step s (.lsNode nid) = some t →
        t.cn.ncn = mark (s.cn.ncn.findIdx? fun pnd => pnd.nindx = nid) s.cn.ncn := by
      intro t ht
      obtain rfl := Option.some.inj ht
      exact (resDeleteTn_ncn nid s.cn).trans (by cases s.cn.ncn.findIdx? fun pnd => pnd.nindx = nid <;> rfl)
    have hlt : ∀ i, ((holder nid es).bind fun mac => s.cn.ncn.findIdx? fun pnd => pnd.mac = mac) = some i →
        i < s.cn.ncn.length := by
      intro i hi
      obtain ⟨mac,-,hf⟩ := Option.bind_eq_some_iff.mp hi
      exact findIdx_lt hf
    simp only [← hkeys,findIdx_nindx,findIdx_mac]
    rw [← mark_inj (fun i hi => findIdx_lt hi) hlt]
    constructor
    · intro hm
      exact (hstep _ rfl).symm.trans (hm _ rfl)
    · intro hm t ht
      exact (hstep t ht).trans hm
  constructor
  · rintro hm nid rfl
    exact (hone nid).mp (hm nid rfl)
  · rintro hf nid rfl
    exact (hone nid).mpr (hf nid rfl)

theorem run_marks_iff {s₀ s : Sys} {es : List Event} (h0 : Booted s₀) (h : Run step anyStep s₀ es s) :
    Run step MarksHolder s₀ es s ↔ Run step (HolderFirst s₀.cn.mac) s₀ es s :=
  h.forall_iff fun _ _ _ _ hr _ _ _ => marks_iff h0 (hr.mono fun _ _ _ _ => trivial)

/-- An id passes to a node that was known before its first holder. -/
theorem handedBack_marks :
    ∃ s, Run step MarksHolder (start (blankCn 1))
      [.lsNode 5,arrives 5 2,.lsNode 5,arrives 5 3,.lsNode 6,arrives 6 2] s ∧
      s.cn.ncn.map NodeInfo.lostcnt = [2,1] := by
  have hrun : Run step anyStep (start (blankCn 1))
      [.lsNode 5,arrives 5 2,.lsNode 5,arrives 5 3,.lsNode 6,arrives 6 2] _ :=
    .cons (.cons (.cons (.cons (.cons (.cons .nil trivial rfl) trivial rfl) trivial rfl) trivial rfl)
      trivial rfl) trivial rfl
  refine ⟨_,(run_marks_iff (blank_booted 1) hrun).mpr ?_,by decide⟩
  refine .cons (.cons (.cons (.cons (.cons (.cons .nil ?_ rfl) ?_ rfl) ?_ rfl) ?_ rfl) ?_ rfl) ?_ rfl
  all_goals
    intro nid he
    cases he
  all_goals decide

/-- An id passes to a new node: its loss marks the record of the first holder. -/
theorem passedOn_marksFirst :
    ∃ s, Booted (start (blankCn 1)) ∧
      Run step Distinct (start (blankCn 1)) [.lsNode 5,arrives 5 3,.lsNode 5,arrives 5 2] s ∧
      ¬Run step MarksHolder (start (blankCn 1)) [.lsNode 5,arrives 5 3,.lsNode 5,arrives 5 2] s := by
  have hpre : Run step Distinct (start (blankCn 1)) [arrives 5 3,.lsNode 5,arrives 5 2] _ :=
    .cons (.cons (.cons .nil (by simp [Distinct,arrives,live]) rfl) trivial rfl)
      (by simp [Distinct,arrives,live]) rfl
  refine ⟨_,blank_booted 1,.cons hpre trivial rfl,fun h => ?_⟩
  cases h with
  | cons h he hs =>
    obtain rfl := hpre.det h
    exact absurd (he 5 rfl _ rfl) (by decide)

end Reports
end Autbus
