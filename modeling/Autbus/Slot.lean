import Mathlib.Data.List.Nodup

/-! A receiver that remembers the last request it was given, under a part of the
request's identity. A request that finds itself remembered is not carried out again.
Lists of requests have the newest one first. -/
namespace Autbus
namespace Slot

variable {K M : Type*} [DecidableEq M] (mem : K → M) (served : K → Bool)

/-- The request finds itself remembered. -/
def repeats (ks : List K) (k : K) : Bool := ks.head?.map mem = some (mem k)

/-- The requests that are carried out, out of those that have someone to serve them. -/
def ran : List K → List K
  | [] => []
  | k::ks => if !repeats mem ks k && served k then k::ran ks else ran ks

/-- A request that was carried out comes again only while it is remembered. -/
def Calm : List K → Prop
  | [] => True
  | k::ks => (k ∈ ran mem served ks → repeats mem ks k = true) ∧ Calm ks

variable {mem served}

theorem served_of_mem_ran {k : K} {ks : List K} (h : k ∈ ran mem served ks) : served k = true := by
  induction ks with
  | nil => simp [ran] at h
  | cons q ks ih =>
    rw [ran] at h
    split at h
    · rename_i hq
      rcases List.mem_cons.mp h with rfl | h
      · exact (Bool.and_eq_true _ _ ▸ hq).2
      · exact ih h
    · exact ih h

/-- Nothing is carried out twice exactly when the deliveries are calm. The induction is
over the deliveries; only a request that is served and not remembered adds a run. -/
theorem ran_nodup_iff (ks : List K) : (ran mem served ks).Nodup ↔ Calm mem served ks := by
  induction ks with
  | nil => simp [ran,Calm]
  | cons k ks ih =>
    rw [ran,Calm,← ih]
    cases hrep : repeats mem ks k with
    | true => simp
    | false =>
      cases hsrv : served k with
      | true => simp
      | false =>
        have hk : k ∉ ran mem served ks := by
          intro hmem
          have := served_of_mem_ran hmem
          simp [hsrv] at this
        simp [hk]

end Slot
end Autbus
