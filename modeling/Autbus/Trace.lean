import Mathlib.Data.List.Basic

/-! Runs of a partial step function over labelled events, with the rules that carry
a property from one step to whole runs. A guard restricts the runs to those whose
every step meets a condition on the events so far, the state before and the event. -/
namespace Autbus
namespace Trace

variable {S E : Type*}

/-- Runs from `s₀` whose steps all meet `G`. The history lists the newest event first. -/
inductive Run (step : S → E → Option S) (G : List E → S → E → Prop) (s₀ : S) : List E → S → Prop
  | nil : Run step G s₀ [] s₀
  | cons {es s e t} : Run step G s₀ es s → G es s e → step s e = some t → Run step G s₀ (e::es) t

/-- The guard that every step meets. -/
def anyStep : List E → S → E → Prop := fun _ _ _ => True

namespace Run

variable {step : S → E → Option S} {G H : List E → S → E → Prop} {s₀ s t : S} {es : List E}

/-- The invariant rule: what holds at the start and is kept by every guarded step
holds of every run. -/
theorem invariant {I : List E → S → Prop} (h : Run step G s₀ es s) (h0 : I [] s₀)
    (hs : ∀ es s e t, Run step G s₀ es s → I es s → G es s e → step s e = some t → I (e::es) t) :
    I es s := by
  induction h with
  | nil => exact h0
  | cons hr hg ht ih => exact hs _ _ _ _ hr ih hg ht

/-- The invariant rule for the newer part of a run: what holds where it starts and is kept
by each of its steps holds at its end. -/
theorem since {I : S → Prop} {es₂ es₁ : List E} (h : Run step G s₀ (es₂ ++ es₁) s)
    (h1 : ∀ s₁, Run step G s₀ es₁ s₁ → I s₁)
    (hs : ∀ es s e t, e ∈ es₂ → Run step G s₀ es s → I s → G es s e → step s e = some t → I t) : I s := by
  induction es₂ generalizing s with
  | nil => exact h1 s h
  | cons e es₂ ih =>
    cases h with
    | cons hr hg ht =>
      have hi := ih hr fun es s e' t he => hs es s e' t (List.mem_cons_of_mem _ he)
      exact hs _ _ _ _ List.mem_cons_self hr hi hg ht

theorem mono (hGH : ∀ es s e, G es s e → H es s e) (h : Run step G s₀ es s) :
    Run step H s₀ es s := by
  induction h with
  | nil => exact .nil
  | cons _ hg ht ih => exact .cons ih (hGH _ _ _ hg) ht

theorem toAny (h : Run step G s₀ es s) : Run step anyStep s₀ es s :=
  h.mono (fun _ _ _ _ => trivial)

/-- Guards may be strengthened by anything every step of the run meets. -/
theorem and_of_forall (h : Run step G s₀ es s)
    (hH : ∀ es s e t, Run step G s₀ es s → G es s e → step s e = some t → H es s e) :
    Run step H s₀ es s := by
  induction h with
  | nil => exact .nil
  | cons hr hg ht ih => exact .cons ih (hH _ _ _ _ hr hg ht) ht

/-- The events of a run determine where it ends. -/
theorem det {u : S} (h : Run step G s₀ es s) (h' : Run step H s₀ es u) : s = u := by
  induction h generalizing u with
  | nil =>
    cases h'
    rfl
  | cons _ _ ht ih =>
    cases h' with
    | cons hr _ hu =>
      rw [ih hr] at ht
      exact Option.some.inj (ht.symm.trans hu)

/-- Two conditions that agree at every step of the runs that meet the first one so far
hold throughout a run together. -/
theorem forall_iff {P Q : List E → S → E → Prop} (h : Run step G s₀ es s)
    (hPQ : ∀ es s e t, Run step G s₀ es s → Run step P s₀ es s → G es s e → step s e = some t →
      (P es s e ↔ Q es s e)) :
    Run step P s₀ es s ↔ Run step Q s₀ es s := by
  induction h with
  | nil => exact ⟨fun _ => .nil,fun _ => .nil⟩
  | cons hr hg ht ih =>
    constructor
    · intro hp
      cases hp with
      | cons hp hpe hs =>
        have he := hr.det hp
        subst he
        exact .cons (ih.mp hp) ((hPQ _ _ _ _ hr hp hg ht).mp hpe) hs
    · intro hq
      cases hq with
      | cons hq hqe hs =>
        have he := hr.det hq
        subst he
        exact .cons (ih.mpr hq) ((hPQ _ _ _ _ hr (ih.mpr hq) hg ht).mpr hqe) hs

end Run

/-- Run the events of a list in order. -/
def exec (step : S → E → Option S) : S → List E → Option S
  | s, [] => some s
  | s, e::es => (step s e).bind fun t => exec step t es

theorem exec_cons (step : S → E → Option S) (s : S) (e : E) (es : List E) :
    exec step s (e::es) = (step s e).bind fun t => exec step t es := rfl

/-- A total step function that follows a partial one step by step follows it through every list of events. -/
theorem foldl_follows {T : Type*} {step : S → E → Option S} {next : T → E → T} {R : T → S → Prop}
    (hs : ∀ {t s u e}, R t s → step s e = some u → R (next t e) u) {t : T} {s u : S} (h : R t s) (es : List E)
    (hx : exec step s es = some u) : R (es.foldl next t) u := by
  induction es generalizing t s with
  | nil => exact Option.some.inj hx ▸ h
  | cons e es ih =>
    obtain ⟨v,hv,hrest⟩ := Option.bind_eq_some_iff.mp hx
    exact ih (hs h hv) hrest

/-- A step function that follows another one step by step follows it through every list of events. -/
theorem exec_follows {T : Type*} {step : S → E → Option S} {next : T → E → Option T} {R : T → S → Prop}
    (hs : ∀ {t s u e}, R t s → step s e = some u → ∃ v, next t e = some v ∧ R v u) {t : T} {s u : S} (h : R t s)
    (es : List E) (hx : exec step s es = some u) : ∃ v, exec next t es = some v ∧ R v u := by
  induction es generalizing t s with
  | nil => exact ⟨t,rfl,Option.some.inj hx ▸ h⟩
  | cons e es ih =>
    obtain ⟨w,hw,hrest⟩ := Option.bind_eq_some_iff.mp hx
    obtain ⟨v,hv,hvw⟩ := hs h hw
    obtain ⟨z,hz,hzu⟩ := ih hvw hrest
    exact ⟨z,Option.bind_eq_some_iff.mpr ⟨v,hv,hz⟩,hzu⟩

theorem run_of_exec {step : S → E → Option S} {s₀ : S} (es : List E) {es₀ : List E} {s t : S}
    (hr : Run step anyStep s₀ es₀ s) (h : exec step s es = some t) :
    Run step anyStep s₀ (es.reverse ++ es₀) t := by
  induction es generalizing es₀ s with
  | nil =>
    simp only [exec,Option.some.injEq] at h
    subst h
    exact hr
  | cons e es ih =>
    rw [exec_cons] at h
    cases hs : step s e with
    | none => simp [hs] at h
    | some u =>
      rw [hs,Option.bind_some] at h
      simpa using ih (.cons hr trivial hs) h

/-- A list of events that executes to a state with a decidable property gives a run to
such a state. -/
theorem run_of_exec_map (step : S → E → Option S) (s₀ : S) (es : List E) (p : S → Bool)
    (h : (exec step s₀ es).map p = some true) :
    ∃ t, Run step anyStep s₀ es.reverse t ∧ p t = true := by
  cases hx : exec step s₀ es with
  | none => simp [hx] at h
  | some t =>
    have hn : Run step anyStep s₀ [] s₀ := .nil
    refine ⟨t,by simpa using run_of_exec es hn hx,?_⟩
    simpa [hx] using h

/-- Stop where a check fails. -/
def checked (g : S → E → Bool) (step : S → E → Option S) (s : S) (e : E) : Option S :=
  if g s e then step s e else none

/-- A run with a check meets every guard that the check is enough for. -/
theorem Run.of_checked {g : S → E → Bool} {step : S → E → Option S} {H : List E → S → E → Prop} {s₀ s : S}
    {es : List E} (h : Run (checked g step) anyStep s₀ es s) (hg : ∀ es s e, g s e = true → H es s e) :
    Run step H s₀ es s := by
  induction h with
  | nil => exact .nil
  | cons _ _ ht ih =>
    rw [checked] at ht
    split at ht
    · next hc => exact .cons ih (hg _ _ _ hc) ht
    · cases ht

end Trace
end Autbus
