import Mathlib.Logic.Relation
import Mathlib.Tactic.SplitIfs

/-!
# Runs of a step function

A system is a partial step function on its states, told which event happens. `Reach step ok s₀`
holds of the states a run from `s₀` comes to when every step of the run was `ok` in the state it was
taken in; an invariant that `ok` steps keep holds of all of them (`Reach.invariant`). `Along step P s es`
says that `P` holds in all states that the events `es` lead through from `s`.
-/

namespace RTLKIM

variable {σ ε : Type*}

/-- The state after a list of events. -/
def runEvents (step : σ → ε → Option σ) (s : σ) : List ε → Option σ
  | [] => some s
  | e :: es => (step s e).bind fun s' => runEvents step s' es

theorem runEvents_append {step : σ → ε → Option σ} : ∀ {es : List ε} (es' : List ε) (s : σ),
    runEvents step s (es ++ es') = (runEvents step s es).bind fun s' => runEvents step s' es'
  | [], _, _ => rfl
  | e :: es, es', s => by
    rw [List.cons_append, runEvents, runEvents, Option.bind_assoc]
    exact congrArg _ (funext fun s' => runEvents_append es' s')

theorem runEvents_map {ε' : Type*} {step : σ → ε → Option σ} (f : ε' → ε) : ∀ (es : List ε') (s : σ),
    runEvents step s (es.map f) = runEvents (fun s e => step s (f e)) s es
  | [], _ => rfl
  | _ :: es, _ => congrArg _ (funext fun s' => runEvents_map f es s')

theorem foldlM_eq_runEvents (step : σ → ε → Option σ) : ∀ (es : List ε) (s : σ),
    es.foldlM step s = runEvents step s es
  | [], _ => rfl
  | e :: es, s => by
    rw [List.foldlM_cons, runEvents]
    exact congrArg _ (funext fun s' => foldlM_eq_runEvents step es s')

/-- The states reached from `s₀` by `ok` steps. -/
def Reach (step : σ → ε → Option σ) (ok : σ → ε → Prop) (s₀ : σ) : σ → Prop :=
  Relation.ReflTransGen (fun s s' => ∃ e, ok s e ∧ step s e = some s') s₀

/-- Any step. -/
def anyStep (_ : σ) (_ : ε) : Prop := True

instance (s : σ) (e : ε) : Decidable (anyStep s e) := instDecidableTrue

/-- The steps that are `ok`. -/
def guarded (step : σ → ε → Option σ) (ok : σ → ε → Prop) [∀ s e, Decidable (ok s e)] (s : σ)
    (e : ε) : Option σ := if ok s e then step s e else none

theorem runEvents_of_guarded {step : σ → ε → Option σ} {ok : σ → ε → Prop}
    [∀ s e, Decidable (ok s e)] {s' : σ} : ∀ {es : List ε} {s : σ},
    runEvents (guarded step ok) s es = some s' → runEvents step s es = some s'
  | [], _, h => h
  | e :: es, s, h => by
    obtain ⟨s₁, h1, h2⟩ := Option.bind_eq_some_iff.1 h
    unfold guarded at h1
    split_ifs at h1
    rw [runEvents, h1]
    exact runEvents_of_guarded h2

/-- A relation that `ok` steps keep holds after a run of them, and the other system has that run. -/
theorem runEvents_simulates {τ : Type*} {step : σ → ε → Option σ} {step' : τ → ε → Option τ}
    {ok : σ → ε → Prop} [∀ s e, Decidable (ok s e)] {R : σ → τ → Prop}
    (hstep : ∀ s a e s', R s a → ok s e → step s e = some s' → ∃ a', step' a e = some a' ∧ R s' a') {s' : σ} :
    ∀ {es : List ε} {s : σ} {a : τ}, R s a → runEvents (guarded step ok) s es = some s' →
      ∃ a', runEvents step' a es = some a' ∧ R s' a'
  | [], _, a, hR, h => ⟨a, rfl, Option.some_inj.1 h ▸ hR⟩
  | e :: es, s, a, hR, h => by
    obtain ⟨s₁, h1, h2⟩ := Option.bind_eq_some_iff.1 h
    unfold guarded at h1
    split_ifs at h1 with hok
    obtain ⟨a₁, ha, hR₁⟩ := hstep s a e s₁ hR hok h1
    obtain ⟨a', ha', hR'⟩ := runEvents_simulates hstep hR₁ h2
    refine ⟨a', ?_, hR'⟩
    rw [runEvents, ha]
    exact ha'

/-- The runs of a relation of steps. -/
def Runs (R : σ → ε → σ → Prop) : σ → List ε → σ → Prop
  | s, [], s' => s = s'
  | s, e :: es, s' => ∃ t, R s e t ∧ Runs R t es s'

theorem Runs.split {R : σ → ε → σ → Prop} : ∀ {es es' : List ε} {s s' : σ}, Runs R s (es ++ es') s' →
    ∃ t, Runs R s es t ∧ Runs R t es' s'
  | [], _, s, _, h => ⟨s, rfl, h⟩
  | _ :: _, _, _, _, ⟨t, ht, h⟩ => by
    obtain ⟨u, h1, h2⟩ := split h
    exact ⟨u, ⟨t, ht, h1⟩, h2⟩

/-- As `runEvents_simulates`, with a relation of steps on the other side. -/
theorem runs_of_guarded {τ : Type*} {step : σ → ε → Option σ} {R' : τ → ε → τ → Prop}
    {ok : σ → ε → Prop} [∀ s e, Decidable (ok s e)] {R : σ → τ → Prop}
    (hstep : ∀ s a e s', R s a → ok s e → step s e = some s' → ∃ a', R' a e a' ∧ R s' a') {s' : σ} :
    ∀ {es : List ε} {s : σ} {a : τ}, R s a → runEvents (guarded step ok) s es = some s' →
      ∃ a', Runs R' a es a' ∧ R s' a'
  | [], s, a, hR, h => ⟨a, rfl, Option.some_inj.1 h ▸ hR⟩
  | e :: es, s, a, hR, h => by
    obtain ⟨s₁, h1, h2⟩ := Option.bind_eq_some_iff.1 h
    unfold guarded at h1
    split_ifs at h1 with hok
    obtain ⟨a₁, ha, hR₁⟩ := hstep s a e s₁ hR hok h1
    obtain ⟨a', ha', hR'⟩ := runs_of_guarded hstep hR₁ h2
    exact ⟨a', ⟨a₁, ha, ha'⟩, hR'⟩

namespace Reach

variable {step : σ → ε → Option σ} {ok : σ → ε → Prop} {s₀ s : σ}

theorem invariant {P : σ → Prop} (h : Reach step ok s₀ s) (h0 : P s₀)
    (hstep : ∀ s e s', P s → ok s e → step s e = some s' → P s') : P s := by
  induction h with
  | refl => exact h0
  | tail _ hs ih =>
    obtain ⟨e, hok, he⟩ := hs
    exact hstep _ e _ ih hok he

theorem mono {ok' : σ → ε → Prop} (h : Reach step ok s₀ s) (hok : ∀ s e, ok s e → ok' s e) :
    Reach step ok' s₀ s := by
  induction h with
  | refl => exact .refl
  | tail _ hs ih =>
    obtain ⟨e, h1, h2⟩ := hs
    exact ih.tail ⟨e, hok _ e h1, h2⟩

theorem of_run [∀ s e, Decidable (ok s e)] : ∀ {es : List ε} {s₀ : σ},
    runEvents (guarded step ok) s₀ es = some s → Reach step ok s₀ s
  | [], s₀, h => by
    cases h
    exact .refl
  | e :: es, s₀, h => by
    rw [runEvents, Option.bind_eq_some_iff] at h
    obtain ⟨s', h1, h2⟩ := h
    unfold guarded at h1
    split_ifs at h1 with hok
    exact .head ⟨e, hok, h1⟩ (of_run h2)

end Reach

/-- `P` holds in every state of the run of a list of events. -/
def Along (step : σ → ε → Option σ) (P : σ → Prop) (s : σ) : List ε → Prop
  | [] => P s
  | e :: es => P s ∧ ∀ s' ∈ step s e, Along step P s' es

namespace Along

variable {step : σ → ε → Option σ} {P Q : σ → Prop} {s s' : σ}

instance decidable [DecidablePred P] : ∀ (es : List ε) (s : σ), Decidable (Along step P s es)
  | [], s => inferInstanceAs (Decidable (P s))
  | e :: es, s =>
    have : ∀ s', Decidable (Along step P s' es) := decidable es
    inferInstanceAs (Decidable (P s ∧ ∀ s' ∈ step s e, Along step P s' es))

theorem head : ∀ {es : List ε}, Along step P s es → P s
  | [], h => h
  | _ :: _, h => h.1

theorem last : ∀ {es : List ε} {s : σ}, Along step P s es → runEvents step s es = some s' → P s'
  | [], _, h, hr => Option.some_inj.1 hr ▸ h
  | _ :: _, _, h, hr => by
    obtain ⟨s₁, hs, hr₁⟩ := Option.bind_eq_some_iff.1 hr
    exact (h.2 s₁ hs).last hr₁

theorem imp (hPQ : ∀ s, P s → Q s) : ∀ {es : List ε} {s : σ}, Along step P s es → Along step Q s es
  | [], _, h => hPQ _ h
  | _ :: _, _, h => ⟨hPQ _ h.1, fun s' hs => (h.2 s' hs).imp hPQ⟩

theorem and : ∀ {es : List ε} {s : σ}, Along step P s es → Along step Q s es →
    Along step (fun s => P s ∧ Q s) s es
  | [], _, h, h' => ⟨h, h'⟩
  | _ :: _, _, h, h' => ⟨⟨h.1, h'.1⟩, fun s' hs => (h.2 s' hs).and (h'.2 s' hs)⟩

theorem of_reach {ok : σ → ε → Prop} {s₀ : σ} : ∀ {es : List ε} {s : σ}, Reach step ok s₀ s →
    (∀ e ∈ es, ∀ s, ok s e) → Along step (Reach step ok s₀) s es
  | [], _, h, _ => h
  | e :: _, s, h, hok => ⟨h, fun _ hs => of_reach (h.tail ⟨e, hok e List.mem_cons_self s, hs⟩)
      fun e' he' => hok e' (List.mem_cons_of_mem e he')⟩

end Along

end RTLKIM
