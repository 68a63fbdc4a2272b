import Mathlib.Logic.Basic

/-!
# Two computations side by side

`Related` relates two computations with states and errors: from related states they end in the same
way, with related values or errors and in related states. What it means for two states and two values to
correspond depends on a world that grows along the computations. Some errors of the first one may be
excused, and then nothing is said of the second one; a run that has used up its fuel is excused where
the other one has more. It is proved along the programs: `Related.bind` for their steps, and one rule
for each operation of the state.
-/

set_option autoImplicit false

namespace ClassScript

variable {World ε δ σ τ α β γ ζ : Type}

/-- Which states and errors of two computations correspond, and which errors of the first one are
excused. A later world knows of everything that corresponds in an earlier one. -/
structure Pairing (World ε δ σ τ : Type) where
  le : World → World → Prop
  refl : ∀ W, le W W
  trans : ∀ {A B C}, le A B → le B C → le A C
  state : World → σ → τ → Prop
  error : ε → δ → Prop
  excused : ε → Prop

/-- The results correspond in a later world. -/
inductive SameEnd (P : Pairing World ε δ σ τ) (R : World → α → β → Prop) (W : World) :
    EStateM.Result ε σ α → EStateM.Result δ τ β → Prop
  | ok {W' : World} {a : α} {b : β} {s : σ} {t : τ} :
    P.le W W' → R W' a b → P.state W' s t → SameEnd P R W (.ok a s) (.ok b t)
  | error {W' : World} {e : ε} {d : δ} {s : σ} {t : τ} :
    P.le W W' → P.error e d → P.state W' s t → SameEnd P R W (.error e s) (.error d t)
  | excused {e : ε} {s : σ} {r : EStateM.Result δ τ β} :
    P.excused e → SameEnd P R W (.error e s) r

/-- The computations end in the same way from all states that correspond. -/
def Related (P : Pairing World ε δ σ τ) (R : World → α → β → Prop) (W : World)
    (x : EStateM ε σ α) (y : EStateM δ τ β) : Prop :=
  ∀ s t, P.state W s t → SameEnd P R W (x s) (y t)

variable {P : Pairing World ε δ σ τ} {R : World → α → β → Prop} {R' : World → γ → ζ → Prop}
  {W W' : World} {x : EStateM ε σ α} {y : EStateM δ τ β}

theorem SameEnd.earlier {r : EStateM.Result ε σ α} {u : EStateM.Result δ τ β}
    (h : SameEnd P R W' r u) (hle : P.le W W') : SameEnd P R W r u := by
  cases h with
  | ok hle' hr hs => exact .ok (P.trans hle hle') hr hs
  | error hle' he hs => exact .error (P.trans hle hle') he hs
  | excused he => exact .excused he

theorem SameEnd.value {a : α} {b : β} {s : σ} {t : τ} (hr : R W a b) (hs : P.state W s t) :
    SameEnd P R W (.ok a s) (.ok b t) :=
  .ok (P.refl W) hr hs

theorem SameEnd.failure {e : ε} {d : δ} {s : σ} {t : τ} (he : P.error e d) (hs : P.state W s t) :
    SameEnd P R W (.error e s) (.error d t) :=
  .error (P.refl W) he hs

namespace Related

theorem pure {a : α} {b : β} (h : R W a b) :
    Related P R W (Pure.pure a : EStateM ε σ α) (Pure.pure b : EStateM δ τ β) :=
  fun _ _ hs => .value h hs

theorem throw {e : ε} {d : δ} (h : P.error e d) :
    Related P R W (throwThe ε e : EStateM ε σ α) (throwThe δ d : EStateM δ τ β) :=
  fun _ _ hs => .failure h hs

theorem bind {f : α → EStateM ε σ γ} {g : β → EStateM δ τ ζ} (hx : Related P R W x y)
    (hf : ∀ W' a b, P.le W W' → R W' a b → Related P R' W' (f a) (g b)) :
    Related P R' W (x >>= f) (y >>= g) := by
  intro s t hs
  have h := hx s t hs
  show SameEnd P R' W (EStateM.bind x f s) (EStateM.bind y g t)
  unfold EStateM.bind
  generalize x s = r at h
  generalize y t = u at h
  cases h with
  | ok hle hr hs => exact (hf _ _ _ hle hr _ _ hs).earlier hle
  | error hle he hs => exact .error hle he hs
  | excused he => exact .excused he

/-- Both go on from what they see of their states. -/
theorem get {f : σ → EStateM ε σ α} {g : τ → EStateM δ τ β}
    (h : ∀ s t, P.state W s t → SameEnd P R W (f s s) (g t t)) :
    Related P R W (MonadState.get >>= f) (MonadState.get >>= g) :=
  fun s t hs => h s t hs

/-- Both change their states. -/
theorem change {f : σ → α × σ} {g : τ → β × τ}
    (h : ∀ s t, P.state W s t → R W (f s).1 (g t).1 ∧ P.state W (f s).2 (g t).2) :
    Related P R W (modifyGet f : EStateM ε σ α) (modifyGet g : EStateM δ τ β) :=
  fun s t hs => .value (h s t hs).1 (h s t hs).2

end Related

end ClassScript
