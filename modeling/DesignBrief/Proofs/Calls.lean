import Mathlib.Data.List.Basic

/-!
Lists of calls to something that has a state, made one after the other: what one call preserves,
the whole run preserves, and two things that answer every call alike answer every run alike.
-/

namespace DesignBrief.Calls

variable {σ τ α β : Type}

/-- The answers to a list of calls and the state that they leave behind. -/
def run (f : α → StateM σ β) (calls : List α) : StateM σ (List β) := calls.mapM f

@[simp] theorem run_nil (f : α → StateM σ β) (s : σ) : run f [] s = ([], s) := rfl

theorem run_cons (f : α → StateM σ β) (a : α) (calls : List α) (s : σ) :
    run f (a :: calls) s =
      ((f a s).1 :: (run f calls (f a s).2).1, (run f calls (f a s).2).2) := by
  rw [run, List.mapM_cons]
  rfl

theorem run_append (f : α → StateM σ β) (first second : List α) (s : σ) :
    run f (first ++ second) s =
      ((run f first s).1 ++ (run f second (run f first s).2).1,
        (run f second (run f first s).2).2) := by
  induction first generalizing s with
  | nil => rfl
  | cons a first ih => simp only [List.cons_append, run_cons, ih]

theorem length_run (f : α → StateM σ β) (calls : List α) (s : σ) :
    (run f calls s).1.length = calls.length := by
  induction calls generalizing s with
  | nil => rfl
  | cons a calls ih => simp [run_cons, ih]

theorem run_preserves {f : α → StateM σ β} {P : σ → Prop}
    (step : ∀ a s, P s → P (f a s).2) (calls : List α) (s : σ) (hs : P s) :
    P (run f calls s).2 := by
  induction calls generalizing s with
  | nil => exact hs
  | cons a calls ih =>
    rw [run_cons]
    exact ih (f a s).2 (step a s hs)

/-- If a view of the state takes every call of `f` to the same call of `g`, it takes every run of
`f` to the same run of `g`. -/
theorem run_simulates {f : α → StateM σ β} {g : α → StateM τ β} {P : σ → Prop} (view : σ → τ)
    (keeps : ∀ a s, P s → P (f a s).2)
    (agrees : ∀ a s, P s → g a (view s) = ((f a s).1, view (f a s).2))
    (calls : List α) (s : σ) (hs : P s) :
    run g calls (view s) = ((run f calls s).1, view (run f calls s).2) := by
  induction calls generalizing s with
  | nil => rfl
  | cons a calls ih =>
    have hhead := agrees a s hs
    have htail := ih (f a s).2 (keeps a s hs)
    simp only [run_cons, hhead, htail]

end DesignBrief.Calls
