import HouseRules.Proofs.Environment.Record

/-! Keeping a record changes nothing: each step of an environment, and each batch in it, comes to
the same result and the same world with a record and without one. -/

namespace HouseRules

/-! ### Steps -/

namespace Action

variable {α β : Type}

/-- Two steps, one of them with a record, come to the same result and the same world. -/
def Tracks (a : Action World α) (b : Action Recorded α) : Prop :=
  ∀ r : Recorded, a.run r.world = ((b.run r).1, (b.run r).2.world)

namespace Tracks

theorem pure (x : α) : Tracks (Pure.pure x) (Pure.pure x) := fun _ => rfl

theorem throw (error : Error) :
    Tracks (α := α) (MonadExcept.throw error) (MonadExcept.throw error) := fun _ => rfl

theorem lift (x : Except Error α) : Tracks (liftM x) (liftM x) := fun _ => rfl

theorem bind {a : Action World α} {b : Action Recorded α} {f : α → Action World β}
    {g : α → Action Recorded β} (h : Tracks a b) (h' : ∀ x, Tracks (f x) (g x)) :
    Tracks (a >>= f) (b >>= g) := by
  intro r
  have first := h r
  rcases run : b.run r with ⟨error | x, t⟩
  · rw [run] at first
    rw [run_bind_error first, run_bind_error run]
  · rw [run] at first
    rw [run_bind_ok first, run_bind_ok run]
    exact h' x t

/-- What is read of the state is its world. -/
theorem get {f : World → Action World β} {g : Recorded → Action Recorded β}
    (h : ∀ r : Recorded, Tracks (f r.world) (g r)) :
    Tracks (MonadState.get >>= f) (MonadState.get >>= g) := by
  intro r
  rw [run_bind_ok (run_get r.world), run_bind_ok (run_get r)]
  exact h r r

theorem tryCatch {a : Action World α} {b : Action Recorded α} {f : Error → Action World α}
    {g : Error → Action Recorded α} (h : Tracks a b) (h' : ∀ e, Tracks (f e) (g e)) :
    Tracks (MonadExcept.tryCatch a f) (MonadExcept.tryCatch b g) := by
  intro r
  have first := h r
  rcases run : b.run r with ⟨error | x, t⟩
  · rw [run] at first
    exact (run_tryCatch_error first f).trans
      ((h' error t).trans (by rw [run_tryCatch_error run g]))
  · rw [run] at first
    exact (run_tryCatch_ok first f).trans (by rw [run_tryCatch_ok run g])

theorem forM {γ : Type} {f : γ → Action World Unit} {g : γ → Action Recorded Unit}
    (h : ∀ x, Tracks (f x) (g x)) (xs : List γ) : Tracks (xs.forM f) (xs.forM g) := by
  induction xs with
  | nil => exact pure ()
  | cons x xs ih => exact bind (h x) fun _ => ih

end Tracks

end Action

open HouseRules.Action (Tracks)

/-! ### Steps of an environment -/

namespace Environment

variable (e : Environment)

theorem tracks_start (c : Command) : Tracks (e.start c) (e.recorded.start c) := fun _ => rfl

theorem tracks_runQuietly (name : String) (c : Command) :
    Tracks (e.runQuietly name c) (e.recorded.runQuietly name c) := by
  refine (e.tracks_start c).bind fun result => ?_
  split
  · exact .throw _
  · exact .throw _
  · split
    · exact .throw _
    · exact .pure _

theorem discarded_world (w : World) :
    e.discarded w =
      if w.tree.exists? e.layout.environmentDir then
        match w.tree.removeDirectory? e.layout.environmentDir with
        | some tree => { w with tree }
        | none => w
      else w := rfl

theorem tracks_discard : Tracks e.discard e.recorded.discard := by
  intro r
  change ((.ok () : Except Error Unit), e.discarded r.world) =
    (.ok (), (e.recorded.discarded r).world)
  rw [discarded_world, discarded_recorded, show e.recorded.layout = e.layout from rfl]
  by_cases there : r.world.tree.exists? e.layout.environmentDir = true
  · rw [if_pos there, if_pos there]
    cases r.world.tree.removeDirectory? e.layout.environmentDir <;> rfl
  · rw [if_neg there, if_neg there]

variable {e} in
theorem tracks_orDiscard {a : Action World Unit} {b : Action Recorded Unit} (h : Tracks a b) :
    Tracks (e.orDiscard a) (e.recorded.orDiscard b) :=
  h.tryCatch fun _ => e.tracks_discard.bind fun _ => .throw _

theorem tracks_ensure : Tracks e.ensure e.recorded.ensure := by
  refine .get fun r => ?_
  change Tracks (if e.isProvisioned r.world then _ else _)
    (if e.isProvisioned r.world then _ else _)
  split
  · exact .pure false
  · exact (tracks_orDiscard (e.tracks_runQuietly _ _)).bind fun _ => .pure true

theorem tracks_installRequirements (source : String) :
    Tracks (e.installRequirements source) (e.recorded.installRequirements source) := by
  refine .get fun r => ?_
  change Tracks (if r.world.tree.isFile (e.layout.requirements source) then _ else _)
    (if r.world.tree.isFile (e.layout.requirements source) then _ else _)
  split
  · exact e.tracks_runQuietly _ _
  · exact .pure ()

theorem tracks_provision (sources : List String) :
    Tracks (e.provision sources) (e.recorded.provision sources) := by
  refine e.tracks_ensure.bind fun created => ?_
  split
  · exact tracks_orDiscard (.forM e.tracks_installRequirements sources)
  · exact .pure ()

theorem tracks_invoke (i : Invocation) : Tracks (e.invoke i) (e.recorded.invoke i) := by
  refine (e.tracks_start (e.ruleCommand i)).bind fun result => ?_
  split
  · exact .throw _
  · exact .throw _
  · split
    · exact .throw _
    · exact .pure ()

/-! ### Batches -/

theorem tracks_runRule (context : ProjectContext) (r : Rule) :
    Tracks (Batch.runRule e.runtime context r) (Batch.runRule e.recorded.runtime context r) := by
  refine (Tracks.lift _).bind fun arguments => (Tracks.lift _).bind fun i => .get fun before => ?_
  exact (e.tracks_invoke i).bind fun _ => .get fun after => .pure _

theorem tracks_runAll (context : ProjectContext) (rules : List Rule) :
    Tracks (Batch.runAll e.runtime context rules)
      (Batch.runAll e.recorded.runtime context rules) := by
  induction rules with
  | nil => exact .pure _
  | cons r rules ih =>
    rw [Batch.runAll, Batch.runAll]
    split
    · exact ih.bind fun _ => .pure _
    · exact (e.tracks_runRule context r).bind fun _ => ih.bind fun _ => .pure _

theorem tracks_apply (context : ProjectContext) (sources : List String) (rules : List Rule) :
    Tracks (Batch.apply e.runtime context sources rules)
      (Batch.apply e.recorded.runtime context sources rules) :=
  (e.tracks_provision sources).bind fun _ => e.tracks_runAll context rules

end Environment

end HouseRules
