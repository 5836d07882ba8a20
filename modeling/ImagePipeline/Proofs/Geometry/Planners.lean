import ImagePipeline.Proofs.Geometry.Scaling

/-!
# What the planners have in common

Every mode but `pad` plans a single step, which the limit suppresses unless the mode has a reason
for it (`ResizeOptions.unlessLimited`). There is one equation for each planner; what holds of every
suppressed plan, and of every plan that is not, is said once. `Shape.planned` is the shape that a
whole plan leaves.
-/

namespace ImagePipeline

/-- The shape that is left when a plan has been carried out with exact factors. -/
def Shape.planned (shape : Shape) (plan : List GeometryStep) : Shape :=
  plan.foldl (fun shape step => step.reshape shape) shape

namespace ResizeOptions

/-- The plan of one step that the limit suppresses unless there is a reason for it. -/
def unlessLimited (o : ResizeOptions) (reason : Bool) (step : GeometryStep) : List GeometryStep :=
  if reason || !o.limit then [step] else []

variable {o : ResizeOptions} {source : Shape}

section

variable {reason : Bool} {step : GeometryStep}

theorem unlessLimited_eq_nil_iff :
    o.unlessLimited reason step = [] ↔ o.limit = true ∧ reason = false := by
  unfold unlessLimited
  cases reason <;> cases o.limit <;> simp

theorem unlessLimited_idle_iff (hlimit : o.limit = true) :
    o.unlessLimited reason step = [] ↔ reason = false := by
  rw [unlessLimited_eq_nil_iff, hlimit, eq_self, true_and]

theorem mem_unlessLimited {step' : GeometryStep} (h : step' ∈ o.unlessLimited reason step) :
    step' = step ∧ (o.limit = true → reason = true) := by
  unfold unlessLimited at h
  split at h
  · rename_i hplanned
    refine ⟨List.mem_singleton.mp h, ?_⟩
    intro hlimit
    rwa [hlimit, Bool.not_true, Bool.or_false] at hplanned
  · cases h

theorem forall_mem_unlessLimited {P : GeometryStep → Prop} (h : P step) :
    ∀ step' ∈ o.unlessLimited reason step, P step' := by
  intro step' hstep
  rwa [(mem_unlessLimited hstep).1]

theorem unlessLimited_of_ne (h : o.unlessLimited reason step ≠ []) :
    o.unlessLimited reason step = [step] := by
  unfold unlessLimited at h ⊢
  split at h
  · rw [if_pos ‹_›]
  · exact absurd rfl h

theorem planned_unlessLimited (h : o.unlessLimited reason step ≠ []) (shape : Shape) :
    shape.planned (o.unlessLimited reason step) = step.reshape shape := by
  rw [unlessLimited_of_ne h]
  rfl

theorem map_unlessLimited (f : GeometryStep → GeometryStep) :
    (o.unlessLimited reason step).map f = o.unlessLimited reason (f step) := by
  unfold unlessLimited
  split <;> rfl

end

/-! ### The planners -/

theorem planFill_eq :
    let b := (o.box source).coalesced
    o.planFill source = o.unlessLimited (b.shrinksAny source) (.thumbnail b.w b.h .centre .both) :=
  rfl

theorem sides_or_side (o : ResizeOptions) (source : Shape) :
    ((o.box source).w ≠ 0 ∧ (o.box source).h ≠ 0) ∨
      (o.box source).w = 0 ∨ (o.box source).h = 0 := by
  rw [← not_or]
  exact (em _).symm

theorem planFixed_of_sides (h : (o.box source).w ≠ 0 ∧ (o.box source).h ≠ 0) :
    let b := o.box source
    o.planFixed source
      = o.unlessLimited (b.shrinksBoth source) (.thumbnail b.w b.h .all .force) := by
  have hw := decide_eq_true (UInt32.pos_iff_ne_zero.mpr h.1)
  have hh := decide_eq_true (UInt32.pos_iff_ne_zero.mpr h.2)
  simp only [planFixed, gt_iff_lt, hw, hh, Bool.and_self, if_true]
  rfl

theorem planFixed_of_side (h : (o.box source).w = 0 ∨ (o.box source).h = 0) :
    let b := o.box source
    let factors := coalesce (b.wscale source) (b.hscale source)
    let scale := Scale.smaller factors.1 factors.2
    o.planFixed source
      = o.unlessLimited (b.shrinksAny source) (.resizeAxes scale scale .linear) := by
  have hunknown : (decide (0 < (o.box source).w) && decide (0 < (o.box source).h)) = false := by
    simp only [UInt32.pos_iff_ne_zero, Bool.and_eq_false_iff, decide_eq_false_iff_not, not_not]
    exact h
  simp only [planFixed, gt_iff_lt, hunknown, Bool.false_eq_true, if_false]
  rfl

theorem planMfit_eq (hedges : o.hasEdges = true) :
    let b := o.completedBox source
    o.planMfit source = o.unlessLimited (b.shrinksBoth source)
      (.resize (Scale.larger (b.wscale source) (b.hscale source)) .linear) := by
  intro b
  have hknown : (decide (0 < b.w) || decide (0 < b.h)) = true := by
    simp only [UInt32.pos_iff_ne_zero, Bool.or_eq_true, decide_eq_true_eq]
    exact known_completedBox hedges source
  change (if (decide (0 < b.w) || decide (0 < b.h)) && b.shrinksBoth source || !o.limit
    then _ else _) = _
  rw [hknown, Bool.true_and]
  rfl

theorem planDefault_eq :
    let b := o.box source
    let filled := b.filledFrom source
    o.planDefault source = o.unlessLimited (b.shrinksAny source)
      (.resize (Scale.smaller (filled.wscale source) (filled.hscale source)) .linear) :=
  rfl

theorem planMode_ne_nil (hlimit : o.limit = false) (source : Shape) : o.planMode source ≠ [] := by
  have hstep {reason : Bool} {step : GeometryStep} : o.unlessLimited reason step ≠ [] := by
    intro hnil
    exact absurd (unlessLimited_eq_nil_iff.mp hnil).1 (ne_true_of_eq_false hlimit)
  unfold planMode
  cases o.mode with
  | pad => exact List.cons_ne_nil _ _
  | fill => exact hstep
  | mfit => exact hstep
  | default => exact hstep
  | fixed =>
    rcases o.sides_or_side source with hsides | hside
    · exact (planFixed_of_sides hsides).trans_ne hstep
    · exact (planFixed_of_side hside).trans_ne hstep

theorem plan_of_edges (hedges : o.hasEdges = true) (hsource : source.Pixelled) :
    o.plan source = .ok (o.planMode source) := by
  unfold plan
  rw [hsource.isEmpty_eq, hedges]
  rfl

end ResizeOptions

end ImagePipeline
