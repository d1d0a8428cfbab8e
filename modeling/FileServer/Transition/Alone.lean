import FileServer.Transition.Interleaving

/-!
# Loops and solitary jobs

A loop keeps its contract when each round does, whatever happens between its
calls.  A job that nothing disturbs runs to its end.
-/

namespace FileServer.Transition

variable {Request Order Call : Type} {Answer : Call → Type} {Outcome World Failure Reply : Type}
  {α β : Type} {deployment : Deployment Request Order Call Answer Outcome World Failure Reply}

namespace Discipline

variable {discipline : Discipline Request Call Answer World Failure Reply} {request : Request}
  {program : Program Call Answer Failure α}
  {post post' : Except Failure α → Scene Call Answer World → Prop} {scene : Scene Call Answer World}

theorem Assured.mono (assured : discipline.Assured deployment request program post scene)
    (weaker : ∀ result scene, post result scene → post' result scene) :
    discipline.Assured deployment request program post' scene := by
  induction program generalizing scene with
  | done result => exact weaker result scene assured
  | call call next inductionHypothesis =>
      intro later follows valid
      obtain ⟨allowed, continued⟩ := assured later follows valid
      exact ⟨allowed, fun outcome => inductionHypothesis _ (continued outcome)⟩

/-- What holds before each round of a loop and after it. -/
theorem Assured.each {body : β → Program Call Answer Failure Unit} {values : List β}
    {post : Except Failure Unit → Scene Call Answer World → Prop}
    (invariant : List β → Scene Call Answer World → Prop)
    (step : ∀ value rest scene, invariant (value :: rest) scene →
      discipline.Assured deployment request (body value)
        (Setting.onResult (fun _ => invariant rest) fun failure => post (.error failure)) scene)
    (finish : ∀ scene, invariant [] scene → post (.ok ()) scene)
    (initially : invariant values scene) :
    discipline.Assured deployment request (Program.each body values) post scene := by
  induction values generalizing scene with
  | nil => exact finish scene initially
  | cons value rest inductionHypothesis =>
      refine assured_bind.mpr ((step value rest scene initially).mono ?_)
      intro result scene held
      cases result with
      | error failure => exact held
      | ok _ => exact inductionHypothesis held

end Discipline

variable (deployment) in
theorem Deployment.leads_alone (outcome : Outcome) {request : Request} {index : Nat}
    {program : Program Call Answer Failure Reply}
    {state : Interleaved Request Order Call Answer World Failure Reply}
    (found : state.jobs[index]? = some ⟨request, program⟩) :
    ∃ last, deployment.system.Leads state last ∧
      last.jobs[index]? =
        some ⟨request, .done (program.perform (deployment.serve outcome) state.scene.world).1⟩ ∧
      last.scene.world = (program.perform (deployment.serve outcome) state.scene.world).2 := by
  induction program generalizing state with
  | done result => exact ⟨state, ⟨[], rfl⟩, found, rfl⟩
  | call call next inductionHypothesis =>
      obtain ⟨after, stepped, scene, remaining⟩ : ∃ after,
          deployment.step state (.advance index outcome) = some after ∧
          after.scene = (deployment.perform outcome call state.scene).2 ∧
          after.jobs[index]? = some ⟨request, next (deployment.perform outcome call state.scene).1⟩ :=
        ⟨_, step_advance_iff.mpr ⟨request, call, next, found, rfl⟩, rfl,
          List.getElem?_set_self (List.getElem?_eq_some_iff.mp found).1⟩
      obtain ⟨last, leads, finished, world⟩ := inductionHypothesis _ remaining
      rw [scene] at finished world
      have first : deployment.system.Leads state after :=
        ⟨[.advance index outcome], by simp only [System.execute, system, stepped, Option.bind_some]⟩
      exact ⟨last, first.trans leads, finished, world⟩

end FileServer.Transition
