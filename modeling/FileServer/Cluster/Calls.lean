import FileServer.Cluster.Contents

/-!
# Calls under way

Whoever waits for an answer has sent the request it waits for.
-/

namespace FileServer.Cluster

open FileServer.Metadata FileServer.Relational FileServer.Storage FileServer.Transition

namespace Deployment

variable {s : Site} {κ κ' : Deployment}

def awaited (κ : Deployment) : Verifier → Option Remote
  | .confirm _ => none
  | .worker w =>
      match κ.core.workers w with
      | .waiting job deletion =>
          some ⟨deletion.node, .remove job.task.chunk deletion.inst deletion.volume⟩
      | .putting job repair ticket =>
          some ⟨repair.target, .put job.task.chunk ticket (κ.buffers w)⟩
      | .checking job repair =>
          some ⟨repair.target, .stat job.task.chunk repair.length repair.sha⟩
      | _ => none
  | .reconcile =>
      match κ.core.maintenance with
      | .asking view check _ _ =>
          some ⟨view.node, .stat check.chunk check.length check.sha⟩
      | _ => none

/-- Every request that is awaited has been sent. -/
def Dialed (κ : Deployment) : Prop :=
  ∀ v remote, κ.awaited v = some remote → ∃ answer, κ.calls v = some ⟨remote, answer⟩

theorem request_sends {core : State} {action : Action} {v : Verifier} {remote : Remote}
    (sent : κ.request core action = some (v, remote)) :
    (∃ i, v = .confirm i) ∨ (v = .reconcile ∧ action = .checkAsk) ∨ ∃ w, v = .worker w ∧
      (action = .sendRemove w ∨ action = .sendStat w ∨ ∃ c, action = .sendPut w c) := by
  cases action with
  | sendRemove w =>
      simp only [request] at sent
      split at sent <;> cases sent
      exact .inr (.inr ⟨w, rfl, .inl rfl⟩)
  | sendPut w c =>
      simp only [request] at sent
      split at sent <;> cases sent
      exact .inr (.inr ⟨w, rfl, .inr (.inr ⟨c, rfl⟩)⟩)
  | sendStat w =>
      simp only [request] at sent
      split at sent <;> cases sent
      exact .inr (.inr ⟨w, rfl, .inr (.inl rfl)⟩)
  | confirmAsk i =>
      simp only [request, Option.bind_eq_some_iff, Option.map_eq_some_iff] at sent
      obtain ⟨_, _, _, _, same⟩ := sent
      cases same
      exact .inl ⟨i, rfl⟩
  | checkAsk =>
      simp only [request] at sent
      split at sent <;> cases sent
      exact .inr (.inl ⟨rfl, rfl⟩)
  | _ => cases sent

/-- The action neither sends for a task thread nor fills its buffer. -/
def Quiet (action : Action) : Prop :=
  ∀ w, action ≠ .sendRemove w ∧ action ≠ .sendStat w ∧ (∀ c, action ≠ .sendPut w c) ∧
    action ≠ .fetch w true

theorem Quiet.request {action : Action} (quiet : Quiet action) (core : State) (w : Nat)
    (remote : Remote) : κ.request core action ≠ some (.worker w, remote) := by
  intro sent
  rcases request_sends sent with ⟨i, same⟩ | ⟨same, _⟩ | ⟨v, same, sends⟩
  · cases same
  · cases same
  · obtain ⟨remove, stat, put, _⟩ := quiet v
    rcases sends with rfl | rfl | ⟨c, rfl⟩
    · exact remove rfl
    · exact stat rfl
    · exact put c rfl

theorem Quiet.filled {action : Action} (quiet : Quiet action) (s : Site) (κ : Deployment) :
    κ.filled s action = κ.buffers := by
  unfold Deployment.filled
  split
  · next w => exact absurd rfl (quiet w).2.2.2
  · rfl

theorem follow_buffers (κ : Deployment) (s : Site) (action : Action) (core : State) :
    (κ.follow s action core).buffers = κ.filled s action := by
  unfold follow
  rw [dial_frame]

theorem confirm_quiet {σ : State} {i : Nat} {action : Action} {op : Option Confirming}
    {db : Database} (move : ConfirmMove σ i action op db) :
    Quiet action ∧ action ≠ .checkAsk := by
  cases move <;> exact ⟨fun v => by simp, by simp⟩

theorem maintenance_quiet {σ : State} {action : Action} {before after : Maintenance}
    {db : Database} (move : MaintenanceMove σ action before after db) : Quiet action := by
  cases move <;> exact fun v => by simp

/-- A task thread sends for itself and fills its own buffer. -/
theorem worker_sends {σ : State} {w v : Nat} {action : Action} {before after : Worker}
    {db : Database} (move : WorkerMove σ w action before after db)
    (sends : action = .sendRemove v ∨ action = .sendStat v ∨ (∃ c, action = .sendPut v c) ∨
      action = .fetch v true) : v = w := by
  rcases sends with rfl | rfl | ⟨c, rfl⟩ | rfl <;> cases move <;> rfl

theorem worker_silent {σ : State} {w : Nat} {action : Action} {before after : Worker}
    {db : Database} (move : WorkerMove σ w action before after db) : action ≠ .checkAsk := by
  cases move <;> simp

theorem Dialed.reconcile (dialed : Dialed κ) {action : Action} {core : State}
    (happened : Happens κ.core action core) {remote : Remote}
    (awaits : (κ.follow s action core).awaited .reconcile = some remote) :
    ∃ answer, (κ.follow s action core).calls .reconcile = some ⟨remote, answer⟩ := by
  obtain ⟨same, _⟩ := κ.follow_frame s action core
  have earlier : core.maintenance = κ.core.maintenance → action ≠ .checkAsk →
      ∃ answer, (κ.follow s action core).calls .reconcile = some ⟨remote, answer⟩ := by
    intro kept silent
    have before : κ.awaited .reconcile = some remote := by
      simpa only [awaited, same, kept] using awaits
    obtain ⟨answer, call⟩ := dialed _ _ before
    refine ⟨answer, ?_⟩
    rw [follow_calls]
    split
    · next w remote' sent =>
        rw [if_neg, call]
        rintro rfl
        rcases request_sends sent with ⟨_, wrong⟩ | ⟨_, asks⟩ | ⟨_, wrong, _⟩
        · cases wrong
        · exact silent asks
        · cases wrong
    · exact call
  cases happened with
  | maintenance action maintenance db move =>
      simp only [awaited, same] at awaits
      generalize κ.core.maintenance = old at move earlier
      cases move with
      | ask view check left views =>
          refine ⟨none, ?_⟩
          rw [follow_calls]
          simpa [request] using awaits
      | _ => cases awaits
  | confirm action i op db move => exact earlier rfl (confirm_quiet move).2
  | worker action w worker db move => exact earlier rfl (worker_silent move)
  | _ => exact earlier rfl (by simp)

theorem Dialed.worker (dialed : Dialed κ) {action : Action} {core : State}
    (happened : Happens κ.core action core) {w : Nat} {remote : Remote}
    (awaits : (κ.follow s action core).awaited (.worker w) = some remote) :
    ∃ answer, (κ.follow s action core).calls (.worker w) = some ⟨remote, answer⟩ := by
  obtain ⟨same, _⟩ := κ.follow_frame s action core
  have earlier : core.workers w = κ.core.workers w → κ.filled s action w = κ.buffers w →
      (∀ remote', κ.request core action ≠ some (.worker w, remote')) →
      ∃ answer, (κ.follow s action core).calls (.worker w) = some ⟨remote, answer⟩ := by
    intro kept filled silent
    have before : κ.awaited (.worker w) = some remote := by
      simpa only [awaited, same, follow_buffers, kept, filled] using awaits
    obtain ⟨answer, call⟩ := dialed _ _ before
    refine ⟨answer, ?_⟩
    rw [follow_calls]
    split
    · next v remote' sent =>
        rw [if_neg, call]
        rintro rfl
        exact silent remote' sent
    · exact call
  have quietly : Quiet action → core.workers w = κ.core.workers w →
      ∃ answer, (κ.follow s action core).calls (.worker w) = some ⟨remote, answer⟩ :=
    fun quiet kept => earlier kept (by rw [quiet.filled]) (quiet.request core w)
  cases happened with
  | maintenance action maintenance db move => exact quietly (maintenance_quiet move) rfl
  | confirm action i op db move => exact quietly (confirm_quiet move).1 rfl
  | worker action v worker db move =>
      by_cases here : w = v
      · subst here
        simp only [awaited, same, follow_buffers, Function.update_self] at awaits
        generalize κ.core.workers w = old at move
        cases move with
        | sendRemove | sendPut | sendStat =>
            refine ⟨none, ?_⟩
            rw [follow_calls]
            simpa [request, filled] using awaits
        | _ => cases awaits
      · refine earlier (Function.update_of_ne here _ _) ?_ ?_
        · unfold Deployment.filled
          split
          · obtain rfl := worker_sends move (.inr (.inr (.inr rfl)))
            exact Function.update_of_ne here _ _
          · rfl
        · intro remote' sent
          rcases request_sends sent with ⟨_, wrong⟩ | ⟨wrong, _⟩ | ⟨v', same', sends⟩
          · cases wrong
          · cases wrong
          · cases same'
            exact here (worker_sends move (sends.imp_right (.imp_right .inl)))
  | _ => exact quietly (fun v => by simp) rfl

theorem Dialed.step (dialed : Dialed κ) {move : Move} (taken : Takes s κ move κ') : Dialed κ' := by
  cases taken with
  | metadata action core allowed stepped =>
      intro v remote awaits
      cases v with
      | confirm i => cases awaits
      | worker w => exact dialed.worker (happens stepped) awaits
      | reconcile => exact dialed.reconcile (happens stepped) awaits
  | deliver v sent out =>
      intro v' remote awaits
      rw [execute_frame] at awaits
      obtain ⟨answer, call⟩ := dialed v' remote awaits
      by_cases here : v' = v
      · subst here
        obtain ⟨rfl, _⟩ := Sent.mk.inj (Option.some.inj (call.symm.trans out))
        exact ⟨_, Function.update_self _ _ _⟩
      · exact ⟨answer, (Function.update_of_ne here _ _).trans call⟩
  | drift k sent out =>
      rw [execute_frame]
      exact dialed
  | send | start | stop | report => exact dialed

end Deployment

/-- In every reachable state the awaited requests have been sent. -/
theorem reachable_dialed {s : Site} {κ : Deployment} (reached : Reachable (cluster s) κ) :
    κ.Dialed := by
  refine reached.invariant Deployment.Dialed ?_ fun _ _ _ dialed stepped =>
    dialed.step (takes stepped)
  intro v remote awaits
  cases v <;> cases awaits

end FileServer.Cluster
