import FileServer.Users.Requests

/-!
# Registrations

Of the registrations of one name a single one succeeds, whatever their order,
and its account is there from then on with the name and the password it gave.
-/

namespace FileServer.Users

open FileServer.Relational FileServer.Transition

variable {collate : Bytes → Bytes} {world world' : World} {username password token : Bytes}

theorem inserted_free {user : User} {outcome : Outcome}
    (inserted : ¬(serve collate outcome (.insert user) world).1 ≤ 0) :
    (∀ id row, world.user.get? id = some row → collate row.username ≠ collate user.username) ∧
      ∃ id, (serve collate outcome (.insert user) world).2.user.get? id = some user := by
  simp only [serve] at inserted ⊢
  split at inserted
  · next id after created =>
      obtain ⟨free, rfl, fresh, rfl⟩ := World.insertRow_eq_some.mp created
      refine ⟨free, world.lastInsertId + 1 + outcome.skipped, ?_⟩
      split at inserted
      · next succeeds => rw [if_pos succeeds, Table.get?_insertNew, if_pos rfl]
      · exact absurd (show (-1 : Int) ≤ 0 by decide) inserted
  · refine absurd (show (if outcome.succeeds then (-2 : Int) else -1) ≤ 0 from ?_) inserted
    split <;> decide

/-- A registration that returns a token has found the name free and has made the
account. -/
theorem AtOnce.registered
    (once : AtOnce collate (.register username password) (.token token) world world')
    (issued : token ≠ []) :
    (∀ id user, world.user.get? id = some user → collate user.username ≠ collate username) ∧
      ∃ id, world'.user.get? id = some ⟨username, password, token⟩ := by
  have refused : ∀ {outcomes : List Outcome} {last : World}, (service collate).run outcomes
      (.done (.ok (.token [])) : Handler Reply) last ≠ (.ok (.token token), world') := by
    intro outcomes last ended
    rw [run_done] at ended
    cases ended
    exact issued rfl
  obtain ⟨outcomes, ran⟩ := once
  rw [handler_register] at ran
  split at ran
  · exact absurd ran refused
  split at ran
  · exact absurd ran refused
  rw [run_next] at ran
  cases found : (serve collate (outcomes.headD default) (.findByUsername username) world).1 with
  | some row =>
      rw [found] at ran
      exact absurd ran refused
  | none =>
      rw [found, show (serve collate (outcomes.headD default) (.findByUsername username) world).2 =
        world from rfl] at ran
      simp only [Option.elim] at ran
      rw [run_next, respond_enroll, run_next, run_done] at ran
      obtain ⟨answered, rfl⟩ := Prod.mk.inj ran
      have answered := Reply.token.inj (Except.ok.inj answered)
      split at answered
      · exact absurd answered.symm issued
      · next made =>
          subst answered
          exact inserted_free made

theorem registered_account {history : List Happening} {state : Service}
    (run : Run (service collate).system history state) {index : Nat}
    (ended : state.jobs[index]? = some ⟨.register username password, .done (.ok (.token token))⟩)
    (issued : token ≠ []) :
    ∃ later event earlier, history = later ++ event :: earlier ∧ Concerns index event ∧
      (∀ id user, event.before.scene.world.user.get? id = some user →
        collate user.username ≠ collate username) ∧
      ∃ id, event.after.scene.world.user.get? id = some ⟨username, password, token⟩ := by
  obtain ⟨later, event, earlier, split, concerns, once, _⟩ := (sound_of_run run).tookEffect ended
  exact ⟨later, event, earlier, split, concerns, once.registered issued⟩

/-- A successful registration keeps its account, and no other one of its name
succeeds. -/
theorem registrations_exclusive {history : List Happening} {state : Service}
    (run : Run (service collate).system history state) {index : Nat}
    (ended : state.jobs[index]? = some ⟨.register username password, .done (.ok (.token token))⟩)
    (issued : token ≠ []) :
    (∃ id user, state.scene.world.user.get? id = some user ∧ user.username = username ∧
      user.password = password) ∧
    ∀ (index' : Nat) (username' password' token' : Bytes), state.jobs[index']? =
        some ⟨.register username' password', .done (.ok (.token token'))⟩ →
      token' ≠ [] → collate username' = collate username → index' = index := by
  obtain ⟨later, event, earlier, split, concerns, free, id, stored⟩ :=
    registered_account run ended issued
  have here : event ∈ history := by simp [split]
  refine ⟨?_, fun index' username' password' token' ended' issued' same => ?_⟩
  · obtain ⟨token', kept⟩ := keeps_of_run run (run.visitedAfter here) id _ stored
    exact ⟨id, _, kept, rfl, rfl⟩
  · obtain ⟨later', event', earlier', split', concerns', free', id', stored'⟩ :=
      registered_account run ended' issued'
    rcases events_ordered (split.symm.trans split') with rfl | before | before
    · rcases concerns with ⟨_, started, rfl⟩ | ⟨_, advanced⟩
      · rcases concerns' with ⟨_, _, rfl⟩ | ⟨_, advanced⟩
        · rfl
        · cases started.symm.trans advanced
      · rcases concerns' with ⟨_, started, _⟩ | ⟨_, advanced'⟩
        · cases started.symm.trans advanced
        · cases advanced.symm.trans advanced'
          rfl
    · obtain ⟨older, _⟩ := (split ▸ run).split
      obtain ⟨_, kept⟩ := keeps_of_run older (older.visitedAfter before) id' _ stored'
      exact absurd same (free id' _ kept)
    · obtain ⟨older, _⟩ := (split' ▸ run).split
      obtain ⟨_, kept⟩ := keeps_of_run older (older.visitedAfter before) id _ stored
      exact absurd same.symm (free' id _ kept)

/-- The first of the two registrations of the sample. -/
theorem registrations_exclusive_sample :
    (∃ id user, sample.scene.world.user.get? id = some user ∧ user.username = [0x61] ∧
      user.password = [1]) ∧
    ∀ (index' : Nat) (username' password' token' : Bytes), sample.jobs[index']? =
        some ⟨.register username' password', .done (.ok (.token token'))⟩ →
      token' ≠ [] → caseless username' = caseless [0x61] → index' = 0 :=
  registrations_exclusive sample_run (show sample.jobs[0]? = some ⟨.register [0x61] [1],
    .done (.ok (.token (tokenOf 1 1)))⟩ from rfl) (by decide)

end FileServer.Users
