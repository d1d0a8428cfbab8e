import FileServer.Protocol.Admission

/-!
# Conversations

The server dispatches what a call was given, once at most, and the call ends with
what became of it.
-/

namespace FileServer.Protocol.Wire

open FileServer.Encoding FileServer.Transition

/-- A caller does not take the failure for a result. -/
def Failure.Told : Failure → Prop
  | .error code _ => code ≠ "OK"
  | .other => True

section Failures

variable {α : Type} {json : Json α}

theorem told_require {condition : Prop} [Decidable condition] {code message : String}
    {failure : Failure} (coded : code ≠ "OK")
    (failed : require condition code message = .error failure) : failure.Told := by
  simp only [require, Transition.require] at failed
  split at failed
  · cases failed
  · cases failed
    exact coded

theorem told_exact {sock : Socket} {size : Nat} {failure : Failure}
    (failed : exact sock size = .error failure) : failure.Told := by
  have loop : ∀ size out sock, exactLoop size out sock = .error failure → failure.Told := by
    intro size out sock failed
    fun_induction exactLoop size out sock with
    | case1 out sock missing ended nothing =>
        cases failed
        simp [Failure.Told]
    | case2 out sock missing first part rest arrived inductionHypothesis =>
        exact inductionHypothesis failed
    | case3 out sock complete => cases failed
  exact loop size [] sock failed

theorem told_receive {sock : Socket} {failure : Failure}
    (failed : receive json sock = .error failure) : failure.Told := by
  rcases bind_eq_error.mp failed with failed | ⟨⟨raw, left⟩, _, failed⟩
  · exact told_exact failed
  simp only at failed
  split at failed
  · rcases bind_eq_error.mp failed with failed | ⟨_, _, failed⟩
    · exact told_require (by decide) failed
    rcases bind_eq_error.mp failed with failed | ⟨_, _, failed⟩
    · exact told_require (by decide) failed
    rcases bind_eq_error.mp failed with failed | ⟨⟨body, left⟩, _, failed⟩
    · exact told_exact failed
    rcases bind_eq_error.mp failed with failed | ⟨_, _, failed⟩
    · exact told_require (by decide) failed
    rcases bind_eq_error.mp failed with failed | ⟨fields, _, failed⟩
    · simp only [found] at failed
      split at failed
      · cases failed
      · cases failed
        simp [Failure.Told]
    rcases bind_eq_error.mp failed with failed | ⟨_, _, failed⟩
    · exact told_require (by decide) failed
    · cases failed
  · cases failed
    trivial

theorem told_send {fields : α} {data : Bytes} {rid kind : Nat} {failure : Failure}
    (failed : send json fields data rid kind = .error failure) : failure.Told := by
  rcases bind_eq_error.mp failed with failed | ⟨_, _, failed⟩
  · exact told_require (by decide) failed
  rcases bind_eq_error.mp failed with failed | ⟨_, _, failed⟩
  · simp only [Transition.require] at failed
    split at failed
    · cases failed
    · cases failed
      trivial
  · cases failed

theorem arrived_of_receive {sock left : Socket} {message : α × Bytes × Nat}
    (received : receive json sock = .ok (message, left)) : sock.flatten ≠ [] := by
  intro nothing
  simp only [receive, bind_eq_ok] at received
  obtain ⟨⟨raw, rest⟩, header, _⟩ := received
  obtain ⟨joined, _⟩ := recv_spec (min (HEADER.sum - 0) 65536) sock
  rw [nothing, List.append_eq_nil_iff] at joined
  rw [exact, exactLoop, dif_pos (by decide)] at header
  split at header
  · cases header
  next first part later arrived =>
    rw [List.length_nil] at arrived
    rw [arrived] at joined
    cases joined.1

end Failures

section Soundness

variable {V : Type} {values : Values V}

variable (values) in
inductive Reply (conversation : Conversation V) : Dict V → Bytes → Prop where
  | dispatched (work : Dispatched V) (told : ∀ failure, work = .error failure → failure.Told)
      (once : conversation.dispatched = [(conversation.fields, conversation.data, work)]) :
      Reply conversation (response values work).1 (response values work).2
  | undispatched (failure : Failure) (told : failure.Told) (none : conversation.dispatched = []) :
      Reply conversation (apology values failure) []
  /-- The result could not be sent. -/
  | unsent (failure : Failure) (told : failure.Told) (result : Dict V) (binary : Bytes)
      (once : conversation.dispatched =
        [(conversation.fields, conversation.data, .ok (result, binary))]) :
      Reply conversation (apology values failure) []

variable (values) in
def Served (conversation : Conversation V) : ServeStage V → Prop
  | .absent | .queued | .refused | .admitted | .receiving =>
      conversation.dispatched = [] ∧ conversation.down = [] ∧ conversation.cut = false
  | .dispatching fields data rid =>
      (fields, data, rid) = (conversation.fields, conversation.data, 1) ∧
        conversation.dispatched = [] ∧ conversation.down = [] ∧ conversation.cut = false
  | .responding result binary rid => rid = 1 ∧ conversation.dispatched =
      [(conversation.fields, conversation.data, .ok (result, binary))] ∧
        conversation.down = [] ∧ conversation.cut = false
  | .apologizing failure rid => rid = 1 ∧
      (conversation.cut = false → conversation.down = [] ∧
        Reply values conversation (apology values failure) [])
  | .leaving | .closed => conversation.cut = false → conversation.down = [] ∨
      ∃ fields binary frame, Reply values conversation fields binary ∧
        send values.toJson fields binary 1 2 = .ok frame ∧ conversation.down <+: frame

/-- The server is done with the connection, but for its slot. -/
def ServeStage.spent : ServeStage V → Prop
  | .leaving | .closed => True
  | _ => False

variable (values) in
structure Sound (conversation : Conversation V) : Prop where
  request : conversation.up = [] ∨ ∃ frame,
    send values.toJson conversation.fields conversation.data 1 1 = .ok frame ∧
      conversation.up <+: frame
  served : Served values conversation conversation.server
  once : conversation.dispatched = [] ∨ ∃ work,
    conversation.dispatched = [(conversation.fields, conversation.data, work)]
  opening : conversation.caller = .connecting → conversation.server = .absent
  ended : ∀ result, conversation.caller = .ended result → conversation.cut = true ∨
    (∃ failure, result = .error (.here failure)) ∨
      conversation.server.spent ∧ ∃ fields binary, Reply values conversation fields binary ∧
        result = conclude values fields binary

variable {conversation next : Conversation V}

theorem Reply.congr {fields : Dict V} {binary : Bytes} (reply : Reply values conversation fields binary)
    (asked : next.fields = conversation.fields) (data : next.data = conversation.data)
    (dispatched : next.dispatched = conversation.dispatched) : Reply values next fields binary := by
  cases reply with
  | dispatched work told once => exact .dispatched work told (by rw [dispatched, asked, data, once])
  | undispatched failure told none => exact .undispatched failure told (dispatched.trans none)
  | unsent failure told result binary once =>
      exact .unsent failure told result binary (by rw [dispatched, asked, data, once])

theorem Sound.call (sound : Sound values conversation) (caller : CallStage V) (up : Bytes)
    (request : up = [] ∨ ∃ frame,
      send values.toJson conversation.fields conversation.data 1 1 = .ok frame ∧ up <+: frame)
    (opening : caller ≠ .connecting)
    (ended : ∀ result, caller = .ended result → conversation.cut = true ∨
      (∃ failure, result = .error (.here failure)) ∨
        conversation.server.spent ∧ ∃ fields binary, Reply values conversation fields binary ∧
          result = conclude values fields binary) :
    Sound values { conversation with caller, up } := by
  refine ⟨request, ?_, sound.once, fun starting => absurd starting opening, ?_⟩
  · have served := sound.served
    revert served
    cases conversation.server with
    | apologizing failure rid =>
        rintro ⟨rid, told⟩
        exact ⟨rid, fun whole => ⟨(told whole).1, (told whole).2.congr rfl rfl rfl⟩⟩
    | leaving | closed =>
        intro told whole
        rcases told whole with nothing | ⟨fields, binary, frame, reply, sent, part⟩
        · exact .inl nothing
        · exact .inr ⟨fields, binary, frame, reply.congr rfl rfl rfl, sent, part⟩
    | absent | queued | refused | admitted | receiving | dispatching | responding => exact id
  · intro result finished
    rcases ended result finished with cut | failed | ⟨spent, fields, binary, reply, concluded⟩
    · exact .inl cut
    · exact .inr (.inl failed)
    · exact .inr (.inr ⟨spent, fields, binary, reply.congr rfl rfl rfl, concluded⟩)

theorem Sound.serve (sound : Sound values conversation) (begun : ¬conversation.server.spent)
    (opened : conversation.server ≠ .absent) (server : ServeStage V)
    (dispatched : List (Dict V × Bytes × Dispatched V)) (down : Bytes) (cut : Bool)
    (kept : conversation.cut = true → cut = true)
    (served : Served values { conversation with server, dispatched, down, cut } server)
    (once : dispatched = [] ∨ ∃ work, dispatched = [(conversation.fields, conversation.data, work)]) :
    Sound values { conversation with server, dispatched, down, cut } := by
  refine ⟨sound.request, served, once, fun starting => absurd (sound.opening starting) opened, ?_⟩
  intro result finished
  rcases sound.ended result finished with was | failed | ⟨spent, _⟩
  · exact .inl (kept was)
  · exact .inr (.inl failed)
  · exact absurd spent begun

theorem Sound.responded (sound : Sound values conversation) (whole : conversation.cut = false)
    (arrived : conversation.down ≠ []) : conversation.server.spent ∧
      ∃ fields binary frame, Reply values conversation fields binary ∧
        send values.toJson fields binary 1 2 = .ok frame ∧ conversation.down <+: frame := by
  have served := sound.served
  revert served
  cases conversation.server with
  | absent | queued | refused | admitted | receiving => exact fun served => absurd served.2.1 arrived
  | dispatching => exact fun served => absurd served.2.2.1 arrived
  | responding => exact fun served => absurd served.2.2.1 arrived
  | apologizing => exact fun served => absurd (served.2 whole).1 arrived
  | leaving | closed => exact fun served => ⟨trivial, (served whole).resolve_left arrived⟩

theorem nonempty_of_front {front bytes : Bytes} (part : front <+: bytes) (some : front ≠ []) :
    bytes ≠ [] := by
  rintro rfl
  exact some (List.prefix_nil.mp part)

theorem Sound.step (documented : values.Documented) (sound : Sound values conversation) {free : Bool}
    {action : ConversationAction V} {seat : Seat}
    (told : ∀ work, action = .dispatch work → ∀ failure, work = .error failure → failure.Told)
    (acted : conversation.Acted values free action next seat) : Sound values next := by
  have served := sound.served
  cases acted with
  | fails _ failure open_ =>
      refine sound.call _ _ sound.request (by simp) ?_
      intro result finished
      cases finished
      exact .inr (.inl ⟨failure, rfl⟩)
  | connect connecting =>
      have absent := sound.opening connecting
      rw [absent] at served
      refine ⟨sound.request, served, sound.once, ?_, ?_⟩
      · intro starting
        cases starting
      · intro result finished
        cases finished
  | send count frame connected sent =>
      refine sound.call _ _ (.inr ⟨frame, sent, List.take_prefix _ _⟩) (by split <;> simp) ?_
      intro result finished
      split at finished
      · cases finished
      · cases finished
        exact .inr (.inl ⟨_, rfl⟩)
  | acquire _ queued | refuse _ queued | spawn queued =>
      rw [queued] at served
      exact sound.serve (by simp [queued, ServeStage.spent]) (by simp [queued]) _ _ _ _ id served sound.once
  | spawnFails admitted =>
      rw [admitted] at served
      exact sound.serve (by simp [admitted, ServeStage.spent]) (by simp [admitted]) _ _ _ _ id
        (fun _ => .inl served.2.1) sound.once
  | receive parts left fields data rid receiving arrived received =>
      rw [receiving] at served
      refine sound.serve (by simp [receiving, ServeStage.spent]) (by simp [receiving]) _ _ _ _ id
        ⟨?_, served⟩ sound.once
      rcases sound.request with nothing | ⟨frame, sent, part⟩
      · rw [nothing, List.prefix_nil] at arrived
        exact absurd arrived (arrived_of_receive received)
      · exact receive_front 1 1 (.inl rfl) (documented.roundTrip _)
          (documented.dict _) sent (arrived.trans part) received
  | garble parts failure receiving received =>
      rw [receiving] at served
      exact sound.serve (by simp [receiving, ServeStage.spent]) (by simp [receiving]) _ _ _ _ id
        ⟨rfl, fun _ => ⟨served.2.1, .undispatched failure (told_receive received) served.1⟩⟩ sound.once
  | receiveFails receiving =>
      rw [receiving] at served
      exact sound.serve (by simp [receiving, ServeStage.spent]) (by simp [receiving]) _ _ _ _ id
        ⟨rfl, fun _ => ⟨served.2.1, .undispatched .other trivial served.1⟩⟩ sound.once
  | dispatch work fields data rid dispatching =>
      rw [dispatching] at served
      obtain ⟨same, none, down, whole⟩ := served
      obtain ⟨rfl, rfl, rfl⟩ : fields = conversation.fields ∧ data = conversation.data ∧ rid = 1 := by
        simpa using same
      have once : conversation.dispatched ++ [(conversation.fields, conversation.data, work)] =
          [(conversation.fields, conversation.data, work)] := by
        rw [none, List.nil_append]
      refine sound.serve (by simp [dispatching, ServeStage.spent]) (by simp [dispatching]) _ _ _ _ id
        ?_ (.inr ⟨work, once⟩)
      cases work with
      | ok value => exact ⟨rfl, once, down, whole⟩
      | error failure =>
          exact ⟨rfl, fun _ => ⟨down, .dispatched (.error failure) (told _ rfl) once⟩⟩
  | respond count frame result data rid responding sent =>
      rw [responding] at served
      obtain ⟨rfl, once, down, whole⟩ := served
      refine sound.serve (by simp [responding, ServeStage.spent]) (by simp [responding]) _ _ _ _ id
        (fun _ => .inr ⟨_, _, frame, .dispatched (.ok (result, data)) (by simp) once, sent, ?_⟩) sound.once
      simp [down]
  | cutOff count frame result data rid responding sent =>
      rw [responding] at served
      obtain ⟨rfl, once, down, whole⟩ := served
      refine sound.serve (by simp [responding, ServeStage.spent]) (by simp [responding]) _ _ _ _
        (by simp +contextual) ⟨rfl, fun still => ⟨?_, .unsent .other trivial result data once⟩⟩ sound.once
      obtain rfl : count = 0 := by simpa [whole] using still
      simp [down]
  | unsendable count failure result data rid responding sent =>
      rw [responding] at served
      obtain ⟨rfl, once, down, whole⟩ := served
      exact sound.serve (by simp [responding, ServeStage.spent]) (by simp [responding]) _ _ _ _ id
        ⟨rfl, fun _ => ⟨down, .unsent failure (told_send sent) result data once⟩⟩ sound.once
  | apologize count frame failure rid apologizing sent =>
      rw [apologizing] at served
      obtain ⟨rfl, said⟩ := served
      refine sound.serve (by simp [apologizing, ServeStage.spent]) (by simp [apologizing]) _ _ _ _ id
        (fun whole => .inr ⟨_, _, frame, (said whole).2.congr rfl rfl rfl, sent, ?_⟩) sound.once
      rw [(said whole).1, List.nil_append]
      exact List.take_prefix _ _
  | giveUp _ occupied begun busy =>
      have unsaid : conversation.cut = false → conversation.down = [] := by
        intro whole
        by_contra arrived
        have spent := (sound.responded whole arrived).1
        revert occupied busy spent
        cases conversation.server <;> simp [ServeStage.occupied, ServeStage.spent]
      refine sound.serve ?_ ?_ _ _ _ _ id (fun whole => .inl (unsaid whole)) sound.once
      · intro spent
        revert occupied busy spent
        cases conversation.server <;> simp [ServeStage.occupied, ServeStage.spent]
      · intro absent
        rw [absent] at occupied
        cases occupied
  | leave leaving =>
      rw [leaving] at served
      refine ⟨sound.request, ?_, sound.once, ?_, ?_⟩
      · intro whole
        rcases served whole with nothing | ⟨fields, binary, frame, reply, sent, part⟩
        · exact .inl nothing
        · exact .inr ⟨fields, binary, frame, reply.congr rfl rfl rfl, sent, part⟩
      · intro starting
        have absent := sound.opening starting
        rw [leaving] at absent
        cases absent
      · intro result finished
        rcases sound.ended result finished with cut | failed | ⟨_, fields, binary, reply, concluded⟩
        · exact .inl cut
        · exact .inr (.inl failed)
        · exact .inr (.inr ⟨trivial, fields, binary, reply.congr rfl rfl rfl, concluded⟩)
  | read parts left result binary rid waiting arrived received =>
      refine sound.call _ _ sound.request (by simp) ?_
      intro last finished
      cases finished
      cases whole : conversation.cut with
      | true => exact .inl rfl
      | false =>
          obtain ⟨spent, fields, data, frame, reply, sent, part⟩ :=
            sound.responded whole (nonempty_of_front arrived (arrived_of_receive received))
          have same := receive_front 1 2 (.inr rfl) (documented.roundTrip _)
            (documented.dict _) sent (arrived.trans part) received
          obtain ⟨rfl, rfl, _⟩ : result = fields ∧ binary = data ∧ rid = _ := by
            simpa only [Prod.mk.injEq] using same
          exact .inr (.inr ⟨spent, result, binary, reply, rfl⟩)

end Soundness

end FileServer.Protocol.Wire
