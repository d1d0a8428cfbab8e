import FileServer.Routing.Readers

/-!
# Refused requests

The gateway asks UserService for the user of a token before it touches a record
or a file, so a token that belongs to nobody can change none.
-/

namespace FileServer.Routing

open FileServer.Json FileServer.Transition
open FileServer.Protocol (Message Response)
open FileServer.Service (World)

namespace Services

section Unmoved

variable {library : Library} {accounts : Accounts} {world : World}
  {deliveries : List Delivery} {α β : Type}

/-- The program leaves records and files alone. -/
def Unmoved (library : Library) (accounts : Accounts) (world : World)
    (program : Gateway.GatewayProgram α) (deliveries : List Delivery) : Prop :=
  (program.perform (step library accounts) (deliveries, world)).2.2 = world

theorem unmoved_lift_bind {result : Reads β} {next : β → Gateway.GatewayProgram α}
    (continues : ∀ value, result = .ok value →
      Unmoved library accounts world (next value) deliveries) :
    Unmoved library accounts world (liftM result >>= next) deliveries := by
  rw [Unmoved, Program.perform_bind]
  cases result with
  | error exception => rfl
  | ok value => exact continues value rfl

/-- A call that leaves records and files alone, and what follows it. -/
theorem unmoved_send_bind {call : RpcCall} {result : Reads Value → Reads β}
    {next : β → Gateway.GatewayProgram α}
    (same : (callRpc library accounts (deliveries.headD default) call world).2 = world)
    (continues : ∀ value,
      result (callRpc library accounts (deliveries.headD default) call world).1 = .ok value →
        Unmoved library accounts world (next value) deliveries.tail) :
    Unmoved library accounts world (Program.send call result >>= next) deliveries := by
  rw [Unmoved, Program.perform_bind, Program.perform_send]
  simp only [step, same]
  cases returned : result
      (callRpc library accounts (deliveries.headD default) call world).1 with
  | error exception => rfl
  | ok value => exact continues value returned

theorem callRpc_userService {delivery : Delivery} {method : String} {args : Value}
    (registered : ∀ outcomes args, ∃ result, ∀ before,
      methods accounts outcomes ⟨.userService, method, args, []⟩ before =
        some (result, before)) :
    (callRpc library accounts delivery ⟨.userService, method, args, []⟩ world).2 =
      world := by
  have served : ∀ outcomes args,
      (serve library accounts outcomes ⟨.userService, method, args, []⟩ world).2 = world := by
    intro outcomes args
    obtain ⟨result, answers⟩ := registered outcomes args
    simp only [serve, answers]
  cases delivery with
  | unreachable msg => rfl
  | lost => rfl
  | late outcomes =>
      simp only [callRpc]
      split
      · rfl
      · exact served _ _
  | answered outcomes =>
      simp only [callRpc]
      split
      · rfl
      · split
        · exact served _ _
        · exact served _ _

theorem unmoved_entrance {method : String} {request : Message}
    (registered : ∀ outcomes args, ∃ result, ∀ before,
      methods accounts outcomes ⟨.userService, method, args, []⟩ before =
        some (result, before)) :
    Unmoved library accounts world (Gateway.entrance library method request) deliveries :=
  unmoved_send_bind (callRpc_userService registered) fun _ _ => rfl

/-- The token of the request belongs to nobody. -/
def Refused (library : Library) (accounts : Accounts) (request : Message) : Prop :=
  ∀ token, (request.getJson library).value "token" [] Value.getString = .ok token → token ≠ [] →
    accounts.verifyToken token = -1

theorem unmoved_authenticated {request : Message}
    {next : Value → Int → Gateway.GatewayProgram (Response library)}
    (refused : Refused library accounts request) :
    Unmoved library accounts world (Gateway.authenticated library request next)
      deliveries := by
  refine unmoved_lift_bind fun token tokenRead => ?_
  show Unmoved library accounts world (Gateway.verifyToken token >>= _) deliveries
  unfold Gateway.verifyToken
  split
  · rfl
  next named =>
    obtain ⟨result, known, owner⟩ :=
      @verifyToken_known library accounts (deliveries.headD default) token
    rw [Unmoved, Program.perform_bind, Gateway.callRpc, Program.perform_bind,
      Program.perform_send]
    simp only [step, known, id_eq]
    cases returned : result with
    | error exception => rfl
    | ok r =>
        simp only [Program.perform_lift]
        cases read : r.value "user_id" 0 Value.getLongLong with
        | error exception => rfl
        | ok uid =>
            have nobody : uid ≤ 0 := by
              by_contra positive
              have same := owner r uid returned read (not_le.mp positive)
              rw [refused token tokenRead named] at same
              exact positive (same ▸ by decide)
            simp only [if_pos nobody]
            rfl

theorem unmoved_withFile {method : String} {owner : Bool} {request : Message}
    (refused : Refused library accounts request) :
    Unmoved library accounts world (Gateway.withFile library method owner request) deliveries :=
  unmoved_authenticated refused

/-- A request whose token belongs to nobody leaves records and files alone. -/
theorem respond_unmoved {request : Message} (refused : Refused library accounts request) :
    (respond library accounts deliveries world request).2 = world := by
  have unmoved : Unmoved library accounts world
      (route library (Gateway.handlers library) request) deliveries := by
    apply @route_induction _ _ _ _ _ fun program =>
      Unmoved library accounts world program deliveries
    · rfl
    · simp only [Gateway.handlers, List.forall_mem_cons]
      refine ⟨?_, ?_, ?_, ?_, ?_, ?_, ?_, ?_, ?_, ?_⟩
      · exact fun _ => unmoved_entrance fun _ _ => ⟨_, fun _ => rfl⟩
      · exact fun _ => unmoved_entrance fun _ _ => ⟨_, fun _ => rfl⟩
      · exact fun _ => unmoved_authenticated refused
      · exact fun _ => unmoved_authenticated refused
      · exact fun _ => unmoved_withFile refused
      · exact fun _ => unmoved_withFile refused
      · exact fun _ => unmoved_authenticated refused
      · exact fun _ => unmoved_authenticated refused
      · exact fun _ => unmoved_withFile refused
      · simp
  exact unmoved

end Unmoved

end Services

end FileServer.Routing
