import FileServer.Routing.Services
import FileServer.Service.Agreement
import FileServer.Service.Footprints

/-!
# Isolation of users

The methods of FileService and StorageService that check the user of a record
do the same in two worlds with the same records and files of that user.
-/

namespace FileServer.Routing

open FileServer.Json FileServer.Transition
open FileServer.Protocol (Message Response)
open FileServer.Service (World Outcome Call Failure FileInfo Agree Alike Concerns Has consult
  execute serveNext)

namespace Services

def Matches (userId : Int) (result other : Reads Value × World) : Prop :=
  result.1 = other.1 ∧ Agree userId result.2 other.2

section Methods

variable {userId : Int} {world other : World} {outcomes : List Outcome} {α : Type}

abbrev Steady (userId : Int) (method : Method α) (state other : List Outcome × World) : Prop :=
  Program.Agrees serveNext (fun _ => Alike userId) method.run state other

theorem Steady.matches {method : Method Value}
    (steady : Steady userId method (outcomes, world) (outcomes, other)) :
    Matches userId (perform outcomes world method) (perform outcomes other method) := by
  obtain ⟨result, last, last', ran, ran', alike⟩ := steady
  have ended : execute outcomes world method.run = (result, last.2) := by
    rw [Service.execute_eq_perform, ran]
  have ended' : execute outcomes other method.run = (result, last'.2) := by
    rw [Service.execute_eq_perform, ran']
  simp only [perform, ended, ended']
  cases result with
  | ok value => exact ⟨rfl, alike.2⟩
  | error failure => exact ⟨rfl, alike.2⟩

theorem steady_lift {β : Type} {result : Reads β} {next : β → Method α}
    {state last : List Outcome × World} (alike : Alike userId state last)
    (continues : ∀ value, result = .ok value → Steady userId (next value) state last) :
    Steady userId (liftM result >>= next) state last := by
  cases result with
  | error exception => exact Program.agrees_done alike
  | ok value => exact continues value rfl

theorem steady_program {β : Type} {program : Service.Handler β} {next : β → Method α}
    {state last : List Outcome × World}
    (begins : Program.Agrees serveNext (fun _ => Alike userId) program state last)
    (continues : ∀ value state last, Alike userId state last → Steady userId (next value) state last) :
    Steady userId (ExceptT.lift program >>= next) state last := by
  have lifted : Program.Agrees serveNext (fun _ => Alike userId)
      (ExceptT.lift program : Method β).run state last :=
    begins.bind (fun _ _ _ alike => alike) fun _ _ _ alike => Program.agrees_done alike
  refine lifted.bind (fun _ _ _ alike => alike) ?_
  rintro (exception | value) state last alike
  · exact Program.agrees_done alike
  · exact continues value state last alike

theorem calls_lift {β : Type} {allowed : Call → Prop} {result : Reads β} {next : β → Method α}
    (continues : ∀ value, result = .ok value → (next value).run.Calls allowed) :
    (liftM result >>= next : Method α).run.Calls allowed := by
  cases result with
  | error exception => trivial
  | ok value => exact continues value rfl

theorem calls_program {β : Type} {allowed : Call → Prop} {program : Service.Handler β}
    {next : β → Method α} (begins : program.Calls allowed)
    (continues : ∀ value, (next value).run.Calls allowed) :
    (ExceptT.lift program >>= next : Method α).run.Calls allowed := by
  apply Program.Calls.bind
  · exact Program.Calls.bind begins fun _ => trivial
  · rintro (_ | value)
    · trivial
    · exact continues value

theorem inRange_foreign {offset size : Int64} {info : FileInfo} (foreign : info.userId ≠ userId) :
    Service.inRange userId offset size info = .ok false := by
  simp only [Service.inRange, if_pos foreign]
  rfl

/-- The end of `validate_chunk`. -/
def validated (valid : Except Failure Bool) (info : FileInfo) : Method (Option FileInfo) := do
  let valid ← ExceptT.lift (liftM valid)
  return if valid then some info else none

variable (agree : Agree userId world other) {args : Value}
  (mine : int64At args "user_id" = .ok userId)
include agree mine

theorem validateChunk_steady {next : Option FileInfo → Method α} {refused : Reads α}
    (absent : (next none).run = .done (.ok refused))
    (own : ∀ fileId info, int64At args "file_id" = .ok fileId → info.userId = userId →
      (next (some info)).run.Calls (Concerns fileId info.filepath)) :
    Steady userId (validateChunk args >>= next) (outcomes, world) (outcomes, other) := by
  unfold validateChunk
  simp only [mine]
  cases fileIdRead : int64At args "file_id" with
  | error exception => exact Program.agrees_done ⟨rfl, agree⟩
  | ok fileId =>
      cases int64At args "offset" with
      | error exception =>
          exact Service.agrees_findById agree (fun _ _ => trivial) rfl fun _ _ => rfl
      | ok offset =>
          cases int64At args "size" with
          | error exception =>
              exact Service.agrees_findById agree (fun _ _ => trivial) rfl fun _ _ => rfl
          | ok size =>
              refine Service.agrees_findById agree ?_ absent ?_
              · intro info owned
                show (validated (Service.inRange userId (.ofInt offset) (.ofInt size) info) info
                  >>= next).run.Calls _
                rcases Service.inRange userId (.ofInt offset) (.ofInt size) info with
                  failure | (_ | _)
                · trivial
                · show (next none).run.Calls _
                  rw [absent]
                  trivial
                · exact own fileId info fileIdRead owned
              · intro info foreign
                show (validated (Service.inRange userId (.ofInt offset) (.ofInt size) info) info
                  >>= next).run = _
                rw [inRange_foreign foreign]
                exact absent

theorem prepareUploadChunk_matches :
    Matches userId (perform outcomes world (prepareUploadChunk args))
      (perform outcomes other (prepareUploadChunk args)) := by
  apply Steady.matches
  exact validateChunk_steady agree mine rfl fun _ _ _ _ => trivial

omit agree in
theorem prepareUploadChunk_ok {r : Value} {after : World}
    (ran : perform outcomes world (prepareUploadChunk args) = (.ok r, after)) :
    r = refusal "文件、权限或上传偏移无效" ∨ ∃ (fileId : Int) (info : FileInfo),
      r = .object [("code", .number 0), ("filepath", .string info.filepath),
        ("upload_size", .number info.uploadSize.toInt)] ∧
      Has userId fileId info.filepath after := by
  unfold prepareUploadChunk validateChunk at ran
  simp only [mine] at ran
  cases fileIdRead : int64At args "file_id" with
  | error exception =>
      rw [fileIdRead] at ran
      cases ran
  | ok fileId =>
      rw [fileIdRead] at ran
      cases offsetRead : int64At args "offset" with
      | error exception =>
          rw [offsetRead] at ran
          cases ran
      | ok offset =>
          rw [offsetRead] at ran
          cases sizeRead : int64At args "size" with
          | error exception =>
              rw [sizeRead] at ran
              cases ran
          | ok size =>
              rw [sizeRead] at ran
              have answered : ∀ next, perform outcomes world
                  (ExceptT.mk (.call (.findById fileId) next)) = perform outcomes.tail world
                    (ExceptT.mk (next (Service.serve (outcomes.headD default) (.findById fileId) world).1)) :=
                fun _ => rfl
              have ran := (answered _).symm.trans ran
              cases found : (Service.serve (outcomes.headD default) (.findById fileId) world).1 with
              | none =>
                  rw [found] at ran
                  obtain ⟨same, _⟩ := Prod.mk.inj ran
                  exact .inl (Except.ok.inj same).symm
              | some info =>
                  rw [found] at ran
                  change perform outcomes.tail world (validated (Service.inRange userId
                    (.ofInt offset) (.ofInt size) info) info >>= _) = _ at ran
                  have listed : world.fileInfo.get? fileId = some info := by
                    simp only [Service.serve] at found
                    split at found
                    · exact found
                    · cases found
                  by_cases owned : info.userId = userId
                  · generalize Service.inRange userId (.ofInt offset) (.ofInt size) info = valid at ran
                    rcases valid with failure | (_ | _)
                    · cases ran
                    · obtain ⟨same, _⟩ := Prod.mk.inj ran
                      exact .inl (Except.ok.inj same).symm
                    · obtain ⟨same, rfl⟩ := Prod.mk.inj ran
                      exact .inr ⟨fileId, info, (Except.ok.inj same).symm, info, listed, owned, rfl⟩
                  · rw [inRange_foreign owned] at ran
                    obtain ⟨same, _⟩ := Prod.mk.inj ran
                    exact .inl (Except.ok.inj same).symm

theorem confirmUploadChunk_matches :
    Matches userId (perform outcomes world (confirmUploadChunk args))
      (perform outcomes other (confirmUploadChunk args)) := by
  apply Steady.matches
  refine validateChunk_steady agree mine rfl ?_
  intro fileId info fileIdRead owned
  refine calls_lift fun again read => ?_
  obtain rfl := Except.ok.inj (fileIdRead.symm.trans read)
  refine calls_lift fun user _ => calls_lift fun offset _ => calls_lift fun size _ => ?_
  refine calls_program ?_ fun stored => ?_
  · refine .lift_bind fun finish => Service.calls_ask rfl ?_
    rintro (_ | affected)
    · trivial
    show Program.Calls _ (if _ then _ else _)
    split
    · trivial
    refine Service.calls_ask rfl ?_
    rintro (_ | confirmed) <;> trivial
  · cases stored with
    | false => trivial
    | true =>
        refine ⟨rfl, ?_⟩
        rintro (_ | confirmed) <;> trivial

theorem uploadFinalize_matches :
    Matches userId (perform outcomes world (uploadFinalize args))
      (perform outcomes other (uploadFinalize args)) := by
  apply Steady.matches
  unfold uploadFinalize
  simp only [mine]
  refine steady_lift ⟨rfl, agree⟩ fun fileId _ => ?_
  refine Service.agrees_findById agree ?_ rfl ?_
  · intro info owned
    show (if _ then _ else _ : Method Value).run.Calls _
    split
    · trivial
    refine ⟨rfl, fun fileSize => ?_⟩
    show (if _ then _ else _ : Method Value).run.Calls _
    split
    · trivial
    exact ⟨rfl, fun _ => trivial⟩
  · intro info foreign
    show (if _ then _ else _ : Method Value).run = _
    rw [if_pos (.inl foreign)]
    rfl

omit mine in
theorem delete_matches (mine : int64Field args "user_id" = .ok userId) :
    Matches userId (perform outcomes world (delete args)) (perform outcomes other (delete args)) := by
  apply Steady.matches
  unfold delete
  simp only [mine]
  refine steady_lift ⟨rfl, agree⟩ fun fileId _ => ?_
  refine Service.agrees_findById agree ?_ rfl ?_
  · intro info owned
    show Program.Calls _ (Program.bind (Program.bind (if _ then _ else _) _) _)
    rw [if_neg (not_not.mpr owned)]
    exact ⟨rfl, fun _ => ⟨rfl, fun _ => trivial⟩⟩
  · intro info foreign
    show (Program.bind (Program.bind (if _ then _ else _) _) _) = _
    rw [if_pos foreign]
    rfl

omit mine in
theorem queryFiles_eq {outcome : Outcome} (mine : int64Field args "user_id" = .ok userId) :
    queryFiles args outcome world = queryFiles args outcome other := by
  unfold queryFiles
  simp only [mine]
  have same : Service.answer outcome world (.findByUserId userId) =
      Service.answer outcome other (.findByUserId userId) := by
    simp only [Service.answer, agree.byUser]
  have consulted : ∀ before : World, consult before [outcome]
      (Service.FileService.queryFiles userId) =
        .ok (Service.answer outcome before (.findByUserId userId)) := fun _ => rfl
  simp only [bind, Except.bind, consulted, same]

omit mine in
/-- A method acts on the file of a record. -/
theorem writeChunk_matches {filepath data : Service.Bytes} {fileId : Int}
    (has : Has userId fileId filepath world) (named : args.atKey "filepath" = .ok (.string filepath)) :
    Matches userId (perform outcomes world (writeChunk args data))
      (perform outcomes other (writeChunk args data)) := by
  apply Steady.matches
  have calls : (writeChunk args data).run.Calls (Concerns fileId filepath) := by
    unfold writeChunk
    simp only [named]
    refine calls_lift fun value read => ?_
    obtain rfl := Except.ok.inj read
    refine calls_lift fun path read => ?_
    obtain rfl : filepath = path := Except.ok.inj read
    refine calls_lift fun user _ => calls_lift fun offset _ => ?_
    show (if _ then _ else _ : Method Value).run.Calls _
    split
    · trivial
    refine calls_lift fun size _ => ?_
    show (if _ then _ else _ : Method Value).run.Calls _
    split
    · trivial
    refine ⟨trivial, fun created => ?_⟩
    show (if _ then _ else _ : Method Value).run.Calls _
    split
    · trivial
    exact ⟨rfl, fun _ => trivial⟩
  have related : Alike userId (outcomes, world) (outcomes, other) ∧ Has userId fileId filepath world :=
    ⟨⟨rfl, agree⟩, has⟩
  obtain ⟨result, last, last', ran, ran', alike, _⟩ :=
    Program.agrees_of_calls calls Service.serveNext_alike related
  exact ⟨result, last, last', ran, ran', alike⟩

omit mine in
/-- A record that nobody else's stands for is found in both worlds or in none. -/
theorem getFileInfo_matches (asked : ∀ fileId, int64Field args "file_id" = .ok fileId →
      world.fileInfo.get? fileId = other.fileInfo.get? fileId) :
    Matches userId (perform outcomes world (getFileInfo args))
      (perform outcomes other (getFileInfo args)) := by
  apply Steady.matches
  unfold getFileInfo
  refine steady_lift ⟨rfl, agree⟩ fun fileId read => ?_
  refine Program.agrees_call ?_ ?_
  · simp only [serveNext, Service.serve, asked fileId read]
  · rcases (serveNext (.findById fileId) (outcomes, world)).1 with _ | info
    · exact Program.agrees_done ⟨rfl, agree⟩
    · exact Program.agrees_done ⟨rfl, agree⟩

omit mine in
theorem uploadStart_matches (own : args.value "user_id" 0 Value.getLongLong = .ok userId)
    (same : ∀ filename filesize md5, args.value "filename" [] Value.getString = .ok filename →
      args.value "filesize" 0 Value.getLongLong = .ok filesize →
      args.value "md5" [] Value.getString = .ok md5 →
      Service.Inserts world userId filename (.ofInt filesize) md5 outcomes →
      Service.nextId? world = Service.nextId? other ∧
        world.files (Service.newRow userId filename (.ofInt filesize) md5 outcomes).filepath =
          other.files (Service.newRow userId filename (.ofInt filesize) md5 outcomes).filepath) :
    Matches userId (perform outcomes world (uploadStart args))
      (perform outcomes other (uploadStart args)) := by
  apply Steady.matches
  unfold uploadStart
  simp only [own]
  refine steady_lift ⟨rfl, agree⟩ fun _ given => ?_
  obtain rfl := Except.ok.inj given
  refine steady_lift ⟨rfl, agree⟩ fun filename named => ?_
  refine steady_lift ⟨rfl, agree⟩ fun filesize sized => ?_
  refine steady_lift ⟨rfl, agree⟩ fun md5 summed => ?_
  refine steady_program ?_ fun result _ _ alike => Program.agrees_done alike
  exact Service.agrees_uploadStart agree (same filename filesize md5 named sized summed)

omit mine agree in
theorem readChunk_eq {outcome : Outcome} (same : ∀ path offset size,
      args.indexConst "filepath" = .ok (.string path) → int64Field args "offset" = .ok offset →
      args.value "size" 0 Value.getUInt64 = .ok size →
      world.readChunk outcome.opens path (.ofInt offset) (.ofNat size.toNat) =
        other.readChunk outcome.opens path (.ofInt offset) (.ofNat size.toNat)) :
    readChunk args outcome world = readChunk args outcome other := by
  unfold readChunk
  cases named : args.indexConst "filepath" with
  | error exception => rfl
  | ok value =>
      cases value with
      | string path =>
          cases started : int64Field args "offset" with
          | error exception => rfl
          | ok offset =>
              cases sized : args.value "size" 0 Value.getUInt64 with
              | error exception => rfl
              | ok size =>
                  simp only [bind, Except.bind, Value.getString,
                    same path offset size named started sized]
      | null | boolean | number | float | array | object | discarded => rfl

end Methods

section Rpcs

variable {library : Library} {accounts : Accounts} {userId : Int} {world other : World}
  {outcomes : List Outcome} {delivery : Delivery} {call : RpcCall}

theorem serve_matches {result result' : Reads Value × World}
    (registered : methods accounts outcomes call world = some result)
    (registered' : methods accounts outcomes call other = some result')
    (same : Matches userId result result') :
    Matches userId (serve library accounts outcomes call world)
      (serve library accounts outcomes call other) := by
  simp only [serve, registered, registered']
  exact ⟨by rw [same.1], same.2⟩

def arrives : Delivery → Option (List Outcome)
  | .unreachable _ | .lost => none
  | .late outcomes | .answered outcomes => some outcomes

theorem callRpc_matches (agree : Agree userId world other)
    (served : ∀ outcomes args, arrives delivery = some outcomes →
      requestJson library call = .ok args →
      Matches userId (serve library accounts outcomes { call with args } world)
        (serve library accounts outcomes { call with args } other)) :
    Matches userId (callRpc library accounts delivery call world)
      (callRpc library accounts delivery call other) := by
  cases delivery with
  | unreachable msg => exact ⟨rfl, agree⟩
  | lost => exact ⟨rfl, agree⟩
  | late outcomes =>
      simp only [callRpc]
      cases sent : requestJson library call with
      | error exception => exact ⟨rfl, agree⟩
      | ok args => exact ⟨rfl, (served outcomes args rfl sent).2⟩
  | answered outcomes =>
      simp only [callRpc]
      cases sent : requestJson library call with
      | error exception => exact ⟨rfl, agree⟩
      | ok args =>
          obtain ⟨same, agreeAfter⟩ := served outcomes args rfl sent
          simp only [same]
          split <;> exact ⟨rfl, agreeAfter⟩

/-- What a method returns is sent, or a failure. -/
theorem serve_ok {result : Reads Value × World} {r : Value} {after : World}
    (registered : methods accounts outcomes call world = some result)
    (served : serve library accounts outcomes call world = (.ok r, after)) :
    result = (.ok r, after) ∨ ∃ code msg, r = .object [("code", code), ("msg", msg)] := by
  obtain ⟨result, _⟩ := result
  simp only [serve, registered] at served
  obtain ⟨same, rfl⟩ := Prod.mk.inj served
  cases result with
  | ok value => exact .inl (Prod.ext same rfl)
  | error exception =>
      cases exception with
      | other => cases same
      | std | json => exact .inr ⟨_, _, (Except.ok.inj same).symm⟩

theorem callRpc_ok {r : Value} {after : World}
    (called : callRpc library accounts delivery call world = (.ok r, after)) :
    (∃ code msg, r = .object [("code", code), ("msg", msg)]) ∨
      ∃ outcomes args, requestJson library call = .ok args ∧
        serve library accounts outcomes { call with args } world = (.ok r, after) := by
  cases delivery with
  | unreachable msg =>
      obtain ⟨same, _⟩ := Prod.mk.inj called
      exact .inl ⟨_, _, (Except.ok.inj same).symm⟩
  | lost =>
      obtain ⟨same, _⟩ := Prod.mk.inj called
      obtain ⟨_, _, rfl⟩ := map_eq_ok.mp same
      exact .inl ⟨_, _, rfl⟩
  | late outcomes =>
      simp only [callRpc] at called
      split at called
      · cases called
      · obtain ⟨same, _⟩ := Prod.mk.inj called
        exact .inl ⟨_, _, (Except.ok.inj same).symm⟩
  | answered outcomes =>
      simp only [callRpc] at called
      split at called
      · cases called
      next args sent =>
        split at called
        next value answered =>
          obtain ⟨same, rfl⟩ := Prod.mk.inj called
          obtain rfl := Except.ok.inj same
          obtain ⟨result, served, dumped⟩ := bind_eq_ok.mp answered
          obtain ⟨_, _, rfl⟩ := map_eq_ok.mp dumped
          exact .inr ⟨outcomes, args, sent, Prod.ext served rfl⟩
        · obtain ⟨same, _⟩ := Prod.mk.inj called
          exact .inl ⟨_, _, (Except.ok.inj same).symm⟩

theorem requestJson_object {service : ServiceName} {method : String}
    {fields : List (String × Value)} {binary : Service.Bytes} {args : Value}
    (sent : requestJson library ⟨service, method, .object fields, binary⟩ = .ok args) :
    args = .object (("method", .string (text method)) :: fields.filter (·.1 ≠ "method")) := by
  obtain ⟨_, _, rfl⟩ := map_eq_ok.mp sent
  rfl

end Rpcs

end Services

end FileServer.Routing
