import FileServer.Gateway.Condemnations
import FileServer.Metadata.Confinement
import FileServer.Metadata.Invariant

/-!
# Owner isolation

What the gateway does for a request concerns only the rows of the user it
authenticated, unless a number given as a key selects rows of several owners.
-/

namespace FileServer.Gateway

open FileServer.Metadata FileServer.Storage FileServer.Transition

/-- The first answer is a chunk prepared for writing. -/
def Prepares (trace : Exchanges) (cid : Ident) (length : Nat) (sha : Sha)
    (positions : List Assigned) : Prop :=
  ∃ request effect rest,
    trace = requestOf request (.ok (.prepared cid length sha positions)) effect :: rest

/-- The first answer is the location of a chunk. -/
def Locates (trace : Exchanges) (cid : Ident) (length : Nat) (sha : Option Sha)
    (positions : List (NodeId × String)) : Prop :=
  ∃ request effect rest,
    trace = requestOf request (.ok (.reply (.located cid length sha positions))) effect :: rest

/-- The calls that a request of the user gives rise to.  Chunks, nodes and
addresses come from the metadata service only. -/
inductive Proper (user : String) (request : Request) (trace : Exchanges) : Call → Prop where
  | passed (pass : request.cmd ∈ allowed) :
      Proper user request trace (.metadata ⟨user, request.cmd, request.fields, none, none⟩)
  | prepare (uploads : request.cmd = .upload) :
      Proper user request trace (.metadata ⟨user, .prepare, request.fields, none, none⟩)
  | put {cid : Ident} {length : Nat} {sha : Sha} {positions : List Assigned}
      (prepared : Prepares trace cid length sha positions) {position : Assigned}
      (assigned : position ∈ positions) (data : Bytes) :
      Proper user request trace (.put position.address cid position.authorization data)
  | confirm (uploads : request.cmd = .upload) :
      Proper user request trace (.metadata ⟨user, .confirm, request.fields, none, none⟩)
  | locations (downloads : request.cmd = .download) :
      Proper user request trace (.metadata ⟨user, .locations, request.fields, none, none⟩)
  | get {cid : Ident} {length : Nat} {sha : Option Sha} {positions : List (NodeId × String)}
      (located : Locates trace cid length sha positions) {nid : NodeId} {address : String}
      (listed : (nid, address) ∈ positions) : Proper user request trace (.get address cid length sha)
  | manifest (downloads : request.cmd = .download) :
      Proper user request trace (.metadata ⟨user, .manifest, request.fields, none, none⟩)
  | mark {cid : Ident} {length : Nat} {sha : Option Sha} {positions : List (NodeId × String)}
      (located : Locates trace cid length sha positions) {nid : NodeId} {address : String}
      (listed : (nid, address) ∈ positions) :
      Proper user request trace
        (.metadata ⟨user, .badReplica, request.fields, some cid, some nid⟩)

/-- Where the value of a request comes from. -/
inductive Sourced (trace : Exchanges) : Result → Prop where
  | metadata {request : Internal} {response : Response} {effect : Effect}
      (answered : requestOf request (.ok response) effect ∈ trace) :
      Sourced trace (.metadata response)
  | content {cid : Ident} {length : Nat} {sha : Option Sha} {positions : List (NodeId × String)}
      (located : Locates trace cid length sha positions) {nid : NodeId} {address : String}
      (listed : (nid, address) ∈ positions) {data : Bytes} {effect : Effect}
      (read : readOf address cid length sha (.ok data) effect ∈ trace) :
      Sourced trace (.content data.length sha data)

/-- A request of the user leaves the rows of others alone, and they do not
matter to what it is answered. -/
structure Isolated (digest : Bytes → Sha) (e : Engine) (c : Config) (user : String)
    (request : Request) (trace : Exchanges) (result : Except Failure Result) : Prop where
  kept : ∀ exchange ∈ trace, ∀ step ∈ exchange.effect.transactions,
    OthersKept user step.1 step.2
  proper : ∀ exchange ∈ trace, Proper user request trace exchange.call
  refused : ∀ first ∈ trace.head?, (∃ step ∈ first.effect.transactions,
    step.1.NamesForeign e user request.cmd request.fields) → ∃ failure, result = .error failure
  sourced : ∀ value, result = .ok value → Sourced trace value
  answers : ∀ asked response effect, requestOf asked (.ok response) effect ∈ trace →
    ∃ effect' : Effect, Serves digest e c (.metadata asked) (.ok response) effect' ∧
      effect'.transactions.map Prod.fst =
        effect.transactions.map fun step => step.1.own user

/-- The tables of a transaction have their foreign keys, and the key of the
command selects no mixed rows. -/
def Sound (e : Engine) (user : String) (cmd : Cmd) (fields : Fields) (db : Database) : Prop :=
  Keyed db ∧ db.Unmixed e user cmd fields

section Services

variable {digest : Bytes → Sha} {e : Engine} {c : Config}

theorem serves_kept {request : Internal} {answer : Except Failure Response} {effect : Effect}
    (served : Serves digest e c (.metadata request) answer effect)
    (sound : ∀ step ∈ effect.transactions, Sound e request.owner request.cmd request.fields step.1) :
    ∀ step ∈ effect.transactions, OthersKept request.owner step.1 step.2 := by
  cases served with
  | refused raised copy => simp
  | unconfirmed confirms named now db raised => simpa using .refl request.owner db
  | transaction single now ident db answered =>
      simp only [List.forall_mem_singleton] at sound ⊢
      cases dispatched : db.dispatchBy e c now ident request with
      | error failure => exact .refl _ db
      | ok result => exact Database.dispatchBy_kept sound.1 sound.2 dispatched
  | @confirmed _ confirms _ _ named now now' db db' later op begun _ answered =>
      obtain ⟨_, _, _, owner⟩ := Database.confirmBegin_owner begun
      simp only [List.forall_mem_cons]
      refine ⟨.refl _ db, ?_, by simp⟩
      cases committing : db'.confirmCommit c now' op with
      | error failure => exact .refl _ db'
      | ok result => exact Database.confirmCommit_kept (later.chunkOwner owner) committing

/-- An answer is one that the user's own rows give. -/
theorem serves_own {request : Internal} {response : Response} {effect : Effect}
    (served : Serves digest e c (.metadata request) (.ok response) effect)
    (sound : ∀ step ∈ effect.transactions, Sound e request.owner request.cmd request.fields step.1) :
    ∃ effect' : Effect, Serves digest e c (.metadata request) (.ok response) effect' ∧
      effect'.transactions.map Prod.fst =
        effect.transactions.map fun step => step.1.own request.owner := by
  generalize given : (Except.ok response : Except Failure Response) = answer at served
  cases served with
  | refused raised copy => cases given
  | unconfirmed confirms named now db raised => cases given
  | transaction single now ident db answered =>
      simp only [List.forall_mem_singleton] at sound
      rcases answered with rfl | ⟨_, _, rfl⟩
      · cases dispatched : db.dispatchBy e c now ident request with
        | error failure => simp [dispatched, reply, Except.map] at given
        | ok result =>
            simp only [dispatched, reply, Except.map, Except.ok.injEq] at given
            obtain ⟨after, confined⟩ := Database.dispatchBy_own sound.1 sound.2 dispatched
            subst given
            have replayed : Serves digest e c (.metadata request) (.ok result.1)
                ⟨[(db.own request.owner, after)], none⟩ := .answered single confined
            exact ⟨_, replayed, rfl⟩
      · cases given
  | @confirmed _ confirms _ _ named now now' db db' later op begun _ answered =>
      obtain ⟨same, _, uploader, holder⟩ := Database.confirmBegin_owner begun
      rcases answered with rfl | ⟨_, _, rfl⟩
      · cases committing : db'.confirmCommit c now' op with
        | error failure => simp [committing, reply, Except.map] at given
        | ok result =>
            simp only [committing, reply, Except.map, Except.ok.injEq] at given
            obtain ⟨after, confined⟩ := Database.confirmCommit_own
              (same ▸ later.uploadOwner uploader) (later.chunkOwner holder) committing
            refine ⟨_, .confirmed confirms named now now' (later.own request.owner)
              (Database.confirmBegin_own begun) (.inl ?_), rfl⟩
            rw [confined]
            rfl
      · cases given

theorem serves_named {request : Internal} (single : request.cmd ≠ .confirm) {response : Response}
    {effect : Effect} (served : Serves digest e c (.metadata request) (.ok response) effect)
    (sound : ∀ step ∈ effect.transactions, Sound e request.owner request.cmd request.fields step.1) :
    ∀ step ∈ effect.transactions,
      ¬step.1.NamesForeign e request.owner request.cmd request.fields := by
  generalize given : (Except.ok response : Except Failure Response) = answer at served
  cases served with
  | refused raised copy => simp
  | unconfirmed confirms named now db raised => cases given
  | confirmed confirms => exact absurd confirms single
  | transaction _ now ident db answered =>
      simp only [List.forall_mem_singleton] at sound ⊢
      rcases answered with rfl | ⟨_, _, rfl⟩
      · cases dispatched : db.dispatchBy e c now ident request with
        | error failure => simp [dispatched, reply, Except.map] at given
        | ok result => exact Database.dispatchBy_own_named sound.2 dispatched
      · cases given

end Services

section Handler

variable {digest : Bytes → Sha} {e : Engine} {c : Config} {user : String} {request : Request}
  {data : Bytes} {trace : Exchanges} {result : Except Failure Result}

theorem Proper.asks {asked : Internal} (proper : Proper user request trace (.metadata asked)) :
    asked.owner = user ∧ asked.fields = request.fields := by
  cases proper <;> exact ⟨rfl, rfl⟩

/-- What a handler calls, where its value comes from and what it asks first. -/
structure Handled (user : String) (request : Request) (trace : Exchanges)
    (result : Except Failure Result) : Prop where
  proper : ∀ exchange ∈ trace, Proper user request trace exchange.call
  sourced : ∀ value, result = .ok value → Sourced trace value
  opened : ∀ value, result = .ok value → ∃ cmd response effect rest,
    trace = requestOf ⟨user, cmd, request.fields, none, none⟩ (.ok response) effect :: rest ∧
      cmd ≠ .confirm ∧ (cmd = request.cmd ∨ request.cmd = .upload ∧ cmd = .prepare ∨
        request.cmd = .download ∧ cmd = .locations)

theorem Handled.failed (failure : Failure) : Handled user request [] (.error failure) :=
  ⟨by simp, by simp, by simp⟩

theorem dispatch_passed (pass : request.cmd ∈ allowed)
    (authenticated : authenticate c request = .ok user) :
    dispatch digest c request data = (do
      demand (data = []) .invalid "invalid request"
      let response ← metadata ⟨user, request.cmd, request.fields, none, none⟩
      return .metadata response) := by
  simp only [dispatch, authenticated, if_pos pass]
  rfl

theorem passed_handled (pass : request.cmd ∈ allowed)
    (authenticated : authenticate c request = .ok user)
    (executed : Program.Executes (Serves digest e c) (dispatch digest c request data) trace result) :
    Handled user request trace result := by
  rw [dispatch_passed pass authenticated] at executed
  rcases Program.executes_lift_bind.mp executed with
    ⟨failure, _, rfl, rfl⟩ | ⟨_, _, continued⟩
  · exact .failed failure
  obtain ⟨answer, effect, rest, rfl, _, ended⟩ := Program.executes_send_bind.mp continued
  have confirms : request.cmd ≠ .confirm := by
    intro confirms
    simp [confirms, allowed] at pass
  have only : rest = [] := by
    rcases ended with ⟨_, _, rfl, _⟩ | ⟨_, _, returned⟩
    · rfl
    · exact (Program.executes_pure.mp returned).1
  subst only
  refine ⟨by simpa using Proper.passed pass, ?_, ?_⟩
  · rintro value rfl
    rcases ended with ⟨_, _, _, failed⟩ | ⟨response, answered, returned⟩
    · cases failed
    · cases answered
      cases (Program.executes_pure.mp returned).2
      exact .metadata List.mem_cons_self
  · rintro value rfl
    rcases ended with ⟨_, _, _, failed⟩ | ⟨response, answered, _⟩
    · cases failed
    · cases answered
      exact ⟨_, _, _, _, rfl, confirms, .inl rfl⟩

/-- The calls of a download once the chunk is located. -/
inductive ReadCall (user : String) (fields : Fields) (cid : Ident) (length : Nat)
    (sha : Option Sha) (positions : List (NodeId × String)) : Call → Prop where
  | get {nid : NodeId} {address : String} (listed : (nid, address) ∈ positions) :
      ReadCall user fields cid length sha positions (.get address cid length sha)
  | manifest :
      ReadCall user fields cid length sha positions
        (.metadata ⟨user, .manifest, fields, none, none⟩)
  | mark {nid : NodeId} {address : String} (listed : (nid, address) ∈ positions) :
      ReadCall user fields cid length sha positions
        (.metadata ⟨user, .badReplica, fields, some cid, some nid⟩)

section Reads

variable {fields : Fields} {cid : Ident} {length : Nat} {sha : Option Sha}

theorem ReadCall.mono {positions positions' : List (NodeId × String)}
    (subset : positions ⊆ positions') {call : Call}
    (reads : ReadCall user fields cid length sha positions call) :
    ReadCall user fields cid length sha positions' call := by
  cases reads with
  | get listed => exact .get (subset listed)
  | manifest => exact .manifest
  | mark listed => exact .mark (subset listed)

theorem readCopy_calls {nid : NodeId} {address : String} {positions : List (NodeId × String)}
    (listed : (nid, address) ∈ positions)
    (executed : Program.Executes (Serves digest e c)
      (readCopy digest user fields cid length sha address) trace result) :
    ∀ exchange ∈ trace, ReadCall user fields cid length sha positions exchange.call := by
  rcases executes_readCopy executed with ⟨_, _, _, _, rfl⟩ | ⟨_, _, _, _, _, rfl, _⟩
  · simpa [readOf] using .get listed
  · simpa [readOf, requestOf] using ⟨.get listed, .manifest⟩

theorem readAny_calls {positions : List (NodeId × String)}
    (executed : Program.Executes (Serves digest e c)
      (readAny digest user fields cid length sha positions) trace result) :
    (∀ exchange ∈ trace, ReadCall user fields cid length sha positions exchange.call) ∧
    ∀ value, result = .ok value → ∃ nid address content effect, (nid, address) ∈ positions ∧
      readOf address cid length sha (.ok content) effect ∈ trace ∧
        value = .content content.length sha content := by
  induction positions generalizing trace with
  | nil =>
      obtain ⟨rfl, rfl⟩ := Program.executes_done.mp executed
      simp
  | cons position rest inductionHypothesis =>
      rcases position with ⟨nid, address⟩
      rcases Program.executes_recover.mp executed with
        ⟨value, attempted, rfl⟩ | ⟨failure, earlier, later, rfl, attempted, handled⟩
      · refine ⟨readCopy_calls List.mem_cons_self attempted, ?_⟩
        rintro _ ⟨⟩
        rcases executes_readCopy attempted with
          ⟨_, _, _, same, _⟩ | ⟨content, effect, _, _, _, rfl, ended⟩
        · cases same
        · rcases ended with ⟨_, _, _, same⟩ | ⟨_, _, same⟩
          · cases same
          · exact ⟨nid, address, content, effect, List.mem_cons_self, List.mem_cons_self,
              Except.ok.inj same⟩
      · have listed : (nid, address) ∈ (nid, address) :: rest := List.mem_cons_self
        have first := readCopy_calls listed attempted
        simp only [List.forall_mem_append]
        split at handled
        · obtain ⟨rfl, rfl⟩ := Program.executes_done.mp handled
          exact ⟨⟨first, by simp⟩, by simp⟩
        · obtain ⟨answer, effect, following, rfl, _, ended⟩ :=
            Program.executes_send_bind.mp handled
          rcases ended with ⟨_, _, rfl, rfl⟩ | ⟨_, _, continued⟩
          · exact ⟨⟨first, by simpa using .mark List.mem_cons_self⟩, by simp⟩
          · obtain ⟨calls, content⟩ := inductionHypothesis continued
            refine ⟨⟨first, List.forall_mem_cons.mpr ⟨.mark List.mem_cons_self,
              fun exchange membership => (calls exchange membership).mono
                (List.subset_cons_self _ _)⟩⟩, ?_⟩
            intro value finished
            obtain ⟨other, place, content, effect, listed, read, same⟩ := content value finished
            exact ⟨other, place, content, effect, List.mem_cons_of_mem _ listed,
              List.mem_append_right _ (List.mem_cons_of_mem _ read), same⟩

end Reads

theorem download_handled (downloads : request.cmd = .download)
    (executed : Program.Executes (Serves digest e c) (download digest user request.fields) trace
      result) :
    Handled user request trace result := by
  obtain ⟨answer, effect, rest, rfl, -, ended⟩ := Program.executes_send_bind.mp executed
  rcases ended with ⟨failure, rfl, rfl, rfl⟩ | ⟨response, rfl, continued⟩
  · exact ⟨by simpa using .locations downloads, by simp, by simp⟩
  have opens : ∀ value, result = .ok value → ∃ cmd response' effect' rest',
      requestOf ⟨user, .locations, request.fields, none, none⟩ (.ok response) effect :: rest =
        requestOf ⟨user, cmd, request.fields, none, none⟩ (.ok response') effect' :: rest' ∧
      cmd ≠ .confirm ∧ (cmd = request.cmd ∨ request.cmd = .upload ∧ cmd = .prepare ∨
        request.cmd = .download ∧ cmd = .locations) :=
    fun _ _ => ⟨_, _, _, _, rfl, by decide, .inr (.inr ⟨downloads, rfl⟩)⟩
  unfold collect at continued
  split at continued
  · next cid length sha positions =>
      obtain ⟨calls, content⟩ := readAny_calls continued
      have located : Locates (requestOf ⟨user, .locations, request.fields, none, none⟩
          (.ok (.reply (.located cid length sha positions))) effect :: rest) cid length sha
          positions := ⟨_, _, _, rfl⟩
      refine ⟨List.forall_mem_cons.mpr ⟨.locations downloads, ?_⟩, ?_, opens⟩
      · intro exchange membership
        have reads := calls exchange membership
        generalize exchange.call = call at reads ⊢
        cases reads with
        | get listed => exact .get located listed
        | manifest => exact .manifest downloads
        | mark listed => exact .mark located listed
      · intro value finished
        obtain ⟨nid, address, content, effect', listed, read, rfl⟩ := content value finished
        exact .content located listed (List.mem_cons_of_mem _ read)
  · obtain ⟨rfl, rfl⟩ := Program.executes_done.mp continued
    exact ⟨by simpa using .locations downloads, by simp, opens⟩

theorem upload_handled (uploads : request.cmd = .upload)
    (executed : Program.Executes (Serves digest e c) (upload digest c user request.fields data)
      trace result) :
    Handled user request trace result := by
  rcases Program.executes_lift_bind.mp executed with
    ⟨failure, _, rfl, rfl⟩ | ⟨_, _, continued⟩
  · exact .failed failure
  obtain ⟨answer, effect, rest, rfl, -, ended⟩ := Program.executes_send_bind.mp continued
  rcases ended with ⟨failure, rfl, rfl, rfl⟩ | ⟨response, rfl, delivered⟩
  · exact ⟨by simpa using .prepare uploads, by simp, by simp⟩
  have opens : ∀ value, result = .ok value → ∃ cmd response' effect' rest',
      requestOf ⟨user, .prepare, request.fields, none, none⟩ (.ok response) effect :: rest =
        requestOf ⟨user, cmd, request.fields, none, none⟩ (.ok response') effect' :: rest' ∧
      cmd ≠ .confirm ∧ (cmd = request.cmd ∨ request.cmd = .upload ∧ cmd = .prepare ∨
        request.cmd = .download ∧ cmd = .locations) :=
    fun _ _ => ⟨_, _, _, _, rfl, by decide, .inr (.inl ⟨uploads, rfl⟩)⟩
  unfold deliver at delivered
  split at delivered
  · next cid length sha positions =>
      have prepared : Prepares (requestOf ⟨user, .prepare, request.fields, none, none⟩
          (.ok (.prepared cid length sha positions)) effect :: rest) cid length sha positions :=
        ⟨_, _, _, rfl⟩
      have puts : ∀ {part : Exchanges} {ending : Except Failure Unit},
          Program.Executes (Serves digest e c) (Program.each (fun position : Assigned =>
            put position.address cid position.authorization data) positions) part ending →
          ∀ exchange ∈ part, Proper user request (requestOf
            ⟨user, .prepare, request.fields, none, none⟩
            (.ok (.prepared cid length sha positions)) effect :: rest) exchange.call := by
        intro part ending written exchange membership
        obtain ⟨position, assigned, piece, _, sent, inPiece⟩ := written.each_mem membership
        obtain ⟨_, _, rfl, _⟩ := Program.executes_send.mp sent
        obtain rfl := List.mem_singleton.mp inPiece
        exact .put prepared assigned data
      rcases Program.executes_lift_bind.mp delivered with
        ⟨failure, _, rfl, rfl⟩ | ⟨_, _, delivered⟩
      · exact ⟨by simpa using .prepare uploads, by simp, opens⟩
      rcases Program.executes_bind.mp delivered with
        ⟨failure, written, rfl⟩ | ⟨_, earlier, later, rfl, written, confirmed⟩
      · exact ⟨List.forall_mem_cons.mpr ⟨.prepare uploads, puts written⟩, by simp, opens⟩
      obtain ⟨answer', effect', last, rfl, _, returned⟩ :=
        Program.executes_send_bind.mp confirmed
      have only : last = [] := by
        rcases returned with ⟨_, _, rfl, _⟩ | ⟨_, _, returned⟩
        · rfl
        · rcases Program.executes_lift_bind.mp returned with ⟨_, _, rfl, _⟩ | ⟨_, _, returned⟩
          · rfl
          · exact (Program.executes_pure.mp returned).1
      subst only
      refine ⟨List.forall_mem_cons.mpr ⟨.prepare uploads, List.forall_mem_append.mpr
        ⟨puts written, by simpa using .confirm uploads⟩⟩, ?_, opens⟩
      rintro value rfl
      rcases returned with ⟨_, _, _, failed⟩ | ⟨response, answered, returned⟩
      · cases failed
      · cases answered
        rcases Program.executes_lift_bind.mp returned with ⟨_, _, _, failed⟩ | ⟨_, _, returned⟩
        · cases failed
        · cases (Program.executes_pure.mp returned).2
          exact .metadata (List.mem_cons_of_mem _ (List.mem_append_right _ List.mem_cons_self))
  · obtain ⟨rfl, rfl⟩ := Program.executes_done.mp delivered
    exact ⟨by simpa using .prepare uploads, by simp, opens⟩

theorem put_named {address : String} {cid : Ident} {ticket : Ticket} {content : Bytes}
    {effect : Effect} (served : Serves digest e c (.put address cid ticket content) (.ok ()) effect) :
    (ticket.upload.bind Value.ident?).isSome := by
  generalize given : (Except.ok () : Except Failure Unit) = answer at served
  cases served with
  | refused raised copy => cases given
  | stored accepted =>
      simp only [Node.put, Node.checkTarget, bind_eq_ok, require_eq_ok, found_eq_ok] at accepted
      obtain ⟨_, ⟨_, _, _, _, upload, named, _, _, identified⟩, _⟩ := accepted
      simpa [named] using identified

theorem confirm_named {fields : Fields}
    (executed : Program.Executes (Serves digest e c) (upload digest c user fields data) trace result)
    (replicated : ∀ exchange ∈ trace, ∀ step ∈ exchange.effect.transactions, ∀ oid object,
      step.1.objects.get? oid = some object → 0 < object.replicas) :
    ∀ exchange ∈ trace, ∀ asked, exchange.call = .metadata asked → asked.cmd = .confirm →
      (confirmed? fields).isSome := by
  rcases Program.executes_lift_bind.mp executed with ⟨_, _, rfl, _⟩ | ⟨_, _, continued⟩
  · simp
  obtain ⟨answer, effect, rest, rfl, served, ended⟩ := Program.executes_send_bind.mp continued
  simp only [List.forall_mem_cons] at replicated ⊢
  refine ⟨by rintro asked ⟨⟩ ⟨⟩, ?_⟩
  rcases ended with ⟨_, _, rfl, _⟩ | ⟨response, rfl, delivered⟩
  · simp
  obtain ⟨now, ident, db, db', dispatched, rfl⟩ := prepare_served served
  simp only [Database.dispatchBy, bind_eq_ok] at dispatched
  obtain ⟨_, _, sel, _, prepared⟩ := dispatched
  obtain ⟨_, checksum, cid, chunk, positions, sequence, _, _, _, rfl, _⟩ :=
    Database.prepareBy_ok prepared
  obtain ⟨⟨oid, object, located, counted⟩, tickets⟩ := Database.prepareBy_positions prepared
  rcases Program.executes_lift_bind.mp delivered with ⟨_, _, rfl, _⟩ | ⟨_, _, delivered⟩
  · simp
  rcases Program.executes_bind.mp delivered with
    ⟨failure, written, _⟩ | ⟨_, earlier, later, rfl, written, _⟩
  · intro exchange membership asked same
    obtain ⟨position, _, piece, _, sent, inPiece⟩ := written.each_mem membership
    obtain ⟨_, _, rfl, _⟩ := Program.executes_send.mp sent
    obtain rfl := List.mem_singleton.mp inPiece
    cases same
  · intro _ _ _ _ _
    cases positions with
    | nil =>
        exact absurd counted (Nat.ne_of_lt (replicated.1 (db, db') (by simp) oid object located))
    | cons head tail =>
        rcases Program.executes_bind.mp written with ⟨_, _, failed⟩ | ⟨_, _, _, _, sent, _⟩
        · cases failed
        obtain ⟨answer, _, _, accepted, given⟩ := Program.executes_send.mp sent
        obtain rfl : answer = .ok () := given.symm
        have identified := put_named accepted
        rw [tickets head List.mem_cons_self] at identified
        obtain ⟨id, identified⟩ := Option.isSome_iff_exists.mp identified
        simp [confirmed?, identified, sequence]

theorem dispatch_handled (authenticated : authenticate c request = .ok user)
    (executed : Program.Executes (Serves digest e c) (dispatch digest c request data) trace result) :
    Handled user request trace result := by
  by_cases pass : request.cmd ∈ allowed
  · exact passed_handled pass authenticated executed
  by_cases uploads : request.cmd = .upload
  · rw [dispatch_upload authenticated uploads] at executed
    exact upload_handled uploads executed
  by_cases downloads : request.cmd = .download
  · rw [dispatch_download authenticated downloads] at executed
    exact download_handled downloads executed
  have handler : dispatch digest c request data =
      .done (.error (.error ⟨.invalid, "unsupported user command"⟩)) := by
    simp only [dispatch, authenticated, if_neg pass]
    cases kind : request.cmd <;> first | contradiction | rfl
  rw [handler] at executed
  obtain ⟨rfl, rfl⟩ := Program.executes_done.mp executed
  exact .failed _

/-- A request leaves the rows of other owners alone and is answered from the
user's, in every execution in which its keys select no mixed rows. -/
theorem owners_isolated {frame : Frame}
    (authenticated : authenticate c frame.request = .ok user)
    (executed : Program.Executes (Serves digest e c) (dispatch digest c frame.request data) trace
      result)
    (sound : ∀ exchange ∈ trace, ∀ asked, exchange.call = .metadata asked →
      ∀ step ∈ exchange.effect.transactions,
        Sound e user asked.cmd frame.request.fields step.1) :
    Isolated digest e c user frame.request trace result := by
  have handled := dispatch_handled authenticated executed
  refine ⟨?_, handled.proper, ?_, handled.sourced, ?_⟩
  · intro exchange membership
    have proper := handled.proper exchange membership
    have served := executed.served membership
    have sound := sound exchange membership
    obtain ⟨call, answer, effect⟩ := exchange
    cases call with
    | metadata asked =>
        obtain ⟨owner, fields⟩ := proper.asks
        have steps := sound asked rfl
        rw [← owner, ← fields] at steps
        exact owner ▸ serves_kept served steps
    | put address cid ticket content => cases served <;> simp
    | get address cid length sha => cases served <;> simp
  · rintro first membership ⟨step, inFirst, named⟩
    cases result with
    | error failure => exact ⟨failure, rfl⟩
    | ok value =>
        obtain ⟨cmd, response, effect, rest, rfl, single, asks⟩ := handled.opened value rfl
        obtain rfl := Option.some.inj membership
        have served := executed.served List.mem_cons_self
        refine absurd ?_ (serves_named single served (sound _ List.mem_cons_self _ rfl) step inFirst)
        rcases asks with rfl | ⟨uploads, rfl⟩ | ⟨downloads, rfl⟩
        · exact named
        · rwa [uploads] at named
        · rwa [downloads] at named
  · intro asked response effect membership
    obtain ⟨owner, fields⟩ := (handled.proper _ membership).asks
    have steps := sound _ membership asked rfl
    rw [← owner, ← fields] at steps
    exact owner ▸ serves_own (executed.served membership) steps

end Handler

section Manifest

def manifestFrame : Frame
  | "owner" => some (.text "owner")
  | "token" => some (.text "token")
  | "cmd" => some (.text "manifest")
  | "object_id" => some (.ident 1000)
  | _ => none

def manifestCall : Internal := ⟨"owner", .manifest, manifestFrame.request.fields, none, none⟩

def manifestAnswer : Response × Database :=
  (published.db.dispatchBy .plain installation 0 id manifestCall).toOption.get (by decide +kernel)

def manifestTrace : Exchanges :=
  [requestOf manifestCall (.ok manifestAnswer.1) ⟨[(published.db, manifestAnswer.2)], none⟩]

theorem owners_isolated_manifest :
    Isolated sampleDigest .plain installation "owner" manifestFrame.request manifestTrace
      (.ok (.metadata manifestAnswer.1)) := by
  have credential : authenticate installation manifestFrame.request = .ok "owner" := by
    decide +kernel
  have served : Serves sampleDigest .plain installation (.metadata manifestCall)
      (.ok manifestAnswer.1) ⟨[(published.db, manifestAnswer.2)], none⟩ :=
    .answered (by decide) (eq_ok_get _)
  have executed : Program.Executes (Serves sampleDigest .plain installation)
      (dispatch sampleDigest installation manifestFrame.request []) manifestTrace
      (.ok (.metadata manifestAnswer.1)) := by
    rw [dispatch_passed (by decide) credential]
    refine Program.executes_lift_bind.mpr (.inr ⟨(), by decide +kernel, ?_⟩)
    exact Program.executes_send_bind.mpr
      ⟨_, _, _, rfl, served, .inr ⟨_, rfl, Program.executes_pure.mpr ⟨rfl, rfl⟩⟩⟩
  have reached : Reachable Metadata.metadata published :=
    ⟨_, Metadata.metadata.run publishedActions (by decide +kernel)⟩
  refine owners_isolated credential executed ?_
  simp only [manifestTrace, requestOf, List.forall_mem_singleton]
  rintro asked -
  refine ⟨(reachable_invariant reached).consistent.keyed, Database.unmixed_of_named ?_ ?_⟩
  · rintro value ⟨⟩
  · rintro value ⟨⟩
    exact ⟨rfl, by simp, by simp⟩

end Manifest

section Crossing

def shared : Config := { installation with users := [("alice", "token"), ("bob", "token")] }

/-- Both have initialized an upload, and both identifiers start with a letter. -/
def crossedActions : List Action :=
  heartbeatActions 1 ++ heartbeatActions 2 ++ heartbeatActions 3 ++
    [.request shared "alice" (.init 0 "empty") (10 * 16 ^ 31 + ·),
      .request shared "bob" (.init 1 "file") (11 * 16 ^ 31 + ·)]

def crossed : State :=
  (Metadata.metadata.execute Metadata.metadata.initial crossedActions).get (by decide +kernel)

/-- An upload whose identifier is the number zero. -/
def crossFrame : Frame
  | "owner" => some (.text "alice")
  | "token" => some (.text "token")
  | "cmd" => some (.text "upload")
  | "upload_id" => some (.int 0)
  | "seq" => some (.int 0)
  | "sha256" => some (.digest (sampleDigest [5]))
  | _ => none

def crossPrepared : Response × Database :=
  (crossed.db.dispatchBy .plain shared 0 id
    ⟨"alice", .prepare, crossFrame.request.fields, none, none⟩).toOption.get (by decide +kernel)

/-- The first location of the other user's chunk. -/
def crossLocation : Assigned :=
  ⟨1, "first:9000", ⟨some (.int 0), 11 * 16 ^ 31 + 2, 1, sampleDigest [5], 1, 201, 101, 2⟩⟩

def crossLocations : List Assigned :=
  [crossLocation,
    ⟨2, "second:9000", ⟨some (.int 0), 11 * 16 ^ 31 + 2, 1, sampleDigest [5], 2, 202, 102, 2⟩⟩]

theorem crossPrepared_response :
    crossPrepared.1 = .prepared (11 * 16 ^ 31 + 2) 1 (sampleDigest [5]) crossLocations := by
  decide +kernel

def crossCall : Internal := ⟨"alice", .prepare, crossFrame.request.fields, none, none⟩

/-- The first node refuses a write whose authorization names no identifier. -/
def crossTrace : Exchanges :=
  [requestOf crossCall (.ok crossPrepared.1) ⟨[(crossed.db, crossPrepared.2)], none⟩,
    ⟨.put "first:9000" (11 * 16 ^ 31 + 2) crossLocation.authorization [5],
      .error (.error ⟨.internal, "internal service error"⟩), ⟨[], none⟩⟩]

theorem crossCredential : authenticate shared crossFrame.request = .ok "alice" := by
  decide +kernel

theorem cross_executed :
    Program.Executes (Serves sampleDigest .plain shared)
      (dispatch sampleDigest shared crossFrame.request [5]) crossTrace
      (.error (.error ⟨.internal, "internal service error"⟩)) := by
  rw [dispatch_upload crossCredential rfl]
  have served : Serves sampleDigest .plain shared (.metadata crossCall)
      (.ok crossPrepared.1) ⟨[(crossed.db, crossPrepared.2)], none⟩ :=
    .answered (by decide) (eq_ok_get _)
  refine Program.executes_lift_bind.mpr (.inr ⟨(), by decide +kernel, ?_⟩)
  refine Program.executes_send_bind.mpr ⟨_, _, _, rfl, served, .inr ⟨_, rfl, ?_⟩⟩
  rw [crossPrepared_response]
  refine Program.executes_lift_bind.mpr (.inr ⟨(), by decide +kernel, ?_⟩)
  refine Program.executes_bind.mpr (.inl ⟨_, Program.executes_bind.mpr (.inl ⟨_, ?_, rfl⟩), rfl⟩)
  refine Program.executes_send.mpr ⟨_, _, rfl, ?_, rfl⟩
  exact .refused (by decide) none

/-- The upload of one user fixes the checksum of the other's chunk. -/
theorem mixed_key_crosses :
    Reachable Metadata.metadata crossed ∧
      authenticate shared crossFrame.request = .ok "alice" ∧
      Program.Executes (Serves sampleDigest .plain shared)
        (dispatch sampleDigest shared crossFrame.request [5]) crossTrace
        (.error (.error ⟨.internal, "internal service error"⟩)) ∧
      ∃ exchange ∈ crossTrace, ∃ step ∈ exchange.effect.transactions, step.1 = crossed.db ∧
        step.1.chunkOwner (11 * 16 ^ 31 + 2) = some "bob" ∧
        (step.1.chunks.get? (11 * 16 ^ 31 + 2)).map ChunkRow.sha = some none ∧
        (step.2.chunks.get? (11 * 16 ^ 31 + 2)).map ChunkRow.sha =
          some (some (sampleDigest [5])) :=
  ⟨⟨_, Metadata.metadata.run crossedActions (by decide +kernel)⟩, crossCredential, cross_executed,
    _, List.mem_cons_self, (crossed.db, crossPrepared.2), List.mem_cons_self, rfl,
    by decide +kernel, by decide +kernel, by decide +kernel⟩

end Crossing

end FileServer.Gateway
