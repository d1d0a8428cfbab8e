import FileServer.Metadata.Dispatch
import FileServer.Metadata.Tasks
import FileServer.Metadata.Maintenance

/-!
# What the helpers change

Closed forms of the helpers that run inside a transaction: which tables they
leave alone, and what they do to the others row by row.
-/

namespace FileServer.Metadata

open FileServer.Relational FileServer.Transition

namespace NodeRow

def adjust (node : NodeRow) (reserved used : Int) : NodeRow :=
  { node with reserved := node.reserved + reserved, usedBytes := node.usedBytes + used }

@[simp] theorem adjust_inst (node : NodeRow) (r u : Int) : (node.adjust r u).inst = node.inst := rfl
@[simp] theorem adjust_volume (node : NodeRow) (r u : Int) :
    (node.adjust r u).volume = node.volume := rfl
@[simp] theorem adjust_zero (node : NodeRow) : node.adjust 0 0 = node := by simp [adjust]

end NodeRow

namespace Database

variable (db : Database)

section Frames

variable (cid : Ident) (nid : NodeId) (length : Nat)

/-- What a replica row owes its node in one counter. -/
def owed (kind : Charge) : Int :=
  if ∃ row ∈ db.replicas.get? (cid, nid), row.charged = kind then length else 0

theorem uncharge_eq : db.uncharge cid nid length =
    { db with
      nodes := db.nodes.modify nid fun node =>
        node.adjust (-db.owed cid nid length .reserved) (-db.owed cid nid length .used)
      replicas := db.replicas.modify (cid, nid) fun row => { row with charged := .none } } := by
  unfold uncharge owed
  cases stored : db.replicas.get? (cid, nid) with
  | none =>
      have keepRow : db.replicas.modify (cid, nid) (fun row => { row with charged := .none }) =
          db.replicas := Table.modify_eq_self _ (by simp [stored])
      have keepNode : db.nodes.modify nid (fun node => node) = db.nodes :=
        Table.modify_eq_self _ (by simp)
      simp [keepRow, keepNode]
  | some row =>
      cases charge : row.charged with
      | reserved => simp [charge, modifyNode, modifyReplica, NodeRow.adjust, sub_eq_add_neg]
      | used => simp [charge, modifyNode, modifyReplica, NodeRow.adjust, sub_eq_add_neg]
      | none =>
          have keepRow : db.replicas.modify (cid, nid) (fun row => { row with charged := .none }) =
              db.replicas := Table.modify_eq_self _ (by
                intro other same
                rw [stored, Option.some.injEq] at same
                subst same
                cases row
                simp_all)
          have keepNode : db.nodes.modify nid (fun node => node) = db.nodes :=
            Table.modify_eq_self _ (by simp)
          simp [charge, keepRow, keepNode]

theorem settle_eq : db.settle cid nid length =
    { db with
      nodes := db.nodes.modify nid fun node => node.adjust (-length) length
      replicas := db.replicas.modify (cid, nid) fun row =>
        { row with state := .valid, charged := .used } } := by
  simp [settle, modifyReplica, modifyNode, NodeRow.adjust, sub_eq_add_neg]

theorem reserveOn_eq (volume : Ident) : db.reserveOn cid nid volume length =
    { db with
      nodes := db.nodes.modify nid fun node => node.adjust length 0
      replicas := db.replicas.upsert (cid, nid) ⟨volume, .reserved, .reserved⟩
        fun _ => ⟨volume, .reserved, .reserved⟩ } := by
  simp [reserveOn, NodeRow.adjust]

theorem enqueue_eq (now : Time) (kind : TaskKind) (node : Option NodeId) (delay : Nat) :
    db.enqueue now kind cid node delay =
      { db with
        tasks := db.tasks.upsert ⟨kind, cid, node⟩
          ⟨.pending, if delay = 0 then 0 else now + delay, none, 0, ""⟩ fun task =>
          if task.state = .done then
            { task with lease := if delay = 0 then 0 else now + delay, state := .pending }
          else task } := rfl

end Frames

section Reservation

/-- The rounds of `reserve` over the nodes it chose. -/
def reserveAll (cid : Ident) (length : Nat) (targets : List (NodeId × NodeRow))
    (db : Database) : Database :=
  targets.foldl (fun db target => db.reserveOn cid target.1 target.2.volume length) db

theorem reserveLoop_eq (c : Config) (now : Time) (cid : Ident) (length count : Nat)
    (excluded : List NodeId) (nodes : List (NodeId × NodeRow)) (chosen : List NodeId)
    (db : Database) :
    ∃ targets : List (NodeId × NodeRow), targets.Sublist nodes ∧
      (∀ target ∈ targets, target.1 ∉ excluded ∧ target.2.Admits c now length) ∧
      reserveLoop c now cid length count excluded nodes chosen db =
        (chosen ++ targets.map Prod.fst, reserveAll cid length targets db) := by
  induction nodes generalizing chosen db with
  | nil => exact ⟨[], by simp, by simp, by simp [reserveLoop, reserveAll]⟩
  | cons entry rest inductionHypothesis =>
      rcases entry with ⟨nid, node⟩
      simp only [reserveLoop]
      split
      · obtain ⟨targets, sub, admitted, result⟩ := inductionHypothesis chosen db
        exact ⟨targets, sub.cons _, admitted, result⟩
      next eligible =>
        simp only [not_or, not_not] at eligible
        split
        · obtain ⟨targets, sub, admitted, result⟩ := inductionHypothesis chosen db
          exact ⟨targets, sub.cons _, admitted, result⟩
        next room =>
          have admits : node.Admits c now length := ⟨eligible.2, not_lt.mp room⟩
          split
          · exact ⟨[(nid, node)], by simp, by simpa using ⟨eligible.1, admits⟩,
              by simp [reserveAll]⟩
          · obtain ⟨targets, sub, admitted, result⟩ :=
              inductionHypothesis (chosen ++ [nid]) (db.reserveOn cid nid node.volume length)
            refine ⟨(nid, node) :: targets, sub.cons_cons _, ?_, ?_⟩
            · simpa using ⟨⟨eligible.1, admits⟩, fun first second => admitted (first, second)⟩
            · rw [result]
              simp [reserveAll]

/-- The nodes `reserve` chose: distinct, not excluded and admitted as they
were stored. -/
structure Chosen (c : Config) (now : Time) (length : Nat) (excluded : List NodeId)
    (targets : List (NodeId × NodeRow)) : Prop where
  distinct : (targets.map Prod.fst).Nodup
  stored : ∀ target ∈ targets, db.nodes.get? target.1 = some target.2
  admitted : ∀ target ∈ targets, target.2.Admits c now length
  outside : ∀ target ∈ targets, target.1 ∉ excluded

theorem reserve_ok {c : Config} {now : Time} {cid : Ident} {length count : Nat}
    {excluded : List NodeId} {chosen : List NodeId} {after : Database}
    (reserved : reserve c now db cid length count excluded = .ok (chosen, after)) :
    ∃ targets, db.Chosen c now length excluded targets ∧
      chosen = targets.map Prod.fst ∧ targets.length = count ∧
      after = reserveAll cid length targets db := by
  obtain ⟨targets, sub, admitted, result⟩ :=
    reserveLoop_eq c now cid length count excluded db.nodesByLoad [] db
  simp only [reserve, result, bind_eq_ok, require_eq_ok, pure_eq_ok, List.nil_append,
    Prod.mk.injEq, List.length_map] at reserved
  obtain ⟨_, counted, rfl, rfl⟩ := reserved
  have ordered : db.nodesByLoad.Perm db.nodes.rows := List.perm_insertionSort _ _
  refine ⟨targets, ⟨?_, ?_, fun target membership => (admitted target membership).2,
    fun target membership => (admitted target membership).1⟩, rfl, counted, rfl⟩
  · exact (sub.map Prod.fst).nodup ((ordered.map Prod.fst).nodup_iff.mpr db.nodes.keysNodup)
  · intro target membership
    exact db.nodes.mem_rows_iff.mp (ordered.mem_iff.mp (sub.subset membership))

end Reservation

end Database

end FileServer.Metadata
