import CliPos.Model.Database
import CliPos.Lib.Protocol

/-!
# Two tills at one database

Two clients that each run `update_stock` on a product of their own, inside a transaction of
the isolation level read committed: a statement sees what was committed before it, an
`UPDATE` waits for a row that the other transaction wrote, and what a transaction wrote
becomes part of the table at its commit.  Nothing forbids two rows of one code.
-/

set_option autoImplicit false

namespace CliPos

/-- The clients. -/
inductive Till where
  | first
  | second
  deriving DecidableEq, Repr

/-- The other client. -/
def Till.other : Till → Till
  | first => second
  | second => first

/-- The steps of a client: the lookup of `product_exists`, the `UPDATE` or `INSERT`, and
the commit. -/
inductive Action where
  | lookup
  | write
  | commit
  deriving DecidableEq, Repr

/-- A step of one of the clients. -/
structure Event where
  till : Till
  action : Action
  deriving DecidableEq, Repr

/-- How far a client is. -/
inductive Phase where
  | start
  /-- `product_exists` returned. -/
  | looked (found : Bool)
  /-- The `UPDATE` wrote the rows at these positions, and holds them. -/
  | updated (rows : List ℕ)
  | inserted
  /-- The server took a text with a quote in its name for something else: the table it
  leaves, when nobody else writes. -/
  | sent (table : Table)
  | committed
  deriving DecidableEq

/-- The table, as far as it is committed, and the two clients. -/
structure Shop where
  table : Table
  phase : Till → Phase

/-- Both clients are about to run `update_stock`. -/
def Shop.opened (t : Table) : Shop where
  table := t
  phase _ := .start

/-- A client is in another phase. -/
def Shop.enter (s : Shop) (c : Till) (phase : Phase) : Shop :=
  { s with phase := Function.update s.phase c phase }

/-- The positions of the rows under a code. -/
def rowsWith (code : ℤ) (t : Table) : List ℕ :=
  (List.range t.length).filter fun i => t[i]?.map Row.code = some code

/-- The row of the product in the place of the rows at some positions. -/
def writeRows (p : Product) (rows : List ℕ) (t : Table) : Table :=
  t.mapIdx fun i r => if i ∈ rows then rowOf p else r

/-- The rows that an open transaction has written. -/
def Phase.held : Phase → List ℕ
  | updated rows => rows
  | _ => []

/-- The table after the commit of a client that has written. -/
def Phase.apply (p : Product) (t : Table) : Phase → Option Table
  | updated rows => some (writeRows p rows t)
  | inserted => some (insertRow p t)
  | sent t' => some t'
  | _ => none

/-- The statement of `update_stock` after the lookup: the phase it leads to.  No value when
it has to wait for a row, or when the server rejects it. -/
def sendStatement (srv : Server) (p : Product) (found : Bool) (t : Table) (held : List ℕ) :
    Option Phase :=
  if quote ∈ p.name then (srv.quoted found p t).map .sent
  else if 0 ∈ p.name ∨ p.taxChar = 0 ∨ p.taxChar = quote then none
  else if found then
    if ∃ i ∈ rowsWith p.code t, i ∈ held then none
    else some (.updated (rowsWith p.code t))
  else some .inserted

/-- One step of a client.  No value when it is not the client's turn to take it. -/
def takeStep (srv : Server) (product : Till → Product) (s : Shop) (e : Event) : Option Shop :=
  let p := product e.till
  match s.phase e.till, e.action with
  | .start, .lookup =>
    match productExists p.code s.table with
    | .error _ => none
    | .ok found => some (s.enter e.till (.looked found))
  | .looked found, .write =>
    (sendStatement srv p found s.table (s.phase e.till.other).held).map (s.enter e.till)
  | phase, .commit =>
    (phase.apply p s.table).map fun t => { s.enter e.till .committed with table := t }
  | _, _ => none

/-- The steps of one client, in its own order. -/
def transaction (c : Till) : List Event := [⟨c, .lookup⟩, ⟨c, .write⟩, ⟨c, .commit⟩]

end CliPos
