import CliPos.Model.TwoTills
import CliPos.Model.Form

/-!
# Two tills with a form open

Two clients that each run `add_modify_product` on one code, inside a transaction:
`get_product_data` shows the product, the user answers the prompts, and `update_stock` looks
the code up, writes and is committed (`takeStep`).  What a user types depends on nothing but
the product shown.
-/

set_option autoImplicit false

namespace CliPos

/-- The steps of a client: `get_product_data`, or a step of `update_stock` with the answers
of the form. -/
inductive FormAction where
  | read
  | save (action : Action)
  deriving DecidableEq, Repr

/-- A step of one of the clients. -/
structure FormEvent where
  till : Till
  action : FormAction
  deriving DecidableEq, Repr

/-- The shop, and the products that the two forms were opened on. -/
structure Forms where
  shop : Shop
  shown : Till → Option Product

/-- Both clients are about to open the form. -/
def Forms.opened (t : Table) : Forms where
  shop := .opened t
  shown _ := none

/-- The form shows a product to a client. -/
def Forms.display (s : Forms) (c : Till) (old : Product) : Forms :=
  { s with shown := Function.update s.shown c (some old) }

/-- The product to save that the form ends with, when these are the keys typed on the
product shown; nothing when it is cancelled, or ends in an exception. -/
def filledForm (maxNameLength : ℤ) (keys : Product → List Key) (old : Product) :
    Option Product :=
  match formAnswers maxNameLength true old (keys old) with
  | .ok (some answers) _ => (answers.toProduct old).toOption
  | _ => none

/-- One step of a client.  No value when it is not the client's turn to take it. -/
def takeFormStep (srv : Server) (maxNameLength : ℤ) (productCode : ℤ)
    (keys : Till → Product → List Key) (s : Forms) (e : FormEvent) : Option Forms :=
  match s.shown e.till, e.action with
  | none, .read => (getProductData productCode s.shop.table).toOption.map (s.display e.till)
  | some old, .save action =>
    (filledForm maxNameLength (keys e.till) old).bind fun p =>
      (takeStep srv (fun _ => p) s.shop ⟨e.till, action⟩).map fun shop => { s with shop }
  | _, _ => none

/-- The steps of one client, in its own order. -/
def formTransaction (c : Till) : List FormEvent :=
  ⟨c, .read⟩ :: (transaction c).map fun e => ⟨e.till, .save e.action⟩

end CliPos
