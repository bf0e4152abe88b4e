/-
  What the manager's handlers call: its database, by the text of a statement, and the rbac
  server, by the method of `rbac.Client`. A handler is a program over these calls; what the
  database and the rbac server answer, and what they do to their state, is left to the server
  the program is run against.
-/
import Doodle.Lib.Prog

namespace Doodle.Manager

open Doodle.Lib

/-- A column of a row. -/
inductive Cell where
  | int (n : Int)
  | text (s : String)
  deriving DecidableEq, Repr

abbrev Row := List Cell

/-- The methods of `rbac.Client` the handlers use. -/
inductive RbacCall where
  | postRole (name comments user email : String)
  | putRole (roleID : Int) (name comments : String)
  | deleteRole (id : Int) (name : String)
  | putUser (id : Int) (name email : String)
  | postRoleUser (roleID : Int) (name email : String)
  | getRoleUsers (roleID : Int)
  | deleteRoleUser (roleID : Int) (email : String)
  | getResourceRoles (resID : Int)
  | postRoleResource (roleID resID : Int)
  | deleteResourceRole (resID roleID : Int)
  deriving DecidableEq, Repr

/-- `mdb.GetConnection()`, `db.Query` and `db.Exec` with the statement's text and arguments, and
    the calls to the rbac server. -/
inductive Call where
  | connect
  | query (sql : String) (args : List Int)
  | exec (sql : String)
  | rbac (c : RbacCall)
  deriving DecidableEq, Repr

/-- What a method of `rbac.Client` returns next to its error. -/
@[reducible] def RbacCall.Data : RbacCall → Type
  | .postRole .. | .postRoleUser .. | .postRoleResource .. => Int
  | .getRoleUsers _ | .getResourceRoles _ => List Row
  | _ => Unit

/-- What a call returns next to its error. -/
@[reducible] def Call.Data : Call → Type
  | .query .. => List Row
  | .rbac c => c.Data
  | _ => Unit

/-- The answer to a call: an error by its text, or the data. -/
abbrev Answer (c : Call) : Type := Except String c.Data

abbrev Act (α : Type) := ExceptT String (Prog Answer) α

/-- Make a call and go on with its data; an error ends the action. -/
def ask (c : Call) : Act c.Data := ExceptT.mk (Prog.call c)

/-- An answer to every call, for looking at the calls of a program. -/
def RbacCall.sample : (c : RbacCall) → c.Data
  | .postRole .. | .postRoleUser .. | .postRoleResource .. => (0 : Int)
  | .getRoleUsers _ | .getResourceRoles _ => [[.int 0]]
  | .putRole .. | .deleteRole .. | .putUser .. | .deleteRoleUser .. | .deleteResourceRole .. => ()

def Call.sample : (c : Call) → Answer c
  | .connect | .exec _ => .ok ()
  | .query .. => .ok [[.int 0]]
  | .rbac c => .ok c.sample

end Doodle.Manager
