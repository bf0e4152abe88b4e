/-
  The rbac database: the rows of `docs/rbac.sql`, their keys, and what `add` inserts.

  Ids and application ids are integers: the ranges of the columns and their lengths are not
  modelled. Names and emails are compared by the collation. A row that `add` finds under its
  unique key gets a new `mtime`; in `role`, `resource` and `user` the column `ctime` is declared
  `ON UPDATE CURRENT_TIMESTAMP`, so it moves too whenever the row really changes.
-/
import Doodle.Lib.Collation
import Doodle.Lib.Table

namespace Doodle.Rbac

open Doodle.Lib

/-! ## Rows -/

/-- `meta.Role`, a row of `role`. -/
structure Role where
  id : Int
  appID : Int
  name : String
  userID : Int
  comments : String
  ctime : String
  mtime : String
  deriving DecidableEq, Repr

/-- `meta.Resource`, a row of `resource`. -/
structure Resource where
  id : Int
  appID : Int
  name : String
  comments : String
  ctime : String
  mtime : String
  deriving DecidableEq, Repr

/-- `meta.User`, a row of `user`. -/
structure User where
  id : Int
  appID : Int
  name : String
  email : String
  ctime : String
  mtime : String
  deriving DecidableEq, Repr

/-- A row of `role_user`. -/
structure RoleUserRow where
  id : Int
  appID : Int
  roleID : Int
  userID : Int
  ctime : String
  mtime : String
  deriving DecidableEq, Repr

/-- A row of `role_resource`. -/
structure RoleResourceRow where
  id : Int
  appID : Int
  roleID : Int
  resourceID : Int
  ctime : String
  mtime : String
  deriving DecidableEq, Repr

/-! ## Keys -/

variable [Collating]

/-- `uniq_app_role` -/
abbrev roleSchema : Schema Role (Int × String) := ⟨(·.id), fun r => (r.appID, weight r.name)⟩

/-- `uniq_name` -/
abbrev resourceSchema : Schema Resource (Int × String) :=
  ⟨(·.id), fun r => (r.appID, weight r.name)⟩

/-- `uniq_email` -/
abbrev userSchema : Schema User (Int × String) := ⟨(·.id), fun u => (u.appID, weight u.email)⟩

/-- `uniq_relation` of `role_user` -/
abbrev roleUserSchema : Schema RoleUserRow (Int × Int × Int) :=
  ⟨(·.id), fun r => (r.appID, r.roleID, r.userID)⟩

/-- `uniq_relation` of `role_resource` -/
abbrev roleResourceSchema : Schema RoleResourceRow (Int × Int × Int) :=
  ⟨(·.id), fun r => (r.appID, r.roleID, r.resourceID)⟩

/-- The five tables. -/
structure Db where
  role : Table roleSchema
  resource : Table resourceSchema
  user : Table userSchema
  roleUser : Table roleUserSchema
  roleResource : Table roleResourceSchema

instance : Inhabited Db := ⟨⟨default, default, default, default, default⟩⟩

/-! ## What `add` inserts -/

/-- `ON UPDATE CURRENT_TIMESTAMP`: the column moves when the row changes. -/
def onUpdate (now old : String) (changed : Bool) : String := if changed then now else old

def roleEntry (now : String) (appID : Int) (name : String) (userID : Int) (comments : String) :
    Entry roleSchema where
  key := (appID, weight name)
  make n := ⟨n, appID, name, userID, comments, now, now⟩
  touch r := { r with ctime := onUpdate now r.ctime (r.mtime ≠ now), mtime := now }
  id_make _ := rfl
  key_make _ := rfl
  id_touch _ := rfl
  key_touch _ := rfl

def resourceEntry (now : String) (appID : Int) (name comments : String) : Entry resourceSchema where
  key := (appID, weight name)
  make n := ⟨n, appID, name, comments, now, now⟩
  touch r := { r with ctime := onUpdate now r.ctime (r.mtime ≠ now), mtime := now }
  id_make _ := rfl
  key_make _ := rfl
  id_touch _ := rfl
  key_touch _ := rfl

def userEntry (now : String) (appID : Int) (name email : String) : Entry userSchema where
  key := (appID, weight email)
  make n := ⟨n, appID, name, email, now, now⟩
  touch u := { u with ctime := onUpdate now u.ctime (u.mtime ≠ now), mtime := now }
  id_make _ := rfl
  key_make _ := rfl
  id_touch _ := rfl
  key_touch _ := rfl

def roleUserEntry (now : String) (appID roleID userID : Int) : Entry roleUserSchema where
  key := (appID, roleID, userID)
  make n := ⟨n, appID, roleID, userID, now, now⟩
  touch r := { r with mtime := now }
  id_make _ := rfl
  key_make _ := rfl
  id_touch _ := rfl
  key_touch _ := rfl

def roleResourceEntry (now : String) (appID roleID resourceID : Int) : Entry roleResourceSchema where
  key := (appID, roleID, resourceID)
  make n := ⟨n, appID, roleID, resourceID, now, now⟩
  touch r := { r with mtime := now }
  id_make _ := rfl
  key_make _ := rfl
  id_touch _ := rfl
  key_touch _ := rfl

/-! ## Agreement on the rows of some applications -/

/-- The two databases have the same rows of the applications that satisfy `p`. -/
structure Db.Agree (p : Int → Prop) (db db' : Db) : Prop where
  role : ∀ r : Role, p r.appID → (r ∈ db.role.rows ↔ r ∈ db'.role.rows)
  resource : ∀ r : Resource, p r.appID → (r ∈ db.resource.rows ↔ r ∈ db'.resource.rows)
  user : ∀ u : User, p u.appID → (u ∈ db.user.rows ↔ u ∈ db'.user.rows)
  roleUser : ∀ r : RoleUserRow, p r.appID → (r ∈ db.roleUser.rows ↔ r ∈ db'.roleUser.rows)
  roleResource : ∀ r : RoleResourceRow, p r.appID →
    (r ∈ db.roleResource.rows ↔ r ∈ db'.roleResource.rows)

theorem Db.Agree.refl (p : Int → Prop) (db : Db) : Agree p db db where
  role _ _ := Iff.rfl
  resource _ _ := Iff.rfl
  user _ _ := Iff.rfl
  roleUser _ _ := Iff.rfl
  roleResource _ _ := Iff.rfl

end Doodle.Rbac
