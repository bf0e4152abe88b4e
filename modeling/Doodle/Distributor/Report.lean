/-
  What the distributor reports to the manager: the request `managerClient.interfaceRegister`
  (`distributor/watcher.go`) sends as JSON, and how `interfaceRegister.POST`
  (`manager/interface.go`) reads it.

  Both sides declare the request as a struct of their own. All fields come through, the document
  with its whole tree (`readVars_report`), but for the id: it is written as `ProjectID` and read as
  `ServiceID`, which no member of the request has. So the request is read as one for service 0, and
  it arrives as it was sent only for project 0 (`arrives_iff`).
-/
import Doodle.Meta.Document

namespace Doodle.Distributor

open Doodle.Go Doodle.Meta

/-! ## The sender -/

/-- `strings.ToUpper`, as far as a letter of an HTTP method can come out of it. -/
def toUpper (s : String) : String :=
  s.map fun c => if c = 'ſ' then 'S' else if c = 'ı' then 'I' else c.toUpper

/-- `server.NewMethod`. -/
def newMethod (m : String) : Int :=
  match toUpper m with
  | "GET" => 0
  | "POST" => 1
  | "PUT" => 2
  | "DELETE" => 3
  | _ => 4

/-- The struct `interfaceRegister` sends. -/
structure Report where
  name : String
  projectID : Int
  version : Int
  path : String
  method : Int
  backend : String
  comment : String
  attr : Document.Method

/-- The request of `managerClient.interfaceRegister`. -/
def interfaceRegister (projectID version : Int) (name method path backend : String)
    (m : Document.Method) : Report :=
  ⟨name, projectID, version, path, newMethod method, backend, m.comment, m⟩

def Report.json (r : Report) : Json :=
  .obj [("Name", .str r.name), ("ProjectID", .num r.projectID), ("Version", .num r.version),
    ("Path", .str r.path), ("Method", .num r.method), ("Backend", .str r.backend),
    ("Comment", .str r.comment), ("Attr", r.attr.json)]

end Doodle.Distributor

namespace Doodle.Manager.Register

open Doodle.Go Doodle.Meta

/-! ## The receiver -/

/-- `vars` of `interfaceRegister.POST`. -/
structure Vars where
  serviceID : Int
  user : String
  state : Int
  email : String
  name : String
  version : Int
  path : String
  method : Int
  backend : String
  comment : String
  attr : Document.Parts

/-- `vars` before the request is read. -/
def Vars.init : Vars := ⟨0, "", 1, "", "", 0, "", 0, "", "", ⟨"", none, none⟩⟩

/-- Set one field. -/
def Vars.set (v : Vars) (member : String × Json) : Option Vars :=
  if member.1 = "ServiceID" then
    (Json.setInt v.serviceID member.2).map fun x => { v with serviceID := x }
  else if member.1 = "User" then (Json.setStr v.user member.2).map fun x => { v with user := x }
  else if member.1 = "State" then (Json.setInt v.state member.2).map fun x => { v with state := x }
  else if member.1 = "Email" then (Json.setStr v.email member.2).map fun x => { v with email := x }
  else if member.1 = "Name" then (Json.setStr v.name member.2).map fun x => { v with name := x }
  else if member.1 = "Version" then
    (Json.setInt v.version member.2).map fun x => { v with version := x }
  else if member.1 = "Path" then (Json.setStr v.path member.2).map fun x => { v with path := x }
  else if member.1 = "Method" then
    (Json.setInt v.method member.2).map fun x => { v with method := x }
  else if member.1 = "Backend" then
    (Json.setStr v.backend member.2).map fun x => { v with backend := x }
  else if member.1 = "Comment" then
    (Json.setStr v.comment member.2).map fun x => { v with comment := x }
  else if member.1 = "Attr" then
    (Document.readMethod v.attr member.2).map fun x => { v with attr := x }
  else some v

/-- `server.ParseJSONVars(r, &vars)` of a body; `none` is answered with an error. -/
def readVars : Json → Option Vars
  | .null => some Vars.init
  | .obj members => members.foldlM Vars.set Vars.init
  | _ => none

end Doodle.Manager.Register

namespace Doodle.Distributor

open Doodle.Go Doodle.Meta Doodle.Manager Doodle.Manager.Register

/-! ## What arrives -/

/-- A report as the manager reads it: the id is lost, and the fields only the manager has keep
    their defaults. -/
theorem readVars_report (r : Report) : readVars r.json = some
    { Vars.init with
      name := r.name, version := r.version, path := r.path, method := r.method,
      backend := r.backend, comment := r.comment, attr := r.attr.parts } := by
  simp [Report.json, readVars, List.foldlM, Vars.set, Json.setStr, Json.setInt,
    Document.readMethod_json]

/-- The manager reads the request, with the project's id as `ServiceID` and the other fields equal
    to those sent. -/
def Arrives (r : Report) : Prop :=
  ∃ v, readVars r.json = some v ∧ v.serviceID = r.projectID ∧ v.name = r.name ∧
    v.version = r.version ∧ v.path = r.path ∧ v.method = r.method ∧ v.backend = r.backend ∧
    v.comment = r.comment ∧ v.attr = r.attr.parts

/-- A report arrives as it was sent exactly when it is for project 0. -/
theorem arrives_iff (projectID version : Int) (name method path backend : String)
    (m : Document.Method) :
    Arrives (interfaceRegister projectID version name method path backend m) ↔ projectID = 0 := by
  unfold Arrives
  rw [readVars_report]
  constructor
  · rintro ⟨v, hv, hid, -⟩
    obtain rfl := Option.some.inj hv
    exact hid.symm
  · intro h0
    exact ⟨_, rfl, h0.symm, rfl, rfl, rfl, rfl, rfl, rfl, rfl⟩

/-- A report of project 1 with an empty document. -/
def userReport : Report :=
  interfaceRegister 1 1 "User_Get" "Get" "/main/User/" "dbs/faas"
    ⟨"", none, none, nofun, nofun⟩

theorem project_id_lost : ¬ Arrives userReport := by
  rintro ⟨v, hv, hid, -⟩
  rw [readVars_report] at hv
  obtain rfl := Option.some.inj hv
  exact absurd hid (by decide)

end Doodle.Distributor
