/-
  Interface registration: `interfaceRegister.POST` of `manager/interface.go`, as a program over the
  statements it sends, and a database that never fails.

  A statement is a `Call` with its arguments; `serve` is what the database answers and does. The
  interface table has the unique key (service, path, method), with paths compared by the collation.
  The query for a row that is already there puts the path between quotes, so the database reads it
  back with its rules for literals, and it reads the state into a bool, so a state other than 0 and
  1 is an error. A field map of a document is the list of its fields in the order `range` visits
  them.

  `post_spec`: on a database with the service, a request for a path that reads as itself stores its
  row and its variables, whatever was stored for the key before, unless the row of the key is
  `Blocked` by its state. The version is a column like any other.
  `newestWins_iff`: so after a list of requests for one key the stored one is the last, or the first
  one with a state that is no bool, and the newest wins exactly when this one has the greatest
  version.
-/
import Doodle.Go.Strconv
import Doodle.Lib.Collation
import Doodle.Lib.Prog
import Doodle.Lib.Table
import Doodle.Rbac.Sql

namespace Doodle.Manager

open Doodle.Lib Doodle.Go

/-! ## Requests -/

/-- `document.Field`. -/
inductive Field where
  | mk (name type : String) (required : Bool) (comment : String) (child : List Field)

/-- `document.Method`. -/
structure DocMethod where
  comment : String
  request : List Field
  response : List Field

/-- What a request says besides the service, path and method it is for. -/
structure Body where
  user : String
  state : Int
  email : String
  name : String
  version : Int
  backend : String
  comment : String
  attr : DocMethod

/-- Service, path and method. -/
abbrev IfaceKey := Int × String × Int

/-- The columns of `interface` that registration sets, and the id. -/
structure IfaceRow where
  id : Int
  serviceID : Int
  user : String
  state : Int
  email : String
  name : String
  version : Int
  path : String
  method : Int
  backend : String
  comment : String
  deriving DecidableEq

/-- `jsonVariable`. -/
structure JsonVariable where
  interfaceID : Int
  postion : Int
  name : String
  level : Int
  parent : String
  type : String
  required : Bool
  exampleText : String
  comment : String
  deriving DecidableEq

/-- A row of `service`, the columns registration reads. -/
structure ServiceOwner where
  id : Int
  user : String
  email : String
  deriving DecidableEq

/-- The row a request for `k` gets under `id`. -/
def Body.row (b : Body) (k : IfaceKey) (id : Int) : IfaceRow :=
  ⟨id, k.1, b.user, b.state, b.email, b.name, b.version, k.2.1, k.2.2, b.backend, b.comment⟩

namespace Register

/-! ## The statements -/

inductive Call where
  | connect
  | service (id : Int)
  | insertInterface (k : IfaceKey) (b : Body)
  | findInterface (k : IfaceKey)
  | updateInterface (id : Int) (k : IfaceKey) (b : Body)
  | clearVariable (id : Int)
  | insertVariable (v : JsonVariable)

/-- What a statement returns next to its error. -/
@[reducible] def Call.Data : Call → Type
  | .service _ => ServiceOwner
  | .insertInterface .. | .findInterface _ | .insertVariable _ => Int
  | _ => Unit

/-- The errors `POST` tells apart, and any other by its text. -/
inductive Fault where
  | duplicate
  | notFound
  | text (s : String)
  deriving DecidableEq

abbrev Answer (c : Call) : Type := Except Fault c.Data

abbrev Act (α : Type) := ExceptT Fault (Prog Answer) α

def ask (c : Call) : Act c.Data := ExceptT.mk (Prog.call c)

/-- `addVariable`: a row for each field, then the rows of its children. -/
def addVariable (interfaceID postion : Int) : Int → String → List Field → Act Unit
  | _, _, [] => pure ()
  | level, parent, .mk name type required comment child :: fs => do
    let _ ← ask
      (.insertVariable ⟨interfaceID, postion, name, level, parent, type, required, "", comment⟩)
    addVariable interfaceID postion (level + 1) type child
    addVariable interfaceID postion level parent fs

def postionRequestJSON : Int := 4
def postionResponseJSON : Int := 14

/-- After a duplicate entry: the row that is there gets the new columns and loses its
    variables. -/
def updateExisting (k : IfaceKey) (b : Body) : Act Int := do
  let id ← ask (.findInterface k)
  ask (.updateInterface id k b)
  ask (.clearVariable id)
  pure id

def insertOrUpdate (k : IfaceKey) (b : Body) : Act Int :=
  tryCatch (ask (.insertInterface k b)) fun
    | .duplicate => updateExisting k b
    | e => throw e

/-- `if vars.Email == ""`: the service's owner. -/
def withOwner (p : ServiceOwner) (b : Body) : Body :=
  if b.email = "" then { b with user := p.user, email := p.email } else b

theorem version_withOwner (p : ServiceOwner) (b : Body) : (withOwner p b).version = b.version := by
  unfold withOwner
  split
  · rfl
  · rfl

theorem state_withOwner (p : ServiceOwner) (b : Body) : (withOwner p b).state = b.state := by
  unfold withOwner
  split
  · rfl
  · rfl

/-- `POST` of a request that decoded to `b` for the key `k`. -/
def post (k : IfaceKey) (b : Body) : Act Int := do
  ask .connect
  let p ← ask (.service k.1)
  let id ← insertOrUpdate k (withOwner p b)
  addVariable id postionRequestJSON 0 "" b.attr.request
  addVariable id postionResponseJSON 0 "" b.attr.response
  pure id

/-- The variables of a field list: each field, then its children a level down. -/
def fieldRows (interfaceID postion : Int) : Int → String → List Field → List JsonVariable
  | _, _, [] => []
  | level, parent, .mk name type required comment child :: fs =>
    ⟨interfaceID, postion, name, level, parent, type, required, "", comment⟩ ::
      (fieldRows interfaceID postion (level + 1) type child ++
        fieldRows interfaceID postion level parent fs)

/-- The variables of a request's document. -/
def docRows (id : Int) (b : Body) : List JsonVariable :=
  fieldRows id postionRequestJSON 0 "" b.attr.request ++
    fieldRows id postionResponseJSON 0 "" b.attr.response

theorem interfaceID_of_mem_fieldRows {interfaceID postion level : Int} {parent : String}
    {fs : List Field} : ∀ v ∈ fieldRows interfaceID postion level parent fs,
      v.interfaceID = interfaceID := by
  fun_induction fieldRows interfaceID postion level parent fs with
  | case1 => intro v hv; cases hv
  | case2 level parent name type required comment child fs ih1 ih2 =>
    intro v hv
    rcases List.mem_cons.mp hv with rfl | hv
    · rfl
    · rcases List.mem_append.mp hv with hv | hv
      · exact ih1 v hv
      · exact ih2 v hv

theorem interfaceID_of_mem_docRows {id : Int} {b : Body} : ∀ v ∈ docRows id b,
    v.interfaceID = id := by
  intro v hv
  rcases List.mem_append.mp hv with hv | hv
  · exact interfaceID_of_mem_fieldRows v hv
  · exact interfaceID_of_mem_fieldRows v hv

/-- The request that is stored in the end, when the first one is: the first with a state that is no
    bool, or else the last. -/
def settled : List Body → Option Body
  | [] => none
  | b :: bs => if bs = [] ∨ scanBool b.state = none then some b else settled bs

theorem settled_spec (bs : List Body) (h : bs ≠ []) : ∃ b ∈ bs, settled bs = some b := by
  induction bs with
  | nil => exact absurd rfl h
  | cons b bs ih =>
    rw [settled]
    split
    · exact ⟨b, List.mem_cons_self, rfl⟩
    · next hlast =>
      obtain ⟨b', hb', hset⟩ := ih fun hnil => hlast (.inl hnil)
      exact ⟨b', List.mem_cons_of_mem _ hb', hset⟩

/-! ## The database -/

section Database

variable [Collating]

/-- A key as `uniq_path` and the query compare it. -/
def fold (k : IfaceKey) : IfaceKey := (k.1, weight k.2.1, k.2.2)

def ifaceSchema : Schema IfaceRow IfaceKey where
  id r := r.id
  key r := fold (r.serviceID, r.path, r.method)

/-- A row of `variable`. -/
structure VariableRow where
  id : Int
  val : JsonVariable
  deriving DecidableEq

structure Db where
  service : List ServiceOwner
  interface : Table ifaceSchema
  vars : List VariableRow
  nextVar : Int

/-- A new row of `interface`. -/
def rowEntry (k : IfaceKey) (b : Body) : Entry ifaceSchema where
  key := fold k
  make := b.row k
  touch := id
  id_make _ := rfl
  key_make _ := rfl
  id_touch _ := rfl
  key_touch _ := rfl

/-- The first interface of `k` whose service exists. -/
def Db.find (db : Db) (k : IfaceKey) : Option IfaceRow :=
  db.interface.rows.find? fun r =>
    ifaceSchema.key r == fold k && db.service.any fun p => p.id == r.serviceID

/-- The error of a `Scan` into a bool. -/
def scanFault (state : Int) : Fault :=
  .text ("sql/driver: couldn't convert \"" ++ toString state ++ "\" into type bool")

/-- The database, which never fails. `stray` is what the query for a row comes to when the path
    does not read as one literal. -/
def serve (stray : IfaceKey → Db → Except Fault Int) : (c : Call) → Db → Answer c × Db
  | .connect, db => (.ok (), db)
  | .service id, db =>
    match db.service.find? fun p => p.id == id with
    | some p => (.ok p, db)
    | none => (.error .notFound, db)
  | .insertInterface k b, db =>
    if db.interface.rows.any fun r => ifaceSchema.key r == fold k then
      (.error .duplicate, { db with interface := db.interface.skip })
    else (.ok db.interface.next, { db with interface := db.interface.upsert (rowEntry k b) })
  | .findInterface k, db =>
    match Rbac.readLiteral k.2.1 with
    | none => (stray k db, db)
    | some path =>
      match db.find (k.1, path, k.2.2) with
      | none => (.error .notFound, db)
      | some r =>
        -- `State` of `meta.Interface` is a bool
        match scanBool r.state with
        | some _ => (.ok r.id, db)
        | none => (.error (scanFault r.state), db)
  | .updateInterface id k b, db =>
    match db.interface.update (fun r => r.id == id) (fun r => b.row k r.id) fun _ => rfl with
    | some t => (.ok (), { db with interface := t })
    | none => (.error .duplicate, db)
  | .clearVariable id, db =>
    (.ok (), { db with vars := db.vars.filter fun v => !(v.val.interfaceID == id) })
  | .insertVariable v, db =>
    (.ok db.nextVar, { db with
      vars := db.vars ++ [⟨db.nextVar, v⟩]
      nextVar := db.nextVar + 1 })

/-! ## Running a request -/

section Exec

variable (stray : IfaceKey → Db → Except Fault Int) {α β : Type}

/-- The answer of an action and the database after it. -/
def exec (x : Act α) (db : Db) : Except Fault α × Db := Prog.run (serve stray) x.run db

@[simp] theorem exec_pure (a : α) (db : Db) : exec stray (pure a) db = (.ok a, db) := rfl

theorem exec_ask (c : Call) (db : Db) : exec stray (ask c) db = serve stray c db := rfl

theorem exec_bind {x : Act α} {db db' : Db} {a : α} (h : exec stray x db = (.ok a, db'))
    (f : α → Act β) : exec stray (x >>= f) db = exec stray (f a) db' := by
  unfold exec at h ⊢
  rw [ExceptT.run_bind, Prog.run_bind, h]

theorem exec_bind_error {x : Act α} {db db' : Db} {e : Fault}
    (h : exec stray x db = (.error e, db')) (f : α → Act β) :
    exec stray (x >>= f) db = (.error e, db') := by
  unfold exec at h ⊢
  rw [ExceptT.run_bind, Prog.run_bind, h]
  rfl

theorem exec_tryCatch_ok {x : Act α} {db db' : Db} {a : α} (h : exec stray x db = (.ok a, db'))
    (f : Fault → Act α) : exec stray (tryCatch x f) db = (.ok a, db') := by
  unfold exec at h ⊢
  show Prog.run (serve stray) (x.run >>= _) db = _
  rw [Prog.run_bind, h]
  rfl

theorem exec_tryCatch_error {x : Act α} {db db' : Db} {e : Fault}
    (h : exec stray x db = (.error e, db')) (f : Fault → Act α) :
    exec stray (tryCatch x f) db = exec stray (f e) db' := by
  unfold exec at h ⊢
  show Prog.run (serve stray) (x.run >>= _) db = _
  rw [Prog.run_bind, h]
  rfl

end Exec

/-! ## What a request stores -/

/-- The variables stored for an interface. -/
def Db.varsOf (db : Db) (id : Int) : List JsonVariable :=
  (db.vars.map fun v => v.val).filter fun v => v.interfaceID == id

/-- The row of `k` and its variables are those of the request `b`; `owner` is the service's. -/
def Stored (owner : ServiceOwner) (k : IfaceKey) (b : Body) (db : Db) : Prop :=
  ∃ id, (withOwner owner b).row k id ∈ db.interface.rows ∧ db.varsOf id = docRows id b

/-- The service of `k` is there, and variables belong to ids given out before. -/
structure Ready (owner : ServiceOwner) (k : IfaceKey) (db : Db) : Prop where
  service : db.service.find? (fun p => p.id == k.1) = some owner
  vars_lt : ∀ v ∈ db.vars, v.val.interfaceID < db.interface.next

/-- An interface without variables has, after an append, those appended for it. -/
theorem varsOf_append {db : Db} {id : Int} {new : List VariableRow}
    (hold : ∀ v ∈ db.vars, v.val.interfaceID ≠ id) (hnew : ∀ v ∈ new, v.val.interfaceID = id)
    (n : Int) :
    Db.varsOf { db with vars := db.vars ++ new, nextVar := n } id = new.map fun v => v.val := by
  unfold Db.varsOf
  have hnil : (db.vars.map fun v => v.val).filter (fun v => v.interfaceID == id) = [] := by
    rw [List.filter_eq_nil_iff]
    intro v hv
    obtain ⟨w, hw, rfl⟩ := List.mem_map.mp hv
    simpa using hold w hw
  rw [List.map_append, List.filter_append, hnil, List.nil_append, List.filter_eq_self]
  intro v hv
  obtain ⟨w, hw, rfl⟩ := List.mem_map.mp hv
  exact beq_iff_eq.mpr (hnew w hw)

section Spec

variable (stray : IfaceKey → Db → Except Fault Int)

/-- `addVariable` appends the rows of its fields. -/
theorem exec_addVariable (interfaceID postion level : Int) (parent : String) (fs : List Field) :
    ∀ db, ∃ new n, exec stray (addVariable interfaceID postion level parent fs) db =
      (.ok (), { db with vars := db.vars ++ new, nextVar := n }) ∧
        new.map (fun v => v.val) = fieldRows interfaceID postion level parent fs := by
  fun_induction fieldRows interfaceID postion level parent fs with
  | case1 level parent =>
    intro db
    refine ⟨[], db.nextVar, ?_, rfl⟩
    rw [addVariable, exec_pure, List.append_nil]
  | case2 level parent name type required comment child fs ih1 ih2 =>
    intro db
    let v : JsonVariable :=
      ⟨interfaceID, postion, name, level, parent, type, required, "", comment⟩
    have h0 : exec stray (ask (.insertVariable v)) db = (.ok db.nextVar,
        { db with vars := db.vars ++ [⟨db.nextVar, v⟩], nextVar := db.nextVar + 1 }) := rfl
    obtain ⟨new1, n1, h1, hr1⟩ := ih1
      { db with vars := db.vars ++ [⟨db.nextVar, v⟩], nextVar := db.nextVar + 1 }
    obtain ⟨new2, n2, h2, hr2⟩ := ih2
      { db with vars := db.vars ++ [⟨db.nextVar, v⟩] ++ new1, nextVar := n1 }
    refine ⟨⟨db.nextVar, v⟩ :: (new1 ++ new2), n2, ?_, ?_⟩
    · rw [addVariable, exec_bind stray h0, exec_bind stray h1]
      refine h2.trans ?_
      simp only [List.append_assoc, List.cons_append, List.nil_append]
    · rw [List.map_cons, List.map_append, hr1, hr2]

/-- The variables of a request, once its interface has the id. -/
def addDocument (b : Body) (id : Int) : Act Int := do
  addVariable id postionRequestJSON 0 "" b.attr.request
  addVariable id postionResponseJSON 0 "" b.attr.response
  pure id

theorem exec_addDocument (b : Body) (id : Int) (db : Db) : ∃ new n,
    exec stray (addDocument b id) db =
      (.ok id, { db with vars := db.vars ++ new, nextVar := n }) ∧
        new.map (fun v => v.val) = docRows id b := by
  obtain ⟨new1, n1, h1, hr1⟩ :=
    exec_addVariable stray id postionRequestJSON 0 "" b.attr.request db
  obtain ⟨new2, n2, h2, hr2⟩ := exec_addVariable stray id postionResponseJSON 0 "" b.attr.response
    { db with vars := db.vars ++ new1, nextVar := n1 }
  refine ⟨new1 ++ new2, n2, ?_, ?_⟩
  · rw [addDocument, exec_bind stray h1, exec_bind stray h2, exec_pure, List.append_assoc]
  · rw [List.map_append, hr1, hr2]
    rfl

variable {owner : ServiceOwner} {k : IfaceKey}

theorem find_of_key {db : Db} (hr : Ready owner k db) {r : IfaceRow} (hm : r ∈ db.interface.rows)
    (hk : ifaceSchema.key r = fold k) : db.find k = some r := by
  have hid : r.serviceID = k.1 := congrArg Prod.fst hk
  have hsvc : (db.service.any fun p => p.id == r.serviceID) = true := by
    have howner : (owner.id == k.1) = true := by simpa using List.find?_some hr.service
    rw [hid]
    exact List.any_eq_true.mpr ⟨owner, List.mem_of_find?_eq_some hr.service, howner⟩
  unfold Db.find
  cases hf : db.interface.rows.find? fun r =>
      ifaceSchema.key r == fold k && db.service.any fun p => p.id == r.serviceID with
  | none =>
    have := List.find?_eq_none.mp hf r hm
    simp [hk, hsvc] at this
  | some r' =>
    have hk' := List.find?_some hf
    simp only [Bool.and_eq_true, beq_iff_eq] at hk'
    rw [db.interface.eq_of_key (List.mem_of_find?_eq_some hf) hm (hk'.1.trans hk.symm)]

/-- The row of `k` has a state that is no bool. -/
def Blocked (k : IfaceKey) (db : Db) : Prop :=
  ∃ r ∈ db.interface.rows, ifaceSchema.key r = fold k ∧ scanBool r.state = none

/-- The row a request leaves, before its variables are added: its own, without variables. -/
structure Fresh (owner : ServiceOwner) (k : IfaceKey) (b : Body) (id : Int) (db : Db) : Prop where
  ready : Ready owner k db
  row : b.row k id ∈ db.interface.rows
  none : ∀ v ∈ db.vars, v.val.interfaceID ≠ id

/-- The query with a path that reads as itself finds the row. -/
theorem exec_findInterface {db : Db} (hr : Ready owner k db)
    (hpath : Rbac.readLiteral k.2.1 = some k.2.1) {r : IfaceRow} (hm : r ∈ db.interface.rows)
    (hk : ifaceSchema.key r = fold k) (hs : scanBool r.state ≠ none) :
    exec stray (ask (.findInterface k)) db = (.ok r.id, db) := by
  obtain ⟨s, hs⟩ := Option.ne_none_iff_exists'.mp hs
  rw [exec_ask]
  simp only [serve, hpath, find_of_key hr hm hk, hs]

/-- The update sets the row that was found, and its variables go. -/
theorem exec_updateExisting_some {db : Db} {id : Int} {b : Body} {t : Table ifaceSchema}
    (hfind : exec stray (ask (.findInterface k)) db = (.ok id, db))
    (ht : db.interface.update (fun r => r.id == id) (fun r => b.row k r.id) (fun _ => rfl) =
      some t) :
    exec stray (updateExisting k b) db = (.ok id, { db with
      interface := t
      vars := db.vars.filter fun v => !(v.val.interfaceID == id) }) := by
  have hupdate : exec stray (ask (.updateInterface id k b)) db =
      (.ok (), { db with interface := t }) := by
    rw [exec_ask]
    simp only [serve, ht]
  rw [updateExisting, exec_bind stray hfind, exec_bind stray hupdate,
    exec_bind stray (exec_ask stray (.clearVariable id) { db with interface := t })]
  rfl

theorem exec_updateExisting {db : Db} (hr : Ready owner k db) {r : IfaceRow}
    (hm : r ∈ db.interface.rows) (hk : ifaceSchema.key r = fold k)
    (hfind : exec stray (ask (.findInterface k)) db = (.ok r.id, db)) (b : Body) :
    ∃ db', exec stray (updateExisting k b) db = (.ok r.id, db') ∧ Fresh owner k b r.id db' := by
  have hkey : ∀ r' ∈ db.interface.rows, (r'.id == r.id) = true →
      ifaceSchema.key (b.row k r'.id) = ifaceSchema.key r' := by
    intro r' hm' hid
    rw [db.interface.eq_of_id hm' hm (beq_iff_eq.mp hid), hk]
    rfl
  obtain ⟨t, ht, hrows, hnext⟩ := db.interface.update_of_key (f := fun r => b.row k r.id)
    (fun _ => rfl) hkey
  refine ⟨_, exec_updateExisting_some stray hfind ht, ⟨⟨hr.service, ?_⟩, ?_, ?_⟩⟩
  · intro v hv
    show v.val.interfaceID < t.next
    rw [hnext]
    exact hr.vars_lt v (List.mem_of_mem_filter hv)
  · show b.row k r.id ∈ t.rows
    rw [hrows]
    exact List.mem_map.mpr ⟨r, hm, if_pos (beq_self_eq_true r.id)⟩
  · intro v hv hid
    have := (List.mem_filter.mp hv).2
    simp [hid] at this

/-- The database after an insert that met a row of its key. -/
def Db.skip (db : Db) : Db := { db with interface := db.interface.skip }

theorem ready_skip {db : Db} (hr : Ready owner k db) : Ready owner k db.skip := by
  refine ⟨hr.service, fun v hv => ?_⟩
  have := hr.vars_lt v hv
  show v.val.interfaceID < db.interface.next + 1
  omega

/-- The insert for a key that has a row goes on with the update. -/
theorem exec_insertOrUpdate_of_key {db : Db} {r : IfaceRow} (hm : r ∈ db.interface.rows)
    (hk : ifaceSchema.key r = fold k) (b : Body) :
    exec stray (insertOrUpdate k b) db = exec stray (updateExisting k b) db.skip := by
  have hany : (db.interface.rows.any fun r => ifaceSchema.key r == fold k) = true :=
    List.any_eq_true.mpr ⟨r, hm, beq_iff_eq.mpr hk⟩
  have hins : exec stray (ask (.insertInterface k b)) db = (.error .duplicate, db.skip) := by
    rw [exec_ask]
    simp only [serve, hany, if_true, Db.skip]
  rw [insertOrUpdate, exec_tryCatch_error stray hins]

theorem exec_insertOrUpdate_of_found {db : Db} (hr : Ready owner k db) {r : IfaceRow}
    (hm : r ∈ db.interface.rows) (hk : ifaceSchema.key r = fold k)
    (hfind : exec stray (ask (.findInterface k)) db.skip = (.ok r.id, db.skip)) (b : Body) :
    ∃ db', exec stray (insertOrUpdate k b) db = (.ok r.id, db') ∧ Fresh owner k b r.id db' := by
  rw [exec_insertOrUpdate_of_key stray hm hk b]
  exact exec_updateExisting stray (ready_skip hr) hm hk hfind b

theorem exec_insertOrUpdate_of_mem {db : Db} (hr : Ready owner k db)
    (hpath : Rbac.readLiteral k.2.1 = some k.2.1) {r : IfaceRow} (hm : r ∈ db.interface.rows)
    (hk : ifaceSchema.key r = fold k) (hs : scanBool r.state ≠ none) (b : Body) :
    ∃ db', exec stray (insertOrUpdate k b) db = (.ok r.id, db') ∧ Fresh owner k b r.id db' :=
  exec_insertOrUpdate_of_found stray hr hm hk
    (exec_findInterface stray (ready_skip hr) hpath hm hk hs) b

theorem exec_insertOrUpdate_of_new {db : Db} (hr : Ready owner k db)
    (hnone : ∀ r ∈ db.interface.rows, ifaceSchema.key r ≠ fold k) (b : Body) :
    ∃ db', exec stray (insertOrUpdate k b) db = (.ok db.interface.next, db') ∧
      Fresh owner k b db.interface.next db' := by
  have hany : (db.interface.rows.any fun r => ifaceSchema.key r == fold k) = false := by
    simpa using hnone
  have hins : exec stray (ask (.insertInterface k b)) db = (.ok db.interface.next,
      { db with interface := db.interface.upsert (rowEntry k b) }) := by
    rw [exec_ask]
    simp only [serve, hany, Bool.false_eq_true, if_false]
  refine ⟨{ db with interface := db.interface.upsert (rowEntry k b) },
    by rw [insertOrUpdate, exec_tryCatch_ok stray hins], ⟨⟨hr.service, ?_⟩, ?_, ?_⟩⟩
  · intro v hv
    have := hr.vars_lt v hv
    show v.val.interfaceID < db.interface.next + 1
    omega
  · show b.row k db.interface.next ∈ db.interface.upsertRows (rowEntry k b)
    rw [db.interface.upsertRows_of_not_mem (rowEntry k b) hnone]
    exact List.mem_append_right _ (List.mem_singleton.mpr rfl)
  · intro v hv
    have := hr.vars_lt v hv
    omega

theorem exec_insertOrUpdate {db : Db} (hr : Ready owner k db)
    (hpath : Rbac.readLiteral k.2.1 = some k.2.1) (hfree : ¬ Blocked k db) (b : Body) :
    ∃ id db', exec stray (insertOrUpdate k b) db = (.ok id, db') ∧ Fresh owner k b id db' := by
  rcases db.interface.key_cases (fold k) with ⟨r, hm, hk⟩ | hnone
  · exact ⟨r.id, exec_insertOrUpdate_of_mem stray hr hpath hm hk
      (fun hs => hfree ⟨r, hm, hk, hs⟩) b⟩
  · exact ⟨db.interface.next, exec_insertOrUpdate_of_new stray hr hnone b⟩

theorem exec_service {db : Db} (hr : Ready owner k db) :
    exec stray (ask (.service k.1)) db = (.ok owner, db) := by
  rw [exec_ask]
  simp only [serve, hr.service]

/-- With its service there, a request is the insert or update of its row, then its document. -/
theorem exec_post {db : Db} (hr : Ready owner k db) (b : Body) : exec stray (post k b) db =
    exec stray (insertOrUpdate k (withOwner owner b) >>= addDocument b) db := by
  have hconn : exec stray (ask .connect) db = (.ok (), db) := rfl
  exact (exec_bind stray hconn _).trans (exec_bind stray (exec_service stray hr) _)

/-- A request whose row is there without variables stores its document's. -/
theorem post_of_fresh {db db1 : Db} (hr : Ready owner k db) {b : Body} {id : Int}
    (hins : exec stray (insertOrUpdate k (withOwner owner b)) db = (.ok id, db1))
    (hfresh : Fresh owner k (withOwner owner b) id db1) :
    ∃ db', exec stray (post k b) db = (.ok id, db') ∧ Ready owner k db' ∧
      (withOwner owner b).row k id ∈ db'.interface.rows ∧ db'.varsOf id = docRows id b := by
  obtain ⟨new, n, hdoc, hnew⟩ := exec_addDocument stray b id db1
  have hown : ∀ v ∈ new, v.val.interfaceID = id := fun v hv =>
    interfaceID_of_mem_docRows (b := b) v.val (hnew ▸ List.mem_map_of_mem hv)
  refine ⟨{ db1 with vars := db1.vars ++ new, nextVar := n }, ?_, ⟨hfresh.ready.service, ?_⟩,
    hfresh.row, ?_⟩
  · rw [exec_post stray hr b, exec_bind stray hins, hdoc]
  · intro v hv
    rcases List.mem_append.mp hv with hv | hv
    · exact hfresh.ready.vars_lt v hv
    · rw [hown v hv]
      exact db1.interface.id_lt _ hfresh.row
  · rw [varsOf_append hfresh.none hown, hnew]

/-- A request stores its row and its variables, unless the row that is there is blocked. -/
theorem post_spec {db : Db} (hr : Ready owner k db) (hpath : Rbac.readLiteral k.2.1 = some k.2.1)
    (hfree : ¬ Blocked k db) (b : Body) : ∃ id db', exec stray (post k b) db = (.ok id, db') ∧
      Ready owner k db' ∧ Stored owner k b db' := by
  obtain ⟨id, db1, hins, hfresh⟩ := exec_insertOrUpdate stray hr hpath hfree (withOwner owner b)
  obtain ⟨db', he, hready, hrow, hvars⟩ := post_of_fresh stray hr hins hfresh
  exact ⟨id, db', he, hready, id, hrow, hvars⟩

/-- On a blocked row a request fails in its query. -/
theorem post_of_blocked {db : Db} (hr : Ready owner k db)
    (hpath : Rbac.readLiteral k.2.1 = some k.2.1) (hb : Blocked k db) (b : Body) :
    ∃ e, exec stray (post k b) db = (.error e, db.skip) := by
  obtain ⟨r, hm, hk, hs⟩ := hb
  have hfind : exec stray (ask (.findInterface k)) db.skip =
      (.error (scanFault r.state), db.skip) := by
    rw [exec_ask]
    simp only [serve, hpath, find_of_key (ready_skip hr) hm hk, hs]
  have hins := exec_insertOrUpdate_of_key stray hm hk (withOwner owner b)
  rw [updateExisting, exec_bind_error stray hfind] at hins
  exact ⟨_, by rw [exec_post stray hr b, exec_bind_error stray hins]⟩

end Spec

/-! ## Requests one after another -/

/-- The database after the requests of a list, oldest first, for one key. -/
def postAll (stray : IfaceKey → Db → Except Fault Int) (k : IfaceKey) (bs : List Body) (db : Db) :
    Db :=
  bs.foldl (fun db b => (exec stray (post k b) db).2) db

/-- A key whose path reads as itself between quotes, and a database with its service. -/
structure Site where
  k : IfaceKey
  owner : ServiceOwner
  db : Db
  ready : Ready owner k db
  path : Rbac.readLiteral k.2.1 = some k.2.1

/-- What is stored after the requests is one with the greatest version. -/
def NewestWins (stray : IfaceKey → Db → Except Fault Int) (S : Site) (bs : List Body) : Prop :=
  ∃ b ∈ bs, (∀ b' ∈ bs, b'.version ≤ b.version) ∧
    Stored S.owner S.k b (postAll stray S.k bs S.db)

/-- The row of a stored request is blocked when its state is no bool. -/
theorem blocked_iff_of_stored {owner : ServiceOwner} {k : IfaceKey} {b : Body} {db : Db}
    (h : Stored owner k b db) : Blocked k db ↔ scanBool b.state = none := by
  obtain ⟨id, hrow, -⟩ := h
  have hstate : ((withOwner owner b).row k id).state = b.state := state_withOwner owner b
  constructor
  · rintro ⟨r, hm, hk, hs⟩
    rwa [db.interface.eq_of_key hm hrow hk, hstate] at hs
  · intro hs
    exact ⟨_, hrow, rfl, hstate.symm ▸ hs⟩

/-- The stored version is one. -/
theorem stored_version {owner : ServiceOwner} {k : IfaceKey} {b b' : Body} {db : Db}
    (h : Stored owner k b db) (h' : Stored owner k b' db) : b.version = b'.version := by
  obtain ⟨id, hrow, -⟩ := h
  obtain ⟨id', hrow', -⟩ := h'
  have hsame := congrArg IfaceRow.version (db.interface.eq_of_key hrow hrow' rfl)
  have hver : (withOwner owner b).version = (withOwner owner b').version := hsame
  rwa [version_withOwner, version_withOwner] at hver

section Requests

variable (stray : IfaceKey → Db → Except Fault Int) (S : Site)

theorem postAll_cons {b : Body} {bs : List Body} {db db' : Db} {a : Except Fault Int}
    (h : exec stray (post S.k b) db = (a, db')) :
    postAll stray S.k (b :: bs) db = postAll stray S.k bs db' := by
  rw [postAll, List.foldl_cons, h]
  rfl

/-- On a blocked row no request changes what is stored. -/
theorem stored_postAll_of_blocked (b : Body) (bs : List Body) : ∀ db, Ready S.owner S.k db →
    Blocked S.k db →
      (Stored S.owner S.k b (postAll stray S.k bs db) ↔ Stored S.owner S.k b db) := by
  induction bs with
  | nil => intro db _ _; exact Iff.rfl
  | cons b' bs ih =>
    intro db hr hb
    obtain ⟨e, he⟩ := post_of_blocked stray hr S.path hb b'
    rw [postAll_cons stray S he]
    exact ih db.skip (ready_skip hr) hb

/-- The request that is stored in the end. -/
theorem stored_settled (bs : List Body) : ∀ db, Ready S.owner S.k db → ¬ Blocked S.k db →
    ∀ b, settled bs = some b → Stored S.owner S.k b (postAll stray S.k bs db) := by
  induction bs with
  | nil => intro db _ _ b hb; cases hb
  | cons b' bs ih =>
    intro db hr hfree b hb
    obtain ⟨id, db', he, hr', hst⟩ := post_spec stray hr S.path hfree b'
    have hblocked := blocked_iff_of_stored hst
    rw [postAll_cons stray S he]
    rw [settled] at hb
    split at hb
    · next hlast =>
      obtain rfl := Option.some.inj hb
      rcases hlast with rfl | hs
      · exact hst
      · exact (stored_postAll_of_blocked stray S b' bs db' hr' (hblocked.mpr hs)).mpr hst
    · next hlast =>
      exact ih db' hr' (fun h => hlast (.inr (hblocked.mp h))) b hb

theorem le_settled_of_newestWins {bs : List Body} {b : Body} (hfree : ¬ Blocked S.k S.db)
    (hb : settled bs = some b) (h : NewestWins stray S bs) : ∀ b' ∈ bs, b'.version ≤ b.version := by
  obtain ⟨top, -, hmax, hst⟩ := h
  have hver := stored_version hst (stored_settled stray S bs S.db S.ready hfree b hb)
  intro b' hb'
  have := hmax b' hb'
  omega

/-- After requests for one key the stored one has the greatest version exactly when the request that
    settles the row has it; on a row that was blocked before, when such a request was stored. -/
theorem newestWins_iff (bs : List Body) : NewestWins stray S bs ↔
    (¬ Blocked S.k S.db ∧ ∃ b, settled bs = some b ∧ ∀ b' ∈ bs, b'.version ≤ b.version) ∨
      Blocked S.k S.db ∧ ∃ b ∈ bs, (∀ b' ∈ bs, b'.version ≤ b.version) ∧
        Stored S.owner S.k b S.db := by
  by_cases hb : Blocked S.k S.db
  · have hsame := fun b => stored_postAll_of_blocked stray S b bs S.db S.ready hb
    simp only [NewestWins, hsame, hb, not_true, false_and, true_and, false_or]
  · simp only [hb, not_false_eq_true, true_and, false_and, or_false]
    by_cases hnil : bs = []
    · simp [NewestWins, hnil, settled]
    · obtain ⟨b, hmem, hset⟩ := settled_spec bs hnil
      constructor
      · exact fun h => ⟨b, hset, le_settled_of_newestWins stray S hb hset h⟩
      · rintro ⟨b', hset', hmax⟩
        obtain rfl := Option.some.inj (hset.symm.trans hset')
        exact ⟨b, hmem, hmax, stored_settled stray S bs S.db S.ready hb b hset⟩

end Requests

/-- A database with one service and no interfaces, and the key of its method `GET /main/User/`. -/
def userSite : Site where
  k := (1, "/main/User/", 0)
  owner := ⟨1, "user", "user@doodle"⟩
  db := ⟨[⟨1, "user", "user@doodle"⟩], Table.empty ifaceSchema, [], 1⟩
  ready := ⟨rfl, fun v hv => by cases hv⟩
  path := by simp [Rbac.readLiteral, Rbac.readChars, Rbac.quote, Rbac.backslash]

theorem userSite_free : ¬ Blocked userSite.k userSite.db := by
  rintro ⟨r, hr, -⟩
  cases hr

/-- A registration of this version, with an empty document. -/
def userBody (version : Int) : Body := ⟨"", 1, "", "User_Get", version, "faas", "", ⟨"", [], []⟩⟩

end Database

/-- Version 2 is reported, then version 1 by a distributor that is late: version 1 is stored. -/
theorem newest_loses : ¬ ∃ (_ : Collating) (stray : _),
    NewestWins stray userSite [userBody 2, userBody 1] := by
  rintro ⟨_, stray, h⟩
  have hle := le_settled_of_newestWins stray userSite userSite_free rfl h (userBody 2)
    List.mem_cons_self
  exact absurd hle (by decide)

end Register

end Doodle.Manager
