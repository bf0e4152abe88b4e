/-
  Which requests to interfaces and variables stay inside the user's resources.

  An interface is foreign to a user when its service has a resource the user does not have, and a
  variable when its interface is. `Guarded`: a request returns no foreign row and leaves the foreign
  rows as they were, so none is changed, taken away or added.

  `complete_iff`: for a user who is no administrator, this holds of a request in all surroundings
  exactly when it is `Clear`. Only `interface` POST, and `interface` GET by service, are always
  clear. The statements of PUT, DELETE and `interface/deploy` go by an id that nothing was asked
  about. `variable` POST and `variable` GET name an interface, and GET asks about a service that
  need not be the interface's. In `interface` GET the condition on the state, or the search,
  replaces the one on the service.
-/
import Doodle.Manager.Resources

namespace Doodle.Manager.Resources

open Doodle.Lib Doodle.Util
open Relations (Fault Iface IfacePut decodeReceiver)
open ServicePost (ServiceRow serviceSchema)

/-! ## Lists and checks -/

section Lists

variable {α : Type} {p : α → Bool} {l : List α}

/-- A change that does not touch `p` leaves the rows with `p` alone when it changes none of them. -/
theorem filter_map_eq_iff {g : α → α} (hg : ∀ x, p (g x) = p x) :
    (l.map g).filter p = l.filter p ↔ ∀ x ∈ l.filter p, g x = x := by
  have hcomp : p ∘ g = p := funext hg
  rw [List.filter_map, hcomp]
  constructor
  · intro h
    exact List.map_eq_map_iff.mp (h.trans (List.map_id _).symm)
  · intro h
    exact (List.map_congr_left h).trans (List.map_id _)

theorem filter_concat_eq_iff {x : α} : (l ++ [x]).filter p = l.filter p ↔ p x = false := by
  simp [List.filter_append]

theorem filter_filter_eq_iff {r : α → Bool} :
    (l.filter r).filter p = l.filter p ↔ ∀ x ∈ l.filter p, r x = true := by
  rw [List.filter_comm, List.filter_eq_self]

end Lists

theorem assert_eq_ok {u : User} {n : Int} (hu : u.isAdmin = false) (h : n ∈ u.res) :
    u.assert n = .ok () := by
  simp [User.assert, hu, h]

theorem assert_eq_error {u : User} {n : Int} (hu : u.isAdmin = false) (h : n ∉ u.res) :
    ∃ e, u.assert n = .error e := by
  simp [User.assert, hu, h]

theorem append_ne_self (s : String) : s ++ "x" ≠ s := by
  intro h
  have hlen := congrArg String.length h
  simp at hlen

theorem interfaceID_row {v : VariablePost} {row : String → Int → VariableRow}
    (h : v.row = .ok row) (now : String) (id : Int) : (row now id).interfaceID = v.interfaceID := by
  unfold VariablePost.row at h
  obtain ⟨name, -, h⟩ := except_bind_ok h
  obtain ⟨type, -, h⟩ := except_bind_ok h
  obtain ⟨exampleText, -, h⟩ := except_bind_ok h
  obtain ⟨comment, -, h⟩ := except_bind_ok h
  obtain ⟨ctime, -, h⟩ := except_bind_ok h
  obtain ⟨mtime, -, h⟩ := except_bind_ok h
  cases h
  rfl

/-- A page that was read is a page of the rows, and each of its rows scans. -/
theorem scanned_eq_ok {α : Type} {scans : α → Bool} {rows rows' : List α} :
    scanned scans rows = .ok rows' ↔ rows' = rows ∧ ∀ x ∈ rows, scans x = true := by
  unfold scanned
  by_cases h : rows.all scans = true
  · rw [if_pos h]
    rw [List.all_eq_true] at h
    exact ⟨fun heq => ⟨(Except.ok.inj heq).symm, h⟩, fun heq => heq.1 ▸ rfl⟩
  · rw [if_neg h]
    rw [List.all_eq_true] at h
    exact iff_of_false (fun heq => by cases heq) fun heq => h heq.2

theorem found_eq_ok {α : Type} {x : Except Fault (List α)} {rows : List α} :
    found x = .ok rows ↔ x = .ok rows ∧ rows ≠ [] := by
  rcases x with e | _ | ⟨r, rs⟩
  · simp [found]
  · simp [found]
  · simp only [found, Except.ok.injEq]
    constructor
    · rintro rfl
      exact ⟨rfl, List.cons_ne_nil _ _⟩
    · exact fun h => h.1

section Collated

variable [Collating]

/-! ## The property -/

section Foreign

variable (db : Db) (u : User)

/-- The interface belongs to a service whose resource the user does not have. -/
def Db.foreign (i : InterfaceRow) : Bool :=
  db.service.rows.any fun s => s.id = i.serviceID && !u.res.contains s.resourceID

def Db.foreignInterfaces : List InterfaceRow := db.interface.rows.filter (db.foreign u)

/-- The variable belongs to a foreign interface. -/
def Db.foreignVar (v : VariableRow) : Bool :=
  (db.foreignInterfaces u).any fun i => i.id = v.interfaceID

def Db.foreignVars : List VariableRow := db.vars.filter (db.foreignVar u)

/-- The service has a resource of the user's. -/
def Db.Permits (serviceID : Int) : Prop :=
  ∃ s, db.serviceOf serviceID = some s ∧ s.resourceID ∈ u.res

end Foreign

def Reply.interfaceRows : Reply → List InterfaceRow
  | .interfaces _ rows => rows.map Prod.fst
  | _ => []

def Reply.variableRows : Reply → List VariableRow
  | .vars _ rows => rows
  | _ => []

/-- The foreign rows are the same. -/
structure Kept (u : User) (db db' : Db) : Prop where
  interfaces : db'.foreignInterfaces u = db.foreignInterfaces u
  vars : db'.foreignVars u = db.foreignVars u

/-- No foreign row is returned or changed. -/
structure Guarded (u : User) (db : Db) (out : Reply × Db) : Prop where
  hidesInterfaces : ∀ i ∈ out.1.interfaceRows, i ∉ db.foreignInterfaces u
  hidesVars : ∀ v ∈ out.1.variableRows, v ∉ db.foreignVars u
  kept : Kept u db out.2

/-- Whatever the request of the user meets, it is guarded. -/
def Complete (C : Collation) (R : Rules) (u : User) (q : Util.Request) (p : Path) (m : Method)
    (s : State) : Prop :=
  ∀ E : Env C, Guarded u s.db
    ((serve R E (.ok u) q p m s).1, (serve R E (.ok u) q p m s).2.db)

/-! ## The condition -/

/-- The update gives the interface the path and the method of another one of its service. -/
def Db.Clashes (db : Db) (p : IfacePut) : Prop :=
  ∃ r ∈ db.interface.rows, r.id = p.id ∧ ∃ r' ∈ db.interface.rows,
    r'.id ≠ p.id ∧ r'.serviceID = r.serviceID ∧ weight r'.path = weight p.path ∧
      r'.method = p.method

/-- No foreign interface can be on the page: none meets the condition of the select, or there are
    not enough interfaces that can be read to fill the page. -/
def Db.HidesInterfaces (C : Collation) (db : Db) (u : User) (i : InterfaceAction) : Prop :=
  match (cond i).read C with
  | .error _ => db.foreignInterfaces u = []
  | .ok p => ∀ x ∈ db.joined p, db.foreign u x.1 = true → scansInterface x = true →
      ¬ (ormWindow i.page i.size).Room scansInterface (db.joined p)

/-- The interface is not foreign, or no page of its variables can be read. -/
def Db.HidesVars (C : Collation) (db : Db) (u : User) (v : VariableGet) : Prop :=
  if Rbac.plainSort v.sort v.order then
    (∀ i ∈ db.foreignInterfaces u, i.id ≠ v.interfaceID) ∨
      ∀ w l, queryWindow v.page v.size = some w →
        l.Perm (db.vars.filter fun x => x.interfaceID = v.interfaceID) →
        C.sorted v.sort v.order l → (∀ x ∈ w.page l, scansVariable x = true) → w.page l = []
  else db.foreignVars u = []

/-- The insert does not parse, or goes to an interface that is not foreign. -/
def Db.Admits (db : Db) (u : User) (v : VariablePost) : Prop :=
  match v.row with
  | .error .injected => db.foreignInterfaces u = []
  | .error _ => True
  | .ok _ => ∀ i ∈ db.foreignInterfaces u, i.id ≠ v.interfaceID

/-- What a request must be like, once its form is decoded. -/
def Clear (C : Collation) (R : Rules) (u : User) (q : Util.Request) (s : State) :
    Path → Method → Prop
  | .interface, .GET => ∀ i, decodeReceiver q s.receiver = (none, i) →
      s.db.Permits u i.serviceID → i.search = "" ∧ i.state ≠ 1 ∨ s.db.HidesInterfaces C u i
  | .interface, .POST => True
  | .interface, .PUT => ∀ p, decodeRequestValue IfacePut.fields R.ifacePut q {} = (none, p) →
      (∀ i ∈ s.db.foreignInterfaces u, i.id ≠ p.id) ∨ s.db.Clashes p
  | .interface, .DELETE => ∀ i, decodeReceiver q s.receiver = (none, i) →
      ∀ r ∈ s.db.foreignInterfaces u, r.id ≠ i.id
  | .deploy, .PUT => ∀ r, decodeRequestValue deployFields R.deploy q {} = (none, r) →
      ∀ i ∈ s.db.foreignInterfaces u, i.id = r.id → i.state = 1
  | .deploy, _ => True
  | .var, .GET => ∀ v, decodeRequestValue VariableGet.fields R.variableGet q {} = (none, v) →
      s.db.Permits u v.serviceID → s.db.HidesVars C u v
  | .var, .POST => ∀ v, decodeRequestValue VariablePost.fields R.variablePost q {} = (none, v) →
      s.db.Admits u v
  | .var, .PUT => ∀ p, decodeRequestValue VariablePut.fields R.variablePut q {} = (none, p) →
      ∀ v ∈ s.db.foreignVars u, v.id ≠ p.id
  | .var, .DELETE => ∀ r, decodeRequestValue (OneID.fields "id") (fun _ => none) q {} = (none, r) →
      ∀ v ∈ s.db.foreignVars u, v.id ≠ r.id

/-! ## What the handlers share -/

theorem Kept.refl (u : User) (db : Db) : Kept u db db := ⟨rfl, rfl⟩

section Handlers

variable {u : User} {db : Db}

theorem guarded_resp (r : Resp) {db' : Db} :
    Guarded u db (.resp r, db') ↔ Kept u db db' := by
  refine ⟨fun h => h.kept, fun h => ⟨?_, ?_, h⟩⟩
  · intro i hi
    cases hi
  · intro v hv
    cases hv

theorem guarded_reply (r : Resp) : Guarded u db (reply r db) :=
  (guarded_resp r).mpr (Kept.refl u db)

/-- A handler that makes a statement and reports. -/
theorem guarded_orFail {α : Type} (x : Act α) (bad : String → Resp) (good : α → Resp) :
    Guarded u db (orFail x bad (fun a => reply (good a)) db) ↔ Kept u db (x db).2 := by
  rcases h : x db with ⟨e | a, db'⟩
  · rw [orFail, Action.onErr_error h]
    exact guarded_resp _
  · rw [orFail, Action.onErr_ok h]
    exact guarded_resp _

theorem kept_send {C : Collation} {E : Env C} {α : Type} (s : Stmt) (x : Act α) :
    Kept u db (send E s x db).2 ↔ (E.refuses s = none → Kept u db (x db).2) := by
  unfold send
  cases E.refuses s with
  | none => exact ⟨fun h _ => h, fun h => h rfl⟩
  | some e => exact iff_of_true (Kept.refl u db) fun h => by cases h

/-- A handler that decodes the form first is guarded when what it then does is. -/
theorem guarded_decoded {ι S : Type} {q : Util.Request} {fields : List (Util.Field S)}
    {valid : S → Option String} {zero : S} {bad : String → Resp} {k : ι → S → Handler} :
    (∀ e, Guarded u db (decoded q fields valid zero bad (k e) db)) ↔
      ∀ v, decodeRequestValue fields valid q zero = (none, v) → ∀ e, Guarded u db (k e v db) := by
  unfold decoded
  rcases decodeRequestValue fields valid q zero with ⟨_ | err, v⟩
  · refine ⟨fun h w hw => ?_, fun h => h v rfl⟩
    cases hw
    exact h
  · refine iff_of_true (fun e => guarded_reply _) fun w hw => ?_
    cases hw

/-- A handler that asks for a resource first is guarded when the user has none there, or what it
    then does is. -/
theorem guarded_withService {C : Collation} (hu : u.isAdmin = false) {id : Int}
    {bad : String → Resp} {k : Env C → Handler} :
    (∀ E, Guarded u db (withService E u id bad (k E) db)) ↔
      (db.Permits u id → ∀ E : Env C, E.refuses .resourceID = none → Guarded u db (k E db)) := by
  constructor
  · rintro h ⟨s, hs, hres⟩ E href
    have hE := h E
    have hask : getServiceResourceID E id db = (.ok s.resourceID, db) := by
      simp only [getServiceResourceID, send, href, hs]
    rw [withService, orFail, Action.onErr_ok hask] at hE
    simpa only [assert_eq_ok hu hres] using hE
  · intro h E
    unfold withService orFail
    cases href : E.refuses .resourceID with
    | some e =>
      have hask : getServiceResourceID E id db = (.error (.text e), db) := by
        simp only [getServiceResourceID, send, href]
      rw [Action.onErr_error hask]
      exact guarded_reply _
    | none =>
      cases hs : db.serviceOf id with
      | none =>
        have hask : getServiceResourceID E id db =
            (.error (.text ("service " ++ toString id ++ " not found")), db) := by
          simp only [getServiceResourceID, send, href, hs]
        rw [Action.onErr_error hask]
        exact guarded_reply _
      | some s =>
        have hask : getServiceResourceID E id db = (.ok s.resourceID, db) := by
          simp only [getServiceResourceID, send, href, hs]
        rw [Action.onErr_ok hask]
        by_cases hres : s.resourceID ∈ u.res
        · simp only [assert_eq_ok hu hres]
          exact h ⟨s, hs, hres⟩ E href
        · obtain ⟨e, he⟩ := assert_eq_error hu hres
          simp only [he]
          exact guarded_reply _

/-- A write to `interface` keeps the foreign variables when it keeps the foreign interfaces. -/
theorem kept_interface {t : Table interfaceSchema} : Kept u db { db with interface := t } ↔
    t.rows.filter (db.foreign u) = db.foreignInterfaces u := by
  refine ⟨fun h => h.interfaces, fun h => ?_⟩
  have heq : ({ db with interface := t } : Db).foreignInterfaces u = db.foreignInterfaces u := h
  refine ⟨heq, ?_⟩
  unfold Db.foreignVars Db.foreignVar
  rw [heq]

theorem kept_vars {vars : List VariableRow} {next : Int} :
    Kept u db { db with vars := vars, nextVar := next } ↔
      vars.filter (db.foreignVar u) = db.foreignVars u :=
  ⟨fun h => h.vars, fun h => ⟨rfl, h⟩⟩

end Handlers

/-! ## Surroundings -/

/-- Every statement is accepted at the time `now`, no select finds a row, and what goes astray
    returns these interfaces or variables, or leaves these variables. -/
def Env.calm (C : Collation) (now : String) (listed : List Listed)
    (found stray : List VariableRow) : Env C where
  now := now
  refuses _ := none
  selectInterfaces _ := .error ""
  interfaces_perm h := by cases h
  selectVars _ _ _ := .error ""
  vars_perm h := by cases h
  strayCount := .ok 0
  strayInterfaces := .ok listed
  strayVars := .ok found
  strayAdd _ := (.ok 0, stray)

/-! ## Writes to `interface` -/

section InterfaceWrites

variable {C : Collation} {u : User} {db : Db}

theorem update_eq_none_iff_clashes (now : String) (p : IfacePut) :
    db.interface.update (fun r => r.id = p.id) (setInterface now p) (id_setInterface now p) = none ↔
      db.Clashes p := by
  rw [Table.update_eq_none_iff]
  · simp only [decide_eq_true_eq, decide_eq_false_iff_not, setInterface, Prod.mk.injEq]
    rfl
  · intro r hr r' hr' h h'
    refine db.interface.eq_of_id hr hr' ?_
    rw [decide_eq_true_eq] at h h'
    exact h.trans h'.symm

/-- An update that goes through keeps the foreign interfaces when it changes none. -/
theorem kept_update {p : InterfaceRow → Bool} {f : InterfaceRow → InterfaceRow}
    {hid : ∀ r, interfaceSchema.id (f r) = interfaceSchema.id r}
    {t : Table interfaceSchema} (h : db.interface.update p f hid = some t)
    (hservice : ∀ r, (f r).serviceID = r.serviceID) :
    Kept u db { db with interface := t } ↔ ∀ i ∈ db.foreignInterfaces u, p i = true → f i = i := by
  rw [kept_interface, Table.update_rows h, Db.foreignInterfaces, filter_map_eq_iff]
  · refine forall₂_congr fun i _ => ?_
    cases p i <;> simp
  · intro i
    unfold Db.foreign
    cases p i <;> simp [hservice]

theorem updateInterface_iff (p : IfacePut) :
    (∀ E : Env C, Kept u db (updateInterface E p db).2) ↔
      (∀ i ∈ db.foreignInterfaces u, i.id ≠ p.id) ∨ db.Clashes p := by
  constructor
  · intro h
    by_cases hclash : db.Clashes p
    · exact .inr hclash
    · refine .inl fun i hi hid => ?_
      have hE := (kept_send _ _).mp (h (Env.calm C (i.mtime ++ "x") [] [] [])) rfl
      obtain ⟨t, ht⟩ := Option.ne_none_iff_exists'.mp
        (mt (update_eq_none_iff_clashes (i.mtime ++ "x") p).mp hclash)
      have hkept : Kept u db { db with interface := t } := by
        simpa only [Env.calm, ht, updated] using hE
      have heq := (kept_update ht fun _ => rfl).mp hkept i hi (decide_eq_true hid)
      exact append_ne_self _ (congrArg InterfaceRow.mtime heq)
  · intro h E
    refine (kept_send _ _).mpr fun _ => ?_
    cases ht : db.interface.update (fun r => r.id = p.id) (setInterface E.now p)
        (id_setInterface E.now p) with
    | none => exact Kept.refl u db
    | some t =>
      refine (kept_update ht fun _ => rfl).mpr fun i hi hid => ?_
      rcases h with h | h
      · exact absurd (of_decide_eq_true hid) (h i hi)
      · rw [(update_eq_none_iff_clashes E.now p).mpr h] at ht
        cases ht

theorem deployInterface_iff (id : Int) :
    (∀ E : Env C, Kept u db (deployInterface E id db).2) ↔
      ∀ i ∈ db.foreignInterfaces u, i.id = id → i.state = 1 := by
  have hupdate : ∀ now, ∃ t, db.interface.update (fun r => r.id = id) (setDeployed now)
      (id_setDeployed now) = some t := fun now =>
    (db.interface.update_of_key (id_setDeployed now) fun _ _ _ => rfl).imp fun _ h => h.1
  constructor
  · intro h i hi hid
    obtain ⟨t, ht⟩ := hupdate ""
    have hE := (kept_send _ _).mp (h (Env.calm C "" [] [] [])) rfl
    have hkept : Kept u db { db with interface := t } := by
      simpa only [Env.calm, ht, updated] using hE
    have heq := (kept_update ht fun _ => rfl).mp hkept i hi (decide_eq_true hid)
    exact (congrArg InterfaceRow.state heq).symm
  · intro h E
    refine (kept_send _ _).mpr fun _ => ?_
    obtain ⟨t, ht⟩ := hupdate E.now
    have hkept : Kept u db { db with interface := t } := by
      refine (kept_update ht fun _ => rfl).mpr fun i hi hid => ?_
      have hstate := h i hi (of_decide_eq_true hid)
      simp [setDeployed, Rbac.onUpdate, ← hstate]
    simpa only [ht, updated] using hkept

theorem delInterface_iff (id : Int) :
    (∀ E : Env C, Kept u db (delInterface E id db).2) ↔
      ∀ i ∈ db.foreignInterfaces u, i.id ≠ id := by
  have hkept : Kept u db { db with interface := db.interface.delete fun r => r.id = id } ↔
      ∀ i ∈ db.foreignInterfaces u, i.id ≠ id := by
    rw [kept_interface]
    show (db.interface.rows.filter _).filter _ = db.interface.rows.filter _ ↔ _
    rw [filter_filter_eq_iff]
    simp [Db.foreignInterfaces]
  constructor
  · intro h
    exact hkept.mp ((kept_send _ _).mp (h (Env.calm C "" [] [] [])) rfl)
  · intro h E
    exact (kept_send _ _).mpr fun _ => hkept.mpr h

/-- An interface of a service the user may use is not foreign. -/
theorem foreign_of_permits {i : InterfaceRow} (h : db.Permits u i.serviceID) :
    db.foreign u i = false := by
  obtain ⟨s, hs, hres⟩ := h
  unfold Db.serviceOf at hs
  have hmem := List.mem_of_find?_eq_some hs
  have hid : s.id = i.serviceID := by simpa using List.find?_some hs
  simp only [Db.foreign, List.any_eq_false, Bool.and_eq_true, decide_eq_true_eq, not_and]
  intro s' hs' hid'
  have heq : s' = s := db.service.eq_of_id hs' hmem (hid'.trans hid.symm)
  simp [heq, hres]

theorem kept_insert (E : Env C) {i : Iface} (h : db.Permits u i.serviceID) :
    Kept u db (insertInterface E i db).2 := by
  refine (kept_send _ _).mpr fun _ => kept_interface.mpr ?_
  unfold Relations.insert
  split
  · rfl
  · next hnew =>
    have hforeign : db.foreign u ((interfaceEntry E i).make db.interface.next) = false :=
      foreign_of_permits h
    show (db.interface.upsertRows (interfaceEntry E i)).filter _ = _
    rw [db.interface.upsertRows_of_not_mem (interfaceEntry E i) (by simpa using hnew),
      List.filter_append, List.filter_singleton, hforeign]
    simp [Db.foreignInterfaces]

end InterfaceWrites

/-! ## Writes to `variable` -/

section VariableWrites

variable {C : Collation} {u : User} {db : Db}

theorem foreignVar_eq_false {v : VariableRow} :
    db.foreignVar u v = false ↔ ∀ i ∈ db.foreignInterfaces u, i.id ≠ v.interfaceID := by
  simp [Db.foreignVar]

theorem updateVariable_iff (p : VariablePut) :
    (∀ E : Env C, Kept u db (updateVariable E p db).2) ↔
      ∀ v ∈ db.foreignVars u, v.id ≠ p.id := by
  have hkept : ∀ E : Env C, Kept u db { db with
      vars := db.vars.map fun v => if v.id = p.id then setVariable E.now p v else v } ↔
        ∀ v ∈ db.foreignVars u, (if v.id = p.id then setVariable E.now p v else v) = v := by
    intro E
    refine kept_vars.trans (filter_map_eq_iff fun v => ?_)
    split <;> rfl
  constructor
  · intro h v hv hid
    have hE := (hkept _).mp ((kept_send _ _).mp (h (Env.calm C (v.mtime ++ "x") [] [] [])) rfl) v hv
    rw [if_pos hid] at hE
    exact append_ne_self _ (congrArg VariableRow.mtime hE)
  · intro h E
    exact (kept_send _ _).mpr fun _ => (hkept E).mpr fun v hv => if_neg (h v hv)

theorem delVariable_iff (id : Int) :
    (∀ E : Env C, Kept u db (delVariable E id db).2) ↔ ∀ v ∈ db.foreignVars u, v.id ≠ id := by
  have hkept : Kept u db { db with vars := db.vars.filter fun v => !decide (v.id = id) } ↔
      ∀ v ∈ db.foreignVars u, v.id ≠ id := by
    refine kept_vars.trans (filter_filter_eq_iff.trans ?_)
    simp [Db.foreignVars]
  constructor
  · intro h
    exact hkept.mp ((kept_send _ _).mp (h (Env.calm C "" [] [] [])) rfl)
  · intro h E
    exact (kept_send _ _).mpr fun _ => hkept.mpr h

/-- A variable more is a change when it is foreign. -/
theorem kept_concat {x : VariableRow} {next : Int} :
    Kept u db { db with vars := db.vars ++ [x], nextVar := next } ↔
      ∀ i ∈ db.foreignInterfaces u, i.id ≠ x.interfaceID :=
  kept_vars.trans (filter_concat_eq_iff.trans foreignVar_eq_false)

theorem addVariable_iff (v : VariablePost) :
    (∀ E : Env C, Kept u db (addVariable E v db).2) ↔ db.Admits u v := by
  unfold addVariable Db.Admits
  cases hrow : v.row with
  | ok row =>
    constructor
    · intro h
      have hE := (kept_send _ _).mp (h (Env.calm C "" [] [] [])) rfl
      simpa only [hrow, interfaceID_row hrow] using kept_concat.mp hE
    · intro h E
      refine (kept_send _ _).mpr fun _ => kept_concat.mpr ?_
      simpa only [interfaceID_row hrow] using h
  | error f =>
    cases f with
    | injected =>
      constructor
      · intro h
        refine List.eq_nil_iff_forall_not_mem.mpr fun i hi => ?_
        -- an insert that goes astray may add a variable to any interface
        have hE := (kept_send _ _).mp
          (h (Env.calm C "" [] [] (db.vars ++ [⟨0, i.id, 0, "", "", 0, 0, "", "", "", ""⟩]))) rfl
        exact kept_concat.mp hE i hi rfl
      · intro h E
        refine (kept_send _ _).mpr fun _ => kept_vars.mpr ?_
        have hnone : ∀ v, db.foreignVar u v = false := fun v => by simp [Db.foreignVar, h]
        have hfilter : ∀ l : List VariableRow, l.filter (db.foreignVar u) = [] := fun l =>
          List.filter_eq_nil_iff.mpr fun v _ => by simp [hnone v]
        rw [hfilter, Db.foreignVars, hfilter]
    | _ => exact iff_of_true (fun E => (kept_send _ _).mpr fun _ => Kept.refl u db) trivial

end VariableWrites

/-! ## Reads -/

section Reads

variable {C : Collation} {u : User} {db : Db}

theorem guarded_interfaces {total : Int} {rows : List Listed} :
    Guarded u db (.interfaces total rows, db) ↔ ∀ x ∈ rows, x.1 ∉ db.foreignInterfaces u := by
  constructor
  · intro h x hx
    exact h.hidesInterfaces x.1 (List.mem_map_of_mem hx)
  · intro h
    refine ⟨fun i hi => ?_, fun v hv => ?_, Kept.refl u db⟩
    · obtain ⟨x, hx, rfl⟩ := List.mem_map.mp hi
      exact h x hx
    · cases hv

theorem guarded_vars {total : Int} {rows : List VariableRow} :
    Guarded u db (.vars total rows, db) ↔ ∀ x ∈ rows, x ∉ db.foreignVars u := by
  refine ⟨fun h => h.hidesVars, fun h => ⟨fun i hi => ?_, h, Kept.refl u db⟩⟩
  cases hi

theorem mem_joined {p : InterfaceRow → Bool} {x : Listed} :
    x ∈ db.joined p ↔
      x.1 ∈ db.interface.rows ∧ p x.1 = true ∧ db.serviceOf x.1.serviceID = some x.2 := by
  obtain ⟨i, s⟩ := x
  simp only [Db.joined, List.mem_filterMap, List.mem_filter, Option.map_eq_some_iff, Prod.mk.injEq]
  constructor
  · rintro ⟨i', ⟨hi, hp⟩, s', hs, rfl, rfl⟩
    exact ⟨hi, hp, hs⟩
  · rintro ⟨hi, hp, hs⟩
    exact ⟨i, ⟨hi, hp⟩, s, hs, rfl, rfl⟩

theorem countInterfaces_reads (db : Db) (E : Env C) (i : InterfaceAction) :
    (countInterfaces E i db).2 = db := by
  unfold countInterfaces send
  split
  · rfl
  · split <;> rfl

theorem listInterfaces_reads (db : Db) (E : Env C) (i : InterfaceAction) :
    (listInterfaces E i db).2 = db := by
  unfold listInterfaces
  split
  · rfl
  · split <;> rfl

theorem queryVariables_reads (db : Db) (E : Env C) (v : VariableGet) :
    (queryVariables E v db).2 = db := by
  unfold queryVariables
  dsimp only
  split
  · split
    · rfl
    · split <;> rfl
  · rfl

theorem pageInterfaces_eq {E : Env C} {i : InterfaceAction} {total : Int} {rows : List Listed}
    (hcount : (countInterfaces E i db).1 = .ok total)
    (hlist : (listInterfaces E i db).1 = .ok rows) :
    pageInterfaces E i db = (.interfaces total rows, db) := by
  have hc : countInterfaces E i db = (.ok total, db) :=
    Prod.ext hcount (countInterfaces_reads db E i)
  have hl : listInterfaces E i db = (.ok rows, db) := Prod.ext hlist (listInterfaces_reads db E i)
  rw [pageInterfaces, orFail, Action.onErr_ok hc, Action.onErr_ok hl]

/-- A list that fails is answered with the total 0. -/
theorem pageInterfaces_of_unlisted {E : Env C} {i : InterfaceAction} {total : Int} {e : Fault}
    (hcount : (countInterfaces E i db).1 = .ok total)
    (hlist : (listInterfaces E i db).1 = .error e) :
    pageInterfaces E i db = (.resp (.page 0 none), db) := by
  have hc : countInterfaces E i db = (.ok total, db) :=
    Prod.ext hcount (countInterfaces_reads db E i)
  have hl : listInterfaces E i db = (.error e, db) :=
    Prod.ext hlist (listInterfaces_reads db E i)
  rw [pageInterfaces, orFail, Action.onErr_ok hc, Action.onErr_error hl]

theorem countInterfaces_eq {E : Env C} {i : InterfaceAction} {p : InterfaceRow → Bool}
    (hread : (cond i).read C = .ok p) (href : E.refuses .countInterface = none) :
    (countInterfaces E i db).1 = .ok ((db.interface.rows.filter p).length : Int) := by
  simp only [countInterfaces, send, href, hread]

theorem guarded_pageInterfaces {E : Env C} {i : InterfaceAction}
    (h : ∀ rows, (listInterfaces E i db).1 = .ok rows → ∀ x ∈ rows, x.1 ∉ db.foreignInterfaces u) :
    Guarded u db (pageInterfaces E i db) := by
  cases hcount : (countInterfaces E i db).1 with
  | error e =>
    have hc : countInterfaces E i db = (.error e, db) :=
      Prod.ext hcount (countInterfaces_reads db E i)
    rw [pageInterfaces, orFail, Action.onErr_error hc]
    exact guarded_reply _
  | ok total =>
    cases hlist : (listInterfaces E i db).1 with
    | error e =>
      rw [pageInterfaces_of_unlisted hcount hlist]
      exact guarded_reply _
    | ok rows =>
      rw [pageInterfaces_eq hcount hlist]
      exact guarded_interfaces.mpr (h rows hlist)

theorem pageVariables_iff {E : Env C} {v : VariableGet} :
    Guarded u db (pageVariables E v db) ↔
      ∀ total rows, (queryVariables E v db).1 = .ok (total, rows) →
        ∀ x ∈ rows, x ∉ db.foreignVars u := by
  have hnone : Guarded u db (.vars 0 [], db) := guarded_vars.mpr fun x hx => by cases hx
  cases hquery : (queryVariables E v db).1 with
  | error e =>
    have hq : queryVariables E v db = (.error e, db) :=
      Prod.ext hquery (queryVariables_reads db E v)
    rw [pageVariables, Action.onErr_error hq]
    exact iff_of_true hnone fun _ _ h => by cases h
  | ok x =>
    obtain ⟨total, rows⟩ := x
    have hq : queryVariables E v db = (.ok (total, rows), db) :=
      Prod.ext hquery (queryVariables_reads db E v)
    rw [pageVariables, Action.onErr_ok hq]
    have hrows : Guarded u db (if rows.isEmpty then .vars 0 [] else .vars total rows, db) ↔
        ∀ x ∈ rows, x ∉ db.foreignVars u := by
      cases rows with
      | nil => exact iff_of_true hnone fun x hx => by cases hx
      | cons r rs => exact guarded_vars
    refine hrows.trans ⟨fun h _ _ heq => ?_, fun h => h total rows rfl⟩
    cases heq
    exact h

/-- The rows `interface` GET lists. -/
theorem listInterfaces_eq_ok {E : Env C} {i : InterfaceAction} {p : InterfaceRow → Bool}
    (hread : (cond i).read C = .ok p) {rows : List Listed} :
    (listInterfaces E i db).1 = .ok rows ↔
      ∃ l, E.selectInterfaces (db.joined p) = .ok l ∧ rows = (ormWindow i.page i.size).page l ∧
        rows ≠ [] ∧ ∀ x ∈ rows, scansInterface x = true := by
  unfold listInterfaces
  rw [hread]
  dsimp only
  cases E.selectInterfaces (db.joined p) with
  | error e => simp
  | ok l =>
    simp only [found_eq_ok, scanned_eq_ok, Except.ok.injEq, exists_eq_left']
    constructor
    · rintro ⟨⟨rfl, hscan⟩, hne⟩
      exact ⟨rfl, hne, hscan⟩
    · rintro ⟨rfl, hne, hscan⟩
      exact ⟨⟨rfl, hscan⟩, hne⟩

/-- A select of `rows` gives them in the order `l`. -/
def Env.listing (C : Collation) (rows l : List Listed) (hl : l.Perm rows) : Env C :=
  { Env.calm C "" [] [] [] with
    selectInterfaces := fun x => if x = rows then .ok l else .error ""
    interfaces_perm := by
      intro x l' h
      split at h
      · next hx =>
        cases h
        exact hx ▸ hl
      · cases h }

theorem pageInterfaces_iff (i : InterfaceAction) :
    (∀ E : Env C, E.refuses .resourceID = none → Guarded u db (pageInterfaces E i db)) ↔
      db.HidesInterfaces C u i := by
  unfold Db.HidesInterfaces
  cases hread : (cond i).read C with
  | error e =>
    constructor
    · intro h
      refine List.eq_nil_iff_forall_not_mem.mpr fun r hr => ?_
      obtain ⟨s, -, -⟩ := List.any_eq_true.mp (List.mem_filter.mp hr).2
      have hlist : (listInterfaces (Env.calm C "" [(r, s)] [] []) i db).1 = .ok [(r, s)] := by
        simp only [listInterfaces, hread, Env.calm]
      have hcount : (countInterfaces (Env.calm C "" [(r, s)] [] []) i db).1 = .ok 0 := by
        simp only [countInterfaces, send, Env.calm, hread]
      have hE := h (Env.calm C "" [(r, s)] [] []) rfl
      rw [pageInterfaces_eq hcount hlist, guarded_interfaces] at hE
      exact hE (r, s) List.mem_cons_self hr
    · intro h E _
      refine guarded_pageInterfaces fun rows _ x _ hx => ?_
      rw [h] at hx
      cases hx
  | ok p =>
    constructor
    · intro h x hx hforeign hscan hroom
      obtain ⟨l, hperm, hmem, hok⟩ := (Window.exists_page _ hx hscan).mpr hroom
      have hlist : (listInterfaces (Env.listing C (db.joined p) l hperm) i db).1 =
          .ok ((ormWindow i.page i.size).page l) :=
        (listInterfaces_eq_ok hread).mpr
          ⟨l, if_pos rfl, rfl, List.ne_nil_of_mem hmem, hok⟩
      have hE := h (Env.listing C (db.joined p) l hperm) rfl
      rw [pageInterfaces_eq (countInterfaces_eq hread rfl) hlist, guarded_interfaces] at hE
      exact hE x hmem (List.mem_filter.mpr ⟨(mem_joined.mp hx).1, hforeign⟩)
    · intro h E _
      refine guarded_pageInterfaces fun rows hrows x hx hforeign => ?_
      obtain ⟨l, hselect, rfl, -, hscan⟩ := (listInterfaces_eq_ok hread).mp hrows
      have hperm := E.interfaces_perm hselect
      have hjoined : x ∈ db.joined p :=
        hperm.mem_iff.mp ((Window.page_sublist _ _).subset hx)
      exact h x hjoined (List.mem_filter.mp hforeign).2 (hscan x hx)
        (Window.room_of_page hperm hx hscan)

/-- The interfaces of a service that is permitted are not foreign. -/
theorem hidesInterfaces_of_service {i : InterfaceAction} (hsearch : i.search = "")
    (hstate : i.state ≠ 1) (h : db.Permits u i.serviceID) : db.HidesInterfaces C u i := by
  have hcond : cond i = .service i.serviceID := by simp [cond, hsearch, hstate]
  unfold Db.HidesInterfaces
  rw [hcond]
  intro x hx hforeign
  have hid : x.1.serviceID = i.serviceID := of_decide_eq_true (mem_joined.mp hx).2.1
  rw [foreign_of_permits (hid.symm ▸ h)] at hforeign
  cases hforeign

/-- The rows of a `query` that sorts by a column. -/
theorem queryVariables_eq_ok {E : Env C} {v : VariableGet}
    (hsort : Rbac.plainSort v.sort v.order = true) {rows : List VariableRow} :
    (∃ total, (queryVariables E v db).1 = .ok (total, rows)) ↔
      ∃ w l, queryWindow v.page v.size = some w ∧
        E.selectVars v.sort v.order (db.vars.filter fun x => x.interfaceID = v.interfaceID) =
          .ok l ∧
        rows = w.page l ∧ ∀ x ∈ w.page l, scansVariable x = true := by
  unfold queryVariables
  simp only [hsort, if_true]
  cases queryWindow v.page v.size with
  | none => simp
  | some w =>
    cases E.selectVars v.sort v.order (db.vars.filter fun x => x.interfaceID = v.interfaceID) with
    | error e => simp
    | ok l =>
      constructor
      · rintro ⟨total, h⟩
        obtain ⟨l', hl', heq⟩ := except_map_ok h
        cases heq
        obtain ⟨rfl, hscan⟩ := scanned_eq_ok.mp hl'
        exact ⟨w, l, rfl, rfl, rfl, hscan⟩
      · rintro ⟨w', l', hw, hl, rfl, hscan⟩
        cases hw
        cases hl
        have hscanned := scanned_eq_ok.mpr ⟨rfl, hscan⟩
        exact ⟨_, congrArg (Except.map _) hscanned⟩

/-- A `query` that sorts by `sort` and `order` finds `rows` in the order `l`. -/
def Env.sorting (C : Collation) (sort order : String) (rows l : List VariableRow) (hl : l.Perm rows)
    (hsorted : C.sorted sort order l) : Env C :=
  { Env.calm C "" [] [] [] with
    selectVars := fun sort' order' x =>
      if sort' = sort ∧ order' = order ∧ x = rows then .ok l else .error ""
    vars_perm := by
      intro sort' order' x l' h
      split at h
      · next hx =>
        obtain ⟨rfl, rfl, rfl⟩ := hx
        cases h
        exact ⟨hl, hsorted⟩
      · cases h }

theorem hidesVars_iff (v : VariableGet) :
    (∀ E : Env C, E.refuses .resourceID = none → Guarded u db (pageVariables E v db)) ↔
      db.HidesVars C u v := by
  simp only [pageVariables_iff]
  unfold Db.HidesVars
  by_cases hsort : Rbac.plainSort v.sort v.order = true
  · rw [if_pos hsort]
    constructor
    · intro h
      by_cases hown : ∀ i ∈ db.foreignInterfaces u, i.id ≠ v.interfaceID
      · exact .inl hown
      · refine .inr fun w l hw hperm hsorted hscan => ?_
        refine List.eq_nil_iff_forall_not_mem.mpr fun x hx => ?_
        obtain ⟨total, htotal⟩ := (queryVariables_eq_ok hsort).mpr
          ⟨w, l, hw, show (Env.sorting C v.sort v.order _ l hperm hsorted).selectVars _ _ _ = _ from
            if_pos ⟨rfl, rfl, rfl⟩, rfl, hscan⟩
        have hmem := hperm.mem_iff.mp ((Window.page_sublist _ _).subset hx)
        obtain ⟨hvar, hid⟩ := List.mem_filter.mp hmem
        refine h _ rfl total _ htotal x hx (List.mem_filter.mpr ⟨hvar, ?_⟩)
        rw [← Bool.not_eq_false, foreignVar_eq_false, of_decide_eq_true hid]
        exact hown
    · rintro h E - total rows hrows x hx hforeign
      obtain ⟨w, l, hw, hselect, rfl, hscan⟩ := (queryVariables_eq_ok hsort).mp ⟨total, hrows⟩
      obtain ⟨hperm, hsorted⟩ := E.vars_perm hselect
      rcases h with h | h
      · have hmem := hperm.mem_iff.mp ((Window.page_sublist _ _).subset hx)
        have hid := of_decide_eq_true (List.mem_filter.mp hmem).2
        have hown := foreignVar_eq_false.mpr (hid.symm ▸ h)
        rw [(List.mem_filter.mp hforeign).2] at hown
        cases hown
      · rw [h w l hw hperm hsorted hscan] at hx
        cases hx
  · rw [if_neg hsort]
    constructor
    · intro h
      refine List.eq_nil_iff_forall_not_mem.mpr fun x hx => ?_
      have hquery : ∃ total,
          (queryVariables (Env.calm C "" [] [x] []) v db).1 = .ok (total, [x]) :=
        ⟨_, by simp only [queryVariables, hsort]; rfl⟩
      obtain ⟨total, htotal⟩ := hquery
      exact h _ rfl total [x] htotal x List.mem_cons_self hx
    · rintro h E - total rows - x - hx
      rw [h] at hx
      cases hx

end Reads

/-! ## Two services -/

def plainCollation : Collation := ⟨fun _ _ => false, fun _ _ _ => True, fun _ _ => trivial⟩

def lenient : Rules :=
  ⟨fun _ => none, fun _ => none, fun _ => none, fun _ => none, fun _ => none, fun _ => none⟩

/-- A user with the resource 5. -/
def guest : User := ⟨"guest", "guest", false, [5]⟩

def serviceNamed (path : String) (resourceID : Int) : Entry serviceSchema :=
  .fresh (weight path) (fun n => ⟨n, 0, resourceID, 0, "", "", false, "", path, "", 0, "", "", ""⟩)
    (fun _ => rfl) fun _ => rfl

def interfaceNamed (path : String) (serviceID : Int) : Entry interfaceSchema :=
  .fresh (serviceID, weight path, 0)
    (fun n => ⟨n, serviceID, "", 0, "", "", 1, path, "", "", 0, "", ""⟩)
    (fun _ => rfl) fun _ => rfl

/-- The service 1 has the resource 5, and the service 2 the resource 6, an interface and a
    variable. -/
def shop : Db where
  service := ((Table.empty _).upsert (serviceNamed "own" 5)).upsert (serviceNamed "other" 6)
  interface := (Table.empty _).upsert (interfaceNamed "pay" 2)
  vars := [⟨1, 1, 0, "token", "string", 0, 1, "", "", "", ""⟩]
  nextVar := 2

/-- The variables of the interface 1, asked for as if it were one of the service 1. -/
def sneaky : Util.Request := ⟨none, [("interfaceID", "1"), ("serviceID", "1")]⟩

/-! ## Every request -/

section Requests

variable {u : User}

theorem guarded_onReceiver {ι : Type} {q : Util.Request} {bad : String → Resp}
    {h : ι → InterfaceAction → Handler} {s : State} :
    (∀ e, Guarded u s.db ((onReceiver q bad (h e) s).1, (onReceiver q bad (h e) s).2.db)) ↔
      ∀ i, decodeReceiver q s.receiver = (none, i) → ∀ e, Guarded u s.db (h e i s.db) := by
  unfold onReceiver
  rcases decodeReceiver q s.receiver with ⟨_ | err, i⟩
  · refine ⟨fun h' j hj => ?_, fun h' => h' i rfl⟩
    cases hj
    exact h'
  · refine iff_of_true (fun e => guarded_reply _) fun j hj => ?_
    cases hj

/-- For every database, every user who is no administrator and every request of theirs: in all
    surroundings, no foreign row is returned or changed exactly when the request is clear. -/
theorem complete_iff (C : Collation) (R : Rules) (u : User) (hu : u.isAdmin = false)
    (q : Util.Request) (p : Path) (m : Method) (s : State) :
    Complete C R u q p m s ↔ Clear C R u q s p m := by
  cases p with
  | interface =>
    cases m with
    | GET =>
      refine guarded_onReceiver.trans (forall₂_congr fun i _ => ?_)
      refine (guarded_withService hu).trans (forall_congr' fun hpermits => ?_)
      rw [pageInterfaces_iff]
      refine ⟨.inr, fun h => h.elim (fun h => ?_) id⟩
      exact hidesInterfaces_of_service h.1 h.2 hpermits
    | POST =>
      refine iff_of_true (guarded_decoded.mpr fun i _ => ?_) trivial
      refine (guarded_withService hu).mpr fun hpermits E _ => (guarded_resp _).mpr ?_
      exact kept_insert E hpermits
    | PUT =>
      refine guarded_decoded.trans (forall₂_congr fun i _ => ?_)
      exact (forall_congr' fun E => guarded_orFail _ _ _).trans (updateInterface_iff i)
    | DELETE =>
      refine guarded_onReceiver.trans (forall₂_congr fun i _ => ?_)
      exact (forall_congr' fun E => guarded_orFail _ _ _).trans (delInterface_iff i.id)
  | deploy =>
    cases m with
    | PUT =>
      refine guarded_decoded.trans (forall₂_congr fun r _ => ?_)
      exact (forall_congr' fun E => guarded_orFail _ _ _).trans (deployInterface_iff r.id)
    | _ => exact iff_of_true (fun E => guarded_reply _) trivial
  | var =>
    cases m with
    | GET =>
      refine guarded_decoded.trans (forall₂_congr fun v _ => ?_)
      exact (guarded_withService hu).trans (forall_congr' fun _ => hidesVars_iff v)
    | POST =>
      refine guarded_decoded.trans (forall₂_congr fun v _ => ?_)
      exact (forall_congr' fun E => guarded_orFail _ _ _).trans (addVariable_iff v)
    | PUT =>
      refine guarded_decoded.trans (forall₂_congr fun p _ => ?_)
      exact (forall_congr' fun E => guarded_orFail _ _ _).trans (updateVariable_iff p)
    | DELETE =>
      refine guarded_decoded.trans (forall₂_congr fun r _ => ?_)
      exact (forall_congr' fun E => guarded_orFail _ _ _).trans (delVariable_iff r.id)

end Requests

end Collated

section Examples

attribute [local instance] asciiCi

/-- A variable that is not the foreign one may be deleted. -/
theorem complete_iff_shop : guest.isAdmin = false ∧
    Complete plainCollation lenient guest ⟨none, [("id", "2")]⟩ .var .DELETE ⟨shop, {}⟩ := by
  refine ⟨rfl, (complete_iff plainCollation lenient guest rfl _ .var .DELETE ⟨shop, {}⟩).mpr ?_⟩
  intro r hr v hv hid
  have hr2 : r.id = 2 := congrArg (fun x => x.2.id) hr.symm
  have hv1 : ∀ v ∈ shop.foreignVars guest, v.id = 1 := by decide
  rw [hv1 v hv, hr2] at hid
  cases hid

/-- The service that is checked need not be that of the interface. -/
theorem variables_of_other_service_returned : guest.isAdmin = false ∧
    ¬ Complete plainCollation lenient guest sneaky .var .GET ⟨shop, {}⟩ := by
  refine ⟨rfl, fun h => ?_⟩
  have hE := h (Env.sorting plainCollation "" "" shop.vars shop.vars (List.Perm.refl _) trivial)
  exact hE.hidesVars ⟨1, 1, 0, "token", "string", 0, 1, "", "", "", ""⟩ (by decide) (by decide)

end Examples

end Doodle.Manager.Resources
