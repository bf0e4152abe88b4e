/-
  A registration one of whose statements fails.

  `NoTrace` is what one would want: wherever a statement of the request fails, if the request
  answers with an error then `interface` and `variable` have the rows they had. The handler has no
  transaction, so the rows are those before the failing statement.

  `noTrace_iff`: a request leaves no trace exactly when the statements before its last one write
  nothing: its service does not exist; or its key is new and its document has no fields; or its key
  is there and the query for the row or the update of it fails, or the update changes nothing and the
  document has no fields, or one field for an interface without variables.
  `row_left`: a new interface with one field, whose insert fails, stays without it.
-/
import Doodle.Lib.Failure
import Doodle.Manager.Register

namespace Doodle.Manager.Register

open Doodle.Lib

/-! ## A failing statement ends the request -/

section Aborts

variable {s : String} {α β : Type}

/-- A statement that fails with the text `s` ends the action with it. -/
def AbortsOn (s : String) (x : Act α) : Prop := Prog.Aborts (Fault.text s) x.run

theorem abortsOn_pure (a : α) : AbortsOn s (pure a) := trivial

theorem abortsOn_ask (c : Call) : AbortsOn s (ask c) := ⟨rfl, fun _ => trivial⟩

theorem abortsOn_bind {x : Act α} {f : α → Act β} (hx : AbortsOn s x)
    (hf : ∀ a, AbortsOn s (f a)) : AbortsOn s (x >>= f) := by
  unfold AbortsOn at *
  rw [ExceptT.run_bind]
  refine Prog.aborts_bind hx rfl fun r => ?_
  cases r with
  | error e => trivial
  | ok a => exact hf a

theorem abortsOn_addVariable (interfaceID postion level : Int) (parent : String)
    (fs : List Field) : AbortsOn s (addVariable interfaceID postion level parent fs) := by
  fun_induction fieldRows interfaceID postion level parent fs with
  | case1 level parent =>
    rw [addVariable]
    exact abortsOn_pure ()
  | case2 level parent name type required comment child fs ih1 ih2 =>
    rw [addVariable]
    exact abortsOn_bind (abortsOn_ask _) fun _ => abortsOn_bind ih1 fun _ => ih2

theorem abortsOn_addDocument (b : Body) (id : Int) : AbortsOn s (addDocument b id) :=
  abortsOn_bind (abortsOn_addVariable ..) fun _ =>
    abortsOn_bind (abortsOn_addVariable ..) fun _ => abortsOn_pure _

theorem abortsOn_updateExisting (k : IfaceKey) (b : Body) : AbortsOn s (updateExisting k b) :=
  abortsOn_bind (abortsOn_ask _) fun _ => abortsOn_bind (abortsOn_ask _) fun _ =>
    abortsOn_bind (abortsOn_ask _) fun _ => abortsOn_pure _

/-- Only a duplicate entry is handled. -/
theorem abortsOn_insertOrUpdate (k : IfaceKey) (b : Body) : AbortsOn s (insertOrUpdate k b) := by
  refine ⟨rfl, fun a => ?_⟩
  cases a with
  | ok id => trivial
  | error e =>
    cases e with
    | duplicate => exact abortsOn_updateExisting k b
    | notFound => trivial
    | text t => trivial

theorem abortsOn_post (k : IfaceKey) (b : Body) : AbortsOn s (post k b) :=
  abortsOn_bind (abortsOn_ask _) fun _ => abortsOn_bind (abortsOn_ask _) fun _ =>
    abortsOn_bind (abortsOn_insertOrUpdate ..) fun id => abortsOn_addDocument b id

end Aborts

/-! ## The databases before the statements of a request -/

section Runs

variable [Collating] (stray : IfaceKey → Db → Except Fault Int) {α β : Type}

/-- Without failures the action sends its statements to the databases `ws` and ends with `res`. -/
structure Runs (x : Act α) (db : Db) (ws : List Db) (res : Except Fault α × Db) : Prop where
  states : Prog.states (serve stray) x.run db = ws
  exec : exec stray x db = res

variable {stray} {x : Act α} {f : α → Act β} {db db' : Db} {ws ws' : List Db}

theorem runs_pure (a : α) : Runs stray (pure a) db [] (.ok a, db) := ⟨rfl, rfl⟩

theorem runs_ask (c : Call) : Runs stray (ask c) db [db] (serve stray c db) := ⟨rfl, rfl⟩

theorem runs_bind {a : α} {res : Except Fault β × Db} (hx : Runs stray x db ws (.ok a, db'))
    (hf : Runs stray (f a) db' ws' res) : Runs stray (x >>= f) db (ws ++ ws') res := by
  have hrun : Prog.run (serve stray) x.run db = (.ok a, db') := hx.exec
  refine ⟨?_, (exec_bind stray hx.exec f).trans hf.exec⟩
  rw [ExceptT.run_bind, Prog.states_bind, hrun, hx.states]
  exact congrArg (ws ++ ·) hf.states

theorem runs_bind_error {e : Fault} (hx : Runs stray x db ws (.error e, db')) (f : α → Act β) :
    Runs stray (x >>= f) db ws (.error e, db') := by
  have hrun : Prog.run (serve stray) x.run db = (.error e, db') := hx.exec
  constructor
  · rw [ExceptT.run_bind, Prog.states_bind, hrun, hx.states]
    exact List.append_nil ws
  · unfold Register.exec
    rw [ExceptT.run_bind, Prog.run_bind, hrun]
    rfl

theorem runs_tryCatch {g : Fault → Act α} {a : α} (hx : Runs stray x db ws (.ok a, db')) :
    Runs stray (tryCatch x g) db ws (.ok a, db') := by
  have hrun : Prog.run (serve stray) x.run db = (.ok a, db') := hx.exec
  refine ⟨?_, exec_tryCatch_ok stray hx.exec g⟩
  show Prog.states (serve stray) (x.run >>= _) db = _
  rw [Prog.states_bind, hrun, hx.states]
  exact List.append_nil ws

theorem runs_tryCatch_error {g : Fault → Act α} {e : Fault} {res : Except Fault α × Db}
    (hx : Runs stray x db ws (.error e, db')) (hg : Runs stray (g e) db' ws' res) :
    Runs stray (tryCatch x g) db (ws ++ ws') res := by
  have hrun : Prog.run (serve stray) x.run db = (.error e, db') := hx.exec
  refine ⟨?_, (exec_tryCatch_error stray hx.exec g).trans hg.exec⟩
  show Prog.states (serve stray) (x.run >>= _) db = _
  rw [Prog.states_bind, hrun, hx.states]
  exact congrArg (ws ++ ·) hg.states

/-- The databases are `db` with more and more variables, one more each time. -/
def Grows (db : Db) (ws : List Db) : Prop :=
  ∀ (i : Nat) (w : Db), ws[i]? = some w → w.interface = db.interface ∧
    ∃ new, w.vars = db.vars ++ new ∧ new.length = i

theorem grows_append (h : Grows db ws) (h' : Grows db' ws')
    (hiface : db'.interface = db.interface) {new : List VariableRow}
    (hvars : db'.vars = db.vars ++ new) (hlen : new.length = ws.length) : Grows db (ws ++ ws') := by
  intro i w hw
  by_cases hi : i < ws.length
  · exact h i w (List.getElem?_append_left hi ▸ hw)
  · rw [List.getElem?_append_right (by omega)] at hw
    obtain ⟨hwi, more, hmore, hlen'⟩ := h' _ w hw
    refine ⟨hwi.trans hiface, new ++ more, ?_, ?_⟩
    · rw [hmore, hvars, List.append_assoc]
    · rw [List.length_append]
      omega

variable (stray)

theorem runs_addVariable (interfaceID postion level : Int) (parent : String) (fs : List Field) :
    ∀ db, ∃ ws new n, Runs stray (addVariable interfaceID postion level parent fs) db ws
        (.ok (), { db with vars := db.vars ++ new, nextVar := n }) ∧
      ws.length = (fieldRows interfaceID postion level parent fs).length ∧
      new.length = ws.length ∧ Grows db ws := by
  fun_induction fieldRows interfaceID postion level parent fs with
  | case1 level parent =>
    intro db
    refine ⟨[], [], db.nextVar, ?_, rfl, rfl, fun i w hw => by cases hw⟩
    rw [addVariable, List.append_nil]
    exact runs_pure ()
  | case2 level parent name type required comment child fs ih1 ih2 =>
    intro db
    let v : VariableRow := ⟨db.nextVar,
      ⟨interfaceID, postion, name, level, parent, type, required, "", comment⟩⟩
    let db₁ : Db := { db with vars := db.vars ++ [v], nextVar := db.nextVar + 1 }
    obtain ⟨ws₁, new₁, n₁, hr₁, hw₁, hl₁, hg₁⟩ := ih1 db₁
    let db₂ : Db := { db₁ with vars := db₁.vars ++ new₁, nextVar := n₁ }
    obtain ⟨ws₂, new₂, n₂, hr₂, hw₂, hl₂, hg₂⟩ := ih2 db₂
    refine ⟨[db] ++ (ws₁ ++ ws₂), [v] ++ (new₁ ++ new₂), n₂, ?_, ?_, ?_, ?_⟩
    · have hvars : db.vars ++ ([v] ++ (new₁ ++ new₂)) = db₂.vars ++ new₂ := by
        simp only [db₂, db₁, List.append_assoc]
      rw [addVariable, hvars]
      exact runs_bind (runs_ask _) (runs_bind hr₁ hr₂)
    · simp only [List.length_append, List.length_cons, List.length_nil]
      omega
    · simp only [List.length_append, List.length_cons, List.length_nil]
      omega
    · have hstart : Grows db [db] := by
        intro i w hw
        obtain ⟨rfl, rfl⟩ : i = 0 ∧ db = w := by
          cases i with
          | zero => exact ⟨rfl, Option.some.inj hw⟩
          | succ i => cases hw
        exact ⟨rfl, [], (List.append_nil _).symm, rfl⟩
      exact grows_append hstart (grows_append hg₁ hg₂ rfl rfl hl₁) rfl rfl rfl

theorem runs_addDocument (b : Body) (id : Int) (db : Db) : ∃ ws db',
    Runs stray (addDocument b id) db ws (.ok id, db') ∧ ws.length = (docRows id b).length ∧
      Grows db ws := by
  obtain ⟨ws₁, new₁, n₁, hr₁, hw₁, hl₁, hg₁⟩ :=
    runs_addVariable stray id postionRequestJSON 0 "" b.attr.request db
  obtain ⟨ws₂, new₂, n₂, hr₂, hw₂, hl₂, hg₂⟩ :=
    runs_addVariable stray id postionResponseJSON 0 "" b.attr.response
      { db with vars := db.vars ++ new₁, nextVar := n₁ }
  refine ⟨ws₁ ++ (ws₂ ++ []), _, runs_bind hr₁ (runs_bind hr₂ (runs_pure id)), ?_, ?_⟩
  · rw [List.append_nil, List.length_append, hw₁, hw₂, docRows, List.length_append]
  · rw [List.append_nil]
    exact grows_append hg₁ hg₂ rfl rfl hl₁

end Runs

/-! ## No trace -/

section NoTrace

variable [Collating]

/-- The rows of `interface` and `variable` are the same. -/
def Same (db db' : Db) : Prop := db'.interface.rows = db.interface.rows ∧ db'.vars = db.vars

/-- At most the first of the databases is like `db₀`, when each has a variable more. -/
theorem forall_same_iff {db₀ db : Db} {ws : List Db} (h : Grows db ws) :
    (∀ w ∈ ws, Same db₀ w) ↔ ws.length = 0 ∨ ws.length = 1 ∧ Same db₀ db := by
  have hfirst : ∀ w, ws[0]? = some w → (Same db₀ w ↔ Same db₀ db) := by
    intro w hw
    obtain ⟨hiface, new, hvars, hlen⟩ := h 0 w hw
    rw [List.eq_nil_of_length_eq_zero hlen, List.append_nil] at hvars
    rw [Same, Same, hiface, hvars]
  rcases ws with _ | ⟨w, _ | ⟨w', ws⟩⟩
  · simp
  · simp [hfirst w rfl]
  · constructor
    · intro hall
      have hw := hall w List.mem_cons_self
      have hw' := hall w' (List.mem_cons_of_mem _ List.mem_cons_self)
      obtain ⟨-, new, hvars, hlen⟩ := h 1 w' rfl
      have hsame := ((hfirst w rfl).mp hw).2
      have := congrArg List.length hvars
      rw [List.length_append, hw'.2, hsame] at this
      omega
    · rintro (h0 | ⟨h1, -⟩)
      · cases h0
      · simp at h1

variable (stray : IfaceKey → Db → Except Fault Int) (k : IfaceKey) (b : Body) (db : Db)

/-- Wherever a statement fails, and with whatever text, an error means the tables are as before. -/
def NoTrace : Prop :=
  ∀ n s f db', Prog.failAt (serve stray) (Fault.text s) n (post k b).run db = (.error f, db') →
    Same db db'

variable {stray k b db}

/-- The failing statement finds the tables as before, and so does an error without a failure. -/
theorem noTrace_of_runs {ws : List Db} {res : Except Fault Int × Db}
    (h : Runs stray (post k b) db ws res) : NoTrace stray k b db ↔
      (∀ w ∈ ws, Same db w) ∧ ∀ f db', res = (.error f, db') → Same db db' := by
  have hrun : Prog.run (serve stray) (post k b).run db = res := h.exec
  have hfail : ∀ n s, Prog.failAt (serve stray) (Fault.text s) n (post k b).run db =
      (ws[n]?.map fun w => (.error (Fault.text s), w)).getD res := by
    intro n s
    rw [Prog.failAt_of_aborts (serve stray) (abortsOn_post k b) n db, h.states, hrun]
  constructor
  · intro hno
    constructor
    · intro w hw
      obtain ⟨n, hn⟩ := List.mem_iff_getElem?.mp hw
      exact hno n "" (Fault.text "") w (by rw [hfail, hn]; rfl)
    · rintro f db' rfl
      exact hno ws.length "" f db' (by rw [hfail, List.getElem?_length]; rfl)
  · rintro ⟨hstates, hres⟩ n s f db' hrun
    rw [hfail] at hrun
    cases hw : ws[n]? with
    | none =>
      rw [hw] at hrun
      exact hres f db' hrun
    | some w =>
      rw [hw] at hrun
      cases hrun
      exact hstates _ (List.mem_of_getElem? hw)

theorem runs_connect : Runs stray (ask .connect) db [db] (.ok (), db) := runs_ask .connect

variable {owner : ServiceOwner}

theorem runs_service (hs : db.service.find? (fun p => p.id == k.1) = some owner) :
    Runs stray (ask (.service k.1)) db [db] (.ok owner, db) := by
  have hserve : serve stray (.service k.1) db = (.ok owner, db) := by simp only [serve, hs]
  exact hserve ▸ runs_ask _

/-- A request without its service ends before it writes. -/
theorem noTrace_of_no_service (hs : db.service.find? (fun p => p.id == k.1) = none) :
    NoTrace stray k b db := by
  have hserve : serve stray (.service k.1) db = (.error .notFound, db) := by simp only [serve, hs]
  have hrun : Runs stray (post k b) db ([db] ++ [db]) (.error .notFound, db) :=
    runs_bind runs_connect (runs_bind_error (hserve ▸ runs_ask (.service k.1)) _)
  refine (noTrace_of_runs hrun).mpr ⟨fun w hw => ?_, fun f db' h => ?_⟩
  · obtain rfl : w = db := by simpa using hw
    exact ⟨rfl, rfl⟩
  · cases h
    exact ⟨rfl, rfl⟩

/-- A request from its insert on. -/
theorem runs_post {ws ws' : List Db} {id : Int} {db₁ : Db} {res : Except Fault Int × Db}
    (hs : db.service.find? (fun p => p.id == k.1) = some owner)
    (hins : Runs stray (insertOrUpdate k (withOwner owner b)) db ws (.ok id, db₁))
    (hdoc : Runs stray (addDocument b id) db₁ ws' res) :
    Runs stray (post k b) db ([db] ++ ([db] ++ (ws ++ ws'))) res :=
  runs_bind runs_connect (runs_bind (runs_service hs) (runs_bind hins hdoc))

/-- The row of a new key stays when one of its variables cannot be stored. -/
theorem noTrace_iff_of_new (hs : db.service.find? (fun p => p.id == k.1) = some owner)
    (hnew : ∀ r ∈ db.interface.rows, ifaceSchema.key r ≠ fold k) :
    NoTrace stray k b db ↔ docRows db.interface.next b = [] := by
  have hany : (db.interface.rows.any fun r => ifaceSchema.key r == fold k) = false := by
    simpa using hnew
  let db₁ : Db := { db with interface := db.interface.upsert (rowEntry k (withOwner owner b)) }
  have hserve : serve stray (.insertInterface k (withOwner owner b)) db =
      (.ok db.interface.next, db₁) := by
    simp only [serve, hany, Bool.false_eq_true, if_false]
    rfl
  obtain ⟨ws, db₂, hdoc, hlen, hgrow⟩ := runs_addDocument stray b db.interface.next db₁
  have hrun := runs_post hs (runs_tryCatch (hserve ▸ runs_ask _)) hdoc
  have hdiff : ¬ Same db db₁ := by
    rintro ⟨hrows, -⟩
    have hup : db₁.interface.rows = _ := db.interface.upsertRows_of_not_mem _ hnew
    have := congrArg List.length (hup.symm.trans hrows)
    simp at this
  rw [noTrace_of_runs hrun, ← List.length_eq_zero_iff, ← hlen]
  constructor
  · rintro ⟨hstates, -⟩
    have hall : ∀ w ∈ ws, Same db w := fun w hw => hstates w (by simp [hw])
    rcases (forall_same_iff hgrow).mp hall with h | ⟨-, h⟩
    · exact h
    · exact absurd h hdiff
  · intro h0
    obtain rfl := List.length_eq_zero_iff.mp h0
    refine ⟨fun w hw => ?_, fun f db' h => by cases h⟩
    obtain rfl : w = db := by simpa using hw
    exact ⟨rfl, rfl⟩

/-! ## A key that is there -/

variable (stray k b db)

/-- The id the handler then selects. -/
def found : Except Fault Int := (serve stray (.findInterface k) db.skip).1

/-- The row of this id has another key: the update would give two rows one key. -/
def Clashes (id : Int) : Prop :=
  ∃ r ∈ db.interface.rows, r.id = id ∧ ifaceSchema.key r ≠ fold k

/-- The row of this id already is what the request makes it. -/
def Restates (owner : ServiceOwner) (id : Int) : Prop :=
  ∀ r ∈ db.interface.rows, r.id = id → (withOwner owner b).row k r.id = r

/-- The document has no fields, or one field for an interface without variables. -/
def SmallDoc (id : Int) : Prop :=
  docRows id b = [] ∨ (docRows id b).length = 1 ∧ ∀ v ∈ db.vars, v.val.interfaceID ≠ id

variable {k b db}

theorem serve_find : serve stray (.findInterface k) db.skip = (found stray k db, db.skip) := by
  refine Prod.ext rfl ?_
  simp only [serve]
  split
  · rfl
  · split
    · rfl
    · split
      · rfl
      · rfl

variable {stray}

theorem runs_refused {c : Body} {ws : List Db} {res : Except Fault Int × Db}
    (hk : ∃ r ∈ db.interface.rows, ifaceSchema.key r = fold k)
    (h : Runs stray (updateExisting k c) db.skip ws res) :
    Runs stray (insertOrUpdate k c) db ([db] ++ ws) res := by
  obtain ⟨r, hm, hr⟩ := hk
  have hany : (db.interface.rows.any fun r => ifaceSchema.key r == fold k) = true :=
    List.any_eq_true.mpr ⟨r, hm, beq_iff_eq.mpr hr⟩
  have hserve : serve stray (.insertInterface k c) db = (.error .duplicate, db.skip) := by
    simp only [serve, hany, if_true]
    rfl
  have hins : Runs stray (ask (.insertInterface k c)) db [db] (.error .duplicate, db.skip) :=
    hserve ▸ runs_ask _
  exact runs_tryCatch_error hins h

/-- A request that ends in its insert or update leaves no trace. -/
theorem noTrace_of_refused {ws : List Db} {f : Fault}
    (hs : db.service.find? (fun p => p.id == k.1) = some owner)
    (hk : ∃ r ∈ db.interface.rows, ifaceSchema.key r = fold k)
    (h : Runs stray (updateExisting k (withOwner owner b)) db.skip ws (.error f, db.skip))
    (hws : ∀ w ∈ ws, w = db.skip) : NoTrace stray k b db := by
  have hrun : Runs stray (post k b) db ([db] ++ ([db] ++ ([db] ++ ws))) (.error f, db.skip) :=
    runs_bind runs_connect (runs_bind (runs_service hs) (runs_bind_error (runs_refused hk h) _))
  refine (noTrace_of_runs hrun).mpr ⟨fun w hw => ?_, fun f db' h => ?_⟩
  · have hcases : w = db ∨ w ∈ ws := by simpa using hw
    rcases hcases with rfl | hw
    · exact ⟨rfl, rfl⟩
    · rw [hws w hw]
      exact ⟨rfl, rfl⟩
  · cases h
    exact ⟨rfl, rfl⟩

theorem id_row (k : IfaceKey) (c : Body) (r : IfaceRow) :
    ifaceSchema.id (c.row k r.id) = ifaceSchema.id r := rfl

/-- The update of the row of this id. -/
def updated (k : IfaceKey) (c : Body) (db : Db) (id : Int) : Option (Table ifaceSchema) :=
  db.interface.skip.update (fun r => r.id == id) (fun r => c.row k r.id) (id_row k c)

theorem updated_eq_none_iff {c : Body} {id : Int}
    (hk : ∃ r ∈ db.interface.rows, ifaceSchema.key r = fold k) :
    updated k c db id = none ↔ Clashes k db id := by
  constructor
  · intro hnone
    by_contra hno
    have hkey : ∀ r ∈ db.interface.skip.rows, (r.id == id) = true →
        ifaceSchema.key (c.row k r.id) = ifaceSchema.key r := by
      intro r hm hid
      by_contra hne
      exact hno ⟨r, hm, beq_iff_eq.mp hid, fun h => hne h.symm⟩
    obtain ⟨t, ht, -⟩ := db.interface.skip.update_of_key (f := fun r => c.row k r.id)
      (fun _ => rfl) hkey
    rw [updated, ht] at hnone
    cases hnone
  · rintro ⟨r, hm, hid, hne⟩
    obtain ⟨r', hm', hr'⟩ := hk
    cases ht : updated k c db id with
    | none => rfl
    | some t =>
      -- both the updated row and the row of the key would be there
      have hrows := Table.update_rows ht
      have hid' : r'.id ≠ id := by
        intro h
        exact hne (db.interface.eq_of_id hm hm' (hid.trans h.symm) ▸ hr')
      have h1 : c.row k r.id ∈ t.rows := by
        rw [hrows]
        exact List.mem_map.mpr ⟨r, hm, if_pos (beq_iff_eq.mpr hid)⟩
      have h2 : r' ∈ t.rows := by
        rw [hrows]
        exact List.mem_map.mpr ⟨r', hm', if_neg (by simpa using hid')⟩
      have heq := congrArg IfaceRow.id (t.eq_of_key h1 h2 hr'.symm)
      exact absurd (heq.symm.trans hid) hid'

theorem updated_rows_eq_iff {c : Body} {id : Int} {t : Table ifaceSchema}
    (h : updated k c db id = some t) : t.rows = db.interface.rows ↔
      ∀ r ∈ db.interface.rows, r.id = id → c.row k r.id = r := by
  rw [Table.update_rows h]
  constructor
  · intro hmap r hm hid
    have := List.map_inj_left.mp (hmap.trans (List.map_id _).symm) r hm
    rwa [if_pos (beq_iff_eq.mpr hid)] at this
  · intro hall
    refine (List.map_congr_left fun r hm => ?_).trans (List.map_id _)
    by_cases hid : r.id = id
    · rw [if_pos (beq_iff_eq.mpr hid)]
      exact hall r hm hid
    · rw [if_neg (by simpa using hid)]
      rfl

/-- The statements after a refused insert, when the update succeeds. -/
theorem runs_updateExisting {c : Body} {id : Int} {t : Table ifaceSchema}
    (hf : found stray k db = .ok id) (ht : updated k c db id = some t) :
    Runs stray (updateExisting k c) db.skip
      ([db.skip] ++ ([db.skip] ++ ([{ db.skip with interface := t }] ++ [])))
      (.ok id, { db.skip with
        interface := t
        vars := db.vars.filter fun v => !(v.val.interfaceID == id) }) := by
  have hfind : Runs stray (ask (.findInterface k)) db.skip [db.skip] (.ok id, db.skip) :=
    hf ▸ serve_find stray ▸ runs_ask _
  have hserve : serve stray (.updateInterface id k c) db.skip =
      (.ok (), { db.skip with interface := t }) := by
    unfold updated at ht
    simp only [serve, Db.skip, ht]
  exact runs_bind hfind (runs_bind (hserve ▸ runs_ask _) (runs_bind (runs_ask _) (runs_pure id)))

/-- A request whose update succeeds leaves no trace when it says what is there already. -/
theorem noTrace_iff_of_updated (hs : db.service.find? (fun p => p.id == k.1) = some owner)
    (hk : ∃ r ∈ db.interface.rows, ifaceSchema.key r = fold k) {id : Int} {t : Table ifaceSchema}
    (hf : found stray k db = .ok id) (ht : updated k (withOwner owner b) db id = some t) :
    NoTrace stray k b db ↔ Restates k b db owner id ∧ SmallDoc b db id := by
  obtain ⟨ws, db', hdoc, hlen, hgrow⟩ := runs_addDocument stray b id { db.skip with
    interface := t
    vars := db.vars.filter fun v => !(v.val.interfaceID == id) }
  have hrun := runs_post hs (runs_refused hk (runs_updateExisting hf ht)) hdoc
  have hself : Same db db := ⟨rfl, rfl⟩
  have hrefused : Same db db.skip := ⟨rfl, rfl⟩
  have hafter : Same db { db.skip with interface := t } ↔ Restates k b db owner id :=
    (and_iff_left rfl).trans (updated_rows_eq_iff ht)
  have hcleared : (db.vars.filter fun v => !(v.val.interfaceID == id)) = db.vars ↔
      ∀ v ∈ db.vars, v.val.interfaceID ≠ id := by
    simp [List.filter_eq_self]
  rw [noTrace_of_runs hrun]
  simp only [List.forall_mem_append, List.forall_mem_singleton, hself, hrefused, hafter,
    forall_same_iff hgrow, true_and]
  rw [hlen, List.length_eq_zero_iff]
  constructor
  · rintro ⟨⟨⟨hrest, -⟩, hdocs⟩, -⟩
    exact ⟨hrest, hdocs.imp_right fun hd => ⟨hd.1, hcleared.mp hd.2.2⟩⟩
  · rintro ⟨hrest, hdocs⟩
    refine ⟨⟨⟨hrest, by simp⟩, hdocs.imp_right fun hd => ⟨hd.1, ?_, hcleared.mpr hd.2⟩⟩,
      fun f db' h => by cases h⟩
    exact (hafter.mpr hrest).1

theorem noTrace_iff_of_present (hs : db.service.find? (fun p => p.id == k.1) = some owner)
    (hk : ∃ r ∈ db.interface.rows, ifaceSchema.key r = fold k) :
    NoTrace stray k b db ↔ ∀ id, found stray k db = .ok id →
      Clashes k db id ∨ Restates k b db owner id ∧ SmallDoc b db id := by
  have hfind : Runs stray (ask (.findInterface k)) db.skip [db.skip]
      (found stray k db, db.skip) := serve_find stray ▸ runs_ask _
  cases hf : found stray k db with
  | error f =>
    rw [hf] at hfind
    refine iff_of_true (noTrace_of_refused hs hk (runs_bind_error hfind _) fun w hw => ?_) ?_
    · exact List.mem_singleton.mp hw
    · intro id h
      cases h
  | ok id =>
    rw [hf] at hfind
    cases ht : updated k (withOwner owner b) db id with
    | none =>
      have hserve : serve stray (.updateInterface id k (withOwner owner b)) db.skip =
          (.error .duplicate, db.skip) := by
        unfold updated at ht
        simp only [serve, Db.skip, ht]
      have hupd : Runs stray (ask (.updateInterface id k (withOwner owner b))) db.skip
          [db.skip] (.error .duplicate, db.skip) := hserve ▸ runs_ask _
      refine iff_of_true (noTrace_of_refused hs hk
        (runs_bind hfind (runs_bind_error hupd _)) fun w hw => ?_) ?_
      · simpa using hw
      · rintro id' ⟨⟩
        exact Or.inl ((updated_eq_none_iff hk).mp ht)
    | some t =>
      have hclash : ¬ Clashes k db id := fun h => by
        rw [(updated_eq_none_iff hk).mpr h] at ht
        cases ht
      rw [noTrace_iff_of_updated hs hk hf ht]
      constructor
      · rintro h id' ⟨⟩
        exact Or.inr h
      · intro h
        exact (h id rfl).resolve_left hclash

/-! ## The results -/

/-- The statements of the request before its last one write nothing. -/
def Quiet (stray : IfaceKey → Db → Except Fault Int) (k : IfaceKey) (b : Body) (db : Db) : Prop :=
  ∀ owner, db.service.find? (fun p => p.id == k.1) = some owner →
    ((∀ r ∈ db.interface.rows, ifaceSchema.key r ≠ fold k) → docRows db.interface.next b = []) ∧
    ((∃ r ∈ db.interface.rows, ifaceSchema.key r = fold k) → ∀ id, found stray k db = .ok id →
      Clashes k db id ∨ Restates k b db owner id ∧ SmallDoc b db id)

/-- A request leaves no trace, wherever it fails, exactly when it is quiet. -/
theorem noTrace_iff (stray : IfaceKey → Db → Except Fault Int) (k : IfaceKey) (b : Body)
    (db : Db) :
    NoTrace stray k b db ↔ Quiet stray k b db := by
  cases hs : db.service.find? fun p => p.id == k.1 with
  | none =>
    refine iff_of_true (noTrace_of_no_service hs) fun owner h => ?_
    rw [hs] at h
    cases h
  | some owner =>
    rcases db.interface.key_cases (fold k) with hk | hnew
    · rw [noTrace_iff_of_present hs hk]
      constructor
      · intro h owner' ho
        obtain rfl := Option.some.inj (hs.symm.trans ho)
        obtain ⟨r, hm, hr⟩ := hk
        exact ⟨fun hnew => absurd hr (hnew r hm), fun _ => h⟩
      · intro h
        exact (h owner hs).2 hk
    · rw [noTrace_iff_of_new hs hnew]
      constructor
      · rintro h owner' -
        exact ⟨fun _ => h, fun ⟨r, hm, hr⟩ => absurd hr (hnew r hm)⟩
      · intro h
        exact (h owner hs).1 hnew

end NoTrace

/-- A registration with one request field. -/
def fieldBody : Body :=
  ⟨"", 1, "", "User_Get", 1, "faas", "", ⟨"", [.mk "id" "string" true "" []], []⟩⟩

/-- The interface row is stored, the insert of its variable fails, and the row stays. -/
theorem row_left : ¬ ∃ (_ : Collating) (stray : _),
    NoTrace stray userSite.k fieldBody userSite.db := by
  rintro ⟨_, stray, h⟩
  have hnil := (noTrace_iff_of_new userSite.ready.service fun r hr => by cases hr).mp h
  simp [docRows, fieldBody, fieldRows] at hnil

end Doodle.Manager.Register
