/-
  Relations of published interfaces.

  `Db.Published`: every relation names an application that exists and an interface that exists and
  has state 1. `published_of_kept`: in a run of the manager from empty tables in which every request
  meets `Kept`, this holds in every state. `Kept` asks what the handlers do not look at themselves:
  that the application of a new relation exists, what a changed relation names, that no relation
  names an interface to delete, and that a registration which does not publish meets no relation.

  Registration is a program of several statements; its part is `triple_post`, over any set of ids
  that relations name.
-/
import Doodle.Lib.Runs
import Doodle.Manager.Relations

namespace Doodle.Manager.Relations

open Doodle.Lib Doodle.Util Doodle.Go

/-! ## Tables -/

section Tables

variable {R K : Type} [DecidableEq K] {σ : Schema R K}

/-- An insert that succeeds appends its row, and one that fails changes none. -/
theorem insert_rows (t : Table σ) (e : Entry σ) : (insert t e).2.rows = t.rows ∨
    (insert t e).2.rows = t.rows ++ [e.make t.next] ∧ (insert t e).1 = .ok t.next := by
  unfold insert
  split
  · exact .inl rfl
  · next h =>
    refine .inr ⟨t.upsertRows_of_not_mem e fun r hr hk => h ?_, rfl⟩
    exact List.any_eq_true.mpr ⟨r, hr, decide_eq_true hk⟩

theorem mem_insert_of_mem {t : Table σ} {r : R} (hr : r ∈ t.rows) (e : Entry σ) :
    r ∈ (insert t e).2.rows := by
  rcases insert_rows t e with h | ⟨h, -⟩
  · rwa [h]
  · rw [h]
    exact List.mem_append_left _ hr

theorem mem_insert_cases {t : Table σ} {e : Entry σ} {r : R} (hr : r ∈ (insert t e).2.rows) :
    r ∈ t.rows ∨ r = e.make t.next := by
  rcases insert_rows t e with h | ⟨h, -⟩
  · exact .inl (h ▸ hr)
  · rw [h] at hr
    exact (List.mem_append.mp hr).imp_right List.mem_singleton.mp

theorem next_insert (t : Table σ) (e : Entry σ) : (insert t e).2.next = t.next + 1 := by
  unfold insert
  split
  · rfl
  · rfl

end Tables

/-! ## The property -/

section Collated

variable [Collating]

/-- The interface exists and is published. -/
def Publishes (t : Table Register.ifaceSchema) (id : Int) : Prop :=
  ∃ i ∈ t.rows, i.id = id ∧ i.state = 1

/-- Every relation names an application and a published interface. -/
def Db.Published (db : Db) : Prop :=
  ∀ r ∈ db.relation.rows, (∃ a ∈ db.application.rows, a.id = r.applicationID) ∧
    Publishes db.registry.interface r.interfaceID

instance (t : Table Register.ifaceSchema) (id : Int) : Decidable (Publishes t id) :=
  inferInstanceAs (Decidable (∃ i ∈ t.rows, i.id = id ∧ i.state = 1))

instance (db : Db) : Decidable db.Published :=
  inferInstanceAs (Decidable (∀ r ∈ db.relation.rows,
    (∃ a ∈ db.application.rows, a.id = r.applicationID) ∧
      Publishes db.registry.interface r.interfaceID))

/-- No row of the three tables is there. MySQL counts ids from 1. -/
structure Db.Empty (db : Db) : Prop where
  application : db.application.rows = []
  interface : db.registry.interface.rows = []
  relation : db.relation.rows = []
  next : 0 < db.application.next

/-- What every request keeps: the property, and that no application has the id 0, which is what
    `app` DELETE deletes. -/
structure Db.Inv (db : Db) : Prop where
  published : db.Published
  pos : ∀ a ∈ db.application.rows, 0 < a.id
  next : 0 < db.application.next

theorem Db.Empty.inv {db : Db} (h : db.Empty) : db.Inv where
  published r hr := by
    rw [h.relation] at hr
    cases hr
  pos a ha := by
    rw [h.application] at ha
    cases ha
  next := h.next

theorem Publishes.insert {t : Table Register.ifaceSchema} {id : Int} (h : Publishes t id)
    (e : Entry Register.ifaceSchema) : Publishes (Relations.insert t e).2 id := by
  obtain ⟨i, hi, hid, hstate⟩ := h
  exact ⟨i, mem_insert_of_mem hi e, hid, hstate⟩

/-- An update that unpublishes no row of this id. -/
theorem Publishes.update {t t' : Table Register.ifaceSchema} {p : IfaceRow → Bool}
    {f : IfaceRow → IfaceRow} {hid : ∀ r, Register.ifaceSchema.id (f r) = Register.ifaceSchema.id r}
    {id : Int} (h : Publishes t id) (ht : t.update p f hid = some t')
    (hf : ∀ r, r.id = id → p r = true → r.state = 1 → (f r).state = 1) : Publishes t' id := by
  obtain ⟨i, hi, hiid, hstate⟩ := h
  have hmem : (if p i then f i else i) ∈ t'.rows := by
    rw [Table.update_rows ht]
    exact List.mem_map_of_mem hi
  by_cases hp : p i = true
  · rw [if_pos hp] at hmem
    exact ⟨f i, hmem, (hid i).trans hiid, hf i hiid hp hstate⟩
  · rw [if_neg hp] at hmem
    exact ⟨i, hmem, hiid, hstate⟩

/-- A change of the interfaces that leaves those that relations name published. -/
theorem Db.Inv.registry {db : Db} (h : db.Inv) {reg : Register.Db} (level : Int → Int)
    (hreg : ∀ id, Publishes db.registry.interface id →
      (∃ r ∈ db.relation.rows, r.interfaceID = id) → Publishes reg.interface id) :
    Db.Inv { db with registry := reg, level := level } where
  published r hr := ⟨(h.published r hr).1, hreg _ (h.published r hr).2 ⟨r, hr, rfl⟩⟩
  pos := h.pos
  next := h.next

/-- A change of the applications that keeps their ids. -/
theorem Db.Inv.application {db : Db} (h : db.Inv) {t : Table appSchema}
    (hold : ∀ a ∈ db.application.rows, ∃ a' ∈ t.rows, a'.id = a.id)
    (hnew : ∀ a ∈ t.rows, 0 < a.id) (hnext : 0 < t.next) :
    Db.Inv { db with application := t } where
  published r hr := by
    obtain ⟨⟨a, ha, hid⟩, hi⟩ := h.published r hr
    obtain ⟨a', ha', hid'⟩ := hold a ha
    exact ⟨⟨a', ha', hid'.trans hid⟩, hi⟩
  pos := hnew
  next := hnext

/-- A change of the relations after which each names what it should. -/
theorem Db.Inv.relation {db : Db} (h : db.Inv) {t : Table relationSchema}
    (ht : ∀ r ∈ t.rows, r ∈ db.relation.rows ∨
      (∃ a ∈ db.application.rows, a.id = r.applicationID) ∧
        Publishes db.registry.interface r.interfaceID) :
    Db.Inv { db with relation := t } where
  published r hr := (ht r hr).elim (h.published r) id
  pos := h.pos
  next := h.next

/-- An update of applications, which keeps their ids. -/
theorem Db.Inv.updateApplication {db : Db} (h : db.Inv) {p : AppRow → Bool} {f : AppRow → AppRow}
    {hid : ∀ r, appSchema.id (f r) = appSchema.id r} {t : Table appSchema}
    (ht : db.application.update p f hid = some t) : Db.Inv { db with application := t } := by
  have hrow : ∀ a, (if p a then f a else a).id = a.id := by
    intro a
    split
    · exact hid a
    · rfl
  have hrows := Table.update_rows ht
  refine h.application (fun a ha => ⟨if p a then f a else a, ?_, hrow a⟩) (fun a ha => ?_) ?_
  · rw [hrows]
    exact List.mem_map_of_mem ha
  · rw [hrows] at ha
    obtain ⟨a', ha', rfl⟩ := List.mem_map.mp ha
    rw [hrow]
    exact h.pos a' ha'
  · rw [Table.update_next ht]
    exact h.next

/-! ## Statements -/

section Statements

variable {S : Server} {db : Db}

/-- A statement that is refused changes nothing. -/
theorem inv_send {α : Type} {s : Stmt} {x : Act α} (hdb : db.Inv) (hx : (x db).2.Inv) :
    (send S s x db).2.Inv := by
  unfold send
  cases S.refuses s with
  | none => exact hx
  | some e => exact hdb

theorem inv_updated {R K : Type} {σ : Schema R K} {t : Option (Table σ)} {set : Table σ → Db}
    (hdb : db.Inv) (h : ∀ t', t = some t' → (set t').Inv) : (updated t set db).2.Inv := by
  unfold updated
  cases t with
  | none => exact hdb
  | some t => exact h t rfl

/-- An `add` whose texts are read as meant, or rejected. -/
theorem inv_added {α : Type} {s : Stmt} {row : Except Rbac.Fault α} {put : α → Act Int}
    (hclean : row ≠ .error .injected) (hdb : db.Inv) (h : ∀ r, row = .ok r → (put r db).2.Inv) :
    (added S s row put db).2.Inv := by
  unfold added
  split
  · exact absurd rfl hclean
  · exact hdb
  · next r => exact h r rfl

theorem inv_addApplication {a : App} (hclean : a.row S ≠ .error .injected) (hdb : db.Inv) :
    (addApplication S a db).2.Inv := by
  refine inv_send hdb (inv_added hclean hdb fun r _ => ?_)
  refine hdb.application (fun a ha => ⟨a, mem_insert_of_mem ha _, rfl⟩) (fun a ha => ?_) ?_
  · rcases mem_insert_cases ha with ha | rfl
    · exact hdb.pos a ha
    · exact hdb.next
  · rw [next_insert]
    have := hdb.next
    omega

theorem inv_updateAppToken (id : Int) (token : String) (hdb : db.Inv) :
    (updateAppToken S id token db).2.Inv :=
  inv_send hdb (inv_updated hdb fun _ ht => hdb.updateApplication ht)

/-- No application has the id 0. -/
theorem inv_delApplication (hdb : db.Inv) : (delApplication S 0 db).2.Inv := by
  refine inv_send hdb (hdb.application (fun a ha => ⟨a, ?_, rfl⟩) (fun a ha => ?_) hdb.next)
  · refine List.mem_filter.mpr ⟨ha, ?_⟩
    have := hdb.pos a ha
    simp
    omega
  · exact hdb.pos a (List.mem_of_mem_filter ha)

theorem inv_insertInterface (i : Iface) (hdb : db.Inv) : (insertInterface S i db).2.Inv := by
  refine inv_send hdb ?_
  split
  · next f t ht =>
    refine hdb.registry db.level fun id hid _ => ?_
    have := hid.insert (ifaceEntry i)
    rwa [ht] at this
  · next id t ht =>
    refine hdb.registry _ fun id hid _ => ?_
    have := hid.insert (ifaceEntry i)
    rwa [ht] at this

theorem inv_updateInterface (p : IfacePut) (hdb : db.Inv) : (updateInterface S p db).2.Inv := by
  refine inv_send hdb (inv_updated hdb fun t ht => hdb.registry _ fun id hid _ => ?_)
  exact hid.update ht fun r _ _ hstate => hstate

theorem inv_deployInterface (id : Int) (hdb : db.Inv) : (deployInterface S id db).2.Inv := by
  refine inv_send hdb (inv_updated hdb fun t ht => hdb.registry _ fun id hid _ => ?_)
  exact hid.update ht fun _ _ _ _ => rfl

theorem inv_delInterface {id : Int} (hid : ∀ r ∈ db.relation.rows, r.interfaceID ≠ id)
    (hdb : db.Inv) : (delInterface S id db).2.Inv := by
  refine inv_send hdb (hdb.registry db.level ?_)
  rintro _ ⟨i, hi, rfl, hstate⟩ ⟨r, hr, heq⟩
  refine ⟨i, List.mem_filter.mpr ⟨hi, ?_⟩, rfl, hstate⟩
  have hne := hid r hr
  rw [heq] at hne
  simpa using hne

/-- The state of an interface is that of its row. -/
theorem getInterfaceState_cases (S : Server) (id : Int) (db : Db) :
    (∃ f, getInterfaceState S id db = (.error f, db)) ∨
    ∃ i ∈ db.registry.interface.rows, i.id = id ∧ getInterfaceState S id db = (.ok i.state, db) := by
  unfold getInterfaceState send
  cases S.refuses .getInterfaceState with
  | some e => exact .inl ⟨_, rfl⟩
  | none =>
    dsimp only
    cases hf : db.registry.interface.rows.find? fun r => r.id = id with
    | none => exact .inl ⟨_, rfl⟩
    | some i =>
      exact .inr ⟨i, List.mem_of_find?_eq_some hf, by simpa using List.find?_some hf, rfl⟩

theorem Link.row_eq {l : Link} {r : RelationRow} (h : l.row S = .ok r) :
    r.interfaceID = l.interfaceID ∧ r.applicationID = l.appID := by
  unfold Link.row at h
  obtain ⟨a, -, h⟩ := except_bind_ok h
  obtain ⟨b, -, h⟩ := except_bind_ok h
  cases h
  exact ⟨rfl, rfl⟩

theorem inv_addRelation {l : Link} (hclean : l.row S ≠ .error .injected) (hdb : db.Inv)
    (happ : ∃ a ∈ db.application.rows, a.id = l.appID)
    (hiface : Publishes db.registry.interface l.interfaceID) : (addRelation S l db).2.Inv := by
  refine inv_send hdb (inv_added hclean hdb fun r hr => hdb.relation fun r' hr' => ?_)
  obtain ⟨hi, ha⟩ := Link.row_eq hr
  refine (mem_insert_cases hr').imp_right ?_
  rintro rfl
  exact ⟨ha ▸ happ, hi ▸ hiface⟩

theorem inv_updateRelation {id iid aid : Int} (hdb : db.Inv)
    (h : ∀ r ∈ db.relation.rows, r.id = id → (∃ a ∈ db.application.rows, a.id = aid) ∧
      Publishes db.registry.interface iid) : (updateRelation S id iid aid db).2.Inv := by
  refine inv_send hdb (inv_updated hdb fun t ht => hdb.relation fun r hr => ?_)
  rw [Table.update_rows ht] at hr
  obtain ⟨r', hr', rfl⟩ := List.mem_map.mp hr
  by_cases hid : r'.id = id
  · rw [if_pos (decide_eq_true hid)]
    exact .inr (h r' hr' hid)
  · rw [if_neg (by simpa using hid)]
    exact .inl hr'

theorem inv_delRelation (id : Int) (hdb : db.Inv) : (delRelation S id db).2.Inv :=
  inv_send hdb (hdb.relation fun _ hr => .inl (List.mem_of_mem_filter hr))

end Statements

/-! ## Registration -/

section Register

variable {S : Server} {named : Int → Prop} {k : IfaceKey} {b : Body}

/-- The ids that relations name are published. -/
def AllPublished (named : Int → Prop) (t : Table Register.ifaceSchema) : Prop :=
  ∀ id, named id → Publishes t id

/-- The request publishes, or the query for the row that is there finds none that is named. -/
def SparesFound (named : Int → Prop) (k : IfaceKey) (b : Body) (t : Table Register.ifaceSchema) :
    Prop :=
  b.state = 1 ∨ ∃ v, Rbac.readLiteral k.2.1 = some v ∧
    ∀ i ∈ t.rows, Register.ifaceSchema.key i = Register.fold (k.1, v, k.2.2) → ¬ named i.id

/-- The same, unless no row has the key and none is looked for. -/
def Spares (named : Int → Prop) (k : IfaceKey) (b : Body) (t : Table Register.ifaceSchema) : Prop :=
  (∀ i ∈ t.rows, Register.ifaceSchema.key i ≠ Register.fold k) ∨ SparesFound named k b t

theorem act_ask (c : Register.Call) :
    Prog.act (serveRegister S) (Register.ask c) = serveRegister S c := rfl

theorem serveRegister_cases (S : Server) (c : Register.Call) (reg : Register.Db) :
    (∃ e, serveRegister S c reg = (.error (.text e), reg)) ∨
      serveRegister S c reg = Register.serve S.strayFind c reg := by
  unfold serveRegister
  cases S.refusesCall c reg with
  | some e => exact .inl ⟨e, rfl⟩
  | none => exact .inr rfl

/-- A statement that leaves the interfaces alone, when it is served. -/
theorem triple_quiet {c : Register.Call} (J : Table Register.ifaceSchema → Prop)
    (hc : ∀ reg, (Register.serve S.strayFind c reg).2.interface = reg.interface) :
    (Prog.act (serveRegister S) (Register.ask c)).Triple (fun reg => J reg.interface)
      (fun _ reg => J reg.interface) fun _ reg => J reg.interface := by
  refine Action.triple_of_state fun reg hreg => ?_
  rw [act_ask]
  rcases serveRegister_cases S c reg with ⟨e, h⟩ | h
  · rw [h]
    exact hreg
  · rw [h, hc]
    exact hreg

theorem quiet_service (id : Int) (reg : Register.Db) :
    (Register.serve S.strayFind (.service id) reg).2.interface = reg.interface := by
  unfold Register.serve
  dsimp only
  split
  · rfl
  · rfl

theorem triple_addVariable (J : Table Register.ifaceSchema → Prop) (interfaceID postion level : Int)
    (parent : String) (fs : List Field) :
    (Prog.act (serveRegister S) (Register.addVariable interfaceID postion level parent fs)).Triple
      (fun reg => J reg.interface) (fun _ reg => J reg.interface) fun _ reg => J reg.interface := by
  fun_induction Register.addVariable interfaceID postion level parent fs with
  | case1 level parent => exact Action.triple_pure fun _ h => h
  | case2 level parent name type required comment child fs ih1 ih2 =>
    refine Prog.triple_act_bind (triple_quiet J fun _ => rfl) fun _ => ?_
    exact Prog.triple_act_bind ih1 fun _ => ih2

/-- The insert, which may find the key taken. -/
theorem triple_insertInterface (k : IfaceKey) (b : Body) :
    (Prog.act (serveRegister S) (Register.ask (.insertInterface k b))).Triple
      (fun reg => AllPublished named reg.interface ∧ Spares named k b reg.interface)
      (fun _ reg => AllPublished named reg.interface)
      fun e reg => AllPublished named reg.interface ∧
        (e = .duplicate → SparesFound named k b reg.interface) := by
  rintro reg ⟨hpub, hspares⟩
  rw [act_ask]
  rcases serveRegister_cases S (.insertInterface k b) reg with ⟨e, h⟩ | h
  · rw [h]
    refine ⟨fun a reg' heq => (by cases heq), fun e reg' heq => ?_⟩
    cases heq
    exact ⟨hpub, fun h => by cases h⟩
  · rw [h]
    unfold Register.serve
    dsimp only
    split
    · next htaken =>
      refine ⟨fun a reg' heq => (by cases heq), fun e reg' heq => ?_⟩
      cases heq
      refine ⟨hpub, fun _ => hspares.resolve_left fun hfree => ?_⟩
      obtain ⟨i, hi, hk⟩ := List.any_eq_true.mp htaken
      exact hfree i hi (beq_iff_eq.mp hk)
    · next hfree =>
      refine ⟨fun a reg' heq => ?_, fun e reg' heq => (by cases heq)⟩
      cases heq
      intro id hid
      obtain ⟨i, hi, hii, hstate⟩ := hpub id hid
      refine ⟨i, ?_, hii, hstate⟩
      show i ∈ reg.interface.upsertRows _
      rw [Table.upsertRows_of_not_mem _ _ fun r hr hk => hfree
        (List.any_eq_true.mpr ⟨r, hr, beq_iff_eq.mpr hk⟩)]
      exact List.mem_append_left _ hi

/-- The query only reads, and an id it finds is that of a row of the key. -/
theorem findInterface_cases (S : Server) (k : IfaceKey) (reg : Register.Db) :
    (∃ e, serveRegister S (.findInterface k) reg = (.error e, reg)) ∨
    ∃ id, serveRegister S (.findInterface k) reg = (.ok id, reg) ∧
      ∀ v, Rbac.readLiteral k.2.1 = some v →
        ∃ i ∈ reg.interface.rows,
          Register.ifaceSchema.key i = Register.fold (k.1, v, k.2.2) ∧ i.id = id := by
  rcases serveRegister_cases S (.findInterface k) reg with ⟨e, h⟩ | h
  · exact .inl ⟨_, h⟩
  · rw [h]
    unfold Register.serve
    dsimp only
    cases hv : Rbac.readLiteral k.2.1 with
    | none =>
      cases hstray : S.strayFind k reg with
      | error e => exact .inl ⟨e, rfl⟩
      | ok id => exact .inr ⟨id, rfl, fun v h => by cases h⟩
    | some v =>
      dsimp only
      cases hfind : reg.find (k.1, v, k.2.2) with
      | none => exact .inl ⟨_, rfl⟩
      | some i =>
        dsimp only
        cases scanBool i.state with
        | none => exact .inl ⟨_, rfl⟩
        | some b =>
          refine .inr ⟨i.id, rfl, fun v' h => ?_⟩
          obtain rfl := Option.some.inj h
          have hkey := List.find?_some hfind
          rw [Bool.and_eq_true] at hkey
          exact ⟨i, List.mem_of_find?_eq_some hfind, beq_iff_eq.mp hkey.1, rfl⟩

/-- The id that is found is not named, or the request publishes. -/
theorem triple_findInterface (k : IfaceKey) (b : Body) :
    (Prog.act (serveRegister S) (Register.ask (.findInterface k))).Triple
      (fun reg => AllPublished named reg.interface ∧ SparesFound named k b reg.interface)
      (fun id reg => AllPublished named reg.interface ∧ (b.state = 1 ∨ ¬ named id))
      fun _ reg => AllPublished named reg.interface := by
  rintro reg ⟨hpub, hspares⟩
  rw [act_ask]
  rcases findInterface_cases S k reg with ⟨e, h⟩ | ⟨id, h, hrow⟩
  · rw [h]
    refine ⟨fun a reg' heq => (by cases heq), fun e reg' heq => ?_⟩
    cases heq
    exact hpub
  · rw [h]
    refine ⟨fun id' reg' heq => ?_, fun e reg' heq => (by cases heq)⟩
    cases heq
    refine ⟨hpub, hspares.imp_right ?_⟩
    rintro ⟨v, hv, hkeys⟩
    obtain ⟨i, hi, hk, rfl⟩ := hrow v hv
    exact hkeys i hi hk

theorem triple_updateInterface (id : Int) (k : IfaceKey) (b : Body) :
    (Prog.act (serveRegister S) (Register.ask (.updateInterface id k b))).Triple
      (fun reg => AllPublished named reg.interface ∧ (b.state = 1 ∨ ¬ named id))
      (fun _ reg => AllPublished named reg.interface)
      fun _ reg => AllPublished named reg.interface := by
  refine Action.triple_of_state fun reg hreg => ?_
  obtain ⟨hpub, hspares⟩ := hreg
  rw [act_ask]
  rcases serveRegister_cases S (.updateInterface id k b) reg with ⟨e, h⟩ | h
  · rw [h]
    exact hpub
  · rw [h]
    unfold Register.serve
    dsimp only
    split
    · next t ht =>
      intro n hn
      refine (hpub n hn).update ht fun r hr hp _ => ?_
      -- the row of a named id is only updated by a request that publishes
      refine hspares.resolve_right fun hnot => hnot ?_
      rwa [← beq_iff_eq.mp hp, hr]
    · exact hpub

theorem triple_insertOrUpdate (k : IfaceKey) (b : Body) :
    (Prog.act (serveRegister S) (Register.insertOrUpdate k b)).Triple
      (fun reg => AllPublished named reg.interface ∧ Spares named k b reg.interface)
      (fun _ reg => AllPublished named reg.interface)
      fun _ reg => AllPublished named reg.interface := by
  refine Prog.triple_tryCatch (triple_insertInterface k b) fun e => ?_
  cases e with
  | duplicate =>
    refine Prog.triple_act_bind (fun reg h => triple_findInterface k b reg ⟨h.1, h.2 rfl⟩)
      fun id => ?_
    refine Prog.triple_act_bind (triple_updateInterface id k b) fun _ => ?_
    refine Prog.triple_act_bind (triple_quiet _ fun _ => rfl) fun _ => ?_
    exact Action.triple_pure fun _ h => h
  | notFound => exact Prog.triple_throw fun _ h => h.1
  | text s => exact Prog.triple_throw fun _ h => h.1

/-- A registration leaves published what is named. -/
theorem triple_post (k : IfaceKey) (b : Body) :
    (Prog.act (serveRegister S) (Register.post k b)).Triple
      (fun reg => AllPublished named reg.interface ∧ Spares named k b reg.interface)
      (fun _ reg => AllPublished named reg.interface)
      fun _ reg => AllPublished named reg.interface := by
  let J := fun t => AllPublished named t ∧ Spares named k b t
  refine Prog.triple_act_bind ((triple_quiet J fun _ => rfl).mono_error fun _ _ h => h.1)
    fun _ => ?_
  refine Prog.triple_act_bind ((triple_quiet J (quiet_service k.1)).mono_error fun _ _ h => h.1)
    fun p => ?_
  have hstate := Register.state_withOwner p b
  refine Prog.triple_act_bind (fun reg hreg => triple_insertOrUpdate k _ reg ?_) fun id => ?_
  · refine ⟨hreg.1, hreg.2.imp_right ?_⟩
    unfold SparesFound
    rw [hstate]
    exact fun h => h
  · refine Prog.triple_act_bind (triple_addVariable _ _ _ _ _ _) fun _ => ?_
    refine Prog.triple_act_bind (triple_addVariable _ _ _ _ _ _) fun _ => ?_
    exact Action.triple_pure fun _ h => h

end Register

/-! ## Requests -/

section Handlers

variable {S : Server} {q : Util.Request} {db : Db}

theorem orFail_reply {α : Type} (x : Act α) (code : Int) (r : α → Resp) (db : Db) :
    (orFail x code (fun a => reply (r a)) db).2 = (x db).2 := by
  unfold orFail
  rcases h : x db with ⟨e | a, db'⟩
  · rw [Action.onErr_error h]
  · rw [Action.onErr_ok h]
    rfl

theorem inv_withForm {k : Handler} (hdb : db.Inv) (hk : q.formErr = none → (k db).2.Inv) :
    (withForm q k db).2.Inv := by
  unfold withForm
  cases h : q.formErr with
  | some e => exact hdb
  | none => exact hk h

theorem inv_withUser {k : User → Handler} (hdb : db.Inv)
    (hk : ∀ u, S.user = .ok u → (k u db).2.Inv) : (withUser S k db).2.Inv := by
  unfold withUser
  cases h : S.user with
  | error e => exact hdb
  | ok u => exact hk u h

theorem inv_appPOST (hdb : db.Inv)
    (hclean : q.formErr = none → ∀ u, S.user = .ok u →
      ((App.ofForm q).own u).row S ≠ .error .injected) : (appPOST S q db).2.Inv := by
  refine inv_withUser hdb fun u hu => inv_withForm hdb fun hq => ?_
  have hadd := inv_addApplication (hclean hq u hu) hdb
  split
  · next h => rwa [h] at hadd
  · next h => rwa [h] at hadd
  · next id db' h =>
    rw [h] at hadd
    split
    · exact hadd
    · exact hadd
    · rw [orFail_reply]
      exact inv_updateAppToken id _ hadd

/-- `app` PUT answers an error or panics, before it writes. -/
theorem appPUT_db (S : Server) (q : Util.Request) (db : Db) : (appPUT S q db).2 = db := by
  unfold appPUT withUser
  cases S.user with
  | error e => rfl
  | ok u =>
    unfold decodeValue
    cases q.formErr with
    | some e => rfl
    | none =>
      simp only [AppPut.fields, decodeValue.go]
      cases q.int? "id" with
      | some n => rfl
      | none => rfl

theorem inv_appDELETE (hdb : db.Inv) : (appDELETE S q db).2.Inv := by
  unfold appDELETE
  cases decodeValue (OneID.fields "id") q with
  | panic why => exact hdb
  | err e => exact hdb
  | ok v =>
    rw [orFail_reply]
    exact inv_delApplication hdb

/-- The id of the resource is only read. -/
theorem getServiceResourceID_db (S : Server) (id : Int) (db : Db) :
    (getServiceResourceID S id db).2 = db := by
  unfold getServiceResourceID send
  split
  · rfl
  · dsimp only
    split
    · rfl
    · rfl

theorem inv_interfacePOST (hdb : db.Inv) : (interfacePOST S q db).2.Inv := by
  refine inv_withUser hdb fun u _ => ?_
  rcases decodeRequestValue Iface.fields S.validIface q {} with ⟨_ | e, i⟩
  · have hres := getServiceResourceID_db S i.serviceID db
    rcases h : getServiceResourceID S i.serviceID db with ⟨e | n, db'⟩
    all_goals
      rw [h] at hres
      obtain rfl : db' = db := hres
    · simp only [orFail, Action.onErr_error h]
      exact hdb
    · simp only [orFail, Action.onErr_ok h]
      cases u.assert n with
      | error e => exact hdb
      | ok v =>
        have hins := inv_insertInterface (S := S)
          { i with state := 0, user := u.user, email := u.email } hdb
        dsimp only
        split
        · next h => rwa [h] at hins
        · next h => rwa [h] at hins
        · next h => rwa [h] at hins
  · exact hdb

theorem inv_interfacePUT (hdb : db.Inv) : (interfacePUT S q db).2.Inv := by
  unfold interfacePUT
  rcases decodeRequestValue IfacePut.fields S.validPut q {} with ⟨_ | e, p⟩
  · rw [orFail_reply]
    exact inv_updateInterface p hdb
  · exact hdb

theorem inv_interfaceDeploy (hdb : db.Inv) : (interfaceDeploy S q db).2.Inv := by
  unfold interfaceDeploy
  rcases decodeRequestValue _ S.validDeploy q {} with ⟨_ | e, r⟩
  · rw [orFail_reply]
    exact inv_deployInterface r.id hdb
  · exact hdb

theorem inv_relationPOST (hdb : db.Inv)
    (hclean : q.formErr = none → (Link.ofForm q).row S ≠ .error .injected)
    (happ : q.formErr = none → Publishes db.registry.interface (num q "interfaceID") →
      ∃ a ∈ db.application.rows, a.id = num q "appID") : (relationPOST S q db).2.Inv := by
  refine inv_withForm hdb fun hq => ?_
  unfold orFail
  rcases getInterfaceState_cases S (Link.ofForm q).interfaceID db with ⟨f, hf⟩ | ⟨i, hi, hid, hs⟩
  · rw [Action.onErr_error hf]
    exact hdb
  · rw [Action.onErr_ok hs]
    split
    · exact hdb
    · next hstate =>
      have hpub : Publishes db.registry.interface (num q "interfaceID") :=
        ⟨i, hi, hid, not_not.mp hstate⟩
      have := inv_addRelation (hclean hq) hdb (happ hq hpub) hpub
      rw [← orFail_reply (addRelation S (Link.ofForm q)) 500 fun id =>
        .status 0 (idMessage id)] at this
      exact this

end Handlers

/-! ## Runs -/

/-- What a request has to meet in the state before it. The other requests are unconditional. -/
def Kept (s : State) : Server × Event → Prop
  | (S, .appPOST q) => q.formErr = none → ∀ u, S.user = .ok u →
    ((App.ofForm q).own u).row S ≠ .error .injected
  | (_, .interfaceDELETE q) => ∀ i, decodeReceiver q s.receiver = (none, i) →
    ∀ r ∈ s.db.relation.rows, r.interfaceID ≠ i.id
  | (_, .register (some (k, b))) =>
    Spares (fun id => ∃ r ∈ s.db.relation.rows, r.interfaceID = id) k b s.db.registry.interface
  | (S, .relationPOST q) => q.formErr = none → (Link.ofForm q).row S ≠ .error .injected ∧
    (Publishes s.db.registry.interface (num q "interfaceID") →
      ∃ a ∈ s.db.application.rows, a.id = num q "appID")
  | (_, .relationPUT q) => q.formErr = none → ∀ r ∈ s.db.relation.rows, r.id = num q "id" →
    (∃ a ∈ s.db.application.rows, a.id = num q "appID") ∧
      Publishes s.db.registry.interface (num q "interfaceID")
  | _ => True

theorem inv_step (s : State) (e : Server × Event) (hs : s.db.Inv) (he : Kept s e) :
    (step s e).db.Inv := by
  obtain ⟨S, e⟩ := e
  cases e with
  | appPOST q => exact inv_appPOST hs he
  | appPUT q =>
    simp only [step, appPUT_db]
    exact hs
  | appDELETE q => exact inv_appDELETE hs
  | interfaceGET q => exact hs
  | interfacePOST q => exact inv_interfacePOST hs
  | interfacePUT q => exact inv_interfacePUT hs
  | interfaceDELETE q =>
    simp only [step]
    split
    · exact hs
    · next i hi =>
      simp only [interfaceDELETE, orFail_reply]
      exact inv_delInterface (he i hi) hs
  | interfaceDeploy q => exact inv_interfaceDeploy hs
  | register body =>
    cases body with
    | none => exact hs
    | some kb =>
      refine hs.registry _ fun id _ hid => ?_
      refine (triple_post kb.1 kb.2).state ⟨?_, he⟩ id hid
      rintro n ⟨r, hr, rfl⟩
      exact (hs.published r hr).2
  | relationPOST q => exact inv_relationPOST hs (fun hq => (he hq).1) fun hq => (he hq).2
  | relationPUT q =>
    refine inv_withForm hs fun hq => ?_
    rw [orFail_reply]
    exact inv_updateRelation hs (he hq)
  | relationDELETE q =>
    refine inv_withForm hs fun hq => ?_
    rw [orFail_reply]
    exact inv_delRelation _ hs

/-- A server that refuses nothing, with an admin. -/
def Server.steady : Server where
  user := .ok ⟨"e", "u", true, []⟩
  now := "now"
  token _ := .ok "t"
  resourceID _ := some 1
  refuses _ := none
  refusesCall _ _ := none
  strayAdd _ db := (.error .malformed, db)
  strayFind _ _ := .error (.text "")
  validIface _ := none
  validPut _ := none
  validDeploy _ := none

/-- A new installation. -/
def State.fresh : State where
  db :=
    { application := .empty _
      registry := ⟨[], .empty _, [], 1⟩
      level := fun _ => 0
      relation := .empty _ }
  receiver := {}

theorem State.fresh_empty : State.fresh.db.Empty := ⟨rfl, rfl, rfl, Int.one_pos⟩

def appForm : Util.Request :=
  ⟨none, [("name", "a"), ("email", "e"), ("user", "u"), ("comment", "c")]⟩

def relationForm : Util.Request := ⟨none, [("appID", "1"), ("interfaceID", "1")]⟩

/-- An interface, its deployment, an application and a relation of the two. -/
def permitRun : List (Server × Event) :=
  [(.steady, .interfacePOST ⟨none, [("pid", "1"), ("name", "i"), ("path", "p"), ("backend", "b"),
      ("comment", "c")]⟩),
    (.steady, .interfaceDeploy ⟨none, [("id", "1")]⟩),
    (.steady, .appPOST appForm),
    (.steady, .relationPOST relationForm)]

/-- From empty tables, every state of a run whose requests meet `Kept` has only relations of
    published interfaces. -/
theorem published_of_kept (s : State) (hempty : s.db.Empty) (events : List (Server × Event))
    (hrun : EachStep step Kept s events) (n : Nat) :
    ((events.take n).foldl step s).db.Published :=
  (inv_of_eachStep inv_step events s hempty.inv hrun n).published

end Collated

section Examples

attribute [local instance] asciiCi

theorem published_of_kept_permitRun : EachStep step Kept .fresh permitRun ∧
    (permitRun.foldl step .fresh).db.relation.rows ≠ [] ∧
      (permitRun.foldl step .fresh).db.Published := by
  have hrun : EachStep step Kept .fresh permitRun := by
    refine ⟨trivial, trivial, fun _ u hu => ?_, fun _ => ⟨?_, fun _ => ?_⟩, trivial⟩
    · obtain rfl : (⟨"e", "u", true, []⟩ : User) = u := Except.ok.inj hu
      have hrow : (App.ofForm appForm).row .steady =
          .ok ⟨0, "a", "e", "u", "c", " ", "now", "now"⟩ := by decide +kernel
      rw [App.own, if_pos rfl, hrow]
      exact fun h => nomatch h
    · have hrow : (Link.ofForm relationForm).row .steady = .ok ⟨0, 1, 1, "now", "now"⟩ := by
        decide +kernel
      rw [hrow]
      exact fun h => nomatch h
    · decide +kernel
  exact ⟨hrun, by decide +kernel, published_of_kept .fresh State.fresh_empty permitRun hrun 4⟩

/-- The interface of a relation is deleted, and the relation stays. -/
theorem relation_outlives_interface : State.fresh.db.Empty ∧
    ¬ ((permitRun ++ [(Server.steady, Event.interfaceDELETE ⟨none, [("id", "1")]⟩)]).foldl
      step .fresh).db.Published :=
  ⟨State.fresh_empty, by decide +kernel⟩

end Examples

end Doodle.Manager.Relations
