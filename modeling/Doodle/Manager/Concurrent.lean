/-
  Two registrations of one interface at the same time, their statements interleaved.

  The handler sends its statements one by one, without a transaction. `Unmixed` is what one would
  want: after any interleaving in which both requests succeed, the row and the variables stored for
  the key are those of one of the two.

  `registrations_mix`: they are not. A request that has stored its row and not yet its variables is
  overtaken by one that finds the row, and both add their variables to it.
  `unmixed_of_careful`: in every interleaving in which no request inserts its interface row while
  the other is between that insert and its end, one of the two is stored as a whole.
-/
import Doodle.Lib.Interleave
import Doodle.Manager.Register

namespace Doodle.Manager.Register

open Doodle.Lib Doodle.Go

/-! ## A request before and after its insert -/

/-- The insert into `interface`. -/
def Call.isInsert : Call → Bool
  | .insertInterface .. => true
  | _ => false

/-- The statements after the insert. -/
def Call.afterInsert : Call → Bool
  | .findInterface _ | .updateInterface .. | .clearVariable _ | .insertVariable _ => true
  | _ => false

/-- Every statement of `x` is one after the insert. -/
def Inner {α : Type} (x : Act α) : Prop := Prog.All (fun c => c.afterInsert = true) x.run

theorem inner_bind {α β : Type} {x : Act α} {f : α → Act β} (hx : Inner x)
    (hf : ∀ a, Inner (f a)) : Inner (x >>= f) := by
  unfold Inner at *
  rw [ExceptT.run_bind]
  refine Prog.all_bind hx fun r => ?_
  cases r with
  | error e => trivial
  | ok a => exact hf a

theorem inner_pure {α : Type} (a : α) : Inner (pure a) := trivial

theorem inner_ask {c : Call} (h : c.afterInsert = true) : Inner (ask c) := ⟨h, fun _ => trivial⟩

theorem inner_addVariable (interfaceID postion level : Int) (parent : String) (fs : List Field) :
    Inner (addVariable interfaceID postion level parent fs) := by
  fun_induction fieldRows interfaceID postion level parent fs with
  | case1 level parent =>
    rw [addVariable]
    exact inner_pure ()
  | case2 level parent name type required comment child fs ih1 ih2 =>
    rw [addVariable]
    exact inner_bind (inner_ask rfl) fun _ => inner_bind ih1 fun _ => ih2

theorem inner_updateExisting (k : IfaceKey) (b : Body) : Inner (updateExisting k b) :=
  inner_bind (inner_ask rfl) fun _ => inner_bind (inner_ask rfl) fun _ =>
    inner_bind (inner_ask rfl) fun _ => inner_pure _

theorem inner_addDocument (b : Body) (id : Int) : Inner (addDocument b id) :=
  inner_bind (inner_addVariable ..) fun _ => inner_bind (inner_addVariable ..) fun _ => inner_pure _

/-- A request from its insert on, when its service has this owner. -/
def register (k : IfaceKey) (b : Body) (owner : ServiceOwner) : Act Int :=
  insertOrUpdate k (withOwner owner b) >>= addDocument b

/-- After the insert's answer only inner statements follow. -/
theorem register_run (k : IfaceKey) (b : Body) (owner : ServiceOwner) :
    ∃ next, (register k b owner).run = .ask (.insertInterface k (withOwner owner b)) next ∧
      ∀ a, Prog.All (fun c => c.afterInsert = true) (next a) := by
  refine ⟨_, rfl, fun a => ?_⟩
  cases a with
  | ok id => exact inner_addDocument b id
  | error e =>
    cases e with
    | duplicate => exact inner_bind (inner_updateExisting k _) (inner_addDocument b)
    | notFound => trivial
    | text s => trivial

/-- A request that has its connection. -/
def lookupService (k : IfaceKey) (b : Body) : Act Int := ask (.service k.1) >>= register k b

theorem post_eq (k : IfaceKey) (b : Body) :
    post k b = ask .connect >>= fun _ => lookupService k b := rfl

/-! ## Two requests -/

section Pair

variable [Collating] (stray : IfaceKey → Db → Except Fault Int) (S : Site) (b : Bool → Body)

/-- Two requests for one key, before their first statement. -/
def start : Pool Answer (Except Fault Int) Db := ⟨fun i => (post S.k (b i)).run, S.db⟩

/-- Both requests answered with an id. -/
def Answered (s : Pool Answer (Except Fault Int) Db) : Prop :=
  ∀ i, ∃ id, s.prog i = .done (.ok id)

/-- Whatever the interleaving, when both requests have succeeded one of them is stored. -/
def Unmixed : Prop :=
  ∀ is s, Pool.run (serve stray) (start S b) is = some s → Answered s →
    ∃ i, Stored S.owner S.k (b i) s.world

theorem service_serve (c : Call) (db : Db) : (serve stray c db).2.service = db.service := by
  cases c <;> simp only [serve] <;> split <;> (try split) <;> (try split) <;> rfl

theorem exec_register {db : Db} (h : Ready S.owner S.k db) (b : Body) :
    exec stray (register S.k b S.owner) db = exec stray (post S.k b) db := by
  rw [post_eq, exec_bind stray (exec_ask stray .connect db), lookupService,
    exec_bind stray (exec_service stray h)]

/-- A request that succeeds is stored, and one that fails leaves the database as it was. -/
theorem post_cases {db : Db} (h : Ready S.owner S.k db) (b : Body) :
    Ready S.owner S.k (exec stray (post S.k b) db).2 ∧
      ∀ id, (exec stray (post S.k b) db).1 = .ok id →
        Stored S.owner S.k b (exec stray (post S.k b) db).2 := by
  by_cases hb : Blocked S.k db
  · obtain ⟨e, he⟩ := post_of_blocked stray h S.path hb b
    rw [he]
    exact ⟨ready_skip h, fun id hid => by cases hid⟩
  · obtain ⟨id, db', he, hready, hst⟩ := post_spec stray h S.path hb b
    rw [he]
    exact ⟨hready, fun _ _ => hst⟩

/-- The two requests as programs with a section, which starts with the insert. -/
def sections : Sections (serve stray) (Except Fault Int) where
  enter := Call.isInsert
  inner := Call.afterInsert
  Known db := db.service.find? (fun p => p.id == S.k.1) = some S.owner
  Idle := Ready S.owner S.k
  Out i p := p = (post S.k (b i)).run ∨ p = (lookupService S.k (b i)).run ∨
    p = (register S.k (b i) S.owner).run
  Left i fin := ∀ id, fin.1 = .ok id → Stored S.owner S.k (b i) fin.2
  known_of_idle _ h := h.service
  known_serve c db h := by rw [service_serve]; exact h
  out_cases := by
    rintro i p (rfl | rfl | rfl)
    · exact ⟨_, _, rfl, Or.inl fun db _ => ⟨rfl, Or.inr (Or.inl rfl)⟩⟩
    · refine ⟨_, _, rfl, Or.inl fun db h => ?_⟩
      have hsvc : serve stray (.service S.k.1) db = (.ok S.owner, db) := by simp only [serve, h]
      rw [hsvc]
      exact ⟨rfl, Or.inr (Or.inr rfl)⟩
    · obtain ⟨next, hrun, hinner⟩ := register_run S.k (b i) S.owner
      refine ⟨_, next, hrun, Or.inr ⟨rfl, fun db h => ⟨hinner _, ?_⟩⟩⟩
      have hend := post_cases stray S h (b i)
      rw [← exec_register stray S h (b i)] at hend
      rw [← hrun]
      exact hend

/-! ## Schedules -/

variable {S b}

/-- Request `i` may carry out its next action while the other one waits. -/
theorem reaches_act {α : Type} {x : Act α} {f : α → Act Int} {i : Bool} {a : α} {db : Db}
    {s : Pool Answer (Except Fault Int) Db} (hp : s.prog i = (x >>= f).run)
    (hx : exec stray x s.world = (.ok a, db)) :
    Pool.Reaches (serve stray) s ⟨Function.update s.prog i (f a).run, db⟩ := by
  rw [ExceptT.run_bind] at hp
  obtain ⟨n, hn⟩ := Pool.exists_run_part (serve stray) i x.run _ s hp
  unfold exec at hx
  rw [hx] at hn
  exact ⟨_, hn⟩

/-- Request `i` may go on to where its interface has an id. -/
theorem reaches_insert {i : Bool} {id : Int} {db : Db} {s : Pool Answer (Except Fault Int) Db}
    (hready : Ready S.owner S.k s.world) {b : Body} (hp : s.prog i = (post S.k b).run)
    (hins : exec stray (insertOrUpdate S.k (withOwner S.owner b)) s.world = (.ok id, db)) :
    Pool.Reaches (serve stray) s ⟨Function.update s.prog i (addDocument b id).run, db⟩ := by
  have h₁ := reaches_act stray hp (exec_ask stray .connect s.world)
  have h₂ := reaches_act stray (f := register S.k b) (i := i)
    (s := ⟨Function.update s.prog i (lookupService S.k b).run, s.world⟩)
    (Function.update_self ..) (exec_service stray hready)
  have h₃ := reaches_act stray (f := addDocument b) (i := i)
    (s := ⟨Function.update s.prog i (register S.k b S.owner).run, s.world⟩)
    (Function.update_self ..) hins
  rw [Function.update_idem] at h₂ h₃
  exact h₁.trans (h₂.trans h₃)

/-- Request `i` may add its variables and answer while the other one waits. -/
theorem reaches_addDocument (i : Bool) (id : Int) (b : Body)
    {s : Pool Answer (Except Fault Int) Db} (hp : s.prog i = (addDocument b id).run) :
    ∃ new n, new.map (fun v => v.val) = docRows id b ∧ Pool.Reaches (serve stray) s
      ⟨Function.update s.prog i (.done (.ok id)),
        { s.world with vars := s.world.vars ++ new, nextVar := n }⟩ := by
  obtain ⟨new, n, hdoc, hnew⟩ := exec_addDocument stray b id s.world
  obtain ⟨m, hm⟩ := Pool.exists_run_alone (serve stray) i s
  unfold exec at hdoc
  rw [hp, hdoc] at hm
  exact ⟨new, n, hnew, _, hm⟩

variable (S b)

/-- Whatever the two documents are, when states are no obstacle an interleaving in which both
    requests succeed leaves the variables of both, one after the other, under the second one's
    row. -/
theorem overtaken (hfree : ¬ Blocked S.k S.db) (hs : scanBool (b false).state ≠ none) :
    ∃ s id, Pool.Reaches (serve stray) (start S b) s ∧ Answered s ∧
      (withOwner S.owner (b true)).row S.k id ∈ s.world.interface.rows ∧
      s.world.varsOf id = docRows id (b false) ++ docRows id (b true) := by
  obtain ⟨id, db₁, hins₁, hfresh₁⟩ :=
    exec_insertOrUpdate stray S.ready S.path hfree (withOwner S.owner (b false))
  have h₁ := reaches_insert stray (s := start S b) (i := false) S.ready rfl hins₁
  -- the second request finds the row of the first
  rw [← state_withOwner S.owner] at hs
  obtain ⟨db₂, hins₂, hfresh₂⟩ := exec_insertOrUpdate_of_mem stray hfresh₁.ready S.path hfresh₁.row
    rfl hs (withOwner S.owner (b true))
  have h₂ := reaches_insert stray (i := true)
    (s := ⟨Function.update (start S b).prog false (addDocument (b false) id).run, db₁⟩)
    hfresh₁.ready rfl hins₂
  obtain ⟨new, n, hnew, h₃⟩ := reaches_addDocument stray false id (b false)
    (s := ⟨Function.update (Function.update (start S b).prog false (addDocument (b false) id).run)
      true (addDocument (b true) id).run, db₂⟩) rfl
  obtain ⟨new', n', hnew', h₄⟩ := reaches_addDocument stray true id (b true)
    (s := ⟨Function.update (Function.update (Function.update (start S b).prog false
      (addDocument (b false) id).run) true (addDocument (b true) id).run) false (.done (.ok id)),
      { db₂ with vars := db₂.vars ++ new, nextVar := n }⟩) rfl
  refine ⟨_, id, h₁.trans (h₂.trans (h₃.trans h₄)), ?_, hfresh₂.row, ?_⟩
  · intro i
    cases i
    · exact ⟨id, rfl⟩
    · exact ⟨id, rfl⟩
  · rw [← hnew, ← hnew', ← List.map_append]
    simp only [List.append_assoc]
    refine varsOf_append hfresh₂.none (fun v hv => ?_) n'
    rcases List.mem_append.mp hv with hv | hv
    · exact interfaceID_of_mem_docRows (b := b false) v.val (hnew ▸ List.mem_map_of_mem hv)
    · exact interfaceID_of_mem_docRows (b := b true) v.val (hnew' ▸ List.mem_map_of_mem hv)

/-- One request after the other is a careful schedule. -/
theorem exists_serial (hfree : ¬ Blocked S.k S.db) (hs : scanBool (b false).state ≠ none) :
    ∃ is s, Pool.run (serve stray) (start S b) is = some s ∧
      (sections stray S b).carefulRun (start S b) is = true ∧ Answered s := by
  obtain ⟨id, db₁, he₁, hready₁, hst⟩ := post_spec stray S.ready S.path hfree (b false)
  obtain ⟨id', db₂, he₂, -, -⟩ :=
    post_spec stray hready₁ S.path (fun h => hs ((blocked_iff_of_stored hst).mp h)) (b true)
  obtain ⟨n, hn⟩ := Pool.exists_run_alone (serve stray) false (start S b)
  obtain ⟨m, hm⟩ := Pool.exists_run_alone (serve stray) true
    (⟨Function.update (start S b).prog false (.done (.ok id)), db₁⟩ : Pool _ _ _)
  have hfirst : Pool.run (serve stray) (start S b) (List.replicate n false) =
      some ⟨Function.update (start S b).prog false (.done (.ok id)), db₁⟩ := by
    rw [hn]
    unfold exec at he₁
    exact congrArg (fun x : Except Fault Int × Db => some (Pool.mk
      (Function.update (start S b).prog false (.done x.1)) x.2)) he₁
  refine ⟨_, _, by rw [Pool.run_append, hfirst, Option.bind_some, hm],
    Sections.carefulRun_append _ _ _ _ _ hfirst ?_ ?_, ?_⟩
  · refine Sections.carefulRun_replicate _ _ _ _ fun c k hp => ?_
    cases hp
    rfl
  · refine Sections.carefulRun_replicate _ _ _ _ fun c k hp => ?_
    cases hp
  · intro i
    cases i
    · exact ⟨id, rfl⟩
    · exact ⟨id', congrArg (fun x : Except Fault Int × Db => Prog.done x.1) he₂⟩

/-! ## The results -/

/-- When no request inserts its interface while the other is between its own insert and its end,
    one of them is stored as a whole. -/
theorem unmixed_of_careful (is : List Bool) (s : Pool Answer (Except Fault Int) Db)
    (hrun : Pool.run (serve stray) (start S b) is = some s)
    (hcare : (sections stray S b).carefulRun (start S b) is = true) (hans : Answered s) :
    ∃ i, Stored S.owner S.k (b i) s.world := by
  obtain ⟨i, a, ha, hleft⟩ := (sections stray S b).left_of_careful (s := start S b) S.ready
    (fun i => Or.inl rfl) hcare hrun fun i => (hans i).imp' _ fun _ h => h
  obtain ⟨id, hid⟩ := hans i
  exact ⟨i, hleft id (Prog.done.inj (ha.symm.trans hid))⟩

end Pair

/-- Two reports of one method, with a request field `id` and with a request field `name`. -/
def twoReports (i : Bool) : Body :=
  ⟨"", 1, "", "User_Get", 1, "faas", "",
    ⟨"", [.mk (if i then "name" else "id") "string" true "" []], []⟩⟩

theorem unmixed_of_careful_serial : ∃ (_ : Collating) (stray : _) (s : _),
    Pool.Reaches (serve stray) (start userSite twoReports) s ∧ Answered s ∧
      ∃ i, Stored userSite.owner userSite.k (twoReports i) s.world := by
  let _ : Collating := asciiCi
  let stray : IfaceKey → Db → Except Fault Int := fun _ _ => .error .notFound
  obtain ⟨is, s, hrun, hcare, hans⟩ :=
    exists_serial stray userSite twoReports userSite_free (by decide)
  exact ⟨asciiCi, stray, s, ⟨is, hrun⟩, hans,
    unmixed_of_careful stray userSite twoReports is s hrun hcare hans⟩

/-- Both requests succeed and the interface has the fields of both. -/
theorem registrations_mix : ¬ ∃ (_ : Collating) (stray : _),
    Unmixed stray userSite twoReports := by
  rintro ⟨_, stray, h⟩
  obtain ⟨s, id, ⟨is, hrun⟩, hans, hrow, hvars⟩ :=
    overtaken stray userSite twoReports userSite_free (by decide)
  obtain ⟨i, id', hrow', hdoc⟩ := h is s hrun hans
  obtain rfl : id' = id := congrArg IfaceRow.id (s.world.interface.eq_of_key hrow' hrow rfl)
  have hlen : ∀ j, (docRows id' (twoReports j)).length = 1 := by
    intro j
    simp [docRows, twoReports, fieldRows]
  have hboth := congrArg List.length (hdoc.symm.trans hvars)
  rw [List.length_append, hlen, hlen, hlen] at hboth
  omega

end Doodle.Manager.Register
