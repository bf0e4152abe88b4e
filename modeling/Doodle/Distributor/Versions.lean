/-
  The versions of `distributor/watcher.go`: what `online` records of a backend, and when it reports
  the documents of a node to the manager with `parseDocument`.

  A `Watch` is a call of `online` or of `offline`; an `online` comes with what its `parseDocument`
  would meet outside (`Outside`), so that any pattern of failures is a sequence of `Watch`es.
  `Watched.run` is the watcher after such a sequence: the table, and the calls of `parseDocument`
  with what became of them. A panic inside `parseDocument` ends the process, and so the sequence.

  * `recorded_run`: the version recorded of a backend is the greatest one seen.
  * `calls_concat`: a call is made exactly for a version above all earlier ones of the backend.
  * `watched_in_order`: both, and the table of nodes.
  * `recordsRegistered_iff`: the recorded versions are registered ones exactly when every such call
    finds the document, the project and the version, and the manager accepts all it is sent.
-/
import Doodle.Distributor.Report
import Doodle.Distributor.Watcher
import Doodle.Lib.Action

namespace Doodle.Distributor

open Doodle.Go Doodle.Lib Doodle.Meta Doodle.Service

/-! ## Reporting a document -/

/-- `document.Module`; a map is the list of its entries in the order in which a loop takes them. -/
structure Module where
  url : String
  methods : List (String × Meta.Document.Method)

/-- The answer of the manager. -/
structure Answer where
  status : Int
  message : String

/-- What one `parseDocument` meets outside: the page behind an address, how a page reads as a
    document, the project of a service key, and the manager's answer to the n-th request. -/
structure Outside where
  get : String → Except String String
  unmarshal : String → Except String (List (String × Module))
  projectID : String → Except String Int
  post : Nat → Report → Except String Answer

/-- `managerClient.interfaceRegister`, once its request is made up. -/
def Outside.register (out : Outside) (n : Nat) (r : Report) : Except String Unit := do
  let resp ← out.post n r
  if resp.status ≠ 0 then throw resp.message

/-- The requests of the two loops of `parseDocument`. -/
def reports (backend : String) (projectID version : Int) (doc : List (String × Module)) :
    List Report :=
  doc.flatMap fun o => o.2.methods.map fun m =>
    interfaceRegister projectID version (o.1 ++ "_" ++ m.1) m.1 o.2.url backend m.2

def documentURL (app : MicroAPP) : String :=
  "http://" ++ app.host ++ ":" ++ toString app.port ++ "/document/"

/-- What a `parseDocument` sent, each request with its error, which the loop drops. -/
abbrev Sent := List (Report × Except String Unit)

def parseDocument (out : Outside) (backend : String) (app : MicroAPP) : Except String Sent := do
  let buf ← out.get (documentURL app)
  let doc ← out.unmarshal buf
  let projectID ← out.projectID app.serviceKey
  match parseInt app.gitTime with
  | none => throw ("strconv.ParseInt: parsing " ++ app.gitTime)
  | some version =>
    pure ((reports backend projectID version doc).zipIdx.map fun r => (r.1, out.register r.2 r.1))

/-- The document is there and reads, the service key has a project, the git time is a number, and
    the manager accepts every interface of the document. -/
def Registers (out : Outside) (backend : String) (app : MicroAPP) : Prop :=
  ∃ buf doc projectID version, out.get (documentURL app) = .ok buf ∧ out.unmarshal buf = .ok doc ∧
    out.projectID app.serviceKey = .ok projectID ∧ parseInt app.gitTime = some version ∧
    ∀ r ∈ (reports backend projectID version doc).zipIdx,
      ∃ answer, out.post r.2 r.1 = .ok answer ∧ answer.status = 0

theorem register_eq_ok (out : Outside) (n : Nat) (r : Report) :
    out.register n r = .ok () ↔ ∃ answer, out.post n r = .ok answer ∧ answer.status = 0 := by
  unfold Outside.register
  cases out.post n r with
  | error e => simp [bind, Except.bind]
  | ok answer =>
    by_cases h : answer.status = 0
    · simp [h, bind, Except.bind, pure, Except.pure]
    · simp [h, bind, Except.bind, throw, throwThe, MonadExceptOf.throw]

/-- `parseDocument` returned nil, and the manager accepted everything. -/
def Accepted (res : Except String Sent) : Prop := ∃ sent, res = .ok sent ∧ ∀ s ∈ sent, s.2 = .ok ()

theorem accepted_iff (out : Outside) (backend : String) (app : MicroAPP) :
    Accepted (parseDocument out backend app) ↔ Registers out backend app := by
  constructor
  · rintro ⟨sent, hres, hall⟩
    obtain ⟨buf, hget, hres⟩ := except_bind_ok hres
    obtain ⟨doc, hdoc, hres⟩ := except_bind_ok hres
    obtain ⟨projectID, hid, hres⟩ := except_bind_ok hres
    cases hv : parseInt app.gitTime with
    | none =>
      rw [hv] at hres
      cases hres
    | some version =>
      rw [hv] at hres
      obtain rfl := Except.ok.inj hres
      refine ⟨buf, doc, projectID, version, hget, hdoc, hid, hv, fun r hr => ?_⟩
      exact (register_eq_ok out r.2 r.1).mp (hall _ (List.mem_map.mpr ⟨r, hr, rfl⟩))
  · rintro ⟨buf, doc, projectID, version, hget, hdoc, hid, hv, hall⟩
    refine ⟨(reports backend projectID version doc).zipIdx.map
      fun r => (r.1, out.register r.2 r.1), ?_, ?_⟩
    · simp only [parseDocument, hget, hdoc, hid, hv, bind, Except.bind, pure, Except.pure]
    · intro s hs
      obtain ⟨r, hr, rfl⟩ := List.mem_map.mp hs
      exact (register_eq_ok out r.2 r.1).mpr (hall r hr)

/-! ## The watcher -/

inductive Watch where
  | online (backend : String) (app : MicroAPP) (out : Outside)
  | offline (name host : String)

/-- A call of `parseDocument`. -/
structure Call where
  backend : String
  app : MicroAPP
  res : Except String Sent

/-- The table, and the calls of `parseDocument` so far, oldest first. -/
structure Watched where
  services : Services
  calls : List Call

/-- Whether `online` comes to its `parseDocument`. -/
def parses (ws : Services) (backend : String) (app : MicroAPP) : Bool :=
  match ws backend with
  | some o => !decide (version app ≤ o.version)
  | none => true

def Watched.step (w : Watched) : Watch → Watched
  | .online backend app out =>
    { services := online w.services backend app
      calls := w.calls ++
        if parses w.services backend app then [⟨backend, app, parseDocument out backend app⟩]
        else [] }
  | .offline name host => { w with services := offline w.services name host }

/-- The watcher after a sequence of calls, from `newWatcher` on. -/
def Watched.run (events : List Watch) : Watched := events.foldl Watched.step ⟨Services.empty, []⟩

theorem run_concat (l : List Watch) (e : Watch) :
    Watched.run (l ++ [e]) = (Watched.run l).step e := by
  unfold Watched.run
  rw [List.foldl_append]
  rfl

/-! ## Versions -/

/-- `services[backend].version`. -/
def recorded (ws : Services) (backend : String) : Option Int := (ws backend).map Nodes.version

theorem recorded_online (ws : Services) (backend : String) (app : MicroAPP) (n : String) :
    recorded (online ws backend app) n =
      if n = backend then some ((recorded ws backend).elim (version app) (max · (version app)))
      else recorded ws n := by
  unfold online recorded
  by_cases hn : n = backend
  · subst hn
    cases ho : ws n with
    | none => simp [Services.set]
    | some o =>
      by_cases hv : version app ≤ o.version
      · simp [hv, Services.set, Nodes.put]
      · simp [hv, Services.set, max_eq_right (le_of_not_ge hv)]
  · cases ws backend with
    | none => simp [Services.set, hn]
    | some o =>
      simp only
      split <;> simp [Services.set, hn]

theorem recorded_offline (ws : Services) (name host n : String) :
    recorded (offline ws name host) n = recorded ws n := by
  unfold offline recorded
  cases hs : ws name with
  | none => rfl
  | some s =>
    by_cases hn : n = name
    · simp [Services.set, hn, hs, Nodes.put]
    · simp [Services.set, hn]

/-- `online` reports a version above the recorded one, and the first one. -/
theorem parses_iff (ws : Services) (backend : String) (app : MicroAPP) :
    parses ws backend app = true ↔ ∀ v, recorded ws backend = some v → v < version app := by
  unfold parses recorded
  cases ws backend with
  | none => simp
  | some o => simp

/-- The instance an event brings online for a backend. -/
def Watch.app? (backend : String) : Watch → Option MicroAPP
  | .online b app _ => if b = backend then some app else none
  | .offline _ _ => none

/-- The instances that have come online for a backend. -/
def onlines (backend : String) (events : List Watch) : List MicroAPP :=
  events.filterMap (Watch.app? backend)

theorem onlines_concat (backend : String) (l : List Watch) (e : Watch) :
    onlines backend (l ++ [e]) = onlines backend l ++ (e.app? backend).toList := by
  unfold onlines
  rw [List.filterMap_append]
  cases h : e.app? backend <;> simp [h]

/-- A version above all earlier ones of the backend. -/
def Fresh (before : List Watch) (backend : String) (app : MicroAPP) : Prop :=
  ∀ a ∈ onlines backend before, version a < version app

instance (before : List Watch) (backend : String) (app : MicroAPP) :
    Decidable (Fresh before backend app) :=
  inferInstanceAs (Decidable (∀ a ∈ onlines backend before, version a < version app))

theorem max?_concat (l : List Int) (a : Int) : (l ++ [a]).max? = some (l.max?.elim a (max · a)) := by
  cases h : l.max? with
  | none =>
    rw [List.max?_eq_none_iff.mp h]
    rfl
  | some m =>
    obtain ⟨hm, hle⟩ := List.max?_eq_some_iff.mp h
    refine List.max?_eq_some_iff.mpr ⟨?_, fun b hb => ?_⟩
    · rcases max_choice m a with hmax | hmax <;> simp [hmax, hm]
    · rcases List.mem_append.mp hb with hb | hb
      · exact le_trans (hle b hb) (le_max_left m a)
      · rw [List.mem_singleton.mp hb]
        exact le_max_right m a

/-- What is recorded is the greatest version seen. -/
theorem recorded_run (events : List Watch) (backend : String) :
    recorded (Watched.run events).services backend = ((onlines backend events).map version).max? := by
  induction events using List.reverseRecOn with
  | nil => rfl
  | append_singleton l e ih =>
    rw [run_concat, onlines_concat, List.map_append]
    cases e with
    | online b app out =>
      simp only [Watched.step, recorded_online, Watch.app?]
      by_cases hb : b = backend
      · subst hb
        simp only [if_true, ih, Option.toList_some, List.map_singleton, max?_concat]
      · simp [hb, Ne.symm hb, ih]
    | offline name host =>
      simp [Watched.step, recorded_offline, Watch.app?, ih]

theorem parses_run_iff (events : List Watch) (backend : String) (app : MicroAPP) :
    parses (Watched.run events).services backend app = true ↔ Fresh events backend app := by
  rw [parses_iff, recorded_run]
  constructor
  · intro h a ha
    have hmem : version a ∈ (onlines backend events).map version := List.mem_map.mpr ⟨a, ha, rfl⟩
    cases hmax : ((onlines backend events).map version).max? with
    | none =>
      rw [List.max?_eq_none_iff.mp hmax] at hmem
      exact absurd hmem List.not_mem_nil
    | some m => exact lt_of_le_of_lt ((List.max?_eq_some_iff.mp hmax).2 _ hmem) (h m hmax)
  · intro h v hv
    obtain ⟨a, ha, rfl⟩ := List.mem_map.mp (List.max?_eq_some_iff.mp hv).1
    exact h a ha

/-! ## Calls -/

/-- The calls an event makes after the events `before`. -/
def callsOf (before : List Watch) : Watch → List Call
  | .online backend app out =>
    if Fresh before backend app then [⟨backend, app, parseDocument out backend app⟩] else []
  | .offline _ _ => []

theorem calls_concat (l : List Watch) (e : Watch) :
    (Watched.run (l ++ [e])).calls = (Watched.run l).calls ++ callsOf l e := by
  rw [run_concat]
  cases e with
  | online b app out =>
    simp only [Watched.step, callsOf, parses_run_iff]
  | offline name host => simp [Watched.step, callsOf]

theorem mem_calls_iff (c : Call) (events : List Watch) : c ∈ (Watched.run events).calls ↔
    ∃ before e after, events = before ++ e :: after ∧ c ∈ callsOf before e := by
  induction events using List.reverseRecOn with
  | nil => simp [Watched.run]
  | append_singleton l e ih =>
    rw [calls_concat, List.mem_append, ih]
    constructor
    · rintro (⟨before, e', after, rfl, hc⟩ | hc)
      · exact ⟨before, e', after ++ [e], by simp, hc⟩
      · exact ⟨l, e, [], rfl, hc⟩
    · rintro ⟨before, e', after, hsplit, hc⟩
      -- the event is the last one, or it stands before the last one
      cases after using List.reverseRecOn with
      | nil =>
        obtain ⟨rfl, h⟩ := List.append_inj' hsplit rfl
        obtain rfl := List.singleton_inj.mp h
        exact Or.inr hc
      | append_singleton after' e'' =>
        rw [← List.cons_append, ← List.append_assoc] at hsplit
        exact Or.inl ⟨before, e', after', (List.append_inj' hsplit rfl).1, hc⟩

theorem mem_callsOf {before : List Watch} {e : Watch} {c : Call} (h : c ∈ callsOf before e) :
    ∃ out, e = .online c.backend c.app out ∧ Fresh before c.backend c.app ∧
      c.res = parseDocument out c.backend c.app := by
  cases e with
  | online b app out =>
    by_cases hf : Fresh before b app
    · simp only [callsOf, if_pos hf, List.mem_singleton] at h
      subst h
      exact ⟨out, rfl, hf, rfl⟩
    · simp [callsOf, hf] at h
  | offline name host => simp [callsOf] at h

/-- A call is for an instance that came online. -/
theorem app_mem_onlines {events : List Watch} {c : Call} (h : c ∈ (Watched.run events).calls) :
    c.app ∈ onlines c.backend events := by
  obtain ⟨before, e, after, rfl, hc⟩ := (mem_calls_iff c events).mp h
  obtain ⟨out, rfl, -, -⟩ := mem_callsOf hc
  refine List.mem_filterMap.mpr ⟨_, List.mem_append_right _ List.mem_cons_self, ?_⟩
  simp [Watch.app?]

/-- The calls for one backend are in the order of their versions. -/
theorem calls_pairwise (events : List Watch) : (Watched.run events).calls.Pairwise fun c d =>
    c.backend = d.backend → version c.app < version d.app := by
  induction events using List.reverseRecOn with
  | nil => exact List.Pairwise.nil
  | append_singleton l e ih =>
    rw [calls_concat, List.pairwise_append]
    refine ⟨ih, ?_, fun c hc d hd hb => ?_⟩
    · cases e with
      | online b app out =>
        simp only [callsOf]
        split <;> simp
      | offline name host => exact List.Pairwise.nil
    · obtain ⟨out, -, hfresh, -⟩ := mem_callsOf hd
      exact hfresh c.app (hb ▸ app_mem_onlines hc)

/-! ## Nodes -/

/-- An event as a change of the table of nodes. -/
def Watch.change : Watch → Change (String × String) MicroAPP
  | .online backend app _ => ⟨(backend, app.host), some app⟩
  | .offline name host => ⟨(name, host), none⟩

theorem node_run (events : List Watch) (backend host : String) :
    node (Watched.run events).services backend host =
      (lastChange (events.map Watch.change) (backend, host)).bind Change.img := by
  rw [← valueAfter_eq_lastChange]
  induction events using List.reverseRecOn with
  | nil => rfl
  | append_singleton l e ih =>
    rw [run_concat, List.map_append, List.map_singleton, valueAfter_concat, ← ih]
    cases e with
    | online b app out => simp only [Watched.step, node_online, Watch.change, Prod.mk.injEq]
    | offline n h => simp only [Watched.step, node_offline, Watch.change, Prod.mk.injEq]

/-! ## In order -/

/-- What a sequence of events leaves: the greatest version of each backend, a call of
    `parseDocument` for each event with a version above the earlier ones and for no other, so in
    the order of the versions, and the last instance of each host that did not go offline. -/
structure InOrder (events : List Watch) : Prop where
  version : ∀ backend, recorded (Watched.run events).services backend =
    ((onlines backend events).map version).max?
  calls : ∀ before e after, events = before ++ e :: after →
    (Watched.run (before ++ [e])).calls = (Watched.run before).calls ++ callsOf before e
  increasing : ∀ backend, (((Watched.run events).calls.filter fun c => c.backend = backend).map
    fun c => Distributor.version c.app).Pairwise (· < ·)
  node : ∀ backend host, node (Watched.run events).services backend host =
    (lastChange (events.map Watch.change) (backend, host)).bind Change.img

theorem watched_in_order (events : List Watch) : InOrder events where
  version := recorded_run events
  calls := fun before e _ _ => calls_concat before e
  increasing := by
    intro backend
    rw [List.pairwise_map, List.pairwise_filter]
    refine (calls_pairwise events).imp fun {c d} h hc hd => h ?_
    rw [of_decide_eq_true hc, of_decide_eq_true hd]
  node := node_run events

/-! ## Registered versions -/

/-- A `parseDocument` for the backend and the version had everything accepted. -/
def Registered (w : Watched) (backend : String) (v : Int) : Prop :=
  ∃ c ∈ w.calls, c.backend = backend ∧ version c.app = v ∧ Accepted c.res

/-- A recorded version is registered; and a version whose registration failed is reported again
    when another instance of it comes online. -/
def RecordsRegistered (w : Watched) : Prop :=
  (∀ backend v, recorded w.services backend = some v → Registered w backend v) ∧
    ∀ backend app, (∃ c ∈ w.calls, c.backend = backend ∧ version c.app = version app) →
      ¬ Registered w backend (version app) → parses w.services backend app = true

/-- A record that an `online` changes is its instance's version, above the one before. -/
theorem parses_of_recorded_changed {ws : Services} {backend n : String} {app : MicroAPP} {v : Int}
    (h : recorded (online ws backend app) n = some v) (hold : recorded ws n ≠ some v) :
    n = backend ∧ version app = v ∧ parses ws backend app = true := by
  rw [recorded_online] at h
  by_cases hn : n = backend
  · subst hn
    rw [if_pos rfl, Option.some.injEq] at h
    rw [parses_iff]
    cases hr : recorded ws n with
    | none =>
      rw [hr] at h
      exact ⟨rfl, h, fun _ h' => (by cases h')⟩
    | some m =>
      rw [hr] at h hold
      have hmax : max m (version app) = v := h
      have hne : m ≠ v := fun hmv => hold (congrArg some hmv)
      have hlt : m < version app := by
        by_contra hle
        exact hne ((max_eq_left (not_lt.mp hle)).symm.trans hmax)
      rw [max_eq_right hlt.le] at hmax
      exact ⟨rfl, hmax, fun w hw => Option.some.inj hw ▸ hlt⟩
  · rw [if_neg hn] at h
    exact absurd h hold

/-- What is recorded was reported. -/
theorem exists_call_of_recorded (events : List Watch) {backend : String} {v : Int} :
    recorded (Watched.run events).services backend = some v →
      ∃ c ∈ (Watched.run events).calls, c.backend = backend ∧ version c.app = v := by
  induction events using List.reverseRecOn with
  | nil => intro h; cases h
  | append_singleton l e ih =>
    intro h
    rw [calls_concat]
    by_cases hold : recorded (Watched.run l).services backend = some v
    · obtain ⟨c, hc, hcall⟩ := ih hold
      exact ⟨c, List.mem_append_left _ hc, hcall⟩
    -- the last event changed the record
    rw [run_concat] at h
    cases e with
    | offline name host => exact absurd (recorded_offline _ name host backend ▸ h) hold
    | online b app out =>
      obtain ⟨rfl, hversion, hparses⟩ := parses_of_recorded_changed h hold
      have hfresh := (parses_run_iff l backend app).mp hparses
      exact ⟨⟨backend, app, parseDocument out backend app⟩,
        List.mem_append_right _ (by simp [callsOf, hfresh]), rfl, hversion⟩

theorem recorded_online_of_parses {ws : Services} {backend : String} {app : MicroAPP}
    (h : parses ws backend app = true) :
    recorded (online ws backend app) backend = some (version app) := by
  rw [recorded_online, if_pos rfl]
  cases hr : recorded ws backend with
  | none => rfl
  | some m => exact congrArg some (max_eq_right ((parses_iff ws backend app).mp h m hr).le)

/-- A fresh version is registered by its own event alone. -/
theorem registers_of_registered {before : List Watch} {backend : String} {app : MicroAPP}
    {out : Outside} (hfresh : Fresh before backend app)
    (h : Registered (Watched.run (before ++ [.online backend app out])) backend (version app)) :
    Registers out backend app := by
  obtain ⟨c, hc, rfl, hv, hacc⟩ := h
  rw [calls_concat, List.mem_append] at hc
  rcases hc with hc | hc
  · -- an earlier call of this version would have come before a version that is fresh
    exact absurd (hfresh c.app (app_mem_onlines hc)) (by rw [hv]; exact lt_irrefl _)
  · simp only [callsOf, if_pos hfresh, List.mem_singleton] at hc
    rw [hc] at hacc
    exact (accepted_iff out _ app).mp hacc

/-- In every state a sequence of events goes through the recorded versions are registered ones
    exactly when each event with a version above the earlier ones of its backend finds everything it
    takes to register. -/
theorem recordsRegistered_iff (events : List Watch) :
    (∀ n, RecordsRegistered (Watched.run (events.take n))) ↔
    ∀ before backend app out after, events = before ++ .online backend app out :: after →
      Fresh before backend app → Registers out backend app := by
  constructor
  · rintro h before backend app out after rfl hfresh
    have hstate := (h (before.length + 1)).1 backend (version app)
    have htake : (before ++ Watch.online backend app out :: after).take (before.length + 1) =
        before ++ [.online backend app out] := by
      rw [List.append_cons]
      exact List.take_left' (by simp)
    rw [htake] at hstate
    refine registers_of_registered hfresh (hstate ?_)
    rw [run_concat]
    exact recorded_online_of_parses ((parses_run_iff before backend app).mpr hfresh)
  · intro h n
    have hacc : ∀ c ∈ (Watched.run (events.take n)).calls, Accepted c.res := by
      intro c hc
      obtain ⟨before, e, after, hsplit, hc⟩ := (mem_calls_iff c _).mp hc
      obtain ⟨out, rfl, hfresh, hres⟩ := mem_callsOf hc
      rw [hres, accepted_iff]
      refine h before _ _ out (after ++ events.drop n) ?_ hfresh
      rw [← List.cons_append, ← List.append_assoc, ← hsplit, List.take_append_drop]
    refine ⟨fun backend v hv => ?_, fun backend app ⟨c, hc, hb, hv⟩ hno => ?_⟩
    · obtain ⟨c, hc, hb, hcv⟩ := exists_call_of_recorded _ hv
      exact ⟨c, hc, hb, hcv, hacc c hc⟩
    · exact absurd ⟨c, hc, hb, hv, hacc c hc⟩ hno

/-- A node that cannot be reached when it comes online. -/
def unreachable : Watch :=
  .online "dbs/faas" ⟨"key", "10.0.0.1", 8080, 17, "", "1514736000", ""⟩
    ⟨fun _ => .error "connection refused", fun _ => .ok [], fun _ => .ok 1,
      fun _ _ => .ok ⟨0, ""⟩⟩

/-- Its version is recorded, and nothing was registered. -/
theorem failed_version_recorded : ¬ ∀ n, RecordsRegistered (Watched.run ([unreachable].take n)) := by
  intro h
  obtain ⟨c, hc, -, -, sent, hres, -⟩ := (h 1).1 "dbs/faas" 1514736000 (by decide)
  have hcall : c.res = .error "connection refused" := by
    obtain ⟨before, e, after, hsplit, hmem⟩ := (mem_calls_iff c _).mp hc
    obtain ⟨out, rfl, -, hout⟩ := mem_callsOf hmem
    cases before with
    | nil =>
      obtain ⟨hb, happ, hout'⟩ := Watch.online.inj (List.cons.inj hsplit).1
      rw [hout, ← hout']
      rfl
    | cons e' before => simp at hsplit
  rw [hcall] at hres
  cases hres

end Doodle.Distributor
