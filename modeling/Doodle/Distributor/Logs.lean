/-
  What the rows of `distributor_logs` say of a deployment, while any number of deployments and the
  streams of their commands run at the same time (`Deploy.lean`).

  A stream reads `logID` of its task for each line, without a lock, while the task goes on to its
  next command and sets it. So a line may get into the row of a later command. But `logID` only
  grows, so the rows of one stream do too, and the rows of a task, one after the other, hold the
  lines of each stream in their order. The build is waited for before the next command starts, and
  keeps its row to itself.

  * `logs_tell`: read one after the other, the rows of a task hold, for each of its streams, the
    lines whose update was carried out, in their order. An update is made for every line that was
    read, in the order of reading, and at most the last line still waits for its own.
-/
import Doodle.Distributor.Deploy
import Doodle.Lib.EventLog
import Mathlib.Data.List.Forall2
import Mathlib.Data.List.Nodup

namespace Doodle.Distributor.Deploy

open Doodle.Lib

/-! ## Texts -/

/-- The lines of some updates, one after the other. -/
def textOf (l : List Write) : String := String.join (l.map fun x => x.line ++ "\n")

theorem textOf_append (l₁ l₂ : List Write) : textOf (l₁ ++ l₂) = textOf l₁ ++ textOf l₂ := by
  unfold textOf
  induction l₁ with
  | nil => simp [String.join]
  | cons x l ih =>
    simp only [List.cons_append, List.map_cons, String.join_cons, ih, String.append_assoc]

/-- What was read of a stream: lines from its beginning, and after them perhaps the beginning of
    one more where it was cut. -/
def ReadOf (output : List String) (cut : Prop) (got : List String) : Prop :=
  got <+: output ∨ cut ∧ ∃ l line rest p, output = l ++ line :: rest ∧ got = l ++ [p] ∧
    p.toList <+: line.toList

/-! ## What is kept -/

namespace Book

/-- The updates for a stream, oldest first. -/
def triedOf (b : Book) (s : Stream) : List Write := b.tried.filter fun x => x.stream = s

def linesOf (b : Book) (s : Stream) : List String := (b.triedOf s).map Write.line

/-- The task has a row of this id. -/
def Owned (b : Book) (t : Nat) (id : Int) : Prop := ∃ r ∈ b.logs, r.id = id ∧ r.distributorID = t

/-- A row for a line of the stream: one of the task, not before the row its command was started
    with, and for the build no other. -/
structure Place (b : Book) (s : Stream) (id : Int) : Prop where
  owned : b.Owned s.task id
  current : id ≤ b.logID s.task
  home : ∃ h, b.home s.task s.cmd = some h ∧ h ≤ id ∧ (s.cmd = 0 → id = h)

end Book

/-- What holds of the rows and of the streams. -/
structure Inv (output : Stream → List String) (b : Book) : Prop where
  text : ∀ r ∈ b.logs, r.info = textOf (b.tried.filter fun x => x.stored ∧ x.row = r.id)
  order : b.logs.Pairwise fun r r' =>
    r.id ≠ r'.id ∧ (r.distributorID = r'.distributorID → r.id < r'.id)
  pos : ∀ r ∈ b.logs, 0 < r.id
  logID : ∀ t, b.logID t = 0 ∨ b.Owned t (b.logID t)
  homes : ∀ t n h, b.home t n = some h → 0 < h ∧ h ≤ b.logID t
  begun : ∀ s, s ∈ b.live ∨ s ∈ b.ended → b.home s.task s.cmd ≠ none
  apart : ∀ s ∈ b.live, s ∉ b.ended
  build : ∀ s ∈ b.live, s.cmd = 0 → b.home s.task s.cmd = some (b.logID s.task)
  placed : ∀ x ∈ b.tried, b.Place x.stream x.row
  sorted : ∀ s, (b.triedOf s).Pairwise fun x y => x.row ≤ y.row
  read : ∀ s, ReadOf (output s) (s ∈ b.cut) (b.got s)
  tried : ∀ s, ∃ rest, b.got s = b.linesOf s ++ rest ∧ rest.length ≤ 1
  done : ∀ s ∈ b.ended, b.got s = b.linesOf s ∧ (s ∉ b.cut → b.got s = output s)

/-- Rows stay, `logID` grows, and a command keeps the row it was started with. -/
structure Later (b b' : Book) : Prop where
  owned : ∀ t id, b.Owned t id → b'.Owned t id
  logID : ∀ t, b.logID t ≤ b'.logID t
  home : ∀ t n h, b.home t n = some h → b'.home t n = some h
  cut : b.cut ⊆ b'.cut

/-- What the others leave to a thread: to a task its `logID` and which commands it has started, to
    a stream that it runs and what it has read and written. -/
def Away : Thread → Book → Book → Prop
  | .main t, b, b' => b'.logID t = b.logID t ∧ b'.home t = b.home t ∧
      ∀ s ∈ b'.live, s.task = t → s ∈ b.live
  | .stream s, b, b' =>
      (s ∈ b.live → s ∈ b'.live) ∧ b'.got s = b.got s ∧ b'.triedOf s = b.triedOf s

theorem Later.refl (b : Book) : Later b b :=
  ⟨fun _ _ h => h, fun _ => le_refl _, fun _ _ _ h => h, List.Subset.refl _⟩

theorem Later.trans {b₁ b₂ b₃ : Book} (h : Later b₁ b₂) (h' : Later b₂ b₃) : Later b₁ b₃ where
  owned t id ho := h'.owned t id (h.owned t id ho)
  logID t := (h.logID t).trans (h'.logID t)
  home t n x hx := h'.home t n x (h.home t n x hx)
  cut := List.Subset.trans h.cut h'.cut

theorem Away.refl (i : Thread) (b : Book) : Away i b b := by
  cases i with
  | main t => exact ⟨rfl, rfl, fun _ h _ => h⟩
  | stream s => exact ⟨id, rfl, rfl⟩

theorem Away.trans {i : Thread} {b₁ b₂ b₃ : Book} (h : Away i b₁ b₂) (h' : Away i b₂ b₃) :
    Away i b₁ b₃ := by
  cases i with
  | main t =>
    exact ⟨h'.1.trans h.1, h'.2.1.trans h.2.1, fun s hs ht => h.2.2 s (h'.2.2 s hs ht) ht⟩
  | stream s => exact ⟨h'.1 ∘ h.1, h'.2.1.trans h.2.1, h'.2.2.trans h.2.2⟩

/-- A step of `i` that keeps all of it. -/
structure Fine (output : Stream → List String) (i : Thread) (b b' : Book) : Prop where
  inv : Inv output b'
  later : Later b b'
  away : ∀ j, j ≠ i → Away j b b'

variable {output : Stream → List String} {b : Book}

theorem Book.Place.later {b' : Book} {s : Stream} {id : Int} (h : b.Place s id)
    (hl : Later b b') : b'.Place s id where
  owned := hl.owned _ _ h.owned
  current := h.current.trans (hl.logID _)
  home := h.home.imp fun _ hx => ⟨hl.home _ _ _ hx.1, hx.2⟩

theorem Fine.of_eq (hb : Inv output b) {b' : Book} (he : b' = b) (i : Thread) :
    Fine output i b b' := by
  subst he
  exact ⟨hb, Later.refl _, fun j _ => Away.refl j _⟩

/-! ## Steps of a task -/

section Task

variable {t : Nat}

theorem fine_insert (hb : Inv output b) {id : Int} (hid : b.New t id) (state : Option TaskState)
    (pid : Int) (i : Thread) : Fine output i b (b.insert ⟨id, t, state, pid, ""⟩) := by
  have howned : ∀ t' id', b.Owned t' id' → (b.insert ⟨id, t, state, pid, ""⟩).Owned t' id' := by
    rintro t' id' ⟨r, hr, h⟩
    exact ⟨r, List.mem_append_left _ hr, h⟩
  have hlater : Later b (b.insert ⟨id, t, state, pid, ""⟩) :=
    ⟨howned, fun _ => le_refl _, fun _ _ _ h => h, List.Subset.refl _⟩
  refine ⟨⟨fun r hr => ?_, ?_, fun r hr => ?_, fun t' => (hb.logID t').imp_right (howned t' _),
    hb.homes, hb.begun, hb.apart, hb.build, fun x hx => (hb.placed x hx).later hlater, hb.sorted,
    hb.read, hb.tried, hb.done⟩, hlater, fun j _ => ?_⟩
  · rcases List.mem_append.mp hr with hr | hr
    · exact hb.text r hr
    · -- no update was for the new row, as updates are for rows that were there
      obtain rfl := List.mem_singleton.mp hr
      have hnone : (b.tried.filter fun x => x.stored ∧ x.row = id) = [] := by
        rw [List.filter_eq_nil_iff]
        intro x hx hrow
        obtain ⟨r, hr, hrid, -⟩ := (hb.placed x hx).owned
        simp only [decide_eq_true_eq] at hrow
        exact hid.new r hr (hrid.trans hrow.2)
      exact (congrArg textOf hnone).symm
  · refine List.pairwise_append.mpr ⟨hb.order, List.pairwise_singleton _ _, fun r hr r' hr' => ?_⟩
    obtain rfl := List.mem_singleton.mp hr'
    exact ⟨hid.new r hr, hid.above r hr⟩
  · rcases List.mem_append.mp hr with hr | hr
    · exact hb.pos r hr
    · obtain rfl := List.mem_singleton.mp hr
      exact hid.pos
  · cases j with
    | main t' => exact ⟨rfl, rfl, fun _ h _ => h⟩
    | stream s => exact ⟨fun h => h, rfl, rfl⟩

theorem fine_setLogID (hb : Inv output b) {id : Int} (howned : b.Owned t id) (hlt : b.logID t < id)
    (hbuild : ∀ s ∈ b.live, s.task = t → s.cmd ≠ 0) :
    Fine output (.main t) b (b.setLogID t id) := by
  have hle : ∀ t', b.logID t' ≤ (b.setLogID t id).logID t' := by
    intro t'
    by_cases ht : t' = t
    · subst ht
      simpa only [Book.setLogID, Function.update_self] using hlt.le
    · simp only [Book.setLogID, Function.update_of_ne ht, le_refl]
  have hlater : Later b (b.setLogID t id) :=
    ⟨fun _ _ h => h, hle, fun _ _ _ h => h, List.Subset.refl _⟩
  refine ⟨⟨hb.text, hb.order, hb.pos, fun t' => ?_, fun t' n h hh => ?_, hb.begun, hb.apart,
    fun s hs h0 => ?_, fun x hx => (hb.placed x hx).later hlater, hb.sorted, hb.read, hb.tried,
    hb.done⟩, hlater, fun j hj => ?_⟩
  · by_cases ht : t' = t
    · subst ht
      simp only [Book.setLogID, Function.update_self]
      exact Or.inr howned
    · simp only [Book.setLogID, Function.update_of_ne ht]
      exact hb.logID t'
  · exact ⟨(hb.homes t' n h hh).1, (hb.homes t' n h hh).2.trans (hle t')⟩
  · have ht : s.task ≠ t := fun ht => hbuild s hs ht h0
    simp only [Book.setLogID, Function.update_of_ne ht]
    exact hb.build s hs h0
  · cases j with
    | main t' =>
      have ht : t' ≠ t := fun ht => hj (congrArg Thread.main ht)
      exact ⟨by simp only [Book.setLogID, Function.update_of_ne ht], rfl, fun _ h _ => h⟩
    | stream s => exact ⟨fun h => h, rfl, rfl⟩

theorem home_logStreams (b : Book) (t n t' n' : Nat) : (b.logStreams t n).home t' n' =
    if t' = t ∧ n' = n then some (b.logID t) else b.home t' n' := by
  unfold Book.logStreams
  by_cases ht : t' = t
  · subst ht
    by_cases hn : n' = n
    · subst hn
      simp
    · simp [hn]
  · simp [ht]

theorem fine_logStreams (hb : Inv output b) {n : Nat} (hnew : b.home t n = none)
    (hpos : 0 < b.logID t) : Fine output (.main t) b (b.logStreams t n) := by
  have hkeep : ∀ t' n' h, b.home t' n' = some h → (b.logStreams t n).home t' n' = some h := by
    intro t' n' h hh
    rw [home_logStreams, if_neg, hh]
    rintro ⟨rfl, rfl⟩
    rw [hnew] at hh
    cases hh
  have hlater : Later b (b.logStreams t n) :=
    ⟨fun _ _ h => h, fun _ => le_refl _, hkeep, List.Subset.refl _⟩
  have hlive : ∀ s ∈ (b.logStreams t n).live, (s.task = t ∧ s.cmd = n) ∨ s ∈ b.live := by
    intro s hs
    rcases List.mem_cons.mp hs with rfl | hs
    · exact Or.inl ⟨rfl, rfl⟩
    · rcases List.mem_cons.mp hs with rfl | hs
      · exact Or.inl ⟨rfl, rfl⟩
      · exact Or.inr hs
  refine ⟨⟨hb.text, hb.order, hb.pos, hb.logID, fun t' n' h hh => ?_, fun s hs => ?_,
    fun s hs hend => ?_, fun s hs h0 => ?_, fun x hx => (hb.placed x hx).later hlater, hb.sorted,
    hb.read, hb.tried, hb.done⟩, hlater, fun j hj => ?_⟩
  · rw [home_logStreams] at hh
    split at hh
    · rename_i he
      obtain ⟨rfl, rfl⟩ := he
      obtain rfl := Option.some.inj hh
      exact ⟨hpos, le_refl _⟩
    · exact hb.homes t' n' h hh
  · rw [home_logStreams]
    split
    · exact nofun
    · rename_i hne
      refine hb.begun s (hs.imp_left fun hs => ?_)
      exact (hlive s hs).resolve_left hne
  · rcases hlive s hs with ⟨ht, hn⟩ | hs
    · exact hb.begun s (Or.inr hend) (ht ▸ hn ▸ hnew)
    · exact hb.apart s hs hend
  · rw [home_logStreams]
    split
    · rename_i he
      exact congrArg _ (congrArg b.logID he.1.symm)
    · rename_i hne
      exact hb.build s ((hlive s hs).resolve_left hne) h0
  · cases j with
    | main t' =>
      have ht : t' ≠ t := fun ht => hj (congrArg Thread.main ht)
      refine ⟨rfl, ?_, fun s hs hst => ?_⟩
      · simp only [Book.logStreams, Function.update_of_ne ht]
      · exact (hlive s hs).resolve_left fun h => ht (hst.symm.trans h.1)
    | stream s => exact ⟨fun h => List.mem_cons_of_mem _ (List.mem_cons_of_mem _ h), rfl, rfl⟩

end Task

/-! ## Steps of a stream -/

section Stream

variable {s : Stream}

/-- A text is read when those before were written. -/
theorem fine_read (hb : Inv output b) (hs : s ∈ b.live) (hgot : b.got s = b.linesOf s)
    {texts : List String} (hlen : texts.length ≤ 1) {closed : Bool}
    (hread : ReadOf (output s) (closed = true) (b.got s ++ texts)) :
    Fine output (.stream s) b (b.read s texts closed) := by
  have hcut : ∀ s', s' ∈ (b.read s texts closed).cut ↔ (closed = true ∧ s' = s) ∨ s' ∈ b.cut := by
    intro s'
    cases closed <;> simp [Book.read]
  have hother : ∀ s', s' ≠ s → (b.read s texts closed).got s' = b.got s' :=
    fun s' hne => Function.update_of_ne hne ..
  have hself : (b.read s texts closed).got s = b.got s ++ texts := Function.update_self ..
  have hlater : Later b (b.read s texts closed) :=
    ⟨fun _ _ h => h, fun _ => le_refl _, fun _ _ _ h => h, fun s' h => (hcut s').mpr (Or.inr h)⟩
  refine ⟨⟨hb.text, hb.order, hb.pos, hb.logID, hb.homes, hb.begun, hb.apart, hb.build,
    fun x hx => (hb.placed x hx).later hlater, hb.sorted, fun s' => ?_, fun s' => ?_,
    fun s' hend => ?_⟩, hlater, fun j hj => ?_⟩
  · by_cases he : s' = s
    · subst he
      rw [hself]
      exact hread.imp_right fun h => ⟨(hcut s').mpr (Or.inl ⟨h.1, rfl⟩), h.2⟩
    · rw [hother s' he]
      exact (hb.read s').imp_right fun h => ⟨hlater.cut h.1, h.2⟩
  · by_cases he : s' = s
    · subst he
      exact ⟨texts, by rw [hself, hgot]; rfl, hlen⟩
    · rw [hother s' he]
      exact hb.tried s'
  · have hne : s' ≠ s := fun he => hb.apart s hs (he ▸ hend)
    rw [hother s' hne]
    exact (hb.done s' hend).imp_right fun h hno => h fun hc => hno (hlater.cut hc)
  · cases j with
    | main t' => exact ⟨rfl, rfl, fun _ h _ => h⟩
    | stream s' => exact ⟨fun h => h, hother s' fun he => hj (congrArg Thread.stream he), rfl⟩

theorem fine_finish (hb : Inv output b) (hs : s ∈ b.live) (hgot : b.got s = b.linesOf s)
    (hwhole : s ∉ b.cut → b.got s = output s) :
    Fine output (.stream s) b (b.finish s) := by
  have hsub : ∀ s' ∈ (b.finish s).live, s' ∈ b.live ∧ s' ≠ s := by
    intro s' hs'
    obtain ⟨hmem, hne⟩ := List.mem_filter.mp hs'
    exact ⟨hmem, by simpa using hne⟩
  have hlater : Later b (b.finish s) :=
    ⟨fun _ _ h => h, fun _ => le_refl _, fun _ _ _ h => h, List.Subset.refl _⟩
  refine ⟨⟨hb.text, hb.order, hb.pos, hb.logID, hb.homes, fun s' hs' => ?_, fun s' hs' hend => ?_,
    fun s' hs' => hb.build s' (hsub s' hs').1, fun x hx => (hb.placed x hx).later hlater, hb.sorted,
    hb.read, hb.tried, fun s' hs' => ?_⟩, hlater, fun j hj => ?_⟩
  · rcases hs' with hs' | hs'
    · exact hb.begun s' (Or.inl (hsub s' hs').1)
    · rcases List.mem_cons.mp hs' with rfl | hs'
      · exact hb.begun s' (Or.inl hs)
      · exact hb.begun s' (Or.inr hs')
  · rcases List.mem_cons.mp hend with rfl | hend
    · exact (hsub s' hs').2 rfl
    · exact hb.apart s' (hsub s' hs').1 hend
  · rcases List.mem_cons.mp hs' with rfl | hs'
    · exact ⟨hgot, hwhole⟩
    · exact hb.done s' hs'
  · cases j with
    | main t' => exact ⟨rfl, rfl, fun s' h _ => (hsub s' h).1⟩
    | stream s' =>
      have hne : s' ≠ s := fun he => hj (congrArg Thread.stream he)
      exact ⟨fun h => List.mem_filter.mpr ⟨h, by simpa using hne⟩, rfl, rfl⟩

theorem triedOf_write (b : Book) (x : Write) (state : Option TaskState) (s : Stream) :
    (b.write x state).triedOf s = if x.stream = s then b.triedOf s ++ [x] else b.triedOf s := by
  unfold Book.triedOf Book.write
  rw [List.filter_append]
  by_cases hs : x.stream = s
  · simp [hs]
  · simp [hs]

/-- The rows after an update: the same, but for the text and the state. -/
theorem logs_write (b : Book) (x : Write) (state : Option TaskState) : ∃ f : Row → Row,
    (b.write x state).logs = b.logs.map f ∧ ∀ r, (f r).id = r.id ∧
      (f r).distributorID = r.distributorID ∧
        (f r).info = if x.stored ∧ x.row = r.id then r.info ++ (x.line ++ "\n") else r.info := by
  unfold Book.write
  by_cases hx : x.stored = true
  · refine ⟨_, by rw [if_pos hx], fun r => ?_⟩
    by_cases hr : r.id = x.row
    · simp [hr, hx]
    · simp [hr, Ne.symm hr]
  · refine ⟨id, by rw [if_neg hx, List.map_id], fun r => ?_⟩
    simp [hx]

theorem fine_write (hb : Inv output b) (hs : s ∈ b.live) {id : Int} (hid : b.Place s id)
    (hlast : ∀ x ∈ b.triedOf s, x.row ≤ id) {line : String}
    (hgot : b.got s = b.linesOf s ++ [line]) (stored : Bool) (state : Option TaskState) :
    Fine output (.stream s) b (b.write ⟨s, id, line, stored⟩ state) := by
  obtain ⟨f, hlogs, hf⟩ := logs_write b ⟨s, id, line, stored⟩ state
  have howned : ∀ t' id', b.Owned t' id' → (b.write ⟨s, id, line, stored⟩ state).Owned t' id' := by
    rintro t' id' ⟨r, hr, hrid, hrt⟩
    rw [Book.Owned, hlogs]
    exact ⟨f r, List.mem_map_of_mem hr, (hf r).1.trans hrid, (hf r).2.1.trans hrt⟩
  have hlater : Later b (b.write ⟨s, id, line, stored⟩ state) :=
    ⟨howned, fun _ => le_refl _, fun _ _ _ h => h, List.Subset.refl _⟩
  refine ⟨⟨fun r hr => ?_, ?_, fun r hr => ?_, fun t' => (hb.logID t').imp_right (howned t' _),
    hb.homes, hb.begun, hb.apart, hb.build, fun x hx => ?_, fun s' => ?_, hb.read, fun s' => ?_,
    fun s' hs' => ?_⟩, hlater, fun j hj => ?_⟩
  · rw [hlogs] at hr
    obtain ⟨r, hmem, rfl⟩ := List.mem_map.mp hr
    obtain ⟨hfid, -, hinfo⟩ := hf r
    rw [hinfo, hfid, hb.text r hmem, Book.write, List.filter_append, textOf_append]
    by_cases hx : stored = true ∧ id = r.id
    · rw [if_pos hx, List.filter_singleton]
      simp [hx, textOf]
    · rw [if_neg hx, List.filter_singleton]
      simp [hx, textOf]
  · rw [hlogs, List.pairwise_map]
    refine hb.order.imp fun {r r'} h => ?_
    rw [(hf r).2.1, (hf r').2.1, (hf r).1, (hf r').1]
    exact h
  · rw [hlogs] at hr
    obtain ⟨r, hmem, rfl⟩ := List.mem_map.mp hr
    rw [(hf r).1]
    exact hb.pos r hmem
  · rcases List.mem_append.mp hx with hx | hx
    · exact (hb.placed x hx).later hlater
    · obtain rfl := List.mem_singleton.mp hx
      exact hid.later hlater
  · rw [triedOf_write]
    split
    · rename_i he
      subst he
      refine List.pairwise_append.mpr ⟨hb.sorted _, List.pairwise_singleton _ _, fun x hx y hy => ?_⟩
      obtain rfl := List.mem_singleton.mp hy
      exact hlast x hx
    · exact hb.sorted s'
  · rw [Book.linesOf, triedOf_write]
    split
    · rename_i he
      subst he
      exact ⟨[], by rw [List.map_append, List.append_nil]; exact hgot, Nat.zero_le _⟩
    · exact hb.tried s'
  · have hne : s ≠ s' := fun he => hb.apart s hs (he ▸ hs')
    rw [Book.linesOf, triedOf_write, if_neg hne]
    exact hb.done s' hs'
  · cases j with
    | main t' => exact ⟨rfl, rfl, fun _ h _ => h⟩
    | stream s' =>
      have hne : s ≠ s' := fun he => hj (congrArg Thread.stream he.symm)
      exact ⟨fun h => h, rfl, by rw [triedOf_write, if_neg hne]⟩

end Stream

/-! ## The programs one by one -/

variable (output) in
/-- The logs are kept by all threads. -/
def pact : Pact Thread rules where
  inv w := Inv output w.book
  le w w' := Later w.book w'.book
  away i w w' := Away i w.book w'.book
  refl _ := Later.refl _
  trans := Later.trans
  away_refl i _ := Away.refl i _
  away_trans := Away.trans
  drift := fun _ h => h.elim

/-- The others do not take it away. -/
def Stable (i : Thread) (Q : Book → Prop) : Prop :=
  ∀ b b', Q b → Later b b' → Away i b b' → Q b'

section Calls

variable {α : Type} {post : α → World → Prop} {i : Thread} {Q : Book → Prop} {w : World}

theorem upholds_ask {c : Call} {k : Ans c → P α} (hQ : Stable i Q) (hw : Q w.book)
    (hserve : ∀ w₁ a w₂, Q w₁.book → Inv output w₁.book → serve c w₁ a w₂ →
      Fine output i w₁.book w₂.book ∧ Upholds (pact output) i post (k a) w₂) :
    Upholds (pact output) i post (.ask c k) w := by
  intro w₁ hle haway hinv a w₂ hs
  obtain ⟨hfine, hk⟩ := hserve w₁ a w₂ (hQ _ _ hw hle haway) hinv hs
  exact ⟨hfine.inv, hfine.later, hfine.away, hk⟩

/-- The calls that leave the logs and the streams alone. -/
def Call.silent : Call → Bool
  | .chdir _ _ | .chdirBack _ _ | .start _ _ _ | .upload _ _ _ => true
  | c => c.calm

theorem book_of_silent {c : Call} (hc : c.silent = true) {w w' : World} {a : Ans c}
    (h : serve c w a w') : w'.book = w.book := by
  cases c with
  | chdir t dir => rcases h with ⟨-, -, rfl⟩ | ⟨-, rfl⟩ <;> rfl
  | chdirBack t dir => rcases h with ⟨-, -, rfl⟩ | ⟨-, rfl⟩ <;> rfl
  | start t n cmd => cases a <;> exact h ▸ rfl
  | upload t server file => exact h ▸ rfl
  | _ => exact (calm_of_serve (by exact hc) h).book

theorem upholds_silent {c : Call} {k : Ans c → P α} (hc : c.silent = true) (hQ : Stable i Q)
    (hw : Q w.book) (hk : ∀ a w₂, Q w₂.book → Upholds (pact output) i post (k a) w₂) :
    Upholds (pact output) i post (.ask c k) w :=
  upholds_ask hQ hw fun w₁ a w₂ hQ₁ hinv hs =>
    have hbook : w₂.book = w₁.book := book_of_silent hc hs
    ⟨Fine.of_eq hinv hbook i, hk a w₂ (hbook ▸ hQ₁)⟩

end Calls

section Main

variable {α : Type} {t n : Nat} {w : World}

/-- No command from `n` on was started. -/
def Free (t n : Nat) (b : Book) : Prop := ∀ m, n ≤ m → b.home t m = none

/-- No stream of the build is left. -/
def Built (t : Nat) (b : Book) : Prop := ∀ s ∈ b.live, s.task = t → s.cmd ≠ 0

theorem stable_free : Stable (.main t) (Free t n) :=
  fun _ _ h _ haway m hm => (congrFun haway.2.1 m).trans (h m hm)

theorem stable_built : Stable (.main t) (Built t) :=
  fun _ _ h _ haway s hs ht => h s (haway.2.2 s hs ht) ht

/-- The task may start command `n`. -/
structure Ready (t n : Nat) (b : Book) : Prop where
  free : Free t n b
  built : Built t b

theorem stable_ready : Stable (.main t) (Ready t n) :=
  fun b b' h hl ha => ⟨stable_free b b' h.free hl ha, stable_built b b' h.built hl ha⟩

theorem Ready.succ {b : Book} (h : Ready t n b) : Ready t (n + 1) b :=
  ⟨fun m hm => h.free m (by omega), h.built⟩

/-- What a task knows of the logs. -/
def AtStage (t : Nat) : Stage → Book → Prop
  | .out n | .inn n => Ready t n
  | .ran n => fun b => Free t (n + 1) b ∧ (n ≠ 0 → Built t b)
  | .gone => fun _ => True

theorem stable_stage (st : Stage) : Stable (.main t) (AtStage t st) := by
  cases st with
  | out n => exact stable_ready
  | inn n => exact stable_ready
  | ran n =>
    exact fun b b' h hl ha =>
      ⟨stable_free b b' h.1 hl ha, fun hn => stable_built b b' (h.2 hn) hl ha⟩
  | gone => exact fun _ _ _ _ _ => trivial

/-- The row of a command is a new one of the task, and `logID` goes up to it. -/
theorem upholds_writeLogs (pid : Int) (hready : Ready t n w.book) :
    Upholds (pact output) (.main t) (fun _ w => AtStage t (.ran n) w.book) (writeLogs t n pid)
      w := by
  refine upholds_silent rfl stable_ready hready fun s w₁ h₁ =>
    upholds_ask stable_ready h₁ fun w₂ r w₃ h₂ hinv₂ hs => ?_
  rcases hs with ⟨id, hid, hr, rfl⟩ | ⟨rfl, rfl⟩
  swap
  · exact ⟨Fine.of_eq hinv₂ rfl _, h₂.succ.free, fun _ => h₂.built⟩
  refine ⟨fine_insert hinv₂ hid s pid _, ?_⟩
  rcases hr with rfl | rfl
  swap
  · exact ⟨h₂.succ.free, fun _ => h₂.built⟩
  -- the new row is above the one of the last command
  have hlt : w₂.book.logID t < id := by
    rcases hinv₂.logID t with h0 | ⟨r, hr, hrid, hrt⟩
    · exact h0 ▸ hid.pos
    · exact hrid ▸ hid.above r hr hrt
  let Q : Book → Prop := fun b => Ready t n b ∧ b.Owned t id ∧ b.logID t < id
  have hQ : Stable (.main t) Q := fun b b' h hl ha =>
    ⟨stable_ready b b' h.1 hl ha, hl.owned t id h.2.1, ha.1 ▸ h.2.2⟩
  refine upholds_ask hQ ⟨⟨h₂.free, h₂.built⟩,
    ⟨_, List.mem_append_right _ List.mem_cons_self, rfl, rfl⟩, hlt⟩ fun w₄ _ w₅ h₄ hinv₄ hs => ?_
  obtain rfl := hs
  refine ⟨fine_setLogID hinv₄ h₄.2.1 h₄.2.2 h₄.1.built, ?_⟩
  let Q' : Book → Prop := fun b => Ready t n b ∧ 0 < b.logID t
  have hQ' : Stable (.main t) Q' := fun b b' h hl ha =>
    ⟨stable_ready b b' h.1 hl ha, lt_of_lt_of_le h.2 (hl.logID t)⟩
  have hpos : 0 < (w₄.book.setLogID t id).logID t := by
    simp only [Book.setLogID, Function.update_self]
    obtain ⟨r, hr, hrid, -⟩ := h₄.2.1
    exact hrid ▸ hinv₄.pos r hr
  refine upholds_ask hQ' ⟨⟨h₄.1.free, h₄.1.built⟩, hpos⟩ fun w₆ _ w₇ h₆ hinv₆ hs => ?_
  obtain rfl := hs
  refine ⟨fine_logStreams hinv₆ (h₆.1.free n le_rfl) h₆.2, fun m hm => ?_, fun hn s hs ht h0 => ?_⟩
  · simp only
    rw [home_logStreams, if_neg (by omega)]
    exact h₆.1.free m (by omega)
  · rcases List.mem_cons.mp hs with rfl | hs
    · exact hn h0
    · rcases List.mem_cons.mp hs with rfl | hs
      · exact hn h0
      · exact h₆.1.built s hs ht h0

/-- The stages of a task, as far as the logs go. After the build no stream of it is left. -/
theorem steps (tk : Task) : Steps (pact output) t tk fun st w => AtStage t st w.book := by
  have hsilent : ∀ st {c : Call}, c.silent = true → (pact output).Triple (.main t)
      (fun w => AtStage t st w.book) (Prog.call c) fun _ w => AtStage t st w.book :=
    fun st _ hc _ hw => upholds_silent hc (stable_stage st) hw fun _ _ h => h
  refine
    { calm := fun st c hc => hsilent st ?_
      start := fun n _ _ => hsilent (.inn n) rfl
      upload := fun n _ _ => hsilent (.inn n) rfl
      enter := fun n w hw => (hsilent (.out n) rfl w hw).imp fun err _ h => by cases err <;> exact h
      back := fun n _ => hsilent (.inn n) rfl
      quit := fun n _ w hw => (hsilent (.ran n) rfl w hw).imp fun _ _ _ => trivial
      log := fun n pid w hw => upholds_writeLogs pid hw
      wait := fun w hw => upholds_ask (stable_stage (.ran 0)) hw fun w₁ _ w₂ h₁ hinv hs => ?_
      skip := fun n w hw => ⟨hw.succ.free, fun _ => hw.built⟩
      next := fun n w hw => ⟨hw.1, hw.2 n.succ_ne_zero⟩ }
  · cases c with
    | chdir | chdirBack | start | upload => cases hc
    | _ => exact hc
  · obtain ⟨hnone, rfl⟩ := hs
    exact ⟨Fine.of_eq hinv rfl _, h₁.1, fun s hs ht => absurd ht (hnone s hs)⟩

end Main

section LogStream

variable {s : Stream} {w : World}

/-- The stream runs, and these lines of it were read and written. -/
structure Runs (s : Stream) (got lines : List String) (b : Book) : Prop where
  live : s ∈ b.live
  got : b.got s = got
  lines : b.linesOf s = lines

theorem stable_runs {got lines : List String} : Stable (.stream s) (Runs s got lines) :=
  fun _ _ h _ ha => ⟨ha.1 h.live, ha.2.1.trans h.got,
    (congrArg (List.map Write.line) ha.2.2).trans h.lines⟩

theorem upholds_done {l : List String} (hw : Runs s l l w.book)
    (hend : s ∈ w.book.cut ∨ l = output s) : Upholds (pact output) (.stream s) (fun _ _ => True)
      (.ask (.done s) fun _ => .done ()) w := by
  have hstable : Stable (.stream s) fun b => Runs s l l b ∧ (s ∈ b.cut ∨ l = output s) :=
    fun b b' h hl ha => ⟨stable_runs b b' h.1 hl ha, h.2.imp_left (hl.cut ·)⟩
  refine upholds_ask hstable ⟨hw, hend⟩ fun w₁ _ w₂ h₁ hinv hs => ?_
  obtain rfl := hs
  exact ⟨fine_finish hinv h₁.1.live (h₁.1.got.trans h₁.1.lines.symm)
    fun hno => h₁.1.got.trans (h₁.2.resolve_left hno), trivial⟩

/-- The row a running stream finds in `logID` is one for its lines. -/
theorem place_logID (hb : Inv output b) (hs : s ∈ b.live) : b.Place s (b.logID s.task) := by
  obtain ⟨h, hh⟩ := Option.ne_none_iff_exists'.mp (hb.begun s (Or.inl hs))
  obtain ⟨hpos, hle⟩ := hb.homes _ _ _ hh
  refine ⟨(hb.logID s.task).resolve_left (by omega), le_rfl, h, hh, hle, fun h0 => ?_⟩
  exact Option.some.inj ((hb.build s hs h0).symm.trans hh)

theorem upholds_writeLine {l : List String} {text : String} (hw : Runs s (l ++ [text]) l w.book) :
    Upholds (pact output) (.stream s) (fun _ w => Runs s (l ++ [text]) (l ++ [text]) w.book)
      (writeLine s text) w := by
  refine upholds_silent rfl stable_runs hw fun state w₁ h₁ => ?_
  refine upholds_ask stable_runs h₁ fun w₂ id w₃ h₂ hinv₂ hs => ?_
  obtain ⟨rfl, rfl⟩ := hs
  refine ⟨Fine.of_eq hinv₂ rfl _, ?_⟩
  -- the row is right when it is read, and stays so until it is used
  let Q : Book → Prop := fun b => Runs s (l ++ [text]) l b ∧
    b.Place s (w₃.book.logID s.task) ∧ ∀ x ∈ b.triedOf s, x.row ≤ w₃.book.logID s.task
  have hQ : Stable (.stream s) Q := fun b b' h hl ha =>
    ⟨stable_runs b b' h.1 hl ha, h.2.1.later hl, ha.2.2 ▸ h.2.2⟩
  have hlast : ∀ x ∈ w₃.book.triedOf s, x.row ≤ w₃.book.logID s.task := fun x hx => by
    obtain ⟨hx, he⟩ := List.mem_filter.mp hx
    have he : x.stream = s := by simpa using he
    exact he ▸ (hinv₂.placed x hx).current
  refine upholds_ask hQ ⟨h₂, place_logID hinv₂ h₂.live, hlast⟩ fun w₄ _ w₅ h₄ hinv₄ hs => ?_
  obtain ⟨stored, rfl⟩ := hs
  obtain ⟨⟨hlive, hgot, hlines⟩, hplace, hle⟩ := h₄
  refine ⟨fine_write hinv₄ hlive hplace hle (hlines ▸ hgot) stored state, hlive, hgot, ?_⟩
  rw [Book.linesOf, triedOf_write, if_pos rfl, List.map_append, ← hlines]
  rfl

theorem upholds_logLines (lines : List String) : ∀ (l : List String) (w : World),
    l ++ lines = output s → Runs s l l w.book →
      Upholds (pact output) (.stream s) (fun _ _ => True) (logLines s lines) w := by
  induction lines with
  | nil =>
    intro l w hl hw
    rw [List.append_nil] at hl
    exact upholds_done hw (Or.inr hl)
  | cons line lines ih =>
    intro l w hl hw
    refine upholds_ask stable_runs hw fun w₁ r w₂ h₁ hinv hs => ?_
    have hgot : w₁.book.got s = w₁.book.linesOf s := h₁.got.trans h₁.lines.symm
    have hruns : ∀ texts closed, Runs s (l ++ texts) l (w₁.book.read s texts closed) :=
      fun texts closed => ⟨h₁.live, (Function.update_self ..).trans (h₁.got ▸ rfl), h₁.lines⟩
    cases r with
    | line =>
      obtain rfl := hs
      have hall : (l ++ [line]) ++ lines = output s := (List.append_assoc ..).trans hl
      refine ⟨fine_read hinv h₁.live hgot le_rfl (Or.inl (h₁.got ▸ ⟨lines, hall⟩)), ?_⟩
      exact (upholds_writeLine (hruns _ _)).bind fun _ w' _ hw' => ih (l ++ [line]) w' hall hw'
    | part p =>
      obtain ⟨-, hp, rfl⟩ := hs
      refine ⟨fine_read hinv h₁.live hgot le_rfl
        (Or.inr ⟨rfl, l, line, lines, p, hl.symm, h₁.got ▸ rfl, hp⟩), ?_⟩
      exact (upholds_writeLine (hruns _ _)).bind fun _ w' hle hw' =>
        upholds_done hw' (Or.inl (hle.cut List.mem_cons_self))
    | fin =>
      obtain rfl := hs
      have hbegin : l ++ [] <+: output s := ⟨line :: lines, by rw [List.append_nil, hl]⟩
      have hw₂ := hruns [] true
      rw [List.append_nil] at hw₂
      exact ⟨fine_read hinv h₁.live hgot (Nat.zero_le _) (Or.inl (h₁.got ▸ hbegin)),
        upholds_done hw₂ (Or.inl List.mem_cons_self)⟩

theorem upholds_logStream (hw : w.book.got s = [] ∧ w.book.linesOf s = []) :
    Upholds (pact output) (.stream s) (fun _ _ => True) (logStream s (output s)) w := by
  have hstable : Stable (.stream s) fun b => b.got s = [] ∧ b.linesOf s = [] :=
    fun _ _ h _ ha => ⟨ha.2.1.trans h.1, (congrArg (List.map Write.line) ha.2.2).trans h.2⟩
  refine upholds_ask hstable hw fun w₁ _ w₂ h₁ hinv hs => ?_
  obtain ⟨hlive, rfl⟩ := hs
  exact ⟨Fine.of_eq hinv rfl _, upholds_logLines (output s) [] w₂ rfl ⟨hlive, h₁.1, h₁.2⟩⟩

end LogStream

/-! ## The whole system -/

theorem inv_start (cwd : String) : Inv output (start cwd).book where
  text _ hr := absurd hr List.not_mem_nil
  order := List.Pairwise.nil
  pos _ hr := absurd hr List.not_mem_nil
  logID _ := Or.inl rfl
  homes _ _ _ hh := nomatch hh
  begun _ hs := hs.elim (fun h => absurd h List.not_mem_nil) fun h => absurd h List.not_mem_nil
  apart _ hs := absurd hs List.not_mem_nil
  build _ hs := absurd hs List.not_mem_nil
  placed _ hx := absurd hx List.not_mem_nil
  sorted _ := List.Pairwise.nil
  read _ := Or.inl List.nil_prefix
  tried _ := ⟨[], rfl, Nat.zero_le _⟩
  done _ hs := absurd hs List.not_mem_nil

/-- In every run the logs are kept. -/
theorem inv_run {tasks : Nat → Task} {cwd : String} {tr : List (Thread × Answered Ans)}
    {c : Crew Thread Ans Unit World} (h : Crew.Run rules (deploys tasks output cwd) tr c) :
    Inv output c.world.book := by
  have hstart : (pact output).inv (deploys tasks output cwd).world := inv_start cwd
  have hone : ∀ i, Upholds (pact output) i (fun _ _ => True) ((deploys tasks output cwd).prog i)
      (deploys tasks output cwd).world := by
    intro i
    cases i with
    | main t =>
      exact (steps (tasks t)).run _ ⟨fun _ _ => rfl, fun _ hs => absurd hs List.not_mem_nil⟩
    | stream s => exact upholds_logStream ⟨rfl, rfl⟩
  exact (h.upholds (fun _ _ _ _ _ _ _ => trivial) hstart hone).1

/-! ## What the rows tell -/

/-- The rows of a task, as they were added. -/
def Book.rowsOf (b : Book) (t : Nat) : List Row := b.logs.filter fun r => r.distributorID = t

/-- The lines of a stream among some updates. -/
def linesIn (s : Stream) (l : List Write) : List String :=
  (l.filter fun x => x.stream = s).map Write.line

/-- What the lines told of a stream are: those whose update was carried out. An update was made
    for each line that was read, but perhaps for the last one while the stream runs. What was read
    is the output up to some point, and all of it for a stream that ended by itself. -/
structure Told (output : List String) (b : Book) (s : Stream) (lines : List String) : Prop where
  stored : lines = ((b.triedOf s).filter fun x => x.stored).map Write.line
  tried : ∃ rest, b.got s = b.linesOf s ++ rest ∧ rest.length ≤ 1 ∧ (s ∈ b.ended → rest = [])
  read : ReadOf output (s ∈ b.cut) (b.got s)
  whole : s ∈ b.ended → s ∉ b.cut → b.got s = output

/-- The rows of a task are these pages. Their ids grow, each text is made of its page, a line is in
    a row of its own task, in that of its command or a later one, and for the build in no other;
    and page after page they tell of each stream. -/
structure Tells (output : Stream → List String) (b : Book) (t : Nat) (pages : List (List Write)) :
    Prop where
  ids : (b.rowsOf t).Pairwise fun r r' => r.id < r'.id
  rows : List.Forall₂ (fun r page => r.info = textOf page ∧ ∀ x ∈ page, x.row = r.id)
    (b.rowsOf t) pages
  places : ∀ x ∈ pages.flatten, x.stream.task = t ∧ b.Place x.stream x.row
  streams : ∀ s, s.task = t → Told (output s) b s (linesIn s pages.flatten)

/-- The updates of a row that were carried out. -/
def Book.page (b : Book) (id : Int) : List Write :=
  b.tried.filter fun x => x.stored ∧ x.row = id

section Pages

variable (hb : Inv output b) {t : Nat}

include hb

theorem pairwise_rowsOf (t : Nat) : (b.rowsOf t).Pairwise fun r r' => r.id < r'.id := by
  refine (hb.order.sublist List.filter_sublist).imp_of_mem fun {r r'} hr hr' h => h.2 ?_
  have h₁ : r.distributorID = t := by simpa using (List.mem_filter.mp hr).2
  have h₂ : r'.distributorID = t := by simpa using (List.mem_filter.mp hr').2
  exact h₁.trans h₂.symm

/-- An id belongs to one row. -/
theorem row_unique {r r' : Row} (hr : r ∈ b.logs) (hr' : r' ∈ b.logs) (hid : r.id = r'.id) :
    r = r' := by
  have hnodup : (b.logs.map Row.id).Nodup := List.pairwise_map.mpr (hb.order.imp And.left)
  exact List.inj_on_of_nodup_map hnodup hr hr' hid

/-- Row by row, the updates of a stream come in the order in which they were made. -/
theorem filter_flatMap_page {s : Stream} (hs : s.task = t) :
    ((b.rowsOf t).flatMap fun r => b.page r.id).filter (fun x => x.stream = s) =
      (b.triedOf s).filter fun x => x.stored := by
  have hsorted := (hb.sorted s).sublist (List.filter_sublist (p := fun x => x.stored))
  have hids : ((b.rowsOf t).map Row.id).Pairwise (· < ·) :=
    List.pairwise_map.mpr (pairwise_rowsOf hb t)
  have hmem : ∀ x ∈ (b.triedOf s).filter fun x => x.stored, x.row ∈ (b.rowsOf t).map Row.id := by
    intro x hx
    obtain ⟨hx, -⟩ := List.mem_filter.mp hx
    obtain ⟨hx, he⟩ := List.mem_filter.mp hx
    have he : x.stream = s := by simpa using he
    obtain ⟨r, hr, hid, ht⟩ := (hb.placed x hx).owned
    rw [he, hs] at ht
    exact List.mem_map.mpr ⟨r, List.mem_filter.mpr ⟨hr, by simpa using ht⟩, hid⟩
  have hread := flatMap_filter_of_pairwise Write.row hids hsorted hmem
  rw [List.flatMap_map] at hread
  rw [← hread, List.filter_flatMap]
  refine List.flatMap_congr fun r _ => ?_
  simp only [Book.page, Book.triedOf, List.filter_filter]
  refine List.filter_congr fun x _ => ?_
  by_cases h₁ : x.stream = s <;> by_cases h₂ : x.stored = true <;>
    by_cases h₃ : x.row = r.id <;> simp [h₁, h₂, h₃]

theorem tells (t : Nat) : Tells output b t ((b.rowsOf t).map fun r => b.page r.id) where
  ids := pairwise_rowsOf hb t
  rows := by
    rw [List.forall₂_map_right_iff, List.forall₂_same]
    refine fun r hr => ⟨hb.text r (List.mem_filter.mp hr).1, fun x hx => ?_⟩
    have hrow := (List.mem_filter.mp hx).2
    simp only [decide_eq_true_eq] at hrow
    exact hrow.2
  places := by
    intro x hx
    rw [← List.flatMap_def] at hx
    obtain ⟨r, hr, hx⟩ := List.mem_flatMap.mp hx
    obtain ⟨hr, ht⟩ := List.mem_filter.mp hr
    obtain ⟨hx, hrow⟩ := List.mem_filter.mp hx
    simp only [decide_eq_true_eq] at ht hrow
    -- the row of the update is this one, and belongs to the task of the stream
    obtain ⟨r', hr', hid, ht'⟩ := (hb.placed x hx).owned
    rw [row_unique hb hr' hr (hid.trans hrow.2)] at ht'
    exact ⟨ht'.symm.trans ht, hb.placed x hx⟩
  streams := by
    intro s hs
    obtain ⟨rest, hgot, hlen⟩ := hb.tried s
    refine ⟨?_, ⟨rest, hgot, hlen, fun hend => ?_⟩, hb.read s, fun hend => (hb.done s hend).2⟩
    · rw [linesIn, ← List.flatMap_def, filter_flatMap_page hb hs]
    · exact List.append_right_eq_self.mp (hgot.symm.trans (hb.done s hend).1)

end Pages

/-- In every run the rows of every task tell what was read of its streams. -/
def TellsAll (tasks : Nat → Task) (output : Stream → List String) (cwd : String) : Prop :=
  ∀ tr c, Crew.Run rules (deploys tasks output cwd) tr c → ∀ t, ∃ pages,
    Tells output c.world.book t pages

/-- Whatever the tasks, their output, and the order in which they and their streams run, the log
    of a task holds the lines that were read of each of its streams, in their order, none of them
    twice and none of another task, but for those whose update failed or is still to come. -/
theorem logs_tell (tasks : Nat → Task) (output : Stream → List String) (cwd : String) :
    TellsAll tasks output cwd :=
  fun _ _ h t => ⟨_, tells (inv_run h) t⟩

end Doodle.Distributor.Deploy
