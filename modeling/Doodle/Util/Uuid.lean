/-
  `util/uuid/uuid.go`: the ids of requests and tasks, made by any number of calls of `String` at the
  same time.

  The eight bytes of an id are made in one buffer of the process. `init` writes two bytes of an
  address and the process id into its first half. A call counts up atomically, writes the count into
  the second half and reads the whole buffer, byte by byte and without a lock. The calls here are
  single reads and writes of a byte, in the order of the source; a machine that reads or writes
  several at once makes fewer runs.

  * `ids_unique`: in every run an id begins with the mark of its process, so processes with different
    marks never share one. Calls that nobody disturbs from their first write to their last read get
    different ids, as long as there are at most `2 ^ 32` of them. Of two calls at the same time that
    is not so: any two may get the same id.
-/
import Doodle.Go.Scan
import Doodle.Lib.Threads
import Mathlib.Data.List.Nodup

namespace Doodle.Util.Uuid

open Doodle.Go Doodle.Lib

/-! ## The process -/

/-- An address of `net.InterfaceAddrs`: whether it is a `*net.IPNet`, and its `IP.To4()`. -/
structure Addr where
  ipNet : Bool
  loopback : Bool
  ip4 : Option (UInt8 × UInt8 × UInt8 × UInt8)

structure Proc where
  addrs : List Addr
  pid : Nat

/-- The bytes 2 and 3 of the first address that is no loopback and has four bytes. -/
def Proc.octets (p : Proc) : Nat × Nat :=
  match p.addrs.findSome? fun a => if a.ipNet ∧ ¬ a.loopback then a.ip4 else none with
  | some (_, _, c, d) => (c.toNat, d.toNat)
  | none => (0, 0)

structure World where
  inc : Nat
  buf : Nat → Nat

/-- `init`: the process id is written with its lower byte first. -/
def init (p : Proc) : World where
  inc := 0
  buf
    | 0 => p.octets.1
    | 1 => p.octets.2
    | 2 => p.pid % 256
    | 3 => p.pid / 256 % 256
    | _ => 0

/-- The first half of the buffer, as a number. -/
def Proc.mark (p : Proc) : Nat :=
  p.octets.1 * 2 ^ 24 + p.octets.2 * 2 ^ 16 + p.pid % 256 * 2 ^ 8 + p.pid / 256 % 256

/-! ## The program -/

inductive Call where
  | addUint32
  | put (j b : Nat)
  | get (j : Nat)

abbrev Ans : Call → Type
  | .put _ _ => Unit
  | _ => Nat

def serve : (c : Call) → World → Ans c → World → Prop
  | .addUint32, w, a, w' => a = (w.inc + 1) % 2 ^ 32 ∧ w' = { w with inc := a }
  | .put j b, w, _, w' => w' = { w with buf := Function.update w.buf j b }
  | .get j, w, a, w' => a = w.buf j ∧ w' = w

def rules : Rules Ans World := ⟨serve, fun _ _ => False⟩

abbrev P (α : Type) := Prog Ans α

/-- `binary.BigEndian.PutUint32(buf[4:], v)` -/
def putUint32 (v : Nat) : P Unit :=
  .ask (.put 4 (v / 2 ^ 24 % 256)) fun _ => .ask (.put 5 (v / 2 ^ 16 % 256)) fun _ =>
    .ask (.put 6 (v / 2 ^ 8 % 256)) fun _ => .ask (.put 7 (v % 256)) .done

/-- `binary.BigEndian.Uint64(buf)` -/
def uint64 : P Nat :=
  .ask (.get 7) fun b₇ => .ask (.get 6) fun b₆ => .ask (.get 5) fun b₅ => .ask (.get 4) fun b₄ =>
    .ask (.get 3) fun b₃ => .ask (.get 2) fun b₂ => .ask (.get 1) fun b₁ => .ask (.get 0) fun b₀ =>
      .done (b₇ + b₆ * 2 ^ 8 + b₅ * 2 ^ 16 + b₄ * 2 ^ 24 + b₃ * 2 ^ 32 + b₂ * 2 ^ 40 +
        b₁ * 2 ^ 48 + b₀ * 2 ^ 56)

/-- `fmt.Sprintf("%x", n)` -/
def text (n : Nat) : String := String.ofList (hexText n)

/-- `String`, once it has counted. -/
def stringOf (v : Nat) : P String := putUint32 v >>= fun _ => uint64 >>= fun n => .done (text n)

def string : P String := .ask .addUint32 stringOf

theorem text_injective {m n : Nat} (h : text m = text n) : m = n := by
  have hdigits : ∀ n : Nat, hexText n = Nat.toDigits 16 n := fun n => by
    rw [hexText, if_neg (by omega), Int.toNat_natCast]
  have hlist := String.ofList_injective h
  rw [hdigits, hdigits] at hlist
  exact (toDigits_spec m).2.symm.trans ((congrArg hexValue hlist).trans (toDigits_spec n).2)

/-! ## What is in the buffer -/

/-- The first half is that of the process, and bytes are bytes. -/
structure Inv (p : Proc) (w : World) : Prop where
  high : ∀ j < 4, w.buf j = (init p).buf j
  byte : ∀ j, w.buf j < 256

theorem octets_lt (p : Proc) : p.octets.1 < 256 ∧ p.octets.2 < 256 := by
  unfold Proc.octets
  split
  · rename_i c d _
    exact ⟨c.toNat_lt, d.toNat_lt⟩
  · decide

/-- The mark is made of the two bytes of the address and sixteen bits of the process id. -/
theorem mark_eq_iff (p q : Proc) :
    p.mark = q.mark ↔ p.octets = q.octets ∧ p.pid % 2 ^ 16 = q.pid % 2 ^ 16 := by
  have hp := octets_lt p
  have hq := octets_lt q
  have hpid : ∀ n : Nat, n % 2 ^ 16 = n % 256 + 256 * (n / 256 % 256) := fun n => by omega
  have hbyte : ∀ n : Nat, n % 256 < 256 := fun n => Nat.mod_lt _ (by decide)
  unfold Proc.mark
  rw [hpid, hpid]
  generalize p.pid / 256 = a, q.pid / 256 = b
  have := hbyte a
  have := hbyte b
  have := hbyte p.pid
  have := hbyte q.pid
  constructor
  · intro h
    exact ⟨Prod.ext (by omega) (by omega), by omega⟩
  · rintro ⟨ho, hpid⟩
    rw [ho]
    omega

theorem inv_init (p : Proc) : Inv p (init p) := by
  have hoctets := octets_lt p
  refine ⟨fun _ _ => rfl, fun j => ?_⟩
  unfold init
  simp only
  split
  · exact hoctets.1
  · exact hoctets.2
  · exact Nat.mod_lt _ (by decide)
  · exact Nat.mod_lt _ (by decide)
  · decide

/-- Byte `j` of the buffer when the count is `v`. -/
def byteOf (v j : Nat) : Nat := v / 2 ^ (8 * (7 - j)) % 256

/-- The second half holds the count, up to byte `n`. -/
def Low (v n : Nat) (buf : Nat → Nat) : Prop := ∀ j, 4 ≤ j → j < n → buf j = byteOf v j

theorem Inv.put {p : Proc} {w : World} (h : Inv p w) {j : Nat} (hj : 4 ≤ j) (v : Nat) :
    Inv p { w with buf := Function.update w.buf j (byteOf v j) } := by
  refine ⟨fun j' hj' => ?_, fun j' => ?_⟩
  · have hne : j' ≠ j := by omega
    simpa only [Function.update_of_ne hne] using h.high j' hj'
  · by_cases he : j' = j
    · subst he
      simpa only [Function.update_self, byteOf] using Nat.mod_lt _ (by decide)
    · simpa only [Function.update_of_ne he] using h.byte j'

theorem Low.put {v j : Nat} {buf : Nat → Nat} (h : Low v j buf) :
    Low v (j + 1) (Function.update buf j (byteOf v j)) := by
  intro j' h4 hj'
  by_cases he : j' = j
  · rw [he, Function.update_self]
  · rw [Function.update_of_ne he]
    exact h j' h4 (by omega)

section Pact

variable {ι : Type} (p : Proc) (who : Option ι)

/-- All leave the first half alone, and to the one who is not disturbed the whole buffer. -/
def pact : Pact ι rules where
  inv := Inv p
  le _ _ := True
  away i w w' := who = some i → w'.buf = w.buf
  refl _ := trivial
  trans _ _ := trivial
  away_refl _ _ _ := rfl
  away_trans h h' hi := (h' hi).trans (h hi)
  drift := fun _ h => h.elim

variable {p who} {i : ι} {α : Type} {post : α → World → Prop} {v j : Nat} {w : World}

theorem away_of_who (hwho : ∀ k, who = some k → k = i) (w w' : World) :
    ∀ k, k ≠ i → (pact p who).away k w w' := fun k hk h => absurd (hwho k h) hk

theorem upholds_put (hwho : ∀ k, who = some k → k = i) {k : Unit → P α} {b : Nat}
    (hb : b = byteOf v j) (hj : 4 ≤ j) (hlow : who = some i → Low v j w.buf)
    (hk : ∀ w', (who = some i → Low v (j + 1) w'.buf) → Upholds (pact p who) i post (k ()) w') :
    Upholds (pact p who) i post (.ask (.put j b) k) w := by
  subst hb
  intro w₁ _ haway hinv _ w₂ hs
  obtain rfl := hs
  refine ⟨hinv.put hj v, trivial, away_of_who hwho _ _, hk _ fun hi => ?_⟩
  have hbuf : w₁.buf = w.buf := haway hi
  exact Low.put (hbuf ▸ hlow hi)

theorem upholds_get (hwho : ∀ k, who = some k → k = i) {k : Nat → P α}
    (hlow : who = some i → Low v 8 w.buf)
    (hk : ∀ b w', b < 256 → (j < 4 → b = (init p).buf j) →
      (who = some i → 4 ≤ j → j < 8 → b = byteOf v j) → (who = some i → Low v 8 w'.buf) →
        Upholds (pact p who) i post (k b) w') :
    Upholds (pact p who) i post (.ask (.get j) k) w := by
  intro w₁ _ haway hinv _ w₂ hs
  obtain ⟨rfl, rfl⟩ := hs
  have hlow' : who = some i → Low v 8 w₂.buf := fun hi => (haway hi : w₂.buf = w.buf) ▸ hlow hi
  exact ⟨hinv, trivial, away_of_who hwho _ _, hk _ _ (hinv.byte j) (hinv.high j)
    (fun hi h4 h8 => hlow' hi j h4 h8) hlow'⟩

/-- An id begins with the mark of the process, and when nobody disturbs, ends with the count. -/
def Right (p : Proc) (calm : Prop) (v n : Nat) : Prop :=
  n / 2 ^ 32 = p.mark ∧ (calm → n % 2 ^ 32 = v % 2 ^ 32)

theorem upholds_uint64 (hwho : ∀ k, who = some k → k = i) (hlow : who = some i → Low v 8 w.buf) :
    Upholds (pact p who) i (fun n _ => Right p (who = some i) v n) uint64 w := by
  refine upholds_get hwho hlow fun b₇ w₇ h₇ _ l₇ hlow₇ => ?_
  refine upholds_get hwho hlow₇ fun b₆ w₆ h₆ _ l₆ hlow₆ => ?_
  refine upholds_get hwho hlow₆ fun b₅ w₅ h₅ _ l₅ hlow₅ => ?_
  refine upholds_get hwho hlow₅ fun b₄ w₄ h₄ _ l₄ hlow₄ => ?_
  refine upholds_get hwho hlow₄ fun b₃ w₃ h₃ e₃ _ hlow₃ => ?_
  refine upholds_get hwho hlow₃ fun b₂ w₂ h₂ e₂ _ hlow₂ => ?_
  refine upholds_get hwho hlow₂ fun b₁ w₁ h₁ e₁ _ hlow₁ => ?_
  refine upholds_get hwho hlow₁ fun b₀ w₀ h₀ e₀ _ _ => ?_
  have m₀ : b₀ = p.octets.1 := e₀ (by decide)
  have m₁ : b₁ = p.octets.2 := e₁ (by decide)
  have m₂ : b₂ = p.pid % 256 := e₂ (by decide)
  have m₃ : b₃ = p.pid / 256 % 256 := e₃ (by decide)
  refine ⟨?_, fun hi => ?_⟩
  · unfold Proc.mark
    omega
  · have c₇ : b₇ = v / 2 ^ 0 % 256 := l₇ hi (by decide) (by decide)
    have c₆ : b₆ = v / 2 ^ 8 % 256 := l₆ hi (by decide) (by decide)
    have c₅ : b₅ = v / 2 ^ 16 % 256 := l₅ hi (by decide) (by decide)
    have c₄ : b₄ = v / 2 ^ 24 % 256 := l₄ hi (by decide) (by decide)
    omega

/-- What a call returns once it has counted. -/
theorem upholds_stringOf (hwho : ∀ k, who = some k → k = i) (w : World) :
    Upholds (pact p who) i (fun s _ => ∃ n, s = text n ∧ Right p (who = some i) v n)
      (stringOf v) w := by
  have hnone : who = some i → Low v 4 w.buf := fun _ j h4 hj => absurd hj (by omega)
  refine upholds_put hwho (j := 4) rfl (by decide) hnone fun w₁ h₁ => ?_
  refine upholds_put hwho (j := 5) rfl (by decide) h₁ fun w₂ h₂ => ?_
  refine upholds_put hwho (j := 6) rfl (by decide) h₂ fun w₃ h₃ => ?_
  refine upholds_put hwho (j := 7) (by simp [byteOf]) (by decide) h₃ fun w₄ h₄ => ?_
  exact (upholds_uint64 hwho h₄).bind fun n _ _ hn => ⟨n, rfl, hn⟩

theorem upholds_string (hwho : ∀ k, who = some k → k = i) (w : World) :
    Upholds (pact p who) i (fun s _ => ∃ v n, s = text n ∧ Right p (who = some i) v n) string w := by
  intro w₁ _ _ hinv v w₂ hs
  obtain ⟨-, rfl⟩ := hs
  exact ⟨⟨hinv.high, hinv.byte⟩, trivial, away_of_who hwho _ _,
    (upholds_stringOf hwho _).imp fun s _ h => ⟨v, h⟩⟩

end Pact

/-! ## All calls of a process -/

section Runs

variable {ι : Type} [DecidableEq ι]

/-- Any number of calls of `String`. -/
def calls (ι : Type) (p : Proc) : Crew ι Ans String World := ⟨fun _ => string, init p⟩

/-- In a run with these calls, `i` returns this id. -/
def Returns (p : Proc) (tr : List (ι × Answered Ans)) (i : ι) (id : String) : Prop :=
  ∃ c, Crew.Run rules (calls ι p) tr c ∧ c.prog i = .done id

theorem inv_run {p : Proc} {tr : List (ι × Answered Ans)} {c : Crew ι Ans String World}
    (h : Crew.Run rules (calls ι p) tr c) : Inv p c.world ∧ ∀ i, Upholds (pact p none) i
      (fun s _ => ∃ v n, s = text n ∧ Right p (none = some i) v n) (c.prog i) c.world := by
  have hstart : (pact p (none : Option ι)).inv (calls ι p).world := inv_init p
  have hone : ∀ i, Upholds (pact p none) i (fun s _ => ∃ v n, s = text n ∧
      Right p (none = some i) v n) ((calls ι p).prog i) (calls ι p).world := by
    have hnone : ∀ i k : ι, none = some k → k = i := fun _ _ hk => nomatch hk
    exact fun i => upholds_string (hnone i) _
  exact h.upholds (fun _ _ _ _ hs _ _ => hs) hstart hone

/-- Every id begins with the mark of its process. -/
theorem mark_of_returns {p : Proc} {tr : List (ι × Answered Ans)} {i : ι} {id : String}
    (h : Returns p tr i id) : ∃ n, id = text n ∧ n / 2 ^ 32 = p.mark := by
  obtain ⟨c, hrun, hdone⟩ := h
  have hi := (inv_run hrun).2 i
  rw [hdone] at hi
  obtain ⟨_, n, he, hn⟩ := hi
  exact ⟨n, he, hn.1⟩

/-- From its first write to its last read nobody else writes; `v` is what it has counted. -/
structure Undisturbed (tr : List (ι × Answered Ans)) (i : ι) (v : Nat) : Prop where
  parts : ∃ before during after, tr = before ++ during ++ after ∧
    Crew.callsOf i before = [⟨.addUint32, v⟩] ∧ Crew.callsOf i after = [] ∧
      ∀ e ∈ during, e.1 ≠ i → ∀ j b, e.2.1 ≠ .put j b

/-- Whatever is called but a write leaves the buffer. -/
theorem buf_of_serve {c : Call} (hc : ∀ j b, c ≠ .put j b) {w w' : World} {a : Ans c}
    (h : serve c w a w') : w'.buf = w.buf := by
  cases c with
  | addUint32 => rw [h.2]
  | put j b => exact absurd rfl (hc j b)
  | get j => rw [h.2]

theorem Inv.of_buf {p : Proc} {w w' : World} (h : Inv p w) (hbuf : w'.buf = w.buf) : Inv p w' :=
  ⟨hbuf ▸ h.high, hbuf ▸ h.byte⟩

/-- A call that is not disturbed returns the mark and its count. -/
theorem count_of_undisturbed {p : Proc} {tr : List (ι × Answered Ans)} {i : ι} {id : String}
    {v : Nat} (h : Returns p tr i id) (hu : Undisturbed tr i v) :
    ∃ n, id = text n ∧ n % 2 ^ 32 = v % 2 ^ 32 := by
  obtain ⟨c, hrun, hdone⟩ := h
  obtain ⟨before, during, after, rfl, hbefore, hafter, hduring⟩ := hu.parts
  obtain ⟨c₂, h₂, hrest⟩ := hrun.split rfl
  obtain ⟨c₁, h₁, hmid⟩ := h₂.split rfl
  -- when the others stop writing it has counted, and after that it only writes and reads
  have hprog : c₁.prog i = stringOf v := by
    have hpath := h₁.path i
    rw [hbefore] at hpath
    generalize c₁.prog i = q at hpath ⊢
    cases hpath with
    | ask hpath =>
      cases hpath
      rfl
  have hend : c₂.prog i = .done id := by
    have hpath := hrest.path i
    rw [hafter, hdone] at hpath
    generalize c₂.prog i = q at hpath ⊢
    cases hpath
    rfl
  have hwho : ∀ k, some i = some k → k = i := fun k hk => (Option.some.inj hk).symm
  have hstart : Upholds (pact p (some i)) i
      (fun s _ => ∃ n, s = text n ∧ Right p (some i = some i) v n) (c₁.prog i) c₁.world :=
    hprog ▸ upholds_stringOf hwho _
  have hi := (hmid.upholds_of_others (P := pact p (some i)) (fun _ _ _ hs _ _ => hs)
    (fun e he hne w w' hinv hs =>
      have hbuf : w'.buf = w.buf := buf_of_serve (hduring e he hne) hs
      ⟨hinv.of_buf hbuf, trivial, fun _ => hbuf⟩) (inv_run h₁).1 hstart).2
  rw [hend] at hi
  obtain ⟨n, he, hn⟩ := hi
  exact ⟨n, he, hn.2 rfl⟩

/-! ## The counts -/

/-- Who counted, and what. -/
def countOf : ι × Answered Ans → Option (ι × Nat)
  | (i, ⟨.addUint32, v⟩) => some (i, v)
  | _ => none

/-- The counts of a run go up by one from call to call. -/
theorem counts_run {p : Proc} {tr : List (ι × Answered Ans)} {c : Crew ι Ans String World}
    (h : Crew.Run rules (calls ι p) tr c) :
    c.world.inc = (tr.filterMap countOf).length % 2 ^ 32 ∧
      (tr.filterMap countOf).map Prod.snd =
        (List.range (tr.filterMap countOf).length).map fun k => (k + 1) % 2 ^ 32 := by
  induction h with
  | start => exact ⟨rfl, rfl⟩
  | @call tr t i c k a w _ _ hserve ih =>
    rw [List.filterMap_append]
    cases c with
    | addUint32 =>
      obtain ⟨rfl, rfl⟩ := hserve
      have hone : [(i, (⟨.addUint32, (t.world.inc + 1) % 2 ^ 32⟩ : Answered Ans))].filterMap
          countOf = [(i, (t.world.inc + 1) % 2 ^ 32)] := rfl
      have hnext : (t.world.inc + 1) % 2 ^ 32 =
          ((tr.filterMap countOf).length + 1) % 2 ^ 32 := by
        rw [ih.1]
        omega
      rw [hone, List.length_append, List.length_singleton, List.map_append, ih.2, List.range_succ,
        List.map_append]
      refine ⟨hnext, ?_⟩
      rw [List.map_singleton, List.map_singleton, hnext]
    | put j b =>
      obtain rfl := hserve
      have hnone : [(i, (⟨.put j b, a⟩ : Answered Ans))].filterMap countOf = [] := rfl
      rw [hnone, List.append_nil]
      exact ih
    | get j =>
      obtain ⟨rfl, rfl⟩ := hserve
      have hnone : [(i, (⟨.get j, t.world.buf j⟩ : Answered Ans))].filterMap countOf = [] := rfl
      rw [hnone, List.append_nil]
      exact ih
  | drift _ hdrift => exact hdrift.elim

theorem mem_counts {tr : List (ι × Answered Ans)} {i : ι} {v : Nat} (hu : Undisturbed tr i v) :
    (i, v) ∈ tr.filterMap countOf := by
  obtain ⟨before, during, after, rfl, hbefore, -⟩ := hu.parts
  have hmem : (⟨.addUint32, v⟩ : Answered Ans) ∈ Crew.callsOf i before :=
    hbefore ▸ List.mem_singleton_self _
  obtain ⟨e, he, hsnd⟩ := List.mem_map.mp hmem
  obtain ⟨he, hfst⟩ := List.mem_filter.mp he
  refine List.mem_filterMap.mpr ⟨e, List.mem_append_left _ (List.mem_append_left _ he), ?_⟩
  obtain ⟨i', x⟩ := e
  obtain rfl : i' = i := by simpa using hfst
  obtain rfl : x = _ := hsnd
  rfl

/-- Up to `2 ^ 32` counts are different ones. -/
theorem nodup_counts {n : Nat} (hn : n ≤ 2 ^ 32) :
    ((List.range n).map fun k => (k + 1) % 2 ^ 32).Nodup := by
  refine List.nodup_range.map_on fun k hk m hm he => ?_
  have := List.mem_range.mp hk
  have := List.mem_range.mp hm
  omega

/-- Two calls that are not disturbed do not get the same id. -/
theorem ne_of_undisturbed {p : Proc} {tr : List (ι × Answered Ans)}
    (hfew : (tr.filterMap countOf).length ≤ 2 ^ 32) {i j : ι} (hne : i ≠ j) {id id' : String}
    (hi : Returns p tr i id) (hj : Returns p tr j id') {v v' : Nat} (hui : Undisturbed tr i v)
    (huj : Undisturbed tr j v') : id ≠ id' := by
  rintro rfl
  obtain ⟨n, he, hn⟩ := count_of_undisturbed hi hui
  obtain ⟨n', he', hn'⟩ := count_of_undisturbed hj huj
  obtain rfl := text_injective (he.symm.trans he')
  obtain ⟨c, hrun, -⟩ := hi
  obtain ⟨-, hcounts⟩ := counts_run hrun
  have hsmall : ∀ x ∈ tr.filterMap countOf, x.2 < 2 ^ 32 := by
    intro x hx
    have hmem := List.mem_map_of_mem (f := Prod.snd) hx
    rw [hcounts] at hmem
    obtain ⟨k, -, hk⟩ := List.mem_map.mp hmem
    rw [← hk]
    exact Nat.mod_lt _ (by decide)
  have hv := hsmall _ (mem_counts hui)
  have hv' := hsmall _ (mem_counts huj)
  have heq : v = v' := by
    rw [hn, Nat.mod_eq_of_lt hv, Nat.mod_eq_of_lt hv'] at hn'
    exact hn'
  have hsame := List.inj_on_of_nodup_map (hcounts ▸ nodup_counts hfew) (mem_counts hui)
    (mem_counts huj) heq
  exact hne (Prod.mk.inj hsame).1

/-! ## Two calls at the same time -/

/-- What `uint64` reads when nobody writes. -/
def valueOf (buf : Nat → Nat) : Nat :=
  buf 7 + buf 6 * 2 ^ 8 + buf 5 * 2 ^ 16 + buf 4 * 2 ^ 24 + buf 3 * 2 ^ 32 + buf 2 * 2 ^ 40 +
    buf 1 * 2 ^ 48 + buf 0 * 2 ^ 56

theorem alone_putUint32 (v : Nat) (w : World) : ∃ w', rules.Alone (putUint32 v) w () w' :=
  ⟨_, .ask (x := ()) rfl (.ask (x := ()) rfl (.ask (x := ()) rfl (.ask (x := ()) rfl (.done _ _))))⟩

theorem alone_uint64 (w : World) : rules.Alone uint64 w (valueOf w.buf) w := by
  have hget : ∀ j, rules.serve (.get j) w (w.buf j) w := fun j => ⟨rfl, rfl⟩
  exact .ask (hget 7) (.ask (hget 6) (.ask (hget 5) (.ask (hget 4) (.ask (hget 3) (.ask (hget 2)
    (.ask (hget 1) (.ask (hget 0) (.done _ _))))))))

/-- Both count, the first writes, the second writes and reads, and then the first reads what the
    second has written. -/
theorem clash (p : Proc) {i j : ι} (hne : i ≠ j) :
    ∃ tr id, Returns p tr i id ∧ Returns p tr j id := by
  have h₁ := (Crew.Run.start (R := rules) (s := calls ι p)).call (i := i) (a := 1) rfl ⟨rfl, rfl⟩
  have h₂ := h₁.call (i := j) (a := 2) (Function.update_of_ne hne.symm ..) ⟨rfl, rfl⟩
  obtain ⟨w₃, hput₃⟩ := alone_putUint32 1 _
  obtain ⟨_, c₃, h₃, hw₃, hi₃, hj₃⟩ := h₂.alone (i := i) hput₃ rfl
    ((Function.update_of_ne hne ..).trans (Function.update_self ..))
  obtain ⟨w₄, hput₄⟩ := alone_putUint32 2 w₃
  have hprog₄ : c₃.prog j = stringOf 2 := (hj₃ j hne.symm).trans (Function.update_self ..)
  obtain ⟨_, c₄, h₄, hw₄, hj₄, hi₄⟩ := h₃.alone (i := j) hput₄ hw₃ hprog₄
  obtain ⟨_, c₅, h₅, hw₅, hj₅, hi₅⟩ := h₄.alone (i := j) (alone_uint64 w₄) hw₄ hj₄
  have hprog₆ : c₅.prog i = uint64 >>= fun n => .done (text n) :=
    (hi₅ i hne).trans ((hi₄ i hne).trans hi₃)
  obtain ⟨tr, c₆, h₆, -, hi₆, hj₆⟩ := h₅.alone (i := i) (alone_uint64 w₄) hw₅ hprog₆
  exact ⟨tr, text (valueOf w₄.buf), ⟨c₆, h₆, hi₆⟩, c₆, h₆, (hj₆ j hne.symm).trans hj₅⟩

end Runs

/-- Which ids are different. -/
structure Unique (ι : Type) [DecidableEq ι] (p : Proc) : Prop where
  apart : ∀ q : Proc, ¬ (p.octets = q.octets ∧ p.pid % 2 ^ 16 = q.pid % 2 ^ 16) →
    ∀ (tr tr' : List (ι × Answered Ans)) (i i' : ι) (id : String),
      Returns p tr i id → ¬ Returns q tr' i' id
  distinct : ∀ tr : List (ι × Answered Ans), (tr.filterMap countOf).length ≤ 2 ^ 32 →
    ∀ (i j : ι) (v v' : Nat) (id id' : String), i ≠ j → Returns p tr i id → Returns p tr j id' →
      Undisturbed tr i v → Undisturbed tr j v' → id ≠ id'
  clash : ∀ i j : ι, i ≠ j → ∃ tr id, Returns p tr i id ∧ Returns p tr j id

/-- Ids of processes that differ in the two bytes of the address or in sixteen bits of the process id
    are different, whatever runs at the same time. Within a process those of undisturbed calls are,
    and any two calls may disturb each other so that they get the same. -/
theorem ids_unique (ι : Type) [DecidableEq ι] (p : Proc) : Unique ι p where
  apart q hne tr tr' i i' id hp hq := by
    obtain ⟨n, he, hn⟩ := mark_of_returns hp
    obtain ⟨n', he', hn'⟩ := mark_of_returns hq
    obtain rfl := text_injective (he.symm.trans he')
    exact hne ((mark_eq_iff p q).mp (hn.symm.trans hn'))
  distinct _ hfew _ _ _ _ _ _ hne hi hj hui huj := ne_of_undisturbed hfew hne hi hj hui huj
  clash _ _ := Uuid.clash p

end Doodle.Util.Uuid
