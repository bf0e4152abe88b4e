/-
  The name of a project, as each component derives it from the source URL: `convert_url` and
  `create_dockerfile` of `distributor/script/build.sh` by a chain of substitutions, `install` of
  `distributor/task.go` and `nodes.GET` of `manager/node.go` by a slice.

  The first argument of the script is taken to be the URL as it is, and so is what `echo $url`
  prints. The name is the one in the shell variable `project`.

  * `sameName_iff`: for a URL with `http://` in front the three agree exactly when no substitution
    of the chain meets an earlier part of the URL.
-/
import Doodle.Go.Strings
import Doodle.Lib.Subst

namespace Doodle.Distributor

open Doodle.Go Doodle.Lib

/-! ## The model -/

def httpText : List Char := "http://".toList

def gitAt : List Char := "git@".toList

def dotGit : List Char := ".git".toList

/-- `convert_url`; the quoted pattern of `=~` is a fixed text. -/
def convertUrl (url : List Char) : List Char :=
  if httpText <:+: url then substFirst ['/'] [':'] (substAll httpText gitAt url) ++ dotGit
  else url

/-- The variable `project` of `create_dockerfile`; `.*@` reaches to the last `@`. -/
def createDockerfile (url : List Char) : List Char :=
  substFirst [':'] ['/'] (substFirst dotGit [] (afterLast '@' url))

/-- The shell variable `project` of `build.sh` for a source. The `sed` that writes it into the
    Dockerfile, as `debug.Project`, is left out: a `&`, `\` or `#` in it is special there. -/
def buildProject (source : String) : String :=
  String.ofList (createDockerfile (convertUrl source.toList))

/-- The name `install` looks a running project up with. -/
def installKey (source : String) : String := sliceFrom source 7

/-- What the key of the manager's node listing has after `etcdAPIPrefix`. -/
def nodesKey (source : String) : String := sliceFrom source 6

/-- A part of the URL. -/
structure Part where
  text : String
  nonempty : text ≠ ""
  plain : ∀ c ∈ text.toList, c.isWhitespace = false ∧ c ≠ '@'

/-- `http://`, a host, a slash and a path. -/
structure SourceUrl where
  host : Part
  path : Part

namespace SourceUrl

def source (u : SourceUrl) : String := "http://" ++ (u.host.text ++ "/" ++ u.path.text)

/-- The URL without the scheme. -/
def rest (u : SourceUrl) : List Char := u.host.text.toList ++ '/' :: u.path.text.toList

/-- What stands before the first slash: the host, unless it has a slash itself. -/
def server (u : SourceUrl) : List Char := u.rest.takeWhile (· ≠ '/')

/-- What follows the first slash. -/
def dir (u : SourceUrl) : List Char := (u.rest.dropWhile (· ≠ '/')).tail

/-- The components derive one name. -/
structure SameName (u : SourceUrl) : Prop where
  install : buildProject u.source = installKey u.source
  nodes : "/" ++ buildProject u.source = nodesKey u.source

/-- What each substitution is for is the first it meets: the scheme is the only `http://`, no colon
    and no `.git` stand before the first slash, and after it `.git` only ends the URL. -/
structure Convertible (u : SourceUrl) : Prop where
  scheme : ¬ httpText <:+: u.rest
  colon : ':' ∉ u.server
  git : ¬ dotGit <:+: u.server
  trailing : ∃ a k, u.dir = a ++ power dotGit k ∧ ¬ dotGit <:+: a

end SourceUrl

/-! ## The chain -/

theorem borderFree_httpText : BorderFree httpText := borderFree_of_inits (by decide)

theorem borderFree_dotGit : BorderFree dotGit := borderFree_of_inits (by decide)

theorem httpText_ne_nil : httpText ≠ [] := by decide

theorem dotGit_ne_nil : dotGit ≠ [] := by decide

theorem convertUrl_http (rest : List Char) :
    convertUrl (httpText ++ rest) =
      substFirst ['/'] [':'] (gitAt ++ substAll httpText gitAt rest) ++ dotGit := by
  have hin : httpText <:+: httpText ++ rest := (List.prefix_append _ rest).isInfix
  have hall : substAll httpText gitAt (httpText ++ rest) = gitAt ++ substAll httpText gitAt rest :=
    substAll_append httpText_ne_nil borderFree_httpText gitAt
      (fun h => httpText_ne_nil (List.infix_nil.mp h)) rest
  rw [convertUrl, if_pos hin, hall]

/-- A second `http://` loses everything before it. -/
theorem length_createDockerfile_of_occurs {rest : List Char} (hat : '@' ∉ rest)
    (h : httpText <:+: rest) : (createDockerfile (convertUrl (httpText ++ rest))).length <
      rest.length := by
  obtain ⟨t, s, hall, hsuffix, hlen⟩ :=
    exists_substAll httpText_ne_nil borderFree_httpText gitAt _ rest (le_refl _) h
  have hats : '@' ∉ s := fun hm => hat (hsuffix.mem hm)
  have hcut : gitAt ++ (t ++ gitAt ++ s) = (gitAt ++ t ++ "git".toList) ++ '@' :: s := by
    simp [gitAt]
  -- the slash becomes a colon on one side of the last `@`
  obtain ⟨u, s', hslash, hlen', hats'⟩ : ∃ u s',
      substFirst ['/'] [':'] ((gitAt ++ t ++ "git".toList) ++ '@' :: s) = u ++ '@' :: s' ∧
        s'.length = s.length ∧ '@' ∉ s' := by
    rw [substFirst_append_cons (by decide) (borderFree_singleton '/') _ (by decide)]
    split
    · exact ⟨_, s, rfl, rfl, hats⟩
    · refine ⟨_, _, rfl,
        length_substFirst_same (by decide) (borderFree_singleton '/') [':'] rfl s, fun hm => ?_⟩
      rcases mem_substFirst (by decide) (borderFree_singleton '/') hm with hm | hm
      · exact absurd hm (by decide)
      · exact hats hm
  have hlast : afterLast '@' (u ++ '@' :: s' ++ dotGit) = s' ++ dotGit := by
    rw [List.append_assoc, List.cons_append]
    refine afterLast_append u fun hm => ?_
    rcases List.mem_append.mp hm with hm | hm
    · exact hats' hm
    · exact absurd hm (by decide)
  have hgit := length_substFirst dotGit_ne_nil borderFree_dotGit []
    (List.suffix_append s' dotGit).isInfix
  rw [convertUrl_http, hall, hcut, hslash, createDockerfile, hlast,
    length_substFirst_same (by decide) (borderFree_singleton ':') ['/'] rfl]
  have hseven : httpText.length = 7 := rfl
  simp only [List.length_append, List.length_nil] at hgit
  omega

/-- With one `http://` the first slash becomes the colon. -/
theorem createDockerfile_of_absent {server dir : List Char}
    (hat : '@' ∉ server ++ '/' :: dir) (hslash : '/' ∉ server)
    (h : ¬ httpText <:+: server ++ '/' :: dir) :
    createDockerfile (convertUrl (httpText ++ (server ++ '/' :: dir))) =
      substFirst [':'] ['/'] (substFirst dotGit [] (server ++ ':' :: (dir ++ dotGit))) := by
  have hfirst : substFirst ['/'] [':'] (gitAt ++ (server ++ '/' :: dir)) =
      "git".toList ++ '@' :: (server ++ ':' :: dir) := by
    have hno : '/' ∉ gitAt ++ server := by
      intro hm
      rcases List.mem_append.mp hm with hm | hm
      · exact absurd hm (by decide)
      · exact hslash hm
    rw [← List.append_assoc, substFirst_singleton _ hno]
    simp [gitAt]
  have hlast : afterLast '@' ("git".toList ++ '@' :: (server ++ ':' :: dir) ++ dotGit) =
      server ++ ':' :: (dir ++ dotGit) := by
    rw [List.append_assoc, List.cons_append, List.append_assoc, List.cons_append]
    refine afterLast_append _ fun hm => ?_
    simp only [List.mem_append, List.mem_cons, not_or] at hm hat
    rcases hm with hm | hm | hm | hm
    · exact hat.1 hm
    · exact absurd hm (by decide)
    · exact hat.2.2 hm
    · exact absurd hm (by decide)
  rw [convertUrl_http, substAll_of_absent gitAt h, hfirst, createDockerfile, hlast]

/-- The colon that becomes a slash again is the first one; `.git` goes before it or after it. -/
theorem chain_eq_iff {server dir : List Char} (hslash : '/' ∉ server) :
    substFirst [':'] ['/'] (substFirst dotGit [] (server ++ ':' :: (dir ++ dotGit))) =
        server ++ '/' :: dir ↔
      ':' ∉ server ∧ ¬ dotGit <:+: server ∧ ∃ a k, dir = a ++ power dotGit k ∧ ¬ dotGit <:+: a := by
  -- `p` is the text before the first colon
  obtain ⟨p, w, hp, hcolon, hpre, hw⟩ : ∃ p w,
      server ++ ':' :: (dir ++ dotGit) = p ++ ':' :: w ∧ ':' ∉ p ∧ p <+: server ∧
        (':' ∉ server → p = server ∧ w = dir ++ dotGit) := by
    by_cases hc : ':' ∈ server
    · obtain ⟨p, q, rfl, hp⟩ := List.eq_append_cons_of_mem hc
      exact ⟨p, q ++ ':' :: (dir ++ dotGit), by simp, hp, List.prefix_append p _,
        fun h => absurd hc h⟩
    · exact ⟨server, _, rfl, hc, List.prefix_rfl, fun _ => ⟨rfl, rfl⟩⟩
  have hslashp : '/' ∉ p := fun hm => hslash (hpre.mem hm)
  have hgit := substFirst_append_cons dotGit_ne_nil borderFree_dotGit [] (by decide : ':' ∉ dotGit)
    p w
  rw [hp, hgit]
  by_cases hin : dotGit <:+: p
  · -- the text before the first slash gets shorter
    have hlen := length_substFirst dotGit_ne_nil borderFree_dotGit [] hin
    have hsub : ∀ c, c ∉ p → c ∉ substFirst dotGit [] p := by
      intro c hc hm
      rcases mem_substFirst dotGit_ne_nil borderFree_dotGit hm with hm | hm
      · exact absurd hm (by simp)
      · exact hc hm
    rw [if_pos hin, substFirst_singleton _ (hsub ':' hcolon), List.append_assoc,
      List.singleton_append, append_cons_inj_of_not_mem (hsub '/' hslashp) hslash]
    constructor
    · rintro ⟨rfl, -⟩
      have hle := hpre.length_le
      have hfour : dotGit.length = 4 := rfl
      simp only [List.length_nil] at hlen
      omega
    · rintro ⟨-, hno, -⟩
      exact absurd (hin.trans hpre.isInfix) hno
  · rw [if_neg hin, substFirst_singleton _ hcolon, List.append_assoc, List.singleton_append,
      append_cons_inj_of_not_mem hslashp hslash]
    constructor
    · rintro ⟨rfl, hdir⟩
      rw [(hw hcolon).2] at hdir
      exact ⟨hcolon, hin, (substFirst_concat_iff dotGit_ne_nil borderFree_dotGit dir).mp hdir⟩
    · rintro ⟨hno, -, hdir⟩
      obtain ⟨rfl, rfl⟩ := hw hno
      exact ⟨rfl, (substFirst_concat_iff dotGit_ne_nil borderFree_dotGit dir).mpr hdir⟩

/-! ## The URL -/

namespace SourceUrl

theorem toList_source (u : SourceUrl) : u.source.toList = httpText ++ u.rest := by
  -- the equation of `httpText` is slow to make
  delta httpText
  simp [source, rest]

theorem httpText_eq : httpText = ['h', 't', 't', 'p', ':', '/', '/'] := by decide

theorem at_not_mem_rest (u : SourceUrl) : '@' ∉ u.rest := by
  intro h
  rcases List.mem_append.mp h with h | h
  · exact (u.host.plain '@' h).2 rfl
  · rcases List.mem_cons.mp h with h | h
    · exact absurd h (by decide)
    · exact (u.path.plain '@' h).2 rfl

theorem rest_eq (u : SourceUrl) : u.rest = u.server ++ '/' :: u.dir := by
  have hmem : '/' ∈ u.rest := List.mem_append_right _ List.mem_cons_self
  obtain ⟨a, b, hab, ha⟩ := List.eq_append_cons_of_mem hmem
  have hall : ∀ c ∈ a, decide (c ≠ '/') = true := fun c hc =>
    decide_eq_true fun h => ha (h ▸ hc)
  unfold server dir
  rw [hab, List.takeWhile_append_of_pos hall, List.dropWhile_append_of_pos hall]
  simp

theorem slash_not_mem_server (u : SourceUrl) : '/' ∉ u.server := fun h => by
  simpa using List.mem_takeWhile_imp h

/-- Both slices say that the name is the URL without the scheme. -/
theorem sameName_iff_eq_rest (u : SourceUrl) :
    u.SameName ↔ createDockerfile (convertUrl (httpText ++ u.rest)) = u.rest := by
  have hseven : installKey u.source = String.ofList u.rest := by
    unfold installKey sliceFrom
    rw [toList_source, httpText_eq]
    rfl
  have hsix : nodesKey u.source = "/" ++ String.ofList u.rest := by
    unfold nodesKey sliceFrom
    rw [toList_source, httpText_eq, ← String.toList_inj, String.toList_append]
    simp only [String.toList_ofList]
    rfl
  have hbuild : buildProject u.source =
      String.ofList (createDockerfile (convertUrl (httpText ++ u.rest))) := by
    rw [buildProject, toList_source]
  constructor
  · intro h
    have := h.install
    rw [hbuild, hseven] at this
    exact String.ofList_inj.mp this
  · intro h
    rw [h] at hbuild
    exact ⟨by rw [hbuild, hseven], by rw [hbuild, hsix]⟩

/-- `build.sh`, `install` and the manager's node listing know a project by one name exactly when
    the scheme of its source is the only `http://` in it, no colon and no `.git` stand before the
    first slash, and every `.git` after it belongs to a run at the end. -/
theorem sameName_iff (u : SourceUrl) : u.SameName ↔ u.Convertible := by
  rw [sameName_iff_eq_rest]
  by_cases hhttp : httpText <:+: u.rest
  · constructor
    · intro h
      have hlt := length_createDockerfile_of_occurs u.at_not_mem_rest hhttp
      rw [h] at hlt
      exact absurd hlt (Nat.lt_irrefl _)
    · intro h
      exact absurd hhttp h.scheme
  · have hat := u.at_not_mem_rest
    have hno := hhttp
    rw [rest_eq] at hat hno
    rw [rest_eq, createDockerfile_of_absent hat u.slash_not_mem_server hno,
      chain_eq_iff u.slash_not_mem_server]
    constructor
    · rintro ⟨hcolon, hgit, hdir⟩
      exact ⟨hhttp, hcolon, hgit, hdir⟩
    · intro h
      exact ⟨h.colon, h.git, h.trailing⟩

end SourceUrl

theorem plain_of_all {s : String}
    (h : (s.toList.all fun c => !c.isWhitespace && decide (c ≠ '@')) = true) :
    ∀ c ∈ s.toList, c.isWhitespace = false ∧ c ≠ '@' := by
  intro c hc
  simpa using List.all_eq_true.mp h c hc

/-- A host with a port. -/
def portUrl : SourceUrl where
  host := ⟨"git.jd.com:8080", by decide, plain_of_all (by decide)⟩
  path := ⟨"dbs/faas", by decide, plain_of_all (by decide)⟩

/-- The port's colon becomes the slash: the project reports itself as `git.jd.com/8080:dbs/faas`,
    and is looked for as `git.jd.com:8080/dbs/faas`. -/
theorem port_changes_name :
    buildProject portUrl.source = "git.jd.com/8080:dbs/faas" ∧
      installKey portUrl.source = "git.jd.com:8080/dbs/faas" ∧ ¬ portUrl.SameName := by
  have hbuild : buildProject portUrl.source = "git.jd.com/8080:dbs/faas" := by decide +kernel
  have hkey : installKey portUrl.source = "git.jd.com:8080/dbs/faas" := by decide +kernel
  refine ⟨hbuild, hkey, fun h => ?_⟩
  have heq := h.install
  rw [hbuild, hkey] at heq
  exact absurd heq (by decide)

end Doodle.Distributor
