import Uartbus.Analysis.UrlEncoding
import Uartbus.Interface.FileSession

/-!
# File numbers are stable

The list file holds the paths of the registry, one encoded path a line (`FilesKept`).  A path is
only appended when it has no number, so the two tables stay inverse to each other; and since an
encoded path has no line break and can be read back, opening the registry again gives the same paths
in the same order, with what was found in the meantime behind them.
-/

set_option autoImplicit false

namespace Uartbus.Analysis

open Lib Interface Model

variable {discoverDir : Text → RegistryProcedure Unit Unit} {pieces : List Bytes}
  {request : FileRequest} {registry : FileRegistry} {root : Text} {disk : Disk} {depth : ℕ}

/-! ## Reading the list file -/

/-- The bytes of an encoded path. -/
theorem encoded_printable (path : Text) :
    ∀ b ∈ utf8Bytes (urlEncode path), 0x20 < b.toNat ∧ b.toNat < 0x7F := by
  have hascii : ∀ c ∈ urlEncode path, c.toNat < 128 := fun c hc =>
    Nat.lt_succ_of_lt (urlEncode_printable path c hc).2
  rw [utf8Bytes_ascii hascii]
  intro b hb
  obtain ⟨c, hc, rfl⟩ := List.mem_map.mp hb
  obtain ⟨hlow, hhigh⟩ := urlEncode_printable path c hc
  rw [UInt8.toNat_ofNat_of_lt' (Nat.lt_trans hhigh (by decide))]
  exact ⟨hlow, hhigh⟩

theorem encoded_no_newline (path : Text) : (0x0A : UInt8) ∉ utf8Bytes (urlEncode path) :=
  fun h => absurd (encoded_printable path _ h).1 (by decide)

theorem encoded_no_return (path : Text) :
    (utf8Bytes (urlEncode path)).getLast? ≠ some 0x0D :=
  fun h => absurd (encoded_printable path _ (List.mem_of_getLast? h)).1 (by decide)

theorem listBytes_concat (paths : List Text) (path : Text) :
    listBytes (paths ++ [path]) = listBytes paths ++ (utf8Bytes (urlEncode path) ++ [0x0A]) := by
  simp [listBytes]

/-- The pieces between the line ends; nothing is behind the last one. -/
theorem splitOn_lines (hnewline : ∀ piece ∈ pieces, 0x0A ∉ piece) :
    (pieces.flatMap fun piece => piece ++ [0x0A]).splitOn 0x0A = pieces ++ [[]] := by
  induction pieces with
  | nil => exact List.splitOn_nil _
  | cons piece pieces ih =>
    rw [List.flatMap_cons, List.append_assoc, List.singleton_append,
      List.splitOn_append_cons_self_of_not_mem (hnewline piece List.mem_cons_self),
      ih fun other hother => hnewline other (List.mem_cons_of_mem piece hother)]
    rfl

/-- What is written line by line is read line by line. -/
theorem lines_flatMap (hnewline : ∀ piece ∈ pieces, 0x0A ∉ piece)
    (hreturn : ∀ piece ∈ pieces, piece.getLast? ≠ some 0x0D) :
    FileRegistry.lines (pieces.flatMap fun piece => piece ++ [0x0A]) = pieces := by
  unfold FileRegistry.lines
  simp only [splitOn_lines hnewline, List.getLast?_concat, List.dropLast_concat, if_true]
  refine (List.map_congr_left fun piece hpiece => ?_).trans (List.map_id pieces)
  exact if_neg (hreturn piece hpiece)

theorem lines_listBytes (paths : List Text) :
    FileRegistry.lines (listBytes paths) = paths.map fun path => utf8Bytes (urlEncode path) := by
  have hpieces : listBytes paths =
      (paths.map fun path => utf8Bytes (urlEncode path)).flatMap fun piece => piece ++ [0x0A] := by
    rw [List.flatMap_map]
    rfl
  rw [hpieces, lines_flatMap]
  · exact List.forall_mem_map.mpr fun path _ => encoded_no_newline path
  · exact List.forall_mem_map.mpr fun path _ => encoded_no_return path

/-- **The list file can be read back.** -/
theorem listedPaths_listBytes (paths : List Text) :
    FileRegistry.listedPaths (listBytes paths) = some paths := by
  unfold FileRegistry.listedPaths
  rw [lines_listBytes]
  induction paths with
  | nil => rfl
  | cons path paths ih =>
    rw [List.map_cons, List.mapM_cons, utf8Text_utf8Bytes, Option.map_some, urlDecode_urlEncode,
      ih]
    rfl

/-! ## The two tables -/

section Tables

variable {registry : FileRegistry} {path : Text}

theorem inverse_not_mem (h : Inverse registry) (hnone : registry.byPath.lookup path = none) :
    path ∉ registry.paths := by
  intro hmem
  obtain ⟨i, hi⟩ := List.mem_iff_getElem?.mp hmem
  rw [(h.byPath path i).mpr hi] at hnone
  cases hnone

/-- A path without a number gets the next one. -/
theorem inverse_add (h : Inverse registry) (hnone : registry.byPath.lookup path = none) :
    Inverse { registry with
      paths := registry.paths ++ [path]
      byPath := (path, registry.paths.length) :: registry.byPath } := by
  have hnew := inverse_not_mem h hnone
  refine ⟨List.nodup_append.mpr ⟨h.nodup, List.nodup_singleton path, ?_⟩, fun p i => ?_⟩
  · rintro a ha b hb rfl
    exact hnew (List.mem_singleton.mp hb ▸ ha)
  · dsimp only
    rw [List.lookup_cons]
    by_cases hp : p = path
    · subst hp
      simp only [beq_self_eq_true, Option.some.injEq]
      constructor
      · rintro rfl
        exact List.getElem?_concat_length
      · intro hi
        rcases Nat.lt_or_ge i registry.paths.length with hlt | hge
        · rw [List.getElem?_append_left hlt] at hi
          exact absurd (List.mem_of_getElem? hi) hnew
        · have hlt := (List.getElem?_eq_some_iff.mp hi).1
          rw [List.length_append, List.length_singleton] at hlt
          omega
    · rw [beq_eq_false_iff_ne.mpr hp]
      rw [h.byPath p i]
      rcases Nat.lt_or_ge i registry.paths.length with hlt | hge
      · rw [List.getElem?_append_left hlt]
      · rw [List.getElem?_append_right hge, List.getElem?_eq_none hge]
        constructor
        · simp
        · intro hi
          exact absurd (List.mem_singleton.mp (List.mem_of_getElem? hi)) hp

/-- The paths of the list file become the registry's. -/
theorem inverse_foldl (paths : List Text) (h : Inverse registry)
    (hnodup : (registry.paths ++ paths).Nodup) :
    Inverse (paths.foldl FileRegistry.addListed registry) ∧
      (paths.foldl FileRegistry.addListed registry).paths = registry.paths ++ paths ∧
      (paths.foldl FileRegistry.addListed registry).root = registry.root := by
  induction paths generalizing registry with
  | nil => exact ⟨h, (List.append_nil _).symm, rfl⟩
  | cons path paths ih =>
    have hnone : registry.byPath.lookup path = none := by
      by_contra hsome
      obtain ⟨i, hi⟩ := Option.ne_none_iff_exists'.mp hsome
      have hmem := List.mem_of_getElem? ((h.byPath path i).mp hi)
      exact (List.nodup_append.mp hnodup).2.2 path hmem path List.mem_cons_self rfl
    have hadd : FileRegistry.addListed registry path = { registry with
        paths := registry.paths ++ [path]
        byPath := (path, registry.paths.length) :: registry.byPath } := by
      simp [FileRegistry.addListed, hnone]
    have hinverse : Inverse (FileRegistry.addListed registry path) := by
      rw [hadd]
      exact inverse_add h hnone
    have hrest := ih hinverse (by rw [hadd]; simpa using hnodup)
    refine ⟨hrest.1, hrest.2.1.trans ?_, hrest.2.2.trans ?_⟩
    · rw [hadd]
      simp
    · rw [hadd]

end Tables

/-! ## Runs -/

section Runs

variable {directory : Directory} {base : List Text}

/-- The list file holds the paths of the registry, which began with those of `base`. -/
structure FilesKept (base : List Text) (registry : FileRegistry) (disk : Disk) : Prop where
  list : disk.list = listBytes registry.paths
  inverse : Inverse registry
  grown : base <+: registry.paths

/-- Only appending a line changes the list file. -/
theorem respond_list (h : ∀ line, request ≠ .appendLine line) (disk : Disk) :
    (Disk.respond directory request disk).2.list = disk.list := by
  cases request with
  | appendLine line => exact absurd rfl (h line)
  | _ => rfl

theorem FilesKept.tick (h : FilesKept base registry disk)
    (hrequest : ∀ line, request ≠ .appendLine line) :
    FilesKept base registry (Disk.respond directory request disk).2 :=
  ⟨(respond_list hrequest disk).trans h.list, h.inverse, h.grown⟩

/-- A path without a number is registered with the next one. -/
theorem register_leads (path : Text) :
    (FileRegistry.register path).Leads (Disk.respond directory)
      (fun registry disk => FilesKept base registry disk ∧ registry.byPath.lookup path = none)
      fun r registry disk => FilesKept base registry disk ∧
        ∀ i, r = .ok i → registry.paths[i]? = some path := by
  intro registry disk hpre r registry' disk' hexec
  obtain ⟨hkept, hnone⟩ := hpre
  cases hexec
  refine ⟨⟨?_, inverse_add hkept.inverse hnone, hkept.grown.trans (List.prefix_append _ _)⟩, ?_⟩
  · dsimp only
    rw [listBytes_concat, ← hkept.list]
    rfl
  · intro i hi
    cases hi
    exact List.getElem?_concat_length

/-- A request that leaves the list file alone. -/
theorem request_kept {ε : Type} (hrequest : ∀ line, request ≠ .appendLine line) :
    (Procedure.request request : RegistryProcedure ε FileAnswer).Leads (Disk.respond directory)
      (FilesKept base) fun _ => FilesKept base :=
  .request fun _ _ h => h.tick hrequest

/-- Registering a path that was found to have no number. -/
theorem register_kept {registry₀ : FileRegistry} {path : Text}
    (hnone : Inverse registry₀ → registry₀.byPath.lookup path = none) :
    (FileRegistry.register path).Leads (Disk.respond directory)
      (fun registry disk => registry = registry₀ ∧ FilesKept base registry disk)
      fun _ => FilesKept base := by
  rintro registry disk ⟨rfl, h⟩ r registry' disk' hexec
  exact (register_leads path registry disk ⟨h, hnone h.inverse⟩ r registry' disk' hexec).1

/-- `number_of` returns a number of the path, and the list file stays in step. -/
theorem numberOf_leads (path : Text) :
    (FileRegistry.numberOf path).Leads (Disk.respond directory) (FilesKept base)
      fun r registry disk => FilesKept base registry disk ∧
        ∀ i, r = .ok i → registry.paths[i]? = some (if path = [] then ['/'] else path) := by
  refine .read_bind fun registry₀ => ?_
  split
  next index hindex =>
    refine .pure fun registry disk h => ⟨h.2, fun i hi => ?_⟩
    cases hi
    rw [← h.1] at hindex
    exact (h.2.inverse.byPath _ _).mp hindex
  next hnone =>
    have hfail : ∀ (e : FtpErrno) (P : FileRegistry → Disk → Prop),
        (∀ registry disk, P registry disk → FilesKept base registry disk) →
        (Procedure.fail e : RegistryProcedure FtpErrno ℕ).Leads (Disk.respond directory) P
          fun r registry disk => FilesKept base registry disk ∧
            ∀ i, r = .ok i → registry.paths[i]? = some (if path = [] then ['/'] else path) :=
      fun _ _ hP => .fail fun registry disk h => ⟨hP registry disk h, fun _ hi => (by cases hi)⟩
    refine .ite (fun _ => hfail _ _ fun _ _ h => h.2) fun _ => ?_
    have hexists : (Procedure.request
        (.exists (fsPath registry₀.root (if path = [] then ['/'] else path))) :
          RegistryProcedure FtpErrno FileAnswer).Leads (Disk.respond directory)
        (fun registry disk => registry = registry₀ ∧ FilesKept base registry disk)
        fun _ registry disk => FilesKept base registry disk ∧ registry = registry₀ :=
      .request fun _ _ h => ⟨h.2.tick fun _ hr => (by cases hr), h.1⟩
    refine .bind hexists (fun answer => ?_) fun _ _ _ h => ⟨h.1, fun _ hi => (by cases hi)⟩
    refine .ite (fun _ => ?_) fun _ => hfail _ _ fun _ _ h => h.1
    intro registry disk h
    have hpre : FilesKept base registry disk ∧
        registry.byPath.lookup (if path = [] then ['/'] else path) = none :=
          ⟨h.1, by rw [h.2, hnone]⟩
    exact Procedure.Leads.mapError (register_leads _)
      (fun i _ _ hi => ⟨hi.1, fun j hj => hi.2 j (congrArg Except.ok (Except.ok.inj hj))⟩)
      (fun _ _ _ hi => ⟨hi.1, fun _ hj => (by cases hj)⟩) registry disk hpre

/-- A round of `discover`, when looking through a directory keeps the files. -/
theorem discoverName_leads
    (hdir : ∀ path, (discoverDir path).Leads (Disk.respond directory) (FilesKept base)
      fun _ => FilesKept base) (dir : Text) (name : FileName) :
    (FileRegistry.discoverName discoverDir dir name).Leads (Disk.respond directory)
      (FilesKept base) fun _ => FilesKept base := by
  refine .ite (fun _ => .pure fun _ _ h => h) fun _ => .read_bind fun registry₀ => ?_
  have hlook : ∀ root, (do
      let answer ← Procedure.request (.isDir (fsPath root (dir ++ '/' :: name.text)))
      if answer.ok then discoverDir (dir ++ '/' :: name.text) else pure () :
        RegistryProcedure Unit Unit).Leads (Disk.respond directory) (FilesKept base)
        fun _ => FilesKept base := by
    intro root
    exact .bind (request_kept fun _ hr => (by cases hr))
      (fun _ => .ite (fun _ => hdir _) fun _ => .pure fun _ _ h => h)
      fun _ _ _ h => h
  refine .ite (fun hnone => ?_) fun _ => ?_
  · exact .bind (register_kept fun _ => Option.isNone_iff_eq_none.mp hnone) (fun _ => hlook _)
      fun _ _ _ h => h
  · intro registry disk h
    exact hlook _ registry disk h.2

/-- The search through the directories keeps the list file in step. -/
theorem discover_leads (fuel : ℕ) (dir : Text) :
    (FileRegistry.discover fuel dir).Leads (Disk.respond directory) (FilesKept base)
      fun _ => FilesKept base := by
  induction fuel generalizing dir with
  | zero =>
    intro registry disk h r registry' disk' hexec
    cases hexec
  | succ fuel ih =>
    refine .read_bind fun registry₀ => ?_
    have hnames : (sortedDirNames
        (fsPath registry₀.root (if dir = [] then ['/'] else dir)) () :
          RegistryProcedure Unit (List FileName)).Leads (Disk.respond directory)
        (fun registry disk => registry = registry₀ ∧ FilesKept base registry disk)
        fun _ => FilesKept base := by
      have hread : (sortedDirNames
          (fsPath registry₀.root (if dir = [] then ['/'] else dir)) () :
            RegistryProcedure Unit (List FileName)).Leads (Disk.respond directory)
          (FilesKept base) fun _ => FilesKept base :=
        .bind (request_kept fun _ hr => (by cases hr))
          (fun _ => .ite (fun _ => .pure fun _ _ h => h) fun _ => .fail fun _ _ h => h)
          fun _ _ _ h => h
      exact fun registry disk h => hread registry disk h.2
    exact .bind hnames (fun names => .forEach (discoverName_leads ih dir) names)
      fun _ _ _ h => h

theorem complete_leads (fuel : ℕ) :
    (FileRegistry.complete fuel).Leads (Disk.respond directory) (FilesKept base)
      fun _ => FilesKept base := by
  refine .read_bind fun registry₀ => .ite (fun hempty => ?_) fun _ => ?_
  · refine .bind (register_kept fun hinverse => ?_) (fun _ => discover_leads fuel [])
      fun _ _ _ h => h
    by_contra hsome
    obtain ⟨i, hi⟩ := Option.ne_none_iff_exists'.mp hsome
    have hpath := (hinverse.byPath _ i).mp hi
    rw [hempty] at hpath
    cases hpath
  · intro registry disk h
    exact discover_leads fuel [] registry disk h.2

/-- The list file holds some paths that began with those of `base`. -/
def ListGrown (base : List Text) (disk : Disk) : Prop :=
  ∃ paths, disk.list = listBytes paths ∧ paths.Nodup ∧ base <+: paths

theorem FilesKept.listGrown (h : FilesKept base registry disk) : ListGrown base disk :=
  ⟨registry.paths, h.list, h.inverse.nodup, h.grown⟩

/-- **Opening the registry reads the earlier paths back.**  Whether it succeeds or not, the list
file has only grown. -/
theorem openAt_leads (fuel : ℕ) (root : Text) (hnodup : base.Nodup) :
    (FileRegistry.openAt fuel root).Leads (Disk.respond directory)
      (fun _ disk => disk.list = listBytes base)
      fun r registry disk => ListGrown base disk ∧ (r = .ok () → FilesKept base registry disk) := by
  have hgrown : ∀ disk : Disk, disk.list = listBytes base → ListGrown base disk :=
    fun disk h => ⟨base, h, hnodup, List.prefix_rfl⟩
  have hfail : (Procedure.fail () : RegistryProcedure Unit Unit).Leads (Disk.respond directory)
      (fun _ disk => disk.list = listBytes base)
      fun r registry disk => ListGrown base disk ∧ (r = .ok () → FilesKept base registry disk) :=
    .fail fun _ disk h => ⟨hgrown disk h, by simp⟩
  have hopen : (Procedure.request (.openList (pathJoin root listFileName)) :
      RegistryProcedure Unit FileAnswer).Leads (Disk.respond directory)
      (fun _ disk => disk.list = listBytes base) fun _ _ disk => disk.list = listBytes base :=
    .request fun _ disk h => (respond_list (by simp) disk).trans h
  have hlisted : (Procedure.request (.readList (pathJoin root listFileName)) :
      RegistryProcedure Unit FileAnswer).Leads (Disk.respond directory)
      (fun _ disk => disk.list = listBytes base)
      fun r _ disk => disk.list = listBytes base ∧
        ∀ answer, r = .ok answer → answer.bytes = listBytes base := by
    refine .request fun _ disk h => ⟨h, fun answer hanswer => ?_⟩
    cases hanswer
    exact h
  refine .bind hopen (fun opened => .ite (fun _ => ?_) fun _ => hfail) fun _ _ disk h =>
    ⟨hgrown disk h, by simp⟩
  refine .bind hlisted (fun listed => ?_) fun _ _ disk h =>
    ⟨hgrown disk h.1, by simp⟩
  intro registry disk h
  have hbytes := h.2 listed rfl
  rw [hbytes, listedPaths_listBytes]
  by_cases hok : listed.ok = true
  · rw [if_pos hok]
    have hempty : Inverse ⟨root, [], []⟩ := ⟨List.nodup_nil, fun _ _ => by simp⟩
    obtain ⟨hinverse, hpathsEq, -⟩ := inverse_foldl base hempty hnodup
    have hkept : FilesKept base (base.foldl FileRegistry.addListed ⟨root, [], []⟩) disk :=
      ⟨by rw [hpathsEq]; exact h.1, hinverse, by rw [hpathsEq]; exact List.prefix_rfl⟩
    intro r registry' disk' hexec
    have hdone := complete_leads fuel _ disk hkept r registry' disk' hexec
    exact ⟨hdone.listGrown, fun _ => hdone⟩
  · rw [if_neg hok]
    exact hfail registry disk h.1

/-! ## Opening ends -/

/-- The registry is the one of the directory. -/
def HasRoot (root : Text) (registry : FileRegistry) : Prop := registry.root = root

theorem register_stops (root path : Text) :
    (FileRegistry.register path).Stops (Disk.respond directory) (HasRoot root) := by
  refine .bind (.request _) fun _ => .ite (fun _ => ?_) fun _ => .fail
  refine .read_bind fun registry hroot => ?_
  have hroot' : HasRoot root { registry with
      paths := registry.paths ++ [path]
      byPath := (path, registry.paths.length) :: registry.byPath } := hroot
  exact .bind (.write hroot') fun _ => .pure

/-- A round ends, when looking through the entry does if it can be a directory. -/
theorem discoverName_stops (hdepth : NestedBelow root depth directory) (names : List Text)
    (name : FileName)
    (hdir : names.length + 1 < depth → (discoverDir (slashed names ++ '/' :: name.text)).Stops
      (Disk.respond directory) (HasRoot root)) :
    (FileRegistry.discoverName discoverDir (slashed names) name).Stops (Disk.respond directory)
      (HasRoot root) := by
  refine .ite (fun _ => .pure) fun _ => .read_bind fun registry hroot => ?_
  have hpath : slashed (names ++ [name.text]) = slashed names ++ '/' :: name.text := by
    simp [slashed]
  have hlook : (do
      let answer ← Procedure.request
        (.isDir (fsPath registry.root (slashed names ++ '/' :: name.text)))
      if answer.ok then discoverDir (slashed names ++ '/' :: name.text) else pure () :
        RegistryProcedure Unit Unit).Stops (Disk.respond directory) (HasRoot root) := by
    refine .request_bind (A := fun answer => answer.ok = true → names.length + 1 < depth) ?_
      fun answer hanswer => .ite (fun hok => hdir (hanswer hok)) fun _ => .pure
    intro disk hok
    by_contra hdeep
    have hfalse := hdepth disk.clock (names ++ [name.text]) (by simp; omega)
    rw [hpath, ← hroot] at hfalse
    exact absurd hok (by rw [Bool.not_eq_true]; exact hfalse)
  exact .ite (fun _ => .bind (register_stops root _) fun _ => hlook) fun _ => hlook

/-- Looking through a directory ends, when there is fuel for the ones below it. -/
theorem discover_stops (hdepth : NestedBelow root depth directory) (fuel : ℕ) (names : List Text)
    (hfuel : depth ≤ names.length + fuel) :
    (FileRegistry.discover (fuel + 1) (slashed names)).Stops (Disk.respond directory)
      (HasRoot root) := by
  induction fuel generalizing names with
  | zero =>
    refine .read_bind fun registry _ => .bind ?_ fun entries => .forEach (fun name => ?_) entries
    · exact .bind (.request _) fun _ => .ite (fun _ => .pure) fun _ => .fail
    · exact discoverName_stops hdepth names name fun h => absurd h (by omega)
  | succ fuel ih =>
    refine .read_bind fun registry _ => .bind ?_ fun entries => .forEach (fun name => ?_) entries
    · exact .bind (.request _) fun _ => .ite (fun _ => .pure) fun _ => .fail
    · refine discoverName_stops hdepth names name fun _ => ?_
      have hchild := ih (names ++ [name.text]) (by simp; omega)
      rwa [slashed, List.flatMap_append, List.flatMap_singleton] at hchild

theorem openAt_stops (hdepth : NestedBelow root depth directory) :
    (FileRegistry.openAt (depth + 1) root).Stops (Disk.respond directory) (HasRoot root) := by
  refine .bind (.request _) fun _ => .ite (fun _ => ?_) fun _ => .fail
  refine .bind (.request _) fun _ => ?_
  split
  next paths _ =>
    have hroot : HasRoot root (paths.foldl FileRegistry.addListed ⟨root, [], []⟩) := by
      have hkeeps : ∀ (ps : List Text) (registry : FileRegistry), HasRoot root registry →
          HasRoot root (ps.foldl FileRegistry.addListed registry) := by
        intro ps
        induction ps with
        | nil => exact fun _ h => h
        | cons p ps ih => exact fun registry h => ih _ h
      exact hkeeps paths _ rfl
    refine .bind (.write hroot) fun _ => .read_bind fun registry _ => ?_
    have hdiscover := discover_stops hdepth depth [] (by simp)
    exact .ite (fun _ => .bind (register_stops root _) fun _ => hdiscover) fun _ => hdiscover
  next => exact .fail

end Runs

/-! ## Every session -/

section Sessions

variable {root : Text} {directory : Directory} {s s' : FileSession} {paths : List Text}

/-- One action: the paths are there in the same order, and others may be behind them. -/
theorem listed_step {action : FileAction} (h : Listed s paths)
    (hstep : fileStep root directory s action = some s') :
    ∃ paths', Listed s' paths' ∧ paths <+: paths' := by
  cases action with
  | restart fuel =>
    obtain ⟨⟨⟨r, registry⟩, disk⟩, hexec, rfl⟩ := Option.map_eq_some_iff.mp hstep
    obtain ⟨⟨paths', hlist, hnodup, hgrown⟩, hkept⟩ :=
      openAt_leads fuel root h.nodup _ s.disk h.list r registry disk hexec
    cases r with
    | ok u =>
      have hdone := hkept rfl
      refine ⟨registry.paths, ⟨hdone.list, hdone.inverse.nodup, fun registry' heq => ?_⟩,
        hdone.grown⟩
      cases heq
      exact ⟨rfl, hdone.inverse⟩
    | error u => exact ⟨paths', ⟨hlist, hnodup, fun _ heq => (by cases heq)⟩, hgrown⟩
  | numberOf path =>
    obtain ⟨registry, hregistry, hstep⟩ := Option.bind_eq_some_iff.mp hstep
    obtain ⟨⟨⟨r, registry'⟩, disk⟩, hexec, rfl⟩ := Option.map_eq_some_iff.mp hstep
    obtain ⟨hpaths, hinverse⟩ := h.registry registry hregistry
    have hkept : FilesKept paths registry s.disk :=
      ⟨by rw [hpaths]; exact h.list, hinverse, by rw [hpaths]⟩
    have hdone := (numberOf_leads path registry s.disk hkept r registry' disk hexec).1
    refine ⟨registry'.paths, ⟨hdone.list, hdone.inverse.nodup, fun registry'' heq => ?_⟩,
      hdone.grown⟩
    cases heq
    exact ⟨rfl, hdone.inverse⟩

/-- Any actions. -/
theorem listed_run {actions : List FileAction} (h : Listed s paths)
    (hrun : run (fileStep root directory) s actions = some s') :
    ∃ paths', Listed s' paths' ∧ paths <+: paths' := by
  refine run_invariant_all (I := fun q => ∃ paths', Listed q paths' ∧ paths <+: paths')
    (fun q action q' hq hstep => ?_) ⟨paths, h, List.prefix_rfl⟩ hrun
  obtain ⟨paths₁, hlisted, hgrown⟩ := hq
  obtain ⟨paths₂, hlisted', hgrown'⟩ := listed_step hlisted hstep
  exact ⟨paths₂, hlisted', hgrown.trans hgrown'⟩

theorem listed_start : Listed FileSession.start [] :=
  ⟨rfl, List.nodup_nil, fun _ heq => (by cases heq)⟩

end Sessions

/-- **File numbers are stable.**  From a directory without list file, after any actions, however
the directory changes: the list file can be read back and gives the paths of the registry, whose two
tables are inverse to each other; a number that `number_of` returns is the index of its path; after
any more actions every path has the number it had; and opening the registry again ends, when the
directories are not nested without end.  Every text can be read back from its encoding, which has no
line break.
SOURCE: rpc/ftp.rs:30-68, 79-177, 461-469 -/
theorem file_numbers_stable (root : Text) (directory : Directory)
    (actions more : List FileAction) (s s' : FileSession)
    (hrun : run (fileStep root directory) FileSession.start actions = some s)
    (hmore : run (fileStep root directory) s more = some s') :
    (∃ paths paths', Listed s paths ∧ Listed s' paths' ∧ paths <+: paths' ∧
        FileRegistry.listedPaths s.disk.list = some paths) ∧
      (∀ registry registry', s.registry = some registry → s'.registry = some registry' →
        ∀ path i, registry.byPath.lookup path = some i →
          registry'.byPath.lookup path = some i) ∧
      (∀ registry path i registry' disk', s.registry = some registry →
        (FileRegistry.numberOf path registry).exec (Disk.respond directory) s.disk =
            some ((.ok i, registry'), disk') →
          registry'.paths[i]? = some (if path = [] then ['/'] else path)) ∧
      (∀ depth, NestedBelow root depth directory →
        ∃ s'', fileStep root directory s (.restart (depth + 1)) = some s'') ∧
      ∀ text,
        urlDecode (urlEncode text) = text ∧ '\n' ∉ urlEncode text ∧ '\r' ∉ urlEncode text := by
  obtain ⟨paths, hlisted, -⟩ := listed_run listed_start hrun
  obtain ⟨paths', hlisted', hgrown⟩ := listed_run hlisted hmore
  refine ⟨⟨paths, paths', hlisted, hlisted', hgrown, ?_⟩, ?_, ?_, ?_, ?_⟩
  · rw [hlisted.list]
    exact listedPaths_listBytes paths
  · intro registry registry' hregistry hregistry' path i hlookup
    obtain ⟨hpaths, hinverse⟩ := hlisted.registry registry hregistry
    obtain ⟨hpaths', hinverse'⟩ := hlisted'.registry registry' hregistry'
    have hi := (hinverse.byPath path i).mp hlookup
    have hlt := (List.getElem?_eq_some_iff.mp hi).1
    rw [hpaths] at hi hlt
    obtain ⟨rest, rfl⟩ := hgrown
    refine (hinverse'.byPath path i).mpr ?_
    rw [hpaths', List.getElem?_append_left hlt, hi]
  · intro registry path i registry' disk' hregistry hexec
    obtain ⟨hpaths, hinverse⟩ := hlisted.registry registry hregistry
    have hkept : FilesKept [] registry s.disk :=
      ⟨by rw [hpaths]; exact hlisted.list, hinverse, List.nil_prefix⟩
    exact (numberOf_leads path registry s.disk hkept _ registry' disk' hexec).2 i rfl
  · intro depth hdepth
    obtain ⟨r, registry', disk', hexec, -⟩ := openAt_stops hdepth ⟨root, [], []⟩ s.disk rfl
    exact ⟨⟨openedRegistry (r, registry'), disk'⟩, by rw [fileStep, hexec]; rfl⟩
  · intro text
    refine ⟨urlDecode_urlEncode text, fun h => ?_, fun h => ?_⟩
    · exact absurd (urlEncode_printable text _ h).1 (by decide)
    · exact absurd (urlEncode_printable text _ h).1 (by decide)

/-- A directory with one file, in which everything else that is asked for exists. -/
def oneFile : Directory := fun _ request =>
  match request with
  | .isDir _ => ⟨false, [], 0, []⟩
  | .readDir _ => ⟨true, [⟨['a', ' '], by decide, by decide, by decide, by decide⟩], 0, []⟩
  | _ => ⟨true, [], 0, []⟩

/-- The directory is served, a file with a line break in its name is asked for, and after a restart
both files have their numbers. -/
theorem file_numbers_stable_restart :
    ∃ s s' registry registry',
      run (fileStep ['/', 's'] oneFile) FileSession.start
          [.restart 1, .numberOf ['/', '\n']] = some s ∧
        run (fileStep ['/', 's'] oneFile) s [.restart 1] = some s' ∧
        s.registry = some registry ∧ s'.registry = some registry' ∧
        registry.byPath.lookup ['/', '\n'] = some 2 ∧
        registry'.byPath.lookup ['/', '\n'] = some 2 := by
  have heval : (run (fileStep ['/', 's'] oneFile) FileSession.start
      [.restart 1, .numberOf ['/', '\n']]).bind (fun s =>
        (run (fileStep ['/', 's'] oneFile) s [.restart 1]).bind fun s' =>
          s.registry.bind fun registry => s'.registry.bind fun _ =>
            registry.byPath.lookup ['/', '\n']) = some 2 := by
    decide +kernel
  obtain ⟨s, hrun, heval⟩ := Option.bind_eq_some_iff.mp heval
  obtain ⟨s', hmore, heval⟩ := Option.bind_eq_some_iff.mp heval
  obtain ⟨registry, hregistry, heval⟩ := Option.bind_eq_some_iff.mp heval
  obtain ⟨registry', hregistry', hlookup⟩ := Option.bind_eq_some_iff.mp heval
  exact ⟨s, s', registry, registry', hrun, hmore, hregistry, hregistry', hlookup,
    (file_numbers_stable _ oneFile _ _ s s' hrun hmore).2.1 registry registry' hregistry
      hregistry' _ 2 hlookup⟩

end Uartbus.Analysis
